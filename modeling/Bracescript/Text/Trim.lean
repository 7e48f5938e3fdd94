import Bracescript.Text.Utf8

/-!
# Blank edges and letter case

What surrounds or spells a word without changing which word it is.
-/

namespace Bracescript.Text

/-- White space in the sense of Unicode. -/
def isSpace (c : Char) : Bool :=
  let n := c.toNat
  (0x09 ≤ n && n ≤ 0x0d) || n = 0x20 || n = 0x85 || n = 0xa0 || n = 0x1680 || (0x2000 ≤ n && n ≤ 0x200a)
    || n = 0x2028 || n = 0x2029 || n = 0x202f || n = 0x205f || n = 0x3000

def Glyph.isSpace : Glyph → Bool
  | char c => Text.isSpace c
  | stray _ => false

/-- The text without white space at both ends. -/
def trim (text : Bytes) : Bytes :=
  let front := (glyphs text).dropWhile Glyph.isSpace
  let inner := (front.reverse.dropWhile Glyph.isSpace).reverse
  inner.flatMap Glyph.bytes

/-- Lower case as far as ASCII letters can come of it: besides `A` to `Z` these are the dotted capital I and
the Kelvin sign. -/
def lowerGlyph : Glyph → Glyph
  | .char c =>
    let n := c.toNat
    if 0x41 ≤ n && n ≤ 0x5a then .char (Char.ofNat (n + 32))
    else if n = 0x130 then .char 'i'
    else if n = 0x212a then .char 'k'
    else .char c
  | .stray b => .stray b

/-- The text for comparison with a lower-case ASCII word. -/
def lower (text : Bytes) : Bytes := (glyphs text).flatMap fun g => (lowerGlyph g).bytes

end Bracescript.Text
