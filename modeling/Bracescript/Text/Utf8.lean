import Bracescript.Bytes

/-!
# UTF-8 in byte texts

A byte text reads as a sequence of characters and stray bytes, so nothing in it is lost.
-/

namespace Bracescript.Text

/-- A character of a byte text, or a byte that is part of none. -/
inductive Glyph where
  | char (c : Char)
  | stray (b : UInt8)
  deriving DecidableEq, Repr

namespace Glyph

def bytes : Glyph → Bytes
  | char c => Bytes.ofChar c
  | stray b => [b]

/-- The bytes of the glyph, with the replacement character for a stray byte. -/
def repaired : Glyph → Bytes
  | char c => Bytes.ofChar c
  | stray _ => Bytes.ofChar '�'

/-- The character, or the replacement character for a stray byte. -/
def toChar : Glyph → Char
  | char c => c
  | stray _ => '�'

end Glyph

def isContinuation (b : UInt8) : Bool := 0x80 ≤ b && b ≤ 0xbf

/-- The glyph that `b` begins when `rest` follows it, with the number of bytes it takes. -/
def glyphAt (b : UInt8) (rest : Bytes) : Glyph × Nat :=
  let low (x : UInt8) : Nat := x.toNat % 64
  if b < 0x80 then (.char (Char.ofNat b.toNat), 1)
  else if 0xc2 ≤ b && b ≤ 0xdf then
    match rest with
    | c :: _ => if isContinuation c then (.char (Char.ofNat ((b.toNat - 0xc0) * 64 + low c)), 2) else (.stray b, 1)
    | _ => (.stray b, 1)
  else if 0xe0 ≤ b && b ≤ 0xef then
    match rest with
    | c :: d :: _ =>
      let least : UInt8 := if b = 0xe0 then 0xa0 else 0x80
      let most : UInt8 := if b = 0xed then 0x9f else 0xbf
      if least ≤ c && c ≤ most && isContinuation d then
        (.char (Char.ofNat (((b.toNat - 0xe0) * 64 + low c) * 64 + low d)), 3)
      else (.stray b, 1)
    | _ => (.stray b, 1)
  else if 0xf0 ≤ b && b ≤ 0xf4 then
    match rest with
    | c :: d :: e :: _ =>
      let least : UInt8 := if b = 0xf0 then 0x90 else 0x80
      let most : UInt8 := if b = 0xf4 then 0x8f else 0xbf
      if least ≤ c && c ≤ most && isContinuation d && isContinuation e then
        (.char (Char.ofNat ((((b.toNat - 0xf0) * 64 + low c) * 64 + low d) * 64 + low e)), 4)
      else (.stray b, 1)
    | _ => (.stray b, 1)
  else (.stray b, 1)

/-- The glyphs of a text whose first `taken` bytes belong to a glyph already read. -/
def glyphsFrom : Nat → Bytes → List Glyph
  | _, [] => []
  | taken + 1, _ :: rest => glyphsFrom taken rest
  | 0, b :: rest =>
    let (glyph, size) := glyphAt b rest
    glyph :: glyphsFrom (size - 1) rest

def glyphs (text : Bytes) : List Glyph := glyphsFrom 0 text

/-- The characters of a text; a stray byte reads as the replacement character. -/
def chars (text : Bytes) : List Char := (glyphs text).map Glyph.toChar

/-- Whether the text is valid UTF-8. -/
def isUtf8 (text : Bytes) : Bool := (glyphs text).all fun
  | .char _ => true
  | .stray _ => false

/-- The text as a string when it is valid UTF-8. -/
def toString? (text : Bytes) : Option String :=
  if isUtf8 text then some (String.ofList (chars text)) else none

end Bracescript.Text
