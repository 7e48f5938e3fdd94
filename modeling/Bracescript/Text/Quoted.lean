import Bracescript.Text.Utf8
import Bracescript.Text.Printable

/-!
# Quoted text

How messages show a text: in quotes, with escapes for what cannot be printed.
-/

namespace Bracescript.Text

/-- One character inside the given quote. -/
def escapeChar (quote c : Char) : Bytes :=
  if c = quote || c = '\\' then Bytes.ascii '\\' :: Bytes.ofChar c
  else if isPrintable c then Bytes.ofChar c
  else
    match c.toNat with
    | 0x07 => "\\a"
    | 0x08 => "\\b"
    | 0x0c => "\\f"
    | 0x0a => "\\n"
    | 0x0d => "\\r"
    | 0x09 => "\\t"
    | 0x0b => "\\v"
    | n =>
      if n < 0x20 || n = 0x7f then "\\x" ++ Bytes.hex 2 n
      else if n < 0x10000 then "\\u" ++ Bytes.hex 4 n
      else "\\U" ++ Bytes.hex 8 n

/-- A text in double quotes; a stray byte is shown by its number. -/
def quoted (text : Bytes) : Bytes :=
  "\"" ++ ((glyphs text).flatMap fun
    | .char c => escapeChar '"' c
    | .stray b => "\\x" ++ Bytes.hex 2 b.toNat) ++ "\""

/-- A character in single quotes. -/
def quotedChar (c : Char) : Bytes := "'" ++ escapeChar '\'' c ++ "'"

end Bracescript.Text
