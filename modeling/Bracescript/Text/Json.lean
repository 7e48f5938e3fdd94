import Bracescript.Text.Utf8

/-!
# JSON documents

Values and the two ways of writing them: in one line, or over several lines with two blanks per level.
-/

namespace Bracescript

inductive Json where
  | null
  | bool (b : Bool)
  | int (n : Int)
  | text (s : Bytes)
  | list (items : List Json)
  | object (fields : List (Bytes × Json))

namespace Json

open Text

def nat (n : Nat) : Json := int n

/-- An object whose fields are put in ascending order of their names. -/
def sortedObject (fields : List (Bytes × Json)) : Json :=
  object (fields.mergeSort fun a b => Bytes.le a.1 b.1)

/-- A character of a string; `markup` asks to hide the characters that HTML gives a meaning. -/
def escapeChar (markup : Bool) (c : Char) : Bytes :=
  match c.toNat with
  | 0x22 => "\\\""
  | 0x5c => "\\\\"
  | 0x08 => "\\b"
  | 0x0c => "\\f"
  | 0x0a => "\\n"
  | 0x0d => "\\r"
  | 0x09 => "\\t"
  | n =>
    if n < 0x20 || n = 0x2028 || n = 0x2029 then "\\u" ++ Bytes.hex 4 n
    else if markup && (n = 0x3c || n = 0x3e || n = 0x26) then "\\u" ++ Bytes.hex 4 n
    else Bytes.ofChar c

/-- A string in double quotes; a stray byte becomes the replacement character. -/
def string (markup : Bool) (s : Bytes) : Bytes :=
  "\"" ++ (glyphs s).flatMap (fun g => escapeChar markup g.toChar) ++ "\""

mutual

/-- The value in one line, without blanks. -/
def compact (markup : Bool) : Json → Bytes
  | null => "null"
  | bool b => if b then "true" else "false"
  | int n => Bytes.ofInt n
  | text s => string markup s
  | list items => "[" ++ compactItems markup items ++ "]"
  | object fields => "\x7b" ++ compactFields markup fields ++ "\x7d"

def compactItems (markup : Bool) : List Json → Bytes
  | [] => []
  | [item] => compact markup item
  | item :: items => compact markup item ++ "," ++ compactItems markup items

def compactFields (markup : Bool) : List (Bytes × Json) → Bytes
  | [] => []
  | [(name, value)] => string markup name ++ ":" ++ compact markup value
  | (name, value) :: fields =>
    string markup name ++ ":" ++ compact markup value ++ "," ++ compactFields markup fields

end

/-- A line break followed by two blanks per level. -/
def breakLine (level : Nat) : Bytes := "\n" ++ Bytes.repeated (2 * level) 0x20

mutual

/-- The value over several lines, its own first line at the given level. -/
def indented (markup : Bool) (level : Nat) : Json → Bytes
  | null => "null"
  | bool b => if b then "true" else "false"
  | int n => Bytes.ofInt n
  | text s => string markup s
  | list [] => "[]"
  | list (item :: items) =>
    "[" ++ breakLine (level + 1) ++ indented markup (level + 1) item ++ indentedItems markup (level + 1) items
      ++ breakLine level ++ "]"
  | object [] => "\x7b\x7d"
  | object ((name, value) :: fields) =>
    "\x7b" ++ breakLine (level + 1) ++ string markup name ++ ": " ++ indented markup (level + 1) value
      ++ indentedFields markup (level + 1) fields ++ breakLine level ++ "\x7d"

def indentedItems (markup : Bool) (level : Nat) : List Json → Bytes
  | [] => []
  | item :: items => "," ++ breakLine level ++ indented markup level item ++ indentedItems markup level items

def indentedFields (markup : Bool) (level : Nat) : List (Bytes × Json) → Bytes
  | [] => []
  | (name, value) :: fields =>
    "," ++ breakLine level ++ string markup name ++ ": " ++ indented markup level value
      ++ indentedFields markup level fields

end

/-- A document: the value over several lines and a line break. -/
def document (markup : Bool) (value : Json) : Bytes := indented markup 0 value ++ "\n"

end Json

end Bracescript
