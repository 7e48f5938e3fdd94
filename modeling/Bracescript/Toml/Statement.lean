import Bracescript.Toml.Scalar
import Bracescript.Text.Utf8

/-!
# Statements of settings

The text of a settings file, line by line: headers of tables, and keys with their values.
-/

namespace Bracescript.Toml

/-- The parts of a key. -/
abbrev Key := List Bytes

inductive Value where
  | text (s : Bytes)
  | bool (b : Bool)
  /-- A number or a time. -/
  | measure
  | list (items : List Value)
  /-- A table in braces. -/
  | record (fields : List (Key × Value))

inductive Statement where
  | header (key : Key)
  /-- The header of one more table of a list. -/
  | element (key : Key)
  | assign (key : Key) (value : Value)

abbrev Scan (α : Type) := Option (α × List Char)

def isBlank (c : Char) : Bool := c = ' ' || c = '\t'

def isBreak (c : Char) : Bool := c = '\n' || c = '\r'

def skipBlanks (cs : List Char) : List Char := cs.dropWhile isBlank

def bytesOf (cs : List Char) : Bytes := cs.flatMap Bytes.ofChar

/-! ## Strings -/

/-- The character of a code point written in hexadecimal digits. -/
def codePoint? (width : Nat) (cs : List Char) : Scan Char :=
  let digits := cs.take width
  let n := numeral 16 digits
  if digits.length = width && digits.all isHexDigit && n.isValidChar then some (Char.ofNat n, cs.drop width) else none

/-- What a backslash and the following characters stand for. -/
def escape? : List Char → Scan Char
  | 'b' :: cs => some ('\x08', cs)
  | 't' :: cs => some ('\t', cs)
  | 'n' :: cs => some ('\n', cs)
  | 'f' :: cs => some ('\x0c', cs)
  | 'r' :: cs => some ('\r', cs)
  | '"' :: cs => some ('"', cs)
  | '\\' :: cs => some ('\\', cs)
  | 'u' :: cs => codePoint? 4 cs
  | 'U' :: cs => codePoint? 8 cs
  | _ => none

/-- A string in double quotes, behind the first one. -/
def basic : Nat → List Char → Scan (List Char)
  | 0, _ => none
  | _, [] => none
  | fuel + 1, c :: cs =>
    if c = '"' then some ([], cs)
    else if isBreak c then none
    else if c = '\\' then
      match escape? cs with
      | none => none
      | some (d, cs) => (basic fuel cs).map fun (s, rest) => (d :: s, rest)
    else (basic fuel cs).map fun (s, rest) => (c :: s, rest)

/-- A string in single quotes, behind the first one. -/
def literal : List Char → Scan (List Char)
  | [] => none
  | c :: cs =>
    if c = '\'' then some ([], cs)
    else if isBreak c then none
    else (literal cs).map fun (s, rest) => (c :: s, rest)

/-- The text without a line break at its start. -/
def dropFirstBreak : List Char → List Char
  | '\n' :: cs => cs
  | '\r' :: '\n' :: cs => cs
  | cs => cs

def isEdge (c : Char) : Bool := isBlank c || isBreak c

/-- The greatest number of quotes at the end of a string over several lines. The last three end it and the others
belong to it; behind a backslash there may be one more. -/
def mostQuotes (afterBackslash : Bool) : Nat := if afterBackslash then 6 else 5

/-- A string over several lines, which three quotes end. `raw` strings know no backslash; `afterBackslash` says that
an escaped one stands in front. -/
def multiline (quote : Char) (raw afterBackslash : Bool) : Nat → List Char → Scan (List Char)
  | 0, _ => none
  | _, [] => none
  | fuel + 1, c :: cs =>
    if c = quote then
      let quotes := (c :: cs).takeWhile (· = quote)
      let rest := (c :: cs).dropWhile (· = quote)
      if quotes.length < 3 then (multiline quote raw false fuel rest).map fun (s, rest) => (quotes ++ s, rest)
      else if quotes.length ≤ mostQuotes afterBackslash then some (quotes.drop 3, rest)
      else none
    else if c = '\\' && !raw then
      let edge := cs.takeWhile isEdge
      if edge.isEmpty then
        match escape? cs with
        | none => none
        | some (d, rest) =>
          (multiline quote raw (cs.head? = some '\\') fuel rest).map fun (s, rest) => (d :: s, rest)
      else if edge.contains '\n' then multiline quote raw false fuel (cs.dropWhile isEdge)
      else none
    else (multiline quote raw false fuel cs).map fun (s, rest) => (c :: s, rest)

/-! ## Keys -/

def isBare (c : Char) : Bool := c.isAlphanum || c = '_' || c = '-'

/-- One part of a key. -/
def keyPart (cs : List Char) : Scan Bytes :=
  match skipBlanks cs with
  | '"' :: cs => (basic (cs.length + 1) cs).map fun (s, rest) => (bytesOf s, rest)
  | '\'' :: cs => (literal cs).map fun (s, rest) => (bytesOf s, rest)
  | cs =>
    let word := cs.takeWhile isBare
    if word.isEmpty then none else some (bytesOf word, cs.dropWhile isBare)

/-- A key with the blanks behind it. -/
def key : Nat → List Char → Scan Key
  | 0, _ => none
  | fuel + 1, cs =>
    match keyPart cs with
    | none => none
    | some (part, cs) =>
      match skipBlanks cs with
      | '.' :: cs => (key fuel cs).map fun (parts, rest) => (part :: parts, rest)
      | cs => some ([part], cs)

/-! ## Values -/

def isFloatChar (c : Char) : Bool := isDigit c || c = '_' || c = '.' || c = '-' || c = '+' || c = 'e' || c = 'E'

def isTimeChar (c : Char) : Bool :=
  isDigit c || c = '-' || c = ':' || c = 'T' || c = 't' || c = ' ' || c = '.' || c = 'Z' || c = 'z' || c = '+'

def measureIf (ok : Bool) (rest : List Char) : Scan Value := if ok then some (.measure, rest) else none

def asFloat (cs : List Char) : Scan Value := measureIf (isFloat (cs.takeWhile isFloatChar)) (cs.dropWhile isFloatChar)

/-- A number in another base, behind the mark of the base. -/
def based (mark : Char) (isBaseDigit : Char → Bool) (cs : List Char) : Scan Value :=
  let part (c : Char) : Bool := isBaseDigit c || c = '_'
  match cs with
  | [] => none
  | c :: _ =>
    measureIf (isBaseDigit c && isInteger (['0', mark] ++ cs.takeWhile part)) (cs.dropWhile part)

/-- A decimal number: `front` is its sign, if it has one. -/
def decimal (front cs : List Char) : Scan Value :=
  let part (c : Char) : Bool := isDigit c || c = '_'
  match cs.dropWhile part with
  | c :: _ =>
    if c = '.' || c = 'e' || c = 'E' then
      measureIf (isFloat (front ++ cs.takeWhile isFloatChar)) (cs.dropWhile isFloatChar)
    else measureIf (isInteger (front ++ cs.takeWhile part)) (cs.dropWhile part)
  | [] => measureIf (isInteger (front ++ cs.takeWhile part)) []

def dropLastBlanks (cs : List Char) : List Char := (cs.reverse.dropWhile (· = ' ')).reverse

/-- A number or a time that begins with a digit. No time begins with a single zero. -/
def numberOrTime (cs : List Char) : Scan Value :=
  match cs with
  | '0' :: 'b' :: rest => based 'b' (fun c => c = '0' || c = '1') rest
  | '0' :: 'o' :: rest => based 'o' (fun c => '0' ≤ c && c ≤ '7') rest
  | '0' :: 'x' :: rest => based 'x' isHexDigit rest
  | _ =>
    match cs.dropWhile isDigit with
    | c :: _ =>
      if (c = '-' || c = ':') && cs.takeWhile isDigit ≠ ['0'] then
        measureIf (isTime (dropLastBlanks (cs.takeWhile isTimeChar))) (cs.dropWhile isTimeChar)
      else decimal [] cs
    | [] => decimal [] cs

/-- A number behind its sign. -/
def signed (sign : Char) (cs : List Char) : Scan Value :=
  match cs with
  | 'i' :: 'n' :: 'f' :: rest => some (.measure, rest)
  | 'n' :: 'a' :: 'n' :: rest => some (.measure, rest)
  | '0' :: c :: _ => if c = 'b' || c = 'o' || c = 'x' then none else decimal [sign] cs
  | c :: _ => if isDigit c then decimal [sign] cs else none
  | [] => none

/-- A value that is a word. -/
def word (cs : List Char) : Scan Value :=
  let letters := cs.takeWhile Char.isAlpha
  let rest := cs.dropWhile Char.isAlpha
  if letters = ['t', 'r', 'u', 'e'] then some (.bool true, rest)
  else if letters = ['f', 'a', 'l', 's', 'e'] then some (.bool false, rest)
  else if letters = ['i', 'n', 'f'] || letters = ['n', 'a', 'n'] then some (.measure, rest)
  else none

/-- Everything up to the end of the line. -/
def skipComment (cs : List Char) : List Char := cs.dropWhile fun c => !isBreak c

/-- Skips blanks, line breaks and comments. -/
def skipSpace : Nat → List Char → List Char
  | 0, cs => cs
  | fuel + 1, cs =>
    match cs.dropWhile isEdge with
    | '#' :: cs => skipSpace fuel (skipComment cs)
    | cs => cs

def asText (s : Scan (List Char)) : Scan Value := s.map fun (s, rest) => (.text (bytesOf s), rest)

mutual

def value : Nat → List Char → Scan Value
  | 0, _ => none
  | fuel + 1, cs =>
    match skipBlanks cs with
    | '[' :: cs => (items fuel cs).map fun (vs, rest) => (.list vs, rest)
    | '\x7b' :: cs =>
      match skipBlanks cs with
      | '\x7d' :: cs => some (.record [], cs)
      | cs => (fields fuel cs).map fun (fs, rest) => (.record fs, rest)
    | '"' :: '"' :: '"' :: cs => asText (multiline '"' false false (cs.length + 1) (dropFirstBreak cs))
    | '"' :: cs => asText (basic (cs.length + 1) cs)
    | '\'' :: '\'' :: '\'' :: cs => asText (multiline '\'' true false (cs.length + 1) (dropFirstBreak cs))
    | '\'' :: cs => asText (literal cs)
    | '-' :: cs => signed '-' cs
    | '+' :: cs => signed '+' cs
    | c :: cs => if isDigit c then numberOrTime (c :: cs) else word (c :: cs)
    | [] => none

/-- The values of a list, behind its bracket or a comma. -/
def items : Nat → List Char → Scan (List Value)
  | 0, _ => none
  | fuel + 1, cs =>
    match skipSpace cs.length cs with
    | ']' :: cs => some ([], cs)
    | cs =>
      match value fuel cs with
      | none => none
      | some (v, cs) =>
        match skipSpace cs.length cs with
        | ',' :: cs => (items fuel cs).map fun (vs, rest) => (v :: vs, rest)
        | ']' :: cs => some ([v], cs)
        | _ => none

/-- The fields of a table in braces, of which there is one at least. -/
def fields : Nat → List Char → Scan (List (Key × Value))
  | 0, _ => none
  | fuel + 1, cs =>
    match key fuel cs with
    | some (k, '=' :: cs) =>
      match value fuel cs with
      | none => none
      | some (v, cs) =>
        match skipBlanks cs with
        | ',' :: cs => (fields fuel cs).map fun (fs, rest) => ((k, v) :: fs, rest)
        | '\x7d' :: cs => some ([(k, v)], cs)
        | _ => none
    | _ => none

end

/-! ## Statements -/

/-- One statement. -/
def statement (fuel : Nat) (cs : List Char) : Scan Statement :=
  match cs with
  | '[' :: '[' :: cs =>
    match key fuel cs with
    | some (k, ']' :: ']' :: cs) => some (.element k, cs)
    | _ => none
  | '[' :: cs =>
    match key fuel cs with
    | some (k, ']' :: cs) => some (.header k, cs)
    | _ => none
  | cs =>
    match key fuel cs with
    | some (k, '=' :: cs) => (value fuel cs).map fun (v, rest) => (.assign k v, rest)
    | _ => none

/-- All statements; each ends its line. -/
def statements : Nat → List Char → Option (List Statement)
  | 0, _ => none
  | fuel + 1, cs =>
    match skipSpace cs.length cs with
    | [] => some []
    | cs =>
      match statement fuel cs with
      | none => none
      | some (s, cs) =>
        match skipBlanks cs with
        | [] => some [s]
        | c :: cs =>
          if c = '#' || isBreak c then (statements fuel (if c = '#' then skipComment cs else cs)).map fun ss => s :: ss
          else none

/-- Whether a character may stand in a settings file. The replacement character may not: it is what malformed text
reads as. -/
def isAdmitted (c : Char) : Bool := c = '\t' || c = '\n' || !(c.toNat < 0x20 || c.toNat = 0x7f || c = '�')

/-- No control characters but tabs and line breaks, and nothing malformed; a carriage return belongs to a line feed. -/
def isClean : List Char → Bool
  | [] => true
  | '\r' :: '\n' :: cs => isClean cs
  | c :: cs => isAdmitted c && isClean cs

/-- The text without a byte order mark. -/
def unmarked (text : Bytes) : Bytes :=
  if text.startsWith [0xff, 0xfe] || text.startsWith [0xfe, 0xff] then text.drop 2
  else if text.startsWith [0xef, 0xbb, 0xbf] then text.drop 3
  else text

/-- The statements of a settings file, or `none` if it is malformed. -/
def scan (text : Bytes) : Option (List Statement) :=
  let cs := Text.chars (unmarked text)
  if isClean cs then statements (cs.length + 2) cs else none

end Bracescript.Toml
