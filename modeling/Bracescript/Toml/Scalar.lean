import Bracescript.Bytes

/-!
# Numbers and times in settings

Which words are numbers, dates or times. Their values are never needed.
-/

namespace Bracescript.Toml

def isDigit (c : Char) : Bool := '0' ≤ c && c ≤ '9'

def isHexDigit (c : Char) : Bool := isDigit c || ('a' ≤ c && c ≤ 'f') || ('A' ≤ c && c ≤ 'F')

def digitValue (c : Char) : Nat :=
  if isDigit c then c.toNat - '0'.toNat
  else if 'a' ≤ c then c.toNat - 'a'.toNat + 10
  else c.toNat - 'A'.toNat + 10

/-- The number that digits spell in a base. -/
def numeral (base : Nat) (digits : List Char) : Nat := digits.foldl (fun n c => n * base + digitValue c) 0

/-! ## Underscores, zeros and points -/

/-- Every underscore stands between digits, and a digit ends the word. -/
def underscoresOk : Bool → List Char → Bool
  | afterDigit, [] => afterDigit
  | afterDigit, c :: cs => (c ≠ '_' || afterDigit) && underscoresOk (isHexDigit c) cs

/-- Whether a zero stands in front of further digits. -/
def hasLeadingZero : List Char → Bool
  | '0' :: c :: _ => !(c = 'b' || c = 'o' || c = 'x')
  | '-' :: '0' :: _ :: _ => true
  | '+' :: '0' :: _ :: _ => true
  | _ => false

/-- A digit follows every point. -/
def pointsOk : List Char → Bool
  | [] => true
  | '.' :: c :: cs => isDigit c && pointsOk (c :: cs)
  | ['.'] => false
  | _ :: cs => pointsOk cs

/-! ## Integers -/

/-- Whether an integer, given by its sign and size, fits in 64 bits. -/
def fits (negative : Bool) (n : Nat) : Bool := if negative then n ≤ Nat.pow 2 63 else n < Nat.pow 2 63

def isInteger (word : List Char) : Bool :=
  let digits := word.filter (· ≠ '_')
  let sized : Bool := match digits with
    | '0' :: 'x' :: ds => fits false (numeral 16 ds)
    | '0' :: 'o' :: ds => fits false (numeral 8 ds)
    | '0' :: 'b' :: ds => fits false (numeral 2 ds)
    | '-' :: ds => fits true (numeral 10 ds)
    | '+' :: ds => fits false (numeral 10 ds)
    | ds => fits false (numeral 10 ds)
  underscoresOk false word && !hasLeadingZero word && sized

/-! ## Floating point -/

/-- Pieces between points and exponent marks. -/
def floatParts (word : List Char) : List (List Char) :=
  (word.splitBy fun a b => !(mark a || mark b)).filter fun part => !part.any mark
where
  mark (c : Char) : Bool := c = '.' || c = 'e' || c = 'E'

/-- A sign, if there is one, and the rest. -/
def takeSign : List Char → Bool × List Char
  | '-' :: cs => (true, cs)
  | '+' :: cs => (false, cs)
  | cs => (false, cs)

/-- Whether `mantissa * 10 ^ exponent` is a finite double. -/
def isFinite (mantissa : Nat) (exponent : Int) : Bool :=
  let limit := Nat.pow 2 1024 - Nat.pow 2 970
  if mantissa = 0 then true
  else
    match exponent with
    | .ofNat e => e ≤ 400 && mantissa * Nat.pow 10 e < limit
    | .negSucc e =>
      let size := (Nat.toDigits 10 mantissa).length
      size ≤ e + 300 || mantissa < limit * Nat.pow 10 (e + 1)

/-- Digits with an optional fraction and an optional exponent, of a finite double. -/
def isDecimal (word : List Char) : Bool :=
  let (_, cs) := takeSign word
  let whole := cs.takeWhile isDigit
  let cs := cs.dropWhile isDigit
  let (fraction, cs) : List Char × List Char := match cs with
    | '.' :: rest => (rest.takeWhile isDigit, rest.dropWhile isDigit)
    | _ => ([], cs)
  let mantissa := numeral 10 (whole ++ fraction)
  if (whole ++ fraction).isEmpty then false
  else
    match cs with
    | [] => isFinite mantissa (-fraction.length)
    | c :: rest =>
      let (negative, digits) := takeSign rest
      let e : Int := numeral 10 digits
      (c = 'e' || c = 'E') && !digits.isEmpty && digits.all isDigit
        && isFinite mantissa ((if negative then -e else e) - fraction.length)

def isFloat (word : List Char) : Bool :=
  let parts := floatParts word
  parts.all (underscoresOk false) && !hasLeadingZero (parts.headD []) && pointsOk word
    && isDecimal (word.filter (· ≠ '_'))

/-! ## Dates and times -/

def two? : List Char → Option (Nat × List Char)
  | a :: b :: cs => if isDigit a && isDigit b then some (numeral 10 [a, b], cs) else none
  | _ => none

def isLeap (year : Nat) : Bool := year % 4 = 0 && (year % 100 ≠ 0 || year % 400 = 0)

def daysIn (year month : Nat) : Nat :=
  if month = 2 then (if isLeap year then 29 else 28)
  else if month = 4 || month = 6 || month = 9 || month = 11 then 30
  else 31

/-- A date in front, and what follows it. -/
def date? (cs : List Char) : Option (List Char) :=
  match cs with
  | a :: b :: c :: d :: '-' :: rest =>
    match two? rest with
    | some (month, '-' :: rest) =>
      match two? rest with
      | some (day, rest) =>
        let year := numeral 10 [a, b, c, d]
        if [a, b, c, d].all isDigit && 1 ≤ month && month ≤ 12 && 1 ≤ day && day ≤ daysIn year month then some rest
        else none
      | none => none
    | _ => none
  | _ => none

/-- The hour in front, which may have one digit, and what follows it. -/
def hour? : List Char → Option (Nat × List Char)
  | a :: cs =>
    if !isDigit a then none
    else
      match cs with
      | b :: rest => if isDigit b then some (numeral 10 [a, b], rest) else some (digitValue a, cs)
      | [] => some (digitValue a, [])
  | [] => none

/-- A time in front, with an optional fraction of a second, and what follows it. -/
def time? (cs : List Char) : Option (List Char) :=
  match hour? cs with
  | some (hour, ':' :: rest) =>
    match two? rest with
    | some (minute, ':' :: rest) =>
      match two? rest with
      | some (second, rest) =>
        let rest : Option (List Char) := match rest with
          | '.' :: more => if more.headD ' ' |> isDigit then some (more.dropWhile isDigit) else none
          | _ => some rest
        if hour < 24 && minute < 60 && second < 60 then rest else none
      | none => none
    | _ => none
  | _ => none

/-- Nothing, or the distance from the universal time. -/
def isZone : List Char → Bool
  | [] => true
  | ['Z'] | ['z'] => true
  | sign :: rest =>
    match two? rest with
    | some (hour, ':' :: rest) =>
      match two? rest with
      | some (minute, []) => (sign = '+' || sign = '-') && hour ≤ 24 && minute ≤ 60
      | _ => false
    | _ => false

def isTime (word : List Char) : Bool :=
  match date? word with
  | some [] => true
  | some (mark :: rest) =>
    match time? rest with
    | some rest => (mark = 'T' || mark = 't' || mark = ' ') && isZone rest
    | none => false
  | none => time? word = some []

end Bracescript.Toml
