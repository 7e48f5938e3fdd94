import Bracescript.Text.Quoted

/-!
# Integers with a base

An integer may be written in base 2, 8, 10 or 16, which shows in its first digits, and single underscores may stand
between digits. It has to fit into 64 bits.
-/

namespace Bracescript.Flag

/-- Why a text is no integer. -/
inductive IntegerFault where
  | malformed
  | outOfRange
  deriving DecidableEq, Repr

def IntegerFault.message (text : Bytes) (f : IntegerFault) : Bytes :=
  let reason : Bytes := match f with
    | malformed => "invalid syntax"
    | outOfRange => "value out of range"
  "strconv.ParseInt: parsing " ++ Text.quoted text ++ ": " ++ reason

namespace Integer

def underscore : UInt8 := Bytes.ascii '_'

/-- The value of a digit in the largest base. -/
def digit? (b : UInt8) : Option Nat :=
  if Bytes.isDigit b then some (b.toNat - 0x30)
  else if Bytes.isLower b then some (b.toNat - 0x61 + 10)
  else if Bytes.isUpper b then some (b.toNat - 0x41 + 10)
  else none

/-- The base that the letter after a zero names. -/
def baseOf? (b : UInt8) : Option Nat :=
  if b = Bytes.ascii 'b' || b = Bytes.ascii 'B' then some 2
  else if b = Bytes.ascii 'o' || b = Bytes.ascii 'O' then some 8
  else if b = Bytes.ascii 'x' || b = Bytes.ascii 'X' then some 16
  else none

/-- The base of a number without its sign, and its digits. A zero in front means base 8. -/
def baseAndDigits : Bytes → Nat × Bytes
  | 0x30 :: b :: c :: rest =>
    match baseOf? b with
    | some base => (base, c :: rest)
    | none => (8, b :: c :: rest)
  | 0x30 :: rest => (8, rest)
  | digits => (10, digits)

/-- The value of digits, told apart from the first digit that leads beyond 64 bits. -/
def value (base : Nat) : Nat → Bytes → Except IntegerFault Nat
  | n, [] => .ok n
  | n, b :: rest =>
    if b = underscore then value base n rest
    else
      match digit? b with
      | none => .error .malformed
      | some d =>
        if base ≤ d then .error .malformed
        else if Nat.pow 2 64 ≤ n * base + d then .error .outOfRange
        else value base (n * base + d) rest

/-- Whether every underscore stands between two digits; `afterDigit` tells of the byte before. -/
def underscoresFit (hex afterDigit afterUnderscore : Bool) : Bytes → Bool
  | [] => !afterUnderscore
  | b :: rest =>
    if Bytes.isDigit b || (hex && Bytes.isHex b) then underscoresFit hex true false rest
    else if b = underscore then afterDigit && underscoresFit hex false true rest
    else !afterUnderscore && underscoresFit hex false false rest

/-- The rule for underscores on a number without its sign; the sign of its base counts as a digit. -/
def isWellSpaced : Bytes → Bool
  | 0x30 :: b :: rest =>
    match baseOf? b with
    | some base => underscoresFit (base = 16) true false rest
    | none => underscoresFit false false false (0x30 :: b :: rest)
  | digits => underscoresFit false false false digits

/-- The absolute value of a number without its sign. -/
def magnitude (digits : Bytes) : Except IntegerFault Nat :=
  if digits.isEmpty then .error .malformed
  else
    let (base, rest) := baseAndDigits digits
    match value base 0 rest with
    | .error f => .error f
    | .ok n => if digits.contains underscore && !isWellSpaced digits then .error .malformed else .ok n

end Integer

open Integer in
/-- Reads an integer. -/
def integer (text : Bytes) : Except IntegerFault Int :=
  let (negative, digits) : Bool × Bytes := match text with
    | 0x2b :: rest => (false, rest)
    | 0x2d :: rest => (true, rest)
    | _ => (false, text)
  match magnitude digits with
  | .error f => .error f
  | .ok n =>
    if negative then if Nat.pow 2 63 < n then .error .outOfRange else .ok (-n)
    else if Nat.pow 2 63 ≤ n then .error .outOfRange
    else .ok n

end Bracescript.Flag
