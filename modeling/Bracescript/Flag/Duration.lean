import Bracescript.Text.Utf8

/-!
# Durations

A duration is a row of decimal numbers, each with a unit, such as `1h15m30.5s`.
-/

namespace Bracescript.Flag

/-- Why a text is no duration. -/
inductive DurationFault where
  | malformed
  | noUnit
  | unknownUnit (name : Bytes)
  deriving DecidableEq, Repr

namespace Duration

/-- A text in double quotes, in which every byte beyond printable ASCII is given by its number. -/
def quoted (text : Bytes) : Bytes :=
  let escaped : Bytes := text.flatMap fun b =>
    if b < 0x20 || 0x80 ≤ b then Bytes.ascii '\\' :: Bytes.ascii 'x' :: Bytes.hex 2 b.toNat
    else if b = Bytes.ascii '"' || b = Bytes.ascii '\\' then [Bytes.ascii '\\', b]
    else [b]
  "\"" ++ escaped ++ "\""

end Duration

def DurationFault.message (text : Bytes) : DurationFault → Bytes
  | malformed => "time: invalid duration " ++ Duration.quoted text
  | noUnit => "time: missing unit in duration " ++ Duration.quoted text
  | unknownUnit name => "time: unknown unit " ++ Duration.quoted name ++ " in duration " ++ Duration.quoted text

namespace Duration

/-- Every unit in nanoseconds. -/
def units : List (Bytes × Nat) :=
  [("ns", 1), ("us", 1000), ("µs", 1000), ("μs", 1000), ("ms", 1000000), ("s", 1000000000), ("m", 60000000000),
    ("h", 3600000000000)]

/-- The greatest duration in nanoseconds, taken without its sign. -/
def most : Nat := Nat.pow 2 63

def point : UInt8 := Bytes.ascii '.'

def isNumeric (b : UInt8) : Bool := Bytes.isDigit b || b = point

def digitsValue (digits : Bytes) : Nat := digits.foldl (fun n b => n * 10 + (b.toNat - 0x30)) 0

/-- One number with its unit, in nanoseconds, and the text after it. -/
def part (text : Bytes) : Except DurationFault (Nat × Bytes) :=
  let whole := text.takeWhile Bytes.isDigit
  let rest := text.dropWhile Bytes.isDigit
  let (fraction, rest) : Bytes × Bytes := match rest with
    | b :: more => if b = point then (more.takeWhile Bytes.isDigit, more.dropWhile Bytes.isDigit) else ([], rest)
    | [] => ([], [])
  if most < digitsValue whole || (whole.isEmpty && fraction.isEmpty) then .error .malformed
  else
    let name := rest.takeWhile (!isNumeric ·)
    if name.isEmpty then .error .noUnit
    else
      match units.lookup name with
      | none => .error (.unknownUnit name)
      | some unit =>
        let time := digitsValue whole * unit + digitsValue fraction * unit / Nat.pow 10 fraction.length
        if most / unit < digitsValue whole || most < time then .error .malformed
        else .ok (time, rest.dropWhile (!isNumeric ·))

/-- The sum of all parts. Every part is shorter than the text, so as many steps as it has bytes are enough. -/
def total : Nat → Nat → Bytes → Except DurationFault Nat
  | _, sum, [] => .ok sum
  | 0, _, _ => .error .malformed
  | steps + 1, sum, text =>
    match part text with
    | .error f => .error f
    | .ok (time, rest) =>
      let sum := (sum + time) % Nat.pow 2 64
      if most < sum then .error .malformed else total steps sum rest

end Duration

open Duration in
/-- Reads a duration in nanoseconds. -/
def duration (text : Bytes) : Except DurationFault Int :=
  let (negative, rest) : Bool × Bytes := match text with
    | 0x2b :: rest => (false, rest)
    | 0x2d :: rest => (true, rest)
    | _ => (false, text)
  if rest = "0" then .ok 0
  else if rest.isEmpty then .error .malformed
  else
    match total rest.length 0 rest with
    | .error f => .error f
    | .ok time => if negative then .ok (-time) else if time = most then .error .malformed else .ok time

end Bracescript.Flag
