import Bracescript.Text.Utf8

/-!
# Numbers with a fixed number of places

The decimal text of a binary number, rounded from its exact value; a tie goes to the even neighbour.
-/

namespace Bracescript.Text

/-- `n / d` rounded to the nearest number, a tie to the even one. -/
def roundDiv (n d : Nat) : Nat :=
  let q := n / d
  let r := n % d
  if 2 * r < d then q else if d < 2 * r then q + 1 else q + q % 2

/-- A number given in units of `10 ^ -places`. -/
def fixedUnits (places units : Nat) : Bytes :=
  let digits := Bytes.ofNat units
  let digits := Bytes.repeated (places + 1 - digits.length) 0x30 ++ digits
  let whole := digits.take (digits.length - places)
  if places = 0 then whole else whole ++ "." ++ digits.drop (digits.length - places)

/-- The value `mantissa * 2 ^ exponent` with a number of places. -/
def fixedBinary (places mantissa : Nat) (exponent : Int) : Bytes :=
  match exponent with
  | .ofNat e => fixedUnits places (mantissa * Nat.pow 2 e * Nat.pow 10 places)
  | .negSucc e => fixedUnits places (roundDiv (mantissa * Nat.pow 10 places) (Nat.pow 2 (e + 1)))

/-- A finite number with a number of places. -/
def fixed (places : Nat) (x : Float) : Bytes :=
  let bits := x.toBits.toNat
  let biased : Nat := bits / Nat.pow 2 52 % Nat.pow 2 11
  let fraction : Nat := bits % Nat.pow 2 52
  let text :=
    if biased = 0 then fixedBinary places fraction (-1074)
    else fixedBinary places (Nat.pow 2 52 + fraction) ((biased : Int) - 1075)
  if bits / Nat.pow 2 63 = 1 then "-" ++ text else text

/-- A text with blanks in front, up to a width in bytes. -/
def padFront (width : Nat) (text : Bytes) : Bytes := Bytes.repeated (width - text.length) 0x20 ++ text

/-- A text with blanks behind it, up to a number of characters. -/
def padBack (width : Nat) (text : Bytes) : Bytes := text ++ Bytes.repeated (width - (glyphs text).length) 0x20

end Bracescript.Text
