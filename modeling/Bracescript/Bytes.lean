/-!
# Byte texts

Every text that is read, kept or written is a list of bytes; it need not be valid UTF-8.
-/

namespace Bracescript

abbrev Bytes := List UInt8

namespace Bytes

/-- The UTF-8 bytes of a string. -/
def ofString (s : String) : Bytes := s.toList.flatMap String.utf8EncodeChar

/-- The UTF-8 bytes of one character. -/
def ofChar (c : Char) : Bytes := String.utf8EncodeChar c

theorem ofString_append (a b : String) : ofString (a ++ b) = ofString a ++ ofString b := by
  simp [ofString]

end Bytes

instance : Coe String Bytes := ⟨Bytes.ofString⟩

namespace Bytes

/-! ## Bytes by class -/

/-- The byte of an ASCII character. -/
def ascii (c : Char) : UInt8 := c.toUInt8

def isDigit (b : UInt8) : Bool := 0x30 ≤ b && b ≤ 0x39

def isOctal (b : UInt8) : Bool := 0x30 ≤ b && b ≤ 0x37

def isUpper (b : UInt8) : Bool := 0x41 ≤ b && b ≤ 0x5a

def isLower (b : UInt8) : Bool := 0x61 ≤ b && b ≤ 0x7a

def isLetter (b : UInt8) : Bool := isUpper b || isLower b

def isHex (b : UInt8) : Bool := isDigit b || (0x61 ≤ b && b ≤ 0x66) || (0x41 ≤ b && b ≤ 0x46)

/-- The value of a hexadecimal digit. -/
def hexValue (b : UInt8) : Nat :=
  if 0x61 ≤ b then b.toNat - 0x61 + 10 else if 0x41 ≤ b then b.toNat - 0x41 + 10 else b.toNat - 0x30

/-! ## Numbers -/

/-- Decimal digits of a natural number. -/
def ofNat (n : Nat) : Bytes := (Nat.toDigits 10 n).map Char.toUInt8

/-- Decimal digits of an integer, with a sign when negative. -/
def ofInt : Int → Bytes
  | .ofNat n => ofNat n
  | .negSucc n => ascii '-' :: ofNat (n + 1)

/-- Lower-case hexadecimal digits, filled with zeros on the left up to `width`. -/
def hex (width n : Nat) : Bytes :=
  let digits := (Nat.toDigits 16 n).map Char.toUInt8
  List.replicate (width - digits.length) (ascii '0') ++ digits

/-- Two hexadecimal digits per byte. -/
def toHex (bs : Bytes) : Bytes := bs.flatMap fun b => hex 2 b.toNat

/-- Reads pairs of hexadecimal digits. -/
def ofHex : Bytes → Bytes
  | a :: b :: rest => (hexValue a * 16 + hexValue b).toUInt8 :: ofHex rest
  | _ => []

/-- Reads a run of decimal digits; nothing else may stand in it and it may not be empty. -/
def toNat? (bs : Bytes) : Option Nat :=
  if bs.isEmpty || !bs.all isDigit then none
  else some (bs.foldl (fun n b => n * 10 + (b.toNat - 0x30)) 0)

/-! ## Parts -/

def startsWith (bs start : Bytes) : Bool := start.isPrefixOf bs

def endsWith (bs tail : Bytes) : Bool := tail.isSuffixOf bs

/-- `bs` without `tail` at its end, or `bs` itself. -/
def dropTail (bs tail : Bytes) : Bytes :=
  if bs.endsWith tail then bs.take (bs.length - tail.length) else bs

/-- The pieces between the separators; there is one more piece than separators. -/
def split (sep : UInt8) : Bytes → List Bytes
  | [] => [[]]
  | b :: rest =>
    if b = sep then [] :: split sep rest
    else
      match split sep rest with
      | [] => [[b]]
      | piece :: pieces => (b :: piece) :: pieces

def join (sep : Bytes) (pieces : List Bytes) : Bytes := sep.intercalate pieces

/-- Everything up to the first `b`, and what follows it; `none` when `b` does not occur. -/
def cut (b : UInt8) : Bytes → Option (Bytes × Bytes)
  | [] => none
  | c :: rest => if c = b then some ([], rest) else (cut b rest).map fun (x, y) => (c :: x, y)

/-- Puts `filler` in the place of every byte `b`. -/
def replace (b : UInt8) (filler : Bytes) (bs : Bytes) : Bytes :=
  bs.flatMap fun c => if c = b then filler else [c]

/-- `n` times the byte `b`. -/
def repeated (n : Nat) (b : UInt8) : Bytes := List.replicate n b

/-- Whether `a` comes before `b` or equals it, byte by byte. -/
def le (a b : Bytes) : Bool := decide (a ≤ b)

/-- Texts in ascending order; equal ones keep their order. -/
def sorted (texts : List Bytes) : List Bytes := texts.mergeSort le

end Bytes

end Bracescript
