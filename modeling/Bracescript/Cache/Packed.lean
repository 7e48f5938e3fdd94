import Bracescript.Bytes

/-!
# Packed values

The binary form of cache entries: every value begins with a byte that tells its kind and often its size.
-/

namespace Bracescript

inductive Packed where
  | nil
  | bool (b : Bool)
  | int (n : Int)
  /-- A number in binary floating point, by its bytes. -/
  | float (bytes : Bytes)
  | text (bytes : Bytes)
  | list (items : List Packed)
  | table (fields : List (Packed × Packed))
  /-- A value of a kind of its own. -/
  | custom (tag : UInt8) (bytes : Bytes)

namespace Packed

/-- Why bytes cannot be read. -/
inductive Fault where
  /-- There is nothing where a value should be. -/
  | nothing
  /-- A value is cut short. -/
  | short
  | unknownCode (code : UInt8)
  /-- A value of another kind was expected. -/
  | unexpected (code : UInt8) (wanted : Bytes)
  | fieldCount
  deriving DecidableEq

def Fault.message : Fault → Bytes
  | nothing => "EOF"
  | short => "unexpected EOF"
  | unknownCode code => "msgpack: unknown code " ++ Bytes.hex 1 code.toNat
  | unexpected code wanted => "msgpack: invalid code=" ++ Bytes.hex 1 code.toNat ++ " decoding " ++ wanted
  | fieldCount => "msgpack: number of fields in array-encoded struct has changed"

abbrev Read (α : Type) := Except Fault (α × Bytes)

/-! ## Reading -/

/-- The next `n` bytes. -/
def take (n : Nat) (bs : Bytes) : Read Bytes :=
  if n ≤ bs.length then .ok (bs.take n, bs.drop n) else .error (if bs.isEmpty then .nothing else .short)

/-- The number that bytes spell, the highest first. -/
def natOf (bs : Bytes) : Nat := bs.foldl (fun n b => n * 256 + b.toNat) 0

/-- The next `n` bytes as a number. -/
def number (n : Nat) (bs : Bytes) : Read Nat := (take n bs).map fun (b, rest) => (natOf b, rest)

/-- The next `n` bytes as a number with a sign. -/
def signed (n : Nat) (bs : Bytes) : Read Int :=
  (number n bs).map fun (v, rest) => (if v < Nat.pow 2 (8 * n - 1) then (v : Int) else v - Nat.pow 2 (8 * n), rest)

/-- As many bytes as the number in the next `n` bytes says. -/
def sized (n : Nat) (bs : Bytes) : Read Bytes :=
  match number n bs with
  | .error f => .error f
  | .ok (size, rest) => take size rest

/-- A tag and `n` bytes. -/
def tagged (n : Nat) (bs : Bytes) : Read Packed :=
  match take 1 bs with
  | .error f => .error f
  | .ok (tag, rest) => (take n rest).map fun (b, rest) => (custom (tag.headD 0) b, rest)

/-- A value of the kind `custom` whose size is in the next `n` bytes. -/
def sizedTagged (n : Nat) (bs : Bytes) : Read Packed :=
  match number n bs with
  | .error f => .error f
  | .ok (size, rest) => tagged size rest

/-- A value that holds no others; `none` if the code tells of one that does. -/
def scalar? (code : UInt8) (bs : Bytes) : Option (Read Packed) :=
  let asText : Read Bytes → Option (Read Packed) := fun r => some (r.map fun (b, rest) => (text b, rest))
  let asNat : Read Nat → Option (Read Packed) := fun r => some (r.map fun (n, rest) => (int n, rest))
  let asInt : Read Int → Option (Read Packed) := fun r => some (r.map fun (n, rest) => (int n, rest))
  let asFloat : Read Bytes → Option (Read Packed) := fun r => some (r.map fun (b, rest) => (float b, rest))
  if code ≤ 0x7f then some (.ok (int code.toNat, bs))
  else if 0xe0 ≤ code then some (.ok (int ((code.toNat : Int) - 256), bs))
  else if 0xa0 ≤ code && code ≤ 0xbf then asText (take (code.toNat - 0xa0) bs)
  else
    match code.toNat with
    | 0xc0 => some (.ok (nil, bs))
    | 0xc2 => some (.ok (bool false, bs))
    | 0xc3 => some (.ok (bool true, bs))
    | 0xc4 | 0xd9 => asText (sized 1 bs)
    | 0xc5 | 0xda => asText (sized 2 bs)
    | 0xc6 | 0xdb => asText (sized 4 bs)
    | 0xc7 => some (sizedTagged 1 bs)
    | 0xc8 => some (sizedTagged 2 bs)
    | 0xc9 => some (sizedTagged 4 bs)
    | 0xca => asFloat (take 4 bs)
    | 0xcb => asFloat (take 8 bs)
    | 0xcc => asNat (number 1 bs)
    | 0xcd => asNat (number 2 bs)
    | 0xce => asNat (number 4 bs)
    | 0xcf => asNat (number 8 bs)
    | 0xd0 => asInt (signed 1 bs)
    | 0xd1 => asInt (signed 2 bs)
    | 0xd2 => asInt (signed 4 bs)
    | 0xd3 => asInt (signed 8 bs)
    | 0xd4 => some (tagged 1 bs)
    | 0xd5 => some (tagged 2 bs)
    | 0xd6 => some (tagged 4 bs)
    | 0xd7 => some (tagged 8 bs)
    | 0xd8 => some (tagged 16 bs)
    | 0xc1 => some (.error (.unknownCode code))
    | _ => none

/-- How many items a list or a table has, `true` standing for a table. -/
def count (code : UInt8) (bs : Bytes) : Read (Bool × Nat) :=
  let sizedBy : Bool → Nat → Read (Bool × Nat) := fun isTable n =>
    (number n bs).map fun (size, rest) => ((isTable, size), rest)
  if code < 0x90 then .ok ((true, code.toNat - 0x80), bs)
  else if code < 0xa0 then .ok ((false, code.toNat - 0x90), bs)
  else if code = 0xdc then sizedBy false 2
  else if code = 0xdd then sizedBy false 4
  else if code = 0xde then sizedBy true 2
  else sizedBy true 4

/-- As many values as wanted; every one takes a byte of fuel at least. -/
def values : Nat → Nat → Bytes → Read (List Packed)
  | _, 0, bs => .ok ([], bs)
  | 0, _ + 1, _ => .error .nothing
  | _ + 1, _ + 1, [] => .error .nothing
  | fuel + 1, n + 1, code :: bs =>
    let first : Read Packed :=
      match scalar? code bs with
      | some r => r
      | none =>
        match count code bs with
        | .error f => .error f
        | .ok ((isTable, size), rest) =>
          match values fuel (if isTable then 2 * size else size) rest with
          | .error f => .error f
          | .ok (items, rest) => .ok (if isTable then table (pairs items) else list items, rest)
    match first with
    | .error f => .error f
    | .ok (v, rest) =>
      match values fuel n rest with
      | .error f => .error f
      | .ok (vs, rest) => .ok (v :: vs, rest)
where
  /-- Keys and values that stand in turn. -/
  pairs : List Packed → List (Packed × Packed)
    | k :: v :: more => (k, v) :: pairs more
    | _ => []

/-- The first value of some bytes. -/
def decode (bs : Bytes) : Except Fault Packed :=
  match values (bs.length + 1) 1 bs with
  | .error f => .error f
  | .ok (v :: _, _) => .ok v
  | .ok ([], _) => .error .nothing

/-! ## Writing -/

/-- A number in `n` bytes, the highest first. -/
def spread : Nat → Nat → Bytes
  | 0, _ => []
  | n + 1, v => (v / Nat.pow 256 n % 256).toUInt8 :: spread n v

def encodeText (t : Bytes) : Bytes :=
  let n := t.length
  if n < 32 then (0xa0 + n).toUInt8 :: t
  else if n < Nat.pow 2 8 then 0xd9 :: spread 1 n ++ t
  else if n < Nat.pow 2 16 then 0xda :: spread 2 n ++ t
  else 0xdb :: spread 4 n ++ t

/-- A number of sixteen bits. -/
def encodeWord (n : Nat) : Bytes := 0xcd :: spread 2 n

/-- A time in seconds since the start of 1970, below `2 ^ 32`. -/
def encodeSeconds (n : Nat) : Bytes := 0xd6 :: 0xff :: spread 4 n

end Packed

end Bracescript
