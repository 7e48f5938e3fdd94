import Bracescript.Bytes
import Bracescript.Text.Quoted

/-!
# Version numbers

Three numbers, of which the last two may be missing, with a pre-release and build metadata.
-/

namespace Bracescript

structure SemVer where
  major : Nat
  minor : Nat
  patch : Nat
  /-- Empty for a release. -/
  pre : Bytes := []
  metadata : Bytes := []
  deriving DecidableEq, Inhabited

namespace SemVer

/-- Why a text is no version. -/
inductive Fault where
  | malformed
  | tooGreat (digits : Bytes)
  /-- A number of the pre-release has a zero in front. -/
  | leadingZero
  deriving DecidableEq

def Fault.message : Fault → Bytes
  | malformed => "Invalid Semantic Version"
  | tooGreat digits =>
    "Error parsing version segment: strconv.ParseUint: parsing " ++ Text.quoted digits ++ ": value out of range"
  | leadingZero => "Version segment starts with 0"

def dot : UInt8 := Bytes.ascii '.'

def dash : UInt8 := Bytes.ascii '-'

def plus : UInt8 := Bytes.ascii '+'

def isWordByte (b : UInt8) : Bool := Bytes.isDigit b || Bytes.isLetter b || b = dash

/-- Words with dots between them, as long as they go. -/
def takeWords (bs : Bytes) : Bytes × Bytes :=
  match bs.takeWhile isWordByte, bs.dropWhile isWordByte with
  | word, rest => (word ++ (more rest.length rest).1, (more rest.length rest).2)
where
  /-- Further words, each behind a dot. -/
  more : Nat → Bytes → Bytes × Bytes
    | 0, bs => ([], bs)
    | fuel + 1, bs =>
      match bs with
      | b :: rest =>
        let word := rest.takeWhile isWordByte
        if b = dot && !word.isEmpty then
          let (words, rest) := more fuel (rest.dropWhile isWordByte)
          (b :: word ++ words, rest)
        else ([], bs)
      | [] => ([], [])

/-- What a mark introduces: words with dots between them, if there are any. -/
def takeMarked (mark : UInt8) (bs : Bytes) : Bytes × Bytes :=
  match bs with
  | b :: rest =>
    let (words, after) := takeWords rest
    if b = mark && isWordByte (rest.headD 0) then (words, after) else ([], bs)
  | [] => ([], [])

/-- The parts of the text of a version. -/
structure Parts where
  /-- The three numbers; a missing one is empty. -/
  major : Bytes
  minor : Bytes
  patch : Bytes
  pre : Bytes
  metadata : Bytes
  deriving DecidableEq

/-- A dot and a number behind it. -/
def takeDotted (part : UInt8 → Bool) (bs : Bytes) : Bytes × Bytes :=
  match bs with
  | b :: rest => if b = dot && part (rest.headD 0) then (rest.takeWhile part, rest.dropWhile part) else ([], bs)
  | [] => ([], [])

/-- The longest version in front of a text, whose numbers are made up of the bytes `part`. -/
def takeVersion (part : UInt8 → Bool) (bs : Bytes) : Option (Parts × Bytes) :=
  let bs := if bs.headD 0 = Bytes.ascii 'v' then bs.tail else bs
  let major := bs.takeWhile part
  if major.isEmpty then none
  else
    let (minor, bs) := takeDotted part (bs.dropWhile part)
    let (patch, bs) := if minor.isEmpty then (([] : Bytes), bs) else takeDotted part bs
    let (pre, bs) := takeMarked dash bs
    let (metadata, bs) := takeMarked plus bs
    some (⟨major, minor, patch, pre, metadata⟩, bs)

/-- A number of a version; a missing one is zero. -/
def number (digits : Bytes) : Except Fault Nat :=
  if digits.isEmpty then .ok 0
  else
    match digits.toNat? with
    | none => .error .malformed
    | some n => if n < Nat.pow 2 64 then .ok n else .error (.tooGreat digits)

/-- Whether a number of the pre-release has a zero in front. -/
def hasLeadingZero (pre : Bytes) : Bool :=
  (pre.split dot).any fun word => word.all Bytes.isDigit && 1 < word.length && word.headD 0 = Bytes.ascii '0'

def ofParts (p : Parts) : Except Fault SemVer :=
  match number p.major with
  | .error f => .error f
  | .ok major =>
    match number p.minor with
    | .error f => .error f
    | .ok minor =>
      match number p.patch with
      | .error f => .error f
      | .ok patch =>
        if hasLeadingZero p.pre then .error .leadingZero
        else .ok ⟨major, minor, patch, p.pre, p.metadata⟩

def parse (text : Bytes) : Except Fault SemVer :=
  match takeVersion Bytes.isDigit text with
  | some (parts, []) => ofParts parts
  | _ => .error .malformed

def render (v : SemVer) : Bytes :=
  Bytes.ofNat v.major ++ "." ++ Bytes.ofNat v.minor ++ "." ++ Bytes.ofNat v.patch
    ++ (if v.pre.isEmpty then [] else dash :: v.pre) ++ (if v.metadata.isEmpty then [] else plus :: v.metadata)

/-- The release that a version leads to. -/
def core (v : SemVer) : SemVer := { v with pre := [], metadata := [] }

/-- Whether `v`, a release, comes before `w`. -/
def releaseLt (v w : SemVer) : Bool :=
  v.major < w.major || (v.major = w.major && (v.minor < w.minor || (v.minor = w.minor && v.patch < w.patch)))

/-- Whether `v`, a release, and `w` are the same; pre-releases come before their release. -/
def releaseEq (v w : SemVer) : Bool := v.major = w.major && v.minor = w.minor && v.patch = w.patch && w.pre.isEmpty

/-- Whether `v`, a release, is `w` or comes after it. -/
def releaseGe (v w : SemVer) : Bool := !v.releaseLt w

end SemVer

end Bracescript
