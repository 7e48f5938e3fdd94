import Bracescript.Manifest.Version

/-!
# Version constraints

Alternatives of conjunctions of comparisons. A version in a comparison may be given in part.
-/

namespace Bracescript

open SemVer

inductive Comparison where
  | same
  | different
  | above
  | below
  | atLeast
  | atMost
  /-- The same minor version. -/
  | close
  /-- The same leftmost number that is not zero. -/
  | compatible
  deriving DecidableEq, Repr

namespace Comparison

def ofSign? (sign : Bytes) : Option Comparison :=
  let signs : List (Bytes × Comparison) :=
    [("", same), ("=", same), ("!=", different), (">", above), ("<", below), (">=", atLeast), ("=>", atLeast),
      ("<=", atMost), ("=<", atMost), ("~", close), ("~>", close), ("^", compatible)]
  signs.lookup sign

end Comparison

/-- How much of a version is left open. -/
inductive Openness where
  | none
  | patch
  | minor
  | all
  deriving DecidableEq, Repr

structure Condition where
  comparison : Comparison
  version : SemVer
  openness : Openness
  /-- The text of the condition. -/
  text : Bytes
  deriving DecidableEq

namespace Condition

/-- Whether a release meets the condition `close`. -/
def isClose (c : Condition) (v : SemVer) : Bool :=
  let w := c.version
  let zero := w.major = 0 && w.minor = 0 && w.patch = 0 && c.openness ≠ .minor && c.openness ≠ .patch
  v.releaseGe w && (zero || (v.major = w.major && (v.minor = w.minor || c.openness = .minor)))

/-- Whether a release meets the condition `compatible`. -/
def isCompatible (c : Condition) (v : SemVer) : Bool :=
  let w := c.version
  v.releaseGe w &&
    if 0 < w.major || c.openness = .minor then v.major = w.major
    else if 0 < v.major then false
    else if 0 < w.minor || c.openness = .patch then v.minor = w.minor
    else if 0 < v.minor then false
    else v.patch = w.patch

/-- Whether a release differs from a version that may be given in part. -/
def isDifferent (c : Condition) (v : SemVer) : Bool :=
  let w := c.version
  match c.openness with
  | .none => !v.releaseEq w
  | .minor => v.major ≠ w.major
  | .patch => v.major ≠ w.major || v.minor ≠ w.minor || !w.pre.isEmpty
  | .all => v.major ≠ w.major || v.minor ≠ w.minor || v.patch ≠ w.patch || !v.releaseEq w

def isAbove (c : Condition) (v : SemVer) : Bool :=
  let w := c.version
  let after := v.releaseGe w && !v.releaseEq w
  if c.openness = .none then after
  else if v.major ≠ w.major then w.major < v.major
  else if c.openness = .minor then false
  else if c.openness = .patch then w.minor < v.minor
  else after

def isAtMost (c : Condition) (v : SemVer) : Bool :=
  let w := c.version
  if c.openness = .none then v.releaseLt w || v.releaseEq w
  else !(w.major < v.major) && !(v.major = w.major && w.minor < v.minor && c.openness ≠ .minor)

/-- Whether a release meets the condition. -/
def admits (c : Condition) (v : SemVer) : Bool :=
  match c.comparison with
  | .same => if c.openness = .none then v.releaseEq c.version else c.isClose v
  | .different => c.isDifferent v
  | .above => c.isAbove v
  | .below => v.releaseLt c.version
  | .atLeast => v.releaseGe c.version
  | .atMost => c.isAtMost v
  | .close => c.isClose v
  | .compatible => c.isCompatible v

end Condition

/-- Alternatives, each a conjunction of conditions. -/
structure Constraint where
  alternatives : List (List Condition)
  deriving DecidableEq

namespace Constraint

inductive Fault where
  | improper (text : Bytes)
  /-- A version whose numbers are none. -/
  | badVersion
  deriving DecidableEq

def Fault.message : Fault → Bytes
  | improper text => "improper constraint: " ++ text
  | badVersion => "constraint Parser Error"

/-- Whether a release meets all conditions of an alternative. -/
def admits (c : Constraint) (v : SemVer) : Bool := c.alternatives.any fun conditions => conditions.all fun c => c.admits v

def render (c : Constraint) : Bytes :=
  Bytes.join " || " (c.alternatives.map fun conditions => Bytes.join " " (conditions.map Condition.text))

/-! ## Reading -/

def isBlank (b : UInt8) : Bool := b = 0x20 || b = 0x09 || b = 0x0a || b = 0x0c || b = 0x0d

def skipBlanks (bs : Bytes) : Bytes := bs.dropWhile isBlank

def isSignByte (b : UInt8) : Bool := "=!><~^".toList.any fun c => b = Bytes.ascii c

/-- What the numbers of a version in a condition are made up of. -/
def isNumberByte (b : UInt8) : Bool := Bytes.isDigit b || "|xX*".toList.any fun c => b = Bytes.ascii c

def isWildcard (part : Bytes) : Bool := part.isEmpty || part = "x" || part = "X" || part = "*"

/-- The version of a condition with zeros for what is open. -/
def close (p : Parts) : Parts × Openness :=
  if isWildcard p.major then ({ p with major := "0", minor := "0", patch := "0", metadata := [] }, .all)
  else if isWildcard p.minor then ({ p with minor := "0", patch := "0", metadata := [] }, .minor)
  else if isWildcard p.patch then ({ p with patch := "0", metadata := [] }, .patch)
  else (p, .none)

/-- One condition, and what follows it. -/
def condition (bs : Bytes) : Option (Except Fault Condition × Bytes) :=
  let sign := bs.takeWhile isSignByte
  let rest := skipBlanks (bs.dropWhile isSignByte)
  match Comparison.ofSign? sign, takeVersion isNumberByte rest with
  | some comparison, some (parts, after) =>
    let written := rest.take (rest.length - after.length)
    let (parts, openness) := close parts
    match ofParts parts with
    | .ok version => some (.ok ⟨comparison, version, openness, sign ++ written⟩, after)
    | .error _ => some (.error .badVersion, after)
  | _, _ => none

/-- Conditions with blanks or a comma between them; `none` if the text is not made up like that. -/
def conditions : Nat → Bytes → Option (List (Except Fault Condition))
  | 0, _ => none
  | fuel + 1, bs =>
    match condition (skipBlanks bs) with
    | none => none
    | some (c, after) =>
      match skipBlanks after with
      | [] => some [c]
      | b :: rest =>
        if b = Bytes.ascii ',' then (conditions fuel rest).map fun cs => c :: cs
        else if isBlank (after.headD 0) then (conditions fuel (b :: rest)).map fun cs => c :: cs
        else none

/-- The first fault, or all conditions. -/
def collect : List (Except Fault Condition) → Except Fault (List Condition)
  | [] => .ok []
  | .error f :: _ => .error f
  | .ok c :: cs => (collect cs).map fun cs => c :: cs

def alternative (text : Bytes) : Except Fault (List Condition) :=
  match conditions (text.length + 1) text with
  | none => .error (.improper text)
  | some cs => collect cs

/-- The pieces between double bars. -/
def splitBars : Bytes → List Bytes
  | [] => [[]]
  | b :: rest =>
    if b = Bytes.ascii '|' && rest.headD 0 = Bytes.ascii '|' then [] :: splitBars rest.tail
    else
      match splitBars rest with
      | [] => [[b]]
      | piece :: pieces => (b :: piece) :: pieces
termination_by bs => bs.length
decreasing_by all_goals simp; try omega

/-! ### Ranges -/

/-- A version as it is written, and what follows it. -/
def written? (bs : Bytes) : Option (Bytes × Bytes) :=
  (takeVersion isNumberByte bs).map fun (_, after) => (bs.take (bs.length - after.length), after)

/-- A range of two versions with a dash between them, in front of a text: its ends, and what follows it. -/
def range? (bs : Bytes) : Option (Bytes × Bytes × Bytes) :=
  match written? (skipBlanks bs) with
  | none => none
  | some (low, after) =>
    match skipBlanks after with
    | b :: rest =>
      if b = dash && isBlank (after.headD 0) && isBlank (rest.headD 0) then
        (written? (skipBlanks rest)).map fun (high, after) => (low, high, skipBlanks after)
      else none
    | [] => none

/-- All ranges in a text: each as it is written, and what it stands for. A range is written with the blanks around it,
so what it stands for ends in a blank, which keeps it apart from what follows. -/
def ranges : Nat → Bytes → List (Bytes × Bytes)
  | 0, _ => []
  | _, [] => []
  | fuel + 1, b :: bs =>
    match range? (b :: bs) with
    | some (low, high, after) =>
      let written := (b :: bs).take (bs.length + 1 - after.length)
      (written, ">= " ++ low ++ ", <= " ++ high ++ " ") :: ranges fuel after
    | none => ranges fuel bs

/-- Puts `filler` in the place of the first `part`. -/
def replaceFirst (part filler : Bytes) : Bytes → Bytes
  | [] => []
  | b :: bs => if part.isPrefixOf (b :: bs) then filler ++ (b :: bs).drop part.length else b :: replaceFirst part filler bs

/-- The text with comparisons in the place of ranges. -/
def withoutRanges (text : Bytes) : Bytes :=
  (ranges (text.length + 1) text).foldl (fun text (written, meant) => replaceFirst written meant text) text

/-- The alternatives of a text, up to the first fault. -/
def parseAll : List Bytes → Except Fault (List (List Condition))
  | [] => .ok []
  | text :: texts =>
    match alternative text with
    | .error f => .error f
    | .ok cs => (parseAll texts).map fun rest => cs :: rest

def parse (text : Bytes) : Except Fault Constraint := (parseAll (splitBars (withoutRanges text))).map fun a => ⟨a⟩

end Constraint

end Bracescript
