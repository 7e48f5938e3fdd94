import Bracescript.Path

/-!
# Batches of changes

What happened to the files of a tree is collected path by path, until a batch is taken.
-/

namespace Bracescript

/-- A set of things that happened to a path, as bits. -/
abbrev Changes := UInt8

namespace Changes

def create : Changes := 1

def write : Changes := 2

def remove : Changes := 4

def rename : Changes := 8

def has (c bits : Changes) : Bool := c &&& bits != 0

/-- The set without bits that mean nothing here. -/
def ofRaw (bits : UInt32) : Changes := (bits &&& 15).toUInt8

/-- Every bit with its name. -/
def named : List (Changes × Bytes) := [(create, "create"), (write, "write"), (remove, "remove"), (rename, "rename")]

def names (c : Changes) : List Bytes := (named.filter fun (bit, _) => c.has bit).map (·.2)

def render (c : Changes) : Bytes := if c.names.isEmpty then "none" else Bytes.join "|" c.names

end Changes

/-- A path with all that happened to it. -/
structure Change where
  path : Bytes
  what : Changes
  deriving DecidableEq, Inhabited

/-- Whether the file is gone. -/
def Change.removed (c : Change) : Bool :=
  c.what.has (Changes.remove ||| Changes.rename) && !c.what.has (Changes.create ||| Changes.write)

/-- Changes that were not taken yet. -/
structure Collector where
  /-- The ending of the names that matter; all do if it is empty. -/
  ext : Bytes := []
  pending : List Change := []
  deriving Inhabited

namespace Collector

/-- Whether a change of the file at `path` matters. -/
def isRelevant (c : Collector) (path : Bytes) : Bool :=
  (c.ext.isEmpty || Path.ext path = c.ext) && (Path.base path).head? ≠ some (Bytes.ascii '.')

/-- Adds to what happened to a path. -/
def record (path : Bytes) (what : Changes) : List Change → List Change
  | [] => [⟨path, what⟩]
  | c :: more => if c.path = path then ⟨path, c.what ||| what⟩ :: more else c :: record path what more

/-- Notes what happened to a path, and tells whether it matters. -/
def add (c : Collector) (path : Bytes) (what : Changes) : Bool × Collector :=
  if what = 0 || !c.isRelevant path then (false, c)
  else (true, { c with pending := record (Path.clean path) what c.pending })

/-- Takes the batch, ordered by path. -/
def flush (c : Collector) : List Change × Collector :=
  (c.pending.mergeSort fun a b => Bytes.le a.path b.path, { c with pending := [] })

end Collector

end Bracescript
