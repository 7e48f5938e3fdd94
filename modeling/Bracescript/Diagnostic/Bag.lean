import Bracescript.Diagnostic
import Std.Data.HashSet

/-!
# Bags of diagnostics

A bag keeps what was found in the order of arrival, up to a limit.
-/

namespace Bracescript

structure Bag where
  limit : Nat
  items : Array Diagnostic := #[]
  deriving Inhabited

namespace Bag

/-- The greatest limit there is. -/
def maxLimit : Nat := 65535

/-- An empty bag; a limit that is not positive or too great means the greatest one. -/
def new (limit : Int) : Bag :=
  { limit := if 0 < limit ∧ limit ≤ maxLimit then limit.toNat else maxLimit }

def size (b : Bag) : Nat := b.items.size

def toList (b : Bag) : List Diagnostic := b.items.toList

/-- Puts a diagnostic in if there is room, and tells whether there was. -/
def add (b : Bag) (d : Diagnostic) : Bool × Bag :=
  if b.items.size < b.limit then (true, { b with items := b.items.push d }) else (false, b)

/-- The bag after `add`. -/
def insert (b : Bag) (d : Diagnostic) : Bag := (b.add d).2

/-- Puts all of `other` in; the limit grows as far as it may, and what is beyond it is left out. -/
def merge (b other : Bag) : Bag :=
  let total := b.size + other.size
  let limit := if b.limit < total then min total maxLimit else b.limit
  { limit, items := b.items ++ other.items.extract 0 (limit - b.size) }

def hasErrors (b : Bag) : Bool := b.items.any fun d => Severity.error.rank ≤ d.severity.rank

def hasWarnings (b : Bag) : Bool := b.items.any fun d => Severity.warning.rank ≤ d.severity.rank

def sort (b : Bag) : Bag := { b with items := (b.toList.mergeSort Diagnostic.le).toArray }

/-- The diagnostics whose key is neither in `seen` nor that of one before. -/
def distinct (seen : Std.HashSet Bytes) : List Diagnostic → List Diagnostic
  | [] => []
  | d :: ds => if seen.contains d.key then distinct seen ds else d :: distinct (seen.insert d.key) ds

/-- Drops repeated findings. -/
def dedup (b : Bag) : Bag := { b with items := (distinct {} b.toList).toArray }

/-- Puts a fault in. -/
def report (b : Bag) (fault : Fault) (fallback : Code) : Bag := b.insert (fault.diagnostic fallback)

end Bag

/-- Bags known by number. -/
structure Shelf where
  bags : Array Bag := #[]
  deriving Inhabited

namespace Shelf

def get (s : Shelf) (i : Nat) : Bag := s.bags.getD i (.new 0)

def set (s : Shelf) (i : Nat) (b : Bag) : Shelf := { s with bags := s.bags.setIfInBounds i b }

/-- A new empty bag. -/
def new (s : Shelf) (limit : Int) : Shelf := { s with bags := s.bags.push (.new limit) }

/-- Merges bag `other` into bag `i`; no bag, or the bag itself, changes nothing. -/
def merge (s : Shelf) (i : Nat) (other : Option Nat) : Shelf :=
  match other with
  | none => s
  | some j => if i = j then s else s.set i ((s.get i).merge (s.get j))

end Shelf

end Bracescript
