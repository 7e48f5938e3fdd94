import Bracescript.Compile.Stage

/-!
# Time spent by stage
-/

namespace Bracescript

/-- Nanoseconds by stage, summed over files. -/
structure Timings where
  spent : List (Stage × Int64) := []
  deriving Inhabited

namespace Timings

def has (t : Timings) (stage : Stage) : Bool := (t.spent.lookup stage).isSome

def get (t : Timings) (stage : Stage) : Int64 := (t.spent.lookup stage).getD 0

def add (t : Timings) (stage : Stage) (time : Int64) : Timings :=
  ⟨(stage, t.get stage + time) :: t.spent.filter (·.1 ≠ stage)⟩

/-- The total over some stages; a stage that is named twice counts twice. -/
def sum (t : Timings) (stages : List Stage) : Int64 := (stages.map t.get).foldl (· + ·) 0

end Timings

end Bracescript
