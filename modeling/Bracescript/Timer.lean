import Bracescript.Text.Fixed

/-!
# Timers

A timer lists what was measured. Clocks are outside of the model, so everything takes no time.
-/

namespace Bracescript

/-- A measured step; the note is set when it ends. -/
structure Lap where
  name : Bytes
  note : Bytes := []
  deriving DecidableEq, Inhabited

structure Timer where
  laps : Array Lap := #[]
  deriving Inhabited

namespace Timer

/-- Begins a step, whose number is returned. -/
def start (t : Timer) (name : Bytes) : Nat × Timer := (t.laps.size, ⟨t.laps.push { name }⟩)

/-- Ends the step of a number, if there is one; it may have ended before. -/
def stop (t : Timer) (n : Nat) (note : Bytes) : Timer :=
  match t.laps[n]? with
  | none => t
  | some lap => ⟨t.laps.setIfInBounds n { lap with note }⟩

/-- A line of the summary. -/
def line (name : Bytes) : Bytes := "  " ++ Text.padBack 20 name ++ " " ++ Text.padFront 7 (Text.fixedUnits 2 0) ++ " ms"

def lapLine (lap : Lap) : Bytes := line lap.name ++ (if lap.note.isEmpty then [] else ("  // " : Bytes) ++ lap.note) ++ "\n"

/-- A table of all steps and their total. -/
def summary (t : Timer) : Bytes := "timings:\n" ++ t.laps.toList.flatMap lapLine ++ line "total" ++ "\n"

end Timer

end Bracescript
