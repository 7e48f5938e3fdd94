import Bracescript.Compile.Stage

/-!
# Progress events

What a build tells while it goes on.
-/

namespace Bracescript

inductive Status where
  | queued
  | working
  | cached
  | done
  | error
  /-- A status that is only a name. -/
  | other (name : Bytes)
  deriving DecidableEq, Inhabited

namespace Status

def name : Status → Bytes
  | queued => "queued"
  | working => "working"
  | cached => "cached"
  | done => "done"
  | error => "error"
  | other name => name

def ofName (name : Bytes) : Status :=
  if name = "queued" then queued
  else if name = "working" then working
  else if name = "cached" then cached
  else if name = "done" then done
  else if name = "error" then error
  else other name

end Status

/-- Progress of a file, or of the whole build when the name of the file is empty. -/
structure Progress where
  file : Bytes := []
  stage : Stage := .none
  status : Status
  fault : Option Fault := none
  deriving DecidableEq, Inhabited

/-- The progress that an event on the file of a name means. -/
def FileEvent.progress (e : FileEvent) (name : Bytes) : Option Progress :=
  match e.status with
  | .started => some { file := name, stage := e.stage, status := .working }
  | .finished => none
  | .failed => some { file := name, stage := e.stage, status := .error, fault := e.fault }
  | .cached => some { file := name, stage := .codegen, status := .cached }

end Bracescript
