import Bracescript.Diagnostic

/-!
# Stages

The passes a file goes through, and what is reported of them.
-/

namespace Bracescript

inductive Stage where
  | lex
  | parse
  | codegen
  | write
  /-- A stage that is only a name; the empty one stands for no stage. -/
  | other (name : Bytes)
  deriving DecidableEq, Inhabited

namespace Stage

def name : Stage → Bytes
  | lex => "lex"
  | parse => "parse"
  | codegen => "codegen"
  | write => "write"
  | other name => name

def ofName (name : Bytes) : Stage :=
  if name = "lex" then lex
  else if name = "parse" then parse
  else if name = "codegen" then codegen
  else if name = "write" then write
  else other name

/-- No stage. -/
def none : Stage := other []

end Stage

/-- Whether a stage of a file began or how it ended. -/
inductive FileStatus where
  | started
  | finished
  | failed
  /-- No stage was needed: the output was known. -/
  | cached
  deriving DecidableEq, Repr, Inhabited

namespace FileStatus

def name : FileStatus → Bytes
  | started => "started"
  | finished => "finished"
  | failed => "failed"
  | cached => "cached"

end FileStatus

/-- What an observer of a compilation is told. -/
structure FileEvent where
  path : Bytes
  stage : Stage
  status : FileStatus
  fault : Option Fault := none
  deriving DecidableEq, Inhabited

/-- A pass that is over: what there is to say of it, or how it failed. -/
structure Phase where
  stage : Stage
  note : Bytes
  fault : Option Fault := none
  deriving DecidableEq, Inhabited

namespace Phase

def passed (stage : Stage) (note : Bytes) : Phase := { stage, note }

/-- A failed pass is noted with its fault. -/
def failed (stage : Stage) (fault : Fault) : Phase := { stage, note := fault.message, fault := some fault }

/-- What an observer sees of a pass over the file at `path`. -/
def events (path : Bytes) (p : Phase) : List FileEvent :=
  [{ path, stage := p.stage, status := .started },
    { path, stage := p.stage, status := if p.fault.isSome then .failed else .finished, fault := p.fault }]

end Phase

end Bracescript
