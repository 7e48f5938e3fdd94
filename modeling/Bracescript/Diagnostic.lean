import Bracescript.Diagnostic.Cause

/-!
# Diagnostics

Findings to be shown to the user, and the ways in which a run can fail.
-/

namespace Bracescript

inductive Severity where
  | info
  | warning
  | error
  /-- A severity outside the scale, above all others. -/
  | other
  deriving DecidableEq, Repr, Inhabited

namespace Severity

def rank : Severity → Nat
  | info => 0
  | warning => 1
  | error => 2
  | other => 9

def name : Severity → Bytes
  | info => "INFO"
  | warning => "WARNING"
  | error => "ERROR"
  | other => "UNKNOWN"

end Severity

/-- Something that goes with a finding. -/
structure Note where
  span : Span
  message : Bytes
  deriving DecidableEq, Inhabited

structure Diagnostic where
  severity : Severity
  code : Code
  message : Bytes
  span : Span
  notes : List Note := []
  deriving DecidableEq, Inhabited

namespace Diagnostic

def withNote (d : Diagnostic) (note : Note) : Diagnostic := { d with notes := d.notes ++ [note] }

/-- The text by which repeated findings are told: code, span and message. -/
def key (d : Diagnostic) : Bytes :=
  Bytes.ofNat d.code.number.toNat ++ ":" ++ d.span.render ++ ":" ++ d.message

/-- By file, start and end, the more severe first, then by code. -/
def le (a b : Diagnostic) : Bool :=
  if a.span.file ≠ b.span.file then a.span.file < b.span.file
  else if a.span.start ≠ b.span.start then a.span.start < b.span.start
  else if a.span.stop ≠ b.span.stop then a.span.stop < b.span.stop
  else if a.severity ≠ b.severity then b.severity.rank < a.severity.rank
  else a.code.number ≤ b.code.number

end Diagnostic

def SyntaxError.diagnostic (e : SyntaxError) : Diagnostic :=
  { severity := .error, code := e.code, message := e.message, span := e.span }

/-- A node that has no meaning in the target language. -/
structure Unsupported where
  kind : Bytes
  detail : Bytes := []
  deriving DecidableEq, Inhabited

def Unsupported.message (u : Unsupported) : Bytes :=
  "AST nodes of type " ++ u.kind ++ " are not supported"
    ++ if u.detail = [] then [] else (": " : Bytes) ++ u.detail

/-- Why a run failed. -/
inductive Fault where
  /-- The program text is wrong. -/
  | malformed (e : SyntaxError)
  /-- The program holds something that cannot be emitted. -/
  | unsupported (u : Unsupported)
  /-- The compiler broke a rule of its own. -/
  | internal (message : Bytes)
  | other (message : Bytes)
  deriving DecidableEq, Inhabited

namespace Fault

def message : Fault → Bytes
  | malformed e => e.render
  | unsupported u => u.message
  | internal message => "internal compiler error: " ++ message
  | other message => message

def isInternal : Fault → Bool
  | internal _ => true
  | _ => false

/-- The finding for a fault; without a place in a text it gets the code `fallback`. -/
def diagnostic (fallback : Code) : Fault → Diagnostic
  | malformed e => e.diagnostic
  | fault => { severity := .error, code := fallback, message := fault.message, span := .none }

end Fault

end Bracescript
