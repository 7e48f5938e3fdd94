import Bracescript.Calendar
import Bracescript.Text.Fixed
import Bracescript.Text.Json
import Bracescript.Text.Quoted
import Bracescript.Text.Trim

/-!
# Trace events

What happened during a run, how much of it is kept, and how it is written.
-/

namespace Bracescript.Trace

/-- How much is traced, by number. -/
structure Level where
  number : Nat
  deriving DecidableEq, Repr, Inhabited

namespace Level

def off : Level := ⟨0⟩

/-- Only what failed. -/
def error : Level := ⟨1⟩

/-- Whole commands and their passes. -/
def phase : Level := ⟨2⟩

/-- Single files besides. -/
def detail : Level := ⟨3⟩

/-- Everything. -/
def debug : Level := ⟨4⟩

def names : List Bytes := ["off", "error", "phase", "detail", "debug"]

def name (l : Level) : Bytes := names.getD l.number "unknown"

/-- The level of a name, in any letter case and with blanks around it. -/
def parse (s : Bytes) : Except Bytes Level :=
  match names.idxOf? (Text.lower (Text.trim s)) with
  | some n => .ok ⟨n⟩
  | none => .error ("invalid trace level: " ++ Text.quoted s ++ " (expected: off|error|phase|detail|debug)")

def isEnabled (l : Level) : Bool := 0 < l.number

end Level

/-- What an event is about, by number; the smaller, the wider. -/
structure Scope where
  number : Nat
  deriving DecidableEq, Repr, Inhabited

namespace Scope

def driver : Scope := ⟨1⟩

def pass : Scope := ⟨2⟩

def module : Scope := ⟨3⟩

def node : Scope := ⟨4⟩

def name (s : Scope) : Bytes :=
  match s.number with
  | 1 => "driver"
  | 2 => "pass"
  | 3 => "module"
  | 4 => "node"
  | _ => "unknown"

end Scope

/-- Whether events of a scope are kept even if nothing failed. -/
def Level.keeps (l : Level) (s : Scope) : Bool :=
  if l = .phase then s.number ≤ Scope.pass.number
  else if l = .detail then s.number ≤ Scope.module.number
  else l = .debug

/-- What an event says, by number. -/
structure Kind where
  number : Nat
  deriving DecidableEq, Repr, Inhabited

namespace Kind

def start : Kind := ⟨1⟩

def stop : Kind := ⟨2⟩

def point : Kind := ⟨3⟩

def name (k : Kind) : Bytes :=
  match k.number with
  | 1 => "begin"
  | 2 => "end"
  | 3 => "point"
  | _ => "unknown"

/-- The sign of the kind in a text. -/
def sign (k : Kind) : Bytes :=
  match k.number with
  | 1 => "→ "
  | 2 => "← "
  | 3 => "• "
  | _ => ""

end Kind

structure Event where
  /-- Nanoseconds since the start of 1970. -/
  time : Int := 0
  /-- The number of the event among those that were kept. -/
  seq : Nat := 0
  kind : Kind
  scope : Scope
  span : Nat := 0
  /-- The enclosing span; zero for none. -/
  parent : Nat := 0
  /-- The line of work that the event belongs to. -/
  worker : Nat := 0
  name : Bytes := []
  detail : Bytes := []
  failed : Bool := false
  /-- Further facts, in ascending order of their names. -/
  extra : List (Bytes × Bytes) := []
  deriving DecidableEq, Inhabited

/-- How events are written. -/
inductive Format where
  /-- By the name of the output. -/
  | auto
  | text
  /-- One JSON object per line. -/
  | lines
  deriving DecidableEq, Repr, Inhabited

namespace Format

def ofNumber : Nat → Format
  | 0 => auto
  | 2 => lines
  | _ => text

def number : Format → Nat
  | auto => 0
  | text => 1
  | lines => 2

def parse (s : Bytes) : Except Bytes Format :=
  let word := Text.lower s
  if word = "" || word = "auto" then .ok auto
  else if word = "text" then .ok text
  else if word = "ndjson" || word = "json" then .ok lines
  else .error ("invalid trace format: " ++ Text.quoted s ++ " (expected: auto|text|ndjson)")

end Format

namespace Event

open Json in
/-- The event as a JSON object; what is empty is left out. -/
def toJson (e : Event) : Json :=
  let head : List (Bytes × Json) :=
    [("time", text (Calendar.timestamp e.time)), ("seq", nat e.seq), ("kind", text e.kind.name),
      ("scope", text e.scope.name), ("span_id", nat e.span)]
  let parent : List (Bytes × Json) := if e.parent = 0 then [] else [("parent_id", nat e.parent)]
  let worker : List (Bytes × Json) := if e.worker = 0 then [] else [("gid", nat e.worker)]
  let name : List (Bytes × Json) := [("name", text e.name)]
  let detail : List (Bytes × Json) := if e.detail.isEmpty then [] else [("detail", text e.detail)]
  let failed : List (Bytes × Json) := if e.failed then [("failed", bool true)] else []
  let extra : List (Bytes × Json) :=
    if e.extra.isEmpty then [] else [("extra", sortedObject (e.extra.map fun (k, v) => (k, text v)))]
  object (head ++ parent ++ worker ++ name ++ detail ++ failed ++ extra)

/-- Milliseconds with three places in nine columns. -/
def elapsed (nanoseconds : Int) : Bytes :=
  Text.padFront 9 (Text.fixed 3 (Float.ofInt nanoseconds / 1000000.0))

def renderText (e : Event) (start : Int) : Bytes :=
  let detail : Bytes := if e.detail.isEmpty then [] else " (" ++ e.detail ++ ")"
  let extra : Bytes :=
    if e.extra.isEmpty then []
    else " \x7b" ++ Bytes.join ", " (e.extra.map fun (k, v) => k ++ "=" ++ v) ++ "\x7d"
  "[+" ++ elapsed (e.time - start) ++ "ms] " ++ (if e.parent = 0 then "" else "  ") ++ e.kind.sign ++ e.name
    ++ (if e.failed then " FAILED" else "") ++ detail ++ extra ++ "\n"

/-- The event in a format; times in a text count from `start`. -/
def render (e : Event) (format : Format) (start : Int) : Bytes :=
  match format with
  | .lines => e.toJson.compact true ++ "\n"
  | _ => e.renderText start

end Event

end Bracescript.Trace
