import Bracescript.Trace.Event

/-!
# Tracers

A tracer numbers spans and keeps the events that its level asks for. What failed is always kept.
-/

namespace Bracescript

structure Tracer where
  level : Trace.Level := .off
  /-- How many spans and points were numbered. -/
  spans : Nat := 0
  events : Array Trace.Event := #[]
  deriving Inhabited

namespace Trace

/-- A stretch of work that is being traced. -/
structure Span where
  /-- Zero for a span that nobody watches. -/
  id : Nat := 0
  parent : Nat := 0
  scope : Scope := ⟨0⟩
  name : Bytes := []
  failed : Bool := false
  extra : List (Bytes × Bytes) := []
  deriving DecidableEq, Inhabited

namespace Span

def isWatched (s : Span) : Bool := s.id != 0

def fail (s : Span) : Span := { s with failed := true }

/-- Fails the span on a condition. -/
def failIf (b : Bool) (s : Span) : Span := if b then s.fail else s

/-- Adds a fact under a name that is new or gets a new value. -/
def withExtra (s : Span) (key value : Bytes) : Span :=
  if s.isWatched then
    { s with extra := ((key, value) :: s.extra.filter (·.1 ≠ key)).mergeSort fun a b => Bytes.le a.1 b.1 }
  else s

end Span

end Trace

namespace Tracer

open Trace

def isEnabled (t : Tracer) : Bool := t.level.isEnabled

/-- Keeps an event if its scope is asked for or if it failed. -/
def emit (t : Tracer) (e : Event) : Tracer :=
  if t.isEnabled && (t.level.keeps e.scope || e.failed) then
    { t with events := t.events.push { e with seq := t.events.size + 1 } }
  else t

/-- All work is done in one line. -/
def worker : Nat := 1

/-- Starts a span. -/
def start (t : Tracer) (scope : Scope) (name : Bytes) (parent : Nat) : Trace.Span × Tracer :=
  if t.isEnabled then
    let id := t.spans + 1
    ({ id, parent, scope, name },
      { t with spans := id }.emit { kind := .start, scope, span := id, parent, worker, name })
  else ({}, t)

/-- Ends a span. -/
def stop (t : Tracer) (s : Trace.Span) (detail : Bytes) : Tracer :=
  if s.isWatched && t.isEnabled then
    t.emit { kind := .stop, scope := s.scope, span := s.id, parent := s.parent, worker, name := s.name, detail
             failed := s.failed, extra := s.extra }
  else t

/-- Something that happens at once. -/
def point (t : Tracer) (scope : Scope) (name detail : Bytes) (parent : Nat) : Tracer :=
  if t.isEnabled then
    let id := t.spans + 1
    { t with spans := id }.emit { kind := .point, scope, span := id, parent, worker, name, detail }
  else t

/-- All kept events in a format. -/
def render (t : Tracer) (format : Format) : Bytes := t.events.toList.flatMap fun e => e.render format 0

end Tracer

end Bracescript
