import Bracescript.Diagnostic
import Bracescript.Tree.Forest

/-!
# Parsing steps

A step works on the nodes created so far and on what the surroundings allow. A failing step keeps what it has created.
-/

namespace Bracescript

/-- How many definitions and loops surround a statement. -/
structure Scope where
  defs : Nat := 0
  loops : Nat := 0
  deriving DecidableEq, Inhabited

structure ParseState where
  forest : Forest := {}
  scope : Scope := {}
  deriving Inhabited

def Parse (α : Type) : Type := ParseState → Except Fault α × ParseState

namespace Parse

variable {α β : Type}

protected def pure (a : α) : Parse α := fun s => (.ok a, s)

protected def bind (p : Parse α) (f : α → Parse β) : Parse β := fun s =>
  match p s with
  | (.ok a, s) => f a s
  | (.error fault, s) => (.error fault, s)

instance : Monad Parse where
  pure := Parse.pure
  bind := Parse.bind

def throw (fault : Fault) : Parse α := fun s => (.error fault, s)

/-- The text is wrong at a token. -/
def fail (cause : Cause) (t : Token) : Parse α := throw (.malformed (.atToken cause t))

/-- The text is wrong at an expression. -/
def failAt (cause : Cause) (e : Expr) : Parse α := throw (.malformed (.of cause e.span e.pos))

/-- Goes on after a failure, with its fault as a value. -/
def attempt (p : Parse α) : Parse (Except Fault α) := fun s =>
  let (result, s) := p s
  (.ok result, s)

def scope : Parse Scope := fun s => (.ok s.scope, s)

/-- Runs a step in other surroundings. -/
def within (scope : Scope) (p : Parse α) : Parse α := fun s =>
  let (result, after) := p { s with scope }
  (result, { after with scope := s.scope })

def newExpr (span : Span) (pos : LineCol) (build : Node → Expr) : Parse Expr := fun s =>
  let (e, forest) := s.forest.addExpr span pos build
  (.ok e, { s with forest })

def newStmt (span : Span) (pos : LineCol) (build : Node → Stmt) : Parse Stmt := fun s =>
  let (stmt, forest) := s.forest.addStmt span pos build
  (.ok stmt, { s with forest })

/-- The name that a token is. -/
def newIdent (t : Token) : Parse Expr := newExpr t.span t.pos fun n => .ident n t.value

end Parse

end Bracescript
