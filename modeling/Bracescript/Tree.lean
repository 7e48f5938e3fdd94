import Bracescript.Span
import Bracescript.Tree.Kind

/-!
# Syntax trees

Expressions and statements. Every node knows its number and its place in the source.
-/

namespace Bracescript

/-- The number of a node, from 1 in the order of creation, and its place. -/
structure Node where
  id : Nat
  span : Span
  pos : LineCol
  deriving DecidableEq, Repr, Inhabited

/-- An argument of a call, which has only a value, or a parameter with a name and perhaps a type and a default. -/
structure Argument (ε : Type) where
  span : Span := .none
  pos : LineCol := .none
  name : Bytes := []
  type : Option ε := none
  value : Option ε := none

def Argument.isPlain {ε : Type} (a : Argument ε) : Bool := a.name.isEmpty && a.type.isNone

inductive Expr where
  /-- A reference to a node that is not there. -/
  | hole (id : Nat)
  | ident (node : Node) (name : Bytes)
  /-- A number is kept as its signed digits, a string decoded. -/
  | literal (node : Node) (kind : LiteralKind) (value : Bytes)
  /-- An operator in front of its operand, or behind it. -/
  | unary (node : Node) (symbol : Bytes) (operand : Expr) (behind : Bool)
  | binary (node : Node) (symbol : Bytes) (left right : Expr)
  | ternary (node : Node) (test yes no : Expr)
  | member (node : Node) (target : Expr) (field : Bytes)
  | call (node : Node) (target : Expr) (args : List (Argument Expr))
  | index (node : Node) (target index : Expr)
  | slice (node : Node) (target : Expr) (start stop : Option Expr)
  | generic (node : Node) (target : Expr) (args : List Expr)
  /-- A node of a kind, without what that kind should hold. -/
  | bare (node : Node) (kind : ExprKind)

instance : Inhabited Expr := ⟨.hole 0⟩

namespace Expr

def node? : Expr → Option Node
  | hole _ => none
  | ident n _ | literal n _ _ | unary n _ _ _ | binary n _ _ _ | ternary n _ _ _ | member n _ _ | call n _ _
  | index n _ _ | slice n _ _ _ | generic n _ _ | bare n _ => some n

def kind? : Expr → Option ExprKind
  | hole _ => none
  | ident .. => some .identifier
  | literal .. => some .literal
  | unary .. => some .unary
  | binary .. => some .binary
  | ternary .. => some .ternary
  | member .. => some .member
  | call .. => some .call
  | index .. => some .index
  | slice .. => some .slice
  | generic .. => some .generic
  | bare _ kind => some kind

def kindName (e : Expr) : Bytes := (e.kind?.map ExprKind.name).getD "missing expression"

def span (e : Expr) : Span := (e.node?.map Node.span).getD .none

def pos (e : Expr) : LineCol := (e.node?.map Node.pos).getD .none

/-- Whether this is no node and no reference to one. -/
def isAbsent : Expr → Bool
  | hole id => id == 0
  | _ => false

end Expr

inductive Stmt where
  /-- A reference to a node that is not there. -/
  | hole (id : Nat)
  | expr (node : Node) (expr : Expr)
  /-- A declaration with `let` or `const`, or the change of what is there already. -/
  | assign (node : Node) (declares constant : Bool) (target : Expr) (value : Option Expr)
  | typed (node : Node) (type : Expr) (constant : Bool) (target : Expr) (value : Option Expr)
  | conditional (node : Node) (test : Expr) (yes no : List Stmt)
  | forLoop (node : Node) (init : Option Stmt) (test : Option Expr) (step : Option Stmt) (body : List Stmt)
  | whileLoop (node : Node) (test : Expr) (body : List Stmt)
  | define (node : Node) (name : Bytes) (params : List (Argument Expr)) (body : List Stmt)
  | defineClass (node : Node) (name : Bytes) (bases : List Expr) (body : List Stmt)
  | ret (node : Node) (value : Option Expr)
  | brk (node : Node)
  | cont (node : Node)
  /-- A node of a kind, without what that kind should hold. -/
  | bare (node : Node) (kind : StmtKind)

instance : Inhabited Stmt := ⟨.hole 0⟩

namespace Stmt

def node? : Stmt → Option Node
  | hole _ => none
  | expr n _ | assign n _ _ _ _ | typed n _ _ _ _ | conditional n _ _ _ | forLoop n _ _ _ _ | whileLoop n _ _
  | define n _ _ _ | defineClass n _ _ _ | ret n _ | brk n | cont n | bare n _ => some n

def kind? : Stmt → Option StmtKind
  | hole _ => none
  | expr .. => some .expression
  | assign .. => some .assignment
  | typed .. => some .typedAssignment
  | conditional .. => some .conditional
  | forLoop .. => some .forLoop
  | whileLoop .. => some .whileLoop
  | define .. => some .definition
  | defineClass .. => some .classDefinition
  | ret .. => some .ret
  | brk _ => some .brk
  | cont _ => some .cont
  | bare _ kind => some kind

def kindName (s : Stmt) : Bytes := (s.kind?.map StmtKind.name).getD "missing statement"

def span (s : Stmt) : Span := (s.node?.map Node.span).getD .none

def pos (s : Stmt) : LineCol := (s.node?.map Node.pos).getD .none

end Stmt

end Bracescript
