import Bracescript.Text.Json
import Bracescript.Tree.Forest

/-!
# Syntax trees as JSON

Every node is an object with its kind, its position, its source text and what it holds.
-/

namespace Bracescript

namespace Json

/-- A node; what is empty is left out, and named parts are in the order of their names. -/
def node (kind : Bytes) (pos : LineCol) (source : Bytes) (fields : List (Bytes × Json)) (children : List Json) : Json :=
  let place : List (Bytes × Json) := [("type", text kind), ("line", nat pos.line.toNat), ("col", nat pos.col.toNat)]
  let source : List (Bytes × Json) := if source.isEmpty then [] else [("text", text source)]
  let parts : List (Bytes × Json) := if fields.isEmpty then [] else [("fields", sortedObject fields)]
  let below : List (Bytes × Json) := if children.isEmpty then [] else [("children", list children)]
  object (place ++ source ++ parts ++ below)

end Json

open Json

/-- The node of an expression in a file. -/
def exprNode (f : SourceFile) (kind : Bytes) (n : Node) (fields : List (Bytes × Json)) (children : List Json) : Json :=
  Json.node kind n.pos (f.text n.span) fields children

namespace Expr

mutual

def toJson (f : SourceFile) : Expr → Json
  | hole _ => null
  | ident n name => exprNode f ExprKind.identifier.name n [("name", text name)] []
  | literal n kind value => exprNode f kind.name n [("value", text value)] []
  | unary n symbol operand behind =>
    exprNode f ExprKind.unary.name n [("op", text symbol), ("postfix", bool behind)] [operand.toJson f]
  | binary n symbol left right =>
    exprNode f ExprKind.binary.name n [("op", text symbol)] [left.toJson f, right.toJson f]
  | ternary n test yes no => exprNode f ExprKind.ternary.name n [] [test.toJson f, yes.toJson f, no.toJson f]
  | member n target field => exprNode f ExprKind.member.name n [("property", text field)] [target.toJson f]
  | call n target args => exprNode f ExprKind.call.name n [] (target.toJson f :: argsToJson f args)
  | index n target key => exprNode f ExprKind.index.name n [] [target.toJson f, key.toJson f]
  | slice n target start stop =>
    exprNode f ExprKind.slice.name n [("start", optionToJson f start), ("stop", optionToJson f stop)] [target.toJson f]
  | generic n target args => exprNode f ExprKind.generic.name n [] (target.toJson f :: allToJson f args)
  | bare n kind => exprNode f kind.name n [] []

def optionToJson (f : SourceFile) : Option Expr → Json
  | none => null
  | some e => e.toJson f

def allToJson (f : SourceFile) : List Expr → List Json
  | [] => []
  | e :: es => e.toJson f :: allToJson f es

def argToJson (f : SourceFile) : Argument Expr → Json
  | ⟨_, _, _, _, value⟩ => optionToJson f value

def argsToJson (f : SourceFile) : List (Argument Expr) → List Json
  | [] => []
  | a :: as => argToJson f a :: argsToJson f as

end

end Expr

namespace Stmt

open Expr

def paramToJson (f : SourceFile) (p : Argument Expr) : Json :=
  sortedObject [("name", text p.name), ("type", optionToJson f p.type), ("default", optionToJson f p.value)]

mutual

def toJson (f : SourceFile) : Stmt → Json
  | hole _ => null
  | expr n e => exprNode f StmtKind.expression.name n [] [e.toJson f]
  | assign n declares constant target value =>
    exprNode f StmtKind.assignment.name n
      [("declare", bool declares), ("const", bool constant), ("target", target.toJson f), ("value", optionToJson f value)] []
  | typed n type constant target value =>
    exprNode f StmtKind.typedAssignment.name n
      [("const", bool constant), ("type", type.toJson f), ("target", target.toJson f), ("value", optionToJson f value)] []
  | conditional n test yes no =>
    exprNode f StmtKind.conditional.name n
      [("cond", test.toJson f), ("then", list (allToJson f yes)), ("else", list (allToJson f no))] []
  | forLoop n init test step body =>
    exprNode f StmtKind.forLoop.name n
      [("init", stepToJson f init), ("cond", optionToJson f test), ("post", stepToJson f step)] (allToJson f body)
  | whileLoop n test body => exprNode f StmtKind.whileLoop.name n [("cond", test.toJson f)] (allToJson f body)
  | define n name params body =>
    exprNode f StmtKind.definition.name n
      [("name", text name), ("params", list (params.map (paramToJson f)))] (allToJson f body)
  | defineClass n name bases body =>
    exprNode f StmtKind.classDefinition.name n
      [("name", text name), ("bases", list (Expr.allToJson f bases))] (allToJson f body)
  | ret n value => exprNode f StmtKind.ret.name n [("value", optionToJson f value)] []
  | brk n => exprNode f StmtKind.brk.name n [] []
  | cont n => exprNode f StmtKind.cont.name n [] []
  | bare n kind => exprNode f kind.name n [] []

def stepToJson (f : SourceFile) : Option Stmt → Json
  | none => null
  | some s => s.toJson f

def allToJson (f : SourceFile) : List Stmt → List Json
  | [] => []
  | s :: ss => s.toJson f :: allToJson f ss

end

end Stmt

/-- The whole program as a JSON document. -/
def Program.toJson (p : Program) : Bytes :=
  document false (Json.node "Program" ⟨1, 1⟩ [] [] (Stmt.allToJson p.file p.statements))

end Bracescript
