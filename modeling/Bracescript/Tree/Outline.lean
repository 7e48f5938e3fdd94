import Bracescript.Text.Quoted
import Bracescript.Tree.Forest

/-!
# Outlines

A program as an indented tree with lines that lead from a node to its children.
-/

namespace Bracescript

open Text

/-- A labelled entry and what hangs below it. -/
inductive Outline where
  | entry (label : Bytes) (children : List Outline)

namespace Outline

def leaf (label : Bytes) : Outline := entry label []

/-- The entry under a name. -/
def named (name : Bytes) : Outline → Outline
  | entry label children => entry (name ++ ": " ++ label) children

mutual

/-- The entry itself; its children get `lead` and some lines in front. -/
def render (lead : Bytes) : Outline → Bytes
  | entry label children => label ++ "\n" ++ renderAll lead children

def renderAll (lead : Bytes) : List Outline → Bytes
  | [] => []
  | [last] => lead ++ "└─ " ++ render (lead ++ "   ") last
  | o :: os => lead ++ "├─ " ++ render (lead ++ "│  ") o ++ renderAll lead os

end

end Outline

open Outline

namespace Expr

/-- The entry of a part under a name, if there is such a part. -/
def namedPart (name : Bytes) (e : Expr) (o : Outline) : List Outline := if e.isAbsent then [] else [o.named name]

mutual

def outline : Expr → Outline
  | hole _ => leaf "<nil expr>"
  | ident _ name => leaf (ExprKind.identifier.name ++ " " ++ name)
  | literal _ kind value => leaf (kind.name ++ " " ++ if kind = .string then quoted value else value)
  | unary _ symbol operand behind =>
    entry (ExprKind.unary.name ++ " " ++ symbol ++ if behind then " (postfix)" else " (prefix)") [operand.outline]
  | binary _ symbol left right => entry (ExprKind.binary.name ++ " " ++ symbol) [left.outline, right.outline]
  | ternary _ test yes no =>
    entry ExprKind.ternary.name
      (test.namedPart "Cond" test.outline ++ yes.namedPart "Then" yes.outline ++ no.namedPart "Else" no.outline)
  | member _ target field => entry (ExprKind.member.name ++ " ." ++ field) [target.outline]
  | call _ target args =>
    entry (ExprKind.call.name ++ " (" ++ Bytes.ofNat args.length ++ " args)")
      (target.namedPart "Callee" target.outline ++ outlineArgs args)
  | index _ target key => entry ExprKind.index.name (target.outline :: key.namedPart "Index" key.outline)
  | slice _ target start stop =>
    entry ExprKind.slice.name (target.outline :: (outlineOption "Start" start ++ outlineOption "Stop" stop))
  | generic _ target args => entry ExprKind.generic.name (target.outline :: outlineAll args)
  | bare _ kind => leaf kind.name

def outlineOption (name : Bytes) : Option Expr → List Outline
  | none => []
  | some e => [e.outline.named name]

def outlineAll : List Expr → List Outline
  | [] => []
  | e :: es => e.outline :: outlineAll es

def outlineArg : Argument Expr → Outline
  | ⟨_, _, _, _, value⟩ => outlineValue value

def outlineValue : Option Expr → Outline
  | none => leaf "<nil expr>"
  | some e => e.outline

def outlineArgs : List (Argument Expr) → List Outline
  | [] => []
  | a :: as => outlineArg a :: outlineArgs as

end

end Expr

/-- The word that declares a variable or a constant. -/
def declarationWord (constant : Bool) : Bytes := if constant then "const" else "let"

namespace Stmt

open Expr

def outlineParam (p : Argument Expr) : Outline :=
  entry p.name (outlineOption "Type" p.type ++ outlineOption "Default" p.value)

/-- A kind, some words and a position. -/
def heading (kind : StmtKind) (words : Bytes) (n : Node) : Bytes := kind.name ++ words ++ " @" ++ n.pos.render

mutual

def outline : Stmt → Outline
  | hole _ => leaf "<nil stmt>"
  | expr n e => entry (heading .expression [] n) [e.outline]
  | assign n declares constant target value =>
    entry (heading .assignment (if declares then " " ++ declarationWord constant else []) n)
      (target.namedPart "Target" target.outline ++ outlineOption "Value" value)
  | typed n type constant target value =>
    entry (heading .typedAssignment (" " ++ declarationWord constant) n)
      (type.namedPart "Type" type.outline ++ target.namedPart "Target" target.outline ++ outlineOption "Value" value)
  | conditional n test yes no =>
    entry (heading .conditional [] n)
      (test.namedPart "Cond" test.outline ++ [outlineBlock "Then" yes.length (outlineAll yes)]
        ++ if no.isEmpty then [] else [outlineBlock "Else" no.length (outlineAll no)])
  | forLoop n init test step body =>
    entry (heading .forLoop [] n)
      (outlineStep "Init" init ++ outlineOption "Cond" test ++ outlineStep "Post" step
        ++ [outlineBlock "Body" body.length (outlineAll body)])
  | whileLoop n test body =>
    entry (heading .whileLoop [] n)
      (test.namedPart "Cond" test.outline ++ [outlineBlock "Body" body.length (outlineAll body)])
  | define n name params body =>
    entry (heading .definition [] n)
      [leaf ("Name: " ++ name), entry ("Params (" ++ Bytes.ofNat params.length ++ ")") (params.map outlineParam),
        outlineBlock "Body" body.length (outlineAll body)]
  | defineClass n name bases body =>
    entry (heading .classDefinition [] n)
      ([leaf ("Name: " ++ name)] ++ (if bases.isEmpty then [] else [entry "Bases" (Expr.outlineAll bases)])
        ++ [outlineBlock "Body" body.length (outlineAll body)])
  | ret n value => entry (heading .ret [] n) (outlineOption "Value" value)
  | brk n => leaf (heading .brk [] n)
  | cont n => leaf (heading .cont [] n)
  | bare n kind => leaf (heading kind [] n)

def outlineStep (name : Bytes) : Option Stmt → List Outline
  | none => []
  | some s => [entry name [s.outline]]

def outlineAll : List Stmt → List Outline
  | [] => []
  | s :: ss => s.outline :: outlineAll ss

/-- A block of some statements. -/
def outlineBlock (name : Bytes) (count : Nat) (children : List Outline) : Outline :=
  entry (name ++ " (" ++ Bytes.ofNat count ++ ")") children

end

end Stmt

/-- The whole program as an indented tree. -/
def Program.outline (p : Program) : Bytes :=
  (entry ("Program (" ++ Bytes.ofNat p.statements.length ++ " statements)") (Stmt.outlineAll p.statements)).render []

end Bracescript
