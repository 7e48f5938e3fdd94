import Bracescript.Tree
import Bracescript.SourceFile

/-!
# Forests and programs

A forest keeps every node that was created, in order, so a number names a node. A program is a list of statements
together with the forest they grew in.
-/

namespace Bracescript

structure Forest where
  exprs : Array Expr := #[]
  stmts : Array Stmt := #[]
  deriving Inhabited

namespace Forest

def expr? (f : Forest) (id : Nat) : Option Expr := if id = 0 then none else f.exprs[id - 1]?

def stmt? (f : Forest) (id : Nat) : Option Stmt := if id = 0 then none else f.stmts[id - 1]?

/-- Adds the expression that `build` makes of a fresh number. -/
def addExpr (f : Forest) (span : Span) (pos : LineCol) (build : Node → Expr) : Expr × Forest :=
  let e := build ⟨f.exprs.size + 1, span, pos⟩
  (e, { f with exprs := f.exprs.push e })

/-- Adds the statement that `build` makes of a fresh number. -/
def addStmt (f : Forest) (span : Span) (pos : LineCol) (build : Node → Stmt) : Stmt × Forest :=
  let s := build ⟨f.stmts.size + 1, span, pos⟩
  (s, { f with stmts := f.stmts.push s })

def isBareExpr : Expr → Bool
  | .bare .. => true
  | _ => false

/-- Whether a statement holds nothing but its place. -/
def isBareStmt : Stmt → Bool
  | .bare .. | .brk _ | .cont _ => true
  | _ => false

/-- The rank of an expression among those of its kind, from 1; zero for one that holds nothing. -/
def exprRank (f : Forest) (id : Nat) : Nat :=
  match f.expr? id with
  | none => 0
  | some e =>
    if isBareExpr e then 0
    else ((f.exprs.toList.take id).filter fun x => !isBareExpr x && x.kind? == e.kind?).length

/-- The rank of a statement among those of its kind, from 1; zero for one that holds nothing. -/
def stmtRank (f : Forest) (id : Nat) : Nat :=
  match f.stmt? id with
  | none => 0
  | some s =>
    if isBareStmt s then 0
    else ((f.stmts.toList.take id).filter fun x => !isBareStmt x && x.kind? == s.kind?).length

/-! ## Following references -/

mutual

/-- Puts the nodes of the forest in the place of references to them. -/
def linkExpr (f : Forest) : Expr → Expr
  | .hole id => (f.expr? id).getD (.hole id)
  | .ident n name => .ident n name
  | .literal n kind value => .literal n kind value
  | .unary n symbol operand behind => .unary n symbol (f.linkExpr operand) behind
  | .binary n symbol left right => .binary n symbol (f.linkExpr left) (f.linkExpr right)
  | .ternary n test yes no => .ternary n (f.linkExpr test) (f.linkExpr yes) (f.linkExpr no)
  | .member n target field => .member n (f.linkExpr target) field
  | .call n target args => .call n (f.linkExpr target) (f.linkArgs args)
  | .index n target index => .index n (f.linkExpr target) (f.linkExpr index)
  | .slice n target start stop => .slice n (f.linkExpr target) (f.linkOption start) (f.linkOption stop)
  | .generic n target args => .generic n (f.linkExpr target) (f.linkExprs args)
  | .bare n kind => .bare n kind

def linkOption (f : Forest) : Option Expr → Option Expr
  | none => none
  | some e => some (f.linkExpr e)

def linkExprs (f : Forest) : List Expr → List Expr
  | [] => []
  | e :: es => f.linkExpr e :: f.linkExprs es

def linkArg (f : Forest) : Argument Expr → Argument Expr
  | ⟨span, pos, name, type, value⟩ => ⟨span, pos, name, f.linkOption type, f.linkOption value⟩

def linkArgs (f : Forest) : List (Argument Expr) → List (Argument Expr)
  | [] => []
  | a :: as => f.linkArg a :: f.linkArgs as

end

mutual

/-- Puts the nodes of the forest in the place of references to them. -/
def linkStmt (f : Forest) : Stmt → Stmt
  | .hole id => (f.stmt? id).getD (.hole id)
  | .expr n e => .expr n (f.linkExpr e)
  | .assign n declares constant target value => .assign n declares constant (f.linkExpr target) (f.linkOption value)
  | .typed n type constant target value =>
    .typed n (f.linkExpr type) constant (f.linkExpr target) (f.linkOption value)
  | .conditional n test yes no => .conditional n (f.linkExpr test) (f.linkStmts yes) (f.linkStmts no)
  | .forLoop n init test step body =>
    .forLoop n (f.linkStmtOption init) (f.linkOption test) (f.linkStmtOption step) (f.linkStmts body)
  | .whileLoop n test body => .whileLoop n (f.linkExpr test) (f.linkStmts body)
  | .define n name params body => .define n name (f.linkArgs params) (f.linkStmts body)
  | .defineClass n name bases body => .defineClass n name (f.linkExprs bases) (f.linkStmts body)
  | .ret n value => .ret n (f.linkOption value)
  | .brk n => .brk n
  | .cont n => .cont n
  | .bare n kind => .bare n kind

def linkStmtOption (f : Forest) : Option Stmt → Option Stmt
  | none => none
  | some s => some (f.linkStmt s)

def linkStmts (f : Forest) : List Stmt → List Stmt
  | [] => []
  | s :: ss => f.linkStmt s :: f.linkStmts ss

end

/-- A bound on how often references have to be followed. -/
def depth (f : Forest) : Nat := f.exprs.size + f.stmts.size

/-- The forest with every reference followed as far as it leads. -/
def linked (f : Forest) : Forest where
  exprs := f.exprs.map fun e => f.depth.repeat f.linkExpr e
  stmts := f.stmts.map fun s => f.depth.repeat f.linkStmt s

/-- A statement of the forest with every reference followed. -/
def linkedStmt (f : Forest) (id : Nat) : Stmt := f.depth.repeat f.linkStmt (f.linkStmt (.hole id))

end Forest

structure Program where
  file : SourceFile
  forest : Forest
  statements : List Stmt
  span : Span

namespace Program

/-- The text of a span of the program's file. -/
def raw (p : Program) (s : Span) : Bytes := p.file.text s

end Program

end Bracescript
