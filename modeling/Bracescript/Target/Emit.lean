import Bracescript.Diagnostic
import Bracescript.Target.Module
import Bracescript.Tree.Forest

/-!
# Emission

Programs as text of the target language. Every operation is a call of the runtime library through a dispatch key.
-/

namespace Bracescript

open Text

/-- The emitted text, or the first node that has none. -/
abbrev Emitted := Except Unsupported Bytes

namespace Emit

open Target (select quote userName)

/-! ## Expressions -/

/-- The maker of a literal applied to its value. -/
def literal (kind : LiteralKind) (value : Bytes) : Emitted :=
  match Target.constructor? kind with
  | none => .error ⟨kind.name, "no runtime constructor"⟩
  | some maker =>
    .ok (maker ++ "(" ++ (if kind = .string then quote value
      else if Target.takesBigint kind then value ++ "n" else value) ++ ")")

mutual

def expr : Expr → Emitted
  | .hole _ => .error { kind := "missing expression" }
  | .ident _ name => .ok (userName name)
  | .literal _ kind value => literal kind value
  | .unary _ symbol operand _ =>
    match Target.unaryKey? symbol with
    | none => .error ⟨ExprKind.unary.name, "operator " ++ quoted symbol⟩
    | some key => do
      let operand ← expr operand
      return operand ++ select key ++ "()"
  | .binary _ symbol left right =>
    match Target.binaryKey? symbol with
    | none => .error ⟨ExprKind.binary.name, "operator " ++ quoted symbol⟩
    | some key => do
      let left ← expr left
      let right ← expr right
      return left ++ select key ++ "(" ++ right ++ ")"
  | .ternary _ test yes no => do
    let test ← expr test
    let yes ← argument yes
    let no ← argument no
    return test ++ select Target.choose ++ "(" ++ yes ++ "," ++ no ++ ")"
  | .member _ target field => do
    let target ← expr target
    return target ++ select Target.getAttr ++ "(" ++ quote field ++ ")"
  | .call _ target args => do
    let target ← expr target
    match args.find? fun a => !a.isPlain with
    | some a => .error ⟨ExprKind.call.name, "named argument " ++ quoted a.name⟩
    | none =>
      let args ← arguments args
      return target ++ select Target.call ++ "(" ++ Bytes.join "," args ++ ")"
  | .index _ target key => do
    let target ← expr target
    let key ← argument key
    return target ++ select Target.getItem ++ "(" ++ key ++ ")"
  | .slice _ target start stop => do
    let target ← expr target
    let start ← optional start
    let stop ← optional stop
    return target ++ select Target.getSlice ++ "(" ++ start ++ "," ++ stop ++ ")"
  | .generic .. => .error { kind := ExprKind.generic.name }
  | .bare _ kind => .error { kind := kind.name }

/-- An argument of a dispatched call; one that is not there is `undefined`. -/
def argument : Expr → Emitted
  | .hole 0 => .ok "undefined"
  | e => expr e

def optional : Option Expr → Emitted
  | none => .ok "undefined"
  | some e => expr e

def value : Argument Expr → Emitted
  | ⟨_, _, _, _, v⟩ => optional v

def arguments : List (Argument Expr) → Except Unsupported (List Bytes)
  | [] => .ok []
  | a :: as => do
    let a ← value a
    let as ← arguments as
    return a :: as

end

/-- The truth of an expression as a plain boolean. -/
def condition (e : Expr) : Emitted := do
  let e ← expr e
  return Target.truthy ++ "(" ++ e ++ ")"

/-- Passes a value through a type; without a value the type is called on nothing. -/
def convert (type : Expr) (value : Option Expr) : Emitted := do
  let type ← expr type
  match value with
  | none => return type ++ select Target.call ++ "()"
  | some e =>
    let e ← expr e
    return type ++ select Target.call ++ "(" ++ e ++ ")"

/-- A value that is `null` when left out. -/
def orNothing : Option Expr → Emitted
  | none => .ok Target.nothing
  | some e => expr e

/-- A value that must be there. -/
def required : Option Expr → Emitted
  | none => expr (.hole 0)
  | some e => expr e

/-! ## Assignments -/

def declarator (constant : Bool) : Bytes := if constant then "const " else "let "

/-- The change of something that is there. -/
def change (target : Expr) (value : Option Expr) : Emitted :=
  match target with
  | .hole _ => .error ⟨StmtKind.assignment.name, "missing target"⟩
  | .ident _ name => do
    let value ← required value
    return userName name ++ "=" ++ value
  | .member _ object field => do
    let object ← expr object
    let value ← required value
    return object ++ select Target.setAttr ++ "(" ++ quote field ++ "," ++ value ++ ")"
  | .index _ object key => do
    let object ← expr object
    let key ← argument key
    let value ← optional value
    return object ++ select Target.setItem ++ "(" ++ key ++ "," ++ value ++ ")"
  | .slice _ object start stop => do
    let object ← expr object
    let start ← optional start
    let stop ← optional stop
    let value ← optional value
    return object ++ select Target.setSlice ++ "(" ++ start ++ "," ++ stop ++ "," ++ value ++ ")"
  | other => .error ⟨StmtKind.assignment.name, "cannot assign to " ++ other.kindName⟩

def assign (declares constant : Bool) (target : Expr) (value : Option Expr) : Emitted :=
  if declares then do
    let target ← expr target
    let value ← orNothing value
    return declarator constant ++ target ++ "=" ++ value
  else change target value

def typed (type : Expr) (constant : Bool) (target : Expr) (value : Option Expr) : Emitted := do
  let target ← expr target
  let value ← convert type value
  return declarator constant ++ target ++ "=" ++ value

/-! ## Functions -/

def parameter (p : Argument Expr) : Emitted :=
  match p.value with
  | none => .ok (userName p.name)
  | some e => do
    let e ← expr e
    return userName p.name ++ "=" ++ e

def parameters : List (Argument Expr) → Except Unsupported (List Bytes)
  | [] => .ok []
  | p :: ps => do
    let p ← parameter p
    let ps ← parameters ps
    return p :: ps

/-- Typed parameters are passed through their types on entry. -/
def conversions : List (Argument Expr) → Emitted
  | [] => .ok []
  | p :: ps =>
    match p.type with
    | none => conversions ps
    | some type => do
      let type ← expr type
      let rest ← conversions ps
      return userName p.name ++ "=" ++ type ++ select Target.call ++ "(" ++ userName p.name ++ ");" ++ rest

/-! ## Statements -/

def exprs : List Expr → Except Unsupported (List Bytes)
  | [] => .ok []
  | e :: es => do
    let e ← expr e
    let es ← exprs es
    return e :: es

/-- The name of a field. -/
def memberName (kind : StmtKind) : Expr → Except Unsupported Bytes
  | .ident _ name => .ok name
  | _ => .error ⟨kind.name, "class member target is not a name"⟩

mutual

def stmt : Stmt → Emitted
  | .hole _ => .error { kind := "missing statement" }
  | .expr _ e => expr e
  | .assign _ declares constant target value => assign declares constant target value
  | .typed _ type constant target value => typed type constant target value
  | .conditional _ test yes no => do
    let test ← condition test
    let yesText ← stmts yes
    let head := "if(" ++ test ++ ")\x7b" ++ yesText ++ "\x7d"
    if no.isEmpty then return head
    else
      let no ← stmts no
      return head ++ "else\x7b" ++ no ++ "\x7d"
  | .forLoop _ init test step body => do
    let init ← step? init
    let test ← match test with
      | none => .ok []
      | some e => condition e
    let step ← step? step
    let body ← stmts body
    return "for(" ++ init ++ ";" ++ test ++ ";" ++ step ++ ")\x7b" ++ body ++ "\x7d"
  | .whileLoop _ test body => do
    let test ← condition test
    let body ← stmts body
    return "while(" ++ test ++ ")\x7b" ++ body ++ "\x7d"
  | .define _ name params body => do
    let params' ← parameters params
    let entry ← conversions params
    let body ← stmts body
    return "const " ++ userName name ++ "=" ++ function name params' entry body
  | .defineClass _ name bases body =>
    match bases with
    | _ :: _ :: _ =>
      .error ⟨StmtKind.classDefinition.name,
        "class " ++ name ++ " has " ++ Bytes.ofNat bases.length ++ " base classes, at most one is supported"⟩
    | bases => do
      let base ← match bases with
        | base :: _ => expr base
        | [] => .ok Target.any
      let body ← members body
      return "const " ++ userName name ++ "=" ++ Target.createSubclass ++ "(" ++ base ++ "," ++ quote name ++ ",\x7b"
        ++ Bytes.join "," body ++ "\x7d)"
  | .ret _ value => do
    let value ← orNothing value
    return "return " ++ value
  | .brk _ => .ok "break"
  | .cont _ => .ok "continue"
  | .bare _ kind => .error { kind := kind.name }

/-- A function with its name. -/
def function (name : Bytes) (params : List Bytes) (entry body : Bytes) : Bytes :=
  Target.function ++ "(function(" ++ Bytes.join "," params ++ ")\x7b" ++ entry ++ body ++ "\x7d," ++ quote name ++ ")"

def step? : Option Stmt → Emitted
  | none => .ok []
  | some s => stmt s

def stmts : List Stmt → Emitted
  | [] => .ok []
  | [s] => stmt s
  | s :: ss => do
    let s ← stmt s
    let ss ← stmts ss
    return s ++ ";" ++ ss

/-- A member of a class. -/
def member : Stmt → Emitted
  | .typed _ type _ target value => do
    let name ← memberName .typedAssignment target
    let value ← convert type value
    return quote name ++ ":" ++ value
  | .assign _ _ _ target value => do
    let name ← memberName .assignment target
    let value ← orNothing value
    return quote name ++ ":" ++ value
  | .define _ name params body => do
    let params' ← parameters params
    let entry ← conversions params
    let body ← stmts body
    return quote name ++ ":" ++ function name params' entry body
  | s => .error ⟨s.kindName, "not allowed in a class body"⟩

def members : List Stmt → Except Unsupported (List Bytes)
  | [] => .ok []
  | s :: ss => do
    let s ← member s
    let ss ← members ss
    return s :: ss

end

end Emit

namespace Program

/-- The statements of a program. -/
def emitBody (p : Program) : Emitted := Emit.stmts p.statements

/-- A program as a whole module. -/
def emit (p : Program) (o : EmitOptions) : Emitted := do
  let body ← p.emitBody
  return o.prelude ++ body ++ o.epilogue

end Program

end Bracescript
