import Bracescript.Tree.Forest

/-!
# Checking spans

Spans of a sound program lie where they should: all nodes in the program, operands in their parents, statements one
after the other.
-/

namespace Bracescript

/-- What is wrong with a span. -/
inductive SpanFault where
  | programFile (got want : UInt32)
  | programOutside (span : Span) (size : UInt32)
  | emptySpan (what : Bytes) (span : Span)
  | otherFile (what : Bytes) (got want : UInt32)
  | outsideProgram (what : Bytes) (span program : Span)
  | operandEscapes (span : Span) (kind : Bytes) (parent : Span)
  | overlap (index : Nat) (span : Span) (stop : UInt32)
  deriving DecidableEq

namespace SpanFault

def message : SpanFault → Bytes
  | programFile got want =>
    "program span points to different file id: got=" ++ Bytes.ofNat got.toNat ++ " want=" ++ Bytes.ofNat want.toNat
  | programOutside span size =>
    "program span " ++ span.render ++ " is outside content of " ++ Bytes.ofNat size.toNat ++ " bytes"
  | emptySpan what span => what ++ " has an empty span: " ++ span.render
  | otherFile what got want =>
    what ++ " span file mismatch: got=" ++ Bytes.ofNat got.toNat ++ " want=" ++ Bytes.ofNat want.toNat
  | outsideProgram what span program => what ++ " span " ++ span.render ++ " is outside program span " ++ program.render
  | operandEscapes span kind parent =>
    "operand span " ++ span.render ++ " escapes " ++ kind ++ " span " ++ parent.render
  | overlap index span stop =>
    "statement " ++ Bytes.ofNat index ++ " span " ++ span.render ++ " overlaps the previous one (ends at "
      ++ Bytes.ofNat stop.toNat ++ ")"

end SpanFault

namespace Program

/-- The span of a node must not be empty and lies in the program. -/
def checkInside (p : Program) (what : Bytes) (s : Span) : Option SpanFault :=
  if s.stop ≤ s.start then some (.emptySpan what s)
  else if s.file ≠ p.file.id then some (.otherFile what s.file p.file.id)
  else if s.start < p.span.start || p.span.stop < s.stop then some (.outsideProgram what s p.span)
  else none

/-- The operands that have to lie within an expression. -/
def operands : Expr → List Expr
  | .unary _ _ operand _ => [operand]
  | .binary _ _ left right => [left, right]
  | .ternary _ test yes no => [test, yes, no]
  | _ => []

def checkOperand (parent operand : Expr) : Option SpanFault :=
  let s := operand.span
  if operand.isAbsent then none
  else if s.start < parent.span.start || parent.span.stop < s.stop then
    some (.operandEscapes s parent.kindName parent.span)
  else none

def checkStmt (p : Program) (number : Nat) (s : Stmt) : Option SpanFault :=
  p.checkInside ("statement " ++ Bytes.ofNat number ++ " (" ++ s.kindName ++ ")") s.span

def checkExpr (p : Program) (number : Nat) (e : Expr) : Option SpanFault :=
  (p.checkInside ("expression " ++ Bytes.ofNat number ++ " (" ++ e.kindName ++ ")") e.span).or
    ((operands e).findSome? (checkOperand e))

/-- Statements follow one another; `index` of them are behind, the last of which ends at `stop`. -/
def checkOrder (index : Nat) (stop : UInt32) : List Stmt → Option SpanFault
  | [] => none
  | s :: ss =>
    if 0 < index && s.span.start < stop then some (.overlap index s.span stop)
    else checkOrder (index + 1) s.span.stop ss

/-- The first thing that is wrong with the spans of a program. -/
def spanFault? (p : Program) : Option SpanFault :=
  if p.span.file ≠ p.file.id then some (.programFile p.span.file p.file.id)
  else if p.span.stop < p.span.start || p.file.size < p.span.stop then some (.programOutside p.span p.file.size)
  else
    (p.forest.stmts.toList.zipIdx 1 |>.findSome? fun (s, i) => p.checkStmt i s).or
      ((p.forest.exprs.toList.zipIdx 1 |>.findSome? fun (e, i) => p.checkExpr i e).or (checkOrder 0 0 p.statements))

end Program

end Bracescript
