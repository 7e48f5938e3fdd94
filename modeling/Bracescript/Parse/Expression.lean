import Bracescript.TokenTree
import Bracescript.Parse.Reduction

/-!
# Expressions

A stretch of trees becomes operands and operators: groups are read on their own, and calls, subscripts and properties
join the operand before them. The reduction does the rest.
-/

namespace Bracescript

open TokenTree

/-- The kind of a number by its digits and suffix. -/
def numberKind (digits suffix text : Bytes) : Except Cause LiteralKind :=
  let pointed := digits.contains (Bytes.ascii '.')
  if suffix = "" then .ok (if pointed then .double else .bigint)
  else if suffix = "f" then .ok .float32
  else if suffix = "d" then .ok .double
  else
    match LiteralKind.ofIntegerSuffix? suffix with
    | none => .error (.unknownSuffix suffix text)
    | some kind => if pointed then .error (.integerSuffixOnFloat suffix text) else .ok kind

namespace Parse

/-- The item that a token is by itself. -/
def tokenItem (t : Token) : Parse Item :=
  match t.kind with
  | .identifier => do return .operand (← newIdent t)
  | .stringLiteral => do return .operand (← newExpr t.span t.pos fun n => .literal n .string t.value)
  | .numberLiteral =>
    match numberKind t.value t.flag t.text with
    | .error cause => fail cause t
    | .ok kind => do return .operand (← newExpr t.span t.pos fun n => .literal n kind t.value)
  | .operator => return .operator t.value t
  | .keyword =>
    if isWordOperator t.value then return .operator t.value t else fail (.keywordInExpression t.value) t
  | _ => fail (.unexpectedInExpression t) t

mutual

/-- Reads trees into items; `items` are those already read, the last one first. -/
def collect (items : List Item) (trees : List TokenTree) (stop : Token) : Parse (List Item) :=
  match trees with
  | [] => return items.reverse
  | .leaf t :: rest =>
    if t.kind = .period then
      match items with
      | .operand target :: before =>
        match rest with
        | .leaf name :: more =>
          if name.kind = .identifier then do
            let e ← newExpr (target.span.cover name.span) target.pos fun n => .member n target name.value
            collect (.operand e :: before) more stop
          else fail (.expectedPropertyName name) name
        | rest =>
          let next := Stretch.first ⟨rest, stop⟩
          fail (.expectedPropertyName next) next
      | _ => fail .propertyWithoutOperand t
    else do
      let item ← tokenItem t
      collect (item :: items) rest stop
  | .group opener inside closer :: rest =>
    match opener.kind with
    | .leftParen =>
      match items with
      | .operand callee :: before => do
        let args ← arguments (if inside.isEmpty then [] else splitAt .comma closer inside)
        let e ← newExpr (callee.span.cover closer.span) callee.pos fun n => .call n callee args
        collect (.operand e :: before) rest stop
      | items =>
        if inside.isEmpty then fail .emptyParentheses closer
        else do
          let e ← expression ⟨inside, closer⟩
          collect (.operand e :: items) rest stop
    | .leftBracket =>
      match items with
      | .operand target :: before => do
        let e ← subscript target inside closer
        collect (.operand e :: before) rest stop
      | _ => fail .subscriptWithoutOperand opener
    | _ => fail (.unexpectedInExpression opener) opener
termination_by 4 * weightAll trees
decreasing_by
  all_goals
    simp only [weightAll, weight, Stretch.weight]
    first
    | omega
    | split
      · simp only [Stretch.weightAll]; omega
      · rw [weightAll_splitAt]; omega

/-- An index or a slice of `target`: a slice has a colon that belongs to no question mark. -/
def subscript (target : Expr) (inside : List TokenTree) (closer : Token) : Parse Expr :=
  let span := target.span.cover closer.span
  if inside.isEmpty then fail .emptySubscript closer
  else
    match _h : cutAtColon 0 inside with
    | none => do
      let index ← expression ⟨inside, closer⟩
      newExpr span target.pos fun n => .index n target index
    | some (before, colon, after) => do
      let start ← bound ⟨before, colon⟩
      let stop ← bound ⟨after, closer⟩
      newExpr span target.pos fun n => .slice n target start stop
termination_by 4 * weightAll inside + 3
decreasing_by
  · simp only [Stretch.weight]; omega
  · have := weightAll_cutAtColon _h
    simp only [Stretch.weight]; omega
  · have := weightAll_cutAtColon _h
    simp only [Stretch.weight]; omega

/-- A bound of a slice, which may be left out. -/
def bound (r : Stretch) : Parse (Option Expr) :=
  if r.isEmpty then return none else return some (← expression r)
termination_by 4 * r.weight + 2

/-- The arguments of a call; they have no names and no defaults. -/
def arguments (rs : List Stretch) : Parse (List (Argument Expr)) :=
  match rs with
  | [] => return []
  | r :: rs =>
    if r.isEmpty then fail .emptyArgument r.stop
    else
      match cutAt .equals r.trees with
      | some (_, equals, _) => fail .namedArgument equals
      | none => do
        let value ← expression r
        let args ← arguments rs
        return { span := r.span, pos := r.first.pos, value := some value } :: args
termination_by 4 * Stretch.weightAll rs
decreasing_by
  all_goals
    simp only [Stretch.weightAll]
    omega

/-- Reads a whole stretch as one expression. -/
def expression (r : Stretch) : Parse Expr :=
  if r.isEmpty then fail (.expectedExpressionBefore r.stop) r.stop
  else do
    let items ← collect [] r.trees r.stop
    Reduction.reduce items r.first
termination_by 4 * r.weight + 1
decreasing_by simp only [Stretch.weight]; omega

end

end Parse

end Bracescript
