import Bracescript.Parse.State

/-!
# Reducing operands and operators

A flat list of operands and operators becomes one expression: first the ternary operator divides the list, then
operators with one operand are applied, then those with two. Binary operators of one level group to the right.
-/

namespace Bracescript

/-- An operand or an operator with its token. -/
inductive Item where
  | operand (e : Expr)
  | operator (symbol : Bytes) (token : Token)

namespace Item

def isOperator (symbol : Bytes) : Item → Bool
  | operand _ => false
  | operator s _ => s == symbol

/-- The levels of binary operators, the loosest first. -/
def binaryLevels : List (List Bytes) :=
  [["&&", "||", "^^"], ["==", "!=", "<", "<=", ">", ">="], ["extends", "instanceof", "subclassof"], ["&", "|", "^"],
    ["+", "-"], ["*", "/", "%"], ["**"]]

/-- How tightly an operator binds, from 1; zero for a symbol that is no binary operator. -/
def level (symbol : Bytes) : Nat :=
  match binaryLevels.findIdx? (·.contains symbol) with
  | some i => i + 1
  | none => 0

def isBinary (symbol : Bytes) : Bool := level symbol != 0

/-- Operators that may stand behind their operand. -/
def isBehind (symbol : Bytes) : Bool := symbol == "++" || symbol == "--"

def bindsTighterThan (symbol : Bytes) : Item → Bool
  | operand _ => false
  | operator s _ => level symbol < level s

end Item

open Item

namespace Reduction

/-! ## Operators with one operand -/

/-- Applies operators to the operand behind them, the nearest first. -/
def applyAll : List (Bytes × Token) → Expr → Parse Expr
  | [], e => pure e
  | (symbol, token) :: held, e => do
    let e ← Parse.newExpr (token.span.cover e.span) token.pos fun n => .unary n symbol e false
    applyAll held e

mutual

/-- Reads up to an operand. `held` are the operators in front of it so far, the nearest first, and `last` is the
binary operator before them. -/
def beforeOperand (last : Option (Bytes × Token)) (held : List (Bytes × Token)) : List Item → Parse (List Item)
  | [] =>
    match held, last with
    | (symbol, token) :: _, _ => Parse.fail (.missingOperandFor symbol) token
    | [], some (symbol, token) => Parse.fail (.missingOperandAfter symbol) token
    | [], none => pure []
  | .operand e :: rest => do
    let e ← applyAll held e
    behindOperand e rest
  | .operator symbol token :: rest =>
    if isUnary symbol then beforeOperand last ((symbol, token) :: held) rest
    else Parse.fail (.notUnary symbol) token

/-- Reads on behind the operand `e`. -/
def behindOperand (e : Expr) : List Item → Parse (List Item)
  | [] => pure [.operand e]
  | .operand extra :: _ => Parse.failAt .unexpectedOperand extra
  | .operator symbol token :: rest =>
    if isBehind symbol then do
      let e ← Parse.newExpr (e.span.cover token.span) e.pos fun n => .unary n symbol e true
      behindOperand e rest
    else if isBinary symbol then do
      let items ← beforeOperand (some (symbol, token)) [] rest
      pure (.operand e :: .operator symbol token :: items)
    else Parse.fail (.operatorAfterOperand symbol) token

end

/-- Applies all operators with one operand, so that operands and binary operators alternate. -/
def unaries (items : List Item) : Parse (List Item) := beforeOperand none [] items

/-! ## Operators with two operands -/

/-- Puts every operator behind its operands. `pending` are the operators that wait for theirs, the last one first. -/
def behindOperands (pending : List Item) : List Item → List Item
  | [] => pending
  | .operand e :: rest => .operand e :: behindOperands pending rest
  | .operator symbol token :: rest =>
    pending.takeWhile (bindsTighterThan symbol)
      ++ behindOperands (.operator symbol token :: pending.dropWhile (bindsTighterThan symbol)) rest

/-- Builds the expression of a list in which operators stand behind their operands; `slots` are the values at hand,
the last one first. -/
def fold (slots : List Expr) : List Item → Parse Expr
  | [] =>
    match slots.reverse with
    | [e] => pure e
    | [] => Parse.throw (.internal "binary reduction produced no value")
    | _ :: extra :: _ => Parse.failAt .tooManyOperands extra
  | .operand e :: rest => fold (e :: slots) rest
  | .operator symbol token :: rest =>
    match slots with
    | right :: left :: slots => do
      let e ← Parse.newExpr (left.span.cover right.span) left.pos fun n => .binary n symbol left right
      fold (e :: slots) rest
    | slots =>
      Parse.throw (.internal ("binary reduction: " ++ Text.quoted symbol ++ " at " ++ token.pos.render ++ " has "
        ++ Bytes.ofNat slots.length ++ " operands"))

def binaries (items : List Item) : Parse Expr := fold [] (behindOperands [] items)

/-! ## The ternary operator -/

/-- The items before the first question mark or colon, its symbol and token, and the items after it. -/
def cutAtMark : List Item → Option (List Item × (Bytes × Token) × List Item)
  | [] => none
  | .operator symbol token :: rest =>
    if symbol = "?" || symbol = ":" then some ([], (symbol, token), rest)
    else (cutAtMark rest).map fun (before, mark, after) => (.operator symbol token :: before, mark, after)
  | .operand e :: rest =>
    (cutAtMark rest).map fun (before, mark, after) => (.operand e :: before, mark, after)

/-- The items before and after the colon of a question mark that stands in front of the list; `depth` question marks
came in between. -/
def cutAtMatch (depth : Nat) : List Item → Option (List Item × Token × List Item)
  | [] => none
  | .operator symbol token :: rest =>
    if symbol = ":" && depth == 0 then some ([], token, rest)
    else
      let depth := if symbol = "?" then depth + 1 else if symbol = ":" then depth - 1 else depth
      (cutAtMatch depth rest).map fun (before, colon, after) => (.operator symbol token :: before, colon, after)
  | .operand e :: rest =>
    (cutAtMatch depth rest).map fun (before, colon, after) => (.operand e :: before, colon, after)

theorem length_cutAtMark {items before after : List Item} {mark : Bytes × Token}
    (h : cutAtMark items = some (before, mark, after)) : before.length + after.length < items.length := by
  induction items generalizing before with
  | nil => simp [cutAtMark] at h
  | cons item items ih =>
    cases item with
    | operand e =>
      simp only [cutAtMark, Option.map_eq_some_iff, Prod.mk.injEq] at h
      obtain ⟨⟨b, m, a⟩, hcut, rfl, rfl, rfl⟩ := h
      have := ih hcut
      simp at this ⊢; omega
    | operator symbol token =>
      rw [cutAtMark] at h
      split at h
      · simp only [Option.some.injEq, Prod.mk.injEq] at h
        obtain ⟨rfl, rfl, rfl⟩ := h
        simp
      · simp only [Option.map_eq_some_iff, Prod.mk.injEq] at h
        obtain ⟨⟨b, m, a⟩, hcut, rfl, rfl, rfl⟩ := h
        have := ih hcut
        simp at this ⊢; omega

theorem length_cutAtMatch {depth : Nat} {items before after : List Item} {colon : Token}
    (h : cutAtMatch depth items = some (before, colon, after)) : before.length + after.length < items.length := by
  induction items generalizing depth before with
  | nil => simp [cutAtMatch] at h
  | cons item items ih =>
    cases item with
    | operand e =>
      simp only [cutAtMatch, Option.map_eq_some_iff, Prod.mk.injEq] at h
      obtain ⟨⟨b, m, a⟩, hcut, rfl, rfl, rfl⟩ := h
      have := ih hcut
      simp at this ⊢; omega
    | operator symbol token =>
      rw [cutAtMatch] at h
      split at h
      · simp only [Option.some.injEq, Prod.mk.injEq] at h
        obtain ⟨rfl, rfl, rfl⟩ := h
        simp
      · simp only [Option.map_eq_some_iff, Prod.mk.injEq] at h
        obtain ⟨⟨b, m, a⟩, hcut, rfl, rfl, rfl⟩ := h
        have := ih hcut
        simp at this ⊢; omega

/-- Reduces items to one expression; an empty list is reported at `place`. -/
def reduce (items : List Item) (place : Token) : Parse Expr :=
  if items.isEmpty then Parse.fail .expectedExpression place
  else
    match _hMark : cutAtMark items with
    | none => do
      let items ← unaries items
      binaries items
    | some (test, (symbol, mark), after) =>
      if symbol ≠ "?" then Parse.fail .colonWithoutQuestion mark
      else
        match _hMatch : cutAtMatch 0 after with
        | none => Parse.fail .questionWithoutColon mark
        | some (yes, colon, no) =>
          if test.isEmpty then Parse.fail .missingCondition mark
          else if yes.isEmpty then Parse.fail .missingThen colon
          else if no.isEmpty then Parse.fail .missingElse colon
          else do
            let test ← reduce test mark
            let yes ← reduce yes colon
            let no ← reduce no colon
            Parse.newExpr (test.span.cover no.span) test.pos fun n => .ternary n test yes no
termination_by items.length
decreasing_by
  all_goals
    have := length_cutAtMark _hMark
    have := length_cutAtMatch _hMatch
    omega

end Reduction

end Bracescript
