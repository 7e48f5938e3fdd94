import Mathlib.Tactic.ByContra
import Bracescript.Proofs.Precedence

/-!
# The grammar of operands and operators

A choice is a chain, or a chain with a question mark and two choices with a colon between them. A chain is made of
operands with binary operators between them, and each operand has operators in front of it and behind it. The reduction
accepts just the lists of this form and gives each of them the tree of its only derivation.
-/

namespace Bracescript

open Item

namespace Grammar

/-! ## Derivations -/

/-- The item of an operator. -/
def operatorItem (p : Bytes × Token) : Item := .operator p.1 p.2

/-- An operand, the operators in front of it and those behind it, as they are written. -/
structure Affixed where
  front : List (Bytes × Token)
  operand : Expr
  back : List (Bytes × Token)
  front_unary : ∀ p ∈ front, isUnary p.1 = true
  back_behind : ∀ p ∈ back, isBehind p.1 = true

/-- Operands with binary operators between them. -/
inductive Chain where
  | one (u : Affixed)
  | link (u : Affixed) (symbol : Bytes) (token : Token) (binary : isBinary symbol = true) (rest : Chain)

inductive Choice where
  | chain (c : Chain)
  | choose (test : Chain) (question : Token) (yes : Choice) (colon : Token) (no : Choice)

def Affixed.items (u : Affixed) : List Item :=
  u.front.map operatorItem ++ .operand u.operand :: u.back.map operatorItem

def Chain.items : Chain → List Item
  | one u => u.items
  | link u symbol token _ rest => u.items ++ .operator symbol token :: rest.items

def Choice.items : Choice → List Item
  | chain c => c.items
  | choose test question yes colon no =>
    test.items ++ .operator "?" question :: (yes.items ++ .operator ":" colon :: no.items)

/-! ## The trees of derivations -/

/-- `e` is `base` below operators in front of it, the first one on top. -/
def InFront : List (Bytes × Token) → Expr → Expr → Prop
  | [], base, e => e = base
  | (symbol, _) :: rest, base, e => ∃ n inner, e = .unary n symbol inner false ∧ InFront rest base inner

/-- `e` is `base` below operators behind it, the last one on top. -/
def Behind : List (Bytes × Token) → Expr → Expr → Prop
  | [], base, e => e = base
  | (symbol, _) :: rest, base, e => ∃ n, Behind rest (.unary n symbol base true) e

/-- The operators in front apply first, those behind to all of that. -/
def Affixed.Shapes (u : Affixed) (e : Expr) : Prop :=
  ∃ inner, InFront u.front u.operand inner ∧ Behind u.back inner e

/-- The items are those of the chain, with one expression for each operand and its affixes. -/
def Chain.Lists : Chain → List Item → Prop
  | one u, items => ∃ e, items = [.operand e] ∧ u.Shapes e
  | link u symbol token _ rest, items =>
    ∃ e tail, items = .operand e :: .operator symbol token :: tail ∧ u.Shapes e ∧ rest.Lists tail

/-- `e` is the precedence tree of the chain. -/
def Chain.Shapes (c : Chain) (e : Expr) : Prop :=
  ∃ t : OpTree, c.Lists t.items ∧ t.Grouped ∧ t.Holds 0 e

def Choice.Shapes : Choice → Expr → Prop
  | chain c, e => c.Shapes e
  | choose test _ yes _ no, e =>
    ∃ n a b c, e = .ternary n a b c ∧ test.Shapes a ∧ yes.Shapes b ∧ no.Shapes c

/-! ## Symbols -/

theorem not_behind_of_binary {symbol : Bytes} (h : isBinary symbol = true) : isBehind symbol = false := by
  by_contra hbehind
  rw [Bool.not_eq_false, isBehind, Bool.or_eq_true, beq_iff_eq, beq_iff_eq] at hbehind
  rcases hbehind with rfl | rfl <;> revert h <;> decide

/-- A question mark or a colon. -/
def isMark : Item → Bool
  | .operand _ => false
  | .operator symbol _ => symbol = "?" || symbol = ":"

theorem not_mark_of_known {symbol : Bytes} {token : Token}
    (h : isUnary symbol = true ∨ isBehind symbol = true ∨ isBinary symbol = true) :
    isMark (.operator symbol token) = false := by
  by_contra hmark
  rw [Bool.not_eq_false, isMark, Bool.or_eq_true, decide_eq_true_iff, decide_eq_true_iff] at hmark
  rcases hmark with rfl | rfl <;> revert h <;> decide

theorem Affixed.not_mark (u : Affixed) : ∀ i ∈ u.items, isMark i = false := by
  intro i hi
  rw [Affixed.items, List.mem_append, List.mem_cons, List.mem_map, List.mem_map] at hi
  rcases hi with ⟨p, hp, rfl⟩ | rfl | ⟨p, hp, rfl⟩
  · exact not_mark_of_known (.inl (u.front_unary p hp))
  · rfl
  · exact not_mark_of_known (.inr (.inl (u.back_behind p hp)))

theorem Chain.not_mark (c : Chain) : ∀ i ∈ c.items, isMark i = false := by
  induction c with
  | one u => exact u.not_mark
  | link u symbol token binary rest ih =>
    intro i hi
    rw [Chain.items, List.mem_append, List.mem_cons] at hi
    rcases hi with hi | rfl | hi
    · exact u.not_mark i hi
    · exact not_mark_of_known (.inr (.inr binary))
    · exact ih i hi

theorem Chain.items_ne_nil (c : Chain) : c.items ≠ [] := by
  cases c <;> simp [Chain.items, Affixed.items]

theorem Choice.items_ne_nil (d : Choice) : d.items ≠ [] := by
  cases d with
  | chain c => exact c.items_ne_nil
  | choose => simp [Choice.items]

/-! ## Operators with one operand -/

open Reduction

/-- Applies operators to the operand in front of them, the nearest first. -/
def applyBehind : List (Bytes × Token) → Expr → Parse Expr
  | [], e => pure e
  | (symbol, token) :: rest, e => do
    let e ← Parse.newExpr (e.span.cover token.span) e.pos fun n => .unary n symbol e true
    applyBehind rest e

def Affixed.build (u : Affixed) : Parse Expr := do
  let e ← applyAll u.front.reverse u.operand
  applyBehind u.back e

/-- The chain with an expression for each operand and its affixes. -/
def Chain.operands : Chain → Parse (List Item)
  | one u => do
    let e ← u.build
    pure [.operand e]
  | link u symbol token _ rest => do
    let e ← u.build
    let items ← rest.operands
    pure (.operand e :: .operator symbol token :: items)

theorem inFront_append {front : List (Bytes × Token)} {p : Bytes × Token} {base e : Expr} {n : Node}
    (h : InFront front (.unary n p.1 base false) e) : InFront (front ++ [p]) base e := by
  induction front generalizing e with
  | nil => exact ⟨n, base, h, rfl⟩
  | cons q front ih =>
    obtain ⟨m, inner, rfl, hinner⟩ := h
    exact ⟨m, inner, rfl, ih hinner⟩

theorem applyAll_succeeds (held : List (Bytes × Token)) (e : Expr) :
    Parse.Succeeds (applyAll held e) fun _ result => InFront held.reverse e result := by
  induction held generalizing e with
  | nil => exact Parse.succeeds_pure fun _ => rfl
  | cons p held ih =>
    obtain ⟨symbol, token⟩ := p
    apply Parse.succeeds_bind (Parse.succeeds_newExpr _ _ _)
    rintro old inner ⟨n, -, rfl⟩
    apply (ih _).mono
    intro late result hshape _
    rw [List.reverse_cons]
    exact inFront_append hshape

theorem applyBehind_succeeds (back : List (Bytes × Token)) (e : Expr) :
    Parse.Succeeds (applyBehind back e) fun _ result => Behind back e result := by
  induction back generalizing e with
  | nil => exact Parse.succeeds_pure fun _ => rfl
  | cons p back ih =>
    obtain ⟨symbol, token⟩ := p
    apply Parse.succeeds_bind (Parse.succeeds_newExpr _ _ _)
    rintro old inner ⟨n, -, rfl⟩
    apply (ih _).mono
    intro late result hshape _
    exact ⟨n, hshape⟩

theorem Affixed.build_succeeds (u : Affixed) : Parse.Succeeds u.build fun _ e => u.Shapes e := by
  apply Parse.succeeds_bind (applyAll_succeeds _ _)
  intro old inner hfront
  apply (applyBehind_succeeds _ _).mono
  intro late e hback _
  rw [List.reverse_reverse] at hfront
  exact ⟨inner, hfront, hback⟩

theorem Chain.operands_succeeds (c : Chain) : Parse.Succeeds c.operands fun _ items => c.Lists items := by
  induction c with
  | one u =>
    apply Parse.succeeds_bind u.build_succeeds
    intro old e he
    exact Parse.succeeds_pure fun _ _ => ⟨e, rfl, he⟩
  | link u symbol token binary rest ih =>
    apply Parse.succeeds_bind u.build_succeeds
    intro old e he
    apply Parse.succeeds_bind ih
    intro late items hitems
    exact Parse.succeeds_pure fun _ _ _ => ⟨e, items, rfl, he, hitems⟩

theorem Chain.alternates_of_lists {c : Chain} {items : List Item} (h : c.Lists items) : Alternates items := by
  induction c generalizing items with
  | one u =>
    obtain ⟨e, rfl, -⟩ := h
    trivial
  | link u symbol token binary rest ih =>
    obtain ⟨e, tail, rfl, -, htail⟩ := h
    exact ⟨binary, ih htail⟩

/-! ### Derivations are followed -/

theorem beforeOperand_front (last : Option (Bytes × Token)) (held front : List (Bytes × Token))
    (h : ∀ p ∈ front, isUnary p.1 = true) (rest : List Item) :
    beforeOperand last held (front.map operatorItem ++ rest) = beforeOperand last (front.reverse ++ held) rest := by
  induction front generalizing held with
  | nil => rfl
  | cons p front ih =>
    have hp := h p List.mem_cons_self
    rw [List.map_cons, List.cons_append, operatorItem, beforeOperand, if_pos hp,
      ih _ fun q hq => h q (List.mem_cons_of_mem _ hq), List.reverse_cons, List.append_assoc]
    rfl

theorem behindOperand_back (back : List (Bytes × Token)) (h : ∀ p ∈ back, isBehind p.1 = true) (e : Expr)
    (rest : List Item) :
    behindOperand e (back.map operatorItem ++ rest) = applyBehind back e >>= fun e => behindOperand e rest := by
  induction back generalizing e with
  | nil => rfl
  | cons p back ih =>
    have hp := h p List.mem_cons_self
    simp only [List.map_cons, List.cons_append, operatorItem, behindOperand, hp, if_true, applyBehind, bind_assoc,
      ih fun q hq => h q (List.mem_cons_of_mem _ hq)]

theorem beforeOperand_affixed (last : Option (Bytes × Token)) (u : Affixed) (rest : List Item) :
    beforeOperand last [] (u.items ++ rest) = u.build >>= fun e => behindOperand e rest := by
  rw [Affixed.items, List.append_assoc, beforeOperand_front last [] u.front u.front_unary, List.cons_append,
    List.append_nil, beforeOperand, Affixed.build, bind_assoc]
  congr 1
  funext e
  exact behindOperand_back u.back u.back_behind e rest

/-- The first pass gives a chain one expression for each operand and its affixes. -/
theorem beforeOperand_chain (last : Option (Bytes × Token)) (c : Chain) :
    beforeOperand last [] c.items = c.operands := by
  induction c generalizing last with
  | one u =>
    have := beforeOperand_affixed last u []
    rw [List.append_nil] at this
    exact this
  | link u symbol token binary rest ih =>
    rw [Chain.items, beforeOperand_affixed, Chain.operands]
    congr 1
    funext e
    rw [behindOperand, if_neg (by simp [not_behind_of_binary binary]), if_pos binary, ih]

/-! ### Anything else is rejected -/

/-- What may follow an operand: operators behind it, and then nothing or a binary operator with a chain. -/
def Continues (items : List Item) : Prop :=
  ∃ (back : List (Bytes × Token)) (tail : List Item),
    items = back.map operatorItem ++ tail ∧ (∀ p ∈ back, isBehind p.1 = true) ∧
    (tail = [] ∨ ∃ symbol token, ∃ c : Chain, isBinary symbol = true ∧ tail = .operator symbol token :: c.items)

theorem exists_chain_of_continues {items : List Item} (e : Expr) (h : Continues items) :
    ∃ c : Chain, c.items = .operand e :: items := by
  obtain ⟨back, tail, rfl, hback, rfl | ⟨symbol, token, c, hbinary, rfl⟩⟩ := h
  · exact ⟨.one ⟨[], e, back, by simp, hback⟩, by simp [Chain.items, Affixed.items]⟩
  · exact ⟨.link ⟨[], e, back, by simp, hback⟩ symbol token hbinary c, by simp [Chain.items, Affixed.items]⟩

theorem exists_chain_of_unary {symbol : Bytes} (token : Token) (h : isUnary symbol = true) (c : Chain) :
    ∃ c' : Chain, c'.items = .operator symbol token :: c.items := by
  have hfront (u : Affixed) : ∀ p ∈ (symbol, token) :: u.front, isUnary p.1 = true := by
    intro p hp
    rcases List.mem_cons.mp hp with rfl | hp
    · exact h
    · exact u.front_unary p hp
  cases c with
  | one u =>
    exact ⟨.one ⟨(symbol, token) :: u.front, u.operand, u.back, hfront u, u.back_behind⟩, rfl⟩
  | link u s t binary rest =>
    exact ⟨.link ⟨(symbol, token) :: u.front, u.operand, u.back, hfront u, u.back_behind⟩ s t binary rest, rfl⟩

/-- Before an operand there is a chain, or the list is rejected; behind an operand it goes on as a chain does, or the
list is rejected. -/
theorem chain_or_rejects (items : List Item) :
    (∀ last held, items ≠ [] ∨ held ≠ [] ∨ last ≠ none →
      (∃ c : Chain, c.items = items) ∨ Parse.Rejects (beforeOperand last held items)) ∧
    (Continues items ∨ ∀ e, Parse.Rejects (behindOperand e items)) := by
  induction items with
  | nil =>
    refine ⟨?_, .inl ⟨[], [], rfl, by simp, .inl rfl⟩⟩
    intro last held h
    right
    cases held with
    | cons p held => exact Parse.rejects_fail _ _
    | nil =>
      cases last with
      | some p => exact Parse.rejects_fail _ _
      | none => simp at h
  | cons item items ih =>
    obtain ⟨ihBefore, ihBehind⟩ := ih
    cases item with
    | operand e =>
      refine ⟨?_, .inr fun e' => Parse.rejects_failAt _ e⟩
      intro last held _
      rcases ihBehind with hcont | hreject
      · exact .inl (exists_chain_of_continues e hcont)
      · right
        exact Parse.rejects_bind (applyAll_succeeds held e) hreject
    | operator symbol token =>
      constructor
      · intro last held _
        by_cases hunary : isUnary symbol = true
        · rcases ihBefore last ((symbol, token) :: held) (.inr (.inl (by simp))) with ⟨c, rfl⟩ | hreject
          · exact .inl (exists_chain_of_unary token hunary c)
          · right
            rwa [beforeOperand, if_pos hunary]
        · right
          rw [beforeOperand, if_neg hunary]
          exact Parse.rejects_fail _ _
      · by_cases hbehind : isBehind symbol = true
        · rcases ihBehind with ⟨back, tail, rfl, hback, htail⟩ | hreject
          · refine .inl ⟨(symbol, token) :: back, tail, rfl, ?_, htail⟩
            intro p hp
            rcases List.mem_cons.mp hp with rfl | hp
            · exact hbehind
            · exact hback p hp
          · right
            intro e
            rw [behindOperand, if_pos hbehind]
            exact Parse.rejects_bind (Parse.succeeds_newExpr _ _ _) hreject
        · by_cases hbinary : isBinary symbol = true
          · rcases ihBefore (some (symbol, token)) [] (.inr (.inr (by simp))) with ⟨c, rfl⟩ | hreject
            · exact .inl ⟨[], _, rfl, by simp, .inr ⟨symbol, token, c, hbinary, rfl⟩⟩
            · right
              intro e
              rw [behindOperand, if_neg hbehind, if_pos hbinary]
              exact Parse.rejects_bind_left hreject
          · right
            intro e
            rw [behindOperand, if_neg hbehind, if_neg hbinary]
            exact Parse.rejects_fail _ _

/-! ## The ternary operator -/

theorem cutAtMark_append {before : List Item} (h : ∀ i ∈ before, isMark i = false) (rest : List Item) :
    cutAtMark (before ++ rest) = (cutAtMark rest).map fun (b, mark, a) => (before ++ b, mark, a) := by
  induction before with
  | nil => simp
  | cons i before ih =>
    have hi := h i List.mem_cons_self
    have ih := ih fun j hj => h j (List.mem_cons_of_mem _ hj)
    cases i with
    | operand e =>
      rw [List.cons_append, cutAtMark, ih, Option.map_map]
      rfl
    | operator symbol token =>
      rw [isMark] at hi
      rw [List.cons_append, cutAtMark, if_neg (by simp [hi]), ih, Option.map_map]
      rfl

theorem cutAtMark_eq_some {items before after : List Item} {mark : Bytes × Token}
    (h : cutAtMark items = some (before, mark, after)) :
    items = before ++ operatorItem mark :: after ∧ (∀ i ∈ before, isMark i = false) ∧
      isMark (operatorItem mark) = true := by
  induction items generalizing before with
  | nil => simp [cutAtMark] at h
  | cons i items ih =>
    cases i with
    | operand e =>
      simp only [cutAtMark, Option.map_eq_some_iff, Prod.mk.injEq] at h
      obtain ⟨⟨b, m, a⟩, hcut, rfl, rfl, rfl⟩ := h
      obtain ⟨rfl, hbefore, hmark⟩ := ih hcut
      exact ⟨rfl, by simpa [isMark] using hbefore, hmark⟩
    | operator symbol token =>
      rw [cutAtMark] at h
      split at h
      · rename_i hsymbol
        simp only [Option.some.injEq, Prod.mk.injEq] at h
        obtain ⟨rfl, rfl, rfl⟩ := h
        exact ⟨rfl, by simp, hsymbol⟩
      · rename_i hsymbol
        simp only [Option.map_eq_some_iff, Prod.mk.injEq] at h
        obtain ⟨⟨b, m, a⟩, hcut, rfl, rfl, rfl⟩ := h
        obtain ⟨rfl, hbefore, hmark⟩ := ih hcut
        refine ⟨rfl, ?_, hmark⟩
        intro i hi
        rcases List.mem_cons.mp hi with rfl | hi
        · simpa [isMark] using hsymbol
        · exact hbefore i hi

theorem cutAtMark_chain (c : Chain) : cutAtMark c.items = none := by
  have := cutAtMark_append c.not_mark []
  rwa [List.append_nil] at this

theorem cutAtMatch_append {before : List Item} (h : ∀ i ∈ before, isMark i = false) (depth : Nat)
    (rest : List Item) :
    cutAtMatch depth (before ++ rest)
      = (cutAtMatch depth rest).map fun (b, colon, a) => (before ++ b, colon, a) := by
  induction before with
  | nil => simp
  | cons i before ih =>
    have hi := h i List.mem_cons_self
    have ih := ih fun j hj => h j (List.mem_cons_of_mem _ hj)
    cases i with
    | operand e =>
      rw [List.cons_append, cutAtMatch, ih, Option.map_map]
      rfl
    | operator symbol token =>
      simp only [isMark, Bool.or_eq_false_iff, decide_eq_false_iff_not] at hi
      obtain ⟨hquestion, hcolon⟩ := hi
      simp only [List.cons_append, cutAtMatch, hquestion, hcolon, ih, Option.map_map, decide_false, Bool.false_and,
        Bool.false_eq_true, if_false]
      rfl

/-- A choice holds as many colons as question marks, in such an order that none of its colons matches a question mark in
front of it. -/
theorem cutAtMatch_choice (d : Choice) (depth : Nat) (rest : List Item) :
    cutAtMatch depth (d.items ++ rest)
      = (cutAtMatch depth rest).map fun (b, colon, a) => (d.items ++ b, colon, a) := by
  induction d generalizing depth rest with
  | chain c => exact cutAtMatch_append c.not_mark depth rest
  | choose test question yes colon no ihYes ihNo =>
    have hquestion (tail : List Item) : cutAtMatch depth (.operator "?" question :: tail)
        = (cutAtMatch (depth + 1) tail).map fun (b, c, a) => (.operator "?" question :: b, c, a) := by
      have hne : ¬ ("?" : Bytes) = ":" := by decide
      rw [cutAtMatch, if_neg (by simp [hne])]
      rfl
    have hcolon (tail : List Item) : cutAtMatch (depth + 1) (.operator ":" colon :: tail)
        = (cutAtMatch depth tail).map fun (b, c, a) => (.operator ":" colon :: b, c, a) := by
      rw [cutAtMatch, if_neg (by simp)]
      rfl
    simp only [Choice.items, List.append_assoc, List.cons_append]
    rw [cutAtMatch_append test.not_mark, hquestion, ihYes, hcolon, ihNo]
    simp only [Option.map_map]
    rfl

theorem cutAtMatch_eq_some {depth : Nat} {items before after : List Item} {colon : Token}
    (h : cutAtMatch depth items = some (before, colon, after)) :
    items = before ++ .operator ":" colon :: after := by
  induction items generalizing depth before with
  | nil => simp [cutAtMatch] at h
  | cons i items ih =>
    cases i with
    | operand e =>
      simp only [cutAtMatch, Option.map_eq_some_iff, Prod.mk.injEq] at h
      obtain ⟨⟨b, c, a⟩, hcut, rfl, rfl, rfl⟩ := h
      rw [ih hcut]
      rfl
    | operator symbol token =>
      rw [cutAtMatch] at h
      split at h
      · rename_i hcolon
        simp only [Bool.and_eq_true, decide_eq_true_iff] at hcolon
        simp only [Option.some.injEq, Prod.mk.injEq] at h
        obtain ⟨rfl, rfl, rfl⟩ := h
        rw [hcolon.1]
        rfl
      · simp only [Option.map_eq_some_iff, Prod.mk.injEq] at h
        obtain ⟨⟨b, c, a⟩, hcut, rfl, rfl, rfl⟩ := h
        rw [ih hcut]
        rfl

theorem cutAtMark_choose (test : Chain) (question : Token) (rest : List Item) :
    cutAtMark (test.items ++ .operator "?" question :: rest) = some (test.items, (("?" : Bytes), question), rest) := by
  rw [cutAtMark_append test.not_mark, cutAtMark, if_pos (by simp)]
  simp

theorem cutAtMatch_choose (yes : Choice) (colon : Token) (rest : List Item) :
    cutAtMatch 0 (yes.items ++ .operator ":" colon :: rest) = some (yes.items, colon, rest) := by
  rw [cutAtMatch_choice, cutAtMatch, if_pos (by simp)]
  simp

/-! ## The reduction -/

theorem reduce_chain {items : List Item} (hne : items ≠ []) (h : cutAtMark items = none) (place : Token) :
    reduce items place = unaries items >>= binaries := by
  rw [reduce, if_neg (by simpa using hne)]
  split
  · rfl
  · rename_i heq
    rw [h] at heq
    cases heq

theorem reduce_choose {items test yes no after : List Item} {question colon : Token} (place : Token)
    (hmark : cutAtMark items = some (test, (("?" : Bytes), question), after))
    (hmatch : cutAtMatch 0 after = some (yes, colon, no)) (htest : test ≠ []) (hyes : yes ≠ []) (hno : no ≠ []) :
    reduce items place = (do
      let a ← reduce test question
      let b ← reduce yes colon
      let c ← reduce no colon
      Parse.newExpr (a.span.cover c.span) a.pos fun n => .ternary n a b c) := by
  have hne : items ≠ [] := by
    rintro rfl
    simp [cutAtMark] at hmark
  rw [reduce, if_neg (by simpa using hne)]
  split
  · rename_i heq
    rw [hmark] at heq
    cases heq
  · rename_i heq
    rw [hmark] at heq
    cases heq
    rw [if_neg (by simp)]
    split
    · rename_i heq
      rw [hmatch] at heq
      cases heq
    · rename_i heq
      rw [hmatch] at heq
      cases heq
      rw [if_neg (by simpa using htest), if_neg (by simpa using hyes), if_neg (by simpa using hno)]

/-- A derivation is followed: its list is reduced to its tree. -/
theorem reduce_succeeds (d : Choice) (place : Token) :
    Parse.Succeeds (reduce d.items place) fun _ e => d.Shapes e := by
  have hchain (c : Chain) (place : Token) : Parse.Succeeds (reduce c.items place) fun _ e => c.Shapes e := by
    rw [reduce_chain c.items_ne_nil (cutAtMark_chain c), unaries, beforeOperand_chain]
    apply Parse.succeeds_bind c.operands_succeeds
    intro old items hlists
    obtain ⟨t, rfl, hgrouped⟩ := OpTree.exists_grouped items (Chain.alternates_of_lists hlists)
    rw [OpTree.binaries_eq_build hgrouped]
    apply t.build_succeeds.mono
    intro late e hholds _
    exact ⟨t, hlists, hgrouped, hholds.mono (Nat.zero_le _)⟩
  induction d generalizing place with
  | chain c => exact hchain c place
  | choose test question yes colon no ihYes ihNo =>
    rw [Choice.items, reduce_choose place (cutAtMark_choose test question _) (cutAtMatch_choose yes colon _)
      test.items_ne_nil yes.items_ne_nil no.items_ne_nil]
    apply Parse.succeeds_bind (hchain test question)
    intro _ a ha
    apply Parse.succeeds_bind (ihYes colon)
    intro _ b hb
    apply Parse.succeeds_bind (ihNo colon)
    intro _ c hc
    apply (Parse.succeeds_newExpr _ _ _).mono
    rintro _ e ⟨n, -, rfl⟩ _ _ _
    exact ⟨n, a, b, c, rfl, ha, hb, hc⟩

/-- A list without a mark that is a choice is a chain. -/
theorem exists_chain_of_not_mark {d : Choice} (h : ∀ i ∈ d.items, isMark i = false) :
    ∃ c : Chain, c.items = d.items := by
  cases d with
  | chain c => exact ⟨c, rfl⟩
  | choose test question yes colon no =>
    have := h (.operator "?" question) (by simp [Choice.items])
    simp [isMark] at this

/-- Every list has a derivation or is rejected. -/
theorem choice_or_rejects (items : List Item) (place : Token) :
    (∃ d : Choice, d.items = items) ∨ Parse.Rejects (reduce items place) := by
  -- The parts of a list with a question mark are shorter, so they are settled by induction.
  induction hn : items.length using Nat.strongRecOn generalizing items place with
  | _ n ih =>
    rw [reduce]
    split
    · exact .inr (Parse.rejects_fail _ _)
    · rename_i hne
      split
      · rcases (chain_or_rejects items).1 none [] (.inl (by simpa using hne)) with ⟨c, hc⟩ | hreject
        · exact .inl ⟨.chain c, hc⟩
        · exact .inr (Parse.rejects_bind_left hreject)
      · rename_i test symbol mark after hmark
        split
        · exact .inr (Parse.rejects_fail _ _)
        · rename_i hsymbol
          split
          · exact .inr (Parse.rejects_fail _ _)
          · rename_i yes colon no hmatch
            have hlenMark := length_cutAtMark hmark
            have hlenMatch := length_cutAtMatch hmatch
            obtain ⟨rfl, htest, -⟩ := cutAtMark_eq_some hmark
            obtain rfl := cutAtMatch_eq_some hmatch
            obtain rfl : symbol = "?" := Decidable.not_not.mp hsymbol
            split
            · exact .inr (Parse.rejects_fail _ _)
            · split
              · exact .inr (Parse.rejects_fail _ _)
              · split
                · exact .inr (Parse.rejects_fail _ _)
                · rcases ih _ (by omega) test mark rfl with ⟨a, rfl⟩ | hreject
                  · rcases ih _ (by omega) yes colon rfl with ⟨b, rfl⟩ | hreject
                    · rcases ih _ (by omega) no colon rfl with ⟨c, rfl⟩ | hreject
                      · obtain ⟨t, ht⟩ := exists_chain_of_not_mark htest
                        left
                        refine ⟨.choose t mark b colon c, ?_⟩
                        rw [Choice.items, ht]
                        rfl
                      · right
                        apply Parse.rejects_bind (reduce_succeeds a mark)
                        intro _
                        apply Parse.rejects_bind (reduce_succeeds b colon)
                        intro _
                        exact Parse.rejects_bind_left hreject
                    · right
                      apply Parse.rejects_bind (reduce_succeeds a mark)
                      intro _
                      exact Parse.rejects_bind_left hreject
                  · exact .inr (Parse.rejects_bind_left hreject)

/-! ## One derivation for each list -/

theorem operatorItem_injective {p q : Bytes × Token} (h : operatorItem p = operatorItem q) : p = q := by
  obtain ⟨s, t⟩ := p
  cases h
  rfl

theorem front_unique {front front' : List (Bytes × Token)} {e e' : Expr} {rest rest' : List Item}
    (h : front.map operatorItem ++ .operand e :: rest = front'.map operatorItem ++ .operand e' :: rest') :
    front = front' ∧ e = e' ∧ rest = rest' := by
  induction front generalizing front' with
  | nil =>
    cases front' with
    | nil =>
      cases h
      exact ⟨rfl, rfl, rfl⟩
    | cons q front' => cases h
  | cons p front ih =>
    cases front' with
    | nil => cases h
    | cons q front' =>
      obtain ⟨hp, h⟩ := List.cons.inj h
      obtain ⟨rfl, rfl, rfl⟩ := ih h
      exact ⟨by rw [operatorItem_injective hp], rfl, rfl⟩

/-- What follows an operand and its affixes: nothing, or a binary operator. -/
def Follows (rest : List Item) : Prop :=
  rest = [] ∨ ∃ symbol token tail, isBinary symbol = true ∧ rest = .operator symbol token :: tail

theorem not_follows_of_behind {p : Bytes × Token} {rest : List Item} (hp : isBehind p.1 = true) :
    ¬ Follows (operatorItem p :: rest) := by
  rintro (h | ⟨symbol, token, tail, hbinary, h⟩)
  · cases h
  · cases h
    rw [not_behind_of_binary hbinary] at hp
    cases hp

theorem back_unique {back back' : List (Bytes × Token)} {rest rest' : List Item}
    (hback : ∀ p ∈ back, isBehind p.1 = true) (hback' : ∀ p ∈ back', isBehind p.1 = true) (hrest : Follows rest)
    (hrest' : Follows rest') (h : back.map operatorItem ++ rest = back'.map operatorItem ++ rest') :
    back = back' ∧ rest = rest' := by
  induction back generalizing back' with
  | nil =>
    cases back' with
    | nil => exact ⟨rfl, h⟩
    | cons q back' =>
      rw [List.map_nil, List.nil_append] at h
      subst h
      exact (not_follows_of_behind (hback' q List.mem_cons_self) hrest).elim
  | cons p back ih =>
    cases back' with
    | nil =>
      rw [List.map_nil, List.nil_append] at h
      subst h
      exact (not_follows_of_behind (hback p List.mem_cons_self) hrest').elim
    | cons q back' =>
      obtain ⟨hp, h⟩ := List.cons.inj h
      obtain ⟨rfl, rfl⟩ := ih (fun p hp => hback p (List.mem_cons_of_mem _ hp))
        (fun p hp => hback' p (List.mem_cons_of_mem _ hp)) h
      exact ⟨by rw [operatorItem_injective hp], rfl⟩

theorem Affixed.unique {u u' : Affixed} {rest rest' : List Item} (hrest : Follows rest) (hrest' : Follows rest')
    (h : u.items ++ rest = u'.items ++ rest') : u = u' ∧ rest = rest' := by
  obtain ⟨front, operand, back, hfront, hback⟩ := u
  obtain ⟨front', operand', back', hfront', hback'⟩ := u'
  simp only [Affixed.items, List.append_assoc, List.cons_append] at h
  obtain ⟨rfl, rfl, htail⟩ := front_unique h
  obtain ⟨rfl, rfl⟩ := back_unique hback hback' hrest hrest' htail
  exact ⟨rfl, rfl⟩

theorem Chain.eq_of_items_eq {c c' : Chain} (h : c.items = c'.items) : c = c' := by
  -- A chain is its first operand and what follows it.
  have hfirst (c : Chain) : ∃ u rest, c.items = Affixed.items u ++ rest ∧ Follows rest ∧
      ((rest = [] ∧ c = .one u) ∨ ∃ symbol token binary tail,
        rest = .operator symbol token :: Chain.items tail ∧ c = .link u symbol token binary tail) := by
    cases c with
    | one u => exact ⟨u, [], by simp [Chain.items], .inl rfl, .inl ⟨rfl, rfl⟩⟩
    | link u symbol token binary tail =>
      exact ⟨u, _, rfl, .inr ⟨symbol, token, _, binary, rfl⟩, .inr ⟨symbol, token, binary, tail, rfl, rfl⟩⟩
  induction c generalizing c' with
  | one u =>
    obtain ⟨u', rest, hitems, hrest, hcases⟩ := hfirst c'
    have h' : u.items ++ [] = u'.items ++ rest := by rw [List.append_nil, ← hitems]; exact h
    obtain ⟨rfl, rfl⟩ := Affixed.unique (.inl rfl) hrest h'
    rcases hcases with ⟨-, rfl⟩ | ⟨symbol, token, binary, tail, hnil, -⟩
    · rfl
    · cases hnil
  | link u symbol token binary tail ih =>
    obtain ⟨u', rest, hitems, hrest, hcases⟩ := hfirst c'
    have h' : u.items ++ .operator symbol token :: tail.items = u'.items ++ rest := by rw [← hitems]; exact h
    obtain ⟨rfl, rfl⟩ := Affixed.unique (.inr ⟨symbol, token, _, binary, rfl⟩) hrest h'
    rcases hcases with ⟨hnil, -⟩ | ⟨symbol', token', binary', tail', hcons, rfl⟩
    · cases hnil
    · obtain ⟨hop, htail⟩ := List.cons.inj hcons
      cases hop
      rw [ih htail]

theorem Choice.eq_of_items_eq {d d' : Choice} (h : d.items = d'.items) : d = d' := by
  induction d generalizing d' with
  | chain c =>
    cases d' with
    | chain c' => rw [Chain.eq_of_items_eq h]
    | choose test question yes colon no =>
      have hnone := cutAtMark_chain c
      rw [show c.items = _ from h, Choice.items, cutAtMark_choose] at hnone
      cases hnone
  | choose test question yes colon no ihYes ihNo =>
    have hmark := cutAtMark_choose test question (yes.items ++ .operator ":" colon :: no.items)
    rw [show test.items ++ _ = _ from h] at hmark
    cases d' with
    | chain c =>
      rw [Choice.items, cutAtMark_chain] at hmark
      cases hmark
    | choose test' question' yes' colon' no' =>
      rw [Choice.items, cutAtMark_choose] at hmark
      simp only [Option.some.injEq, Prod.mk.injEq, true_and] at hmark
      obtain ⟨htest, rfl, hafter⟩ := hmark
      have hmatch := cutAtMatch_choose yes' colon' no'.items
      rw [hafter, cutAtMatch_choose] at hmatch
      simp only [Option.some.injEq, Prod.mk.injEq] at hmatch
      obtain ⟨hyes, rfl, hno⟩ := hmatch
      rw [Chain.eq_of_items_eq htest.symm, ihYes hyes, ihNo hno]

end Grammar

namespace Reduction

open Grammar

/-- The reduction accepts a list just when it is a choice, of which there is one derivation at most; the expression is
the tree of that derivation. A list that is not accepted is reported as a fault in the text. -/
theorem reduce_accepts_choices (items : List Item) (place : Token) :
    (∀ s, (∃ e s', reduce items place s = (.ok e, s')) ↔ ∃ d : Choice, d.items = items) ∧
    (∀ d : Choice, d.items = items → ∀ s, ∃ e s', reduce items place s = (.ok e, s') ∧ d.Shapes e) ∧
    (∀ d d' : Choice, d.items = items → d'.items = items → d = d') ∧
    ∀ s fault s', reduce items place s = (.error fault, s') → ∃ e, fault = .malformed e := by
  have htree (d : Choice) (hd : d.items = items) (s : ParseState) :
      ∃ e s', reduce items place s = (.ok e, s') ∧ d.Shapes e := by
    obtain ⟨e, s', hrun, hshape, -⟩ := reduce_succeeds d place s
    exact ⟨e, s', by rw [← hd, hrun], hshape⟩
  refine ⟨?_, htree, fun d d' hd hd' => Choice.eq_of_items_eq (hd.trans hd'.symm), ?_⟩
  · intro s
    constructor
    · rintro ⟨e, s', hrun⟩
      rcases choice_or_rejects items place with hd | hreject
      · exact hd
      · obtain ⟨fault, s'', hfail⟩ := hreject s
        rw [hrun] at hfail
        cases hfail
    · rintro ⟨d, hd⟩
      obtain ⟨e, s', hrun, -⟩ := htree d hd s
      exact ⟨e, s', hrun⟩
  · intro s fault s' hrun
    rcases choice_or_rejects items place with ⟨d, hd⟩ | hreject
    · obtain ⟨e, s'', hok, -⟩ := htree d hd s
      rw [hrun] at hok
      cases hok
    · obtain ⟨e, s'', hfail⟩ := hreject s
      rw [hrun] at hfail
      cases hfail
      exact ⟨e, rfl⟩

end Reduction

end Bracescript
