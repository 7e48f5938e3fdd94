import Mathlib.Data.List.Basic
import Bracescript.Proofs.Scoping

/-!
# Subscripts

An index holds an expression and a slice holds a colon that belongs to no question mark. Both the subscript, which looks at
trees, and the reduction, which looks at items, find out which question marks and colons belong to each other. They find
the same pairs, so no subscript can be read both ways.
-/

namespace Bracescript

open TokenTree Item

namespace Ternary

/-! ## Pairs -/

/-- A half of the ternary operator, with its token. -/
inductive Half where
  | question (token : Token)
  | colon (token : Token)

/-- Each half belongs to another one. -/
inductive Closed : List Half → Prop
  | nil : Closed []
  | pair (q c : Token) {xs ys : List Half} (inner : Closed xs) (rest : Closed ys) :
    Closed (.question q :: (xs ++ .colon c :: ys))

/-- The question mark behind `before` and the colon behind `between` belong to each other. -/
def IsPair (hs before : List Half) (q : Token) (between : List Half) (c : Token) (after : List Half) : Prop :=
  hs = before ++ .question q :: (between ++ .colon c :: after) ∧ Closed between

/-- A colon that follows would belong to one of the question marks. -/
def Awaits (hs : List Half) : Prop := ∃ before q between, hs = before ++ .question q :: between ∧ Closed between

theorem Closed.append {xs ys : List Half} (hx : Closed xs) (hy : Closed ys) : Closed (xs ++ ys) := by
  induction hx with
  | nil => exact hy
  | pair q c inner _ _ ih => simpa using Closed.pair q c inner ih

/-- The number of question marks that wait for their colon; `n` of them did so before. -/
def waiting (n : Nat) : List Half → Nat
  | [] => n
  | .question _ :: hs => waiting (n + 1) hs
  | .colon _ :: hs => waiting (n - 1) hs

theorem waiting_append (n : Nat) (xs ys : List Half) : waiting n (xs ++ ys) = waiting (waiting n xs) ys := by
  induction xs generalizing n with
  | nil => rfl
  | cons h hs ih => cases h <;> exact ih _

theorem Closed.waiting_eq {hs : List Half} (h : Closed hs) (n : Nat) : waiting n hs = n := by
  induction h generalizing n with
  | nil => rfl
  | pair q c _ _ ih ihr => rw [waiting, waiting_append, ih, waiting, Nat.add_sub_cancel, ihr]

/-- The last question mark that waits has only pairs behind it. -/
theorem exists_of_waiting {hs : List Half} (h : 0 < waiting 0 hs) :
    ∃ before q between, hs = before ++ .question q :: between ∧ Closed between ∧
      waiting 0 before + 1 = waiting 0 hs := by
  induction hlen : hs.length using Nat.strongRecOn generalizing hs with
  | _ n ih =>
    obtain rfl | ⟨init, last, rfl⟩ := hs.eq_nil_or_concat'
    · simp [waiting] at h
    rw [List.length_append, List.length_singleton] at hlen
    rw [waiting_append] at h ⊢
    cases last with
    | question q => exact ⟨init, q, [], rfl, .nil, rfl⟩
    | colon c =>
      -- the colon takes the last question mark that waits, and the one before it comes next
      simp only [waiting] at h ⊢
      obtain ⟨before, q, between, rfl, hbetween, hwaiting⟩ := ih init.length (by omega) (by omega) rfl
      rw [List.length_append] at hlen
      obtain ⟨before, q', between', rfl, hbetween', hwaiting'⟩ := ih before.length (by omega) (by omega) rfl
      refine ⟨before, q', between' ++ .question q :: (between ++ .colon c :: []), by simp, ?_, by omega⟩
      exact hbetween'.append (.pair q c hbetween .nil)

theorem awaits_iff {hs : List Half} : Awaits hs ↔ 0 < waiting 0 hs := by
  constructor
  · rintro ⟨before, q, between, rfl, hbetween⟩
    rw [waiting_append, waiting, hbetween.waiting_eq]
    exact Nat.succ_pos _
  · intro h
    obtain ⟨before, q, between, heq, hbetween, -⟩ := exists_of_waiting h
    exact ⟨before, q, between, heq, hbetween⟩

/-- Every colon has a question mark that waits for it. -/
def Answered (n : Nat) (hs : List Half) : Prop := ∀ xs c ys, hs = xs ++ .colon c :: ys → 0 < waiting n xs

theorem Closed.answered {hs : List Half} (h : Closed hs) (n : Nat) : Answered n hs := by
  induction h generalizing n with
  | nil =>
    intro xs d ys heq
    simp at heq
  | @pair q c inner rest hinner _ ih ihr =>
    intro xs d ys heq
    cases xs with
    | nil => simp at heq
    | cons x xs =>
      rw [List.cons_append, List.cons.injEq] at heq
      obtain ⟨rfl, heq⟩ := heq
      rw [waiting]
      -- the colon is the one of the pair, or it stands behind it or inside
      obtain ⟨_ | ⟨y, as⟩, hxs, hrest⟩ | ⟨_ | ⟨y, as⟩, hxs, hrest⟩ := List.append_eq_append_iff.mp heq
      · rw [hxs, List.append_nil, hinner.waiting_eq]
        exact Nat.succ_pos n
      · rw [List.cons_append, List.cons.injEq] at hrest
        obtain ⟨rfl, hrest⟩ := hrest
        rw [hxs, waiting_append, hinner.waiting_eq, waiting, Nat.add_sub_cancel]
        exact ihr n as d ys hrest
      · rw [List.append_nil] at hxs
        rw [← hxs, hinner.waiting_eq]
        exact Nat.succ_pos n
      · rw [List.cons_append, List.cons.injEq] at hrest
        obtain ⟨rfl, -⟩ := hrest
        exact ih (n + 1) xs d as hxs

theorem closed_iff {hs : List Half} : Closed hs ↔ waiting 0 hs = 0 ∧ Answered 0 hs := by
  refine ⟨fun h => ⟨h.waiting_eq 0, h.answered 0⟩, ?_⟩
  rintro ⟨hzero, hanswered⟩
  induction hlen : hs.length using Nat.strongRecOn generalizing hs with
  | _ n ih =>
    obtain rfl | ⟨init, last, rfl⟩ := hs.eq_nil_or_concat'
    · exact .nil
    rw [waiting_append] at hzero
    cases last with
    | question q => simp [waiting] at hzero
    | colon c =>
      obtain ⟨before, q, between, rfl, hbetween, hwaiting⟩ := exists_of_waiting (hanswered init c [] rfl)
      simp only [waiting] at hzero
      have hbefore : Closed before := by
        refine ih before.length ?_ (by omega) ?_ rfl
        · simp at hlen
          omega
        · rintro xs c' ys rfl
          exact hanswered xs c' (ys ++ .question q :: (between ++ [.colon c])) (by simp)
      simpa using hbefore.append (.pair q c hbetween .nil)

theorem answered_cons {n : Nat} {h : Half} {hs : List Half} :
    Answered n (h :: hs) ↔ (∀ c, h = .colon c → 0 < n) ∧ Answered (waiting n [h]) hs := by
  have hwaiting (xs : List Half) : waiting n (h :: xs) = waiting (waiting n [h]) xs := waiting_append n [h] xs
  constructor
  · intro hall
    refine ⟨?_, ?_⟩
    · rintro c rfl
      exact hall [] c hs rfl
    · rintro xs c ys rfl
      rw [← hwaiting]
      exact hall (h :: xs) c ys rfl
  · rintro ⟨hhead, htail⟩ xs c ys heq
    cases xs with
    | nil =>
      obtain ⟨rfl, -⟩ := List.cons.inj heq
      exact hhead c rfl
    | cons x xs =>
      rw [List.cons_append, List.cons.injEq] at heq
      obtain ⟨rfl, heq⟩ := heq
      rw [hwaiting]
      exact htail xs c ys heq

theorem answered_append {n : Nat} {h : Option Half} {hs : List Half} :
    Answered n (h.toList ++ hs) ↔ (∀ c, h = some (.colon c) → 0 < n) ∧ Answered (waiting n h.toList) hs := by
  cases h with
  | none => simp [waiting]
  | some h => simpa using answered_cons

/-! ## Cutting at a colon -/

section Cut

variable {α : Type} (half? : α → Option Half)

/-- Cuts at the first colon that belongs to no question mark; `n` question marks still wait for theirs. -/
def cutUnpaired (n : Nat) : List α → Option (List α × Token × List α)
  | [] => none
  | x :: xs =>
    match half? x with
    | some (.colon c) =>
      if n = 0 then some ([], c, xs)
      else (cutUnpaired (n - 1) xs).map fun (before, c, after) => (x :: before, c, after)
    | some (.question _) => (cutUnpaired (n + 1) xs).map fun (before, c, after) => (x :: before, c, after)
    | none => (cutUnpaired n xs).map fun (before, c, after) => (x :: before, c, after)

/-- The halves among the elements of a list. -/
def halves (xs : List α) : List Half := xs.filterMap half?

/-- The colon `c` is the first one that no question mark waits for. -/
def IsCut (n : Nat) (xs before : List α) (c : Token) (after : List α) : Prop :=
  (∃ x, xs = before ++ x :: after ∧ half? x = some (.colon c)) ∧
    waiting n (halves half? before) = 0 ∧ Answered n (halves half? before)

theorem halves_cons (x : α) (xs : List α) : halves half? (x :: xs) = (half? x).toList ++ halves half? xs := by
  unfold halves
  cases h : half? x <;> simp [h]

theorem halves_append (xs ys : List α) : halves half? (xs ++ ys) = halves half? xs ++ halves half? ys :=
  List.filterMap_append

variable {half?}

theorem isCut_cons {n : Nat} {x : α} {xs before after : List α} {c : Token} :
    IsCut half? n (x :: xs) before c after ↔
      (before = [] ∧ n = 0 ∧ half? x = some (.colon c) ∧ xs = after) ∨
        ∃ b, before = x :: b ∧ (∀ d, half? x = some (.colon d) → 0 < n) ∧
          IsCut half? (waiting n (half? x).toList) xs b c after := by
  constructor
  · rintro ⟨⟨y, heq, hy⟩, hwaiting, hanswered⟩
    cases before with
    | nil =>
      obtain ⟨rfl, rfl⟩ := List.cons.inj heq
      exact .inl ⟨rfl, hwaiting, hy, rfl⟩
    | cons z b =>
      rw [List.cons_append, List.cons.injEq] at heq
      obtain ⟨rfl, rfl⟩ := heq
      rw [halves_cons, waiting_append] at hwaiting
      rw [halves_cons, answered_append] at hanswered
      exact .inr ⟨b, rfl, hanswered.1, ⟨y, rfl, hy⟩, hwaiting, hanswered.2⟩
  · rintro (⟨rfl, rfl, hx, rfl⟩ | ⟨b, rfl, hx, ⟨y, rfl, hy⟩, hwaiting, hanswered⟩)
    · exact ⟨⟨x, rfl, hx⟩, rfl, Closed.nil.answered 0⟩
    · refine ⟨⟨y, rfl, hy⟩, ?_, ?_⟩
      · rw [halves_cons, waiting_append]
        exact hwaiting
      · rw [halves_cons, answered_append]
        exact ⟨hx, hanswered⟩

theorem cutUnpaired_eq_some_iff {n : Nat} {xs before after : List α} {c : Token} :
    cutUnpaired half? n xs = some (before, c, after) ↔ IsCut half? n xs before c after := by
  induction xs generalizing n before with
  | nil => simp [cutUnpaired, IsCut]
  | cons x xs ih =>
    have hmap (m : Nat) : (cutUnpaired half? m xs).map (fun (b, c, a) => (x :: b, c, a)) = some (before, c, after) ↔
        ∃ b, before = x :: b ∧ IsCut half? m xs b c after := by
      simp only [← ih, Option.map_eq_some_iff, Prod.mk.injEq]
      constructor
      · rintro ⟨⟨b, d, a⟩, hcut, rfl, rfl, rfl⟩
        exact ⟨b, rfl, hcut⟩
      · rintro ⟨b, rfl, hcut⟩
        exact ⟨_, hcut, rfl, rfl, rfl⟩
    rw [isCut_cons, cutUnpaired]
    cases half? x with
    | none => simp [hmap, waiting]
    | some h =>
      cases h with
      | question q => simp [hmap, waiting]
      | colon d =>
        rcases n.eq_zero_or_pos with rfl | hn
        · simp [eq_comm]
        · have hne : n ≠ 0 := by omega
          simp [hmap, waiting, hn, hne]

theorem cutUnpaired_zero_iff {xs before after : List α} {c : Token} :
    cutUnpaired half? 0 xs = some (before, c, after) ↔
      (∃ x, xs = before ++ x :: after ∧ half? x = some (.colon c)) ∧ Closed (halves half? before) := by
  rw [cutUnpaired_eq_some_iff, closed_iff, IsCut]

end Cut

/-- A colon that belongs to nothing can be found in one way only. -/
theorem closed_append_inj {xs ys us vs : List Half} {c d : Token} (hx : Closed xs) (hy : Closed ys)
    (h : xs ++ .colon c :: us = ys ++ .colon d :: vs) : xs = ys ∧ c = d ∧ us = vs := by
  have hleft : cutUnpaired some 0 (xs ++ .colon c :: us) = some (xs, c, us) :=
    cutUnpaired_zero_iff.mpr ⟨⟨_, rfl, rfl⟩, by simpa [halves] using hx⟩
  have hright : cutUnpaired some 0 (ys ++ .colon d :: vs) = some (ys, d, vs) :=
    cutUnpaired_zero_iff.mpr ⟨⟨_, rfl, rfl⟩, by simpa [halves] using hy⟩
  rw [h, hright] at hleft
  simpa [eq_comm] using hleft

/-- Among pairs, every question mark has its colon. -/
theorem Closed.exists_colon {hs : List Half} (h : Closed hs) {xs ys : List Half} {q : Token}
    (heq : hs = xs ++ .question q :: ys) : ∃ between c after, ys = between ++ .colon c :: after ∧ Closed between := by
  induction h generalizing xs ys with
  | nil => simp at heq
  | @pair p c inner rest hinner _ ih ihr =>
    cases xs with
    | nil =>
      rw [List.nil_append, List.cons.injEq] at heq
      exact ⟨inner, c, rest, heq.2.symm, hinner⟩
    | cons x xs =>
      rw [List.cons_append, List.cons.injEq] at heq
      obtain ⟨_ | ⟨y, as⟩, -, hrest⟩ | ⟨_ | ⟨y, as⟩, hxs, hrest⟩ := List.append_eq_append_iff.mp heq.2
      · simp at hrest
      · rw [List.cons_append, List.cons.injEq] at hrest
        exact ihr hrest.2
      · simp at hrest
      · rw [List.cons_append, List.cons.injEq] at hrest
        obtain ⟨rfl, rfl⟩ := hrest
        obtain ⟨between, d, after, rfl, hbetween⟩ := ih hxs
        exact ⟨between, d, after ++ .colon c :: rest, by simp, hbetween⟩

end Ternary

open Ternary

/-- The half of the ternary operator that a tree is. -/
def TokenTree.half? : TokenTree → Option Half
  | leaf t => if t.isOperator "?" then some (.question t) else if t.isOperator ":" then some (.colon t) else none
  | group .. => none

def Item.half? : Item → Option Half
  | operand _ => none
  | operator symbol t => if symbol = "?" then some (.question t) else if symbol = ":" then some (.colon t) else none

theorem question_ne_colon : ("?" : Bytes) ≠ ":" := by decide

theorem Token.not_colon_of_question {t : Token} (h : t.isOperator "?" = true) : t.isOperator ":" = false := by
  simp only [isOperator, Bool.and_eq_true, beq_iff_eq] at h
  simp [isOperator, h, question_ne_colon]

theorem cutAtColon_eq (n : Nat) (ts : List TokenTree) : cutAtColon n ts = cutUnpaired TokenTree.half? n ts := by
  induction ts generalizing n with
  | nil => rfl
  | cons t ts ih =>
    rw [cutAtColon, cutUnpaired]
    cases t with
    | group => simp [isSymbol, TokenTree.half?, ih]
    | leaf t =>
      simp only [isSymbol, TokenTree.half?, ih]
      by_cases hquestion : t.isOperator "?" = true
      · simp [hquestion, t.not_colon_of_question hquestion]
      · by_cases hcolon : t.isOperator ":" = true
        · by_cases hn : n = 0 <;> simp [hquestion, hcolon, hn, first]
        · simp [hquestion, hcolon]

theorem cutAtMatch_eq (n : Nat) (items : List Item) : Reduction.cutAtMatch n items = cutUnpaired Item.half? n items := by
  induction items generalizing n with
  | nil => rfl
  | cons i items ih =>
    rw [cutUnpaired]
    cases i with
    | operand e => simp [Reduction.cutAtMatch, Item.half?, ih]
    | operator symbol t =>
      simp only [Reduction.cutAtMatch, Item.half?, ih]
      by_cases hquestion : symbol = "?"
      · simp [hquestion, question_ne_colon]
      · by_cases hcolon : symbol = ":"
        · by_cases hn : n = 0 <;> simp [hcolon, hn, question_ne_colon.symm]
        · simp [hquestion, hcolon]

/-! ## Trees -/

/-- The list is cut at its first colon that belongs to no question mark before it. -/
structure CutsAtUnpaired (ts before : List TokenTree) (colon : Token) (after : List TokenTree) : Prop where
  eq : ts = before ++ leaf colon :: after
  colon_ok : colon.isOperator ":" = true
  unpaired : ¬Awaits (halves TokenTree.half? before)
  first : ∀ xs c ys, halves TokenTree.half? before = xs ++ .colon c :: ys → Awaits xs

theorem TokenTree.half?_eq_colon {t : TokenTree} {c : Token} :
    t.half? = some (.colon c) ↔ t = leaf c ∧ c.isOperator ":" = true := by
  cases t with
  | group => simp [half?]
  | leaf t =>
    simp only [half?, leaf.injEq]
    by_cases hquestion : t.isOperator "?" = true
    · have hcolon := t.not_colon_of_question hquestion
      grind
    · by_cases hcolon : t.isOperator ":" = true <;> grind

theorem TokenTree.half?_of_kind {t : Token} (h : t.kind ≠ .operator) : (leaf t).half? = none := by
  simp [half?, Token.isOperator, h]

theorem cutAtColon_eq_some_iff {ts before after : List TokenTree} {colon : Token} :
    cutAtColon 0 ts = some (before, colon, after) ↔ CutsAtUnpaired ts before colon after := by
  rw [cutAtColon_eq, cutUnpaired_eq_some_iff]
  constructor
  · rintro ⟨⟨x, heq, hx⟩, hwaiting, hanswered⟩
    obtain ⟨rfl, hcolon⟩ := TokenTree.half?_eq_colon.mp hx
    refine ⟨heq, hcolon, ?_, fun xs c ys h => awaits_iff.mpr (hanswered xs c ys h)⟩
    rw [awaits_iff, Nat.not_lt, Nat.le_zero]
    exact hwaiting
  · rintro ⟨heq, hcolon, hunpaired, hfirst⟩
    rw [awaits_iff, Nat.not_lt, Nat.le_zero] at hunpaired
    refine ⟨⟨leaf colon, heq, TokenTree.half?_eq_colon.mpr ⟨rfl, hcolon⟩⟩, hunpaired, ?_⟩
    exact fun xs c ys h => awaits_iff.mp (hfirst xs c ys h)

theorem cutAtColon_of_closed {ts : List TokenTree} (h : Closed (halves TokenTree.half? ts)) : cutAtColon 0 ts = none := by
  rw [Option.eq_none_iff_forall_not_mem]
  rintro ⟨before, colon, after⟩ hcut
  obtain ⟨rfl, hcolon, hunpaired, -⟩ := cutAtColon_eq_some_iff.mp hcut
  have hhalf := TokenTree.half?_eq_colon.mpr ⟨rfl, hcolon⟩
  rw [halves_append, halves_cons, hhalf] at h
  exact hunpaired (awaits_iff.mpr (h.answered 0 _ colon (halves TokenTree.half? after) rfl))

theorem Token.half?_of_symbol {t : Token} {symbol : Bytes} (h : t.operatorSymbol? = some symbol) :
    (leaf t).half? = (operator symbol t).half? := by
  unfold Token.operatorSymbol? at h
  split at h
  · rename_i kind
    obtain rfl := Option.some.inj h
    simp [TokenTree.half?, Item.half?, Token.isOperator, kind]
  · rename_i kind
    split at h
    · rename_i hword
      obtain rfl := Option.some.inj h
      have hquestion : t.value ≠ "?" := by
        intro heq
        rw [heq] at hword
        revert hword
        decide
      have hcolon : t.value ≠ ":" := by
        intro heq
        rw [heq] at hword
        revert hword
        decide
      simp [TokenTree.half?, Item.half?, Token.isOperator, kind, hquestion, hcolon]
    · cases h
  · cases h

theorem Item.half?_eq_none {i : Item} : i.half? = none ↔ Grammar.isMark i = false := by
  cases i with
  | operand => simp [half?, Grammar.isMark]
  | operator symbol t => grind [half?, Grammar.isMark]

theorem Item.half?_eq_question {i : Item} {q : Token} : i.half? = some (.question q) ↔ i = .operator "?" q := by
  cases i with
  | operand => simp [half?]
  | operator symbol t => grind [half?]

/-- An expression has no colon that belongs to nothing. -/
theorem Derives.closed {ts : List TokenTree} {p : Part} (h : Derives ts p) {e : Expr} (hp : p = .expr e) :
    Closed (halves TokenTree.half? ts) := by
  have hknown {t : Token} {symbol : Bytes} (h : t.operatorSymbol? = some symbol)
      (hknown : isUnary symbol = true ∨ isBehind symbol = true ∨ isBinary symbol = true) : (leaf t).half? = none := by
    rw [Token.half?_of_symbol h]
    exact half?_eq_none.mpr (Grammar.not_mark_of_known hknown)
  induction h generalizing e with
  | ident kind | string kind | number kind =>
    rw [halves_cons, half?_of_kind (by simp [kind])]
    exact .nil
  | parens => exact .nil
  | front operator known _ ih =>
    rw [halves_cons, hknown operator (.inl known)]
    exact ih rfl
  | behind operator known _ ih =>
    rw [halves_append, halves_cons, hknown operator (.inr (.inl known))]
    exact (ih rfl).append .nil
  | binary operator known _ _ ihl ihr =>
    rw [halves_append, halves_cons, hknown operator (.inr (.inr known))]
    exact (ihl rfl).append (ihr rfl)
  | @ternary q c _ _ _ _ _ _ _ question colon _ _ _ iha ihb ihc =>
    have hquestion : (leaf q).half? = some (.question q) := Token.half?_of_symbol question
    have hcolon : (leaf c).half? = some (.colon c) := Token.half?_of_symbol colon
    rw [halves_append, halves_cons, hquestion, halves_append, halves_cons, hcolon]
    exact (iha rfl).append (.pair q c (ihb rfl) (ihc rfl))
  | member period name _ ih =>
    rw [halves_append, halves_cons, half?_of_kind (by simp [period]), halves_cons, half?_of_kind (by simp [name])]
    exact (ih rfl).append .nil
  | call _ _ _ ih | index _ _ _ ih | slice _ _ _ _ _ ih =>
    rw [halves_append]
    exact (ih rfl).append .nil
  | _ => cases hp

/-! ## Items -/

theorem Item.halves_eq_nil {items : List Item} (h : ∀ i ∈ items, Grammar.isMark i = false) : halves Item.half? items = [] :=
  List.filterMap_eq_nil_iff.mpr fun i hi => half?_eq_none.mpr (h i hi)

namespace Reduction

/-- The items before the first question mark, between it and its colon, and behind the colon. -/
def Divides (items test : List Item) (q : Token) (yes : List Item) (c : Token) (no : List Item) : Prop :=
  ∃ after, cutAtMark items = some (test, (Bytes.ofString "?", q), after) ∧ cutAtMatch 0 after = some (yes, c, no)

/-- The pairs that the reduction makes: the first question mark and its colon, and the pairs of what stands between them
and behind them. -/
inductive Joins : List Item → List Half → Token → List Half → Token → List Half → Prop
  | here {items test yes no : List Item} {q c : Token} (divides : Divides items test q yes c no) :
    Joins items [] q (halves Item.half? yes) c (halves Item.half? no)
  | yes {items test yes no : List Item} {q c p d : Token} {before between after : List Half}
    (divides : Divides items test q yes c no) (inner : Joins yes before p between d after) :
    Joins items (.question q :: before) p between d (after ++ .colon c :: halves Item.half? no)
  | no {items test yes no : List Item} {q c p d : Token} {before between after : List Half}
    (divides : Divides items test q yes c no) (inner : Joins no before p between d after) :
    Joins items (.question q :: (halves Item.half? yes ++ .colon c :: before)) p between d after

theorem Divides.halves_eq {items test yes no : List Item} {q c : Token} (h : Divides items test q yes c no) :
    halves Item.half? items = .question q :: (halves Item.half? yes ++ .colon c :: halves Item.half? no) ∧
      Closed (halves Item.half? yes) := by
  obtain ⟨after, mark, colon⟩ := h
  obtain ⟨rfl, htest, -⟩ := Grammar.cutAtMark_eq_some mark
  rw [cutAtMatch_eq, cutUnpaired_zero_iff] at colon
  obtain ⟨⟨x, rfl, hx⟩, hclosed⟩ := colon
  refine ⟨?_, hclosed⟩
  rw [halves_append, halves_eq_nil htest, halves_cons, halves_append, halves_cons, hx]
  rfl

theorem Divides.length_lt {items test yes no : List Item} {q c : Token} (h : Divides items test q yes c no) :
    yes.length < items.length ∧ no.length < items.length := by
  obtain ⟨after, mark, colon⟩ := h
  have hmark := length_cutAtMark mark
  have hcolon := length_cutAtMatch colon
  omega

theorem Joins.isPair {items : List Item} {before between after : List Half} {q c : Token}
    (h : Joins items before q between c after) : IsPair (halves Item.half? items) before q between c after := by
  induction h with
  | here divides => exact divides.halves_eq
  | yes divides _ ih | no divides _ ih =>
    obtain ⟨heq, hclosed⟩ := ih
    refine ⟨?_, hclosed⟩
    rw [divides.halves_eq.1, heq]
    simp

/-- The items are divided wherever their halves Item.half? are. -/
theorem exists_divides {items : List Item} {q c : Token} {xs ys : List Half}
    (h : halves Item.half? items = .question q :: (xs ++ .colon c :: ys)) (hx : Closed xs) :
    ∃ test yes no, Divides items test q yes c no ∧ halves Item.half? yes = xs ∧ halves Item.half? no = ys := by
  obtain ⟨test, i, after, rfl, htest, hi, hafter⟩ := List.filterMap_eq_cons_iff.mp h
  obtain ⟨yes, rest, rfl, hyes, hrest⟩ := List.filterMap_eq_append_iff.mp hafter
  obtain ⟨more, j, no, rfl, hmore, hj, hno⟩ := List.filterMap_eq_cons_iff.mp hrest
  obtain rfl := half?_eq_question.mp hi
  have hyes : halves Item.half? (yes ++ more) = xs := by
    rw [halves, List.filterMap_append, hyes, List.filterMap_eq_nil_iff.mpr hmore, List.append_nil]
  refine ⟨test, yes ++ more, no, ⟨yes ++ (more ++ j :: no), ?_, ?_⟩, hyes, hno⟩
  · rw [Grammar.cutAtMark_append fun i hi => half?_eq_none.mp (htest i hi)]
    simp [cutAtMark]
  · rw [cutAtMatch_eq, cutUnpaired_zero_iff]
    refine ⟨⟨j, by simp, hj⟩, ?_⟩
    rw [← hyes] at hx
    exact hx

theorem joins_of_isPair {items : List Item} (hclosed : Closed (halves Item.half? items)) {before between after : List Half}
    {q c : Token} (h : IsPair (halves Item.half? items) before q between c after) :
    Joins items before q between c after := by
  induction hlen : items.length using Nat.strongRecOn generalizing items before between after q c with
  | _ n ih =>
    obtain ⟨heq, hbetween⟩ := h
    cases before with
    | nil =>
      obtain ⟨test, yes, no, hdivides, rfl, rfl⟩ := exists_divides heq hbetween
      exact .here hdivides
    | cons h before =>
      generalize hhalves : halves Item.half? items = hs at hclosed heq
      cases hclosed with
      | nil => simp at heq
      | @pair p d xs ys hx hy =>
        obtain ⟨test, yes, no, hdivides, rfl, rfl⟩ := exists_divides hhalves hx
        obtain ⟨hyes, hno⟩ := hdivides.length_lt
        rw [List.cons_append, List.cons.injEq] at heq
        obtain ⟨rfl, heq⟩ := heq
        -- the question mark stands behind the colon of the first one, or before it
        obtain ⟨_ | ⟨y, as⟩, hbefore, hrest⟩ | ⟨_ | ⟨y, as⟩, hinner, hrest⟩ := List.append_eq_append_iff.mp heq
        · simp at hrest
        · rw [List.cons_append, List.cons.injEq] at hrest
          obtain ⟨rfl, hrest⟩ := hrest
          rw [hbefore]
          exact .no hdivides (ih no.length (by omega) hy ⟨hrest, hbetween⟩ rfl)
        · simp at hrest
        · rw [List.cons_append, List.cons.injEq] at hrest
          obtain ⟨rfl, hrest⟩ := hrest
          -- its colon stands before that colon too
          obtain ⟨between', c', after', rfl, hbetween'⟩ := hx.exists_colon hinner
          rw [List.append_assoc, List.cons_append] at hrest
          obtain ⟨rfl, rfl, rfl⟩ := closed_append_inj hbetween hbetween' hrest
          exact .yes hdivides (ih yes.length (by omega) hx ⟨hinner, hbetween⟩ rfl)

theorem closed_of_choice (d : Grammar.Choice) : Closed (halves Item.half? d.items) := by
  induction d with
  | chain c =>
    rw [Grammar.Choice.items, halves_eq_nil c.not_mark]
    exact .nil
  | choose test q yes c no ihYes ihNo =>
    have hquestion : (operator "?" q).half? = some (.question q) := rfl
    have hcolon : (operator ":" c).half? = some (.colon c) := rfl
    rw [Grammar.Choice.items, halves_append, halves_eq_nil test.not_mark, halves_cons, hquestion, halves_append,
      halves_cons, hcolon]
    exact .pair q c ihYes ihNo

/-- Items with a half that belongs to nothing are refused. -/
theorem reduce_rejects {items : List Item} (h : ¬Closed (halves Item.half? items)) (place : Token) :
    Parse.Rejects (reduce items place) := by
  obtain ⟨d, rfl⟩ | hrejects := Grammar.choice_or_rejects items place
  · exact absurd (closed_of_choice d) h
  · exact hrejects

end Reduction

namespace Parse

/-! ## Collecting -/

theorem tokenItem_half (t : Token) : Delivers (tokenItem t) fun i => i.WellFormed ∧ i.half? = (leaf t).half? := by
  have hoperand {p : Parse Expr} (h : Delivers p Expr.WellFormed) (hkind : t.kind ≠ .operator) :
      Delivers (do return .operand (← p)) fun i : Item => i.WellFormed ∧ i.half? = (leaf t).half? := by
    rw [half?_of_kind hkind]
    exact delivers_bind h fun e he => delivers_pure ⟨he, rfl⟩
  have hoperator (h : t.operatorSymbol? = some t.value) :
      Delivers (pure (.operator t.value t)) fun i : Item => i.WellFormed ∧ i.half? = (leaf t).half? :=
    delivers_pure ⟨trivial, (Token.half?_of_symbol h).symm⟩
  unfold tokenItem
  split
  · rename_i kind
    exact hoperand (delivers_newExpr fun _ => .ident) (by simp [kind])
  · rename_i kind
    exact hoperand (delivers_newExpr fun _ => .literal (by decide)) (by simp [kind])
  · rename_i kind
    split
    · exact delivers_fail _ _
    · rename_i literal hliteral
      exact hoperand (delivers_newExpr fun _ => .literal (known_of_numberKind hliteral)) (by simp [kind])
  · rename_i kind
    exact hoperator (by simp [Token.operatorSymbol?, kind])
  · rename_i kind
    split
    · rename_i hword
      exact hoperator (by simp [Token.operatorSymbol?, kind, hword])
    · exact delivers_fail _ _
  · exact delivers_fail _ _

/-- Items are collected with the last one first. -/
theorem halves_push (i : Item) (items : List Item) :
    halves Item.half? (i :: items).reverse = halves Item.half? items.reverse ++ i.half?.toList := by
  rw [List.reverse_cons, halves_append, halves_cons]
  simp [halves]

theorem halves_operand (e : Expr) (items : List Item) :
    halves Item.half? (.operand e :: items).reverse = halves Item.half? items.reverse := by
  rw [halves_push]
  exact List.append_nil _

/-- The items have the halves of the trees. -/
theorem collect_halves (items : List Item) (trees : List TokenTree) (stop : Token) (h : ∀ i ∈ items, i.WellFormed) :
    Delivers (collect items trees stop) fun read =>
      halves Item.half? read = halves Item.half? items.reverse ++ halves TokenTree.half? trees := by
  cases trees with
  | nil =>
    rw [collect]
    exact delivers_pure (List.append_nil _).symm
  | cons tree rest =>
    cases tree with
    | leaf t =>
      rw [collect.eq_def]
      dsimp only
      split
      · rename_i hperiod
        split
        · rename_i target before
          obtain ⟨htarget, hbefore⟩ := List.forall_mem_cons.mp h
          split
          · rename_i name more
            split
            · rename_i hname
              refine delivers_bind (P := Expr.WellFormed) (delivers_newExpr fun _ => .member htarget) fun e he => ?_
              have ih := collect_halves (.operand e :: before) more stop (List.forall_mem_cons.mpr ⟨he, hbefore⟩)
              rw [halves_operand] at ih ⊢
              rw [halves_cons, half?_of_kind (by simp [hperiod]), halves_cons, half?_of_kind (by simp [hname])]
              exact ih
            · exact delivers_fail _ _
          · exact delivers_fail _ _
        · exact delivers_fail _ _
      · refine delivers_bind (tokenItem_half t) fun item hitem => ?_
        have ih := collect_halves (item :: items) rest stop (List.forall_mem_cons.mpr ⟨hitem.1, h⟩)
        rw [halves_push, hitem.2, List.append_assoc] at ih
        rw [halves_cons]
        exact ih
    | group opener inside closer =>
      have hgroup : halves TokenTree.half? (.group opener inside closer :: rest) = halves TokenTree.half? rest :=
        halves_cons _ _ _
      rw [collect.eq_def, hgroup]
      dsimp only
      split
      · split
        · rename_i callee before
          obtain ⟨hcallee, hbefore⟩ := List.forall_mem_cons.mp h
          refine delivers_bind (arguments_delivers _) fun args hargs => ?_
          refine delivers_bind (P := Expr.WellFormed) (delivers_newExpr fun _ => ?_) fun e he => ?_
          · exact .call hcallee (fun a ha => (hargs a ha).1) fun a ha => (hargs a ha).2
          · have ih := collect_halves (.operand e :: before) rest stop (List.forall_mem_cons.mpr ⟨he, hbefore⟩)
            rw [halves_operand] at ih ⊢
            exact ih
        · split
          · exact delivers_fail _ _
          · refine delivers_bind (expression_delivers ⟨inside, closer⟩) fun e he => ?_
            have ih := collect_halves (.operand e :: items) rest stop (List.forall_mem_cons.mpr ⟨he, h⟩)
            rw [halves_operand] at ih
            exact ih
      · split
        · rename_i target before
          obtain ⟨htarget, hbefore⟩ := List.forall_mem_cons.mp h
          refine delivers_bind (subscript_delivers target inside closer htarget) fun e he => ?_
          have ih := collect_halves (.operand e :: before) rest stop (List.forall_mem_cons.mpr ⟨he, hbefore⟩)
          rw [halves_operand] at ih ⊢
          exact ih
        · exact delivers_fail _ _
      · exact delivers_fail _ _
termination_by weightAll trees
decreasing_by
  all_goals
    subst_vars
    simp only [weightAll, weight]
    omega

/-! ## An index or a slice -/

/-- The slice of a subscript that is cut at a colon. -/
def sliceAt (target : Expr) (before : List TokenTree) (colon : Token) (after : List TokenTree) (closer : Token) :
    Parse Expr := do
  let start ← bound ⟨before, colon⟩
  let stop ← bound ⟨after, closer⟩
  newExpr (target.span.cover closer.span) target.pos fun n => .slice n target start stop

def indexBy (target index : Expr) (closer : Token) : Parse Expr :=
  newExpr (target.span.cover closer.span) target.pos fun n => .index n target index

variable {target : Expr} {inside : List TokenTree} {closer : Token}

theorem subscript_of_cut {before after : List TokenTree} {colon : Token}
    (h : cutAtColon 0 inside = some (before, colon, after)) :
    subscript target inside closer = sliceAt target before colon after closer := by
  have hne : inside.isEmpty = false := by
    cases inside with
    | nil => simp [cutAtColon] at h
    | cons => rfl
  rw [subscript, if_neg (by simp [hne])]
  split
  · rename_i hnone
    rw [h] at hnone
    cases hnone
  · rename_i hsome
    rw [h] at hsome
    cases hsome
    rfl

theorem subscript_of_none (hne : inside ≠ []) (h : cutAtColon 0 inside = none) :
    subscript target inside closer = expression ⟨inside, closer⟩ >>= fun index => indexBy target index closer := by
  rw [subscript, if_neg (by simpa using hne)]
  split
  · rfl
  · rename_i hsome
    rw [h] at hsome
    cases hsome

/-- What is read as an expression has no colon to cut at. -/
theorem closed_of_expression {r : Stretch} {s s' : ParseState} {e : Expr} (h : expression r s = (.ok e, s')) :
    r.trees ≠ [] ∧ Closed (halves TokenTree.half? r.trees) := by
  have hanswer := (expression_reads r r.inside_self s).1
  rw [h] at hanswer
  refine ⟨?_, Derives.closed hanswer rfl⟩
  intro hnil
  rw [expression, if_pos (by simp [Stretch.isEmpty, hnil])] at h
  cases h

theorem expression_rejects {before after : List TokenTree} {colon : Token}
    (h : cutAtColon 0 inside = some (before, colon, after)) : Rejects (expression ⟨inside, closer⟩) := by
  intro s
  have hdelivers := expression_delivers ⟨inside, closer⟩ s
  cases hrun : expression ⟨inside, closer⟩ s with
  | mk result s' =>
    rw [hrun] at hdelivers
    cases result with
    | ok e =>
      rw [cutAtColon_of_closed (closed_of_expression hrun).2] at h
      cases h
    | error fault =>
      obtain ⟨e, rfl⟩ := hdelivers
      exact ⟨e, s', rfl⟩

theorem exists_cut_of_slice {s s' : ParseState} {n : Node} {object : Expr} {start stop : Option Expr}
    (h : subscript target inside closer s = (.ok (.slice n object start stop), s')) :
    ∃ before colon after, cutAtColon 0 inside = some (before, colon, after) := by
  cases hcut : cutAtColon 0 inside with
  | some cut => exact ⟨cut.1, cut.2.1, cut.2.2, rfl⟩
  | none =>
    cases inside with
    | nil =>
      rw [subscript] at h
      cases h
    | cons t ts =>
      rw [subscript_of_none (by simp) hcut] at h
      cases hrun : expression ⟨t :: ts, closer⟩ s with
      | mk result s₁ =>
        cases result with
        | ok e =>
          rw [bind_run_ok hrun] at h
          cases h
        | error fault =>
          rw [bind_run_error hrun] at h
          cases h

/-- An index and a slice never compete. A subscript that holds an expression is the index by that expression, and what a
slice holds is refused as an expression. A slice is cut at the first colon that belongs to no question mark, and the pairs
among the trees are those that the reduction makes of the items. -/
theorem subscript_decided (target : Expr) (inside : List TokenTree) (closer : Token) :
    (∀ s e s', expression ⟨inside, closer⟩ s = (.ok e, s') →
      subscript target inside closer s = indexBy target e closer s') ∧
    (∀ s n object start stop s', subscript target inside closer s = (.ok (.slice n object start stop), s') →
      Rejects (expression ⟨inside, closer⟩) ∧ ∃ before colon after, CutsAtUnpaired inside before colon after) ∧
    (∀ before colon after, CutsAtUnpaired inside before colon after →
      subscript target inside closer = sliceAt target before colon after closer) ∧
    ∀ s items s', collect [] inside closer s = (.ok items, s') →
      (∀ before q between c after, Reduction.Joins items before q between c after →
        IsPair (halves TokenTree.half? inside) before q between c after) ∧
      (Closed (halves TokenTree.half? inside) → ∀ before q between c after,
        IsPair (halves TokenTree.half? inside) before q between c after →
          Reduction.Joins items before q between c after) ∧
      (¬Closed (halves TokenTree.half? inside) → ∀ place, Rejects (Reduction.reduce items place)) := by
  refine ⟨?_, ?_, ?_, ?_⟩
  · intro s e s' hrun
    obtain ⟨hne, hclosed⟩ := closed_of_expression hrun
    rw [subscript_of_none hne (cutAtColon_of_closed hclosed), bind_run_ok hrun]
  · intro s n object start stop s' hrun
    obtain ⟨before, colon, after, hcut⟩ := exists_cut_of_slice hrun
    exact ⟨expression_rejects hcut, before, colon, after, cutAtColon_eq_some_iff.mp hcut⟩
  · intro before colon after hcuts
    exact subscript_of_cut (cutAtColon_eq_some_iff.mpr hcuts)
  · intro s items s' hrun
    have hhalves := collect_halves [] inside closer (List.forall_mem_nil _) s
    rw [hrun] at hhalves
    change halves Item.half? items = halves TokenTree.half? inside at hhalves
    rw [← hhalves]
    exact ⟨fun _ _ _ _ _ h => h.isPair, fun hclosed _ _ _ _ _ h => Reduction.joins_of_isPair hclosed h,
      Reduction.reduce_rejects⟩

end Parse

end Bracescript
