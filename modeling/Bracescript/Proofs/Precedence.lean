import Bracescript.Parse.Reduction
import Bracescript.Proofs.ParseRules

/-!
# Precedence of binary operators

Binary operators and their operands form one tree in which tighter operators stand below looser ones and operators of
one level group to the right. The reduction builds that tree.
-/

namespace Bracescript

open Item

/-- Operands joined by binary operators. An operand stands for itself, whatever it is made of. -/
inductive OpTree where
  | atom (e : Expr)
  | node (symbol : Bytes) (token : Token) (left right : OpTree)

/-- Operands with a binary operator between each two of them. -/
def Item.Alternates : List Item → Prop
  | [.operand _] => True
  | .operand _ :: .operator symbol _ :: rest => isBinary symbol = true ∧ Alternates rest
  | _ => False

namespace OpTree

/-- The operands and operators in the order in which they are written. -/
def items : OpTree → List Item
  | atom e => [.operand e]
  | node symbol token left right => left.items ++ .operator symbol token :: right.items

/-- An operand, or an operator that binds at least as tightly as the level `n`. -/
def AtLeast (n : Nat) : OpTree → Prop
  | atom _ => True
  | node symbol .. => n ≤ level symbol

/-- On the left of an operator stands something tighter, on its right something that is at least as tight. -/
def Grouped : OpTree → Prop
  | atom _ => True
  | node symbol _ left right =>
    left.AtLeast (level symbol + 1) ∧ right.AtLeast (level symbol) ∧ left.Grouped ∧ right.Grouped

/-- The expression has this tree on top of its operands, and the nodes of the tree are younger than `old`. -/
def Holds (old : Nat) : OpTree → Expr → Prop
  | atom a, e => e = a
  | node symbol _ left right, e =>
    ∃ n l r, e = .binary n symbol l r ∧ old < n.id ∧ left.Holds old l ∧ right.Holds old r

/-- Creates the nodes of the tree, each one after those below it. -/
def build : OpTree → Parse Expr
  | atom e => pure e
  | node symbol _ left right => do
    let l ← left.build
    let r ← right.build
    Parse.newExpr (l.span.cover r.span) l.pos fun n => .binary n symbol l r

theorem Holds.mono {old late : Nat} (hle : old ≤ late) {t : OpTree} {e : Expr} (h : t.Holds late e) :
    t.Holds old e := by
  induction t generalizing e with
  | atom a => exact h
  | node symbol token left right ihl ihr =>
    obtain ⟨n, l, r, rfl, hn, hl, hr⟩ := h
    exact ⟨n, l, r, rfl, Nat.lt_of_le_of_lt hle hn, ihl hl, ihr hr⟩

theorem build_succeeds (t : OpTree) : Parse.Succeeds t.build fun old e => t.Holds old e := by
  induction t with
  | atom e => exact Parse.succeeds_pure fun _ => rfl
  | node symbol token left right ihl ihr =>
    apply Parse.succeeds_bind ihl
    intro old l hl
    apply Parse.succeeds_bind ihr
    intro late r hr
    apply (Parse.succeeds_newExpr _ _ _).mono
    rintro last e ⟨n, hn, rfl⟩ hlast hlate
    exact ⟨n, l, r, rfl, by omega, hl, hr.mono hlate⟩

/-! ## Operators behind their operands -/

/-- The items with every operator behind its operands. -/
def postfixed : OpTree → List Item
  | atom e => [.operand e]
  | node symbol token left right => left.postfixed ++ right.postfixed ++ [.operator symbol token]

/-- What is put out while the items of a tree are read. -/
def early : OpTree → List Item
  | atom e => [.operand e]
  | node _ _ left right => left.postfixed ++ right.early

/-- What is still pending behind the items of a tree: the operators on its right edge, the last one first. -/
def edge : OpTree → List Item
  | atom _ => []
  | node symbol token _ right => right.edge ++ [.operator symbol token]

theorem early_append_edge (t : OpTree) : t.early ++ t.edge = t.postfixed := by
  induction t with
  | atom e => rfl
  | node symbol token left right _ ihr =>
    simp only [early, edge, postfixed, ← ihr, List.append_assoc]

/-- No operator of the list is tighter than the level `n`. -/
def NoneTighter (n : Nat) (pending : List Item) : Prop :=
  ∀ symbol token, Item.operator symbol token ∈ pending → level symbol ≤ n

theorem edge_tighter {t : OpTree} {n : Nat} (ht : t.Grouped) (hn : t.AtLeast n) :
    ∀ i ∈ t.edge, ∃ symbol token, i = .operator symbol token ∧ n ≤ level symbol := by
  induction t generalizing n with
  | atom e => simp [edge]
  | node symbol token left right _ ihr =>
    obtain ⟨-, hright, -, hr⟩ := ht
    intro i hi
    rw [edge, List.mem_append, List.mem_singleton] at hi
    rcases hi with hi | rfl
    · obtain ⟨symbol', token', rfl, hlevel⟩ := ihr hr hright i hi
      exact ⟨symbol', token', rfl, Nat.le_trans hn hlevel⟩
    · exact ⟨symbol, token, rfl, hn⟩

/-- An operator drives out just the edge of the tree in front of it: what waits below is not tighter. -/
theorem drive_out {t : OpTree} {symbol : Bytes} {pending : List Item} (ht : t.Grouped)
    (hleft : t.AtLeast (level symbol + 1)) (hpending : NoneTighter (level symbol) pending) :
    (t.edge ++ pending).takeWhile (bindsTighterThan symbol) = t.edge ∧
      (t.edge ++ pending).dropWhile (bindsTighterThan symbol) = pending := by
  have hedge : ∀ i ∈ t.edge, bindsTighterThan symbol i = true := by
    intro i hi
    obtain ⟨symbol', token', rfl, hlevel⟩ := edge_tighter ht hleft i hi
    simp only [bindsTighterThan, decide_eq_true_iff]
    omega
  rw [List.takeWhile_append_of_pos hedge, List.dropWhile_append_of_pos hedge]
  cases pending with
  | nil => simp
  | cons i pending =>
    have hi : ¬ bindsTighterThan symbol i = true := by
      cases i with
      | operand e => simp [bindsTighterThan]
      | operator symbol' token' =>
        have := hpending symbol' token' List.mem_cons_self
        simp only [bindsTighterThan, decide_eq_true_iff]
        omega
    rw [List.takeWhile_cons_of_neg hi, List.dropWhile_cons_of_neg hi, List.append_nil]
    exact ⟨rfl, rfl⟩

/-- Reading the items of a grouped tree puts out its early part and leaves its edge pending, on top of what was. -/
theorem behindOperands_items {t : OpTree} {n : Nat} (ht : t.Grouped) (hn : t.AtLeast n) (pending : List Item)
    (hpending : NoneTighter n pending) (rest : List Item) :
    Reduction.behindOperands pending (t.items ++ rest)
      = t.early ++ Reduction.behindOperands (t.edge ++ pending) rest := by
  induction t generalizing n pending rest with
  | atom e => rfl
  | node symbol token left right ihl ihr =>
    obtain ⟨hleft, hright, hl, hr⟩ := ht
    have hlower : NoneTighter (level symbol) pending := fun s tok hmem => Nat.le_trans (hpending s tok hmem) hn
    have hlower' : NoneTighter (level symbol + 1) pending := fun s tok hmem => Nat.le_succ_of_le (hlower s tok hmem)
    have hpush : NoneTighter (level symbol) (.operator symbol token :: pending) := by
      intro s tok hmem
      rcases List.mem_cons.mp hmem with heq | hmem
      · cases heq
        exact Nat.le_refl _
      · exact hlower s tok hmem
    obtain ⟨htake, hdrop⟩ := drive_out hl hleft hlower
    calc Reduction.behindOperands pending ((node symbol token left right).items ++ rest)
        = Reduction.behindOperands pending (left.items ++ (.operator symbol token :: (right.items ++ rest))) := by
          simp only [items, List.append_assoc, List.cons_append]
      _ = left.early ++ (left.edge ++
            Reduction.behindOperands (.operator symbol token :: pending) (right.items ++ rest)) := by
          rw [ihl hl hleft pending hlower', Reduction.behindOperands, htake, hdrop]
      _ = left.early ++ (left.edge ++
            (right.early ++ Reduction.behindOperands (right.edge ++ .operator symbol token :: pending) rest)) := by
          rw [ihr hr hright _ hpush]
      _ = _ := by
          rw [early, edge, ← early_append_edge left]
          simp only [List.append_assoc, List.singleton_append]

/-- Operators are put behind their operands as the grouped tree has them. -/
theorem behindOperands_eq_postfixed {t : OpTree} (ht : t.Grouped) :
    Reduction.behindOperands [] t.items = t.postfixed := by
  have hzero : t.AtLeast 0 := by cases t <;> simp [AtLeast]
  have hread := behindOperands_items ht hzero [] (fun _ _ hmem => by simp at hmem) []
  rwa [List.append_nil, List.append_nil, Reduction.behindOperands, early_append_edge] at hread

/-! ## Building the tree -/

theorem fold_postfixed (t : OpTree) (slots : List Expr) (rest : List Item) :
    Reduction.fold slots (t.postfixed ++ rest) = t.build >>= fun e => Reduction.fold (e :: slots) rest := by
  induction t generalizing slots rest with
  | atom e => rfl
  | node symbol token left right ihl ihr =>
    simp only [postfixed, build, List.append_assoc, List.singleton_append, ihl, ihr, bind_assoc]
    rfl

/-- The reduction of the items of a grouped tree creates just the nodes of that tree. -/
theorem binaries_eq_build {t : OpTree} (ht : t.Grouped) : Reduction.binaries t.items = t.build := by
  have hfold := fold_postfixed t [] []
  rw [List.append_nil] at hfold
  rw [Reduction.binaries, behindOperands_eq_postfixed ht, hfold]
  exact bind_pure _

/-! ## One tree for each list -/

/-- Reads back a list in which operators stand behind their operands. -/
def regroup (slots : List OpTree) : List Item → List OpTree
  | [] => slots
  | .operand e :: rest => regroup (atom e :: slots) rest
  | .operator symbol token :: rest =>
    match slots with
    | right :: left :: slots => regroup (node symbol token left right :: slots) rest
    | slots => regroup slots rest

theorem regroup_postfixed (t : OpTree) (slots : List OpTree) (rest : List Item) :
    regroup slots (t.postfixed ++ rest) = regroup (t :: slots) rest := by
  induction t generalizing slots rest with
  | atom e => rfl
  | node symbol token left right ihl ihr =>
    simp only [postfixed, List.append_assoc, List.singleton_append, ihl, ihr]
    rfl

theorem postfixed_injective {t u : OpTree} (h : t.postfixed = u.postfixed) : t = u := by
  have ht := regroup_postfixed t [] []
  have hu := regroup_postfixed u [] []
  rw [h, hu] at ht
  exact (List.cons.inj ht).1.symm

theorem eq_of_items_eq {t u : OpTree} (ht : t.Grouped) (hu : u.Grouped) (h : t.items = u.items) : t = u := by
  apply postfixed_injective
  rw [← behindOperands_eq_postfixed ht, h, behindOperands_eq_postfixed hu]

/-- Puts an operand and an operator in front of a tree, as deep on its left edge as they bind. -/
def prepend (e : Expr) (symbol : Bytes) (token : Token) : OpTree → OpTree
  | atom a => node symbol token (atom e) (atom a)
  | node s t left right =>
    if level symbol ≤ level s then node symbol token (atom e) (node s t left right)
    else node s t (prepend e symbol token left) right

theorem items_prepend (e : Expr) (symbol : Bytes) (token : Token) (t : OpTree) :
    (prepend e symbol token t).items = .operand e :: .operator symbol token :: t.items := by
  induction t with
  | atom a => rfl
  | node s tok left right ihl _ =>
    rw [prepend]
    split
    · rfl
    · simp only [items, ihl, List.cons_append]

theorem atLeast_prepend {e : Expr} {symbol : Bytes} {token : Token} {t : OpTree} {n : Nat} (hs : n ≤ level symbol)
    (ht : t.AtLeast n) : (prepend e symbol token t).AtLeast n := by
  cases t with
  | atom a => exact hs
  | node s tok left right =>
    rw [prepend]
    split
    · exact hs
    · exact ht

theorem grouped_prepend {e : Expr} {symbol : Bytes} {token : Token} {t : OpTree} (ht : t.Grouped) :
    (prepend e symbol token t).Grouped := by
  induction t with
  | atom a => exact ⟨trivial, trivial, trivial, trivial⟩
  | node s tok left right ihl _ =>
    obtain ⟨hleft, hright, hl, hr⟩ := ht
    rw [prepend]
    split
    · rename_i hle
      exact ⟨trivial, hle, trivial, hleft, hright, hl, hr⟩
    · rename_i hlt
      exact ⟨atLeast_prepend (by omega) hleft, hright, ihl hl, hr⟩

theorem exists_grouped (items : List Item) (h : Alternates items) : ∃ t : OpTree, t.items = items ∧ t.Grouped := by
  fun_induction Alternates items with
  | case1 e => exact ⟨atom e, rfl, trivial⟩
  | case2 e symbol token rest ih =>
    obtain ⟨t, rfl, ht⟩ := ih h.2
    exact ⟨prepend e symbol token t, items_prepend e symbol token t, grouped_prepend ht⟩
  | case3 => exact h.elim

end OpTree

namespace Reduction

/-- Operands and binary operators in turn reduce to the one tree over these operands that reads as the list does and in
which every operator has something tighter on its left and nothing looser on its right. -/
theorem binaries_grouped (items : List Item) (h : Alternates items) :
    ∃ t : OpTree, t.items = items ∧ t.Grouped ∧
      (∀ s, ∃ e s', binaries items s = (.ok e, s') ∧ t.Holds s.forest.exprs.size e) ∧
      ∀ u : OpTree, u.items = items → u.Grouped → u = t := by
  obtain ⟨t, rfl, ht⟩ := OpTree.exists_grouped items h
  refine ⟨t, rfl, ht, ?_, fun u hu hgrouped => OpTree.eq_of_items_eq hgrouped ht hu⟩
  intro s
  obtain ⟨e, s', hrun, hholds, -⟩ := t.build_succeeds s
  exact ⟨e, s', by rw [OpTree.binaries_eq_build ht, hrun], hholds⟩

/-- `a - (b + c) - d * a`, with the sum as one operand. -/
def minusChain : List Item :=
  let name (id : Nat) (text : Bytes) : Expr := .ident ⟨id, .none, .none⟩ text
  [.operand (name 1 "a"), .operator "-" default,
    .operand (.binary ⟨4, .none, .none⟩ "+" (name 2 "b") (name 3 "c")), .operator "-" default,
    .operand (name 5 "d"), .operator "*" default, .operand (name 6 "a")]

theorem minusChain_grouped :
    Alternates minusChain ∧
      ∃ t : OpTree, t.items = minusChain ∧ t.Grouped ∧
        (∀ s, ∃ e s', binaries minusChain s = (.ok e, s') ∧ t.Holds s.forest.exprs.size e) ∧
        ∀ u : OpTree, u.items = minusChain → u.Grouped → u = t := by
  have h : Alternates minusChain := ⟨by decide, by decide, by decide, trivial⟩
  exact ⟨h, binaries_grouped minusChain h⟩

end Reduction

end Bracescript
