import Bracescript.Proofs.Renaming
import Bracescript.Proofs.StatementAgrees

/-!
# The parser commutes with renaming

From renamed tokens the parser makes the same nodes at renamed places, or fails with the same message at the renamed
place.
-/

namespace Bracescript

open TokenTree

variable {ρ : Equiv.Perm UInt32} {α β γ δ : Type}

/-! ## Nodes -/

def SpanMatch.renaming (ρ : Equiv.Perm UInt32) : SpanMatch where
  Rel s s' := s' = s.renamed ρ
  cover := by
    rintro a _ b _ rfl rfl
    exact (Span.renamed_cover ρ a b).symm

/-- Nodes with the place of the second renamed, whatever their numbers. -/
structure Node.Renamed (ρ : Equiv.Perm UInt32) (n n' : Node) : Prop where
  span : n'.span = n.span.renamed ρ
  pos : n'.pos = n.pos

structure Expr.Renamed (ρ : Equiv.Perm UInt32) (e e' : Expr) : Prop where
  alike : e.Alike (.renaming ρ) e'
  pos : e'.pos = e.pos

structure Stmt.Renamed (ρ : Equiv.Perm UInt32) (s s' : Stmt) : Prop where
  alike : s.Alike (.renaming ρ) s'
  pos : s'.pos = s.pos

theorem Expr.Renamed.span {e e' : Expr} (h : e.Renamed ρ e') : e'.span = e.span.renamed ρ := h.alike.span

theorem Expr.Renamed.cover {e e' d d' : Expr} (he : e.Renamed ρ e') (hd : d.Renamed ρ d') :
    e'.span.cover d'.span = (e.span.cover d.span).renamed ρ := (SpanMatch.renaming ρ).cover he.span hd.span

theorem Expr.Renamed.cover_token {e e' : Expr} (h : e.Renamed ρ e') (t : Token) :
    e'.span.cover (t.renamed ρ).span = (e.span.cover t.span).renamed ρ := (SpanMatch.renaming ρ).cover h.span rfl

theorem Expr.Renamed.token_cover {e e' : Expr} (h : e.Renamed ρ e') (t : Token) :
    (t.renamed ρ).span.cover e'.span = (t.span.cover e.span).renamed ρ := by
  rw [h.span, Span.renamed_cover]
  rfl

theorem Expr.kindName_unplaced (e : Expr) : e.unplaced.kindName = e.kindName := by
  cases e <;> rfl

theorem Stmt.kindName_unplaced (s : Stmt) : s.unplaced.kindName = s.kindName := by
  cases s <;> rfl

theorem Expr.Renamed.kindName {e e' : Expr} (h : e.Renamed ρ e') : e'.kindName = e.kindName := by
  rw [← Expr.kindName_unplaced, h.alike.unplaced, Expr.kindName_unplaced]

theorem Stmt.Renamed.kindName {s s' : Stmt} (h : s.Renamed ρ s') : s'.kindName = s.kindName := by
  rw [← Stmt.kindName_unplaced, h.alike.unplaced, Stmt.kindName_unplaced]

theorem Stmt.spans_eq_cons (s : Stmt) : ∃ rest, s.spans = s.span :: rest := by
  cases s <;> exact ⟨_, rfl⟩

theorem Stmt.Renamed.span {s s' : Stmt} (h : s.Renamed ρ s') : s'.span = s.span.renamed ρ := by
  have hspans := h.alike.spans
  obtain ⟨rest, heq⟩ := s.spans_eq_cons
  obtain ⟨rest', heq'⟩ := s'.spans_eq_cons
  rw [heq, heq', List.forall₂_cons] at hspans
  exact hspans.1

/-! ## Steps -/

/-- Two outcomes: values that `Q` holds of, or a fault and the same one at its renamed place. -/
inductive Carried (ρ : Equiv.Perm UInt32) (Q : α → β → Prop) : Except Fault α → Except Fault β → Prop where
  | ok {a b} (values : Q a b) : Carried ρ Q (.ok a) (.ok b)
  | error (fault) : Carried ρ Q (.error fault) (.error (fault.renamed ρ))

namespace Parse

/-- From states with the same surroundings the second step does what the first one does, at renamed places. -/
def Carries (ρ : Equiv.Perm UInt32) (Q : α → β → Prop) (p : Parse α) (q : Parse β) : Prop :=
  ∀ s t : ParseState, s.scope = t.scope → Carried ρ Q (p s).1 (q t).1 ∧ (p s).2.scope = (q t).2.scope

variable {Q : α → β → Prop} {R : γ → δ → Prop}

theorem carries_pure {a : α} {b : β} (h : Q a b) : Carries ρ Q (pure a) (pure b) := fun _ _ hscope => ⟨.ok h, hscope⟩

theorem carries_throw {fault fault' : Fault} (h : fault' = fault.renamed ρ) :
    Carries ρ Q (throw fault) (throw fault') := by
  subst h
  exact fun _ _ hscope => ⟨.error fault, hscope⟩

/-- No message tells the number of a file. -/
theorem carries_fail {cause cause' : Cause} {t t' : Token} (ht : t' = t.renamed ρ)
    (h : SyntaxError.atToken cause' (t.renamed ρ) = (SyntaxError.atToken cause t).renamed ρ) :
    Carries ρ Q (fail cause t) (fail cause' t') := by
  subst ht
  exact carries_throw (congrArg Fault.malformed h)

theorem carries_failAt {cause cause' : Cause} {e e' : Expr} (he : e.Renamed ρ e') (h : cause' = cause) :
    Carries ρ Q (failAt cause e) (failAt cause' e') := by
  subst h
  unfold failAt
  rw [he.span, he.pos]
  exact carries_throw rfl

theorem carries_bind {p : Parse α} {q : Parse β} {f : α → Parse γ} {g : β → Parse δ} (hp : Carries ρ Q p q)
    (hf : ∀ a b, Q a b → Carries ρ R (f a) (g b)) : Carries ρ R (p >>= f) (q >>= g) := by
  intro s t hscope
  obtain ⟨hcarried, hscope⟩ := hp s t hscope
  cases hrun : p s with
  | mk result s' =>
    cases hrun' : q t with
    | mk result' t' =>
      rw [hrun, hrun'] at hcarried hscope
      cases hcarried with
      | ok hab =>
        rw [bind_run_ok hrun, bind_run_ok hrun']
        exact hf _ _ hab s' t' hscope
      | error fault =>
        rw [bind_run_error hrun, bind_run_error hrun']
        exact ⟨.error fault, hscope⟩

theorem carries_scope : Carries ρ Eq scope scope := fun _ _ hscope => ⟨.ok hscope, hscope⟩

theorem carries_within {p : Parse α} {q : Parse β} (there : Scope) (h : Carries ρ Q p q) :
    Carries ρ Q (within there p) (within there q) :=
  fun s t hscope => ⟨(h { s with scope := there } { t with scope := there } rfl).1, hscope⟩

theorem carries_attempt {p : Parse α} {q : Parse β} (h : Carries ρ Q p q) :
    Carries ρ (Carried ρ Q) (attempt p) (attempt q) := by
  intro s t hscope
  obtain ⟨hcarried, hscope⟩ := h s t hscope
  exact ⟨.ok hcarried, hscope⟩

theorem carries_newExpr {span span' : Span} {pos pos' : LineCol} {build build' : Node → Expr}
    (hspan : span' = span.renamed ρ) (hpos : pos' = pos)
    (h : ∀ n n' : Node, n.Renamed ρ n' → (build n).Renamed ρ (build' n')) :
    Carries ρ (Expr.Renamed ρ) (newExpr span pos build) (newExpr span' pos' build') :=
  fun _ _ hscope => ⟨.ok (h _ _ ⟨hspan, hpos⟩), hscope⟩

theorem carries_newStmt {span span' : Span} {pos pos' : LineCol} {build build' : Node → Stmt}
    (hspan : span' = span.renamed ρ) (hpos : pos' = pos)
    (h : ∀ n n' : Node, n.Renamed ρ n' → (build n).Renamed ρ (build' n')) :
    Carries ρ (Stmt.Renamed ρ) (newStmt span pos build) (newStmt span' pos' build') :=
  fun _ _ hscope => ⟨.ok (h _ _ ⟨hspan, hpos⟩), hscope⟩

theorem carries_newIdent (t : Token) : Carries ρ (Expr.Renamed ρ) (newIdent t) (newIdent (t.renamed ρ)) :=
  carries_newExpr rfl rfl fun _ _ hn => ⟨.ident hn.span t.value, hn.pos⟩

/-- A value that may be left out. -/
theorem carries_some {p : Parse Expr} {q : Parse Expr} (h : Carries ρ (Expr.Renamed ρ) p q) :
    Carries ρ (Option.Rel (Expr.Alike (.renaming ρ))) (do return some (← p)) (do return some (← q)) :=
  carries_bind h fun _ _ he => carries_pure (.some he.alike)

end Parse

/-! ## Reduction -/

inductive Item.Renamed (ρ : Equiv.Perm UInt32) : Item → Item → Prop where
  | operand {e e'} (expr : e.Renamed ρ e') : Renamed ρ (.operand e) (.operand e')
  | operator (symbol token) : Renamed ρ (.operator symbol token) (.operator symbol (token.renamed ρ))

abbrev ItemsRenamed (ρ : Equiv.Perm UInt32) : List Item → List Item → Prop := List.Forall₂ (Item.Renamed ρ)

/-- An operator with its token renamed. -/
def renamedHeld (ρ : Equiv.Perm UInt32) (p : Bytes × Token) : Bytes × Token := (p.1, p.2.renamed ρ)

namespace Reduction

open Parse Item

theorem applyAll_carries (held : List (Bytes × Token)) {e e' : Expr} (he : e.Renamed ρ e') :
    Carries ρ (Expr.Renamed ρ) (applyAll held e) (applyAll (held.map (renamedHeld ρ)) e') := by
  induction held generalizing e e' with
  | nil => exact carries_pure he
  | cons p held ih =>
    obtain ⟨symbol, token⟩ := p
    refine carries_bind (carries_newExpr (he.token_cover token) rfl fun _ _ hn => ?_) fun _ _ he => ih he
    exact ⟨.unary hn.span he.alike _ _, hn.pos⟩

theorem operands_carries {items items' : List Item} (h : ItemsRenamed ρ items items') :
    (∀ last held, Carries ρ (ItemsRenamed ρ) (beforeOperand last held items)
      (beforeOperand (last.map (renamedHeld ρ)) (held.map (renamedHeld ρ)) items')) ∧
    ∀ e e' : Expr, e.Renamed ρ e' → Carries ρ (ItemsRenamed ρ) (behindOperand e items) (behindOperand e' items') := by
  induction h with
  | nil =>
    refine ⟨fun last held => ?_, fun e e' he => carries_pure (.cons (.operand he) .nil)⟩
    cases held with
    | cons => exact carries_fail rfl rfl
    | nil =>
      cases last with
      | some => exact carries_fail rfl rfl
      | none => exact carries_pure .nil
  | cons hitem _ ih =>
    obtain ⟨ihBefore, ihBehind⟩ := ih
    cases hitem with
    | operand he =>
      refine ⟨fun last held => ?_, fun _ _ _ => carries_failAt he rfl⟩
      exact carries_bind (applyAll_carries held he) ihBehind
    | operator symbol token =>
      constructor
      · intro last held
        rw [beforeOperand, beforeOperand]
        split
        · exact ihBefore last ((symbol, token) :: held)
        · exact carries_fail rfl rfl
      · intro e e' he
        rw [behindOperand, behindOperand]
        split
        · refine carries_bind (carries_newExpr (he.cover_token token) he.pos fun _ _ hn => ?_) ihBehind
          exact ⟨.unary hn.span he.alike _ _, hn.pos⟩
        split
        · refine carries_bind (ihBefore (some (symbol, token)) []) fun _ _ hitems => ?_
          exact carries_pure (.cons (.operand he) (.cons (.operator symbol token) hitems))
        · exact carries_fail rfl rfl

theorem bindsTighterThan_renamed (symbol : Bytes) (i i' : Item) (h : i.Renamed ρ i') :
    bindsTighterThan symbol i' = bindsTighterThan symbol i := by
  cases h with
  | operand => rfl
  | operator => rfl

theorem behindOperands_renamed {pending pending' items items' : List Item} (hpending : ItemsRenamed ρ pending pending')
    (h : ItemsRenamed ρ items items') :
    ItemsRenamed ρ (behindOperands pending items) (behindOperands pending' items') := by
  induction h generalizing pending pending' with
  | nil => exact hpending
  | cons hitem _ ih =>
    cases hitem with
    | operand he => exact .cons (.operand he) (ih hpending)
    | operator symbol token =>
      have htake := forall₂_takeWhile (bindsTighterThan_renamed symbol) hpending
      have hdrop := forall₂_dropWhile (bindsTighterThan_renamed symbol) hpending
      exact List.rel_append htake (ih (.cons (.operator symbol token) hdrop))

theorem fold_carries {slots slots' : List Expr} {items items' : List Item}
    (hslots : List.Forall₂ (Expr.Renamed ρ) slots slots') (h : ItemsRenamed ρ items items') :
    Carries ρ (Expr.Renamed ρ) (fold slots items) (fold slots' items') := by
  induction h generalizing slots slots' with
  | nil =>
    have hreverse := List.forall₂_reverse_iff.mpr hslots
    rw [fold, fold]
    generalize slots.reverse = es at hreverse ⊢
    generalize slots'.reverse = es' at hreverse ⊢
    cases hreverse with
    | nil => exact carries_throw rfl
    | cons he hes =>
      cases hes with
      | nil => exact carries_pure he
      | cons hextra => exact carries_failAt hextra rfl
  | cons hitem _ ih =>
    cases hitem with
    | operand he => exact ih (.cons he hslots)
    | operator symbol token =>
      cases hslots with
      | nil => exact carries_throw rfl
      | cons hright hslots =>
        cases hslots with
        | nil => exact carries_throw rfl
        | @cons left left' _ _ hleft hslots =>
          refine carries_bind (carries_newExpr (hleft.cover hright) hleft.pos fun _ _ hn => ?_) fun _ _ he =>
            ih (.cons he hslots)
          exact ⟨.binary hn.span hleft.alike hright.alike _, hn.pos⟩

theorem binaries_carries {items items' : List Item} (h : ItemsRenamed ρ items items') :
    Carries ρ (Expr.Renamed ρ) (binaries items) (binaries items') := fold_carries .nil (behindOperands_renamed .nil h)

theorem cutAtMark_renamed {items items' : List Item} (h : ItemsRenamed ρ items items') :
    CutAlike (Item.Renamed ρ) (fun p p' => p' = renamedHeld ρ p) (cutAtMark items) (cutAtMark items') := by
  induction h with
  | nil => exact .none
  | cons hitem hrest ih =>
    cases hitem with
    | operand he => exact ih.cons (.operand he)
    | operator symbol token =>
      rw [cutAtMark, cutAtMark]
      split
      · exact .some ⟨.nil, rfl, hrest⟩
      · exact ih.cons (.operator symbol token)

theorem cutAtMatch_renamed {items items' : List Item} (depth : Nat) (h : ItemsRenamed ρ items items') :
    CutAlike (Item.Renamed ρ) (fun t t' => t' = t.renamed ρ) (cutAtMatch depth items) (cutAtMatch depth items') := by
  induction h generalizing depth with
  | nil => exact .none
  | cons hitem hrest ih =>
    cases hitem with
    | operand he => exact (ih depth).cons (.operand he)
    | operator symbol token =>
      rw [cutAtMatch, cutAtMatch]
      split
      · exact .some ⟨.nil, rfl, hrest⟩
      · exact (ih _).cons (.operator symbol token)

theorem reduce_carries {items items' : List Item} (place : Token) (h : ItemsRenamed ρ items items') :
    Carries ρ (Expr.Renamed ρ) (reduce items place) (reduce items' (place.renamed ρ)) := by
  induction hn : items.length using Nat.strongRecOn generalizing items items' place with
  | _ n ih =>
    have hmark := cutAtMark_renamed h
    rw [reduce_eq, reduce_eq, forall₂_isEmpty h]
    split
    · exact carries_fail rfl rfl
    cases hcut : cutAtMark items with
    | none =>
      rw [hcut] at hmark
      generalize cutAtMark items' = cut' at hmark ⊢
      cases hmark
      exact carries_bind ((operands_carries h).1 none []) fun _ _ hitems => binaries_carries hitems
    | some cut =>
      obtain ⟨test, ⟨symbol, mark⟩, after⟩ := cut
      have hlenMark := length_cutAtMark hcut
      rw [hcut] at hmark
      generalize cutAtMark items' = cut' at hmark ⊢
      cases hmark with
      | @some _ cut' hmark =>
        obtain ⟨test', mark', after'⟩ := cut'
        obtain ⟨htest, rfl, hafter⟩ := hmark
        dsimp only [renamedHeld] at htest hafter ⊢
        split
        · exact carries_fail rfl rfl
        have hmatch := cutAtMatch_renamed 0 hafter
        cases hcut : cutAtMatch 0 after with
        | none =>
          rw [hcut] at hmatch
          generalize cutAtMatch 0 after' = cut' at hmatch ⊢
          cases hmatch
          exact carries_fail rfl rfl
        | some cut =>
          obtain ⟨yes, colon, no⟩ := cut
          have hlenMatch := length_cutAtMatch hcut
          rw [hcut] at hmatch
          generalize cutAtMatch 0 after' = cut' at hmatch ⊢
          cases hmatch with
          | @some _ cut' hmatch =>
            obtain ⟨yes', colon', no'⟩ := cut'
            obtain ⟨hyes, rfl, hno⟩ := hmatch
            dsimp only at hyes hno ⊢
            rw [forall₂_isEmpty htest, forall₂_isEmpty hyes, forall₂_isEmpty hno]
            split
            · exact carries_fail rfl rfl
            split
            · exact carries_fail rfl rfl
            split
            · exact carries_fail rfl rfl
            refine carries_bind (ih _ (by omega) mark htest rfl) fun _ _ htest => ?_
            refine carries_bind (ih _ (by omega) colon hyes rfl) fun _ _ hyes => ?_
            refine carries_bind (ih _ (by omega) colon hno rfl) fun _ _ hno => ?_
            refine carries_newExpr (htest.cover hno) htest.pos fun _ _ hn => ?_
            exact ⟨.ternary hn.span htest.alike hyes.alike hno.alike, hn.pos⟩

end Reduction

/-! ## Expressions -/

namespace Parse

theorem tokenItem_carries (t : Token) : Carries ρ (Item.Renamed ρ) (tokenItem t) (tokenItem (t.renamed ρ)) := by
  unfold tokenItem
  rw [Token.kind_renamed]
  split
  · exact carries_bind (carries_newIdent t) fun _ _ he => carries_pure (.operand he)
  · refine carries_bind (carries_newExpr rfl rfl fun _ _ hn => ?_) fun _ _ he => carries_pure (.operand he)
    exact ⟨.literal hn.span .string t.value, hn.pos⟩
  · rw [Token.value_renamed, Token.flag_renamed, Token.text_renamed]
    cases numberKind t.value t.flag t.text with
    | error cause => exact carries_fail rfl rfl
    | ok kind =>
      refine carries_bind (carries_newExpr rfl rfl fun _ _ hn => ?_) fun _ _ he => carries_pure (.operand he)
      exact ⟨.literal hn.span kind t.value, hn.pos⟩
  · exact carries_pure (.operator _ _)
  · rw [Token.value_renamed]
    split
    · exact carries_pure (.operator _ _)
    · exact carries_fail rfl rfl
  · exact carries_fail rfl rfl

-- The parsers call each other, and so do their lemmas: each one falls by the measure of the first run.
mutual

theorem collect_carries {items items' : List Item} (trees : List TokenTree) (stop : Token)
    (hitems : ItemsRenamed ρ items items') :
    Carries ρ (ItemsRenamed ρ) (collect items trees stop)
      (collect items' (trees.map (TokenTree.renamed ρ)) (stop.renamed ρ)) := by
  match trees with
  | [] =>
    rw [List.map_nil, collect, collect]
    exact carries_pure (List.forall₂_reverse_iff.mpr hitems)
  | .leaf t :: rest =>
    rw [List.map_cons, renamed_leaf, collect.eq_def, collect.eq_def items']
    dsimp only
    rw [Token.kind_renamed]
    split
    · cases hitems with
      | nil => exact carries_fail rfl rfl
      | cons hitem hitems =>
        cases hitem with
        | operator => exact carries_fail rfl rfl
        | operand htarget =>
          match rest with
          | [] => exact carries_fail rfl rfl
          | .group opener inside closer :: more => exact carries_fail rfl rfl
          | .leaf name :: more =>
            rw [List.map_cons, renamed_leaf]
            dsimp only
            rw [Token.kind_renamed]
            split
            · refine carries_bind (carries_newExpr (htarget.cover_token name) htarget.pos fun _ _ hn => ?_) fun _ _ he => ?_
              · exact ⟨.member hn.span htarget.alike _, hn.pos⟩
              · exact collect_carries more stop (.cons (.operand he) hitems)
            · exact carries_fail rfl rfl
    · refine carries_bind (tokenItem_carries t) fun _ _ hitem => ?_
      exact collect_carries rest stop (.cons hitem hitems)
  | .group opener inside closer :: rest =>
    rw [List.map_cons, renamed_group, collect.eq_def, collect.eq_def items']
    dsimp only
    rw [Token.kind_renamed]
    split
    · cases hitems with
      | nil =>
        dsimp only
        rw [List.isEmpty_map]
        split
        · exact carries_fail rfl rfl
        · refine carries_bind (expression_carries ⟨inside, closer⟩) fun _ _ he => ?_
          exact collect_carries rest stop (.cons (.operand he) .nil)
      | cons hitem hitems =>
        cases hitem with
        | operand hcallee =>
          refine carries_bind (Q := List.Forall₂ (Argument.Alike (.renaming ρ))) ?_ fun _ _ hargs => ?_
          · rw [List.isEmpty_map]
            split
            · exact arguments_carries []
            · rw [splitAt_renamed]
              exact arguments_carries _
          · refine carries_bind (carries_newExpr (hcallee.cover_token closer) hcallee.pos fun _ _ hn => ?_) fun _ _ he => ?_
            · exact ⟨.call hn.span hcallee.alike hargs, hn.pos⟩
            · exact collect_carries rest stop (.cons (.operand he) hitems)
        | operator symbol token =>
          dsimp only
          rw [List.isEmpty_map]
          split
          · exact carries_fail rfl rfl
          · refine carries_bind (expression_carries ⟨inside, closer⟩) fun _ _ he => ?_
            exact collect_carries rest stop (.cons (.operand he) (.cons (.operator symbol token) hitems))
    · cases hitems with
      | nil => exact carries_fail rfl rfl
      | cons hitem hitems =>
        cases hitem with
        | operator => exact carries_fail rfl rfl
        | operand htarget =>
          refine carries_bind (subscript_carries inside closer htarget) fun _ _ he => ?_
          exact collect_carries rest stop (.cons (.operand he) hitems)
    · exact carries_fail rfl rfl
termination_by 4 * weightAll trees
decreasing_by
  all_goals
    subst_vars
    simp only [weightAll, weight, Stretch.weight, Stretch.weightAll]
    first
    | omega
    | rw [weightAll_splitAt]; omega

theorem subscript_carries {target target' : Expr} (inside : List TokenTree) (closer : Token)
    (htarget : target.Renamed ρ target') :
    Carries ρ (Expr.Renamed ρ) (subscript target inside closer)
      (subscript target' (inside.map (TokenTree.renamed ρ)) (closer.renamed ρ)) := by
  have hspan := htarget.cover_token closer
  have hcut := cutAtColon_renamed ρ inside 0
  rw [subscript, subscript, List.isEmpty_map]
  split
  · exact carries_fail rfl rfl
  split
  · rename_i hnone
    rw [hnone, Option.map_none] at hcut
    split
    · refine carries_bind (expression_carries ⟨inside, closer⟩) fun _ _ hindex => ?_
      refine carries_newExpr hspan htarget.pos fun _ _ hn => ?_
      exact ⟨.index hn.span htarget.alike hindex.alike, hn.pos⟩
    · rename_i hsome
      rw [hsome] at hcut
      cases hcut
  · rename_i before colon after hsome
    have hlight := weightAll_cutAtColon hsome
    rw [hsome, Option.map_some] at hcut
    split
    · rename_i hnone
      rw [hnone] at hcut
      cases hcut
    · rename_i hsome'
      rw [hsome'] at hcut
      cases hcut
      refine carries_bind (bound_carries ⟨before, colon⟩) fun _ _ hstart => ?_
      refine carries_bind (bound_carries ⟨after, closer⟩) fun _ _ hstop => ?_
      refine carries_newExpr hspan htarget.pos fun _ _ hn => ?_
      exact ⟨.slice hn.span htarget.alike hstart hstop, hn.pos⟩
termination_by 4 * weightAll inside + 3
decreasing_by
  all_goals
    simp only [Stretch.weight]
    omega

theorem bound_carries (r : Stretch) :
    Carries ρ (Option.Rel (Expr.Alike (.renaming ρ))) (bound r) (bound (r.renamed ρ)) := by
  rw [bound, bound, Stretch.isEmpty_renamed]
  split
  · exact carries_pure .none
  · exact carries_some (expression_carries r)
termination_by 4 * r.weight + 2

theorem arguments_carries (rs : List Stretch) :
    Carries ρ (List.Forall₂ (Argument.Alike (.renaming ρ))) (arguments rs) (arguments (rs.map (Stretch.renamed ρ))) := by
  match rs with
  | [] =>
    rw [List.map_nil, arguments]
    exact carries_pure .nil
  | r :: rs =>
    have hcut : cutAt .equals (r.renamed ρ).trees = (cutAt .equals r.trees).map (Cut.renamed ρ) :=
      cutAt_renamed ρ r.trees .equals
    rw [List.map_cons, arguments, arguments, Stretch.isEmpty_renamed, hcut]
    split
    · exact carries_fail rfl rfl
    cases cutAt .equals r.trees with
    | some => exact carries_fail rfl rfl
    | none =>
      refine carries_bind (expression_carries r) fun _ _ hvalue => ?_
      refine carries_bind (arguments_carries rs) fun _ _ hargs => carries_pure (.cons ?_ hargs)
      exact Argument.alike_mk (r.span_renamed ρ) .none (.some hvalue.alike)
termination_by 4 * Stretch.weightAll rs
decreasing_by
  all_goals
    simp only [Stretch.weightAll]
    omega

theorem expression_carries (r : Stretch) : Carries ρ (Expr.Renamed ρ) (expression r) (expression (r.renamed ρ)) := by
  rw [expression, expression, Stretch.isEmpty_renamed]
  split
  · exact carries_fail rfl rfl
  · refine carries_bind (collect_carries r.trees r.stop .nil) fun _ _ hitems => ?_
    rw [Stretch.first_renamed]
    exact Reduction.reduce_carries r.first hitems
termination_by 4 * r.weight + 1
decreasing_by simp only [Stretch.weight]; omega

end

/-! ## Declarations and assignments -/

/-- The trees of a statement from its first word on. -/
theorem span_word_renamed (word : Token) (r : Stretch) :
    Stretch.span ⟨.leaf (word.renamed ρ) :: (r.renamed ρ).trees, (r.renamed ρ).stop⟩ =
      (Stretch.span ⟨.leaf word :: r.trees, r.stop⟩).renamed ρ :=
  Stretch.span_renamed ρ ⟨.leaf word :: r.trees, r.stop⟩

theorem pos_first_renamed (r : Stretch) : (r.renamed ρ).first.pos = r.first.pos := by
  rw [Stretch.first_renamed, Token.pos_renamed]

theorem exprStatement_carries (r : Stretch) :
    Carries ρ (Stmt.Renamed ρ) (exprStatement r) (exprStatement (r.renamed ρ)) := by
  refine carries_bind (expression_carries r) fun _ _ he => ?_
  exact carries_newStmt (r.span_renamed ρ) (pos_first_renamed r) fun _ _ hn => ⟨.expr hn.span he.alike, hn.pos⟩

theorem declaredName_renamed (first : Token) (rest : List TokenTree) :
    declaredName (first.renamed ρ) (rest.map (TokenTree.renamed ρ)) =
      ((declaredName first rest).1.map (Token.renamed ρ), (declaredName first rest).2.1.renamed ρ,
        (declaredName first rest).2.2.map (TokenTree.renamed ρ)) := by
  match rest with
  | [] => rfl
  | .group .. :: _ => rfl
  | .leaf second :: more =>
    by_cases hkind : second.kind = .identifier <;> simp [declaredName, hkind]

theorem declaredValue_carries (constant : Bool) (name : Token) (r : Stretch) :
    Carries ρ (Option.Rel (Expr.Alike (.renaming ρ))) (declaredValue constant name r)
      (declaredValue constant (name.renamed ρ) (r.renamed ρ)) := by
  obtain ⟨trees, stop⟩ := r
  unfold declaredValue
  cases trees with
  | nil =>
    simp only [Stretch.renamed, List.map_nil]
    split
    · exact carries_fail rfl rfl
    · exact carries_pure .none
  | cons t after =>
    simp only [Stretch.renamed, List.map_cons]
    rw [isLeaf_renamed]
    split
    · exact carries_some (expression_carries ⟨after, stop⟩)
    · rw [TokenTree.first_renamed]
      exact carries_fail rfl rfl

theorem declaration_carries (word : Token) (r : Stretch) :
    Carries ρ (Stmt.Renamed ρ) (declaration word r) (declaration (word.renamed ρ) (r.renamed ρ)) := by
  have hspan := span_word_renamed (ρ := ρ) word r
  obtain ⟨trees, stop⟩ := r
  unfold declaration
  match trees with
  | [] => exact carries_fail rfl rfl
  | .group opener inside closer :: rest => exact carries_fail rfl rfl
  | .leaf first :: rest =>
    simp only [Stretch.renamed, List.map_cons, renamed_leaf] at hspan ⊢
    rw [Token.kind_renamed, Token.value_renamed]
    split
    · rw [declaredName_renamed]
      dsimp only
      generalize declaredName first rest = parts
      obtain ⟨type, name, after⟩ := parts
      refine carries_bind (declaredValue_carries _ name ⟨after, stop⟩) fun _ _ hvalue => ?_
      refine carries_bind (carries_newIdent name) fun _ _ htarget => ?_
      cases type with
      | none => exact carries_newStmt hspan rfl fun _ _ hn => ⟨.assign hn.span htarget.alike hvalue _ _, hn.pos⟩
      | some type =>
        refine carries_bind (carries_newIdent type) fun _ _ htype => ?_
        refine carries_newStmt hspan rfl fun _ _ hn => ?_
        exact ⟨.typed hn.span htype.alike htarget.alike hvalue _, hn.pos⟩
    · exact carries_fail rfl rfl

theorem assignTo_carries (r : Stretch) (before : List TokenTree) (equals : Token) (after : List TokenTree) :
    Carries ρ (Stmt.Renamed ρ) (assignment.assignTo r before equals after)
      (assignment.assignTo (r.renamed ρ) (before.map (TokenTree.renamed ρ)) (equals.renamed ρ)
        (after.map (TokenTree.renamed ρ))) := by
  unfold assignment.assignTo
  refine carries_bind (expression_carries ⟨before, equals⟩) fun _ _ htarget => ?_
  rw [isAssignable_alike htarget.alike]
  split
  · refine carries_bind (expression_carries ⟨after, r.stop⟩) fun _ _ hvalue => ?_
    refine carries_newStmt (r.span_renamed ρ) (pos_first_renamed r) fun _ _ hn => ?_
    exact ⟨.assign hn.span htarget.alike (.some hvalue.alike) _ _, hn.pos⟩
  · exact carries_failAt htarget (congrArg Cause.cannotAssign htarget.kindName)

theorem assignment_carries (r : Stretch) :
    Carries ρ (Stmt.Renamed ρ) (assignment r) (assignment (r.renamed ρ)) := by
  have hspan := r.span_renamed ρ
  have hpos := pos_first_renamed (ρ := ρ) r
  have hcut : cutAt .equals (r.renamed ρ).trees = (cutAt .equals r.trees).map (Cut.renamed ρ) :=
    cutAt_renamed ρ r.trees .equals
  unfold assignment
  rw [hcut]
  cases cutAt .equals r.trees with
  | none =>
    -- without an equals sign there must be two names
    obtain ⟨trees, stop⟩ := r
    match trees with
    | [] => exact carries_fail rfl rfl
    | .group .. :: [] => exact carries_fail rfl rfl
    | .group .. :: .leaf _ :: _ => exact carries_fail rfl rfl
    | .group .. :: .group .. :: _ => exact carries_fail rfl rfl
    | .leaf _ :: [] => exact carries_fail rfl rfl
    | .leaf _ :: .group .. :: _ => exact carries_fail rfl rfl
    | .leaf _ :: .leaf _ :: _ :: _ => exact carries_fail rfl rfl
    | [.leaf type, .leaf name] =>
      simp only [Stretch.renamed, List.map_cons, List.map_nil, renamed_leaf, Option.map_none] at hspan hpos ⊢
      rw [Token.kind_renamed]
      split
      · refine carries_bind (carries_newIdent type) fun _ _ htype => ?_
        refine carries_bind (carries_newIdent name) fun _ _ htarget => ?_
        refine carries_newStmt hspan hpos fun _ _ hn => ?_
        exact ⟨.typed hn.span htype.alike htarget.alike .none _, hn.pos⟩
      · exact carries_fail rfl rfl
  | some cut =>
    obtain ⟨before, equals, after⟩ := cut
    have hassign := assignTo_carries (ρ := ρ) r before equals after
    -- only one name, or two, before the equals sign are not an expression to assign to
    rcases before with _ | ⟨first | _, _ | ⟨second | _, _ | _⟩⟩
    · exact hassign
    · refine carries_bind (carries_newIdent first) fun _ _ htarget => ?_
      refine carries_bind (expression_carries ⟨after, r.stop⟩) fun _ _ hvalue => ?_
      refine carries_newStmt hspan hpos fun _ _ hn => ?_
      exact ⟨.assign hn.span htarget.alike (.some hvalue.alike) _ _, hn.pos⟩
    · simp only [Option.map_some, Cut.renamed, List.map_cons, List.map_nil, renamed_leaf] at hassign ⊢
      rw [Token.kind_renamed]
      split
      · refine carries_bind (carries_newIdent second) fun _ _ htarget => ?_
        refine carries_bind (expression_carries ⟨after, r.stop⟩) fun _ _ hvalue => ?_
        refine carries_bind (carries_newIdent first) fun _ _ htype => ?_
        refine carries_newStmt hspan hpos fun _ _ hn => ?_
        exact ⟨.typed hn.span htype.alike htarget.alike (.some hvalue.alike) _, hn.pos⟩
      · exact hassign
    all_goals exact hassign

theorem ambiguity_renamed (a e : SyntaxError) :
    ambiguity (a.renamed ρ) (e.renamed ρ) = (ambiguity a e).renamed ρ := by
  have hstart : (e.renamed ρ).span.start < (a.renamed ρ).span.start ↔ e.span.start < a.span.start := Iff.rfl
  unfold ambiguity
  simp only [hstart]
  split <;> rfl

theorem nameStatement_carries (r : Stretch) :
    Carries ρ (Stmt.Renamed ρ) (nameStatement r) (nameStatement (r.renamed ρ)) := by
  unfold nameStatement
  refine carries_bind (carries_attempt (assignment_carries r)) fun _ _ houtcome => ?_
  cases houtcome with
  | ok hs => exact carries_pure hs
  | error fault =>
    cases fault with
    | unsupported u => exact carries_throw rfl
    | internal m => exact carries_throw rfl
    | other m => exact carries_throw rfl
    | malformed a =>
      refine carries_bind (carries_attempt (exprStatement_carries r)) fun _ _ houtcome => ?_
      cases houtcome with
      | ok hs => exact carries_pure hs
      | error fault =>
        cases fault with
        | unsupported u => exact carries_throw rfl
        | internal m => exact carries_throw rfl
        | other m => exact carries_throw rfl
        | malformed e => exact carries_throw (congrArg Fault.malformed (ambiguity_renamed a e))

/-- A statement that may be left out. -/
theorem carries_someStmt {p q : Parse Stmt} (h : Carries ρ (Stmt.Renamed ρ) p q) :
    Carries ρ (Option.Rel (Stmt.Alike (.renaming ρ))) (do return some (← p)) (do return some (← q)) :=
  carries_bind h fun _ _ hs => carries_pure (.some hs.alike)

theorem simpleStatement_carries (r : Stretch) :
    Carries ρ (Option.Rel (Stmt.Alike (.renaming ρ))) (simpleStatement r) (simpleStatement (r.renamed ρ)) := by
  obtain ⟨trees, stop⟩ := r
  unfold simpleStatement
  match trees with
  | [] => exact carries_pure .none
  | .group opener inside closer :: rest => exact carries_someStmt (exprStatement_carries ⟨_, stop⟩)
  | .leaf t :: rest =>
    simp only [Stretch.renamed, List.map_cons, renamed_leaf]
    rw [Token.isKeyword_renamed, Token.isKeyword_renamed, Token.kind_renamed]
    split
    · exact carries_someStmt (declaration_carries t ⟨rest, stop⟩)
    split
    · exact carries_someStmt (nameStatement_carries ⟨.leaf t :: rest, stop⟩)
    · exact carries_someStmt (exprStatement_carries ⟨.leaf t :: rest, stop⟩)

theorem returnStatement_carries (word : Token) (r : Stretch) :
    Carries ρ (Stmt.Renamed ρ) (returnStatement word r) (returnStatement (word.renamed ρ) (r.renamed ρ)) := by
  unfold returnStatement
  refine carries_bind carries_scope fun scope scope' hscope => ?_
  subst hscope
  split
  · exact carries_fail rfl rfl
  · refine carries_bind (bound_carries r) fun _ _ hvalue => ?_
    exact carries_newStmt (span_word_renamed word r) rfl fun _ _ hn => ⟨.ret hn.span hvalue, hn.pos⟩

theorem loopStatement_carries (word : Token) (r : Stretch) :
    Carries ρ (Stmt.Renamed ρ) (loopStatement word r) (loopStatement (word.renamed ρ) (r.renamed ρ)) := by
  unfold loopStatement
  refine carries_bind carries_scope fun scope scope' hscope => ?_
  subst hscope
  rw [Stretch.isEmpty_renamed, Token.value_renamed, Stretch.first_renamed]
  split
  · exact carries_fail rfl rfl
  split
  · exact carries_fail rfl rfl
  · refine carries_newStmt rfl rfl fun _ _ hn => ?_
    split
    · exact ⟨⟨rfl, .cons hn.span .nil⟩, hn.pos⟩
    · exact ⟨⟨rfl, .cons hn.span .nil⟩, hn.pos⟩

/-! ## Headers -/

theorem expectEnd_carries (r : Stretch) : Carries ρ (fun _ _ => True) (expectEnd r) (expectEnd (r.renamed ρ)) := by
  unfold expectEnd
  rw [Stretch.isEmpty_renamed, Stretch.first_renamed]
  split
  · exact carries_pure trivial
  · exact carries_fail rfl rfl

theorem takeWhile_condition_renamed (ts : List TokenTree) :
    (ts.map (TokenTree.renamed ρ)).takeWhile (fun t => !endsCondition t) =
      (ts.takeWhile fun t => !endsCondition t).map (TokenTree.renamed ρ) := by
  simp only [List.takeWhile_map, Function.comp_def, endsCondition_renamed]

theorem dropWhile_condition_renamed (ts : List TokenTree) :
    (ts.map (TokenTree.renamed ρ)).dropWhile (fun t => !endsCondition t) =
      (ts.dropWhile fun t => !endsCondition t).map (TokenTree.renamed ρ) := by
  simp only [List.dropWhile_map, Function.comp_def, endsCondition_renamed]

theorem conditionPart_renamed (inside : List TokenTree) (closer : Token) :
    conditionPart (inside.map (TokenTree.renamed ρ)) (closer.renamed ρ) = (conditionPart inside closer).renamed ρ := by
  rw [conditionPart, takeWhile_condition_renamed, dropWhile_condition_renamed, head_first_renamed]
  rfl

theorem condition_carries (word : Token) (r : Stretch) :
    Carries ρ (Expr.Renamed ρ) (condition word r) (condition (word.renamed ρ) (r.renamed ρ)) := by
  obtain ⟨trees, stop⟩ := r
  unfold condition
  match trees with
  | [] => exact carries_fail rfl rfl
  | .leaf t :: rest => exact carries_fail rfl rfl
  | .group opener inside closer :: rest =>
    simp only [Stretch.renamed, List.map_cons, renamed_group]
    rw [Token.kind_renamed, conditionPart_renamed, dropWhile_condition_renamed]
    split
    · refine carries_bind (expression_carries _) fun _ _ htest => ?_
      cases inside.dropWhile fun t => !endsCondition t with
      | nil => exact carries_pure htest
      | cons t left =>
        rw [List.map_cons]
        dsimp only
        rw [TokenTree.first_renamed]
        exact carries_fail rfl rfl
    · exact carries_fail rfl rfl

theorem forHeader_carries (word : Token) (r : Stretch) :
    Carries ρ (HeaderAlike (.renaming ρ)) (forHeader word r) (forHeader (word.renamed ρ) (r.renamed ρ)) := by
  obtain ⟨trees, stop⟩ := r
  unfold forHeader
  match trees with
  | [] => exact carries_fail rfl rfl
  | .leaf t :: rest => exact carries_fail rfl rfl
  | .group opener inside closer :: rest =>
    simp only [Stretch.renamed, List.map_cons, renamed_group]
    rw [Token.kind_renamed, splitAt_renamed]
    split
    · rcases splitAt .semicolon closer inside with _ | ⟨first, _ | ⟨second, _ | ⟨third, _ | _⟩⟩⟩
      · exact carries_fail rfl rfl
      · exact carries_fail rfl rfl
      · exact carries_fail rfl rfl
      · refine carries_bind (simpleStatement_carries first) fun _ _ hinit => ?_
        refine carries_bind (bound_carries second) fun _ _ htest => ?_
        refine carries_bind (simpleStatement_carries third) fun _ _ hstep => ?_
        exact carries_pure ⟨hinit, htest, hstep⟩
      · simp only [List.map_cons, List.length_cons, List.length_map]
        exact carries_fail rfl rfl
    · exact carries_fail rfl rfl

/-- A type, if there is one, and a name. -/
def NameRenamed (ρ : Equiv.Perm UInt32) (x x' : Option Expr × Token) : Prop :=
  Option.Rel (Expr.Alike (.renaming ρ)) x.1 x'.1 ∧ x'.2 = x.2.renamed ρ

theorem parameterName_carries (place : Token) (head : List TokenTree) :
    Carries ρ (NameRenamed ρ) (parameterName place head)
      (parameterName (place.renamed ρ) (head.map (TokenTree.renamed ρ))) := by
  unfold parameterName
  match head with
  | [] => exact carries_fail rfl rfl
  | .group .. :: _ => exact carries_fail rfl rfl
  | .leaf _ :: .group .. :: _ => exact carries_fail rfl rfl
  | .leaf _ :: .leaf _ :: _ :: _ => exact carries_fail rfl rfl
  | [.leaf name] =>
    simp only [List.map_cons, List.map_nil, renamed_leaf]
    rw [Token.kind_renamed]
    split
    · exact carries_pure ⟨.none, rfl⟩
    · exact carries_fail rfl rfl
  | [.leaf type, .leaf name] =>
    simp only [List.map_cons, List.map_nil, renamed_leaf]
    rw [Token.kind_renamed, Token.kind_renamed]
    split
    · exact carries_bind (carries_newIdent type) fun _ _ htype => carries_pure ⟨.some htype.alike, rfl⟩
    · exact carries_fail rfl rfl

theorem parameterParts_renamed (r : Stretch) :
    parameterParts (r.renamed ρ) =
      ((parameterParts r).1.map (TokenTree.renamed ρ), (parameterParts r).2.map (Stretch.renamed ρ)) := by
  have hcut : cutAt .equals (r.renamed ρ).trees = (cutAt .equals r.trees).map (Cut.renamed ρ) :=
    cutAt_renamed ρ r.trees .equals
  unfold parameterParts
  rw [hcut]
  cases cutAt .equals r.trees <;> rfl

theorem optional_carries (part : Option Stretch) :
    Carries ρ (Option.Rel (Expr.Alike (.renaming ρ))) (optional part) (optional (part.map (Stretch.renamed ρ))) := by
  cases part with
  | none => exact carries_pure .none
  | some r => exact carries_some (expression_carries r)

theorem parameters_carries (seen : List Bytes) (rs : List Stretch) :
    Carries ρ (List.Forall₂ (Argument.Alike (.renaming ρ))) (parameters seen rs)
      (parameters seen (rs.map (Stretch.renamed ρ))) := by
  induction rs generalizing seen with
  | nil => exact carries_pure .nil
  | cons r rs ih =>
    rw [List.map_cons, parameters_cons, parameters_cons, Stretch.isEmpty_renamed, parameterParts_renamed]
    split
    · exact carries_fail rfl rfl
    rw [Stretch.first_renamed]
    refine carries_bind (parameterName_carries _ _) ?_
    rintro ⟨type, name⟩ ⟨type', _⟩ ⟨htype, rfl⟩
    dsimp only at htype ⊢
    rw [Token.value_renamed]
    split
    · exact carries_fail rfl rfl
    · refine carries_bind (optional_carries _) fun _ _ hvalue => ?_
      refine carries_bind (ih _) fun _ _ hparams => carries_pure (.cons ?_ hparams)
      exact Argument.alike_mk (r.span_renamed ρ) htype hvalue

theorem commaList_renamed (inside : List TokenTree) (closer : Token) :
    commaList (inside.map (TokenTree.renamed ρ)) (closer.renamed ρ) = (commaList inside closer).map (Stretch.renamed ρ) := by
  unfold commaList
  rw [List.isEmpty_map, splitAt_renamed]
  split <;> rfl

/-- A name and parameters. -/
def SignatureRenamed (ρ : Equiv.Perm UInt32) (x x' : Token × List (Argument Expr)) : Prop :=
  x'.1 = x.1.renamed ρ ∧ List.Forall₂ (Argument.Alike (.renaming ρ)) x.2 x'.2

theorem defHeader_carries (r : Stretch) :
    Carries ρ (SignatureRenamed ρ) (defHeader r) (defHeader (r.renamed ρ)) := by
  obtain ⟨trees, stop⟩ := r
  unfold defHeader
  match trees with
  | [] => exact carries_fail rfl rfl
  | .group opener inside closer :: rest => exact carries_fail rfl rfl
  | .leaf name :: rest =>
    simp only [Stretch.renamed, List.map_cons, renamed_leaf]
    rw [Token.kind_renamed]
    split
    · match rest with
      | [] => exact carries_fail rfl rfl
      | .leaf t :: more => exact carries_fail rfl rfl
      | .group opener inside closer :: more =>
        simp only [List.map_cons, renamed_group]
        rw [Token.kind_renamed, commaList_renamed]
        split
        · refine carries_bind (parameters_carries [] _) fun _ _ hparams => ?_
          exact carries_pure ⟨rfl, hparams⟩
        · exact carries_fail rfl rfl
    · exact carries_fail rfl rfl

theorem expressions_carries (rs : List Stretch) :
    Carries ρ (List.Forall₂ (Expr.Alike (.renaming ρ))) (expressions rs) (expressions (rs.map (Stretch.renamed ρ))) := by
  induction rs with
  | nil => exact carries_pure .nil
  | cons r rs ih =>
    refine carries_bind (expression_carries r) fun _ _ he => ?_
    exact carries_bind ih fun _ _ hes => carries_pure (.cons he.alike hes)

theorem className_carries (r : Stretch) :
    Carries ρ (fun t t' => t' = t.renamed ρ) (className r) (className (r.renamed ρ)) := by
  obtain ⟨trees, stop⟩ := r
  unfold className
  match trees with
  | [] => exact carries_fail rfl rfl
  | .group opener inside closer :: rest => exact carries_fail rfl rfl
  | .leaf name :: rest =>
    simp only [Stretch.renamed, List.map_cons, renamed_leaf]
    rw [Token.kind_renamed]
    split
    · exact carries_pure rfl
    · exact carries_fail rfl rfl

theorem classBases_carries (r : Stretch) :
    Carries ρ (List.Forall₂ (Expr.Alike (.renaming ρ))) (classBases r) (classBases (r.renamed ρ)) := by
  obtain ⟨trees, stop⟩ := r
  unfold classBases
  match trees with
  | [] => exact carries_pure .nil
  | .leaf t :: rest => exact carries_pure .nil
  | .group opener inside closer :: rest =>
    simp only [Stretch.renamed, List.map_cons, renamed_group]
    rw [Token.kind_renamed, commaList_renamed]
    split
    · exact expressions_carries _
    · exact carries_pure .nil

theorem afterBases_renamed (r : Stretch) : afterBases (r.renamed ρ) = (afterBases r).renamed ρ := by
  obtain ⟨trees, stop⟩ := r
  match trees with
  | [] => rfl
  | .leaf t :: rest => rfl
  | .group opener inside closer :: rest =>
    by_cases hkind : opener.kind = .leftParen <;> simp [afterBases, Stretch.renamed, Stretch.tail, hkind]

theorem checkMembers_carries {ss ss' : List Stmt} (h : List.Forall₂ (Stmt.Renamed ρ) ss ss') :
    Carries ρ (fun _ _ => True) (checkMembers ss) (checkMembers ss') := by
  induction h with
  | nil => exact carries_pure trivial
  | cons hs _ ih =>
    rw [checkMembers, checkMembers, isClassMember_alike hs.alike]
    split
    · exact ih
    · rw [hs.kindName, hs.span, hs.pos]
      exact carries_throw rfl

/-! ## Statements with a block -/

theorem elseIf_renamed (r : Stretch) :
    elseIf? (r.renamed ρ) = (elseIf? r).map fun x => (x.1.renamed ρ, x.2.renamed ρ) := by
  obtain ⟨trees, stop⟩ := r
  match trees with
  | [] => rfl
  | .group opener inside closer :: rest => rfl
  | .leaf t :: rest =>
    by_cases hword : t.isKeyword "if" = true <;> simp [elseIf?, Stretch.renamed, hword]

theorem startsWithElse_renamed (r : Stretch) : startsWithElse (r.renamed ρ) = startsWithElse r :=
  head_isKeyword_renamed ρ r.trees "else"

/-- The statements of a block, without their own positions. -/
theorem alikeAll_of_renamed {ss ss' : List Stmt} (h : List.Forall₂ (Stmt.Renamed ρ) ss ss') :
    List.Forall₂ (Stmt.Alike (.renaming ρ)) ss ss' := h.imp fun _ _ hs => hs.alike

theorem sequence_carries (cs : List Clause)
    (hstatement : ∀ c ∈ cs, Carries ρ (Stmt.Renamed ρ) (statement c) (statement (c.renamed ρ))) :
    Carries ρ (List.Forall₂ (Stmt.Renamed ρ)) (sequence cs) (sequence (cs.map (Clause.renamed ρ))) := by
  induction cs with
  | nil =>
    rw [List.map_nil, sequence]
    exact carries_pure .nil
  | cons c cs ih =>
    rw [List.forall_mem_cons] at hstatement
    rw [List.map_cons, sequence, sequence]
    refine carries_bind hstatement.1 fun _ _ hs => ?_
    exact carries_bind (ih hstatement.2) fun _ _ hss => carries_pure (.cons hs hss)

-- A block is read by its statements, a statement by its blocks, and a conditional by the one behind its `else`.
mutual

theorem statement_carries (c : Clause) : Carries ρ (Stmt.Renamed ρ) (statement c) (statement (c.renamed ρ)) := by
  have hspan : (c.renamed ρ).span = c.span.renamed ρ := Stretch.span_renamed ρ c.stretch
  match c with
  | ⟨.group opener inside closer, tail, stop⟩ =>
    rw [statement, statement]
    exact carries_fail rfl rfl
  | ⟨.leaf t, tail, stop⟩ =>
    have hbody : Carries ρ (List.Forall₂ (Stmt.Renamed ρ)) _ _ := body_carries (Stretch.tail ⟨tail, stop⟩)
    have hsecond : Carries ρ (List.Forall₂ (Stmt.Renamed ρ)) _ _ := body_carries (Stretch.tail (Stretch.tail ⟨tail, stop⟩))
    have hmembers : Carries ρ (List.Forall₂ (Stmt.Renamed ρ)) _ _ := body_carries (afterBases (Stretch.tail ⟨tail, stop⟩))
    have hend := expectEnd_carries (ρ := ρ) (Stretch.tail (Stretch.tail ⟨tail, stop⟩))
    have hthird := expectEnd_carries (ρ := ρ) (Stretch.tail (Stretch.tail (Stretch.tail ⟨tail, stop⟩)))
    have hmembersEnd := expectEnd_carries (ρ := ρ) (Stretch.tail (afterBases (Stretch.tail ⟨tail, stop⟩)))
    have hbases := classBases_carries (ρ := ρ) (Stretch.tail ⟨tail, stop⟩)
    simp only [← Stretch.tail_renamed, ← afterBases_renamed] at hbody hsecond hmembers hend hthird hmembersEnd hbases
    show Carries ρ _ _ (statement ⟨.leaf (t.renamed ρ), tail.map (TokenTree.renamed ρ), stop.renamed ρ⟩)
    rw [statement, statement]
    dsimp only
    rw [Token.kind_renamed, Token.value_renamed]
    split
    · exact nameStatement_carries ⟨.leaf t :: tail, stop⟩
    · split
      · exact declaration_carries t ⟨tail, stop⟩
      split
      · exact conditional_carries t ⟨tail, stop⟩
      split
      · refine carries_bind (forHeader_carries t ⟨tail, stop⟩) ?_
        rintro ⟨init, test, step⟩ ⟨init', test', step'⟩ ⟨hinit, htest, hstep⟩
        refine carries_bind carries_scope fun scope scope' hscope => ?_
        subst hscope
        refine carries_bind (carries_within _ hbody) fun _ _ hbody => carries_bind hend fun _ _ _ => ?_
        refine carries_newStmt hspan rfl fun _ _ hn => ?_
        exact ⟨.forLoop hn.span hinit htest hstep (alikeAll_of_renamed hbody), hn.pos⟩
      split
      · refine carries_bind (condition_carries t ⟨tail, stop⟩) fun _ _ htest => ?_
        refine carries_bind carries_scope fun scope scope' hscope => ?_
        subst hscope
        refine carries_bind (carries_within _ hbody) fun _ _ hbody => carries_bind hend fun _ _ _ => ?_
        refine carries_newStmt hspan rfl fun _ _ hn => ?_
        exact ⟨.whileLoop hn.span htest.alike (alikeAll_of_renamed hbody), hn.pos⟩
      split
      · refine carries_bind (defHeader_carries ⟨tail, stop⟩) ?_
        rintro ⟨name, params⟩ ⟨_, params'⟩ ⟨rfl, hparams⟩
        refine carries_bind carries_scope fun scope scope' hscope => ?_
        subst hscope
        refine carries_bind (carries_within _ hsecond) fun _ _ hbody => carries_bind hthird fun _ _ _ => ?_
        refine carries_newStmt hspan rfl fun _ _ hn => ?_
        exact ⟨.define hn.span name.value hparams (alikeAll_of_renamed hbody), hn.pos⟩
      split
      · refine carries_bind (className_carries ⟨tail, stop⟩) ?_
        rintro name _ rfl
        refine carries_bind hbases fun _ _ hbases => carries_bind (carries_within _ hmembers) fun _ _ hmembers => ?_
        refine carries_bind hmembersEnd fun _ _ _ => carries_bind (checkMembers_carries hmembers) fun _ _ _ => ?_
        refine carries_newStmt hspan rfl fun _ _ hn => ?_
        exact ⟨.defineClass hn.span name.value hbases (alikeAll_of_renamed hmembers), hn.pos⟩
      split
      · exact returnStatement_carries t ⟨tail, stop⟩
      split
      · exact loopStatement_carries t ⟨tail, stop⟩
      · exact carries_fail rfl rfl
    · exact carries_fail rfl rfl
termination_by 4 * c.weight
decreasing_by
  all_goals
    have := Stretch.weight_tail_le ⟨tail, stop⟩
    have := Stretch.weight_tail_le (Stretch.tail ⟨tail, stop⟩)
    have := weight_afterBases_le (Stretch.tail ⟨tail, stop⟩)
    simp only [Clause.weight, weight]
    simp only [Stretch.weight] at *
    omega

theorem conditional_carries (word : Token) (r : Stretch) :
    Carries ρ (Stmt.Renamed ρ) (conditional word r) (conditional (word.renamed ρ) (r.renamed ρ)) := by
  have hspan := span_word_renamed (ρ := ρ) word r
  have hnested := elseIf_renamed (ρ := ρ) r.tail.tail.tail
  simp only [← Stretch.tail_renamed] at hnested
  rw [conditional, conditional]
  simp only [Stretch.tail_renamed, startsWithElse_renamed]
  refine carries_bind (condition_carries word r) fun _ _ htest => ?_
  refine carries_bind (body_carries r.tail) fun _ _ hyes => ?_
  split
  · split
    · rename_i nested rest hsome
      have hlight := weight_elseIf hsome
      rw [hsome, Option.map_some] at hnested
      split
      · rename_i hsome'
        rw [hsome'] at hnested
        cases hnested
        refine carries_bind (conditional_carries nested rest) fun _ _ hno => ?_
        refine carries_newStmt hspan rfl fun _ _ hn => ?_
        exact ⟨.conditional hn.span htest.alike (alikeAll_of_renamed hyes) (.cons hno.alike .nil), hn.pos⟩
      · rename_i hnone
        rw [hnone] at hnested
        cases hnested
    · rename_i hnone
      rw [hnone, Option.map_none] at hnested
      split
      · rename_i hsome
        rw [hsome] at hnested
        cases hnested
      · refine carries_bind (body_carries r.tail.tail.tail) fun _ _ hno => ?_
        refine carries_bind (expectEnd_carries r.tail.tail.tail.tail) fun _ _ _ => ?_
        refine carries_newStmt hspan rfl fun _ _ hn => ?_
        exact ⟨.conditional hn.span htest.alike (alikeAll_of_renamed hyes) (alikeAll_of_renamed hno), hn.pos⟩
  · refine carries_bind (expectEnd_carries r.tail.tail) fun _ _ _ => ?_
    refine carries_newStmt hspan rfl fun _ _ hn => ?_
    exact ⟨.conditional hn.span htest.alike (alikeAll_of_renamed hyes) .nil, hn.pos⟩
termination_by 4 * r.weight + 2
decreasing_by
  all_goals
    have := r.weight_tail_le
    have := r.tail.weight_tail_le
    have := r.tail.tail.weight_tail_le
    omega

theorem body_carries (r : Stretch) :
    Carries ρ (List.Forall₂ (Stmt.Renamed ρ)) (body r) (body (r.renamed ρ)) := by
  match r with
  | ⟨[], stop⟩ =>
    rw [body, body]
    exact carries_fail rfl rfl
  | ⟨.leaf t :: rest, stop⟩ =>
    rw [body, body]
    exact carries_fail rfl rfl
  | ⟨.group opener inside closer :: rest, stop⟩ =>
    simp only [Stretch.renamed, List.map_cons, renamed_group]
    rw [body, body]
    dsimp only
    rw [Token.kind_renamed, statements_renamed]
    split
    · have hlight := weightAll_statements closer inside
      exact sequence_carries (statements closer inside) fun c hc => statement_carries c
    · exact carries_fail rfl rfl
termination_by 4 * r.weight + 1
decreasing_by
  have := Clause.weight_le_of_mem hc
  simp only [Stretch.weight, weightAll, weight]
  omega

end

end Parse

/-! ## Programs -/

namespace SourceFile

variable {f f' : SourceFile}

theorem parseStatements_carries (hid : f'.id = ρ f.id) (hcontent : f'.content = f.content) (tokens : List Token) :
    Parse.Carries ρ (List.Forall₂ (Stmt.Renamed ρ)) (f.parseStatements tokens)
      (f'.parseStatements (tokens.map (Token.renamed ρ))) := by
  unfold parseStatements
  rw [significant_renamed, nest_renamed, endToken_renamed hid hcontent]
  generalize nest (significant tokens) = nested
  obtain ⟨trees, fault⟩ := nested
  cases fault with
  | none =>
    dsimp only [Option.map_none]
    rw [statements_renamed]
    exact Parse.sequence_carries _ fun c _ => Parse.statement_carries c
  | some e =>
    have hclauses := splitStatements_renamed ρ trees f.endToken []
    rw [List.map_nil] at hclauses
    dsimp only [Option.map_some]
    rw [hclauses]
    refine Parse.carries_bind (Parse.sequence_carries _ fun c _ => Parse.statement_carries c) fun _ _ _ => ?_
    exact Parse.carries_throw rfl

/-- Two files of one text are read as the same statements, or have the same error, at places of their own. -/
theorem parse_carried (hid : f'.id = ρ f.id) (hcontent : f'.content = f.content) :
    Carried ρ (fun p p' => List.Forall₂ (Stmt.Alike (.renaming ρ)) p.statements p'.statements) f.parse f'.parse := by
  rw [parse, parse, tokenize_renamed hid hcontent]
  cases f.tokenize with
  | error e => exact .error (.malformed e)
  | ok tokens =>
    obtain ⟨hcarried, -⟩ := parseStatements_carries hid hcontent tokens {} {} rfl
    dsimp only
    unfold parseTokens
    generalize f.parseStatements tokens {} = run at hcarried ⊢
    generalize f'.parseStatements (tokens.map (Token.renamed ρ)) {} = run' at hcarried ⊢
    obtain ⟨result, state⟩ := run
    obtain ⟨result', state'⟩ := run'
    cases hcarried with
    | ok hss => exact .ok (Parse.alikeAll_of_renamed hss)
    | error fault => exact .error fault

end SourceFile

end Bracescript
