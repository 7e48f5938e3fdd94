import Bracescript.Proofs.Alike
import Bracescript.Proofs.ParseRules

/-!
# The expression parser agrees on alike tokens

From alike tokens two runs of a parsing step give alike values, or faults of one kind and code.
-/

namespace Bracescript

open TokenTree

variable {σ : SpanMatch} {α β γ δ : Type}

/-- Faults of one kind, with the same code if they have one. -/
inductive Fault.Alike : Fault → Fault → Prop where
  | malformed {e e'} (code : e.code = e'.code) : Alike (.malformed e) (.malformed e')
  | unsupported (u) : Alike (.unsupported u) (.unsupported u)
  | internal (m m') : Alike (.internal m) (.internal m')
  | other (m m') : Alike (.other m) (.other m')

/-- Two outcomes: values that `Q` holds of, or alike faults. -/
inductive Matching (Q : α → β → Prop) : Except Fault α → Except Fault β → Prop where
  | ok {a b} (values : Q a b) : Matching Q (.ok a) (.ok b)
  | error {f f'} (faults : f.Alike f') : Matching Q (.error f) (.error f')

namespace Parse

/-- From states with the same surroundings two steps have outcomes that match, and leave the surroundings the same. -/
def Agree (Q : α → β → Prop) (p : Parse α) (q : Parse β) : Prop :=
  ∀ s t : ParseState, s.scope = t.scope → Matching Q (p s).1 (q t).1 ∧ (p s).2.scope = (q t).2.scope

variable {Q : α → β → Prop} {R : γ → δ → Prop}

theorem agree_pure {a : α} {b : β} (h : Q a b) : Agree Q (pure a) (pure b) := fun _ _ hscope => ⟨.ok h, hscope⟩

theorem agree_throw {f f' : Fault} (h : f.Alike f') : Agree Q (throw f) (throw f') := fun _ _ hscope => ⟨.error h, hscope⟩

theorem agree_fail {cause cause' : Cause} (t t' : Token) (h : cause.code = cause'.code) :
    Agree Q (fail cause t) (fail cause' t') := agree_throw (.malformed h)

theorem agree_failAt {cause cause' : Cause} (e e' : Expr) (h : cause.code = cause'.code) :
    Agree Q (failAt cause e) (failAt cause' e') := agree_throw (.malformed h)

theorem agree_bind {p : Parse α} {q : Parse β} {f : α → Parse γ} {g : β → Parse δ} (hp : Agree Q p q)
    (hf : ∀ a b, Q a b → Agree R (f a) (g b)) : Agree R (p >>= f) (q >>= g) := by
  intro s t hscope
  obtain ⟨hmatch, hscope⟩ := hp s t hscope
  cases hrun : p s with
  | mk result s' =>
    cases hrun' : q t with
    | mk result' t' =>
      rw [hrun, hrun'] at hmatch hscope
      cases hmatch with
      | ok hab =>
        rw [bind_run_ok hrun, bind_run_ok hrun']
        exact hf _ _ hab s' t' hscope
      | error hfaults =>
        rw [bind_run_error hrun, bind_run_error hrun']
        exact ⟨.error hfaults, hscope⟩

theorem agree_scope : Agree Eq scope scope := fun _ _ hscope => ⟨.ok hscope, hscope⟩

theorem agree_within {p : Parse α} {q : Parse β} (there : Scope) (h : Agree Q p q) :
    Agree Q (within there p) (within there q) :=
  fun s t hscope => ⟨(h { s with scope := there } { t with scope := there } rfl).1, hscope⟩

theorem agree_attempt {p : Parse α} {q : Parse β} (h : Agree Q p q) : Agree (Matching Q) (attempt p) (attempt q) := by
  intro s t hscope
  obtain ⟨hmatch, hscope⟩ := h s t hscope
  exact ⟨.ok hmatch, hscope⟩

theorem agree_newExpr {span span' : Span} {pos pos' : LineCol} {build build' : Node → Expr} (hspan : σ.Rel span span')
    (h : ∀ n n' : Node, σ.Rel n.span n'.span → (build n).Alike σ (build' n')) :
    Agree (Expr.Alike σ) (newExpr span pos build) (newExpr span' pos' build') :=
  fun _ _ hscope => ⟨.ok (h _ _ hspan), hscope⟩

theorem agree_newStmt {span span' : Span} {pos pos' : LineCol} {build build' : Node → Stmt} (hspan : σ.Rel span span')
    (h : ∀ n n' : Node, σ.Rel n.span n'.span → (build n).Alike σ (build' n')) :
    Agree (Stmt.Alike σ) (newStmt span pos build) (newStmt span' pos' build') :=
  fun _ _ hscope => ⟨.ok (h _ _ hspan), hscope⟩

theorem agree_newIdent {t t' : Token} (h : t.Alike σ t') : Agree (Expr.Alike σ) (newIdent t) (newIdent t') := by
  unfold newIdent
  rw [h.value]
  exact agree_newExpr h.span fun _ _ hn => .ident hn t.value

/-- A value that may be left out. -/
theorem agree_some {p : Parse α} {q : Parse β} (h : Agree Q p q) :
    Agree (Option.Rel Q) (do return some (← p)) (do return some (← q)) :=
  agree_bind h fun _ _ hab => agree_pure (.some hab)

end Parse

/-! ## Reduction -/

inductive Item.Alike (σ : SpanMatch) : Item → Item → Prop where
  | operand {e e'} (expr : e.Alike σ e') : Alike σ (.operand e) (.operand e')
  | operator {t t'} (symbol) (token : t.Alike σ t') : Alike σ (.operator symbol t) (.operator symbol t')

abbrev ItemsAlike (σ : SpanMatch) : List Item → List Item → Prop := List.Forall₂ (Item.Alike σ)

/-- Operators that are held back, or the one before. -/
def HeldAlike (σ : SpanMatch) (p p' : Bytes × Token) : Prop := p'.1 = p.1 ∧ p.2.Alike σ p'.2

namespace Reduction

open Parse Item

theorem applyAll_agree {held held' : List (Bytes × Token)} {e e' : Expr} (hheld : List.Forall₂ (HeldAlike σ) held held')
    (he : e.Alike σ e') : Agree (Expr.Alike σ) (applyAll held e) (applyAll held' e') := by
  induction hheld generalizing e e' with
  | nil => exact agree_pure he
  | @cons p p' _ _ hp _ ih =>
    obtain ⟨symbol, token⟩ := p
    obtain ⟨symbol', token'⟩ := p'
    obtain ⟨rfl, htoken⟩ := hp
    rw [applyAll, applyAll]
    refine agree_bind (agree_newExpr (σ.cover htoken.span he.span) fun _ _ hn => .unary hn he _ _) fun _ _ he => ih he

theorem operands_agree {items items' : List Item} (h : ItemsAlike σ items items') :
    (∀ last last' held held', Option.Rel (HeldAlike σ) last last' → List.Forall₂ (HeldAlike σ) held held' →
      Agree (ItemsAlike σ) (beforeOperand last held items) (beforeOperand last' held' items')) ∧
    ∀ e e' : Expr, e.Alike σ e' → Agree (ItemsAlike σ) (behindOperand e items) (behindOperand e' items') := by
  induction h with
  | nil =>
    refine ⟨fun last last' held held' hlast hheld => ?_, fun e e' he => agree_pure (.cons (.operand he) .nil)⟩
    cases hheld with
    | cons => exact agree_fail _ _ rfl
    | nil =>
      cases hlast with
      | some => exact agree_fail _ _ rfl
      | none => exact agree_pure .nil
  | cons hitem _ ih =>
    obtain ⟨ihBefore, ihBehind⟩ := ih
    cases hitem with
    | operand he =>
      refine ⟨fun last last' held held' hlast hheld => ?_, fun e e' _ => agree_failAt _ _ rfl⟩
      exact agree_bind (applyAll_agree hheld he) ihBehind
    | operator symbol htoken =>
      constructor
      · intro last last' held held' hlast hheld
        rw [beforeOperand, beforeOperand]
        split
        · exact ihBefore _ _ _ _ hlast (.cons ⟨rfl, htoken⟩ hheld)
        · exact agree_fail _ _ rfl
      · intro e e' he
        rw [behindOperand, behindOperand]
        split
        · exact agree_bind (agree_newExpr (σ.cover he.span htoken.span) fun _ _ hn => .unary hn he _ _) ihBehind
        split
        · refine agree_bind (ihBefore _ _ _ _ (.some ⟨rfl, htoken⟩) .nil) fun _ _ hitems => ?_
          exact agree_pure (.cons (.operand he) (.cons (.operator symbol htoken) hitems))
        · exact agree_fail _ _ rfl

theorem bindsTighterThan_alike (symbol : Bytes) (i i' : Item) (h : i.Alike σ i') :
    bindsTighterThan symbol i' = bindsTighterThan symbol i := by
  cases h with
  | operand => rfl
  | operator => rfl

theorem behindOperands_alike {pending pending' items items' : List Item} (hpending : ItemsAlike σ pending pending')
    (h : ItemsAlike σ items items') : ItemsAlike σ (behindOperands pending items) (behindOperands pending' items') := by
  induction h generalizing pending pending' with
  | nil => exact hpending
  | cons hitem _ ih =>
    cases hitem with
    | operand he => exact .cons (.operand he) (ih hpending)
    | operator symbol htoken =>
      have htake := forall₂_takeWhile (bindsTighterThan_alike symbol) hpending
      have hdrop := forall₂_dropWhile (bindsTighterThan_alike symbol) hpending
      exact List.rel_append htake (ih (.cons (.operator symbol htoken) hdrop))

theorem fold_agree {slots slots' : List Expr} {items items' : List Item} (hslots : List.Forall₂ (Expr.Alike σ) slots slots')
    (h : ItemsAlike σ items items') : Agree (Expr.Alike σ) (fold slots items) (fold slots' items') := by
  induction h generalizing slots slots' with
  | nil =>
    have hreverse := List.forall₂_reverse_iff.mpr hslots
    rw [fold, fold]
    generalize slots.reverse = es at hreverse ⊢
    generalize slots'.reverse = es' at hreverse ⊢
    cases hreverse with
    | nil => exact agree_throw (.internal _ _)
    | cons he hes =>
      cases hes with
      | nil => exact agree_pure he
      | cons => exact agree_failAt _ _ rfl
  | cons hitem _ ih =>
    cases hitem with
    | operand he => exact ih (.cons he hslots)
    | operator symbol htoken =>
      cases hslots with
      | nil => exact agree_throw (.internal _ _)
      | cons hright hslots =>
        cases hslots with
        | nil => exact agree_throw (.internal _ _)
        | cons hleft hslots =>
          refine agree_bind (agree_newExpr (σ.cover hleft.span hright.span) fun _ _ hn => .binary hn hleft hright _) ?_
          exact fun _ _ he => ih (.cons he hslots)

theorem binaries_agree {items items' : List Item} (h : ItemsAlike σ items items') :
    Agree (Expr.Alike σ) (binaries items) (binaries items') := fold_agree .nil (behindOperands_alike .nil h)

theorem cutAtMark_alike {items items' : List Item} (h : ItemsAlike σ items items') :
    CutAlike (Item.Alike σ) (HeldAlike σ) (cutAtMark items) (cutAtMark items') := by
  induction h with
  | nil => exact .none
  | cons hitem hrest ih =>
    cases hitem with
    | operand he => exact ih.cons (.operand he)
    | operator symbol htoken =>
      rw [cutAtMark, cutAtMark]
      split
      · exact .some ⟨.nil, ⟨rfl, htoken⟩, hrest⟩
      · exact ih.cons (.operator symbol htoken)

theorem cutAtMatch_alike {items items' : List Item} (depth : Nat) (h : ItemsAlike σ items items') :
    CutAlike (Item.Alike σ) (Token.Alike σ) (cutAtMatch depth items) (cutAtMatch depth items') := by
  induction h generalizing depth with
  | nil => exact .none
  | cons hitem hrest ih =>
    cases hitem with
    | operand he => exact (ih depth).cons (.operand he)
    | operator symbol htoken =>
      rw [cutAtMatch, cutAtMatch]
      split
      · exact .some ⟨.nil, htoken, hrest⟩
      · exact (ih _).cons (.operator symbol htoken)

/-- The reduction without the equations that its termination rests on. -/
theorem reduce_eq (items : List Item) (place : Token) :
    reduce items place =
      if items.isEmpty then fail .expectedExpression place
      else match cutAtMark items with
        | none => unaries items >>= binaries
        | some (test, (symbol, mark), after) =>
          if symbol ≠ "?" then fail .colonWithoutQuestion mark
          else match cutAtMatch 0 after with
            | none => fail .questionWithoutColon mark
            | some (yes, colon, no) =>
              if test.isEmpty then fail .missingCondition mark
              else if yes.isEmpty then fail .missingThen colon
              else if no.isEmpty then fail .missingElse colon
              else (do
                let test ← reduce test mark
                let yes ← reduce yes colon
                let no ← reduce no colon
                newExpr (test.span.cover no.span) test.pos fun n => .ternary n test yes no) := by
  rw [reduce]
  congr 1
  split
  · rename_i hmark
    rw [hmark]
  · rename_i hmark
    rw [hmark]
    congr 1
    split
    · rename_i hmatch
      rw [hmatch]
    · rename_i hmatch
      rw [hmatch]

theorem reduce_agree {items items' : List Item} (place place' : Token) (h : ItemsAlike σ items items') :
    Agree (Expr.Alike σ) (reduce items place) (reduce items' place') := by
  induction hn : items.length using Nat.strongRecOn generalizing items items' place place' with
  | _ n ih =>
    have hmark := cutAtMark_alike h
    rw [reduce_eq, reduce_eq, forall₂_isEmpty h]
    split
    · exact agree_fail _ _ rfl
    cases hcut : cutAtMark items with
    | none =>
      rw [hcut] at hmark
      generalize cutAtMark items' = cut' at hmark ⊢
      cases hmark
      exact agree_bind ((operands_agree h).1 none none [] [] .none .nil) fun _ _ hitems => binaries_agree hitems
    | some cut =>
      obtain ⟨test, ⟨symbol, mark⟩, after⟩ := cut
      have hlenMark := length_cutAtMark hcut
      rw [hcut] at hmark
      generalize cutAtMark items' = cut' at hmark ⊢
      cases hmark with
      | @some _ cut' hmark =>
        obtain ⟨test', ⟨symbol', mark'⟩, after'⟩ := cut'
        obtain ⟨htest, ⟨hsymbol, hmark⟩, hafter⟩ := hmark
        dsimp only at htest hsymbol hmark hafter ⊢
        rw [hsymbol]
        split
        · exact agree_fail _ _ rfl
        have hmatch := cutAtMatch_alike 0 hafter
        cases hcut : cutAtMatch 0 after with
        | none =>
          rw [hcut] at hmatch
          generalize cutAtMatch 0 after' = cut' at hmatch ⊢
          cases hmatch
          exact agree_fail _ _ rfl
        | some cut =>
          obtain ⟨yes, colon, no⟩ := cut
          have hlenMatch := length_cutAtMatch hcut
          rw [hcut] at hmatch
          generalize cutAtMatch 0 after' = cut' at hmatch ⊢
          cases hmatch with
          | @some _ cut' hmatch =>
            obtain ⟨yes', colon', no'⟩ := cut'
            obtain ⟨hyes, -, hno⟩ := hmatch
            dsimp only at hyes hno ⊢
            rw [forall₂_isEmpty htest, forall₂_isEmpty hyes, forall₂_isEmpty hno]
            split
            · exact agree_fail _ _ rfl
            split
            · exact agree_fail _ _ rfl
            split
            · exact agree_fail _ _ rfl
            refine agree_bind (ih _ (by omega) mark mark' htest rfl) fun _ _ htest => ?_
            refine agree_bind (ih _ (by omega) colon colon' hyes rfl) fun _ _ hyes => ?_
            refine agree_bind (ih _ (by omega) colon colon' hno rfl) fun _ _ hno => ?_
            exact agree_newExpr (σ.cover htest.span hno.span) fun _ _ hn => .ternary hn htest hyes hno

end Reduction

/-! ## Expressions -/

/-- The text of a number does not decide its kind. -/
theorem numberKind_text (digits suffix text text' : Bytes) :
    (∃ kind, numberKind digits suffix text = .ok kind ∧ numberKind digits suffix text' = .ok kind) ∨
      ∃ cause cause', numberKind digits suffix text = .error cause ∧ numberKind digits suffix text' = .error cause' ∧
        cause.code = cause'.code := by
  unfold numberKind
  dsimp only
  split
  · exact .inl ⟨_, rfl, rfl⟩
  split
  · exact .inl ⟨_, rfl, rfl⟩
  split
  · exact .inl ⟨_, rfl, rfl⟩
  split
  · exact .inr ⟨_, _, rfl, rfl, rfl⟩
  · split
    · exact .inr ⟨_, _, rfl, rfl, rfl⟩
    · exact .inl ⟨_, rfl, rfl⟩

namespace Parse

theorem tokenItem_agree {t t' : Token} (h : t.Alike σ t') : Agree (Item.Alike σ) (tokenItem t) (tokenItem t') := by
  unfold tokenItem
  rw [h.kind, h.value, h.flag]
  split
  · exact agree_bind (agree_newIdent h) fun _ _ he => agree_pure (.operand he)
  · exact agree_bind (agree_newExpr h.span fun _ _ hn => .literal hn _ _) fun _ _ he => agree_pure (.operand he)
  · rcases numberKind_text t.value t.flag t.text t'.text with ⟨kind, hok, hok'⟩ | ⟨cause, cause', herror, herror', hcode⟩
    · rw [hok, hok']
      exact agree_bind (agree_newExpr h.span fun _ _ hn => .literal hn _ _) fun _ _ he => agree_pure (.operand he)
    · rw [herror, herror']
      exact agree_fail _ _ hcode
  · exact agree_pure (.operator _ h)
  · split
    · exact agree_pure (.operator _ h)
    · exact agree_fail _ _ rfl
  · exact agree_fail _ _ rfl

-- The parsers call each other, and so do their lemmas: each one falls by the measure of the first run.
mutual

theorem collect_agree {items items' : List Item} (trees : List TokenTree) {trees' : List TokenTree} (stop stop' : Token)
    (hitems : ItemsAlike σ items items') (h : AlikeAll σ trees trees') :
    Agree (ItemsAlike σ) (collect items trees stop) (collect items' trees' stop') := by
  match trees with
  | [] =>
    cases h
    rw [collect, collect]
    exact agree_pure (List.forall₂_reverse_iff.mpr hitems)
  | .leaf t :: rest =>
    obtain ⟨_, rest', ⟨ht⟩, hrest, rfl⟩ := List.forall₂_cons_left_iff.mp h
    rw [collect.eq_def, collect.eq_def items']
    dsimp only
    rw [ht.kind]
    split
    · cases hitems with
      | nil => exact agree_fail _ _ rfl
      | cons hitem hitems =>
        cases hitem with
        | operator => exact agree_fail _ _ rfl
        | operand htarget =>
          cases hrest with
          | nil => exact agree_fail _ _ rfl
          | cons hnext hrest =>
            cases hnext with
            | group => exact agree_fail _ _ rfl
            | leaf hname =>
              dsimp only
              rw [hname.kind, hname.value]
              split
              · have hspan := σ.cover htarget.span hname.span
                refine agree_bind (agree_newExpr hspan fun _ _ hn => .member hn htarget _) fun _ _ he => ?_
                exact collect_agree _ stop stop' (.cons (.operand he) hitems) hrest
              · exact agree_fail _ _ rfl
    · refine agree_bind (tokenItem_agree ht) fun _ _ hitem => ?_
      exact collect_agree rest stop stop' (.cons hitem hitems) hrest
  | .group opener inside closer :: rest =>
    obtain ⟨_, rest', ⟨⟩ | ⟨hopener, hinside, hcloser⟩, hrest, rfl⟩ := List.forall₂_cons_left_iff.mp h
    rw [collect.eq_def, collect.eq_def items']
    dsimp only
    rw [hopener.kind]
    split
    · cases hitems with
      | nil =>
        dsimp only
        rw [forall₂_isEmpty hinside]
        split
        · exact agree_fail _ _ rfl
        · refine agree_bind (expression_agree ⟨inside, closer⟩ hinside) fun _ _ he => ?_
          exact collect_agree rest stop stop' (.cons (.operand he) .nil) hrest
      | cons hitem hitems =>
        cases hitem with
        | operand hcallee =>
          refine agree_bind (Q := List.Forall₂ (Argument.Alike σ)) ?_ fun _ _ hargs => ?_
          · rw [forall₂_isEmpty hinside]
            split
            · exact arguments_agree [] .nil
            · exact arguments_agree _ (splitAt_alike .comma closer _ hinside)
          · have hspan := σ.cover hcallee.span hcloser.span
            refine agree_bind (agree_newExpr hspan fun _ _ hn => .call hn hcallee hargs) fun _ _ he => ?_
            exact collect_agree rest stop stop' (.cons (.operand he) hitems) hrest
        | operator symbol htoken =>
          dsimp only
          rw [forall₂_isEmpty hinside]
          split
          · exact agree_fail _ _ rfl
          · refine agree_bind (expression_agree ⟨inside, closer⟩ hinside) fun _ _ he => ?_
            exact collect_agree rest stop stop' (.cons (.operand he) (.cons (.operator symbol htoken) hitems)) hrest
    · cases hitems with
      | nil => exact agree_fail _ _ rfl
      | cons hitem hitems =>
        cases hitem with
        | operator => exact agree_fail _ _ rfl
        | operand htarget =>
          refine agree_bind (subscript_agree inside htarget hinside hcloser) fun _ _ he => ?_
          exact collect_agree rest stop stop' (.cons (.operand he) hitems) hrest
    · exact agree_fail _ _ rfl
termination_by 4 * weightAll trees
decreasing_by
  all_goals
    subst_vars
    simp only [weightAll, weight, Stretch.weight, Stretch.weightAll]
    first
    | omega
    | rw [weightAll_splitAt]; omega

theorem subscript_agree {target target' : Expr} (inside : List TokenTree) {inside' : List TokenTree} {closer closer' : Token}
    (htarget : target.Alike σ target') (h : AlikeAll σ inside inside') (hcloser : closer.Alike σ closer') :
    Agree (Expr.Alike σ) (subscript target inside closer) (subscript target' inside' closer') := by
  have hspan := σ.cover htarget.span hcloser.span
  have hcut := cutAtColon_alike 0 h
  rw [subscript, subscript, forall₂_isEmpty h]
  split
  · exact agree_fail _ _ rfl
  split
  · rename_i hnone
    rw [hnone] at hcut
    split
    · refine agree_bind (expression_agree ⟨inside, closer⟩ h) fun _ _ hindex => ?_
      exact agree_newExpr hspan fun _ _ hn => .index hn htarget hindex
    · rename_i hsome
      rw [hsome] at hcut
      cases hcut
  · rename_i before colon after hsome
    have hlight := weightAll_cutAtColon hsome
    rw [hsome] at hcut
    split
    · rename_i hnone
      rw [hnone] at hcut
      cases hcut
    · rename_i before' colon' after' hsome'
      rw [hsome'] at hcut
      obtain ⟨hbefore, -, hafter⟩ : AlikeAll σ before before' ∧ _ ∧ AlikeAll σ after after' := by
        cases hcut with
        | some hparts => exact hparts
      refine agree_bind (bound_agree ⟨before, colon⟩ hbefore) fun _ _ hstart => ?_
      refine agree_bind (bound_agree ⟨after, closer⟩ hafter) fun _ _ hstop => ?_
      exact agree_newExpr hspan fun _ _ hn => .slice hn htarget hstart hstop
termination_by 4 * weightAll inside + 3
decreasing_by
  all_goals
    simp only [Stretch.weight]
    omega

theorem bound_agree (r : Stretch) {r' : Stretch} (h : r.Alike σ r') :
    Agree (Option.Rel (Expr.Alike σ)) (bound r) (bound r') := by
  rw [bound, bound, h.isEmpty]
  split
  · exact agree_pure .none
  · exact agree_some (expression_agree r h)
termination_by 4 * r.weight + 2

theorem arguments_agree (rs : List Stretch) {rs' : List Stretch} (h : List.Forall₂ (Stretch.Alike σ) rs rs') :
    Agree (List.Forall₂ (Argument.Alike σ)) (arguments rs) (arguments rs') := by
  match rs with
  | [] =>
    cases h
    rw [arguments]
    exact agree_pure .nil
  | r :: rs =>
    obtain ⟨r', rs', hr, hrs, rfl⟩ := List.forall₂_cons_left_iff.mp h
    have hcut := cutAt_alike .equals hr
    rw [arguments, arguments, hr.isEmpty]
    split
    · exact agree_fail _ _ rfl
    rename_i hne
    generalize cutAt .equals r.trees = cut at hcut ⊢
    generalize cutAt .equals r'.trees = cut' at hcut ⊢
    cases hcut with
    | some => exact agree_fail _ _ rfl
    | none =>
      refine agree_bind (expression_agree r hr) fun _ _ hvalue => ?_
      refine agree_bind (arguments_agree rs hrs) fun _ _ hargs => agree_pure (.cons ?_ hargs)
      exact Argument.alike_mk (hr.span (by simpa using hne)) .none (.some hvalue)
termination_by 4 * Stretch.weightAll rs
decreasing_by
  all_goals
    simp only [Stretch.weightAll]
    omega

theorem expression_agree (r : Stretch) {r' : Stretch} (h : r.Alike σ r') :
    Agree (Expr.Alike σ) (expression r) (expression r') := by
  rw [expression, expression, h.isEmpty]
  split
  · exact agree_fail _ _ rfl
  · refine agree_bind (collect_agree r.trees r.stop r'.stop .nil h) fun _ _ hitems => ?_
    exact Reduction.reduce_agree r.first r'.first hitems
termination_by 4 * r.weight + 1
decreasing_by simp only [Stretch.weight]; omega

end

end Parse

end Bracescript
