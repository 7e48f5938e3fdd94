import Bracescript.Parse
import Bracescript.Proofs.Nesting
import Mathlib.Tactic.ByContra

/-!
# Delimiters

Which lists of tokens have their delimiters nested and matched, which leave some of them open, and that nesting tells
them apart.
-/

namespace Bracescript

open TokenTree

/-! ## Nested and matched -/

/-- Whether the token is no delimiter. -/
def Token.IsPlain (t : Token) : Prop := t.kind.isOpener = false ∧ t.kind.isCloser = false

/-- The delimiters among the tokens are nested and matched. -/
inductive Balanced : List Token → Prop
  | nil : Balanced []
  | plain {t : Token} {ts : List Token} (kind : t.IsPlain) (rest : Balanced ts) : Balanced (t :: ts)
  | group {o c : Token} {inside ts : List Token} (fits : o.kind.closer? = some c.kind) (inner : Balanced inside)
    (rest : Balanced ts) : Balanced (o :: (inside ++ c :: ts))

/-- Every closing delimiter among the tokens fits what it closes, and these delimiters are open at the end, the innermost
first. -/
inductive LeavesOpen : List Token → List Token → Prop
  | none {ts : List Token} (balanced : Balanced ts) : LeavesOpen ts []
  | opener {o : Token} {ts us os : List Token} (before : LeavesOpen ts os) (kind : o.kind.isOpener = true)
    (after : Balanced us) : LeavesOpen (ts ++ o :: us) (o :: os)

theorem Balanced.append {xs ys : List Token} (hxs : Balanced xs) (hys : Balanced ys) : Balanced (xs ++ ys) := by
  induction hxs with
  | nil => exact hys
  | plain kind _ ih => exact .plain kind ih
  | group fits inner _ _ ih =>
    rw [List.cons_append, List.append_assoc, List.cons_append]
    exact .group fits inner ih

mutual

theorem TokenTree.Matched.balanced (t : TokenTree) (h : t.Matched) : Balanced t.flatten := by
  match t with
  | .leaf t => exact .plain h .nil
  | .group opener inside closer => exact .group h.1 (MatchedAll.balanced inside h.2) .nil

theorem TokenTree.MatchedAll.balanced (ts : List TokenTree) (h : MatchedAll ts) : Balanced (flattenAll ts) := by
  match ts with
  | [] => exact .nil
  | t :: ts => exact (Matched.balanced t h.1).append (MatchedAll.balanced ts h.2)

end

theorem Balanced.exists_trees {tokens : List Token} (h : Balanced tokens) :
    ∃ ts, MatchedAll ts ∧ flattenAll ts = tokens := by
  induction h with
  | nil => exact ⟨[], trivial, rfl⟩
  | @plain t _ kind _ ih =>
    obtain ⟨ts, hts, rfl⟩ := ih
    exact ⟨.leaf t :: ts, ⟨kind, hts⟩, rfl⟩
  | @group o c _ _ fits _ _ ihInner ihRest =>
    obtain ⟨us, hus, rfl⟩ := ihInner
    obtain ⟨ts, hts, rfl⟩ := ihRest
    exact ⟨.group o us c :: ts, ⟨⟨fits, hus⟩, hts⟩, by simp [flattenAll, flatten]⟩

/-! ## What is open -/

/-- The delimiters that are open behind the tokens when these were open before, the innermost first; nothing when a
closing delimiter does not fit. -/
def openBehind (os : List Token) : List Token → Option (List Token)
  | [] => some os
  | t :: ts =>
    if t.kind.isOpener then openBehind (t :: os) ts
    else if t.kind.isCloser then
      match os with
      | [] => none
      | o :: os => if o.kind.closer? = some t.kind then openBehind os ts else none
    else openBehind os ts

theorem Balanced.openBehind_append {ts : List Token} (h : Balanced ts) (os rest : List Token) :
    openBehind os (ts ++ rest) = openBehind os rest := by
  induction h generalizing os rest with
  | nil => rfl
  | plain kind _ ih => simp [openBehind, kind.1, kind.2, ih]
  | @group o c _ _ fits _ _ ihInner ihRest =>
    have hcloser := isCloser_of_closer fits
    have hfirst : o.kind.isOpener = true := by rw [TokenKind.isOpener, fits, Option.isSome_some]
    simp [openBehind, hfirst, ihInner, isOpener_of_isCloser hcloser, hcloser, fits, ihRest]

theorem LeavesOpen.openBehind_append {ts os : List Token} (h : LeavesOpen ts os) (rest : List Token) :
    openBehind [] (ts ++ rest) = openBehind os rest := by
  induction h generalizing rest with
  | none balanced => exact balanced.openBehind_append [] rest
  | opener _ kind after ih =>
    rw [List.append_assoc, ih, List.cons_append, openBehind.eq_def]
    simp [kind, after.openBehind_append]

/-- There is one way to say which delimiters are open. -/
theorem LeavesOpen.unique {ts os os' : List Token} (h : LeavesOpen ts os) (h' : LeavesOpen ts os') : os' = os := by
  have hopen := (h'.openBehind_append []).symm.trans (h.openBehind_append [])
  exact Option.some.inj hopen

/-! ## Tokens that do not matter -/

theorem isPlain_of_insignificant {t : Token} (h : ¬(!t.isWhitespace && t.kind != .eof) = true) : t.IsPlain := by
  obtain ⟨kind, _, _, _, _, _⟩ := t
  cases kind <;> first | exact ⟨rfl, rfl⟩ | exact absurd rfl h

theorem significant_cons_of_not_isPlain {t : Token} (ts : List Token) (h : ¬t.IsPlain) :
    significant (t :: ts) = t :: significant ts := by
  rw [significant, List.filter_cons, if_pos, significant]
  by_contra hinsignificant
  exact h (isPlain_of_insignificant hinsignificant)

theorem significant_append (xs ys : List Token) : significant (xs ++ ys) = significant xs ++ significant ys :=
  List.filter_append xs ys

theorem not_isPlain_of_fits {o c : Token} (h : o.kind.closer? = some c.kind) : ¬o.IsPlain ∧ ¬c.IsPlain := by
  constructor
  · rintro ⟨hopener, -⟩
    simp [TokenKind.isOpener, h] at hopener
  · rintro ⟨-, hcloser⟩
    rw [isCloser_of_closer h] at hcloser
    cases hcloser

theorem balanced_of_plain {ts : List Token} (h : ∀ t ∈ ts, t.IsPlain) : Balanced ts := by
  induction ts with
  | nil => exact .nil
  | cons t ts ih =>
    rw [List.forall_mem_cons] at h
    exact .plain h.1 (ih h.2)

/-- Where a significant token stands in the whole list: only plain tokens come before it. -/
theorem significant_eq_cons {tokens xs : List Token} {t : Token} (h : significant tokens = t :: xs) :
    ∃ before after, tokens = before ++ t :: after ∧ Balanced before ∧ significant before = [] ∧ significant after = xs := by
  obtain ⟨before, after, rfl, hbefore, -, hafter⟩ := List.filter_eq_cons_iff.mp h
  refine ⟨before, after, rfl, ?_, ?_, hafter⟩
  · exact balanced_of_plain fun t ht => isPlain_of_insignificant (hbefore t ht)
  · exact List.filter_eq_nil_iff.mpr hbefore

theorem Balanced.of_significant {xs : List Token} (h : Balanced xs) {tokens : List Token}
    (hxs : significant tokens = xs) : Balanced tokens := by
  induction h generalizing tokens with
  | nil => exact balanced_of_plain fun t ht => isPlain_of_insignificant (List.filter_eq_nil_iff.mp hxs t ht)
  | plain kind _ ih =>
    obtain ⟨before, after, rfl, hbefore, -, hafter⟩ := significant_eq_cons hxs
    exact hbefore.append (.plain kind (ih hafter))
  | group fits _ _ ihInner ihRest =>
    obtain ⟨before, after, rfl, hbefore, -, hafter⟩ := significant_eq_cons hxs
    obtain ⟨inner, behind, rfl, hinner, hbehind⟩ := List.filter_eq_append_iff.mp hafter
    obtain ⟨gap, rest, rfl, hgap, -, hrest⟩ := significant_eq_cons hbehind
    rw [← List.append_assoc inner]
    exact hbefore.append (.group fits ((ihInner hinner).append hgap) (ihRest hrest))

theorem Balanced.significant {tokens : List Token} (h : Balanced tokens) : Balanced (significant tokens) := by
  induction h with
  | nil => exact .nil
  | plain kind _ ih =>
    rw [Bracescript.significant, List.filter_cons]
    split
    · exact .plain kind ih
    · exact ih
  | group fits _ _ ihInner ihRest =>
    obtain ⟨hopener, hcloser⟩ := not_isPlain_of_fits fits
    rw [significant_cons_of_not_isPlain _ hopener, significant_append, significant_cons_of_not_isPlain _ hcloser]
    exact .group fits ihInner ihRest

theorem LeavesOpen.of_significant {xs os : List Token} (h : LeavesOpen xs os) {tokens : List Token}
    (hxs : significant tokens = xs) : LeavesOpen tokens os := by
  induction h generalizing tokens with
  | none balanced => exact .none (balanced.of_significant hxs)
  | opener _ kind after ih =>
    obtain ⟨front, back, rfl, hfront, hback⟩ := List.filter_eq_append_iff.mp hxs
    obtain ⟨gap, rest, rfl, -, hgap, hrest⟩ := significant_eq_cons hback
    have hbefore : significant (front ++ gap) = significant front := by rw [significant_append, hgap, List.append_nil]
    rw [← List.append_assoc]
    exact .opener (ih (hbefore.trans hfront)) kind (after.of_significant hrest)

/-! ## What nesting finds -/

theorem nest_of_balanced {tokens : List Token} (h : Balanced tokens) :
    ∃ trees, nest (significant tokens) = (trees, none) := by
  obtain ⟨trees, htrees, heq⟩ := h.significant.exists_trees
  exact ⟨trees, by rw [← heq, nest_flattenAll htrees]⟩

theorem balanced_of_nest {tokens : List Token} {trees : List TokenTree}
    (h : nest (significant tokens) = (trees, none)) : Balanced tokens := by
  have hnests := nest_nests (significant tokens)
  rw [h] at hnests
  obtain ⟨hmatched, hflatten⟩ := hnests
  exact (MatchedAll.balanced trees hmatched).of_significant hflatten.symm

/-- The level is opened by an opening delimiter, and what stands before it is matched. -/
def TokenTree.Level.Sound (level : Level) : Prop := level.opener.kind.isOpener = true ∧ MatchedAll level.before

theorem pending_leavesOpen {waiting : List Level} {done : List TokenTree} (hwaiting : ∀ level ∈ waiting, level.Sound)
    (hdone : MatchedAll done) : LeavesOpen (pending waiting done) (waiting.map Level.opener) := by
  have hbalanced := MatchedAll.balanced _ (matchedAll_reverse.mpr hdone)
  induction waiting generalizing done with
  | nil => exact .none hbalanced
  | cons level levels ih =>
    rw [List.forall_mem_cons] at hwaiting
    obtain ⟨⟨hopener, hbefore⟩, hlevels⟩ := hwaiting
    exact .opener (ih hlevels hbefore (MatchedAll.balanced _ (matchedAll_reverse.mpr hbefore))) hopener hbalanced

/-- A fault among the delimiters: the innermost one is still open, or a closing delimiter does not fit. -/
def IsDelimiterFault (tokens : List Token) (e : SyntaxError) : Prop :=
  (∃ o os, LeavesOpen tokens (o :: os) ∧ e = .atToken (.unclosed o.kind o.text) o) ∨ e.code = .unbalancedClose

theorem nestFrom_fault (waiting : List Level) (done : List TokenTree) (ts : List Token) {trees : List TokenTree}
    {e : SyntaxError} (hwaiting : ∀ level ∈ waiting, level.Sound) (hdone : MatchedAll done)
    (h : nestFrom waiting done ts = (trees, some e)) : IsDelimiterFault (pending waiting done ++ ts) e := by
  induction ts generalizing waiting done with
  | nil =>
    have hopen := pending_leavesOpen hwaiting hdone
    cases waiting with
    | nil => cases h
    | cons level levels =>
      cases h
      rw [List.append_nil]
      exact .inl ⟨_, _, hopen, rfl⟩
  | cons t ts ih =>
    rw [nestFrom.eq_def] at h
    dsimp only at h
    split at h
    · rename_i hopener
      have hfault := ih (⟨t, done⟩ :: waiting) [] (List.forall_mem_cons.mpr ⟨⟨hopener, hdone⟩, hwaiting⟩) trivial h
      simpa [pending, flattenAll] using hfault
    · rename_i hopener
      split at h
      · split at h
        · cases h
          exact .inr rfl
        · rename_i level levels
          rw [List.forall_mem_cons] at hwaiting
          split at h
          · rename_i hcloser
            have hgroup : MatchedAll (group level.opener done.reverse t :: level.before) :=
              ⟨⟨hcloser, matchedAll_reverse.mpr hdone⟩, hwaiting.1.2⟩
            have hfault := ih levels _ hwaiting.2 hgroup h
            rw [pending_cons, flatten] at hfault
            simpa [pending] using hfault
          · cases h
            exact .inr rfl
      · rename_i hcloser
        have hfault := ih waiting (leaf t :: done) hwaiting ⟨⟨by simpa using hopener, by simpa using hcloser⟩, hdone⟩ h
        rw [pending_cons, flatten] at hfault
        simpa using hfault

end Bracescript
