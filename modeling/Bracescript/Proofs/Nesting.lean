import Bracescript.TokenTree

/-!
# Nesting

Nesting finds the one way to match the delimiters of a token list. A fault among them is said at one of the tokens, and
the trees before it are made of tokens of the list.
-/

namespace Bracescript.TokenTree

theorem flattenAll_append (xs ys : List TokenTree) : flattenAll (xs ++ ys) = flattenAll xs ++ flattenAll ys := by
  induction xs with
  | nil => rfl
  | cons x xs ih => simp [flattenAll, ih]

mutual

/-- Delimiters stand only around groups, and what closes a group fits what opens it. -/
def Matched : TokenTree → Prop
  | leaf t => t.kind.isOpener = false ∧ t.kind.isCloser = false
  | group opener inside closer => opener.kind.closer? = some closer.kind ∧ MatchedAll inside

def MatchedAll : List TokenTree → Prop
  | [] => True
  | t :: ts => t.Matched ∧ MatchedAll ts

end

theorem matchedAll_iff {ts : List TokenTree} : MatchedAll ts ↔ ∀ t ∈ ts, t.Matched := by
  induction ts with
  | nil => simp [MatchedAll]
  | cons t ts ih => simp [MatchedAll, ih]

theorem matchedAll_append {xs ys : List TokenTree} : MatchedAll (xs ++ ys) ↔ MatchedAll xs ∧ MatchedAll ys := by
  simp only [matchedAll_iff, List.forall_mem_append]

theorem matchedAll_reverse {ts : List TokenTree} : MatchedAll ts.reverse ↔ MatchedAll ts := by
  simp only [matchedAll_iff, List.mem_reverse]

theorem isCloser_of_closer {k closer : TokenKind} (h : k.closer? = some closer) : closer.isCloser = true := by
  cases k <;> cases h <;> rfl

theorem isOpener_of_isCloser {k : TokenKind} (h : k.isCloser = true) : k.isOpener = false := by
  cases k <;> first | rfl | cases h

/-! ## What nesting has read -/

/-- The tokens of the trees so far, those at the outermost level first. -/
def pending : List Level → List TokenTree → List Token
  | [], done => flattenAll done.reverse
  | level :: levels, done => pending levels level.before ++ level.opener :: flattenAll done.reverse

theorem pending_cons (waiting : List Level) (t : TokenTree) (done : List TokenTree) :
    pending waiting (t :: done) = pending waiting done ++ t.flatten := by
  cases waiting <;> simp [pending, flattenAll_append, flattenAll]

theorem outermost_sublist (waiting : List Level) (done : List TokenTree) :
    (flattenAll (outermost waiting done)).Sublist (pending waiting done) := by
  induction waiting generalizing done with
  | nil => exact List.Sublist.refl _
  | cons level levels ih => exact (ih level.before).trans (List.sublist_append_left _ _)

/-- The trees hold what was pending and the tokens that are left, unless there is a fault; then they hold some of these
tokens, and the fault is at one of them. -/
def Nests (tokens : List Token) : List TokenTree × Option SyntaxError → Prop
  | (trees, none) => MatchedAll trees ∧ flattenAll trees = tokens
  | (trees, some fault) =>
    (flattenAll trees).Sublist tokens ∧ ∃ t ∈ tokens, fault.span = t.span ∧ fault.pos = t.pos

theorem nestFrom_nests (waiting : List Level) (done : List TokenTree) (ts : List Token)
    (hwaiting : ∀ level ∈ waiting, MatchedAll level.before) (hdone : MatchedAll done) :
    Nests (pending waiting done ++ ts) (nestFrom waiting done ts) := by
  induction ts generalizing waiting done with
  | nil =>
    cases waiting with
    | nil => exact ⟨matchedAll_reverse.mpr hdone, by simp [pending]⟩
    | cons level levels =>
      refine ⟨?_, level.opener, by simp [pending], rfl, rfl⟩
      exact (outermost_sublist _ done).trans (List.sublist_append_left _ _)
  | cons t ts ih =>
    have houtermost := (outermost_sublist waiting done).trans (List.sublist_append_left _ (t :: ts))
    rw [nestFrom.eq_def]
    dsimp only
    split
    · have hlevel : ∀ level ∈ (⟨t, done⟩ :: waiting : List Level), MatchedAll level.before :=
        List.forall_mem_cons.mpr ⟨hdone, hwaiting⟩
      have h := ih (⟨t, done⟩ :: waiting) [] hlevel trivial
      simpa [pending, flattenAll] using h
    · rename_i hopener
      split
      · split
        · exact ⟨houtermost, t, by simp, rfl, rfl⟩
        · rename_i level levels
          rw [List.forall_mem_cons] at hwaiting
          split
          · rename_i hcloser
            have hgroup : MatchedAll (group level.opener done.reverse t :: level.before) :=
              ⟨⟨hcloser, matchedAll_reverse.mpr hdone⟩, hwaiting.1⟩
            have h := ih levels _ hwaiting.2 hgroup
            rw [pending_cons, flatten] at h
            simpa [pending] using h
          · exact ⟨houtermost, t, by simp, rfl, rfl⟩
      · rename_i hcloser
        have h := ih waiting (leaf t :: done) hwaiting ⟨⟨by simpa using hopener, by simpa using hcloser⟩, hdone⟩
        rw [pending_cons, flatten] at h
        simpa using h

theorem nest_nests (tokens : List Token) : Nests tokens (nest tokens) :=
  nestFrom_nests [] [] tokens (List.forall_mem_nil _) trivial

/-! ## Matched trees are found again -/

-- The trees are read one after the other, so the statement is about whatever waits, is done and follows.
mutual

theorem nestFrom_flatten (t : TokenTree) (h : t.Matched) (waiting : List Level) (done : List TokenTree)
    (rest : List Token) : nestFrom waiting done (t.flatten ++ rest) = nestFrom waiting (t :: done) rest := by
  match t with
  | leaf t => simp [flatten, nestFrom, h.1, h.2]
  | group opener inside closer =>
    have hclose := isCloser_of_closer h.1
    have hopen : opener.kind.isOpener = true := by simp [TokenKind.isOpener, h.1]
    calc nestFrom waiting done ((group opener inside closer).flatten ++ rest)
        = nestFrom (⟨opener, done⟩ :: waiting) [] (flattenAll inside ++ closer :: rest) := by
          simp [flatten, nestFrom, hopen]
      _ = nestFrom (⟨opener, done⟩ :: waiting) inside.reverse (closer :: rest) := by
          rw [nestFrom_flattenAll inside h.2, List.append_nil]
      _ = nestFrom waiting (group opener inside closer :: done) rest := by
          simp [nestFrom, isOpener_of_isCloser hclose, hclose, h.1]

theorem nestFrom_flattenAll (ts : List TokenTree) (h : MatchedAll ts) (waiting : List Level) (done : List TokenTree)
    (rest : List Token) : nestFrom waiting done (flattenAll ts ++ rest) = nestFrom waiting (ts.reverse ++ done) rest := by
  match ts with
  | [] => rfl
  | t :: ts =>
    rw [flattenAll, List.append_assoc, nestFrom_flatten t h.1, nestFrom_flattenAll ts h.2]
    simp

end

theorem nest_flattenAll {ts : List TokenTree} (h : MatchedAll ts) : nest (flattenAll ts) = (ts, none) := by
  have hnest := nestFrom_flattenAll ts h [] [] []
  simpa [nest, nestFrom] using hnest

end Bracescript.TokenTree
