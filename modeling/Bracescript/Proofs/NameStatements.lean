import Bracescript.Proofs.RenamedParsing
import Bracescript.Proofs.Scoping
import Bracescript.Proofs.SentenceParsing

/-!
# Statements that start with a name

No list of trees is both an assignment and an expression. So a statement that starts with a name is read in one way, and
it does not matter which of the two is tried first.
-/

namespace Bracescript

open TokenTree

/-! ## What no expression has -/

/-- An operator is a leaf of no other kind. -/
theorem Token.isLeaf_of_symbol {t : Token} {symbol : Bytes} (h : t.operatorSymbol? = some symbol) {kind : TokenKind}
    (hoperator : kind ≠ .operator) (hkeyword : kind ≠ .keyword) : (leaf t).isLeaf kind = false := by
  rw [isLeaf, beq_eq_false_iff_ne]
  rintro rfl
  unfold operatorSymbol? at h
  split at h
  · rename_i hkind
    exact hoperator hkind
  · rename_i hkind
    exact hkeyword hkind
  · cases h

/-- No equals sign stands beside the parts of an expression; one inside delimiters is not seen here. -/
theorem Derives.lacks_equals {ts : List TokenTree} {p : Part} (h : Derives ts p) {e : Expr} (hp : p = .expr e) :
    ∀ x ∈ ts, x.isLeaf .equals = false := by
  have hsymbol {t : Token} {symbol : Bytes} (h : t.operatorSymbol? = some symbol) : (leaf t).isLeaf .equals = false :=
    Token.isLeaf_of_symbol h (by decide) (by decide)
  have hgroup (o : Token) (inside : List TokenTree) (c : Token) : ∀ x ∈ [group o inside c], x.isLeaf .equals = false :=
    List.forall_mem_singleton.mpr rfl
  induction h generalizing e with
  | ident kind | string kind | number kind =>
    exact List.forall_mem_singleton.mpr (by simp [isLeaf, kind])
  | parens => exact hgroup _ _ _
  | front operator _ _ ih => exact List.forall_mem_cons.mpr ⟨hsymbol operator, ih rfl⟩
  | behind operator _ _ ih =>
    exact List.forall_mem_append.mpr ⟨ih rfl, List.forall_mem_singleton.mpr (hsymbol operator)⟩
  | binary operator _ _ _ ihl ihr =>
    exact List.forall_mem_append.mpr ⟨ihl rfl, List.forall_mem_cons.mpr ⟨hsymbol operator, ihr rfl⟩⟩
  | ternary question colon _ _ _ iha ihb ihc =>
    refine List.forall_mem_append.mpr ⟨iha rfl, List.forall_mem_cons.mpr ⟨hsymbol question, ?_⟩⟩
    exact List.forall_mem_append.mpr ⟨ihb rfl, List.forall_mem_cons.mpr ⟨hsymbol colon, ihc rfl⟩⟩
  | member period name _ ih =>
    refine List.forall_mem_append.mpr ⟨ih rfl, ?_⟩
    simp [isLeaf, period, name]
  | call _ _ _ ih | index _ _ _ ih | slice _ _ _ _ _ ih => exact List.forall_mem_append.mpr ⟨ih rfl, hgroup _ _ _⟩
  | _ => cases hp

/-- Of names only, an expression is one name. -/
theorem Derives.singleton_of_names {ts : List TokenTree} {e : Expr} (h : Derives ts (.expr e))
    (hnames : ∀ x ∈ ts, x.isLeaf .identifier = true) : ∃ x, ts = [x] := by
  have hsymbol {t : Token} {symbol : Bytes} (h : t.operatorSymbol? = some symbol) : leaf t ∉ ts := by
    intro hmem
    have hleaf : (leaf t).isLeaf .identifier = false := Token.isLeaf_of_symbol h (by decide) (by decide)
    rw [hnames _ hmem] at hleaf
    cases hleaf
  have hgroup (o : Token) (inside : List TokenTree) (c : Token) : group o inside c ∉ ts := fun hmem => by
    cases hnames _ hmem
  cases h with
  | ident | string | number | parens => exact ⟨_, rfl⟩
  | front operator | behind operator | binary operator => exact absurd (by simp) (hsymbol operator)
  | ternary question => exact absurd (by simp) (hsymbol question)
  | @member period _ _ _ _ kind =>
    have hleaf := hnames (leaf period) (by simp)
    simp [isLeaf, kind] at hleaf
  | @call o c _ inside | @index o c _ inside => exact absurd (by simp) (hgroup o inside c)
  | @slice o c colon _ before after => exact absurd (by simp) (hgroup o (before ++ leaf colon :: after) c)

/-! ## Outcomes -/

/-- Statements with the same parts at the same places, whatever the numbers of their nodes. -/
structure Stmt.SamePlaced (s s' : Stmt) : Prop where
  unplaced : s.unplaced = s'.unplaced
  spans : s.spans = s'.spans
  pos : s.pos = s'.pos

/-- The same statement but for the numbers of its nodes, or the same fault. -/
inductive SameOutcome : Except Fault Stmt → Except Fault Stmt → Prop
  | ok {s s' : Stmt} (same : s.SamePlaced s') : SameOutcome (.ok s) (.ok s')
  | error (fault : Fault) : SameOutcome (.error fault) (.error fault)

theorem SameOutcome.refl_ok (s : Stmt) : SameOutcome (.ok s) (.ok s) := .ok ⟨rfl, rfl, rfl⟩

theorem SameOutcome.exists_ok {result : Except Fault Stmt} {s : Stmt} (h : SameOutcome result (.ok s)) :
    ∃ s', result = .ok s' := by
  cases h with
  | ok => exact ⟨_, rfl⟩

/-! ### Places that keep their names -/

theorem Token.renamed_refl (t : Token) : t.renamed (.refl _) = t := rfl

mutual

theorem TokenTree.renamed_refl : (t : TokenTree) → t.renamed (.refl _) = t
  | leaf t => rfl
  | group opener inside closer => by
    rw [renamed, TokenTree.renamedAll_refl inside, opener.renamed_refl, closer.renamed_refl]

theorem TokenTree.renamedAll_refl : (ts : List TokenTree) → renamedAll (.refl _) ts = ts
  | [] => rfl
  | t :: ts => by rw [renamedAll, TokenTree.renamed_refl t, TokenTree.renamedAll_refl ts]

end

theorem Stretch.renamed_refl (r : Stretch) : r.renamed (.refl _) = r := by
  obtain ⟨trees, stop⟩ := r
  rw [Stretch.renamed, ← renamedAll_eq_map, TokenTree.renamedAll_refl, stop.renamed_refl]

theorem Fault.renamed_refl (fault : Fault) : fault.renamed (.refl _) = fault := by
  cases fault <;> rfl

theorem Stmt.Renamed.samePlaced {s s' : Stmt} (h : s.Renamed (.refl _) s') : s.SamePlaced s' := by
  have hspans : List.Forall₂ (fun a b : Span => b = a) s.spans s'.spans := h.alike.spans
  refine ⟨h.alike.unplaced.symm, ?_, h.pos.symm⟩
  exact List.forall₂_eq_eq_eq ▸ hspans.imp fun _ _ => Eq.symm

theorem Carried.sameOutcome {result result' : Except Fault Stmt}
    (h : Carried (.refl _) (Stmt.Renamed (.refl _)) result result') :
    SameOutcome result result' := by
  cases h with
  | ok hs => exact .ok hs.samePlaced
  | error fault =>
    rw [fault.renamed_refl]
    exact .error fault

namespace Parse

/-! ## Two attempts -/

variable {p q : Parse Stmt} {join : SyntaxError → SyntaxError → SyntaxError}

/-- From this state the step succeeds. -/
def Passes (p : Parse Stmt) (s : ParseState) : Prop := ∃ stmt, (p s).1 = .ok stmt

/-- Whatever nodes there are, the step has the same outcome, which is a statement or a fault in the text. The
surroundings stay as they are. -/
structure Steady (p : Parse Stmt) : Prop where
  same : ∀ s t : ParseState, s.scope = t.scope → SameOutcome (p s).1 (p t).1
  scope : ∀ s, (p s).2.scope = s.scope
  faults : ∀ s fault, (p s).1 = .error fault → ∃ e, fault = .malformed e

theorem Steady.cases (h : Steady p) (s : ParseState) :
    (∃ stmt s', p s = (.ok stmt, s') ∧ s'.scope = s.scope) ∨
      ∃ e s', p s = (.error (.malformed e), s') ∧ s'.scope = s.scope := by
  have hscope := h.scope s
  have hfaults := h.faults s
  cases hrun : p s with
  | mk result s' =>
    rw [hrun] at hscope hfaults
    cases result with
    | ok stmt => exact .inl ⟨stmt, s', rfl, hscope⟩
    | error fault =>
      obtain ⟨e, rfl⟩ := hfaults fault rfl
      exact .inr ⟨e, s', rfl, hscope⟩

theorem Steady.ok (h : Steady p) {s t s' : ParseState} {stmt : Stmt} (hrun : p s = (.ok stmt, s'))
    (hscope : s.scope = t.scope) : ∃ stmt' t', p t = (.ok stmt', t') ∧ stmt.SamePlaced stmt' := by
  have hsame := h.same s t hscope
  cases hrun' : p t with
  | mk result t' =>
    rw [hrun, hrun'] at hsame
    cases hsame with
    | ok same => exact ⟨_, t', rfl, same⟩

theorem Steady.error (h : Steady p) {s t s' : ParseState} {fault : Fault} (hrun : p s = (.error fault, s'))
    (hscope : s.scope = t.scope) : ∃ t', p t = (.error fault, t') ∧ t'.scope = t.scope := by
  have hsame := h.same s t hscope
  have hkept := h.scope t
  cases hrun' : p t with
  | mk result t' =>
    rw [hrun'] at hkept
    rw [hrun, hrun'] at hsame
    cases hsame
    exact ⟨t', rfl, hkept⟩

/-- Two attempts, the second from where the first one failed. -/
def eitherOf (p q : Parse Stmt) (join : SyntaxError → SyntaxError → SyntaxError) : Parse Stmt := do
  match ← attempt p with
  | .ok stmt => return stmt
  | .error (.malformed x) =>
    match ← attempt q with
    | .ok stmt => return stmt
    | .error (.malformed y) => throw (.malformed (join x y))
    | .error fault => throw fault
  | .error fault => throw fault

theorem eitherOf_ok {s s' : ParseState} {stmt : Stmt} (h : p s = (.ok stmt, s')) :
    eitherOf p q join s = (.ok stmt, s') := by
  have hattempt : attempt p s = (.ok (.ok stmt), s') := by simp [attempt, h]
  rw [eitherOf, bind_run_ok hattempt]
  rfl

theorem eitherOf_error_ok {s s' s'' : ParseState} {stmt : Stmt} {x : SyntaxError}
    (hp : p s = (.error (.malformed x), s')) (hq : q s' = (.ok stmt, s'')) : eitherOf p q join s = (.ok stmt, s'') := by
  have hattempt : attempt p s = (.ok (.error (.malformed x)), s') := by simp [attempt, hp]
  have hattempt' : attempt q s' = (.ok (.ok stmt), s'') := by simp [attempt, hq]
  rw [eitherOf, bind_run_ok hattempt]
  exact bind_run_ok hattempt'

theorem eitherOf_error {s s' s'' : ParseState} {x y : SyntaxError} (hp : p s = (.error (.malformed x), s'))
    (hq : q s' = (.error (.malformed y), s'')) : eitherOf p q join s = (.error (.malformed (join x y)), s'') := by
  have hattempt : attempt p s = (.ok (.error (.malformed x)), s') := by simp [attempt, hp]
  have hattempt' : attempt q s' = (.ok (.error (.malformed y)), s'') := by simp [attempt, hq]
  rw [eitherOf, bind_run_ok hattempt]
  exact bind_run_ok hattempt'

/-- What two attempts do, told by what each of them does from the first state. -/
theorem eitherOf_cases (hp : Steady p) (hq : Steady q) (join : SyntaxError → SyntaxError → SyntaxError)
    (s : ParseState) :
    (∃ stmt, (p s).1 = .ok stmt ∧ (eitherOf p q join s).1 = .ok stmt) ∨
      (∃ x stmt, (p s).1 = .error (.malformed x) ∧ (q s).1 = .ok stmt ∧
        SameOutcome (eitherOf p q join s).1 (.ok stmt)) ∨
      ∃ x y, (p s).1 = .error (.malformed x) ∧ (q s).1 = .error (.malformed y) ∧
        (eitherOf p q join s).1 = .error (.malformed (join x y)) := by
  obtain ⟨stmt, s₁, hrun, -⟩ | ⟨x, s₁, hrun, hscope⟩ := hp.cases s
  · exact .inl ⟨stmt, by rw [hrun], by rw [eitherOf_ok hrun]⟩
  obtain ⟨stmt, s₂, hrun₂, -⟩ | ⟨y, s₂, hrun₂, -⟩ := hq.cases s₁
  · obtain ⟨stmt', t, hrun', hsame⟩ := hq.ok hrun₂ hscope
    refine .inr (.inl ⟨x, stmt', by rw [hrun], by rw [hrun'], ?_⟩)
    rw [eitherOf_error_ok hrun hrun₂]
    exact .ok hsame
  · obtain ⟨t, hrun', -⟩ := hq.error hrun₂ hscope
    exact .inr (.inr ⟨x, y, by rw [hrun], by rw [hrun'], by rw [eitherOf_error hrun hrun₂]⟩)

variable {s : ParseState}

theorem eitherOf_passes_iff (hp : Steady p) (hq : Steady q) :
    (eitherOf p q join).Passes s ↔ p.Passes s ∨ q.Passes s := by
  obtain ⟨stmt, hp₁, h⟩ | ⟨x, stmt, -, hq₁, h⟩ | ⟨x, y, hp₁, hq₁, h⟩ := eitherOf_cases hp hq join s
  · exact iff_of_true ⟨stmt, h⟩ (.inl ⟨stmt, hp₁⟩)
  · exact iff_of_true h.exists_ok (.inr ⟨stmt, hq₁⟩)
  · simp [Passes, hp₁, hq₁, h]

theorem eitherOf_of_ok (hp : Steady p) (hq : Steady q) (hdisjoint : ¬(p.Passes s ∧ q.Passes s)) {stmt : Stmt}
    (h : (p s).1 = .ok stmt ∨ (q s).1 = .ok stmt) : SameOutcome (eitherOf p q join s).1 (.ok stmt) := by
  obtain ⟨stmt', hp₁, hboth⟩ | ⟨x, stmt', hp₁, hq₁, hboth⟩ | ⟨x, y, hp₁, hq₁, hboth⟩ := eitherOf_cases hp hq join s
  · have hfailed : (q s).1 ≠ .ok stmt := fun hq₁ => hdisjoint ⟨⟨_, hp₁⟩, _, hq₁⟩
    obtain ⟨⟩ : Except.ok stmt' = .ok stmt := hp₁.symm.trans (h.resolve_right hfailed)
    rw [hboth]
    exact .refl_ok stmt
  · obtain ⟨⟩ : Except.ok stmt' = .ok stmt := hq₁.symm.trans (h.resolve_left (by simp [hp₁]))
    exact hboth
  · simp [hp₁, hq₁] at h

theorem eitherOf_of_errors (hp : Steady p) (hq : Steady q) {f g : Fault} (hf : (p s).1 = .error f)
    (hg : (q s).1 = .error g) :
    ∃ x y, f = .malformed x ∧ g = .malformed y ∧ (eitherOf p q join s).1 = .error (.malformed (join x y)) := by
  obtain ⟨stmt, hp₁, -⟩ | ⟨x, stmt, -, hq₁, -⟩ | ⟨x, y, hp₁, hq₁, hboth⟩ := eitherOf_cases hp hq join s
  · simp [hp₁] at hf
  · simp [hq₁] at hg
  · rw [hp₁] at hf
    rw [hq₁] at hg
    cases hf
    cases hg
    exact ⟨x, y, rfl, rfl, hboth⟩

/-- The order of two attempts that never both succeed does not matter. -/
theorem eitherOf_comm (hp : Steady p) (hq : Steady q) (hdisjoint : ¬(p.Passes s ∧ q.Passes s)) :
    SameOutcome (eitherOf p q join s).1 (eitherOf q p (fun y x => join x y) s).1 := by
  obtain ⟨stmt, s₁, hrun, -⟩ | ⟨x, s₁, hrun, hscope⟩ := hp.cases s
  · -- the second attempt fails, so it is the first one that succeeds in either order
    obtain ⟨other, t, hrun', -⟩ | ⟨y, t, hrun', hscope⟩ := hq.cases s
    · exact absurd ⟨⟨stmt, by rw [hrun]⟩, other, by rw [hrun']⟩ hdisjoint
    · obtain ⟨stmt', t', hrun₂, hsame⟩ := hp.ok hrun hscope.symm
      rw [eitherOf_ok hrun, eitherOf_error_ok hrun' hrun₂]
      exact .ok hsame
  obtain ⟨stmt, s₂, hrun₂, -⟩ | ⟨y, s₂, hrun₂, -⟩ := hq.cases s₁
  · obtain ⟨stmt', t, hrun', hsame⟩ := hq.ok hrun₂ hscope
    rw [eitherOf_error_ok hrun hrun₂, eitherOf_ok hrun']
    exact .ok hsame
  · obtain ⟨t, hrun', hkept⟩ := hq.error hrun₂ hscope
    obtain ⟨t', hrun₃, -⟩ := hp.error hrun hkept.symm
    rw [eitherOf_error hrun hrun₂, eitherOf_error hrun' hrun₃]
    exact .error _

/-! ## An assignment or an expression -/

theorem steady_of_reads {tokens : List Token} {Q : Stmt → Prop} (hreads : Reads tokens p Q)
    (hcarries : Carries (.refl _) (Stmt.Renamed (.refl _)) p p) : Steady p where
  same s t hscope := (hcarries s t hscope).1.sameOutcome
  scope s := (hreads s).2.1
  faults s fault hfault := by
    have hanswer := (hreads s).1
    rw [hfault] at hanswer
    obtain ⟨e, rfl, -⟩ := hanswer
    exact ⟨e, rfl⟩

variable {r : Stretch} {name : Token} {rest : List TokenTree}

theorem assignment_steady (hr : r.trees = .leaf name :: rest) (hname : name.kind = .identifier) :
    Steady (assignment r) := by
  have hcarries := assignment_carries (ρ := .refl _) r
  rw [r.renamed_refl] at hcarries
  exact steady_of_reads (assignment_reads r.inside_self hr hname) hcarries

theorem exprStatement_steady (r : Stretch) : Steady (exprStatement r) := by
  have hcarries := exprStatement_carries (ρ := .refl _) r
  rw [r.renamed_refl] at hcarries
  exact steady_of_reads (exprStatement_reads r.inside_self) hcarries

theorem derives_of_exprStatement {s : ParseState} (h : (exprStatement r).Passes s) : ∃ e, Derives r.trees (.expr e) := by
  obtain ⟨stmt, hok⟩ := h
  have hanswer := (expression_reads r r.inside_self s).1
  cases hrun : expression r s with
  | mk result s' =>
    cases result with
    | ok e =>
      rw [hrun] at hanswer
      exact ⟨e, hanswer⟩
    | error fault =>
      rw [exprStatement, bind_run_error hrun] at hok
      cases hok

/-- What can be read as an expression is refused as an assignment. -/
theorem assignment_of_expression (hr : r.trees = .leaf name :: rest) (hname : name.kind = .identifier) {e : Expr}
    (h : Derives r.trees (.expr e)) : ∃ cause place, assignment r = fail cause place := by
  refine assignment_fails r.stop (h.lacks_equals rfl) ?_
  intro type second hpair hkind
  obtain ⟨rfl, -⟩ : type = name ∧ _ := by simpa [hpair] using hr
  obtain ⟨x, hsingle⟩ := h.singleton_of_names (by simp [hpair, isLeaf, hname, hkind])
  simp [hpair] at hsingle

theorem assignment_disjoint (hr : r.trees = .leaf name :: rest) (hname : name.kind = .identifier) (s s' : ParseState) :
    ¬((assignment r).Passes s ∧ (exprStatement r).Passes s') := by
  rintro ⟨⟨stmt, hassign⟩, hexpr⟩
  obtain ⟨e, hderives⟩ := derives_of_exprStatement hexpr
  obtain ⟨cause, place, hfails⟩ := assignment_of_expression hr hname hderives
  rw [hfails] at hassign
  cases hassign

/-- A statement that starts with a name, with the expression tried first. -/
def expressionFirst (r : Stretch) : Parse Stmt := eitherOf (exprStatement r) (assignment r) fun e a => ambiguity a e

theorem nameStatement_eq (r : Stretch) : nameStatement r = eitherOf (assignment r) (exprStatement r) ambiguity := rfl

end Parse

end Bracescript
