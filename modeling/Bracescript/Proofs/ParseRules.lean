import Bracescript.Parse.State

/-!
# Rules for parsing steps

What a step does from every state, and how that follows from its parts.
-/

namespace Bracescript.Parse

variable {α β : Type}

theorem map_id_run (p : Parse α) : id <$> p = p := by
  funext s
  show Parse.bind p (fun a => Parse.pure a) s = p s
  simp only [Parse.bind, Parse.pure]
  split <;> simp_all

theorem bind_bind_run {γ : Type} (p : Parse α) (f : α → Parse β) (g : β → Parse γ) :
    p >>= f >>= g = p >>= fun a => f a >>= g := by
  funext s
  show Parse.bind (Parse.bind p f) g s = Parse.bind p (fun a => Parse.bind (f a) g) s
  simp only [Parse.bind]
  cases p s with
  | mk result s' => cases result <;> rfl

instance : LawfulMonad Parse := LawfulMonad.mk' Parse map_id_run (fun _ _ => rfl) bind_bind_run

theorem bind_run_ok {p : Parse α} {f : α → Parse β} {s s' : ParseState} {a : α} (h : p s = (.ok a, s')) :
    (p >>= f) s = f a s' := by
  show Parse.bind p f s = f a s'
  rw [Parse.bind, h]

theorem bind_run_error {p : Parse α} {f : α → Parse β} {s s' : ParseState} {fault : Fault}
    (h : p s = (.error fault, s')) : (p >>= f) s = (.error fault, s') := by
  show Parse.bind p f s = (.error fault, s')
  rw [Parse.bind, h]

/-! ## Steps that succeed -/

/-- From every state the step succeeds, with a value that `Q` holds of; `Q` sees how many expressions there were. -/
def Succeeds (p : Parse α) (Q : Nat → α → Prop) : Prop :=
  ∀ s : ParseState, ∃ a s', p s = (.ok a, s') ∧ Q s.forest.exprs.size a ∧ s.forest.exprs.size ≤ s'.forest.exprs.size

theorem succeeds_pure {a : α} {Q : Nat → α → Prop} (h : ∀ old, Q old a) : Succeeds (pure a) Q :=
  fun s => ⟨a, s, rfl, h _, Nat.le_refl _⟩

theorem Succeeds.mono {p : Parse α} {P Q : Nat → α → Prop} (h : Succeeds p P) (hQ : ∀ old a, P old a → Q old a) :
    Succeeds p Q := by
  intro s
  obtain ⟨a, s', hrun, ha, hle⟩ := h s
  exact ⟨a, s', hrun, hQ _ _ ha, hle⟩

/-- What the second step finds is no older than what the first one found. -/
theorem succeeds_bind {p : Parse α} {f : α → Parse β} {P : Nat → α → Prop} {Q : Nat → β → Prop} (hp : Succeeds p P)
    (hf : ∀ old a, P old a → Succeeds (f a) fun late b => old ≤ late → Q old b) : Succeeds (p >>= f) Q := by
  intro s
  obtain ⟨a, s₁, hrun₁, ha, hle₁⟩ := hp s
  obtain ⟨b, s₂, hrun₂, hb, hle₂⟩ := hf _ a ha s₁
  exact ⟨b, s₂, by rw [bind_run_ok hrun₁, hrun₂], hb hle₁, Nat.le_trans hle₁ hle₂⟩

/-- A new expression has a number that no expression had before. -/
theorem succeeds_newExpr (span : Span) (pos : LineCol) (build : Node → Expr) :
    Succeeds (newExpr span pos build) fun old e => ∃ n : Node, old < n.id ∧ e = build n := by
  intro s
  refine ⟨build ⟨s.forest.exprs.size + 1, span, pos⟩, _, rfl, ⟨_, Nat.lt_succ_self _, rfl⟩, ?_⟩
  simp

/-! ## Steps that fail -/

/-- From every state the step says that the text is wrong. -/
def Rejects (p : Parse α) : Prop := ∀ s, ∃ e s', p s = (.error (.malformed e), s')

theorem rejects_fail (cause : Cause) (t : Token) : Rejects (fail cause t : Parse α) := fun s => ⟨_, s, rfl⟩

theorem rejects_failAt (cause : Cause) (e : Expr) : Rejects (failAt cause e : Parse α) := fun s => ⟨_, s, rfl⟩

theorem rejects_bind_left {p : Parse α} {f : α → Parse β} (h : Rejects p) : Rejects (p >>= f) := by
  intro s
  obtain ⟨e, s', hrun⟩ := h s
  exact ⟨e, s', bind_run_error hrun⟩

theorem rejects_bind {p : Parse α} {f : α → Parse β} {Q : Nat → α → Prop} (hp : Succeeds p Q)
    (hf : ∀ a, Rejects (f a)) : Rejects (p >>= f) := by
  intro s
  obtain ⟨a, s₁, hrun₁, -⟩ := hp s
  obtain ⟨e, s₂, hrun₂⟩ := hf a s₁
  exact ⟨e, s₂, by rw [bind_run_ok hrun₁, hrun₂]⟩

/-! ## Steps with a good value or a fault in the text -/

/-- From every state the step gives a value that `Q` holds of, or says that the text is wrong. -/
def Delivers (p : Parse α) (Q : α → Prop) : Prop :=
  ∀ s, match (p s).1 with
    | .ok a => Q a
    | .error fault => ∃ e, fault = .malformed e

variable {P Q : α → Prop} {R : β → Prop}

theorem delivers_pure {a : α} (h : Q a) : Delivers (pure a) Q := fun _ => h

theorem delivers_throw (e : SyntaxError) : Delivers (throw (.malformed e) : Parse α) Q := fun _ => ⟨e, rfl⟩

theorem delivers_fail (cause : Cause) (t : Token) : Delivers (fail cause t : Parse α) Q := delivers_throw _

theorem delivers_failAt (cause : Cause) (e : Expr) : Delivers (failAt cause e : Parse α) Q := delivers_throw _

theorem delivers_bind {p : Parse α} {f : α → Parse β} (hp : Delivers p P) (hf : ∀ a, P a → Delivers (f a) R) :
    Delivers (p >>= f) R := by
  intro s
  have hp := hp s
  cases hrun : p s with
  | mk result s' =>
    rw [hrun] at hp
    cases result with
    | ok a =>
      rw [bind_run_ok hrun]
      exact hf a hp s'
    | error fault =>
      rw [bind_run_error hrun]
      exact hp

theorem Delivers.mono {p : Parse α} (h : Delivers p P) (hPQ : ∀ a, P a → Q a) : Delivers p Q := by
  intro s
  have h := h s
  split at h
  · exact hPQ _ h
  · exact h

theorem delivers_newExpr {Q : Expr → Prop} {span : Span} {pos : LineCol} {build : Node → Expr}
    (h : ∀ n, Q (build n)) : Delivers (newExpr span pos build) Q := fun _ => h _

theorem delivers_newStmt {Q : Stmt → Prop} {span : Span} {pos : LineCol} {build : Node → Stmt}
    (h : ∀ n, Q (build n)) : Delivers (newStmt span pos build) Q := fun _ => h _

theorem delivers_scope : Delivers scope fun _ => True := fun _ => trivial

theorem delivers_within {p : Parse α} (scope : Scope) (h : Delivers p Q) : Delivers (within scope p) Q :=
  fun s => h { s with scope }

theorem delivers_attempt {p : Parse α} (h : Delivers p Q) :
    Delivers (attempt p) fun result =>
      match result with
      | .ok a => Q a
      | .error fault => ∃ e, fault = .malformed e := fun s => h s

theorem delivers_none : Delivers (pure none) fun value => ∀ a, value = some a → Q a := delivers_pure (by simp)

theorem delivers_some {p : Parse α} (h : Delivers p Q) :
    Delivers (do return some (← p)) fun value => ∀ a, value = some a → Q a := by
  refine delivers_bind h fun a ha => delivers_pure ?_
  rintro _ ⟨⟩
  exact ha

theorem Succeeds.delivers {p : Parse α} {P : Nat → α → Prop} (h : Succeeds p P) (hPQ : ∀ old a, P old a → Q a) :
    Delivers p Q := by
  intro s
  obtain ⟨a, s', hrun, ha, -⟩ := h s
  rw [hrun]
  exact hPQ _ _ ha

theorem Rejects.delivers {p : Parse α} (h : Rejects p) : Delivers p Q := by
  intro s
  obtain ⟨e, s', hrun⟩ := h s
  rw [hrun]
  exact ⟨e, rfl⟩

/-! ## Steps that succeed in their surroundings -/

/-- In these surroundings the step succeeds with a value that `Q` holds of, and leaves the surroundings as they are. -/
def Gives (scope : Scope) (p : Parse α) (Q : α → Prop) : Prop :=
  ∀ s : ParseState, s.scope = scope → ∃ a s', p s = (.ok a, s') ∧ s'.scope = scope ∧ Q a

variable {here : Scope}

theorem gives_pure {a : α} (h : Q a) : Gives here (pure a) Q := fun s hs => ⟨a, s, rfl, hs, h⟩

theorem gives_bind {p : Parse α} {f : α → Parse β} (hp : Gives here p P) (hf : ∀ a, P a → Gives here (f a) R) :
    Gives here (p >>= f) R := by
  intro s hs
  obtain ⟨a, s₁, hrun₁, hscope, ha⟩ := hp s hs
  obtain ⟨b, s₂, hrun₂, hscope, hb⟩ := hf a ha s₁ hscope
  exact ⟨b, s₂, by rw [bind_run_ok hrun₁, hrun₂], hscope, hb⟩

theorem Gives.mono {p : Parse α} (h : Gives here p P) (hPQ : ∀ a, P a → Q a) : Gives here p Q := by
  intro s hs
  obtain ⟨a, s', hrun, hscope, ha⟩ := h s hs
  exact ⟨a, s', hrun, hscope, hPQ a ha⟩

theorem gives_newExpr {Q : Expr → Prop} {span : Span} {pos : LineCol} {build : Node → Expr} (h : ∀ n, Q (build n)) :
    Gives here (newExpr span pos build) Q := fun _ hs => ⟨_, _, rfl, hs, h _⟩

theorem gives_newStmt {Q : Stmt → Prop} {span : Span} {pos : LineCol} {build : Node → Stmt} (h : ∀ n, Q (build n)) :
    Gives here (newStmt span pos build) Q := fun _ hs => ⟨_, _, rfl, hs, h _⟩

theorem gives_scope : Gives here scope (· = here) := fun s hs => ⟨s.scope, s, rfl, hs, hs⟩

theorem gives_within {p : Parse α} {there : Scope} (h : Gives there p Q) : Gives here (within there p) Q := by
  intro s hs
  obtain ⟨a, s', hrun, -, ha⟩ := h { s with scope := there } rfl
  exact ⟨a, { s' with scope := s.scope }, by simp [within, hrun], hs, ha⟩

theorem gives_attempt {p : Parse α} (h : Gives here p Q) :
    Gives here (attempt p) fun result => ∃ a, result = .ok a ∧ Q a := by
  intro s hs
  obtain ⟨a, s', hrun, hscope, ha⟩ := h s hs
  exact ⟨.ok a, s', by simp [attempt, hrun], hscope, a, rfl, ha⟩

theorem gives_attempt_fail {cause : Cause} {t : Token} :
    Gives here (attempt (fail cause t : Parse α)) fun result => ∃ e, result = .error (.malformed e) :=
  fun s hs => ⟨_, s, rfl, hs, _, rfl⟩

end Bracescript.Parse
