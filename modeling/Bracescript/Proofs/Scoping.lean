import Bracescript.Proofs.Emission
import Bracescript.Proofs.StatementReads

/-!
# Statements that leave

A `return` stands in a function and a `break` or `continue` in a loop, with no other function and no class in between.
The parser counts what surrounds a statement; after a statement the counts are what they were before it.
-/

namespace Bracescript

open TokenTree

/-! ## Surroundings -/

/-- The surroundings that a statement makes for those in it. -/
def Scope.inside (here : Scope) : Stmt → Scope
  | .forLoop .. | .whileLoop .. => { here with loops := here.loops + 1 }
  | .define .. => { defs := here.defs + 1, loops := 0 }
  | .defineClass .. => {}
  | _ => here

namespace Stmt

/-- The counts of the surroundings allow the statement. -/
def Allowed (here : Scope) : Stmt → Prop
  | .ret .. => here.defs ≠ 0
  | .brk _ | .cont _ => here.loops ≠ 0
  | _ => True

/-- The statement and all in it are allowed where they stand. -/
inductive Scoped : Scope → Stmt → Prop
  | intro {here : Scope} {s : Stmt} (allowed : s.Allowed here) (inner : ∀ t ∈ s.children, Scoped (here.inside s) t) :
    Scoped here s

/-- A statement that is allowed everywhere: it leaves nothing and holds no statements. -/
def Free (s : Stmt) : Prop := ∀ here, s.Scoped here

theorem free_of_children {s : Stmt} (hallowed : ∀ here, s.Allowed here) (hchildren : s.children = []) : s.Free := by
  intro here
  refine .intro (hallowed here) ?_
  rw [hchildren]
  exact List.forall_mem_nil _

end Stmt

/-! ## Parsing steps in their surroundings -/

theorem Stretch.inside_self (r : Stretch) : r.Inside (flattenAll r.trees ++ [r.stop]) :=
  ⟨List.sublist_append_left _ _, by simp⟩

namespace Parse

variable {α β : Type} {here : Scope} {P Q : α → Prop} {R : β → Prop}

/-- In these surroundings, which stay as they are, the step gives only values that `Q` holds of. -/
def Minds (here : Scope) (p : Parse α) (Q : α → Prop) : Prop :=
  ∀ s : ParseState, s.scope = here → (p s).2.scope = here ∧ ∀ a, (p s).1 = .ok a → Q a

theorem minds_pure {a : α} (h : Q a) : Minds here (pure a) Q := by
  intro s hs
  refine ⟨hs, fun b hb => ?_⟩
  cases hb
  exact h

theorem minds_throw (fault : Fault) : Minds here (throw fault : Parse α) Q := by
  intro s hs
  refine ⟨hs, fun b hb => ?_⟩
  cases hb

theorem minds_fail (cause : Cause) (t : Token) : Minds here (fail cause t : Parse α) Q := minds_throw _

theorem minds_failAt (cause : Cause) (e : Expr) : Minds here (failAt cause e : Parse α) Q := minds_throw _

theorem minds_bind {p : Parse α} {f : α → Parse β} (hp : Minds here p P) (hf : ∀ a, P a → Minds here (f a) R) :
    Minds here (p >>= f) R := by
  intro s hs
  obtain ⟨hscope, hvalue⟩ := hp s hs
  cases hrun : p s with
  | mk result s' =>
    rw [hrun] at hscope hvalue
    cases result with
    | ok a =>
      rw [bind_run_ok hrun]
      exact hf a (hvalue a rfl) s' hscope
    | error fault =>
      rw [bind_run_error hrun]
      refine ⟨hscope, fun b hb => ?_⟩
      cases hb

theorem Minds.mono {p : Parse α} (h : Minds here p P) (hPQ : ∀ a, P a → Q a) : Minds here p Q :=
  fun s hs => ⟨(h s hs).1, fun a ha => hPQ a ((h s hs).2 a ha)⟩

theorem minds_scope : Minds here scope (· = here) := by
  intro s hs
  refine ⟨hs, fun a ha => ?_⟩
  cases ha
  exact hs

theorem minds_within {there : Scope} {p : Parse α} (h : Minds there p Q) : Minds here (within there p) Q :=
  fun s hs => ⟨hs, (h { s with scope := there } rfl).2⟩

theorem minds_attempt {p : Parse α} (h : Minds here p Q) :
    Minds here (attempt p) fun result => ∀ a, result = .ok a → Q a := by
  intro s hs
  obtain ⟨hscope, hvalue⟩ := h s hs
  refine ⟨hscope, fun result hresult => ?_⟩
  cases hresult
  exact hvalue

theorem minds_newStmt {Q : Stmt → Prop} {span : Span} {pos : LineCol} {build : Node → Stmt} (h : ∀ n, Q (build n)) :
    Minds here (newStmt span pos build) Q := by
  intro s hs
  refine ⟨hs, fun a ha => ?_⟩
  cases ha
  exact h _

theorem minds_newIdent (t : Token) : Minds here (newIdent t) fun _ => True := fun _ hs => ⟨hs, fun _ _ => trivial⟩

theorem Reads.minds {tokens : List Token} {p : Parse α} (h : Reads tokens p P) : Minds here p fun _ => True :=
  fun s hs => ⟨(h s).2.1.trans hs, fun _ _ => trivial⟩

theorem expression_minds (r : Stretch) : Minds here (expression r) fun _ => True :=
  (expression_reads r r.inside_self).minds

theorem bound_minds (r : Stretch) : Minds here (bound r) fun _ => True := (bound_reads r r.inside_self).minds

theorem condition_minds (word : Token) (r : Stretch) : Minds here (condition word r) fun _ => True :=
  (condition_reads r.inside_self).minds

theorem expectEnd_minds (r : Stretch) : Minds here (expectEnd r) fun _ => True := (expectEnd_reads r.inside_self).minds

/-! ## Statements without a block -/

theorem exprStatement_minds (r : Stretch) : Minds here (exprStatement r) Stmt.Free := by
  refine minds_bind (expression_minds r) fun e _ => minds_newStmt fun n => ?_
  exact Stmt.free_of_children (fun _ => trivial) rfl

theorem declaredValue_minds (constant : Bool) (name : Token) (r : Stretch) :
    Minds here (declaredValue constant name r) fun _ => True := by
  unfold declaredValue
  split
  · split
    · exact minds_fail _ _
    · exact minds_pure trivial
  · split
    · exact minds_bind (expression_minds _) fun _ _ => minds_pure trivial
    · exact minds_fail _ _

theorem declaration_minds (word : Token) (r : Stretch) : Minds here (declaration word r) Stmt.Free := by
  unfold declaration
  split
  · split
    · refine minds_bind (declaredValue_minds _ _ _) fun value _ => minds_bind (minds_newIdent _) fun target _ => ?_
      dsimp only
      split
      · refine minds_bind (minds_newIdent _) fun type _ => minds_newStmt fun n => ?_
        exact Stmt.free_of_children (fun _ => trivial) rfl
      · exact minds_newStmt fun n => Stmt.free_of_children (fun _ => trivial) rfl
    · exact minds_fail _ _
  · exact minds_fail _ _

theorem assignTo_minds (r : Stretch) (before : List TokenTree) (equals : Token) (after : List TokenTree) :
    Minds here (assignment.assignTo r before equals after) Stmt.Free := by
  refine minds_bind (expression_minds _) fun target _ => ?_
  split
  · refine minds_bind (expression_minds _) fun value _ => minds_newStmt fun n => ?_
    exact Stmt.free_of_children (fun _ => trivial) rfl
  · exact minds_failAt _ _

theorem assignment_minds (r : Stretch) : Minds here (assignment r) Stmt.Free := by
  unfold assignment
  dsimp only
  split
  · split
    · split
      · refine minds_bind (minds_newIdent _) fun type _ => minds_bind (minds_newIdent _) fun target _ => ?_
        exact minds_newStmt fun n => Stmt.free_of_children (fun _ => trivial) rfl
      · exact minds_fail _ _
    · exact minds_fail _ _
  · refine minds_bind (minds_newIdent _) fun target _ => minds_bind (expression_minds _) fun value _ => ?_
    exact minds_newStmt fun n => Stmt.free_of_children (fun _ => trivial) rfl
  · split
    · split
      · refine minds_bind (minds_newIdent _) fun target _ => minds_bind (expression_minds _) fun value _ => ?_
        refine minds_bind (minds_newIdent _) fun type _ => minds_newStmt fun n => ?_
        exact Stmt.free_of_children (fun _ => trivial) rfl
      · exact assignTo_minds _ _ _ _
    · exact assignTo_minds _ _ _ _

theorem nameStatement_minds (r : Stretch) : Minds here (nameStatement r) Stmt.Free := by
  unfold nameStatement
  refine minds_bind (minds_attempt (assignment_minds r)) fun result hresult => ?_
  split
  · exact minds_pure (hresult _ rfl)
  · refine minds_bind (minds_attempt (exprStatement_minds r)) fun result hresult => ?_
    split
    · exact minds_pure (hresult _ rfl)
    · exact minds_throw _
    · exact minds_throw _
  · exact minds_throw _

/-- A clause of a header is free if it is there. -/
def IsFreeClause (clause : Option Stmt) : Prop := ∀ s ∈ clause.toList, s.Free

theorem minds_some {p : Parse Stmt} (h : Minds here p Stmt.Free) : Minds here (do return some (← p)) IsFreeClause :=
  minds_bind h fun _ hs => minds_pure (List.forall_mem_singleton.mpr hs)

theorem simpleStatement_minds (r : Stretch) : Minds here (simpleStatement r) IsFreeClause := by
  unfold simpleStatement
  split
  · exact minds_pure (List.forall_mem_nil _)
  · split
    · exact minds_some (declaration_minds _ _)
    · split
      · exact minds_some (nameStatement_minds r)
      · exact minds_some (exprStatement_minds r)
  · exact minds_some (exprStatement_minds r)

/-- The count of functions is looked at where the statement stands. -/
theorem returnStatement_minds (word : Token) (r : Stretch) :
    Minds here (returnStatement word r) (Stmt.Scoped here) := by
  refine minds_bind minds_scope fun scope hscope => ?_
  split
  · exact minds_fail _ _
  · rename_i hdefs
    refine minds_bind (bound_minds r) fun value _ => minds_newStmt fun n => .intro ?_ (List.forall_mem_nil _)
    rwa [hscope] at hdefs

theorem loopStatement_minds (word : Token) (r : Stretch) : Minds here (loopStatement word r) (Stmt.Scoped here) := by
  refine minds_bind minds_scope fun scope hscope => ?_
  split
  · exact minds_fail _ _
  · rename_i hloops
    rw [hscope] at hloops
    split
    · exact minds_fail _ _
    · refine minds_newStmt fun n => ?_
      split
      · exact .intro hloops (List.forall_mem_nil _)
      · exact .intro hloops (List.forall_mem_nil _)

/-! ## Statements with a block -/

theorem forHeader_minds (word : Token) (r : Stretch) :
    Minds here (forHeader word r) fun header => IsFreeClause header.1 ∧ IsFreeClause header.2.2 := by
  unfold forHeader
  split
  · split
    · split
      · refine minds_bind (simpleStatement_minds _) fun init hinit => minds_bind (bound_minds _) fun test _ => ?_
        exact minds_bind (simpleStatement_minds _) fun step hstep => minds_pure ⟨hinit, hstep⟩
      · exact minds_fail _ _
    · exact minds_fail _ _
  · exact minds_fail _ _

theorem checkMembers_minds (ss : List Stmt) : Minds here (checkMembers ss) fun _ => True := by
  induction ss with
  | nil => exact minds_pure trivial
  | cons s ss ih =>
    rw [checkMembers]
    split
    · exact ih
    · exact minds_throw _

mutual

theorem sequence_minds (here : Scope) (cs : List Clause) :
    Minds here (sequence cs) fun ss => ∀ s ∈ ss, s.Scoped here := by
  match cs with
  | [] =>
    rw [sequence]
    exact minds_pure (List.forall_mem_nil _)
  | c :: cs =>
    rw [sequence]
    refine minds_bind (statement_minds here c) fun s hs => ?_
    exact minds_bind (sequence_minds here cs) fun ss hss => minds_pure (List.forall_mem_cons.mpr ⟨hs, hss⟩)
termination_by 4 * Clause.weightAll cs + 1
decreasing_by
  · simp only [Clause.weightAll]; omega
  · have := c.head.weight_pos
    simp only [Clause.weightAll, Clause.weight]; omega

theorem statement_minds (here : Scope) (c : Clause) : Minds here (statement c) (Stmt.Scoped here) := by
  rw [statement]
  split
  · exact minds_fail _ _
  · rename_i t _
    split
    · exact (nameStatement_minds _).mono fun s hs => hs here
    · split
      · exact (declaration_minds _ _).mono fun s hs => hs here
      split
      · exact conditional_minds here t c.after
      split
      · refine minds_bind (forHeader_minds t c.after) fun header hheader => ?_
        obtain ⟨init, test, step⟩ := header
        refine minds_bind minds_scope fun scope hscope => ?_
        refine minds_bind (minds_within (body_minds _ c.after.tail)) fun body hbody => ?_
        refine minds_bind (expectEnd_minds _) fun _ _ => minds_newStmt fun n => .intro trivial ?_
        have hclauses := List.forall_mem_append.mpr ⟨hheader.1, hheader.2⟩
        exact List.forall_mem_append.mpr ⟨fun s hs => hclauses s hs _, hscope ▸ hbody⟩
      split
      · refine minds_bind (condition_minds t c.after) fun test _ => ?_
        refine minds_bind minds_scope fun scope hscope => ?_
        refine minds_bind (minds_within (body_minds _ c.after.tail)) fun body hbody => ?_
        exact minds_bind (expectEnd_minds _) fun _ _ => minds_newStmt fun n => .intro trivial (hscope ▸ hbody)
      split
      · refine minds_bind (defHeader_reads c.after.inside_self).minds fun header _ => ?_
        refine minds_bind minds_scope fun scope hscope => ?_
        refine minds_bind (minds_within (body_minds _ c.after.tail.tail)) fun body hbody => ?_
        exact minds_bind (expectEnd_minds _) fun _ _ => minds_newStmt fun n => .intro trivial (hscope ▸ hbody)
      split
      · refine minds_bind (className_reads c.after.inside_self).minds fun name _ => ?_
        refine minds_bind (classBases_reads c.after.tail.inside_self).minds fun bases _ => ?_
        refine minds_bind (minds_within (body_minds _ (afterBases c.after.tail))) fun members hmembers => ?_
        refine minds_bind (expectEnd_minds _) fun _ _ => minds_bind (checkMembers_minds _) fun _ _ => ?_
        exact minds_newStmt fun n => .intro trivial hmembers
      split
      · exact returnStatement_minds _ _
      split
      · exact loopStatement_minds _ _
      · exact minds_fail _ _
    · exact minds_fail _ _
termination_by 4 * c.weight
decreasing_by
  all_goals
    have := c.after.weight_tail_le
    have := c.after.tail.weight_tail_le
    have := weight_afterBases_le c.after.tail
    obtain ⟨t, hhead⟩ : ∃ t, c.head = .leaf t := ⟨_, by assumption⟩
    simp only [Clause.weight, hhead, weight]
    simp only [Clause.after, Stretch.weight] at *
    omega

theorem conditional_minds (here : Scope) (word : Token) (r : Stretch) :
    Minds here (conditional word r) (Stmt.Scoped here) := by
  rw [conditional]
  refine minds_bind (condition_minds word r) fun test _ => minds_bind (body_minds here r.tail) fun yes hyes => ?_
  dsimp only
  split
  · split
    · rename_i nested rest _
      refine minds_bind (conditional_minds here nested rest) fun no hno => minds_newStmt fun n => .intro trivial ?_
      exact List.forall_mem_append.mpr ⟨hyes, List.forall_mem_singleton.mpr hno⟩
    · refine minds_bind (body_minds here r.tail.tail.tail) fun no hno => minds_bind (expectEnd_minds _) fun _ _ => ?_
      exact minds_newStmt fun n => .intro trivial (List.forall_mem_append.mpr ⟨hyes, hno⟩)
  · refine minds_bind (expectEnd_minds _) fun _ _ => minds_newStmt fun n => .intro trivial ?_
    exact List.forall_mem_append.mpr ⟨hyes, List.forall_mem_nil _⟩
termination_by 4 * r.weight + 2
decreasing_by
  all_goals
    have := r.weight_tail_le
    have := r.tail.weight_tail_le
    have := r.tail.tail.weight_tail_le
    try have := weight_elseIf (by assumption)
    omega

theorem body_minds (here : Scope) (r : Stretch) : Minds here (body r) fun ss => ∀ s ∈ ss, s.Scoped here := by
  rw [body]
  split
  · rename_i inside closer _ _
    split
    · exact sequence_minds here (statements closer inside)
    · exact minds_fail _ _
  · exact minds_fail _ _
termination_by 4 * r.weight + 1
decreasing_by
  have := weightAll_statements_lt (by assumption)
  omega

end

end Parse

/-! ## Places of statements -/

namespace Stmt

def isReturn : Stmt → Bool
  | .ret .. => true
  | _ => false

/-- `break` or `continue`. -/
def isJump : Stmt → Bool
  | .brk _ | .cont _ => true
  | _ => false

def isLoop : Stmt → Bool
  | .forLoop .. | .whileLoop .. => true
  | _ => false

def isFunction : Stmt → Bool
  | .define .. => true
  | _ => false

/-- A function or a class. -/
def isDefinition : Stmt → Bool
  | .define .. | .defineClass .. => true
  | _ => false

end Stmt

/-- The statement stands in the program, and these are around it, the innermost first. -/
inductive Program.Places (p : Program) : List Stmt → Stmt → Prop
  | top {s : Stmt} (mem : s ∈ p.statements) : Places p [] s
  | inner {around : List Stmt} {s t : Stmt} (outer : Places p around s) (mem : t ∈ s.children) :
    Places p (s :: around) t

/-- The counts that the parser has in the middle of these statements. -/
def Scope.amid : List Stmt → Scope
  | [] => {}
  | s :: around => (Scope.amid around).inside s

/-- Functions are counted from the innermost class on. -/
theorem Scope.function_of_amid {around : List Stmt} (h : (Scope.amid around).defs ≠ 0) :
    ∃ d, around.find? Stmt.isDefinition = some d ∧ d.isFunction = true := by
  induction around with
  | nil => exact absurd rfl h
  | cons s around ih =>
    cases s with
    | define => exact ⟨_, rfl, rfl⟩
    -- a class starts to count anew
    | defineClass => exact absurd rfl h
    | _ => exact ih h

/-- Loops are counted from the innermost function or class on. -/
theorem Scope.loop_of_amid {around : List Stmt} (h : (Scope.amid around).loops ≠ 0) :
    ∃ l, around.find? (fun s => s.isLoop || s.isDefinition) = some l ∧ l.isLoop = true := by
  induction around with
  | nil => exact absurd rfl h
  | cons s around ih =>
    cases s with
    | forLoop | whileLoop => exact ⟨_, rfl, rfl⟩
    | define | defineClass => exact absurd rfl h
    | _ => exact ih h

theorem Program.Places.scoped {p : Program} (hscoped : ∀ s ∈ p.statements, s.Scoped {}) {around : List Stmt} {s : Stmt}
    (h : p.Places around s) : s.Scoped (Scope.amid around) := by
  induction h with
  | top mem => exact hscoped _ mem
  | inner _ mem ih =>
    cases ih with
    | intro _ inner => exact inner _ mem

namespace SourceFile

theorem parseStatements_minds (f : SourceFile) (tokens : List Token) (here : Scope) :
    Parse.Minds here (f.parseStatements tokens) fun ss => ∀ s ∈ ss, s.Scoped here := by
  unfold parseStatements
  split
  · exact Parse.sequence_minds here _
  · exact Parse.minds_bind (Parse.sequence_minds here _) fun _ _ => Parse.minds_throw _

theorem scoped_of_parseTokens {f : SourceFile} {tokens : List Token} {p : Program} (h : f.parseTokens tokens = .ok p) :
    ∀ s ∈ p.statements, s.Scoped {} := by
  have hminds := (f.parseStatements_minds tokens {} {} rfl).2
  unfold parseTokens at h
  split at h
  · cases h
  · rename_i statements state hrun
    cases h
    rw [hrun] at hminds
    exact hminds statements rfl

/-- In a program that was read, from a text or from any tokens, the nearest function or class around a `return` is a
function, and the nearest loop, function or class around a `break` or `continue` is a loop. Reading a statement leaves
the counts of functions and loops as they were, also when it fails. -/
theorem control_scoped {f : SourceFile} {p : Program} (h : f.parse = .ok p ∨ ∃ tokens, f.parseTokens tokens = .ok p) :
    (∀ around s, p.Places around s →
      (s.isReturn = true → ∃ d, around.find? Stmt.isDefinition = some d ∧ d.isFunction = true) ∧
      (s.isJump = true →
        ∃ l, around.find? (fun s => s.isLoop || s.isDefinition) = some l ∧ l.isLoop = true)) ∧
    ∀ (c : Clause) (state : ParseState), (Parse.statement c state).2.scope = state.scope := by
  obtain ⟨tokens, htokens⟩ := h.elim exists_tokens_of_parse fun h => h
  refine ⟨fun around s hplaces => ?_, fun c state => (Parse.statement_minds state.scope c state rfl).1⟩
  cases hplaces.scoped (scoped_of_parseTokens htokens) with
  | intro allowed _ =>
    constructor
    · intro hreturn
      cases s with
      | ret => exact Scope.function_of_amid allowed
      | _ => cases hreturn
    · intro hjump
      cases s with
      | brk | cont => exact Scope.loop_of_amid allowed
      | _ => cases hjump

/-- A return in a method in a class in a function, and a break in a loop of the method. -/
def leavings : SourceFile :=
  ⟨0, "leave.uns", "def f() \x7b class C \x7b def g() \x7b for (;;) \x7b break \x7d return \x7d \x7d \x7d", 0⟩

theorem leavings_scoped :
    ∃ p around s, leavings.parse = .ok p ∧ p.Places around s ∧ around.length = 3 ∧ s.isReturn = true ∧
      ∃ d, around.find? Stmt.isDefinition = some d ∧ d.isFunction = true := by
  have hread : (leavings.parse.toOption.any fun p => p.statements.any fun f => f.children.any fun c =>
      c.children.any fun g => g.children.any Stmt.isReturn) = true := by decide +kernel
  cases hparse : leavings.parse with
  | error fault =>
    rw [hparse] at hread
    cases hread
  | ok p =>
    rw [hparse] at hread
    simp only [Except.toOption, Option.any_some, List.any_eq_true] at hread
    obtain ⟨f, hf, c, hc, g, hg, s, hs, hreturn⟩ := hread
    have hplaces : p.Places [g, c, f] s := .inner (.inner (.inner (.top hf) hc) hg) hs
    exact ⟨p, _, s, rfl, hplaces, rfl, hreturn, ((control_scoped (.inl hparse)).1 _ s hplaces).1 hreturn⟩

end SourceFile

end Bracescript
