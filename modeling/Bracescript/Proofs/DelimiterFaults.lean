import Bracescript.Proofs.Composition
import Bracescript.Proofs.Delimiters
import Bracescript.Proofs.ParserSafety

/-!
# Faults among delimiters

A list of tokens whose delimiters are nested and matched is never refused for them, and any other list is refused. When
a delimiter is said to be unclosed it is the innermost one that is open at the end, and every closing delimiter fits.
-/

namespace Bracescript

open TokenTree

/-! ## Steps on matched trees -/

/-- The codes of delimiters that are not closed. -/
def Code.ofUnclosed : List Code := [.unclosedParen, .unclosedBracket, .unclosedBrace]

/-- The codes of faults among delimiters. -/
def Code.ofDelimiters : List Code := .unbalancedClose :: ofUnclosed

theorem Code.not_mem_ofDelimiters {c : Code} (h : ofDelimiters.contains c = false) : c ∉ ofDelimiters := by
  simpa using h

namespace Parse

variable {α β : Type}

/-- The step never says that the delimiters are wrong. -/
def Spares (p : Parse α) : Prop := ∀ s e, (p s).1 = .error (.malformed e) → e.code ∉ Code.ofDelimiters

theorem spares_pure (a : α) : Spares (pure a) := fun _ _ h => by cases h

theorem spares_throw {e : SyntaxError} (h : e.code ∉ Code.ofDelimiters) : Spares (throw (.malformed e) : Parse α) := by
  intro s e' he
  cases he
  exact h

theorem spares_throw_of_ne {fault : Fault} (h : ∀ e, fault ≠ .malformed e) : Spares (throw fault : Parse α) := by
  intro s e he
  cases he
  exact absurd rfl (h e)

theorem spares_fail {cause : Cause} {t : Token} (h : Code.ofDelimiters.contains cause.code = false) :
    Spares (fail cause t : Parse α) := spares_throw (Code.not_mem_ofDelimiters h)

theorem spares_failAt {cause : Cause} {e : Expr} (h : Code.ofDelimiters.contains cause.code = false) :
    Spares (failAt cause e : Parse α) := spares_throw (Code.not_mem_ofDelimiters h)

theorem spares_bind {p : Parse α} {f : α → Parse β} (hp : Spares p) (hf : ∀ a, Spares (f a)) : Spares (p >>= f) := by
  intro s e he
  cases hrun : p s with
  | mk result s' =>
    cases result with
    | ok a =>
      rw [bind_run_ok hrun] at he
      exact hf a s' e he
    | error fault =>
      rw [bind_run_error hrun] at he
      cases he
      exact hp s e (by rw [hrun])

theorem spares_newExpr (span : Span) (pos : LineCol) (build : Node → Expr) : Spares (newExpr span pos build) :=
  fun _ _ h => by cases h

theorem spares_newStmt (span : Span) (pos : LineCol) (build : Node → Stmt) : Spares (newStmt span pos build) :=
  fun _ _ h => by cases h

theorem spares_scope : Spares scope := fun _ _ h => by cases h

theorem spares_within {p : Parse α} (there : Scope) (h : Spares p) : Spares (within there p) :=
  fun s e he => h { s with scope := there } e he

theorem spares_attempt (p : Parse α) : Spares (attempt p) := fun _ _ h => by cases h

end Parse

namespace Reduction

open Parse

theorem applyAll_spares (held : List (Bytes × Token)) (e : Expr) : Spares (applyAll held e) := by
  induction held generalizing e with
  | nil => exact spares_pure e
  | cons p held ih => exact spares_bind (spares_newExpr _ _ _) ih

mutual

theorem beforeOperand_spares (last : Option (Bytes × Token)) (held : List (Bytes × Token)) (items : List Item) :
    Spares (beforeOperand last held items) := by
  match items with
  | [] =>
    rw [beforeOperand.eq_def]
    dsimp only
    split
    · exact spares_fail rfl
    · exact spares_fail rfl
    · exact spares_pure _
  | .operand e :: rest =>
    rw [beforeOperand]
    exact spares_bind (applyAll_spares held e) fun e => behindOperand_spares e rest
  | .operator symbol token :: rest =>
    rw [beforeOperand]
    split
    · exact beforeOperand_spares last _ rest
    · exact spares_fail rfl

theorem behindOperand_spares (e : Expr) (items : List Item) : Spares (behindOperand e items) := by
  match items with
  | [] =>
    rw [behindOperand]
    exact spares_pure _
  | .operand extra :: rest =>
    rw [behindOperand]
    exact spares_failAt rfl
  | .operator symbol token :: rest =>
    rw [behindOperand]
    split
    · exact spares_bind (spares_newExpr _ _ _) fun e => behindOperand_spares e rest
    split
    · exact spares_bind (beforeOperand_spares _ _ rest) fun items => spares_pure _
    · exact spares_fail rfl

end

theorem fold_spares (slots : List Expr) (items : List Item) : Spares (fold slots items) := by
  induction items generalizing slots with
  | nil =>
    unfold fold
    split
    · exact spares_pure _
    · exact spares_throw_of_ne (by simp)
    · exact spares_failAt rfl
  | cons item items ih =>
    cases item with
    | operand e => exact ih (e :: slots)
    | operator symbol token =>
      unfold fold
      split
      · exact spares_bind (spares_newExpr _ _ _) fun e => ih (e :: _)
      · exact spares_throw_of_ne (by simp)

theorem reduce_spares (items : List Item) (place : Token) : Spares (reduce items place) := by
  induction hn : items.length using Nat.strongRecOn generalizing items place with
  | _ n ih =>
    rw [reduce]
    split
    · exact spares_fail rfl
    split
    · exact spares_bind (beforeOperand_spares none [] items) fun items => fold_spares [] _
    · rename_i test symbol mark after hmark
      have hlenMark := length_cutAtMark hmark
      split
      · exact spares_fail rfl
      split
      · exact spares_fail rfl
      · rename_i yes colon no hmatch
        have hlenMatch := length_cutAtMatch hmatch
        split
        · exact spares_fail rfl
        split
        · exact spares_fail rfl
        split
        · exact spares_fail rfl
        refine spares_bind (ih _ (by omega) test mark rfl) fun _ => ?_
        refine spares_bind (ih _ (by omega) yes colon rfl) fun _ => ?_
        exact spares_bind (ih _ (by omega) no colon rfl) fun _ => spares_newExpr _ _ _

end Reduction

namespace Parse

/-! ## Expressions -/

theorem spares_newIdent (t : Token) : Spares (newIdent t) := spares_newExpr _ _ _

theorem spares_return {p : Parse α} {g : α → β} (h : Spares p) : Spares (do return g (← p)) :=
  spares_bind h fun _ => spares_pure _

theorem code_of_numberKind {digits suffix text : Bytes} {cause : Cause}
    (h : numberKind digits suffix text = .error cause) : cause.code = .badNumber := by
  unfold numberKind at h
  dsimp only at h
  split at h
  · cases h
  split at h
  · cases h
  split at h
  · cases h
  split at h
  · cases h
    rfl
  · split at h
    · cases h
      rfl
    · cases h

theorem tokenItem_spares (t : Token) : Spares (tokenItem t) := by
  unfold tokenItem
  split
  · exact spares_return (spares_newIdent t)
  · exact spares_return (spares_newExpr _ _ _)
  · split
    · rename_i cause hcause
      exact spares_fail (by rw [code_of_numberKind hcause]; rfl)
    · exact spares_return (spares_newExpr _ _ _)
  · exact spares_pure _
  · split
    · exact spares_pure _
    · exact spares_fail rfl
  · exact spares_fail rfl

mutual

theorem collect_spares (items : List Item) (trees : List TokenTree) (stop : Token) :
    Spares (collect items trees stop) := by
  match trees with
  | [] =>
    rw [collect]
    exact spares_pure _
  | .leaf t :: rest =>
    rw [collect.eq_def]
    dsimp only
    split
    · split
      · rename_i target before
        split
        · rename_i name more
          split
          · exact spares_bind (spares_newExpr _ _ _) fun e => collect_spares (.operand e :: before) more stop
          · exact spares_fail rfl
        · exact spares_fail rfl
      · exact spares_fail rfl
    · exact spares_bind (tokenItem_spares t) fun item => collect_spares (item :: items) rest stop
  | .group opener inside closer :: rest =>
    rw [collect.eq_def]
    dsimp only
    split
    · split
      · rename_i callee before
        refine spares_bind (arguments_spares _) fun args => ?_
        exact spares_bind (spares_newExpr _ _ _) fun e => collect_spares (.operand e :: before) rest stop
      · split
        · exact spares_fail rfl
        · exact spares_bind (expression_spares ⟨inside, closer⟩) fun e => collect_spares (.operand e :: items) rest stop
    · split
      · rename_i target before
        exact spares_bind (subscript_spares target inside closer) fun e =>
          collect_spares (.operand e :: before) rest stop
      · exact spares_fail rfl
    · exact spares_fail rfl
termination_by 4 * weightAll trees
decreasing_by
  all_goals
    subst_vars
    simp only [weightAll, weight, Stretch.weight]
    first
    | omega
    | split
      · simp only [Stretch.weightAll]; omega
      · rw [weightAll_splitAt]; omega

theorem subscript_spares (target : Expr) (inside : List TokenTree) (closer : Token) :
    Spares (subscript target inside closer) := by
  rw [subscript]
  split
  · exact spares_fail rfl
  · split
    · exact spares_bind (expression_spares ⟨inside, closer⟩) fun index => spares_newExpr _ _ _
    · rename_i before colon after _
      refine spares_bind (bound_spares ⟨before, colon⟩) fun start => ?_
      exact spares_bind (bound_spares ⟨after, closer⟩) fun stop => spares_newExpr _ _ _
termination_by 4 * weightAll inside + 3
decreasing_by
  · simp only [Stretch.weight]; omega
  all_goals
    have := weightAll_cutAtColon (by assumption)
    simp only [Stretch.weight]; omega

theorem bound_spares (r : Stretch) : Spares (bound r) := by
  rw [bound]
  split
  · exact spares_pure _
  · exact spares_return (expression_spares r)
termination_by 4 * r.weight + 2

theorem arguments_spares (rs : List Stretch) : Spares (arguments rs) := by
  match rs with
  | [] =>
    rw [arguments]
    exact spares_pure _
  | r :: rs =>
    rw [arguments]
    split
    · exact spares_fail rfl
    · split
      · exact spares_fail rfl
      · exact spares_bind (expression_spares r) fun value => spares_return (arguments_spares rs)
termination_by 4 * Stretch.weightAll rs
decreasing_by
  all_goals
    simp only [Stretch.weightAll]
    omega

theorem expression_spares (r : Stretch) : Spares (expression r) := by
  rw [expression]
  split
  · exact spares_fail rfl
  · exact spares_bind (collect_spares [] r.trees r.stop) fun items => Reduction.reduce_spares items r.first
termination_by 4 * r.weight + 1
decreasing_by simp only [Stretch.weight]; omega

end

/-! ## Statements -/

theorem exprStatement_spares (r : Stretch) : Spares (exprStatement r) :=
  spares_bind (expression_spares r) fun _ => spares_newStmt _ _ _

theorem declaredValue_spares (constant : Bool) (name : Token) (r : Stretch) : Spares (declaredValue constant name r) := by
  unfold declaredValue
  split
  · split
    · exact spares_fail rfl
    · exact spares_pure _
  · split
    · exact spares_return (expression_spares _)
    · exact spares_fail rfl

theorem declaration_spares (word : Token) (r : Stretch) : Spares (declaration word r) := by
  unfold declaration
  split
  · split
    · refine spares_bind (declaredValue_spares _ _ _) fun value => spares_bind (spares_newIdent _) fun target => ?_
      dsimp only
      split
      · exact spares_bind (spares_newIdent _) fun type => spares_newStmt _ _ _
      · exact spares_newStmt _ _ _
    · exact spares_fail rfl
  · exact spares_fail rfl

theorem nameStatement_spares (r : Stretch) : Spares (nameStatement r) := by
  unfold nameStatement
  refine spares_bind (spares_attempt _) fun result => ?_
  split
  · exact spares_pure _
  · refine spares_bind (spares_attempt _) fun result => ?_
    split
    · exact spares_pure _
    · exact spares_throw (Code.not_mem_ofDelimiters rfl)
    · rename_i hfault
      exact spares_throw_of_ne fun e he => hfault e (by rw [he])
  · rename_i hfault
    exact spares_throw_of_ne fun e he => hfault e (by rw [he])

theorem simpleStatement_spares (r : Stretch) : Spares (simpleStatement r) := by
  unfold simpleStatement
  split
  · exact spares_pure _
  · split
    · exact spares_return (declaration_spares _ _)
    · split
      · exact spares_return (nameStatement_spares r)
      · exact spares_return (exprStatement_spares r)
  · exact spares_return (exprStatement_spares r)

theorem returnStatement_spares (word : Token) (r : Stretch) : Spares (returnStatement word r) := by
  refine spares_bind spares_scope fun scope => ?_
  split
  · exact spares_fail rfl
  · exact spares_bind (bound_spares r) fun value => spares_newStmt _ _ _

theorem loopStatement_spares (word : Token) (r : Stretch) : Spares (loopStatement word r) := by
  refine spares_bind spares_scope fun scope => ?_
  split
  · exact spares_fail rfl
  · split
    · exact spares_fail rfl
    · exact spares_newStmt _ _ _

/-! ## Headers -/

theorem expectEnd_spares (r : Stretch) : Spares (expectEnd r) := by
  unfold expectEnd
  split
  · exact spares_pure _
  · exact spares_fail rfl

theorem condition_spares (word : Token) (r : Stretch) : Spares (condition word r) := by
  unfold condition
  split
  · split
    · refine spares_bind (expression_spares _) fun test => ?_
      split
      · exact spares_pure _
      · exact spares_fail rfl
    · exact spares_fail rfl
  · exact spares_fail rfl

theorem forHeader_spares (word : Token) (r : Stretch) : Spares (forHeader word r) := by
  unfold forHeader
  split
  · split
    · split
      · refine spares_bind (simpleStatement_spares _) fun init => spares_bind (bound_spares _) fun test => ?_
        exact spares_bind (simpleStatement_spares _) fun step => spares_pure _
      · exact spares_fail rfl
    · exact spares_fail rfl
  · exact spares_fail rfl

theorem parameterName_spares (place : Token) (head : List TokenTree) : Spares (parameterName place head) := by
  unfold parameterName
  split
  · split
    · exact spares_pure _
    · exact spares_fail rfl
  · split
    · exact spares_bind (spares_newIdent _) fun _ => spares_pure _
    · exact spares_fail rfl
  · exact spares_fail rfl

theorem optional_spares (r : Option Stretch) : Spares (optional r) := by
  cases r with
  | none => exact spares_pure _
  | some r => exact spares_return (expression_spares r)

theorem parameters_spares (seen : List Bytes) (rs : List Stretch) : Spares (parameters seen rs) := by
  induction rs generalizing seen with
  | nil => exact spares_pure _
  | cons r rs ih =>
    rw [parameters]
    split
    · exact spares_fail rfl
    · refine spares_bind (parameterName_spares _ _) fun named => ?_
      dsimp only
      split
      · exact spares_fail rfl
      · exact spares_bind (optional_spares _) fun value => spares_return (ih _)

theorem defHeader_spares (r : Stretch) : Spares (defHeader r) := by
  unfold defHeader
  split
  · split
    · split
      · split
        · exact spares_return (parameters_spares _ _)
        · exact spares_fail rfl
      · exact spares_fail rfl
    · exact spares_fail rfl
  · exact spares_fail rfl

theorem expressions_spares (rs : List Stretch) : Spares (expressions rs) := by
  induction rs with
  | nil => exact spares_pure _
  | cons r rs ih => exact spares_bind (expression_spares r) fun e => spares_return ih

theorem className_spares (r : Stretch) : Spares (className r) := by
  unfold className
  split
  · split
    · exact spares_pure _
    · exact spares_fail rfl
  · exact spares_fail rfl

theorem classBases_spares (r : Stretch) : Spares (classBases r) := by
  unfold classBases
  split
  · split
    · exact expressions_spares _
    · exact spares_pure _
  · exact spares_pure _

theorem checkMembers_spares (ss : List Stmt) : Spares (checkMembers ss) := by
  induction ss with
  | nil => exact spares_pure _
  | cons s ss ih =>
    rw [checkMembers]
    split
    · exact ih
    · exact spares_throw (Code.not_mem_ofDelimiters rfl)

/-! ## Statements with a block -/

mutual

theorem sequence_spares (cs : List Clause) : Spares (sequence cs) := by
  match cs with
  | [] =>
    rw [sequence]
    exact spares_pure _
  | c :: cs =>
    rw [sequence]
    exact spares_bind (statement_spares c) fun s => spares_return (sequence_spares cs)
termination_by 4 * Clause.weightAll cs + 1
decreasing_by
  · simp only [Clause.weightAll]; omega
  · have := c.head.weight_pos
    simp only [Clause.weightAll, Clause.weight]; omega

theorem statement_spares (c : Clause) : Spares (statement c) := by
  rw [statement]
  split
  · exact spares_fail rfl
  · rename_i t _
    split
    · exact nameStatement_spares _
    · split
      · exact declaration_spares _ _
      split
      · exact conditional_spares t c.after
      split
      · refine spares_bind (forHeader_spares t c.after) fun header => spares_bind spares_scope fun scope => ?_
        refine spares_bind (spares_within _ (body_spares c.after.tail)) fun body => ?_
        exact spares_bind (expectEnd_spares _) fun _ => spares_newStmt _ _ _
      split
      · refine spares_bind (condition_spares t c.after) fun test => spares_bind spares_scope fun scope => ?_
        refine spares_bind (spares_within _ (body_spares c.after.tail)) fun body => ?_
        exact spares_bind (expectEnd_spares _) fun _ => spares_newStmt _ _ _
      split
      · refine spares_bind (defHeader_spares c.after) fun header => spares_bind spares_scope fun scope => ?_
        refine spares_bind (spares_within _ (body_spares c.after.tail.tail)) fun body => ?_
        exact spares_bind (expectEnd_spares _) fun _ => spares_newStmt _ _ _
      split
      · refine spares_bind (className_spares c.after) fun name => ?_
        refine spares_bind (classBases_spares c.after.tail) fun bases => ?_
        refine spares_bind (spares_within _ (body_spares (afterBases c.after.tail))) fun members => ?_
        refine spares_bind (expectEnd_spares _) fun _ => spares_bind (checkMembers_spares members) fun _ => ?_
        exact spares_newStmt _ _ _
      split
      · exact returnStatement_spares _ _
      split
      · exact loopStatement_spares _ _
      · exact spares_fail rfl
    · exact spares_fail rfl
termination_by 4 * c.weight
decreasing_by
  all_goals
    have := c.after.weight_tail_le
    have := c.after.tail.weight_tail_le
    have := weight_afterBases_le c.after.tail
    obtain ⟨t, hhead⟩ : ∃ t, c.head = .leaf t := ⟨_, by assumption⟩
    simp only [Clause.weight, hhead, weight]
    simp only [Clause.after, Stretch.weight] at *
    omega

theorem conditional_spares (word : Token) (r : Stretch) : Spares (conditional word r) := by
  rw [conditional]
  refine spares_bind (condition_spares word r) fun test => spares_bind (body_spares r.tail) fun yes => ?_
  dsimp only
  split
  · split
    · rename_i nested rest _
      exact spares_bind (conditional_spares nested rest) fun no => spares_newStmt _ _ _
    · refine spares_bind (body_spares r.tail.tail.tail) fun no => ?_
      exact spares_bind (expectEnd_spares _) fun _ => spares_newStmt _ _ _
  · exact spares_bind (expectEnd_spares _) fun _ => spares_newStmt _ _ _
termination_by 4 * r.weight + 2
decreasing_by
  all_goals
    have := r.weight_tail_le
    have := r.tail.weight_tail_le
    have := r.tail.tail.weight_tail_le
    try have := weight_elseIf (by assumption)
    omega

theorem body_spares (r : Stretch) : Spares (body r) := by
  rw [body]
  split
  · rename_i opener inside closer rest hcons
    have hlight : Clause.weightAll (statements closer inside) < r.weight := by
      have := weightAll_statements closer inside
      simp only [Stretch.weight, hcons, weightAll, weight]
      omega
    split
    · exact sequence_spares (statements closer inside)
    · exact spares_fail rfl
  · exact spares_fail rfl
termination_by 4 * r.weight + 1

end

end Parse

/-! ## Programs -/

/-- The code of a delimiter of this kind that is still open. -/
def TokenKind.unclosedCode? : TokenKind → Option Code
  | .leftParen => some .unclosedParen
  | .leftBracket => some .unclosedBracket
  | .leftBrace => some .unclosedBrace
  | _ => none

theorem LeavesOpen.isOpener {ts os : List Token} {o : Token} (h : LeavesOpen ts (o :: os)) :
    o.kind.isOpener = true := by
  cases h
  assumption

theorem unclosedCode_of_isOpener {o : Token} (h : o.kind.isOpener = true) :
    o.kind.unclosedCode? = some (Cause.unclosed o.kind o.text).code := by
  cases hkind : o.kind <;> rw [hkind] at h <;> first | rfl | cases h

theorem nest_fault {tokens : List Token} {trees : List TokenTree} {e : SyntaxError}
    (h : nest (significant tokens) = (trees, some e)) : IsDelimiterFault (significant tokens) e :=
  nestFrom_fault [] [] (significant tokens) (fun _ h => by cases h) trivial h

namespace SourceFile

variable {f : SourceFile} {tokens : List Token}

/-- Only nesting finds faults among the delimiters: the parser goes over matched trees. -/
theorem nest_of_ofDelimiters {e : SyntaxError} (h : f.parseTokens tokens = .error (.malformed e))
    (hcode : e.code ∈ Code.ofDelimiters) : ∃ trees, nest (significant tokens) = (trees, some e) := by
  have hrun := parseStatements_of_parseTokens h
  rw [parseStatements] at hrun
  cases hnest : nest (significant tokens) with
  | mk trees fault =>
    rw [hnest] at hrun
    cases fault with
    | none => exact absurd hcode (Parse.sequence_spares _ _ _ hrun)
    | some fault =>
      dsimp only at hrun
      cases hsequence : Parse.sequence (splitStatements f.endToken [] trees).1 {} with
      | mk result s =>
        cases result with
        | ok ss =>
          rw [Parse.bind_run_ok hsequence] at hrun
          cases hrun
          exact ⟨trees, rfl⟩
        | error fault =>
          rw [Parse.bind_run_error hsequence] at hrun
          cases hrun
          exact absurd hcode (Parse.sequence_spares _ _ _ (by rw [hsequence]))

theorem balanced_of_parseTokens {p : Program} (h : f.parseTokens tokens = .ok p) : Balanced tokens := by
  obtain ⟨trees, -, hnest, -⟩ := parseTokens_eq_ok h
  exact balanced_of_nest hnest

theorem leavesOpen_of_unclosed {e : SyntaxError} (h : f.parseTokens tokens = .error (.malformed e))
    (hcode : e.code ∈ Code.ofUnclosed) :
    ∃ o os, LeavesOpen tokens (o :: os) ∧ e = .atToken (.unclosed o.kind o.text) o := by
  have hne : e.code ≠ .unbalancedClose := fun hcode' => absurd (hcode' ▸ hcode) (by decide)
  obtain ⟨trees, hnest⟩ := nest_of_ofDelimiters h (List.mem_cons_of_mem _ hcode)
  rcases nest_fault hnest with ⟨o, os, hopen, heq⟩ | hclose
  · exact ⟨o, os, hopen.of_significant rfl, heq⟩
  · exact absurd hclose hne

end SourceFile

end Bracescript
