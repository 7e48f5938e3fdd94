import Bracescript.Proofs.Ownership

/-!
# How a forest grows

Each step of the parser keeps its forest sound: it owns the nodes of its value, and what it has taken is used up.
-/

namespace Bracescript

open TokenTree Parse

/-! ## Reduction -/

def Item.branches : Item → List Branch
  | .operand e => [.expr e]
  | .operator .. => []

/-- The operands among items. -/
def operandsOf (items : List Item) : List Branch := items.flatMap Item.branches

@[simp]
theorem operandsOf_append (xs ys : List Item) : operandsOf (xs ++ ys) = operandsOf xs ++ operandsOf ys :=
  List.flatMap_append

@[simp]
theorem operandsOf_operator (symbol : Bytes) (token : Token) (items : List Item) :
    operandsOf (.operator symbol token :: items) = operandsOf items := rfl

@[simp]
theorem operandsOf_operand (e : Expr) (items : List Item) :
    operandsOf (.operand e :: items) = .expr e :: operandsOf items := rfl

namespace Reduction

theorem applyAll_turns (held : List (Bytes × Token)) (e : Expr) :
    Turns [.expr e] (applyAll held e) fun e => [.expr e] := by
  induction held generalizing e with
  | nil => exact turns_pure .rfl
  | cons p held ih => exact turns_chain (turns_newExpr _ (fun _ => rfl) fun _ => .rfl) fun e => ih e

mutual

theorem beforeOperand_turns (last : Option (Bytes × Token)) (held : List (Bytes × Token)) (items : List Item) :
    Turns (operandsOf items) (beforeOperand last held items) operandsOf := by
  match items with
  | [] =>
    rw [beforeOperand.eq_def]
    dsimp only
    split
    · exact turns_fail _ _
    · exact turns_fail _ _
    · exact turns_pure .rfl
  | .operand e :: rest =>
    rw [beforeOperand]
    exact turns_front _ (applyAll_turns held e) fun e => behindOperand_turns e rest
  | .operator symbol token :: rest =>
    rw [beforeOperand]
    split
    · exact beforeOperand_turns last _ rest
    · exact turns_fail _ _

theorem behindOperand_turns (e : Expr) (items : List Item) :
    Turns (.expr e :: operandsOf items) (behindOperand e items) operandsOf := by
  match items with
  | [] =>
    rw [behindOperand]
    exact turns_pure .rfl
  | .operand extra :: rest =>
    rw [behindOperand]
    exact turns_failAt _ _
  | .operator symbol token :: rest =>
    rw [behindOperand]
    split
    · refine turns_front _ (turns_newExpr [.expr e] (fun _ => rfl) fun _ => .rfl) fun e => ?_
      exact behindOperand_turns e rest
    split
    · exact turns_back [.expr e] (beforeOperand_turns _ _ rest) fun items => turns_pure .rfl
    · exact turns_fail _ _

end

theorem behindOperands_perm (pending items : List Item) :
    (operandsOf (behindOperands pending items)).Perm (operandsOf pending ++ operandsOf items) := by
  induction items generalizing pending with
  | nil => simp [behindOperands, operandsOf]
  | cons item items ih =>
    cases item with
    | operand e => exact ((ih pending).cons _).trans List.perm_middle.symm
    | operator symbol token =>
      have hrest := ih (.operator symbol token :: pending.dropWhile (Item.bindsTighterThan symbol))
      have hpending : operandsOf pending = operandsOf (pending.takeWhile (Item.bindsTighterThan symbol))
          ++ operandsOf (pending.dropWhile (Item.bindsTighterThan symbol)) := by
        rw [← operandsOf_append, List.takeWhile_append_dropWhile]
      rw [behindOperands, operandsOf_append, hpending, List.append_assoc]
      exact hrest.append_left _

theorem fold_turns (slots : List Expr) (items : List Item) :
    Turns (slots.map .expr ++ operandsOf items) (fold slots items) fun e => [.expr e] := by
  induction items generalizing slots with
  | nil =>
    unfold fold
    split
    · rename_i e hslots
      rw [List.reverse_eq_cons_iff] at hslots
      obtain rfl : slots = [e] := by simpa using hslots
      exact turns_pure .rfl
    · exact turns_throw _
    · exact turns_failAt _ _
  | cons item items ih =>
    cases item with
    | operand e =>
      rw [fold]
      exact (ih (e :: slots)).perm List.perm_middle
    | operator symbol token =>
      unfold fold
      split
      · rename_i right left slots
        show Turns ([.expr right, .expr left] ++ (slots.map .expr ++ operandsOf items)) _ _
        exact turns_front _ (turns_newExpr _ (fun _ => rfl) fun _ => .swap _ _ _) fun e => ih (e :: slots)
      · exact turns_throw _

theorem binaries_turns (items : List Item) : Turns (operandsOf items) (binaries items) fun e => [.expr e] :=
  (fold_turns [] _).perm (behindOperands_perm [] items).symm

theorem reduce_turns (items : List Item) (place : Token) :
    Turns (operandsOf items) (reduce items place) fun e => [.expr e] := by
  induction hn : items.length using Nat.strongRecOn generalizing items place with
  | _ n ih =>
    rw [reduce]
    split
    · exact turns_fail _ _
    split
    · exact turns_chain (beforeOperand_turns none [] items) binaries_turns
    · rename_i test symbol mark after hmark
      have hlenMark := length_cutAtMark hmark
      obtain ⟨rfl, -, -⟩ := Grammar.cutAtMark_eq_some hmark
      split
      · exact turns_fail _ _
      split
      · exact turns_fail _ _
      · rename_i yes colon no hmatch
        have hlenMatch := length_cutAtMatch hmatch
        obtain rfl := Grammar.cutAtMatch_eq_some hmatch
        split
        · exact turns_fail _ _
        split
        · exact turns_fail _ _
        split
        · exact turns_fail _ _
        -- the three parts are disjoint, and each is reduced to one operand in the presence of the others
        have hoperands :
            operandsOf (test ++ Grammar.operatorItem (symbol, mark) :: (yes ++ .operator ":" colon :: no)) =
              operandsOf test ++ (operandsOf yes ++ operandsOf no) := by
          simp [Grammar.operatorItem]
        rw [hoperands]
        refine turns_front _ (ih _ (by omega) test mark rfl) fun a => ?_
        refine turns_bind [.expr a] (operandsOf no) (ih _ (by omega) yes colon rfl) fun b => ?_
        refine turns_back [.expr a, .expr b] (ih _ (by omega) no colon rfl) fun c => ?_
        exact turns_newExpr _ (fun _ => rfl) fun _ => .rfl

end Reduction

/-! ## Expressions -/

namespace Parse

def exprOption (e : Option Expr) : List Branch := e.toList.map .expr

def argExprs (args : List (Argument Expr)) : List Branch := (args.flatMap Argument.exprs).map .expr

theorem turns_operand {p : Parse Expr} (h : Turns [] p fun e => [.expr e]) :
    Turns [] (do return Item.operand (← p)) Item.branches := turns_chain h fun _ => turns_pure .rfl

theorem tokenItem_turns (t : Token) : Turns [] (tokenItem t) Item.branches := by
  unfold tokenItem
  split
  · exact turns_operand (turns_newIdent t)
  · exact turns_operand (turns_newExpr _ (fun _ => rfl) fun _ => .nil)
  · split
    · exact turns_fail _ _
    · exact turns_operand (turns_newExpr _ (fun _ => rfl) fun _ => .nil)
  · exact turns_pure .nil
  · split
    · exact turns_pure .nil
    · exact turns_fail _ _
  · exact turns_fail _ _

mutual

theorem collect_turns (items : List Item) (trees : List TokenTree) (stop : Token) :
    Turns (operandsOf items) (collect items trees stop) operandsOf := by
  match trees with
  | [] =>
    rw [collect]
    exact turns_pure ((List.reverse_perm items).flatMap_right _).symm
  | .leaf t :: rest =>
    rw [collect.eq_def]
    dsimp only
    split
    · split
      · rename_i target before
        split
        · rename_i name more
          split
          · refine turns_front _ (turns_newExpr [.expr target] (fun _ => rfl) fun _ => .rfl) fun e => ?_
            exact collect_turns (.operand e :: before) more stop
          · exact turns_fail _ _
        · exact turns_fail _ _
      · exact turns_fail _ _
    · exact turns_front (operandsOf items) (tokenItem_turns t) fun item => collect_turns (item :: items) rest stop
  | .group opener inside closer :: rest =>
    rw [collect.eq_def]
    dsimp only
    split
    · split
      · rename_i callee before
        refine turns_bind [.expr callee] (operandsOf before) (arguments_turns _) fun args => ?_
        refine turns_front (operandsOf before)
          (turns_newExpr (.expr callee :: argExprs args) (fun _ => rfl) fun _ => .rfl) fun e => ?_
        exact collect_turns (.operand e :: before) rest stop
      · split
        · exact turns_fail _ _
        · refine turns_front (operandsOf items) (expression_turns ⟨inside, closer⟩) fun e => ?_
          exact collect_turns (.operand e :: items) rest stop
    · split
      · rename_i target before
        refine turns_front (operandsOf before) (subscript_turns target inside closer) fun e => ?_
        exact collect_turns (.operand e :: before) rest stop
      · exact turns_fail _ _
    · exact turns_fail _ _
termination_by 4 * weightAll trees
decreasing_by
  all_goals
    subst_vars
    simp only [weightAll, weight, Stretch.weight]
    first
    | omega
    | split
      · simp only [Stretch.weightAll]; omega
      · rw [weightAll_splitAt]; omega

theorem subscript_turns (target : Expr) (inside : List TokenTree) (closer : Token) :
    Turns [.expr target] (subscript target inside closer) fun e => [.expr e] := by
  rw [subscript]
  split
  · exact turns_fail _ _
  · split
    · refine turns_step (expression_turns ⟨inside, closer⟩) fun index => ?_
      exact turns_newExpr _ (fun _ => rfl) fun _ => .rfl
    · rename_i before colon after _
      refine turns_step (bound_turns ⟨before, colon⟩) fun start => ?_
      refine turns_step (bound_turns ⟨after, closer⟩) fun stop => ?_
      refine turns_newExpr _ (fun _ => rfl) fun _ => .of_eq ?_
      simp [Branch.children, Expr.children, exprOption]
termination_by 4 * weightAll inside + 3
decreasing_by
  · simp only [Stretch.weight]; omega
  all_goals
    have := weightAll_cutAtColon (by assumption)
    simp only [Stretch.weight]; omega

theorem bound_turns (r : Stretch) : Turns [] (bound r) exprOption := by
  rw [bound]
  split
  · exact turns_pure .nil
  · exact turns_chain (expression_turns r) fun _ => turns_pure .rfl
termination_by 4 * r.weight + 2

theorem arguments_turns (rs : List Stretch) : Turns [] (arguments rs) argExprs := by
  match rs with
  | [] =>
    rw [arguments]
    exact turns_pure .nil
  | r :: rs =>
    rw [arguments]
    split
    · exact turns_fail _ _
    · split
      · exact turns_fail _ _
      · refine turns_chain (expression_turns r) fun value => turns_step (arguments_turns rs) fun args => turns_pure ?_
        exact .rfl
termination_by 4 * Stretch.weightAll rs
decreasing_by
  all_goals
    simp only [Stretch.weightAll]
    omega

theorem expression_turns (r : Stretch) : Turns [] (expression r) fun e => [.expr e] := by
  rw [expression]
  split
  · exact turns_fail _ _
  · exact turns_chain (collect_turns [] r.trees r.stop) fun items => Reduction.reduce_turns items r.first
termination_by 4 * r.weight + 1
decreasing_by simp only [Stretch.weight]; omega

end

/-! ## Statements without a block -/

def stmtOption (s : Option Stmt) : List Branch := s.toList.map .stmt

theorem exprStatement_turns (r : Stretch) : Turns [] (exprStatement r) fun s => [.stmt s] :=
  turns_chain (expression_turns r) fun _ => turns_newStmt _ (fun _ => rfl) fun _ => .rfl

theorem declaredValue_turns (constant : Bool) (name : Token) (r : Stretch) :
    Turns [] (declaredValue constant name r) exprOption := by
  unfold declaredValue
  split
  · split
    · exact turns_fail _ _
    · exact turns_pure .nil
  · split
    · exact turns_chain (expression_turns _) fun _ => turns_pure .rfl
    · exact turns_fail _ _

theorem declaration_turns (word : Token) (r : Stretch) : Turns [] (declaration word r) fun s => [.stmt s] := by
  unfold declaration
  split
  · split
    · refine turns_chain (declaredValue_turns _ _ _) fun value => ?_
      refine turns_front (exprOption value) (turns_newIdent _) fun target => ?_
      dsimp only
      split
      · refine turns_front (.expr target :: exprOption value) (turns_newIdent _) fun type => ?_
        refine turns_newStmt _ (fun _ => rfl) fun _ => .of_eq ?_
        simp [Branch.children, Stmt.exprs, Stmt.children, exprOption]
      · refine turns_newStmt _ (fun _ => rfl) fun _ => .of_eq ?_
        simp [Branch.children, Stmt.exprs, Stmt.children, exprOption]
    · exact turns_fail _ _
  · exact turns_fail _ _

theorem assignTo_turns (r : Stretch) (before : List TokenTree) (equals : Token) (after : List TokenTree) :
    Turns [] (assignment.assignTo r before equals after) fun s => [.stmt s] := by
  refine turns_chain (expression_turns _) fun target => ?_
  split
  · refine turns_step (expression_turns _) fun value => ?_
    exact turns_newStmt _ (fun _ => rfl) fun _ => .rfl
  · exact turns_failAt _ _

theorem assignment_turns (r : Stretch) : Turns [] (assignment r) fun s => [.stmt s] := by
  unfold assignment
  dsimp only
  split
  · split
    · split
      · refine turns_chain (turns_newIdent _) fun type => turns_step (turns_newIdent _) fun target => ?_
        exact turns_newStmt _ (fun _ => rfl) fun _ => .rfl
      · exact turns_fail _ _
    · exact turns_fail _ _
  · refine turns_chain (turns_newIdent _) fun target => turns_step (expression_turns _) fun value => ?_
    exact turns_newStmt _ (fun _ => rfl) fun _ => .rfl
  · split
    · split
      · refine turns_chain (turns_newIdent _) fun target => turns_step (expression_turns _) fun value => ?_
        refine turns_front [.expr target, .expr value] (turns_newIdent _) fun type => ?_
        exact turns_newStmt _ (fun _ => rfl) fun _ => .rfl
      · exact assignTo_turns _ _ _ _
    · exact assignTo_turns _ _ _ _

/-- The nodes of an assignment that was not one are given up, and those of the expression take their place. -/
theorem nameStatement_turns (r : Stretch) : Turns [] (nameStatement r) fun s => [.stmt s] := by
  unfold nameStatement
  refine turns_chain (turns_attempt (assignment_turns r)) fun result => ?_
  split
  · exact turns_pure .rfl
  · refine turns_chain (turns_attempt (exprStatement_turns r)) fun result => ?_
    split
    · exact turns_pure .rfl
    · exact turns_throw _
    · exact turns_throw _
  · exact turns_throw _

theorem turns_clause {p : Parse Stmt} (h : Turns [] p fun s => [.stmt s]) :
    Turns [] (do return some (← p)) stmtOption :=
  turns_chain h fun _ => turns_pure .rfl

theorem simpleStatement_turns (r : Stretch) : Turns [] (simpleStatement r) stmtOption := by
  unfold simpleStatement
  split
  · exact turns_pure .nil
  · split
    · exact turns_clause (declaration_turns _ _)
    · split
      · exact turns_clause (nameStatement_turns r)
      · exact turns_clause (exprStatement_turns r)
  · exact turns_clause (exprStatement_turns r)

theorem returnStatement_turns (word : Token) (r : Stretch) : Turns [] (returnStatement word r) fun s => [.stmt s] := by
  refine turns_chain turns_scope fun scope => ?_
  split
  · exact turns_fail _ _
  · refine turns_chain (bound_turns r) fun value => turns_newStmt _ (fun _ => rfl) fun _ => .of_eq ?_
    simp [Branch.children, Stmt.exprs, Stmt.children, exprOption]

theorem loopStatement_turns (word : Token) (r : Stretch) : Turns [] (loopStatement word r) fun s => [.stmt s] := by
  refine turns_chain turns_scope fun scope => ?_
  split
  · exact turns_fail _ _
  · split
    · exact turns_fail _ _
    · refine turns_newStmt _ (fun _ => ?_) fun _ => ?_
      · split <;> rfl
      · split <;> exact .nil

/-! ## Headers -/

theorem expectEnd_turns (xs : List Branch) (r : Stretch) : Turns xs (expectEnd r) fun _ => xs := by
  unfold expectEnd
  split
  · exact turns_pure .rfl
  · exact turns_fail _ _

theorem condition_turns (word : Token) (r : Stretch) : Turns [] (condition word r) fun e => [.expr e] := by
  unfold condition
  split
  · split
    · refine turns_chain (expression_turns _) fun test => ?_
      split
      · exact turns_pure .rfl
      · exact turns_fail _ _
    · exact turns_fail _ _
  · exact turns_fail _ _

/-- The condition is what a `for` loop refers to first, though it stands behind the first clause. -/
theorem forHeader_turns (word : Token) (r : Stretch) :
    Turns [] (forHeader word r) fun header =>
      exprOption header.2.1 ++ stmtOption header.1 ++ stmtOption header.2.2 := by
  unfold forHeader
  split
  · split
    · split
      · refine turns_chain (simpleStatement_turns _) fun init => ?_
        refine turns_front (stmtOption init) (bound_turns _) fun test => ?_
        exact turns_step (simpleStatement_turns _) fun step => turns_pure .rfl
      · exact turns_fail _ _
    · exact turns_fail _ _
  · exact turns_fail _ _

theorem parameterName_turns (place : Token) (head : List TokenTree) :
    Turns [] (parameterName place head) fun name => exprOption name.1 := by
  unfold parameterName
  split
  · split
    · exact turns_pure .nil
    · exact turns_fail _ _
  · split
    · exact turns_chain (turns_newIdent _) fun type => turns_pure .rfl
    · exact turns_fail _ _
  · exact turns_fail _ _

theorem optional_turns (r : Option Stretch) : Turns [] (optional r) exprOption := by
  cases r with
  | none => exact turns_pure .nil
  | some r => exact turns_chain (expression_turns r) fun _ => turns_pure .rfl

theorem parameters_turns (seen : List Bytes) (rs : List Stretch) : Turns [] (parameters seen rs) argExprs := by
  induction rs generalizing seen with
  | nil => exact turns_pure .nil
  | cons r rs ih =>
    rw [parameters]
    split
    · exact turns_fail _ _
    · refine turns_chain (parameterName_turns _ _) fun named => ?_
      obtain ⟨type, name⟩ := named
      dsimp only
      split
      · exact turns_fail _ _
      · refine turns_step (optional_turns _) fun value => turns_step (ih _) fun params => turns_pure (.of_eq ?_)
        simp [argExprs, exprOption, Argument.exprs]

theorem defHeader_turns (r : Stretch) : Turns [] (defHeader r) fun header => argExprs header.2 := by
  unfold defHeader
  split
  · split
    · split
      · split
        · exact turns_chain (parameters_turns [] _) fun params => turns_pure .rfl
        · exact turns_fail _ _
      · exact turns_fail _ _
    · exact turns_fail _ _
  · exact turns_fail _ _

theorem expressions_turns (rs : List Stretch) : Turns [] (expressions rs) fun es => es.map .expr := by
  induction rs with
  | nil => exact turns_pure .nil
  | cons r rs ih => exact turns_chain (expression_turns r) fun e => turns_step ih fun es => turns_pure .rfl

theorem className_turns (r : Stretch) : Turns [] (className r) fun _ => [] := by
  unfold className
  split
  · split
    · exact turns_pure .nil
    · exact turns_fail _ _
  · exact turns_fail _ _

theorem classBases_turns (r : Stretch) : Turns [] (classBases r) fun es => es.map .expr := by
  unfold classBases
  split
  · split
    · exact expressions_turns _
    · exact turns_pure .nil
  · exact turns_pure .nil

theorem checkMembers_turns (xs : List Branch) (ss : List Stmt) : Turns xs (checkMembers ss) fun _ => xs := by
  induction ss with
  | nil => exact turns_pure .rfl
  | cons s ss ih =>
    rw [checkMembers]
    split
    · exact ih
    · exact turns_throw _

/-! ## Statements with a block -/

def stmtList (ss : List Stmt) : List Branch := ss.map .stmt

mutual

theorem sequence_turns (cs : List Clause) : Turns [] (sequence cs) stmtList := by
  match cs with
  | [] =>
    rw [sequence]
    exact turns_pure .nil
  | c :: cs =>
    rw [sequence]
    exact turns_chain (statement_turns c) fun s => turns_step (sequence_turns cs) fun ss => turns_pure .rfl
termination_by 4 * Clause.weightAll cs + 1
decreasing_by
  · simp only [Clause.weightAll]; omega
  · have := c.head.weight_pos
    simp only [Clause.weightAll, Clause.weight]; omega

theorem statement_turns (c : Clause) : Turns [] (statement c) fun s => [.stmt s] := by
  rw [statement]
  split
  · exact turns_fail _ _
  · rename_i t _
    split
    · exact nameStatement_turns _
    · split
      · exact declaration_turns _ _
      split
      · exact conditional_turns t c.after
      split
      · refine turns_chain (forHeader_turns t c.after) fun header => ?_
        obtain ⟨init, test, step⟩ := header
        refine turns_step turns_scope fun scope => ?_
        refine turns_step (turns_within (body_turns c.after.tail)) fun body => ?_
        refine turns_chain (expectEnd_turns _ _) fun _ => turns_newStmt _ (fun _ => rfl) fun _ => .of_eq ?_
        simp [Branch.children, Stmt.exprs, Stmt.children, exprOption, stmtOption, stmtList]
      split
      · refine turns_chain (condition_turns t c.after) fun test => ?_
        refine turns_step turns_scope fun scope => ?_
        refine turns_step (turns_within (body_turns c.after.tail)) fun body => ?_
        refine turns_chain (expectEnd_turns _ _) fun _ => turns_newStmt _ (fun _ => rfl) fun _ => .of_eq ?_
        simp [Branch.children, Stmt.exprs, Stmt.children, stmtList]
      split
      · refine turns_chain (defHeader_turns c.after) fun header => ?_
        refine turns_step turns_scope fun scope => ?_
        refine turns_step (turns_within (body_turns c.after.tail.tail)) fun body => ?_
        refine turns_chain (expectEnd_turns _ _) fun _ => turns_newStmt _ (fun _ => rfl) fun _ => .of_eq ?_
        simp [Branch.children, Stmt.exprs, Stmt.children, argExprs, stmtList]
      split
      · refine turns_chain (className_turns c.after) fun name => ?_
        refine turns_chain (classBases_turns c.after.tail) fun bases => ?_
        refine turns_step (turns_within (body_turns (afterBases c.after.tail))) fun members => ?_
        refine turns_chain (expectEnd_turns _ _) fun _ => turns_chain (checkMembers_turns _ _) fun _ => ?_
        exact turns_newStmt _ (fun _ => rfl) fun _ => .rfl
      split
      · exact returnStatement_turns _ _
      split
      · exact loopStatement_turns _ _
      · exact turns_fail _ _
    · exact turns_fail _ _
termination_by 4 * c.weight
decreasing_by
  all_goals
    have := c.after.weight_tail_le
    have := c.after.tail.weight_tail_le
    have := weight_afterBases_le c.after.tail
    obtain ⟨t, hhead⟩ : ∃ t, c.head = .leaf t := ⟨_, by assumption⟩
    simp only [Clause.weight, hhead, weight]
    simp only [Clause.after, Stretch.weight] at *
    omega

theorem conditional_turns (word : Token) (r : Stretch) : Turns [] (conditional word r) fun s => [.stmt s] := by
  rw [conditional]
  refine turns_chain (condition_turns word r) fun test => turns_step (body_turns r.tail) fun yes => ?_
  dsimp only
  split
  · split
    · rename_i nested rest _
      refine turns_step (conditional_turns nested rest) fun no => turns_newStmt _ (fun _ => rfl) fun _ => .of_eq ?_
      simp [Branch.children, Stmt.exprs, Stmt.children, stmtList]
    · refine turns_step (body_turns r.tail.tail.tail) fun no => turns_chain (expectEnd_turns _ _) fun _ => ?_
      refine turns_newStmt _ (fun _ => rfl) fun _ => .of_eq ?_
      simp [Branch.children, Stmt.exprs, Stmt.children, stmtList]
  · refine turns_chain (expectEnd_turns _ _) fun _ => turns_newStmt _ (fun _ => rfl) fun _ => .of_eq ?_
    simp [Branch.children, Stmt.exprs, Stmt.children, stmtList]
termination_by 4 * r.weight + 2
decreasing_by
  all_goals
    have := r.weight_tail_le
    have := r.tail.weight_tail_le
    have := r.tail.tail.weight_tail_le
    try have := weight_elseIf (by assumption)
    omega

theorem body_turns (r : Stretch) : Turns [] (body r) stmtList := by
  rw [body]
  split
  · rename_i inside closer _ _
    split
    · exact sequence_turns (statements closer inside)
    · exact turns_fail _ _
  · exact turns_fail _ _
termination_by 4 * r.weight + 1
decreasing_by
  have := weightAll_statements_lt (by assumption)
  omega

end

end Parse

namespace SourceFile

theorem parseStatements_turns (f : SourceFile) (tokens : List Token) :
    Turns [] (f.parseStatements tokens) stmtList := by
  unfold parseStatements
  split
  · exact sequence_turns _
  · exact turns_chain (sequence_turns _) fun _ => turns_throw _

/-- The forest of a program owns its statements. -/
theorem owns_of_parseTokens {f : SourceFile} {tokens : List Token} {p : Program} (h : f.parseTokens tokens = .ok p) :
    p.forest.Owns (p.statements.map .stmt) := by
  have hturns := (f.parseStatements_turns tokens {} [] Forest.owns_empty).2
  unfold parseTokens at h
  split at h
  · cases h
  · rename_i statements state hrun
    cases h
    rw [hrun] at hturns
    have howns := hturns statements rfl
    rwa [List.append_nil] at howns

end SourceFile

end Bracescript
