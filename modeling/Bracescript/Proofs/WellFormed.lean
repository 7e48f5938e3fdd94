import Bracescript.Parse
import Bracescript.Proofs.Grammar

/-!
# Well-formed trees

What holds of every tree that the parser makes: operators stand in their tables, literals have a known kind, arguments
and targets are of the kinds that a program may have, and nothing is missing.
-/

namespace Bracescript

open Item

inductive Expr.WellFormed : Expr → Prop
  | ident {n : Node} {name : Bytes} : WellFormed (.ident n name)
  | literal {n : Node} {kind : LiteralKind} {value : Bytes} (known : kind ∈ LiteralKind.all) :
    WellFormed (.literal n kind value)
  | front {n : Node} {symbol : Bytes} {operand : Expr} (known : isUnary symbol = true)
    (operand_ok : WellFormed operand) : WellFormed (.unary n symbol operand false)
  | behind {n : Node} {symbol : Bytes} {operand : Expr} (known : isBehind symbol = true)
    (operand_ok : WellFormed operand) : WellFormed (.unary n symbol operand true)
  | binary {n : Node} {symbol : Bytes} {left right : Expr} (known : isBinary symbol = true) (left_ok : WellFormed left)
    (right_ok : WellFormed right) : WellFormed (.binary n symbol left right)
  | ternary {n : Node} {test yes no : Expr} (test_ok : WellFormed test) (yes_ok : WellFormed yes)
    (no_ok : WellFormed no) : WellFormed (.ternary n test yes no)
  | member {n : Node} {target : Expr} {field : Bytes} (target_ok : WellFormed target) :
    WellFormed (.member n target field)
  /-- An argument is a value without a name. -/
  | call {n : Node} {target : Expr} {args : List (Argument Expr)} (target_ok : WellFormed target)
    (plain : ∀ a ∈ args, a.isPlain = true ∧ a.value.isSome = true)
    (args_ok : ∀ a ∈ args, ∀ e, a.value = some e → WellFormed e) : WellFormed (.call n target args)
  | index {n : Node} {target index : Expr} (target_ok : WellFormed target) (index_ok : WellFormed index) :
    WellFormed (.index n target index)
  | slice {n : Node} {target : Expr} {start stop : Option Expr} (target_ok : WellFormed target)
    (start_ok : ∀ e, start = some e → WellFormed e) (stop_ok : ∀ e, stop = some e → WellFormed e) :
    WellFormed (.slice n target start stop)

inductive Stmt.WellFormed : Stmt → Prop
  | expr {n : Node} {e : Expr} (expr_ok : e.WellFormed) : WellFormed (.expr n e)
  /-- A constant has a value. -/
  | declare {n m : Node} {constant : Bool} {name : Bytes} {value : Option Expr}
    (given : constant = true → value.isSome = true) (value_ok : ∀ e, value = some e → e.WellFormed) :
    WellFormed (.assign n true constant (.ident m name) value)
  | typed {n m k : Node} {constant : Bool} {type name : Bytes} {value : Option Expr}
    (given : constant = true → value.isSome = true) (value_ok : ∀ e, value = some e → e.WellFormed) :
    WellFormed (.typed n (.ident m type) constant (.ident k name) value)
  | change {n m : Node} {name : Bytes} {value : Expr} (value_ok : value.WellFormed) :
    WellFormed (.assign n false false (.ident m name) (some value))
  | changePart {n : Node} {target value : Expr} (part : Parse.isAssignable target = true)
    (target_ok : target.WellFormed) (value_ok : value.WellFormed) :
    WellFormed (.assign n false false target (some value))
  | conditional {n : Node} {test : Expr} {yes no : List Stmt} (test_ok : test.WellFormed)
    (yes_ok : ∀ s ∈ yes, WellFormed s) (no_ok : ∀ s ∈ no, WellFormed s) : WellFormed (.conditional n test yes no)
  | forLoop {n : Node} {init step : Option Stmt} {test : Option Expr} {body : List Stmt}
    (init_ok : ∀ s, init = some s → WellFormed s) (test_ok : ∀ e, test = some e → e.WellFormed)
    (step_ok : ∀ s, step = some s → WellFormed s) (body_ok : ∀ s ∈ body, WellFormed s) :
    WellFormed (.forLoop n init test step body)
  | whileLoop {n : Node} {test : Expr} {body : List Stmt} (test_ok : test.WellFormed)
    (body_ok : ∀ s ∈ body, WellFormed s) : WellFormed (.whileLoop n test body)
  /-- No two parameters have one name. -/
  | define {n : Node} {name : Bytes} {params : List (Argument Expr)} {body : List Stmt}
    (distinct : (params.map Argument.name).Nodup) (types_ok : ∀ p ∈ params, ∀ e, p.type = some e → e.WellFormed)
    (defaults_ok : ∀ p ∈ params, ∀ e, p.value = some e → e.WellFormed) (body_ok : ∀ s ∈ body, WellFormed s) :
    WellFormed (.define n name params body)
  | defineClass {n : Node} {name : Bytes} {bases : List Expr} {body : List Stmt} (bases_ok : ∀ e ∈ bases, e.WellFormed)
    (members : ∀ s ∈ body, Parse.isClassMember s = true) (body_ok : ∀ s ∈ body, WellFormed s) :
    WellFormed (.defineClass n name bases body)
  | ret {n : Node} {value : Option Expr} (value_ok : ∀ e, value = some e → e.WellFormed) : WellFormed (.ret n value)
  | brk {n : Node} : WellFormed (.brk n)
  | cont {n : Node} : WellFormed (.cont n)

/-! ## Reduction -/

/-- A well-formed operand, or any operator. -/
def Item.WellFormed : Item → Prop
  | .operand e => e.WellFormed
  | .operator .. => True

namespace Grammar

theorem wellFormed_inFront {front : List (Bytes × Token)} {base e : Expr} (hfront : ∀ p ∈ front, isUnary p.1 = true)
    (hbase : base.WellFormed) (h : InFront front base e) : e.WellFormed := by
  induction front generalizing e with
  | nil =>
    obtain rfl : e = base := h
    exact hbase
  | cons p front ih =>
    obtain ⟨n, inner, rfl, hinner⟩ := h
    exact .front (hfront p List.mem_cons_self) (ih (fun q hq => hfront q (List.mem_cons_of_mem _ hq)) hinner)

theorem wellFormed_behind {back : List (Bytes × Token)} {base e : Expr} (hback : ∀ p ∈ back, isBehind p.1 = true)
    (hbase : base.WellFormed) (h : Behind back base e) : e.WellFormed := by
  induction back generalizing base with
  | nil =>
    obtain rfl : e = base := h
    exact hbase
  | cons p back ih =>
    obtain ⟨n, hrest⟩ := h
    exact ih (fun q hq => hback q (List.mem_cons_of_mem _ hq)) (.behind (hback p List.mem_cons_self) hbase) hrest

theorem Affixed.wellFormed_of_shapes {u : Affixed} {e : Expr} (hu : ∀ i ∈ u.items, i.WellFormed) (h : u.Shapes e) :
    e.WellFormed := by
  obtain ⟨inner, hfront, hback⟩ := h
  have hoperand : u.operand.WellFormed := hu (.operand u.operand) (by simp [Affixed.items])
  exact wellFormed_behind u.back_behind (wellFormed_inFront u.front_unary hoperand hfront) hback

/-- A well-formed operand, or an operator with two operands. -/
def Linked : Item → Prop
  | .operand e => e.WellFormed
  | .operator symbol _ => isBinary symbol = true

theorem Chain.linked_of_lists {c : Chain} {items : List Item} (hc : ∀ i ∈ c.items, i.WellFormed) (h : c.Lists items) :
    ∀ i ∈ items, Linked i := by
  induction c generalizing items with
  | one u =>
    obtain ⟨e, rfl, he⟩ := h
    intro i hi
    obtain rfl := List.mem_singleton.mp hi
    exact Affixed.wellFormed_of_shapes hc he
  | link u symbol token binary rest ih =>
    obtain ⟨e, tail, rfl, he, htail⟩ := h
    intro i hi
    rw [List.mem_cons, List.mem_cons] at hi
    rcases hi with rfl | rfl | hi
    · exact Affixed.wellFormed_of_shapes (fun i hi => hc i (List.mem_append_left _ hi)) he
    · exact binary
    · exact ih (fun i hi => hc i (List.mem_append_right _ (List.mem_cons_of_mem _ hi))) htail i hi

theorem wellFormed_of_holds {t : OpTree} {old : Nat} {e : Expr} (ht : ∀ i ∈ t.items, Linked i) (h : t.Holds old e) :
    e.WellFormed := by
  induction t generalizing e with
  | atom operand =>
    obtain rfl : e = operand := h
    exact ht (.operand e) List.mem_cons_self
  | node symbol token left right ihleft ihright =>
    obtain ⟨n, a, b, rfl, -, ha, hb⟩ := h
    have hleft := ihleft (fun i hi => ht i (List.mem_append_left _ hi)) ha
    have hright := ihright (fun i hi => ht i (List.mem_append_right _ (List.mem_cons_of_mem _ hi))) hb
    exact .binary (ht (.operator symbol token) (List.mem_append_right _ List.mem_cons_self)) hleft hright

theorem Choice.wellFormed_of_shapes {d : Choice} {e : Expr} (hd : ∀ i ∈ d.items, i.WellFormed) (h : d.Shapes e) :
    e.WellFormed := by
  induction d generalizing e with
  | chain c =>
    obtain ⟨t, hlists, -, hholds⟩ := h
    exact wellFormed_of_holds (Chain.linked_of_lists hd hlists) hholds
  | choose test question yes colon no ihyes ihno =>
    obtain ⟨n, a, b, c, rfl, ⟨t, hlists, -, hholds⟩, hb, hc⟩ := h
    simp only [Choice.items, List.mem_append, List.mem_cons] at hd
    have htest := Chain.linked_of_lists (fun i hi => hd i (.inl hi)) hlists
    exact .ternary (wellFormed_of_holds htest hholds) (ihyes (fun i hi => hd i (.inr (.inr (.inl hi)))) hb)
      (ihno (fun i hi => hd i (.inr (.inr (.inr (.inr hi))))) hc)

end Grammar

theorem Reduction.reduce_delivers {items : List Item} (place : Token) (h : ∀ i ∈ items, i.WellFormed) :
    Parse.Delivers (reduce items place) Expr.WellFormed := by
  rcases Grammar.choice_or_rejects items place with ⟨d, rfl⟩ | hreject
  · exact (Grammar.reduce_succeeds d place).delivers fun _ e he => Grammar.Choice.wellFormed_of_shapes h he
  · exact hreject.delivers

/-! ## Expressions -/

theorem LiteralKind.known_of_integerSuffix {suffix : Bytes} {kind : LiteralKind}
    (h : ofIntegerSuffix? suffix = some kind) : kind ∈ all := by
  unfold ofIntegerSuffix? at h
  repeat' split at h
  all_goals
    cases h
    try decide

theorem known_of_numberKind {digits suffix text : Bytes} {kind : LiteralKind}
    (h : numberKind digits suffix text = .ok kind) : kind ∈ LiteralKind.all := by
  simp only [numberKind] at h
  split at h
  · obtain rfl := Except.ok.inj h
    split <;> decide
  split at h
  · obtain rfl := Except.ok.inj h
    decide
  split at h
  · obtain rfl := Except.ok.inj h
    decide
  split at h
  · simp at h
  · rename_i known hknown
    split at h
    · simp at h
    · obtain rfl := Except.ok.inj h
      exact LiteralKind.known_of_integerSuffix hknown

namespace Parse

open TokenTree

theorem tokenItem_delivers (t : Token) : Delivers (tokenItem t) Item.WellFormed := by
  unfold tokenItem
  split
  · exact delivers_bind (delivers_newExpr fun _ => .ident) fun e he => delivers_pure he
  · exact delivers_bind (delivers_newExpr fun _ => .literal (by decide)) fun e he => delivers_pure he
  · split
    · exact delivers_fail _ _
    · rename_i kind hkind
      exact delivers_bind (delivers_newExpr fun _ => .literal (known_of_numberKind hkind)) fun e he => delivers_pure he
  · exact delivers_pure trivial
  · split
    · exact delivers_pure trivial
    · exact delivers_fail _ _
  · exact delivers_fail _ _

/-- A plain argument with a well-formed value. -/
def IsValue (a : Argument Expr) : Prop :=
  (a.isPlain = true ∧ a.value.isSome = true) ∧ ∀ e, a.value = some e → e.WellFormed

-- The parsers call each other, and so do their lemmas: each one falls by the measure of its parser.
mutual

theorem collect_delivers (items : List Item) (trees : List TokenTree) (stop : Token)
    (h : ∀ i ∈ items, i.WellFormed) : Delivers (collect items trees stop) fun read => ∀ i ∈ read, i.WellFormed := by
  match trees with
  | [] =>
    rw [collect]
    exact delivers_pure fun i hi => h i (List.mem_reverse.mp hi)
  | .leaf t :: rest =>
    rw [collect.eq_def]
    dsimp only
    split
    · split
      · rename_i target before
        obtain ⟨htarget, hbefore⟩ := List.forall_mem_cons.mp h
        split
        · rename_i name more
          split
          · refine delivers_bind (P := Expr.WellFormed) (delivers_newExpr fun _ => .member htarget) fun e he => ?_
            exact collect_delivers _ more stop (List.forall_mem_cons.mpr ⟨he, hbefore⟩)
          · exact delivers_fail _ _
        · exact delivers_fail _ _
      · exact delivers_fail _ _
    · refine delivers_bind (tokenItem_delivers t) fun item hitem => ?_
      exact collect_delivers _ rest stop (List.forall_mem_cons.mpr ⟨hitem, h⟩)
  | .group opener inside closer :: rest =>
    rw [collect.eq_def]
    dsimp only
    split
    · split
      · rename_i callee before
        obtain ⟨hcallee, hbefore⟩ := List.forall_mem_cons.mp h
        refine delivers_bind (arguments_delivers _) fun args hargs => ?_
        refine delivers_bind (P := Expr.WellFormed) (delivers_newExpr fun _ => ?_) fun e he => ?_
        · exact .call hcallee (fun a ha => (hargs a ha).1) fun a ha => (hargs a ha).2
        · exact collect_delivers _ rest stop (List.forall_mem_cons.mpr ⟨he, hbefore⟩)
      · split
        · exact delivers_fail _ _
        · refine delivers_bind (expression_delivers ⟨inside, closer⟩) fun e he => ?_
          exact collect_delivers _ rest stop (List.forall_mem_cons.mpr ⟨he, h⟩)
    · split
      · rename_i target before
        obtain ⟨htarget, hbefore⟩ := List.forall_mem_cons.mp h
        refine delivers_bind (subscript_delivers target inside closer htarget) fun e he => ?_
        exact collect_delivers _ rest stop (List.forall_mem_cons.mpr ⟨he, hbefore⟩)
      · exact delivers_fail _ _
    · exact delivers_fail _ _
termination_by 4 * weightAll trees
decreasing_by
  all_goals
    subst_vars
    simp only [weightAll, weight, Stretch.weight]
    first
    | omega
    | split
      · simp only [Stretch.weightAll]; omega
      · rw [weightAll_splitAt]; omega

theorem subscript_delivers (target : Expr) (inside : List TokenTree) (closer : Token) (h : target.WellFormed) :
    Delivers (subscript target inside closer) Expr.WellFormed := by
  rw [subscript]
  split
  · exact delivers_fail _ _
  · split
    · refine delivers_bind (expression_delivers ⟨inside, closer⟩) fun index hindex => ?_
      exact delivers_newExpr fun _ => .index h hindex
    · rename_i before colon after _
      refine delivers_bind (bound_delivers ⟨before, colon⟩) fun start hstart => ?_
      refine delivers_bind (bound_delivers ⟨after, closer⟩) fun stop hstop => ?_
      exact delivers_newExpr fun _ => .slice h hstart hstop
termination_by 4 * weightAll inside + 3
decreasing_by
  · simp only [Stretch.weight]; omega
  all_goals
    have := weightAll_cutAtColon (by assumption)
    simp only [Stretch.weight]; omega

theorem bound_delivers (r : Stretch) : Delivers (bound r) fun value => ∀ e, value = some e → e.WellFormed := by
  rw [bound]
  split
  · exact delivers_none
  · exact delivers_some (expression_delivers r)
termination_by 4 * r.weight + 2

theorem arguments_delivers (rs : List Stretch) : Delivers (arguments rs) fun args => ∀ a ∈ args, IsValue a := by
  match rs with
  | [] =>
    rw [arguments]
    exact delivers_pure (List.forall_mem_nil _)
  | r :: rs =>
    rw [arguments]
    split
    · exact delivers_fail _ _
    · split
      · exact delivers_fail _ _
      · refine delivers_bind (expression_delivers r) fun value hvalue => ?_
        refine delivers_bind (arguments_delivers rs) fun args hargs => delivers_pure ?_
        refine List.forall_mem_cons.mpr ⟨⟨⟨rfl, rfl⟩, ?_⟩, hargs⟩
        rintro _ ⟨⟩
        exact hvalue
termination_by 4 * Stretch.weightAll rs
decreasing_by
  all_goals
    simp only [Stretch.weightAll]
    omega

theorem expression_delivers (r : Stretch) : Delivers (expression r) Expr.WellFormed := by
  rw [expression]
  split
  · exact delivers_fail _ _
  · refine delivers_bind (collect_delivers [] r.trees r.stop (List.forall_mem_nil _)) fun items hitems => ?_
    exact Reduction.reduce_delivers r.first hitems
termination_by 4 * r.weight + 1
decreasing_by simp only [Stretch.weight]; omega

end

/-! ## Statements without a block -/

theorem newIdent_delivers (t : Token) : Delivers (newIdent t) fun e => ∃ n name, e = .ident n name :=
  delivers_newExpr fun n => ⟨n, t.value, rfl⟩

theorem exprStatement_delivers (r : Stretch) : Delivers (exprStatement r) Stmt.WellFormed :=
  delivers_bind (expression_delivers r) fun _ he => delivers_newStmt fun _ => .expr he

theorem declaredValue_delivers (constant : Bool) (name : Token) (r : Stretch) :
    Delivers (declaredValue constant name r) fun value =>
      (constant = true → value.isSome = true) ∧ ∀ e, value = some e → e.WellFormed := by
  unfold declaredValue
  split
  · split
    · exact delivers_fail _ _
    · rename_i hconstant
      exact delivers_pure ⟨fun h => absurd h hconstant, by simp⟩
  · split
    · refine delivers_bind (expression_delivers _) fun e he => delivers_pure ⟨fun _ => rfl, ?_⟩
      rintro _ ⟨⟩
      exact he
    · exact delivers_fail _ _

theorem declaration_delivers (word : Token) (r : Stretch) : Delivers (declaration word r) Stmt.WellFormed := by
  unfold declaration
  split
  · split
    · refine delivers_bind (declaredValue_delivers _ _ _) fun value hdeclared => ?_
      obtain ⟨hgiven, hvalue⟩ := hdeclared
      refine delivers_bind (newIdent_delivers _) ?_
      rintro _ ⟨m, name, rfl⟩
      dsimp only
      split
      · refine delivers_bind (newIdent_delivers _) ?_
        rintro _ ⟨k, type, rfl⟩
        exact delivers_newStmt fun _ => .typed hgiven hvalue
      · exact delivers_newStmt fun _ => .declare hgiven hvalue
    · exact delivers_fail _ _
  · exact delivers_fail _ _

theorem assignTo_delivers (r : Stretch) (before : List TokenTree) (equals : Token) (after : List TokenTree) :
    Delivers (assignment.assignTo r before equals after) Stmt.WellFormed := by
  refine delivers_bind (expression_delivers _) fun target htarget => ?_
  split
  · rename_i hpart
    refine delivers_bind (expression_delivers _) fun value hvalue => ?_
    exact delivers_newStmt fun _ => .changePart hpart htarget hvalue
  · exact delivers_failAt _ _

theorem assignment_delivers (r : Stretch) : Delivers (assignment r) Stmt.WellFormed := by
  unfold assignment
  dsimp only
  split
  · split
    · split
      · refine delivers_bind (newIdent_delivers _) ?_
        rintro _ ⟨m, type, rfl⟩
        refine delivers_bind (newIdent_delivers _) ?_
        rintro _ ⟨k, name, rfl⟩
        exact delivers_newStmt fun _ => .typed (by simp) (by simp)
      · exact delivers_fail _ _
    · exact delivers_fail _ _
  · refine delivers_bind (newIdent_delivers _) ?_
    rintro _ ⟨m, name, rfl⟩
    refine delivers_bind (expression_delivers _) fun value hvalue => ?_
    exact delivers_newStmt fun _ => .change hvalue
  · split
    · split
      · refine delivers_bind (newIdent_delivers _) ?_
        rintro _ ⟨k, name, rfl⟩
        refine delivers_bind (expression_delivers _) fun value hvalue => ?_
        refine delivers_bind (newIdent_delivers _) ?_
        rintro _ ⟨m, type, rfl⟩
        refine delivers_newStmt fun _ => .typed (by simp) ?_
        rintro _ ⟨⟩
        exact hvalue
      · exact assignTo_delivers _ _ _ _
    · exact assignTo_delivers _ _ _ _

theorem nameStatement_delivers (r : Stretch) : Delivers (nameStatement r) Stmt.WellFormed := by
  unfold nameStatement
  refine delivers_bind (delivers_attempt (assignment_delivers r)) fun result hresult => ?_
  split
  · exact delivers_pure hresult
  · refine delivers_bind (delivers_attempt (exprStatement_delivers r)) fun result hresult => ?_
    split
    · exact delivers_pure hresult
    · exact delivers_throw _
    · obtain ⟨e, rfl⟩ := hresult
      exact delivers_throw e
  · obtain ⟨e, rfl⟩ := hresult
    exact delivers_throw e

theorem simpleStatement_delivers (r : Stretch) :
    Delivers (simpleStatement r) fun clause => ∀ s, clause = some s → s.WellFormed := by
  unfold simpleStatement
  split
  · exact delivers_none
  · split
    · exact delivers_some (declaration_delivers _ _)
    · split
      · exact delivers_some (nameStatement_delivers r)
      · exact delivers_some (exprStatement_delivers r)
  · exact delivers_some (exprStatement_delivers r)

theorem returnStatement_delivers (word : Token) (r : Stretch) : Delivers (returnStatement word r) Stmt.WellFormed := by
  refine delivers_bind delivers_scope fun scope _ => ?_
  split
  · exact delivers_fail _ _
  · exact delivers_bind (bound_delivers r) fun value hvalue => delivers_newStmt fun _ => .ret hvalue

theorem loopStatement_delivers (word : Token) (r : Stretch) : Delivers (loopStatement word r) Stmt.WellFormed := by
  refine delivers_bind delivers_scope fun scope _ => ?_
  split
  · exact delivers_fail _ _
  · split
    · exact delivers_fail _ _
    · refine delivers_newStmt fun _ => ?_
      split
      · exact .brk
      · exact .cont

/-! ## Headers -/

theorem expectEnd_delivers (r : Stretch) : Delivers (expectEnd r) fun _ => True := by
  unfold expectEnd
  split
  · exact delivers_pure trivial
  · exact delivers_fail _ _

theorem condition_delivers (word : Token) (r : Stretch) : Delivers (condition word r) Expr.WellFormed := by
  unfold condition
  split
  · split
    · refine delivers_bind (expression_delivers _) fun test htest => ?_
      split
      · exact delivers_pure htest
      · exact delivers_fail _ _
    · exact delivers_fail _ _
  · exact delivers_fail _ _

theorem forHeader_delivers (word : Token) (r : Stretch) :
    Delivers (forHeader word r) fun (init, test, step) =>
      (∀ s, init = some s → s.WellFormed) ∧ (∀ e, test = some e → e.WellFormed) ∧
        ∀ s, step = some s → s.WellFormed := by
  unfold forHeader
  split
  · split
    · split
      · refine delivers_bind (simpleStatement_delivers _) fun init hinit => ?_
        refine delivers_bind (bound_delivers _) fun test htest => ?_
        refine delivers_bind (simpleStatement_delivers _) fun step hstep => ?_
        exact delivers_pure ⟨hinit, htest, hstep⟩
      · exact delivers_fail _ _
    · exact delivers_fail _ _
  · exact delivers_fail _ _

theorem parameterName_delivers (place : Token) (head : List TokenTree) :
    Delivers (parameterName place head) fun (type, _) => ∀ e, type = some e → e.WellFormed := by
  unfold parameterName
  split
  · split
    · exact delivers_pure (by simp)
    · exact delivers_fail _ _
  · split
    · refine delivers_bind (newIdent_delivers _) ?_
      rintro _ ⟨n, name, rfl⟩
      refine delivers_pure ?_
      rintro _ ⟨⟩
      exact .ident
    · exact delivers_fail _ _
  · exact delivers_fail _ _

theorem optional_delivers (r : Option Stretch) :
    Delivers (optional r) fun value => ∀ e, value = some e → e.WellFormed := by
  cases r with
  | none => exact delivers_none
  | some r => exact delivers_some (expression_delivers r)

/-- Parameters with names that are new and differ, and whose types and defaults are well-formed. -/
structure AreParameters (seen : List Bytes) (params : List (Argument Expr)) : Prop where
  fresh : ∀ p ∈ params, p.name ∉ seen
  distinct : (params.map Argument.name).Nodup
  types_ok : ∀ p ∈ params, ∀ e, p.type = some e → e.WellFormed
  defaults_ok : ∀ p ∈ params, ∀ e, p.value = some e → e.WellFormed

theorem areParameters_cons {seen : List Bytes} {p : Argument Expr} {params : List (Argument Expr)}
    (hname : p.name ∉ seen) (htype : ∀ e, p.type = some e → e.WellFormed)
    (hvalue : ∀ e, p.value = some e → e.WellFormed) (h : AreParameters (p.name :: seen) params) :
    AreParameters seen (p :: params) where
  fresh := List.forall_mem_cons.mpr ⟨hname, fun q hq hseen => h.fresh q hq (List.mem_cons_of_mem _ hseen)⟩
  distinct := by
    rw [List.map_cons, List.nodup_cons, List.mem_map]
    refine ⟨?_, h.distinct⟩
    rintro ⟨q, hq, hsame⟩
    exact h.fresh q hq (hsame ▸ List.mem_cons_self)
  types_ok := List.forall_mem_cons.mpr ⟨htype, h.types_ok⟩
  defaults_ok := List.forall_mem_cons.mpr ⟨hvalue, h.defaults_ok⟩

theorem parameters_delivers (seen : List Bytes) (rs : List Stretch) :
    Delivers (parameters seen rs) (AreParameters seen) := by
  induction rs generalizing seen with
  | nil =>
    exact delivers_pure ⟨List.forall_mem_nil _, List.nodup_nil, List.forall_mem_nil _, List.forall_mem_nil _⟩
  | cons r rs ih =>
    rw [parameters]
    split
    · exact delivers_fail _ _
    · refine delivers_bind (parameterName_delivers _ _) fun (type, name) htype => ?_
      dsimp only
      split
      · exact delivers_fail _ _
      · rename_i hnew
        refine delivers_bind (optional_delivers _) fun value hvalue => ?_
        refine delivers_bind (ih _) fun params hparams => delivers_pure ?_
        exact areParameters_cons (fun hseen => hnew (List.contains_iff_mem.mpr hseen)) htype hvalue hparams

theorem defHeader_delivers (r : Stretch) :
    Delivers (defHeader r) fun (_, params) => AreParameters [] params := by
  unfold defHeader
  split
  · split
    · split
      · split
        · exact delivers_bind (parameters_delivers [] _) fun params hparams => delivers_pure hparams
        · exact delivers_fail _ _
      · exact delivers_fail _ _
    · exact delivers_fail _ _
  · exact delivers_fail _ _

theorem expressions_delivers (rs : List Stretch) : Delivers (expressions rs) fun es => ∀ e ∈ es, e.WellFormed := by
  induction rs with
  | nil => exact delivers_pure (List.forall_mem_nil _)
  | cons r rs ih =>
    refine delivers_bind (expression_delivers r) fun e he => ?_
    exact delivers_bind ih fun es hes => delivers_pure (List.forall_mem_cons.mpr ⟨he, hes⟩)

theorem className_delivers (r : Stretch) : Delivers (className r) fun _ => True := by
  unfold className
  split
  · split
    · exact delivers_pure trivial
    · exact delivers_fail _ _
  · exact delivers_fail _ _

theorem classBases_delivers (r : Stretch) : Delivers (classBases r) fun es => ∀ e ∈ es, e.WellFormed := by
  unfold classBases
  split
  · split
    · exact expressions_delivers _
    · exact delivers_pure (List.forall_mem_nil _)
  · exact delivers_pure (List.forall_mem_nil _)

theorem checkMembers_delivers (ss : List Stmt) :
    Delivers (checkMembers ss) fun _ => ∀ s ∈ ss, isClassMember s = true := by
  induction ss with
  | nil => exact delivers_pure (List.forall_mem_nil _)
  | cons s ss ih =>
    rw [checkMembers]
    split
    · rename_i hmember
      exact ih.mono fun _ hss => List.forall_mem_cons.mpr ⟨hmember, hss⟩
    · exact delivers_throw _

/-! ## Statements with a block -/

theorem weightAll_statements_lt {r : Stretch} {opener closer : Token} {inside rest : List TokenTree}
    (h : r.trees = .group opener inside closer :: rest) :
    Clause.weightAll (statements closer inside) < r.weight := by
  have := weightAll_statements closer inside
  simp only [Stretch.weight, h, weightAll, weight]
  omega

mutual

theorem sequence_delivers (cs : List Clause) : Delivers (sequence cs) fun ss => ∀ s ∈ ss, s.WellFormed := by
  match cs with
  | [] =>
    rw [sequence]
    exact delivers_pure (List.forall_mem_nil _)
  | c :: cs =>
    rw [sequence]
    refine delivers_bind (statement_delivers c) fun s hs => ?_
    exact delivers_bind (sequence_delivers cs) fun ss hss => delivers_pure (List.forall_mem_cons.mpr ⟨hs, hss⟩)
termination_by 4 * Clause.weightAll cs + 1
decreasing_by
  · simp only [Clause.weightAll]; omega
  · have := c.head.weight_pos
    simp only [Clause.weightAll, Clause.weight]; omega

theorem statement_delivers (c : Clause) : Delivers (statement c) Stmt.WellFormed := by
  rw [statement]
  split
  · exact delivers_fail _ _
  · rename_i t _
    split
    · exact nameStatement_delivers _
    · split
      · exact declaration_delivers _ _
      split
      · exact conditional_delivers t c.after
      split
      · refine delivers_bind (forHeader_delivers t c.after) fun header hheader => ?_
        obtain ⟨init, test, step⟩ := header
        obtain ⟨hinit, htest, hstep⟩ := hheader
        refine delivers_bind delivers_scope fun scope _ => ?_
        refine delivers_bind (delivers_within _ (body_delivers c.after.tail)) fun body hbody => ?_
        refine delivers_bind (expectEnd_delivers _) fun _ _ => ?_
        exact delivers_newStmt fun _ => .forLoop hinit htest hstep hbody
      split
      · refine delivers_bind (condition_delivers t c.after) fun test htest => ?_
        refine delivers_bind delivers_scope fun scope _ => ?_
        refine delivers_bind (delivers_within _ (body_delivers c.after.tail)) fun body hbody => ?_
        refine delivers_bind (expectEnd_delivers _) fun _ _ => ?_
        exact delivers_newStmt fun _ => .whileLoop htest hbody
      split
      · refine delivers_bind (defHeader_delivers c.after) fun (name, params) hparams => ?_
        refine delivers_bind delivers_scope fun scope _ => ?_
        refine delivers_bind (delivers_within _ (body_delivers c.after.tail.tail)) fun body hbody => ?_
        refine delivers_bind (expectEnd_delivers _) fun _ _ => ?_
        exact delivers_newStmt fun _ => .define hparams.distinct hparams.types_ok hparams.defaults_ok hbody
      split
      · refine delivers_bind (className_delivers c.after) fun name _ => ?_
        refine delivers_bind (classBases_delivers c.after.tail) fun bases hbases => ?_
        refine delivers_bind (delivers_within _ (body_delivers (afterBases c.after.tail))) fun members hmembers => ?_
        refine delivers_bind (expectEnd_delivers _) fun _ _ => ?_
        refine delivers_bind (checkMembers_delivers members) fun _ hchecked => ?_
        exact delivers_newStmt fun _ => .defineClass hbases hchecked hmembers
      split
      · exact returnStatement_delivers _ _
      split
      · exact loopStatement_delivers _ _
      · exact delivers_fail _ _
    · exact delivers_fail _ _
termination_by 4 * c.weight
decreasing_by
  all_goals
    have := c.after.weight_tail_le
    have := c.after.tail.weight_tail_le
    have := weight_afterBases_le c.after.tail
    obtain ⟨t, hhead⟩ : ∃ t, c.head = .leaf t := ⟨_, by assumption⟩
    simp only [Clause.weight, hhead, weight]
    simp only [Clause.after, Stretch.weight] at *
    omega

theorem conditional_delivers (word : Token) (r : Stretch) : Delivers (conditional word r) Stmt.WellFormed := by
  rw [conditional]
  refine delivers_bind (condition_delivers word r) fun test htest => ?_
  refine delivers_bind (body_delivers r.tail) fun yes hyes => ?_
  dsimp only
  split
  · split
    · rename_i nested rest _
      refine delivers_bind (conditional_delivers nested rest) fun no hno => ?_
      exact delivers_newStmt fun _ => .conditional htest hyes (List.forall_mem_singleton.mpr hno)
    · refine delivers_bind (body_delivers r.tail.tail.tail) fun no hno => ?_
      refine delivers_bind (expectEnd_delivers _) fun _ _ => ?_
      exact delivers_newStmt fun _ => .conditional htest hyes hno
  · refine delivers_bind (expectEnd_delivers _) fun _ _ => ?_
    exact delivers_newStmt fun _ => .conditional htest hyes (List.forall_mem_nil _)
termination_by 4 * r.weight + 2
decreasing_by
  all_goals
    have := r.weight_tail_le
    have := r.tail.weight_tail_le
    have := r.tail.tail.weight_tail_le
    try have := weight_elseIf (by assumption)
    omega

theorem body_delivers (r : Stretch) : Delivers (body r) fun ss => ∀ s ∈ ss, s.WellFormed := by
  rw [body]
  split
  · rename_i inside closer _ _
    split
    · exact sequence_delivers (statements closer inside)
    · exact delivers_fail _ _
  · exact delivers_fail _ _
termination_by 4 * r.weight + 1
decreasing_by
  have := weightAll_statements_lt (by assumption)
  omega

end

end Parse

/-! ## Programs -/

theorem SourceFile.parseStatements_delivers (f : SourceFile) (tokens : List Token) :
    Parse.Delivers (f.parseStatements tokens) fun ss => ∀ s ∈ ss, s.WellFormed := by
  unfold parseStatements
  split
  · exact Parse.sequence_delivers _
  · exact Parse.delivers_bind (Parse.sequence_delivers _) fun _ _ => Parse.delivers_throw _

end Bracescript
