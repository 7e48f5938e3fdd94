import Mathlib.Logic.Relation
import Bracescript.Target.Emit
import Bracescript.Proofs.WellFormed

/-!
# Emission of parsed programs

A well-formed program has a text, unless a class somewhere in it has two or more bases.
-/

namespace Bracescript

open Item

/-! ## Classes with many bases -/

namespace Stmt

/-- The statements that stand directly in a statement. -/
def children : Stmt → List Stmt
  | .conditional _ _ yes no => yes ++ no
  | .forLoop _ init _ step body => init.toList ++ step.toList ++ body
  | .whileLoop _ _ body | .define _ _ _ body | .defineClass _ _ _ body => body
  | _ => []

/-- The second statement stands somewhere in the first, or is the first. -/
def Reaches : Stmt → Stmt → Prop := Relation.ReflTransGen fun s t => t ∈ s.children

/-- A class with two or more bases. -/
def IsManyBased : Stmt → Prop
  | .defineClass _ _ bases _ => 2 ≤ bases.length
  | _ => False

instance : DecidablePred IsManyBased
  | .defineClass _ _ bases _ => inferInstanceAs (Decidable (2 ≤ bases.length))
  | .hole _ | .expr .. | .assign .. | .typed .. | .conditional .. | .forLoop .. | .whileLoop .. | .define .. | .ret ..
  | .brk _ | .cont _ | .bare .. => isFalse not_false

def HasManyBased (s : Stmt) : Prop := ∃ c, s.Reaches c ∧ c.IsManyBased

theorem hasManyBased_iff {s : Stmt} : s.HasManyBased ↔ s.IsManyBased ∨ ∃ t ∈ s.children, t.HasManyBased := by
  constructor
  · rintro ⟨c, hreaches, hc⟩
    rcases Relation.ReflTransGen.cases_head hreaches with rfl | ⟨t, ht, hreaches⟩
    · exact .inl hc
    · exact .inr ⟨t, ht, c, hreaches, hc⟩
  · rintro (hs | ⟨t, ht, c, hreaches, hc⟩)
    · exact ⟨s, .refl, hs⟩
    · exact ⟨c, .head ht hreaches, hc⟩

theorem hasManyBased_of_not {s : Stmt} (h : ¬s.IsManyBased) : s.HasManyBased ↔ ∃ t ∈ s.children, t.HasManyBased := by
  rw [hasManyBased_iff, or_iff_right h]

theorem not_hasManyBased {s : Stmt} (h : ¬s.IsManyBased) (hchildren : s.children = []) : ¬s.HasManyBased := by
  rw [hasManyBased_of_not h, hchildren]
  rintro ⟨t, ht, -⟩
  exact absurd ht List.not_mem_nil

end Stmt

/-! ## Tables -/

namespace Target

theorem unaryKey_of_unary {symbol : Bytes} (h : isUnary symbol = true) : (unaryKey? symbol).isSome = true := by
  have htable : ∀ s ∈ unaryOperators, (unaryKey? s).isSome = true := by decide
  exact htable symbol (List.contains_iff_mem.mp h)

theorem unaryKey_of_behind {symbol : Bytes} (h : isBehind symbol = true) : (unaryKey? symbol).isSome = true := by
  rw [isBehind, Bool.or_eq_true, beq_iff_eq, beq_iff_eq] at h
  rcases h with rfl | rfl <;> decide

theorem binaryKey_of_binary {symbol : Bytes} (h : isBinary symbol = true) : (binaryKey? symbol).isSome = true := by
  have htable : ∀ row ∈ binaryLevels, ∀ s ∈ row, (binaryKey? s).isSome = true := by decide
  have hfound : (binaryLevels.findIdx? (·.contains symbol)).isSome = true := by
    rw [isBinary, level] at h
    split at h
    · rename_i i hi
      rw [hi]
      rfl
    · simp at h
  rw [List.findIdx?_isSome, List.any_eq_true] at hfound
  obtain ⟨row, hrow, hsymbol⟩ := hfound
  exact htable row hrow symbol (List.contains_iff_mem.mp hsymbol)

theorem constructor_of_known : ∀ kind ∈ LiteralKind.all, (constructor? kind).isSome = true := by decide

end Target

/-! ## Outcomes -/

namespace Emit

variable {α β : Type} {P Q : Prop}

/-- There is a text. -/
def Emits (x : Except Unsupported α) : Prop := ∃ a, x = .ok a

/-- There is a text unless `P` holds, and then a class is to blame. -/
def Settles (P : Prop) : Except Unsupported α → Prop
  | .ok _ => ¬P
  | .error u => u.kind = StmtKind.classDefinition.name ∧ P

theorem emits_ok (a : α) : Emits (.ok a) := ⟨a, rfl⟩

theorem emits_bind {x : Except Unsupported α} {f : α → Except Unsupported β} (hx : Emits x) (hf : ∀ a, Emits (f a)) :
    Emits (x >>= f) := by
  obtain ⟨a, rfl⟩ := hx
  exact hf a

theorem Emits.settles {x : Except Unsupported α} (hx : Emits x) (hP : ¬P) : Settles P x := by
  obtain ⟨a, rfl⟩ := hx
  exact hP

theorem settles_after {x : Except Unsupported α} {f : α → Except Unsupported β} (hx : Emits x)
    (hf : ∀ a, Settles P (f a)) : Settles P (x >>= f) := by
  obtain ⟨a, rfl⟩ := hx
  exact hf a

theorem settles_bind {x : Except Unsupported α} {f : α → Except Unsupported β} (hx : Settles P x)
    (hf : ∀ a, Settles Q (f a)) : Settles (P ∨ Q) (x >>= f) := by
  cases x with
  | error u => exact ⟨hx.1, .inl hx.2⟩
  | ok a =>
    have ha := hf a
    show Settles (P ∨ Q) (f a)
    cases hfa : f a with
    | error u =>
      rw [hfa] at ha
      exact ⟨ha.1, .inr ha.2⟩
    | ok b =>
      rw [hfa] at ha
      rintro (hP | hQ)
      · exact hx hP
      · exact ha hQ

/-- What follows without a class of its own changes nothing. -/
theorem settles_map {x : Except Unsupported α} {f : α → β} (hx : Settles P x) :
    Settles P (do return f (← x)) := by
  cases x with
  | error u => exact hx
  | ok a => exact hx

theorem Settles.congr {x : Except Unsupported α} (hx : Settles P x) (hPQ : P ↔ Q) : Settles Q x := by
  rwa [← propext hPQ]

/-! ## Expressions -/

theorem argument_emits {e : Expr} (h : Emits (expr e)) : Emits (argument e) := by
  unfold argument
  split
  · exact emits_ok _
  · exact h

theorem optional_emits {value : Option Expr} (h : ∀ e, value = some e → Emits (expr e)) : Emits (optional value) := by
  cases value with
  | none => exact ⟨_, by rw [optional]⟩
  | some e =>
    rw [optional]
    exact h e rfl

theorem arguments_emits {args : List (Argument Expr)} (h : ∀ a ∈ args, ∀ e, a.value = some e → Emits (expr e)) :
    Emits (arguments args) := by
  induction args with
  | nil => exact ⟨[], by rw [arguments]⟩
  | cons a args ih =>
    obtain ⟨ha, hargs⟩ := List.forall_mem_cons.mp h
    rw [arguments]
    refine emits_bind ?_ fun text => emits_bind (ih hargs) fun texts => emits_ok _
    obtain ⟨span, pos, name, type, value⟩ := a
    rw [Emit.value]
    exact optional_emits ha

theorem expr_emits {e : Expr} (h : e.WellFormed) : Emits (expr e) := by
  induction h with
  | ident => exact ⟨_, by rw [expr]⟩
  | literal known =>
    obtain ⟨maker, hmaker⟩ := Option.isSome_iff_exists.mp (Target.constructor_of_known _ known)
    rw [expr, literal, hmaker]
    exact emits_ok _
  | front known _ ih =>
    obtain ⟨key, hkey⟩ := Option.isSome_iff_exists.mp (Target.unaryKey_of_unary known)
    rw [expr, hkey]
    exact emits_bind ih fun operand => emits_ok _
  | behind known _ ih =>
    obtain ⟨key, hkey⟩ := Option.isSome_iff_exists.mp (Target.unaryKey_of_behind known)
    rw [expr, hkey]
    exact emits_bind ih fun operand => emits_ok _
  | binary known _ _ ihleft ihright =>
    obtain ⟨key, hkey⟩ := Option.isSome_iff_exists.mp (Target.binaryKey_of_binary known)
    rw [expr, hkey]
    exact emits_bind ihleft fun left => emits_bind ihright fun right => emits_ok _
  | ternary _ _ _ ihtest ihyes ihno =>
    rw [expr]
    refine emits_bind ihtest fun test => ?_
    refine emits_bind (argument_emits ihyes) fun yes => ?_
    exact emits_bind (argument_emits ihno) fun no => emits_ok _
  | member _ ih =>
    rw [expr]
    exact emits_bind ih fun target => emits_ok _
  | @call _ _ args _ plain _ ihtarget ihargs =>
    have hplain : (args.find? fun a => !a.isPlain) = none :=
      List.find?_eq_none.mpr fun a ha => by simp [(plain a ha).1]
    rw [expr]
    refine emits_bind ihtarget fun target => ?_
    rw [hplain]
    exact emits_bind (arguments_emits ihargs) fun args => emits_ok _
  | index _ _ ihtarget ihindex =>
    rw [expr]
    refine emits_bind ihtarget fun target => ?_
    exact emits_bind (argument_emits ihindex) fun key => emits_ok _
  | slice _ _ _ ihtarget ihstart ihstop =>
    rw [expr]
    refine emits_bind ihtarget fun target => ?_
    refine emits_bind (optional_emits ihstart) fun start => ?_
    exact emits_bind (optional_emits ihstop) fun stop => emits_ok _

/-! ## Statements -/

theorem condition_emits {e : Expr} (h : e.WellFormed) : Emits (condition e) :=
  emits_bind (expr_emits h) fun _ => emits_ok _

theorem orNothing_emits {value : Option Expr} (h : ∀ e, value = some e → e.WellFormed) : Emits (orNothing value) := by
  cases value with
  | none => exact emits_ok _
  | some e => exact expr_emits (h e rfl)

theorem convert_emits {type : Expr} {value : Option Expr} (htype : type.WellFormed)
    (hvalue : ∀ e, value = some e → e.WellFormed) : Emits (convert type value) := by
  refine emits_bind (expr_emits htype) fun type => ?_
  cases value with
  | none => exact emits_ok _
  | some e => exact emits_bind (expr_emits (hvalue e rfl)) fun _ => emits_ok _

theorem change_emits {target value : Expr} (hpart : Parse.isAssignable target = true) (htarget : target.WellFormed)
    (hvalue : value.WellFormed) : Emits (change target (some value)) := by
  have hrequired : Emits (required (some value)) := expr_emits hvalue
  have hoptional : Emits (optional (some value)) := optional_emits fun e he => Option.some.inj he ▸ expr_emits hvalue
  cases htarget with
  | member hobject =>
    refine emits_bind (expr_emits hobject) fun object => ?_
    exact emits_bind hrequired fun _ => emits_ok _
  | index hobject hkey =>
    refine emits_bind (expr_emits hobject) fun object => ?_
    refine emits_bind (argument_emits (expr_emits hkey)) fun key => ?_
    exact emits_bind hoptional fun _ => emits_ok _
  | slice hobject hstart hstop =>
    refine emits_bind (expr_emits hobject) fun object => ?_
    refine emits_bind (optional_emits fun e he => expr_emits (hstart e he)) fun start => ?_
    refine emits_bind (optional_emits fun e he => expr_emits (hstop e he)) fun stop => ?_
    exact emits_bind hoptional fun _ => emits_ok _
  | _ => exact absurd hpart Bool.false_ne_true

theorem not_member_of_assignable {n : Node} {declares constant : Bool} {target : Expr} {value : Option Expr}
    (h : Parse.isAssignable target = true) : Parse.isClassMember (.assign n declares constant target value) = false := by
  cases target <;> first | rfl | exact absurd h Bool.false_ne_true

theorem parameters_emits {params : List (Argument Expr)} (h : ∀ p ∈ params, ∀ e, p.value = some e → e.WellFormed) :
    Emits (parameters params) := by
  induction params with
  | nil => exact emits_ok _
  | cons p params ih =>
    obtain ⟨hp, hparams⟩ := List.forall_mem_cons.mp h
    refine emits_bind ?_ fun text => emits_bind (ih hparams) fun _ => emits_ok _
    unfold parameter
    split
    · exact emits_ok _
    · rename_i e he
      exact emits_bind (expr_emits (hp e he)) fun _ => emits_ok _

theorem conversions_emits {params : List (Argument Expr)} (h : ∀ p ∈ params, ∀ e, p.type = some e → e.WellFormed) :
    Emits (conversions params) := by
  induction params with
  | nil => exact emits_ok _
  | cons p params ih =>
    obtain ⟨hp, hparams⟩ := List.forall_mem_cons.mp h
    unfold conversions
    split
    · exact ih hparams
    · rename_i type htype
      exact emits_bind (expr_emits (hp type htype)) fun _ => emits_bind (ih hparams) fun _ => emits_ok _

theorem settles_empty {a : α} : Settles (∃ s ∈ ([] : List Stmt), s.HasManyBased) (.ok a) := by
  rintro ⟨s, hs, -⟩
  exact absurd hs List.not_mem_nil

theorem stmts_settles : {ss : List Stmt} → (∀ s ∈ ss, Settles s.HasManyBased (stmt s)) →
    Settles (∃ s ∈ ss, s.HasManyBased) (stmts ss)
  | [], _ => by
    rw [stmts]
    exact settles_empty
  | [s], h => by
    rw [stmts]
    exact (h s List.mem_cons_self).congr (by simp)
  | s :: t :: ss, h => by
    obtain ⟨hs, hrest⟩ := List.forall_mem_cons.mp h
    rw [stmts]
    · refine (settles_bind hs fun _ => settles_map (stmts_settles hrest)).congr ?_
      simp only [List.mem_cons, exists_eq_or_imp]
    · exact List.cons_ne_nil t ss

theorem members_settles {ss : List Stmt} (h : ∀ s ∈ ss, Settles s.HasManyBased (member s)) :
    Settles (∃ s ∈ ss, s.HasManyBased) (members ss) := by
  induction ss with
  | nil =>
    rw [members]
    exact settles_empty
  | cons s ss ih =>
    obtain ⟨hs, hss⟩ := List.forall_mem_cons.mp h
    rw [members]
    refine (settles_bind hs fun _ => settles_map (ih hss)).congr ?_
    simp only [List.mem_cons, exists_eq_or_imp]

theorem step_settles {clause : Option Stmt} (h : ∀ s, clause = some s → Settles s.HasManyBased (stmt s)) :
    Settles (∃ s ∈ clause.toList, s.HasManyBased) (step? clause) := by
  cases clause with
  | none =>
    rw [step?]
    exact settles_empty
  | some s =>
    rw [step?]
    exact (h s rfl).congr (by simp)

theorem function_settles {params : List (Argument Expr)} {body : List Stmt} {f : List Bytes → Bytes → Bytes → Bytes}
    (htypes : ∀ p ∈ params, ∀ e, p.type = some e → e.WellFormed)
    (hdefaults : ∀ p ∈ params, ∀ e, p.value = some e → e.WellFormed)
    (hbody : ∀ s ∈ body, Settles s.HasManyBased (stmt s)) :
    Settles (∃ s ∈ body, s.HasManyBased) (do
      let params' ← parameters params
      let entry ← conversions params
      let body ← stmts body
      return f params' entry body) := by
  refine settles_after (parameters_emits hdefaults) fun params' => ?_
  refine settles_after (conversions_emits htypes) fun entry => ?_
  exact settles_map (stmts_settles hbody)

theorem defineClass_settles {n : Node} {name : Bytes} {bases : List Expr} {body : List Stmt}
    (hbases : ∀ e ∈ bases, e.WellFormed) (hbody : ∀ s ∈ body, Settles s.HasManyBased (member s)) :
    Settles (Stmt.defineClass n name bases body).HasManyBased (stmt (.defineClass n name bases body)) := by
  refine .congr ?_ Stmt.hasManyBased_iff.symm
  match bases with
  | [] =>
    rw [stmt]
    refine .congr (settles_map (members_settles hbody)) (or_iff_right ?_).symm
    simp [Stmt.IsManyBased]
  | [base] =>
    rw [stmt]
    · refine settles_after (expr_emits (hbases base List.mem_cons_self)) fun text => ?_
      refine .congr (settles_map (members_settles hbody)) (or_iff_right ?_).symm
      simp [Stmt.IsManyBased]
    · simp
  | _ :: _ :: bases =>
    rw [stmt]
    exact ⟨rfl, .inl (by simp [Stmt.IsManyBased])⟩

/-- A statement that holds no other. -/
theorem settles_leaf {s : Stmt} {x : Except Unsupported α} (h : Emits x) (hclass : ¬s.IsManyBased)
    (hchildren : s.children = []) : Settles s.HasManyBased x :=
  h.settles (Stmt.not_hasManyBased hclass hchildren)

theorem settles_inner {s : Stmt} {x : Except Unsupported α} (hclass : ¬s.IsManyBased)
    (h : Settles (∃ t ∈ s.children, t.HasManyBased) x) : Settles s.HasManyBased x :=
  h.congr (Stmt.hasManyBased_of_not hclass).symm

/-- A statement has a text of its own, and as a member of a class another one. -/
theorem settles_of_wellFormed {s : Stmt} (h : s.WellFormed) :
    Settles s.HasManyBased (stmt s) ∧ (Parse.isClassMember s = true → Settles s.HasManyBased (member s)) := by
  -- Both texts go through one induction: a class needs the second of its members, and a method the first of its body.
  induction h with
  | expr expr_ok =>
    refine ⟨?_, fun hmember => absurd hmember Bool.false_ne_true⟩
    rw [stmt]
    exact settles_leaf (expr_emits expr_ok) not_false rfl
  | declare _ value_ok =>
    have hvalue := orNothing_emits value_ok
    rw [stmt, assign, if_pos rfl, member]
    refine ⟨settles_leaf ?_ not_false rfl, fun _ => settles_leaf ?_ not_false rfl⟩
    · exact emits_bind (expr_emits .ident) fun target => emits_bind hvalue fun _ => emits_ok _
    · exact emits_bind (emits_ok _) fun name => emits_bind hvalue fun _ => emits_ok _
  | typed _ value_ok =>
    rw [stmt, typed, member]
    refine ⟨settles_leaf ?_ not_false rfl, fun _ => settles_leaf ?_ not_false rfl⟩
    · exact emits_bind (expr_emits .ident) fun target => emits_bind (convert_emits .ident value_ok) fun _ => emits_ok _
    · exact emits_bind (emits_ok _) fun name => emits_bind (convert_emits .ident value_ok) fun _ => emits_ok _
  | change value_ok =>
    have hvalue := expr_emits value_ok
    rw [stmt, assign, if_neg Bool.false_ne_true, member]
    refine ⟨settles_leaf ?_ not_false rfl, fun _ => settles_leaf ?_ not_false rfl⟩
    · exact emits_bind hvalue fun _ => emits_ok _
    · exact emits_bind (emits_ok _) fun name => emits_bind hvalue fun _ => emits_ok _
  | changePart part target_ok value_ok =>
    rw [stmt, assign, if_neg Bool.false_ne_true]
    refine ⟨settles_leaf (change_emits part target_ok value_ok) not_false rfl, fun hmember => ?_⟩
    rw [not_member_of_assignable part] at hmember
    exact absurd hmember Bool.false_ne_true
  | @conditional _ _ _ no test_ok _ _ ihyes ihno =>
    refine ⟨settles_inner not_false ?_, fun hmember => absurd hmember Bool.false_ne_true⟩
    rw [stmt]
    simp only [Stmt.children, List.mem_append, or_and_right, exists_or]
    refine settles_after (condition_emits test_ok) fun test => ?_
    refine settles_bind (stmts_settles fun s hs => (ihyes s hs).1) fun yesText => ?_
    cases no with
    | nil => exact settles_empty
    | cons => exact settles_map (stmts_settles fun s hs => (ihno s hs).1)
  | forLoop _ test_ok _ _ ihinit ihstep ihbody =>
    refine ⟨settles_inner not_false ?_, fun hmember => absurd hmember Bool.false_ne_true⟩
    rw [stmt]
    simp only [Stmt.children, List.mem_append, or_and_right, exists_or, or_assoc]
    refine settles_bind (step_settles fun s hs => (ihinit s hs).1) fun init => ?_
    split
    all_goals
      refine settles_after ?_ fun test => ?_
      · first | exact emits_ok _ | exact condition_emits (test_ok _ rfl)
      · refine settles_bind (step_settles fun s hs => (ihstep s hs).1) fun step => ?_
        exact settles_map (stmts_settles fun s hs => (ihbody s hs).1)
  | whileLoop test_ok _ ihbody =>
    refine ⟨settles_inner not_false ?_, fun hmember => absurd hmember Bool.false_ne_true⟩
    rw [stmt]
    refine settles_after (condition_emits test_ok) fun test => ?_
    exact settles_map (stmts_settles fun s hs => (ihbody s hs).1)
  | define _ types_ok defaults_ok _ ihbody =>
    have hbody := fun s hs => (ihbody s hs).1
    rw [stmt, member]
    exact ⟨settles_inner not_false (function_settles types_ok defaults_ok hbody),
      fun _ => settles_inner not_false (function_settles types_ok defaults_ok hbody)⟩
  | defineClass bases_ok members _ ihbody =>
    have hbody := fun s hs => (ihbody s hs).2 (members s hs)
    exact ⟨defineClass_settles bases_ok hbody, fun hmember => absurd hmember Bool.false_ne_true⟩
  | ret value_ok =>
    refine ⟨?_, fun hmember => absurd hmember Bool.false_ne_true⟩
    rw [stmt]
    exact settles_leaf (emits_bind (orNothing_emits value_ok) fun _ => emits_ok _) not_false rfl
  | brk =>
    refine ⟨?_, fun hmember => absurd hmember Bool.false_ne_true⟩
    rw [stmt]
    exact settles_leaf (emits_ok _) not_false rfl
  | cont =>
    refine ⟨?_, fun hmember => absurd hmember Bool.false_ne_true⟩
    rw [stmt]
    exact settles_leaf (emits_ok _) not_false rfl

end Emit

/-! ## Programs -/

theorem SourceFile.wellFormed_of_parseTokens {f : SourceFile} {tokens : List Token} {p : Program}
    (h : f.parseTokens tokens = .ok p) : ∀ s ∈ p.statements, s.WellFormed := by
  have hdelivers := f.parseStatements_delivers tokens {}
  unfold parseTokens at h
  split at h
  · cases h
  · rename_i statements state hrun
    obtain rfl := Except.ok.inj h
    rw [hrun] at hdelivers
    exact hdelivers

theorem SourceFile.exists_tokens_of_parse {f : SourceFile} {p : Program} (h : f.parse = .ok p) :
    ∃ tokens, f.parseTokens tokens = .ok p := by
  unfold parse at h
  split at h
  · cases h
  · rename_i tokens _
    exact ⟨tokens, h⟩

/-- A test of what a text is read and emitted as, which says that both go well. -/
theorem SourceFile.exists_emitted {f : SourceFile} {test : Program → Bytes → Bool}
    (h : (f.parse.toOption.any fun p => p.emitBody.toOption.any (test p)) = true) :
    ∃ p body, f.parse = .ok p ∧ p.emitBody = .ok body ∧ test p body = true := by
  cases hparse : f.parse with
  | error fault =>
    rw [hparse] at h
    cases h
  | ok p =>
    rw [hparse] at h
    replace h : p.emitBody.toOption.any (test p) = true := h
    cases hbody : p.emitBody with
    | error u =>
      rw [hbody] at h
      cases h
    | ok body =>
      rw [hbody] at h
      exact ⟨p, body, rfl, hbody, h⟩

/-- A program that was read, from a text or from any tokens, is well-formed, and its operators and literals have their
keys and makers; so it has a text unless it holds a class with two or more bases. -/
theorem Program.emitBody_total {f : SourceFile} {p : Program}
    (h : f.parse = .ok p ∨ ∃ tokens, f.parseTokens tokens = .ok p) :
    (∀ s ∈ p.statements, s.WellFormed) ∧
    (∀ symbol, isUnary symbol = true ∨ isBehind symbol = true → (Target.unaryKey? symbol).isSome = true) ∧
    (∀ symbol, isBinary symbol = true → (Target.binaryKey? symbol).isSome = true) ∧
    (∀ kind ∈ LiteralKind.all, (Target.constructor? kind).isSome = true) ∧
    ((∃ body, p.emitBody = .ok body) ∨ ∃ u, p.emitBody = .error u ∧ u.kind = StmtKind.classDefinition.name) ∧
    ((∃ u, p.emitBody = .error u) ↔ ∃ s ∈ p.statements, ∃ c, s.Reaches c ∧ c.IsManyBased) := by
  obtain ⟨tokens, htokens⟩ := h.elim SourceFile.exists_tokens_of_parse id
  have hwell := SourceFile.wellFormed_of_parseTokens htokens
  have hsettles : Emit.Settles (∃ s ∈ p.statements, s.HasManyBased) p.emitBody :=
    Emit.stmts_settles fun s hs => (Emit.settles_of_wellFormed (hwell s hs)).1
  refine ⟨hwell, fun symbol hsymbol => ?_, fun _ => Target.binaryKey_of_binary, Target.constructor_of_known, ?_⟩
  · exact hsymbol.elim Target.unaryKey_of_unary Target.unaryKey_of_behind
  · cases hbody : p.emitBody with
    | ok body =>
      rw [hbody] at hsettles
      exact ⟨.inl ⟨body, rfl⟩, iff_of_false (by simp) hsettles⟩
    | error u =>
      rw [hbody] at hsettles
      exact ⟨.inr ⟨u, rfl, hsettles.1⟩, iff_of_true ⟨u, rfl⟩ hsettles.2⟩

/-- A function that holds a class with two bases. -/
def twoBases : SourceFile := ⟨0, "two.uns", "def f(x = 1) \x7b class C(a, b) \x7b\x7d \x7d", 0⟩

theorem twoBases_unsupported :
    ∃ p u, twoBases.parse = .ok p ∧ p.emitBody = .error u ∧ u.kind = StmtKind.classDefinition.name := by
  have hread : (twoBases.parse.toOption.any fun p => ∃ s ∈ p.statements, ∃ c ∈ s.children, c.IsManyBased) = true := by
    decide +kernel
  cases hparse : twoBases.parse with
  | error fault =>
    rw [hparse] at hread
    cases hread
  | ok p =>
    rw [hparse] at hread
    obtain ⟨s, hs, c, hc, hmany⟩ := of_decide_eq_true hread
    obtain ⟨-, -, -, -, houtcome, hiff⟩ := Program.emitBody_total (.inl hparse)
    obtain ⟨u, hu⟩ := hiff.mpr ⟨s, hs, c, .single hc, hmany⟩
    rcases houtcome with ⟨body, hbody⟩ | ⟨u', hu', hkind⟩
    · rw [hu] at hbody
      cases hbody
    · exact ⟨p, u', rfl, hu', hkind⟩

end Bracescript
