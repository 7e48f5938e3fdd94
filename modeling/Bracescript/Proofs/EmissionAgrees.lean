import Bracescript.Proofs.Unplaced
import Bracescript.Target.Emit

/-!
# Emission without places

What is emitted for a program does not depend on where its parts stand, and two lists of statements one behind the other
are emitted one behind the other.
-/

namespace Bracescript.Emit

/-! ## Expressions -/

theorem isPlain_unplacedArg (a : Argument Expr) : (Expr.unplacedArg a).isPlain = a.isPlain := by
  cases a with
  | mk span pos name type value => cases type <;> rfl

theorem find_unplacedArgs (as : List (Argument Expr)) :
    (Expr.unplacedArgs as).find? (fun a => !a.isPlain) = (as.find? fun a => !a.isPlain).map Expr.unplacedArg := by
  induction as with
  | nil => rfl
  | cons a as ih =>
    rw [Expr.unplacedArgs, List.find?_cons, List.find?_cons, isPlain_unplacedArg]
    split
    · rfl
    · exact ih

theorem argument_unplaced {e : Expr} (h : expr e.unplaced = expr e) : argument e.unplaced = argument e := by
  cases e with
  | hole id => rw [Expr.unplaced]
  | _ => simpa only [Expr.unplaced, argument] using h

mutual

theorem expr_unplaced : (e : Expr) → expr e.unplaced = expr e
  | .hole _ | .ident .. | .literal .. | .generic .. | .bare .. => by simp only [Expr.unplaced, expr]
  | .unary _ _ operand _ => by simp only [Expr.unplaced, expr, expr_unplaced operand]
  | .binary _ _ left right => by simp only [Expr.unplaced, expr, expr_unplaced left, expr_unplaced right]
  | .ternary _ test yes no => by
    simp only [Expr.unplaced, expr, expr_unplaced test, argument_unplaced (expr_unplaced yes),
      argument_unplaced (expr_unplaced no)]
  | .member _ target _ => by simp only [Expr.unplaced, expr, expr_unplaced target]
  | .call _ target args => by
    simp only [Expr.unplaced, expr, expr_unplaced target, arguments_unplaced args, find_unplacedArgs]
    cases args.find? fun a => !a.isPlain with
    | none => rfl
    | some a =>
      cases a
      rfl
  | .index _ target key => by
    simp only [Expr.unplaced, expr, expr_unplaced target, argument_unplaced (expr_unplaced key)]
  | .slice _ target start stop => by
    simp only [Expr.unplaced, expr, expr_unplaced target, optional_unplaced start, optional_unplaced stop]

theorem optional_unplaced : (e : Option Expr) → optional (Expr.unplacedOption e) = optional e
  | none => by rw [Expr.unplacedOption]
  | some e => by rw [Expr.unplacedOption, optional, optional, expr_unplaced e]

theorem value_unplaced : (a : Argument Expr) → value (Expr.unplacedArg a) = value a
  | ⟨_, _, _, _, v⟩ => by rw [Expr.unplacedArg, value, value, optional_unplaced v]

theorem arguments_unplaced : (as : List (Argument Expr)) → arguments (Expr.unplacedArgs as) = arguments as
  | [] => by rw [Expr.unplacedArgs]
  | a :: as => by rw [Expr.unplacedArgs, arguments, arguments, value_unplaced a, arguments_unplaced as]

end

theorem condition_unplaced (e : Expr) : condition e.unplaced = condition e := by
  rw [condition, condition, expr_unplaced]

theorem convert_unplaced (type : Expr) (value : Option Expr) :
    convert type.unplaced (Expr.unplacedOption value) = convert type value := by
  rw [convert, convert, expr_unplaced]
  cases value with
  | none => rfl
  | some e => simp only [Expr.unplacedOption, expr_unplaced]

theorem orNothing_unplaced (value : Option Expr) : orNothing (Expr.unplacedOption value) = orNothing value := by
  cases value with
  | none => rfl
  | some e => exact expr_unplaced e

theorem required_unplaced (value : Option Expr) : required (Expr.unplacedOption value) = required value := by
  cases value with
  | none => rfl
  | some e => exact expr_unplaced e

/-! ## Statements -/

theorem change_unplaced (target : Expr) (value : Option Expr) :
    change target.unplaced (Expr.unplacedOption value) = change target value := by
  cases target with
  | index _ object key =>
    simp only [Expr.unplaced, change, expr_unplaced, argument_unplaced (expr_unplaced key), optional_unplaced]
  | _ => simp only [Expr.unplaced, change, expr_unplaced, required_unplaced, optional_unplaced] <;> rfl

theorem assign_unplaced (declares constant : Bool) (target : Expr) (value : Option Expr) :
    assign declares constant target.unplaced (Expr.unplacedOption value) = assign declares constant target value := by
  rw [assign, assign, expr_unplaced, orNothing_unplaced, change_unplaced]

theorem typed_unplaced (type : Expr) (constant : Bool) (target : Expr) (value : Option Expr) :
    typed type.unplaced constant target.unplaced (Expr.unplacedOption value) = typed type constant target value := by
  rw [typed, typed, expr_unplaced, convert_unplaced]

theorem parameters_unplaced (params : List (Argument Expr)) :
    parameters (Expr.unplacedArgs params) = parameters params := by
  induction params with
  | nil => rfl
  | cons p ps ih =>
    have hp : parameter (Expr.unplacedArg p) = parameter p := by
      obtain ⟨_, _, name, type, _ | e⟩ := p
      · rfl
      · simp only [Expr.unplacedArg, Expr.unplacedOption, parameter, expr_unplaced]
    rw [Expr.unplacedArgs, parameters, parameters, hp, ih]

theorem conversions_unplaced (params : List (Argument Expr)) :
    conversions (Expr.unplacedArgs params) = conversions params := by
  induction params with
  | nil => rfl
  | cons p ps ih =>
    obtain ⟨_, _, name, _ | type, value⟩ := p
    · simp only [Expr.unplacedArgs, Expr.unplacedArg, Expr.unplacedOption, conversions, ih]
    · simp only [Expr.unplacedArgs, Expr.unplacedArg, Expr.unplacedOption, conversions, expr_unplaced, ih]

theorem memberName_unplaced (kind : StmtKind) (e : Expr) : memberName kind e.unplaced = memberName kind e := by
  cases e <;> simp only [Expr.unplaced, memberName]

theorem isEmpty_unplacedAll (ss : List Stmt) : (Stmt.unplacedAll ss).isEmpty = ss.isEmpty := by
  cases ss <;> rfl

theorem length_unplacedAll (es : List Expr) : (Expr.unplacedAll es).length = es.length := by
  induction es with
  | nil => rfl
  | cons e es ih => rw [Expr.unplacedAll, List.length_cons, List.length_cons, ih]

mutual

theorem stmt_unplaced : (s : Stmt) → stmt s.unplaced = stmt s
  | .hole _ | .brk _ | .cont _ | .bare .. => by simp only [Stmt.unplaced, stmt]
  | .expr _ e => by simp only [Stmt.unplaced, stmt, expr_unplaced]
  | .assign .. => by simp only [Stmt.unplaced, stmt, assign_unplaced]
  | .typed .. => by simp only [Stmt.unplaced, stmt, typed_unplaced]
  | .conditional _ _ yes no => by
    simp only [Stmt.unplaced, stmt, condition_unplaced, stmts_unplaced yes, stmts_unplaced no, isEmpty_unplacedAll]
  | .forLoop _ init test step body => by
    cases test <;>
      simp only [Stmt.unplaced, stmt, Expr.unplacedOption, condition_unplaced, step_unplaced init, step_unplaced step,
        stmts_unplaced body]
  | .whileLoop _ _ body => by simp only [Stmt.unplaced, stmt, condition_unplaced, stmts_unplaced body]
  | .define _ _ _ body => by
    simp only [Stmt.unplaced, stmt, parameters_unplaced, conversions_unplaced, stmts_unplaced body]
  | .defineClass _ _ [] body => by simp only [Stmt.unplaced, stmt, Expr.unplacedAll, members_unplaced body]
  | .defineClass _ _ [base] body => by
    simp only [Stmt.unplaced, stmt, Expr.unplacedAll, expr_unplaced, members_unplaced body]
  | .defineClass _ _ (_ :: _ :: bases) _ => by
    simp only [Stmt.unplaced, stmt, Expr.unplacedAll, List.length_cons, length_unplacedAll]
  | .ret _ value => by simp only [Stmt.unplaced, stmt, orNothing_unplaced]

theorem step_unplaced : (s : Option Stmt) → step? (Stmt.unplacedOption s) = step? s
  | none => by rw [Stmt.unplacedOption]
  | some s => by rw [Stmt.unplacedOption, step?, step?, stmt_unplaced s]

theorem stmts_unplaced : (ss : List Stmt) → stmts (Stmt.unplacedAll ss) = stmts ss
  | [] => by rw [Stmt.unplacedAll]
  | [s] => by simp only [Stmt.unplacedAll, stmts, stmt_unplaced s]
  | s :: u :: ss => by
    have hrest := stmts_unplaced (u :: ss)
    rw [Stmt.unplacedAll] at hrest
    simp only [Stmt.unplacedAll, stmts, stmt_unplaced s, hrest]

theorem member_unplaced : (s : Stmt) → member s.unplaced = member s
  | .typed .. => by simp only [Stmt.unplaced, member, memberName_unplaced, convert_unplaced]
  | .assign .. => by simp only [Stmt.unplaced, member, memberName_unplaced, orNothing_unplaced]
  | .define _ _ _ body => by
    simp only [Stmt.unplaced, member, parameters_unplaced, conversions_unplaced, stmts_unplaced body]
  | .hole _ | .expr .. | .conditional .. | .forLoop .. | .whileLoop .. | .defineClass .. | .ret .. | .brk _ | .cont _
  | .bare .. => by simp only [Stmt.unplaced, member] <;> rfl

theorem members_unplaced : (ss : List Stmt) → members (Stmt.unplacedAll ss) = members ss
  | [] => by rw [Stmt.unplacedAll]
  | s :: ss => by rw [Stmt.unplacedAll, members, members, member_unplaced s, members_unplaced ss]

end

theorem stmts_eq_of_unplaced {ss ss' : List Stmt} (h : Stmt.unplacedAll ss' = Stmt.unplacedAll ss) :
    stmts ss' = stmts ss := by
  rw [← stmts_unplaced ss', ← stmts_unplaced ss, h]

theorem stmts_cons (s : Stmt) {ss : List Stmt} (hss : ss ≠ []) :
    stmts (s :: ss) = (do
      let s ← stmt s
      let ss ← stmts ss
      return s ++ ";" ++ ss) := by
  cases ss with
  | nil => exact absurd rfl hss
  | cons u ss =>
    rw [stmts]
    exact hss

/-- Two lists of statements, neither of which is empty, are emitted with a semicolon between. -/
theorem stmts_append {ss us : List Stmt} {first second : Bytes} (hss : stmts ss = .ok first)
    (hus : stmts us = .ok second) (hne : ss ≠ []) (hne' : us ≠ []) :
    stmts (ss ++ us) = .ok (first ++ ";" ++ second) := by
  induction ss generalizing first with
  | nil => exact absurd rfl hne
  | cons s ss ih =>
    rw [List.cons_append, stmts_cons s (by simp [hne'])]
    by_cases hlast : ss = []
    · subst hlast
      rw [stmts] at hss
      rw [hss, List.nil_append, hus]
      rfl
    · rw [stmts_cons s hlast] at hss
      cases hs : stmt s with
      | error e =>
        rw [hs] at hss
        cases hss
      | ok head =>
        cases htail : stmts ss with
        | error e =>
          rw [hs, htail] at hss
          cases hss
        | ok tail =>
          rw [hs, htail] at hss
          cases hss
          rw [ih htail hlast]
          simp [bind, Except.bind, pure, Except.pure]

end Bracescript.Emit
