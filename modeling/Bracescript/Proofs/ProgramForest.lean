import Mathlib.Data.List.Nodup
import Mathlib.Data.List.Pairwise
import Bracescript.Proofs.ForestGrowth

/-!
# The forest of a program

Every node of a program that was read stands in its forest under its number, and has exactly one parent, which comes
later than the node.
-/

namespace Bracescript

/-! ## Nodes of a program -/

/-- The node stands somewhere in the program. -/
inductive Program.Reaches (p : Program) : Branch → Prop
  | top {s : Stmt} (mem : s ∈ p.statements) : Reaches p (.stmt s)
  | child {x y : Branch} (parent : Reaches p x) (mem : y ∈ x.children) : Reaches p y

/-- Where a node of the program is referred to: in another node, or in the list of statements. -/
def Program.IsParent (p : Program) : Option Branch → Branch → Prop
  | some x, y => p.Reaches x ∧ y ∈ x.children
  | none, y => y ∈ p.statements.map .stmt

namespace Forest

def exprsLike (f : Forest) (e : Expr) : List Expr :=
  f.exprs.toList.filter fun x => !isBareExpr x && x.kind? == e.kind?

def stmtsLike (f : Forest) (s : Stmt) : List Stmt :=
  f.stmts.toList.filter fun x => !isBareStmt x && x.kind? == s.kind?

/-- The node stands under its number, which counts from 1, and under its rank among the nodes of its kind; only `break`
and `continue` hold nothing and have no rank. -/
def Holds (f : Forest) : Branch → Prop
  | .expr e =>
    let id := (Branch.expr e).number
    (0 < id ∧ id ≤ f.exprs.size ∧ f.expr? id = some e) ∧
      0 < f.exprRank id ∧ (f.exprsLike e)[f.exprRank id - 1]? = some e
  | .stmt s =>
    let id := (Branch.stmt s).number
    (0 < id ∧ id ≤ f.stmts.size ∧ f.stmt? id = some s) ∧
      if isBareStmt s then f.stmtRank id = 0
      else 0 < f.stmtRank id ∧ (f.stmtsLike s)[f.stmtRank id - 1]? = some s

end Forest

/-- A value for each argument of a call and nothing else; a node without its contents or with type arguments is none of
a program. -/
def Expr.IsRegular : Expr → Prop
  | .call _ _ args => ∀ a ∈ args, a.name = [] ∧ a.type = none ∧ a.value.isSome = true
  | .generic .. | .hole _ | .bare .. => False
  | _ => True

/-- What can be assigned to: a name, a member, an index or a slice. -/
def Expr.IsTarget (e : Expr) : Prop :=
  e.kind? ∈ [some .identifier, some .member, some .index, some .slice]

/-- A typed assignment, a function, or an assignment to a name. -/
def Stmt.IsMember : Stmt → Prop
  | .typed .. | .define .. => True
  | .assign _ _ _ target _ => target.kind? = some .identifier
  | _ => False

/-- Constants and changes have a value, parameters differ, and classes hold members. -/
def Stmt.IsRegular : Stmt → Prop
  | .assign _ true constant _ value | .typed _ _ constant _ value => constant = true → value.isSome = true
  | .assign _ false _ target value => value.isSome = true ∧ target.IsTarget
  | .define _ _ params _ => (params.map Argument.name).Nodup
  | .defineClass _ _ _ body => ∀ s ∈ body, s.IsMember
  | .hole _ | .bare .. => False
  | _ => True

/-- The nodes of the program form a forest, and each is as its kind asks. -/
structure Program.WellRooted (p : Program) : Prop where
  held : ∀ x, p.Reaches x → p.forest.Holds x
  precedes : ∀ x, p.Reaches x → ∀ y ∈ x.children, y.Precedes x
  parent : ∀ y, p.Reaches y → ∃! parent, p.IsParent parent y
  once : (p.statements.map Branch.stmt).Nodup ∧ ∀ x, p.Reaches x → x.children.Nodup
  exprs : ∀ e, p.Reaches (.expr e) → e.IsRegular
  stmts : ∀ s, p.Reaches (.stmt s) → s.IsRegular

/-! ## Well-formed nodes -/

def Branch.WellFormed : Branch → Prop
  | .expr e => e.WellFormed
  | .stmt s => s.WellFormed

theorem Expr.WellFormed.children {e : Expr} (h : e.WellFormed) : ∀ d ∈ e.children, d.WellFormed := by
  cases h with
  | ident | literal => exact List.forall_mem_nil _
  | front _ operand | behind _ operand | member operand => exact List.forall_mem_singleton.mpr operand
  | binary _ left right | index left right => simp [Expr.children, left, right]
  | ternary test yes no => simp [Expr.children, test, yes, no]
  | call target plain args =>
    refine List.forall_mem_cons.mpr ⟨target, fun d hd => ?_⟩
    obtain ⟨a, ha, hd⟩ := List.mem_flatMap.mp hd
    have htype : a.type = none := by
      have := (plain a ha).1
      simp only [Argument.isPlain, Bool.and_eq_true, Option.isNone_iff_eq_none] at this
      exact this.2
    rw [Argument.exprs, htype] at hd
    exact args a ha d (Option.mem_toList.mp hd)
  | slice target start stop =>
    refine List.forall_mem_cons.mpr ⟨target, List.forall_mem_append.mpr ⟨?_, ?_⟩⟩
    · exact fun d hd => start d (Option.mem_toList.mp hd)
    · exact fun d hd => stop d (Option.mem_toList.mp hd)

theorem Stmt.WellFormed.exprs {s : Stmt} (h : s.WellFormed) : ∀ e ∈ s.exprs, e.WellFormed := by
  cases h with
  | expr e | conditional e | whileLoop e => exact List.forall_mem_singleton.mpr e
  | declare _ value =>
    exact List.forall_mem_cons.mpr ⟨.ident, fun e he => value e (Option.mem_toList.mp he)⟩
  | typed _ value =>
    refine List.forall_mem_cons.mpr ⟨.ident, List.forall_mem_cons.mpr ⟨.ident, ?_⟩⟩
    exact fun e he => value e (Option.mem_toList.mp he)
  | change value => exact List.forall_mem_cons.mpr ⟨.ident, List.forall_mem_singleton.mpr value⟩
  | changePart _ target value => exact List.forall_mem_cons.mpr ⟨target, List.forall_mem_singleton.mpr value⟩
  | forLoop _ test | ret test => exact fun e he => test e (Option.mem_toList.mp he)
  | define _ types defaults =>
    intro e he
    obtain ⟨p, hp, he⟩ := List.mem_flatMap.mp he
    rcases List.mem_append.mp he with he | he
    · exact types p hp e (Option.mem_toList.mp he)
    · exact defaults p hp e (Option.mem_toList.mp he)
  | defineClass bases => exact bases
  | brk | cont => exact List.forall_mem_nil _

theorem Stmt.WellFormed.children {s : Stmt} (h : s.WellFormed) : ∀ t ∈ s.children, t.WellFormed := by
  cases h with
  | conditional _ yes no => exact List.forall_mem_append.mpr ⟨yes, no⟩
  | forLoop init _ step body =>
    refine List.forall_mem_append.mpr ⟨List.forall_mem_append.mpr ⟨?_, ?_⟩, body⟩
    · exact fun t ht => init t (Option.mem_toList.mp ht)
    · exact fun t ht => step t (Option.mem_toList.mp ht)
  | whileLoop _ body | define _ _ _ body | defineClass _ _ body => exact body
  | _ => exact List.forall_mem_nil _

theorem Branch.WellFormed.children {x : Branch} (h : x.WellFormed) : ∀ y ∈ x.children, y.WellFormed := by
  cases x with
  | expr e => exact List.forall_mem_map.mpr (Expr.WellFormed.children h)
  | stmt s =>
    refine List.forall_mem_append.mpr ⟨?_, ?_⟩
    · exact List.forall_mem_map.mpr (Stmt.WellFormed.exprs h)
    · exact List.forall_mem_map.mpr (Stmt.WellFormed.children h)

theorem Expr.WellFormed.isRegular {e : Expr} (h : e.WellFormed) : e.IsRegular := by
  cases h with
  | call _ plain =>
    intro a ha
    obtain ⟨hplain, hvalue⟩ := plain a ha
    simp only [Argument.isPlain, Bool.and_eq_true, List.isEmpty_iff, Option.isNone_iff_eq_none] at hplain
    exact ⟨hplain.1, hplain.2, hvalue⟩
  | _ => trivial

theorem Expr.isTarget_of_assignable {e : Expr} (h : Parse.isAssignable e = true) : e.IsTarget := by
  cases e with
  | member | index | slice => simp [IsTarget, kind?]
  | _ => cases h

theorem Stmt.isMember_of_class {s : Stmt} (h : Parse.isClassMember s = true) : s.IsMember := by
  unfold Parse.isClassMember at h
  split at h
  · trivial
  · trivial
  · rfl
  · cases h

theorem Stmt.WellFormed.isRegular {s : Stmt} (h : s.WellFormed) : s.IsRegular := by
  cases h with
  | declare given | typed given => exact given
  | change => exact ⟨rfl, by simp [Expr.IsTarget, Expr.kind?]⟩
  | changePart part => exact ⟨rfl, Expr.isTarget_of_assignable part⟩
  | define distinct => exact distinct
  | defineClass _ members => exact fun s hs => isMember_of_class (members s hs)
  | _ => trivial

/-! ## Ranks -/

/-- Counting up to a place gives the rank of what stands there. -/
theorem getElem?_filter_rank {α : Type} {l : List α} {keep : α → Bool} {i : Nat} {a : α} (h : l[i]? = some a)
    (ha : keep a = true) : 0 < ((l.take (i + 1)).filter keep).length ∧
      (l.filter keep)[((l.take (i + 1)).filter keep).length - 1]? = some a := by
  have htake : (l.take (i + 1)).filter keep = (l.take i).filter keep ++ [a] := by
    rw [List.take_add_one, h, List.filter_append]
    simp [ha]
  have hall : l.filter keep = (l.take (i + 1)).filter keep ++ (l.drop (i + 1)).filter keep := by
    rw [← List.filter_append, List.take_append_drop]
  rw [hall, htake]
  simp

namespace Forest

variable {f : Forest}

theorem exists_index {α : Type} {xs : Array α} {id : Nat} {a : α}
    (h : (if id = 0 then none else xs[id - 1]?) = some a) : ∃ i, id = i + 1 ∧ xs.toList[i]? = some a := by
  obtain ⟨hpos, -, -⟩ := numbered_push h a
  refine ⟨id - 1, by omega, ?_⟩
  rwa [if_neg (by omega), ← Array.getElem?_toList] at h

theorem mem_branches_of_stores {x : Branch} (h : f.Stores x) : x ∈ f.branches := by
  cases x with
  | expr e =>
    obtain ⟨i, -, hi⟩ := exists_index h
    exact List.mem_append_left _ (List.mem_map_of_mem (List.mem_of_getElem? hi))
  | stmt s =>
    obtain ⟨i, -, hi⟩ := exists_index h
    exact List.mem_append_right _ (List.mem_map_of_mem (List.mem_of_getElem? hi))

theorem isBareExpr_of_wellFormed {e : Expr} (h : e.WellFormed) : isBareExpr e = false := by
  cases h <;> rfl

theorem holds_of_stores {x : Branch} (h : f.Stores x) (hwell : x.WellFormed) : f.Holds x := by
  cases x with
  | expr e =>
    obtain ⟨hpos, hle, -⟩ := numbered_push h e
    obtain ⟨i, hid, hi⟩ := exists_index h
    refine ⟨⟨hpos, hle, h⟩, ?_⟩
    have hbare := isBareExpr_of_wellFormed hwell
    have hrank : f.exprRank (Branch.expr e).number =
        ((f.exprs.toList.take (i + 1)).filter fun x => !isBareExpr x && x.kind? == e.kind?).length := by
      rw [exprRank, show f.expr? (Branch.expr e).number = some e from h, hid]
      simp [hbare]
    rw [hrank]
    exact getElem?_filter_rank hi (by simp [hbare])
  | stmt s =>
    obtain ⟨hpos, hle, -⟩ := numbered_push h s
    obtain ⟨i, hid, hi⟩ := exists_index h
    refine ⟨⟨hpos, hle, h⟩, ?_⟩
    have hstored : f.stmt? (Branch.stmt s).number = some s := h
    split
    · rename_i hbare
      rw [stmtRank, hstored]
      simp [hbare]
    · rename_i hbare
      have hrank : f.stmtRank (Branch.stmt s).number =
          ((f.stmts.toList.take (i + 1)).filter fun x => !isBareStmt x && x.kind? == s.kind?).length := by
        rw [stmtRank, hstored, hid]
        simp [hbare]
      rw [hrank]
      exact getElem?_filter_rank hi (by simp [hbare])

/-- Two nodes that refer to one are the same node. -/
theorem Owns.parent_unique {xs : List Branch} (h : f.Owns xs) {x x' y : Branch} (hx : f.Stores x) (hx' : f.Stores x')
    (hy : y ∈ x.children) (hy' : y ∈ x'.children) : x = x' := by
  have hsingle := (List.nodup_append.mp h.single).1
  rw [references, List.nodup_flatMap] at hsingle
  have : Std.Symm (Function.onFun List.Disjoint Branch.children) := ⟨fun _ _ h _ hy hy' => h hy' hy⟩
  by_contra hne
  exact hsingle.2.forall (mem_branches_of_stores hx) (mem_branches_of_stores hx') hne hy hy'

theorem Owns.not_child {xs : List Branch} (h : f.Owns xs) {x y : Branch} (hx : f.Stores x) (hy : y ∈ x.children) :
    y ∉ xs := by
  intro hmem
  have hrefers : y ∈ f.references := List.mem_flatMap.mpr ⟨x, mem_branches_of_stores hx, hy⟩
  exact (List.nodup_append.mp h.single).2.2 y hrefers y hmem rfl

end Forest

/-! ## Programs that were read -/

namespace Program

variable {p : Program}

theorem Reaches.wellFormed (hwell : ∀ s ∈ p.statements, s.WellFormed) {x : Branch} (h : p.Reaches x) :
    x.WellFormed := by
  induction h with
  | top mem => exact hwell _ mem
  | child _ mem ih => exact ih.children _ mem

theorem Reaches.stores (howns : p.forest.Owns (p.statements.map .stmt)) {x : Branch} (h : p.Reaches x) :
    p.forest.Stores x := by
  induction h with
  | top mem => exact howns.held _ (List.mem_map_of_mem mem)
  | child _ mem ih => exact (howns.children _ (Forest.mem_branches_of_stores ih) _ mem).1

theorem existsUnique_parent (howns : p.forest.Owns (p.statements.map .stmt)) {y : Branch} (h : p.Reaches y) :
    ∃! parent, p.IsParent parent y := by
  cases h with
  | top mem =>
    -- the forest owns the statements of the program, so no node refers to them
    refine ⟨none, List.mem_map_of_mem mem, fun other hother => ?_⟩
    cases other with
    | none => rfl
    | some x => exact absurd (List.mem_map_of_mem mem) (howns.not_child (hother.1.stores howns) hother.2)
  | @child x _ parent mem =>
    refine ⟨some x, ⟨parent, mem⟩, fun other hother => ?_⟩
    cases other with
    | none => exact absurd hother (howns.not_child (parent.stores howns) mem)
    | some x' => rw [howns.parent_unique (hother.1.stores howns) (parent.stores howns) hother.2 mem]

/-- A program that was read, from a text or from any tokens, is a forest of regular nodes. -/
theorem parsed_wellRooted {f : SourceFile} (h : f.parse = .ok p ∨ ∃ tokens, f.parseTokens tokens = .ok p) :
    p.WellRooted := by
  obtain ⟨tokens, htokens⟩ := h.elim SourceFile.exists_tokens_of_parse id
  have hwell := SourceFile.wellFormed_of_parseTokens htokens
  have howns := SourceFile.owns_of_parseTokens htokens
  have hbranch : ∀ x, p.Reaches x → x ∈ p.forest.branches := fun x hx =>
    Forest.mem_branches_of_stores (hx.stores howns)
  obtain ⟨hreferences, hstatements, -⟩ := List.nodup_append.mp howns.single
  rw [Forest.references, List.nodup_flatMap] at hreferences
  constructor
  · exact fun x hx => Forest.holds_of_stores (hx.stores howns) (hx.wellFormed hwell)
  · exact fun x hx y hy => (howns.children x (hbranch x hx) y hy).2
  · exact fun y hy => existsUnique_parent howns hy
  · exact ⟨hstatements, fun x hx => hreferences.1 x (hbranch x hx)⟩
  · exact fun e he => Expr.WellFormed.isRegular (he.wellFormed hwell)
  · exact fun s hs => Stmt.WellFormed.isRegular (hs.wellFormed hwell)

/-- Nodes of many kinds, in one another. -/
def manyKinds : SourceFile :=
  ⟨0, "kinds.uns",
    "class D(b) \x7b def m(t p, q = 1) \x7b for (let i; p; q[0:] = i.x(2)) \x7b break \x7d return p ? q : !i \x7d \x7d",
    0⟩

theorem manyKinds_wellRooted :
    ∃ p, manyKinds.parse = .ok p ∧ p.forest.exprs.size = 17 ∧ p.forest.stmts.size = 7 ∧ p.WellRooted := by
  have hread : (manyKinds.parse.toOption.any fun p =>
      p.forest.exprs.size == 17 && p.forest.stmts.size == 7) = true := by decide +kernel
  cases hparse : manyKinds.parse with
  | error fault =>
    rw [hparse] at hread
    cases hread
  | ok p =>
    rw [hparse] at hread
    simp only [Except.toOption, Option.any_some, Bool.and_eq_true, beq_iff_eq] at hread
    exact ⟨p, rfl, hread.1, hread.2, parsed_wellRooted (.inl hparse)⟩

end Program

end Bracescript
