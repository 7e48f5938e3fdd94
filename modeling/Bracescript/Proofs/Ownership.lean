import Mathlib.Data.List.Nodup
import Bracescript.Proofs.Emission

/-!
# Nodes and their owners

Every node of a forest stands under its own number, and each node that it refers to stands there under a smaller one. No
node is referred to twice, not even by nodes that the parser has given up. A parsing step turns some nodes that nothing
refers to yet into others.
-/

namespace Bracescript

/-! ## References -/

inductive Branch where
  | expr (e : Expr)
  | stmt (s : Stmt)

/-- The type of a parameter and its default, or the value of an argument. -/
def Argument.exprs (a : Argument Expr) : List Expr := a.type.toList ++ a.value.toList

/-- The expressions that stand directly in an expression. -/
def Expr.children : Expr → List Expr
  | .unary _ _ operand _ => [operand]
  | .binary _ _ left right => [left, right]
  | .ternary _ test yes no => [test, yes, no]
  | .member _ target _ => [target]
  | .call _ target args => target :: args.flatMap Argument.exprs
  | .index _ target key => [target, key]
  | .slice _ target start stop => target :: (start.toList ++ stop.toList)
  | .generic _ target args => target :: args
  | _ => []

/-- The expressions that stand directly in a statement. -/
def Stmt.exprs : Stmt → List Expr
  | .expr _ e => [e]
  | .assign _ _ _ target value => target :: value.toList
  | .typed _ type _ target value => type :: target :: value.toList
  | .conditional _ test _ _ | .whileLoop _ test _ => [test]
  | .forLoop _ _ test _ _ => test.toList
  | .define _ _ params _ => params.flatMap Argument.exprs
  | .defineClass _ _ bases _ => bases
  | .ret _ value => value.toList
  | _ => []

namespace Branch

def children : Branch → List Branch
  | expr e => e.children.map expr
  | stmt s => s.exprs.map expr ++ s.children.map stmt

/-- The number of a node; zero for what is none. -/
def number : Branch → Nat
  | expr e => (e.node?.map Node.id).getD 0
  | stmt s => (s.node?.map Node.id).getD 0

/-- Expressions are numbered apart from statements: of two nodes of one sort, the first has the smaller number. -/
def Precedes : Branch → Branch → Prop
  | expr d, expr e => (expr d).number < (expr e).number
  | stmt s, stmt t => (stmt s).number < (stmt t).number
  | _, _ => True

end Branch

namespace Forest

/-- The node stands under its number. -/
def Stores (f : Forest) : Branch → Prop
  | .expr e => f.expr? (Branch.expr e).number = some e
  | .stmt s => f.stmt? (Branch.stmt s).number = some s

def branches (f : Forest) : List Branch := f.exprs.toList.map .expr ++ f.stmts.toList.map .stmt

/-- The references to nodes of all nodes of a forest. -/
def references (f : Forest) : List Branch := f.branches.flatMap Branch.children

/-- The forest is sound and nothing in it refers to these nodes, each of which is there once. -/
structure Owns (f : Forest) (xs : List Branch) : Prop where
  stored : ∀ x ∈ f.branches, f.Stores x
  children : ∀ x ∈ f.branches, ∀ y ∈ x.children, f.Stores y ∧ y.Precedes x
  held : ∀ x ∈ xs, f.Stores x
  single : (f.references ++ xs).Nodup

theorem owns_empty : ({} : Forest).Owns [] where
  stored := List.forall_mem_nil _
  children := List.forall_mem_nil _
  held := List.forall_mem_nil _
  single := List.nodup_nil

namespace Owns

variable {f : Forest} {xs ys : List Branch}

theorem perm (h : f.Owns xs) (hperm : xs.Perm ys) : f.Owns ys where
  stored := h.stored
  children := h.children
  held x hx := h.held x (hperm.mem_iff.mpr hx)
  single := (hperm.append_left f.references).nodup_iff.mp h.single

theorem sublist (h : f.Owns xs) (hsub : ys.Sublist xs) : f.Owns ys where
  stored := h.stored
  children := h.children
  held x hx := h.held x (hsub.subset hx)
  single := h.single.sublist (hsub.append_left f.references)

theorem stores_of_mem_references (h : f.Owns xs) {y : Branch} (hy : y ∈ f.references) : f.Stores y := by
  obtain ⟨x, hx, hy⟩ := List.mem_flatMap.mp hy
  exact (h.children x hx y hy).1

/-- A new node takes the place of those that it refers to. -/
theorem add {g : Forest} {x : Branch} (h : f.Owns (x.children ++ xs)) (hnodes : g.branches.Perm (x :: f.branches))
    (hkept : ∀ y, f.Stores y → g.Stores y) (hx : g.Stores x) (hnew : ¬f.Stores x)
    (hafter : ∀ y, f.Stores y → y.Precedes x) : g.Owns (x :: xs) := by
  obtain ⟨hchildren, hrest⟩ := List.forall_mem_append.mp h.held
  refine ⟨?_, ?_, ?_, ?_⟩
  · intro y hy
    rcases List.mem_cons.mp (hnodes.mem_iff.mp hy) with rfl | hy
    · exact hx
    · exact hkept y (h.stored y hy)
  · intro y hy z hz
    rcases List.mem_cons.mp (hnodes.mem_iff.mp hy) with rfl | hy
    · exact ⟨hkept z (hchildren z hz), hafter z (hchildren z hz)⟩
    · exact ⟨hkept z (h.children y hy z hz).1, (h.children y hy z hz).2⟩
  · exact List.forall_mem_cons.mpr ⟨hx, fun y hy => hkept y (hrest y hy)⟩
  · -- the same references as before, and the new node, which was not there before
    have hsame : (g.references ++ xs).Perm (f.references ++ (x.children ++ xs)) := by
      have hrefs : g.references.Perm (x.children ++ f.references) := hnodes.flatMap_right Branch.children
      rw [← List.append_assoc]
      exact (hrefs.trans List.perm_append_comm).append_right xs
    rw [List.perm_middle.nodup_iff, List.nodup_cons]
    refine ⟨fun hmem => hnew ?_, hsame.nodup_iff.mpr h.single⟩
    rcases List.mem_append.mp (hsame.mem_iff.mp hmem) with hmem | hmem
    · exact h.stores_of_mem_references hmem
    · exact h.held x hmem

end Owns

/-! ## New nodes -/

/-- What stands under a number, counted from 1, stands there also when more is added. -/
theorem numbered_push {α : Type} {xs : Array α} {id : Nat} {a : α} (h : (if id = 0 then none else xs[id - 1]?) = some a)
    (b : α) : 0 < id ∧ id ≤ xs.size ∧ (if id = 0 then none else (xs.push b)[id - 1]?) = some a := by
  split at h
  · cases h
  · rename_i hid
    have hlt := (Array.getElem?_eq_some_iff.mp h).1
    refine ⟨by omega, by omega, ?_⟩
    rw [if_neg hid, Array.getElem?_push, if_neg (by omega), h]

section

variable {f : Forest} {xs : List Branch} (span : Span) (pos : LineCol)

theorem Owns.addExpr {build : Node → Expr} (hnode : ∀ n, (build n).node? = some n)
    (h : ∀ n, f.Owns ((Branch.expr (build n)).children ++ xs)) :
    (f.addExpr span pos build).2.Owns (.expr (f.addExpr span pos build).1 :: xs) := by
  have hnumber : (Branch.expr (build ⟨f.exprs.size + 1, span, pos⟩)).number = f.exprs.size + 1 := by
    simp [Branch.number, hnode]
  refine (h _).add ?_ ?_ ?_ ?_ ?_
  · simp only [branches, Forest.addExpr, Array.toList_push, List.map_append, List.map_cons, List.map_nil]
    exact (List.perm_append_singleton _ _).append_right _
  · intro y hy
    cases y with
    | expr d => exact (numbered_push hy _).2.2
    | stmt s => exact hy
  · rw [Stores, hnumber]
    simp [Forest.addExpr, expr?]
  · intro hold
    have := (numbered_push hold (build ⟨0, span, pos⟩)).2.1
    omega
  · intro y hy
    cases y with
    | expr d =>
      have := (numbered_push hy d).2.1
      rw [Branch.Precedes, hnumber]
      omega
    | stmt s => trivial

theorem Owns.addStmt {build : Node → Stmt} (hnode : ∀ n, (build n).node? = some n)
    (h : ∀ n, f.Owns ((Branch.stmt (build n)).children ++ xs)) :
    (f.addStmt span pos build).2.Owns (.stmt (f.addStmt span pos build).1 :: xs) := by
  have hnumber : (Branch.stmt (build ⟨f.stmts.size + 1, span, pos⟩)).number = f.stmts.size + 1 := by
    simp [Branch.number, hnode]
  refine (h _).add ?_ ?_ ?_ ?_ ?_
  · simp only [branches, Forest.addStmt, Array.toList_push, List.map_append, List.map_cons, List.map_nil,
      ← List.append_assoc]
    exact List.perm_append_singleton _ _
  · intro y hy
    cases y with
    | expr d => exact hy
    | stmt s => exact (numbered_push hy _).2.2
  · rw [Stores, hnumber]
    simp [Forest.addStmt, stmt?]
  · intro hold
    have := (numbered_push hold (build ⟨0, span, pos⟩)).2.1
    omega
  · intro y hy
    cases y with
    | expr d => trivial
    | stmt s =>
      have := (numbered_push hy s).2.1
      rw [Branch.Precedes, hnumber]
      omega

end

end Forest

/-! ## Parsing steps -/

namespace Parse

variable {α β : Type} {xs ys : List Branch} {held : α → List Branch} {after : β → List Branch}

/-- From a forest that owns `xs` and whatever else, the step makes one that owns what it holds of its value, and all
that was owned besides `xs`. -/
def Turns (xs : List Branch) (p : Parse α) (held : α → List Branch) : Prop :=
  ∀ (s : ParseState) (rest : List Branch), s.forest.Owns (xs ++ rest) →
    (p s).2.forest.Owns rest ∧ ∀ a, (p s).1 = .ok a → (p s).2.forest.Owns (held a ++ rest)

theorem Turns.perm {p : Parse α} (h : Turns xs p held) (hperm : ys.Perm xs) : Turns ys p held :=
  fun s rest hs => h s rest (hs.perm (hperm.append_right rest))

theorem turns_pure {a : α} (h : xs.Perm (held a)) : Turns xs (pure a) held := by
  intro s rest hs
  refine ⟨hs.sublist (List.sublist_append_right xs rest), fun b hb => ?_⟩
  cases hb
  exact hs.perm (h.append_right rest)

theorem turns_throw (fault : Fault) : Turns xs (throw fault : Parse α) held := by
  intro s rest hs
  refine ⟨hs.sublist (List.sublist_append_right xs rest), fun b hb => ?_⟩
  cases hb

theorem turns_fail (cause : Cause) (t : Token) : Turns xs (fail cause t : Parse α) held := turns_throw _

theorem turns_failAt (cause : Cause) (e : Expr) : Turns xs (failAt cause e : Parse α) held := turns_throw _

/-- The nodes that the first step leaves alone are there for the second. -/
theorem turns_bind {p : Parse α} {f : α → Parse β} (l r : List Branch) (hp : Turns xs p held)
    (hf : ∀ a, Turns (l ++ held a ++ r) (f a) after) : Turns (l ++ xs ++ r) (p >>= f) after := by
  intro s rest hs
  have hfront : ∀ zs, (l ++ zs ++ r ++ rest).Perm (zs ++ (l ++ (r ++ rest))) := by
    intro zs
    simp only [List.append_assoc]
    exact List.perm_append_comm_assoc l zs (r ++ rest)
  obtain ⟨hkept, hvalue⟩ := hp s (l ++ (r ++ rest)) (hs.perm (hfront xs))
  cases hrun : p s with
  | mk result s' =>
    rw [hrun] at hkept hvalue
    cases result with
    | ok a =>
      rw [bind_run_ok hrun]
      exact hf a s' rest ((hvalue a rfl).perm (hfront (held a)).symm)
    | error fault =>
      rw [bind_run_error hrun]
      refine ⟨hkept.sublist ?_, fun b hb => ?_⟩
      · exact (List.sublist_append_right r rest).trans (List.sublist_append_right l _)
      · cases hb

theorem turns_front {p : Parse α} {f : α → Parse β} (r : List Branch) (hp : Turns xs p held)
    (hf : ∀ a, Turns (held a ++ r) (f a) after) : Turns (xs ++ r) (p >>= f) after := turns_bind [] r hp hf

theorem turns_back {p : Parse α} {f : α → Parse β} (l : List Branch) (hp : Turns xs p held)
    (hf : ∀ a, Turns (l ++ held a) (f a) after) : Turns (l ++ xs) (p >>= f) after := by
  have h := turns_bind l [] hp fun a => by
    rw [List.append_nil]
    exact hf a
  rwa [List.append_nil] at h

theorem turns_chain {p : Parse α} {f : α → Parse β} (hp : Turns xs p held) (hf : ∀ a, Turns (held a) (f a) after) :
    Turns xs (p >>= f) after := turns_back [] hp hf

/-- A step that needs no nodes puts those that it makes behind the others. -/
theorem turns_step {p : Parse α} {f : α → Parse β} (hp : Turns [] p held) (hf : ∀ a, Turns (xs ++ held a) (f a) after) :
    Turns xs (p >>= f) after := by
  have h := turns_back xs hp hf
  rwa [List.append_nil] at h

theorem turns_scope : Turns [] scope fun _ => [] := fun _ _ hs => ⟨hs, fun _ _ => hs⟩

theorem turns_within {p : Parse α} {there : Scope} (h : Turns xs p held) : Turns xs (within there p) held :=
  fun s rest hs => h { s with scope := there } rest hs

/-- What a failed attempt has made is given up. -/
theorem turns_attempt {p : Parse α} (h : Turns xs p held) :
    Turns xs (attempt p) fun result => (result.toOption.map held).getD [] := by
  intro s rest hs
  obtain ⟨hkept, hvalue⟩ := h s rest hs
  refine ⟨hkept, fun result hresult => ?_⟩
  cases hresult
  show (p s).2.forest.Owns _
  cases hrun : (p s).1 with
  | ok a => exact hvalue a hrun
  | error fault => exact hkept

theorem turns_newExpr (xs : List Branch) {span : Span} {pos : LineCol} {build : Node → Expr}
    (hnode : ∀ n, (build n).node? = some n) (hchildren : ∀ n, xs.Perm (Branch.expr (build n)).children) :
    Turns xs (newExpr span pos build) fun e => [.expr e] := by
  intro s rest hs
  have hadd := Forest.Owns.addExpr span pos hnode fun n => hs.perm ((hchildren n).append_right rest)
  refine ⟨hadd.sublist (List.sublist_cons_self _ rest), fun e he => ?_⟩
  cases he
  exact hadd

theorem turns_newStmt (xs : List Branch) {span : Span} {pos : LineCol} {build : Node → Stmt}
    (hnode : ∀ n, (build n).node? = some n) (hchildren : ∀ n, xs.Perm (Branch.stmt (build n)).children) :
    Turns xs (newStmt span pos build) fun s => [.stmt s] := by
  intro s rest hs
  have hadd := Forest.Owns.addStmt span pos hnode fun n => hs.perm ((hchildren n).append_right rest)
  refine ⟨hadd.sublist (List.sublist_cons_self _ rest), fun t ht => ?_⟩
  cases ht
  exact hadd

theorem turns_newIdent (t : Token) : Turns [] (newIdent t) fun e => [.expr e] :=
  turns_newExpr [] (fun _ => rfl) fun _ => .nil

end Parse

end Bracescript
