import Bracescript.Parse
import Bracescript.Proofs.Nesting

/-!
# Without places

Tokens, trees and nodes without their numbers and places: what is left is what they mean. Tokens that agree with those of
some trees but for their places are the tokens of trees that agree with them.
-/

namespace Bracescript

open TokenTree

/-- A token at no place. -/
def Token.mark (kind : TokenKind) (value : Bytes) : Token := ⟨kind, .none, .none, [], value, []⟩

def Token.unplaced (t : Token) : Token := { t with span := .none, pos := .none, text := [] }

/-- A node without a number and a place. -/
def Node.blank : Node := ⟨0, .none, .none⟩

mutual

def Expr.unplaced : Expr → Expr
  | .hole id => .hole id
  | .ident _ name => .ident .blank name
  | .literal _ kind value => .literal .blank kind value
  | .unary _ symbol operand behind => .unary .blank symbol operand.unplaced behind
  | .binary _ symbol left right => .binary .blank symbol left.unplaced right.unplaced
  | .ternary _ test yes no => .ternary .blank test.unplaced yes.unplaced no.unplaced
  | .member _ target field => .member .blank target.unplaced field
  | .call _ target args => .call .blank target.unplaced (Expr.unplacedArgs args)
  | .index _ target key => .index .blank target.unplaced key.unplaced
  | .slice _ target start stop => .slice .blank target.unplaced (Expr.unplacedOption start) (Expr.unplacedOption stop)
  | .generic _ target args => .generic .blank target.unplaced (Expr.unplacedAll args)
  | .bare _ kind => .bare .blank kind

def Expr.unplacedOption : Option Expr → Option Expr
  | none => none
  | some e => some e.unplaced

def Expr.unplacedAll : List Expr → List Expr
  | [] => []
  | e :: es => e.unplaced :: Expr.unplacedAll es

def Expr.unplacedArg : Argument Expr → Argument Expr
  | ⟨_, _, name, type, value⟩ => ⟨.none, .none, name, Expr.unplacedOption type, Expr.unplacedOption value⟩

def Expr.unplacedArgs : List (Argument Expr) → List (Argument Expr)
  | [] => []
  | a :: as => Expr.unplacedArg a :: Expr.unplacedArgs as

end

mutual

def Stmt.unplaced : Stmt → Stmt
  | .hole id => .hole id
  | .expr _ e => .expr .blank e.unplaced
  | .assign _ declares constant target value =>
    .assign .blank declares constant target.unplaced (Expr.unplacedOption value)
  | .typed _ type constant target value =>
    .typed .blank type.unplaced constant target.unplaced (Expr.unplacedOption value)
  | .conditional _ test yes no => .conditional .blank test.unplaced (Stmt.unplacedAll yes) (Stmt.unplacedAll no)
  | .forLoop _ init test step body =>
    .forLoop .blank (Stmt.unplacedOption init) (Expr.unplacedOption test) (Stmt.unplacedOption step)
      (Stmt.unplacedAll body)
  | .whileLoop _ test body => .whileLoop .blank test.unplaced (Stmt.unplacedAll body)
  | .define _ name params body => .define .blank name (Expr.unplacedArgs params) (Stmt.unplacedAll body)
  | .defineClass _ name bases body => .defineClass .blank name (Expr.unplacedAll bases) (Stmt.unplacedAll body)
  | .ret _ value => .ret .blank (Expr.unplacedOption value)
  | .brk _ => .brk .blank
  | .cont _ => .cont .blank
  | .bare _ kind => .bare .blank kind

def Stmt.unplacedOption : Option Stmt → Option Stmt
  | none => none
  | some s => some s.unplaced

def Stmt.unplacedAll : List Stmt → List Stmt
  | [] => []
  | s :: ss => s.unplaced :: Stmt.unplacedAll ss

end

theorem Parse.isAssignable_unplaced (e : Expr) : Parse.isAssignable e.unplaced = Parse.isAssignable e := by
  cases e <;> simp [Expr.unplaced, Parse.isAssignable]

theorem Parse.isClassMember_unplaced (s : Stmt) : Parse.isClassMember s.unplaced = Parse.isClassMember s := by
  cases s with
  | assign n declares constant target value =>
    cases target <;> simp [Stmt.unplaced, Expr.unplaced, Parse.isClassMember]
  | _ => simp [Stmt.unplaced, Parse.isClassMember]

/-! ## Trees -/

namespace TokenTree

mutual

def unplaced : TokenTree → TokenTree
  | leaf t => leaf t.unplaced
  | group opener inside closer => group opener.unplaced (unplacedAll inside) closer.unplaced

def unplacedAll : List TokenTree → List TokenTree
  | [] => []
  | t :: ts => t.unplaced :: unplacedAll ts

end

variable {ts xs ys : List TokenTree} {t x : TokenTree}

theorem unplacedAll_eq_nil (h : unplacedAll ts = []) : ts = [] := by
  cases ts with
  | nil => rfl
  | cons t ts => cases h

theorem unplacedAll_eq_cons (h : unplacedAll ts = x :: xs) :
    ∃ u us, ts = u :: us ∧ u.unplaced = x ∧ unplacedAll us = xs := by
  cases ts with
  | nil => cases h
  | cons u us =>
    cases h
    exact ⟨u, us, rfl, rfl, rfl⟩

theorem unplacedAll_append : unplacedAll (xs ++ ys) = unplacedAll xs ++ unplacedAll ys := by
  induction xs with
  | nil => rfl
  | cons x xs ih => simp [unplacedAll, ih]

theorem unplacedAll_eq_append (h : unplacedAll ts = xs ++ ys) :
    ∃ us vs, ts = us ++ vs ∧ unplacedAll us = xs ∧ unplacedAll vs = ys := by
  induction xs generalizing ts with
  | nil => exact ⟨[], ts, rfl, rfl, h⟩
  | cons x xs ih =>
    obtain ⟨u, rest, rfl, rfl, hrest⟩ := unplacedAll_eq_cons h
    obtain ⟨us, vs, rfl, rfl, rfl⟩ := ih hrest
    exact ⟨u :: us, vs, rfl, rfl, rfl⟩

theorem unplaced_eq_leaf {a : Token} (h : t.unplaced = leaf a) : ∃ u, t = leaf u ∧ u.unplaced = a := by
  cases t with
  | leaf u =>
    cases h
    exact ⟨u, rfl, rfl⟩
  | group => cases h

theorem unplaced_eq_group {o c : Token} (h : t.unplaced = group o xs c) :
    ∃ o' inside c', t = group o' inside c' ∧ o'.unplaced = o ∧ unplacedAll inside = xs ∧ c'.unplaced = c := by
  cases t with
  | leaf u => cases h
  | group o' inside c' =>
    cases h
    exact ⟨o', inside, c', rfl, rfl, rfl, rfl⟩

theorem unplacedAll_eq_group_cons {o c : Token} (h : unplacedAll ts = group o ys c :: xs) :
    ∃ o' inner c' us, ts = group o' inner c' :: us ∧ o'.kind = o.kind ∧ unplacedAll inner = ys ∧ unplacedAll us = xs := by
  obtain ⟨u, us, rfl, hu, hus⟩ := unplacedAll_eq_cons h
  obtain ⟨o', inner, c', rfl, rfl, hinner, -⟩ := unplaced_eq_group hu
  exact ⟨o', inner, c', us, rfl, rfl, hinner, hus⟩

@[simp]
theorem isLeaf_unplaced (kind : TokenKind) (t : TokenTree) : t.unplaced.isLeaf kind = t.isLeaf kind := by
  cases t <;> rfl

@[simp]
theorem isBlock_unplaced (t : TokenTree) : t.unplaced.isBlock = t.isBlock := by
  cases t <;> rfl

@[simp]
theorem isKeyword_unplaced (word : Bytes) (t : TokenTree) : t.unplaced.isKeyword word = t.isKeyword word := by
  cases t <;> rfl

theorem mem_unplacedAll (h : t ∈ ts) : t.unplaced ∈ unplacedAll ts := by
  induction h with
  | head => exact List.mem_cons_self
  | tail _ _ ih => exact List.mem_cons_of_mem _ ih

/-! ## Placing -/

mutual

theorem matched_unplaced (t : TokenTree) : t.unplaced.Matched ↔ t.Matched := by
  match t with
  | leaf t => exact Iff.rfl
  | group opener inside closer => exact and_congr Iff.rfl (matchedAll_unplacedAll inside)

theorem matchedAll_unplacedAll (ts : List TokenTree) : MatchedAll (unplacedAll ts) ↔ MatchedAll ts := by
  match ts with
  | [] => exact Iff.rfl
  | t :: ts => exact and_congr (matched_unplaced t) (matchedAll_unplacedAll ts)

end

mutual

theorem exists_placed (t : TokenTree) (tokens : List Token) (h : tokens.map Token.unplaced = t.flatten) :
    ∃ u : TokenTree, u.flatten = tokens ∧ u.unplaced = t := by
  match t with
  | leaf a =>
    obtain ⟨token, rest, rfl, rfl, hrest⟩ := List.map_eq_cons_iff.mp h
    obtain rfl := List.map_eq_nil_iff.mp hrest
    exact ⟨leaf token, rfl, rfl⟩
  | group opener inside closer =>
    obtain ⟨o, rest, rfl, rfl, hrest⟩ := List.map_eq_cons_iff.mp h
    obtain ⟨inner, last, rfl, hinner, hlast⟩ := List.map_eq_append_iff.mp hrest
    obtain ⟨c, rest, rfl, rfl, hnil⟩ := List.map_eq_cons_iff.mp hlast
    obtain rfl := List.map_eq_nil_iff.mp hnil
    obtain ⟨us, rfl, rfl⟩ := exists_placedAll inside inner hinner
    exact ⟨group o us c, rfl, rfl⟩

/-- Tokens that agree with those of trees but for their places are tokens of trees. -/
theorem exists_placedAll (ts : List TokenTree) (tokens : List Token) (h : tokens.map Token.unplaced = flattenAll ts) :
    ∃ us : List TokenTree, flattenAll us = tokens ∧ unplacedAll us = ts := by
  match ts with
  | [] =>
    obtain rfl := List.map_eq_nil_iff.mp h
    exact ⟨[], rfl, rfl⟩
  | t :: ts =>
    obtain ⟨first, rest, rfl, hfirst, hrest⟩ := List.map_eq_append_iff.mp h
    obtain ⟨u, rfl, rfl⟩ := exists_placed t first hfirst
    obtain ⟨us, rfl, rfl⟩ := exists_placedAll ts rest hrest
    exact ⟨u :: us, rfl, rfl⟩

end

theorem nest_unplaced {ts : List TokenTree} {tokens : List Token} (hmatched : MatchedAll ts)
    (h : tokens.map Token.unplaced = flattenAll ts) : ∃ us, nest tokens = (us, none) ∧ unplacedAll us = ts := by
  obtain ⟨us, rfl, rfl⟩ := exists_placedAll ts tokens h
  exact ⟨us, nest_flattenAll ((matchedAll_unplacedAll us).mp hmatched), rfl⟩

end TokenTree

end Bracescript
