import Bracescript.Proofs.Unplaced
import Mathlib.Data.List.Forall2

/-!
# Alike trees

Two texts can hold the same tokens at other places. Their tokens are alike then, and all splitting cuts alike trees at
alike places. What stands behind a stretch of trees is left out here: nothing but the text of an error depends on it.
-/

namespace Bracescript

open TokenTree

/-- How the spans of one text stand to those of another. -/
structure SpanMatch where
  Rel : Span → Span → Prop
  cover : ∀ {a a' b b'}, Rel a a' → Rel b b' → Rel (a.cover b) (a'.cover b')

/-- No matter where. -/
def SpanMatch.anywhere : SpanMatch := ⟨fun _ _ => True, fun _ _ => trivial⟩

/-! ## Lists -/

section Lists

variable {α β : Type} {S : α → α → Prop} {R : β → β → Prop} {p : α → Bool} {xs ys : List α}

theorem forall₂_isEmpty (h : List.Forall₂ S xs ys) : ys.isEmpty = xs.isEmpty := by
  cases h with
  | nil => rfl
  | cons => rfl

theorem forall₂_takeWhile (hp : ∀ x y, S x y → p y = p x) (h : List.Forall₂ S xs ys) :
    List.Forall₂ S (xs.takeWhile p) (ys.takeWhile p) := by
  induction h with
  | nil => exact .nil
  | cons hfirst hrest ih =>
    rw [List.takeWhile_cons, List.takeWhile_cons, hp _ _ hfirst]
    split
    · exact .cons hfirst ih
    · exact .nil

theorem forall₂_dropWhile (hp : ∀ x y, S x y → p y = p x) (h : List.Forall₂ S xs ys) :
    List.Forall₂ S (xs.dropWhile p) (ys.dropWhile p) := by
  induction h with
  | nil => exact .nil
  | cons hfirst hrest ih =>
    rw [List.dropWhile_cons, List.dropWhile_cons, hp _ _ hfirst]
    split
    · exact ih
    · exact .cons hfirst hrest

/-- Two cuts of lists with what they are cut at, or none. -/
abbrev CutAlike (S : α → α → Prop) (R : β → β → Prop) :=
  Option.Rel fun (c c' : List α × β × List α) => List.Forall₂ S c.1 c'.1 ∧ R c.2.1 c'.2.1 ∧ List.Forall₂ S c.2.2 c'.2.2

theorem CutAlike.cons {x y : α} {cut cut' : Option (List α × β × List α)} (hfirst : S x y) (h : CutAlike S R cut cut') :
    CutAlike S R (cut.map fun (before, mark, after) => (x :: before, mark, after))
      (cut'.map fun (before, mark, after) => (y :: before, mark, after)) := by
  cases h with
  | none => exact .none
  | some h => exact .some ⟨.cons hfirst h.1, h.2⟩

end Lists

/-! ## Tokens and trees -/

variable {σ : SpanMatch}

structure Token.Alike (σ : SpanMatch) (t t' : Token) : Prop where
  kind : t'.kind = t.kind
  value : t'.value = t.value
  flag : t'.flag = t.flag
  span : σ.Rel t.span t'.span

theorem Token.Alike.isKeyword {t t' : Token} (h : t.Alike σ t') (word : Bytes) : t'.isKeyword word = t.isKeyword word := by
  simp only [Token.isKeyword, h.kind, h.value]

theorem Token.Alike.isOperator {t t' : Token} (h : t.Alike σ t') (symbol : Bytes) :
    t'.isOperator symbol = t.isOperator symbol := by
  simp only [Token.isOperator, h.kind, h.value]

namespace TokenTree

inductive Alike (σ : SpanMatch) : TokenTree → TokenTree → Prop where
  | leaf {t t'} (token : t.Alike σ t') : Alike σ (leaf t) (leaf t')
  | group {o o' c c' ts ts'} (opener : o.Alike σ o') (inside : List.Forall₂ (Alike σ) ts ts') (closer : c.Alike σ c') :
    Alike σ (group o ts c) (group o' ts' c')

abbrev AlikeAll (σ : SpanMatch) : List TokenTree → List TokenTree → Prop := List.Forall₂ (Alike σ)

variable {t t' : TokenTree} {ts ts' : List TokenTree}

theorem AlikeAll.reverse (h : AlikeAll σ ts ts') : AlikeAll σ ts.reverse ts'.reverse := List.forall₂_reverse_iff.mpr h

theorem Alike.first (h : t.Alike σ t') : t.first.Alike σ t'.first := by
  cases h with
  | leaf token => exact token
  | group opener => exact opener

theorem Alike.last (h : t.Alike σ t') : t.last.Alike σ t'.last := by
  cases h with
  | leaf token => exact token
  | group _ _ closer => exact closer

theorem Alike.isLeaf (h : t.Alike σ t') (kind : TokenKind) : t'.isLeaf kind = t.isLeaf kind := by
  cases h with
  | leaf token => simp only [TokenTree.isLeaf, token.kind]
  | group => rfl

theorem Alike.isBlock (h : t.Alike σ t') : t'.isBlock = t.isBlock := by
  cases h with
  | leaf => rfl
  | group opener => simp only [TokenTree.isBlock, opener.kind]

theorem Alike.isKeyword (h : t.Alike σ t') (word : Bytes) : t'.isKeyword word = t.isKeyword word := by
  cases h with
  | leaf token => exact token.isKeyword word
  | group => rfl

theorem Alike.isSymbol (h : t.Alike σ t') (symbol : Bytes) : isSymbol symbol t' = isSymbol symbol t := by
  cases h with
  | leaf token => exact token.isOperator symbol
  | group => rfl

theorem Alike.endsCondition (h : t.Alike σ t') : endsCondition t' = endsCondition t := by
  simp only [Bracescript.endsCondition, h.isLeaf, h.isBlock]

theorem AlikeAll.tail (h : AlikeAll σ ts ts') : AlikeAll σ ts.tail ts'.tail := by
  cases h with
  | nil => exact .nil
  | cons _ rest => exact rest

theorem AlikeAll.getLast (h : AlikeAll σ ts ts') (hne : ts ≠ []) (hne' : ts' ≠ []) :
    (ts.getLast hne).Alike σ (ts'.getLast hne') := by
  induction h with
  | nil => exact absurd rfl hne
  | cons hfirst hrest ih =>
    cases hrest with
    | nil => exact hfirst
    | cons => exact ih (List.cons_ne_nil _ _) (List.cons_ne_nil _ _)

/-- Whether a keyword comes next. -/
theorem AlikeAll.head_isKeyword (h : AlikeAll σ ts ts') (word : Bytes) :
    ((ts'.head?).map (TokenTree.isKeyword word)).getD false = ((ts.head?).map (TokenTree.isKeyword word)).getD false := by
  cases h with
  | nil => rfl
  | cons first => exact first.isKeyword word

end TokenTree

/-! ## Splitting -/

def Stretch.Alike (σ : SpanMatch) (r r' : Stretch) : Prop := AlikeAll σ r.trees r'.trees

def Clause.Alike (σ : SpanMatch) (c c' : Clause) : Prop := c.stretch.Alike σ c'.stretch

variable {r r' : Stretch} {ts ts' : List TokenTree}

theorem Stretch.Alike.isEmpty (h : r.Alike σ r') : r'.isEmpty = r.isEmpty := forall₂_isEmpty h

theorem Stretch.Alike.tail (h : r.Alike σ r') : r.tail.Alike σ r'.tail := AlikeAll.tail h

theorem Stretch.Alike.span (h : r.Alike σ r') (hne : r.isEmpty = false) : σ.Rel r.span r'.span := by
  obtain ⟨trees, stop⟩ := r
  obtain ⟨trees', stop'⟩ := r'
  have hlast := AlikeAll.getLast h
  cases h with
  | nil => cases hne
  | cons hfirst => exact σ.cover hfirst.first.span (hlast _ _).last.span

theorem consTree_alike {t t' : TokenTree} {rs rs' : List Stretch} (stop stop' : Token) (ht : t.Alike σ t')
    (h : List.Forall₂ (Stretch.Alike σ) rs rs') :
    List.Forall₂ (Stretch.Alike σ) (consTree t stop rs) (consTree t' stop' rs') := by
  cases h with
  | nil => exact .cons (.cons ht .nil) .nil
  | cons hr hrs => exact .cons (.cons ht hr) hrs

theorem splitAt_alike (separator : TokenKind) (stop stop' : Token) (h : AlikeAll σ ts ts') :
    List.Forall₂ (Stretch.Alike σ) (splitAt separator stop ts) (splitAt separator stop' ts') := by
  induction h with
  | nil => exact .cons .nil .nil
  | cons hfirst hrest ih =>
    rw [splitAt, splitAt, hfirst.isLeaf]
    split
    · exact .cons .nil ih
    · exact consTree_alike stop stop' hfirst ih

theorem cutAt_alike (kind : TokenKind) (h : AlikeAll σ ts ts') :
    CutAlike (TokenTree.Alike σ) (Token.Alike σ) (cutAt kind ts) (cutAt kind ts') := by
  induction h with
  | nil => exact .none
  | cons hfirst hrest ih =>
    rw [cutAt, cutAt, hfirst.isLeaf]
    split
    · exact .some ⟨.nil, hfirst.first, hrest⟩
    · exact ih.cons hfirst

theorem cutAtColon_alike (pending : Nat) (h : AlikeAll σ ts ts') :
    CutAlike (TokenTree.Alike σ) (Token.Alike σ) (cutAtColon pending ts) (cutAtColon pending ts') := by
  induction h generalizing pending with
  | nil => exact .none
  | cons hfirst hrest ih =>
    rw [cutAtColon, cutAtColon, hfirst.isSymbol, hfirst.isSymbol]
    split
    · exact .some ⟨.nil, hfirst.first, hrest⟩
    · exact (ih _).cons hfirst

theorem ofTrees_alike (stop stop' : Token) (h : AlikeAll σ ts ts') :
    List.Forall₂ (Clause.Alike σ) (Clause.ofTrees stop ts) (Clause.ofTrees stop' ts') := by
  cases h with
  | nil => exact .nil
  | cons hfirst hrest => exact .cons (.cons hfirst hrest) .nil

theorem splitStatements_alike (stop stop' : Token) {done done' : List TokenTree} (hdone : AlikeAll σ done done')
    (h : AlikeAll σ ts ts') :
    List.Forall₂ (Clause.Alike σ) (splitStatements stop done ts).1 (splitStatements stop' done' ts').1 ∧
      AlikeAll σ (splitStatements stop done ts).2 (splitStatements stop' done' ts').2 := by
  induction h generalizing done done' with
  | nil => exact ⟨.nil, hdone.reverse⟩
  | cons hfirst hrest ih =>
    have hends : endsStatement _ _ = endsStatement _ _ :=
      congrArg₂ (fun a b => a && !b) hfirst.isBlock (AlikeAll.head_isKeyword hrest "else")
    rw [splitStatements, splitStatements, hfirst.isLeaf, hends]
    split
    · obtain ⟨hclauses, hleft⟩ := ih .nil
      exact ⟨List.rel_append (ofTrees_alike _ _ hdone.reverse) hclauses, hleft⟩
    split
    · obtain ⟨hclauses, hleft⟩ := ih .nil
      exact ⟨List.rel_append (ofTrees_alike _ _ (AlikeAll.reverse (.cons hfirst hdone))) hclauses, hleft⟩
    · exact ih (.cons hfirst hdone)

theorem statements_alike (stop stop' : Token) (h : AlikeAll σ ts ts') :
    List.Forall₂ (Clause.Alike σ) (statements stop ts) (statements stop' ts') := by
  obtain ⟨hclauses, hleft⟩ := splitStatements_alike stop stop' .nil h
  exact List.rel_append hclauses (ofTrees_alike stop stop' hleft)

/-! ## Nesting -/

namespace TokenTree

structure Level.Alike (σ : SpanMatch) (level level' : Level) : Prop where
  opener : level.opener.Alike σ level'.opener
  before : AlikeAll σ level.before level'.before

variable {waiting waiting' : List Level} {done done' : List TokenTree}

theorem outermost_alike (hwaiting : List.Forall₂ (Level.Alike σ) waiting waiting') (hdone : AlikeAll σ done done') :
    AlikeAll σ (outermost waiting done) (outermost waiting' done') := by
  induction hwaiting generalizing done done' with
  | nil => exact hdone.reverse
  | cons hlevel _ ih => exact ih hlevel.before

/-- Alike trees, and no fault or two of one code. -/
def NestAlike (σ : SpanMatch) (n n' : List TokenTree × Option SyntaxError) : Prop :=
  AlikeAll σ n.1 n'.1 ∧ Option.Rel (fun e e' => e.code = e'.code) n.2 n'.2

theorem code_unclosed (kind : TokenKind) (text text' : Bytes) :
    (Cause.unclosed kind text).code = (Cause.unclosed kind text').code := by
  unfold Cause.code
  cases kind <;> rfl

theorem nestFrom_alike {tokens tokens' : List Token} (hwaiting : List.Forall₂ (Level.Alike σ) waiting waiting')
    (hdone : AlikeAll σ done done') (h : List.Forall₂ (Token.Alike σ) tokens tokens') :
    NestAlike σ (nestFrom waiting done tokens) (nestFrom waiting' done' tokens') := by
  induction h generalizing waiting waiting' done done' with
  | nil =>
    have houtermost := outermost_alike hwaiting hdone
    cases hwaiting with
    | nil => exact ⟨hdone.reverse, .none⟩
    | cons hlevel _ =>
      refine ⟨houtermost, .some ?_⟩
      show Cause.code _ = Cause.code _
      rw [hlevel.opener.kind]
      exact code_unclosed _ _ _
  | cons ht hrest ih =>
    have houtermost := outermost_alike hwaiting hdone
    rw [nestFrom.eq_def, nestFrom.eq_def]
    dsimp only
    rw [ht.kind]
    split
    · exact ih (.cons ⟨ht, hdone⟩ hwaiting) .nil
    split
    · cases hwaiting with
      | nil => exact ⟨houtermost, .some rfl⟩
      | cons hlevel hlevels =>
        dsimp only
        rw [hlevel.opener.kind]
        split
        · exact ih hlevels (.cons (.group hlevel.opener hdone.reverse ht) hlevel.before)
        · exact ⟨houtermost, .some rfl⟩
    · exact ih hwaiting (.cons (.leaf ht) hdone)

theorem nest_alike {tokens tokens' : List Token} (h : List.Forall₂ (Token.Alike σ) tokens tokens') :
    NestAlike σ (nest tokens) (nest tokens') := nestFrom_alike .nil .nil h

end TokenTree

/-! ## Nodes -/

mutual

/-- The spans of an expression and of all that it holds, its own first. -/
def Expr.spans : Expr → List Span
  | .hole _ => [.none]
  | .ident n _ => [n.span]
  | .literal n _ _ => [n.span]
  | .unary n _ operand _ => n.span :: operand.spans
  | .binary n _ left right => n.span :: (left.spans ++ right.spans)
  | .ternary n test yes no => n.span :: (test.spans ++ (yes.spans ++ no.spans))
  | .member n target _ => n.span :: target.spans
  | .call n target args => n.span :: (target.spans ++ Expr.spansArgs args)
  | .index n target key => n.span :: (target.spans ++ key.spans)
  | .slice n target start stop => n.span :: (target.spans ++ (Expr.spansOption start ++ Expr.spansOption stop))
  | .generic n target args => n.span :: (target.spans ++ Expr.spansAll args)
  | .bare n _ => [n.span]

def Expr.spansOption : Option Expr → List Span
  | none => []
  | some e => e.spans

def Expr.spansAll : List Expr → List Span
  | [] => []
  | e :: es => e.spans ++ Expr.spansAll es

def Expr.spansArg : Argument Expr → List Span
  | ⟨span, _, _, type, value⟩ => span :: (Expr.spansOption type ++ Expr.spansOption value)

def Expr.spansArgs : List (Argument Expr) → List Span
  | [] => []
  | a :: as => Expr.spansArg a ++ Expr.spansArgs as

end

mutual

/-- The spans of a statement and of all that it holds, its own first. -/
def Stmt.spans : Stmt → List Span
  | .hole _ => [.none]
  | .expr n e => n.span :: e.spans
  | .assign n _ _ target value => n.span :: (target.spans ++ Expr.spansOption value)
  | .typed n type _ target value => n.span :: (type.spans ++ (target.spans ++ Expr.spansOption value))
  | .conditional n test yes no => n.span :: (test.spans ++ (Stmt.spansAll yes ++ Stmt.spansAll no))
  | .forLoop n init test step body =>
    n.span :: (Stmt.spansOption init ++ (Expr.spansOption test ++ (Stmt.spansOption step ++ Stmt.spansAll body)))
  | .whileLoop n test body => n.span :: (test.spans ++ Stmt.spansAll body)
  | .define n _ params body => n.span :: (Expr.spansArgs params ++ Stmt.spansAll body)
  | .defineClass n _ bases body => n.span :: (Expr.spansAll bases ++ Stmt.spansAll body)
  | .ret n value => n.span :: Expr.spansOption value
  | .brk n => [n.span]
  | .cont n => [n.span]
  | .bare n _ => [n.span]

def Stmt.spansOption : Option Stmt → List Span
  | none => []
  | some s => s.spans

def Stmt.spansAll : List Stmt → List Span
  | [] => []
  | s :: ss => s.spans ++ Stmt.spansAll ss

end

structure Expr.Alike (σ : SpanMatch) (e e' : Expr) : Prop where
  unplaced : e'.unplaced = e.unplaced
  spans : List.Forall₂ σ.Rel e.spans e'.spans

structure Argument.Alike (σ : SpanMatch) (a a' : Argument Expr) : Prop where
  unplaced : Expr.unplacedArg a' = Expr.unplacedArg a
  spans : List.Forall₂ σ.Rel (Expr.spansArg a) (Expr.spansArg a')

structure Stmt.Alike (σ : SpanMatch) (s s' : Stmt) : Prop where
  unplaced : s'.unplaced = s.unplaced
  spans : List.Forall₂ σ.Rel s.spans s'.spans

namespace Expr

variable {e e' l l' r r' : Expr} {v v' w w' : Option Expr} {as as' : List (Argument Expr)} {n n' : Node}

theorem spans_eq_cons (e : Expr) : ∃ rest, e.spans = e.span :: rest := by
  cases e <;> exact ⟨_, rfl⟩

theorem Alike.span (h : e.Alike σ e') : σ.Rel e.span e'.span := by
  have hspans := h.spans
  obtain ⟨rest, heq⟩ := e.spans_eq_cons
  obtain ⟨rest', heq'⟩ := e'.spans_eq_cons
  rw [heq, heq', List.forall₂_cons] at hspans
  exact hspans.1

theorem option_alike (h : Option.Rel (Expr.Alike σ) v v') :
    unplacedOption v' = unplacedOption v ∧ List.Forall₂ σ.Rel (spansOption v) (spansOption v') := by
  cases h with
  | none => exact ⟨rfl, .nil⟩
  | some h => exact ⟨congrArg some h.unplaced, h.spans⟩

theorem all_alike {es es' : List Expr} (h : List.Forall₂ (Expr.Alike σ) es es') :
    unplacedAll es' = unplacedAll es ∧ List.Forall₂ σ.Rel (spansAll es) (spansAll es') := by
  induction h with
  | nil => exact ⟨rfl, .nil⟩
  | cons he _ ih => exact ⟨congrArg₂ List.cons he.unplaced ih.1, List.rel_append he.spans ih.2⟩

theorem args_alike (h : List.Forall₂ (Argument.Alike σ) as as') :
    unplacedArgs as' = unplacedArgs as ∧ List.Forall₂ σ.Rel (spansArgs as) (spansArgs as') := by
  induction h with
  | nil => exact ⟨rfl, .nil⟩
  | cons ha _ ih => exact ⟨congrArg₂ List.cons ha.unplaced ih.1, List.rel_append ha.spans ih.2⟩

theorem Alike.ident (hn : σ.Rel n.span n'.span) (name : Bytes) : (ident n name).Alike σ (ident n' name) :=
  ⟨rfl, .cons hn .nil⟩

theorem Alike.literal (hn : σ.Rel n.span n'.span) (kind : LiteralKind) (value : Bytes) :
    (literal n kind value).Alike σ (literal n' kind value) := ⟨rfl, .cons hn .nil⟩

theorem Alike.unary (hn : σ.Rel n.span n'.span) (h : e.Alike σ e') (symbol : Bytes) (behind : Bool) :
    (unary n symbol e behind).Alike σ (unary n' symbol e' behind) := by
  refine ⟨?_, .cons hn h.spans⟩
  rw [Expr.unplaced, Expr.unplaced, h.unplaced]

theorem Alike.binary (hn : σ.Rel n.span n'.span) (hl : l.Alike σ l') (hr : r.Alike σ r') (symbol : Bytes) :
    (binary n symbol l r).Alike σ (binary n' symbol l' r') := by
  refine ⟨?_, .cons hn (List.rel_append hl.spans hr.spans)⟩
  rw [Expr.unplaced, Expr.unplaced, hl.unplaced, hr.unplaced]

theorem Alike.ternary (hn : σ.Rel n.span n'.span) (he : e.Alike σ e') (hl : l.Alike σ l') (hr : r.Alike σ r') :
    (ternary n e l r).Alike σ (ternary n' e' l' r') := by
  refine ⟨?_, .cons hn (List.rel_append he.spans (List.rel_append hl.spans hr.spans))⟩
  rw [Expr.unplaced, Expr.unplaced, he.unplaced, hl.unplaced, hr.unplaced]

theorem Alike.member (hn : σ.Rel n.span n'.span) (h : e.Alike σ e') (field : Bytes) :
    (member n e field).Alike σ (member n' e' field) := by
  refine ⟨?_, .cons hn h.spans⟩
  rw [Expr.unplaced, Expr.unplaced, h.unplaced]

theorem Alike.call (hn : σ.Rel n.span n'.span) (h : e.Alike σ e') (has : List.Forall₂ (Argument.Alike σ) as as') :
    (call n e as).Alike σ (call n' e' as') := by
  obtain ⟨hargs, hspans⟩ := args_alike has
  refine ⟨?_, .cons hn (List.rel_append h.spans hspans)⟩
  rw [Expr.unplaced, Expr.unplaced, h.unplaced, hargs]

theorem Alike.index (hn : σ.Rel n.span n'.span) (hl : l.Alike σ l') (hr : r.Alike σ r') :
    (index n l r).Alike σ (index n' l' r') := by
  refine ⟨?_, .cons hn (List.rel_append hl.spans hr.spans)⟩
  rw [Expr.unplaced, Expr.unplaced, hl.unplaced, hr.unplaced]

theorem Alike.slice (hn : σ.Rel n.span n'.span) (h : e.Alike σ e') (hv : Option.Rel (Expr.Alike σ) v v')
    (hw : Option.Rel (Expr.Alike σ) w w') : (slice n e v w).Alike σ (slice n' e' v' w') := by
  obtain ⟨hv, hvspans⟩ := option_alike hv
  obtain ⟨hw, hwspans⟩ := option_alike hw
  refine ⟨?_, .cons hn (List.rel_append h.spans (List.rel_append hvspans hwspans))⟩
  rw [Expr.unplaced, Expr.unplaced, h.unplaced, hv, hw]

end Expr

theorem Argument.alike_mk {span span' : Span} {pos pos' : LineCol} {name : Bytes} {v v' w w' : Option Expr}
    (hspan : σ.Rel span span') (hv : Option.Rel (Expr.Alike σ) v v') (hw : Option.Rel (Expr.Alike σ) w w') :
    Argument.Alike σ ⟨span, pos, name, v, w⟩ ⟨span', pos', name, v', w'⟩ := by
  obtain ⟨hv, hvspans⟩ := Expr.option_alike hv
  obtain ⟨hw, hwspans⟩ := Expr.option_alike hw
  refine ⟨?_, .cons hspan (List.rel_append hvspans hwspans)⟩
  rw [Expr.unplacedArg, Expr.unplacedArg, hv, hw]

namespace Stmt

variable {s s' : Stmt} {i i' j j' : Option Stmt} {ss ss' us us' : List Stmt} {e e' l l' : Expr} {v v' : Option Expr}
  {n n' : Node}

theorem option_alike (h : Option.Rel (Stmt.Alike σ) i i') :
    unplacedOption i' = unplacedOption i ∧ List.Forall₂ σ.Rel (spansOption i) (spansOption i') := by
  cases h with
  | none => exact ⟨rfl, .nil⟩
  | some h => exact ⟨congrArg some h.unplaced, h.spans⟩

theorem all_alike (h : List.Forall₂ (Stmt.Alike σ) ss ss') :
    unplacedAll ss' = unplacedAll ss ∧ List.Forall₂ σ.Rel (spansAll ss) (spansAll ss') := by
  induction h with
  | nil => exact ⟨rfl, .nil⟩
  | cons hs _ ih => exact ⟨congrArg₂ List.cons hs.unplaced ih.1, List.rel_append hs.spans ih.2⟩

theorem Alike.expr (hn : σ.Rel n.span n'.span) (h : e.Alike σ e') : (Stmt.expr n e).Alike σ (.expr n' e') := by
  refine ⟨?_, .cons hn h.spans⟩
  rw [Stmt.unplaced, Stmt.unplaced, h.unplaced]

theorem Alike.assign (hn : σ.Rel n.span n'.span) (he : e.Alike σ e') (hv : Option.Rel (Expr.Alike σ) v v')
    (declares constant : Bool) : (assign n declares constant e v).Alike σ (assign n' declares constant e' v') := by
  obtain ⟨hv, hspans⟩ := Expr.option_alike hv
  refine ⟨?_, .cons hn (List.rel_append he.spans hspans)⟩
  rw [Stmt.unplaced, Stmt.unplaced, he.unplaced, hv]

theorem Alike.typed (hn : σ.Rel n.span n'.span) (hl : l.Alike σ l') (he : e.Alike σ e')
    (hv : Option.Rel (Expr.Alike σ) v v') (constant : Bool) : (typed n l constant e v).Alike σ (typed n' l' constant e' v') := by
  obtain ⟨hv, hspans⟩ := Expr.option_alike hv
  refine ⟨?_, .cons hn (List.rel_append hl.spans (List.rel_append he.spans hspans))⟩
  rw [Stmt.unplaced, Stmt.unplaced, hl.unplaced, he.unplaced, hv]

theorem Alike.conditional (hn : σ.Rel n.span n'.span) (he : e.Alike σ e') (hss : List.Forall₂ (Stmt.Alike σ) ss ss')
    (hus : List.Forall₂ (Stmt.Alike σ) us us') : (conditional n e ss us).Alike σ (conditional n' e' ss' us') := by
  obtain ⟨hss, hspans⟩ := all_alike hss
  obtain ⟨hus, hspans'⟩ := all_alike hus
  refine ⟨?_, .cons hn (List.rel_append he.spans (List.rel_append hspans hspans'))⟩
  rw [Stmt.unplaced, Stmt.unplaced, he.unplaced, hss, hus]

theorem Alike.forLoop (hn : σ.Rel n.span n'.span) (hi : Option.Rel (Stmt.Alike σ) i i')
    (hv : Option.Rel (Expr.Alike σ) v v') (hj : Option.Rel (Stmt.Alike σ) j j')
    (hss : List.Forall₂ (Stmt.Alike σ) ss ss') : (forLoop n i v j ss).Alike σ (forLoop n' i' v' j' ss') := by
  obtain ⟨hi, hispans⟩ := option_alike hi
  obtain ⟨hv, hvspans⟩ := Expr.option_alike hv
  obtain ⟨hj, hjspans⟩ := option_alike hj
  obtain ⟨hss, hspans⟩ := all_alike hss
  refine ⟨?_, .cons hn (List.rel_append hispans (List.rel_append hvspans (List.rel_append hjspans hspans)))⟩
  rw [Stmt.unplaced, Stmt.unplaced, hi, hv, hj, hss]

theorem Alike.whileLoop (hn : σ.Rel n.span n'.span) (he : e.Alike σ e') (hss : List.Forall₂ (Stmt.Alike σ) ss ss') :
    (whileLoop n e ss).Alike σ (whileLoop n' e' ss') := by
  obtain ⟨hss, hspans⟩ := all_alike hss
  refine ⟨?_, .cons hn (List.rel_append he.spans hspans)⟩
  rw [Stmt.unplaced, Stmt.unplaced, he.unplaced, hss]

theorem Alike.define {as as' : List (Argument Expr)} (hn : σ.Rel n.span n'.span) (name : Bytes)
    (has : List.Forall₂ (Argument.Alike σ) as as') (hss : List.Forall₂ (Stmt.Alike σ) ss ss') :
    (define n name as ss).Alike σ (define n' name as' ss') := by
  obtain ⟨has, hargs⟩ := Expr.args_alike has
  obtain ⟨hss, hspans⟩ := all_alike hss
  refine ⟨?_, .cons hn (List.rel_append hargs hspans)⟩
  rw [Stmt.unplaced, Stmt.unplaced, has, hss]

theorem Alike.defineClass {es es' : List Expr} (hn : σ.Rel n.span n'.span) (name : Bytes)
    (hes : List.Forall₂ (Expr.Alike σ) es es') (hss : List.Forall₂ (Stmt.Alike σ) ss ss') :
    (defineClass n name es ss).Alike σ (defineClass n' name es' ss') := by
  obtain ⟨hes, hbases⟩ := Expr.all_alike hes
  obtain ⟨hss, hspans⟩ := all_alike hss
  refine ⟨?_, .cons hn (List.rel_append hbases hspans)⟩
  rw [Stmt.unplaced, Stmt.unplaced, hes, hss]

theorem Alike.ret (hn : σ.Rel n.span n'.span) (hv : Option.Rel (Expr.Alike σ) v v') : (ret n v).Alike σ (ret n' v') := by
  obtain ⟨hv, hspans⟩ := Expr.option_alike hv
  refine ⟨?_, .cons hn hspans⟩
  rw [Stmt.unplaced, Stmt.unplaced, hv]

end Stmt

end Bracescript
