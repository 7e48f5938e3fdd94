import Bracescript.Proofs.Derivation
import Bracescript.Proofs.Grammar
import Bracescript.Proofs.Nesting

/-!
# Steps that read tokens

What a parsing step does with the tokens it is given: a value is derived from them, a fault is said at one of them or at
something derived from them, and so is every node that is created on the way. The surroundings stay as they were.
-/

namespace Bracescript

open Item TokenTree

/-! ## Tokens of trees -/

theorem TokenTree.first_mem_flatten (t : TokenTree) : t.first ∈ t.flatten := by
  cases t <;> simp [first, flatten]

/-- The tokens of the trees are among these tokens, in their order. -/
def Inside (tokens : List Token) (ts : List TokenTree) : Prop := (flattenAll ts).Sublist tokens

namespace Inside

variable {tokens : List Token} {xs ys ts inner : List TokenTree} {x : TokenTree} {t o c : Token}

theorem left (h : Inside tokens (xs ++ ys)) : Inside tokens xs := by
  rw [Inside, flattenAll_append] at h
  exact (List.sublist_append_left _ _).trans h

theorem right (h : Inside tokens (xs ++ ys)) : Inside tokens ys := by
  rw [Inside, flattenAll_append] at h
  exact (List.sublist_append_right _ _).trans h

theorem head (h : Inside tokens (x :: ts)) : Inside tokens [x] := by
  have : Inside tokens ([x] ++ ts) := h
  exact this.left

theorem tail (h : Inside tokens (x :: ts)) : Inside tokens ts := by
  have : Inside tokens ([x] ++ ts) := h
  exact this.right

theorem inside (h : Inside tokens (.group o inner c :: ts)) : Inside tokens inner := by
  refine List.Sublist.trans ?_ h.head
  simp [flattenAll, flatten]

theorem mem_of_mem (h : Inside tokens ts) (hx : x ∈ ts) : x.first ∈ tokens := by
  obtain ⟨xs, ys, rfl⟩ := List.append_of_mem hx
  apply h.right.subset
  rw [flattenAll]
  exact List.mem_append_left _ x.first_mem_flatten

theorem leaf_mem (h : Inside tokens (.leaf t :: ts)) : t ∈ tokens := h.mem_of_mem List.mem_cons_self

theorem opener_mem (h : Inside tokens (.group o inner c :: ts)) : o ∈ tokens := h.mem_of_mem List.mem_cons_self

theorem closer_mem (h : Inside tokens (.group o inner c :: ts)) : c ∈ tokens := by
  apply h.head.subset
  simp [flattenAll, flatten]

end Inside

/-- The trees and the token that follows them are among these tokens. -/
structure Stretch.Inside (tokens : List Token) (r : Stretch) : Prop where
  trees : Bracescript.Inside tokens r.trees
  stop : r.stop ∈ tokens

theorem Stretch.Inside.first_mem {tokens : List Token} {r : Stretch} (h : r.Inside tokens) : r.first ∈ tokens := by
  obtain ⟨trees, stop⟩ := r
  cases trees with
  | nil => exact h.stop
  | cons t ts => exact h.trees.mem_of_mem List.mem_cons_self

theorem Stretch.Inside.tail {tokens : List Token} {r : Stretch} (h : r.Inside tokens) : r.tail.Inside tokens := by
  obtain ⟨trees, stop⟩ := r
  cases trees with
  | nil => exact h
  | cons t ts => exact ⟨h.trees.tail, h.stop⟩

/-! ## Reading -/

/-- Some of the tokens, in their order, derive the part. -/
def Part.Within (tokens : List Token) (p : Part) : Prop := ∃ ts, Inside tokens ts ∧ Derives ts p

/-- A place where a fault can be: a token, or a node derived from tokens. -/
inductive IsPlace (tokens : List Token) : Span → LineCol → Prop
  | token {t : Token} (mem : t ∈ tokens) : IsPlace tokens t.span t.pos
  | expr {e : Expr} (derived : Part.Within tokens (.expr e)) : IsPlace tokens e.span e.pos
  | stmt {s : Stmt} (derived : Part.Within tokens (.stmt s)) : IsPlace tokens s.span s.pos

/-- All that the new forest has more than the old one is derived from the tokens. -/
structure Grows (tokens : List Token) (old new : Forest) : Prop where
  exprs : ∃ es, new.exprs.toList = old.exprs.toList ++ es ∧ ∀ e ∈ es, Part.Within tokens (.expr e)
  stmts : ∃ ss, new.stmts.toList = old.stmts.toList ++ ss ∧ ∀ s ∈ ss, Part.Within tokens (.stmt s)

theorem Grows.refl (tokens : List Token) (f : Forest) : Grows tokens f f :=
  ⟨⟨[], by simp, by simp⟩, ⟨[], by simp, by simp⟩⟩

theorem Grows.trans {tokens : List Token} {f g h : Forest} (hfg : Grows tokens f g) (hgh : Grows tokens g h) :
    Grows tokens f h := by
  obtain ⟨⟨es, hes, hexprs⟩, ⟨ss, hss, hstmts⟩⟩ := hfg
  obtain ⟨⟨es', hes', hexprs'⟩, ⟨ss', hss', hstmts'⟩⟩ := hgh
  refine ⟨⟨es ++ es', ?_, ?_⟩, ⟨ss ++ ss', ?_, ?_⟩⟩
  · rw [hes', hes, List.append_assoc]
  · exact List.forall_mem_append.mpr ⟨hexprs, hexprs'⟩
  · rw [hss', hss, List.append_assoc]
  · exact List.forall_mem_append.mpr ⟨hstmts, hstmts'⟩

namespace Parse

variable {α β : Type} {tokens : List Token}

/-- A value that `Q` holds of, or a fault in the text that is said at a place of the tokens. -/
def Answers (tokens : List Token) (Q : α → Prop) : Except Fault α → Prop
  | .ok a => Q a
  | .error fault => ∃ e, fault = .malformed e ∧ IsPlace tokens e.span e.pos

def Reads (tokens : List Token) (p : Parse α) (Q : α → Prop) : Prop :=
  ∀ s, Answers tokens Q (p s).1 ∧ (p s).2.scope = s.scope ∧ Grows tokens s.forest (p s).2.forest

variable {P Q : α → Prop} {R : β → Prop}

theorem reads_pure {a : α} (h : Q a) : Reads tokens (pure a) Q := fun _ => ⟨h, rfl, .refl _ _⟩

theorem reads_throw {e : SyntaxError} (h : IsPlace tokens e.span e.pos) :
    Reads tokens (throw (.malformed e) : Parse α) Q := fun _ => ⟨⟨e, rfl, h⟩, rfl, .refl _ _⟩

theorem reads_fail {cause : Cause} {t : Token} (h : t ∈ tokens) : Reads tokens (fail cause t : Parse α) Q :=
  reads_throw (.token h)

theorem reads_failAt {cause : Cause} {e : Expr} (h : Part.Within tokens (.expr e)) :
    Reads tokens (failAt cause e : Parse α) Q := reads_throw (.expr h)

theorem reads_bind {p : Parse α} {f : α → Parse β} (hp : Reads tokens p P) (hf : ∀ a, P a → Reads tokens (f a) R) :
    Reads tokens (p >>= f) R := by
  intro s
  obtain ⟨hanswer, hscope, hgrows⟩ := hp s
  cases hrun : p s with
  | mk result s' =>
    rw [hrun] at hanswer hscope hgrows
    cases result with
    | ok a =>
      obtain ⟨hanswer', hscope', hgrows'⟩ := hf a hanswer s'
      rw [bind_run_ok hrun]
      exact ⟨hanswer', hscope'.trans hscope, hgrows.trans hgrows'⟩
    | error fault =>
      rw [bind_run_error hrun]
      exact ⟨hanswer, hscope, hgrows⟩

theorem Answers.mono {result : Except Fault α} (h : Answers tokens P result) (hPQ : ∀ a, P a → Q a) :
    Answers tokens Q result := by
  cases result with
  | ok a => exact hPQ a h
  | error fault => exact h

theorem Reads.mono {p : Parse α} (h : Reads tokens p P) (hPQ : ∀ a, P a → Q a) : Reads tokens p Q := by
  intro s
  obtain ⟨hanswer, hscope, hgrows⟩ := h s
  exact ⟨hanswer.mono hPQ, hscope, hgrows⟩

theorem reads_scope : Reads tokens scope fun _ => True := fun _ => ⟨trivial, rfl, .refl _ _⟩

theorem reads_within {p : Parse α} (scope : Scope) (h : Reads tokens p Q) : Reads tokens (within scope p) Q := by
  intro s
  obtain ⟨hanswer, -, hgrows⟩ := h { s with scope }
  exact ⟨hanswer, rfl, hgrows⟩

theorem reads_attempt {p : Parse α} (h : Reads tokens p Q) : Reads tokens (attempt p) (Answers tokens Q) := h

theorem reads_newExpr {ts : List TokenTree} {span : Span} {pos : LineCol} {build : Node → Expr} (hin : Inside tokens ts)
    (h : ∀ id, Derives ts (.expr (build ⟨id, span, pos⟩))) :
    Reads tokens (newExpr span pos build) fun e => Derives ts (.expr e) := by
  intro s
  refine ⟨h _, rfl, ⟨[build ⟨s.forest.exprs.size + 1, span, pos⟩], ?_, ?_⟩, ⟨[], ?_, by simp⟩⟩
  · simp [newExpr, Forest.addExpr]
  · exact List.forall_mem_singleton.mpr ⟨ts, hin, h _⟩
  · simp [newExpr, Forest.addExpr]

theorem reads_newStmt {ts : List TokenTree} {span : Span} {pos : LineCol} {build : Node → Stmt} (hin : Inside tokens ts)
    (h : ∀ id, Derives ts (.stmt (build ⟨id, span, pos⟩))) :
    Reads tokens (newStmt span pos build) fun s => Derives ts (.stmt s) := by
  intro s
  refine ⟨h _, rfl, ⟨[], ?_, by simp⟩, ⟨[build ⟨s.forest.stmts.size + 1, span, pos⟩], ?_, ?_⟩⟩
  · simp [newStmt, Forest.addStmt]
  · simp [newStmt, Forest.addStmt]
  · exact List.forall_mem_singleton.mpr ⟨ts, hin, h _⟩

theorem reads_newIdent {t : Token} (hin : Inside tokens [.leaf t]) (kind : t.kind = .identifier) :
    Reads tokens (newIdent t) fun e => ∃ id, e = t.ident id := by
  intro s
  have hreads : Reads tokens (newIdent t) fun e => Derives [.leaf t] (.expr e) :=
    reads_newExpr hin fun _ => Derives.ident kind
  exact ⟨⟨_, rfl⟩, (hreads s).2⟩

end Parse

/-! ## Divided lists -/

/-- The stretches, with separators between them, are the trees. -/
inductive Joined (separator : TokenKind) (stop : Token) : List Stretch → List TokenTree → Prop
  | last (ts : List TokenTree) : Joined separator stop [⟨ts, stop⟩] ts
  | next {r : Stretch} {rs : List Stretch} {us : List TokenTree} (kind : r.stop.kind = separator)
    (rest : Joined separator stop rs us) : Joined separator stop (r :: rs) (r.trees ++ .leaf r.stop :: us)

theorem splitAt_joined (separator : TokenKind) (stop : Token) (ts : List TokenTree) :
    Joined separator stop (splitAt separator stop ts) ts := by
  induction ts with
  | nil => exact .last []
  | cons t ts ih =>
    rw [splitAt]
    split
    · rename_i hleaf
      cases t with
      | leaf token => exact .next (r := ⟨[], token⟩) (by simpa [isLeaf] using hleaf) ih
      | group => simp [isLeaf] at hleaf
    · generalize splitAt separator stop ts = rs at ih
      cases ih with
      | last => exact .last _
      | @next r rs us kind rest => exact .next (r := ⟨t :: r.trees, r.stop⟩) kind rest

theorem cutAt_eq_some {kind : TokenKind} {ts before after : List TokenTree} {token : Token}
    (h : cutAt kind ts = some (before, token, after)) : ts = before ++ .leaf token :: after ∧ token.kind = kind := by
  induction ts generalizing before with
  | nil => simp [cutAt] at h
  | cons t ts ih =>
    rw [cutAt] at h
    split at h
    · rename_i hleaf
      simp only [Option.some.injEq, Prod.mk.injEq] at h
      obtain ⟨rfl, rfl, rfl⟩ := h
      cases t with
      | leaf token => exact ⟨rfl, by simpa [isLeaf, first] using hleaf⟩
      | group => simp [isLeaf] at hleaf
    · simp only [Option.map_eq_some_iff, Prod.mk.injEq] at h
      obtain ⟨⟨b, token', a⟩, hcut, rfl, rfl, rfl⟩ := h
      obtain ⟨rfl, hkind⟩ := ih hcut
      exact ⟨rfl, hkind⟩

theorem operatorSymbol_of_isOperator {t : Token} {symbol : Bytes} (h : t.isOperator symbol = true) :
    t.operatorSymbol? = some symbol := by
  simp only [Token.isOperator, Bool.and_eq_true, beq_iff_eq] at h
  simp [Token.operatorSymbol?, h.1, h.2]

theorem cutAtColon_eq_some {pending : Nat} {ts before after : List TokenTree} {colon : Token}
    (h : cutAtColon pending ts = some (before, colon, after)) :
    ts = before ++ .leaf colon :: after ∧ colon.operatorSymbol? = some ":" := by
  induction ts generalizing pending before with
  | nil => simp [cutAtColon] at h
  | cons t ts ih =>
    rw [cutAtColon] at h
    split at h
    · rename_i hcolon
      simp only [Option.some.injEq, Prod.mk.injEq] at h
      obtain ⟨rfl, rfl, rfl⟩ := h
      cases t with
      | leaf token =>
        simp only [isSymbol, Bool.and_eq_true] at hcolon
        exact ⟨rfl, operatorSymbol_of_isOperator hcolon.1⟩
      | group => simp [isSymbol] at hcolon
    · simp only [Option.map_eq_some_iff, Prod.mk.injEq] at h
      obtain ⟨⟨b, token', a⟩, hcut, rfl, rfl, rfl⟩ := h
      obtain ⟨rfl, hsymbol⟩ := ih hcut
      exact ⟨rfl, hsymbol⟩

/-- The clauses, with semicolons around them, are the trees; what follows a clause is among the tokens. -/
inductive Divided (tokens : List Token) : List Clause → List TokenTree → Prop
  | nil : Divided tokens [] []
  | separator {t : Token} {cs : List Clause} {ts : List TokenTree} (kind : t.kind = .semicolon)
    (rest : Divided tokens cs ts) : Divided tokens cs (.leaf t :: ts)
  | clause {c : Clause} {cs : List Clause} {ts : List TokenTree} (stop_mem : c.stop ∈ tokens)
    (rest : Divided tokens cs ts) : Divided tokens (c :: cs) (c.head :: c.tail ++ ts)

variable {tokens : List Token} {stop : Token} {cs : List Clause}

theorem Divided.ofTrees {ts us : List TokenTree} (hstop : stop ∈ tokens) (h : Divided tokens cs us) :
    Divided tokens (Clause.ofTrees stop ts ++ cs) (ts ++ us) := by
  cases ts with
  | nil => exact h
  | cons t ts => exact .clause (c := ⟨t, ts, stop⟩) hstop h

theorem Divided.append_ofTrees {us : List TokenTree} (h : Divided tokens cs us) (hstop : stop ∈ tokens)
    (ts : List TokenTree) : Divided tokens (cs ++ Clause.ofTrees stop ts) (us ++ ts) := by
  induction h with
  | nil => simpa using Divided.ofTrees hstop .nil
  | separator kind _ ih => exact .separator kind ih
  | clause stop_mem _ ih =>
    rw [List.append_assoc]
    exact .clause stop_mem ih

theorem splitStatements_divided (hstop : stop ∈ tokens) (done : List TokenTree) {ts : List TokenTree}
    (h : Inside tokens ts) :
    ∃ us, done.reverse ++ ts = us ++ (splitStatements stop done ts).2 ∧
      Divided tokens (splitStatements stop done ts).1 us := by
  induction ts generalizing done with
  | nil => exact ⟨[], by simp [splitStatements], .nil⟩
  | cons t ts ih =>
    obtain ⟨us, heq, hdivided⟩ := ih [] h.tail
    rw [List.reverse_nil, List.nil_append] at heq
    rw [splitStatements]
    split
    · rename_i hleaf
      cases t with
      | leaf token =>
        refine ⟨done.reverse ++ .leaf token :: us, by simp [← heq], ?_⟩
        exact .ofTrees h.leaf_mem (.separator (by simpa [isLeaf] using hleaf) hdivided)
      | group => simp [isLeaf] at hleaf
    · split
      · refine ⟨(t :: done).reverse ++ us, by simp [← heq], .ofTrees ?_ hdivided⟩
        cases ts with
        | nil => exact hstop
        | cons x ts => exact h.tail.mem_of_mem List.mem_cons_self
      · obtain ⟨us, heq, hdivided⟩ := ih (t :: done) h.tail
        exact ⟨us, by simpa using heq, hdivided⟩

theorem statements_divided (hstop : stop ∈ tokens) {ts : List TokenTree} (h : Inside tokens ts) :
    Divided tokens (statements stop ts) ts := by
  obtain ⟨us, heq, hdivided⟩ := splitStatements_divided hstop [] h
  have hdivided := hdivided.append_ofTrees hstop (splitStatements stop [] ts).2
  rwa [← heq] at hdivided

end Bracescript
