import Bracescript.Diagnostic.Cause

/-!
# Token trees

Tokens whose delimiters are matched: a tree is a token by itself or a pair of delimiters with what stands between
them. All later splitting is done on lists of trees, so it never looks into a pair of delimiters by accident.
-/

namespace Bracescript

inductive TokenTree where
  | leaf (token : Token)
  | group (opener : Token) (inside : List TokenTree) (closer : Token)

namespace TokenTree

def first : TokenTree → Token
  | leaf t => t
  | group opener _ _ => opener

def last : TokenTree → Token
  | leaf t => t
  | group _ _ closer => closer

mutual

/-- The tokens of a tree in source order. -/
def flatten : TokenTree → List Token
  | leaf t => [t]
  | group opener inside closer => opener :: flattenAll inside ++ [closer]

def flattenAll : List TokenTree → List Token
  | [] => []
  | t :: ts => t.flatten ++ flattenAll ts

end

mutual

/-- The number of tokens in a tree. -/
def weight : TokenTree → Nat
  | leaf _ => 1
  | group _ inside _ => weightAll inside + 2

def weightAll : List TokenTree → Nat
  | [] => 0
  | t :: ts => t.weight + weightAll ts

end

theorem weight_pos (t : TokenTree) : 0 < t.weight := by
  cases t <;> simp [weight]

/-- Whether the tree is a block in braces. -/
def isBlock : TokenTree → Bool
  | leaf _ => false
  | group opener _ _ => opener.kind == .leftBrace

/-- Whether the tree is a token of this kind. -/
def isLeaf (kind : TokenKind) : TokenTree → Bool
  | leaf t => t.kind == kind
  | group .. => false

def isKeyword (word : Bytes) : TokenTree → Bool
  | leaf t => t.isKeyword word
  | group .. => false

/-! ## Nesting -/

/-- An opening delimiter that waits for its closing one, and the trees before it at its level, last first. -/
structure Level where
  opener : Token
  before : List TokenTree

/-- The trees before the outermost delimiter that is still open. -/
def outermost : List Level → List TokenTree → List TokenTree
  | [], done => done.reverse
  | level :: levels, _ => outermost levels level.before

/-- Nests tokens. `done` holds the trees of the innermost level so far, last first. -/
def nestFrom (waiting : List Level) (done : List TokenTree) : List Token → List TokenTree × Option SyntaxError
  | [] =>
    match waiting with
    | [] => (done.reverse, none)
    | level :: _ =>
      (outermost waiting done, some (.atToken (.unclosed level.opener.kind level.opener.text) level.opener))
  | t :: ts =>
    if t.kind.isOpener then nestFrom (⟨t, done⟩ :: waiting) [] ts
    else if t.kind.isCloser then
      match waiting with
      | [] => (done.reverse, some (.atToken (.unbalanced t.text) t))
      | level :: levels =>
        if level.opener.kind.closer? = some t.kind then
          nestFrom levels (group level.opener done.reverse t :: level.before) ts
        else
          let o := level.opener
          (outermost waiting done, some (.atToken (.mismatched t.text o.text o.pos.line o.pos.col) t))
    else nestFrom waiting (leaf t :: done) ts

/-- The trees of a token list; with the first fault among its delimiters, only the trees that are complete before it
at the outermost level. -/
def nest (tokens : List Token) : List TokenTree × Option SyntaxError := nestFrom [] [] tokens

end TokenTree

open TokenTree

/-- Some trees and the token that follows them. -/
structure Stretch where
  trees : List TokenTree
  stop : Token

namespace Stretch

def weight (r : Stretch) : Nat := weightAll r.trees

/-- The token at the front, which is the one that follows when there is no tree. -/
def first (r : Stretch) : Token := ((r.trees.head?).map TokenTree.first).getD r.stop

/-- All but the first tree. -/
def tail (r : Stretch) : Stretch := ⟨r.trees.tail, r.stop⟩

theorem weight_tail_le (r : Stretch) : r.tail.weight ≤ r.weight := by
  obtain ⟨trees, stop⟩ := r
  cases trees <;> simp [tail, weight, weightAll]

def isEmpty (r : Stretch) : Bool := r.trees.isEmpty

/-- From the first tree to the last. -/
def span (r : Stretch) : Span :=
  match r.trees with
  | [] => { r.stop.span with stop := r.stop.span.start }
  | t :: ts => t.first.span.cover (((t :: ts).getLast (by simp)).last.span)

end Stretch

/-! ## Splitting -/

/-- Puts a tree in front of the first stretch. -/
def consTree (t : TokenTree) (stop : Token) : List Stretch → List Stretch
  | [] => [⟨[t], stop⟩]
  | r :: rs => ⟨t :: r.trees, r.stop⟩ :: rs

/-- The stretches between separators; there is one more of them than there are separators. -/
def splitAt (separator : TokenKind) (stop : Token) : List TokenTree → List Stretch
  | [] => [⟨[], stop⟩]
  | t :: ts =>
    if t.isLeaf separator then ⟨[], t.first⟩ :: splitAt separator stop ts
    else consTree t stop (splitAt separator stop ts)

/-- What stands before the first token of a kind, that token, and what follows it. -/
def cutAt (kind : TokenKind) : List TokenTree → Option (List TokenTree × Token × List TokenTree)
  | [] => none
  | t :: ts =>
    if t.isLeaf kind then some ([], t.first, ts)
    else (cutAt kind ts).map fun (before, token, after) => (t :: before, token, after)

def isSymbol (symbol : Bytes) : TokenTree → Bool
  | .leaf t => t.isOperator symbol
  | .group .. => false

/-- Cuts at the first colon that belongs to no question mark; `pending` question marks still wait for theirs. -/
def cutAtColon (pending : Nat) : List TokenTree → Option (List TokenTree × Token × List TokenTree)
  | [] => none
  | t :: ts =>
    if isSymbol ":" t && pending == 0 then some ([], t.first, ts)
    else
      let pending := if isSymbol "?" t then pending + 1 else if isSymbol ":" t then pending - 1 else pending
      (cutAtColon pending ts).map fun (before, token, after) => (t :: before, token, after)

/-- Whether a condition cannot go on here: at a semicolon, a comma or a block. -/
def endsCondition (t : TokenTree) : Bool := t.isLeaf .semicolon || t.isLeaf .comma || t.isBlock

/-- The trees of a condition in parentheses. -/
def conditionPart (inside : List TokenTree) (closer : Token) : Stretch :=
  ⟨inside.takeWhile fun t => !endsCondition t,
    (((inside.dropWhile fun t => !endsCondition t).head?).map TokenTree.first).getD closer⟩

/-- Some statements, each with at least one tree. -/
structure Clause where
  head : TokenTree
  tail : List TokenTree
  stop : Token

namespace Clause

def weight (c : Clause) : Nat := c.head.weight + weightAll c.tail

def stretch (c : Clause) : Stretch := ⟨c.head :: c.tail, c.stop⟩

/-- What follows the first tree. -/
def after (c : Clause) : Stretch := ⟨c.tail, c.stop⟩

def span (c : Clause) : Span := c.stretch.span

def weightAll : List Clause → Nat
  | [] => 0
  | c :: cs => c.weight + weightAll cs

/-- The trees as a clause, if there are any. -/
def ofTrees (stop : Token) : List TokenTree → List Clause
  | [] => []
  | t :: ts => [⟨t, ts, stop⟩]

end Clause

/-- Whether a statement ends behind this tree: it is a block and no `else` follows. -/
def endsStatement (t : TokenTree) (ts : List TokenTree) : Bool :=
  t.isBlock && !((ts.head?).map (TokenTree.isKeyword "else")).getD false

/-- The complete statements of a list of trees and what is left over; `done` holds the trees of the statement at hand,
last first. -/
def splitStatements (stop : Token) (done : List TokenTree) : List TokenTree → List Clause × List TokenTree
  | [] => ([], done.reverse)
  | t :: ts =>
    if t.isLeaf .semicolon then
      let (clauses, left) := splitStatements stop [] ts
      (Clause.ofTrees t.first done.reverse ++ clauses, left)
    else if endsStatement t ts then
      let (clauses, left) := splitStatements stop [] ts
      (Clause.ofTrees (((ts.head?).map TokenTree.first).getD stop) (t :: done).reverse ++ clauses, left)
    else splitStatements stop (t :: done) ts

/-- All statements of a list of trees, the last of which needs no end. -/
def statements (stop : Token) (ts : List TokenTree) : List Clause :=
  let (clauses, left) := splitStatements stop [] ts
  clauses ++ Clause.ofTrees stop left

/-! ## Weights of parts -/

theorem TokenTree.weightAll_append (xs ys : List TokenTree) :
    weightAll (xs ++ ys) = weightAll xs + weightAll ys := by
  induction xs with
  | nil => simp [weightAll]
  | cons x xs ih => simp [weightAll, ih]; omega

theorem TokenTree.weightAll_reverse (xs : List TokenTree) : weightAll xs.reverse = weightAll xs := by
  induction xs with
  | nil => rfl
  | cons x xs ih => simp [weightAll_append, weightAll, ih]; omega

theorem TokenTree.weightAll_takeWhile (p : TokenTree → Bool) (xs : List TokenTree) :
    weightAll (xs.takeWhile p) ≤ weightAll xs := by
  induction xs with
  | nil => simp
  | cons x xs ih =>
    rw [List.takeWhile_cons]
    split
    · simp [weightAll]; omega
    · simp [weightAll]

/-- Each stretch counts one more than its trees. -/
def Stretch.weightAll : List Stretch → Nat
  | [] => 0
  | r :: rs => r.weight + 1 + weightAll rs

theorem weightAll_consTree (t : TokenTree) (stop : Token) (r : Stretch) (rs : List Stretch) :
    Stretch.weightAll (consTree t stop (r :: rs)) = t.weight + Stretch.weightAll (r :: rs) := by
  simp [consTree, Stretch.weightAll, Stretch.weight, TokenTree.weightAll]
  omega

theorem splitAt_ne_nil (separator : TokenKind) (stop : Token) (ts : List TokenTree) :
    splitAt separator stop ts ≠ [] := by
  induction ts with
  | nil => simp [splitAt]
  | cons t ts ih =>
    rw [splitAt]
    split
    · simp
    · cases h : splitAt separator stop ts with
      | nil => exact absurd h ih
      | cons r rs => simp [consTree]

theorem weightAll_splitAt (separator : TokenKind) (stop : Token) (ts : List TokenTree) :
    Stretch.weightAll (splitAt separator stop ts) = TokenTree.weightAll ts + 1 := by
  induction ts with
  | nil => simp [splitAt, Stretch.weightAll, Stretch.weight, TokenTree.weightAll]
  | cons t ts ih =>
    rw [splitAt]
    split
    · rename_i h
      cases t with
      | leaf token =>
        simp only [Stretch.weightAll] at ih ⊢
        rw [ih]
        simp [Stretch.weight, TokenTree.weightAll, TokenTree.weight]
        omega
      | group => simp [TokenTree.isLeaf] at h
    · cases h : splitAt separator stop ts with
      | nil => exact absurd h (splitAt_ne_nil _ _ _)
      | cons r rs =>
        rw [weightAll_consTree, ← h, ih]
        simp [TokenTree.weightAll]
        omega

theorem weightAll_cutAtColon {pending : Nat} {ts before after : List TokenTree} {colon : Token}
    (h : cutAtColon pending ts = some (before, colon, after)) :
    TokenTree.weightAll before + TokenTree.weightAll after < TokenTree.weightAll ts := by
  induction ts generalizing pending before after colon with
  | nil => simp [cutAtColon] at h
  | cons t ts ih =>
    have := t.weight_pos
    rw [cutAtColon] at h
    split at h
    · simp only [Option.some.injEq, Prod.mk.injEq] at h
      obtain ⟨rfl, _, rfl⟩ := h
      simp [TokenTree.weightAll]
      omega
    · simp only [Option.map_eq_some_iff, Prod.mk.injEq] at h
      obtain ⟨⟨b, c, a⟩, hcut, rfl, _, rfl⟩ := h
      have := ih hcut
      simp [TokenTree.weightAll]
      omega

theorem Clause.weightAll_append (xs ys : List Clause) :
    Clause.weightAll (xs ++ ys) = Clause.weightAll xs + Clause.weightAll ys := by
  induction xs with
  | nil => simp [Clause.weightAll]
  | cons x xs ih => simp [Clause.weightAll, ih]; omega

theorem Clause.weightAll_ofTrees (stop : Token) (ts : List TokenTree) :
    Clause.weightAll (Clause.ofTrees stop ts) = TokenTree.weightAll ts := by
  cases ts <;> simp [Clause.ofTrees, Clause.weightAll, Clause.weight, TokenTree.weightAll]

theorem weightAll_splitStatements (stop : Token) (done ts : List TokenTree) :
    Clause.weightAll (splitStatements stop done ts).1 + TokenTree.weightAll (splitStatements stop done ts).2
      ≤ TokenTree.weightAll done + TokenTree.weightAll ts := by
  induction ts generalizing done with
  | nil => simp [splitStatements, Clause.weightAll, TokenTree.weightAll_reverse]
  | cons t ts ih =>
    rw [splitStatements]
    split
    · have := ih []
      simp only [Clause.weightAll_append, Clause.weightAll_ofTrees, TokenTree.weightAll_reverse, TokenTree.weightAll] at this ⊢
      omega
    · split
      · have := ih []
        simp only [Clause.weightAll_append, Clause.weightAll_ofTrees, TokenTree.weightAll_reverse, TokenTree.weightAll] at this ⊢
        omega
      · have := ih (t :: done)
        simp only [TokenTree.weightAll] at this ⊢
        omega

theorem weightAll_statements (stop : Token) (ts : List TokenTree) :
    Clause.weightAll (statements stop ts) ≤ TokenTree.weightAll ts := by
  have := weightAll_splitStatements stop [] ts
  simp only [statements, Clause.weightAll_append, Clause.weightAll_ofTrees, TokenTree.weightAll] at this ⊢
  omega

end Bracescript
