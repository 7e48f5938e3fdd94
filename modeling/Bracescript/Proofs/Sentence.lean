import Bracescript.Proofs.Phrase

/-!
# Sentences

Statements as they are written with their blocks in braces, with a semicolon behind each one that does not end in a
block, and with every part of an expression in parentheses: the tree that is meant, and the tokens that are written for
it. The trees of sentences in a row are told apart again where the parser does it.
-/

namespace Bracescript

open Item TokenTree

/-! ## Statements without a block -/

/-- A name and what follows it in an expression. -/
inductive Trail where
  | name (x : Bytes)
  | extend (target : Trail) (link : Link)

/-- Whether something can be assigned to it: it does not end with a call. -/
def Trail.isTarget : Trail → Bool
  | .extend _ (.call _) => false
  | _ => true

inductive Simple where
  /-- With `let` or `const`, which needs a value. -/
  | declare (constant : Bool) (type : Option Bytes) (name : Bytes) (value : Option Phrase)
      (known : constant = true → value.isSome = true)
  | typed (type name : Bytes) (value : Option Phrase)
  | change (target : Trail) (known : target.isTarget = true) (value : Phrase)
  | run (e : Trail)
  | step (e : Trail) (symbol : Bytes) (known : isBehind symbol = true)

structure Param where
  type : Option Bytes
  name : Bytes
  default : Option Phrase

mutual

/-- A statement in writing. -/
inductive Sentence where
  | simple (s : Simple)
  | conditional (test : Phrase) (yes : List Sentence) (no : Otherwise)
  | forLoop (init : Option Simple) (test : Option Phrase) (step : Option Simple) (body : List Sentence)
  | whileLoop (test : Phrase) (body : List Sentence)
  | define (name : Bytes) (params : List Param) (distinct : (params.map Param.name).Nodup) (body : List Sentence)
  /-- The parentheses for the bases may be left out. -/
  | defineClass (name : Bytes) (bases : Option (List Phrase)) (members : List Sentence)
  | ret (value : Option Phrase)
  | brk
  | cont

/-- What follows the first block of an `if`. -/
inductive Otherwise where
  | nothing
  | block (no : List Sentence)
  | elseIf (test : Phrase) (yes : List Sentence) (no : Otherwise)

end

/-! ## Trees -/

def Trail.tree : Trail → Expr
  | .name x => .ident .blank x
  | .extend target link => link.applyTo target.tree

def Simple.tree : Simple → Stmt
  | .declare constant none x value _ => .assign .blank true constant (.ident .blank x) (Phrase.treeOption value)
  | .declare constant (some type) x value _ =>
    .typed .blank (.ident .blank type) constant (.ident .blank x) (Phrase.treeOption value)
  | .typed type x value => .typed .blank (.ident .blank type) false (.ident .blank x) (Phrase.treeOption value)
  | .change target _ value => .assign .blank false false target.tree (some value.tree)
  | .run e => .expr .blank e.tree
  | .step e symbol _ => .expr .blank (.unary .blank symbol e.tree true)

def Simple.treeOption : Option Simple → Option Stmt
  | none => none
  | some s => some s.tree

def Param.tree (p : Param) : Argument Expr where
  name := p.name
  type := p.type.map (.ident .blank)
  value := Phrase.treeOption p.default

mutual

/-- The statement that is meant. -/
def Sentence.tree : Sentence → Stmt
  | .simple s => s.tree
  | .conditional test yes no => .conditional .blank test.tree (Sentence.treeAll yes) no.tree
  | .forLoop init test step body =>
    .forLoop .blank (Simple.treeOption init) (Phrase.treeOption test) (Simple.treeOption step) (Sentence.treeAll body)
  | .whileLoop test body => .whileLoop .blank test.tree (Sentence.treeAll body)
  | .define name params _ body => .define .blank name (params.map Param.tree) (Sentence.treeAll body)
  | .defineClass name bases members =>
    .defineClass .blank name ((bases.getD []).map Phrase.tree) (Sentence.treeAll members)
  | .ret value => .ret .blank (Phrase.treeOption value)
  | .brk => .brk .blank
  | .cont => .cont .blank

def Otherwise.tree : Otherwise → List Stmt
  | .nothing => []
  | .block no => Sentence.treeAll no
  | .elseIf test yes no => [.conditional .blank test.tree (Sentence.treeAll yes) no.tree]

def Sentence.treeAll : List Sentence → List Stmt
  | [] => []
  | s :: ss => s.tree :: Sentence.treeAll ss

end

/-! ## Where sentences may stand -/

/-- Whether a class may hold it: a declaration, an assignment to a name or a definition. -/
def Sentence.isMember : Sentence → Bool
  | .simple (.declare ..) | .simple (.typed ..) | .simple (.change (.name _) ..) | .define .. => true
  | _ => false

mutual

/-- Whether each `return` belongs to a definition, each `break` and `continue` to a loop, and each class holds members
only; `inDef` and `inLoop` say what is around. -/
def Sentence.fits (inDef inLoop : Bool) : Sentence → Bool
  | .simple _ => true
  | .conditional _ yes no => Sentence.fitAll inDef inLoop yes && no.fits inDef inLoop
  | .forLoop _ _ _ body | .whileLoop _ body => Sentence.fitAll inDef true body
  | .define _ _ _ body => Sentence.fitAll true false body
  | .defineClass _ _ members => members.all Sentence.isMember && Sentence.fitAll false false members
  | .ret _ => inDef
  | .brk | .cont => inLoop

def Otherwise.fits (inDef inLoop : Bool) : Otherwise → Bool
  | .nothing => true
  | .block no => Sentence.fitAll inDef inLoop no
  | .elseIf _ yes no => Sentence.fitAll inDef inLoop yes && no.fits inDef inLoop

def Sentence.fitAll (inDef inLoop : Bool) : List Sentence → Bool
  | [] => true
  | s :: ss => s.fits inDef inLoop && Sentence.fitAll inDef inLoop ss

end

/-! ## Tokens -/

def wordLeaf (word : Bytes) : TokenTree := .leaf (.mark .keyword word)

def equalsLeaf : TokenTree := .leaf (.mark .equals "=")

def semicolonLeaf : TokenTree := .leaf (.mark .semicolon ";")

def braces (inside : List TokenTree) : TokenTree := .group (.mark .leftBrace "\x7b") inside (.mark .rightBrace "\x7d")

def Phrase.forestOption : Option Phrase → List TokenTree
  | none => []
  | some p => p.forest

/-- An equals sign and a value, or nothing. -/
def Phrase.valueForest : Option Phrase → List TokenTree
  | none => []
  | some p => equalsLeaf :: p.forest

/-- A name, with its type before it if it has one. -/
def nameForest (type : Option Bytes) (x : Bytes) : List TokenTree :=
  match type with
  | none => [nameLeaf x]
  | some type => [nameLeaf type, nameLeaf x]

def Trail.forest : Trail → List TokenTree
  | .name x => [nameLeaf x]
  | .extend target link => target.forest ++ link.forest

def Simple.forest : Simple → List TokenTree
  | .declare constant type x value _ =>
    wordLeaf (if constant then "const" else "let") :: (nameForest type x ++ Phrase.valueForest value)
  | .typed type x value => nameForest (some type) x ++ Phrase.valueForest value
  | .change target _ value => target.forest ++ equalsLeaf :: value.forest
  | .run e => e.forest
  | .step e symbol _ => e.forest ++ [symbolLeaf symbol]

def Simple.forestOption : Option Simple → List TokenTree
  | none => []
  | some s => s.forest

def Param.forest (p : Param) : List TokenTree := nameForest p.type p.name ++ Phrase.valueForest p.default

/-- The bases of a class. -/
def basesForest : Option (List Phrase) → List TokenTree
  | none => []
  | some bases => [parens (commaSeparated (bases.map Phrase.forest))]

/-- What ends a sentence that is not ended by its block. -/
def Sentence.ending : Sentence → List TokenTree
  | .simple _ | .ret _ | .brk | .cont => [semicolonLeaf]
  | _ => []

mutual

/-- What is written for a statement, without its ending. -/
def Sentence.forest : Sentence → List TokenTree
  | .simple s => s.forest
  | .conditional test yes no => wordLeaf "if" :: parens test.forest :: braces (Sentence.forestAll yes) :: no.forest
  | .forLoop init test step body =>
    [wordLeaf "for",
      parens (Simple.forestOption init ++
        semicolonLeaf :: (Phrase.forestOption test ++ semicolonLeaf :: Simple.forestOption step)),
      braces (Sentence.forestAll body)]
  | .whileLoop test body => [wordLeaf "while", parens test.forest, braces (Sentence.forestAll body)]
  | .define name params _ body =>
    [wordLeaf "def", nameLeaf name, parens (commaSeparated (params.map Param.forest)),
      braces (Sentence.forestAll body)]
  | .defineClass name bases members =>
    wordLeaf "class" :: nameLeaf name :: (basesForest bases ++ [braces (Sentence.forestAll members)])
  | .ret value => wordLeaf "return" :: Phrase.forestOption value
  | .brk => [wordLeaf "break"]
  | .cont => [wordLeaf "continue"]

def Otherwise.forest : Otherwise → List TokenTree
  | .nothing => []
  | .block no => [wordLeaf "else", braces (Sentence.forestAll no)]
  | .elseIf test yes no =>
    wordLeaf "else" :: wordLeaf "if" :: parens test.forest :: braces (Sentence.forestAll yes) :: no.forest

/-- What is written for sentences in a row. -/
def Sentence.forestAll : List Sentence → List TokenTree
  | [] => []
  | s :: ss => s.forest ++ s.ending ++ Sentence.forestAll ss

end

/-! ## Matched delimiters -/

@[simp]
theorem matched_wordLeaf (word : Bytes) : (wordLeaf word).Matched := ⟨rfl, rfl⟩

@[simp]
theorem matched_equalsLeaf : equalsLeaf.Matched := ⟨rfl, rfl⟩

@[simp]
theorem matched_semicolonLeaf : semicolonLeaf.Matched := ⟨rfl, rfl⟩

theorem matched_braces {inside : List TokenTree} (h : MatchedAll inside) : (braces inside).Matched := ⟨rfl, h⟩

theorem Phrase.forestOption_matched (p : Option Phrase) : MatchedAll (Phrase.forestOption p) := by
  cases p with
  | none => trivial
  | some p => exact p.matched

theorem Phrase.valueForest_matched (p : Option Phrase) : MatchedAll (Phrase.valueForest p) := by
  cases p with
  | none => trivial
  | some p => exact ⟨matched_equalsLeaf, p.matched⟩

theorem nameForest_matched (type : Option Bytes) (x : Bytes) : MatchedAll (nameForest type x) := by
  cases type with
  | none => exact ⟨matched_nameLeaf x, trivial⟩
  | some type => exact ⟨matched_nameLeaf type, matched_nameLeaf x, trivial⟩

theorem Trail.matched (e : Trail) : MatchedAll e.forest := by
  induction e with
  | name x => exact ⟨matched_nameLeaf x, trivial⟩
  | extend target link ih => exact matchedAll_append.mpr ⟨ih, link.matched⟩

theorem Simple.matched (s : Simple) : MatchedAll s.forest := by
  cases s with
  | declare _ type x value _ =>
    exact ⟨matched_wordLeaf _, matchedAll_append.mpr ⟨nameForest_matched type x, Phrase.valueForest_matched value⟩⟩
  | typed type x value => exact matchedAll_append.mpr ⟨nameForest_matched (some type) x, Phrase.valueForest_matched value⟩
  | change target _ value => exact matchedAll_append.mpr ⟨target.matched, matched_equalsLeaf, value.matched⟩
  | run e => exact e.matched
  | step e symbol _ => exact matchedAll_append.mpr ⟨e.matched, matched_symbolLeaf symbol, trivial⟩

theorem Simple.forestOption_matched (s : Option Simple) : MatchedAll (Simple.forestOption s) := by
  cases s with
  | none => trivial
  | some s => exact s.matched

theorem Param.matched (p : Param) : MatchedAll p.forest :=
  matchedAll_append.mpr ⟨nameForest_matched p.type p.name, Phrase.valueForest_matched p.default⟩

theorem basesForest_matched (bases : Option (List Phrase)) : MatchedAll (basesForest bases) := by
  cases bases with
  | none => trivial
  | some bases => exact ⟨matched_parens (commaSeparated_matched (List.forall_mem_map.mpr fun p _ => p.matched)), trivial⟩

theorem Sentence.ending_matched (s : Sentence) : MatchedAll s.ending := by
  cases s with
  | simple | ret | brk | cont => exact ⟨matched_semicolonLeaf, trivial⟩
  | _ => trivial

mutual

theorem Sentence.matched (s : Sentence) : MatchedAll s.forest := by
  match s with
  | .simple s => exact s.matched
  | .conditional test yes no =>
    exact ⟨matched_wordLeaf _, matched_parens test.matched, matched_braces (Sentence.matchedAll yes), no.matched⟩
  | .forLoop init test step body =>
    refine ⟨matched_wordLeaf _, matched_parens ?_, matched_braces (Sentence.matchedAll body), trivial⟩
    refine matchedAll_append.mpr ⟨Simple.forestOption_matched init, matched_semicolonLeaf, ?_⟩
    exact matchedAll_append.mpr
      ⟨Phrase.forestOption_matched test, matched_semicolonLeaf, Simple.forestOption_matched step⟩
  | .whileLoop test body =>
    exact ⟨matched_wordLeaf _, matched_parens test.matched, matched_braces (Sentence.matchedAll body), trivial⟩
  | .define name params _ body =>
    have hparams := commaSeparated_matched (List.forall_mem_map.mpr fun p (_ : p ∈ params) => p.matched)
    exact ⟨matched_wordLeaf _, matched_nameLeaf name, matched_parens hparams, matched_braces (Sentence.matchedAll body),
      trivial⟩
  | .defineClass name bases members =>
    refine ⟨matched_wordLeaf _, matched_nameLeaf name, matchedAll_append.mpr ⟨basesForest_matched bases, ?_⟩⟩
    exact ⟨matched_braces (Sentence.matchedAll members), trivial⟩
  | .ret value => exact ⟨matched_wordLeaf _, Phrase.forestOption_matched value⟩
  | .brk | .cont => exact ⟨matched_wordLeaf _, trivial⟩

theorem Otherwise.matched (no : Otherwise) : MatchedAll no.forest := by
  match no with
  | .nothing => trivial
  | .block no => exact ⟨matched_wordLeaf _, matched_braces (Sentence.matchedAll no), trivial⟩
  | .elseIf test yes no =>
    exact ⟨matched_wordLeaf _, matched_wordLeaf _, matched_parens test.matched,
      matched_braces (Sentence.matchedAll yes), no.matched⟩

theorem Sentence.matchedAll (ss : List Sentence) : MatchedAll (Sentence.forestAll ss) := by
  match ss with
  | [] => trivial
  | s :: ss =>
    rw [Sentence.forestAll]
    exact matchedAll_append.mpr ⟨matchedAll_append.mpr ⟨s.matched, s.ending_matched⟩, Sentence.matchedAll ss⟩

end

/-! ## Telling sentences apart -/

namespace TokenTree

/-- Whether a statement goes on behind the tree, whatever follows: it is no semicolon and no block. -/
def goesOn (t : TokenTree) : Bool := !t.isLeaf .semicolon && !t.isBlock

theorem goesOn_of_inline {t : TokenTree} (h : t.isInline = true) : t.goesOn = true := by
  cases t <;> simp_all [isInline, goesOn, isLeaf, isBlock]

theorem isLeaf_of_goesOn {t : TokenTree} (h : t.goesOn = true) : t.isLeaf .semicolon = false := by
  rw [goesOn, Bool.and_eq_true] at h
  simpa using h.1

@[simp]
theorem goesOn_nameLeaf (x : Bytes) : (nameLeaf x).goesOn = true := rfl

@[simp]
theorem goesOn_symbolLeaf (symbol : Bytes) : (symbolLeaf symbol).goesOn = true :=
  goesOn_of_inline (isInline_symbolLeaf symbol)

@[simp]
theorem goesOn_wordLeaf (word : Bytes) : (wordLeaf word).goesOn = true := rfl

@[simp]
theorem goesOn_equalsLeaf : equalsLeaf.goesOn = true := rfl

@[simp]
theorem goesOn_parens (inside : List TokenTree) : (parens inside).goesOn = true := rfl

/-- Whether an `else` is at the front. -/
def startsElse (ts : List TokenTree) : Bool := ((ts.head?).map (isKeyword "else")).getD false

end TokenTree

/-- The list alone, unless it is empty. -/
def unlessEmpty (ts : List TokenTree) : List (List TokenTree) := if ts.isEmpty then [] else [ts]

/-- The trees of each statement, where `done` holds those of the statement at hand, last first. -/
def statementTrees (done : List TokenTree) : List TokenTree → List (List TokenTree)
  | [] => unlessEmpty done.reverse
  | t :: ts =>
    if t.isLeaf .semicolon then unlessEmpty done.reverse ++ statementTrees [] ts
    else if endsStatement t ts then (t :: done).reverse :: statementTrees [] ts
    else statementTrees (t :: done) ts

theorem trees_ofTrees (stop : Token) (ts : List TokenTree) :
    (Clause.ofTrees stop ts).map (fun c => c.stretch.trees) = unlessEmpty ts := by
  cases ts <;> rfl

theorem unlessEmpty_reverse_cons (t : TokenTree) (ts : List TokenTree) :
    unlessEmpty (t :: ts).reverse = [(t :: ts).reverse] := if_neg (by simp)

theorem trees_splitStatements (stop : Token) (done ts : List TokenTree) :
    ((splitStatements stop done ts).1 ++ Clause.ofTrees stop (splitStatements stop done ts).2).map
      (fun c => c.stretch.trees) = statementTrees done ts := by
  induction ts generalizing done with
  | nil => exact trees_ofTrees stop _
  | cons t ts ih =>
    rw [splitStatements, statementTrees]
    split
    · rw [List.append_assoc, List.map_append, trees_ofTrees, ih]
    · split
      · rw [List.append_assoc, List.map_append, trees_ofTrees, ih, unlessEmpty_reverse_cons, List.singleton_append]
      · exact ih _

theorem trees_statements (stop : Token) (ts : List TokenTree) :
    (statements stop ts).map (fun c => c.stretch.trees) = statementTrees [] ts := trees_splitStatements stop [] ts

/-- Statements end where they do wherever they are placed. -/
theorem statementTrees_unplaced (done ts : List TokenTree) :
    statementTrees (unplacedAll done) (unplacedAll ts) = (statementTrees done ts).map unplacedAll := by
  have hreverse (ts : List TokenTree) : (unplacedAll ts).reverse = unplacedAll ts.reverse := by
    induction ts with
    | nil => rfl
    | cons t ts ih => simp [unplacedAll, unplacedAll_append, ih]
  have hunless (ts : List TokenTree) : unlessEmpty (unplacedAll ts) = (unlessEmpty ts).map unplacedAll := by
    cases ts <;> rfl
  have hends (t : TokenTree) (ts : List TokenTree) : endsStatement t.unplaced (unplacedAll ts) = endsStatement t ts := by
    cases ts <;> simp [endsStatement, unplacedAll]
  induction ts generalizing done with
  | nil => rw [unplacedAll, statementTrees, statementTrees, hreverse, hunless]
  | cons t ts ih =>
    have hdone := hreverse (t :: done)
    rw [unplacedAll] at hdone
    rw [unplacedAll, statementTrees, statementTrees, isLeaf_unplaced, hends]
    split
    · rw [List.map_append, ← ih, hreverse, hunless, unplacedAll]
    · split
      · rw [List.map_cons, ← ih, hdone, unplacedAll]
      · rw [← ih, unplacedAll]

section

variable {done us vs : List TokenTree}

theorem statementTrees_goesOn (h : ∀ t ∈ us, t.goesOn = true) :
    statementTrees done (us ++ vs) = statementTrees (us.reverse ++ done) vs := by
  induction us generalizing done with
  | nil => rfl
  | cons t us ih =>
    rw [List.forall_mem_cons] at h
    obtain ⟨hsemicolon, hblock⟩ : t.isLeaf .semicolon = false ∧ t.isBlock = false := by simpa [goesOn] using h.1
    rw [List.cons_append, statementTrees, if_neg (by simp [hsemicolon]), if_neg (by simp [endsStatement, hblock]),
      ih h.2, List.reverse_cons, List.append_assoc, List.singleton_append]

theorem statementTrees_braces (inside : List TokenTree) (hvs : startsElse vs = false) :
    statementTrees done (braces inside :: vs) = (done.reverse ++ [braces inside]) :: statementTrees [] vs := by
  have hends : endsStatement (braces inside) vs = true := congrArg Bool.not hvs
  rw [statementTrees, if_neg (by simp [braces, isLeaf]), if_pos hends, List.reverse_cons]

theorem statementTrees_braces_else (inside : List TokenTree) :
    statementTrees done (braces inside :: wordLeaf "else" :: vs) =
      statementTrees (wordLeaf "else" :: braces inside :: done) vs := rfl

end

/-! ### What a sentence goes on behind -/

theorem Phrase.forest_goesOn (p : Phrase) : ∀ t ∈ p.forest, t.goesOn = true :=
  fun t ht => goesOn_of_inline (p.forest_inline t ht)

theorem Phrase.forestOption_goesOn (p : Option Phrase) : ∀ t ∈ Phrase.forestOption p, t.goesOn = true := by
  cases p with
  | none => exact List.forall_mem_nil _
  | some p => exact p.forest_goesOn

theorem Phrase.valueForest_goesOn (p : Option Phrase) : ∀ t ∈ Phrase.valueForest p, t.goesOn = true := by
  cases p with
  | none => exact List.forall_mem_nil _
  | some p => exact List.forall_mem_cons.mpr ⟨goesOn_equalsLeaf, p.forest_goesOn⟩

theorem nameForest_inline (type : Option Bytes) (x : Bytes) : ∀ t ∈ nameForest type x, t.isInline = true := by
  cases type <;> simp [nameForest]

theorem nameForest_goesOn (type : Option Bytes) (x : Bytes) : ∀ t ∈ nameForest type x, t.goesOn = true :=
  fun t ht => goesOn_of_inline (nameForest_inline type x t ht)

theorem Trail.forest_inline (e : Trail) : ∀ t ∈ e.forest, t.isInline = true := by
  induction e with
  | name x => simp [Trail.forest]
  | extend target link ih => exact List.forall_mem_append.mpr ⟨ih, link.forest_inline⟩

theorem Trail.forest_goesOn (e : Trail) : ∀ t ∈ e.forest, t.goesOn = true :=
  fun t ht => goesOn_of_inline (e.forest_inline t ht)

theorem Simple.forest_goesOn (s : Simple) : ∀ t ∈ s.forest, t.goesOn = true := by
  cases s with
  | declare _ type x value _ =>
    refine List.forall_mem_cons.mpr ⟨goesOn_wordLeaf _, ?_⟩
    exact List.forall_mem_append.mpr ⟨nameForest_goesOn type x, Phrase.valueForest_goesOn value⟩
  | typed type x value =>
    exact List.forall_mem_append.mpr ⟨nameForest_goesOn (some type) x, Phrase.valueForest_goesOn value⟩
  | change target _ value =>
    refine List.forall_mem_append.mpr ⟨target.forest_goesOn, ?_⟩
    exact List.forall_mem_cons.mpr ⟨goesOn_equalsLeaf, value.forest_goesOn⟩
  | run e => exact e.forest_goesOn
  | step e symbol _ => exact List.forall_mem_append.mpr ⟨e.forest_goesOn, by simp⟩

theorem Simple.forestOption_semicolon (s : Option Simple) : ∀ t ∈ Simple.forestOption s, t.isLeaf .semicolon = false := by
  cases s with
  | none => exact List.forall_mem_nil _
  | some s => exact fun t ht => isLeaf_of_goesOn (s.forest_goesOn t ht)

theorem Phrase.forestOption_semicolon (p : Option Phrase) : ∀ t ∈ Phrase.forestOption p, t.isLeaf .semicolon = false :=
  fun t ht => isLeaf_of_goesOn (Phrase.forestOption_goesOn p t ht)

theorem Param.forest_comma (p : Param) : ∀ t ∈ p.forest, t.isLeaf .comma = false := by
  refine List.forall_mem_append.mpr ⟨fun t ht => (isLeaf_of_inline (nameForest_inline _ _ t ht)).1, ?_⟩
  cases p.default with
  | none => exact List.forall_mem_nil _
  | some p => exact List.forall_mem_cons.mpr ⟨rfl, p.forest_comma⟩

theorem Param.forest_ne_nil (p : Param) : p.forest ≠ [] := by
  rw [Param.forest]
  cases p.type <;> simp [nameForest]

/-! ### How sentences start -/

theorem Trail.head_forest (e : Trail) : ∃ x ts, e.forest = nameLeaf x :: ts := by
  induction e with
  | name x => exact ⟨x, [], rfl⟩
  | extend target link ih =>
    obtain ⟨x, ts, hts⟩ := ih
    exact ⟨x, ts ++ link.forest, by rw [Trail.forest, hts, List.cons_append]⟩

theorem Trail.ne_nil_of_unplacedAll {e : Trail} {ts : List TokenTree} (more : List TokenTree)
    (h : unplacedAll ts = e.forest ++ more) : ts ≠ [] := by
  rintro rfl
  obtain ⟨x, rest, hforest⟩ := e.head_forest
  rw [hforest] at h
  cases h

theorem Trail.forest_ne_leaves (e : Trail) (a b : Token) : e.forest ≠ [.leaf a, .leaf b] := by
  cases e with
  | name x => simp [Trail.forest]
  | extend target link =>
    obtain ⟨x, ts, hts⟩ := target.head_forest
    intro h
    rw [Trail.forest, hts, List.cons_append, List.cons.injEq] at h
    replace h := h.2
    cases ts with
    | nil => cases link <;> simp [Link.forest, parens, brackets] at h
    | cons => cases link <;> simp [Link.forest] at h

theorem Trail.extend_ne_leaf (target : Trail) (link : Link) (a : Token) :
    (Trail.extend target link).forest ≠ [.leaf a] := by
  obtain ⟨x, ts, hts⟩ := target.head_forest
  intro h
  rw [Trail.forest, hts, List.cons_append, List.cons.injEq] at h
  cases link <;> simp [Link.forest] at h

theorem Simple.head_forest (s : Simple) :
    (∃ (constant : Bool) (ts : _), s.forest = wordLeaf (if constant then "const" else "let") :: ts) ∨
      ∃ x ts, s.forest = nameLeaf x :: ts := by
  cases s with
  | declare constant type x value _ => exact .inl ⟨constant, _, rfl⟩
  | typed type x value => exact .inr ⟨type, _, rfl⟩
  | change target _ value =>
    obtain ⟨x, ts, hts⟩ := target.head_forest
    exact .inr ⟨x, ts ++ equalsLeaf :: value.forest, by rw [Simple.forest, hts, List.cons_append]⟩
  | run e => exact .inr e.head_forest
  | step e symbol _ =>
    obtain ⟨x, ts, hts⟩ := e.head_forest
    exact .inr ⟨x, ts ++ [symbolLeaf symbol], by rw [Simple.forest, hts, List.cons_append]⟩

theorem Sentence.forest_ne_nil (s : Sentence) : s.forest ≠ [] := by
  cases s with
  | simple s =>
    rw [Sentence.forest]
    obtain ⟨_, _, h⟩ | ⟨_, _, h⟩ := s.head_forest <;> simp [h]
  | _ => simp [Sentence.forest]

theorem Sentence.startsElse_forest (s : Sentence) (vs : List TokenTree) : startsElse (s.forest ++ vs) = false := by
  cases s with
  | simple s =>
    rw [Sentence.forest]
    obtain ⟨constant, ts, h⟩ | ⟨x, ts, h⟩ := s.head_forest
    · rw [h]
      cases constant <;> rfl
    · rw [h]
      rfl
  | _ => rfl

theorem Sentence.startsElse_forestAll (ss : List Sentence) : startsElse (Sentence.forestAll ss) = false := by
  cases ss with
  | nil => rfl
  | cons s ss =>
    rw [Sentence.forestAll, List.append_assoc]
    exact s.startsElse_forest _

/-! ### One after the other -/

theorem statementTrees_ended {us vs : List TokenTree} (hne : us ≠ []) (h : ∀ t ∈ us, t.goesOn = true) :
    statementTrees [] (us ++ [semicolonLeaf] ++ vs) = us :: statementTrees [] vs := by
  have hsemicolon : semicolonLeaf.isLeaf .semicolon = true := rfl
  rw [List.append_assoc, statementTrees_goesOn h, List.append_nil, List.singleton_append, statementTrees, if_pos hsemicolon,
    List.reverse_reverse, unlessEmpty, if_neg (by simpa using hne), List.singleton_append]

section

variable {vs : List TokenTree} (hvs : startsElse vs = false)
include hvs

theorem statementTrees_block {us : List TokenTree} (h : ∀ t ∈ us, t.goesOn = true) (inside : List TokenTree) :
    statementTrees [] (us ++ [braces inside] ++ vs) = (us ++ [braces inside]) :: statementTrees [] vs := by
  rw [List.append_assoc, statementTrees_goesOn h, List.append_nil, List.singleton_append, statementTrees_braces inside hvs,
    List.reverse_reverse]

/-- A block goes on with what follows it up to the last block. -/
theorem statementTrees_otherwise (no : Otherwise) (done inside : List TokenTree) :
    statementTrees done (braces inside :: (no.forest ++ vs)) =
      (done.reverse ++ braces inside :: no.forest) :: statementTrees [] vs := by
  match no with
  | .nothing => exact statementTrees_braces inside hvs
  | .block no =>
    rw [Otherwise.forest, List.cons_append, statementTrees_braces_else, List.singleton_append, statementTrees_braces _ hvs]
    simp
  | .elseIf test yes no =>
    -- The block before `else` is not the last one, and the block of this `if` is the next to look at.
    have hhead : ∀ t ∈ [wordLeaf "if", parens test.forest], t.goesOn = true := by simp
    rw [Otherwise.forest, List.cons_append, statementTrees_braces_else]
    refine (statementTrees_goesOn hhead).trans ((statementTrees_otherwise no _ _).trans ?_)
    simp

theorem statementTrees_sentence (s : Sentence) :
    statementTrees [] (s.forest ++ s.ending ++ vs) = s.forest :: statementTrees [] vs := by
  have hne := s.forest_ne_nil
  cases s with
  | simple s => exact statementTrees_ended hne s.forest_goesOn
  | ret value =>
    exact statementTrees_ended hne (List.forall_mem_cons.mpr ⟨goesOn_wordLeaf _, Phrase.forestOption_goesOn value⟩)
  | brk | cont => exact statementTrees_ended hne (by simp [Sentence.forest])
  | conditional test yes no =>
    have hhead : ∀ t ∈ [wordLeaf "if", parens test.forest], t.goesOn = true := by simp
    have h := statementTrees_otherwise hvs no [parens test.forest, wordLeaf "if"] (Sentence.forestAll yes)
    simpa [Sentence.forest, Sentence.ending] using (statementTrees_goesOn hhead).trans h
  | forLoop init test step body =>
    have hhead : ∀ ts, ∀ t ∈ [wordLeaf "for", parens ts], t.goesOn = true := by simp
    simpa [Sentence.forest, Sentence.ending] using statementTrees_block hvs (hhead _) (Sentence.forestAll body)
  | whileLoop test body =>
    have hhead : ∀ t ∈ [wordLeaf "while", parens test.forest], t.goesOn = true := by simp
    simpa [Sentence.forest, Sentence.ending] using statementTrees_block hvs hhead (Sentence.forestAll body)
  | define name params distinct body =>
    have hhead : ∀ ts, ∀ t ∈ [wordLeaf "def", nameLeaf name, parens ts], t.goesOn = true := by simp
    simpa [Sentence.forest, Sentence.ending] using statementTrees_block hvs (hhead _) (Sentence.forestAll body)
  | defineClass name bases members =>
    have hhead : ∀ t ∈ wordLeaf "class" :: nameLeaf name :: basesForest bases, t.goesOn = true := by
      cases bases <;> simp [basesForest]
    simpa [Sentence.forest, Sentence.ending] using statementTrees_block hvs hhead (Sentence.forestAll members)

end

/-- The trees of sentences in a row are those of each of them. -/
theorem statementTrees_forestAll (ss : List Sentence) :
    statementTrees [] (Sentence.forestAll ss) = ss.map Sentence.forest := by
  induction ss with
  | nil => rfl
  | cons s ss ih =>
    rw [Sentence.forestAll, statementTrees_sentence (Sentence.startsElse_forestAll ss), ih, List.map_cons]

/-- Wherever sentences are placed, each of them is a statement to the parser. -/
theorem statements_forestAll {ss : List Sentence} {us : List TokenTree} (h : unplacedAll us = Sentence.forestAll ss)
    (stop : Token) : (statements stop us).map (fun c => unplacedAll c.stretch.trees) = ss.map Sentence.forest := by
  have hmap := congrArg (List.map unplacedAll) (trees_statements stop us)
  rw [List.map_map] at hmap
  refine hmap.trans ?_
  rw [← statementTrees_unplaced, h]
  exact statementTrees_forestAll ss

end Bracescript
