import Bracescript.Proofs.Unplaced

/-!
# Phrases

Expressions as they are written with every part in parentheses: the tree that is meant, and the tokens that are written
for it.
-/

namespace Bracescript

open Item TokenTree

mutual

/-- An expression in writing. -/
inductive Phrase where
  | name (x : Bytes)
  | string (value : Bytes)
  | number (digits suffix : Bytes) (kind : LiteralKind) (known : numberKind digits suffix [] = .ok kind)
  | front (symbol : Bytes) (known : isUnary symbol = true) (inner : Phrase)
  | behind (inner : Phrase) (symbol : Bytes) (known : isBehind symbol = true)
  | binary (left : Phrase) (symbol : Bytes) (known : isBinary symbol = true) (right : Phrase)
  | ternary (test yes no : Phrase)
  | extend (target : Phrase) (link : Link)
  /-- The same in one more pair of parentheses. -/
  | grouped (inner : Phrase)

/-- What can follow an operand. -/
inductive Link where
  | member (field : Bytes)
  | call (args : List Phrase)
  | index (key : Phrase)
  | slice (start stop : Option Phrase)

end

/-! ## Trees -/

mutual

/-- The expression that is meant. -/
def Phrase.tree : Phrase → Expr
  | .name x => .ident .blank x
  | .string value => .literal .blank .string value
  | .number digits _ kind _ => .literal .blank kind digits
  | .front symbol _ inner => .unary .blank symbol inner.tree false
  | .behind inner symbol _ => .unary .blank symbol inner.tree true
  | .binary left symbol _ right => .binary .blank symbol left.tree right.tree
  | .ternary test yes no => .ternary .blank test.tree yes.tree no.tree
  | .extend target link => link.applyTo target.tree
  | .grouped inner => inner.tree

def Link.applyTo (target : Expr) : Link → Expr
  | .member field => .member .blank target field
  | .call args => .call .blank target (Phrase.treeArgs args)
  | .index key => .index .blank target key.tree
  | .slice start stop => .slice .blank target (Phrase.treeOption start) (Phrase.treeOption stop)

def Phrase.treeArgs : List Phrase → List (Argument Expr)
  | [] => []
  | p :: ps => { value := some p.tree } :: Phrase.treeArgs ps

def Phrase.treeOption : Option Phrase → Option Expr
  | none => none
  | some p => some p.tree

end

/-! ## Tokens -/

/-- The token of an operator, which is a keyword when it is spelled as a word. -/
def symbolToken (symbol : Bytes) : Token := .mark (if isWordOperator symbol then .keyword else .operator) symbol

def nameLeaf (x : Bytes) : TokenTree := .leaf (.mark .identifier x)

def symbolLeaf (symbol : Bytes) : TokenTree := .leaf (symbolToken symbol)

def commaLeaf : TokenTree := .leaf (.mark .comma ",")

def parens (inside : List TokenTree) : TokenTree := .group (.mark .leftParen "(") inside (.mark .rightParen ")")

def brackets (inside : List TokenTree) : TokenTree := .group (.mark .leftBracket "[") inside (.mark .rightBracket "]")

/-- Lists of trees with commas between them. -/
def commaSeparated : List (List TokenTree) → List TokenTree
  | [] => []
  | [ts] => ts
  | ts :: more => ts ++ commaLeaf :: commaSeparated more

mutual

/-- What is written for an expression: all its parts are in parentheses. -/
def Phrase.forest : Phrase → List TokenTree
  | .name x => [nameLeaf x]
  | .string value => [.leaf (.mark .stringLiteral value)]
  | .number digits suffix _ _ => [.leaf { Token.mark .numberLiteral digits with flag := suffix }]
  | .front symbol _ inner => [symbolLeaf symbol, parens inner.forest]
  | .behind inner symbol _ => [parens inner.forest, symbolLeaf symbol]
  | .binary left symbol _ right => [parens left.forest, symbolLeaf symbol, parens right.forest]
  | .ternary test yes no =>
    [parens test.forest, symbolLeaf "?", parens yes.forest, symbolLeaf ":", parens no.forest]
  | .extend target link => parens target.forest :: link.forest
  | .grouped inner => [parens inner.forest]

def Link.forest : Link → List TokenTree
  | .member field => [.leaf (.mark .period "."), nameLeaf field]
  | .call args => [parens (commaSeparated (Phrase.wrapAll args))]
  | .index key => [brackets [parens key.forest]]
  | .slice start stop => [brackets (Phrase.wrapOption start ++ symbolLeaf ":" :: Phrase.wrapOption stop)]

def Phrase.wrapAll : List Phrase → List (List TokenTree)
  | [] => []
  | p :: ps => [parens p.forest] :: Phrase.wrapAll ps

def Phrase.wrapOption : Option Phrase → List TokenTree
  | none => []
  | some p => [parens p.forest]

end

/-! ## Trees within a statement -/

/-- Whether the tree ends nothing around it: it is no comma, semicolon or equals sign, and no block. -/
def TokenTree.isInline : TokenTree → Bool
  | leaf t => t.kind != .comma && t.kind != .semicolon && t.kind != .equals
  | group opener _ _ => opener.kind != .leftBrace

theorem isLeaf_of_inline {t : TokenTree} (h : t.isInline = true) :
    t.isLeaf .comma = false ∧ t.isLeaf .semicolon = false ∧ t.isLeaf .equals = false ∧ t.isBlock = false := by
  cases t with
  | leaf t => simp_all [isInline, isLeaf, isBlock]
  | group => simp_all [isInline, isLeaf, isBlock]

@[simp]
theorem isInline_nameLeaf (x : Bytes) : (nameLeaf x).isInline = true := rfl

@[simp]
theorem isInline_symbolLeaf (symbol : Bytes) : (symbolLeaf symbol).isInline = true := by
  simp only [symbolLeaf, symbolToken, isInline, Token.mark]
  split <;> rfl

@[simp]
theorem isInline_parens (inside : List TokenTree) : (parens inside).isInline = true := rfl

@[simp]
theorem isInline_brackets (inside : List TokenTree) : (brackets inside).isInline = true := rfl

theorem Link.forest_inline (l : Link) : ∀ t ∈ l.forest, t.isInline = true := by
  cases l with
  | member field =>
    rw [Link.forest]
    simp only [List.forall_mem_cons, isInline_nameLeaf, true_and]
    exact ⟨rfl, List.forall_mem_nil _⟩
  | _ => simp [Link.forest]

theorem Phrase.forest_inline (p : Phrase) : ∀ t ∈ p.forest, t.isInline = true := by
  cases p with
  | string | number => simp [Phrase.forest, isInline, Token.mark]
  | extend target link =>
    rw [Phrase.forest]
    exact List.forall_mem_cons.mpr ⟨isInline_parens _, link.forest_inline⟩
  | _ => simp [Phrase.forest]

theorem Phrase.forest_comma (p : Phrase) : ∀ t ∈ p.forest, t.isLeaf .comma = false :=
  fun t ht => (isLeaf_of_inline (p.forest_inline t ht)).1

theorem Phrase.forest_ne_nil (p : Phrase) : p.forest ≠ [] := by
  cases p <;> simp [Phrase.forest]

/-- What is lacking among trees is lacking wherever they are placed. -/
theorem isLeaf_of_unplacedAll {kind : TokenKind} {ts us : List TokenTree} (h : unplacedAll ts = us)
    (hlacks : ∀ u ∈ us, u.isLeaf kind = false) : ∀ t ∈ ts, t.isLeaf kind = false := by
  intro t ht
  rw [← isLeaf_unplaced]
  exact hlacks _ (h ▸ mem_unplacedAll ht)

theorem inline_of_unplacedAll {ts us : List TokenTree} (h : unplacedAll ts = us) (hinline : ∀ u ∈ us, u.isInline = true) :
    ∀ t ∈ ts, t.isInline = true := by
  intro t ht
  have hinline := hinline _ (h ▸ mem_unplacedAll ht)
  cases t <;> exact hinline

/-! ## Matched delimiters -/

@[simp]
theorem matched_nameLeaf (x : Bytes) : (nameLeaf x).Matched := ⟨rfl, rfl⟩

@[simp]
theorem matched_symbolLeaf (symbol : Bytes) : (symbolLeaf symbol).Matched := by
  simp only [symbolLeaf, symbolToken, Matched, Token.mark]
  split <;> exact ⟨rfl, rfl⟩

@[simp]
theorem matched_commaLeaf : commaLeaf.Matched := ⟨rfl, rfl⟩

theorem matched_parens {inside : List TokenTree} (h : MatchedAll inside) : (parens inside).Matched := ⟨rfl, h⟩

theorem matched_brackets {inside : List TokenTree} (h : MatchedAll inside) : (brackets inside).Matched := ⟨rfl, h⟩

theorem commaSeparated_matched {tss : List (List TokenTree)} (h : ∀ ts ∈ tss, MatchedAll ts) :
    MatchedAll (commaSeparated tss) := by
  induction tss using commaSeparated.induct with
  | case1 => trivial
  | case2 ts => exact h ts List.mem_cons_self
  | case3 ts more hmore ih =>
    rw [List.forall_mem_cons] at h
    rw [commaSeparated]
    · exact matchedAll_append.mpr ⟨h.1, matched_commaLeaf, ih h.2⟩
    · exact hmore

mutual

theorem Phrase.matched (p : Phrase) : MatchedAll p.forest := by
  match p with
  | .name x => exact ⟨matched_nameLeaf x, trivial⟩
  | .string _ | .number _ _ _ _ => exact ⟨⟨rfl, rfl⟩, trivial⟩
  | .front symbol _ inner => exact ⟨matched_symbolLeaf symbol, matched_parens inner.matched, trivial⟩
  | .behind inner symbol _ => exact ⟨matched_parens inner.matched, matched_symbolLeaf symbol, trivial⟩
  | .binary left symbol _ right =>
    exact ⟨matched_parens left.matched, matched_symbolLeaf symbol, matched_parens right.matched, trivial⟩
  | .ternary test yes no =>
    exact ⟨matched_parens test.matched, matched_symbolLeaf _, matched_parens yes.matched, matched_symbolLeaf _,
      matched_parens no.matched, trivial⟩
  | .extend target link => exact ⟨matched_parens target.matched, link.matched⟩
  | .grouped inner => exact ⟨matched_parens inner.matched, trivial⟩

theorem Link.matched (l : Link) : MatchedAll l.forest := by
  match l with
  | .member field => exact ⟨⟨rfl, rfl⟩, matched_nameLeaf field, trivial⟩
  | .call args => exact ⟨matched_parens (commaSeparated_matched (Phrase.wrapAll_matched args)), trivial⟩
  | .index key => exact ⟨matched_brackets ⟨matched_parens key.matched, trivial⟩, trivial⟩
  | .slice start stop =>
    refine ⟨matched_brackets (matchedAll_append.mpr ⟨?_, matched_symbolLeaf _, ?_⟩), trivial⟩
    · exact Phrase.wrapOption_matched start
    · exact Phrase.wrapOption_matched stop

theorem Phrase.wrapAll_matched (ps : List Phrase) : ∀ ts ∈ Phrase.wrapAll ps, MatchedAll ts := by
  match ps with
  | [] => exact List.forall_mem_nil _
  | p :: ps => exact List.forall_mem_cons.mpr ⟨⟨matched_parens p.matched, trivial⟩, Phrase.wrapAll_matched ps⟩

theorem Phrase.wrapOption_matched (p : Option Phrase) : MatchedAll (Phrase.wrapOption p) := by
  match p with
  | none => trivial
  | some p => exact ⟨matched_parens p.matched, trivial⟩

end

end Bracescript
