import Mathlib.Algebra.Group.Nat.Defs
import Bracescript.Proofs.Scanning
import Bracescript.Proofs.StatementReads

/-!
# Conservation of tokens

A program reads, from left to right, as the names, literals and operators of its text: the parser drops none of them,
repeats none and moves none. Between statements there is nothing but white space and semicolons.
-/

namespace Bracescript

open TokenTree

/-! ## Yields -/

/-- What a token adds to the program: a name, a literal or an operator. -/
def Token.yield (t : Token) : List Bytes :=
  match t.kind with
  | .identifier | .stringLiteral | .numberLiteral | .operator => [t.value]
  | .keyword => if isWordOperator t.value then [t.value] else []
  | _ => []

mutual

/-- The names, literals and operators of an expression in the order of the text. -/
@[simp]
def Expr.yield : Expr → List Bytes
  | .hole _ | .bare .. => []
  | .ident _ name => [name]
  | .literal _ _ value => [value]
  | .unary _ symbol operand false => symbol :: operand.yield
  | .unary _ symbol operand true => operand.yield ++ [symbol]
  | .binary _ symbol left right => left.yield ++ symbol :: right.yield
  | .ternary _ test yes no => test.yield ++ ("?" : Bytes) :: (yes.yield ++ (":" : Bytes) :: no.yield)
  | .member _ target field => target.yield ++ [field]
  | .call _ target args => target.yield ++ Expr.yieldArgs args
  | .index _ target key => target.yield ++ key.yield
  | .slice _ target start stop => target.yield ++ (Expr.yieldOption start ++ (":" : Bytes) :: Expr.yieldOption stop)
  | .generic _ target args => target.yield ++ Expr.yieldAll args

@[simp]
def Expr.yieldOption : Option Expr → List Bytes
  | none => []
  | some e => e.yield

@[simp]
def Expr.yieldAll : List Expr → List Bytes
  | [] => []
  | e :: es => e.yield ++ Expr.yieldAll es

/-- The yield of an argument, which is that of its value. -/
@[simp]
def Expr.yieldArg : Argument Expr → List Bytes
  | ⟨_, _, _, _, value⟩ => Expr.yieldOption value

@[simp]
def Expr.yieldArgs : List (Argument Expr) → List Bytes
  | [] => []
  | a :: as => Expr.yieldArg a ++ Expr.yieldArgs as

end

/-- The yield of a parameter: its type, its name and its default. -/
def Expr.yieldParam (p : Argument Expr) : List Bytes :=
  Expr.yieldOption p.type ++ p.name :: Expr.yieldOption p.value

mutual

/-- The names, literals and operators of a statement in the order of the text. -/
@[simp]
def Stmt.yield : Stmt → List Bytes
  | .hole _ | .bare .. | .brk _ | .cont _ => []
  | .expr _ e => e.yield
  | .assign _ _ _ target value => target.yield ++ Expr.yieldOption value
  | .typed _ type _ target value => type.yield ++ (target.yield ++ Expr.yieldOption value)
  | .conditional _ test yes no => test.yield ++ (Stmt.yieldAll yes ++ Stmt.yieldAll no)
  | .forLoop _ init test step body =>
    Stmt.yieldOption init ++ (Expr.yieldOption test ++ (Stmt.yieldOption step ++ Stmt.yieldAll body))
  | .whileLoop _ test body => test.yield ++ Stmt.yieldAll body
  | .define _ name params body => name :: (params.flatMap Expr.yieldParam ++ Stmt.yieldAll body)
  | .defineClass _ name bases body => name :: (Expr.yieldAll bases ++ Stmt.yieldAll body)
  | .ret _ value => Expr.yieldOption value

@[simp]
def Stmt.yieldOption : Option Stmt → List Bytes
  | none => []
  | some s => s.yield

@[simp]
def Stmt.yieldAll : List Stmt → List Bytes
  | [] => []
  | s :: ss => s.yield ++ Stmt.yieldAll ss

end

mutual

/-- The yield of a tree, to which delimiters add nothing. -/
@[simp]
def TokenTree.yield : TokenTree → List Bytes
  | leaf t => t.yield
  | group _ inside _ => yieldAll inside

@[simp]
def TokenTree.yieldAll : List TokenTree → List Bytes
  | [] => []
  | t :: ts => t.yield ++ yieldAll ts

end

mutual

@[simp]
def Part.yield : Part → List Bytes
  | .expr e => e.yield
  | .bound e | .value e => Expr.yieldOption e
  | .arg a => Expr.yieldArg a
  | .param p => Expr.yieldParam p
  | .list ps => Part.yieldAll ps
  | .shape build => (build default).yield
  | .stmt s => s.yield
  | .clause s => Stmt.yieldOption s
  | .header init test step => Stmt.yieldOption init ++ (Expr.yieldOption test ++ Stmt.yieldOption step)
  | .otherwise ss | .stmts ss => Stmt.yieldAll ss

@[simp]
def Part.yieldAll : List Part → List Bytes
  | [] => []
  | p :: ps => p.yield ++ Part.yieldAll ps

end

/-! ## Small lemmas -/

@[simp]
theorem TokenTree.yieldAll_append (xs ys : List TokenTree) : yieldAll (xs ++ ys) = yieldAll xs ++ yieldAll ys := by
  induction xs with
  | nil => rfl
  | cons x xs ih => simp [yieldAll, ih]

theorem Part.yieldAll_arg (args : List (Argument Expr)) : Part.yieldAll (args.map .arg) = Expr.yieldArgs args := by
  induction args with
  | nil => rfl
  | cons a as ih => simp [Part.yieldAll, Expr.yieldArgs, Part.yield, ih]

theorem Part.yieldAll_param (params : List (Argument Expr)) :
    Part.yieldAll (params.map .param) = params.flatMap Expr.yieldParam := by
  induction params with
  | nil => rfl
  | cons p ps ih => simp [Part.yieldAll, Part.yield, ih]

theorem Part.yieldAll_expr (es : List Expr) : Part.yieldAll (es.map .expr) = Expr.yieldAll es := by
  induction es with
  | nil => rfl
  | cons e es ih => simp [Part.yieldAll, Expr.yieldAll, Part.yield, ih]

theorem Token.yield_of_name {t : Token} (h : t.kind = .identifier) : t.yield = [t.value] := by simp [Token.yield, h]

theorem Token.yield_of_symbol {t : Token} {symbol : Bytes} (h : t.operatorSymbol? = some symbol) :
    t.yield = [symbol] := by
  unfold operatorSymbol? at h
  split at h
  · rename_i kind
    cases h
    simp [Token.yield, kind]
  · rename_i kind
    split at h
    · rename_i hword
      cases h
      simp [Token.yield, kind, hword]
    · cases h
  · cases h

theorem Token.yield_of_keyword {t : Token} {word : Bytes} (h : t.isKeyword word = true)
    (hword : isWordOperator word = false) : t.yield = [] := by
  rw [isKeyword, Bool.and_eq_true, beq_iff_eq, beq_iff_eq] at h
  simp [Token.yield, h.1, h.2, hword]

theorem Token.yield_of_declaration {t : Token} (h : t.isKeyword "let" = true ∨ t.isKeyword "const" = true) :
    t.yield = [] := by
  obtain h | h := h
  · exact yield_of_keyword h (by decide)
  · exact yield_of_keyword h (by decide)

theorem Derives.shape_yield {ts : List TokenTree} {build : Node → Stmt} (h : Derives ts (.shape build)) (n m : Node) :
    (build n).yield = (build m).yield := by
  cases h <;> rfl

/-- What is derived from trees yields what they yield. -/
theorem Derives.yield_eq {ts : List TokenTree} {p : Part} (h : Derives ts p) : p.yield = yieldAll ts := by
  induction h with
  -- expressions
  | ident kind => simp [Token.ident, Token.yield_of_name kind]
  | string kind | number kind => simp [Token.yield, kind]
  | parens _ _ ih => simpa using ih
  | front operator _ _ ih =>
    simp only [Part.yield] at ih
    simp [Token.yield_of_symbol operator, ih]
  | behind operator _ _ ih =>
    simp only [Part.yield] at ih
    simp [Token.yield_of_symbol operator, ih]
  | binary operator _ _ _ ihl ihr =>
    simp only [Part.yield] at ihl ihr
    simp [Token.yield_of_symbol operator, ihl, ihr]
  | ternary question colon _ _ _ iha ihb ihc =>
    simp only [Part.yield] at iha ihb ihc
    simp [Token.yield_of_symbol question, Token.yield_of_symbol colon, iha, ihb, ihc]
  | member period name _ ih =>
    simp only [Part.yield] at ih
    simp [Token.yield, period, name, ih]
  | call _ _ _ ih iha =>
    simp only [Part.yield, Part.yieldAll_arg] at ih iha
    simp [ih, iha]
  | index _ _ _ ih ihi =>
    simp only [Part.yield] at ih ihi
    simp [ih, ihi]
  | slice _ colon _ _ _ ih ihs ihe =>
    simp only [Part.yield] at ih ihs ihe
    simp [Token.yield_of_symbol colon, ih, ihs, ihe]
  -- parts of expressions and declarations
  | unbound | unset | empty | noClause | noElse | noStmts => rfl
  | bound _ ih | arg _ ih | expr _ ih | clause _ ih => exact ih
  | set equals _ ih =>
    simp only [Part.yield] at ih
    simp [Token.yield, equals, ih]
  | param name _ ih =>
    simp only [Part.yield] at ih
    simp [Expr.yieldParam, Token.yield_of_name name, ih]
  | typedParam type name _ ih =>
    simp only [Part.yield] at ih
    simp [Expr.yieldParam, Token.ident, Token.yield_of_name type, Token.yield_of_name name, ih]
  | last _ ih => simp [ih]
  | next comma _ _ ih ihr =>
    simp only [Part.yield] at ihr
    simp [Token.yield, comma, ih, ihr]
  -- statements
  | declare word name _ ih =>
    simp only [Part.yield] at ih
    simp [Token.ident, Token.yield_of_declaration word, Token.yield_of_name name, ih]
  | declareTyped word type name _ ih =>
    simp only [Part.yield] at ih
    simp [Token.ident, Token.yield_of_declaration word, Token.yield_of_name type, Token.yield_of_name name, ih]
  | typed type name _ ih =>
    simp only [Part.yield] at ih
    simp [Token.ident, Token.yield_of_name type, Token.yield_of_name name, ih]
  | change equals _ _ iht ihe =>
    simp only [Part.yield] at iht ihe
    simp [Token.yield, equals, iht, ihe]
  | conditional word _ _ _ _ _ iht ihy ihn =>
    simp only [Part.yield] at iht ihy ihn
    simp [Token.yield_of_keyword word (by decide), iht, ihy, ihn]
  | forLoop word _ _ _ _ ihh ihb =>
    simp only [Part.yield] at ihh ihb
    simp [Token.yield_of_keyword word (by decide), ← ihh, ihb]
  | whileLoop word _ _ _ _ iht ihb =>
    simp only [Part.yield] at iht ihb
    simp [Token.yield_of_keyword word (by decide), iht, ihb]
  | define word name _ _ _ _ ihp ihb =>
    simp only [Part.yield, Part.yieldAll_param] at ihp ihb
    simp [Token.yield_of_keyword word (by decide), Token.yield_of_name name, ihp, ihb]
  | defineClass word name _ _ ihb =>
    simp only [Part.yield] at ihb
    simp [Token.yield_of_keyword word (by decide), Token.yield_of_name name, ihb]
  | defineSubclass word name _ _ _ _ ihp ihb =>
    simp only [Part.yield, Part.yieldAll_expr] at ihp ihb
    simp [Token.yield_of_keyword word (by decide), Token.yield_of_name name, ihp, ihb]
  | ret word _ ih =>
    simp only [Part.yield] at ih
    simp [Token.yield_of_keyword word (by decide), ih]
  | brk word | cont word => simp [Token.yield_of_keyword word (by decide)]
  | stmt ok ih => exact (ok.shape_yield _ _).trans ih
  -- parts of statements
  | header a b _ _ _ ihi iht ihs =>
    simp only [Part.yield] at ihi iht ihs
    simp [Token.yield, a, b, ihi, iht, ihs]
  | elseBlock word _ _ ih =>
    simp only [Part.yield] at ih
    simp [Token.yield_of_keyword word (by decide), ih]
  | elseIf word _ ih =>
    simp only [Part.yield] at ih
    simp [Token.yield_of_keyword word (by decide), ih]
  | separator kind _ ih =>
    simp only [Part.yield] at ih
    simp [Token.yield, kind, ih]
  | stmts _ _ ih ihr =>
    simp only [Part.yield] at ih ihr
    simp [ih, ihr]

/-! ## Yields of tokens -/

theorem Token.yield_of_closer {k : TokenKind} {t : Token} (h : k.closer? = some t.kind) : t.yield = [] := by
  have hcloser := isCloser_of_closer h
  unfold Token.yield
  split <;> simp_all [TokenKind.isCloser]

theorem Token.yield_of_opener {t : Token} {k : TokenKind} (h : t.kind.closer? = some k) : t.yield = [] := by
  unfold Token.yield
  split <;> simp_all [TokenKind.closer?]

mutual

theorem TokenTree.yield_eq (t : TokenTree) (h : t.Matched) : t.yield = t.flatten.flatMap Token.yield := by
  match t with
  | leaf t => simp [flatten]
  | group opener inside closer =>
    simp [flatten, Token.yield_of_opener h.1, Token.yield_of_closer h.1, TokenTree.yieldAll_eq inside h.2]

theorem TokenTree.yieldAll_eq (ts : List TokenTree) (h : MatchedAll ts) :
    yieldAll ts = (flattenAll ts).flatMap Token.yield := by
  match ts with
  | [] => rfl
  | t :: ts => simp [flattenAll, TokenTree.yield_eq t h.1, TokenTree.yieldAll_eq ts h.2]

end

/-- White space and the end of a file yield nothing. -/
theorem yield_significant (tokens : List Token) :
    (significant tokens).flatMap Token.yield = tokens.flatMap Token.yield := by
  induction tokens with
  | nil => rfl
  | cons t ts ih =>
    rw [significant, List.filter_cons]
    split
    · rw [List.flatMap_cons, List.flatMap_cons, ← ih, significant]
    · rename_i hskip
      have hnone : t.yield = [] := by
        unfold Token.yield
        split <;> simp_all [Token.isWhitespace, TokenKind.isWhitespace]
      rw [List.flatMap_cons, hnone, List.nil_append, ← ih, significant]

/-! ## Gaps -/

/-- The statements stand between two offsets one behind the other, and each of the tokens is a semicolon or stands in one
of the statements. -/
structure Covers (lo hi : Nat) (tokens : List Token) (ss : List Stmt) : Prop where
  lies : ∀ s ∈ ss, lo ≤ s.span.start.toNat ∧ s.span.stop.toNat ≤ hi
  ordered : ss.Pairwise fun s s' => s.span.stop.toNat ≤ s'.span.start.toNat
  covered : ∀ t ∈ tokens, t.kind = .semicolon ∨
    ∃ s ∈ ss, s.span.start.toNat ≤ t.span.start.toNat ∧ t.span.stop.toNat ≤ s.span.stop.toNat

theorem Derives.covers {f : SourceFile} {ts : List TokenTree} {ss : List Stmt} (h : Derives ts (.stmts ss)) {lo hi : Nat}
    (hlaid : Laid f lo (flattenAll ts) hi) : Covers lo hi (flattenAll ts) ss := by
  generalize hp : Part.stmts ss = p at h
  induction h generalizing ss lo with
  | noStmts =>
    cases hp
    exact ⟨List.forall_mem_nil _, List.Pairwise.nil, List.forall_mem_nil _⟩
  | separator kind _ ih =>
    obtain ⟨hlies, hordered, hcovered⟩ := ih hlaid.tail hp
    exact ⟨hlies, hordered, List.forall_mem_cons.mpr ⟨.inl kind, hcovered⟩⟩
  | stmts hs _ _ ih =>
    cases hp
    obtain ⟨mid, hfirst, hrest⟩ := hlaid.split
    obtain ⟨hspan, hinside⟩ := hs.stmt_lies hfirst
    obtain ⟨hlies, hordered, hcovered⟩ := ih hrest rfl
    refine ⟨?_, ?_, ?_⟩
    · refine List.forall_mem_cons.mpr ⟨⟨hspan.lo_le, Nat.le_trans hspan.le_hi hrest.le⟩, fun s hs => ?_⟩
      exact ⟨Nat.le_trans hfirst.le (hlies s hs).1, (hlies s hs).2⟩
    · exact List.Pairwise.cons (fun s hs => Nat.le_trans hspan.le_hi (hlies s hs).1) hordered
    · rw [flattenAll_append]
      refine List.forall_mem_append.mpr ⟨fun t ht => ?_, fun t ht => ?_⟩
      · exact .inr ⟨_, List.mem_cons_self, hinside t ht⟩
      · obtain hkind | ⟨s, hs, hspan⟩ := hcovered t ht
        · exact .inl hkind
        · exact .inr ⟨s, List.mem_cons_of_mem _ hs, hspan⟩
  | _ => cases hp

/-- Some token stands at every offset that tokens cover. -/
theorem Lexer.Tile.exists_mem {f : SourceFile} {start stop : UInt32} {tokens : List Token} (h : Tile f start tokens stop)
    {off : Nat} (hstart : start.toNat ≤ off) (hstop : off < stop.toNat) :
    ∃ t ∈ tokens, t.Faithful f ∧ t.span.start.toNat ≤ off ∧ off < t.span.stop.toNat := by
  induction tokens generalizing start with
  | nil =>
    obtain rfl : start = stop := h
    omega
  | cons t ts ih =>
    obtain ⟨ht, rfl, hts⟩ := h
    by_cases hoff : off < t.span.stop.toNat
    · exact ⟨t, List.mem_cons_self, ht, hstart, hoff⟩
    · obtain ⟨t', ht', hfaithful⟩ := ih hts (by omega)
      exact ⟨t', List.mem_cons_of_mem _ ht', hfaithful⟩

theorem SourceFile.mem_slice {f : SourceFile} {start stop off : Nat} {b : UInt8} (h : f.content[off]? = some b)
    (hstart : start ≤ off) (hstop : off < stop) : b ∈ f.slice start stop := by
  apply List.mem_of_getElem? (i := off - start)
  rw [slice, List.getElem?_drop, List.getElem?_take, Nat.add_sub_cancel' hstart, if_pos hstop, h]

namespace SourceFile

/-- A byte at which no statement stands is white space or a semicolon. -/
theorem gap_of_uncovered {f : SourceFile} {tokens : List Token} {ss : List Stmt} {lo hi : Nat}
    (hfit : f.content.length < 2 ^ 32) (htokens : f.tokenize = .ok tokens)
    (hcovers : Covers lo hi (significant tokens) ss) {off : Nat} {b : UInt8} (hb : f.content[off]? = some b)
    (houtside : ∀ s ∈ ss, off < s.span.start.toNat ∨ s.span.stop.toNat ≤ off) : Lexeme.isGap b = true := by
  obtain ⟨stop, htile, hstop⟩ := tokenize_tile hfit htokens
  have hoff : off < f.content.length := (List.getElem?_eq_some_iff.mp hb).1
  obtain ⟨t, ht, hfaithful, hle, hlt⟩ := htile.exists_mem (Nat.zero_le off) (by omega)
  have hmem : b ∈ t.text := by
    rw [hfaithful.text_eq]
    exact mem_slice hb hle hlt
  obtain ⟨c, after, first, rest, x, -, hrest, hread, rfl⟩ := tokenize_readings hfit htokens t ht
  have hmem : b ∈ (first :: rest).take x.size := hrest ▸ hmem
  by_cases hwhite : x.kind.isWhitespace = true
  · exact Lexeme.read_gap hread (.inl hwhite) b hmem
  · have hsignificant : Lexer.tokenOf c x ∈ significant tokens := by
      refine List.mem_filter.mpr ⟨ht, ?_⟩
      have hkind := Lexer.kind_read_ne_eof hread
      simpa [Token.isWhitespace, Lexer.tokenOf, hwhite] using hkind
    obtain hkind | ⟨s, hs, hspan⟩ := hcovers.covered _ hsignificant
    · exact Lexeme.read_gap hread (.inr hkind) b hmem
    · have := houtside s hs
      omega

/-- The names, literals and operators of a program are those of the text, in the same order. Its statements stand one
behind the other, and before, between and behind them there are only white space and semicolons. -/
theorem parse_conserves (f : SourceFile) (hfit : f.content.length < 2 ^ 32) (p : Program) (h : f.parse = .ok p) :
    ∃ tokens, f.tokenize = .ok tokens ∧ Stmt.yieldAll p.statements = tokens.flatMap Token.yield ∧
      (p.statements.Pairwise fun s s' => s.span.stop.toNat ≤ s'.span.start.toNat) ∧
      ∀ (off : Nat) (b : UInt8), f.content[off]? = some b →
        (∀ s ∈ p.statements, off < s.span.start.toNat ∨ s.span.stop.toNat ≤ off) → Lexeme.isGap b = true := by
  unfold parse at h
  split at h
  · cases h
  · rename_i tokens htokens
    have hreads := (f.parseStatements_reads tokens {}).1
    unfold parseTokens at h
    split at h
    · cases h
    · rename_i statements s hrun
      cases h
      rw [hrun] at hreads
      obtain ⟨trees, hmatched, hflatten, hderives⟩ := hreads
      have hlaid := (tokenize_laid hfit htokens).sublist (List.sublist_append_left _ _)
      rw [← hflatten] at hlaid
      have hcovers := hderives.covers hlaid
      refine ⟨tokens, htokens, ?_, hcovers.ordered, fun off b hb houtside => ?_⟩
      · calc Stmt.yieldAll statements = yieldAll trees := hderives.yield_eq
          _ = (flattenAll trees).flatMap Token.yield := TokenTree.yieldAll_eq trees hmatched
          _ = tokens.flatMap Token.yield := by rw [hflatten, yield_significant]
      · rw [hflatten] at hcovers
        exact gap_of_uncovered hfit htokens hcovers hb houtside

/-- A declaration and a definition, with semicolons and line feeds around them. -/
def twoStatements : SourceFile :=
  ⟨0, "two.uns", ";let x = a++ ? f(1)[2:] : -b;;\ndef g(t y = 'q') \x7b return typeof y \x7d\n", 0⟩

theorem twoStatements_conserved :
    twoStatements.content.length < 2 ^ 32 ∧ ∃ p tokens, twoStatements.parse = .ok p ∧
      twoStatements.tokenize = .ok tokens ∧ Stmt.yieldAll p.statements = tokens.flatMap Token.yield ∧
      (p.statements.Pairwise fun s s' => s.span.stop.toNat ≤ s'.span.start.toNat) ∧
      ∀ (off : Nat) (b : UInt8), twoStatements.content[off]? = some b →
        (∀ s ∈ p.statements, off < s.span.start.toNat ∨ s.span.stop.toNat ≤ off) → Lexeme.isGap b = true := by
  have hfit : twoStatements.content.length < 2 ^ 32 := by decide
  have hparses : twoStatements.parse.toOption.isSome = true := by decide +kernel
  cases h : twoStatements.parse with
  | error fault =>
    rw [h] at hparses
    cases hparses
  | ok p =>
    obtain ⟨tokens, htokens⟩ := parse_conserves twoStatements hfit p h
    exact ⟨hfit, p, tokens, rfl, htokens⟩

end SourceFile

end Bracescript
