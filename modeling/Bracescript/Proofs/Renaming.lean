import Bracescript.Parse
import Mathlib.Logic.Equiv.Basic

/-!
# Renaming files

The number of a file stands in every span, but nothing is decided by it. Here all numbers are exchanged by a permutation:
splitting, nesting and reading tokens commute with it.
-/

namespace Bracescript

open TokenTree

variable (ρ : Equiv.Perm UInt32)

/-! ## Places -/

def Span.renamed (s : Span) : Span := { s with file := ρ s.file }

def Token.renamed (t : Token) : Token := { t with span := t.span.renamed ρ }

def SyntaxError.renamed (e : SyntaxError) : SyntaxError := { e with span := e.span.renamed ρ }

section Tokens

variable (t : Token)

@[simp] theorem Token.kind_renamed : (t.renamed ρ).kind = t.kind := rfl

@[simp] theorem Token.value_renamed : (t.renamed ρ).value = t.value := rfl

@[simp] theorem Token.text_renamed : (t.renamed ρ).text = t.text := rfl

@[simp] theorem Token.flag_renamed : (t.renamed ρ).flag = t.flag := rfl

@[simp] theorem Token.pos_renamed : (t.renamed ρ).pos = t.pos := rfl

@[simp] theorem Token.isKeyword_renamed (word : Bytes) : (t.renamed ρ).isKeyword word = t.isKeyword word := rfl

end Tokens

/-- Only an error of the text has a place. -/
def Fault.renamed : Fault → Fault
  | .malformed e => .malformed (e.renamed ρ)
  | fault => fault

theorem Span.renamed_cover (s t : Span) : (s.cover t).renamed ρ = (s.renamed ρ).cover (t.renamed ρ) := by
  simp only [Span.cover, Span.renamed, ρ.injective.eq_iff]
  split <;> rfl

/-! ## Trees -/

namespace TokenTree

mutual

def renamed : TokenTree → TokenTree
  | leaf t => leaf (t.renamed ρ)
  | group opener inside closer => group (opener.renamed ρ) (renamedAll inside) (closer.renamed ρ)

def renamedAll : List TokenTree → List TokenTree
  | [] => []
  | t :: ts => t.renamed :: renamedAll ts

end

theorem renamedAll_eq_map (ts : List TokenTree) : renamedAll ρ ts = ts.map (renamed ρ) := by
  induction ts with
  | nil => rfl
  | cons t ts ih => rw [renamedAll, ih, List.map_cons]

@[simp] theorem renamed_leaf (t : Token) : (leaf t).renamed ρ = leaf (t.renamed ρ) := rfl

@[simp] theorem renamed_group (opener closer : Token) (inside : List TokenTree) :
    (group opener inside closer).renamed ρ = group (opener.renamed ρ) (inside.map (renamed ρ)) (closer.renamed ρ) := by
  rw [renamed, renamedAll_eq_map]

variable (t : TokenTree)

@[simp] theorem first_renamed : (t.renamed ρ).first = t.first.renamed ρ := by
  cases t <;> rfl

@[simp] theorem last_renamed : (t.renamed ρ).last = t.last.renamed ρ := by
  cases t <;> rfl

@[simp] theorem isLeaf_renamed (kind : TokenKind) : (t.renamed ρ).isLeaf kind = t.isLeaf kind := by
  cases t <;> rfl

@[simp] theorem isBlock_renamed : (t.renamed ρ).isBlock = t.isBlock := by
  cases t <;> rfl

@[simp] theorem isKeyword_renamed (word : Bytes) : (t.renamed ρ).isKeyword word = t.isKeyword word := by
  cases t <;> rfl

@[simp] theorem isSymbol_renamed (symbol : Bytes) : isSymbol symbol (t.renamed ρ) = isSymbol symbol t := by
  cases t <;> rfl

@[simp] theorem endsCondition_renamed : endsCondition (t.renamed ρ) = endsCondition t := by
  simp only [endsCondition, isLeaf_renamed, isBlock_renamed]

theorem head_first_renamed (ts : List TokenTree) (stop : Token) :
    (((ts.map (renamed ρ)).head?).map TokenTree.first).getD (stop.renamed ρ) =
      ((ts.head?.map TokenTree.first).getD stop).renamed ρ := by
  cases ts with
  | nil => rfl
  | cons t ts => exact t.first_renamed ρ

theorem head_isKeyword_renamed (ts : List TokenTree) (word : Bytes) :
    (((ts.map (renamed ρ)).head?).map (TokenTree.isKeyword word)).getD false =
      ((ts.head?).map (TokenTree.isKeyword word)).getD false := by
  cases ts with
  | nil => rfl
  | cons t ts => exact t.isKeyword_renamed ρ word

end TokenTree

/-! ## Splitting -/

def Stretch.renamed (r : Stretch) : Stretch := ⟨r.trees.map (TokenTree.renamed ρ), r.stop.renamed ρ⟩

def Clause.renamed (c : Clause) : Clause := ⟨c.head.renamed ρ, c.tail.map (TokenTree.renamed ρ), c.stop.renamed ρ⟩

/-- What a list is cut into, with the token it is cut at. -/
abbrev Cut := List TokenTree × Token × List TokenTree

def Cut.renamed (c : Cut) : Cut := (c.1.map (TokenTree.renamed ρ), c.2.1.renamed ρ, c.2.2.map (TokenTree.renamed ρ))

variable (r : Stretch) (ts : List TokenTree) (stop : Token)

@[simp] theorem Stretch.isEmpty_renamed : (r.renamed ρ).isEmpty = r.isEmpty := List.isEmpty_map

@[simp] theorem Stretch.tail_renamed : (r.renamed ρ).tail = r.tail.renamed ρ := by
  simp only [Stretch.tail, Stretch.renamed, List.map_tail]

@[simp] theorem Stretch.first_renamed : (r.renamed ρ).first = r.first.renamed ρ := head_first_renamed ρ r.trees r.stop

@[simp] theorem Stretch.span_renamed : (r.renamed ρ).span = r.span.renamed ρ := by
  obtain ⟨trees, stop⟩ := r
  cases trees with
  | nil => rfl
  | cons t ts =>
    have hlast : (List.map (TokenTree.renamed ρ) (t :: ts)).getLast (by simp) =
        ((t :: ts).getLast (by simp)).renamed ρ := List.getLast_map _
    simp only [Stretch.span, Stretch.renamed, List.map_cons] at hlast ⊢
    rw [hlast, last_renamed, TokenTree.first_renamed, Span.renamed_cover]
    rfl

theorem consTree_renamed (t : TokenTree) (rs : List Stretch) :
    consTree (t.renamed ρ) (stop.renamed ρ) (rs.map (Stretch.renamed ρ)) = (consTree t stop rs).map (Stretch.renamed ρ) := by
  cases rs <;> rfl

theorem splitAt_renamed (separator : TokenKind) :
    splitAt separator (stop.renamed ρ) (ts.map (TokenTree.renamed ρ)) =
      (splitAt separator stop ts).map (Stretch.renamed ρ) := by
  induction ts with
  | nil => rfl
  | cons t ts ih =>
    rw [List.map_cons, splitAt, splitAt, isLeaf_renamed, ih]
    split
    · simp [Stretch.renamed]
    · exact consTree_renamed ρ stop t _

theorem cutAt_renamed (kind : TokenKind) :
    cutAt kind (ts.map (TokenTree.renamed ρ)) = (cutAt kind ts).map (Cut.renamed ρ) := by
  induction ts with
  | nil => rfl
  | cons t ts ih =>
    rw [List.map_cons, cutAt, cutAt, isLeaf_renamed, ih]
    split
    · simp [Cut.renamed]
    · cases cutAt kind ts <;> rfl

theorem cutAtColon_renamed (pending : Nat) :
    cutAtColon pending (ts.map (TokenTree.renamed ρ)) = (cutAtColon pending ts).map (Cut.renamed ρ) := by
  induction ts generalizing pending with
  | nil => rfl
  | cons t ts ih =>
    rw [List.map_cons, cutAtColon, cutAtColon, isSymbol_renamed, isSymbol_renamed]
    split
    · simp [Cut.renamed]
    · dsimp only
      rw [ih]
      cases cutAtColon _ ts <;> rfl

theorem ofTrees_renamed :
    Clause.ofTrees (stop.renamed ρ) (ts.map (TokenTree.renamed ρ)) = (Clause.ofTrees stop ts).map (Clause.renamed ρ) := by
  cases ts <;> rfl

theorem splitStatements_renamed (done : List TokenTree) :
    splitStatements (stop.renamed ρ) (done.map (TokenTree.renamed ρ)) (ts.map (TokenTree.renamed ρ)) =
      ((splitStatements stop done ts).1.map (Clause.renamed ρ),
        (splitStatements stop done ts).2.map (TokenTree.renamed ρ)) := by
  induction ts generalizing done with
  | nil => simp [splitStatements]
  | cons t ts ih =>
    have hends : endsStatement (t.renamed ρ) (ts.map (TokenTree.renamed ρ)) = endsStatement t ts := by
      rw [endsStatement, endsStatement, isBlock_renamed, head_isKeyword_renamed]
    have hempty := ih []
    rw [List.map_nil] at hempty
    rw [List.map_cons, splitStatements, splitStatements, isLeaf_renamed, hends, hempty]
    split
    · rw [← List.map_reverse, TokenTree.first_renamed, ofTrees_renamed, List.map_append]
    split
    · rw [head_first_renamed, ← List.map_cons, ← List.map_reverse, ofTrees_renamed, List.map_append]
    · exact ih (t :: done)

theorem statements_renamed :
    statements (stop.renamed ρ) (ts.map (TokenTree.renamed ρ)) = (statements stop ts).map (Clause.renamed ρ) := by
  have hsplit := splitStatements_renamed ρ ts stop []
  rw [List.map_nil] at hsplit
  rw [statements, statements, hsplit]
  dsimp only
  rw [ofTrees_renamed, List.map_append]

/-! ## Nesting -/

namespace TokenTree

def Level.renamed (level : Level) : Level := ⟨level.opener.renamed ρ, level.before.map (TokenTree.renamed ρ)⟩

theorem outermost_renamed (waiting : List Level) (done : List TokenTree) :
    outermost (waiting.map (Level.renamed ρ)) (done.map (renamed ρ)) = (outermost waiting done).map (renamed ρ) := by
  induction waiting generalizing done with
  | nil => rw [List.map_nil, outermost, outermost, List.map_reverse]
  | cons level levels ih => exact ih level.before

theorem nestFrom_renamed (waiting : List Level) (done : List TokenTree) (tokens : List Token) :
    nestFrom (waiting.map (Level.renamed ρ)) (done.map (renamed ρ)) (tokens.map (Token.renamed ρ)) =
      ((nestFrom waiting done tokens).1.map (renamed ρ), (nestFrom waiting done tokens).2.map (SyntaxError.renamed ρ)) := by
  induction tokens generalizing waiting done with
  | nil =>
    have houtermost := outermost_renamed ρ waiting done
    cases waiting with
    | nil => simp [nestFrom]
    | cons level levels => exact Prod.ext houtermost rfl
  | cons t tokens ih =>
    have houtermost := outermost_renamed ρ waiting done
    rw [List.map_cons, nestFrom.eq_def, nestFrom.eq_def waiting]
    dsimp only
    rw [Token.kind_renamed]
    split
    · exact ih (⟨t, done⟩ :: waiting) []
    split
    · cases waiting with
      | nil => exact Prod.ext houtermost rfl
      | cons level levels =>
        have hopener : (level.renamed ρ).opener.kind = level.opener.kind := rfl
        rw [List.map_cons]
        dsimp only
        rw [hopener]
        split
        · rw [← ih levels, List.map_cons, renamed_group, List.map_reverse]
          rfl
        · rw [List.map_cons] at houtermost
          exact Prod.ext houtermost rfl
    · exact ih waiting (leaf t :: done)

theorem nest_renamed (tokens : List Token) :
    nest (tokens.map (Token.renamed ρ)) =
      ((nest tokens).1.map (renamed ρ), (nest tokens).2.map (SyntaxError.renamed ρ)) := nestFrom_renamed ρ [] [] tokens

end TokenTree

theorem significant_renamed (tokens : List Token) :
    significant (tokens.map (Token.renamed ρ)) = (significant tokens).map (Token.renamed ρ) := by
  rw [significant, significant, List.filter_map]
  rfl

/-! ## Tokens of a file -/

namespace Cursor

def renamed (c : Cursor) : Cursor := { c with file := ρ c.file }

theorem bump_renamed (c : Cursor) : (c.renamed ρ).bump = c.bump.renamed ρ := by
  obtain ⟨⟨off, line, lineStart, rest⟩, file, content⟩ := c
  cases rest with
  | nil => rfl
  | cons b rest =>
    simp only [bump, renamed]
    split <;> rfl

theorem advance_renamed (n : Nat) (c : Cursor) : (c.renamed ρ).advance n = (c.advance n).renamed ρ := by
  induction n generalizing c with
  | zero => rfl
  | succ n ih => rw [advance, advance, bump_renamed, ih]

end Cursor

namespace Lexer

def renamed (lx : Lexer) : Lexer :=
  ⟨lx.cursor.renamed ρ, lx.last.map (Token.renamed ρ), lx.fault.map (SyntaxError.renamed ρ)⟩

theorem tokenOf_renamed (c : Cursor) (x : Lexeme) : tokenOf (c.renamed ρ) x = (tokenOf c x).renamed ρ := by
  rw [tokenOf, Cursor.advance_renamed]
  rfl

theorem errorOf_renamed (c : Cursor) (m : Misread) : errorOf (c.renamed ρ) m = (errorOf c m).renamed ρ := by
  rw [errorOf, Cursor.advance_renamed]
  rfl

theorem after_renamed (lx : Lexer) (x : Lexeme) (t : Token) :
    (lx.renamed ρ).after x (t.renamed ρ) = (lx.after x t).renamed ρ := by
  have hwhite : (t.renamed ρ).isWhitespace = t.isWhitespace := rfl
  simp only [after, renamed, Cursor.advance_renamed, hwhite]
  split <;> rfl

theorem afterOperand_renamed (lx : Lexer) : (lx.renamed ρ).afterOperand = lx.afterOperand := by
  obtain ⟨cursor, last, fault⟩ := lx
  cases last <;> rfl

theorem all_eq (lx : Lexer) (hfault : lx.fault = none) {b : UInt8} {rest : Bytes} (hrest : lx.cursor.rest = b :: rest) :
    lx.all = match Lexeme.read lx.afterOperand b rest with
      | .error m => ([], some (errorOf lx.cursor m))
      | .ok x =>
        (tokenOf lx.cursor x :: (lx.after x (tokenOf lx.cursor x)).all.1, (lx.after x (tokenOf lx.cursor x)).all.2) := by
  rw [all, hfault]
  dsimp only
  split
  · rename_i hnil
    rw [hnil] at hrest
    cases hrest
  · rename_i hcons
    rw [hrest] at hcons
    cases hcons
    rfl

theorem all_renamed (lx : Lexer) :
    (lx.renamed ρ).all = (lx.all.1.map (Token.renamed ρ), lx.all.2.map (SyntaxError.renamed ρ)) := by
  fun_induction Lexer.all lx with
  | case1 lx e hfault =>
    have hfault' : (lx.renamed ρ).fault = some (e.renamed ρ) := congrArg (Option.map _) hfault
    rw [all, hfault']
    rfl
  | case2 lx hfault hrest =>
    have hfault' : (lx.renamed ρ).fault = none := congrArg (Option.map _) hfault
    rw [all, hfault']
    dsimp only
    split
    · rfl
    · rename_i hcons
      cases hrest.symm.trans hcons
  | case3 lx hfault b rest hrest m hread =>
    rw [all_eq (lx.renamed ρ) (congrArg (Option.map _) hfault) hrest, afterOperand_renamed, hread]
    exact Prod.ext rfl (congrArg some (errorOf_renamed ρ lx.cursor m))
  | case4 lx hfault b rest hrest x hread t tokens fault htail ih =>
    have htoken : tokenOf (lx.renamed ρ).cursor x = t.renamed ρ := tokenOf_renamed ρ lx.cursor x
    rw [all_eq (lx.renamed ρ) (congrArg (Option.map _) hfault) hrest, afterOperand_renamed, hread]
    dsimp only
    rw [htoken, after_renamed, ih, htail, List.map_cons]

end Lexer

namespace SourceFile

variable {ρ} {f f' : SourceFile}

theorem start_renamed (hid : f'.id = ρ f.id) (hcontent : f'.content = f.content) :
    Lexer.start f' = (Lexer.start f).renamed ρ := by
  simp only [Lexer.start, Lexer.renamed, Cursor.start, Cursor.renamed, hid, hcontent, Option.map_none]

theorem endToken_renamed (hid : f'.id = ρ f.id) (hcontent : f'.content = f.content) :
    f'.endToken = f.endToken.renamed ρ := by
  simp only [endToken, size, position, lineFeeds, hid, hcontent]
  rfl

/-- A file of the same text has the same tokens, or the same error, in another file. -/
theorem tokenize_renamed (hid : f'.id = ρ f.id) (hcontent : f'.content = f.content) :
    f'.tokenize = match f.tokenize with
      | .error e => .error (e.renamed ρ)
      | .ok tokens => .ok (tokens.map (Token.renamed ρ)) := by
  rw [tokenize, tokenize, start_renamed hid hcontent, Lexer.all_renamed]
  cases (Lexer.start f).all with
  | mk tokens fault => cases fault <;> rfl

end SourceFile

end Bracescript
