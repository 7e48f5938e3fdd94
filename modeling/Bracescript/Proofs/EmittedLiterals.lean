import Bracescript.Proofs.EmissionAgrees
import Bracescript.Proofs.EmittedModule
import Bracescript.Proofs.Numerals

/-!
# Literals end to end

The parser keeps the literals of a text in their order, and so does emission: each one stands in the emitted text as the
call of its maker.
-/

namespace Bracescript

open TokenTree

/-! ## The literals of a program -/

/-- The literal that a token is: its kind, or why it has none, and its value. -/
def Token.literals (t : Token) : List (Except Cause LiteralKind × Bytes) :=
  match t.kind with
  | .stringLiteral => [(.ok .string, t.value)]
  | .numberLiteral => [(numberKind t.value t.flag t.text, t.value)]
  | _ => []

mutual

/-- The literals of an expression in the order in which they are emitted. -/
@[simp]
def Expr.literals : Expr → List (LiteralKind × Bytes)
  | .hole _ | .bare .. | .ident .. => []
  | .literal _ kind value => [(kind, value)]
  | .unary _ _ operand _ => operand.literals
  | .binary _ _ left right => left.literals ++ right.literals
  | .ternary _ test yes no => test.literals ++ (yes.literals ++ no.literals)
  | .member _ target _ => target.literals
  | .call _ target args => target.literals ++ Expr.literalsArgs args
  | .index _ target key => target.literals ++ key.literals
  | .slice _ target start stop => target.literals ++ (Expr.literalsOption start ++ Expr.literalsOption stop)
  | .generic _ target args => target.literals ++ Expr.literalsAll args

@[simp]
def Expr.literalsOption : Option Expr → List (LiteralKind × Bytes)
  | none => []
  | some e => e.literals

@[simp]
def Expr.literalsAll : List Expr → List (LiteralKind × Bytes)
  | [] => []
  | e :: es => e.literals ++ Expr.literalsAll es

/-- The literals of an argument, which are those of its value. -/
@[simp]
def Expr.literalsArg : Argument Expr → List (LiteralKind × Bytes)
  | ⟨_, _, _, _, value⟩ => Expr.literalsOption value

@[simp]
def Expr.literalsArgs : List (Argument Expr) → List (LiteralKind × Bytes)
  | [] => []
  | a :: as => Expr.literalsArg a ++ Expr.literalsArgs as

end

/-- The literals of the types of parameters. -/
def Expr.literalsTypes (params : List (Argument Expr)) : List (LiteralKind × Bytes) :=
  params.flatMap fun p => Expr.literalsOption p.type

mutual

/-- The literals of a statement in the order in which they are emitted. -/
@[simp]
def Stmt.literals : Stmt → List (LiteralKind × Bytes)
  | .hole _ | .bare .. | .brk _ | .cont _ => []
  | .expr _ e => e.literals
  | .assign _ _ _ target value => target.literals ++ Expr.literalsOption value
  | .typed _ type _ target value => target.literals ++ (type.literals ++ Expr.literalsOption value)
  | .conditional _ test yes no => test.literals ++ (Stmt.literalsAll yes ++ Stmt.literalsAll no)
  | .forLoop _ init test step body =>
    Stmt.literalsOption init ++ (Expr.literalsOption test ++ (Stmt.literalsOption step ++ Stmt.literalsAll body))
  | .whileLoop _ test body => test.literals ++ Stmt.literalsAll body
  | .define _ _ params body => Expr.literalsArgs params ++ (Expr.literalsTypes params ++ Stmt.literalsAll body)
  | .defineClass _ _ bases body => Expr.literalsAll bases ++ Stmt.literalsAll body
  | .ret _ value => Expr.literalsOption value

@[simp]
def Stmt.literalsOption : Option Stmt → List (LiteralKind × Bytes)
  | none => []
  | some s => s.literals

@[simp]
def Stmt.literalsAll : List Stmt → List (LiteralKind × Bytes)
  | [] => []
  | s :: ss => s.literals ++ Stmt.literalsAll ss

end

mutual

/-- The literals of a tree, to which delimiters add nothing. -/
@[simp]
def TokenTree.literals : TokenTree → List (Except Cause LiteralKind × Bytes)
  | leaf t => t.literals
  | group _ inside _ => literalsAll inside

@[simp]
def TokenTree.literalsAll : List TokenTree → List (Except Cause LiteralKind × Bytes)
  | [] => []
  | t :: ts => t.literals ++ literalsAll ts

end

mutual

@[simp]
def Part.literals : Part → List (LiteralKind × Bytes)
  | .expr e => e.literals
  | .bound e | .value e => Expr.literalsOption e
  | .arg a | .param a => Expr.literalsArg a
  | .list ps => Part.literalsAll ps
  | .shape build => (build default).literals
  | .stmt s => s.literals
  | .clause s => Stmt.literalsOption s
  | .header init test step => Stmt.literalsOption init ++ (Expr.literalsOption test ++ Stmt.literalsOption step)
  | .otherwise ss | .stmts ss => Stmt.literalsAll ss

@[simp]
def Part.literalsAll : List Part → List (LiteralKind × Bytes)
  | [] => []
  | p :: ps => p.literals ++ Part.literalsAll ps

end

/-! ## The parser keeps literals -/

@[simp]
theorem TokenTree.literalsAll_append (xs ys : List TokenTree) :
    literalsAll (xs ++ ys) = literalsAll xs ++ literalsAll ys := by
  induction xs with
  | nil => rfl
  | cons x xs ih => simp [ih]

theorem Part.literalsAll_args (part : Argument Expr → Part) (hpart : ∀ a, (part a).literals = Expr.literalsArg a)
    (args : List (Argument Expr)) : Part.literalsAll (args.map part) = Expr.literalsArgs args := by
  induction args with
  | nil => rfl
  | cons a as ih => simp [hpart, ih]

theorem Part.literalsAll_expr (es : List Expr) : Part.literalsAll (es.map .expr) = Expr.literalsAll es := by
  induction es with
  | nil => rfl
  | cons e es ih => simp [ih]

theorem Token.literals_eq_nil {t : Token} (hstring : t.kind ≠ .stringLiteral) (hnumber : t.kind ≠ .numberLiteral) :
    t.literals = [] := by
  unfold Token.literals
  split <;> simp_all

theorem Token.literals_of_name {t : Token} (h : t.kind = .identifier) : t.literals = [] := by simp [Token.literals, h]

theorem Token.literals_of_symbol {t : Token} {symbol : Bytes} (h : t.operatorSymbol? = some symbol) :
    t.literals = [] := by
  unfold operatorSymbol? at h
  apply literals_eq_nil <;> intro hkind <;> simp [hkind] at h

theorem Token.literals_of_keyword {t : Token} {word : Bytes} (h : t.isKeyword word = true) : t.literals = [] := by
  rw [isKeyword, Bool.and_eq_true, beq_iff_eq] at h
  simp [Token.literals, h.1]

theorem Token.literals_of_declaration {t : Token} (h : t.isKeyword "let" = true ∨ t.isKeyword "const" = true) :
    t.literals = [] := h.elim literals_of_keyword literals_of_keyword

/-- The type of a parameter is a name. -/
theorem Derives.literalsTypes_eq {ts : List TokenTree} {params : List (Argument Expr)}
    (h : Derives ts (.list (params.map .param))) : Expr.literalsTypes params = [] := by
  have hparam : ∀ {us : List TokenTree} {p : Argument Expr}, Derives us (.param p) → Expr.literalsOption p.type = [] := by
    intro us p hp
    cases hp <;> rfl
  generalize hlist : Part.list (params.map .param) = part at h
  induction h generalizing params with
  | empty =>
    obtain rfl : params = [] := by simpa using hlist
    rfl
  | last ok _ =>
    obtain ⟨p, rfl, rfl⟩ : ∃ p, params = [p] ∧ Part.param p = _ := by simpa [List.map_eq_singleton_iff] using hlist
    simp [Expr.literalsTypes, hparam ok]
  | next _ ok _ _ ih =>
    obtain ⟨p, params, rfl, rfl, rfl⟩ := List.map_eq_cons_iff.mp (Part.list.inj hlist)
    simpa [Expr.literalsTypes, hparam ok] using ih rfl
  | _ => cases hlist

theorem Derives.shape_literals {ts : List TokenTree} {build : Node → Stmt} (h : Derives ts (.shape build)) (n m : Node) :
    (build n).literals = (build m).literals := by
  cases h <;> rfl

/-- A literal whose kind is known. -/
def known (l : LiteralKind × Bytes) : Except Cause LiteralKind × Bytes := (.ok l.1, l.2)

/-- What is derived from trees has their literals, and all of these have a kind. -/
theorem Derives.literals_eq {ts : List TokenTree} {p : Part} (h : Derives ts p) :
    literalsAll ts = p.literals.map known := by
  induction h with
  -- expressions
  | ident kind => simp [Token.ident, Token.literals_of_name kind]
  | string kind => simp [Token.literals, kind, known]
  | number kind hknown => simp [Token.literals, kind, hknown, known]
  | parens _ _ ih => simpa using ih
  | front operator _ _ ih | behind operator _ _ ih =>
    simp only [Part.literals] at ih
    simp [Token.literals_of_symbol operator, ih]
  | binary operator _ _ _ ihl ihr =>
    simp only [Part.literals] at ihl ihr
    simp [Token.literals_of_symbol operator, ihl, ihr]
  | ternary question colon _ _ _ iha ihb ihc =>
    simp only [Part.literals] at iha ihb ihc
    simp [Token.literals_of_symbol question, Token.literals_of_symbol colon, iha, ihb, ihc]
  | member period name _ ih =>
    simp only [Part.literals] at ih
    simp [Token.literals, period, name, ih]
  | call _ _ _ ih iha =>
    simp only [Part.literals, Part.literalsAll_args .arg fun _ => rfl] at ih iha
    simp [ih, iha]
  | index _ _ _ ih ihi =>
    simp only [Part.literals] at ih ihi
    simp [ih, ihi]
  | slice _ colon _ _ _ ih ihs ihe =>
    simp only [Part.literals] at ih ihs ihe
    simp [Token.literals_of_symbol colon, ih, ihs, ihe]
  -- parts of expressions and declarations
  | unbound | unset | empty | noClause | noElse | noStmts => rfl
  | bound _ ih | arg _ ih | expr _ ih | clause _ ih => exact ih
  | set equals _ ih =>
    simp only [Part.literals] at ih
    simp [Token.literals, equals, ih]
  | param name _ ih =>
    simp only [Part.literals] at ih
    simp [Token.literals_of_name name, ih]
  | typedParam type name _ ih =>
    simp only [Part.literals] at ih
    simp [Token.literals_of_name type, Token.literals_of_name name, ih]
  | last _ ih => simp [ih]
  | next comma _ _ ih ihr =>
    simp only [Part.literals] at ihr
    simp [Token.literals, comma, ih, ihr]
  -- statements
  | declare word name _ ih =>
    simp only [Part.literals] at ih
    simp [Token.ident, Token.literals_of_declaration word, Token.literals_of_name name, ih]
  | declareTyped word type name _ ih =>
    simp only [Part.literals] at ih
    simp [Token.ident, Token.literals_of_declaration word, Token.literals_of_name type, Token.literals_of_name name, ih]
  | typed type name _ ih =>
    simp only [Part.literals] at ih
    simp [Token.ident, Token.literals_of_name type, Token.literals_of_name name, ih]
  | change equals _ _ iht ihe =>
    simp only [Part.literals] at iht ihe
    simp [Token.literals, equals, iht, ihe]
  | conditional word _ _ _ _ _ iht ihy ihn =>
    simp only [Part.literals] at iht ihy ihn
    simp [Token.literals_of_keyword word, iht, ihy, ihn]
  | forLoop word _ _ _ _ ihh ihb =>
    simp only [Part.literals] at ihh ihb
    simp [Token.literals_of_keyword word, ihh, ihb]
  | whileLoop word _ _ _ _ iht ihb =>
    simp only [Part.literals] at iht ihb
    simp [Token.literals_of_keyword word, iht, ihb]
  | define word name _ _ params_ok _ ihp ihb =>
    simp only [Part.literals, Part.literalsAll_args .param fun _ => rfl] at ihp ihb
    simp [Token.literals_of_keyword word, Token.literals_of_name name, params_ok.literalsTypes_eq, ihp, ihb]
  | defineClass word name _ _ ihb =>
    simp only [Part.literals] at ihb
    simp [Token.literals_of_keyword word, Token.literals_of_name name, ihb]
  | defineSubclass word name _ _ _ _ ihp ihb =>
    simp only [Part.literals, Part.literalsAll_expr] at ihp ihb
    simp [Token.literals_of_keyword word, Token.literals_of_name name, ihp, ihb]
  | ret word _ ih =>
    simp only [Part.literals] at ih
    simp [Token.literals_of_keyword word, ih]
  | brk word | cont word => simp [Token.literals_of_keyword word]
  | stmt ok ih => rw [ih, Part.literals, Part.literals, ok.shape_literals]
  -- parts of statements
  | header a b _ _ _ ihi iht ihs =>
    simp only [Part.literals] at ihi iht ihs
    simp [Token.literals, a, b, ihi, iht, ihs]
  | elseBlock word _ _ ih | elseIf word _ ih =>
    simp only [Part.literals] at ih
    simp [Token.literals_of_keyword word, ih]
  | separator kind _ ih =>
    simp only [Part.literals] at ih
    simp [Token.literals, kind, ih]
  | stmts _ _ ih ihr =>
    simp only [Part.literals] at ih ihr
    simp [ih, ihr]

mutual

theorem TokenTree.literals_eq (t : TokenTree) (h : t.Matched) : t.literals = t.flatten.flatMap Token.literals := by
  match t with
  | leaf t => simp [flatten]
  | group opener inside closer =>
    have hopener : opener.literals = [] := by
      apply Token.literals_eq_nil <;> intro hkind <;> simp [hkind, Matched, TokenKind.closer?] at h
    have hcloser : closer.literals = [] := by
      have hcloses := isCloser_of_closer h.1
      apply Token.literals_eq_nil <;> intro hkind <;> simp [hkind, TokenKind.isCloser] at hcloses
    simp [flatten, hopener, hcloser, TokenTree.literalsAll_eq inside h.2]

theorem TokenTree.literalsAll_eq (ts : List TokenTree) (h : MatchedAll ts) :
    literalsAll ts = (flattenAll ts).flatMap Token.literals := by
  match ts with
  | [] => rfl
  | t :: ts => simp [flattenAll, TokenTree.literals_eq t h.1, TokenTree.literalsAll_eq ts h.2]

end

theorem literals_significant (tokens : List Token) :
    (significant tokens).flatMap Token.literals = tokens.flatMap Token.literals := by
  induction tokens with
  | nil => rfl
  | cons t ts ih =>
    rw [significant, List.filter_cons]
    split
    · rw [List.flatMap_cons, List.flatMap_cons, ← ih, significant]
    · rename_i hskip
      have hnone : t.literals = [] := by
        apply Token.literals_eq_nil <;> intro hkind <;>
          simp [hkind, Token.isWhitespace, TokenKind.isWhitespace] at hskip
      rw [List.flatMap_cons, hnone, List.nil_append, ← ih, significant]

/-- A program has the literals of its text, and all of these have a kind. -/
theorem SourceFile.literals_of_parse {f : SourceFile} {p : Program} (hparse : f.parse = .ok p) :
    ∃ tokens, f.tokenize = .ok tokens ∧ tokens.flatMap Token.literals = (Stmt.literalsAll p.statements).map known := by
  unfold SourceFile.parse at hparse
  split at hparse
  · cases hparse
  · rename_i tokens htokens
    have hreads := (f.parseStatements_reads tokens {}).1
    unfold SourceFile.parseTokens at hparse
    split at hparse
    · cases hparse
    · rename_i statements s hrun
      cases hparse
      rw [hrun] at hreads
      obtain ⟨trees, hmatched, hflatten, hderives⟩ := hreads
      refine ⟨tokens, htokens, ?_⟩
      calc tokens.flatMap Token.literals = (flattenAll trees).flatMap Token.literals := by
            rw [hflatten, literals_significant]
        _ = literalsAll trees := (TokenTree.literalsAll_eq trees hmatched).symm
        _ = (Stmt.literalsAll statements).map known := hderives.literals_eq

/-! ## Emission shows literals -/

namespace Emit

variable {as bs : List (LiteralKind × Bytes)} {a b : Bytes}

/-- The literals stand in the text one behind the other, each as it is emitted by itself. -/
inductive Renders : List (LiteralKind × Bytes) → Bytes → Prop
  | gap (text : Bytes) : Renders [] text
  | next {kind : LiteralKind} {value text rest : Bytes} {ls : List (LiteralKind × Bytes)} (gap : Bytes)
    (emitted : literal kind value = .ok text) (rest_ok : Renders ls rest) :
    Renders ((kind, value) :: ls) (gap ++ (text ++ rest))

namespace Renders

theorem before (x : Bytes) (h : Renders as a) : Renders as (x ++ a) := by
  cases h with
  | gap => exact gap _
  | next g emitted rest_ok =>
    rw [← List.append_assoc]
    exact next (x ++ g) emitted rest_ok

theorem append (ha : Renders as a) (hb : Renders bs b) : Renders (as ++ bs) (a ++ b) := by
  induction ha with
  | gap text => exact hb.before text
  | next g emitted _ ih =>
    rw [List.append_assoc, List.append_assoc, List.cons_append]
    exact next g emitted ih

theorem after (x : Bytes) (h : Renders as a) : Renders as (a ++ x) := by
  have hboth := h.append (gap x)
  rwa [List.append_nil] at hboth

/-- A literal stands between those before it and those behind it. -/
theorem split {kind : LiteralKind} {value : Bytes} (h : Renders (as ++ (kind, value) :: bs) a) :
    ∃ left text right, literal kind value = .ok text ∧ a = left ++ text ++ right ∧ Renders as left ∧ Renders bs right := by
  induction as generalizing a with
  | nil =>
    obtain _ | ⟨g, emitted, rest_ok⟩ := h
    exact ⟨g, _, _, emitted, (List.append_assoc ..).symm, gap g, rest_ok⟩
  | cons first as ih =>
    obtain _ | ⟨g, emitted, rest_ok⟩ := h
    obtain ⟨left, text, right, htext, rfl, hleft, hright⟩ := ih rest_ok
    refine ⟨_, text, right, htext, ?_, next g emitted hleft, hright⟩
    simp only [List.append_assoc]

end Renders

/-- The literals stand in the joined texts, whatever is between these. -/
def RendersAll (ls : List (LiteralKind × Bytes)) (texts : List Bytes) : Prop :=
  ∀ sep, Renders ls (Bytes.join sep texts)

theorem rendersAll_nil : RendersAll [] [] := fun _ => .gap _

theorem rendersAll_cons {texts : List Bytes} (ha : Renders as a) (hb : RendersAll bs texts) :
    RendersAll (as ++ bs) (a :: texts) := by
  intro sep
  have hrest := hb sep
  unfold Bytes.join at hrest ⊢
  cases texts with
  | nil =>
    have hlast := ha.append hrest
    simpa using hlast
  | cons text texts =>
    rw [List.intercalate_cons_cons, List.append_assoc]
    exact ha.append (hrest.before sep)

theorem literal_renders (kind : LiteralKind) (value : Bytes) : Yields (Renders [(kind, value)]) (literal kind value) := by
  intro text htext
  have hrenders := Renders.next [] htext (.gap [])
  rwa [List.append_nil] at hrenders

theorem argument_renders {e : Expr} (h : Yields (Renders e.literals) (expr e)) :
    Yields (Renders e.literals) (argument e) := by
  unfold argument
  split
  · exact yields_ok (.gap _)
  · exact h

mutual

theorem expr_renders : (e : Expr) → Yields (Renders e.literals) (expr e)
  | .hole _ | .generic .. | .bare .. => by
    rw [expr]
    exact yields_error
  | .ident .. => by
    rw [expr]
    exact yields_ok (.gap _)
  | .literal _ kind value => by
    rw [expr]
    exact literal_renders kind value
  | .unary _ _ operand _ => by
    rw [expr]
    split
    · exact yields_error
    · exact yields_bind (expr_renders operand) fun text htext => yields_ok ((htext.after _).after _)
  | .binary _ _ left right => by
    rw [expr]
    split
    · exact yields_error
    · refine yields_bind (expr_renders left) fun l hl => yields_bind (expr_renders right) fun r hr => yields_ok ?_
      exact (((hl.after _).after _).append hr).after _
  | .ternary _ test yes no => by
    rw [expr]
    refine yields_bind (expr_renders test) fun t ht => yields_bind (argument_renders (expr_renders yes)) fun y hy =>
      yields_bind (argument_renders (expr_renders no)) fun n hn => yields_ok ?_
    have hbranches := ((hy.after ",").append hn).after ")"
    have hall := ((ht.after (Target.select Target.choose)).after "(").append hbranches
    simpa only [Expr.literals, List.append_assoc] using hall
  | .member _ target _ => by
    rw [expr]
    exact yields_bind (expr_renders target) fun text htext => yields_ok ((((htext.after _).after _).after _).after _)
  | .call _ target args => by
    rw [expr]
    refine yields_bind (expr_renders target) fun text htext => ?_
    split
    · exact yields_error
    · refine yields_bind (arguments_renders args) fun texts htexts => yields_ok ?_
      exact (((htext.after _).after _).append (htexts ",")).after _
  | .index _ target key => by
    rw [expr]
    refine yields_bind (expr_renders target) fun text htext =>
      yields_bind (argument_renders (expr_renders key)) fun k hk => yields_ok ?_
    exact (((htext.after _).after _).append hk).after _
  | .slice _ target start stop => by
    rw [expr]
    refine yields_bind (expr_renders target) fun text htext => yields_bind (optional_renders start) fun x hx =>
      yields_bind (optional_renders stop) fun y hy => yields_ok ?_
    have hbounds := ((hx.after ",").append hy).after ")"
    have hall := ((htext.after (Target.select Target.getSlice)).after "(").append hbounds
    simpa only [Expr.literals, List.append_assoc] using hall

theorem optional_renders : (e : Option Expr) → Yields (Renders (Expr.literalsOption e)) (optional e)
  | none => by
    rw [optional]
    exact yields_ok (.gap _)
  | some e => by
    rw [optional]
    exact expr_renders e

theorem value_renders : (a : Argument Expr) → Yields (Renders (Expr.literalsArg a)) (value a)
  | ⟨_, _, _, _, v⟩ => by
    rw [value]
    exact optional_renders v

theorem arguments_renders : (args : List (Argument Expr)) → Yields (RendersAll (Expr.literalsArgs args)) (arguments args)
  | [] => by
    rw [arguments]
    exact yields_ok rendersAll_nil
  | a :: args => by
    rw [arguments]
    exact yields_bind (value_renders a) fun text htext => yields_bind (arguments_renders args) fun texts htexts =>
      yields_ok (rendersAll_cons htext htexts)

end

/-! ### Statements -/

theorem condition_renders (e : Expr) : Yields (Renders e.literals) (condition e) :=
  yields_bind (expr_renders e) fun _ htext => yields_ok ((htext.before _).after _)

theorem convert_renders (type : Expr) (value : Option Expr) :
    Yields (Renders (type.literals ++ Expr.literalsOption value)) (convert type value) := by
  refine yields_bind (expr_renders type) fun t ht => ?_
  cases value with
  | none =>
    rw [Expr.literalsOption, List.append_nil]
    exact yields_ok ((ht.after _).after _)
  | some e => exact yields_bind (expr_renders e) fun v hv => yields_ok ((((ht.after _).after _).append hv).after _)

theorem orNothing_renders (value : Option Expr) : Yields (Renders (Expr.literalsOption value)) (orNothing value) := by
  cases value with
  | none => exact yields_ok (.gap _)
  | some e => exact expr_renders e

theorem required_renders (value : Option Expr) : Yields (Renders (Expr.literalsOption value)) (required value) := by
  cases value with
  | none =>
    rw [required, expr]
    exact yields_error
  | some e => exact expr_renders e

theorem change_renders (target : Expr) (value : Option Expr) :
    Yields (Renders (target.literals ++ Expr.literalsOption value)) (change target value) := by
  unfold change
  split
  · exact yields_error
  · exact yields_bind (required_renders value) fun v hv => yields_ok (hv.before _)
  · refine yields_bind (expr_renders _) fun o ho => yields_bind (required_renders value) fun v hv => yields_ok ?_
    exact (((((ho.after _).after _).after _).after _).append hv).after _
  · rename_i object key
    refine yields_bind (expr_renders object) fun o ho => yields_bind (argument_renders (expr_renders key)) fun k hk =>
      yields_bind (optional_renders value) fun v hv => yields_ok ?_
    exact (((((ho.after _).after _).append hk).after _).append hv).after _
  · rename_i object start stop
    refine yields_bind (expr_renders object) fun o ho => yields_bind (optional_renders start) fun x hx =>
      yields_bind (optional_renders stop) fun y hy => yields_bind (optional_renders value) fun v hv => yields_ok ?_
    have hbounds := ((hx.after ",").append hy).after ","
    have hall := ((((ho.after (Target.select Target.setSlice)).after "(").append hbounds).append hv).after ")"
    simpa only [Expr.literals, List.append_assoc] using hall
  · exact yields_error

theorem assign_renders (declares constant : Bool) (target : Expr) (value : Option Expr) :
    Yields (Renders (target.literals ++ Expr.literalsOption value)) (assign declares constant target value) := by
  unfold assign
  split
  · refine yields_bind (expr_renders target) fun t ht => yields_bind (orNothing_renders value) fun v hv => yields_ok ?_
    exact ((ht.before _).after _).append hv
  · exact change_renders target value

theorem typed_renders (type : Expr) (constant : Bool) (target : Expr) (value : Option Expr) :
    Yields (Renders (target.literals ++ (type.literals ++ Expr.literalsOption value)))
      (typed type constant target value) := by
  refine yields_bind (expr_renders target) fun t ht => yields_bind (convert_renders type value) fun v hv => yields_ok ?_
  exact ((ht.before _).after _).append hv

theorem parameters_renders (params : List (Argument Expr)) :
    Yields (RendersAll (Expr.literalsArgs params)) (parameters params) := by
  induction params with
  | nil => exact yields_ok rendersAll_nil
  | cons p params ih =>
    rw [parameters]
    refine yields_bind (P := Renders (Expr.literalsArg p)) ?_ fun text htext => yields_bind ih fun texts htexts =>
      yields_ok (rendersAll_cons htext htexts)
    obtain ⟨span, pos, name, type, _ | e⟩ := p
    · exact yields_ok (.gap _)
    · exact yields_bind (expr_renders e) fun v hv => yields_ok (hv.before _)

theorem conversions_renders (params : List (Argument Expr)) :
    Yields (Renders (Expr.literalsTypes params)) (conversions params) := by
  induction params with
  | nil => exact yields_ok (.gap _)
  | cons p params ih =>
    rw [Expr.literalsTypes, List.flatMap_cons, conversions]
    split
    · rename_i htype
      rw [htype]
      exact ih
    · rename_i type htype
      rw [htype]
      refine yields_bind (expr_renders type) fun t ht => yields_bind ih fun rest hrest => yields_ok ?_
      exact (((((ht.before _).after _).after _).after _).after _).append hrest

theorem function_renders {ls ls' : List (LiteralKind × Bytes)} {name entry body : Bytes} {params : List Bytes}
    (hparams : RendersAll ls params) (hbody : Renders ls' (entry ++ body)) :
    Renders (ls ++ ls') (function name params entry body) := by
  have hhead := ((hparams ",").before (Target.function ++ "(function(")).after ")\x7b"
  have hall := (((hhead.append hbody).after "\x7d,").after (Target.quote name)).after ")"
  unfold function
  simpa only [List.append_assoc] using hall

/-- What has the name of a field is a name. -/
theorem memberName_literals {kind : StmtKind} {e : Expr} : Yields (fun _ => e.literals = []) (memberName kind e) := by
  unfold memberName
  split
  · exact yields_ok rfl
  · exact yields_error

/-- A function behind a text without literals. -/
theorem define_renders {params : List (Argument Expr)} {body : List Stmt} (name before : Bytes)
    (hbody : Yields (Renders (Stmt.literalsAll body)) (stmts body)) :
    Yields (Renders (Expr.literalsArgs params ++ (Expr.literalsTypes params ++ Stmt.literalsAll body))) (do
      let params' ← parameters params
      let entry ← conversions params
      let body ← stmts body
      return before ++ function name params' entry body) := by
  refine yields_bind (parameters_renders params) fun ps hps => yields_bind (conversions_renders params) fun entry hentry =>
    yields_bind hbody fun b hb => yields_ok ?_
  exact (function_renders hps (hentry.append hb)).before before

theorem class_renders {ls : List (LiteralKind × Bytes)} {base : Bytes} {body : List Stmt} (name : Bytes)
    (hbase : Renders ls base) (hbody : Yields (RendersAll (Stmt.literalsAll body)) (members body)) :
    Yields (Renders (ls ++ Stmt.literalsAll body)) (do
      let body ← members body
      return "const " ++ Target.userName name ++ "=" ++ Target.createSubclass ++ "(" ++ base ++ "," ++ Target.quote name
        ++ ",\x7b" ++ Bytes.join "," body ++ "\x7d)") := by
  refine yields_bind hbody fun texts htexts => yields_ok ?_
  exact (((((hbase.before _).after _).after _).after _).append (htexts ",")).after _

mutual

theorem stmt_renders : (s : Stmt) → Yields (Renders s.literals) (stmt s)
  | .hole _ | .bare .. => by
    rw [stmt]
    exact yields_error
  | .brk _ | .cont _ => by
    rw [stmt]
    exact yields_ok (.gap _)
  | .expr _ e => by
    rw [stmt]
    exact expr_renders e
  | .assign _ declares constant target value => by
    rw [stmt]
    exact assign_renders declares constant target value
  | .typed _ type constant target value => by
    rw [stmt]
    exact typed_renders type constant target value
  | .conditional _ test yes no => by
    rw [stmt]
    refine yields_bind (condition_renders test) fun t ht => yields_bind (stmts_renders yes) fun y hy => ?_
    have hhead := (((ht.before "if(").after ")\x7b").append hy).after "\x7d"
    dsimp only
    split
    · rename_i hnone
      obtain rfl := List.isEmpty_iff.mp hnone
      rw [Stmt.literals, Stmt.literalsAll, List.append_nil]
      exact yields_ok hhead
    · refine yields_bind (stmts_renders no) fun n hn => yields_ok ?_
      have hall := ((hhead.after "else\x7b").append hn).after "\x7d"
      rwa [List.append_assoc] at hall
  | .forLoop _ init test step body => by
    rw [stmt]
    refine yields_bind (step_renders init) fun i hi => ?_
    have hrest : ∀ t, Renders (Expr.literalsOption test) t → Yields (Renders (Stmt.forLoop default init test step body).literals) (do
        let step ← step? step
        let body ← stmts body
        return "for(" ++ i ++ ";" ++ t ++ ";" ++ step ++ ")\x7b" ++ body ++ "\x7d") := by
      intro t ht
      refine yields_bind (step_renders step) fun u hu => yields_bind (stmts_renders body) fun b hb => yields_ok ?_
      have hclauses := ((((hi.before "for(").after ";").append ht).after ";").append hu
      have hall := ((hclauses.after ")\x7b").append hb).after "\x7d"
      simpa only [Stmt.literals, List.append_assoc] using hall
    cases test with
    | none => exact yields_bind (yields_ok (.gap [])) hrest
    | some e => exact yields_bind (condition_renders e) hrest
  | .whileLoop _ test body => by
    rw [stmt]
    refine yields_bind (condition_renders test) fun t ht => yields_bind (stmts_renders body) fun b hb => yields_ok ?_
    exact (((ht.before _).after _).append hb).after _
  | .define _ name params body => by
    rw [stmt]
    exact define_renders name _ (stmts_renders body)
  | .defineClass _ name [] body => by
    rw [stmt]
    exact yields_bind (yields_ok (Renders.gap Target.any)) fun base hbase => class_renders name hbase (members_renders body)
  | .defineClass _ name [base] body => by
    rw [stmt, Stmt.literals, Expr.literalsAll, Expr.literalsAll, List.append_nil]
    · exact yields_bind (expr_renders base) fun text htext => class_renders name htext (members_renders body)
    · simp
  | .defineClass _ _ (_ :: _ :: _) _ => by
    rw [stmt]
    exact yields_error
  | .ret _ value => by
    rw [stmt]
    exact yields_bind (orNothing_renders value) fun v hv => yields_ok (hv.before _)

theorem step_renders : (s : Option Stmt) → Yields (Renders (Stmt.literalsOption s)) (step? s)
  | none => by
    rw [step?]
    exact yields_ok (.gap _)
  | some s => by
    rw [step?]
    exact stmt_renders s

theorem stmts_renders : (ss : List Stmt) → Yields (Renders (Stmt.literalsAll ss)) (stmts ss)
  | [] => by
    rw [stmts]
    exact yields_ok (.gap _)
  | [s] => by
    rw [stmts, Stmt.literalsAll, Stmt.literalsAll, List.append_nil]
    exact stmt_renders s
  | s :: u :: ss => by
    rw [stmts_cons s (List.cons_ne_nil u ss)]
    exact yields_bind (stmt_renders s) fun text htext => yields_bind (stmts_renders (u :: ss)) fun rest hrest =>
      yields_ok ((htext.after _).append hrest)

theorem member_renders : (s : Stmt) → Yields (Renders s.literals) (member s)
  | .typed _ type _ target value => by
    rw [member]
    refine yields_bind memberName_literals fun name hname => ?_
    rw [Stmt.literals, hname]
    exact yields_bind (convert_renders type value) fun v hv => yields_ok (hv.before _)
  | .assign _ _ _ target value => by
    rw [member]
    refine yields_bind memberName_literals fun name hname => ?_
    rw [Stmt.literals, hname]
    exact yields_bind (orNothing_renders value) fun v hv => yields_ok (hv.before _)
  | .define _ name params body => by
    rw [member]
    exact define_renders name _ (stmts_renders body)
  | .hole _ | .expr .. | .conditional .. | .forLoop .. | .whileLoop .. | .defineClass .. | .ret .. | .brk _ | .cont _
  | .bare .. => by
    rw [member] <;> simp [yields_error]

theorem members_renders : (ss : List Stmt) → Yields (RendersAll (Stmt.literalsAll ss)) (members ss)
  | [] => by
    rw [members]
    exact yields_ok rendersAll_nil
  | s :: ss => by
    rw [members]
    exact yields_bind (member_renders s) fun text htext => yields_bind (members_renders ss) fun texts htexts =>
      yields_ok (rendersAll_cons htext htexts)

end

end Emit

/-- The literals of a text stand in its emitted program one behind the other. -/
theorem Program.body_renders {f : SourceFile} {p : Program} (hparse : f.parse = .ok p) {body : Bytes}
    (hbody : p.emitBody = .ok body) :
    ∃ tokens ls, f.tokenize = .ok tokens ∧ tokens.flatMap Token.literals = ls.map known ∧ Emit.Renders ls body := by
  obtain ⟨tokens, htokens, hliterals⟩ := SourceFile.literals_of_parse hparse
  exact ⟨tokens, _, htokens, hliterals, Emit.stmts_renders p.statements body hbody⟩

end Bracescript
