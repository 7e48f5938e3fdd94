import Bracescript.Proofs.ParserSafety
import Bracescript.Proofs.ReadingBack

/-!
# Emission loses nothing

Every expression that the parser builds is emitted as a text from which it can be read back, but for its places and for
the side on which an increment or a decrement stands. So two expressions with the same text are the same.
-/

namespace Bracescript

open Target TokenTree

/-! ## What the text keeps -/

mutual

/-- The expression with all increments and decrements in front of their operands. -/
def Expr.unsided : Expr → Expr
  | .hole id => .hole id
  | .ident n name => .ident n name
  | .literal n kind value => .literal n kind value
  | .unary n symbol operand behind => .unary n symbol operand.unsided (behind && !Item.isBehind symbol)
  | .binary n symbol left right => .binary n symbol left.unsided right.unsided
  | .ternary n test yes no => .ternary n test.unsided yes.unsided no.unsided
  | .member n target field => .member n target.unsided field
  | .call n target args => .call n target.unsided (Expr.unsidedArgs args)
  | .index n target key => .index n target.unsided key.unsided
  | .slice n target start stop => .slice n target.unsided (Expr.unsidedOption start) (Expr.unsidedOption stop)
  | .generic n target args => .generic n target.unsided (Expr.unsidedAll args)
  | .bare n kind => .bare n kind

def Expr.unsidedOption : Option Expr → Option Expr
  | none => none
  | some e => some e.unsided

def Expr.unsidedAll : List Expr → List Expr
  | [] => []
  | e :: es => e.unsided :: Expr.unsidedAll es

def Expr.unsidedArg : Argument Expr → Argument Expr
  | ⟨span, pos, name, type, value⟩ => ⟨span, pos, name, Expr.unsidedOption type, Expr.unsidedOption value⟩

def Expr.unsidedArgs : List (Argument Expr) → List (Argument Expr)
  | [] => []
  | a :: as => Expr.unsidedArg a :: Expr.unsidedArgs as

end

/-- The expression without its places and without the sides of increments and decrements. -/
def Expr.gist (e : Expr) : Expr := e.unplaced.unsided

/-- The expression is emitted, and its text denotes what it is. -/
def Expr.Survives (e : Expr) : Prop := ∃ text, Emit.expr e = .ok text ∧ Denotes text (.expr e.gist)

/-- A bound of a slice is emitted, and its text denotes it or that it is left out. -/
def Expr.SurvivesOption (e : Option Expr) : Prop :=
  ∃ text o, Emit.optional e = .ok text ∧ Denotes text o ∧ o.bound? = some (e.map Expr.gist)

namespace Expr

variable {n : Node} {symbol key : Bytes} {e target left right : Expr}

theorem Survives.argument_eq (h : e.Survives) : Emit.argument e = Emit.expr e := by
  cases e with
  | hole id =>
    obtain ⟨text, htext, -⟩ := h
    rw [Emit.expr] at htext
    cases htext
  | _ =>
    rw [Emit.argument]
    simp

theorem survives_ident {name : Bytes} (h : name.all Lexeme.isNamePart = true) : (Expr.ident n name).Survives :=
  ⟨userName name, by rw [Emit.expr], denotes_name h⟩

theorem survives_string {value : Bytes} (h : Text.isUtf8 value = true) : (Expr.literal n .string value).Survives := by
  refine ⟨_, ?_, denotes_string rfl h⟩
  rw [Emit.expr, Emit.literal]
  rfl

theorem survives_number {kind : LiteralKind} {value flag text : Bytes} (hkind : numberKind value flag text = .ok kind)
    (hvalue : IsSignedNumeral value) : (Expr.literal n kind value).Survives := by
  obtain ⟨hstring, hpoint⟩ := Emit.numberKind_cases hkind
  obtain ⟨maker, hmaker⟩ := Option.isSome_iff_exists.mp (constructor_of_known kind (known_of_numberKind hkind))
  refine ⟨_, ?_, denotes_number hmaker hvalue hpoint⟩
  rw [Emit.expr, Emit.literal, hmaker]
  simp only [hstring, if_false]

/-- An expression survives as a call through a key if its target and its arguments do. -/
theorem Survives.invoke {form : Form} {texts : List Bytes} {os : List Operand} (htarget : target.Survives)
    (hform : (key, form) ∈ forms) (hargs : List.Forall₂ Denotes texts os)
    (hbuild : form.build? target.gist os = some e.gist)
    (hemit : ∀ text, Emit.expr target = .ok text →
      Emit.expr e = .ok (text ++ select key ++ "(" ++ Bytes.join "," texts ++ ")")) : e.Survives := by
  obtain ⟨text, htext, hdenotes⟩ := htarget
  exact ⟨_, hemit text htext, hdenotes.invoke hform hargs hbuild⟩

theorem Survives.unary {behind : Bool} (h : e.Survives) (hkey : unaryKey? symbol = some key)
    (hbehind : behind = true → Item.isBehind symbol = true) : (Expr.unary n symbol e behind).Survives := by
  refine h.invoke (mem_forms_of_unary hkey) .nil ?_ fun text htext => ?_
  · have hside : (behind && !Item.isBehind symbol) = false := by
      cases behind with
      | false => rfl
      | true => simp [hbehind rfl]
    simp only [gist, unplaced, unsided, hside, Form.build?]
  · rw [Emit.expr, hkey, htext]
    simp only [List.append_assoc]
    rfl

theorem Survives.binary (hleft : left.Survives) (hright : right.Survives) (hkey : binaryKey? symbol = some key) :
    (Expr.binary n symbol left right).Survives := by
  obtain ⟨r, hr, hdenotes⟩ := hright
  refine hleft.invoke (mem_forms_of_binary hkey) (.cons hdenotes .nil) ?_ fun text htext => ?_
  · simp only [gist, unplaced, unsided, Form.build?]
  · rw [Emit.expr, hkey, htext, hr, join_one]
    rfl

theorem Survives.ternary {yes no : Expr} (h : e.Survives) (hyes : yes.Survives) (hno : no.Survives) :
    (Expr.ternary n e yes no).Survives := by
  have hyes' := hyes.argument_eq
  have hno' := hno.argument_eq
  obtain ⟨y, hy, hydenotes⟩ := hyes
  obtain ⟨z, hz, hzdenotes⟩ := hno
  have hform : (choose, Form.choose) ∈ forms := by simp [forms]
  refine h.invoke hform (.cons hydenotes (.cons hzdenotes .nil)) ?_ fun text htext => ?_
  · simp only [gist, unplaced, unsided, Form.build?]
  · rw [Emit.expr, htext, hyes', hno', hy, hz, join_two]
    simp only [List.append_assoc]
    rfl

theorem Survives.member {field : Bytes} (h : e.Survives) (hfield : field.all Lexeme.isNamePart = true) :
    (Expr.member n e field).Survives := by
  have hform : (getAttr, Form.member) ∈ forms := by simp [forms]
  have hdenotes := denotes_quote (isUtf8_of_name hfield)
  refine h.invoke hform (.cons hdenotes .nil) ?_ fun text htext => ?_
  · simp only [gist, unplaced, unsided, Form.build?]
  · rw [Emit.expr, htext, join_one]
    rfl

theorem Survives.index {i : Expr} (h : e.Survives) (hindex : i.Survives) : (Expr.index n e i).Survives := by
  have hargument := hindex.argument_eq
  obtain ⟨k, hk, hdenotes⟩ := hindex
  have hform : (getItem, Form.index) ∈ forms := by simp [forms]
  refine h.invoke hform (.cons hdenotes .nil) ?_ fun text htext => ?_
  · simp only [gist, unplaced, unsided, Form.build?]
  · rw [Emit.expr, htext, hargument, hk, join_one]
    rfl

theorem survivesOption_none : SurvivesOption none := ⟨_, .absent, by rw [Emit.optional], denotes_undefined, rfl⟩

theorem Survives.option (h : e.Survives) : SurvivesOption (some e) := by
  obtain ⟨text, htext, hdenotes⟩ := h
  exact ⟨text, _, by rw [Emit.optional, htext], hdenotes, rfl⟩

theorem gistOption_eq (e : Option Expr) : unsidedOption (unplacedOption e) = e.map gist := by
  cases e with
  | none => simp only [unplacedOption, unsidedOption, Option.map_none]
  | some e => simp only [unplacedOption, unsidedOption, Option.map_some, gist]

theorem Survives.slice {start stop : Option Expr} (h : e.Survives) (hstart : SurvivesOption start)
    (hstop : SurvivesOption stop) : (Expr.slice n e start stop).Survives := by
  obtain ⟨a, o, ha, hadenotes, hbound⟩ := hstart
  obtain ⟨b, p, hb, hbdenotes, hbound'⟩ := hstop
  have hform : (getSlice, Form.slice) ∈ forms := by simp [forms]
  refine h.invoke hform (.cons hadenotes (.cons hbdenotes .nil)) ?_ fun text htext => ?_
  · simp [gist, unplaced, unsided, Form.build?, hbound, hbound', gistOption_eq]
  · rw [Emit.expr, htext, ha, hb, join_two]
    simp only [List.append_assoc]
    rfl

end Expr

/-- An argument without a name and a type whose value survives. -/
def Argument.Survives (a : Argument Expr) : Prop :=
  a.name = [] ∧ a.type = none ∧ ∃ e, a.value = some e ∧ e.Survives

namespace Expr

variable {n : Node} {e : Expr} {args : List (Argument Expr)}

theorem exists_arguments (h : ∀ a ∈ args, a.Survives) :
    ∃ (texts : List Bytes) (es : List Expr), Emit.arguments args = .ok texts ∧
      List.Forall₂ Denotes texts (es.map .expr) ∧
      unsidedArgs (unplacedArgs args) = es.map fun e => { value := some e } := by
  induction args with
  | nil => exact ⟨[], [], by rw [Emit.arguments], .nil, by simp only [unplacedArgs, unsidedArgs, List.map_nil]⟩
  | cons a args ih =>
    obtain ⟨ha, hargs⟩ := List.forall_mem_cons.mp h
    obtain ⟨texts, es, htexts, hdenotes, hgist⟩ := ih hargs
    obtain ⟨span, pos, name, type, value⟩ := a
    obtain ⟨rfl, rfl, e, rfl, text, htext, htextDenotes⟩ := ha
    refine ⟨text :: texts, e.gist :: es, ?_, .cons htextDenotes hdenotes, ?_⟩
    · rw [Emit.arguments, Emit.value, Emit.optional, htext, htexts]
      rfl
    · simp only [unplacedArgs, unsidedArgs, unplacedArg, unsidedArg, gistOption_eq, hgist, Option.map_none,
        Option.map_some, List.map_cons]

theorem Survives.call (h : e.Survives) (hargs : ∀ a ∈ args, a.Survives) : (Expr.call n e args).Survives := by
  have hplain : (args.find? fun a => !a.isPlain) = none := by
    refine List.find?_eq_none.mpr fun a ha => ?_
    obtain ⟨hname, htype, -⟩ := hargs a ha
    simp [Argument.isPlain, hname, htype]
  obtain ⟨texts, es, htexts, hdenotes, hgist⟩ := exists_arguments hargs
  have hform : (Target.call, Form.call) ∈ forms := by simp [forms]
  refine h.invoke hform hdenotes ?_ fun text htext => ?_
  · simp only [gist, unplaced, unsided, Form.build?, Operand.mapM_expr, hgist, Option.map_some]
  · simp only [Emit.expr, htext, hplain, htexts]
    rfl

end Expr

/-! ## Derived expressions -/

mutual

/-- Every expression of the part survives; nothing is said about parts of statements. -/
def Part.Survives : Part → Prop
  | .expr e => e.Survives
  | .bound e => Expr.SurvivesOption e
  | .arg a => a.Survives
  | .list ps => Part.AllSurvive ps
  | _ => True

def Part.AllSurvive : List Part → Prop
  | [] => True
  | p :: ps => p.Survives ∧ Part.AllSurvive ps

end

theorem Part.allSurvive_args {args : List (Argument Expr)} (h : Part.AllSurvive (args.map .arg)) :
    ∀ a ∈ args, a.Survives := by
  induction args with
  | nil => exact List.forall_mem_nil _
  | cons a args ih => exact List.forall_mem_cons.mpr ⟨h.1, ih h.2⟩

theorem Derives.survives {source : List Token} (hlegible : Legible source)
    (hutf8 : ∀ t ∈ source, t.kind = .stringLiteral → Text.isUtf8 t.value = true) {ts : List TokenTree} {p : Part}
    (h : Derives ts p) (hin : Inside source ts) : p.Survives := by
  induction h with
  | ident kind => exact Expr.survives_ident (hlegible.names _ hin.leaf_mem kind)
  | string kind => exact Expr.survives_string (hutf8 _ hin.leaf_mem kind)
  | number kind known => exact Expr.survives_number known (hlegible.numbers _ hin.leaf_mem kind)
  | parens _ _ ih => exact ih hin.inside
  | front _ known _ ih =>
    obtain ⟨key, hkey⟩ := Option.isSome_iff_exists.mp (unaryKey_of_unary known)
    exact (ih hin.tail).unary hkey (by simp)
  | behind _ known _ ih =>
    obtain ⟨key, hkey⟩ := Option.isSome_iff_exists.mp (unaryKey_of_behind known)
    exact (ih hin.left).unary hkey fun _ => known
  | binary _ known _ _ ihl ihr =>
    obtain ⟨key, hkey⟩ := Option.isSome_iff_exists.mp (binaryKey_of_binary known)
    exact (ihl hin.left).binary (ihr hin.right.tail) hkey
  | ternary _ _ _ _ _ iha ihb ihc =>
    exact (iha hin.left).ternary (ihb hin.right.tail.left) (ihc hin.right.tail.right.tail)
  | member _ name _ ih => exact (ih hin.left).member (hlegible.names _ hin.right.tail.leaf_mem name)
  | call _ _ _ ih iha => exact (ih hin.left).call (Part.allSurvive_args (iha hin.right.inside))
  | index _ _ _ ih ihi => exact (ih hin.left).index (ihi hin.right.inside)
  | slice _ _ _ _ _ ih ihs ihe => exact (ih hin.left).slice (ihs hin.right.inside.left) (ihe hin.right.inside.right.tail)
  | unbound => exact Expr.survivesOption_none
  | bound _ ih => exact (ih hin).option
  | arg _ ih => exact ⟨rfl, rfl, _, rfl, ih hin⟩
  | empty => exact trivial
  | last _ ih => exact ⟨ih hin, trivial⟩
  | next _ _ _ ih ihr => exact ⟨ih hin.left, ihr hin.right.tail⟩
  -- parts of statements
  | _ => exact trivial

/-! ## Built expressions -/

/-- The parser builds the expression from the text, in which every string literal is UTF-8. -/
def SourceFile.Builds (f : SourceFile) (e : Expr) : Prop :=
  ∃ tokens, f.tokenize = .ok tokens ∧ (∀ t ∈ tokens, t.kind = .stringLiteral → Text.isUtf8 t.value = true) ∧
    e ∈ (f.parseStatements tokens {}).2.forest.exprs.toList

theorem SourceFile.Builds.survives {f : SourceFile} {e : Expr} (h : f.Builds e) : e.Survives := by
  obtain ⟨tokens, htokens, hutf8, he⟩ := h
  obtain ⟨ts, hin, hderives⟩ := (f.parseStatements_isSound tokens).exprs e he
  have hlegible := SourceFile.legible_of_tokenize htokens
  -- the parser adds a token for the end, which is no part of an expression
  have hmem : ∀ t ∈ significant tokens ++ [f.endToken], t.kind ≠ .eof → t ∈ tokens := by
    intro t ht hkind
    rcases List.mem_append.mp ht with ht | ht
    · exact List.mem_of_mem_filter ht
    · obtain rfl := List.mem_singleton.mp ht
      exact absurd rfl hkind
  refine hderives.survives ⟨?_, ?_⟩ ?_ hin
  · exact fun t ht hkind => hlegible.names t (hmem t ht (by simp [hkind])) hkind
  · exact fun t ht hkind => hlegible.numbers t (hmem t ht (by simp [hkind])) hkind
  · exact fun t ht hkind => hutf8 t (hmem t ht (by simp [hkind])) hkind

/-- Whether the file builds an expression that passes a test. -/
def SourceFile.buildsSome (f : SourceFile) (test : Expr → Bool) : Bool :=
  match f.tokenize with
  | .error _ => false
  | .ok tokens =>
    (tokens.all fun t => t.kind != .stringLiteral || Text.isUtf8 t.value)
      && (f.parseStatements tokens {}).2.forest.exprs.toList.any test

theorem SourceFile.buildsSome_iff {f : SourceFile} {test : Expr → Bool} :
    f.buildsSome test = true ↔ ∃ e, f.Builds e ∧ test e = true := by
  unfold buildsSome Builds
  cases f.tokenize with
  | error fault => simp
  | ok tokens =>
    simp only [Bool.and_eq_true, List.all_eq_true, List.any_eq_true, Bool.or_eq_true, bne_iff_ne, ne_eq,
      ← Decidable.imp_iff_not_or, Except.ok.injEq, exists_eq_left']
    constructor
    · rintro ⟨hutf8, e, he, htest⟩
      exact ⟨e, ⟨hutf8, he⟩, htest⟩
    · rintro ⟨e, ⟨hutf8, he⟩, htest⟩
      exact ⟨hutf8, e, he, htest⟩

/-- Every expression that the parser builds is emitted, and two of them have the same text only if they are the same, but
for their places and for the sides of increments and decrements. -/
theorem Expr.emission_injective {f f' : SourceFile} {e e' : Expr} (he : f.Builds e) (he' : f'.Builds e') :
    (∃ text, Emit.expr e = .ok text) ∧ (Emit.expr e = Emit.expr e' → e.gist = e'.gist) := by
  obtain ⟨text, htext, hdenotes⟩ := he.survives
  obtain ⟨text', htext', hdenotes'⟩ := he'.survives
  refine ⟨⟨text, htext⟩, fun heq => ?_⟩
  rw [htext, htext'] at heq
  cases heq
  exact Option.some.inj (hdenotes.readBack.symm.trans hdenotes'.readBack)

/-- An increment of an item of `s` whose key has marks in it. -/
def quotedMarks (n m k l : Node) (behind : Bool) : Expr :=
  .unary n "++" (.index m (.ident k "s") (.literal l .string "](),")) behind

def isQuotedMarks (side : Bool) : Expr → Bool
  | .unary _ symbol (.index _ (.ident _ name) (.literal _ kind value)) behind =>
    symbol = "++" && name = "s" && kind = .string && value = "]()," && behind == side
  | _ => false

theorem exists_quotedMarks {side : Bool} {e : Expr} (h : isQuotedMarks side e = true) :
    ∃ n m k l, e = quotedMarks n m k l side := by
  unfold isQuotedMarks at h
  split at h
  · simp only [Bool.and_eq_true, decide_eq_true_eq, beq_iff_eq] at h
    obtain ⟨⟨⟨⟨rfl, rfl⟩, rfl⟩, rfl⟩, rfl⟩ := h
    exact ⟨_, _, _, _, rfl⟩
  · cases h

/-- The marks in the string do not mislead, and the side is lost. -/
theorem quotedMarks_sideLost :
    ∃ e e' : Expr, (SourceFile.mk 1 "a.uns" "f(s[\"](),\"]++)" 0).Builds e ∧
      (SourceFile.mk 1 "a.uns" "f(++s[\"](),\"])" 0).Builds e' ∧ Emit.expr e = Emit.expr e' ∧ e.gist = e'.gist ∧
      e.unplaced ≠ e'.unplaced := by
  obtain ⟨e, he, htest⟩ := SourceFile.buildsSome_iff.mp
    (show (SourceFile.mk 1 "a.uns" "f(s[\"](),\"]++)" 0).buildsSome (isQuotedMarks true) = true by decide +kernel)
  obtain ⟨e', he', htest'⟩ := SourceFile.buildsSome_iff.mp
    (show (SourceFile.mk 1 "a.uns" "f(++s[\"](),\"])" 0).buildsSome (isQuotedMarks false) = true by decide +kernel)
  obtain ⟨n, m, k, l, rfl⟩ := exists_quotedMarks htest
  obtain ⟨n', m', k', l', rfl⟩ := exists_quotedMarks htest'
  have hsame : Emit.expr (quotedMarks n m k l true) = Emit.expr (quotedMarks n' m' k' l' false) := by
    simp only [quotedMarks, Emit.expr, Emit.argument]
  refine ⟨_, _, he, he', hsame, (Expr.emission_injective he he').2 hsame, ?_⟩
  simp [quotedMarks, Expr.unplaced]

end Bracescript
