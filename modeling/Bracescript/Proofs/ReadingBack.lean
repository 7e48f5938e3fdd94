import Bracescript.Proofs.EmittedText
import Bracescript.Proofs.StringLiterals
import Bracescript.Proofs.Unplaced

/-!
# Reading emitted code back

The emitted text of an expression is a value with calls of the library behind it, and no parentheses show what belongs
together. It can be read back nevertheless: a reader goes over the pieces of the text, and at each closing parenthesis it
puts together what stands before the parentheses and what stands inside.
-/

namespace Bracescript.Target

/-! ## What is put together -/

/-- What stands where emitted code has a value. -/
inductive Operand where
  | expr (e : Expr)
  /-- The name of a field, in quotes. -/
  | field (name : Bytes)
  | absent

/-- A piece, or a value that has been put together already. -/
inductive Chunk where
  | piece (p : Piece)
  | value (e : Expr)

/-- The value of an emitted literal. -/
def unquote (text : Bytes) : Bytes :=
  match Lexeme.readString 0x22 1 text.tail with
  | .ok (value, _) => value
  | .error _ => []

/-- What some chunks stand for; the last one is first. -/
def operand? : List Chunk → Option Operand
  | [.value e] => some (.expr e)
  | [.piece (.word w)] => some (if w = "undefined" then .absent else .expr (.ident .blank w.tail))
  | [.piece (.literal text)] => some (.field (unquote text))
  | _ => none

/-- What a call through a key is. -/
inductive Form where
  | unary (symbol : Bytes)
  | binary (symbol : Bytes)
  | choose
  | member
  | call
  | index
  | slice
  deriving DecidableEq

def forms : List (Bytes × Form) :=
  unaryKeys.map (fun (symbol, key) => (Bytes.ofString key, .unary (Bytes.ofString symbol)))
    ++ binaryKeys.map (fun (symbol, key) => (Bytes.ofString key, .binary (Bytes.ofString symbol)))
    ++ [(choose, .choose), (getAttr, .member), (call, .call), (getItem, .index), (getSlice, .slice)]

def formOf? (key : Bytes) : Option Form := forms.lookup key

def Operand.expr? : Operand → Option Expr
  | .expr e => some e
  | _ => none

theorem Operand.mapM_expr (es : List Expr) : (es.map Operand.expr).mapM Operand.expr? = some es := by
  induction es with
  | nil => rfl
  | cons e es ih => simp [Operand.expr?, ih]

/-- A bound of a slice, which may be left out. -/
def Operand.bound? : Operand → Option (Option Expr)
  | .expr e => some (some e)
  | .absent => some none
  | .field _ => none

def Form.build? (target : Expr) : Form → List Operand → Option Expr
  | .unary symbol, [] => some (.unary .blank symbol target false)
  | .binary symbol, [.expr right] => some (.binary .blank symbol target right)
  | .choose, [.expr yes, .expr no] => some (.ternary .blank target yes no)
  | .member, [.field name] => some (.member .blank target name)
  | .call, args => (args.mapM Operand.expr?).map fun es => .call .blank target (es.map fun e => { value := some e })
  | .index, [.expr key] => some (.index .blank target key)
  | .slice, [start, stop] => do return .slice .blank target (← start.bound?) (← stop.bound?)
  | _, _ => none

def kindOfMaker? (maker : Bytes) : Option LiteralKind := LiteralKind.all.find? fun kind => constructor? kind = some maker

/-- The digits of a number without the `n` of its kind. -/
def digitsOf (kind : LiteralKind) (digits : Bytes) : Bytes := if takesBigint kind then digits.dropLast else digits

/-- The value that a literal of this kind is made of. -/
def made? (kind : LiteralKind) : List Chunk → Option Bytes
  | [.piece (.literal text)] => some (unquote text)
  | [.piece (.numeral digits)] => some (digitsOf kind digits)
  | [.piece (.numeral digits), .piece (.mark sign)] => some (sign :: digitsOf kind digits)
  | _ => none

/-- Puts together the chunks before a pair of parentheses and the arguments inside: the maker of a literal and its value,
or a target with a key behind it and its operands. -/
def together? : List Chunk → List (List Chunk) → Option Expr
  | [.piece (.word maker)], [payload] => do
    let kind ← kindOfMaker? maker
    return .literal .blank kind (← made? kind payload)
  | _ :: .piece (.word key) :: _ :: _ :: _ :: target, args => do
    let target ← (← operand? target).expr?
    (← formOf? key).build? target (← args.mapM operand?)
  | _, _ => none

/-! ## The reader -/

/-- The inside of a pair of parentheses: the arguments that are complete, and the chunks of the one at hand. In both, the
last one is first. -/
structure Inner where
  done : List (List Chunk) := []
  chunks : List Chunk := []

def Inner.args (l : Inner) : List (List Chunk) :=
  if l.done.isEmpty && l.chunks.isEmpty then [] else (l.chunks :: l.done).reverse

structure Reader where
  here : Inner := {}
  /-- What stands before the parentheses that are open, the innermost first. -/
  outer : List Inner := []

def Reader.shift (r : Reader) (p : Piece) : Reader :=
  { r with here := { r.here with chunks := .piece p :: r.here.chunks } }

def Reader.step (r : Reader) (p : Piece) : Option Reader :=
  if p = .mark (Bytes.ascii '(') then some ⟨{}, r.here :: r.outer⟩
  else if p = .mark (Bytes.ascii ',') then some { r with here := ⟨r.here.chunks :: r.here.done, []⟩ }
  else if p = .mark (Bytes.ascii ')') then
    match r.outer with
    | [] => none
    | before :: outer => (together? before.chunks r.here.args).map fun e => ⟨⟨before.done, [.value e]⟩, outer⟩
  else some (r.shift p)

def Reader.run (r : Reader) (ps : List Piece) : Option Reader := ps.foldlM Reader.step r

/-- The expression that a text is emitted for. -/
def readBack? (text : Bytes) : Option Expr := do
  let r ← Reader.run {} (pieces text)
  (← operand? r.here.chunks).expr?

theorem Reader.run_append (r : Reader) (ps qs : List Piece) : r.run (ps ++ qs) = (r.run ps).bind fun r' => r'.run qs :=
  List.foldlM_append

theorem Reader.run_cons (r : Reader) (p : Piece) (ps : List Piece) :
    r.run (p :: ps) = (r.step p).bind fun r' => r'.run ps :=
  List.foldlM_cons

/-- A piece that is no parenthesis and no comma. -/
def Piece.IsInner (p : Piece) : Prop :=
  p ≠ .mark (Bytes.ascii '(') ∧ p ≠ .mark (Bytes.ascii ',') ∧ p ≠ .mark (Bytes.ascii ')')

instance : DecidablePred Piece.IsInner := fun _ => inferInstanceAs (Decidable (_ ∧ _ ∧ _))

theorem Reader.run_inner {done : List (List Chunk)} {chunks : List Chunk} {outer : List Inner} {ps : List Piece}
    (h : ∀ p ∈ ps, p.IsInner) :
    Reader.run ⟨⟨done, chunks⟩, outer⟩ ps = some ⟨⟨done, (ps.map .piece).reverse ++ chunks⟩, outer⟩ := by
  induction ps generalizing chunks with
  | nil => rfl
  | cons p ps ih =>
    obtain ⟨hp, hps⟩ := List.forall_mem_cons.mp h
    rw [run_cons, step, if_neg hp.1, if_neg hp.2.1, if_neg hp.2.2, Option.bind_some, shift, ih hps]
    simp

/-! ## Texts and their pieces -/

/-- The pieces of a selector. -/
def selector (key : Bytes) : List Piece :=
  [.mark 0x5b, .word symbols, .mark (Bytes.ascii '.'), .word key, .mark 0x5d]

theorem CutsInto.select {text key : Bytes} {ps : List Piece} (h : CutsInto text ps) (hkey : key ∈ dispatchKeys) :
    CutsInto (text ++ select key) (ps ++ selector key) := by
  have hbrackets := (h.mark (m := 0x5b) (by decide) (cutsInto_key hkey)).mark (m := 0x5d) (by decide) cutsInto_nil
  simpa [select_eq, selector] using hbrackets

theorem CutsInto.parens {a b : Bytes} {ps qs : List Piece} (ha : CutsInto a ps) (hb : CutsInto b qs) :
    CutsInto (a ++ "(" ++ b ++ ")") (ps ++ .mark (Bytes.ascii '(') :: qs ++ [.mark (Bytes.ascii ')')]) := by
  have hparens := (ha.mark (m := Bytes.ascii '(') (by decide) hb).mark (m := Bytes.ascii ')') (by decide) cutsInto_nil
  have htext : a ++ "(" ++ b ++ ")" = a ++ Bytes.ascii '(' :: b ++ Bytes.ascii ')' :: [] := by
    simp only [List.append_assoc]
    rfl
  rwa [htext]

theorem CutsInto.comma {a b : Bytes} {ps qs : List Piece} (ha : CutsInto a ps) (hb : CutsInto b qs) :
    CutsInto (a ++ "," ++ b) (ps ++ .mark (Bytes.ascii ',') :: qs) := by
  have htext : a ++ "," ++ b = a ++ Bytes.ascii ',' :: b := by
    rw [List.append_assoc]
    rfl
  rw [htext]
  exact ha.mark (by decide) hb

/-! ## Texts that are read -/

/-- The text is read as these chunks, wherever an argument begins. -/
def Loads (text : Bytes) (chunks : List Chunk) : Prop :=
  ∃ ps, CutsInto text ps ∧ ∀ done outer, Reader.run ⟨⟨done, []⟩, outer⟩ ps = some ⟨⟨done, chunks⟩, outer⟩

/-- Behind an open parenthesis the text is read as these arguments. -/
def Lists (text : Bytes) (args : List (List Chunk)) : Prop :=
  ∃ ps, CutsInto text ps ∧ ∀ outer, ∃ l, Reader.run ⟨{}, outer⟩ ps = some ⟨l, outer⟩ ∧ l.args = args

theorem loads_inner {text : Bytes} {ps : List Piece} (hcuts : CutsInto text ps) (h : ∀ p ∈ ps, p.IsInner) :
    Loads text (ps.map .piece).reverse := by
  refine ⟨ps, hcuts, fun done outer => ?_⟩
  rw [Reader.run_inner h, List.append_nil]

theorem loads_word {w : Bytes} (h : isWordText w = true) : Loads w [.piece (.word w)] :=
  loads_inner (cutsInto_word h) (by simp [Piece.IsInner])

theorem loads_quote (v : Bytes) : Loads (quote v) [.piece (.literal (quote v))] := by
  have hcuts : CutsInto (quote v) [.literal (quote v)] := fun rest _ => pieces_literal v rest
  exact loads_inner hcuts (by simp [Piece.IsInner])

theorem loads_numeral {digits : Bytes} (h : IsNumeralText digits) : Loads digits [.piece (.numeral digits)] :=
  loads_inner (cutsInto_numeral h) (by simp [Piece.IsInner])

theorem loads_negative {digits : Bytes} (h : IsNumeralText digits) :
    Loads ("-" ++ digits) [.piece (.numeral digits), .piece (.mark (Bytes.ascii '-'))] := by
  have hcuts := cutsInto_nil.mark (m := Bytes.ascii '-') (by decide) (cutsInto_numeral h)
  refine loads_inner hcuts (List.forall_mem_cons.mpr ⟨by decide, ?_⟩)
  simp [Piece.IsInner]

/-- A selector stands behind what its target is read as. -/
theorem Loads.select {text key : Bytes} {chunks : List Chunk} (h : Loads text chunks) (hkey : key ∈ dispatchKeys) :
    Loads (text ++ select key) (((selector key).map .piece).reverse ++ chunks) := by
  obtain ⟨ps, hcuts, hrun⟩ := h
  refine ⟨_, hcuts.select hkey, fun done outer => ?_⟩
  rw [Reader.run_append, hrun, Option.bind_some]
  refine Reader.run_inner ?_
  simp only [selector, List.forall_mem_cons, List.not_mem_nil]
  refine ⟨by decide, by simp [Piece.IsInner], by decide, by simp [Piece.IsInner], by decide, by simp⟩

/-- What stands before parentheses and what stands inside are put together. -/
theorem Loads.call {text inside : Bytes} {chunks : List Chunk} {args : List (List Chunk)} {e : Expr}
    (htext : Loads text chunks) (hinside : Lists inside args) (h : together? chunks args = some e) :
    Loads (text ++ "(" ++ inside ++ ")") [.value e] := by
  obtain ⟨ps, hcuts, hrun⟩ := htext
  obtain ⟨qs, hcuts', hrun'⟩ := hinside
  refine ⟨_, hcuts.parens hcuts', fun done outer => ?_⟩
  obtain ⟨l, hl, rfl⟩ := hrun' (⟨done, chunks⟩ :: outer)
  have hopen : Reader.step ⟨⟨done, chunks⟩, outer⟩ (.mark (Bytes.ascii '(')) = some ⟨{}, ⟨done, chunks⟩ :: outer⟩ := rfl
  have hclose : Reader.step ⟨l, ⟨done, chunks⟩ :: outer⟩ (.mark (Bytes.ascii ')')) =
      some ⟨⟨done, [.value e]⟩, outer⟩ := by
    show (together? chunks l.args).map _ = _
    rw [h]
    rfl
  rw [List.append_assoc, Reader.run_append, hrun, Option.bind_some, List.cons_append, Reader.run_cons, hopen,
    Option.bind_some, Reader.run_append, hl, Option.bind_some, Reader.run_cons, hclose]
  rfl

theorem lists_nil : Lists [] [] := ⟨[], cutsInto_nil, fun _ => ⟨{}, rfl, rfl⟩⟩

theorem exists_run_join {texts : List Bytes} {args : List (List Chunk)} (h : List.Forall₂ Loads texts args)
    (hne : args ≠ []) :
    ∃ ps, CutsInto (Bytes.join "," texts) ps ∧ ∀ done outer, ∃ l,
      Reader.run ⟨⟨done, []⟩, outer⟩ ps = some ⟨l, outer⟩ ∧ (l.chunks :: l.done).reverse = done.reverse ++ args := by
  unfold Bytes.join
  induction h with
  | nil => exact absurd rfl hne
  | @cons text chunks texts args htext hrest ih =>
    obtain ⟨ps, hcuts, hrun⟩ := htext
    cases hrest with
    | nil =>
      refine ⟨ps, by simpa using hcuts, fun done outer => ⟨⟨done, chunks⟩, hrun done outer, by simp⟩⟩
    | @cons text' chunks' texts' args' htext' hrest' =>
      obtain ⟨qs, hcuts', hrun'⟩ := ih (by simp)
      refine ⟨ps ++ .mark (Bytes.ascii ',') :: qs, ?_, fun done outer => ?_⟩
      · rw [List.intercalate_cons_cons]
        exact hcuts.comma hcuts'
      · obtain ⟨l, hl, hargs⟩ := hrun' (chunks :: done) outer
        have hcomma : Reader.step ⟨⟨done, chunks⟩, outer⟩ (.mark (Bytes.ascii ',')) =
            some ⟨⟨chunks :: done, []⟩, outer⟩ := rfl
        refine ⟨l, ?_, by simpa using hargs⟩
        rw [Reader.run_append, hrun, Option.bind_some, Reader.run_cons, hcomma, Option.bind_some, hl]

/-- Texts with commas between them are read as one argument each. -/
theorem lists_join {texts : List Bytes} {args : List (List Chunk)} (h : List.Forall₂ Loads texts args)
    (hne : [] ∉ args) : Lists (Bytes.join "," texts) args := by
  cases args with
  | nil =>
    cases h
    exact lists_nil
  | cons chunks args =>
    obtain ⟨ps, hcuts, hrun⟩ := exists_run_join h (by simp)
    refine ⟨ps, hcuts, fun outer => ?_⟩
    obtain ⟨l, hl, hargs⟩ := hrun [] outer
    refine ⟨l, hl, ?_⟩
    rw [Inner.args, if_neg ?_, hargs]
    · rfl
    · -- nothing at all would be one argument without chunks
      intro hempty
      rw [Bool.and_eq_true, List.isEmpty_iff, List.isEmpty_iff] at hempty
      simp [hempty] at hargs
      exact hne (by simp [hargs.1])

theorem join_one (a : Bytes) : Bytes.join "," [a] = a := by simp [Bytes.join]

theorem join_two (a b : Bytes) : Bytes.join "," [a, b] = a ++ "," ++ b := by simp [Bytes.join]

theorem lists_one {text : Bytes} {chunks : List Chunk} (h : Loads text chunks) (hne : chunks ≠ []) :
    Lists text [chunks] := by
  have hlists := lists_join (.cons h .nil) (by simpa using hne.symm)
  rwa [join_one] at hlists

/-! ## Operands -/

/-- The text is read as this operand, wherever it stands. -/
def Denotes (text : Bytes) (o : Operand) : Prop := ∃ chunks, Loads text chunks ∧ operand? chunks = some o

theorem Denotes.readBack {text : Bytes} {e : Expr} (h : Denotes text (.expr e)) : readBack? text = some e := by
  obtain ⟨chunks, ⟨ps, hcuts, hrun⟩, hoperand⟩ := h
  have hpieces := hcuts [] fun b hb => absurd hb (by simp)
  rw [List.append_nil, pieces, List.append_nil] at hpieces
  have hreader : Reader.run {} ps = some ⟨⟨[], chunks⟩, []⟩ := hrun [] []
  simp [readBack?, hpieces, hreader, hoperand, Operand.expr?]

theorem denotes_name {name : Bytes} (h : name.all Lexeme.isNamePart = true) :
    Denotes (userName name) (.expr (.ident .blank name)) := by
  refine ⟨_, loads_word (isWordText_userName h), ?_⟩
  have hne : userName name ≠ "undefined" := by
    intro heq
    have hfirst : some (Bytes.ascii '$') = List.head? ("undefined" : Bytes) := congrArg List.head? heq
    revert hfirst
    decide
  rw [operand?, if_neg hne]
  rfl

theorem unquote_quote {v : Bytes} (h : Text.isUtf8 v = true) : unquote (quote v) = v := by
  obtain ⟨text, hquote, hmeans⟩ := Lexeme.means_quote v
  rw [(Text.mended_glyphs v).eq_of_isUtf8 h] at hmeans
  rw [unquote, hquote, List.cons_append, List.tail_cons, Lexeme.readString_of_means hmeans]

theorem denotes_quote {v : Bytes} (h : Text.isUtf8 v = true) : Denotes (quote v) (.field v) := by
  refine ⟨_, loads_quote v, ?_⟩
  rw [operand?, unquote_quote h]

theorem isUtf8_of_name {name : Bytes} (h : name.all Lexeme.isNamePart = true) : Text.isUtf8 name = true := by
  rw [List.all_eq_true] at h
  refine Text.isUtf8_of_ascii fun b hb => ?_
  have hpart := h b hb
  have hunderscore : (Bytes.ascii '_').toNat = 0x5f := rfl
  have hdollar : (Bytes.ascii '$').toNat = 0x24 := rfl
  simp only [Lexeme.isNamePart, Lexeme.isNameStart, Bytes.isLetter, Bytes.isUpper, Bytes.isLower, Bytes.isDigit,
    Bool.or_eq_true, Bool.and_eq_true, decide_eq_true_eq, beq_iff_eq, UInt8.le_iff_toNat_le, ← UInt8.toNat_inj] at hpart
  simp only [UInt8.reduceToNat] at hpart
  omega

theorem denotes_undefined : Denotes "undefined" .absent := ⟨_, loads_word (by decide), rfl⟩

theorem forms_known {key : Bytes} {form : Form} (h : (key, form) ∈ forms) :
    key ∈ dispatchKeys ∧ formOf? key = some form := by
  have htable : ∀ row ∈ forms, row.1 ∈ dispatchKeys ∧ formOf? row.1 = some row.2 := by decide +kernel
  exact htable _ h

theorem mem_forms_of_unary {symbol key : Bytes} (h : unaryKey? symbol = some key) : (key, .unary symbol) ∈ forms := by
  obtain ⟨row, hrow, rfl, rfl⟩ := exists_row h
  exact List.mem_append_left _ (List.mem_append_left _ (List.mem_map.mpr ⟨row, hrow, rfl⟩))

theorem mem_forms_of_binary {symbol key : Bytes} (h : binaryKey? symbol = some key) : (key, .binary symbol) ∈ forms := by
  obtain ⟨row, hrow, rfl, rfl⟩ := exists_row h
  exact List.mem_append_left _ (List.mem_append_right _ (List.mem_map.mpr ⟨row, hrow, rfl⟩))

theorem exists_loads {texts : List Bytes} {os : List Operand} (h : List.Forall₂ Denotes texts os) :
    ∃ args, List.Forall₂ Loads texts args ∧ args.mapM operand? = some os ∧ [] ∉ args := by
  induction h with
  | nil => exact ⟨[], .nil, rfl, by simp⟩
  | cons hdenotes _ ih =>
    obtain ⟨chunks, hloads, hoperand⟩ := hdenotes
    obtain ⟨args, hargs, hoperands, hne⟩ := ih
    refine ⟨chunks :: args, .cons hloads hargs, by simp [hoperand, hoperands], ?_⟩
    have hchunks : chunks ≠ [] := by
      rintro rfl
      cases hoperand
    simp [hne, hchunks.symm]

/-- A call through a key denotes what the form of the key makes of the target and the arguments. -/
theorem Denotes.invoke {target : Bytes} {t e : Expr} {key : Bytes} {form : Form} {texts : List Bytes} {os : List Operand}
    (htarget : Denotes target (.expr t)) (hform : (key, form) ∈ forms) (hargs : List.Forall₂ Denotes texts os)
    (hbuild : form.build? t os = some e) :
    Denotes (target ++ select key ++ "(" ++ Bytes.join "," texts ++ ")") (.expr e) := by
  obtain ⟨chunks, hloads, hoperand⟩ := htarget
  obtain ⟨args, hargs, hoperands, hne⟩ := exists_loads hargs
  obtain ⟨hkey, hknown⟩ := forms_known hform
  refine ⟨_, (hloads.select hkey).call (lists_join hargs hne) ?_, rfl⟩
  simp [selector, together?, hoperand, hoperands, hknown, hbuild, Operand.expr?]

theorem kindOfMaker_eq {kind : LiteralKind} {maker : Bytes} (h : constructor? kind = some maker) :
    kindOfMaker? maker = some kind := by
  cases kind with
  | unknown => cases h
  | _ =>
    cases h
    decide +kernel

theorem denotes_literal {kind : LiteralKind} {maker payload value : Bytes} {chunks : List Chunk}
    (hmaker : constructor? kind = some maker) (hloads : Loads payload chunks) (hmade : made? kind chunks = some value) :
    Denotes (maker ++ "(" ++ payload ++ ")") (.expr (.literal .blank kind value)) := by
  have hword : isWordText maker = true := by
    have htable : ∀ w ∈ exports, isWordText w = true := by decide
    exact htable maker (Emit.maker_mem_exports hmaker)
  have hne : chunks ≠ [] := by
    rintro rfl
    cases hmade
  refine ⟨_, (loads_word hword).call (lists_one hloads hne) ?_, rfl⟩
  simp [together?, kindOfMaker_eq hmaker, hmade]

theorem denotes_string {maker v : Bytes} (hmaker : constructor? .string = some maker) (h : Text.isUtf8 v = true) :
    Denotes (maker ++ "(" ++ quote v ++ ")") (.expr (.literal .blank .string v)) := by
  refine denotes_literal hmaker (loads_quote v) ?_
  rw [made?, unquote_quote h]

theorem denotes_number {kind : LiteralKind} {maker value : Bytes} (hmaker : constructor? kind = some maker)
    (hvalue : IsSignedNumeral value) (hpoint : takesBigint kind = true → Bytes.ascii '.' ∉ value) :
    Denotes (maker ++ "(" ++ (if takesBigint kind then value ++ "n" else value) ++ ")")
      (.expr (.literal .blank kind value)) := by
  obtain ⟨sign, hsign, digits, rfl, hdigits⟩ := hvalue
  -- the digits with what stands behind them for this kind
  obtain ⟨written, htext, hwritten, hback⟩ : ∃ written, (if takesBigint kind then sign ++ digits ++ "n" else sign ++ digits)
      = sign ++ written ∧ IsNumeralText written ∧ digitsOf kind written = digits := by
    unfold digitsOf
    split
    · rename_i hbigint
      refine ⟨digits ++ "n", by simp, ?_, ?_⟩
      · exact Emit.isNumeralText_append hdigits fun hmem => hpoint hbigint (List.mem_append_right _ hmem)
      · exact List.dropLast_concat
    · exact ⟨digits, rfl, hdigits, rfl⟩
  rw [htext]
  simp only [List.mem_cons, List.not_mem_nil, or_false] at hsign
  rcases hsign with rfl | rfl
  · exact denotes_literal hmaker (loads_numeral hwritten) (by simp [made?, hback])
  · exact denotes_literal hmaker (loads_negative hwritten) (by rw [made?, hback]; rfl)

end Bracescript.Target
