import Mathlib.Data.Bool.AllAny
import Bracescript.Lexer.Lexeme
import Bracescript.Target.Module

/-!
# Texts of the target language

Two scanners of emitted text, one that matches delimiters and one that cuts a text into pieces, and a grammar whose
texts both of them read: words, numerals and string literals that separators and delimiters keep apart.
-/

namespace Bracescript.Target

/-! ## Matching delimiters -/

inductive ScanMode where
  | code
  /-- In a string literal. -/
  | literal
  /-- Behind a backslash in a string literal. -/
  | escape
  deriving DecidableEq

structure Scan where
  /-- The closing delimiters that are due, the innermost first. -/
  due : List UInt8 := []
  mode : ScanMode := .code
  deriving DecidableEq

/-- The delimiter that closes what `b` opens. -/
def closing? (b : UInt8) : Option UInt8 :=
  if b = 0x28 then some 0x29 else if b = 0x5b then some 0x5d else if b = 0x7b then some 0x7d else none

def isClosing (b : UInt8) : Bool := b == 0x29 || b == 0x5d || b == 0x7d

/-- Refuses a control character in a literal and a closing delimiter that is not due. -/
def Scan.step (s : Scan) (b : UInt8) : Option Scan :=
  match s.mode with
  | .literal =>
    if b < 0x20 then none
    else if b = 0x22 then some { s with mode := .code }
    else if b = 0x5c then some { s with mode := .escape }
    else some s
  | .escape => if b < 0x20 then none else some { s with mode := .literal }
  | .code =>
    if b = 0x22 then some { s with mode := .literal }
    else
      match closing? b with
      | some c => some { s with due := c :: s.due }
      | none =>
        if isClosing b then if s.due.head? = some b then some { s with due := s.due.tail } else none
        else some s

def Scan.run (s : Scan) (text : Bytes) : Option Scan := text.foldlM Scan.step s

/-- Every literal of the text is closed and every delimiter meets its match. -/
def IsClosed (text : Bytes) : Prop := Scan.run {} text = some {}

instance : DecidablePred IsClosed := fun _ => inferInstanceAs (Decidable (_ = _))

/-! ## Cutting into pieces -/

inductive Piece where
  | word (text : Bytes)
  | numeral (text : Bytes)
  /-- A string literal with its quotes. -/
  | literal (text : Bytes)
  | mark (b : UInt8)
  deriving DecidableEq

namespace Piece

def text : Piece → Bytes
  | word w | numeral w | literal w => w
  | mark b => [b]

/-- A byte of a word; one outside of ASCII is taken to be a letter. -/
def isWordByte (b : UInt8) : Bool := Lexeme.isNamePart b || 0x80 ≤ b

theorem isWordByte_of_digit {b : UInt8} (h : Bytes.isDigit b = true) : isWordByte b = true := by
  simp [isWordByte, Lexeme.isNamePart, h]

theorem isDigit_eq_false {b : UInt8} (h : isWordByte b = false) : Bytes.isDigit b = false := by
  simp only [isWordByte, Lexeme.isNamePart, Bool.or_eq_false_iff] at h
  exact h.1.2

/-- The rest of a string literal up to its closing quote; a byte behind a backslash closes nothing. -/
def literalTail (escaped : Bool) : Bytes → Bytes
  | [] => []
  | b :: rest => if b = 0x22 && !escaped then [b] else b :: literalTail (b = 0x5c && !escaped) rest

/-- The rest of a numeral: letters and digits, then perhaps a fraction. -/
def numeralTail (rest : Bytes) : Bytes :=
  rest.takeWhile isWordByte ++ Lexeme.fraction (rest.dropWhile isWordByte)

def front (b : UInt8) (rest : Bytes) : Piece :=
  if Bytes.isDigit b then numeral (b :: numeralTail rest)
  else if isWordByte b then word (b :: rest.takeWhile isWordByte)
  else if b = 0x22 then literal (b :: literalTail false rest)
  else mark b

end Piece

def pieces : Bytes → List Piece
  | [] => []
  | b :: rest => Piece.front b rest :: pieces (rest.drop ((Piece.front b rest).text.length - 1))
termination_by text => text.length

namespace Piece

theorem literalTail_isPrefix (escaped : Bool) (rest : Bytes) : literalTail escaped rest <+: rest := by
  fun_induction literalTail escaped rest with
  | case1 => exact List.prefix_rfl
  | case2 => exact ⟨_, rfl⟩
  | case3 escaped b rest h ih => exact (List.prefix_cons_inj b).mpr ih

theorem fraction_isPrefix (rest : Bytes) : Lexeme.fraction rest <+: rest := by
  unfold Lexeme.fraction
  split
  · split
    · exact (List.prefix_cons_inj _).mpr ((List.prefix_cons_inj _).mpr (List.takeWhile_prefix _))
    · exact List.nil_prefix
  · exact List.nil_prefix

theorem numeralTail_isPrefix (rest : Bytes) : numeralTail rest <+: rest := by
  have h := (List.prefix_append_right_inj (rest.takeWhile isWordByte)).mpr
    (fraction_isPrefix (rest.dropWhile isWordByte))
  rwa [List.takeWhile_append_dropWhile] at h

theorem front_text (b : UInt8) (rest : Bytes) : ∃ more, (front b rest).text = b :: more ∧ more <+: rest := by
  unfold front
  split
  · exact ⟨_, rfl, numeralTail_isPrefix rest⟩
  split
  · exact ⟨_, rfl, List.takeWhile_prefix _⟩
  split
  · exact ⟨_, rfl, literalTail_isPrefix false rest⟩
  · exact ⟨[], rfl, List.nil_prefix⟩

end Piece

theorem pieces_text (text : Bytes) : (pieces text).flatMap Piece.text = text := by
  fun_induction pieces text with
  | case1 => rfl
  | case2 b rest ih =>
    obtain ⟨more, htext, later, rfl⟩ := Piece.front_text b rest
    rw [htext] at ih
    simp only [List.length_cons, Nat.add_sub_cancel, List.drop_left] at ih
    rw [List.flatMap_cons, htext]
    simp [ih]

theorem pieces_append {b : UInt8} {more rest : Bytes} {x : Piece} (h : Piece.front b (more ++ rest) = x)
    (htext : x.text = b :: more) : pieces (b :: more ++ rest) = x :: pieces rest := by
  rw [List.cons_append, pieces, h, htext]
  simp

/-! ## String literals -/

/-- A byte that stands for itself in a literal. -/
def IsPlain (b : UInt8) : Prop := ¬b < 0x20 ∧ b ≠ 0x22 ∧ b ≠ 0x5c

instance : DecidablePred IsPlain := fun _ => inferInstanceAs (Decidable (_ ∧ _))

/-- What can stand between the quotes of a literal: plain bytes, and a backslash with any byte but a control. -/
inductive IsLiteralBody : Bytes → Prop
  | nil : IsLiteralBody []
  | plain {b : UInt8} {rest : Bytes} (is_plain : IsPlain b) (next : IsLiteralBody rest) : IsLiteralBody (b :: rest)
  | escape {b : UInt8} {rest : Bytes} (visible : ¬b < 0x20) (next : IsLiteralBody rest) :
    IsLiteralBody (0x5c :: b :: rest)

namespace IsLiteralBody

variable {a b : Bytes}

theorem append (ha : IsLiteralBody a) (hb : IsLiteralBody b) : IsLiteralBody (a ++ b) := by
  induction ha with
  | nil => exact hb
  | plain is_plain _ ih => exact plain is_plain ih
  | escape visible _ ih => exact escape visible ih

theorem of_plain (h : ∀ x ∈ a, IsPlain x) : IsLiteralBody a := by
  induction a with
  | nil => exact nil
  | cons x rest ih =>
    obtain ⟨hx, hrest⟩ := List.forall_mem_cons.mp h
    exact plain hx (ih hrest)

theorem flatMap {α : Type} {f : α → Bytes} {xs : List α} (h : ∀ x, IsLiteralBody (f x)) :
    IsLiteralBody (xs.flatMap f) := by
  induction xs with
  | nil => exact nil
  | cons x xs ih => exact (h x).append ih

theorem run (h : IsLiteralBody a) (due : List UInt8) : Scan.run ⟨due, .literal⟩ a = some ⟨due, .literal⟩ := by
  unfold Scan.run
  induction h with
  | nil => rfl
  | plain is_plain _ ih => simp [Scan.step, is_plain.1, is_plain.2.1, is_plain.2.2, ih]
  | escape visible _ ih => simp [Scan.step, visible, ih]

/-- No part of a literal that starts with its quote and stops short of the closing one is a whole literal. -/
theorem run_take (h : IsLiteralBody a) (due : List UInt8) (n : Nat) :
    ∃ mode, mode ≠ .code ∧ Scan.run ⟨due, .literal⟩ (a.take n) = some ⟨due, mode⟩ := by
  unfold Scan.run
  induction h generalizing n with
  | nil => exact ⟨.literal, by simp, by simp⟩
  | plain is_plain _ ih =>
    cases n with
    | zero => exact ⟨.literal, by simp, by simp⟩
    | succ n =>
      obtain ⟨mode, hmode, hrun⟩ := ih n
      exact ⟨mode, hmode, by simp [Scan.step, is_plain.1, is_plain.2.1, is_plain.2.2, hrun]⟩
  | escape visible _ ih =>
    match n with
    | 0 => exact ⟨.literal, by simp, by simp⟩
    | 1 => exact ⟨.escape, by simp, by simp [Scan.step]⟩
    | n + 2 =>
      obtain ⟨mode, hmode, hrun⟩ := ih n
      exact ⟨mode, hmode, by simp [Scan.step, visible, hrun]⟩

theorem literalTail (h : IsLiteralBody a) (rest : Bytes) :
    Piece.literalTail false (a ++ 0x22 :: rest) = a ++ [0x22] := by
  induction h with
  | nil => simp [Piece.literalTail]
  | plain is_plain _ ih => simp [Piece.literalTail, is_plain.2.1, is_plain.2.2, ih]
  | escape visible _ ih => simp [Piece.literalTail, ih]

end IsLiteralBody

theorem isPlain_ofNat {n : Nat} (hlt : n < 0x100) (hvisible : 0x20 ≤ n) (hquote : n ≠ 0x22) (hslash : n ≠ 0x5c) :
    IsPlain (UInt8.ofNat n) := by
  have hn : (UInt8.ofNat n).toNat = n := by simp; omega
  refine ⟨?_, ?_, ?_⟩
  · rw [UInt8.lt_iff_toNat_lt, hn]
    exact Nat.not_lt.mpr hvisible
  · rintro h
    rw [h] at hn
    exact hquote hn.symm
  · rintro h
    rw [h] at hn
    exact hslash hn.symm

theorem utf8EncodeChar_plain {c : Char} (hvisible : 0x20 ≤ c.toNat) (hquote : c.toNat ≠ 0x22)
    (hslash : c.toNat ≠ 0x5c) : ∀ b ∈ String.utf8EncodeChar c, IsPlain b := by
  -- a byte of a longer sequence is at least 0x80
  have hlarge : ∀ n, 0x80 ≤ n → n < 0x100 → IsPlain (UInt8.ofNat n) := fun n hlow hhigh =>
    isPlain_ofNat hhigh (by omega) (by omega) (by omega)
  intro b hb
  unfold String.utf8EncodeChar at hb
  dsimp only at hb
  change 0x20 ≤ c.val.toNat at hvisible
  split at hb
  · rw [List.mem_singleton.mp hb]
    exact isPlain_ofNat (by omega) hvisible hquote hslash
  split at hb
  · simp only [List.mem_cons, List.not_mem_nil, or_false] at hb
    rcases hb with rfl | rfl <;> exact hlarge _ (by omega) (by omega)
  split at hb
  · simp only [List.mem_cons, List.not_mem_nil, or_false] at hb
    rcases hb with rfl | rfl | rfl <;> exact hlarge _ (by omega) (by omega)
  · simp only [List.mem_cons, List.not_mem_nil, or_false] at hb
    rcases hb with rfl | rfl | rfl | rfl <;> exact hlarge _ (by omega) (by omega)

theorem hex_plain {n : Nat} (h : n < 0x20 ∨ n = 0x2028 ∨ n = 0x2029) :
    ∀ b ∈ Bytes.hex 4 n, IsPlain b := by
  have hcontrol : ∀ n < 0x20, ((Bytes.hex 4 n).all fun b => IsPlain b) = true := by decide
  refine List.all_iff_forall_prop.mp ?_
  rcases h with h | rfl | rfl
  · exact hcontrol n h
  · decide
  · decide

theorem escapeChar_isLiteralBody (c : Char) : IsLiteralBody (Json.escapeChar false c) := by
  have hescape : ∀ b : UInt8, ¬b < 0x20 → IsLiteralBody [0x5c, b] := fun b hb => .escape hb .nil
  unfold Json.escapeChar
  split
  iterate 7 exact hescape _ (by decide)
  rename_i hquote hslash _ _ _ _ _
  split
  · rename_i hhex
    refine IsLiteralBody.append (a := [0x5c, 0x75]) (hescape _ (by decide)) (.of_plain (hex_plain ?_))
    simpa [or_assoc] using hhex
  · rename_i hplain
    simp only [Bool.or_eq_true, decide_eq_true_eq, not_or, Nat.not_lt] at hplain
    exact .of_plain (utf8EncodeChar_plain hplain.1.1 hquote hslash)

theorem exists_literalBody (s : Bytes) : ∃ inner, quote s = 0x22 :: inner ++ [0x22] ∧ IsLiteralBody inner :=
  ⟨_, rfl, .flatMap fun g => escapeChar_isLiteralBody g.toChar⟩

/-! ## The grammar -/

def reserved : List Bytes :=
  ["let", "const", "if", "else", "for", "while", "return", "break", "continue", "function"]

/-- The keys that do not come from an operator. -/
def fixedKeys : List Bytes := [call, getAttr, setAttr, getItem, setItem, getSlice, setSlice, choose]

/-- The keys under which emitted code calls the library. -/
def dispatchKeys : List Bytes :=
  unaryKeys.map (fun row => Bytes.ofString row.2) ++ binaryKeys.map (fun row => Bytes.ofString row.2) ++ fixedKeys

theorem exists_row {table : List (String × String)} {symbol key : Bytes} (h : keyIn? table symbol = some key) :
    ∃ row ∈ table, Bytes.ofString row.1 = symbol ∧ Bytes.ofString row.2 = key := by
  obtain ⟨row, hrow, hkey⟩ := Option.map_eq_some_iff.mp h
  have hsymbol := List.find?_some hrow
  rw [decide_eq_true_eq] at hsymbol
  exact ⟨row, List.mem_of_find?_eq_some hrow, hsymbol, hkey⟩

/-- The word is one of the target language, a name of the source behind a dollar sign, or bound by the prelude. -/
inductive IsKnown (source : List Token) (w : Bytes) : Prop
  | keyword (mem : w ∈ reserved)
  | undefined (eq : w = "undefined")
  | name {t : Token} (mem : t ∈ source) (kind : t.kind = .identifier) (eq : w = userName t.value)
  | library (mem : w ∈ exports)

/-- The digits are those of a number of the source without its sign, perhaps with `n` behind them. -/
def IsNumber (source : List Token) (digits : Bytes) : Prop :=
  ∃ t ∈ source, t.kind = .numberLiteral ∧ ∃ sign ∈ ([[], "-"] : List Bytes), ∃ tail ∈ ([[], "n"] : List Bytes),
    ∃ value, t.value = sign ++ value ∧ digits = value ++ tail

/-- A piece that may stand behind these pieces. -/
def Piece.Permitted (source : List Token) (before : List Piece) : Piece → Prop
  | .word w => IsKnown source w ∨ w ∈ dispatchKeys ∧ [.word symbols, .mark (Bytes.ascii '.')] <:+ before
  | .numeral digits => IsNumber source digits
  | .literal text => ∃ s, text = quote s
  | .mark _ => True

def isWordText (w : Bytes) : Bool := w.head?.any (!Bytes.isDigit ·) && w.all Piece.isWordByte

theorem isWordText_of_key {key : Bytes} (h : key ∈ dispatchKeys) : isWordText key = true := by
  have htable : ∀ key ∈ dispatchKeys, isWordText key = true := by decide +kernel
  exact htable key h

theorem isWordText_userName {name : Bytes} (h : name.all Lexeme.isNamePart = true) :
    isWordText (userName name) = true := by
  have htext : userName name = Bytes.ascii '$' :: name := rfl
  rw [List.all_eq_true] at h
  simp only [isWordText, htext, List.head?_cons, Option.any_some, List.all_cons, Bool.and_eq_true, List.all_eq_true]
  exact ⟨by decide, by decide, fun b hb => by simp [Piece.isWordByte, h b hb]⟩

/-- Nothing, or a period with digits behind it. -/
def IsFraction (frac : Bytes) : Prop :=
  frac = [] ∨ ∃ d ds, frac = Bytes.ascii '.' :: d :: ds ∧ Bytes.isDigit d = true ∧ ds.all Bytes.isDigit = true

def IsNumeralText (digits : Bytes) : Prop :=
  ∃ first whole frac, digits = first :: (whole ++ frac) ∧ Bytes.isDigit first = true ∧
    whole.all Piece.isWordByte = true ∧ IsFraction frac

def isSeparator (b : UInt8) : Bool := (" ,;=:-" : Bytes).contains b

/-- Emitted text. No two words, numerals or literals meet: there is a separator or a delimiter between them. -/
inductive IsCode (source : List Token) : Bytes → Prop
  | nil : IsCode source []
  | word {w : Bytes} (known : IsKnown source w) (shape : isWordText w = true) : IsCode source w
  | numeral {digits : Bytes} (known : IsNumber source digits) (shape : IsNumeralText digits) : IsCode source digits
  | literal (s : Bytes) : IsCode source (quote s)
  | mark {a b : Bytes} {m : UInt8} (separator : isSeparator m = true) (left : IsCode source a)
    (right : IsCode source b) : IsCode source (a ++ m :: b)
  | select {a b key : Bytes} (known : key ∈ dispatchKeys) (left : IsCode source a) (right : IsCode source b) :
    IsCode source (a ++ select key ++ b)
  | group {a b c : Bytes} {opener closer : UInt8} (pair : closing? opener = some closer) (left : IsCode source a)
    (inside : IsCode source b) (right : IsCode source c) : IsCode source (a ++ opener :: b ++ closer :: c)

/-! ## Texts of the grammar are closed -/

/-- A byte that changes nothing outside of literals. -/
def IsInert (b : UInt8) : Prop := b ≠ 0x22 ∧ closing? b = none ∧ isClosing b = false

instance : DecidablePred IsInert := fun _ => inferInstanceAs (Decidable (_ ∧ _))

theorem isInert_of_word {b : UInt8} (h : Piece.isWordByte b = true) : IsInert b := by
  -- looked up in the list: deciding the quantifier itself may go through all bytes
  have htable : ∀ m ∈ [0x22, 0x28, 0x29, 0x5b, 0x5d, 0x7b, 0x7d], Piece.isWordByte m = false :=
    List.all_iff_forall_prop.mp (by decide)
  have hmark : ∀ m ∈ [0x22, 0x28, 0x29, 0x5b, 0x5d, 0x7b, 0x7d], b ≠ m := by
    rintro m hm rfl
    rw [htable b hm] at h
    cases h
  simp only [List.forall_mem_cons] at hmark
  simp [IsInert, closing?, isClosing, hmark]

theorem isInert_of_wordText {w : Bytes} (h : isWordText w = true) : ∀ b ∈ w, IsInert b := by
  rw [isWordText, Bool.and_eq_true, List.all_eq_true] at h
  exact fun b hb => isInert_of_word (h.2 b hb)

theorem isInert_of_separator {m : UInt8} (h : isSeparator m = true) : IsInert m := by
  have htable : ∀ m ∈ (" ,;=:-" : Bytes), IsInert m := List.all_iff_forall_prop.mp (by decide)
  exact htable m (List.contains_iff_mem.mp h)

theorem pair_cases {opener closer : UInt8} (pair : closing? opener = some closer) :
    (opener = 0x28 ∧ closer = 0x29) ∨ (opener = 0x5b ∧ closer = 0x5d) ∨ (opener = 0x7b ∧ closer = 0x7d) := by
  unfold closing? at pair
  split at pair
  · simp_all
  split at pair
  · simp_all
  split at pair
  · simp_all
  · cases pair

theorem select_eq (key : Bytes) : select key = 0x5b :: (symbols ++ Bytes.ascii '.' :: key) ++ [0x5d] := by
  unfold select
  simp only [List.append_assoc]
  rfl

/-- The text leaves a scan outside of literals as it was. -/
def IsNeutral (text : Bytes) : Prop := ∀ due, Scan.run ⟨due, .code⟩ text = some ⟨due, .code⟩

theorem Scan.run_append (s : Scan) (a b : Bytes) : s.run (a ++ b) = (s.run a).bind fun s' => s'.run b :=
  List.foldlM_append

namespace IsNeutral

variable {a b : Bytes}

theorem append (ha : IsNeutral a) (hb : IsNeutral b) : IsNeutral (a ++ b) := by
  intro due
  rw [Scan.run_append, ha due, Option.bind_some, hb due]

theorem of_inert (h : ∀ x ∈ a, IsInert x) : IsNeutral a := by
  intro due
  unfold Scan.run
  induction a with
  | nil => rfl
  | cons x rest ih =>
    obtain ⟨hx, hrest⟩ := List.forall_mem_cons.mp h
    simp [Scan.step, hx.1, hx.2.1, hx.2.2, ih hrest]

theorem group {opener closer : UInt8} (pair : closing? opener = some closer) (ha : IsNeutral a) :
    IsNeutral (opener :: a ++ [closer]) := by
  have hmarks : opener ≠ 0x22 ∧ closer ≠ 0x22 ∧ closing? closer = none ∧ isClosing closer = true := by
    rcases pair_cases pair with ⟨rfl, rfl⟩ | ⟨rfl, rfl⟩ | ⟨rfl, rfl⟩ <;> decide
  obtain ⟨hopener, hcloser⟩ := hmarks
  intro due
  have hopen : Scan.run ⟨due, .code⟩ [opener] = some ⟨closer :: due, .code⟩ := by
    simp [Scan.run, Scan.step, hopener, pair]
  have hclose : Scan.run ⟨closer :: due, .code⟩ [closer] = some ⟨due, .code⟩ := by
    simp [Scan.run, Scan.step, hcloser]
  change Scan.run _ ([opener] ++ a ++ [closer]) = _
  rw [Scan.run_append, Scan.run_append, hopen, Option.bind_some, ha, Option.bind_some, hclose]

theorem literal (s : Bytes) : IsNeutral (quote s) := by
  obtain ⟨inner, hquote, hinner⟩ := exists_literalBody s
  intro due
  have hopen : Scan.run ⟨due, .code⟩ [0x22] = some ⟨due, .literal⟩ := rfl
  have hclose : Scan.run ⟨due, .literal⟩ [0x22] = some ⟨due, .code⟩ := rfl
  have htext : quote s = [0x22] ++ inner ++ [0x22] := hquote
  rw [htext, Scan.run_append, Scan.run_append, hopen, Option.bind_some, hinner.run, Option.bind_some, hclose]

theorem select {key : Bytes} (h : key ∈ dispatchKeys) : IsNeutral (select key) := by
  have hbinding : IsNeutral symbols := of_inert (isInert_of_wordText rfl)
  have hkey : IsNeutral (Bytes.ascii '.' :: key) :=
    of_inert (List.forall_mem_cons.mpr ⟨by decide, isInert_of_wordText (isWordText_of_key h)⟩)
  rw [select_eq]
  exact group rfl (hbinding.append hkey)

end IsNeutral

theorem IsNumeralText.isInert {digits : Bytes} (h : IsNumeralText digits) : ∀ b ∈ digits, IsInert b := by
  have hdigit : ∀ b, Bytes.isDigit b = true → IsInert b := fun b hb =>
    isInert_of_word (Piece.isWordByte_of_digit hb)
  obtain ⟨first, whole, frac, rfl, hfirst, hwhole, hfrac⟩ := h
  rw [List.all_eq_true] at hwhole
  refine List.forall_mem_cons.mpr ⟨hdigit _ hfirst, List.forall_mem_append.mpr ⟨?_, ?_⟩⟩
  · exact fun b hb => isInert_of_word (hwhole b hb)
  · rcases hfrac with rfl | ⟨d, ds, rfl, hd, hds⟩
    · exact List.forall_mem_nil _
    · rw [List.all_eq_true] at hds
      refine List.forall_mem_cons.mpr ⟨by decide, List.forall_mem_cons.mpr ⟨hdigit _ hd, ?_⟩⟩
      exact fun b hb => hdigit b (hds b hb)

theorem IsCode.isNeutral {source : List Token} {text : Bytes} (h : IsCode source text) : IsNeutral text := by
  induction h with
  | nil => exact fun due => rfl
  | word known shape => exact .of_inert (isInert_of_wordText shape)
  | numeral known shape => exact .of_inert shape.isInert
  | literal s => exact .literal s
  | @mark a b m separator left right ihleft ihright =>
    have hm : IsNeutral [m] := .of_inert (List.forall_mem_singleton.mpr (isInert_of_separator separator))
    exact ihleft.append (hm.append ihright)
  | select known left right ihleft ihright => exact (ihleft.append (.select known)).append ihright
  | @group a b c opener closer pair left inside right ihleft ihinside ihright =>
    have htext : a ++ opener :: b ++ closer :: c = a ++ (opener :: b ++ [closer]) ++ c := by simp
    rw [htext]
    exact (ihleft.append (.group pair ihinside)).append ihright

/-! ## Pieces of the texts of the grammar -/

/-- Each of the pieces may stand where it stands, behind `before` and those in front of it. -/
def Permits (source : List Token) : List Piece → List Piece → Prop
  | _, [] => True
  | before, x :: xs => x.Permitted source before ∧ Permits source (before ++ [x]) xs

theorem permits_append {source : List Token} {before xs ys : List Piece} :
    Permits source before (xs ++ ys) ↔ Permits source before xs ∧ Permits source (before ++ xs) ys := by
  induction xs generalizing before with
  | nil => simp [Permits]
  | cons x xs ih => simp [Permits, ih, and_assoc]

/-- The text ends where a word or a numeral in front of it ends. -/
def Breaks (rest : Bytes) : Prop := ∀ b, rest.head? = some b → Piece.isWordByte b = false ∧ b ≠ Bytes.ascii '.'

/-- A byte that ends a word or a numeral in front of it and starts no literal. -/
def IsApart (b : UInt8) : Prop := Piece.isWordByte b = false ∧ b ≠ 0x22 ∧ b ≠ Bytes.ascii '.'

instance : DecidablePred IsApart := fun _ => inferInstanceAs (Decidable (_ ∧ _))

theorem isApart_of_separator {m : UInt8} (h : isSeparator m = true) : IsApart m := by
  have htable : ∀ m ∈ (" ,;=:-" : Bytes), IsApart m := List.all_iff_forall_prop.mp (by decide)
  exact htable m (List.contains_iff_mem.mp h)

theorem isApart_of_pair {opener closer : UInt8} (pair : closing? opener = some closer) :
    IsApart opener ∧ IsApart closer := by
  rcases pair_cases pair with ⟨rfl, rfl⟩ | ⟨rfl, rfl⟩ | ⟨rfl, rfl⟩ <;> decide

theorem takeWhile_of_breaks {w rest : Bytes} {p : UInt8 → Bool} (hw : w.all p = true)
    (hrest : ∀ b, rest.head? = some b → p b = false) :
    (w ++ rest).takeWhile p = w ∧ (w ++ rest).dropWhile p = rest := by
  rw [List.all_eq_true] at hw
  rw [List.takeWhile_append_of_pos hw, List.dropWhile_append_of_pos hw]
  cases rest with
  | nil => simp
  | cons b rest => simp [hrest b rfl]

theorem pieces_mark {m : UInt8} (hword : Piece.isWordByte m = false) (hquote : m ≠ 0x22) (rest : Bytes) :
    pieces (m :: rest) = .mark m :: pieces rest := by
  have hfront : Piece.front m ([] ++ rest) = .mark m := by
    simp [Piece.front, hword, Piece.isDigit_eq_false hword, hquote]
  exact pieces_append hfront rfl

theorem pieces_word {w rest : Bytes} (h : isWordText w = true)
    (hrest : ∀ b, rest.head? = some b → Piece.isWordByte b = false) : pieces (w ++ rest) = .word w :: pieces rest := by
  rw [isWordText, Bool.and_eq_true] at h
  cases w with
  | nil => simp at h
  | cons b more =>
    obtain ⟨hb, hmore⟩ := (Bool.and_eq_true _ _).mp h.2
    have hfirst : Bytes.isDigit b = false := by simpa using h.1
    exact pieces_append (by simp [Piece.front, hfirst, hb, (takeWhile_of_breaks hmore hrest).1]) rfl

theorem pieces_literal (s rest : Bytes) : pieces (quote s ++ rest) = .literal (quote s) :: pieces rest := by
  obtain ⟨inner, hquote, hinner⟩ := exists_literalBody s
  rw [hquote, List.cons_append]
  refine pieces_append ?_ rfl
  have hmark : Bytes.isDigit 0x22 = false ∧ Piece.isWordByte 0x22 = false := by decide
  have htail := hinner.literalTail rest
  simp [Piece.front, hmark, htail]

theorem fraction_append {frac rest : Bytes} (h : IsFraction frac) (hrest : Breaks rest) :
    Lexeme.fraction (frac ++ rest) = frac := by
  rcases h with rfl | ⟨d, ds, rfl, hd, hds⟩
  · rw [List.nil_append]
    unfold Lexeme.fraction
    split
    · rename_i p d more
      simp [(hrest p rfl).2]
    · rfl
  · have hdigit : ∀ b, rest.head? = some b → Bytes.isDigit b = false := fun b hb =>
      Piece.isDigit_eq_false (hrest b hb).1
    simp [Lexeme.fraction, hd, (takeWhile_of_breaks hds hdigit).1]

theorem pieces_numeral {digits rest : Bytes} (h : IsNumeralText digits) (hrest : Breaks rest) :
    pieces (digits ++ rest) = .numeral digits :: pieces rest := by
  obtain ⟨first, whole, frac, rfl, hfirst, hwhole, hfrac⟩ := h
  have hbreak : ∀ b, (frac ++ rest).head? = some b → Piece.isWordByte b = false := by
    intro b hb
    rcases hfrac with rfl | ⟨d, ds, rfl, -⟩
    · exact (hrest b hb).1
    · -- the period of the fraction ends the whole part
      cases hb
      decide
  obtain ⟨htake, hdrop⟩ := takeWhile_of_breaks hwhole hbreak
  refine pieces_append ?_ rfl
  simp only [Piece.front, hfirst, if_true, Piece.numeralTail, List.append_assoc, htake, hdrop]
  rw [fraction_append hfrac hrest]

/-- Where a word or a numeral would end, the text is cut into these pieces. -/
def CutsInto (text : Bytes) (ps : List Piece) : Prop := ∀ rest, Breaks rest → pieces (text ++ rest) = ps ++ pieces rest

theorem cutsInto_nil : CutsInto [] [] := fun _ _ => rfl

/-- A mark keeps what is in front of it and what is behind it apart. -/
theorem CutsInto.mark {a b : Bytes} {ps qs : List Piece} {m : UInt8} (hm : IsApart m) (ha : CutsInto a ps)
    (hb : CutsInto b qs) : CutsInto (a ++ m :: b) (ps ++ .mark m :: qs) := by
  intro rest hrest
  have hbreaks : Breaks (m :: (b ++ rest)) := by
    intro x hx
    cases hx
    exact ⟨hm.1, hm.2.2⟩
  rw [List.append_assoc, List.cons_append, ha _ hbreaks, pieces_mark hm.1 hm.2.1, hb rest hrest]
  simp

theorem cutsInto_word {w : Bytes} (h : isWordText w = true) : CutsInto w [.word w] := fun _ hrest =>
  pieces_word h fun b hb => (hrest b hb).1

theorem cutsInto_numeral {digits : Bytes} (h : IsNumeralText digits) : CutsInto digits [.numeral digits] :=
  fun _ hrest => pieces_numeral h hrest

/-- A key follows the binding of all keys. -/
theorem cutsInto_key {key : Bytes} (h : key ∈ dispatchKeys) :
    CutsInto (symbols ++ Bytes.ascii '.' :: key) [.word symbols, .mark (Bytes.ascii '.'), .word key] := by
  intro rest hrest
  rw [List.append_assoc, pieces_word (by decide), List.cons_append, pieces_mark (by decide) (by decide),
    pieces_word (isWordText_of_key h) fun b hb => (hrest b hb).1]
  · rfl
  · intro b hb
    cases hb
    decide

/-- The text is cut into pieces that may stand where they stand, whatever is in front of it and behind it. -/
def Cuts (source : List Token) (text : Bytes) : Prop :=
  ∃ ps, (∀ before, Permits source before ps) ∧ ∀ rest, Breaks rest → pieces (text ++ rest) = ps ++ pieces rest

section

variable {source : List Token} {a b : Bytes}

theorem cuts_nil : Cuts source [] := ⟨[], fun _ => trivial, fun _ _ => rfl⟩

theorem cuts_piece {x : Piece} (hx : ∀ before, x.Permitted source before)
    (h : ∀ rest, Breaks rest → pieces (a ++ rest) = x :: pieces rest) : Cuts source a :=
  ⟨[x], fun before => ⟨hx before, trivial⟩, h⟩

theorem Cuts.mark {m : UInt8} (hm : IsApart m) (ha : Cuts source a) (hb : Cuts source b) :
    Cuts source (a ++ m :: b) := by
  obtain ⟨ps, hps, hpieces⟩ := ha
  obtain ⟨qs, hqs, hpieces'⟩ := hb
  refine ⟨ps ++ .mark m :: qs, fun before => permits_append.mpr ⟨hps before, trivial, hqs _⟩, ?_⟩
  exact CutsInto.mark hm hpieces hpieces'

theorem Cuts.group {c : Bytes} {opener closer : UInt8} (pair : closing? opener = some closer) (ha : Cuts source a)
    (hb : Cuts source b) (hc : Cuts source c) : Cuts source (a ++ opener :: b ++ closer :: c) := by
  obtain ⟨hopener, hcloser⟩ := isApart_of_pair pair
  exact (ha.mark hopener hb).mark hcloser hc

theorem cuts_key {key : Bytes} (h : key ∈ dispatchKeys) : Cuts source (symbols ++ Bytes.ascii '.' :: key) := by
  refine ⟨[.word symbols, .mark (Bytes.ascii '.'), .word key], fun before => ⟨?_, trivial, ?_, trivial⟩, ?_⟩
  · -- the binding is itself a name of the library
    exact .inl (.library (by decide))
  · exact .inr ⟨h, before, by simp⟩
  · exact cutsInto_key h

end

theorem IsCode.cuts {source : List Token} {text : Bytes} (h : IsCode source text) : Cuts source text := by
  induction h with
  | nil => exact cuts_nil
  | word known shape => exact cuts_piece (x := .word _) (fun _ => .inl known) (cutsInto_word shape)
  | numeral known shape => exact cuts_piece (x := .numeral _) (fun _ => known) (cutsInto_numeral shape)
  | literal s => exact cuts_piece (x := .literal _) (fun _ => ⟨s, rfl⟩) fun rest _ => pieces_literal s rest
  | mark separator left right ihleft ihright => exact ihleft.mark (isApart_of_separator separator) ihright
  | select known left right ihleft ihright =>
    have htext := ihleft.group (rfl : closing? 0x5b = some 0x5d) (cuts_key known) ihright
    simpa [select_eq] using htext
  | group pair left inside right ihleft ihinside ihright => exact ihleft.group pair ihinside ihright

/-- Each piece of a text of the grammar may stand where it stands. -/
theorem IsCode.permitted {source : List Token} {text : Bytes} (h : IsCode source text) {before after : List Piece}
    {x : Piece} (hx : pieces text = before ++ x :: after) : x.Permitted source before := by
  obtain ⟨ps, hps, hpieces⟩ := h.cuts
  have hall := hpieces [] fun b hb => absurd hb (by simp)
  rw [List.append_nil, hx, pieces, List.append_nil] at hall
  have hpermits := hps []
  rw [← hall, permits_append] at hpermits
  exact hpermits.2.1

end Bracescript.Target
