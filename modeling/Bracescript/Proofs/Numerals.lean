import Bracescript.Proofs.Spelling

/-!
# Numerals

The lexer reads a number as a numeral and a suffix, and stops only where no name goes on.
-/

namespace Bracescript

/-! ## The grammar of numerals -/

/-- A zero, or digits of which the first is no zero. -/
def IsWhole (ds : Bytes) : Prop :=
  ds = [0x30] ∨ ∃ d more, ds = d :: more ∧ d ≠ 0x30 ∧ Bytes.isDigit d = true ∧ more.all Bytes.isDigit = true

/-- A decimal number, or digits of the base that the letter behind a zero tells. -/
inductive IsMantissa : Bytes → Prop
  | decimal {whole frac : Bytes} (is_whole : IsWhole whole) (is_fraction : Target.IsFraction frac) : IsMantissa (whole ++ frac)
  | binary {ds : Bytes} (some_digit : ds ≠ []) (digits : ∀ b ∈ ds, b = 0x30 ∨ b = 0x31) : IsMantissa ("0b" ++ ds)
  | octal {ds : Bytes} (some_digit : ds ≠ []) (digits : ∀ b ∈ ds, Bytes.isOctal b = true) : IsMantissa ("0o" ++ ds)
  | hexadecimal {ds : Bytes} (some_digit : ds ≠ []) (digits : ∀ b ∈ ds, Bytes.isHex b = true) : IsMantissa ("0x" ++ ds)

def IsNumeral (value : Bytes) : Prop := ∃ digits, IsMantissa digits ∧ (value = digits ∨ value = "-" ++ digits)

/-- The suffixes that ask for an integer. -/
def integerSuffixes : List Bytes := ["n", "b", "s", "i", "l", "ub", "us", "ui", "ul"]

def numberSuffixes : List Bytes := "" :: "f" :: "d" :: integerSuffixes

/-- The text starts with a numeral and a suffix, and no name goes on behind them. -/
structure IsNumberIn (text value flag : Bytes) : Prop where
  numeral : IsNumeral value
  suffix : flag ∈ numberSuffixes
  ends : ∃ tail, text = value ++ flag ++ tail ∧ ∀ b, tail.head? = some b → Lexeme.isNamePart b = false

namespace Lexeme

/-! ## Suffixes -/

theorem isIntWidth_cases {b : UInt8} (h : isIntWidth b = true) :
    b = Bytes.ascii 'b' ∨ b = Bytes.ascii 's' ∨ b = Bytes.ascii 'i' ∨ b = Bytes.ascii 'l' := by
  have hmem : b ∈ ([Bytes.ascii 'b', Bytes.ascii 's', Bytes.ascii 'i', Bytes.ascii 'l'] : Bytes) :=
    List.contains_iff_mem.mp h
  simpa using hmem

theorem suffix_spells (text : Bytes) : suffix text ∈ numberSuffixes ∧ suffix text <+: text := by
  unfold suffix
  split
  · rename_i b rest
    split
    · rename_i hletter
      refine ⟨?_, rest, rfl⟩
      have hmem : b ∈ ("nfd" : Bytes) ∨ isIntWidth b = true := by simpa using hletter
      rcases hmem with hmem | hwidth
      · have hcases : b = Bytes.ascii 'n' ∨ b = Bytes.ascii 'f' ∨ b = Bytes.ascii 'd' := by
          have hlist : b ∈ ([Bytes.ascii 'n', Bytes.ascii 'f', Bytes.ascii 'd'] : Bytes) := hmem
          simpa using hlist
        rcases hcases with rfl | rfl | rfl <;> decide
      · rcases isIntWidth_cases hwidth with rfl | rfl | rfl | rfl <;> decide
    · split
      · rename_i hu
        subst hu
        split
        · rename_i w more
          split
          · rename_i hwidth
            refine ⟨?_, more, rfl⟩
            rcases isIntWidth_cases hwidth with rfl | rfl | rfl | rfl <;> decide
          · exact ⟨by decide, List.nil_prefix⟩
        · exact ⟨by decide, List.nil_prefix⟩
      · exact ⟨by decide, List.nil_prefix⟩
  · exact ⟨by decide, List.nil_prefix⟩

/-! ## Numbers -/

/-- What is read is a number in front of the text, all of it. -/
def Spells (text : Bytes) (x : Lexeme) : Prop :=
  IsNumberIn text x.value x.flag ∧ x.size = x.value.length + x.flag.length

theorem finishNumber_spells {value rest : Bytes} {hne : 0 < value.length} {x : Lexeme} (hvalue : IsNumeral value)
    (h : finishNumber value rest hne = .ok x) : Spells (value ++ rest) x := by
  unfold finishNumber at h
  dsimp only at h
  split at h
  · cases h
  · rename_i hend
    cases h
    obtain ⟨hflag, hstarts⟩ := suffix_spells rest
    refine ⟨⟨hvalue, hflag, rest.drop (suffix rest).length, ?_, ?_⟩, rfl⟩
    · rw [List.append_assoc, List.prefix_iff_eq_append.mp hstarts]
    · intro b hb
      simpa [hb] using hend

theorem fraction_append_drop (rest : Bytes) : fraction rest ++ rest.drop (fraction rest).length = rest := by
  unfold fraction
  split
  · split
    · rename_i p d rest _
      simp only [List.length_cons, List.drop_succ_cons, List.cons_append]
      rw [List.prefix_iff_eq_append.mp (List.takeWhile_prefix Bytes.isDigit)]
    · simp
  · simp

theorem readDecimal_spells {sign whole rest : Bytes} {hne : 0 < whole.length} {x : Lexeme}
    (hsign : sign = [] ∨ sign = "-") (hwhole : IsWhole whole) (h : readDecimal sign whole rest hne = .ok x) :
    Spells (sign ++ whole ++ rest) x := by
  have hmantissa : IsMantissa (whole ++ fraction rest) := .decimal hwhole (isFraction_fraction rest)
  have hvalue : IsNumeral (sign ++ whole ++ fraction rest) := by
    refine ⟨_, hmantissa, ?_⟩
    rcases hsign with rfl | rfl
    · exact .inl rfl
    · exact .inr (List.append_assoc ..)
  unfold readDecimal at h
  have hspells := finishNumber_spells hvalue h
  rwa [List.append_assoc (sign ++ whole), fraction_append_drop] at hspells

theorem isMantissa_base {b : UInt8} {isBaseDigit : UInt8 → Bool} {ds : Bytes} (h : baseDigit? b = some isBaseDigit)
    (hsome : ds ≠ []) (hds : ∀ d ∈ ds, isBaseDigit d = true) : IsMantissa (0x30 :: b :: ds) := by
  unfold baseDigit? at h
  obtain ⟨rfl, rfl⟩ | h := Lexer.eq_or_of_ite_eq_some h
  · exact .binary hsome fun d hd => by simpa using hds d hd
  obtain ⟨rfl, rfl⟩ | h := Lexer.eq_or_of_ite_eq_some h
  · exact .octal hsome hds
  obtain ⟨rfl, rfl⟩ | h := Lexer.eq_or_of_ite_eq_some h
  · exact .hexadecimal hsome hds
  · cases h

theorem readUnsigned_spells {sign rest : Bytes} {d : UInt8} {x : Lexeme} (hsign : sign = [] ∨ sign = "-")
    (hd : Bytes.isDigit d = true) (h : readUnsigned sign d rest = .ok x) : Spells (sign ++ d :: rest) x := by
  unfold readUnsigned at h
  split at h
  · rename_i hzero
    subst hzero
    split at h
    · have hspells := readDecimal_spells hsign (.inl rfl) h
      rwa [List.append_nil] at hspells
    · rename_i b more
      split at h
      · rename_i isBaseDigit hbase
        dsimp only at h
        split at h
        · cases h
        · rename_i hsome
          have hdigits : ∀ c ∈ more.takeWhile isBaseDigit, isBaseDigit c = true :=
            List.all_eq_true.mp List.all_takeWhile
          have hmantissa := isMantissa_base hbase (by simpa using hsome) hdigits
          have hvalue : IsNumeral (sign ++ 0x30 :: b :: more.takeWhile isBaseDigit) := by
            refine ⟨_, hmantissa, ?_⟩
            rcases hsign with rfl | rfl
            · exact .inl rfl
            · exact .inr rfl
          have hspells := finishNumber_spells hvalue h
          rwa [List.append_assoc, List.cons_append, List.cons_append,
            List.prefix_iff_eq_append.mp (List.takeWhile_prefix isBaseDigit)] at hspells
      · split at h
        · cases h
        · have hspells := readDecimal_spells hsign (.inl rfl) h
          rwa [List.append_assoc] at hspells
  · rename_i hnonzero
    have hwhole : IsWhole (d :: rest.takeWhile Bytes.isDigit) := .inr ⟨d, _, rfl, hnonzero, hd, List.all_takeWhile⟩
    have hspells := readDecimal_spells hsign hwhole h
    rwa [List.append_assoc, List.cons_append, List.prefix_iff_eq_append.mp (List.takeWhile_prefix Bytes.isDigit)] at hspells

theorem ofPunctuation_ne_number (b : UInt8) : TokenKind.ofPunctuation? b ≠ some .numberLiteral := by
  intro h
  unfold TokenKind.ofPunctuation? at h
  iterate 10
    obtain ⟨-, hkind⟩ | h := Lexer.eq_or_of_ite_eq_some h
    · cases hkind
  cases h

/-- A number starts with a digit, or with a minus and a digit. -/
theorem readUnsigned_of_read {after : Bool} {b : UInt8} {rest : Bytes} {x : Lexeme} (h : read after b rest = .ok x)
    (hkind : x.kind = .numberLiteral) :
    (Bytes.isDigit b = true ∧ readUnsigned [] b rest = .ok x) ∨
      ∃ d more, b = Bytes.ascii '-' ∧ rest = d :: more ∧ Bytes.isDigit d = true ∧ readUnsigned [b] d more = .ok x := by
  have hoperator : readOperator b rest ≠ .ok x := fun h => by simp [Lexer.kind_readOperator h] at hkind
  unfold read at h
  split at h
  · exact absurd h hoperator
  split at h
  · rename_i kind hpunctuation
    cases h
    dsimp only at hkind
    rw [hkind] at hpunctuation
    exact absurd hpunctuation (ofPunctuation_ne_number b)
  split at h
  · cases h
    cases hkind
  split at h
  · cases h
    cases hkind
  split at h
  · cases h
    simp only [readWord] at hkind
    split at hkind <;> cases hkind
  split at h
  · split at h
    · cases h
    · split at h
      · cases h
        cases hkind
      · cases h
  split at h
  · rename_i hdigit
    exact .inl ⟨hdigit, h⟩
  split at h
  · rename_i hminus
    obtain ⟨hb, -⟩ : b = Bytes.ascii '-' ∧ _ := by simpa using hminus
    split at h
    · rename_i d more _
      split at h
      · rename_i hdigit
        exact .inr ⟨d, more, hb, rfl, hdigit, h⟩
      · exact absurd h hoperator
    · exact absurd h hoperator
  · exact absurd h hoperator

theorem read_spells {after : Bool} {b : UInt8} {rest : Bytes} {x : Lexeme} (h : read after b rest = .ok x)
    (hkind : x.kind = .numberLiteral) : Spells (b :: rest) x := by
  rcases readUnsigned_of_read h hkind with ⟨hdigit, hread⟩ | ⟨d, more, rfl, rfl, hdigit, hread⟩
  · exact readUnsigned_spells (.inl rfl) hdigit hread
  · exact readUnsigned_spells (.inr rfl) hdigit hread

end Lexeme

/-! ## Tokens -/

namespace Lexer

/-- Every token comes from a reading of what is left behind the texts of the tokens before it. -/
theorem reading_of_all (lx : Lexer) (before : List Token) {after : List Token} {t : Token}
    (h : lx.all.1 = before ++ t :: after) :
    ∃ (c : Cursor) (turn : Bool) (b : UInt8) (rest : Bytes) (x : Lexeme), Lexeme.read turn b rest = .ok x ∧
      c.rest = b :: rest ∧ t = tokenOf c x ∧ lx.cursor.rest = before.flatMap Token.text ++ b :: rest := by
  fun_induction all lx generalizing before with
  | case1 => simp at h
  | case2 => simp at h
  | case3 => simp at h
  | case4 lx _ b rest hrest x hread first tokens fault htail ih =>
    cases before with
    | nil =>
      obtain ⟨rfl, -⟩ : first = t ∧ tokens = after := List.cons_eq_cons.mp h
      exact ⟨lx.cursor, _, b, rest, x, hread, hrest, rfl, hrest⟩
    | cons t' before =>
      obtain ⟨rfl, htokens⟩ : first = t' ∧ tokens = before ++ t :: after := List.cons_eq_cons.mp h
      rw [htail] at ih
      obtain ⟨c, turn, b', rest', x', hread', hc, ht, hwhole⟩ := ih before htokens
      refine ⟨c, turn, b', rest', x', hread', hc, ht, ?_⟩
      replace hwhole : (lx.cursor.advance x.size).rest = before.flatMap Token.text ++ b' :: rest' := hwhole
      rw [Cursor.rest_advance] at hwhole
      rw [List.flatMap_cons, List.append_assoc, ← hwhole]
      exact (List.take_append_drop x.size _).symm

end Lexer

/-- Every number that the lexer answers is a numeral with a suffix, and so is its text; the byte behind it is no part of a
name. -/
theorem SourceFile.number_spelled {f : SourceFile} {before after : List Token} {t : Token}
    (h : (Lexer.start f).all.1 = before ++ t :: after) (hkind : t.kind = .numberLiteral) :
    t.text = t.value ++ t.flag ∧ IsNumeral t.value ∧ t.flag ∈ numberSuffixes ∧
      ∃ tail, f.content = before.flatMap Token.text ++ t.text ++ tail ∧
        ∀ b, tail.head? = some b → Lexeme.isNamePart b = false := by
  obtain ⟨c, turn, b, rest, x, hread, hc, rfl, hcontent⟩ := Lexer.reading_of_all _ before h
  obtain ⟨⟨hvalue, hflag, tail, htext, htail⟩, hsize⟩ := Lexeme.read_spells hread hkind
  have htaken : (Lexer.tokenOf c x).text = x.value ++ x.flag := by
    show c.rest.take x.size = x.value ++ x.flag
    rw [hc, htext, List.take_left' (by rw [hsize, List.length_append])]
  refine ⟨htaken, hvalue, hflag, tail, ?_, htail⟩
  replace hcontent : f.content = before.flatMap Token.text ++ b :: rest := hcontent
  rw [hcontent, htext, htaken, ← List.append_assoc]

end Bracescript
