import Bracescript.Proofs.Numerals

/-!
# Numerals are read whole

A text that is a numeral and a suffix is one number to the lexer, unless it is a zero with the suffix `b`: this one is
taken for the beginning of a number in base two.
-/

namespace Bracescript

namespace Lexeme

/-- What is read is a number, and it takes all of the text. -/
def TakesAll (text : Bytes) (r : Except Misread Lexeme) : Prop :=
  ∃ x : Lexeme, r = .ok x ∧ x.kind = .numberLiteral ∧ x.size = text.length

/-! ## Behind the digits -/

theorem finishNumber_takesAll (value : Bytes) {flag : Bytes} (hne : 0 < value.length) (hflag : flag ∈ numberSuffixes) :
    TakesAll (value ++ flag) (finishNumber value flag hne) := by
  have htable : ∀ flag ∈ numberSuffixes, suffix flag = flag := by decide
  have hrest : flag.drop (suffix flag).length = [] := by rw [htable flag hflag, List.drop_length]
  unfold finishNumber
  dsimp only
  rw [hrest]
  refine ⟨_, rfl, rfl, ?_⟩
  dsimp only
  rw [htable flag hflag, List.length_append]

/-- No digit follows a fraction, nor a number without one. -/
theorem takeWhile_fraction {frac flag : Bytes} (hfrac : Target.IsFraction frac) (hflag : flag ∈ numberSuffixes) :
    (frac ++ flag).takeWhile Bytes.isDigit = [] := by
  rcases hfrac with rfl | ⟨d, ds, rfl, -, -⟩
  · have htable : ∀ flag ∈ numberSuffixes, flag.takeWhile Bytes.isDigit = [] := by decide
    exact htable flag hflag
  · rfl

theorem fraction_suffix {frac flag : Bytes} (hfrac : Target.IsFraction frac) (hflag : flag ∈ numberSuffixes) :
    fraction (frac ++ flag) = frac := by
  rcases hfrac with rfl | ⟨d, ds, rfl, hd, hds⟩
  · have htable : ∀ flag ∈ numberSuffixes, fraction flag = [] := by decide
    exact htable flag hflag
  · have hdigits : (ds ++ flag).takeWhile Bytes.isDigit = ds := by
      rw [List.takeWhile_append_of_pos (List.all_eq_true.mp hds)]
      have hnone := takeWhile_fraction (.inl rfl) hflag
      rw [List.nil_append] at hnone
      rw [hnone, List.append_nil]
    simp [fraction, hd, hdigits]

theorem readDecimal_takesAll (sign whole : Bytes) {frac flag : Bytes} (hne : 0 < whole.length)
    (hfrac : Target.IsFraction frac) (hflag : flag ∈ numberSuffixes) :
    TakesAll (sign ++ whole ++ (frac ++ flag)) (readDecimal sign whole (frac ++ flag) hne) := by
  have htakes := finishNumber_takesAll (sign ++ whole ++ frac) (by simp; omega) hflag
  rw [List.append_assoc (sign ++ whole)] at htakes
  simpa only [readDecimal, fraction_suffix hfrac hflag, List.drop_left] using htakes

/-! ## Digits -/

/-- Behind a zero that no letter of a base and no digit follows there is at most a fraction. -/
theorem readUnsigned_zero_decimal (sign : Bytes) {rest : Bytes}
    (h : rest.head?.all (fun b => (baseDigit? b).isNone && !Bytes.isDigit b) = true) :
    readUnsigned sign 0x30 rest = readDecimal sign [0x30] rest Nat.zero_lt_one := by
  cases rest with
  | nil => rfl
  | cons b more =>
    obtain ⟨hbase, hdigit⟩ : baseDigit? b = none ∧ Bytes.isDigit b = false := by simpa using h
    simp [readUnsigned, hbase, hdigit]

theorem readUnsigned_decimal (sign : Bytes) {whole frac flag : Bytes} (hwhole : IsWhole whole)
    (hfrac : Target.IsFraction frac) (hflag : flag ∈ numberSuffixes) (hsome : whole ++ frac ++ flag ≠ "0b") :
    ∃ d rest, whole ++ frac ++ flag = d :: rest ∧ Bytes.isDigit d = true ∧
      TakesAll (sign ++ d :: rest) (readUnsigned sign d rest) := by
  rcases hwhole with rfl | ⟨d, more, rfl, hzero, hd, hmore⟩
  · refine ⟨0x30, frac ++ flag, by simp, by decide, ?_⟩
    have hfollows : (frac ++ flag).head?.all (fun b => (baseDigit? b).isNone && !Bytes.isDigit b) = true := by
      rcases hfrac with rfl | ⟨d, ds, rfl, -, -⟩
      · have htable : ∀ flag ∈ numberSuffixes, flag ≠ "b" →
            flag.head?.all (fun b => (baseDigit? b).isNone && !Bytes.isDigit b) = true := by decide
        refine htable flag hflag ?_
        rintro rfl
        exact hsome rfl
      · rfl
    have htakes := readDecimal_takesAll sign [0x30] (by simp) hfrac hflag
    rwa [← readUnsigned_zero_decimal sign hfollows, List.append_assoc] at htakes
  · refine ⟨d, more ++ (frac ++ flag), by simp, hd, ?_⟩
    have hdigits : (more ++ (frac ++ flag)).takeWhile Bytes.isDigit = more := by
      rw [List.takeWhile_append_of_pos (List.all_eq_true.mp hmore), takeWhile_fraction hfrac hflag, List.append_nil]
    have htakes := readDecimal_takesAll sign (d :: more) (by simp) hfrac hflag
    rw [List.append_assoc, List.cons_append] at htakes
    simpa only [readUnsigned, if_neg hzero, hdigits, List.drop_left] using htakes

/-- A letter of a suffix may be a digit of the base; what is left of the suffix then is one, too. -/
theorem dropWhile_suffix {b : UInt8} {isBaseDigit : UInt8 → Bool} (hbase : baseDigit? b = some isBaseDigit) {flag : Bytes}
    (hflag : flag ∈ numberSuffixes) : flag.dropWhile isBaseDigit ∈ numberSuffixes := by
  unfold baseDigit? at hbase
  obtain ⟨-, rfl⟩ | hbase := Lexer.eq_or_of_ite_eq_some hbase
  · have htable : ∀ flag ∈ numberSuffixes, flag.dropWhile (fun b => b == 0x30 || b == 0x31) ∈ numberSuffixes := by decide
    exact htable flag hflag
  obtain ⟨-, rfl⟩ | hbase := Lexer.eq_or_of_ite_eq_some hbase
  · have htable : ∀ flag ∈ numberSuffixes, flag.dropWhile Bytes.isOctal ∈ numberSuffixes := by decide
    exact htable flag hflag
  obtain ⟨-, rfl⟩ | hbase := Lexer.eq_or_of_ite_eq_some hbase
  · have htable : ∀ flag ∈ numberSuffixes, flag.dropWhile Bytes.isHex ∈ numberSuffixes := by decide
    exact htable flag hflag
  · cases hbase

theorem readUnsigned_base (sign : Bytes) {b : UInt8} {isBaseDigit : UInt8 → Bool} (hbase : baseDigit? b = some isBaseDigit)
    {ds flag : Bytes} (hsome : ds ≠ []) (hds : ∀ d ∈ ds, isBaseDigit d = true) (hflag : flag ∈ numberSuffixes) :
    TakesAll (sign ++ 0x30 :: b :: (ds ++ flag)) (readUnsigned sign 0x30 (b :: (ds ++ flag))) := by
  have hdigits : (ds ++ flag).takeWhile isBaseDigit = ds ++ flag.takeWhile isBaseDigit :=
    List.takeWhile_append_of_pos hds
  have hleft : (ds ++ flag).drop (ds ++ flag.takeWhile isBaseDigit).length = flag.dropWhile isBaseDigit := by
    have hsplit : ds ++ flag = (ds ++ flag.takeWhile isBaseDigit) ++ flag.dropWhile isBaseDigit := by
      rw [List.append_assoc, List.takeWhile_append_dropWhile]
    rw [hsplit, List.drop_left]
  have hne : (ds ++ flag.takeWhile isBaseDigit).isEmpty = false := by simp [hsome]
  have hlength : 0 < (sign ++ 0x30 :: b :: (ds ++ flag.takeWhile isBaseDigit)).length := by
    simp only [List.length_append, List.length_cons]
    omega
  have htakes := finishNumber_takesAll (sign ++ 0x30 :: b :: (ds ++ flag.takeWhile isBaseDigit)) hlength
    (dropWhile_suffix hbase hflag)
  rw [List.append_assoc, List.cons_append, List.cons_append, List.append_assoc, List.takeWhile_append_dropWhile] at htakes
  simpa only [readUnsigned, if_true, hbase, hdigits, hne, Bool.false_eq_true, if_false, hleft] using htakes

/-- A mantissa and a suffix start with a digit and are read to their end, whatever the sign. -/
theorem readUnsigned_takesAll (sign : Bytes) {digits flag : Bytes} (hdigits : IsMantissa digits)
    (hflag : flag ∈ numberSuffixes) (hsome : digits ++ flag ≠ "0b") :
    ∃ d rest, digits ++ flag = d :: rest ∧ Bytes.isDigit d = true ∧
      TakesAll (sign ++ d :: rest) (readUnsigned sign d rest) := by
  cases hdigits with
  | decimal hwhole hfrac => exact readUnsigned_decimal sign hwhole hfrac hflag hsome
  | binary hds hall => exact ⟨0x30, _, rfl, by decide, readUnsigned_base sign rfl hds (by simpa using hall) hflag⟩
  | octal hds hall => exact ⟨0x30, _, rfl, by decide, readUnsigned_base sign rfl hds hall hflag⟩
  | hexadecimal hds hall => exact ⟨0x30, _, rfl, by decide, readUnsigned_base sign rfl hds hall hflag⟩

/-! ## The token -/

theorem read_digit (after : Bool) {d : UInt8} (hd : Bytes.isDigit d = true) (rest : Bytes) :
    read after d rest = readUnsigned [] d rest := by
  have hcases : d = 0x30 ∨ d = 0x31 ∨ d = 0x32 ∨ d = 0x33 ∨ d = 0x34 ∨ d = 0x35 ∨ d = 0x36 ∨ d = 0x37 ∨ d = 0x38 ∨
      d = 0x39 := by
    simp only [Bytes.isDigit, Bool.and_eq_true, decide_eq_true_eq, UInt8.le_iff_toNat_le] at hd
    simp only [← UInt8.toNat_inj, UInt8.reduceToNat] at *
    omega
  rcases hcases with rfl | rfl | rfl | rfl | rfl | rfl | rfl | rfl | rfl | rfl <;> rfl

theorem read_minus {d : UInt8} (hd : Bytes.isDigit d = true) (rest : Bytes) :
    read false (Bytes.ascii '-') (d :: rest) = readUnsigned "-" d rest := by
  show (if Bytes.isDigit d then readUnsigned [Bytes.ascii '-'] d rest else _) = _
  rw [if_pos hd]
  rfl

/-- A numeral and a suffix are one lexeme, but for a zero with the suffix `b`. -/
theorem read_takesAll {value flag : Bytes} (hvalue : IsNumeral value) (hflag : flag ∈ numberSuffixes)
    (hsome : value ++ flag ∉ (["0b", "-0b"] : List Bytes)) :
    ∃ b rest, value ++ flag = b :: rest ∧ TakesAll (b :: rest) (read false b rest) := by
  obtain ⟨digits, hdigits, rfl | rfl⟩ := hvalue
  · obtain ⟨d, rest, htext, hd, htakes⟩ :=
      readUnsigned_takesAll [] hdigits hflag fun h => hsome (by rw [h]; exact List.mem_cons_self)
    refine ⟨d, rest, htext, ?_⟩
    rw [read_digit false hd]
    exact htakes
  · obtain ⟨d, rest, htext, hd, htakes⟩ :=
      readUnsigned_takesAll "-" hdigits hflag fun h => hsome (by rw [List.append_assoc, h]; decide)
    refine ⟨Bytes.ascii '-', d :: rest, by rw [List.append_assoc, htext]; rfl, ?_⟩
    rw [read_minus hd]
    exact htakes

end Lexeme

namespace SourceFile

/-- A zero with the suffix of a byte, with and without a sign. -/
def zeroBytes : List Bytes := ["0b", "-0b"]

theorem tokenize_numeral {f : SourceFile} {value flag : Bytes} (hvalue : IsNumeral value) (hflag : flag ∈ numberSuffixes)
    (hcontent : f.content = value ++ flag) (hsome : value ++ flag ∉ zeroBytes) :
    ∃ t, f.tokenize = .ok [t] ∧ t.kind = .numberLiteral ∧ t.text = value ++ flag := by
  obtain ⟨b, rest, htext, x, hread, hkind, hsize⟩ := Lexeme.read_takesAll hvalue hflag hsome
  have hscans : Lexer.Scans false f.content [x] := by
    rw [hcontent, htext]
    refine .step hread ?_
    rw [hsize, List.drop_length]
    exact .done
  refine ⟨_, tokenize_eq_ok_iff.mpr ⟨[x], hscans, rfl⟩, hkind, ?_⟩
  show f.content.take x.size = value ++ flag
  rw [hcontent, htext, hsize, List.take_length]

/-- A text whose front cannot be read has no tokens. -/
theorem tokenize_misread {f : SourceFile} {b : UInt8} {rest : Bytes} {m : Misread} (hcontent : f.content = b :: rest)
    (hread : Lexeme.read false b rest = .error m) : f.tokenize = .error (Lexer.errorOf (Cursor.start f) m) := by
  have hall : (Lexer.start f).all = ([], some (Lexer.errorOf (Cursor.start f) m)) := by
    fun_cases Lexer.all (Lexer.start f) with
    | case1 e hfault => cases hfault
    | case2 _ hrest => cases hcontent.symm.trans hrest
    | case3 _ b' rest' hrest m' hm =>
      cases hcontent.symm.trans hrest
      cases hread.symm.trans hm
      rfl
    | case4 _ b' rest' hrest x hx =>
      cases hcontent.symm.trans hrest
      cases hread.symm.trans hx
  rw [tokenize, hall]

theorem tokenize_zeroByte {f : SourceFile} (h : f.content ∈ zeroBytes) :
    ∃ e, f.tokenize = .error e ∧ e.code = .badNumber := by
  simp only [zeroBytes, List.mem_cons, List.not_mem_nil, or_false] at h
  rcases h with h | h
  · exact ⟨_, tokenize_misread h rfl, rfl⟩
  · exact ⟨_, tokenize_misread h rfl, rfl⟩

/-- A numeral with a suffix, or without one, is one number of just this text, unless it is a zero with the suffix of a byte:
to such a text the lexer answers that digits of base two are missing. -/
theorem numerals_whole_iff (f : SourceFile) {value flag : Bytes} (hvalue : IsNumeral value)
    (hflag : flag ∈ numberSuffixes) (hcontent : f.content = value ++ flag) :
    ((∃ t, f.tokenize = .ok [t] ∧ t.kind = .numberLiteral ∧ t.text = value ++ flag) ↔ value ++ flag ∉ zeroBytes) ∧
    (value ++ flag ∈ zeroBytes → ∃ e, f.tokenize = .error e ∧ e.code = .badNumber) := by
  have hrefused : value ++ flag ∈ zeroBytes → ∃ e, f.tokenize = .error e ∧ e.code = .badNumber := by
    rw [← hcontent]
    exact tokenize_zeroByte
  refine ⟨⟨?_, tokenize_numeral hvalue hflag hcontent⟩, hrefused⟩
  rintro ⟨t, htokens, -⟩ hzero
  obtain ⟨e, herror, -⟩ := hrefused hzero
  cases htokens.symm.trans herror

/-- A number in base sixteen whose suffix could be one more digit. -/
def signedHex : SourceFile := ⟨0, "hex.uns", "-0x1b", 0⟩

theorem signedHex_whole :
    IsNumeral "-0x1" ∧ ("b" : Bytes) ∈ numberSuffixes ∧ signedHex.content = "-0x1" ++ "b" ∧
      ∃ t, signedHex.tokenize = .ok [t] ∧ t.kind = .numberLiteral ∧ t.text = ("-0x1" ++ "b" : Bytes) := by
  have hdigits : IsMantissa ("0x" ++ "1") := .hexadecimal (by decide) (List.forall_mem_singleton.mpr rfl)
  have hvalue : IsNumeral "-0x1" := ⟨_, hdigits, .inr rfl⟩
  exact ⟨hvalue, by decide, rfl, (signedHex.numerals_whole_iff hvalue (by decide) rfl).1.mpr (by decide)⟩

/-- The least byte. -/
def zeroByte : SourceFile := ⟨0, "zero.uns", "0b", 0⟩

theorem zeroByte_refused :
    IsNumeral "0" ∧ ("b" : Bytes) ∈ numberSuffixes ∧ zeroByte.content = "0" ++ "b" ∧
      ¬∃ t, zeroByte.tokenize = .ok [t] ∧ t.kind = .numberLiteral ∧ t.text = ("0" ++ "b" : Bytes) := by
  refine ⟨⟨"0", .decimal (.inl rfl) (.inl rfl), .inl rfl⟩, by decide, rfl, ?_⟩
  rintro ⟨t, htokens, -⟩
  obtain ⟨e, herror, -⟩ := tokenize_zeroByte (f := zeroByte) (by decide)
  cases htokens.symm.trans herror

end SourceFile

end Bracescript
