import Bracescript.Proofs.Lexemes
import Bracescript.Proofs.TargetText

/-!
# The spelling of tokens

Names and numbers stand in a program as the lexer has read them, so their bytes are those of a word or of a numeral also
in the target language.
-/

namespace Bracescript

open Target

/-- A numeral, perhaps with its sign. -/
def IsSignedNumeral (value : Bytes) : Prop :=
  ∃ sign ∈ ([[], "-"] : List Bytes), ∃ digits, value = sign ++ digits ∧ IsNumeralText digits

/-- Names and numbers are spelled as the lexer reads them. -/
structure Legible (source : List Token) : Prop where
  names : ∀ t ∈ source, t.kind = .identifier → t.value.all Lexeme.isNamePart = true
  numbers : ∀ t ∈ source, t.kind = .numberLiteral → IsSignedNumeral t.value

namespace Lexeme

theorem isFraction_fraction (text : Bytes) : IsFraction (fraction text) := by
  unfold fraction
  split
  · split
    · rename_i p d rest h
      obtain ⟨rfl, hd⟩ : p = Bytes.ascii '.' ∧ Bytes.isDigit d = true := by simpa using h
      exact .inr ⟨d, _, rfl, hd, List.all_takeWhile⟩
    · exact .inl rfl
  · exact .inl rfl

theorem value_finishNumber {value rest : Bytes} {hne : 0 < value.length} {x : Lexeme}
    (h : finishNumber value rest hne = .ok x) : x.value = value := by
  unfold finishNumber at h
  dsimp only at h
  split at h
  · cases h
  · cases h
    rfl

theorem value_readDecimal {sign rest : Bytes} {d : UInt8} {ds : Bytes} {hne : 0 < (d :: ds).length} {x : Lexeme}
    (h : readDecimal sign (d :: ds) rest hne = .ok x) (hd : Bytes.isDigit d = true)
    (hds : ds.all Bytes.isDigit = true) : ∃ digits, x.value = sign ++ digits ∧ IsNumeralText digits := by
  refine ⟨d :: (ds ++ fraction rest), ?_, d, ds, _, rfl, hd, ?_, isFraction_fraction rest⟩
  · unfold readDecimal at h
    rw [value_finishNumber h]
    simp
  · rw [List.all_eq_true] at hds ⊢
    exact fun b hb => Piece.isWordByte_of_digit (hds b hb)

theorem isWordByte_of_hex {b : UInt8} (h : Bytes.isHex b = true) : Piece.isWordByte b = true := by
  simp only [Bytes.isHex, Bytes.isDigit, Bool.or_eq_true, Bool.and_eq_true, decide_eq_true_eq,
    UInt8.le_iff_toNat_le] at h
  simp only [Piece.isWordByte, isNamePart, isNameStart, Bytes.isLetter, Bytes.isUpper, Bytes.isLower, Bytes.isDigit,
    Bool.or_eq_true, Bool.and_eq_true, decide_eq_true_eq, UInt8.le_iff_toNat_le]
  simp only [UInt8.reduceToNat] at *
  omega

theorem isNumeralText_base {b : UInt8} {more : Bytes} {isBaseDigit : UInt8 → Bool}
    (h : baseDigit? b = some isBaseDigit) : IsNumeralText (0x30 :: b :: more.takeWhile isBaseDigit) := by
  have hbase : Piece.isWordByte b = true ∧ ∀ c, isBaseDigit c = true → Piece.isWordByte c = true := by
    unfold baseDigit? at h
    obtain ⟨rfl, rfl⟩ | h := Lexer.eq_or_of_ite_eq_some h
    · refine ⟨by decide, fun c hc => ?_⟩
      simp only [Bool.or_eq_true, beq_iff_eq] at hc
      rcases hc with rfl | rfl <;> decide
    obtain ⟨rfl, rfl⟩ | h := Lexer.eq_or_of_ite_eq_some h
    · refine ⟨by decide, fun c hc => isWordByte_of_hex ?_⟩
      simp only [Bytes.isOctal, Bytes.isHex, Bytes.isDigit, Bool.or_eq_true, Bool.and_eq_true, decide_eq_true_eq,
        UInt8.le_iff_toNat_le, UInt8.reduceToNat] at *
      omega
    obtain ⟨rfl, rfl⟩ | h := Lexer.eq_or_of_ite_eq_some h
    · exact ⟨by decide, fun c hc => isWordByte_of_hex hc⟩
    · cases h
  refine ⟨0x30, b :: more.takeWhile isBaseDigit, [], by simp, by decide, ?_, .inl rfl⟩
  rw [List.all_cons, Bool.and_eq_true, List.all_eq_true]
  exact ⟨hbase.1, fun c hc => hbase.2 c (List.all_eq_true.mp List.all_takeWhile c hc)⟩

theorem value_readUnsigned {sign rest : Bytes} {d : UInt8} {x : Lexeme} (h : readUnsigned sign d rest = .ok x)
    (hd : Bytes.isDigit d = true) : ∃ digits, x.value = sign ++ digits ∧ IsNumeralText digits := by
  unfold readUnsigned at h
  split at h
  · rename_i hzero
    split at h
    · exact value_readDecimal h hd rfl
    · split at h
      · rename_i hbase
        dsimp only at h
        split at h
        · cases h
        · rw [value_finishNumber h, hzero]
          exact ⟨_, rfl, isNumeralText_base hbase⟩
      · split at h
        · cases h
        · exact value_readDecimal h hd rfl
  · exact value_readDecimal h hd List.all_takeWhile

/-- What is read says how it is spelled if it is a name or a number. -/
structure IsLegible (x : Lexeme) : Prop where
  name : x.kind = .identifier → x.value.all isNamePart = true
  number : x.kind = .numberLiteral → IsSignedNumeral x.value

theorem isLegible_of_kind {x : Lexeme} (hname : x.kind ≠ .identifier) (hnumber : x.kind ≠ .numberLiteral) :
    x.IsLegible :=
  ⟨fun h => absurd h hname, fun h => absurd h hnumber⟩

theorem isLegible_readOperator {b : UInt8} {rest : Bytes} {x : Lexeme} (h : readOperator b rest = .ok x) :
    x.IsLegible := by
  have hkind := Lexer.kind_readOperator h
  exact isLegible_of_kind (by simp [hkind]) (by simp [hkind])

theorem isLegible_punctuation {b : UInt8} {x : Lexeme} (h : TokenKind.ofPunctuation? b = some x.kind) :
    x.IsLegible := by
  unfold TokenKind.ofPunctuation? at h
  iterate 10
    obtain ⟨-, hkind⟩ | h := Lexer.eq_or_of_ite_eq_some h
    · exact isLegible_of_kind (by simp [← hkind]) (by simp [← hkind])
  cases h

theorem isLegible_readWord {b : UInt8} {rest : Bytes} (h : isNameStart b = true) : (readWord b rest).IsLegible := by
  refine ⟨fun _ => ?_, fun hkind => ?_⟩
  · simp only [readWord, List.all_cons, Bool.and_eq_true]
    exact ⟨by simp [isNamePart, h], List.all_takeWhile⟩
  · simp only [readWord] at hkind
    split at hkind <;> cases hkind

theorem isLegible_readUnsigned {sign rest : Bytes} {d : UInt8} {x : Lexeme} (h : readUnsigned sign d rest = .ok x)
    (hd : Bytes.isDigit d = true) (hsign : sign ∈ ([[], "-"] : List Bytes)) : x.IsLegible := by
  have hkind := Lexer.kind_readUnsigned h
  exact ⟨by simp [hkind], fun _ => ⟨sign, hsign, value_readUnsigned h hd⟩⟩

theorem isLegible_read {after : Bool} {b : UInt8} {rest : Bytes} {x : Lexeme} (h : read after b rest = .ok x) :
    x.IsLegible := by
  unfold read at h
  split at h
  · exact isLegible_readOperator h
  split at h
  · rename_i kind hkind
    cases h
    exact isLegible_punctuation hkind
  split at h
  · cases h
    exact isLegible_of_kind (by simp) (by simp)
  split at h
  · cases h
    exact isLegible_of_kind (by simp) (by simp)
  split at h
  · rename_i hstart
    cases h
    exact isLegible_readWord hstart
  split at h
  · split at h
    · cases h
    · split at h
      · cases h
        exact isLegible_of_kind (by simp) (by simp)
      · cases h
  split at h
  · rename_i hdigit
    exact isLegible_readUnsigned h hdigit (by decide)
  split at h
  · rename_i hminus
    split at h
    · split at h
      · rename_i hdigit
        obtain ⟨rfl, -⟩ : b = Bytes.ascii '-' ∧ _ := by simpa using hminus
        exact isLegible_readUnsigned h hdigit (by decide)
      · exact isLegible_readOperator h
    · exact isLegible_readOperator h
  · exact isLegible_readOperator h

end Lexeme

theorem Lexer.Scans.exists_legible {after : Bool} {text : Bytes} {xs : List Lexeme} (h : Scans after text xs)
    (c : Cursor) {t : Token} (ht : t ∈ place c xs) :
    ∃ x : Lexeme, x.IsLegible ∧ t.kind = x.kind ∧ t.value = x.value := by
  induction h generalizing c with
  | done => cases ht
  | step read _ ih =>
    rcases List.mem_cons.mp ht with rfl | ht
    · exact ⟨_, Lexeme.isLegible_read read, rfl, rfl⟩
    · exact ih _ ht

theorem SourceFile.legible_of_tokenize {f : SourceFile} {tokens : List Token} (h : f.tokenize = .ok tokens) :
    Legible tokens := by
  obtain ⟨xs, hscans, rfl⟩ := SourceFile.tokenize_eq_ok_iff.mp h
  constructor
  · intro t ht hkind
    obtain ⟨x, hx, hkind', hvalue⟩ := hscans.exists_legible _ ht
    rw [hvalue]
    exact hx.name (hkind'.symm.trans hkind)
  · intro t ht hkind
    obtain ⟨x, hx, hkind', hvalue⟩ := hscans.exists_legible _ ht
    rw [hvalue]
    exact hx.number (hkind'.symm.trans hkind)

end Bracescript
