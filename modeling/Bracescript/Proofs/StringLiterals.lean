import Bracescript.Proofs.Glyphs
import Bracescript.Proofs.Lexemes
import Bracescript.Proofs.TargetText

/-!
# String literals

A literal is read back as what it was written for: with a backslash before quotes and backslashes it holds any bytes, and
every escape of the emitted literals means to the lexer what it means there.
-/

namespace Bracescript

open Text

namespace Lexeme

/-! ## Parts of literals -/

/-- Between these quotes the text means the value, whatever comes behind it. -/
def Means (q : UInt8) (text value : Bytes) : Prop :=
  ∀ off rest, readString q off (text ++ rest) =
    (readString q (off + text.length) rest).map fun r => (value ++ r.1, r.2)

variable {q : UInt8}

theorem means_nil : Means q [] [] := by
  intro off rest
  simp only [List.nil_append, List.length_nil, Nat.add_zero]
  cases readString q off rest <;> rfl

theorem Means.append {a b v w : Bytes} (ha : Means q a v) (hb : Means q b w) : Means q (a ++ b) (v ++ w) := by
  intro off rest
  rw [List.append_assoc, ha, hb, List.length_append, Nat.add_assoc]
  cases readString q (off + (a.length + b.length)) rest with
  | error m => rfl
  | ok r => simp [Except.map]

theorem Means.flatMap {α : Type} {xs : List α} {text value : α → Bytes} (h : ∀ x ∈ xs, Means q (text x) (value x)) :
    Means q (xs.flatMap text) (xs.flatMap value) := by
  induction xs with
  | nil => exact means_nil
  | cons x xs ih =>
    obtain ⟨hx, hxs⟩ := List.forall_mem_cons.mp h
    exact hx.append (ih hxs)

/-- A byte that is neither the quote nor a backslash stands for itself. -/
theorem means_byte {b : UInt8} (hquote : b ≠ q) (hslash : b ≠ Bytes.ascii '\\') : Means q [b] [b] := by
  intro off rest
  rw [List.singleton_append, readString.eq_def]
  dsimp only
  rw [if_neg hquote, if_neg hslash]
  rfl

theorem means_bytes {bs : Bytes} (h : ∀ b ∈ bs, b ≠ q ∧ b ≠ Bytes.ascii '\\') : Means q bs bs := by
  have hall : Means q (bs.flatMap fun b => [b]) (bs.flatMap fun b => [b]) :=
    .flatMap fun b hb => means_byte (h b hb).1 (h b hb).2
  simpa using hall

/-- An escape means what is read behind its backslash. -/
theorem means_escape {e : UInt8} {more value : Bytes} (hq : q ≠ Bytes.ascii '\\')
    (h : ∀ rest, readEscape e (more ++ rest) = .ok (value, more.length + 1)) :
    Means q (Bytes.ascii '\\' :: e :: more) value := by
  intro off rest
  rw [List.cons_append, List.cons_append, readString.eq_def]
  dsimp only
  rw [if_neg hq.symm, if_pos rfl, h rest]
  dsimp only
  rw [List.drop_succ_cons, List.drop_left, List.length_cons, List.length_cons]
  rw [show off + 1 + (more.length + 1) = off + (more.length + 1 + 1) by omega]

/-! ## Whole literals -/

theorem readString_of_means {text value : Bytes} (h : Means q text value) :
    readString q 1 (text ++ [q]) = .ok (value, text.length + 2) := by
  rw [h 1 [q], readString.eq_def]
  dsimp only
  rw [if_pos rfl]
  simp [Except.map]
  omega

theorem read_quote (hq : IsQuote q) {rest value : Bytes} {size : Nat} (hsize : 0 < size)
    (h : readString q 1 rest = .ok (value, size)) :
    ∃ x : Lexeme, read false q rest = .ok x ∧ x.kind = .stringLiteral ∧ x.size = size ∧ x.value = value := by
  obtain ⟨hequal, hpunctuation, hblank, hline, hname⟩ : q ≠ Bytes.ascii '=' ∧ TokenKind.ofPunctuation? q = none ∧
      isBlank q = false ∧ q ≠ 0x0a ∧ isNameStart q = false := by
    rcases hq with rfl | rfl <;> decide
  have hquote : (decide (q = Bytes.ascii '"') || decide (q = Bytes.ascii '\'')) = true := by
    rcases hq with rfl | rfl <;> decide
  simp [read, hequal, hpunctuation, hblank, hline, hname, hquote, h, hsize]

end Lexeme

/-- The text is one string literal, and this is its value. -/
def IsLiteralOf (text value : Bytes) : Prop :=
  ∀ f : SourceFile, f.content = text →
    ∃ t, f.tokenize = .ok [t] ∧ t.kind = .stringLiteral ∧ t.text = text ∧ t.value = value

theorem isLiteralOf_of_means {q : UInt8} (hq : Lexeme.IsQuote q) {text value : Bytes} (h : Lexeme.Means q text value) :
    IsLiteralOf (q :: text ++ [q]) value := by
  intro f hcontent
  obtain ⟨x, hread, hkind, hsize, hvalue⟩ :=
    Lexeme.read_quote hq (by omega) (Lexeme.readString_of_means h)
  have hdrop : (q :: (text ++ [q])).drop x.size = [] := by simp [hsize]
  have hscans : Lexer.Scans false f.content [x] := by
    rw [hcontent, List.cons_append]
    refine .step hread ?_
    rw [hdrop]
    exact .done
  refine ⟨_, SourceFile.tokenize_eq_ok_iff.mpr ⟨[x], hscans, rfl⟩, hkind, ?_, hvalue⟩
  show f.content.take x.size = q :: text ++ [q]
  rw [hcontent, List.take_of_length_le (by simp [hsize])]

/-! ## Two ways of writing literals -/

namespace Lexeme

/-- The bytes with a backslash before every quote and every backslash. -/
def guarded (q : UInt8) (v : Bytes) : Bytes :=
  v.flatMap fun b => if b = q ∨ b = Bytes.ascii '\\' then [Bytes.ascii '\\', b] else [b]

theorem means_guarded {q : UInt8} (hq : IsQuote q) (v : Bytes) : Means q (guarded q v) v := by
  have hslash : q ≠ Bytes.ascii '\\' := by rcases hq with rfl | rfl <;> decide
  have hself : ∀ b, b = q ∨ b = Bytes.ascii '\\' → ∀ rest, readEscape b rest = .ok ([b], 1) := by
    rcases hq with rfl | rfl
    · rintro b (rfl | rfl) rest <;> rfl
    · rintro b (rfl | rfl) rest <;> rfl
  have hall : Means q (guarded q v) (v.flatMap fun b => [b]) := by
    refine .flatMap fun b _ => ?_
    split
    · rename_i hspecial
      exact means_escape hslash (hself b hspecial)
    · rename_i hplain
      rw [not_or] at hplain
      exact means_byte hplain.1 hplain.2
  simpa using hall

theorem readEscape_unicode {n : Nat} (h : n < 0x20 ∨ n = 0x2028 ∨ n = 0x2029) (rest : Bytes) :
    readEscape (Bytes.ascii 'u') (Bytes.hex 4 n ++ rest) =
      .ok (Bytes.ofChar (Char.ofNat n), (Bytes.hex 4 n).length + 1) := by
  have hdigits : ∀ n < 0x20, (Bytes.hex 4 n).length = 4 ∧ (Bytes.hex 4 n).all Bytes.isHex = true ∧
      (Bytes.hex 4 n).foldl (fun n b => n * 16 + Bytes.hexValue b) 0 = n := by decide
  have hhex : (Bytes.hex 4 n).length = 4 ∧ (Bytes.hex 4 n).all Bytes.isHex = true ∧
      (Bytes.hex 4 n).foldl (fun n b => n * 16 + Bytes.hexValue b) 0 = n := by
    rcases h with h | rfl | rfl
    · exact hdigits n h
    · decide
    · decide
  obtain ⟨hlength, hall, hvalue⟩ := hhex
  have hvalid : n.isValidChar := .inl (by omega)
  show readHexEscape (Bytes.ascii 'u') 4 (Bytes.hex 4 n ++ rest) = _
  unfold readHexEscape
  rw [List.take_left' hlength]
  dsimp only
  rw [hvalue, if_neg (by simp [hlength, hall]), if_pos hvalid, hlength]

theorem means_escapeChar (c : Char) : Means 0x22 (Json.escapeChar false c) (Bytes.ofChar c) := by
  have hescape : ∀ {e : UInt8} {n : Nat}, c.toNat = n → (∀ rest, readEscape e rest = .ok (Bytes.ofChar (Char.ofNat n), 1)) →
      Means 0x22 [Bytes.ascii '\\', e] (Bytes.ofChar c) := by
    intro e n hn h
    rw [← hn, Char.ofNat_toNat] at h
    exact means_escape (by decide) h
  unfold Json.escapeChar
  split
  iterate 7 exact hescape ‹_› fun rest => rfl
  rename_i hquote hslash _ _ _ _ _
  split
  · rename_i hhex
    have hn : c.toNat < 0x20 ∨ c.toNat = 0x2028 ∨ c.toNat = 0x2029 := by simpa [or_assoc] using hhex
    have hmeans : Means 0x22 (Bytes.ascii '\\' :: Bytes.ascii 'u' :: Bytes.hex 4 c.toNat) (Bytes.ofChar c) := by
      refine means_escape (by decide) fun rest => ?_
      rw [readEscape_unicode hn, Char.ofNat_toNat]
    exact hmeans
  · rename_i hplain
    simp only [Bool.or_eq_true, decide_eq_true_eq, not_or, Nat.not_lt] at hplain
    refine means_bytes fun b hb => ?_
    exact (Target.utf8EncodeChar_plain hplain.1.1 hquote hslash b hb).2

theorem ofChar_toChar (g : Glyph) : Bytes.ofChar g.toChar = g.repaired := by cases g <;> rfl

theorem means_quote (v : Bytes) :
    ∃ text, Target.quote v = 0x22 :: text ++ [0x22] ∧ Means 0x22 text ((glyphs v).flatMap Glyph.repaired) := by
  refine ⟨(glyphs v).flatMap fun g => Json.escapeChar false g.toChar, rfl, .flatMap fun g _ => ?_⟩
  rw [← ofChar_toChar]
  exact means_escapeChar g.toChar

end Lexeme

end Bracescript
