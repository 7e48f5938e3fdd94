import Bracescript.Proofs.Place
import Bracescript.Proofs.Tokenization

/-!
# What the lexer reads

Every token and every fault of a file comes from one reading at a place of the file. A misread text lies in what is left
of the file, and a reading that is white space or a semicolon holds no other bytes.
-/

namespace Bracescript

/-- The fault covers something, all of it within `n` bytes. -/
structure Misread.Fits (n : Nat) (m : Misread) : Prop where
  width_pos : 0 < m.width
  le : m.off + m.width ≤ n

theorem Misread.Fits.mono {m : Misread} {n k : Nat} (h : m.Fits n) (hle : n ≤ k) : m.Fits k :=
  ⟨h.width_pos, Nat.le_trans h.le hle⟩

namespace Lexeme

/-! ## Misread texts -/

theorem glyphAt_size_le (b : UInt8) (rest : Bytes) : (Text.glyphAt b rest).2 ≤ rest.length + 1 := by
  unfold Text.glyphAt
  dsimp only
  repeat' split
  all_goals simp

theorem readHexEscape_size_le {letter : UInt8} {width size : Nat} {rest value : Bytes}
    (h : readHexEscape letter width rest = .ok (value, size)) : size ≤ rest.length + 1 := by
  simp only [readHexEscape] at h
  split at h
  · cases h
  · rename_i hdigits
    simp only [List.length_take, Bool.or_eq_true, decide_eq_true_eq, not_or] at hdigits
    split at h
    · cases h
      omega
    · cases h

theorem readEscape_size_le {b : UInt8} {size : Nat} {rest value : Bytes} (h : readEscape b rest = .ok (value, size)) :
    size ≤ rest.length + 1 := by
  unfold readEscape at h
  split at h
  · cases h
    omega
  · split at h
    · exact readHexEscape_size_le h
    · split at h
      · cases h
        have := (List.takeWhile_sublist Bytes.isOctal (l := rest.take 2)).length_le
        simp only [List.length_cons, List.length_take] at this ⊢
        omega
      · cases h
        exact glyphAt_size_le b rest

theorem eq_error_of_map {ε α β : Type} {f : α → β} {x : Except ε α} {e : ε} (h : x.map f = .error e) : x = .error e := by
  cases x with
  | ok a => cases h
  | error e' =>
    cases h
    rfl

theorem readString_fits {quote : UInt8} {off : Nat} {text : Bytes} {m : Misread} (hoff : 0 < off)
    (h : readString quote off text = .error m) : m.Fits (off + text.length) := by
  fun_induction readString quote off text with
  | case1 =>
    cases h
    exact ⟨by simp, by simp; omega⟩
  | case2 => cases h
  | case3 =>
    cases h
    exact ⟨by simp, by simp⟩
  | case4 =>
    cases h
    exact ⟨by simp, by simp⟩
  | case5 off e more value size hescape _ ih =>
    have := readEscape_size_le hescape
    refine (ih (by omega) (eq_error_of_map h)).mono ?_
    simp only [List.length_drop, List.length_cons]
    omega
  | case6 off b rest _ _ ih =>
    refine (ih (by omega) (eq_error_of_map h)).mono ?_
    simp only [List.length_cons]
    omega

theorem finishNumber_fits {value rest : Bytes} {hne : 0 < value.length} {m : Misread}
    (h : finishNumber value rest hne = .error m) : m.Fits (value.length + rest.length) := by
  simp only [finishNumber] at h
  split at h
  · rename_i hglued
    cases h
    have hlt : (suffix rest).length < rest.length := by
      by_contra hge
      rw [List.drop_eq_nil_of_le (by omega)] at hglued
      simp at hglued
    exact ⟨by simp, by simp; omega⟩
  · cases h

theorem fraction_length_le (text : Bytes) : (fraction text).length ≤ text.length := by
  unfold fraction
  split
  · rename_i p d rest
    have := (List.takeWhile_sublist Bytes.isDigit (l := rest)).length_le
    split
    · simpa using this
    · simp
  · simp

theorem readDecimal_fits {sign whole rest : Bytes} {hne : 0 < whole.length} {m : Misread}
    (h : readDecimal sign whole rest hne = .error m) : m.Fits (sign.length + whole.length + rest.length) := by
  have := fraction_length_le rest
  unfold readDecimal at h
  refine (finishNumber_fits h).mono ?_
  simp only [List.length_append, List.length_drop]
  omega

theorem readUnsigned_fits {sign : Bytes} {d : UInt8} {rest : Bytes} {m : Misread}
    (h : readUnsigned sign d rest = .error m) : m.Fits (sign.length + 1 + rest.length) := by
  simp only [readUnsigned] at h
  split at h
  · split at h
    · exact readDecimal_fits h
    · rename_i b more
      split at h
      · rename_i isBaseDigit _
        split at h
        · cases h
          exact ⟨by simp, by simp; omega⟩
        · have := (List.takeWhile_sublist isBaseDigit (l := more)).length_le
          refine (finishNumber_fits h).mono ?_
          simp only [List.length_append, List.length_cons, List.length_drop]
          omega
      · split at h
        · cases h
          exact ⟨by simp, by simp⟩
        · exact readDecimal_fits h
  · have := (List.takeWhile_sublist Bytes.isDigit (l := rest)).length_le
    refine (readDecimal_fits h).mono ?_
    simp only [List.length_cons, List.length_drop]
    omega

theorem readOperator_fits {b : UInt8} {rest : Bytes} {m : Misread} (h : readOperator b rest = .error m) :
    m.Fits (rest.length + 1) := by
  unfold readOperator at h
  split at h
  · split at h
    · cases h
    · cases h
      exact ⟨by simp, by simp⟩
  · cases h
    exact ⟨by simp, by simp⟩

/-- A misread text lies within the text that is read. -/
theorem read_fits {after : Bool} {b : UInt8} {rest : Bytes} {m : Misread} (h : read after b rest = .error m) :
    m.Fits (rest.length + 1) := by
  cases h ▸ Lexer.read_outcome after b rest with
  | operator eq => exact readOperator_fits eq.symm
  | badString fails eq =>
    cases eq
    exact (readString_fits Nat.one_pos fails).mono (by omega)
  | unterminated eq =>
    cases eq
    exact ⟨by simp, by simp⟩
  | unsigned eq => exact (readUnsigned_fits eq.symm).mono (by simp; omega)
  | negative digit eq => exact (readUnsigned_fits eq.symm).mono (by simp [digit]; omega)
  | punctuation _ _ eq | blank _ _ _ eq | lineFeed _ _ _ eq | word eq | string _ eq => cases eq

/-! ## White space and semicolons -/

/-- A byte that may stand outside of statements. -/
def isGap (b : UInt8) : Bool := isBlank b || b == 0x0a || b == 0x3b

/-- What is white space or a semicolon by its kind is so by its bytes. -/
theorem read_gap {after : Bool} {b : UInt8} {rest : Bytes} {x : Lexeme} (h : read after b rest = .ok x)
    (hkind : x.kind.isWhitespace = true ∨ x.kind = .semicolon) : ∀ byte ∈ (b :: rest).take x.size, isGap byte = true := by
  cases h ▸ Lexer.read_outcome after b rest with
  | punctuation known size eq =>
    cases eq
    obtain ⟨rfl, -⟩ | ⟨hsemicolon, hspace, -⟩ := Lexer.ofPunctuation_cases known
    · simp [size, isGap]
    · simp [hsemicolon, hspace] at hkind
  | blank known kind size eq =>
    cases eq
    have hall : ∀ byte ∈ b :: rest.takeWhile isBlank, isGap byte = true := by
      refine List.forall_mem_cons.mpr ⟨by simp [isGap, known], fun byte hbyte => ?_⟩
      have := List.all_eq_true.mp List.all_takeWhile byte hbyte
      simp [isGap, this]
    have htake := List.prefix_iff_eq_take.mp (List.takeWhile_prefix isBlank (l := rest))
    rw [size, List.take_succ_cons, ← htake]
    exact hall
  | lineFeed known kind size eq =>
    cases eq
    simp [size, isGap, known]
  | word eq =>
    cases eq
    simp only [readWord] at hkind
    split at hkind <;> simp [TokenKind.isWhitespace] at hkind
  | string kind eq =>
    cases eq
    simp [kind, TokenKind.isWhitespace] at hkind
  | operator eq =>
    rw [Lexer.kind_readOperator eq.symm] at hkind
    simp [TokenKind.isWhitespace] at hkind
  | unsigned eq | negative _ eq =>
    rw [Lexer.kind_readUnsigned eq.symm] at hkind
    simp [TokenKind.isWhitespace] at hkind
  | badString _ eq | unterminated eq => cases eq

end Lexeme

/-! ## The whole file -/

namespace Lexer

variable {f : SourceFile}

/-- Every token and the fault come from one reading, at a place of the file where something is left to read. -/
theorem all_readings (hfit : f.content.length < 2 ^ 32) (lx : Lexer) (hfault : lx.fault = none) (h : lx.cursor.Stands f) :
    (∀ t ∈ lx.all.1, ∃ (c : Cursor) (after : Bool) (b : UInt8) (rest : Bytes) (x : Lexeme),
      c.Stands f ∧ c.rest = b :: rest ∧ Lexeme.read after b rest = .ok x ∧ t = tokenOf c x) ∧
    ∀ e, lx.all.2 = some e → ∃ (c : Cursor) (after : Bool) (b : UInt8) (rest : Bytes) (m : Misread),
      c.Stands f ∧ c.rest = b :: rest ∧ Lexeme.read after b rest = .error m ∧ e = errorOf c m := by
  fun_induction all lx with
  | case1 lx e he => simp [hfault] at he
  | case2 => simp
  | case3 lx _ b rest hrest m hm =>
    refine ⟨by simp, fun e he => ?_⟩
    cases he
    exact ⟨_, _, b, rest, m, h, hrest, hm, rfl⟩
  | case4 lx _ b rest hrest x hx t tokens fault hall ih =>
    obtain ⟨htokens, hfaults⟩ := ih hfault (h.advance hfit x.size).1
    rw [hall] at htokens hfaults
    exact ⟨List.forall_mem_cons.mpr ⟨⟨_, _, b, rest, x, h, hrest, hx, rfl⟩, htokens⟩, hfaults⟩

theorem errorOf_points {c : Cursor} {m : Misread} (hfit : f.content.length < 2 ^ 32) (h : c.Stands f)
    (hm : m.Fits c.rest.length) : (errorOf c m).span.Points f (errorOf c m).pos := by
  obtain ⟨hstands, hoff⟩ := h.advance hfit m.off
  have hlen := h.length_rest
  have hle := h.mark.off_le
  have hwidth := hm.width_pos
  have hfits := hm.le
  have hstop : (errorOf c m).span.stop.toNat = c.off.toNat + m.off + m.width := by
    show ((c.advance m.off).off + m.width.toUInt32).toNat = _
    rw [UInt32.toNat_add, hoff]
    simp
    omega
  have hstart : (errorOf c m).span.start.toNat = c.off.toNat + m.off := by
    show (c.advance m.off).off.toNat = _
    omega
  exact ⟨hstands.file_eq, by omega, by omega, by omega, hstands.mark.pos_eq hfit⟩

theorem Tile.laid {start stop : UInt32} {tokens : List Token} (h : Tile f start tokens stop)
    (hfile : ∀ t ∈ tokens, t.span.file = f.id) : Laid f start.toNat tokens stop.toNat := by
  induction tokens generalizing start with
  | nil =>
    obtain rfl : start = stop := h
    exact Nat.le_refl _
  | cons t ts ih =>
    rw [List.forall_mem_cons] at hfile
    obtain ⟨ht, rfl, hts⟩ := h
    have hlt := UInt32.lt_iff_toNat_lt.mp ht.nonempty
    refine ⟨⟨hfile.1, by omega, ht.inside, by omega, ht.pos_eq⟩, Nat.le_refl _, ih hts hfile.2⟩

end Lexer

namespace SourceFile

variable {f : SourceFile}

theorem endToken_points (hfit : f.content.length < 2 ^ 32) : f.endToken.span.Points f f.endToken.pos := by
  have hsize : f.size.toNat = f.content.length := by
    rw [size]
    simp
    omega
  exact ⟨rfl, Nat.le_refl _, Nat.le_of_eq hsize, fun _ => hsize, rfl⟩

/-- The tokens of a file cover it. -/
theorem tokenize_tile {tokens : List Token} (hfit : f.content.length < 2 ^ 32) (h : f.tokenize = .ok tokens) :
    ∃ stop, Lexer.Tile f 0 tokens stop ∧ stop.toNat = f.content.length := by
  obtain ⟨last, stop, -, htile, hend⟩ := Lexer.all_tile hfit (Lexer.start f) rfl (Cursor.stands_start f)
  unfold tokenize at h
  generalize (Lexer.start f).all = run at h htile hend
  obtain ⟨ts, fault⟩ := run
  cases fault with
  | none =>
    cases h
    exact ⟨stop, htile, hend.2⟩
  | some e => cases h

/-- Every token of a file comes from one reading. -/
theorem tokenize_readings {tokens : List Token} (hfit : f.content.length < 2 ^ 32) (h : f.tokenize = .ok tokens) :
    ∀ t ∈ tokens, ∃ (c : Cursor) (after : Bool) (b : UInt8) (rest : Bytes) (x : Lexeme),
      c.Stands f ∧ c.rest = b :: rest ∧ Lexeme.read after b rest = .ok x ∧ t = Lexer.tokenOf c x := by
  have hreadings := (Lexer.all_readings hfit (Lexer.start f) rfl (Cursor.stands_start f)).1
  unfold tokenize at h
  split at h
  · rename_i hall
    cases h
    rwa [hall] at hreadings
  · cases h

theorem tokenize_error_points {e : SyntaxError} (hfit : f.content.length < 2 ^ 32) (h : f.tokenize = .error e) :
    e.span.Points f e.pos := by
  have hreadings := (Lexer.all_readings hfit (Lexer.start f) rfl (Cursor.stands_start f)).2
  unfold tokenize at h
  split at h
  · cases h
  · rename_i hall
    cases h
    rw [hall] at hreadings
    obtain ⟨c, after, b, rest, m, hstands, hrest, hread, rfl⟩ := hreadings e rfl
    have hfits := Lexeme.read_fits hread
    rw [← List.length_cons (a := b), ← hrest] at hfits
    exact Lexer.errorOf_points hfit hstands hfits

/-- What the parser gets, the end of the file included, lies in the file one behind the other. -/
theorem tokenize_laid {tokens : List Token} (hfit : f.content.length < 2 ^ 32) (h : f.tokenize = .ok tokens) :
    Laid f 0 (significant tokens ++ [f.endToken]) f.content.length := by
  obtain ⟨stop, htile, hstop⟩ := tokenize_tile hfit h
  have hfile : ∀ t ∈ tokens, t.span.file = f.id := by
    intro t ht
    obtain ⟨c, after, b, rest, x, hstands, -, -, rfl⟩ := tokenize_readings hfit h t ht
    exact (hstands.advance hfit x.size).1.file_eq
  have hlaid := htile.laid hfile
  rw [hstop] at hlaid
  have hend := endToken_points hfit
  refine Laid.append_iff.mpr ⟨f.content.length, hlaid.sublist List.filter_sublist, hend, ?_, hend.inside⟩
  exact Nat.le_of_eq (hend.at_end rfl).symm

end SourceFile

end Bracescript
