import Bracescript.Text.Utf8

/-!
# Characters of a byte text

A glyph is a character just where the bytes of a character begin, so the bytes of a text that belong to none are told apart
from its characters. Mending a text puts the replacement character for each of them.
-/

namespace Bracescript.Text

/-! ## Encodings -/

/-- The bytes of a character by its number, in one to four bytes. -/
inductive Encoded : Bytes → Nat → Prop
  | one {a : UInt8} (first : a.toNat < 0x80) : Encoded [a] a.toNat
  | two {a b : UInt8} (first : 0xc2 ≤ a.toNat ∧ a.toNat ≤ 0xdf) (second : 0x80 ≤ b.toNat ∧ b.toNat ≤ 0xbf) :
    Encoded [a, b] ((a.toNat - 0xc0) * 64 + b.toNat % 64)
  | three {a b c : UInt8} (first : 0xe0 ≤ a.toNat ∧ a.toNat ≤ 0xef) (second : 0x80 ≤ b.toNat ∧ b.toNat ≤ 0xbf)
    (least : a.toNat = 0xe0 → 0xa0 ≤ b.toNat) (most : a.toNat = 0xed → b.toNat ≤ 0x9f)
    (third : 0x80 ≤ c.toNat ∧ c.toNat ≤ 0xbf) :
    Encoded [a, b, c] (((a.toNat - 0xe0) * 64 + b.toNat % 64) * 64 + c.toNat % 64)
  | four {a b c d : UInt8} (first : 0xf0 ≤ a.toNat ∧ a.toNat ≤ 0xf4) (second : 0x80 ≤ b.toNat ∧ b.toNat ≤ 0xbf)
    (least : a.toNat = 0xf0 → 0x90 ≤ b.toNat) (most : a.toNat = 0xf4 → b.toNat ≤ 0x8f)
    (third : 0x80 ≤ c.toNat ∧ c.toNat ≤ 0xbf) (fourth : 0x80 ≤ d.toNat ∧ d.toNat ≤ 0xbf) :
    Encoded [a, b, c, d] ((((a.toNat - 0xf0) * 64 + b.toNat % 64) * 64 + c.toNat % 64) * 64 + d.toNat % 64)

theorem toNat_byte {n : Nat} (h : n < 0x100) : (UInt8.ofNat n).toNat = n := by
  simp
  omega

theorem encoded_ofChar (c : Char) : Encoded (Bytes.ofChar c) c.toNat := by
  have hvalid : c.toNat < 0xd800 ∨ 0xdfff < c.toNat ∧ c.toNat < 0x110000 := c.valid
  unfold Bytes.ofChar String.utf8EncodeChar
  rw [Char.toNat_val]
  dsimp only
  generalize c.toNat = n at *
  split
  · have hfirst := toNat_byte (n := n) (by omega)
    have hone := Encoded.one (a := UInt8.ofNat n) (by omega)
    rwa [hfirst] at hone
  split
  · have hfirst := toNat_byte (n := n / 64 % 32 + 192) (by omega)
    have hsecond := toNat_byte (n := n % 64 + 128) (by omega)
    have htwo := Encoded.two (a := UInt8.ofNat (n / 64 % 32 + 192)) (b := UInt8.ofNat (n % 64 + 128)) (by omega) (by omega)
    rwa [hfirst, hsecond, show (n / 64 % 32 + 192 - 0xc0) * 64 + (n % 64 + 128) % 64 = n by omega] at htwo
  split
  · have hfirst := toNat_byte (n := n / 4096 % 16 + 224) (by omega)
    have hsecond := toNat_byte (n := n / 64 % 64 + 128) (by omega)
    have hthird := toNat_byte (n := n % 64 + 128) (by omega)
    have hthree := Encoded.three (a := UInt8.ofNat (n / 4096 % 16 + 224)) (b := UInt8.ofNat (n / 64 % 64 + 128))
      (c := UInt8.ofNat (n % 64 + 128)) (by omega) (by omega) (by omega) (by omega) (by omega)
    rwa [hfirst, hsecond, hthird, show ((n / 4096 % 16 + 224 - 0xe0) * 64 + (n / 64 % 64 + 128) % 64) * 64
      + (n % 64 + 128) % 64 = n by omega] at hthree
  · have hfirst := toNat_byte (n := n / 262144 % 8 + 240) (by omega)
    have hsecond := toNat_byte (n := n / 4096 % 64 + 128) (by omega)
    have hthird := toNat_byte (n := n / 64 % 64 + 128) (by omega)
    have hfourth := toNat_byte (n := n % 64 + 128) (by omega)
    have hfour := Encoded.four (a := UInt8.ofNat (n / 262144 % 8 + 240)) (b := UInt8.ofNat (n / 4096 % 64 + 128))
      (c := UInt8.ofNat (n / 64 % 64 + 128)) (d := UInt8.ofNat (n % 64 + 128)) (by omega) (by omega) (by omega) (by omega)
      (by omega) (by omega)
    rwa [hfirst, hsecond, hthird, hfourth, show (((n / 262144 % 8 + 240 - 0xf0) * 64 + (n / 4096 % 64 + 128) % 64) * 64
      + (n / 64 % 64 + 128) % 64) * 64 + (n % 64 + 128) % 64 = n by omega] at hfour

theorem isContinuation_iff {b : UInt8} : isContinuation b = true ↔ 0x80 ≤ b.toNat ∧ b.toNat ≤ 0xbf := by
  simp [isContinuation, UInt8.le_iff_toNat_le]

theorem Encoded.glyphAt_eq {a : UInt8} {bs : Bytes} {n : Nat} (h : Encoded (a :: bs) n) (tail : Bytes) :
    glyphAt a (bs ++ tail) = (.char (Char.ofNat n), bs.length + 1) := by
  unfold glyphAt
  simp only [Bool.and_eq_true, decide_eq_true_eq, UInt8.lt_iff_toNat_lt, UInt8.le_iff_toNat_le, ← UInt8.toNat_inj,
    isContinuation_iff, apply_ite UInt8.toNat, UInt8.reduceToNat]
  cases h with
  | one first =>
    rw [if_pos first]
    rfl
  | two first second =>
    rw [if_neg (by omega), if_pos first]
    exact if_pos second
  | three first second least most third =>
    rw [if_neg (by omega), if_neg (by omega), if_pos first]
    refine if_pos ⟨⟨?_, ?_⟩, third⟩ <;> split <;> omega
  | four first second least most third fourth =>
    rw [if_neg (by omega), if_neg (by omega), if_neg (by omega), if_pos first]
    refine if_pos ⟨⟨⟨?_, ?_⟩, third⟩, fourth⟩ <;> split <;> omega

theorem ofChar_ofNat {n : Nat} (h : n.isValidChar) :
    Bytes.ofChar (Char.ofNat n) =
      if n ≤ 127 then [UInt8.ofNat n]
      else if n ≤ 2047 then [UInt8.ofNat (n / 64 % 32 + 192), UInt8.ofNat (n % 64 + 128)]
      else if n ≤ 65535 then
        [UInt8.ofNat (n / 4096 % 16 + 224), UInt8.ofNat (n / 64 % 64 + 128), UInt8.ofNat (n % 64 + 128)]
      else
        [UInt8.ofNat (n / 262144 % 8 + 240), UInt8.ofNat (n / 4096 % 64 + 128), UInt8.ofNat (n / 64 % 64 + 128),
          UInt8.ofNat (n % 64 + 128)] := by
  have hnat : (Char.ofNat n).toNat = n := by
    rw [Char.ofNat, dif_pos h]
    rfl
  rw [Bytes.ofChar, String.utf8EncodeChar, Char.toNat_val, hnat]

theorem byte_eq {b : UInt8} {n : Nat} (h : n = b.toNat) : UInt8.ofNat n = b := by
  rw [h, UInt8.ofNat_toNat]

theorem Encoded.eq_ofChar {bs : Bytes} {n : Nat} (h : Encoded bs n) : Bytes.ofChar (Char.ofNat n) = bs := by
  cases h with
  | one first => rw [ofChar_ofNat (.inl (by omega)), if_pos (by omega), UInt8.ofNat_toNat]
  | @two a b first second =>
    rw [ofChar_ofNat (.inl (by omega)), if_neg (by omega), if_pos (by omega), byte_eq (b := a) (by omega),
      byte_eq (b := b) (by omega)]
  | @three a b c first second least most third =>
    rw [ofChar_ofNat (by rw [Nat.isValidChar]; omega), if_neg (by omega), if_neg (by omega), if_pos (by omega),
      byte_eq (b := a) (by omega), byte_eq (b := b) (by omega), byte_eq (b := c) (by omega)]
  | @four a b c d first second least most third fourth =>
    rw [ofChar_ofNat (.inr (by omega)), if_neg (by omega), if_neg (by omega), if_neg (by omega),
      byte_eq (b := a) (by omega), byte_eq (b := b) (by omega), byte_eq (b := c) (by omega),
      byte_eq (b := d) (by omega)]

theorem eq_of_ite_char {p : Prop} [Decidable p] {g : Glyph × Nat} {a : UInt8} {c : Char} {size : Nat}
    (h : (if p then g else (.stray a, 1)) = (.char c, size)) : p ∧ g = (.char c, size) := by
  split at h
  · exact ⟨‹p›, h⟩
  · cases h

theorem encoded_of_glyphAt {a : UInt8} {rest : Bytes} {char : Char} {size : Nat}
    (h : glyphAt a rest = (.char char, size)) :
    ∃ bs tail n, rest = bs ++ tail ∧ size = bs.length + 1 ∧ char = Char.ofNat n ∧ Encoded (a :: bs) n := by
  unfold glyphAt at h
  simp only [Bool.and_eq_true, decide_eq_true_eq, UInt8.lt_iff_toNat_lt, UInt8.le_iff_toNat_le, ← UInt8.toNat_inj,
    isContinuation_iff, apply_ite UInt8.toNat, UInt8.reduceToNat] at h
  split at h
  · rename_i first
    cases h
    exact ⟨[], rest, _, rfl, rfl, rfl, .one first⟩
  split at h
  · rename_i first
    split at h
    · rename_i b tail
      obtain ⟨second, heq⟩ := eq_of_ite_char h
      cases heq
      exact ⟨[b], tail, _, rfl, rfl, rfl, .two first second⟩
    · cases h
  split at h
  · rename_i first
    split at h
    · rename_i b c tail
      obtain ⟨⟨⟨hleast, hmost⟩, third⟩, heq⟩ := eq_of_ite_char h
      cases heq
      refine ⟨[b, c], tail, _, rfl, rfl, rfl, .three first ⟨?_, ?_⟩ ?_ ?_ third⟩ <;>
        split at hleast <;> split at hmost <;> omega
    · cases h
  split at h
  · rename_i first
    split at h
    · rename_i b c d tail
      obtain ⟨⟨⟨⟨hleast, hmost⟩, third⟩, fourth⟩, heq⟩ := eq_of_ite_char h
      cases heq
      refine ⟨[b, c, d], tail, _, rfl, rfl, rfl, .four first ⟨?_, ?_⟩ ?_ ?_ third fourth⟩ <;>
        split at hleast <;> split at hmost <;> omega
    · cases h
  · cases h

/-! ## Reading glyphs -/

/-- The bytes of a character are read as that character. -/
theorem glyphAt_ofChar {b : UInt8} {rest tail : Bytes} {c : Char} (h : b :: rest = Bytes.ofChar c ++ tail) :
    glyphAt b rest = (.char c, (Bytes.ofChar c).length) := by
  have hencoded := encoded_ofChar c
  generalize Bytes.ofChar c = bs at h hencoded ⊢
  cases bs with
  | nil => cases hencoded
  | cons a bs =>
    cases h
    have hglyph := hencoded.glyphAt_eq tail
    rwa [Char.ofNat_toNat] at hglyph

/-- What is read as a character are its bytes. -/
theorem eq_ofChar_of_glyphAt {b : UInt8} {rest : Bytes} {c : Char} {size : Nat} (h : glyphAt b rest = (.char c, size)) :
    ∃ tail, b :: rest = Bytes.ofChar c ++ tail ∧ size = (Bytes.ofChar c).length := by
  obtain ⟨bs, tail, n, rfl, rfl, rfl, hencoded⟩ := encoded_of_glyphAt h
  refine ⟨tail, ?_, ?_⟩
  · rw [hencoded.eq_ofChar, List.cons_append]
  · rw [hencoded.eq_ofChar, List.length_cons]

theorem eq_of_glyphAt_stray {b b' : UInt8} {rest : Bytes} {size : Nat} (h : glyphAt b rest = (.stray b', size)) :
    b' = b ∧ size = 1 := by
  unfold glyphAt at h
  dsimp only at h
  repeat' split at h
  all_goals cases h
  all_goals exact ⟨rfl, rfl⟩

theorem no_char_of_glyphAt {b b' : UInt8} {rest : Bytes} {size : Nat} (h : glyphAt b rest = (.stray b', size)) (c : Char) :
    ¬Bytes.ofChar c <+: b :: rest := by
  rintro ⟨tail, htail⟩
  rw [glyphAt_ofChar htail.symm] at h
  cases h

theorem glyphAt_of_no_char {b : UInt8} {rest : Bytes} (h : ∀ c, ¬Bytes.ofChar c <+: b :: rest) :
    glyphAt b rest = (.stray b, 1) := by
  rcases hglyph : glyphAt b rest with ⟨c | b', size⟩
  · obtain ⟨tail, htail, -⟩ := eq_ofChar_of_glyphAt hglyph
    exact absurd ⟨tail, htail.symm⟩ (h c)
  · obtain ⟨rfl, rfl⟩ := eq_of_glyphAt_stray hglyph
    rfl

/-- A text is empty, or a character or a stray byte is in front. -/
theorem text_cases (v : Bytes) :
    v = [] ∨ (∃ c rest, v = Bytes.ofChar c ++ rest) ∨ ∃ b rest, v = b :: rest ∧ ∀ c, ¬Bytes.ofChar c <+: b :: rest := by
  cases v with
  | nil => exact .inl rfl
  | cons b rest =>
    rcases hglyph : glyphAt b rest with ⟨c | b', size⟩
    · obtain ⟨tail, htail, -⟩ := eq_ofChar_of_glyphAt hglyph
      exact .inr (.inl ⟨c, tail, htail⟩)
    · exact .inr (.inr ⟨b, rest, rfl, no_char_of_glyphAt hglyph⟩)

/-! ## Whole texts -/

theorem glyphsFrom_append (taken rest : Bytes) : glyphsFrom taken.length (taken ++ rest) = glyphs rest := by
  induction taken with
  | nil => rfl
  | cons b taken ih => exact ih

theorem ofChar_ne_nil (c : Char) : Bytes.ofChar c ≠ [] := by
  have hencoded := encoded_ofChar c
  intro hnil
  rw [hnil] at hencoded
  cases hencoded

theorem glyphs_ofChar (c : Char) (rest : Bytes) : glyphs (Bytes.ofChar c ++ rest) = .char c :: glyphs rest := by
  obtain ⟨b, bs, hbytes⟩ := List.exists_cons_of_ne_nil (ofChar_ne_nil c)
  have hglyph : glyphAt b (bs ++ rest) = (.char c, (Bytes.ofChar c).length) :=
    glyphAt_ofChar (by rw [hbytes, List.cons_append])
  rw [hbytes, List.cons_append, glyphs, glyphsFrom, hglyph, hbytes, List.length_cons]
  exact congrArg _ (glyphsFrom_append bs rest)

theorem glyphs_stray {b : UInt8} {rest : Bytes} (h : ∀ c, ¬Bytes.ofChar c <+: b :: rest) :
    glyphs (b :: rest) = .stray b :: glyphs rest := by
  rw [glyphs, glyphsFrom, glyphAt_of_no_char h]
  rfl

theorem glyphs_ofString (s : String) : glyphs s = s.toList.map .char := by
  rw [Bytes.ofString]
  induction s.toList with
  | nil => rfl
  | cons c cs ih => rw [List.flatMap_cons, List.map_cons, ← ih]; exact glyphs_ofChar c _

/-- The second text is the first one with the replacement character for every byte that is part of no character. -/
inductive Mended : Bytes → Bytes → Prop
  | nil : Mended [] []
  | char (c : Char) {v w : Bytes} (rest : Mended v w) : Mended (Bytes.ofChar c ++ v) (Bytes.ofChar c ++ w)
  | stray {b : UInt8} {v w : Bytes} (none : ∀ c, ¬Bytes.ofChar c <+: b :: v) (rest : Mended v w) :
    Mended (b :: v) (Bytes.ofChar '\uFFFD' ++ w)

theorem mended_glyphs (v : Bytes) : Mended v ((glyphs v).flatMap Glyph.repaired) := by
  induction hlength : v.length using Nat.strongRecOn generalizing v with
  | ind n ih =>
    subst hlength
    rcases text_cases v with rfl | ⟨c, rest, rfl⟩ | ⟨b, rest, rfl, hnone⟩
    · exact .nil
    · have hshorter := ih rest.length (by simpa using List.length_pos_iff.mpr (ofChar_ne_nil c)) rest rfl
      rw [glyphs_ofChar, List.flatMap_cons]
      exact .char c hshorter
    · have hshorter := ih rest.length (by simp) rest rfl
      rw [glyphs_stray hnone, List.flatMap_cons]
      exact .stray hnone hshorter

theorem Mended.eq_glyphs {v w : Bytes} (h : Mended v w) : w = (glyphs v).flatMap Glyph.repaired := by
  induction h with
  | nil => rfl
  | char c _ ih => rw [glyphs_ofChar, List.flatMap_cons, ← ih]; rfl
  | stray hnone _ ih => rw [glyphs_stray hnone, List.flatMap_cons, ← ih]; rfl

/-- There is nothing to mend in a string. -/
theorem Mended.eq_of_string {s : String} {w : Bytes} (h : Mended s w) : w = s := by
  rw [h.eq_glyphs, glyphs_ofString, List.flatMap_map]
  rfl

/-- There is nothing to mend in valid text. -/
theorem Mended.eq_of_isUtf8 {v w : Bytes} (h : Mended v w) (hv : isUtf8 v = true) : w = v := by
  induction h with
  | nil => rfl
  | char c _ ih =>
    rw [isUtf8, glyphs_ofChar, List.all_cons, Bool.true_and] at hv
    rw [ih hv]
  | stray hnone _ _ =>
    rw [isUtf8, glyphs_stray hnone, List.all_cons] at hv
    cases hv

theorem isUtf8_of_ascii {v : Bytes} (h : ∀ b ∈ v, b.toNat < 0x80) : isUtf8 v = true := by
  induction v with
  | nil => rfl
  | cons b rest ih =>
    obtain ⟨hb, hrest⟩ := List.forall_mem_cons.mp h
    have hglyphs := glyphs_ofChar (Char.ofNat b.toNat) rest
    rw [(Encoded.one hb).eq_ofChar, List.singleton_append] at hglyphs
    rw [isUtf8, hglyphs, List.all_cons, Bool.true_and]
    exact ih hrest

end Bracescript.Text
