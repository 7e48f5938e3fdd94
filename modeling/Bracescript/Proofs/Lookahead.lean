import Bracescript.Proofs.Scanning

/-!
# How far a reading looks ahead

Whatever is read from a text is read again when the text is cut anywhere behind it and goes on with white space or a
semicolon. So a token depends on its own bytes and on the token before it, but not on what stands further on.
-/

namespace Bracescript.Lexeme

/-! ## Bytes between tokens -/

theorem isGap_cases {b : UInt8} (h : isGap b = true) : b = 0x20 ∨ b = 0x09 ∨ b = 0x0d ∨ b = 0x0a ∨ b = 0x3b := by
  simpa [isGap, isBlank, or_assoc] using h

/-- The text is empty or goes on with white space or a semicolon. -/
def StartsGap (text : Bytes) : Prop := ∀ b, text.head? = some b → isGap b = true

theorem startsGap_nil : StartsGap [] := by
  intro b hb
  cases hb

theorem startsGap_cons {b : UInt8} {text : Bytes} : StartsGap (b :: text) ↔ isGap b = true := by
  simp [StartsGap]

/-- A test that fails on all bytes between tokens. -/
def Sharp (p : UInt8 → Bool) : Prop := ∀ b, isGap b = true → p b = false

theorem sharp_of_all {p : UInt8 → Bool} (h : ([0x20, 0x09, 0x0d, 0x0a, 0x3b] : Bytes).all (fun b => !p b) = true) :
    Sharp p := by
  intro b hb
  have hmem : b ∈ ([0x20, 0x09, 0x0d, 0x0a, 0x3b] : Bytes) := by simpa using isGap_cases hb
  simpa using List.all_eq_true.mp h b hmem

theorem isDigit_sharp : Sharp Bytes.isDigit := sharp_of_all rfl

theorem isNamePart_sharp : Sharp isNamePart := sharp_of_all rfl

theorem isIntWidth_sharp : Sharp isIntWidth := sharp_of_all rfl

theorem baseDigit_sharp {base : UInt8} {p : UInt8 → Bool} (h : baseDigit? base = some p) : Sharp p := by
  unfold baseDigit? at h
  obtain ⟨-, rfl⟩ | h := Lexer.eq_or_of_ite_eq_some h
  · exact sharp_of_all rfl
  obtain ⟨-, rfl⟩ | h := Lexer.eq_or_of_ite_eq_some h
  · exact sharp_of_all rfl
  obtain ⟨-, rfl⟩ | h := Lexer.eq_or_of_ite_eq_some h
  · exact sharp_of_all rfl
  cases h

variable {post : Bytes}

/-! ## Steady prefixes -/

theorem takeWhile_startsGap {p : UInt8 → Bool} (hp : Sharp p) (hpost : StartsGap post) : post.takeWhile p = [] := by
  cases post with
  | nil => rfl
  | cons b post => rw [List.takeWhile_cons, hp b (startsGap_cons.mp hpost), if_neg Bool.false_ne_true]

/-- What is taken from the front is taken again when the text is cut behind it. -/
theorem takeWhile_take {p : UInt8 → Bool} {text : Bytes} {n : Nat} (hn : (text.takeWhile p).length ≤ n)
    (hpost : post.takeWhile p = []) : (text.take n ++ post).takeWhile p = text.takeWhile p := by
  induction text generalizing n with
  | nil => simpa using hpost
  | cons b text ih =>
    rw [List.takeWhile_cons] at hn ⊢
    cases hb : p b with
    | false =>
      cases n with
      | zero => simpa [hb] using hpost
      | succ n => simp [hb]
    | true =>
      rw [hb, if_pos rfl, List.length_cons] at hn
      obtain ⟨n, rfl⟩ : ∃ k, n = k + 1 := ⟨n - 1, by omega⟩
      simp [hb, ih (by omega : (text.takeWhile p).length ≤ n)]

theorem drop_take_append {text : Bytes} {m n : Nat} (hm : m ≤ n) (hlen : m ≤ text.length) :
    (text.take n ++ post).drop m = (text.drop m).take (n - m) ++ post := by
  rw [List.drop_append_of_le_length (by simp; omega), List.drop_take]

theorem head_take_append {p : UInt8 → Bool} (hp : Sharp p) {text : Bytes} {n : Nat}
    (h : (text.head?.map p).getD false = false) (hpost : StartsGap post) :
    ((text.take n ++ post).head?.map p).getD false = false := by
  have hgap : (post.head?.map p).getD false = false := by
    cases post with
    | nil => rfl
    | cons b post => exact hp b (startsGap_cons.mp hpost)
  match text, n with
  | [], n => simpa using hgap
  | b :: text, 0 => simpa using hgap
  | b :: text, n + 1 => exact h

/-! ## Numbers -/

theorem suffix_startsGap (hpost : StartsGap post) : suffix post = [] := by
  cases post with
  | nil => rfl
  | cons b post => rcases isGap_cases (startsGap_cons.mp hpost) with rfl | rfl | rfl | rfl | rfl <;> rfl

/-- A suffix that is only one letter, or none, does not see the byte behind it. -/
theorem suffix_cons_startsGap (b : UInt8) {text : Bytes} (htext : StartsGap text) :
    suffix (b :: text) = suffix [b] := by
  cases text with
  | nil => rfl
  | cons g text =>
    simp only [suffix, isIntWidth_sharp g (startsGap_cons.mp htext), Bool.false_eq_true, if_false]

theorem suffix_take {text : Bytes} {n : Nat} (hn : (suffix text).length ≤ n) (hpost : StartsGap post) :
    suffix (text.take n ++ post) = suffix text := by
  match text, n with
  | [], n => simpa [suffix] using suffix_startsGap hpost
  | b :: rest, 0 =>
    rw [List.take_zero, List.nil_append, suffix_startsGap hpost]
    exact (List.eq_nil_of_length_eq_zero (by omega)).symm
  | [b], n + 1 =>
    rw [List.take_succ_cons, List.take_nil, List.singleton_append, suffix_cons_startsGap b hpost]
  | b :: w :: rest, 1 =>
    rw [List.take_succ_cons, List.take_zero, List.singleton_append, suffix_cons_startsGap b hpost]
    simp only [suffix] at hn ⊢
    split
    · rfl
    · rename_i hletter
      rw [if_neg hletter] at hn
      split
      · rename_i hu
        rw [if_pos hu] at hn
        split at hn
        · simp at hn
        · rename_i hwidth
          rw [if_neg hwidth]
      · rfl
  | b :: w :: rest, n + 2 => simp [suffix]

theorem length_suffix_le (text : Bytes) : (suffix text).length ≤ text.length := by
  unfold suffix
  repeat' split
  all_goals simp

theorem finishNumber_size {value rest : Bytes} {hne : 0 < value.length} {x : Lexeme}
    (h : finishNumber value rest hne = .ok x) : x.size = value.length + (suffix rest).length := by
  simp only [finishNumber] at h
  split at h
  · cases h
  · cases h
    rfl

theorem finishNumber_take {value rest : Bytes} {hne : 0 < value.length} {x : Lexeme} {n : Nat}
    (h : finishNumber value rest hne = .ok x) (hn : x.size ≤ value.length + n) (hpost : StartsGap post) :
    finishNumber value (rest.take n ++ post) hne = .ok x := by
  have hsize := finishNumber_size h
  have hsuffix : suffix (rest.take n ++ post) = suffix rest := suffix_take (by omega) hpost
  have hdrop : (rest.take n ++ post).drop (suffix rest).length =
      (rest.drop (suffix rest).length).take (n - (suffix rest).length) ++ post :=
    drop_take_append (by omega) (length_suffix_le rest)
  simp only [finishNumber, hsuffix, hdrop] at h ⊢
  split at h
  · cases h
  · rename_i hglued
    rw [head_take_append isNamePart_sharp (by simpa using hglued) hpost, if_neg Bool.false_ne_true]
    exact h

theorem fraction_startsGap (hpost : StartsGap post) : fraction post = [] := by
  match post with
  | [] => rfl
  | [b] => rfl
  | b :: d :: post => rcases isGap_cases (startsGap_cons.mp hpost) with rfl | rfl | rfl | rfl | rfl <;> rfl

theorem fraction_take {text : Bytes} {n : Nat} (hn : (fraction text).length ≤ n) (hpost : StartsGap post) :
    fraction (text.take n ++ post) = fraction text := by
  match text, n with
  | [], n => simpa [fraction] using fraction_startsGap hpost
  | p :: rest, 0 =>
    rw [List.take_zero, List.nil_append, fraction_startsGap hpost]
    exact (List.eq_nil_of_length_eq_zero (by omega)).symm
  | [p], n + 1 =>
    cases post with
    | nil => simp
    | cons g post => simp [fraction, isDigit_sharp g (startsGap_cons.mp hpost)]
  | p :: d :: rest, 1 =>
    have hshort : fraction (p :: d :: rest) = [] := by
      simp only [fraction] at hn ⊢
      split at hn
      · simp at hn
      · rename_i hfraction
        rw [if_neg hfraction]
    rw [hshort]
    cases post with
    | nil => rfl
    | cons g post => simp [fraction, isDigit_sharp g (startsGap_cons.mp hpost)]
  | p :: d :: rest, n + 2 =>
    simp only [fraction, List.take_succ_cons, List.cons_append] at hn ⊢
    split
    · rename_i hfraction
      rw [if_pos hfraction] at hn
      have hsteady := takeWhile_startsGap isDigit_sharp hpost
      rw [takeWhile_take (by simpa using hn) hsteady]
    · rfl

theorem readDecimal_size {sign whole rest : Bytes} {hne : 0 < whole.length} {x : Lexeme}
    (h : readDecimal sign whole rest hne = .ok x) :
    sign.length + whole.length + (fraction rest).length ≤ x.size ∧
      x.size ≤ sign.length + whole.length + rest.length := by
  unfold readDecimal at h
  have hsize := finishNumber_size h
  have hfraction := fraction_length_le rest
  have hsuffix := length_suffix_le (rest.drop (fraction rest).length)
  simp only [List.length_append, List.length_drop] at hsize hsuffix
  omega

theorem readDecimal_take {sign whole rest : Bytes} {hne : 0 < whole.length} {x : Lexeme} {n : Nat}
    (h : readDecimal sign whole rest hne = .ok x) (hn : x.size ≤ sign.length + whole.length + n)
    (hpost : StartsGap post) : readDecimal sign whole (rest.take n ++ post) hne = .ok x := by
  have hsize := readDecimal_size h
  have hfraction : fraction (rest.take n ++ post) = fraction rest := fraction_take (by omega) hpost
  have hdrop : (rest.take n ++ post).drop (fraction rest).length =
      (rest.drop (fraction rest).length).take (n - (fraction rest).length) ++ post :=
    drop_take_append (by omega) (fraction_length_le rest)
  unfold readDecimal at h ⊢
  simp only [hfraction, hdrop]
  exact finishNumber_take h (by simp only [List.length_append]; omega) hpost

/-- Behind a zero a byte between tokens begins neither a base nor more digits. -/
theorem readUnsigned_zero (sign : Bytes) (hpost : StartsGap post) :
    readUnsigned sign 0x30 post = readDecimal sign [0x30] post Nat.zero_lt_one := by
  cases post with
  | nil => rfl
  | cons g post =>
    have hgap := startsGap_cons.mp hpost
    have hbase : baseDigit? g = none := by
      rcases isGap_cases hgap with rfl | rfl | rfl | rfl | rfl <;> rfl
    simp [readUnsigned, hbase, isDigit_sharp g hgap]

theorem readUnsigned_size {sign rest : Bytes} {d : UInt8} {x : Lexeme} (h : readUnsigned sign d rest = .ok x) :
    sign.length + 1 ≤ x.size ∧ x.size ≤ sign.length + 1 + rest.length := by
  unfold readUnsigned at h
  split at h
  · split at h
    · have hsize := readDecimal_size h
      simp only [List.length_singleton] at hsize
      omega
    · rename_i b more
      split at h
      · rename_i isBaseDigit _
        dsimp only at h
        split at h
        · cases h
        · have hsize := finishNumber_size h
          have hsuffix := length_suffix_le (more.drop (more.takeWhile isBaseDigit).length)
          have hdigits := (List.takeWhile_sublist isBaseDigit (l := more)).length_le
          simp only [List.length_append, List.length_cons, List.length_drop] at hsize hsuffix ⊢
          omega
      · split at h
        · cases h
        · have hsize := readDecimal_size h
          simp only [List.length_singleton] at hsize
          omega
  · have hsize := readDecimal_size h
    have hdigits := (List.takeWhile_sublist Bytes.isDigit (l := rest)).length_le
    simp only [List.length_cons, List.length_drop] at hsize
    omega

theorem readUnsigned_take {sign rest : Bytes} {d : UInt8} {x : Lexeme} {n : Nat} (h : readUnsigned sign d rest = .ok x)
    (hn : x.size ≤ sign.length + 1 + n) (hpost : StartsGap post) :
    readUnsigned sign d (rest.take n ++ post) = .ok x := by
  by_cases hzero : d = 0x30
  · subst hzero
    match rest, n with
    | [], n =>
      rw [readUnsigned_zero sign startsGap_nil] at h
      rw [List.take_nil, List.nil_append, readUnsigned_zero sign hpost]
      have htake := readDecimal_take h (by simpa using hn) hpost
      rwa [List.take_nil, List.nil_append] at htake
    | b :: more, n =>
      simp only [readUnsigned, if_true] at h
      split at h
      · rename_i isBaseDigit hbase
        split at h
        · cases h
        · rename_i hdigits
          have hsize := finishNumber_size h
          have hlen := (List.takeWhile_sublist isBaseDigit (l := more)).length_le
          simp only [List.length_append, List.length_cons] at hsize
          obtain ⟨n, rfl⟩ : ∃ k, n = k + 1 := ⟨n - 1, by omega⟩
          have hsteady : (more.take n ++ post).takeWhile isBaseDigit = more.takeWhile isBaseDigit :=
            takeWhile_take (by omega) (takeWhile_startsGap (baseDigit_sharp hbase) hpost)
          have hdrop : (more.take n ++ post).drop (more.takeWhile isBaseDigit).length =
              (more.drop (more.takeWhile isBaseDigit).length).take (n - (more.takeWhile isBaseDigit).length) ++ post :=
            drop_take_append (by omega) hlen
          simp only [readUnsigned, if_true, List.take_succ_cons, List.cons_append, hbase, hsteady, if_neg hdigits,
            hdrop]
          exact finishNumber_take h (by simp only [List.length_append, List.length_cons]; omega) hpost
      · rename_i hbase
        split at h
        · cases h
        · rename_i hdigit
          have htake := readDecimal_take h (by simpa using hn) hpost
          cases n with
          | zero =>
            rw [List.take_zero, List.nil_append, readUnsigned_zero sign hpost]
            exact htake
          | succ n =>
            simp only [readUnsigned, if_true, List.take_succ_cons, List.cons_append, hbase, if_neg hdigit]
            exact htake
  · simp only [readUnsigned, if_neg hzero] at h ⊢
    have hsize := (readDecimal_size h).1
    simp only [List.length_cons] at hsize
    have hsteady : (rest.take n ++ post).takeWhile Bytes.isDigit = rest.takeWhile Bytes.isDigit :=
      takeWhile_take (by omega) (takeWhile_startsGap isDigit_sharp hpost)
    have hdrop : (rest.take n ++ post).drop (rest.takeWhile Bytes.isDigit).length =
        (rest.drop (rest.takeWhile Bytes.isDigit).length).take (n - (rest.takeWhile Bytes.isDigit).length) ++ post :=
      drop_take_append (by omega) (List.takeWhile_sublist Bytes.isDigit).length_le
    simp only [hsteady, hdrop]
    exact readDecimal_take h (by simp only [List.length_cons]; omega) hpost

/-! ## Operators -/

/-- A symbol without bytes between tokens stands in front of a text before anything that is between tokens. -/
theorem prefix_take {symbol text : Bytes} {n : Nat} (hsymbol : ∀ b ∈ symbol, isGap b = false) (hpost : StartsGap post) :
    symbol <+: text.take n ++ post ↔ symbol <+: text ∧ symbol.length ≤ (text.take n).length := by
  induction symbol generalizing text n with
  | nil => simp
  | cons b symbol ih =>
    rw [List.forall_mem_cons] at hsymbol
    have hgap : ¬ b :: symbol <+: post := by
      rintro ⟨rest, rfl⟩
      have := startsGap_cons.mp hpost
      rw [hsymbol.1] at this
      cases this
    match text, n with
    | [], n => simpa using hgap
    | c :: text, 0 => simpa using hgap
    | c :: text, n + 1 =>
      rw [List.take_succ_cons, List.cons_append, List.cons_prefix_cons, List.cons_prefix_cons, ih hsymbol.2,
        List.length_cons, List.length_cons, Nat.add_le_add_iff_right, and_assoc]

theorem find_eq_some_of_imp {α : Type} {p q : α → Bool} {l : List α} {a : α} (h : l.find? p = some a)
    (hqp : ∀ x ∈ l, q x = true → p x = true) (ha : q a = true) : l.find? q = some a := by
  induction l with
  | nil => cases h
  | cons x l ih =>
    rw [List.forall_mem_cons] at hqp
    rw [List.find?_cons] at h ⊢
    cases hp : p x with
    | true =>
      rw [hp] at h
      cases h
      rw [ha]
    | false =>
      rw [hp] at h
      have hq : q x = false := by
        cases hq : q x with
        | true => exact absurd (hqp.1 hq) (by simp [hp])
        | false => rfl
      rw [hq]
      exact ih h hqp.2

theorem operatorSymbols_sharp : ∀ symbol ∈ operatorSymbols, ∀ b ∈ symbol, isGap b = false := by
  have htable : ∀ symbol ∈ operatorSymbols, (symbol.all fun b => !isGap b) = true := by decide +kernel
  intro symbol hsymbol b hb
  simpa using List.all_eq_true.mp (htable symbol hsymbol) b hb

theorem matchOperator_take {text symbol : Bytes} {n : Nat} (h : matchOperator? text = some symbol)
    (hn : symbol.length ≤ n) (hpost : StartsGap post) : matchOperator? (text.take n ++ post) = some symbol := by
  have hmem := List.mem_of_find?_eq_some h
  have hstarts : text.startsWith symbol = true := List.find?_some h
  have hfront : symbol <+: text := List.isPrefixOf_iff_prefix.mp hstarts
  refine find_eq_some_of_imp h ?_ ?_
  · intro s hs hstarts
    have hpre := (prefix_take (operatorSymbols_sharp s hs) hpost).mp (List.isPrefixOf_iff_prefix.mp hstarts)
    exact List.isPrefixOf_iff_prefix.mpr hpre.1
  · have hlen := hfront.length_le
    refine List.isPrefixOf_iff_prefix.mpr ((prefix_take (operatorSymbols_sharp symbol hmem) hpost).mpr ⟨hfront, ?_⟩)
    rw [List.length_take]
    omega

theorem readOperator_take {b : UInt8} {rest : Bytes} {x : Lexeme} {n : Nat} (h : readOperator b rest = .ok x)
    (hn : x.size ≤ n + 1) (hpost : StartsGap post) : readOperator b (rest.take n ++ post) = .ok x := by
  unfold readOperator at h
  split at h
  · rename_i symbol hsymbol
    split at h
    · rename_i hpos
      cases h
      have htake := matchOperator_take hsymbol hn hpost
      rw [List.take_succ_cons, List.cons_append] at htake
      simp only [readOperator, htake, dif_pos hpos]
    · cases h
  · cases h

/-! ## Strings -/

def IsQuote (q : UInt8) : Prop := q = 0x22 ∨ q = 0x27

variable {q : UInt8}

/-- A glyph ends in front of a quote, so it does not see what stands behind the quote. -/
theorem glyphAt_quote (hq : IsQuote q) (b : UInt8) (mid post : Bytes) :
    Text.glyphAt b (mid ++ q :: post) = Text.glyphAt b (mid ++ [q]) := by
  have hlow : ∀ low : UInt8, 0x80 ≤ low → ¬ low ≤ q := by
    intro low hlow hle
    have := UInt8.le_trans hlow hle
    rcases hq with rfl | rfl <;> revert this <;> decide
  have hthree : ¬ (if b = 0xe0 then (0xa0 : UInt8) else 0x80) ≤ q := by
    split <;> exact hlow _ (by decide)
  have hfour : ¬ (if b = 0xf0 then (0x90 : UInt8) else 0x80) ≤ q := by
    split <;> exact hlow _ (by decide)
  have hcont : Text.isContinuation q = false := by simp [Text.isContinuation, hlow]
  match mid, post with
  | [], [] => rfl
  | [], [p] => simp [Text.glyphAt, hthree]
  | [], p :: p' :: post => simp [Text.glyphAt, hthree, hfour]
  | [c], [] => rfl
  | [c], p :: post => simp [Text.glyphAt, hcont]
  | [c, d], post => simp [Text.glyphAt]
  | c :: d :: e :: mid, post => simp [Text.glyphAt]

theorem readHexEscape_quote (hq : IsQuote q) {letter : UInt8} {width : Nat} {mid post : Bytes} {r : Bytes × Nat}
    (h : readHexEscape letter width (mid ++ q :: post) = .ok r) (post' : Bytes) :
    readHexEscape letter width (mid ++ q :: post') = .ok r := by
  have hle : width ≤ mid.length := by
    by_contra hlt
    obtain ⟨k, hk⟩ : ∃ k, width = mid.length + 1 + k := ⟨width - mid.length - 1, by omega⟩
    have hmem : q ∈ (mid ++ q :: post).take width := by
      rw [hk, List.take_append, List.take_of_length_le (by omega)]
      simp [show mid.length + 1 + k - mid.length = k + 1 by omega]
    have hhex : Bytes.isHex q = false := by rcases hq with rfl | rfl <;> rfl
    have hall : ((mid ++ q :: post).take width).all Bytes.isHex = false :=
      List.all_eq_false.mpr ⟨q, hmem, by simp [hhex]⟩
    simp [readHexEscape, hall] at h
  unfold readHexEscape at h ⊢
  rwa [List.take_append_of_le_length hle] at h ⊢

theorem octal_quote (hq : IsQuote q) (mid post : Bytes) :
    ((mid ++ q :: post).take 2).takeWhile Bytes.isOctal = ((mid ++ [q]).take 2).takeWhile Bytes.isOctal := by
  have hoctal : Bytes.isOctal q = false := by rcases hq with rfl | rfl <;> rfl
  match mid with
  | [] => simp [hoctal]
  | [c] => rfl
  | c :: d :: mid => simp

/-- An escape in front of a quote does not see what stands behind the quote. -/
theorem readEscape_quote (hq : IsQuote q) {e : UInt8} {mid post : Bytes} {r : Bytes × Nat}
    (h : readEscape e (mid ++ q :: post) = .ok r) (post' : Bytes) : readEscape e (mid ++ q :: post') = .ok r := by
  unfold readEscape at h ⊢
  split at h
  · exact h
  · split at h
    · exact readHexEscape_quote hq h post'
    · split at h
      · rename_i hoctal
        rw [if_pos hoctal, octal_quote hq mid post']
        rwa [octal_quote hq mid post] at h
      · rename_i hoctal
        rw [if_neg hoctal, glyphAt_quote hq e mid post']
        rwa [glyphAt_quote hq e mid post] at h

theorem glyphAt_size_pos (b : UInt8) (rest : Bytes) : 0 < (Text.glyphAt b rest).2 := by
  unfold Text.glyphAt
  dsimp only
  repeat' split
  all_goals simp

theorem readEscape_size_pos {b : UInt8} {size : Nat} {rest value : Bytes} (h : readEscape b rest = .ok (value, size)) :
    0 < size := by
  unfold readEscape at h
  split at h
  · cases h
    exact Nat.one_pos
  · split at h
    · simp only [readHexEscape] at h
      split at h
      · cases h
      · split at h
        · cases h
          omega
        · cases h
    · split at h
      · cases h
        simp
      · cases h
        exact glyphAt_size_pos b rest

theorem eq_ok_of_map {ε α β : Type} {f : α → β} {x : Except ε α} {r : β} (h : x.map f = .ok r) :
    ∃ a, x = .ok a ∧ f a = r := by
  cases x with
  | error e => cases h
  | ok a =>
    cases h
    exact ⟨a, rfl, rfl⟩

/-- A string is read up to its closing quote, whatever stands behind the quote. -/
theorem readString_quote (hq : IsQuote q) {off : Nat} {text : Bytes} {r : Bytes × Nat}
    (h : readString q off text = .ok r) :
    ∃ mid post, text = mid ++ q :: post ∧ r.2 = off + mid.length + 1 ∧
      ∀ post', readString q off (mid ++ q :: post') = .ok r := by
  fun_induction readString q off text generalizing r with
  | case1 => cases h
  | case2 off rest =>
    cases h
    refine ⟨[], rest, rfl, rfl, fun post' => ?_⟩
    rw [List.nil_append, readString.eq_def]
    dsimp only
    rw [if_pos rfl]
  | case3 => cases h
  | case4 => cases h
  | case5 off e more value size hescape hne ih =>
    obtain ⟨⟨tail, total⟩, htail, rfl⟩ := eq_ok_of_map h
    obtain ⟨mid, post, hdrop, htotal, hagain⟩ := ih htail
    have hle := readEscape_size_le hescape
    obtain ⟨n, rfl⟩ : ∃ n, size = n + 1 := ⟨size - 1, by have := readEscape_size_pos hescape; omega⟩
    rw [List.drop_succ_cons] at hdrop
    have hmore : more = (more.take n ++ mid) ++ q :: post := by
      rw [List.append_assoc, ← hdrop, List.take_append_drop]
    have hlen : (more.take n).length = n := by
      rw [List.length_take]
      omega
    refine ⟨Bytes.ascii '\\' :: e :: (more.take n ++ mid), post, ?_, ?_, fun post' => ?_⟩
    · rw [List.cons_append, List.cons_append, ← hmore]
    · simp only [List.length_cons, List.length_append, hlen] at htotal ⊢
      omega
    · rw [hmore] at hescape
      have hescape' := readEscape_quote hq hescape post'
      have hdrop' : (e :: (more.take n ++ mid ++ q :: post')).drop (n + 1) = mid ++ q :: post' := by
        rw [List.drop_succ_cons, List.append_assoc, List.drop_left' hlen]
      rw [List.cons_append, List.cons_append, readString, if_neg hne, if_pos rfl]
      dsimp only
      rw [hescape']
      dsimp only
      rw [hdrop', hagain post']
      rfl
  | case6 off b rest hne hslash ih =>
    obtain ⟨⟨tail, total⟩, htail, rfl⟩ := eq_ok_of_map h
    obtain ⟨mid, post, rfl, htotal, hagain⟩ := ih htail
    refine ⟨b :: mid, post, rfl, ?_, fun post' => ?_⟩
    · simp only [List.length_cons] at htotal ⊢
      omega
    · rw [List.cons_append, readString.eq_def]
      dsimp only
      rw [if_neg hne, if_neg hslash, hagain post']
      rfl

theorem readString_take (hq : IsQuote q) {rest value : Bytes} {n size : Nat}
    (h : readString q 1 rest = .ok (value, size)) (hn : size ≤ n + 1) :
    readString q 1 (rest.take n ++ post) = .ok (value, size) := by
  obtain ⟨mid, tail, rfl, hsize, hagain⟩ := readString_quote hq h
  dsimp only at hsize
  obtain ⟨k, rfl⟩ : ∃ k, n = mid.length + 1 + k := ⟨n - mid.length - 1, by omega⟩
  have htake : (mid ++ q :: tail).take (mid.length + 1 + k) = mid ++ q :: tail.take k := by
    rw [List.take_append, List.take_of_length_le (by omega)]
    simp [show mid.length + 1 + k - mid.length = k + 1 by omega]
  rw [htake, List.append_assoc, List.cons_append]
  exact hagain (tail.take k ++ post)

/-! ## Any token -/

theorem isQuote_of_or {b : UInt8} (h : (b = Bytes.ascii '"' || b = Bytes.ascii '\'') = true) : IsQuote b := by
  rcases (Bool.or_eq_true _ _).mp h with h | h
  · exact .inl (of_decide_eq_true h)
  · exact .inr (of_decide_eq_true h)

theorem head_take_ne {c : UInt8} (hc : isGap c = false) {rest : Bytes} {n : Nat} (h : rest.head? ≠ some c)
    (hpost : StartsGap post) : (rest.take n ++ post).head? ≠ some c := by
  have hgap : post.head? ≠ some c := by
    intro hhead
    rw [hpost c hhead] at hc
    cases hc
  match rest, n with
  | [], n => simpa using hgap
  | b :: rest, 0 => simpa using hgap
  | b :: rest, n + 1 => exact h

theorem readOperator_equals {rest : Bytes} {x : Lexeme}
    (h : readOperator (Bytes.ascii '=') (Bytes.ascii '=' :: rest) = .ok x) : x.size = 2 := by
  have hmatch : matchOperator? (Bytes.ascii '=' :: Bytes.ascii '=' :: rest) = some "==" := rfl
  unfold readOperator at h
  rw [hmatch] at h
  cases h
  rfl

/-- What is read is read again when the text is cut behind it and goes on with white space or a semicolon. Only white
space itself must not go on with more of it. -/
theorem read_take {after : Bool} {b : UInt8} {rest : Bytes} {x : Lexeme} {n : Nat} (h : read after b rest = .ok x)
    (hn : x.size ≤ n + 1) (hpost : StartsGap post)
    (hblank : x.kind = .space → post.takeWhile isBlank = []) : read after b (rest.take n ++ post) = .ok x := by
  unfold read at h ⊢
  split at h
  · -- two equals signs
    rename_i hdouble
    obtain ⟨hb, hhead⟩ := (Bool.and_eq_true _ _).mp hdouble
    obtain ⟨more, rfl⟩ := List.head?_eq_some_iff.mp (of_decide_eq_true hhead)
    obtain rfl : b = Bytes.ascii '=' := of_decide_eq_true hb
    obtain ⟨n, rfl⟩ : ∃ k, n = k + 1 := ⟨n - 1, by have := readOperator_equals h; omega⟩
    rw [if_pos (by simp)]
    exact readOperator_take h hn hpost
  rename_i hdouble
  rw [if_neg]
  rotate_left
  · intro hdouble'
    obtain ⟨hb, hhead⟩ := (Bool.and_eq_true _ _).mp hdouble'
    refine head_take_ne (by decide) (fun hrest => hdouble ?_) hpost (of_decide_eq_true hhead)
    exact (Bool.and_eq_true _ _).mpr ⟨hb, decide_eq_true hrest⟩
  split at h
  · exact h
  split at h
  · rename_i hb
    cases h
    rw [if_pos hb]
    dsimp only at hn hblank ⊢
    rw [List.length_cons] at hn
    have hsteady : (rest.take n ++ post).takeWhile isBlank = rest.takeWhile isBlank :=
      takeWhile_take (by omega) (hblank rfl)
    simp only [hsteady]
  rename_i hb
  rw [if_neg hb]
  split at h
  · rename_i hline
    rw [if_pos hline]
    exact h
  rename_i hline
  rw [if_neg hline]
  split at h
  · rename_i hstart
    cases h
    rw [if_pos hstart]
    have hsize : (readWord b rest).size = (rest.takeWhile isNamePart).length + 1 := rfl
    have hsteady : (rest.take n ++ post).takeWhile isNamePart = rest.takeWhile isNamePart :=
      takeWhile_take (by omega) (takeWhile_startsGap isNamePart_sharp hpost)
    simp only [readWord, hsteady]
  rename_i hstart
  rw [if_neg hstart]
  split at h
  · rename_i hquote
    rw [if_pos hquote]
    split at h
    · cases h
    · rename_i value size hstring
      split at h
      · rename_i hpos
        cases h
        simp only [readString_take (isQuote_of_or hquote) hstring hn, dif_pos hpos]
      · cases h
  rename_i hquote
  rw [if_neg hquote]
  split at h
  · rename_i hdigit
    rw [if_pos hdigit]
    exact readUnsigned_take h (by simpa [Nat.add_comm] using hn) hpost
  rename_i hdigit
  rw [if_neg hdigit]
  split at h
  · rename_i hminus
    rw [if_pos hminus]
    by_cases hd : (rest.head?.map Bytes.isDigit).getD false = true
    · -- a negative number, of two bytes or more
      cases rest with
      | nil => cases hd
      | cons d more =>
        replace hd : Bytes.isDigit d = true := hd
        dsimp only at h
        rw [if_pos hd] at h
        have hsize := (readUnsigned_size h).1
        simp only [List.length_singleton] at hsize
        obtain ⟨n, rfl⟩ : ∃ k, n = k + 1 := ⟨n - 1, by omega⟩
        simp only [List.take_succ_cons, List.cons_append, if_pos hd]
        exact readUnsigned_take h (by simp only [List.length_singleton]; omega) hpost
    · have hoperator : readOperator b rest = .ok x := by
        split at h
        · rwa [if_neg (by simpa using hd)] at h
        · exact h
      have hd' := head_take_append (n := n) isDigit_sharp (by simpa using hd) hpost
      have hagain := readOperator_take hoperator hn hpost
      split
      · rename_i heq
        rw [heq] at hd' hagain
        rw [heq, if_neg (by simpa using hd')]
        exact hagain
      · exact hagain
  · rename_i hminus
    rw [if_neg hminus]
    exact readOperator_take h hn hpost

end Bracescript.Lexeme
