import Bracescript.Proofs.Bags

/-!
# Repeated findings

A finding repeats another if it has the same code, the same span and the same message. Bags tell repeats by a text made of
the three; it can be taken apart again, because a number ends where its digits end. So exactly the repeats of something
earlier are dropped from a bag, and whether it is sorted before or after makes no difference for what is left at which span.
-/

namespace Bracescript

/-! ## Numbers in front of a text -/

namespace Bytes

theorem toNat_toUInt8_of_isDigit {c : Char} (h : c.isDigit = true) :
    c.toUInt8.toNat = c.toNat ∧ 0x30 ≤ c.toNat ∧ c.toNat ≤ 0x39 := by
  obtain ⟨hlow, hhigh⟩ : 0x30 ≤ c.toNat ∧ c.toNat ≤ 0x39 := Char.isDigit_iff_toNat.mp h
  have hbyte : c.toUInt8.toNat = c.toNat % 256 := rfl
  omega

theorem isDigit_of_mem_ofNat {b : UInt8} {n : Nat} (h : b ∈ ofNat n) : isDigit b = true := by
  obtain ⟨c, hc, rfl⟩ := List.mem_map.mp h
  obtain ⟨hbyte, hbounds⟩ := toNat_toUInt8_of_isDigit (Nat.isDigit_of_mem_toDigits (by decide) (by decide) hc)
  simp only [isDigit, Bool.and_eq_true, decide_eq_true_eq, UInt8.le_iff_toNat_le, hbyte]
  exact hbounds

theorem toDigits_of_ofNat (n : Nat) : (ofNat n).map (fun b => Char.ofNat b.toNat) = Nat.toDigits 10 n := by
  rw [ofNat, List.map_map]
  refine (List.map_congr_left fun c hc => ?_).trans (List.map_id _)
  have hdigit := Nat.isDigit_of_mem_toDigits (by decide) (by decide) hc
  simp [(toNat_toUInt8_of_isDigit hdigit).1]

theorem ofNat_injective {m n : Nat} (h : ofNat m = ofNat n) : m = n := by
  have hdigits : Nat.toDigits 10 m = Nat.toDigits 10 n := by rw [← toDigits_of_ofNat, h, toDigits_of_ofNat]
  rw [← Nat.ofDigitChars_ten_toDigits (n := m), hdigits, Nat.ofDigitChars_ten_toDigits]

/-- A number in front of something that is no digit can be told from the text. -/
theorem ofNat_append_inj {m n : Nat} {sep : UInt8} {x y : Bytes} (hsep : isDigit sep = false)
    (h : ofNat m ++ sep :: x = ofNat n ++ sep :: y) : m = n ∧ x = y := by
  have hfront : ∀ (k : Nat) (rest : Bytes), (ofNat k ++ sep :: rest).takeWhile isDigit = ofNat k := by
    intro k rest
    rw [List.takeWhile_append_of_pos fun b => isDigit_of_mem_ofNat, List.takeWhile_cons_of_neg (by simp [hsep]),
      List.append_nil]
  have hdigits : ofNat m = ofNat n := by rw [← hfront m x, h, hfront n y]
  rw [hdigits] at h
  exact ⟨ofNat_injective hdigits, (List.cons.inj (List.append_cancel_left h)).2⟩

theorem ofString_colon : (":" : Bytes) = [ascii ':'] := by decide

end Bytes

namespace Span

theorem eq_of_toNat {s t : Span} (hfile : s.file.toNat = t.file.toNat) (hstart : s.start.toNat = t.start.toNat)
    (hstop : s.stop.toNat = t.stop.toNat) : s = t := by
  rw [UInt32.toNat_inj] at hfile hstart hstop
  rw [show s = ⟨s.file, s.start, s.stop⟩ from rfl, hfile, hstart, hstop]

theorem render_append (s : Span) (rest : Bytes) : s.render ++ Bytes.ascii ':' :: rest =
    Bytes.ofNat s.file.toNat ++ Bytes.ascii ':' :: (Bytes.ofNat s.start.toNat ++ Bytes.ascii '-' ::
      (Bytes.ofNat s.stop.toNat ++ Bytes.ascii ':' :: rest)) := by
  have hdash : ("-" : Bytes) = [Bytes.ascii '-'] := by decide
  simp [render, Bytes.ofString_colon, hdash]

theorem render_append_inj {s t : Span} {x y : Bytes}
    (h : s.render ++ Bytes.ascii ':' :: x = t.render ++ Bytes.ascii ':' :: y) : s = t ∧ x = y := by
  rw [render_append, render_append] at h
  obtain ⟨hfile, hrest⟩ := Bytes.ofNat_append_inj (by decide) h
  obtain ⟨hstart, hrest⟩ := Bytes.ofNat_append_inj (by decide) hrest
  obtain ⟨hstop, hrest⟩ := Bytes.ofNat_append_inj (by decide) hrest
  exact ⟨eq_of_toNat hfile hstart hstop, hrest⟩

end Span

namespace Diagnostic

/-- What a finding and its repeats have in common. -/
def subject (d : Diagnostic) : Code × Span × Bytes := (d.code, d.span, d.message)

/-- The text that bags compare tells code, span and message, whatever bytes the message has. -/
theorem key_eq_iff {d d' : Diagnostic} : d.key = d'.key ↔ d.subject = d'.subject := by
  constructor
  · intro h
    simp only [key, Bytes.ofString_colon, List.append_assoc, List.singleton_append] at h
    obtain ⟨hcode, h⟩ := Bytes.ofNat_append_inj (by decide) h
    obtain ⟨hspan, hmessage⟩ := Span.render_append_inj h
    have hnumber : d.code = d'.code := congrArg Code.mk (UInt16.toNat_inj.mp hcode)
    simp only [subject, hnumber, hspan, hmessage]
  · intro h
    simp only [subject, Prod.mk.injEq] at h
    simp only [key, h]

end Diagnostic

/-! ## The order of spans -/

/-- What spans are ordered by: file, start and end. -/
def Span.rank (s : Span) : Nat ×ₗ Nat ×ₗ Nat := toLex (s.file.toNat, toLex (s.start.toNat, s.stop.toNat))

theorem Span.rank_injective {s t : Span} (h : s.rank = t.rank) : s = t := by
  obtain ⟨hfile, hstart, hstop⟩ :
      s.file.toNat = t.file.toNat ∧ s.start.toNat = t.start.toNat ∧ s.stop.toNat = t.stop.toNat := by
    simpa [rank] using h
  exact eq_of_toNat hfile hstart hstop

theorem Diagnostic.rank_span_le {d d' : Diagnostic} (h : d.rank ≤ d'.rank) : d.span.rank ≤ d'.span.rank := by
  simp only [Diagnostic.rank, Span.rank, Prod.Lex.toLex_le_toLex] at h ⊢
  omega

/-! ## What is dropped -/

namespace Bag

open Diagnostic (subject key_eq_iff)

/-- The finding at place `i` repeats one that stands before it. -/
def IsRepeat (ds : List Diagnostic) (i : Nat) : Prop := ∃ j < i, (ds[j]?).map subject = (ds[i]?).map subject

instance (ds : List Diagnostic) (i : Nat) : Decidable (IsRepeat ds i) :=
  inferInstanceAs (Decidable (∃ j < i, (ds[j]?).map subject = (ds[i]?).map subject))

theorem isRepeat_middle (before : List Diagnostic) (d : Diagnostic) (after : List Diagnostic) :
    IsRepeat (before ++ d :: after) before.length ↔ d.subject ∈ before.map subject := by
  have hlast : (before ++ d :: after)[before.length]? = some d := by simp
  rw [IsRepeat, hlast, List.mem_iff_getElem?]
  constructor
  · rintro ⟨j, hj, hsame⟩
    rw [List.getElem?_append_left hj] at hsame
    exact ⟨j, by rw [List.getElem?_map, hsame, Option.map_some]⟩
  · rintro ⟨j, hsame⟩
    have hj : j < before.length := by
      have hbound := (List.getElem?_eq_some_iff.mp hsame).1
      rwa [List.length_map] at hbound
    refine ⟨j, hj, ?_⟩
    rw [List.getElem?_append_left hj, ← List.getElem?_map, hsame, Option.map_some]

/-- `seen` holds the keys of exactly these findings. -/
def Records (seen : Std.HashSet Bytes) (ds : List Diagnostic) : Prop :=
  ∀ d : Diagnostic, seen.contains d.key = true ↔ d.subject ∈ ds.map subject

variable {seen : Std.HashSet Bytes} {before : List Diagnostic} {d : Diagnostic}

theorem records_empty : Records {} [] := by
  intro d
  simp

/-- A finding whose key is there already adds nothing. -/
theorem Records.skip (h : Records seen before) (hd : seen.contains d.key = true) : Records seen (before ++ [d]) := by
  intro e
  have hmem := (h d).mp hd
  rw [h e, List.map_append, List.mem_append]
  refine ⟨.inl, ?_⟩
  rintro (he | he)
  · exact he
  · rw [List.map_singleton, List.mem_singleton] at he
    rwa [he]

theorem Records.insert (h : Records seen before) (d : Diagnostic) : Records (seen.insert d.key) (before ++ [d]) := by
  intro e
  rw [Std.HashSet.contains_insert, Bool.or_eq_true, h e, beq_iff_eq, key_eq_iff, List.map_append, List.mem_append,
    List.map_singleton, List.mem_singleton]
  exact ⟨fun he => he.symm.imp_right Eq.symm, fun he => he.symm.imp_left Eq.symm⟩

/-- What is left of a list that follows `before`: the findings whose places hold no repeats. -/
theorem distinct_eq (h : Records seen before) (ds : List Diagnostic) :
    distinct seen ds =
      ((ds.zipIdx before.length).filter fun p => ¬IsRepeat (before ++ ds) p.2).map Prod.fst := by
  induction ds generalizing seen before with
  | nil => rfl
  | cons d ds ih =>
    -- dropped or not, `d` is among what stands before the rest, so places go on counting from it
    have hnext : before ++ d :: ds = before ++ [d] ++ ds := by simp
    have hlength : before.length + 1 = (before ++ [d]).length := by simp
    have hrepeat := (isRepeat_middle before d ds).trans (h d).symm
    rw [distinct, List.zipIdx_cons]
    by_cases hseen : seen.contains d.key = true
    · rw [if_pos hseen, List.filter_cons_of_neg (by simp [hrepeat, hseen]), ih (h.skip hseen), hnext, hlength]
    · rw [if_neg hseen, List.filter_cons_of_pos (by simp [hrepeat, hseen]), List.map_cons, ih (h.insert d), hnext, hlength]

theorem mem_subjects_distinct (h : Records seen before) (ds : List Diagnostic) (t : Code × Span × Bytes) :
    t ∈ (distinct seen ds).map subject ↔ t ∈ ds.map subject ∧ t ∉ before.map subject := by
  induction ds generalizing seen before with
  | nil => simp [distinct]
  | cons d ds ih =>
    have hd := h d
    unfold distinct
    split
    · rename_i hseen
      have hmem := hd.mp hseen
      rw [ih h, List.map_cons, List.mem_cons]
      grind
    · rename_i hseen
      have hmem := mt hd.mpr hseen
      rw [List.map_cons, List.mem_cons, ih (h.insert d), List.map_cons, List.mem_cons, List.map_append, List.mem_append,
        List.map_singleton, List.mem_singleton]
      grind

theorem nodup_subjects_distinct (h : Records seen before) (ds : List Diagnostic) :
    ((distinct seen ds).map subject).Nodup := by
  induction ds generalizing seen before with
  | nil => exact List.nodup_nil
  | cons d ds ih =>
    unfold distinct
    split
    · exact ih h
    · rw [List.map_cons, List.nodup_cons, mem_subjects_distinct (h.insert d)]
      exact ⟨fun hd => hd.2 (by simp), ih (h.insert d)⟩

theorem toList_dedup (b : Bag) :
    b.dedup.toList = (b.toList.zipIdx.filter fun p => ¬IsRepeat b.toList p.2).map Prod.fst :=
  distinct_eq records_empty b.toList

theorem mem_subjects_dedup (b : Bag) (t : Code × Span × Bytes) :
    t ∈ b.dedup.toList.map subject ↔ t ∈ b.toList.map subject := by
  refine (mem_subjects_distinct records_empty b.toList t).trans ?_
  simp

theorem nodup_subjects_dedup (b : Bag) : (b.dedup.toList.map subject).Nodup :=
  nodup_subjects_distinct records_empty b.toList

theorem sublist_dedup (b : Bag) : b.dedup.toList.Sublist b.toList := by
  have hkept : (b.toList.zipIdx.filter fun p => ¬IsRepeat b.toList p.2).Sublist b.toList.zipIdx := List.filter_sublist
  have hfirst := hkept.map Prod.fst
  rwa [← toList_dedup, List.zipIdx_map_fst] at hfirst

/-- A bag without repeats stays as it is. -/
theorem dedup_of_nodup {b : Bag} (h : (b.toList.map subject).Nodup) : b.dedup = b := by
  have hall : b.dedup.toList = b.toList := by
    rw [toList_dedup, List.filter_eq_self.mpr, List.zipIdx_map_fst]
    rintro ⟨d, i⟩ hmem
    have hi : (b.toList.map subject)[i]? = some d.subject := by
      rw [List.getElem?_map, List.mem_zipIdx_iff_getElem?.mp hmem, Option.map_some]
    suffices hno : ¬IsRepeat b.toList i by simpa using hno
    rintro ⟨j, hj, hsame⟩
    rw [← List.getElem?_map, ← List.getElem?_map] at hsame
    have hbound := (List.getElem?_eq_some_iff.mp hi).1
    exact Nat.ne_of_lt hj ((List.getElem?_inj (Nat.lt_trans hj hbound) h).mp hsame)
  have hitems : b.dedup.items = b.items := Array.toList_inj.mp hall
  rw [show b.dedup = { b with items := b.dedup.items } from rfl, hitems]

/-! ## Sorted before or after -/

theorem spans_ordered {ds : List Diagnostic} {b : Bag} (h : ds.Sublist b.sort.toList) :
    (ds.map Diagnostic.span).Pairwise fun s t => s.rank ≤ t.rank := by
  rw [List.pairwise_map]
  exact ((sortedFrom_sort b).ordered.sublist h).imp Diagnostic.rank_span_le

theorem subjects_perm (b : Bag) :
    (b.sort.dedup.toList.map subject).Perm (b.dedup.sort.toList.map subject) := by
  have hsort : ∀ b : Bag, (b.sort.toList.map subject).Perm (b.toList.map subject) :=
    fun b => (sortedFrom_sort b).perm.map subject
  have hafter : (b.dedup.sort.toList.map subject).Nodup := (hsort b.dedup).nodup_iff.mpr (nodup_subjects_dedup b)
  rw [List.perm_ext_iff_of_nodup (nodup_subjects_dedup b.sort) hafter]
  intro t
  rw [mem_subjects_dedup, (hsort b).mem_iff, (hsort b.dedup).mem_iff, mem_subjects_dedup]

theorem spans_eq (b : Bag) :
    b.sort.dedup.toList.map Diagnostic.span = b.dedup.sort.toList.map Diagnostic.span := by
  have hspans : ∀ ds : List Diagnostic, ds.map Diagnostic.span = (ds.map subject).map fun t => t.2.1 := by
    intro ds
    rw [List.map_map]
    rfl
  have hperm : (b.sort.dedup.toList.map Diagnostic.span).Perm (b.dedup.sort.toList.map Diagnostic.span) := by
    rw [hspans, hspans]
    exact (subjects_perm b).map _
  refine List.Perm.eq_of_pairwise (fun s t _ _ hst hts => ?_) (spans_ordered (sublist_dedup b.sort))
    (spans_ordered (List.Sublist.refl _)) hperm
  exact Span.rank_injective (le_antisymm hst hts)

/-- Dropping repeats leaves exactly the findings with a code, span and message that none before them has, in their order,
and there is nothing more to drop then. The compared text tells the three for any message. Sorting before and sorting
after leave the same codes, spans and messages, and the same spans at the same places. -/
theorem repeats_removed (b : Bag) :
    b.dedup.toList = (b.toList.zipIdx.filter fun p => ¬IsRepeat b.toList p.2).map Prod.fst ∧
    b.dedup.dedup = b.dedup ∧
    (∀ d d' : Diagnostic, d.key = d'.key ↔ d.subject = d'.subject) ∧
    (b.sort.dedup.toList.map subject).Perm (b.dedup.sort.toList.map subject) ∧
    b.sort.dedup.toList.map Diagnostic.span = b.dedup.sort.toList.map Diagnostic.span :=
  ⟨toList_dedup b, dedup_of_nodup (nodup_subjects_dedup b), fun _ _ => key_eq_iff, subjects_perm b, spans_eq b⟩

end Bag

end Bracescript
