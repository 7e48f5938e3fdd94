import Mathlib.Algebra.Group.Nat.Defs
import Mathlib.Data.List.GetD
import Bracescript.Cursor

/-!
# Lines and offsets

The line feeds in front of an offset decide its line and its column. A file looks them up in its list of line feeds;
a cursor counts them while it moves. Both give the same answer at every offset of a file that a word can address.
-/

namespace Bracescript

namespace SourceFile

/-! ## The list of line feeds -/

theorem lineFeedsFrom_append (off : UInt32) (a b : Bytes) :
    lineFeedsFrom off (a ++ b) = lineFeedsFrom off a ++ lineFeedsFrom (off + a.length.toUInt32) b := by
  induction a generalizing off with
  | nil => simp [lineFeedsFrom]
  | cons x a ih =>
    have hoff : off + 1 + a.length.toUInt32 = off + (x :: a).length.toUInt32 := by
      simp [Nat.toUInt32, UInt32.ofNat_add, UInt32.add_assoc, UInt32.add_comm]
    simp only [List.cons_append, lineFeedsFrom, ih, hoff]
    split <;> rfl

theorem lineFeedsFrom_bounds {off feed : UInt32} {text : Bytes} (hfit : off.toNat + text.length < 2 ^ 32)
    (h : feed ∈ lineFeedsFrom off text) : off ≤ feed ∧ feed.toNat < off.toNat + text.length := by
  induction text generalizing off with
  | nil => simp [lineFeedsFrom] at h
  | cons b text ih =>
    rw [List.length_cons] at hfit
    have hnext : (off + 1).toNat = off.toNat + 1 := by
      rw [UInt32.toNat_add]
      exact Nat.mod_eq_of_lt (by simp; omega)
    have hrest : feed ∈ lineFeedsFrom (off + 1) text → off ≤ feed ∧ feed.toNat < off.toNat + (text.length + 1) := by
      intro h
      obtain ⟨hle, hlt⟩ := ih (by omega) h
      rw [UInt32.le_iff_toNat_le, hnext] at hle
      exact ⟨UInt32.le_iff_toNat_le.mpr (by omega), by omega⟩
    rw [lineFeedsFrom] at h
    split at h
    · rcases List.mem_cons.mp h with rfl | h
      · exact ⟨UInt32.le_refl _, by simp⟩
      · exact hrest h
    · exact hrest h

/-- The line feeds among the first `n` bytes. -/
def feedsBefore (f : SourceFile) (n : Nat) : List UInt32 := lineFeedsFrom 0 (f.content.take n)

/-- The offset at which a line starts that has these line feeds in front of it. -/
def startAfter (feeds : List UInt32) : UInt32 :=
  match feeds.getLast? with
  | none => 0
  | some feed => feed + 1

/-- The line feeds of a file, divided at an offset: those in front of it are smaller, the others are not. -/
theorem lineFeeds_divided (f : SourceFile) (hfit : f.content.length < 2 ^ 32) (off : UInt32)
    (hoff : off.toNat ≤ f.content.length) :
    ∃ later, f.lineFeeds = f.feedsBefore off.toNat ++ later ∧ (∀ feed ∈ f.feedsBefore off.toNat, feed < off) ∧
      ∀ feed ∈ later, off ≤ feed := by
  have htake : (f.content.take off.toNat).length = off.toNat := by
    rw [List.length_take]
    omega
  have hstart : (0 : UInt32) + (f.content.take off.toNat).length.toUInt32 = off := by
    rw [htake, UInt32.zero_add]
    exact UInt32.ofNat_toNat
  refine ⟨lineFeedsFrom off (f.content.drop off.toNat), ?_, ?_, ?_⟩
  · have hsplit := lineFeedsFrom_append 0 (f.content.take off.toNat) (f.content.drop off.toNat)
    rwa [List.take_append_drop, hstart] at hsplit
  · intro feed h
    have := lineFeedsFrom_bounds (by rw [htake]; simp; omega) h
    rw [UInt32.lt_iff_toNat_lt]
    simpa [htake] using this.2
  · intro feed h
    exact (lineFeedsFrom_bounds (by rw [List.length_drop]; omega) h).1

/-- A position is read off the line feeds in front of the offset. -/
theorem position_eq (f : SourceFile) (hfit : f.content.length < 2 ^ 32) (off : UInt32)
    (hoff : off.toNat ≤ f.content.length) :
    f.position off =
      ⟨(f.feedsBefore off.toNat).length.toUInt32 + 1, off - startAfter (f.feedsBefore off.toNat) + 1⟩ := by
  obtain ⟨later, heq, hbefore, hlater⟩ := f.lineFeeds_divided hfit off hoff
  have htake : f.lineFeeds.takeWhile (· < off) = f.feedsBefore off.toNat := by
    have hnil : later.takeWhile (fun feed => decide (feed < off)) = [] := by
      cases later with
      | nil => rfl
      | cons feed later =>
        have := hlater feed List.mem_cons_self
        rw [List.takeWhile_cons_of_neg]
        simpa using this
    rw [heq, List.takeWhile_append_of_pos (by simpa using hbefore), hnil, List.append_nil]
  rw [position, htake]
  rfl

/-! ## Search by halving -/

/-- The first index from `low` on and below `high` at which `p` holds, or `high`. It is found by halving, so `p` has to
hold from some index on and nowhere in front of it. -/
def firstIndex (p : Nat → Bool) (low high : Nat) : Nat :=
  if low < high then
    if p ((low + high) / 2) then firstIndex p low ((low + high) / 2) else firstIndex p ((low + high) / 2 + 1) high
  else low
termination_by high - low

theorem firstIndex_eq {p : Nat → Bool} {low high k : Nat} (hlow : low ≤ k) (hhigh : k ≤ high)
    (hp : ∀ i < high, p i = true ↔ k ≤ i) : firstIndex p low high = k := by
  fun_induction firstIndex p low high with
  | case1 low high hlt hmid ih =>
    have hk := (hp _ (by omega)).mp hmid
    exact ih hlow hk fun i hi => hp i (by omega)
  | case2 low high hlt hmid ih =>
    have hk : ¬ k ≤ (low + high) / 2 := fun hk => hmid ((hp _ (by omega)).mpr hk)
    exact ih (by omega) hhigh hp
  | case3 low high hlt => omega

/-- The line and column of an offset, with its line found by halving the list of line feeds. -/
def searchPosition (f : SourceFile) (off : UInt32) : LineCol :=
  let line := firstIndex (fun i => off ≤ f.lineFeeds.getD i 0) 0 f.lineFeeds.length
  let lineStart := if line = 0 then 0 else f.lineFeeds.getD (line - 1) 0 + 1
  ⟨(line + 1).toUInt32, off - lineStart + 1⟩

theorem searchPosition_eq (f : SourceFile) (hfit : f.content.length < 2 ^ 32) (off : UInt32)
    (hoff : off.toNat ≤ f.content.length) : f.searchPosition off = f.position off := by
  obtain ⟨later, heq, hbefore, hlater⟩ := f.lineFeeds_divided hfit off hoff
  have hline : firstIndex (fun i => decide (off ≤ f.lineFeeds.getD i 0)) 0 f.lineFeeds.length
      = (f.feedsBefore off.toNat).length := by
    apply firstIndex_eq (Nat.zero_le _) (by simp [heq])
    intro i hi
    rw [decide_eq_true_iff, heq]
    by_cases hk : i < (f.feedsBefore off.toNat).length
    · rw [List.getD_append _ _ _ _ hk, List.getD_eq_getElem _ _ hk]
      have := hbefore _ (List.getElem_mem hk)
      simp only [UInt32.not_le.mpr this, Nat.not_le.mpr hk]
    · have hlen : i - (f.feedsBefore off.toNat).length < later.length := by
        rw [heq, List.length_append] at hi
        omega
      rw [List.getD_append_right _ _ _ _ (by omega), List.getD_eq_getElem _ _ hlen]
      simp [hlater _ (List.getElem_mem hlen), Nat.not_lt.mp hk]
  rw [f.position_eq hfit off hoff, searchPosition, hline]
  have hstart : (if (f.feedsBefore off.toNat).length = 0 then 0
      else f.lineFeeds.getD ((f.feedsBefore off.toNat).length - 1) 0 + 1) = startAfter (f.feedsBefore off.toNat) := by
    rcases List.eq_nil_or_concat (f.feedsBefore off.toNat) with hnil | ⟨feeds, feed, hcons⟩
    · simp [hnil, startAfter]
    · simp [heq, hcons, startAfter, List.concat_eq_append]
  simp only [hstart, Nat.toUInt32, UInt32.ofNat_add]
  rfl

theorem feedsBefore_succ (f : SourceFile) {n : Nat} {b : UInt8} {rest : Bytes} (h : f.content.drop n = b :: rest) :
    f.feedsBefore (n + 1) = f.feedsBefore n ++ if b = 0x0a then [n.toUInt32] else [] := by
  have hlt : n < f.content.length := by
    have := congrArg List.length h
    simp only [List.length_drop, List.length_cons] at this
    omega
  have hb : f.content[n] = b := by
    rw [List.drop_eq_getElem_cons hlt] at h
    exact (List.cons.inj h).1
  have hlen : (f.content.take n).length = n := by
    rw [List.length_take]
    omega
  rw [feedsBefore, feedsBefore, List.take_add_one, List.getElem?_eq_getElem hlt, hb, lineFeedsFrom_append, hlen,
    UInt32.zero_add]
  simp only [Option.toList_some, lineFeedsFrom]

theorem slice_append (f : SourceFile) {a b c : Nat} (hab : a ≤ b) (hbc : b ≤ c) :
    f.slice a b ++ f.slice b c = f.slice a c := by
  have hb : f.content.take b = (f.content.take c).take b := by rw [List.take_take, Nat.min_eq_left hbc]
  have hdrop : (f.content.take c).drop b = ((f.content.take c).drop a).drop (b - a) := by
    rw [List.drop_drop, Nat.add_sub_cancel' hab]
  rw [slice, slice, slice, hb, List.drop_take, hdrop, List.take_append_drop]

end SourceFile

/-! ## Marks and cursors -/

/-- What a mark saves belongs together: the unread bytes, the line and its start are those of the offset. -/
structure Mark.Stands (f : SourceFile) (m : Mark) : Prop where
  off_le : m.off.toNat ≤ f.content.length
  rest_eq : m.rest = f.content.drop m.off.toNat
  line_eq : m.line = (f.feedsBefore m.off.toNat).length.toUInt32 + 1
  lineStart_eq : m.lineStart = SourceFile.startAfter (f.feedsBefore m.off.toNat)

/-- A cursor of the file, at a place that belongs together. -/
structure Cursor.Stands (f : SourceFile) (c : Cursor) : Prop where
  mark : c.toMark.Stands f
  file_eq : c.file = f.id
  content_eq : c.content = f.content

theorem Mark.Stands.pos_eq {f : SourceFile} {m : Mark} (hfit : f.content.length < 2 ^ 32) (h : m.Stands f) :
    m.pos = f.position m.off := by
  rw [f.position_eq hfit m.off h.off_le, Mark.pos, h.line_eq, h.lineStart_eq]

namespace Cursor

variable {f : SourceFile} {c : Cursor}

theorem stands_start (f : SourceFile) : (start f).Stands f :=
  ⟨⟨by simp [start], by simp [start], by simp [start, SourceFile.feedsBefore, SourceFile.lineFeedsFrom],
    by simp [start, SourceFile.feedsBefore, SourceFile.lineFeedsFrom, SourceFile.startAfter]⟩, rfl, rfl⟩

theorem Stands.length_rest (h : c.Stands f) : c.rest.length = f.content.length - c.off.toNat := by
  rw [h.mark.rest_eq, List.length_drop]

/-- One step of a cursor: at the end it stays, else it comes to the next offset of the file. -/
theorem Stands.bump (hfit : f.content.length < 2 ^ 32) (h : c.Stands f) :
    c.bump.Stands f ∧ c.bump.off.toNat = min (c.off.toNat + 1) f.content.length := by
  have hlen := h.length_rest
  have hle := h.mark.off_le
  unfold Cursor.bump
  split
  · rename_i hrest
    rw [hrest, List.length_nil] at hlen
    exact ⟨h, by omega⟩
  · rename_i b rest hrest
    rw [hrest, List.length_cons] at hlen
    have hdrop : f.content.drop c.off.toNat = b :: rest := by rw [← h.mark.rest_eq, hrest]
    have hoff : (c.off + 1).toNat = c.off.toNat + 1 := by
      rw [UInt32.toNat_add]
      exact Nat.mod_eq_of_lt (by simp; omega)
    have hrest' : rest = f.content.drop (c.off.toNat + 1) := by
      rw [← List.drop_drop, hdrop, List.drop_one, List.tail_cons]
    have hfeeds := f.feedsBefore_succ hdrop
    split
    · rename_i hb
      rw [if_pos hb, Nat.toUInt32, UInt32.ofNat_toNat] at hfeeds
      refine ⟨⟨⟨by simp only [hoff]; omega, by simp only [hoff]; exact hrest', ?_, ?_⟩, h.file_eq, h.content_eq⟩,
        by simp only [hoff]; omega⟩
      · simp [hoff, hfeeds, h.mark.line_eq, Nat.toUInt32, UInt32.ofNat_add]
      · simp [hoff, hfeeds, SourceFile.startAfter]
    · rename_i hb
      rw [if_neg hb, List.append_nil] at hfeeds
      refine ⟨⟨⟨by simp only [hoff]; omega, by simp only [hoff]; exact hrest', ?_, ?_⟩, h.file_eq, h.content_eq⟩,
        by simp only [hoff]; omega⟩
      · simp [hoff, hfeeds, h.mark.line_eq]
      · simp [hoff, hfeeds, h.mark.lineStart_eq]

/-- A run of steps of a cursor. -/
theorem Stands.advance (hfit : f.content.length < 2 ^ 32) (h : c.Stands f) (n : Nat) :
    (c.advance n).Stands f ∧ (c.advance n).off.toNat = min (c.off.toNat + n) f.content.length := by
  induction n generalizing c with
  | zero => exact ⟨h, (Nat.min_eq_left h.mark.off_le).symm⟩
  | succ n ih =>
    obtain ⟨hbump, hoff⟩ := h.bump hfit
    obtain ⟨hstands, hadvance⟩ := ih hbump
    refine ⟨hstands, ?_⟩
    rw [Cursor.advance, hadvance, hoff]
    omega

end Cursor

end Bracescript
