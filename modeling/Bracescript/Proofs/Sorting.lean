import Mathlib.Order.Lattice

/-!
# Sorted lists

What a stable sort does to findings that compare the same: they keep their order. So a text that is put together from a
sorted list depends on the order of arrival exactly where such findings have texts that cannot change places.
-/

namespace Bracescript.Sorting

/-- A comparison that goes on where two words are the same. -/
theorem compare_words (x y : UInt32) (further : Bool) :
    (if x ≠ y then decide (x < y) else further) = true ↔ x.toNat < y.toNat ∨ x.toNat = y.toNat ∧ further = true := by
  by_cases hxy : x = y
  · simp [hxy]
  · have hne : x.toNat ≠ y.toNat := fun h => hxy (UInt32.toNat_inj.mp h)
    simp [hxy, hne, UInt32.lt_iff_toNat_lt]

/-! ## By a rank -/

section Rank

variable {α β : Type} [LinearOrder β] {le : α → α → Bool} {rank : α → β} (hle : ∀ a b, le a b = true ↔ rank a ≤ rank b)

include hle

theorem le_trans_of_rank (a b c : α) (hab : le a b = true) (hbc : le b c = true) : le a c = true := by
  rw [hle] at *
  exact le_trans hab hbc

theorem le_total_of_rank (a b : α) : (le a b || le b a) = true := by
  rw [Bool.or_eq_true, hle, hle]
  exact le_total (rank a) (rank b)

theorem pairwise_rank (l : List α) : (l.mergeSort le).Pairwise fun a b => rank a ≤ rank b :=
  (List.pairwise_mergeSort (le_trans_of_rank hle) (le_total_of_rank hle) l).imp fun h => (hle _ _).mp h

/-- What has the same rank keeps its order. -/
theorem filter_rank (l : List α) (r : β) :
    ((l.mergeSort le).filter fun a => rank a = r) = l.filter fun a => rank a = r := by
  have htied : (l.filter fun a => rank a = r).Pairwise fun a b => le a b = true := by
    refine List.pairwise_of_forall_mem_list fun a ha b hb => ?_
    have hra : rank a = r := by simpa using (List.mem_filter.mp ha).2
    have hrb : rank b = r := by simpa using (List.mem_filter.mp hb).2
    rw [hle, hra, hrb]
  -- a sorted part of the list is a part of the sorted list
  have hsub := List.sublist_mergeSort (le_trans_of_rank hle) (le_total_of_rank hle) htied List.filter_sublist
  have hfilter := hsub.filter fun a => decide (rank a = r)
  simp only [List.filter_filter, Bool.and_self] at hfilter
  exact (hfilter.eq_of_length ((List.mergeSort_perm l le).filter _).length_eq.symm).symm

end Rank

/-! ## Texts of sorted lists -/

section Texts

variable {α β : Type} {le : α → α → Bool} {text : α → List β}

theorem flatMap_append_comm {x : List β} {l : List α} (h : ∀ a ∈ l, text a ++ x = x ++ text a) :
    l.flatMap text ++ x = x ++ l.flatMap text := by
  induction l with
  | nil => simp
  | cons a l ih =>
    rw [List.flatMap_cons, List.append_assoc, ih fun b hb => h b (List.mem_cons_of_mem _ hb), ← List.append_assoc,
      h a List.mem_cons_self, List.append_assoc]

/-- Two sorted lists of the same things have the same text if the texts of what compares the same can change places. -/
theorem flatMap_eq_of_perm {s s' : List α} (hs : s.Pairwise fun a b => le a b = true)
    (hs' : s'.Pairwise fun a b => le a b = true) (hperm : s'.Perm s)
    (hcomm : ∀ a ∈ s, ∀ b ∈ s, le a b = true → le b a = true → text a ++ text b = text b ++ text a) :
    s'.flatMap text = s.flatMap text := by
  induction s generalizing s' with
  | nil => rw [hperm.eq_nil]
  | cons a s ih =>
    -- what stands before `a` in the other list compares the same as `a`, so `a` can be taken to the front
    obtain ⟨before, after, rfl⟩ := List.append_of_mem (hperm.mem_iff.mpr List.mem_cons_self)
    have hrest : (before ++ after).Perm s := (List.perm_middle.symm.trans hperm).cons_inv
    have hmem : ∀ b ∈ before, b ∈ s := fun b hb => hrest.mem_iff.mp (List.mem_append_left _ hb)
    have hfront : ∀ b ∈ before, text b ++ text a = text a ++ text b := by
      intro b hb
      have hba : le b a = true := (List.pairwise_append.mp hs').2.2 b hb a List.mem_cons_self
      have hab : le a b = true := List.rel_of_pairwise_cons hs (hmem b hb)
      exact hcomm b (List.mem_cons_of_mem _ (hmem b hb)) a List.mem_cons_self hba hab
    have hsorted : (before ++ after).Pairwise fun a b => le a b = true :=
      hs'.sublist ((List.sublist_cons_self a after).append_left before)
    have htexts := ih hs.tail hsorted hrest fun b hb c hc => hcomm b (List.mem_cons_of_mem _ hb) c (List.mem_cons_of_mem _ hc)
    rw [List.flatMap_cons, ← htexts, List.flatMap_append, List.flatMap_append, List.flatMap_cons, ← List.append_assoc,
      flatMap_append_comm hfront, List.append_assoc]

/-- A list that was cut open to put something in is cut at the same place again. -/
theorem cut_again (p : α → Bool) (l : List α) {c : α} (hc : p c = false) :
    (l.takeWhile p ++ c :: l.dropWhile p).takeWhile p = l.takeWhile p ∧
      (l.takeWhile p ++ c :: l.dropWhile p).dropWhile p = c :: l.dropWhile p := by
  have hfront : ∀ x ∈ l.takeWhile p, p x = true := List.all_eq_true.mp List.all_takeWhile
  rw [List.takeWhile_append_of_pos hfront, List.dropWhile_append_of_pos hfront]
  simp [hc]

variable (htrans : ∀ a b c, le a b = true → le b c = true → le a c = true) (htotal : ∀ a b, (le a b || le b a) = true)

include htrans htotal

/-- A first element is put in front of all that does not come before it. -/
theorem mergeSort_cons_eq (a : α) (l : List α) :
    (a :: l).mergeSort le =
      ((l.mergeSort le).takeWhile fun b => !le a b) ++ a :: (l.mergeSort le).dropWhile fun b => !le a b := by
  obtain ⟨before, after, hall, hrest, hbefore⟩ := List.mergeSort_cons htrans htotal a l
  have hsorted := List.pairwise_mergeSort htrans htotal (a :: l)
  rw [hall] at hsorted
  have hafter : ∀ b ∈ after, le a b = true := fun b hb => List.rel_of_pairwise_cons (List.pairwise_append.mp hsorted).2.1 hb
  have hstop : after.takeWhile (fun b => !le a b) = [] ∧ after.dropWhile (fun b => !le a b) = after := by
    cases after with
    | nil => exact ⟨rfl, rfl⟩
    | cons b after => simp [hafter b List.mem_cons_self]
  rw [hall, hrest, List.takeWhile_append_of_pos hbefore, List.dropWhile_append_of_pos hbefore, hstop.1, hstop.2,
    List.append_nil]

/-- Two elements that compare the same stand side by side, in the order in which they came first. -/
theorem mergeSort_tied {a b : α} (hab : le a b = true) (hba : le b a = true) (l : List α) :
    ∃ before after, (a :: b :: l).mergeSort le = before ++ a :: b :: after ∧
      (b :: a :: l).mergeSort le = before ++ b :: a :: after := by
  have hsame : ∀ c, le a c = le b c := fun c =>
    Bool.eq_iff_iff.mpr ⟨fun h => htrans b a c hba h, fun h => htrans a b c hab h⟩
  have hself : le b b = true := htrans b a b hba hab
  refine ⟨(l.mergeSort le).takeWhile fun c => !le b c, (l.mergeSort le).dropWhile fun c => !le b c, ?_, ?_⟩
  · have hcut := cut_again (fun c => !le b c) (l.mergeSort le) (congrArg not hself)
    rw [mergeSort_cons_eq htrans htotal a (b :: l), mergeSort_cons_eq htrans htotal b l]
    simp only [hsame]
    rw [hcut.1, hcut.2]
  · have hcut := cut_again (fun c => !le b c) (l.mergeSort le) (congrArg not hba)
    rw [mergeSort_cons_eq htrans htotal b (a :: l), mergeSort_cons_eq htrans htotal a l]
    simp only [hsame]
    rw [hcut.1, hcut.2]

end Texts

end Bracescript.Sorting
