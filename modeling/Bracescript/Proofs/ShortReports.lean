import Bracescript.Diagnostic.Short
import Bracescript.Proofs.Sorting

/-!
# Short reports and the order of arrival

A short report is sorted by path, position and code. Lines that have all three in common stand in the order in which their
findings came, so the report does not depend on that order exactly if such lines can change places.
-/

namespace Bracescript

namespace ShortLine

variable {a b c : ShortLine}

theorem le_iff : a.le b = true ↔ a.path ≠ b.path ∧ a.path ≤ b.path ∨ a.path = b.path ∧
    (a.pos.line.toNat < b.pos.line.toNat ∨ a.pos.line.toNat = b.pos.line.toNat ∧
      (a.pos.col.toNat < b.pos.col.toNat ∨ a.pos.col.toNat = b.pos.col.toNat ∧ a.code ≤ b.code)) := by
  have hcode : Bytes.le a.code b.code = true ↔ a.code ≤ b.code := decide_eq_true_iff
  unfold le
  rw [← hcode, ← Sorting.compare_words, ← Sorting.compare_words]
  by_cases hpath : a.path = b.path <;> simp [hpath, Bytes.le]

theorem le_total (a b : ShortLine) : (a.le b || b.le a) = true := by
  rw [Bool.or_eq_true, le_iff, le_iff]
  have hpath := List.le_total a.path b.path
  have hcode := List.le_total a.code b.code
  by_cases hsame : a.path = b.path
  · simp only [hsame, ne_eq, not_true_eq_false, false_and, true_and, false_or]
    grind
  · simp only [hsame, Ne.symm hsame, ne_eq, not_false_eq_true, true_and, false_and, or_false]
    exact hpath

theorem le_trans (a b c : ShortLine) (hab : a.le b = true) (hbc : b.le c = true) : a.le c = true := by
  rw [le_iff] at *
  rcases hab with ⟨hne, hle⟩ | ⟨hpath, hab⟩
  · refine .inl ?_
    rcases hbc with ⟨hne', hle'⟩ | ⟨hpath', -⟩
    · refine ⟨fun hac => hne ?_, List.le_trans hle hle'⟩
      exact List.le_antisymm hle (hac ▸ hle')
    · exact hpath' ▸ ⟨hne, hle⟩
  · rw [hpath]
    refine hbc.imp id fun hbc => ⟨hbc.1, ?_⟩
    have hcode : a.code ≤ b.code → b.code ≤ c.code → a.code ≤ c.code := List.le_trans
    grind

/-- Lines that nothing tells apart when they are sorted. -/
structure SameSpot (a b : ShortLine) : Prop where
  path : a.path = b.path
  pos : a.pos = b.pos
  code : a.code = b.code

/-- Lines that make the same text in either order, each with its notes. -/
def CanSwap (a b : ShortLine) : Prop := a.render ++ b.render = b.render ++ a.render

theorem sameSpot_iff : a.SameSpot b ↔ a.le b = true ∧ b.le a = true := by
  constructor
  · rintro ⟨hpath, hpos, hcode⟩
    simp [le, hpath, hpos, hcode, Bytes.le]
  · rintro ⟨hab, hba⟩
    rw [le_iff] at hab hba
    rcases hab with ⟨hne, hle⟩ | ⟨hpath, hab⟩
    · rcases hba with ⟨-, hle'⟩ | ⟨hpath, -⟩
      · exact absurd (List.le_antisymm hle hle') hne
      · exact absurd hpath.symm hne
    · have hba := hba.resolve_left fun h => h.1 hpath.symm
      have hline : a.pos.line.toNat = b.pos.line.toNat := by omega
      have hcol : a.pos.col.toNat = b.pos.col.toNat := by omega
      have hcode : a.code ≤ b.code ∧ b.code ≤ a.code := by grind
      have hpos : a.pos = b.pos := by
        cases ha : a.pos
        cases hb : b.pos
        simp only [ha, hb, UInt32.toNat_inj] at hline hcol
        rw [hline, hcol]
      exact ⟨hpath, hpos, List.le_antisymm hcode.1 hcode.2⟩

end ShortLine

open ShortLine

theorem shortReport_eq_of_perm {cwd : Bytes} {set : FileSet} {notes : Bool} {ds ds' : List Diagnostic} (hperm : ds'.Perm ds)
    (h : ∀ d ∈ ds, ∀ d' ∈ ds, (ofDiagnostic cwd set notes d).SameSpot (ofDiagnostic cwd set notes d') →
      (ofDiagnostic cwd set notes d).CanSwap (ofDiagnostic cwd set notes d')) :
    shortReport cwd set notes ds' = shortReport cwd set notes ds := by
  have hlines := hperm.map (ofDiagnostic cwd set notes)
  refine Sorting.flatMap_eq_of_perm (List.pairwise_mergeSort le_trans le_total _)
    (List.pairwise_mergeSort le_trans le_total _)
    (((List.mergeSort_perm _ _).trans hlines).trans (List.mergeSort_perm _ _).symm) fun a ha b hb hab hba => ?_
  obtain ⟨d, hd, rfl⟩ := List.mem_map.mp (List.mem_mergeSort.mp ha)
  obtain ⟨d', hd', rfl⟩ := List.mem_map.mp (List.mem_mergeSort.mp hb)
  exact h d hd d' hd' (sameSpot_iff.mpr ⟨hab, hba⟩)

/-- Two findings at the same spot that came first stand side by side in the order in which they came. -/
theorem shortReport_tied {cwd : Bytes} {set : FileSet} {notes : Bool} {d d' : Diagnostic}
    (h : (ofDiagnostic cwd set notes d).SameSpot (ofDiagnostic cwd set notes d')) (ds : List Diagnostic) :
    ∃ before after,
      shortReport cwd set notes (d :: d' :: ds) =
        before ++ ((ofDiagnostic cwd set notes d).render ++ (ofDiagnostic cwd set notes d').render) ++ after ∧
      shortReport cwd set notes (d' :: d :: ds) =
        before ++ ((ofDiagnostic cwd set notes d').render ++ (ofDiagnostic cwd set notes d).render) ++ after := by
  obtain ⟨hab, hba⟩ := sameSpot_iff.mp h
  obtain ⟨before, after, hsorted, hswapped⟩ :=
    Sorting.mergeSort_tied le_trans le_total hab hba (ds.map (ofDiagnostic cwd set notes))
  refine ⟨before.flatMap render, after.flatMap render, ?_, ?_⟩
  · rw [shortReport, List.map_cons, List.map_cons, hsorted]
    simp
  · rw [shortReport, List.map_cons, List.map_cons, hswapped]
    simp

/-- A short report is the same for every order of its findings exactly if the lines of findings that share path, position
and code can change places. -/
theorem shortReport_perm_iff (cwd : Bytes) (set : FileSet) (notes : Bool) (ds : List Diagnostic) :
    (∀ ds', ds'.Perm ds → shortReport cwd set notes ds' = shortReport cwd set notes ds) ↔
      ∀ d ∈ ds, ∀ d' ∈ ds, (ofDiagnostic cwd set notes d).SameSpot (ofDiagnostic cwd set notes d') →
        (ofDiagnostic cwd set notes d).CanSwap (ofDiagnostic cwd set notes d') := by
  refine ⟨fun hsame d hd d' hd' hspot => ?_, fun h ds' hperm => shortReport_eq_of_perm hperm h⟩
  by_cases heq : d = d'
  · rw [heq, CanSwap]
  · -- bring both to the front, once in each order
    have hperm : (d :: d' :: (ds.erase d).erase d').Perm ds :=
      ((List.perm_cons_erase ((List.mem_erase_of_ne (Ne.symm heq)).mpr hd')).cons d).symm.trans
        (List.perm_cons_erase hd).symm
    obtain ⟨before, after, hfirst, hswapped⟩ := shortReport_tied hspot ((ds.erase d).erase d')
    have htexts := (hsame _ hperm).trans (hsame _ ((List.Perm.swap d d' _).trans hperm)).symm
    rw [hfirst, hswapped] at htexts
    exact List.append_cancel_left (List.append_cancel_right htexts)

/-! ### Two findings at one place -/

/-- An unexpected token at the start of the first file. -/
def atStart (message : Bytes) : Diagnostic :=
  { severity := .error, code := .unexpectedToken, message, span := ⟨0, 0, 1⟩ }

/-- One file with one byte. -/
def oneByte : FileSet := (FileSet.add { start := "/base" } "/base/a.uns" "x" 0).2

/-- The report depends on which of two findings at one place came first. -/
theorem atStart_order_shown :
    [atStart "second", atStart "first"].Perm [atStart "first", atStart "second"] ∧
      shortReport "/" oneByte true [atStart "second", atStart "first"] ≠
        shortReport "/" oneByte true [atStart "first", atStart "second"] := by
  refine ⟨List.Perm.swap _ _ _, ?_⟩
  have hspot : (ofDiagnostic "/" oneByte true (atStart "first")).SameSpot (ofDiagnostic "/" oneByte true (atStart "second")) :=
    ⟨rfl, rfl, rfl⟩
  obtain ⟨before, after, hfirst, hsecond⟩ := shortReport_tied hspot []
  rw [hfirst, hsecond]
  intro hsame
  have hlines := List.append_cancel_left (List.append_cancel_right hsame)
  revert hlines
  decide +kernel

end Bracescript
