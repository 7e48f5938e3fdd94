import Mathlib.Data.List.Nodup
import Bracescript.Build.View

/-!
# The view and what it is told

Every file has its own item, which only progress of that file changes. An item is wrong for good once it is told so, and
otherwise shows what it was told last.
-/

namespace Bracescript

theorem Progress.label?_eq_error {p : Progress} : p.label? = some .error ↔ p.status = .error := by
  unfold label?
  cases p.status with
  | working => cases p.stage <;> simp [Stage.label?]
  | queued | cached | done | error | other _ => simp

namespace ViewItem

/-- What progress does to an item. -/
def told (i : ViewItem) (p : Progress) : ViewItem :=
  if i.path = p.file then
    match p.label? with
    | none => i
    | some label => i.update label p.stage
  else i

variable {i : ViewItem} {p : Progress} {ps : List Progress}

theorem told_of_ne (h : p.file ≠ i.path) : i.told p = i := if_neg h.symm

/-- An error is not taken back. -/
theorem told_of_error (h : i.label = .error) (p : Progress) : i.told p = i := by
  unfold told update
  repeat' split
  all_goals rfl

theorem path_told (i : ViewItem) (p : Progress) : (i.told p).path = i.path := by
  unfold told update
  repeat' split
  all_goals rfl

theorem told_of_label {label : Label} (hpath : p.file = i.path) (hlabel : p.label? = some label) (hi : i.label ≠ .error) :
    i.told p = { i with label, stage := p.stage } := by
  simp only [told, hpath, hlabel, update, hi, if_true, if_false]

theorem label_told_ne_error (hi : i.label ≠ .error) (hp : p.file = i.path → p.status ≠ .error) :
    (i.told p).label ≠ .error := by
  by_cases hpath : p.file = i.path
  · cases hlabel : p.label? with
    | none => simpa [told, hpath, hlabel] using hi
    | some label =>
      rw [told_of_label hpath hlabel hi]
      rintro rfl
      exact hp hpath (Progress.label?_eq_error.mp hlabel)
  · rwa [told_of_ne hpath]

/-! ### All that is told -/

theorem path_foldl_told (i : ViewItem) (ps : List Progress) : (ps.foldl told i).path = i.path := by
  induction ps generalizing i with
  | nil => rfl
  | cons p ps ih => rw [List.foldl_cons, ih, path_told]

theorem foldl_told_of_ne (h : ∀ p ∈ ps, p.file ≠ i.path) : ps.foldl told i = i := by
  induction ps with
  | nil => rfl
  | cons p ps ih =>
    obtain ⟨hp, hps⟩ := List.forall_mem_cons.mp h
    rw [List.foldl_cons, told_of_ne hp, ih hps]

theorem foldl_told_of_error (h : i.label = .error) (ps : List Progress) : ps.foldl told i = i := by
  induction ps with
  | nil => rfl
  | cons p ps ih => rw [List.foldl_cons, told_of_error h, ih]

theorem label_foldl_ne_error (hi : i.label ≠ .error) (h : ∀ p ∈ ps, p.file = i.path → p.status ≠ .error) :
    (ps.foldl told i).label ≠ .error := by
  induction ps generalizing i with
  | nil => exact hi
  | cons p ps ih =>
    obtain ⟨hp, hps⟩ := List.forall_mem_cons.mp h
    refine ih (label_told_ne_error hi hp) fun q hq => ?_
    rw [path_told]
    exact hps q hq

/-- Whatever else an item is told, an error stays. -/
theorem label_foldl_of_error (hmem : p ∈ ps) (hpath : p.file = i.path) (hstatus : p.status = .error) :
    (ps.foldl told i).label = .error := by
  obtain ⟨before, after, rfl⟩ := List.append_of_mem hmem
  rw [List.foldl_append, List.foldl_cons]
  have hlabel : ((before.foldl told i).told p).label = .error := by
    by_cases herror : (before.foldl told i).label = .error
    · rwa [told_of_error herror]
    · rw [told_of_label (hpath.trans (path_foldl_told i before).symm) (Progress.label?_eq_error.mpr hstatus) herror]
  rwa [foldl_told_of_error hlabel]

/-- Without an error an item ends with what it was told last. -/
theorem label_foldl_of_last {before after : List Progress} {label : Label} (hi : i.label ≠ .error)
    (hpath : p.file = i.path) (hlabel : p.label? = some label)
    (hbefore : ∀ q ∈ before, q.file = i.path → q.status ≠ .error) (hafter : ∀ q ∈ after, q.file ≠ i.path) :
    ((before ++ p :: after).foldl told i).label = label := by
  rw [List.foldl_append, List.foldl_cons,
    told_of_label (hpath.trans (path_foldl_told i before).symm) hlabel (label_foldl_ne_error hi hbefore)]
  rw [foldl_told_of_ne fun q hq => ?_]
  rw [path_foldl_told]
  exact hafter q hq

end ViewItem

namespace BuildView

variable {path : Bytes} {f : ViewItem → ViewItem} {items : List ViewItem} {v : BuildView}

theorem updateFirst_of_notin (h : path ∉ items.map ViewItem.path) : updateFirst path f items = items := by
  induction items with
  | nil => rfl
  | cons i items ih =>
    rw [List.map_cons, List.mem_cons, not_or] at h
    rw [updateFirst, if_neg (Ne.symm h.1), ih h.2]

theorem updateFirst_eq_map (h : (items.map ViewItem.path).Nodup) :
    updateFirst path f items = items.map fun i => if i.path = path then f i else i := by
  induction items with
  | nil => rfl
  | cons i items ih =>
    rw [List.map_cons, List.nodup_cons] at h
    rw [updateFirst, List.map_cons, ← ih h.2]
    split
    · rename_i hpath
      rw [updateFirst_of_notin (hpath ▸ h.1)]
    · rfl

/-- Where the items have names of their own each is told by itself. -/
theorem items_apply (hdistinct : (v.items.map ViewItem.path).Nodup) (hnamed : [] ∉ v.items.map ViewItem.path)
    (p : Progress) : (v.apply p).items = v.items.map (·.told p) := by
  unfold apply
  split
  · rename_i hempty
    have hothers : ∀ i ∈ v.items, i.told p = i := by
      intro i hi
      refine ViewItem.told_of_ne fun hpath => hnamed ?_
      rw [← List.isEmpty_iff.mp hempty, hpath]
      exact List.mem_map_of_mem hi
    exact ((List.map_congr_left hothers).trans (List.map_id _)).symm
  · split
    · rename_i hlabel
      simp [ViewItem.told, hlabel]
    · rename_i hlabel
      have hreverse : (v.items.reverse.map ViewItem.path).Nodup := by
        rw [List.map_reverse]
        exact List.nodup_reverse.mpr hdistinct
      simp only [updateFirst_eq_map hreverse, List.map_reverse, List.reverse_reverse, ViewItem.told, hlabel]

theorem items_foldl_apply (hdistinct : (v.items.map ViewItem.path).Nodup) (hnamed : [] ∉ v.items.map ViewItem.path)
    (ps : List Progress) : (ps.foldl apply v).items = v.items.map fun i => ps.foldl ViewItem.told i := by
  induction ps generalizing v with
  | nil => simp
  | cons p ps ih =>
    have hitems := items_apply hdistinct hnamed p
    have hpaths : (v.apply p).items.map ViewItem.path = v.items.map ViewItem.path := by
      simp [hitems, Function.comp_def, ViewItem.path_told]
    rw [List.foldl_cons, ih (hpaths ▸ hdistinct) (hpaths ▸ hnamed), hitems, List.map_map]
    rfl

/-- The view fails when it is told that the whole build did. -/
theorem failed_apply (v : BuildView) (p : Progress) :
    (v.apply p).failed = (v.failed || (p.file.isEmpty && p.status = .error)) := by
  unfold apply
  split
  · rename_i hempty
    simp [hempty]
  · rename_i hnamed
    split <;> simp [hnamed]

theorem failed_foldl_apply (v : BuildView) (ps : List Progress) :
    (ps.foldl apply v).failed = (v.failed || ps.any fun p => p.file.isEmpty && p.status = .error) := by
  induction ps generalizing v with
  | nil => simp
  | cons p ps ih => rw [List.foldl_cons, ih, failed_apply, List.any_cons, Bool.or_assoc]

end BuildView

end Bracescript
