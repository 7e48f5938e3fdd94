import Bracescript.Watch

/-!
# What a batch tells of a file

Between two batches a path gathers the bits of all that happened to it. The bits are a set: they tell what happened, and
neither how often nor in which order. So a batch calls a file gone exactly if nothing but losses happened to it, whatever
happened last.
-/

namespace Bracescript

/-! ## Single incidents -/

/-- One thing that happens to a file. -/
inductive Incident where
  | create
  | write
  | remove
  | rename
  deriving DecidableEq

namespace Incident

def bit : Incident → Changes
  | create => Changes.create
  | write => Changes.write
  | remove => Changes.remove
  | rename => Changes.rename

/-- Whether the file is gone after it. -/
def isLoss : Incident → Bool
  | create | write => false
  | remove | rename => true

theorem has_loss (i : Incident) : i.bit.has (Changes.remove ||| Changes.rename) = i.isLoss := by cases i <;> decide

theorem has_gain (i : Incident) : i.bit.has (Changes.create ||| Changes.write) = !i.isLoss := by cases i <;> decide

end Incident

namespace Changes

/-- All that happened, as one set. -/
def union (whats : List Changes) : Changes := whats.foldl (· ||| ·) 0

theorem union_concat (whats : List Changes) (what : Changes) : union (whats ++ [what]) = union whats ||| what := by
  simp [union]

theorem has_or (a b bits : Changes) : (a ||| b).has bits = (a.has bits || b.has bits) := by
  have hzero : (a ||| b) &&& bits = 0 ↔ a &&& bits = 0 ∧ b &&& bits = 0 := by
    simp only [← UInt8.toNat_inj, UInt8.toNat_and, UInt8.toNat_or, Nat.and_or_distrib_right, UInt8.toNat_zero,
      Nat.or_eq_zero_iff]
  rw [Bool.eq_iff_iff]
  simp only [has, Bool.or_eq_true, bne_iff_ne, ne_eq, hzero, Decidable.not_and_iff_not_or_not]

theorem has_foldl (whats : List Changes) (old bits : Changes) :
    (whats.foldl (· ||| ·) old).has bits = (old.has bits || whats.any (·.has bits)) := by
  induction whats generalizing old with
  | nil => simp
  | cons what whats ih => rw [List.foldl_cons, ih, has_or, List.any_cons, Bool.or_assoc]

theorem has_union (whats : List Changes) (bits : Changes) : (union whats).has bits = whats.any (·.has bits) := by
  simp [union, has_foldl, show has 0 bits = false by simp [has]]

end Changes

/-- The set of some incidents is that of a lost file exactly if each of them is a loss. -/
theorem Change.removed_union_iff (path : Bytes) {incidents : List Incident} (hne : incidents ≠ []) :
    (Change.mk path (.union (incidents.map Incident.bit))).removed = true ↔ ∀ i ∈ incidents, i.isLoss = true := by
  obtain ⟨first, more, rfl⟩ := List.exists_cons_of_ne_nil hne
  simp only [removed, Changes.has_union, List.any_map, Function.comp_def, Incident.has_loss, Incident.has_gain]
  grind

/-! ## Between two batches -/

namespace Collector

/-- The collector after some notes, each of a path and what happened to it. -/
def addAll (c : Collector) (notes : List (Bytes × Changes)) : Collector :=
  notes.foldl (fun c note => (c.add note.1 note.2).2) c

/-- What is recorded of the path `key`, in the order of the notes: those of paths that matter and that are `key` when cleaned. -/
def recorded (c : Collector) (key : Bytes) (notes : List (Bytes × Changes)) : List Changes :=
  (notes.filter fun note => note.2 ≠ 0 && c.isRelevant note.1 && Path.clean note.1 = key).map (·.2)

/-- The one entry of a path holds all that was recorded of it. -/
def Tells (pending : List Change) (key : Bytes) (whats : List Changes) : Prop :=
  (pending.filter fun c => c.path = key) = if whats = [] then [] else [⟨key, .union whats⟩]

variable {c : Collector} {key path : Bytes} {what : Changes} {whats : List Changes} {pending : List Change}

theorem filter_record_of_ne (h : path ≠ key) (what : Changes) (pending : List Change) :
    ((record path what pending).filter fun c => c.path = key) = pending.filter fun c => c.path = key := by
  induction pending with
  | nil => simp [record, h]
  | cons first more ih =>
    unfold record
    split
    · rename_i hfirst
      simp [hfirst, h]
    · simp only [List.filter_cons, ih]

theorem record_of_free (h : (pending.filter fun c => c.path = path) = []) :
    record path what pending = pending ++ [⟨path, what⟩] := by
  induction pending with
  | nil => rfl
  | cons first more ih =>
    rw [List.filter_eq_nil_iff] at h ih
    have hfirst : first.path ≠ path := by simpa using h first List.mem_cons_self
    rw [record, if_neg hfirst, ih fun c hc => h c (List.mem_cons_of_mem _ hc), List.cons_append]

theorem filter_record_of_taken {old : Changes} (h : (pending.filter fun c => c.path = path) = [⟨path, old⟩]) :
    ((record path what pending).filter fun c => c.path = path) = [⟨path, old ||| what⟩] := by
  induction pending with
  | nil => cases h
  | cons first more ih =>
    by_cases hfirst : first.path = path
    · rw [List.filter_cons_of_pos (by simpa using hfirst)] at h
      obtain ⟨rfl, hmore⟩ := List.cons.inj h
      rw [record, if_pos rfl, List.filter_cons_of_pos (by simp), hmore]
    · rw [List.filter_cons_of_neg (by simpa using hfirst)] at h
      rw [record, if_neg hfirst, List.filter_cons_of_neg (by simpa using hfirst), ih h]

/-- A note of another path changes nothing, and one of the path itself adds to its entry. -/
theorem Tells.record (h : Tells pending key whats) (path : Bytes) (what : Changes) :
    Tells (record path what pending) key (whats ++ if path = key then [what] else []) := by
  unfold Tells at h ⊢
  by_cases hpath : path = key
  · subst hpath
    by_cases hnew : whats = []
    · subst hnew
      simp [record_of_free h, h, Changes.union]
    · rw [if_neg hnew] at h
      simp [filter_record_of_taken h, Changes.union_concat]
  · simpa [hpath, filter_record_of_ne hpath] using h

theorem recorded_cons (note : Bytes × Changes) (notes : List (Bytes × Changes)) :
    c.recorded key (note :: notes) = c.recorded key [note] ++ c.recorded key notes := by
  rw [← List.singleton_append, recorded, List.filter_append, List.map_append]
  rfl

theorem ext_add (path : Bytes) (what : Changes) : (c.add path what).2.ext = c.ext := by
  unfold add
  split <;> rfl

theorem recorded_add (path : Bytes) (what : Changes) (notes : List (Bytes × Changes)) :
    (c.add path what).2.recorded key notes = c.recorded key notes := by
  simp only [recorded, isRelevant, ext_add]

theorem Tells.add (h : Tells c.pending key whats) (path : Bytes) (what : Changes) :
    Tells (c.add path what).2.pending key (whats ++ c.recorded key [(path, what)]) := by
  unfold Collector.add
  split
  · rename_i hskip
    have hnone : c.recorded key [(path, what)] = [] := by
      simp only [recorded]
      grind
    simpa [hnone] using h
  · rename_i htaken
    have hone : c.recorded key [(path, what)] = if Path.clean path = key then [what] else [] := by
      simp only [recorded]
      grind
    rw [hone]
    exact h.record (Path.clean path) what

theorem Tells.addAll (h : Tells c.pending key whats) (notes : List (Bytes × Changes)) :
    Tells (c.addAll notes).pending key (whats ++ c.recorded key notes) := by
  induction notes generalizing c whats with
  | nil => simpa [recorded, Collector.addAll] using h
  | cons note notes ih =>
    rw [recorded_cons, ← List.append_assoc, ← recorded_add note.1 note.2 notes]
    exact ih (h.add note.1 note.2)

theorem filter_flush (c : Collector) (key : Bytes) {change : Change}
    (h : (c.pending.filter fun c => c.path = key) = [change]) : (c.flush.1.filter fun c => c.path = key) = [change] := by
  have hperm := (List.mergeSort_perm c.pending fun a b => Bytes.le a.path b.path).filter fun c => decide (c.path = key)
  rw [h] at hperm
  exact List.perm_singleton.mp hperm

/-- The next batch has one change of a path of which something was recorded since the last one. -/
theorem filter_batch {notes : List (Bytes × Changes)} (hne : whats ≠ []) (h : c.recorded key notes = whats) :
    ((c.flush.2.addAll notes).flush.1.filter fun x => x.path = key) = [⟨key, .union whats⟩] := by
  have hempty : Tells c.flush.2.pending key [] := rfl
  have hall : c.flush.2.recorded key notes = whats := h
  have htells := hempty.addAll notes
  rw [hall, Tells, List.nil_append, if_neg hne] at htells
  exact filter_flush _ key htells

/-- What the next batch tells of a path to which something happened: one change, which is a loss exactly if only losses
happened. So the batch is right about the file unless a loss came last and something else before it. -/
theorem batch_removed_iff {c : Collector} {notes : List (Bytes × Changes)} {key : Bytes} {incidents : List Incident}
    (hne : incidents ≠ []) (hrecorded : c.recorded key notes = incidents.map Incident.bit) :
    ∃ change : Change, ((c.flush.2.addAll notes).flush.1.filter fun x => x.path = key) = [change] ∧
      (change.removed = true ↔ ∀ i ∈ incidents, i.isLoss = true) ∧
      ((change.removed = true ↔ (incidents.getLast hne).isLoss = true) ↔
        ¬((incidents.getLast hne).isLoss = true ∧ ∃ i ∈ incidents, i.isLoss = false)) := by
  have hremoved := Change.removed_union_iff key hne
  refine ⟨_, filter_batch (by simpa using hne) hrecorded, hremoved, ?_⟩
  rw [hremoved]
  have hlast : incidents.getLast hne ∈ incidents := List.getLast_mem hne
  constructor
  · rintro hright ⟨hloss, i, hi, hgain⟩
    rw [hright.mpr hloss i hi] at hgain
    cases hgain
  · intro hright
    refine ⟨fun hall => hall _ hlast, fun hloss i hi => ?_⟩
    exact (Bool.eq_false_or_eq_true _).resolve_right fun hgain => hright ⟨hloss, i, hi, hgain⟩

/-- A collector that cares for sources. -/
def ofSources : Collector := { ext := ".uns" }

/-- A file that is removed and moved away under two spellings of its path, with other changes in between. -/
def lostTwice : List (Bytes × Changes) :=
  [("./a.uns", Changes.remove), ("b.uns", Changes.write), (".x.uns", Changes.create), ("a.uns", Changes.rename)]

theorem lostTwice_removed :
    ofSources.recorded "a.uns" lostTwice = [Incident.remove, Incident.rename].map Incident.bit ∧
      ∃ change : Change, ((ofSources.flush.2.addAll lostTwice).flush.1.filter fun x => x.path = ("a.uns" : Bytes)) = [change] ∧
        change.removed = true := by
  have hrecorded : ofSources.recorded "a.uns" lostTwice = [Incident.remove, Incident.rename].map Incident.bit := by decide
  obtain ⟨change, hbatch, hremoved, -⟩ := batch_removed_iff (by decide) hrecorded
  exact ⟨hrecorded, change, hbatch, hremoved.mpr (by decide)⟩

/-- A file that is written and then removed. -/
def writtenThenRemoved : List (Bytes × Changes) := [("a.uns", Changes.write), ("a.uns", Changes.remove)]

/-- The loss comes last, but the batch does not call the file gone. -/
theorem writtenThenRemoved_kept :
    ofSources.recorded "a.uns" writtenThenRemoved = [Incident.write, Incident.remove].map Incident.bit ∧
      ([Incident.write, Incident.remove].getLast (List.cons_ne_nil _ _)).isLoss = true ∧
      ∃ change : Change,
        ((ofSources.flush.2.addAll writtenThenRemoved).flush.1.filter fun x => x.path = ("a.uns" : Bytes)) = [change] ∧
          change.removed = false := by
  have hrecorded : ofSources.recorded "a.uns" writtenThenRemoved = [Incident.write, Incident.remove].map Incident.bit := by
    decide
  exact ⟨hrecorded, rfl, _, filter_batch (by decide) hrecorded, by decide⟩

end Collector

end Bracescript
