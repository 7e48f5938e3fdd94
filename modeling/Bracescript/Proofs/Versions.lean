import Bracescript.Proofs.BuildNames
import Bracescript.Proofs.DiskPlaces
import Bracescript.Proofs.EntryPoints

/-!
# Versions of files

A set numbers the versions it is given and remembers the newest number for each path. Whatever is added to a set, by
whichever call and under whichever spelling of a path, a version keeps its number and its text, and the number remembered
for a path is the greatest one of its versions.
-/

namespace Bracescript.FileSet

variable {set : FileSet} {id : UInt32} {f : SourceFile}

theorem keptPath_keptPath (path : Bytes) : keptPath (keptPath path) = keptPath path := by
  unfold keptPath
  by_cases hpath : path = []
  · simp [hpath]
  · simp [hpath, Path.clean_ne_nil, Path.clean_clean]

/-! ## One more version -/

theorem toNat_lt_of_get? (h : set.get? id = some f) : id.toNat < set.files.size :=
  (Array.getElem?_eq_some_iff.mp h).1

/-- A version keeps its place when others come. -/
theorem get?_add_of_some (h : set.get? id = some f) (path content : Bytes) (flags : FileFlags) :
    (set.add path content flags).2.get? id = some f := by
  have hne : id.toNat ≠ set.files.size := Nat.ne_of_lt (toNat_lt_of_get? h)
  simp only [add, get?, Array.getElem?_push, hne, if_false]
  exact h

/-- What is new in a set is the version that was added, under the next number. -/
theorem get?_add_cases {path content : Bytes} {flags : FileFlags}
    (h : (set.add path content flags).2.get? id = some f) :
    set.get? id = some f ∨
      id = set.files.size.toUInt32 ∧ f.id = set.files.size.toUInt32 ∧ f.path = keptPath path := by
  simp only [add, get?, Array.getElem?_push] at h
  split at h
  · rename_i hid
    have hnumber : id = set.files.size.toUInt32 := by rw [← hid, Nat.toUInt32, UInt32.ofNat_toNat]
    rw [Option.some.injEq] at h
    subst h
    exact .inr ⟨hnumber, rfl, rfl⟩
  · exact .inl h

theorem latest?_add (set : FileSet) (path content : Bytes) (flags : FileFlags) (p : Bytes) :
    (set.add path content flags).2.latest? p =
      if keptPath p = keptPath path then some set.files.size.toUInt32 else set.latest? p := by
  have hfilter := lookup_filter (fun q => decide (q ≠ keptPath path)) set.newest (keptPath p)
  simp only [latest?, add, lookup_cons_eq]
  by_cases hp : keptPath p = keptPath path
  · simp [hp]
  · simp only [hp, if_false]
    simpa [hp] using hfilter

/-! ## What always holds -/

/-- The greatest number of a version that is kept under a path, or nothing if there is none. -/
inductive IsNewest (set : FileSet) (path : Bytes) : Option UInt32 → Prop
  | found {id : UInt32} {f : SourceFile} (get_eq : set.get? id = some f) (path_eq : f.path = path)
    (greatest : ∀ id' f', set.get? id' = some f' → f'.path = path → id' ≤ id) : IsNewest set path (some id)
  | absent (none_kept : ∀ id f, set.get? id = some f → f.path ≠ path) : IsNewest set path none

theorem isNewest_added (hroom : set.files.size < UInt32.size) (path content : Bytes) (flags : FileFlags) :
    IsNewest (set.add path content flags).2 (keptPath path) (some set.files.size.toUInt32) := by
  have hnumber : set.files.size.toUInt32.toNat = set.files.size := UInt32.toNat_ofNat_of_lt hroom
  refine .found (get?_add set hroom path content flags) rfl fun id' f' hget' _ => ?_
  rw [UInt32.le_iff_toNat_le, hnumber]
  rcases get?_add_cases hget' with hold | ⟨hid, -, -⟩
  · exact Nat.le_of_lt (toNat_lt_of_get? hold)
  · exact Nat.le_of_eq (by rw [hid, hnumber])

/-- What is added under another path changes nothing. -/
theorem IsNewest.add {path p : Bytes} {newest : Option UInt32} (h : IsNewest set p newest) (hp : p ≠ keptPath path)
    (content : Bytes) (flags : FileFlags) : IsNewest (set.add path content flags).2 p newest := by
  have hother : ∀ id f, (set.add path content flags).2.get? id = some f → f.path = p → set.get? id = some f := by
    intro id f hget hpath
    rcases get?_add_cases hget with hold | ⟨-, -, hnew⟩
    · exact hold
    · exact absurd (hpath.symm.trans hnew) hp
  cases h with
  | found hget hpath hgreatest =>
    refine .found (get?_add_of_some hget path content flags) hpath ?_
    intro id' f' hget' hpath'
    exact hgreatest id' f' (hother id' f' hget' hpath') hpath'
  | absent hnone =>
    refine .absent ?_
    intro id f hget hpath
    exact hnone id f (hother id f hget hpath) hpath

/-- From any version of a path one comes to the newest. -/
theorem IsNewest.of_get? {newest : Option UInt32} (h : IsNewest set f.path newest) (hget : set.get? id = some f) :
    ∃ id' f', newest = some id' ∧ id ≤ id' ∧ set.get? id' = some f' ∧ f'.path = f.path := by
  cases h with
  | found hget' hpath hgreatest => exact ⟨_, _, rfl, hgreatest id f hget rfl, hget', hpath⟩
  | absent hnone => exact absurd rfl (hnone id f hget)

/-- Numbers, paths and the newest versions belong together. -/
structure Consistent (set : FileSet) : Prop where
  numbered : ∀ id f, set.get? id = some f → f.id = id
  kept : ∀ id f, set.get? id = some f → keptPath f.path = f.path
  newest : ∀ path, IsNewest set (keptPath path) (set.latest? path)

theorem consistent_empty (base : Bytes) : Consistent { start := base } := by
  have hnone : ∀ (id : UInt32) (f : SourceFile), ({ start := base } : FileSet).get? id ≠ some f := by
    intro id f h
    exact absurd (toNat_lt_of_get? h) (Nat.not_lt_zero _)
  exact ⟨fun id f h => absurd h (hnone id f), fun id f h => absurd h (hnone id f),
    fun path => .absent fun id f h => absurd h (hnone id f)⟩

theorem Consistent.add (h : set.Consistent) (hroom : set.files.size < UInt32.size) (path content : Bytes)
    (flags : FileFlags) : (set.add path content flags).2.Consistent := by
  refine ⟨fun id f hget => ?_, fun id f hget => ?_, fun p => ?_⟩
  · rcases get?_add_cases hget with hold | ⟨hid, hnumber, -⟩
    · exact h.numbered id f hold
    · rw [hid, hnumber]
  · rcases get?_add_cases hget with hold | ⟨-, -, hpath⟩
    · exact h.kept id f hold
    · rw [hpath, keptPath_keptPath]
  · rw [latest?_add]
    split
    · rename_i hp
      rw [hp]
      exact isNewest_added hroom path content flags
    · rename_i hp
      exact (h.newest p).add hp content flags

/-! ## Runs -/

/-- A call that brings a version of a file into a set. -/
inductive Call where
  | add (path content : Bytes) (flags : FileFlags)
  | addInMemory (name content : Bytes)
  | load (d : Disk) (path : Bytes)

/-- The set after a call; a file that cannot be read changes nothing. -/
def apply (set : FileSet) : Call → FileSet
  | .add path content flags => (set.add path content flags).2
  | .addInMemory name content => (set.addInMemory name content).2
  | .load d path =>
    match set.load d path with
    | .ok r => r.2
    | .error _ => set

/-- The set after some calls on a new one. -/
def run (base : Bytes) (calls : List Call) : FileSet := calls.foldl apply { start := base }

theorem apply_cases (set : FileSet) (call : Call) :
    set.apply call = set ∨ ∃ path content flags, set.apply call = (set.add path content flags).2 := by
  cases call with
  | add path content flags => exact .inr ⟨path, content, flags, rfl⟩
  | addInMemory name content => exact .inr ⟨name, content, _, rfl⟩
  | load d path =>
    cases hread : d.read path with
    | error fault => exact .inl (by simp only [apply, load, hread, Except.map])
    | ok raw => exact .inr ⟨path, _, _, by simp only [apply, load, hread, Except.map]; rfl⟩

theorem size_le_foldl (set : FileSet) (calls : List Call) : set.files.size ≤ (calls.foldl apply set).files.size := by
  induction calls generalizing set with
  | nil => exact Nat.le_refl _
  | cons call calls ih =>
    refine Nat.le_trans ?_ (ih (set.apply call))
    rcases set.apply_cases call with hsame | ⟨path, content, flags, hadd⟩
    · exact Nat.le_of_eq (congrArg (fun s : FileSet => s.files.size) hsame.symm)
    · rw [hadd, size_add]
      exact Nat.le_succ _

theorem get?_foldl (h : set.get? id = some f) (calls : List Call) : (calls.foldl apply set).get? id = some f := by
  induction calls generalizing set with
  | nil => exact h
  | cons call calls ih =>
    apply ih
    rcases set.apply_cases call with hsame | ⟨path, content, flags, hadd⟩
    · rw [hsame]
      exact h
    · rw [hadd]
      exact get?_add_of_some h path content flags

theorem Consistent.foldl (h : set.Consistent) (calls : List Call)
    (hroom : (calls.foldl apply set).files.size ≤ UInt32.size) : (calls.foldl apply set).Consistent := by
  induction calls generalizing set with
  | nil => exact h
  | cons call calls ih =>
    apply ih _ hroom
    rcases set.apply_cases call with hsame | ⟨path, content, flags, hadd⟩
    · rw [hsame]
      exact h
    · have hsize := size_le_foldl (set.apply call) calls
      rw [hadd] at hsize ⊢
      rw [size_add] at hsize
      rw [List.foldl_cons, hadd] at hroom
      exact h.add (Nat.lt_of_lt_of_le hsize hroom) path content flags

theorem consistent_run (base : Bytes) (calls : List Call) (hroom : (run base calls).files.size ≤ UInt32.size) :
    (run base calls).Consistent :=
  (consistent_empty base).foldl calls hroom

/-- The set after any calls, as long as there are numbers for the versions: what has a number keeps it and stays as it is,
the newest version of a path is the one with the greatest number, and the path of a version leads to one that is not older
and has the same path. -/
theorem versions_consistent (base : Bytes) (calls : List Call) (hroom : (run base calls).files.size ≤ UInt32.size) :
    (∀ id : UInt32, id.toNat < (run base calls).files.size → ∃ f, (run base calls).get? id = some f ∧ f.id = id ∧
      ∀ more, (run base (calls ++ more)).get? id = some f) ∧
    (∀ path, IsNewest (run base calls) (keptPath path) ((run base calls).latest? path)) ∧
    (∀ id f, (run base calls).get? id = some f → ∃ id' f', (run base calls).latest? f.path = some id' ∧ id ≤ id' ∧
      (run base calls).get? id' = some f' ∧ f'.path = f.path) ∧
    ∀ path, keptPath (keptPath path) = keptPath path := by
  have hset := consistent_run base calls hroom
  refine ⟨fun id hid => ?_, hset.newest, fun id f hget => ?_, keptPath_keptPath⟩
  · obtain ⟨f, hget⟩ : ∃ f, (run base calls).get? id = some f := ⟨_, Array.getElem?_eq_getElem hid⟩
    refine ⟨f, hget, hset.numbered id f hget, fun more => ?_⟩
    rw [run, List.foldl_append]
    exact get?_foldl hget more
  · have hnewest := hset.newest f.path
    rw [hset.kept id f hget] at hnewest
    exact hnewest.of_get? hget

/-- Two versions of one file, under two spellings of its path. -/
def spelledTwice : List Call := [.add "dir/../a" "x" 0, .addInMemory ".//a" "y"]

theorem spelledTwice_consistent :
    (run [] spelledTwice).files.size ≤ UInt32.size ∧ (run [] spelledTwice).latest? "./a/" = some 1 ∧
      IsNewest (run [] spelledTwice) (keptPath "./a/") ((run [] spelledTwice).latest? "./a/") ∧
      (∃ f, (run [] spelledTwice).get? 0 = some f ∧ f.id = 0 ∧ f.content = "x") ∧
      ∃ id' f', (run [] spelledTwice).latest? "a" = some id' ∧ 0 ≤ id' ∧
        (run [] spelledTwice).get? id' = some f' ∧ f'.path = "a" := by
  have hroom : (run [] spelledTwice).files.size ≤ UInt32.size := by decide
  have hfirst : (run [] spelledTwice).get? 0 = some ⟨0, "a", "x", 0⟩ := by decide
  obtain ⟨-, hnewest, hpath, -⟩ := versions_consistent [] spelledTwice hroom
  exact ⟨hroom, by decide, hnewest "./a/", ⟨_, hfirst, rfl, rfl⟩, hpath 0 _ hfirst⟩

end Bracescript.FileSet
