import Bracescript.Build
import Bracescript.Proofs.SettledPaths

/-!
# The names of the files of a build

A file is known by one name however its path is spelled, the name is never empty, and nothing that is done on the way
changes the directory from which it is seen.
-/

namespace Bracescript

namespace Path

theorem clean_clean (path : Bytes) : clean (clean path) = clean path := by
  have hsettled := settled_elements path
  by_cases hne : elements path = []
  · have hbare : clean path = [slash] ∨ clean path = dot := by
      unfold clean
      cases isAbsolute path <;> simp [hne, Bytes.join]
    rcases hbare with h | h
    all_goals
      rw [h]
      decide
  · have helements := elements_render hsettled hne
    rw [clean_eq_render hne, clean_eq_render (by rwa [helements]), helements, isAbsolute_render hsettled]

theorem clean_ne_nil (path : Bytes) : clean path ≠ [] := by
  unfold clean
  dsimp only
  split
  · exact List.cons_ne_nil _ _
  · split
    · decide
    · assumption

theorem clean_congr {path path' : Bytes} (hrooted : isAbsolute path = isAbsolute path')
    (helements : elements path = elements path') : clean path = clean path' := by
  unfold clean
  rw [hrooted, helements]

theorem Settled.dot_notin {rooted : Bool} {es : List Bytes} (h : Settled rooted es) : dot ∉ es := by
  induction h with
  | nil => exact List.not_mem_nil
  | ups _ n =>
    intro hmem
    exact absurd (List.eq_of_mem_replicate hmem) (by decide)
  | name _ he ih =>
    rw [List.mem_append, List.mem_singleton, not_or]
    exact ⟨ih, he.ne_dot.symm⟩

theorem dropCommon_eq (as bs : List Bytes) :
    ∃ common, as = common ++ (dropCommon as bs).1 ∧ bs = common ++ (dropCommon as bs).2 := by
  fun_induction dropCommon as bs with
  | case1 as b bs ih =>
    obtain ⟨common, has, hbs⟩ := ih
    exact ⟨b :: common, congrArg (b :: ·) has, congrArg (b :: ·) hbs⟩
  | case2 | case3 => exact ⟨[], rfl, rfl⟩

theorem join_dropCommon_ne_nil {as bs : List Bytes} (hne : as ≠ bs) (hbs : ∀ x ∈ bs, x ≠ [] ∧ slash ∉ x) :
    Bytes.join [slash] ((dropCommon as bs).1.map (fun _ => dotDot) ++ (dropCommon as bs).2) ≠ [] := by
  obtain ⟨common, hhere, hthere⟩ := dropCommon_eq as bs
  refine join_ne_nil (fun hnil => hne ?_) fun x hx => ?_
  · obtain ⟨hup, hdown⟩ := List.append_eq_nil_iff.mp hnil
    rw [List.map_eq_nil_iff.mp hup, List.append_nil] at hhere
    rw [hdown, List.append_nil] at hthere
    exact hhere.trans hthere.symm
  · rcases List.mem_append.mp hx with hx | hx
    · obtain ⟨_, -, rfl⟩ := List.mem_map.mp hx
      decide
    · exact hbs x (hthere ▸ List.mem_append_right _ hx)

/-- A way from one place to another is never an empty text. -/
theorem relative?_ne_nil {start target rel : Bytes} (h : relative? start target = some rel) : rel ≠ [] := by
  unfold relative? at h
  dsimp only at h
  split at h
  · cases h
    decide
  · rename_i hdiffer
    split at h
    · cases h
    · rename_i hrooted
      split at h
      · split at h
        · cases h
        · cases h
          refine join_dropCommon_ne_nil (fun hsame => ?_) (List.forall_mem_singleton.mpr (by decide))
          exact (settled_elements (clean start)).dot_notin (hsame ▸ List.mem_singleton_self _)
      · split at h
        · cases h
        · cases h
          refine join_dropCommon_ne_nil (fun hsame => hdiffer ?_) fun x => (settled_elements _).of_mem
          have hclean := clean_congr (Decidable.not_not.mp hrooted) hsame
          rwa [clean_clean, clean_clean] at hclean

end Path

theorem displayName_ne_nil (cwd base file : Bytes) : displayName cwd base file ≠ [] := by
  unfold displayName
  dsimp only
  split
  · exact Path.clean_ne_nil file
  · split
    · exact Path.clean_ne_nil file
    · rename_i hrel
      split
      · exact Path.clean_ne_nil file
      · exact Path.relative?_ne_nil hrel

/-- The path by which a set knows a file stands for the same name. -/
theorem displayName_keptPath (cwd base file : Bytes) :
    displayName cwd base (FileSet.keptPath file) = displayName cwd base file := by
  unfold FileSet.keptPath
  split
  · rename_i hnil
    rw [hnil]
  · unfold displayName
    rw [Path.clean_clean]

/-! ## The working directory -/

namespace Disk

variable {d d' : Disk}

theorem cwd_writeAt {p : Place} {content : Bytes} (h : d.writeAt p content = .ok d') : d'.cwd = d.cwd := by
  unfold writeAt at h
  split at h
  · cases h
  · split at h
    · cases h
      rfl
    all_goals cases h

theorem cwd_write {path content : Bytes} (h : d.write path content = .ok d') : d'.cwd = d.cwd := by
  unfold write at h
  split at h
  · cases h
  · rename_i p _
    cases hwrite : d.writeAt p content with
    | error r =>
      rw [hwrite] at h
      cases h
    | ok _ =>
      rw [hwrite] at h
      cases h
      exact cwd_writeAt hwrite

theorem cwd_makeFolder {path : Bytes} (h : d.makeFolder path = .ok d') : d'.cwd = d.cwd := by
  unfold makeFolder at h
  repeat' split at h
  all_goals cases h
  rfl

theorem cwd_makeFolders {path : Bytes} (h : d.makeFolders path = .ok d') : d'.cwd = d.cwd := by
  fun_induction makeFolders d path generalizing d' with
  | case1 =>
    cases h
    rfl
  | case2 | case3 | case4 | case7 => cases h
  | case5 _ _ _ _ above habove _ hmade ih =>
    cases h
    rw [cwd_makeFolder hmade]
    split at habove
    · cases habove
      rfl
    · exact ih habove
  | case6 _ _ _ _ _ habove _ _ _ ih =>
    cases h
    split at habove
    · cases habove
      rfl
    · exact ih habove

theorem cwd_writeDeep {path content : Bytes} (h : d.writeDeep path content = .ok d') : d'.cwd = d.cwd := by
  unfold writeDeep at h
  split at h
  · cases h
  · rename_i hfolders
    rw [cwd_write h, cwd_makeFolders hfolders]

theorem cwd_rename {old new : Bytes} (h : d.rename old new = .ok d') : d'.cwd = d.cwd := by
  unfold rename at h
  repeat' split at h
  all_goals cases h
  all_goals rfl

end Disk

theorem Cache.cwd_put {c : Cache} {d d' : Disk} {key : Digest} {e : CacheEntry} (h : c.put d key e = .ok d') :
    d'.cwd = d.cwd := by
  unfold put at h
  dsimp only at h
  split at h
  · cases h
  · rename_i hfolders
    split at h
    · cases h
    · rename_i hdraft
      rw [Disk.cwd_rename h, Disk.cwd_write hdraft, Disk.cwd_makeFolders hfolders]

end Bracescript
