import Bracescript.Proofs.CacheEntries
import Bracescript.Proofs.DiskPlaces

/-!
# The folder of a cache

What putting an entry in and dropping all entries do to the folder of a cache: an entry that can be read afterwards was
just put in, or it could be read before.
-/

namespace Bracescript.Cache

open Path Disk

variable {c : Cache} {d d' : Disk} {key : Digest} {name content : Bytes}

/-! ## Paths of a cache -/

/-- The elements of the path of the folder. -/
def way (c : Cache) : List Bytes := elements c.dir ++ [("js" : Bytes)]

def entryName (key : Digest) : Bytes := key.toHex ++ ".mp"

def draftName : Bytes := "tmp-0"

/-- The path of something in the folder. -/
def pathOf (c : Cache) (name : Bytes) : Bytes := render (isAbsolute c.dir) (c.way ++ [name])

theorem isChild_js : IsChild "js" := ⟨by decide, by decide, by decide, by decide⟩

theorem isChild_draftName : IsChild draftName := ⟨by decide, by decide, by decide, by decide⟩

theorem slash_notin_hex : ∀ n : Fin 256, slash ∉ Bytes.hex 2 n.val := by decide +kernel

theorem entryName_eq (key : Digest) : entryName key = key.toHex ++ [0x2e, 0x6d, 0x70] := by
  rw [entryName, show (".mp" : Bytes) = [0x2e, 0x6d, 0x70] by decide]

theorem isChild_entryName (key : Digest) : IsChild (entryName key) := by
  have hlength : 3 ≤ (entryName key).length := by simp [entryName_eq]
  refine ⟨?_, ?_, ?_, ?_⟩
  · intro h
    simp [h] at hlength
  · intro h
    exact absurd (h ▸ hlength) (by decide)
  · intro h
    exact absurd (h ▸ hlength) (by decide)
  · simp only [entryName, Bytes.toHex, List.mem_append, List.mem_flatMap, not_or, not_exists, not_and]
    exact ⟨fun b _ => slash_notin_hex ⟨b.toNat, b.toNat_lt⟩, by decide⟩

theorem entryName_ne_draftName (key : Digest) : entryName key ≠ draftName := by
  intro h
  have hlast := congrArg List.getLast? h
  rw [entryName_eq, show draftName.getLast? = some 0x30 by decide] at hlast
  simp at hlast

theorem settled_way (c : Cache) : Settled (isAbsolute c.dir) c.way := .name (settled_elements c.dir) isChild_js

theorem way_ne_nil (c : Cache) : c.way ≠ [] := by simp [way]

theorem settled_pathOf (c : Cache) (hname : IsChild name) : Settled (isAbsolute c.dir) (c.way ++ [name]) :=
  .name c.settled_way hname

theorem folder_eq (c : Cache) : c.folder = render (isAbsolute c.dir) c.way :=
  join_names c.dir (by simp) (by simpa using isChild_js)

theorem entryPath_eq (c : Cache) (key : Digest) : c.entryPath key = c.pathOf (entryName key) := by
  have hnames : ∀ n ∈ [("js" : Bytes), entryName key], IsChild n := by simp [isChild_js, isChild_entryName]
  have hjoin := join_names c.dir (by simp) hnames
  simpa [entryPath, pathOf, way, entryName] using hjoin

theorem draftPath_eq (c : Cache) : join [c.folder, draftName] = c.pathOf draftName := by
  rw [folder_eq, join_render c.settled_way c.way_ne_nil (by simp) (by simpa using isChild_draftName), pathOf]

/-! ## What can be read -/

/-- Only files stand in the folder. -/
def IsTidy (c : Cache) (d : Disk) : Prop :=
  ∀ p, d.place true c.folder = .ok p → ∀ r e, r ≠ [] → d.get? (p ++ r) = some e → ∃ content, e = .file content

/-- A file that can be read. -/
def Holds (c : Cache) (d : Disk) (name content : Bytes) : Prop := d.look true (c.pathOf name) = .ok (.file content)

theorem place_folder {p : Place} :
    d.place true c.folder = .ok p ↔
      Fits c.folder ∧ Leads d true mostLinks (d.start (isAbsolute c.dir)) c.way p := by
  rw [folder_eq]
  exact place_render c.settled_way c.way_ne_nil

theorem place_pathOf {follow : Bool} {p : Place} (hname : IsChild name) :
    d.place follow (c.pathOf name) = .ok p ↔
      Fits (c.pathOf name) ∧ Leads d follow mostLinks (d.start (isAbsolute c.dir)) (c.way ++ [name]) p :=
  place_render (c.settled_pathOf hname) (by simp)

theorem fits_folder (h : Fits (c.pathOf name)) : Fits c.folder := by
  rw [folder_eq]
  exact h.of_concat c.way_ne_nil

/-- A path into a tidy folder leads to its name in the folder. -/
theorem place_of_tidy {follow : Bool} {p : Place} (htidy : c.IsTidy d) (hname : IsChild name)
    (h : d.place follow (c.pathOf name) = .ok p) :
    ∃ q, d.place true c.folder = .ok q ∧ d.get? q = some .folder ∧ Steps name ∧ Fits (c.pathOf name) ∧ p = q ++ [name] := by
  obtain ⟨hfits, hleads⟩ := (place_pathOf hname).mp h
  obtain ⟨q, hq, hfolder, hsteps, hend⟩ := hleads.of_concat hname
  have hplace := place_folder.mpr ⟨fits_folder hfits, hq⟩
  refine ⟨q, hplace, hfolder, hsteps, hfits, ?_⟩
  rcases hend with heq | ⟨-, target, hlink⟩
  · exact heq
  · obtain ⟨content, hfile⟩ := htidy q hplace [name] _ (by simp) hlink
    cases hfile

theorem place_of_folder {follow : Bool} {q : Place} (hq : d.place true c.folder = .ok q) (hfolder : d.get? q = some .folder)
    (hsteps : Steps name) (hfits : Fits (c.pathOf name)) (hname : IsChild name)
    (hend : follow = false ∨ ∀ target, d.get? (q ++ [name]) ≠ some (.link target)) :
    d.place follow (c.pathOf name) = .ok (q ++ [name]) :=
  (place_pathOf hname).mpr ⟨hfits, (place_folder.mp hq).2.concat hfolder hsteps hend⟩

theorem place_unfollowed {p q : Place} (hq : d.place true c.folder = .ok q) (hname : IsChild name)
    (h : d.place false (c.pathOf name) = .ok p) : p = q ++ [name] ∧ Steps name ∧ Fits (c.pathOf name) := by
  obtain ⟨hfits, hleads⟩ := (place_pathOf hname).mp h
  obtain ⟨q', hq', -, hsteps, hend⟩ := hleads.of_concat hname
  obtain rfl := hq'.unique (place_folder.mp hq).2
  exact ⟨by simpa using hend, hsteps, hfits⟩

theorem get_eq_some {output : Bytes} :
    c.get d key = .ok (some output) ↔
      ∃ content e, c.Holds d (entryName key) content ∧ CacheEntry.decode content = .ok e ∧
        e.schema = CacheEntry.currentSchema ∧ e.output = output := by
  rw [get, read, entryPath_eq]
  simp only [Holds]
  cases d.look true (c.pathOf (entryName key)) with
  | error r => cases r <;> simp [Except.map]
  | ok entry =>
    cases entry with
    | folder => simp [Except.map]
    | link target => simp [Except.map]
    | file content =>
      cases hdecode : CacheEntry.decode content with
      | error f => simp [Except.map, hdecode]
      | ok e => by_cases hschema : e.schema = CacheEntry.currentSchema <;> simp [Except.map, hdecode, hschema]

theorem nothing_below (h : ∀ p, d.place true c.folder = .ok p → ∀ r, r ≠ [] → d.get? (p ++ r) = none) :
    c.IsTidy d ∧ ∀ entry content, IsChild entry → ¬c.Holds d entry content := by
  have htidy : c.IsTidy d := by
    intro p hp r e hr he
    rw [h p hp r hr] at he
    cases he
  refine ⟨htidy, fun entry content hentry hholds => ?_⟩
  obtain ⟨p, hp, hfile⟩ := look_eq_ok.mp hholds
  obtain ⟨q, hq, -, -, -, rfl⟩ := place_of_tidy htidy hentry hp
  rw [h q hq [entry] (by simp)] at hfile
  cases hfile

/-! ## Putting an entry in -/

/-- What is different after a file is put into the folder under the name of a key. -/
structure Stored (c : Cache) (key : Digest) (content : Bytes) (d d' : Disk) : Prop where
  tree : d'.IsTree
  tidy : c.IsTidy d'
  cwd : d'.cwd = d.cwd
  ways : SameWays d d'
  holds : c.Holds d' (entryName key) content
  /-- Nothing else is new in the folder. -/
  before : ∀ name old, IsChild name → name ≠ entryName key → c.Holds d' name old → c.Holds d name old
  outside : ∀ p e, (∀ q name, d'.place true c.folder = .ok q → p ≠ q ++ [name]) → d.get? p = some e → d'.get? p = some e

theorem place_folder_congr {p : Place} (hways : SameWays d d') (hcwd : d'.cwd = d.cwd) (h : d.place true c.folder = .ok p) :
    d'.place true c.folder = .ok p := by
  rw [place_folder] at h ⊢
  rw [start_congr hcwd]
  exact ⟨h.1, h.2.sameWays hways⟩

theorem get?_draft {q r : Place} (content : Bytes) :
    (d.set (q ++ [draftName]) (.file content)).get? r =
      if r = q ++ [draftName] then some (.file content) else d.get? r := get?_set (by simp)

theorem sameWays_draft {q : Place} (htidy : c.IsTidy d) (hq : d.place true c.folder = .ok q) (content : Bytes) :
    SameWays d (d.set (q ++ [draftName]) (.file content)) := by
  have hfile : ∀ e, d.get? (q ++ [draftName]) = some e → ∃ old, e = .file old :=
    fun e he => htidy q hq [draftName] e (by simp) he
  refine ⟨fun r hr => ?_, fun r target => ?_⟩
  · have hne : r ≠ q ++ [draftName] := by
      rintro rfl
      obtain ⟨old, heq⟩ := hfile _ hr
      cases heq
    rw [get?_draft, if_neg hne, hr]
  · rw [get?_draft]
    split
    · rename_i heq
      constructor
      · intro h
        cases h
      · intro h
        obtain ⟨old, heq⟩ := hfile _ (heq ▸ h)
        cases heq
    · rfl

/-- A draft is written into the folder at a place, and becomes the entry. -/
structure Replaced (c : Cache) (key : Digest) (content : Bytes) (q : Place) (d d' : Disk) : Prop where
  place : d.place true c.folder = .ok q
  folder : d.get? q = some .folder
  steps : Steps (entryName key)
  fits : Fits (c.pathOf (entryName key))
  cwd : d'.cwd = d.cwd
  get : ∀ r, d'.get? r = if r = q ++ [entryName key] then some (.file content)
    else if r = q ++ [draftName] then none else d.get? r

theorem replaced_of_draft {d₁ : Disk} (htree : d.IsTree) (htidy : c.IsTidy d)
    (hwrite : d.write (c.pathOf draftName) content = .ok d₁)
    (hrename : d₁.rename (c.pathOf draftName) (c.pathOf (entryName key)) = .ok d') :
    ∃ q, Replaced c key content q d d' := by
  obtain ⟨p, hplace, hdraft, -, rfl⟩ := write_eq_ok hwrite
  obtain ⟨q, hq, hfolder, -, -, rfl⟩ := place_of_tidy htidy isChild_draftName hplace
  have hget := fun r => get?_draft (d := d) (q := q) (r := r) content
  have hq' := place_folder_congr (sameWays_draft htidy hq content) rfl hq
  obtain ⟨e, p, p', -, hp, hp', hcase⟩ := rename_eq_ok hrename
  obtain ⟨rfl, -, -⟩ := place_unfollowed hq' isChild_draftName hp
  obtain ⟨rfl, hsteps, hfits⟩ := place_unfollowed hq' (isChild_entryName key) hp'
  have hne := entryName_ne_draftName key
  rcases hcase with ⟨-, hsame⟩ | ⟨hentry, -, rfl⟩
  · simp [Ne.symm hne] at hsame
  have hentry : d.get? (q ++ [entryName key]) ≠ some .folder := by
    rw [hget, if_neg (by simpa using hne)] at hentry
    exact hentry
  refine ⟨q, hq, hfolder, hsteps, hfits, rfl, fun r => ?_⟩
  exact get?_set_move htree hdraft hentry (by simpa using Ne.symm hne) (by simpa using hne)

namespace Replaced

variable {q : Place}

theorem get_outside {r : Place} (h : Replaced c key content q d d') (hne : ∀ name, r ≠ q ++ [name]) : d'.get? r = d.get? r := by
  rw [h.get, if_neg (hne _), if_neg (hne _)]

/-- What is there afterwards is the entry, or was there before. -/
theorem eq_or_get {r : Place} {e : Entry} (h : Replaced c key content q d d') (he : d'.get? r = some e) :
    r = q ++ [entryName key] ∧ e = .file content ∨ d.get? r = some e := by
  rw [h.get] at he
  split at he
  · cases he
    exact .inl ⟨by assumption, rfl⟩
  · split at he
    · cases he
    · exact .inr he

theorem get_of_not_file {r : Place} {e : Entry} (h : Replaced c key content q d d') (htidy : c.IsTidy d)
    (he : d.get? r = some e) (hno : ∀ content, e ≠ .file content) : d'.get? r = some e := by
  rw [h.get_outside, he]
  rintro name rfl
  obtain ⟨old, rfl⟩ := htidy q h.place [name] e (by simp) he
  exact hno old rfl

theorem sameWays (h : Replaced c key content q d d') (htidy : c.IsTidy d) : SameWays d d' := by
  refine ⟨fun r hr => h.get_of_not_file htidy hr (by simp), fun r target => ⟨fun hr => ?_, fun hr => ?_⟩⟩
  · rcases h.eq_or_get hr with ⟨-, hlink⟩ | hr
    · cases hlink
    · exact hr
  · exact h.get_of_not_file htidy hr (by simp)

theorem place_after (h : Replaced c key content q d d') (htidy : c.IsTidy d) : d'.place true c.folder = .ok q :=
  place_folder_congr (h.sameWays htidy) h.cwd h.place

theorem eq_place {p : Place} (h : Replaced c key content q d d') (htidy : c.IsTidy d)
    (hp : d'.place true c.folder = .ok p) : p = q := by
  rw [h.place_after htidy] at hp
  cases hp
  rfl

theorem isTree (h : Replaced c key content q d d') (htree : d.IsTree) (htidy : c.IsTidy d) : d'.IsTree := by
  have hways := h.sameWays htidy
  intro p name e he
  rcases h.eq_or_get he with ⟨heq, -⟩ | he
  · obtain ⟨rfl, -⟩ := List.append_inj' heq rfl
    exact hways.folder _ h.folder
  · exact hways.folder _ (htree p name e he)

theorem isTidy (h : Replaced c key content q d d') (htidy : c.IsTidy d) : c.IsTidy d' := by
  intro p hp r e hr he
  obtain rfl := h.eq_place htidy hp
  rcases h.eq_or_get he with ⟨-, rfl⟩ | he
  · exact ⟨_, rfl⟩
  · exact htidy p h.place r e hr he

theorem holds (h : Replaced c key content q d d') (htidy : c.IsTidy d) : c.Holds d' (entryName key) content := by
  have hentry : d'.get? (q ++ [entryName key]) = some (.file content) := by rw [h.get, if_pos rfl]
  have hfolder := (h.sameWays htidy).folder _ h.folder
  rw [Holds, look_eq_ok]
  refine ⟨_, place_of_folder (h.place_after htidy) hfolder h.steps h.fits (isChild_entryName key) (.inr ?_), hentry⟩
  simp [hentry]

theorem holds_before {name old : Bytes} (h : Replaced c key content q d d') (htidy : c.IsTidy d) (hname : IsChild name)
    (hne : name ≠ entryName key) (hholds : c.Holds d' name old) : c.Holds d name old := by
  obtain ⟨p, hp, hold⟩ := look_eq_ok.mp hholds
  obtain ⟨q', hplace, -, hsteps, hfits, rfl⟩ := place_of_tidy (h.isTidy htidy) hname hp
  obtain rfl := h.eq_place htidy hplace
  rcases h.eq_or_get hold with ⟨heq, -⟩ | hold
  · exact absurd (by simpa using heq) hne
  · rw [Holds, look_eq_ok]
    exact ⟨_, place_of_folder h.place h.folder hsteps hfits hname (.inr (by simp [hold])), hold⟩

theorem stored (h : Replaced c key content q d d') (htree : d.IsTree) (htidy : c.IsTidy d) : Stored c key content d d' where
  tree := h.isTree htree htidy
  tidy := h.isTidy htidy
  cwd := h.cwd
  ways := h.sameWays htidy
  holds := h.holds htidy
  before _ _ := h.holds_before htidy
  outside _ _ hne he := (h.get_outside fun name => hne q name (h.place_after htidy)).trans he

end Replaced

/-- The folder may have to be made first. -/
theorem Stored.of_grown {d₁ : Disk} (hgrown : Grown d d₁) (hnew : d₁ = d ∨ IsNewAt d d₁ c.folder) (htidy : c.IsTidy d₁)
    (h : Stored c key content d₁ d') : Stored c key content d d' := by
  have hways := hgrown.sameWays
  refine ⟨h.tree, h.tidy, h.cwd.trans hgrown.cwd, ?_, h.holds, ?_, ?_⟩
  · exact ⟨fun r hr => h.ways.folder r (hways.folder r hr), fun r target => (h.ways.link r target).trans (hways.link r target)⟩
  · intro name old hname hne hholds
    have hholds₁ := h.before name old hname hne hholds
    rcases hnew with rfl | hnew
    · exact hholds₁
    · obtain ⟨p, hp, hfile⟩ := look_eq_ok.mp hholds₁
      obtain ⟨q, hq, -, -, -, rfl⟩ := place_of_tidy htidy hname hp
      rw [(hnew q hq).2 [name] (by simp)] at hfile
      cases hfile
  · intro p e hne he
    exact h.outside p e hne (hgrown.keeps p e he)

theorem put_stored {e : CacheEntry} (htree : d.IsTree) (htidy : c.IsTidy d) (h : c.put d key e = .ok d') :
    Stored c key { e with schema := CacheEntry.currentSchema }.encode d d' := by
  unfold put at h
  dsimp only at h
  rw [entryPath_eq, show join [c.folder, ("tmp-0" : Bytes)] = c.pathOf draftName from c.draftPath_eq] at h
  split at h
  · cases h
  rename_i d₁ hmake
  split at h
  · cases h
  rename_i d₂ hwrite
  rw [folder_eq] at hmake
  obtain ⟨hgrown, hnew⟩ := makeFolders_grown htree c.settled_way c.way_ne_nil hmake
  rw [← folder_eq] at hnew
  have htidy₁ : c.IsTidy d₁ := by
    rcases hnew with rfl | hnew
    · exact htidy
    · intro p hp r e hr he
      rw [(hnew p hp).2 r hr] at he
      cases he
  obtain ⟨q, hreplaced⟩ := replaced_of_draft hgrown.tree htidy₁ hwrite h
  exact (hreplaced.stored hgrown.tree htidy₁).of_grown hgrown hnew htidy₁

theorem length_toHex (bs : Bytes) : bs.toHex.length = 2 * bs.length := by
  induction bs with
  | nil => rfl
  | cons b bs ih =>
    have hhex := (Bytes.ofHex_hex ⟨b.toNat, b.toNat_lt⟩).2
    dsimp only at hhex
    rw [Bytes.toHex, List.flatMap_cons, List.length_append, hhex, List.length_cons]
    rw [Bytes.toHex] at ih
    omega

theorem zero_notin_hex : ∀ n : Fin 256, 0 ∉ Bytes.hex 2 n.val := by decide +kernel

theorem length_entryName (key : Digest) : (entryName key).length = 2 * key.length + 3 := by
  simp [entryName_eq, length_toHex]

theorem steps_entryName (hkey : key.length = 32) : Steps (entryName key) := by
  have hname := isChild_entryName key
  refine ⟨hname.ne_nil, hname.ne_dot, hname.ne_dotDot, ?_⟩
  rw [length_entryName, hkey]
  decide

theorem zero_notin_entryName (key : Digest) : 0 ∉ entryName key := by
  rw [entryName_eq, List.mem_append, not_or]
  refine ⟨?_, by decide⟩
  simp only [Bytes.toHex, List.mem_flatMap, not_exists, not_and]
  exact fun b _ => zero_notin_hex ⟨b.toNat, b.toNat_lt⟩

theorem fits_pathOf (hfits : Fits c.folder) (hzero : 0 ∉ name) (hlength : c.folder.length + name.length < longestPath) :
    Fits (c.pathOf name) := by
  rw [folder_eq] at hfits hlength
  rw [pathOf, render_concat c.way_ne_nil]
  constructor
  · rw [List.mem_append, List.mem_cons, not_or, not_or]
    exact ⟨hfits.1, by decide, hzero⟩
  · rw [List.length_append, List.length_cons]
    omega

theorem steps_draftName : Steps draftName := by decide

theorem write_draft {q : Place} (htidy : c.IsTidy d) (hq : d.place true c.folder = .ok q) (hfolder : d.get? q = some .folder)
    (hdraft : Fits (c.pathOf draftName)) (content : Bytes) :
    d.write (c.pathOf draftName) content = .ok (d.set (q ++ [draftName]) (.file content)) := by
  have hfile : ∀ e, d.get? (q ++ [draftName]) = some e → ∃ old, e = .file old :=
    fun e he => htidy q hq [draftName] e (by simp) he
  have hplace : d.place true (c.pathOf draftName) = .ok (q ++ [draftName]) := by
    refine place_of_folder hq hfolder steps_draftName hdraft isChild_draftName (.inr fun target hlink => ?_)
    obtain ⟨old, hno⟩ := hfile _ hlink
    cases hno
  unfold write writeAt
  rw [hplace]
  dsimp only
  rw [List.dropLast_concat, hfolder]
  split
  · rename_i hthere
    obtain ⟨old, hno⟩ := hfile _ hthere
    cases hno
  · rfl

theorem exists_rename_draft {q : Place} (htidy : c.IsTidy d) (hq : d.place true c.folder = .ok q)
    (hfolder : d.get? q = some .folder) (hdraft : Fits (c.pathOf draftName)) (hentry : Fits (c.pathOf (entryName key)))
    (hsteps : Steps (entryName key)) (content : Bytes) :
    ∃ d', (d.set (q ++ [draftName]) (.file content)).rename (c.pathOf draftName) (c.pathOf (entryName key)) = .ok d' := by
  have hne := entryName_ne_draftName key
  have hq' := place_folder_congr (sameWays_draft htidy hq content) rfl hq
  have hfolder' : (d.set (q ++ [draftName]) (.file content)).get? q = some .folder := by
    rw [get?_draft, if_neg (by simp), hfolder]
  have hold := place_of_folder hq' hfolder' steps_draftName hdraft isChild_draftName (.inl rfl)
  have hnew := place_of_folder hq' hfolder' hsteps hentry (isChild_entryName key) (.inl rfl)
  have hlook := look_eq_ok.mpr ⟨_, hold, by rw [get?_draft, if_pos rfl]⟩
  unfold rename
  dsimp only
  rw [hlook, hold, hnew]
  dsimp only
  rw [List.dropLast_concat, hfolder', get?_draft, if_neg (by simpa using hne)]
  split
  · rename_i hthere
    obtain ⟨old, hno⟩ := htidy q hq [entryName key] _ (by simp) hthere
    cases hno
  · simp [isPrefixOf_eq_decide, Ne.symm hne]

/-- An entry can be put into a tidy folder if its path is not too long. -/
theorem exists_put {q : Place} (htidy : c.IsTidy d) (hq : d.place true c.folder = .ok q) (hfolder : d.get? q = some .folder)
    (hdraft : Fits (c.pathOf draftName)) (hentry : Fits (c.pathOf (entryName key))) (hsteps : Steps (entryName key))
    (e : CacheEntry) : ∃ d', c.put d key e = .ok d' := by
  unfold put
  dsimp only
  rw [entryPath_eq, show join [c.folder, ("tmp-0" : Bytes)] = c.pathOf draftName from c.draftPath_eq,
    makeFolders_of_folder (look_eq_ok.mpr ⟨q, hq, hfolder⟩)]
  dsimp only
  rw [write_draft htidy hq hfolder hdraft]
  exact exists_rename_draft htidy hq hfolder hdraft hentry hsteps _

/-- What can be got after an entry is put in is its output, or it could be got before. -/
theorem Stored.get {e : CacheEntry} {output : Bytes} (h : Stored c key e.encode d d')
    (hunpacks : CacheEntry.decode e.encode = .ok e) {key' : Digest} (hget : c.get d' key' = .ok (some output)) :
    key' = key ∧ output = e.output ∨ c.get d key' = .ok (some output) := by
  obtain ⟨content, e', hholds, hdecode, hschema, houtput⟩ := get_eq_some.mp hget
  by_cases hkey : key' = key
  · subst hkey
    have hcontent : content = e.encode := by
      have hsame := hholds.symm.trans h.holds
      cases hsame
      rfl
    rw [hcontent, hunpacks] at hdecode
    cases hdecode
    exact .inl ⟨rfl, houtput.symm⟩
  · have hne : entryName key' ≠ entryName key := by
      intro heq
      exact hkey (Bytes.toHex_injective (List.append_cancel_right heq))
    exact .inr (get_eq_some.mpr ⟨content, e', h.before _ _ (isChild_entryName key') hne hholds, hdecode, hschema, houtput⟩)

theorem Stored.place {path : Bytes} {p : Place} (h : Stored c key content d d') (hp : d.place true path = .ok p) :
    d'.place true path = .ok p := by
  rw [place_eq_ok] at hp ⊢
  rw [start_congr h.cwd]
  exact ⟨hp.1, hp.2.1, hp.2.2.sameWays h.ways⟩

theorem Stored.served {e : CacheEntry} (h : Stored c key e.encode d d') (hunpacks : CacheEntry.decode e.encode = .ok e)
    (hschema : e.schema = CacheEntry.currentSchema) : c.get d' key = .ok (some e.output) :=
  get_eq_some.mpr ⟨_, e, h.holds, hunpacks, hschema, rfl⟩

/-! ## Dropping all entries -/

section Dropping

variable {rooted : Bool} {es : List Bytes} {p q : Place}

/-- Nothing can be read if the directory holds nothing. -/
theorem nothing_in_dir (hsettled : Settled rooted es) (hname : IsChild name) (hdir : c.dir = render rooted (es ++ [name]))
    (hempty : ∀ p, d.place true c.dir = .ok p → ∀ r, r ≠ [] → d.get? (p ++ r) = none) :
    c.IsTidy d ∧ ∀ entry content, IsChild entry → ¬c.Holds d entry content := by
  have hnamed : Settled rooted (es ++ [name]) := .name hsettled hname
  have hway : c.way = es ++ [name] ++ [("js" : Bytes)] := by rw [way, hdir, elements_render hnamed (by simp)]
  refine nothing_below fun p hp r _ => ?_
  obtain ⟨hfits, hleads⟩ := place_folder.mp hp
  rw [folder_eq] at hfits
  rw [hway, hdir, isAbsolute_render hnamed] at hfits hleads
  obtain ⟨q, hq, -, -, hend⟩ := hleads.of_concat isChild_js
  have hplace : d.place true c.dir = .ok q := by
    rw [hdir]
    exact (place_render hnamed (by simp)).mpr ⟨hfits.of_concat (by simp), hq⟩
  rw [hempty q hplace [("js" : Bytes)] (by simp)] at hend
  obtain rfl : p = q ++ [("js" : Bytes)] := by simpa using hend
  rw [List.append_assoc]
  exact hempty q hplace _ (by simp)

/-- Where the directory is moved before it is removed. -/
def aside (c : Cache) : Bytes := c.dir ++ ".old-0"

theorem isChild_aside (hname : IsChild name) : IsChild (name ++ ".old-0") := by
  have hlength : 6 ≤ (name ++ (".old-0" : Bytes)).length := by
    rw [List.length_append, show (".old-0" : Bytes).length = 6 by decide]
    omega
  refine ⟨?_, ?_, ?_, ?_⟩
  · intro h
    simp [h] at hlength
  · intro h
    exact absurd (h ▸ hlength) (by decide)
  · intro h
    exact absurd (h ▸ hlength) (by decide)
  · rw [List.mem_append, not_or]
    exact ⟨hname.slash_notin, by decide⟩

theorem aside_eq (hdir : c.dir = render rooted (es ++ [name])) : c.aside = render rooted (es ++ [name ++ ".old-0"]) := by
  rw [aside, hdir, render_append]

/-- Nothing is left at a place, and what is left of the disk is as it was, but for new things elsewhere. -/
structure Cleared (p : Place) (d d' : Disk) : Prop where
  tree : d'.IsTree
  cwd : d'.cwd = d.cwd
  compatible : Compatible d d'
  gone : ∀ r, d'.get? (p ++ r) = none

theorem cleared_move (htree : d.IsTree) (hfolder : d.get? q = some .folder) {name' : Bytes} (hne : name' ≠ name)
    (hfree : d.get? (q ++ [name']) = none) : Cleared (q ++ [name]) d (d.move (q ++ [name]) (q ++ [name'])) := by
  have hpre : ¬q ++ [name] <+: q ++ [name'] := by simpa using Ne.symm hne
  have hpre' : ¬q ++ [name'] <+: q ++ [name] := by simpa using hne
  have hget := fun r => get?_move (d := d) (r := r) hpre hpre'
  refine ⟨htree.move hpre hpre' ?_, rfl, fun r e e' he he' => ?_, fun r => ?_⟩
  · have hshort : ∀ x : Bytes, ¬q ++ [x] <+: q := by
      intro x h
      have := h.length_le
      rw [List.length_append, List.length_singleton] at this
      omega
    rw [List.dropLast_concat, hget, if_neg (hshort _), if_neg (hshort _), hfolder]
  · rw [hget] at he'
    split at he'
    · rename_i hr
      obtain ⟨t, rfl⟩ := hr
      by_cases ht : t = []
      · rw [ht, List.append_nil, hfree] at he
        cases he
      · rw [htree.none_below (by simp [hfree]) ht] at he
        cases he
    · split at he'
      · cases he'
      · rw [he] at he'
        cases he'
        rfl
  · have hr : ¬q ++ [name'] <+: q ++ [name] ++ r := by
      intro h
      rw [List.append_assoc, List.prefix_append_right_inj] at h
      simp [hne] at h
    rw [hget, if_neg hr, if_pos (List.prefix_append _ r)]

theorem Cleared.erase {p' : Place} (h : Cleared p d d') (hp' : p' ≠ []) : Cleared p d (d'.erase p') := by
  refine ⟨h.tree.erase hp', h.cwd, fun r e e' he he' => ?_, fun r => ?_⟩
  · rw [get?_erase hp'] at he'
    split at he'
    · cases he'
    · exact h.compatible r e e' he he'
  · rw [get?_erase hp', h.gone r]
    split <;> rfl

/-- The directory is cleared when it is moved to a free place, and stays so when that place is removed. -/
theorem cleared_of_rename {d₁ : Disk} (hsettled : Settled rooted es) (hname : IsChild name)
    (hdir : c.dir = render rooted (es ++ [name])) (htree : d.IsTree) (hfree : ∀ e, d.look false c.aside ≠ .ok e)
    (hrename : d.rename c.dir c.aside = .ok d₁) (hremove : d₁.removeAll c.aside = .ok d') :
    ∃ q, Leads d true mostLinks (d.start rooted) es q ∧ d.get? q = some .folder ∧ Cleared (q ++ [name]) d d' := by
  have hne : name ++ (".old-0" : Bytes) ≠ name := by
    intro h
    exact absurd (List.append_right_eq_self.mp h) (by decide)
  obtain ⟨e, p, p', -, hp, hp', hcase⟩ := rename_eq_ok hrename
  have hnone : d.get? p' = none := by
    rw [Option.eq_none_iff_forall_ne_some]
    intro e he
    exact hfree e (look_eq_ok.mpr ⟨p', hp', he⟩)
  rw [hdir, place_concat hsettled hname] at hp
  rw [aside_eq hdir, place_concat hsettled (isChild_aside hname)] at hp'
  obtain ⟨q, hq, hfolder, -, -, rfl⟩ := hp
  obtain ⟨q', hq', -, -, -, rfl⟩ := hp'
  obtain rfl : q = q' := hq.unique hq'
  rcases hcase with ⟨-, hsame⟩ | ⟨-, -, rfl⟩
  · exact absurd (by simpa using hsame.symm) hne
  have hcleared := cleared_move htree hfolder hne hnone
  refine ⟨q, hq, hfolder, ?_⟩
  unfold removeAll at hremove
  split at hremove
  · cases hremove
    exact hcleared
  · cases hremove
  · rename_i p' hplace
    cases hremove
    rw [aside_eq hdir, place_concat hsettled (isChild_aside hname)] at hplace
    obtain ⟨q', -, -, -, -, rfl⟩ := hplace
    exact hcleared.erase (by simp)

/-- Dropping all entries changes nothing, or it leaves a cache in which nothing can be read. -/
theorem dropAll_frame (hsettled : Settled rooted es) (hname : IsChild name) (hdir : c.dir = render rooted (es ++ [name]))
    (htree : d.IsTree) (hfree : ∀ e, d.look false c.aside ≠ .ok e) (h : c.dropAll d = .ok d') :
    d' = d ∨ d'.IsTree ∧ c.IsTidy d' ∧ ∀ entry content, IsChild entry → ¬c.Holds d' entry content := by
  have hnamed : Settled rooted (es ++ [name]) := .name hsettled hname
  unfold dropAll at h
  dsimp only at h
  rw [show c.dir ++ (".old-0" : Bytes) = c.aside from rfl] at h
  split at h
  · split at h
    · cases h
      exact .inl rfl
    · cases h
  rename_i d₁ hrename
  split at h
  · cases h
  rename_i d₂ hremove
  right
  obtain ⟨q, hq, hfolder, hcleared⟩ := cleared_of_rename hsettled hname hdir htree hfree hrename hremove
  rw [hdir] at h
  obtain ⟨hgrown, hnew⟩ := makeFolders_grown hcleared.tree hnamed (by simp) h
  refine ⟨hgrown.tree, nothing_in_dir hsettled hname hdir fun p hp r hr => ?_⟩
  rcases hnew with rfl | hnew
  · -- the directory would be where it was, and there is nothing
    rw [hdir, place_render hnamed (by simp)] at hp
    obtain ⟨q', hq', hfolder', -, hend⟩ := hp.2.of_concat hname
    rw [start_congr hcleared.cwd] at hq'
    obtain rfl := hq.compatible hq' hcleared.compatible (by simp [hfolder]) (by simp [hfolder'])
    have hgone : d'.get? (q ++ [name]) = none := by simpa using hcleared.gone []
    obtain rfl : p = q ++ [name] := by simpa [hgone] using hend
    exact hcleared.gone r
  · exact (hnew p (hdir ▸ hp)).2 r hr

end Dropping

end Bracescript.Cache
