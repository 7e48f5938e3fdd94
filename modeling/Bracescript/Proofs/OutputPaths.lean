import Bracescript.Proofs.BuildProgress
import Bracescript.Proofs.RelativePaths

/-!
# Where modules are written

The sources of a directory are below it, in folders that are not hidden. The module of a source is written at the same place
below the output directory, unless the source stands in the directory itself under a name that begins with two dots: such a
name is taken for a step out of the directory, and the module goes where the whole path of the source says.
-/

namespace Bracescript

open Path

/-! ## What is listed below a directory -/

namespace Disk

/-- Everything on the disk has a name that can stand in a path. -/
def Named (d : Disk) : Prop := ∀ x ∈ d.entries, ∀ name ∈ x.1, IsChild name

/-- A path that leads down from a directory to a name, through folders that are not hidden. -/
structure IsBelow (dir file : Bytes) (folders : List Bytes) (name : Bytes) : Prop where
  path_eq : file = Path.join (dir :: (folders ++ [name]))
  isChild : IsChild name
  folder : ∀ n ∈ folders, IsChild n
  visible : ∀ n ∈ folders, n.head? ≠ some (Bytes.ascii '.')

variable {d : Disk} {p : Place} {dir file name : Bytes} {folders : List Bytes}

theorem IsBelow.names (h : IsBelow dir file folders name) : ∀ n ∈ folders ++ [name], IsChild n :=
  List.forall_mem_append.mpr ⟨h.folder, List.forall_mem_singleton.mpr h.isChild⟩

theorem IsBelow.eq_render (h : IsBelow dir file folders name) :
    file = render (isAbsolute dir) (elements dir ++ (folders ++ [name])) :=
  h.path_eq.trans (join_names dir (by simp) h.names)

theorem isBelow_join (dir : Bytes) (hname : IsChild name) : IsBelow dir (Path.join [dir, name]) [] name :=
  ⟨rfl, hname, List.forall_mem_nil _, List.forall_mem_nil _⟩

/-- What is below a folder is below the directory that the folder is in. -/
theorem IsBelow.of_child {child : Bytes} (hchild : IsChild child) (hshown : isHidden (Path.join [dir, child]) = false)
    (h : IsBelow (Path.join [dir, child]) file folders name) : IsBelow dir file (child :: folders) name := by
  have hjoin := (isBelow_join dir hchild).eq_render
  rw [List.nil_append] at hjoin
  have hsettled := (settled_elements dir).append_names (List.forall_mem_singleton.mpr hchild)
  have hnames : ∀ n ∈ child :: (folders ++ [name]), IsChild n := List.forall_mem_cons.mpr ⟨hchild, h.names⟩
  refine ⟨?_, h.isChild, List.forall_mem_cons.mpr ⟨hchild, h.folder⟩, List.forall_mem_cons.mpr ⟨?_, h.visible⟩⟩
  · rw [h.eq_render, hjoin, isAbsolute_render hsettled, elements_render hsettled (by simp), List.cons_append,
      join_names dir (List.cons_ne_nil _ _) hnames, List.append_assoc]
    rfl
  · rw [isHidden, hjoin, base_render hchild.ne_nil hchild.slash_notin] at hshown
    exact of_decide_eq_false hshown

theorem isChild_of_mem_namesAt (hnamed : d.Named) (h : name ∈ d.namesAt p) : IsChild name := by
  rw [namesAt, Bytes.sorted, List.mem_mergeSort, List.mem_filterMap] at h
  obtain ⟨⟨q, e⟩, hx, hlast⟩ := h
  dsimp only at hlast
  split at hlast
  · exact hnamed _ hx name (List.mem_of_getLast? hlast)
  · cases hlast

/-- Whatever is listed below a directory is below it. -/
theorem exists_isBelow (hnamed : d.Named) {depth : Nat} {isFolder : Bool}
    (h : (file, isFolder) ∈ d.below (fun path => !isHidden path) depth dir p) :
    ∃ folders name, IsBelow dir file folders name := by
  induction depth generalizing dir p with
  | zero => cases h
  | succ depth ih =>
    obtain ⟨name, hmem, hlisted⟩ := List.mem_flatMap.mp h
    have hname := isChild_of_mem_namesAt hnamed hmem
    dsimp only at hlisted
    split at hlisted
    · rcases List.mem_cons.mp hlisted with heq | hdeeper
      · cases heq
        exact ⟨_, _, isBelow_join dir hname⟩
      · split at hdeeper
        · rename_i hshown
          obtain ⟨folders, last, hbelow⟩ := ih hdeeper
          exact ⟨_, _, hbelow.of_child hname (by simpa using hshown)⟩
        · cases hdeeper
    · cases List.mem_singleton.mp hlisted
      exact ⟨_, _, isBelow_join dir hname⟩

/-- Every source of a folder is below it and has a name of its own. -/
theorem sources_below (hnamed : d.Named) (hfolder : d.look false dir = .ok .folder) {files : List Bytes}
    (hfiles : d.sources dir = .ok files) (hfile : file ∈ files) :
    ∃ folders stem, IsBelow dir file folders (stem ++ sourceExtension) := by
  obtain ⟨p, hplace, hget⟩ := look_eq_ok.mp hfolder
  rw [sources, tree, hplace] at hfiles
  simp only [hget, Except.map, Except.ok.injEq] at hfiles
  rw [← hfiles, Bytes.sorted, List.mem_mergeSort, List.mem_filterMap] at hfile
  obtain ⟨⟨path, isFolder⟩, hmem, hsource⟩ := hfile
  dsimp only at hsource
  split at hsource
  · rename_i hends
    cases hsource
    rw [Bool.and_eq_true] at hends
    rcases List.mem_cons.mp hmem with heq | hmem
    · cases heq
      cases hends.1
    · obtain ⟨folders, name, hbelow⟩ := exists_isBelow hnamed hmem
      have hpath := hbelow.eq_render
      rw [← List.append_assoc] at hpath
      obtain ⟨stem, rfl⟩ := endsWith_render (by decide) (hpath ▸ hends.2)
      exact ⟨folders, stem, hbelow⟩
  · cases hsource

/-! ## How a source is called -/

namespace IsBelow

variable (h : IsBelow dir file folders name)

include h

theorem settled : Settled (isAbsolute dir) (elements dir ++ (folders ++ [name])) := (settled_elements dir).append_names h.names

theorem isAbsolute_eq : isAbsolute file = isAbsolute dir := by
  rw [h.eq_render, isAbsolute_render h.settled]

theorem elements_eq : elements file = elements dir ++ (folders ++ [name]) := by
  rw [h.eq_render, elements_render h.settled (by simp)]

/-- A file is below a directory in one way. -/
theorem unique {folders' : List Bytes} {name' : Bytes} (h' : IsBelow dir file folders' name') :
    folders = folders' ∧ name = name' := by
  have hnames := List.append_cancel_left (h.elements_eq.symm.trans h'.elements_eq)
  obtain ⟨hfolders, hname⟩ := List.append_inj' hnames rfl
  exact ⟨hfolders, List.cons.inj hname |>.1⟩

theorem relative? : Path.relative? dir file = some (Bytes.join [slash] (folders ++ [name])) :=
  relative?_below h.isAbsolute_eq h.elements_eq (by simp)

/-- From the directory the way is taken for one that leads out if the file is in the directory itself and its name begins
with two dots. -/
theorem startsWith_dotDot :
    (Bytes.join [slash] (folders ++ [name])).startsWith dotDot = true ↔ folders = [] ∧ name.startsWith dotDot = true := by
  cases hfolders : folders with
  | nil => simp [Bytes.join, List.intercalate]
  | cons first more =>
    have hfirst : first ∈ folders := hfolders ▸ List.mem_cons_self
    obtain ⟨b, rest, rfl⟩ := List.exists_cons_of_ne_nil (h.folder first hfirst).ne_nil
    have hb : Bytes.ascii '.' ≠ b := fun hb => h.visible _ hfirst (by simp [hb])
    rw [List.cons_append, Bytes.join_cons _ _ (by simp)]
    simp [Bytes.startsWith, show dotDot = [Bytes.ascii '.', Bytes.ascii '.'] from rfl, hb]

theorem displayName (hdir : dir ≠ []) (cwd : Bytes) :
    Bracescript.displayName cwd dir file =
      if folders = [] ∧ name.startsWith dotDot = true then file else Bytes.join [slash] (folders ++ [name]) := by
  have hclean : Path.clean file = file := by
    rw [h.eq_render, clean_render h.settled (by simp)]
  obtain ⟨hrooted, helements⟩ := elements_absolute_below cwd hdir (by simp) h.names
  rw [← h.eq_render] at hrooted helements
  have hdot : Bytes.join [slash] (folders ++ [name]) ≠ dot := by
    intro hdot
    have hsplit := Bytes.split_join (by simp) fun n hn => (h.names n hn).slash_notin
    rw [hdot] at hsplit
    have hmem : dot ∈ folders ++ [name] := hsplit ▸ List.mem_cons_self
    exact (h.names dot hmem).ne_dot rfl
  unfold Bracescript.displayName relativeFrom?
  simp only [hclean, relative?_below hrooted helements (by simp), List.isEmpty_iff, hdir, if_false, hdot, decide_false,
    Bool.false_or, h.startsWith_dotDot]

end IsBelow

end Disk

/-! ## Where the module of a source goes -/

theorem Bytes.dropTail_append (front tail : Bytes) : (front ++ tail).dropTail tail = front := by
  simp [Bytes.dropTail, Bytes.endsWith]

theorem isChild_append {stem ext : Bytes} (hext : IsChild ext) (hstem : slash ∉ stem) : IsChild (stem ++ ext) := by
  have hdots : dot = [Bytes.ascii '.'] ∧ dotDot = [Bytes.ascii '.', Bytes.ascii '.'] := ⟨rfl, rfl⟩
  have hslash : slash ∉ stem ++ ext := by simp [hstem, hext.slash_notin]
  refine ⟨by simp [hext.ne_nil], fun hdot => ?_, fun hup => ?_, hslash⟩
  · rw [hdots.1, List.append_eq_singleton_iff] at hdot
    rcases hdot with ⟨-, hdot⟩ | ⟨-, hnil⟩
    · exact hext.ne_dot hdot
    · exact hext.ne_nil hnil
  · rw [hdots.2, List.append_eq_cons_iff] at hup
    rcases hup with ⟨-, hup⟩ | ⟨rest, -, hrest⟩
    · exact hext.ne_dotDot hup
    · rcases List.singleton_eq_append_iff.mp hrest with ⟨-, hdot⟩ | ⟨-, hnil⟩
      · exact hext.ne_dot hdot
      · exact hext.ne_nil hnil

section OutputPath

variable {out dir file ext stem : Bytes} {rooted : Bool} {es folders : List Bytes}

theorem clean_outputPath (hext : ext ≠ []) (out name : Bytes) :
    Path.clean (outputPath out name ext) = outputPath out name ext :=
  clean_join (by simp [hext]) out

/-- The elements of a source's name settle behind those of the output directory. -/
theorem elements_outputPath (hout : out ≠ []) (hes : Settled rooted es) (hname : IsChild (stem ++ ext)) :
    isAbsolute (outputPath out (render rooted (es ++ [stem ++ sourceExtension])) ext) = isAbsolute out ∧
      elements (outputPath out (render rooted (es ++ [stem ++ sourceExtension])) ext) =
        settle (isAbsolute out) (elements out).reverse es ++ [stem ++ ext] := by
  have hnames : ∀ n ∈ [stem ++ ext], IsChild n := List.forall_mem_singleton.mpr hname
  have hsettled := hes.append_names hnames
  have hall : es ++ [stem ++ ext] ≠ [] := by simp
  have hpath : outputPath out (render rooted (es ++ [stem ++ sourceExtension])) ext =
      Path.join [out, render rooted (es ++ [stem ++ ext])] := by
    rw [outputPath, ← render_append, Bytes.dropTail_append, render_append]
  obtain ⟨hrooted, helements⟩ := elements_join out (render_ne_nil hsettled hall) (.inl hout)
  rw [hpath, hrooted, helements, settle_split_render hsettled hall, settle_append_names _ hnames]
  exact ⟨rfl, rfl⟩

namespace Disk

/-- The source is in the directory itself, and its name begins with two dots. -/
def Strays (dir file : Bytes) : Prop := ∃ name, IsBelow dir file [] name ∧ name.startsWith dotDot = true

theorem IsBelow.strays_iff {name : Bytes} (h : IsBelow dir file folders name) :
    Strays dir file ↔ folders = [] ∧ name.startsWith dotDot = true := by
  constructor
  · rintro ⟨name', h', hdots⟩
    obtain ⟨rfl, rfl⟩ := h.unique h'
    exact ⟨rfl, hdots⟩
  · rintro ⟨rfl, hdots⟩
    exact ⟨name, h, hdots⟩

/-- The folder that the whole path of a directory leads to below the output directory. -/
def strayFolder (out dir : Bytes) : Bytes := Path.join [out, Path.clean dir]

theorem elements_strayFolder (hout : out ≠ []) (dir : Bytes) :
    isAbsolute (strayFolder out dir) = isAbsolute out ∧
      elements (strayFolder out dir) = settle (isAbsolute out) (elements out).reverse (elements dir) := by
  obtain ⟨hrooted, helements⟩ := elements_join out (clean_ne_nil dir) (.inl hout)
  exact ⟨hrooted, helements.trans (settle_split_clean _ _ dir)⟩

theorem strayFolder_eq_clean_iff (hout : out ≠ []) :
    strayFolder out dir = Path.clean out ↔ elements (strayFolder out dir) = elements out := by
  have hclean : Path.clean (strayFolder out dir) = strayFolder out dir := clean_join (clean_ne_nil dir) out
  rw [eq_iff_of_clean hclean (clean_clean out), isAbsolute_clean, elements_clean]
  exact and_iff_right (elements_strayFolder hout dir).1

namespace IsBelow

theorem isChild_module (h : IsBelow dir file folders (stem ++ sourceExtension)) (hext : IsChild ext) :
    IsChild (stem ++ ext) :=
  isChild_append hext fun hslash => h.isChild.slash_notin (List.mem_append_left _ hslash)

/-- The elements of the path of a module. -/
theorem elements_module (h : IsBelow dir file folders (stem ++ sourceExtension)) (hdir : dir ≠ []) (hout : out ≠ [])
    (hext : IsChild ext) (cwd : Bytes) :
    isAbsolute (outputPath out (Bracescript.displayName cwd dir file) ext) = isAbsolute out ∧
      elements (outputPath out (Bracescript.displayName cwd dir file) ext) =
        (if folders = [] ∧ (stem ++ sourceExtension).startsWith dotDot = true then elements (strayFolder out dir)
          else elements out ++ folders) ++ [stem ++ ext] := by
  have hname := h.isChild_module hext
  rw [h.displayName hdir cwd]
  split
  · rename_i hstrays
    have hpath := h.eq_render
    rw [hstrays.1, List.nil_append] at hpath
    rw [hpath, (elements_strayFolder hout dir).2]
    exact elements_outputPath hout (settled_elements dir) hname
  · have hsettled : Settled false folders := Settled.append_names .nil h.folder
    have helements := elements_outputPath hout hsettled hname
    rw [settle_names _ h.folder, List.reverse_reverse] at helements
    exact helements

/-- A module is below a directory if its elements say so. -/
theorem of_elements {path name : Bytes} (hpath : Path.clean path = path) (hfolder : ∀ n ∈ folders, IsChild n)
    (hvisible : ∀ n ∈ folders, n.head? ≠ some (Bytes.ascii '.')) (hname : IsChild name)
    (hrooted : isAbsolute path = isAbsolute dir) (helements : elements path = elements dir ++ (folders ++ [name])) :
    IsBelow dir path folders name := by
  have hbelow : IsBelow dir (Path.join (dir :: (folders ++ [name]))) folders name := ⟨rfl, hname, hfolder, hvisible⟩
  have hclean : Path.clean (Path.join (dir :: (folders ++ [name]))) = Path.join (dir :: (folders ++ [name])) := by
    rw [hbelow.eq_render, clean_render hbelow.settled (by simp)]
  have hsame := (eq_iff_of_clean hpath hclean).mpr
    ⟨hrooted.trans hbelow.isAbsolute_eq.symm, helements.trans hbelow.elements_eq.symm⟩
  rwa [← hsame] at hbelow

end IsBelow

end Disk

end OutputPath

/-! ## The modules of a build -/

namespace Build

open Disk

variable {r : BuildRequest} {d : Disk}

/-- Where the module of a source goes. -/
def moduleOn (r : BuildRequest) (d : Disk) (file : Bytes) : Bytes := outputPath r.out (displayName d.cwd r.source file) r.ext

/-- Whether a file of a build failed. -/
def Failed (built : BuiltFile) : Prop := (built.fault.isSome || built.bag.hasErrors) = true

instance (built : BuiltFile) : Decidable (Failed built) := inferInstanceAs (Decidable (_ = true))

/-- The place of a module that was written. -/
theorem out_finish (r : BuildRequest) (d : Disk) (f : CompiledFile) :
    (finish r d f).1.out = if Failed (finish r d f).1 then [] else outputPath r.out (finish r d f).1.name r.ext := by
  unfold finish
  dsimp only
  split
  · rename_i hfailed
    exact (if_pos hfailed).symm
  · rename_i hcompiled
    split
    · exact (if_neg hcompiled).symm
    · exact (if_pos rfl).symm

theorem out_finishAll (r : BuildRequest) (d : Disk) (fs : List CompiledFile) :
    ∀ x ∈ (finishAll r d fs).1, x.1.out = if Failed x.1 then [] else outputPath r.out x.1.name r.ext := by
  induction fs generalizing d with
  | nil => exact List.forall_mem_nil _
  | cons f fs ih => exact List.forall_mem_cons.mpr ⟨out_finish r d f, ih _⟩

/-- Whatever the order of work, a build returns its files by their names and tells where their modules are. -/
theorem Course.files_outcome (c : Course r d) (hlive : r.compile.cancelled = false) (hfit : c.names.length ≤ UInt32.size) :
    c.outcome.1.files.map BuiltFile.name = c.names ∧
      ∀ built ∈ c.outcome.1.files, built.out = if Failed built then [] else outputPath r.out built.name r.ext := by
  obtain ⟨hquiet, hcwd, hnamed, -⟩ := c.settled hlive hfit
  have hnames := (names_finishAll r c.group.disk c.group.files).1
  rw [funext (nameOn_congr hcwd), hnamed] at hnames
  rw [Course.outcome, files_conclude _ _ _ hquiet]
  refine ⟨by rwa [List.map_map], fun built hbuilt => ?_⟩
  obtain ⟨x, hx, rfl⟩ := List.mem_map.mp hbuilt
  exact out_finishAll r _ _ x hx

section Source

variable {file : Bytes} {folders : List Bytes} {stem : Bytes}

/-- A module is where its source is, unless the source strays and the output directory is not where strays lead. -/
theorem module_below_iff (h : IsBelow r.source file folders (stem ++ sourceExtension)) (hsource : r.source ≠ [])
    (hout : r.out ≠ []) (hext : IsChild r.ext) :
    IsBelow r.out (moduleOn r d file) folders (stem ++ r.ext) ↔
      (Strays r.source file → strayFolder r.out r.source = Path.clean r.out) := by
  obtain ⟨hrooted, helements⟩ := h.elements_module hsource hout hext d.cwd
  rw [h.strays_iff, strayFolder_eq_clean_iff hout]
  constructor
  · rintro hbelow ⟨hfolders, hdots⟩
    have hsame := hbelow.elements_eq
    rw [moduleOn, helements, if_pos ⟨hfolders, hdots⟩, hfolders] at hsame
    exact List.append_cancel_right hsame
  · intro hhome
    refine .of_elements (clean_outputPath hext.ne_nil _ _) h.folder h.visible (h.isChild_module hext) hrooted ?_
    rw [moduleOn, helements, ← List.append_assoc]
    split
    · rename_i hstrays
      rw [hhome hstrays, hstrays.1, List.append_nil]
    · rfl

/-- The module of a source that strays goes where the whole path of its directory leads. -/
theorem module_of_strays (h : IsBelow r.source file folders (stem ++ sourceExtension)) (hsource : r.source ≠ [])
    (hout : r.out ≠ []) (hext : IsChild r.ext) (hstrays : Strays r.source file) :
    IsBelow (strayFolder r.out r.source) (moduleOn r d file) [] (stem ++ r.ext) := by
  obtain ⟨hrooted, helements⟩ := h.elements_module hsource hout hext d.cwd
  rw [if_pos (h.strays_iff.mp hstrays)] at helements
  exact .of_elements (clean_outputPath hext.ne_nil _ _) (List.forall_mem_nil _) (List.forall_mem_nil _) (h.isChild_module hext)
    (hrooted.trans (elements_strayFolder hout r.source).1.symm) helements

/-- Two sources that both stray or both do not have different modules. -/
theorem eq_of_module_eq {file' stem' : Bytes} {folders' : List Bytes}
    (h : IsBelow r.source file folders (stem ++ sourceExtension))
    (h' : IsBelow r.source file' folders' (stem' ++ sourceExtension)) (hsource : r.source ≠ []) (hout : r.out ≠ [])
    (hext : IsChild r.ext) (hstrays : Strays r.source file ↔ Strays r.source file')
    (hmodule : moduleOn r d file = moduleOn r d file') : file = file' := by
  obtain ⟨-, helements⟩ := h.elements_module hsource hout hext d.cwd
  obtain ⟨-, helements'⟩ := h'.elements_module hsource hout hext d.cwd
  have hsame := helements.symm.trans ((congrArg elements hmodule).trans helements')
  obtain ⟨hhome, hname⟩ := List.append_inj' hsame rfl
  have hstem : stem = stem' := List.append_cancel_right (List.cons.inj hname).1
  rw [h.strays_iff, h'.strays_iff] at hstrays
  have hfolders : folders = folders' := by
    by_cases hstray : folders = [] ∧ (stem ++ sourceExtension).startsWith dotDot = true
    · rw [hstray.1, (hstrays.mp hstray).1]
    · rw [if_neg hstray, if_neg (mt hstrays.mpr hstray)] at hhome
      exact List.append_cancel_left hhome
  rw [h.path_eq, h'.path_eq, hfolders, hstem]

end Source

/-- In whatever order a build works on the sources of a folder, it returns them in their order by their names, and the module
of each that did not fail is where its name says. That is the place below the output directory that the source has below
its own, with the ending of modules for that of sources, unless the source strays: then the module goes where the whole path
of the source directory leads from the output directory, which is the right place only if it leads back there. Two sources
have different modules unless one of them strays and the other does not. -/
theorem modules_mirror_sources {files : List Bytes} (hlive : r.compile.cancelled = false) (hnamed : d.Named)
    (hfolder : d.look false r.source = .ok .folder) (hfiles : d.sources r.source = .ok files)
    (hfit : files.length ≤ UInt32.size) (hout : r.out ≠ []) (hext : IsChild r.ext) :
    (∀ c : Course r d,
      c.outcome.1.files.map BuiltFile.name = files.map (displayName d.cwd r.source) ∧
      ∀ built ∈ c.outcome.1.files, built.out = if Failed built then [] else outputPath r.out built.name r.ext) ∧
    (∀ t parent, ∃ c : Course r d, c.outcome = ((build r d t parent).1, (build r d t parent).2.1)) ∧
    (∀ file ∈ files, ∃ folders stem,
      IsBelow r.source file folders (stem ++ sourceExtension) ∧
      Path.relative? r.source file = some (Bytes.join [slash] (folders ++ [stem ++ sourceExtension])) ∧
      (IsBelow r.out (moduleOn r d file) folders (stem ++ r.ext) ↔
        (Strays r.source file → strayFolder r.out r.source = Path.clean r.out)) ∧
      (Strays r.source file → IsBelow (strayFolder r.out r.source) (moduleOn r d file) [] (stem ++ r.ext))) ∧
    ∀ file ∈ files, ∀ file' ∈ files, (Strays r.source file ↔ Strays r.source file') →
      moduleOn r d file = moduleOn r d file' → file = file' := by
  have hlisted : d.sourceNames r.source = .ok (files.map (displayName d.cwd r.source)) := by
    rw [Disk.sourceNames, hfiles]
    rfl
  have hsource := source_ne_nil hlisted
  refine ⟨fun c => ?_, build_takes_course hlive hlisted hout, fun file hfile => ?_, fun file hfile file' hfile' hstrays => ?_⟩
  · have hnames : c.names = files.map (displayName d.cwd r.source) := Except.ok.inj (c.listed.symm.trans hlisted)
    have hfitting : c.names.length ≤ UInt32.size := by rwa [hnames, List.length_map]
    rw [← hnames]
    exact c.files_outcome hlive hfitting
  · obtain ⟨folders, stem, hbelow⟩ := sources_below hnamed hfolder hfiles hfile
    exact ⟨folders, stem, hbelow, hbelow.relative?, module_below_iff hbelow hsource hout hext,
      module_of_strays hbelow hsource hout hext⟩
  · obtain ⟨_, _, hbelow⟩ := sources_below hnamed hfolder hfiles hfile
    obtain ⟨_, _, hbelow'⟩ := sources_below hnamed hfolder hfiles hfile'
    exact eq_of_module_eq hbelow hbelow' hsource hout hext hstrays

end Build

/-! ### Two sources and one module -/

instance (e : Bytes) : Decidable (IsChild e) :=
  decidable_of_iff (e ≠ [] ∧ e ≠ dot ∧ e ≠ dotDot ∧ slash ∉ e)
    ⟨fun h => ⟨h.1, h.2.1, h.2.2.1, h.2.2.2⟩, fun h => ⟨h.ne_nil, h.ne_dot, h.ne_dotDot, h.slash_notin⟩⟩

/-- A folder with a source whose name begins with two dots, and with a folder of its own name that has such a source too. -/
def dotted : Disk :=
  { entries := [([("src" : Bytes)], .folder), ([("src" : Bytes), ("..a.uns" : Bytes)], .file []),
      ([("src" : Bytes), ("src" : Bytes)], .folder), ([("src" : Bytes), ("src" : Bytes), ("..a.uns" : Bytes)], .file [])] }

def dottedBuild : BuildRequest := { source := "src", out := "dist", compile := { emit := {} } }

theorem dotted_folder : dotted.get? [("src" : Bytes)] = some .folder := by decide

theorem dotted_place : dotted.place false "src" = .ok [("src" : Bytes)] := by
  have hsplit : ("src" : Bytes).split Path.slash = [("src" : Bytes)] := by decide
  have hstart : dotted.start (Path.isAbsolute "src") = [] := by decide
  rw [Disk.place_eq_ok, hsplit, hstart]
  exact ⟨by decide, by decide, .down rfl (by decide) (by simp [dotted_folder]) .done⟩

theorem dotted_below :
    dotted.below (fun path => !Disk.isHidden path) dotted.depth "src" [("src" : Bytes)] =
      [(("src/..a.uns" : Bytes), false), (("src/src" : Bytes), true), (("src/src/..a.uns" : Bytes), false)] := by
  have hnames : dotted.namesAt [("src" : Bytes)] = [("..a.uns" : Bytes), ("src" : Bytes)] :=
    List.mergeSort_of_pairwise (by decide)
  have hinner : dotted.namesAt [("src" : Bytes), ("src" : Bytes)] = [("..a.uns" : Bytes)] := List.mergeSort_singleton _
  have hfile : dotted.get? [("src" : Bytes), ("..a.uns" : Bytes)] = some (.file []) := by decide
  have hfolder : dotted.get? [("src" : Bytes), ("src" : Bytes)] = some .folder := by decide
  have hinnerFile : dotted.get? [("src" : Bytes), ("src" : Bytes), ("..a.uns" : Bytes)] = some (.file []) := by decide
  have hdepth : dotted.depth = 3 := by decide
  have hjoin : Path.join [("src" : Bytes), ("..a.uns" : Bytes)] = ("src/..a.uns" : Bytes) := by decide
  have hjoinFolder : Path.join [("src" : Bytes), ("src" : Bytes)] = ("src/src" : Bytes) := by decide
  have hjoinInner : Path.join [("src/src" : Bytes), ("..a.uns" : Bytes)] = ("src/src/..a.uns" : Bytes) := by decide
  have hshown : Disk.isHidden "src/src" = false := by decide
  simp [hdepth, Disk.below, hnames, hinner, hfile, hfolder, hinnerFile, hjoin, hjoinFolder, hjoinInner, hshown]

theorem dotted_sources : dotted.sources "src" = .ok [("src/..a.uns" : Bytes), ("src/src/..a.uns" : Bytes)] := by
  have hends : ("src/..a.uns" : Bytes).endsWith sourceExtension = true := by decide
  have hendsInner : ("src/src/..a.uns" : Bytes).endsWith sourceExtension = true := by decide
  rw [Disk.sources, Disk.tree, dotted_place]
  simp only [dotted_folder, dotted_below, Except.map, Bytes.sorted]
  simp [hends, hendsInner]
  exact List.mergeSort_of_pairwise (by decide)

theorem dotted_named : dotted.Named := by
  unfold Disk.Named
  decide

theorem dotted_modules :
    dotted.Named ∧ dotted.look false dottedBuild.source = .ok .folder ∧
      (∃ c : Build.Course dottedBuild dotted, c.outcome.1 = (build dottedBuild dotted {} 0).1 ∧
        c.outcome.1.files.map BuiltFile.name = [("src/..a.uns" : Bytes), ("src/..a.uns" : Bytes)]) ∧
      Disk.Strays "src" "src/..a.uns" ∧
      ∃ stem, Disk.IsBelow (Disk.strayFolder "dist" "src") (Build.moduleOn dottedBuild dotted "src/..a.uns") []
        (stem ++ (".js" : Bytes)) := by
  have hlook : dotted.look false dottedBuild.source = .ok .folder := Disk.look_eq_ok.mpr ⟨_, dotted_place, dotted_folder⟩
  obtain ⟨hfiles, hbuild, hmodules, -⟩ := Build.modules_mirror_sources (r := dottedBuild) rfl dotted_named hlook
    dotted_sources (by decide) (by decide) (by decide)
  obtain ⟨c, hc⟩ := hbuild {} 0
  have hnames : [("src/..a.uns" : Bytes), ("src/src/..a.uns" : Bytes)].map (displayName dotted.cwd dottedBuild.source) =
      [("src/..a.uns" : Bytes), ("src/..a.uns" : Bytes)] := by decide
  have hbelow : Disk.IsBelow "src" "src/..a.uns" [] "..a.uns" :=
    ⟨by decide, by decide, List.forall_mem_nil _, List.forall_mem_nil _⟩
  have hstrays : Disk.Strays "src" "src/..a.uns" := ⟨_, hbelow, by decide⟩
  obtain ⟨-, stem, -, -, -, hmodule⟩ := hmodules "src/..a.uns" List.mem_cons_self
  exact ⟨dotted_named, hlook, ⟨c, congrArg Prod.fst hc, (hfiles c).1.trans hnames⟩, hstrays, stem, hmodule hstrays⟩

theorem dotted_share_module :
    dotted.sources dottedBuild.source = .ok [("src/..a.uns" : Bytes), ("src/src/..a.uns" : Bytes)] ∧
      ("src/..a.uns" : Bytes) ≠ "src/src/..a.uns" ∧
      Build.moduleOn dottedBuild dotted "src/..a.uns" = "dist/src/..a.js" ∧
      Build.moduleOn dottedBuild dotted "src/src/..a.uns" = "dist/src/..a.js" :=
  ⟨dotted_sources, by decide, by decide, by decide⟩

end Bracescript
