import Bracescript.Proofs.BuildNames
import Bracescript.Proofs.DirectorySchedules
import Bracescript.Proofs.ProgressView

/-!
# What a build tells

The files of a build are worked on side by side, so what happens to one is told between what happens to others. In
whatever order it is told, a view that takes it in shows in the end what became of each file and of the build.
-/

namespace Bracescript

/-! ## Orders -/

/-- A list made of others, each of which keeps its order. -/
inductive Interleaving {α : Type} : List (List α) → List α → Prop
  | done {ls : List (List α)} (empty : ∀ l ∈ ls, l = []) : Interleaving ls []
  | next {ls : List (List α)} {k : Nat} {x : α} {rest xs : List α} (first : ls[k]? = some (x :: rest))
    (more : Interleaving (ls.set k rest) xs) : Interleaving ls (x :: xs)

namespace Interleaving

variable {α : Type} {ls : List (List α)} {xs : List α} {x : α}

theorem exists_mem (h : Interleaving ls xs) (hx : x ∈ xs) : ∃ l ∈ ls, x ∈ l := by
  induction h with
  | done => cases hx
  | next first more ih =>
    have hsource := List.mem_of_getElem? first
    rcases List.mem_cons.mp hx with rfl | hx
    · exact ⟨_, hsource, List.mem_cons_self⟩
    · obtain ⟨l, hl, hxl⟩ := ih hx
      rcases List.mem_or_eq_of_mem_set hl with hl | rfl
      · exact ⟨l, hl, hxl⟩
      · exact ⟨_, hsource, List.mem_cons_of_mem _ hxl⟩

theorem cons_nil (h : Interleaving ls xs) : Interleaving ([] :: ls) xs := by
  induction h with
  | done empty => exact .done (List.forall_mem_cons.mpr ⟨rfl, empty⟩)
  | @next _ k _ _ _ first _ ih => exact .next (k := k + 1) first ih

/-- One list after the other is such an order. -/
theorem flatten (ls : List (List α)) : Interleaving ls ls.flatten := by
  induction ls with
  | nil => exact .done (List.forall_mem_nil _)
  | cons l ls ih =>
    induction l with
    | nil => exact ih.cons_nil
    | cons x l ihl => exact .next (k := 0) rfl ihl

end Interleaving

/-! ## What one file tells -/

theorem Bag.hasErrors_insert_new (limit : Int) {d : Diagnostic} (h : d.severity = .error) :
    ((Bag.new limit).insert d).hasErrors = true := by
  have hitems : ((Bag.new limit).insert d).items.toList = [d] := Bag.toList_insert_new limit d
  rw [Bag.hasErrors, ← Array.any_toList, hitems]
  simp [h]

namespace SourceFile

/-- A pass fails only if the whole compilation does. -/
theorem compile_failed {f : SourceFile} {o : EmitOptions} {limit : Int} {p : Phase}
    (hp : p ∈ (f.compile o (.new limit)).phases) (hfault : p.fault.isSome = true) :
    ((f.compile o (.new limit)).fault.isSome || (f.compile o (.new limit)).bag.hasErrors) = true := by
  revert hp
  unfold compile parsePhases
  cases f.tokenize with
  | error e => simp [Bag.hasErrors_insert_new limit (show e.diagnostic.severity = .error from rfl)]
  | ok tokens =>
    dsimp only
    cases hparse : f.parseTokens tokens with
    | error fault =>
      obtain ⟨e, rfl, -⟩ := parseTokens_eq_error hparse
      simp [Bag.hasErrors_insert_new limit (show e.diagnostic.severity = .error from rfl)]
    | ok program =>
      dsimp only
      cases program.emit o with
      | error u => exact fun _ => rfl
      | ok output =>
        -- all three passes went well
        intro hp
        simp only [List.mem_append, List.mem_cons, List.not_mem_nil, or_false] at hp
        rcases hp with (rfl | rfl) | rfl
        all_goals cases hfault

/-- A run tells of a failure only if it failed. -/
theorem run_failed {f : SourceFile} {o : CompileOptions} (hlive : o.cancelled = false) {limit : Int} {path : Bytes}
    {happening : Happening} {e : FileEvent} (hmem : happening ∈ (f.run o (.new limit)).happenings)
    (he : e ∈ happening.events path) (hstatus : e.status = .failed) : (f.run o (.new limit)).failed = true := by
  unfold run at hmem ⊢
  rw [if_neg (by simp [hlive])] at hmem ⊢
  obtain ⟨p, hp, rfl⟩ := List.mem_map.mp hmem
  simp only [Happening.events, Phase.events, List.mem_cons, List.not_mem_nil, or_false] at he
  rcases he with rfl | rfl
  · cases hstatus
  · refine compile_failed hp ?_
    dsimp only at hstatus
    split at hstatus
    · assumption
    · cases hstatus

end SourceFile

namespace Happening

theorem IsQuiet.events {h : Happening} (hquiet : h.IsQuiet) (path : Bytes) : h.events path = [] := by
  cases h with
  | cacheUnreadable _ | cacheUnwritable _ => rfl
  | cacheHit _ | phase _ => exact hquiet.elim

theorem path_of_mem_events {h : Happening} {path : Bytes} {e : FileEvent} (he : e ∈ h.events path) : e.path = path := by
  cases h with
  | cacheHit _ =>
    obtain rfl := List.mem_singleton.mp he
    rfl
  | phase p =>
    simp only [events, Phase.events, List.mem_cons, List.not_mem_nil, or_false] at he
    rcases he with rfl | rfl
    all_goals rfl
  | cacheUnreadable _ | cacheUnwritable _ => cases he

end Happening

theorem FileEvent.progress_eq_some {e : FileEvent} {name : Bytes} {p : Progress} (h : e.progress name = some p) :
    p.file = name ∧ (p.status = .error → e.status = .failed) := by
  unfold progress at h
  split at h
  · cases h
    exact ⟨rfl, fun hstatus => by cases hstatus⟩
  · cases h
  · cases h
    exact ⟨rfl, fun _ => by assumption⟩
  · cases h
    exact ⟨rfl, fun hstatus => by cases hstatus⟩

/-- What is told of a file is about it, and tells of a failure only if the file failed. -/
structure CompiledFile.IsCandid (file : CompiledFile) : Prop where
  about : ∀ e ∈ file.events, e.path = file.path ∨ e.path = FileSet.keptPath file.path
  fails : ∀ e ∈ file.events, e.status = .failed → file.failed = true

namespace Job

theorem IsFor.hasErrors {d : Disk} {limit : Int} {path : Bytes} {j : Job} (h : IsFor d limit path j)
    (hnone : j.file = none) : j.bag.hasErrors = true := by
  cases hread : d.read path with
  | error fault =>
    obtain ⟨-, finding, hfinding, hbag⟩ := h.refused fault hread
    rw [hbag]
    exact Bag.hasErrors_insert_new limit hfinding.severity
  | ok raw =>
    obtain ⟨-, f, hfile, -⟩ := h.loaded raw hread
    rw [hnone] at hfile
    cases hfile

variable {o : CompileOptions} {allowed : SourceFile → Bytes → Prop} {j : Job} {file : CompiledFile}

theorem Result.isCandid (hlive : o.cancelled = false) (h : j.Result o allowed file) {d : Disk} {path : Bytes}
    (hjob : j.IsFor d o.limit path) : file.IsCandid := by
  cases h with
  | unloaded hnone =>
    refine ⟨fun e he => ?_, fun e _ _ => hjob.hasErrors hnone⟩
    obtain rfl := List.mem_singleton.mp he
    exact .inl rfl
  | served hfile =>
    obtain ⟨-, -, -, -, hpath⟩ := hjob.of_file hfile
    rw [← hjob.called] at hpath
    refine ⟨fun e he => ?_, fun e he hstatus => ?_⟩
    all_goals obtain rfl := List.mem_singleton.mp he
    · exact .inr hpath
    · cases hstatus
  | @fresh f before after hfile hquiet hquiet' =>
    obtain ⟨-, -, hbag, -, hpath⟩ := hjob.of_file hfile
    rw [← hjob.called] at hpath
    refine ⟨fun e he => ?_, fun e he hstatus => ?_⟩
    all_goals obtain ⟨happening, hmem, he⟩ := List.mem_flatMap.mp he
    · exact .inr ((Happening.path_of_mem_events he).trans hpath)
    · rw [List.mem_append, List.mem_append] at hmem
      rcases hmem with (hmem | hmem) | hmem
      · rw [(hquiet _ hmem).events] at he
        cases he
      · rw [hbag] at hmem
        have hfailed := SourceFile.run_failed hlive hmem he hstatus
        rwa [← hbag] at hfailed
      · rw [(hquiet' _ hmem).events] at he
        cases he

end Job

/-! ## The last step of a build -/

namespace Build

variable (r : BuildRequest)

/-- The name of a file of the build on a disk. -/
def nameOn (d : Disk) (f : CompiledFile) : Bytes := displayName d.cwd r.source f.path

/-- A file fails if it did not compile or its module cannot be written. -/
def Fails (d : Disk) (f : CompiledFile) : Prop :=
  f.failed = true ∨ ∃ fault, d.writeDeep (outputPath r.out (nameOn r d f) r.ext) f.run.output = .error fault

variable {r} {d : Disk} {f : CompiledFile} {fs : List CompiledFile}

/-- What the last step for one file comes to. -/
structure Finished (r : BuildRequest) (d : Disk) (f : CompiledFile) (built : BuiltFile) (told : Progress) (d' : Disk) :
    Prop where
  name : built.name = nameOn r d f
  file : told.file = nameOn r d f
  cwd : d'.cwd = d.cwd
  fails : Fails r d f → told.status = .error ∧ (built.fault.isSome || built.bag.hasErrors) = true
  lands : ¬Fails r d f → told.status = .done ∧ (built.fault.isSome || built.bag.hasErrors) = false

theorem finish_finished (r : BuildRequest) (d : Disk) (f : CompiledFile) :
    Finished r d f (finish r d f).1 (finish r d f).2.1 (finish r d f).2.2 := by
  unfold finish
  dsimp only
  split
  · rename_i hfailed
    exact ⟨rfl, rfl, rfl, fun _ => ⟨rfl, hfailed⟩, fun h => absurd (.inl hfailed) h⟩
  · rename_i hcompiled
    split
    · rename_i d' hwrite
      refine ⟨rfl, rfl, Disk.cwd_writeDeep hwrite, ?_, fun _ => ⟨rfl, Bool.eq_false_iff.mpr hcompiled⟩⟩
      rintro (hfailed | ⟨fault, hfault⟩)
      · exact absurd hfailed hcompiled
      · cases hwrite.symm.trans hfault
    · rename_i fault hwrite
      exact ⟨rfl, rfl, rfl, fun _ => ⟨rfl, rfl⟩, fun h => absurd (.inr ⟨fault, hwrite⟩) h⟩

theorem cwd_finishAll (r : BuildRequest) (d : Disk) (fs : List CompiledFile) : (finishAll r d fs).2.cwd = d.cwd := by
  induction fs generalizing d with
  | nil => rfl
  | cons f fs ih =>
    rw [finishAll]
    exact (ih _).trans (finish_finished r d f).cwd

theorem finishAll_append (r : BuildRequest) (d : Disk) (fs gs : List CompiledFile) :
    finishAll r d (fs ++ gs) =
      ((finishAll r d fs).1 ++ (finishAll r (finishAll r d fs).2 gs).1, (finishAll r (finishAll r d fs).2 gs).2) := by
  induction fs generalizing d with
  | nil => rfl
  | cons f fs ih => simp only [List.cons_append, finishAll, ih]

theorem nameOn_congr {d' : Disk} (h : d'.cwd = d.cwd) (f : CompiledFile) : nameOn r d' f = nameOn r d f := by
  rw [nameOn, h, nameOn]

/-- Files are told of and returned by their names, in their order. -/
theorem names_finishAll (r : BuildRequest) (d : Disk) (fs : List CompiledFile) :
    (finishAll r d fs).1.map (fun x => x.1.name) = fs.map (nameOn r d) ∧
      (finishAll r d fs).1.map (fun x => x.2.file) = fs.map (nameOn r d) := by
  induction fs generalizing d with
  | nil => exact ⟨rfl, rfl⟩
  | cons f fs ih =>
    have hfirst := finish_finished r d f
    obtain ⟨hnames, hfiles⟩ := ih (finish r d f).2.2
    have hrest : fs.map (nameOn r (finish r d f).2.2) = fs.map (nameOn r d) :=
      List.map_congr_left fun g _ => nameOn_congr hfirst.cwd g
    simp only [finishAll, List.map_cons, hfirst.name, hfirst.file, hnames, hfiles, hrest, and_self]

theorem exists_failed_iff (r : BuildRequest) (d : Disk) (fs : List CompiledFile) :
    (∃ x ∈ (finishAll r d fs).1, (x.1.fault.isSome || x.1.bag.hasErrors) = true) ↔
      ∃ before f after, fs = before ++ f :: after ∧ Fails r (finishAll r d before).2 f := by
  -- the files behind the first find the disk as its last step left it
  induction fs generalizing d with
  | nil => simp [finishAll]
  | cons f fs ih =>
    have hfirst := finish_finished r d f
    simp only [finishAll, List.exists_mem_cons_iff, ih]
    constructor
    · rintro (hfailed | ⟨before, g, after, rfl, hfails⟩)
      · refine ⟨[], f, fs, rfl, Classical.byContradiction fun hlands => ?_⟩
        rw [(hfirst.lands hlands).2] at hfailed
        cases hfailed
      · exact ⟨f :: before, g, after, rfl, hfails⟩
    · rintro ⟨before, g, after, hfiles, hfails⟩
      cases before with
      | nil =>
        obtain ⟨rfl, -⟩ := List.cons.inj hfiles
        exact .inl (hfirst.fails hfails).2
      | cons f' before =>
        obtain ⟨rfl, rfl⟩ := List.cons.inj hfiles
        exact .inr ⟨before, g, after, rfl, hfails⟩

/-! ### The end of a build -/

section Conclude

variable {compiled : DirectoryResult} {events : List FileEvent}

theorem files_conclude (d : Disk) (names : List Bytes) (events : List FileEvent) (hquiet : compiled.fault = none) :
    (conclude r d names compiled events).1.files = (finishAll r d compiled.files).1.map (·.1) := by
  unfold conclude
  rw [hquiet]
  dsimp only
  split <;> rfl

/-- The build counts the files that fail. -/
theorem failed_conclude (d : Disk) (names : List Bytes) (events : List FileEvent) (hquiet : compiled.fault = none) :
    0 < (conclude r d names compiled events).1.failed ↔
      ∃ before f after, compiled.files = before ++ f :: after ∧ Fails r (finishAll r d before).2 f := by
  have hcount : (conclude r d names compiled events).1.failed =
      ((finishAll r d compiled.files).1.map (·.1)).countP fun f => f.fault.isSome || f.bag.hasErrors := by
    unfold conclude
    rw [hquiet]
    dsimp only
    split <;> rfl
  rw [hcount, List.countP_map, List.countP_pos_iff, ← exists_failed_iff]
  rfl

/-- What a view is told of a build: that files wait, what happens to them, what became of them, and what became of all. -/
theorem progress_conclude (d : Disk) (names : List Bytes) (events : List FileEvent) (hquiet : compiled.fault = none) :
    ∃ last : Progress, last.file = [] ∧ (last.status = .error ↔ 0 < (conclude r d names compiled events).1.failed) ∧
      (conclude r d names compiled events).1.progress =
        queued names ++ events.filterMap (fun e => e.progress (displayName d.cwd r.source e.path)) ++
          (finishAll r d compiled.files).1.map (·.2) ++ [last] := by
  unfold conclude
  rw [hquiet]
  dsimp only
  split
  · rename_i hfailed
    exact ⟨_, rfl, ⟨fun _ => hfailed, fun _ => rfl⟩, rfl⟩
  · rename_i hnone
    exact ⟨_, rfl, ⟨fun h => absurd h (by decide), fun h => absurd h hnone⟩, rfl⟩

/-- An error that is told while files are compiled is that of a file that failed. -/
theorem failed_of_observed (hcandid : ∀ f ∈ fs, f.IsCandid) (hevents : ∀ e ∈ events, ∃ f ∈ fs, e ∈ f.events)
    (hdistinct : (fs.map (nameOn r d)).Nodup) (hf : f ∈ fs) {p : Progress}
    (hp : p ∈ events.filterMap fun e => e.progress (displayName d.cwd r.source e.path)) (hname : p.file = nameOn r d f)
    (hstatus : p.status = .error) : f.failed = true := by
  obtain ⟨e, he, hprogress⟩ := List.mem_filterMap.mp hp
  obtain ⟨hfile, hfailed⟩ := FileEvent.progress_eq_some hprogress
  obtain ⟨g, hg, heg⟩ := hevents e he
  have hsame : nameOn r d g = nameOn r d f := by
    rw [← hname, hfile, nameOn]
    rcases (hcandid g hg).about e heg with hpath | hpath
    · rw [hpath]
    · rw [hpath, displayName_keptPath]
  obtain rfl := List.inj_on_of_nodup_map hdistinct hg hf hsame
  exact (hcandid g hg).fails e heg (hfailed hstatus)

/-- What is told of a file last is told once, and nothing else in the end is about the file. -/
theorem told_apart (hdistinct : (fs.map (nameOn r d)).Nodup) {before after : List CompiledFile}
    (hfiles : fs = before ++ f :: after) :
    ∃ earlier later, (finishAll r d fs).1.map (·.2) = earlier ++ (finish r (finishAll r d before).2 f).2.1 :: later ∧
      ∀ p, p ∈ earlier ∨ p ∈ later → p.file ≠ nameOn r d f := by
  have hnames := (names_finishAll r d fs).2
  have hfile : (finish r (finishAll r d before).2 f).2.1.file = nameOn r d f := by
    rw [(finish_finished r _ f).file, nameOn_congr (cwd_finishAll r d before)]
  rw [← hnames, hfiles, finishAll_append, finishAll] at hdistinct
  rw [hfiles, finishAll_append, finishAll]
  refine ⟨_, _, by rw [List.map_append, List.map_cons], fun p hp hsame => ?_⟩
  rw [List.map_append, List.map_cons, List.nodup_middle, List.nodup_cons, ← List.map_append, hfile, ← hsame] at hdistinct
  refine hdistinct.1 ?_
  rcases hp with hp | hp
  all_goals
    obtain ⟨x, hx, rfl⟩ := List.mem_map.mp hp
    refine List.mem_map.mpr ⟨x, ?_, rfl⟩
  · exact List.mem_append_left _ hx
  · exact List.mem_append_right _ hx

/-- An item that is told of a build shows in the end what became of its file. -/
theorem label_told (names : List Bytes) (item : ViewItem) (hquiet : compiled.fault = none)
    (hcandid : ∀ f ∈ compiled.files, f.IsCandid) (hevents : ∀ e ∈ events, ∃ f ∈ compiled.files, e ∈ f.events)
    (hdistinct : (compiled.files.map (nameOn r d)).Nodup)
    {before after : List CompiledFile} (hfiles : compiled.files = before ++ f :: after)
    (hpath : item.path = nameOn r d f) (hstart : item.label ≠ .error) :
    (Fails r (finishAll r d before).2 f →
      ((conclude r d names compiled events).1.progress.foldl ViewItem.told item).label = .error) ∧
    (¬Fails r (finishAll r d before).2 f →
      ((conclude r d names compiled events).1.progress.foldl ViewItem.told item).label = .done) := by
  obtain ⟨last, hlast, -, hprogress⟩ := progress_conclude (r := r) d names events hquiet
  obtain ⟨earlier, later, htold, hothers⟩ := told_apart hdistinct hfiles
  have hfinished := finish_finished r (finishAll r d before).2 f
  have hfile : (finish r (finishAll r d before).2 f).2.1.file = item.path := by
    rw [hfinished.file, nameOn_congr (cwd_finishAll r d before), hpath]
  rw [hprogress, htold]
  refine ⟨fun hfails => ?_, fun hlands => ?_⟩
  -- an error stays, so nothing else that is told matters
  · exact ViewItem.label_foldl_of_error (by simp) hfile (hfinished.fails hfails).1
  · have hlabel : (finish r (finishAll r d before).2 f).2.1.label? = some .done := by
      rw [Progress.label?, (hfinished.lands hlands).1]
    -- what the last step tells is the last that is about the file, and only a file that failed was in error before
    simp only [List.append_assoc, List.cons_append]
    rw [← List.append_assoc, ← List.append_assoc]
    refine ViewItem.label_foldl_of_last hstart hfile hlabel (fun p hp hsame => ?_) fun p hp => ?_
    · rw [List.mem_append, List.mem_append] at hp
      rcases hp with (hp | hp) | hp
      · obtain ⟨name, -, rfl⟩ := List.mem_map.mp hp
        simp
      · intro hstatus
        have hf : f ∈ compiled.files := by simp [hfiles]
        exact hlands (.inl (failed_of_observed hcandid hevents hdistinct hf hp (hsame.trans hpath) hstatus))
      · exact absurd (hsame.trans hpath) (hothers p (.inl hp))
    · rw [hpath]
      rcases List.mem_append.mp hp with hp | hp
      · exact hothers p (.inr hp)
      · rw [List.mem_singleton.mp hp, hlast]
        exact (displayName_ne_nil _ _ _).symm

/-- Of the whole build only its end is told. -/
theorem told_of_all {names : List Bytes} (hquiet : compiled.fault = none) (hnamed : [] ∉ names) :
    (∃ p ∈ (conclude r d names compiled events).1.progress, p.file = [] ∧ p.status = .error) ↔
      0 < (conclude r d names compiled events).1.failed := by
  obtain ⟨last, hlast, hfailed, hprogress⟩ := progress_conclude (r := r) d names events hquiet
  rw [← hfailed, hprogress]
  constructor
  · rintro ⟨p, hp, hfile, hstatus⟩
    rw [List.mem_append, List.mem_append, List.mem_append, List.mem_singleton] at hp
    rcases hp with ((hp | hp) | hp) | rfl
    · obtain ⟨name, hname, rfl⟩ := List.mem_map.mp hp
      exact absurd (hfile ▸ hname) hnamed
    · obtain ⟨e, -, he⟩ := List.mem_filterMap.mp hp
      exact absurd ((FileEvent.progress_eq_some he).1.symm.trans hfile) (displayName_ne_nil _ _ _)
    · obtain ⟨x, hx, rfl⟩ := List.mem_map.mp hp
      have hname : x.2.file ∈ compiled.files.map (nameOn r d) :=
        (names_finishAll r d compiled.files).2 ▸ List.mem_map_of_mem hx
      obtain ⟨f, -, hf⟩ := List.mem_map.mp hname
      exact absurd (hf.trans hfile) (displayName_ne_nil _ _ _)
    · exact hstatus
  · intro hstatus
    exact ⟨last, by simp, hlast, hstatus⟩

end Conclude

/-! ## All courses -/

/-- A way a build can go when its sources are listed: they are worked on side by side until all is over, and what happens
to them is told in an order that is right for each file. -/
structure Course (r : BuildRequest) (d : Disk) where
  names : List Bytes
  listed : d.sourceNames r.source = .ok names
  jobs : List Job
  set : FileSet
  loaded : d.jobs r.source r.compile.limit = .ok (jobs, set)
  slots : Nat
  steps : Nat
  group : Group
  taken : Group.Steps r.compile r.cache slots jobs (.start d jobs) steps group
  ended : group.isOver = true
  events : List FileEvent
  told : Interleaving (group.files.map CompiledFile.events) events

namespace Course

variable (c : Course r d)

def compiled : DirectoryResult := ⟨c.set, c.jobs.length, c.group.files, c.group.fault⟩

/-- What the build returns, with the disk that it leaves. -/
def outcome : BuildResult × Disk := conclude r c.group.disk c.names c.compiled c.events

/-- A view of the files that has taken in all that the build tells. -/
def view (title : Bytes) : BuildView := c.outcome.1.progress.foldl BuildView.apply (.new title c.names)

end Course

theorem exists_sources {dir : Bytes} {names : List Bytes} (h : d.sourceNames dir = .ok names) :
    ∃ paths, d.sources dir = .ok paths ∧ paths.map (displayName d.cwd dir) = names := by
  rw [Disk.sourceNames] at h
  cases hsources : d.sources dir with
  | error fault =>
    rw [hsources] at h
    cases h
  | ok paths =>
    rw [hsources] at h
    exact ⟨paths, rfl, Except.ok.inj h⟩

theorem respects_cwd (o : CompileOptions) (cache : Option Cache) (cwd : Bytes) (j : Job) :
    j.Respects o (fun _ _ => True) cache fun d => d.cwd = cwd := by
  constructor
  · intros
    trivial
  · intro _ _ _ _ _ _ hcwd _ _ hput
    exact (Cache.cwd_put (Cache.store_put_eq_ok hput)).trans hcwd

theorem named_and_candid {o : CompileOptions} {allowed : SourceFile → Bytes → Prop} (hlive : o.cancelled = false)
    {paths : List Bytes}
    (h : List.Forall₂ (fun path file => ∃ j, Job.IsFor d o.limit path j ∧ j.Result o allowed file) paths fs) :
    fs.map (nameOn r d) = paths.map (displayName d.cwd r.source) ∧ ∀ f ∈ fs, f.IsCandid := by
  induction h with
  | nil => exact ⟨rfl, List.forall_mem_nil _⟩
  | cons first _ ih =>
    obtain ⟨j, hfor, hresult⟩ := first
    rw [List.map_cons, List.map_cons, ih.1, nameOn, hresult.path, hfor.called]
    exact ⟨rfl, List.forall_mem_cons.mpr ⟨hresult.isCandid hlive hfor, ih.2⟩⟩

/-- Whatever the order of work, nobody is called off, and each file is called by its name and is candid. -/
theorem Course.settled (c : Course r d) (hlive : r.compile.cancelled = false) (hfit : c.names.length ≤ UInt32.size) :
    c.group.fault = none ∧ c.group.disk.cwd = d.cwd ∧ c.group.files.map (nameOn r d) = c.names ∧
      ∀ f ∈ c.group.files, f.IsCandid := by
  obtain ⟨paths, hsources, hnames⟩ := exists_sources c.listed
  rw [← hnames, List.length_map] at hfit
  obtain ⟨jobs, set, hjobs, hlength, hfor⟩ := Disk.exists_jobs hsources hfit r.compile.limit
  obtain ⟨rfl, -⟩ := Prod.mk.inj (Except.ok.inj (c.loaded.symm.trans hjobs))
  have hsound := c.taken.sound hlive (fun j _ => respects_cwd r.compile r.cache d.cwd j) (Group.sound_start rfl)
  obtain ⟨hnamed, hcandid⟩ := named_and_candid (r := r) hlive (hsound.results c.ended hlength hfor)
  exact ⟨hsound.quiet, hsound.disk, hnamed.trans hnames, hcandid⟩

section Settled

variable (c : Course r d) (hlive : r.compile.cancelled = false) (hfit : c.names.length ≤ UInt32.size)

include hlive hfit

theorem Course.nil_notin_names : [] ∉ c.names := by
  obtain ⟨-, -, hnamed, -⟩ := c.settled hlive hfit
  rw [← hnamed]
  intro hnil
  obtain ⟨f, -, hf⟩ := List.mem_map.mp hnil
  exact displayName_ne_nil _ _ _ hf

/-- Each file is told by itself. -/
theorem Course.items_view (hdistinct : c.names.Nodup) (title : Bytes) :
    (c.view title).items = c.names.map fun path => c.outcome.1.progress.foldl ViewItem.told { path } := by
  have hpaths : (BuildView.new title c.names).items.map ViewItem.path = c.names := by
    simp [BuildView.new, Function.comp_def]
  rw [Course.view, BuildView.items_foldl_apply (by rwa [hpaths]) (by rw [hpaths]; exact c.nil_notin_names hlive hfit),
    BuildView.new, List.map_map]
  rfl

theorem Course.failed_view (title : Bytes) : (c.view title).failed = true ↔ 0 < c.outcome.1.failed := by
  obtain ⟨hquiet, -, -, -⟩ := c.settled hlive hfit
  rw [Course.view, BuildView.failed_foldl_apply, Course.outcome, ← told_of_all hquiet (c.nil_notin_names hlive hfit)]
  simp [BuildView.new]

/-- The item of a file shows what became of it. -/
theorem Course.label_view (hdistinct : c.names.Nodup) (title : Bytes) {before after : List CompiledFile} {f : CompiledFile}
    (hfiles : c.group.files = before ++ f :: after) :
    ∃ item ∈ (c.view title).items, item.path = nameOn r d f ∧
      (item.label = .error ↔ Fails r (finishAll r c.group.disk before).2 f) ∧
      (item.label = .done ↔ ¬Fails r (finishAll r c.group.disk before).2 f) := by
  obtain ⟨hquiet, hcwd, hnamed, hcandid⟩ := c.settled hlive hfit
  have hsame : nameOn r c.group.disk = nameOn r d := funext (nameOn_congr hcwd)
  have hevents : ∀ e ∈ c.events, ∃ f ∈ c.group.files, e ∈ f.events := by
    intro e he
    obtain ⟨l, hl, hel⟩ := c.told.exists_mem he
    obtain ⟨f, hf, rfl⟩ := List.mem_map.mp hl
    exact ⟨f, hf, hel⟩
  have hmem : nameOn r d f ∈ c.names := by
    rw [← hnamed, hfiles]
    simp
  have hdiffer : (c.group.files.map (nameOn r c.group.disk)).Nodup := by rwa [hsame, hnamed]
  have hquiet : c.compiled.fault = none := hquiet
  obtain ⟨herror, hdone⟩ := label_told c.names { path := nameOn r d f } hquiet hcandid hevents hdiffer hfiles
    (congrFun hsame f).symm (by simp)
  refine ⟨c.outcome.1.progress.foldl ViewItem.told { path := nameOn r d f }, ?_, ViewItem.path_foldl_told _ _, ?_⟩
  · rw [c.items_view hlive hfit hdistinct]
    exact List.mem_map_of_mem hmem
  · by_cases hfails : Fails r (finishAll r c.group.disk before).2 f
    · simp [Course.outcome, herror hfails, hfails]
    · simp [Course.outcome, hdone hfails, hfails]

end Settled

theorem source_ne_nil {dir : Bytes} {names : List Bytes} (h : d.sourceNames dir = .ok names) : dir ≠ [] := by
  rintro rfl
  have hplace : d.place false [] = .error .missing := rfl
  rw [Disk.sourceNames, Disk.sources, Disk.tree, hplace] at h
  cases h

/-- A build that is not refused takes one of its courses. -/
theorem build_takes_course {names : List Bytes} (hlive : r.compile.cancelled = false)
    (hlisted : d.sourceNames r.source = .ok names) (hout : r.out ≠ []) (t : Tracer) (parent : Nat) :
    ∃ c : Course r d, c.outcome = ((build r d t parent).1, (build r d t parent).2.1) := by
  obtain ⟨paths, hsources, -⟩ := exists_sources hlisted
  have hjobs := Disk.jobs_of_sources hsources r.compile.limit
  have hroom : (Job.loadAll d r.compile.limit { start := r.source } paths).1 ≠ [] → 0 < 1 := fun _ => Nat.one_pos
  obtain ⟨n, g, hsteps, hover, hresult, hdisk⟩ := Group.steps_compileDirectory r.cache hlive hroom hjobs t parent
  refine ⟨⟨names, hlisted, _, _, hjobs, 1, n, g, hsteps, hover, _, .flatten _⟩, ?_⟩
  unfold build
  rw [if_neg (by simpa using source_ne_nil hlisted), if_neg (by simpa using hout), hlisted]
  dsimp only
  generalize compileDirectory r.compile r.cache d t parent r.source = compiled at hresult hdisk
  obtain ⟨result, disk, tracer⟩ := compiled
  subst hresult hdisk
  rfl

end Build

/-! ### A build of one file -/

def oneBuild : BuildRequest := { source := "src", out := "out", compile := { emit := {} } }

theorem oneBuild_names : oneSource.sourceNames oneBuild.source = .ok [("a.uns" : Bytes)] := by
  have hname : displayName oneSource.cwd "src" "src/a.uns" = ("a.uns" : Bytes) := by decide
  rw [oneBuild, Disk.sourceNames, oneSource_sources, Except.map, List.map_singleton, hname]

end Bracescript
