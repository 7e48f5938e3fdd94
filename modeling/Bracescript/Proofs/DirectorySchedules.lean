import Mathlib.Data.List.Forall2
import Bracescript.Proofs.Schedules

/-!
# Directories and the order of work

What the files of a directory come to depends neither on how many of them are worked on at once nor on the order in which
their steps are taken: each comes to what it is by itself.
-/

namespace Bracescript

open FileSet (normalized keptPath)

/-! ## Findings apart from the number of the file -/

def Span.unfiled (s : Span) : Span := { s with file := 0 }

def Diagnostic.unfiled (d : Diagnostic) : Diagnostic :=
  { d with span := d.span.unfiled, notes := d.notes.map fun n => { n with span := n.span.unfiled } }

def Bag.unfiled (b : Bag) : Bag := { b with items := b.items.map Diagnostic.unfiled }

theorem Bag.unfiled_insert (b : Bag) (d : Diagnostic) : (b.insert d).unfiled = b.unfiled.insert d.unfiled := by
  unfold insert add unfiled
  simp only [Array.size_map]
  split <;> simp

/-- What a compilation comes to by what the text is by itself. -/
def outcome (bag : Bag) : Except Fault Bytes → Bytes × Option Fault × Bag
  | .ok output => (output, none, bag)
  | .error (.malformed e) => ([], none, bag.insert e.diagnostic)
  | .error fault => ([], some fault, bag.report fault .unsupportedNode)

theorem outcome_alike {ρ : Equiv.Perm UInt32} {direct direct' : Except Fault Bytes} (h : Carried ρ Eq direct direct')
    (bag : Bag) :
    (outcome bag direct').1 = (outcome bag direct).1 ∧ (outcome bag direct').2.1 = (outcome bag direct).2.1 ∧
      (outcome bag direct').2.2.unfiled = (outcome bag direct).2.2.unfiled := by
  cases h with
  | ok heq =>
    subst heq
    exact ⟨rfl, rfl, rfl⟩
  | error fault =>
    cases fault with
    | malformed e =>
      refine ⟨rfl, rfl, ?_⟩
      simp only [Fault.renamed, outcome, Bag.unfiled_insert]
      rfl
    | unsupported | internal | other => exact ⟨rfl, rfl, rfl⟩

namespace SourceFile

theorem compile_outcome (f : SourceFile) (o : EmitOptions) (bag : Bag) :
    ((f.compile o bag).output, (f.compile o bag).fault, (f.compile o bag).bag) = outcome bag (f.compileText o) := by
  unfold compileText parse compile parsePhases
  cases f.tokenize with
  | error e => rfl
  | ok tokens =>
    dsimp only
    cases hparse : f.parseTokens tokens with
    | error fault =>
      obtain ⟨e, rfl, -⟩ := parseTokens_eq_error hparse
      rfl
    | ok p =>
      dsimp only
      cases p.emit o <;> rfl

/-- Two files with the same text come to the same, up to their numbers. -/
theorem run_alike {f f' : SourceFile} (hcontent : f'.content = f.content) (o : CompileOptions) (bag : Bag) :
    (f'.run o bag).output = (f.run o bag).output ∧ (f'.run o bag).fault = (f.run o bag).fault ∧
      (f'.run o bag).bag.unfiled = (f.run o bag).bag.unfiled := by
  unfold run
  split
  · exact ⟨rfl, rfl, rfl⟩
  · have halike := outcome_alike (compileText_carried f f' hcontent o.emit) bag
    rw [← f.compile_outcome, ← f'.compile_outcome] at halike
    exact halike

end SourceFile

/-! ## Results apart from the cache -/

/-- What is told of a file, but for how its output came about and what was measured. -/
def CompiledFile.report (f : CompiledFile) : Bytes × UInt32 × Bytes × Option Fault × Bag :=
  (f.path, f.id, f.run.output, f.run.fault, f.run.bag)

namespace Job

/-- What is to be told of a job, whatever the others do. -/
def report (o : CompileOptions) (j : Job) : Bytes × UInt32 × Bytes × Option Fault × Bag :=
  match j.file with
  | none => j.unloaded.report
  | some f => (j.compiled o f (f.run o j.bag)).report

/-- An output that the file comes to by itself. -/
def Genuine (o : CompileOptions) (f : SourceFile) (output : Bytes) : Prop := f.compileText o.emit = .ok output

theorem Result.report {o : CompileOptions} {j : Job} {file : CompiledFile} (hlive : o.cancelled = false)
    (h : j.Result o (Genuine o) file) : file.report = j.report o := by
  cases h with
  | unloaded hnone => simp only [Job.report, hnone]
  | fresh hfile => simp only [Job.report, hfile, compiled, CompiledFile.report]
  | served hfile known =>
    obtain ⟨houtput, hfault, hbag, -⟩ := SourceFile.run_of_compileText hlive known j.bag
    simp only [Job.report, hfile, compiled, CompiledFile.report, houtput, hfault, hbag]

/-- The texts that a job hashes are among `texts`, and the entry that it puts in can be unpacked. -/
structure IsKept (o : CompileOptions) (texts : List Bytes) (f : SourceFile) : Prop where
  content : f.content ∈ texts
  key : o.emit.keyText f.hash ∈ texts
  unpacks : ∀ output, f.compileText o.emit = .ok output →
    ∀ e : CacheEntry, e = ⟨CacheEntry.currentSchema, f.path, Release.current.version, output⟩ →
      CacheEntry.decode e.encode = .ok e

/-- What is found in a sound cache is genuine, and what a run puts into it leaves it sound. -/
theorem respects_sound {o : CompileOptions} {j : Job} {cache : Option Cache} {texts : List Bytes}
    (h : ∀ c, cache = some c → Sha256.NoCollision texts ∧ ∀ f, j.file = some f → IsKept o texts f) :
    Respects o (Genuine o) j cache fun d => ∀ c, cache = some c → c.Sound texts d := by
  constructor
  · intro c d f output hcache hfile hsound hget
    obtain ⟨hdistinct, hkept⟩ := h c hcache
    exact (hsound c hcache).compileText_of_get hdistinct (hkept f hfile).content (hkept f hfile).key hget
  · intro c d d' f hcache hfile hsound hprogram hfault hput c' hcache'
    obtain rfl := Option.some.inj (hcache.symm.trans hcache')
    have hsound := hsound c hcache
    have hkept := (h c hcache).2 f hfile
    have htext := SourceFile.compileText_of_run hprogram hfault
    have hsame : (SourceFile.ofInput f.content).content = f.content := rfl
    have hstored := Cache.put_stored hsound.tree hsound.tidy (Cache.store_put_eq_ok hput)
    refine hsound.stored hstored (hkept.unpacks _ htext _ rfl) ⟨f.content, o.emit, hkept.content, hkept.key, rfl, ?_⟩
    exact SourceFile.compileText_eq_ok_congr hsame htext

/-! ## Jobs of a directory -/

/-- The finding for a file that cannot be read. -/
structure IsLoadFinding (fault : DiskFault) (d : Diagnostic) : Prop where
  severity : d.severity = .error
  code : d.code = .loadFile
  message : d.message = "failed to load file: " ++ fault.message

/-- The job of a path: its text if it can be read, or a finding if it cannot. -/
structure IsFor (d : Disk) (limit : Int) (path : Bytes) (j : Job) : Prop where
  called : j.path = path
  loaded : ∀ raw, d.read path = .ok raw →
    j.bag = .new limit ∧ ∃ f, j.file = some f ∧ f.content = normalized raw ∧ f.path = keptPath path
  refused : ∀ fault, d.read path = .error fault →
    j.file = none ∧ ∃ finding, IsLoadFinding fault finding ∧ j.bag = (Bag.new limit).insert finding

theorem load_isFor (d : Disk) (limit : Int) (set : FileSet) (hfit : set.files.size < UInt32.size) (path : Bytes) :
    IsFor d limit path (load d limit set path).1 := by
  cases hread : d.read path with
  | error fault =>
    simp only [load, FileSet.load, hread, Except.map]
    refine ⟨rfl, fun raw h => ?_, fun fault' h => ?_⟩
    · rw [hread] at h
      cases h
    · rw [hread] at h
      cases h
      exact ⟨rfl, _, ⟨rfl, rfl, rfl⟩, rfl⟩
  | ok raw =>
    have hget := FileSet.get?_add set hfit path (normalized raw)
    simp only [load, FileSet.load, hread, Except.map]
    refine ⟨rfl, fun raw' h => ?_, fun fault h => ?_⟩
    · rw [hread] at h
      cases h
      exact ⟨rfl, _, hget _, rfl, rfl⟩
    · rw [hread] at h
      cases h

theorem length_loadAll (d : Disk) (limit : Int) (set : FileSet) (paths : List Bytes) :
    (loadAll d limit set paths).1.length = paths.length := by
  induction paths generalizing set with
  | nil => rfl
  | cons path paths ih => simp only [loadAll, List.length_cons, ih]

theorem loadAll_isFor (d : Disk) (limit : Int) (set : FileSet) {paths : List Bytes} {path : Bytes} {i : Nat}
    (hfit : set.files.size + i < UInt32.size) (hpath : paths[i]? = some path) :
    ∃ j, (loadAll d limit set paths).1[i]? = some j ∧ IsFor d limit path j := by
  induction paths generalizing set i with
  | nil => cases hpath
  | cons first paths ih =>
    cases i with
    | zero =>
      cases hpath
      exact ⟨_, rfl, load_isFor d limit set hfit path⟩
    | succ i =>
      have hsize := size_load d limit set first
      exact ih (load d limit set first).2 (by omega) hpath

/-- The file of a job is what was read. -/
theorem IsFor.of_file {d : Disk} {limit : Int} {path : Bytes} {j : Job} (h : IsFor d limit path j) {f : SourceFile}
    (hfile : j.file = some f) :
    ∃ raw, d.read path = .ok raw ∧ j.bag = .new limit ∧ f.content = normalized raw ∧ f.path = keptPath path := by
  cases hread : d.read path with
  | error fault =>
    rw [(h.refused fault hread).1] at hfile
    cases hfile
  | ok raw =>
    obtain ⟨hbag, f', hfile', hcontent, hpath⟩ := h.loaded raw hread
    obtain rfl := Option.some.inj (hfile.symm.trans hfile')
    exact ⟨raw, rfl, hbag, hcontent, hpath⟩

/-- What is known of a path is known of its job. -/
theorem IsFor.isKept {d : Disk} {limit : Int} {path : Bytes} {j : Job} (h : IsFor d limit path j) {o : CompileOptions}
    {texts : List Bytes} (hhashes : Cache.Hashes texts d o.emit path) (hunpacks : Cache.Unpacks d o.emit path)
    {f : SourceFile} (hfile : j.file = some f) : IsKept o texts f := by
  obtain ⟨raw, hread, -, hcontent, hpath⟩ := h.of_file hfile
  obtain ⟨hin, hkey⟩ := hhashes raw hread
  refine ⟨hcontent ▸ hin, ?_, fun output htext e he => hunpacks raw output hread ?_ e (hpath ▸ he)⟩
  · rw [SourceFile.hash, hcontent]
    exact hkey
  · exact SourceFile.compileText_eq_ok_congr hcontent.symm htext

end Job

/-- The results for a file of a directory and for the file by itself, which has another number. -/
structure CompiledFile.Agrees (file : CompiledFile) (r : CompileResult) : Prop where
  output : file.run.output = r.run.output
  fault : file.run.fault = r.fault
  findings : file.run.bag.unfiled = r.run.bag.unfiled
  bag : r.timing = none → file.run.bag.unfiled = r.bag.unfiled

theorem Job.Result.agrees {o : CompileOptions} {j : Job} {file : CompiledFile} (hlive : o.cancelled = false)
    (h : j.Result o (Job.Genuine o) file) {d : Disk} {path raw : Bytes} (hjob : Job.IsFor d o.limit path j)
    (hread : d.read path = .ok raw) (t : Tracer) (parent : Nat) :
    ∃ r, (compilePath o none d t parent path).1 = .ok r ∧ file.Agrees r := by
  obtain ⟨hbag, f, hfile, hcontent, -⟩ := hjob.loaded raw hread
  obtain ⟨id, set, f', hload, hget, hcontent'⟩ := FileSet.load_eq_ok {} (by decide) hread
  have hreport := h.report hlive
  simp only [Job.report, hfile, hbag, Job.compiled, CompiledFile.report, Prod.mk.injEq] at hreport
  obtain ⟨-, -, houtput, hfault, hfindings⟩ := hreport
  obtain ⟨halike, halike', halike''⟩ := SourceFile.run_alike (hcontent.trans hcontent'.symm) o (.new o.limit)
  refine ⟨_, (compilePath_of_load hload hget none t parent).1, houtput.trans halike, hfault.trans halike', ?_, fun hnone => ?_⟩
  · rw [hfindings]
    exact halike''
  · cases htimed : o.timings with
    | true => simp [CompileResult.ofRun, htimed] at hnone
    | false =>
      rw [hfindings]
      simpa [CompileResult.ofRun, SourceFile.runOn, htimed] using halike''

/-- What is told of the source at a path: what it comes to by itself without a cache, or that it cannot be read. -/
structure CompiledFile.TellsOf (o : CompileOptions) (d : Disk) (path : Bytes) (file : CompiledFile) : Prop where
  called : file.path = path
  loaded : ∀ raw, d.read path = .ok raw →
    ∀ t parent, ∃ r, (compilePath o none d t parent path).1 = .ok r ∧ file.Agrees r
  refused : ∀ fault, d.read path = .error fault → file.run.output = [] ∧ file.run.fault = none ∧
    ∃ finding, Job.IsLoadFinding fault finding ∧ file.run.bag.toList = [finding]

theorem Job.Result.tellsOf {o : CompileOptions} {j : Job} {file : CompiledFile} (hlive : o.cancelled = false)
    (h : j.Result o (Job.Genuine o) file) {d : Disk} {path : Bytes} (hjob : Job.IsFor d o.limit path j) :
    file.TellsOf o d path := by
  have hreport := h.report hlive
  refine ⟨h.path.trans hjob.called, fun raw hread t parent => h.agrees hlive hjob hread t parent, fun fault hread => ?_⟩
  obtain ⟨hnone, finding, hfinding, hbag⟩ := hjob.refused fault hread
  simp only [Job.report, hnone, CompiledFile.report, Job.unloaded, Prod.mk.injEq] at hreport
  obtain ⟨-, -, houtput, hfault, hfindings⟩ := hreport
  refine ⟨houtput, hfault, finding, hfinding, ?_⟩
  rw [hfindings, hbag, Bag.toList_insert_new]

/-! ## All schedules -/

/-- A cache whose entries all come from what this compiler was given, on a disk whose sources it can serve. -/
structure Cache.Serves (c : Cache) (texts : List Bytes) (d : Disk) (o : EmitOptions) (paths : List Bytes) : Prop where
  distinct : Sha256.NoCollision texts
  sound : c.Sound texts d
  hashes : ∀ path ∈ paths, Cache.Hashes texts d o path
  unpacks : ∀ path ∈ paths, Cache.Unpacks d o path

theorem Disk.jobs_of_sources {d : Disk} {dir : Bytes} {paths : List Bytes} (h : d.sources dir = .ok paths) (limit : Int) :
    d.jobs dir limit = .ok (Job.loadAll d limit { start := dir } paths) := by
  rw [Disk.jobs, h]
  rfl

/-- Every source of a directory has its job. -/
theorem Disk.exists_jobs {d : Disk} {dir : Bytes} {paths : List Bytes} (h : d.sources dir = .ok paths)
    (hfit : paths.length ≤ UInt32.size) (limit : Int) :
    ∃ jobs set, d.jobs dir limit = .ok (jobs, set) ∧ jobs.length = paths.length ∧
      ∀ (i : Nat) (path : Bytes), paths[i]? = some path → ∃ j, jobs[i]? = some j ∧ Job.IsFor d limit path j := by
  refine ⟨_, _, Disk.jobs_of_sources h limit, Job.length_loadAll d limit { start := dir } paths, fun i path hpath => ?_⟩
  have hlt : i < paths.length := (List.getElem?_eq_some_iff.mp hpath).1
  exact Job.loadAll_isFor d limit { start := dir } (i := i) (by simp; omega) hpath

namespace Group

variable {o : CompileOptions} {cache : Option Cache} {fact : Disk → Prop} {slots : Nat} {jobs : List Job}
  {texts : List Bytes} {g : Group}

/-- When all is over the results are those of the jobs, whatever the order was. -/
theorem Sound.report (hlive : o.cancelled = false) (hsound : Sound o (Job.Genuine o) fact jobs g) (hover : g.isOver = true) :
    g.files.map CompiledFile.report = jobs.map (Job.report o) := by
  obtain ⟨hlength, hfiles⟩ := hsound.files hover
  apply List.ext_getElem?
  intro i
  rw [List.getElem?_map, List.getElem?_map]
  cases hj : jobs[i]? with
  | none =>
    have hnone : g.files[i]? = none := by
      rw [List.getElem?_eq_none_iff] at hj ⊢
      omega
    rw [hnone]
    rfl
  | some j =>
    obtain ⟨file, hfile, hresult⟩ := hfiles i j hj
    rw [hfile, Option.map_some, Option.map_some, hresult.report hlive]

/-- Each source comes to a result of its job. -/
theorem Sound.results {allowed : SourceFile → Bytes → Prop} {d : Disk} {limit : Int} {paths : List Bytes}
    (hsound : Sound o allowed fact jobs g) (hover : g.isOver = true) (hlength : jobs.length = paths.length)
    (hjobs : ∀ (i : Nat) (path : Bytes), paths[i]? = some path → ∃ j, jobs[i]? = some j ∧ Job.IsFor d limit path j) :
    List.Forall₂ (fun path file => ∃ j, Job.IsFor d limit path j ∧ j.Result o allowed file) paths g.files := by
  obtain ⟨hfiles, hresults⟩ := hsound.files hover
  refine List.forall₂_iff_get.mpr ⟨by omega, fun i hi hi' => ?_⟩
  obtain ⟨j, hj, hfor⟩ := hjobs i (paths.get ⟨i, hi⟩) (List.getElem?_eq_getElem hi)
  obtain ⟨file, hfile, hresult⟩ := hresults i j hj
  obtain rfl : g.files.get ⟨i, hi'⟩ = file := Option.some.inj ((List.getElem?_eq_getElem hi').symm.trans hfile)
  exact ⟨j, hfor, hresult⟩

theorem slots_pos {workers : Int} {processors size : Nat} (hprocessors : 0 < processors) (hsize : 0 < size) :
    0 < Group.slots workers processors size := by
  unfold Group.slots
  split <;> omega

/-- What a run that has come so far leaves to be done and has done. -/
theorem Steps.settled {d : Disk} {paths : List Bytes} {n : Nat} (hlive : o.cancelled = false)
    (hlength : jobs.length = paths.length) (hroom : jobs ≠ [] → 0 < slots)
    (hjobs : ∀ (i : Nat) (path : Bytes), paths[i]? = some path → ∃ j, jobs[i]? = some j ∧ Job.IsFor d o.limit path j)
    (hcache : ∀ c, cache = some c → c.Serves texts d o.emit paths) (h : Steps o cache slots jobs (start d jobs) n g) :
    n ≤ 4 * paths.length ∧ g.fault = none ∧ (∀ c, cache = some c → c.Sound texts g.disk) ∧
      (g.isOver = false → ∃ g', Step o cache slots jobs g g') ∧
      (g.isOver = true → g.files.map CompiledFile.report = jobs.map (Job.report o) ∧
        List.Forall₂ (CompiledFile.TellsOf o d) paths g.files) := by
  have hrespects : ∀ j ∈ jobs, j.Respects o (Job.Genuine o) cache fun d => ∀ c, cache = some c → c.Sound texts d := by
    refine fun j hj => Job.respects_sound fun c hc => ?_
    obtain ⟨hdistinct, -, hhashes, hunpacks⟩ := hcache c hc
    refine ⟨hdistinct, fun f hfile => ?_⟩
    obtain ⟨i, hi⟩ := List.mem_iff_getElem?.mp hj
    have hlt : i < paths.length := hlength ▸ (List.getElem?_eq_some_iff.mp hi).1
    obtain ⟨j', hj', hfor⟩ := hjobs i _ (List.getElem?_eq_getElem hlt)
    obtain rfl := Option.some.inj (hi.symm.trans hj')
    have hmem := List.getElem_mem hlt
    exact hfor.isKept (hhashes _ hmem) (hunpacks _ hmem) hfile
  have hsound := h.sound hlive hrespects (sound_start fun c hc => (hcache c hc).sound)
  have hsteps := h.length_le
  rw [stepsLeft_start] at hsteps
  refine ⟨by omega, hsound.quiet, hsound.disk, fun hleft => ?_, fun hover => ?_⟩
  · refine exists_step (hroom fun hnone => ?_) hsound.length hleft
    have hstates : g.states = [] := List.length_eq_zero_iff.mp (by rw [hsound.length, hnone, List.length_nil])
    simp [isOver, hstates] at hleft
  · refine ⟨hsound.report hlive hover, (hsound.results hover hlength hjobs).imp fun path file h => ?_⟩
    obtain ⟨j, hfor, hresult⟩ := h
    exact hresult.tellsOf hlive hfor

/-- Compiling a directory works on one job after the other. -/
theorem steps_compileDirectory (cache : Option Cache) {d : Disk} {dir : Bytes} {set : FileSet} (hlive : o.cancelled = false)
    (hroom : jobs ≠ [] → 0 < slots) (hjobs : d.jobs dir o.limit = .ok (jobs, set)) (t : Tracer) (parent : Nat) :
    ∃ n g, Steps o cache slots jobs (start d jobs) n g ∧ g.isOver = true ∧
      (compileDirectory o cache d t parent dir).1 = .ok ⟨set, jobs.length, g.files, g.fault⟩ ∧
      (compileDirectory o cache d t parent dir).2.1 = g.disk := by
  simp only [compileDirectory, hjobs, hlive, Bool.false_and, Bool.false_eq_true, if_false]
  have hall : ∀ parent t, ∃ n, Steps o cache slots jobs (start d jobs) n
      (partway (Job.compileAll o cache parent d t jobs).2.1 (Job.compileAll o cache parent d t jobs).1 []) :=
    fun parent t => steps_compileAll hlive hroom parent d t [] (List.nil_append jobs).symm rfl
  obtain ⟨n, hsteps⟩ := hall _ _
  refine ⟨n, _, hsteps, partway_isOver _ _, ?_, rfl⟩
  rw [partway_files]
  rfl

end Group

/-! ### A directory with a cache -/

/-- A folder with an empty source beside the folder of a cache. -/
def oneSource : Disk :=
  { entries := [([("src" : Bytes)], .folder), ([("src" : Bytes), ("a.uns" : Bytes)], .file []), ([("cache" : Bytes)], .folder),
      ([("cache" : Bytes), ("js" : Bytes)], .folder)] }

theorem oneSource_folder : oneSource.get? [("src" : Bytes)] = some .folder := by decide

theorem oneSource_file : oneSource.get? [("src" : Bytes), ("a.uns" : Bytes)] = some (.file []) := by decide

theorem oneSource_below :
    oneSource.below (fun path => !Disk.isHidden path) oneSource.depth "src" [("src" : Bytes)] =
      [(("src/a.uns" : Bytes), false)] := by
  have hnames : oneSource.namesAt [("src" : Bytes)] = [("a.uns" : Bytes)] := by
    rw [Disk.namesAt, Bytes.sorted]
    refine Eq.trans (congrArg (fun l => List.mergeSort l Bytes.le) (?_ : _ = [("a.uns" : Bytes)])) (List.mergeSort_singleton _)
    decide
  have hdepth : oneSource.depth = 2 := by decide
  have hjoin : Path.join [("src" : Bytes), ("a.uns" : Bytes)] = ("src/a.uns" : Bytes) := by decide
  rw [hdepth, Disk.below, hnames]
  simp [hjoin, oneSource_file]

theorem oneSource_sources : oneSource.sources "src" = .ok [("src/a.uns" : Bytes)] := by
  have hplace : oneSource.place false "src" = .ok [("src" : Bytes)] := by
    have hsplit : ("src" : Bytes).split Path.slash = [("src" : Bytes)] := by decide
    have hstart : oneSource.start (Path.isAbsolute "src") = [] := by decide
    rw [Disk.place_eq_ok, hsplit, hstart]
    exact ⟨by decide, by decide, .down rfl (by decide) (by simp [oneSource_folder]) .done⟩
  have hends : ("src/a.uns" : Bytes).endsWith sourceExtension = true := by decide
  rw [Disk.sources, Disk.tree, hplace]
  simp [oneSource_folder, oneSource_below, Except.map, hends, Bytes.sorted]

theorem oneSource_read : oneSource.read "src/a.uns" = .ok [] := by
  have hplace : oneSource.place true "src/a.uns" = .ok [("src" : Bytes), ("a.uns" : Bytes)] := by
    have hsplit : ("src/a.uns" : Bytes).split Path.slash = [("src" : Bytes), ("a.uns" : Bytes)] := by decide
    have hstart : oneSource.start (Path.isAbsolute "src/a.uns") = [] := by decide
    rw [Disk.place_eq_ok, hsplit, hstart]
    exact ⟨by decide, by decide, .down rfl (by decide) (by simp [oneSource_folder])
      (.down oneSource_folder (by decide) (by simp [oneSource_file]) .done)⟩
  have hlook : oneSource.look true "src/a.uns" = .ok (.file []) := Disk.look_eq_ok.mpr ⟨_, hplace, oneSource_file⟩
  rw [Disk.read, hlook]

theorem oneSource_cache : oneSource.place true smallCache.folder = .ok [("cache" : Bytes), ("js" : Bytes)] := by
  have hcache : oneSource.get? [("cache" : Bytes)] = some .folder := by decide
  have hjs : oneSource.get? [("cache" : Bytes), ("js" : Bytes)] = some .folder := by decide
  have hway : smallCache.way = [("cache" : Bytes), ("js" : Bytes)] := by decide
  have hstart : oneSource.start (Path.isAbsolute smallCache.dir) = [] := by decide
  rw [Cache.place_folder, hway, hstart]
  exact ⟨by decide, .down rfl (by decide) (by simp [hcache]) (.down hcache (by decide) (by simp [hjs]) .done)⟩

theorem oneSource_sound (texts : List Bytes) : smallCache.Sound texts oneSource := by
  have hnothing := Cache.nothing_below (c := smallCache) (d := oneSource) fun p hp r hr => by
    rw [oneSource_cache] at hp
    cases hp
    obtain ⟨x, r, rfl⟩ := List.exists_cons_of_ne_nil hr
    simp [Disk.get?, oneSource, lookup_cons_eq]
  refine ⟨Disk.isTree_of_entries (by decide), hnothing.1, fun key output hget => ?_⟩
  obtain ⟨content, e, hholds, -⟩ := Cache.get_eq_some.mp hget
  exact absurd hholds (hnothing.2 _ content (Cache.isChild_entryName key))

theorem oneSource_serves : smallCache.Serves emptyTexts oneSource {} [("src/a.uns" : Bytes)] := by
  refine ⟨emptyTexts_noCollision, oneSource_sound emptyTexts, fun path hpath => ?_, fun path hpath => ?_⟩
  · obtain rfl := List.mem_singleton.mp hpath
    intro raw hread
    rw [oneSource_read] at hread
    cases hread
    exact ⟨List.mem_cons_self, List.mem_cons_of_mem _ List.mem_cons_self⟩
  · obtain rfl := List.mem_singleton.mp hpath
    refine Cache.unpacks_of_short (by decide) fun raw output hread htext => ?_
    obtain ⟨output', htext', hlength⟩ := exists_emptyOutput
    rw [oneSource_read] at hread
    cases hread
    have hsame : Except.ok output' = Except.ok output := htext'.symm.trans htext
    cases hsame
    exact Nat.lt_trans hlength (by decide)

end Bracescript
