import Bracescript.Compile.Directory
import Bracescript.Proofs.Hygiene
import Bracescript.Proofs.Layout
import Bracescript.Proofs.ParserSafety
import Bracescript.Proofs.RenamedParsing

/-!
# Ways to compile a text

A text can be compiled by itself, as a text with a name, as a file and as a file of a directory. All of them come to
what the text is by itself, and each reports a fault once.
-/

namespace Bracescript

/-! ## One text in two files -/

namespace SourceFile

/-- A text that has no name. -/
def ofInput (text : Bytes) : SourceFile := ⟨0, inputName, text, .inMemory⟩

theorem compileText_carried (f f' : SourceFile) (hcontent : f'.content = f.content) (o : EmitOptions) :
    Carried (Equiv.swap f.id f'.id) Eq (f.compileText o) (f'.compileText o) := by
  have hid : f'.id = Equiv.swap f.id f'.id f.id := (Equiv.swap_apply_left _ _).symm
  have hparse := parse_carried hid hcontent
  unfold compileText
  generalize f.parse = parsed at hparse ⊢
  generalize f'.parse = parsed' at hparse ⊢
  cases hparse with
  | error fault => exact .error fault
  | @ok p p' hstatements =>
    simp only [emit_eq_of_alike hstatements o]
    cases p.emit o with
    | error u => exact .error (.unsupported u)
    | ok text => exact .ok rfl

end SourceFile

/-! ## What is reported -/

/-- What a compilation reports, its output, its fault and its bag, for what the text is by itself. -/
inductive Reported : Except Fault Bytes → Bytes → Option Fault → Bag → Prop
  | emitted {output : Bytes} {bag : Bag} (text : output ≠ []) (quiet : bag.toList = []) :
    Reported (.ok output) output none bag
  | malformed {e : SyntaxError} {d : Diagnostic} {bag : Bag} (only : bag.toList = [d]) (severity : d.severity = .error)
    (code : d.code = e.code) (message : d.message = e.message) (start : d.span.start = e.span.start)
    (stop : d.span.stop = e.span.stop) : Reported (.error (.malformed e)) [] none bag
  | unsupported {u : Unsupported} {d : Diagnostic} {bag : Bag} (only : bag.toList = [d]) (severity : d.severity = .error)
    (code : d.code = .unsupportedNode) (message : d.message = u.message) :
    Reported (.error (.unsupported u)) [] (some (.unsupported u)) bag

theorem Reported.of_carried {ρ : Equiv.Perm UInt32} {direct direct' : Except Fault Bytes} {output : Bytes}
    {fault : Option Fault} {bag : Bag} (hcarried : Carried ρ Eq direct direct') (h : Reported direct' output fault bag) :
    Reported direct output fault bag := by
  cases hcarried with
  | ok heq => exact heq ▸ h
  | error f =>
    cases f with
    | unsupported => exact h
    | internal => cases h
    | other => cases h
    | malformed e =>
      cases h with
      | malformed only severity code message start stop => exact .malformed only severity code message start stop

theorem Bag.toList_new (limit : Int) : (Bag.new limit).toList = [] := rfl

/-- There is room for one finding in every new bag. -/
theorem Bag.toList_insert_new (limit : Int) (d : Diagnostic) : ((Bag.new limit).insert d).toList = [d] := by
  have hroom : 0 < (Bag.new limit).limit := by
    simp only [Bag.new]
    split
    · omega
    · decide
  have hsize : (Bag.new limit).items.size = 0 := rfl
  rw [Bag.insert, Bag.add, if_pos (hsize ▸ hroom)]
  rfl

theorem EmitOptions.prelude_ne_nil (o : EmitOptions) : o.prelude ≠ [] := by
  unfold prelude
  cases o.format <;> simp [Bytes.ofString]

theorem Program.emit_ne_nil {p : Program} {o : EmitOptions} {output : Bytes} (h : p.emit o = .ok output) : output ≠ [] := by
  obtain ⟨body, -, rfl⟩ := Program.exists_body_of_emit h
  simp [o.prelude_ne_nil]

namespace SourceFile

theorem compile_reported (f : SourceFile) (o : EmitOptions) (limit : Int) :
    Reported (f.compileText o) (f.compile o (.new limit)).output (f.compile o (.new limit)).fault
      (f.compile o (.new limit)).bag := by
  unfold compileText parse compile parsePhases
  cases f.tokenize with
  | error e => exact .malformed (Bag.toList_insert_new limit _) rfl rfl rfl rfl rfl
  | ok tokens =>
    dsimp only
    cases hparse : f.parseTokens tokens with
    | error fault =>
      obtain ⟨e, rfl, -⟩ := parseTokens_eq_error hparse
      exact .malformed (Bag.toList_insert_new limit _) rfl rfl rfl rfl rfl
    | ok p =>
      dsimp only
      cases hemit : p.emit o with
      | error u => exact .unsupported (Bag.toList_insert_new limit _) rfl rfl rfl
      | ok output => exact .emitted (Program.emit_ne_nil hemit) (Bag.toList_new limit)

/-- A run that is not called off reports what the text is by itself, whatever the file is called and numbered. -/
theorem run_reported (f : SourceFile) (o : CompileOptions) (hlive : o.cancelled = false) :
    Reported ((ofInput f.content).compileText o.emit) (f.run o (.new o.limit)).output (f.run o (.new o.limit)).fault
      (f.run o (.new o.limit)).bag := by
  refine .of_carried (compileText_carried (ofInput f.content) f rfl o.emit) ?_
  simp only [run, hlive]
  exact f.compile_reported o.emit o.limit

end SourceFile

/-! ## Files in a set -/

namespace FileSet

/-- A text as it is kept: without a byte order mark and with plain line ends. -/
def normalized (raw : Bytes) : Bytes :=
  foldLineEnds (if raw.startsWith byteOrderMark then raw.drop byteOrderMark.length else raw)

theorem get?_add (set : FileSet) (hfit : set.files.size < UInt32.size) (path content : Bytes) (flags : FileFlags) :
    (set.add path content flags).2.get? (set.add path content flags).1 =
      some ⟨set.files.size.toUInt32, keptPath path, content, flags⟩ := by
  have hid : set.files.size.toUInt32.toNat = set.files.size := UInt32.toNat_ofNat_of_lt hfit
  simp [add, get?, hid]

theorem size_add (set : FileSet) (path content : Bytes) (flags : FileFlags) :
    (set.add path content flags).2.files.size = set.files.size + 1 := Array.size_push _

/-- A file that can be read has its normal text in the set. -/
theorem load_eq_ok (set : FileSet) (hfit : set.files.size < UInt32.size) {d : Disk} {path raw : Bytes}
    (hread : d.read path = .ok raw) :
    ∃ id set' f, set.load d path = .ok (id, set') ∧ set'.get? id = some f ∧ f.content = normalized raw := by
  have hget := get?_add set hfit path (normalized raw)
  rw [load, hread]
  exact ⟨_, _, _, rfl, hget _, rfl⟩

end FileSet

/-! ## Jobs of a directory -/

namespace Job

/-- A job adds one file to the set, also if it cannot be read. -/
theorem size_load (d : Disk) (limit : Int) (set : FileSet) (path : Bytes) :
    (load d limit set path).2.files.size = set.files.size + 1 := by
  unfold load FileSet.load
  cases d.read path with
  | error f => exact FileSet.size_add ..
  | ok raw => exact FileSet.size_add ..

theorem loadAll_getElem? {d : Disk} {paths : List Bytes} {path raw : Bytes} {i : Nat} (hread : d.read path = .ok raw)
    (limit : Int) (set : FileSet) (hfit : set.files.size + i < UInt32.size)
    (hpath : paths[i]? = some path) :
    ∃ f, f.content = FileSet.normalized raw ∧
      (loadAll d limit set paths).1[i]? = some { path, file := some f, bag := .new limit } := by
  induction paths generalizing set i with
  | nil => cases hpath
  | cons first paths ih =>
    cases i with
    | zero =>
      cases hpath
      obtain ⟨id, set', f, hload, hget, hcontent⟩ := FileSet.load_eq_ok set hfit hread
      refine ⟨f, hcontent, ?_⟩
      simp only [loadAll, load, hload, hget, List.getElem?_cons_zero]
    | succ i =>
      have hsize := size_load d limit set first
      obtain ⟨f, hcontent, hjob⟩ := ih (load d limit set first).2 (by omega) hpath
      exact ⟨f, hcontent, hjob⟩

/-- Each job is compiled in its place. -/
theorem compileAll_getElem? (o : CompileOptions) (parent : Nat) (d : Disk) (t : Tracer) {jobs : List Job} {job : Job}
    {i : Nat} (h : jobs[i]? = some job) :
    ∃ d' t', (compileAll o none parent d t jobs).1[i]? = some (job.compile o none parent d' t').1 := by
  induction jobs generalizing d t i with
  | nil => cases h
  | cons first jobs ih =>
    cases i with
    | zero =>
      cases h
      exact ⟨d, t, rfl⟩
    | succ i => exact ih _ _ h

end Job

/-! ## All ways -/

/-- The result for a text says what the text is by itself. -/
def CompileResult.Tells (r : CompileResult) (direct : Except Fault Bytes) : Prop :=
  Reported direct r.run.output r.fault r.bag

/-- The result for a file of a directory says what its text is by itself. -/
def CompiledFile.Tells (f : CompiledFile) (direct : Except Fault Bytes) : Prop :=
  Reported direct f.run.output f.run.fault f.run.bag

variable (emit : EmitOptions) (limit : Int)

theorem compileText_tells (t : Tracer) (parent : Nat) (name text : Bytes) :
    (compileText { emit, limit } t parent name text).1.Tells ((SourceFile.ofInput text).compileText emit) := by
  have hget := FileSet.get?_add {} (by decide) (if name.isEmpty then inputName else name) text .inMemory
  simp only [CompileResult.Tells, compileText, FileSet.addInMemory, hget, Option.getD_some]
  exact SourceFile.run_reported ⟨_, _, text, _⟩ { emit, limit } rfl

theorem compilePath_tells {d : Disk} {path raw : Bytes} (hread : d.read path = .ok raw) (t : Tracer) (parent : Nat) :
    ∃ r, (compilePath { emit, limit } none d t parent path).1 = .ok r ∧
      r.Tells ((SourceFile.ofInput (FileSet.normalized raw)).compileText emit) := by
  obtain ⟨id, set, f, hload, hget, hcontent⟩ := FileSet.load_eq_ok {} (by decide) hread
  simp only [compilePath, hload, hget, Option.getD_some]
  refine ⟨_, rfl, ?_⟩
  rw [← hcontent]
  exact f.run_reported { emit, limit } rfl

theorem compileDirectory_tells {d : Disk} {dir path raw : Bytes} {paths : List Bytes} {i : Nat}
    (hsources : d.sources dir = .ok paths) (hpath : paths[i]? = some path) (hfit : i < UInt32.size)
    (hread : d.read path = .ok raw) (t : Tracer) (parent : Nat) :
    ∃ r file, (compileDirectory { emit, limit } none d t parent dir).1 = .ok r ∧ r.fault = none ∧
      r.files[i]? = some file ∧ file.path = path ∧
      file.Tells ((SourceFile.ofInput (FileSet.normalized raw)).compileText emit) := by
  obtain ⟨f, hcontent, hjob⟩ :=
    Job.loadAll_getElem? hread limit { start := dir } (by simpa using hfit) hpath
  have hjobs : d.jobs dir limit = .ok (Job.loadAll d limit { start := dir } paths) := by
    rw [Disk.jobs, hsources]
    rfl
  simp only [compileDirectory, hjobs, Bool.false_and, Bool.false_eq_true, if_false]
  obtain ⟨d', t', hfile⟩ := Job.compileAll_getElem? { emit, limit } _ d _ hjob
  refine ⟨_, _, rfl, rfl, hfile, rfl, ?_⟩
  rw [← hcontent]
  exact f.run_reported { emit, limit } rfl

end Bracescript
