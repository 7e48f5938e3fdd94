import Bracescript.Compile.Run

/-!
# Whole directories

Every source file below a directory, loaded into one set and worked on one by one.
-/

namespace Bracescript

/-- A file that is to be worked on. A file that could not be loaded has only a finding. -/
structure Job where
  path : Bytes
  file : Option SourceFile
  bag : Bag

namespace Job

/-- The number of the file in its set. -/
def id (j : Job) : UInt32 := (j.file.map SourceFile.id).getD 0

/-- Loads the file at `path`; if that fails an empty one takes its place, so that the finding has one to point at. -/
def load (d : Disk) (limit : Int) (set : FileSet) (path : Bytes) : Job × FileSet :=
  match set.load d path with
  | .ok (id, set) => ({ path, file := set.get? id, bag := .new limit }, set)
  | .error f =>
    let (id, set) := set.addInMemory path []
    let finding : Diagnostic :=
      { severity := .error, code := .loadFile, message := "failed to load file: " ++ f.message, span := ⟨id, 0, 0⟩ }
    ({ path, file := none, bag := (Bag.new limit).insert finding }, set)

/-- Loads files in their order. -/
def loadAll (d : Disk) (limit : Int) : FileSet → List Bytes → List Job × FileSet
  | set, [] => ([], set)
  | set, path :: paths =>
    let (job, set) := load d limit set path
    let (jobs, set) := loadAll d limit set paths
    (job :: jobs, set)

end Job

/-- The jobs of a directory, with the set that holds their files. -/
def Disk.jobs (d : Disk) (dir : Bytes) (limit : Int) : Except DiskFault (List Job × FileSet) :=
  (d.sources dir).map fun paths => Job.loadAll d limit { start := dir } paths

/-! ## Tokens and programs -/

structure TokenizedFile where
  path : Bytes
  tokens : List Token
  bag : Bag

/-- The tokens of a file up to the end or to the first fault, which the bag gets. -/
def SourceFile.tokenizeInto (f : SourceFile) (bag : Bag) : List Token × Bag :=
  let (tokens, fault) := f.tokensToEnd
  (tokens, match fault with
    | none => bag
    | some e => bag.insert e.diagnostic)

def Job.tokenize (j : Job) : TokenizedFile :=
  match j.file with
  | none => { path := j.path, tokens := [], bag := j.bag }
  | some f =>
    let (tokens, bag) := f.tokenizeInto j.bag
    { path := j.path, tokens, bag }

structure ParsedFile where
  path : Bytes
  program : Option Program
  bag : Bag

def Job.parse (j : Job) : ParsedFile :=
  match j.file with
  | none => { path := j.path, program := none, bag := j.bag }
  | some f =>
    let c := f.parsePhases j.bag
    { path := j.path, program := c.program, bag := c.bag }

def tokenizeDirectory (d : Disk) (dir : Bytes) (limit : Int) : Except DiskFault (FileSet × List TokenizedFile) :=
  (d.jobs dir limit).map fun (jobs, set) => (set, jobs.map Job.tokenize)

def parseDirectory (d : Disk) (dir : Bytes) (limit : Int) : Except DiskFault (FileSet × List ParsedFile) :=
  (d.jobs dir limit).map fun (jobs, set) => (set, jobs.map Job.parse)

/-! ## Compiling -/

structure CompiledFile where
  path : Bytes
  id : UInt32
  run : FileRun
  timing : Option (List Phase)
  events : List FileEvent

namespace CompiledFile

def failed (f : CompiledFile) : Bool := f.run.failed

end CompiledFile

/-- Compiles one file. A file that was not loaded fails before its first pass. -/
def Job.compile (o : CompileOptions) (cache : Option Cache) (parent : Nat) (d : Disk) (t : Tracer) (j : Job) :
    CompiledFile × Disk × Tracer :=
  match j.file with
  | none =>
    ({ path := j.path, id := 0, run := { bag := j.bag }, timing := none
       events := [{ path := j.path, stage := .lex, status := .failed }] }, d, t)
  | some f =>
    let (span, t) := t.start .module ("file:" ++ j.path) parent
    let (run, d) := f.runOn d cache o j.bag
    let t := run.trace span.id t
    ({ path := j.path, id := f.id, run, timing := if o.timings then some run.measured else none
       events := run.events f.path }, d, t.stop (span.failIf run.failed) [])

/-- Compiles files in their order. -/
def Job.compileAll (o : CompileOptions) (cache : Option Cache) (parent : Nat) :
    Disk → Tracer → List Job → List CompiledFile × Disk × Tracer
  | d, t, [] => ([], d, t)
  | d, t, job :: jobs =>
    let (first, d, t) := job.compile o cache parent d t
    let (more, d, t) := compileAll o cache parent d t jobs
    (first :: more, d, t)

/-- The result for a directory. -/
structure DirectoryResult where
  set : FileSet
  /-- How many files there are. -/
  size : Nat
  /-- The files that were worked on: all, or none of a run that was called off. -/
  files : List CompiledFile
  fault : Option Fault := none

namespace DirectoryResult

def events (r : DirectoryResult) : List FileEvent := r.files.flatMap CompiledFile.events

end DirectoryResult

/-- Compiles every source file below a directory. -/
def compileDirectory (o : CompileOptions) (cache : Option Cache) (d : Disk) (t : Tracer) (parent : Nat) (dir : Bytes) :
    Except DiskFault DirectoryResult × Disk × Tracer :=
  let (span, t) := t.start .driver "compile-dir" parent
  let span := span.withExtra "dir" dir
  match d.jobs dir o.limit with
  | .error f => (.error f, d, t.stop span.fail [])
  | .ok (jobs, set) =>
    let span := span.withExtra "files" (Bytes.ofNat jobs.length)
    if o.cancelled && !jobs.isEmpty then
      (.ok { set, size := jobs.length, files := [], fault := some cancelled }, d, t.stop span.fail [])
    else
      let (files, d, t) := Job.compileAll o cache span.id d t jobs
      (.ok { set, size := jobs.length, files }, d, t.stop span [])

end Bracescript
