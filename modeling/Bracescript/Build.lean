import Bracescript.Build.Progress
import Bracescript.Build.Timings
import Bracescript.Compile.Directory

/-!
# Builds

A tree of source files becomes a tree of modules of the same layout. What compiled cleanly is written.
-/

namespace Bracescript

/-- The name of a source file below `base`, as a user in `cwd` sees it; files elsewhere keep their path. -/
def displayName (cwd base file : Bytes) : Bytes :=
  let path := Path.clean file
  if base.isEmpty then path
  else
    match Path.relativeFrom? cwd base path with
    | none => path
    | some rel => if rel = Path.dot || rel.startsWith Path.dotDot then path else rel

/-- Where the module of the source file of a name goes. -/
def outputPath (out name ext : Bytes) : Bytes := Path.join [out, name.dropTail sourceExtension ++ ext]

/-- The names of all source files below a directory, in the order in which they are built. -/
def Disk.sourceNames (d : Disk) (dir : Bytes) : Except DiskFault (List Bytes) :=
  (d.sources dir).map fun files => files.map (displayName d.cwd dir)

structure BuildRequest where
  source : Bytes
  out : Bytes
  /-- The ending of the names of modules. -/
  ext : Bytes := ".js"
  compile : CompileOptions
  cache : Option Cache := none

/-- A file of a build. -/
structure BuiltFile where
  name : Bytes
  /-- Where the module is; empty if none was written. -/
  out : Bytes := []
  cached : Bool
  bag : Bag
  fault : Option Fault := none

/-- Why a build as a whole did not succeed. -/
inductive BuildFault where
  | noSource
  | noOutput
  | unreadable (f : DiskFault)
  | stopped (f : Fault)
  /-- Some of the files did not compile or could not be written. -/
  | failed (count total : Nat)
  deriving DecidableEq

def BuildFault.message : BuildFault → Bytes
  | noSource => "missing source directory"
  | noOutput => "missing output directory"
  | unreadable f => f.message
  | stopped f => f.message
  | failed count total => "build failed: " ++ Bytes.ofNat count ++ " of " ++ Bytes.ofNat total ++ " files"

structure BuildResult where
  set : FileSet := {}
  files : List BuiltFile := []
  timings : Timings := {}
  failed : Nat := 0
  fault : Option BuildFault := none
  progress : List Progress := []
  events : List FileEvent := []

namespace Build

/-- Times of the passes that events tell of. -/
def timingsOf (events : List FileEvent) : Timings :=
  events.foldl (fun t e => if e.status = .finished || e.status = .failed then t.add e.stage 0 else t) {}

/-- The last step for one file: its module is written unless it failed. -/
def finish (r : BuildRequest) (d : Disk) (f : CompiledFile) : BuiltFile × Progress × Disk :=
  let name := displayName d.cwd r.source f.path
  let file : BuiltFile := { name, cached := f.run.cached, bag := f.run.bag, fault := f.run.fault }
  if f.failed then (file, { file := name, status := .error, fault := f.run.fault }, d)
  else
    let path := outputPath r.out name r.ext
    match d.writeDeep path f.run.output with
    | .ok d => ({ file with out := path }, { file := name, stage := .write, status := .done }, d)
    | .error e =>
      let fault := Fault.other e.message
      let finding : Diagnostic := { severity := .error, code := .writeFile, message := e.message, span := ⟨f.id, 0, 0⟩ }
      ({ file with bag := file.bag.insert finding, fault := some fault },
        { file := name, stage := .write, status := .error, fault := some fault }, d)

/-- The last step for all files in their order. -/
def finishAll (r : BuildRequest) : Disk → List CompiledFile → List (BuiltFile × Progress) × Disk
  | d, [] => ([], d)
  | d, f :: fs =>
    let (file, progress, d) := finish r d f
    let (more, d) := finishAll r d fs
    ((file, progress) :: more, d)

/-- Ends a build with a fault, which is told as progress of the whole. -/
def stopWith (result : BuildResult) (fault : BuildFault) : BuildResult :=
  { result with
    fault := some fault
    progress := result.progress ++ [{ status := .error, fault := some (.other fault.message) }] }

/-- Tells that files wait. -/
def queued (names : List Bytes) : List Progress := names.map fun name => { file := name, status := .queued }

/-- The rest of a build whose files are compiled. While they were, `events` were told in their order. -/
def conclude (r : BuildRequest) (d : Disk) (names : List Bytes) (compiled : DirectoryResult) (events : List FileEvent) :
    BuildResult × Disk :=
  let observed := events.filterMap fun e => e.progress (displayName d.cwd r.source e.path)
  let result : BuildResult :=
    { set := compiled.set, timings := timingsOf events, progress := queued names ++ observed, events }
  match compiled.fault with
  | some f => (stopWith result (.stopped f), d)
  | none =>
    let (finished, d) := finishAll r d compiled.files
    let files := finished.map (·.1)
    let written := finished.any fun (_, p) => p.stage = .write
    let failed := files.countP fun f => f.fault.isSome || f.bag.hasErrors
    let result : BuildResult :=
      { result with
        files, failed
        timings := if written then result.timings.add .write 0 else result.timings
        progress := result.progress ++ finished.map (·.2) }
    if 0 < failed then (stopWith result (.failed failed compiled.size), d)
    else ({ result with progress := result.progress ++ [{ status := .done }] }, d)

end Build

open Build in
/-- Compiles every source file and writes what compiled. -/
def build (r : BuildRequest) (d : Disk) (t : Tracer) (parent : Nat) : BuildResult × Disk × Tracer :=
  if r.source.isEmpty then ({ fault := some .noSource }, d, t)
  else if r.out.isEmpty then ({ fault := some .noOutput }, d, t)
  else
    match d.sourceNames r.source with
    | .error f => ({ fault := some (.unreadable f) }, d, t)
    | .ok names =>
      match compileDirectory r.compile r.cache d t parent r.source with
      | (.error f, d, t) => (stopWith { progress := queued names } (.unreadable f), d, t)
      | (.ok compiled, d, t) =>
        let (result, d) := conclude r d names compiled compiled.events
        (result, d, t)

end Bracescript
