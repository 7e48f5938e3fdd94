import Bracescript.Cache
import Bracescript.Compile.Pipeline
import Bracescript.Disk.Sources
import Bracescript.Trace

/-!
# Compiling

Files and texts compiled under options, with an account of what happened on the way. Observers, tracers and timers
are all told from that account.
-/

namespace Bracescript

structure CompileOptions where
  emit : EmitOptions
  /-- The limit of the bags. -/
  limit : Int := 100
  timings : Bool := false
  /-- Whether the run was called off before it began. -/
  cancelled : Bool := false

/-- A step of the compilation of one file. -/
inductive Happening where
  | cacheUnreadable (message : Bytes)
  | cacheHit (key : Digest)
  | phase (p : Phase)
  | cacheUnwritable (message : Bytes)

namespace Happening

/-- What an observer of the file at `path` is told. -/
def events (path : Bytes) : Happening → List FileEvent
  | cacheHit _ => [{ path, stage := .none, status := .cached }]
  | phase p => p.events path
  | _ => []

def phase? : Happening → Option Phase
  | phase p => some p
  | _ => none

/-- What a tracer is told. -/
def trace (parent : Nat) (t : Tracer) : Happening → Tracer
  | cacheUnreadable message => t.point .module "cache" ("read failed: " ++ message) parent
  | cacheHit key => t.point .module "cache" ("hit " ++ key.toHex.take 12) parent
  | cacheUnwritable message => t.point .module "cache" ("write failed: " ++ message) parent
  | phase p =>
    let (span, t) := t.start .pass p.stage.name parent
    t.stop (span.failIf p.fault.isSome) p.note

end Happening

/-- The compilation of one file, whether it came from the cache, and what happened. -/
structure FileRun extends Compilation where
  cached : Bool := false
  happenings : List Happening := []

namespace FileRun

def failed (r : FileRun) : Bool := r.fault.isSome || r.bag.hasErrors

/-- The passes that were run and measured. -/
def measured (r : FileRun) : List Phase := r.happenings.filterMap Happening.phase?

def events (r : FileRun) (path : Bytes) : List FileEvent := r.happenings.flatMap (Happening.events path)

def trace (r : FileRun) (parent : Nat) (t : Tracer) : Tracer := r.happenings.foldl (Happening.trace parent) t

end FileRun

/-- A way to keep outputs between compilations. -/
structure CacheStore (σ : Type) where
  get : σ → Digest → Except Bytes (Option Bytes)
  put : σ → Digest → CacheEntry → Except Bytes σ

/-- A cache keeps its outputs on the disk. -/
def Cache.store (c : Cache) : CacheStore Disk :=
  { get := c.get, put := fun d key e => (c.put d key e).mapError DiskFault.message }

namespace SourceFile

/-- Compiles the file without a cache. -/
def run (f : SourceFile) (o : CompileOptions) (bag : Bag) : FileRun :=
  if o.cancelled then { bag, fault := some Bracescript.cancelled }
  else
    let c := f.compile o.emit bag
    { c with happenings := c.phases.map .phase }

/-- Compiles the file unless its output is kept already; a new output is put in. -/
def runStored {σ : Type} (store : CacheStore σ) (s : σ) (f : SourceFile) (o : CompileOptions) (bag : Bag) : FileRun × σ :=
  let key := o.emit.digest f.hash
  let compiled (before : List Happening) : FileRun × σ :=
    let r := f.run o bag
    if r.program.isSome && r.fault.isNone then
      match store.put s key { path := f.path, compiler := Release.current.version, output := r.output } with
      | .ok s => ({ r with happenings := before ++ r.happenings }, s)
      | .error message => ({ r with happenings := before ++ r.happenings ++ [.cacheUnwritable message] }, s)
    else ({ r with happenings := before ++ r.happenings }, s)
  match store.get s key with
  | .ok (some output) => ({ output, bag, cached := true, happenings := [.cacheHit key] }, s)
  | .ok none => compiled []
  | .error message => compiled [.cacheUnreadable message]

/-- Compiles the file with or without a cache on the disk. -/
def runOn (d : Disk) (cache : Option Cache) (f : SourceFile) (o : CompileOptions) (bag : Bag) : FileRun × Disk :=
  match cache with
  | none => (f.run o bag, d)
  | some c => f.runStored c.store d o bag

end SourceFile

/-- The result for one text or file. -/
structure CompileResult where
  set : FileSet
  file : SourceFile
  run : FileRun
  /-- The findings, with that of the timings. -/
  bag : Bag
  /-- The measured passes, if they were asked for. -/
  timing : Option (List Phase)
  events : List FileEvent

namespace CompileResult

def fault (r : CompileResult) : Option Fault := r.run.fault

/-- The result of a run on a file of a set. -/
def ofRun (o : CompileOptions) (set : FileSet) (file : SourceFile) (run : FileRun) : CompileResult :=
  { set, file, run, events := run.events file.path
    bag := if o.timings then run.bag.force (Phase.timingDiagnostic file.path run.measured) else run.bag
    timing := if o.timings then some run.measured else none }

end CompileResult

/-- The name of a text that has none. -/
def inputName : Bytes := "<input>"

/-- Compiles a text, which findings call `name`. -/
def compileText (o : CompileOptions) (t : Tracer) (parent : Nat) (name text : Bytes) : CompileResult × Tracer :=
  let name := if name.isEmpty then inputName else name
  let (span, t) := t.start .driver "compile" parent
  let span := span.withExtra "path" name
  let (id, set) := FileSet.addInMemory {} name text
  let file := (set.get? id).getD default
  let run := file.run o (.new o.limit)
  let t := run.trace span.id t
  (.ofRun o set file run, t.stop (span.failIf run.failed) [])

/-- Compiles the file at a path. -/
def compilePath (o : CompileOptions) (cache : Option Cache) (d : Disk) (t : Tracer) (parent : Nat) (path : Bytes) :
    Except DiskFault CompileResult × Disk × Tracer :=
  let (span, t) := t.start .driver "compile" parent
  let span := span.withExtra "path" path
  match FileSet.load {} d path with
  | .error f => (.error f, d, t.stop span.fail [])
  | .ok (id, set) =>
    let file := (set.get? id).getD default
    let (run, d) := file.runOn d cache o (.new o.limit)
    let t := run.trace span.id t
    (.ok (.ofRun o set file run), d, t.stop (span.failIf run.failed) [])

end Bracescript
