import Bracescript.Build
import Bracescript.Command
import Bracescript.Diagnostic.Pretty
import Bracescript.Diagnostic.Report
import Bracescript.Diagnostic.Short
import Bracescript.Project
import Bracescript.Version
import Bracescript.Watch.Tree

/-!
# The shell around a command

What a command works on: the disk, the two output streams and the trace. A command either succeeds or stops with a
complaint.
-/

namespace Bracescript

/-- What is given to the program besides its arguments and the disk; an empty directory is not set. -/
structure Surroundings where
  home : Bytes := []
  cacheHome : Bytes := []
  input : Bytes := []
  /-- What happens to the disk while the program watches. -/
  deeds : List Deed := []

/-- Where the trace goes. -/
inductive TraceTarget where
  | nowhere
  | errors
  | file (path : Bytes)
  deriving DecidableEq

structure Shell where
  disk : Disk
  out : Bytes := []
  err : Bytes := []
  tracer : Tracer := {}
  target : TraceTarget := .nowhere
  format : Trace.Format := .text
  /-- How many events of the tracer were written. -/
  written : Nat := 0
  /-- Written events that did not leave the buffer. -/
  held : Bytes := []
  /-- Written events that left the buffer for a file. -/
  filed : Bytes := []
  /-- Whether profiles were started. -/
  profiling : Bool := false

/-- Why a command stops. -/
inductive Complaint where
  /-- All was said in the diagnostics. -/
  | told
  | usage (f : Command.Fault)
  | unknownDiagnostics (name : Bytes)
  | unknownPathMode (name : Bytes)
  | unknownFormat (name : Bytes)
  | unsupportedFormat (name : Bytes)
  | unknownProgress (value : Bytes)
  | traceLevel (message : Bytes)
  | traceFormat (message : Bytes)
  | traceFile (f : DiskFault)
  | profile (kind : Bytes) (f : DiskFault)
  | unreachable (path : Bytes) (f : DiskFault)
  | project (f : Project.Fault)
  | compiler (manifest : Bytes) (f : CompilerFault)
  | noManifest
  | noRuntime
  | moduleFormat (message : Bytes)
  | failed (activity message : Bytes)
  | unwritable (path : Bytes) (f : DiskFault)
  | disk (f : DiskFault)
  | build (f : BuildFault)
  | init (f : Project.InitFault)
  | cannotWatch (path : Bytes) (f : DiskFault)

namespace Complaint

def message : Complaint → Bytes
  | told => []
  | usage f => f.message
  | unknownDiagnostics name => "unknown diagnostics format " ++ Text.quoted name ++ " (expected pretty|json|short)"
  | unknownPathMode name => "unknown path mode " ++ Text.quoted name ++ " (expected auto|absolute|relative|basename)"
  | unknownFormat name => "unknown format: " ++ name
  | unsupportedFormat name => "unsupported format " ++ Text.quoted name ++ " (must be pretty or json)"
  | unknownProgress value => "invalid --ui value " ++ Text.quoted value ++ " (expected auto|on|off)"
  | traceLevel message => "invalid trace level: " ++ message
  | traceFormat message => "invalid trace format: " ++ message
  | traceFile f => "failed to create tracer: failed to open trace output: " ++ f.message
  | profile kind f => kind ++ ": " ++ f.message
  | unreachable path f => "cannot access " ++ Text.quoted path ++ ": " ++ f.message
  | project f => f.message
  | compiler manifest f => manifest ++ ": " ++ f.message
  | noManifest =>
    "no unsure.toml found\nrun `unsure init` or pass the source directory explicitly, e.g.:\n  unsure compile src -o dist"
  | noRuntime => "--runtime must not be empty"
  | moduleFormat message => message
  | failed activity message => activity ++ " failed: " ++ message
  | unwritable path f => "failed to write " ++ path ++ ": " ++ f.message
  | disk f => f.message
  | build f => f.message
  | init f => f.message
  | cannotWatch path f => "cannot watch " ++ path ++ ": " ++ f.message

def isTold : Complaint → Bool
  | told => true
  | _ => false

end Complaint

/-- Something that a command does. -/
abbrev Action := ExceptT Complaint (StateM Shell)

namespace Shell

/-! ## Output -/

/-- How much of a trace is held back before it is written. -/
def bufferSize : Nat := 4096

/-- What leaves a buffer that holds `held` when `piece` comes in, and what stays. -/
def pour (held piece : Bytes) : Bytes × Bytes :=
  if held.length + piece.length ≤ bufferSize then ([], held ++ piece)
  else if held.isEmpty then (piece, [])
  else
    let room := bufferSize - held.length
    if piece.length - room ≤ bufferSize then (held ++ piece.take room, piece.drop room) else (held ++ piece, [])

/-- Sends bytes of the trace where they go. -/
def sendTrace (s : Shell) (bytes : Bytes) : Shell :=
  match s.target with
  | .nowhere => s
  | .errors => { s with err := s.err ++ bytes }
  | .file _ => { s with filed := s.filed ++ bytes }

/-- Writes one event to the trace. -/
def writeEvent (s : Shell) (e : Trace.Event) : Shell :=
  let (leaving, held) := pour s.held (e.render s.format 0)
  { s with held, written := s.written + 1 }.sendTrace leaving

/-- Goes on with a tracer and writes what is new in it. -/
def withTracer (s : Shell) (t : Tracer) : Shell := (t.events.toList.drop s.written).foldl writeEvent { s with tracer := t }

/-- Ends the trace. -/
def closeTrace (s : Shell) : Shell :=
  let s := { s with held := [] }.sendTrace s.held
  match s.target with
  | .file path => { s with disk := (s.disk.write path s.filed).toOption.getD s.disk }
  | _ => s

def say (text : Bytes) : Action Unit := modify fun s => { s with out := s.out ++ text }

def warn (text : Bytes) : Action Unit := modify fun s => { s with err := s.err ++ text }

/-- Gives the value or stops. -/
def orStop {ε α : Type} (complain : ε → Complaint) : Except ε α → Action α
  | .ok a => pure a
  | .error e => throw (complain e)

/-- Changes the disk or stops. -/
def changeDisk (complain : DiskFault → Complaint) (change : Disk → Except DiskFault Disk) : Action Unit := do
  let d ← orStop complain (change (← get).disk)
  modify fun s => { s with disk := d }

/-- Runs something that works on the disk and the tracer. -/
def traced {α : Type} (f : Disk → Tracer → α × Disk × Tracer) : Action α := do
  let s ← get
  let (a, d, t) := f s.disk s.tracer
  set ({ s with disk := d }.withTracer t)
  return a

end Shell

/-! ## Options that all commands share -/

inductive DiagnosticsStyle where
  | pretty
  | json
  | short
  deriving DecidableEq

structure CommonOptions where
  quiet : Bool
  timings : Bool
  limit : Int
  style : DiagnosticsStyle
  pathMode : PathMode
  color : Bool

/-- Whether colours are asked for; nothing is ever written to a terminal. -/
def Arguments.color (a : Arguments) : Bool := a.text "color" "auto" = "on"

def Arguments.style? (a : Arguments) : Option DiagnosticsStyle :=
  let name := a.text "diagnostics" "pretty"
  if name = "pretty" then some .pretty
  else if name = "json" then some .json
  else if name = "short" then some .short
  else none

def CommonOptions.read (a : Arguments) : Except Complaint CommonOptions :=
  match a.style?, PathMode.ofName? (a.text "path-mode" "auto") with
  | none, _ => .error (.unknownDiagnostics (a.text "diagnostics" "pretty"))
  | _, none => .error (.unknownPathMode (a.text "path-mode" "auto"))
  | some style, some pathMode =>
    .ok { quiet := a.switch "quiet" false, timings := a.switch "timings" false, limit := a.number "max-diagnostics" 100
          style, pathMode, color := a.color }

namespace Shell

/-- Writes the diagnostics of a bag in order. -/
def report (g : CommonOptions) (files : FileSet) (bag : Bag) : Action Unit := do
  if bag.size = 0 then return
  let bag := bag.sort
  let cwd := (← get).disk.cwd
  match g.style with
  | .pretty => warn (prettyReport ⟨g.color, 1, g.pathMode, true⟩ cwd files bag)
  | .json => warn (jsonReport ⟨true, g.pathMode, g.limit, true⟩ cwd files bag)
  | .short => warn (shortReport cwd files true bag.toList)

/-! ## What flags and the manifest ask for -/

/-- The manifest that governs a directory, which has to fit this compiler. -/
def manifestFor (dir : Bytes) : Action (Option Manifest) := do
  match ← orStop .project (Project.discover (← get).disk dir) with
  | none => return none
  | some m =>
    orStop (.compiler m.path) (m.checkCompiler Release.current.version)
    return some m

/-- The options of emission: flags go over the manifest. -/
def emitOptions (a : Arguments) (m : Option Manifest) : Except Complaint EmitOptions :=
  let o := (m.map Manifest.emitOptions).getD {}
  let o := { o with debug := a.switch "debug" o.debug }
  let runtime := a.text "runtime" o.runtime
  if a.has "runtime" && (Text.trim runtime).isEmpty then .error .noRuntime
  else if a.has "module" then
    match ModuleFormat.parse (a.text "module" []) with
    | .error message => .error (.moduleFormat message)
    | .ok format => .ok { o with runtime, format }
  else .ok { o with runtime }

/-- Where caches of all programs are, if anywhere. -/
def cacheHome? (w : Surroundings) : Option Bytes :=
  if !w.cacheHome.isEmpty then some w.cacheHome
  else if !w.home.isEmpty then some (Path.join [w.home, ".cache"])
  else none

/-- Opens the cache unless it is not wanted. A cache that cannot be opened is not used. -/
def openCache (w : Surroundings) (a : Arguments) : Action (Option Cache) := do
  if a.switch "no-cache" false then return none
  match cacheHome? w with
  | none => return none
  | some home =>
    match Cache.openAt (← get).disk (Path.join [home, Command.program]) with
    | .error _ => return none
    | .ok (c, d) =>
      let d := if a.switch "clear-cache" false then (c.dropAll d).toOption.getD d else d
      modify fun s => { s with disk := d }
      return some c

/-- The options of a compilation. -/
def compileOptions (g : CommonOptions) (emit : EmitOptions) : CompileOptions :=
  { emit, limit := g.limit, timings := g.timings }

end Shell

end Bracescript
