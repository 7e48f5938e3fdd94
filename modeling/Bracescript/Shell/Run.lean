import Bracescript.Shell.Compile
import Bracescript.Shell.Dialogue
import Bracescript.Shell.Inspect
import Bracescript.Shell.Project
import Bracescript.Shell.Watch

/-!
# Running a line of arguments

From the arguments to what is written and the exit code. Traces and profiles are set up before the command and ended
after it, whatever comes of it.
-/

namespace Bracescript

namespace Shell

/-! ## Profiles and traces -/

/-- Makes an empty file for a profile, if one is asked for. -/
def startProfile (kind path : Bytes) : Action Unit := do
  if path ≠ [] then changeDisk (.profile kind) (·.write path [])

/-- Starts the profiles that flags ask for. What is in a profile is not our concern. -/
def startProfiles (a : Arguments) : Action Unit := do
  let cpu := a.text "cpu-profile" []
  let trace := a.text "runtime-trace" []
  startProfile "cpu profile" cpu
  startProfile "runtime trace" trace
  modify fun s => { s with profiling := true }

/-- Writes the profile of the memory, which comes last. -/
def stopProfiles (a : Arguments) (s : Shell) : Shell :=
  let path := a.text "mem-profile" []
  if !s.profiling || path = [] then s
  else
    match s.disk.write path [] with
    | .ok d => { s with disk := d }
    | .error f => { s with err := s.err ++ "profile: heap profile: " ++ f.message ++ "\n" }

/-- The level of a trace. A file for the trace asks for phases if no level is given. -/
def traceLevel (a : Arguments) : Except Complaint Trace.Level :=
  match Trace.Level.parse (a.text "trace-level" "off") with
  | .error message => .error (.traceLevel message)
  | .ok level =>
    .ok (if level = .off && a.text "trace" [] ≠ [] && !a.has "trace-level" then .phase else level)

/-- The format of a trace that goes to a path. -/
def traceFormat (format : Trace.Format) (path : Bytes) : Trace.Format :=
  match format with
  | .auto => if Bytes.endsWith path ".ndjson" || Bytes.endsWith path ".jsonl" then .lines else .text
  | format => format

/-- Starts the trace that flags ask for. -/
def startTrace (a : Arguments) : Action Unit := do
  let level ← orStop id (traceLevel a)
  if level = .off then return
  let format ← orStop .traceFormat (Trace.Format.parse (a.text "trace-format" "auto"))
  let path := a.text "trace" []
  let target : TraceTarget := if path = [] || path = "-" then .errors else .file path
  if let .file path := target then changeDisk .traceFile (·.write path [])
  modify fun s => { s with tracer := { level }, target, format := traceFormat format path }

/-! ## Commands -/

/-- Does what a command asks for. -/
def perform (w : Surroundings) (c : Command) (a : Arguments) : Action Unit :=
  match c, a.rest with
  | .plain, rest =>
    if a.has "code" then compileSnippet a
    else
      match rest with
      | path :: _ => compilePlace w a path
      | [] => converse w a
  | .compile, path :: _ => compilePlace w a path
  | .tokenize, path :: _ => tokenize a path
  | .parse, path :: _ => parse a path
  | .build, _ => buildProject w a
  | .watch, _ => watch w a
  | .repl, _ => converse w a
  | .init, _ => initProject a
  | .version, _ => showRelease a
  | _, _ => pure ()

end Shell

/-- What a run leaves besides the disk. -/
structure Outcome where
  code : Nat := 0
  out : Bytes := []
  err : Bytes := []
  deriving DecidableEq, Inhabited

namespace Outcome

/-- The last words of a run that stopped. -/
def lastWords (color : Bool) (c : Complaint) : Bytes :=
  if c.isTold then [] else Text.paint color [.red] "error:" ++ " " ++ c.message ++ "\n"

end Outcome

open Shell in
/-- Runs a command from its set-up to its end. -/
def Command.run (w : Surroundings) (d : Disk) (c : Command) (a : Arguments) : Outcome × Disk :=
  let action : Action Unit := do
    startProfiles a
    startTrace a
    perform w c a
  let (result, s) := (action.run.run { disk := d }).run
  let s := stopProfiles a s.closeTrace
  match result with
  | .ok _ => ({ out := s.out, err := s.err }, s.disk)
  | .error c => ({ code := 1, out := s.out, err := s.err ++ Outcome.lastWords a.color c }, s.disk)

/-- Runs a line of arguments. The text of the help is not modelled. -/
def run (w : Surroundings) (d : Disk) (args : List Bytes) : Outcome × Disk :=
  match Command.request args with
  | .error f => ({ code := 1, err := Outcome.lastWords false (.usage f) }, d)
  | .ok .showHelp => ({}, d)
  | .ok .showVersion => ({ out := Command.program ++ " version " ++ Release.current.version ++ "\n" }, d)
  | .ok (.run c a) => c.run w d a

end Bracescript
