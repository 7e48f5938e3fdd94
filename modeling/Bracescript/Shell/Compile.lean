import Bracescript.Shell

/-!
# Compiling on request

Snippets, single files, directories and projects.
-/

namespace Bracescript.Shell

/-- The directory of modules when nothing else is said. -/
def defaultOutput : Bytes := "dist"

/-! ## Snippets and single files -/

/-- Reports on a compilation and stops unless it gave a module. -/
def expectModule (g : CommonOptions) (r : CompileResult) : Action Bytes := do
  report g r.set r.bag
  match r.fault with
  | some f => throw (.failed "compilation" f.message)
  | none => if r.bag.hasErrors then throw .told else return r.run.output

/-- Compiles code that stands among the arguments. -/
def compileSnippet (a : Arguments) : Action Unit := do
  let g ← orStop id (CommonOptions.read a)
  let m ← manifestFor (← get).disk.cwd
  let emit ← orStop id (emitOptions a m)
  let r ← traced fun d t =>
    let (r, t) := compileText (compileOptions g emit) t 0 "<code>" (a.text "code" [])
    (r, d, t)
  say (← expectModule g r)

/-- Writes a module to the file that is asked for. -/
def writeModule (g : CommonOptions) (out module : Bytes) : Action Unit := do
  if Path.dir out ≠ Path.dot then changeDisk .disk (·.makeFolders (Path.dir out))
  changeDisk (.unwritable out) (·.write out module)
  if !g.quiet then warn ("wrote " ++ out ++ "\n")

/-- Compiles one file. -/
def compileFile (g : CommonOptions) (o : CompileOptions) (cache : Option Cache) (path out : Bytes) : Action Unit := do
  let r ← traced fun d t => compilePath o cache d t 0 path
  let r ← orStop (fun f => .failed "compilation" f.message) r
  let module ← expectModule g r
  if out = [] || out = "-" then say module else writeModule g out module

/-! ## Trees -/

/-- A time in milliseconds; no time passes in the shell. -/
def noTime : Bytes := "0.0 ms"

/-- The line of a stage in the table of times. -/
def timeLine (label : Bytes) : Bytes := Text.padBack 9 label ++ " " ++ noTime ++ "\n"

/-- The table of times of a build. -/
def timeTable (t : Timings) : Bytes :=
  let stages : List (Stage × Bytes) := [(.lex, "lexed"), (.parse, "parsed"), (.codegen, "generated"), (.write, "written")]
  (stages.filter fun (stage, _) => t.has stage).flatMap (fun (_, label) => timeLine label) ++ timeLine "total"

/-- What to say of one file of a build. -/
def reportFile (g : CommonOptions) (files : FileSet) (f : BuiltFile) : Action Unit := do
  report g files f.bag
  match f.fault with
  | some fault => if !f.bag.hasErrors then warn (f.name ++ ": " ++ fault.message ++ "\n")
  | none => pure ()

/-- The last line of a build. -/
def summary (r : BuildResult) (out : Bytes) : Bytes :=
  "compiled " ++ Bytes.ofNat r.files.length ++ " files (" ++ Bytes.ofNat (r.files.countP BuiltFile.cached) ++ " cached) into "
    ++ out ++ " in " ++ noTime ++ "\n"

/-- Builds a tree and says how it went. -/
def buildTree (g : CommonOptions) (r : BuildRequest) : Action Unit := do
  let result ← traced fun d t => build r d t 0
  for f in result.files do
    reportFile g result.set f
  if g.timings then warn (timeTable result.timings)
  match result.fault with
  | some (.failed _ _) => throw .told
  | some f => throw (.build f)
  | none => if !g.quiet then say (summary result r.out)

/-- Refuses an unknown way to show progress. Progress is never shown where there is no terminal. -/
def checkProgress (a : Arguments) : Except Complaint Unit :=
  let value := a.text "ui" "auto"
  let known : List Bytes := ["", "auto", "on", "off"]
  if known.contains (Text.lower (Text.trim value)) then .ok () else .error (.unknownProgress value)

/-- Compiles a file or a directory. -/
def compilePlace (w : Surroundings) (a : Arguments) (path : Bytes) : Action Unit := do
  let g ← orStop id (CommonOptions.read a)
  let entry ← orStop (.unreachable path) ((← get).disk.stat path)
  let isFolder := entry = .folder
  let m ← manifestFor (if isFolder then path else Path.dir path)
  let emit ← orStop id (emitOptions a m)
  let o := compileOptions g emit
  let cache ← openCache w a
  let out := a.text "out" []
  if isFolder then
    orStop id (checkProgress a)
    buildTree g { source := path, out := if out = [] then defaultOutput else out, ext := ".js", compile := o, cache }
  else compileFile g o cache path out

/-! ## Projects -/

/-- The build that the manifest above a directory asks for. -/
def projectRequest (w : Surroundings) (g : CommonOptions) (a : Arguments) (start : Bytes) : Action BuildRequest := do
  let cwd := (← get).disk.cwd
  match ← manifestFor (if start = Path.dot then cwd else start) with
  | none => throw .noManifest
  | some m =>
    let emit ← orStop id (emitOptions a (some m))
    let cache ← openCache w a
    return { source := m.sourceDir, out := m.outputDir, ext := ".js", compile := compileOptions g emit, cache }

/-- Builds a project. -/
def buildProject (w : Surroundings) (a : Arguments) : Action Unit := do
  let g ← orStop id (CommonOptions.read a)
  let r ← projectRequest w g a (a.rest.headD Path.dot)
  orStop id (checkProgress a)
  buildTree g r

end Bracescript.Shell
