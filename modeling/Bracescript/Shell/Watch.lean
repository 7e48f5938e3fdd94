import Bracescript.Shell.Compile

/-!
# Building again and again

A tree is built once and then after every batch of changes. Modules whose source is gone are taken away.
-/

namespace Bracescript.Shell

/-- What to build: a project, or a directory where there is none. -/
def watchRequest (w : Surroundings) (g : CommonOptions) (a : Arguments) : Action BuildRequest :=
  match a.rest with
  | [] => projectRequest w g a Path.dot
  | dir :: _ =>
    tryCatch (projectRequest w g a dir) fun
      | .noManifest => do
        let emit ← orStop id (emitOptions a none)
        let cache ← openCache w a
        let out := a.text "out" []
        return { source := dir, out := if out = [] then defaultOutput else out, ext := ".js"
                 compile := compileOptions g emit, cache }
      | c => throw c

/-- Builds, and goes on whatever comes of it. -/
def rebuild (g : CommonOptions) (color : Bool) (r : BuildRequest) : Action Unit :=
  tryCatch (buildTree g r) fun c => do
    if !c.isTold then warn (Text.paint color [.red] "error:" ++ " " ++ c.message ++ "\n")

/-- Takes away the modules of sources that are gone. -/
def removeStale (r : BuildRequest) (batch : List Change) (d : Disk) : Disk :=
  (batch.filter Change.removed).foldl (fun d c =>
    match Path.relative? r.source c.path with
    | none => d
    | some name => d.remove (outputPath r.out name r.ext)) d

/-- A tree that is being watched. -/
structure Watching where
  options : CommonOptions
  color : Bool
  request : BuildRequest
  watcher : Watcher

/-- Builds after each deed that matters. -/
def Watching.follow (s : Watching) : List Deed → Action Watching
  | [] => pure s
  | deed :: more => do
    let shell ← get
    let (batch, watcher, d) := s.watcher.step shell.disk deed
    set { shell with disk := d }
    if !batch.isEmpty then
      if !s.options.quiet then say (batch.flatMap fun c => c.what.render ++ " " ++ c.path ++ "\n")
      modify fun shell => { shell with disk := removeStale s.request batch shell.disk }
      rebuild s.options s.color s.request
    Watching.follow { s with watcher } more

/-- Builds once and starts to watch. -/
def startWatching (w : Surroundings) (a : Arguments) : Action Watching := do
  let options ← orStop id (CommonOptions.read a)
  let request ← watchRequest w options a
  let watcher ← orStop (.cannotWatch request.source) (Watcher.start (← get).disk request.source sourceExtension)
  rebuild options a.color request
  if !options.quiet then say ("watching " ++ request.source ++ " (ctrl-c to stop)\n")
  return { options, color := a.color, request, watcher }

/-- Builds and watches until nothing more happens. -/
def watch (w : Surroundings) (a : Arguments) : Action Unit := do
  let s ← startWatching w a
  discard (s.follow w.deeds)

end Bracescript.Shell
