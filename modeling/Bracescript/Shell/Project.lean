import Bracescript.Shell

/-!
# New projects and the version
-/

namespace Bracescript.Shell

/-- Makes a new project and says what was made. -/
def initProject (a : Arguments) : Action Unit := do
  let s ← get
  let target := match a.rest with
    | [path] => if path = Path.dot then s.disk.cwd else if Path.isAbsolute path then path else Path.join [s.disk.cwd, path]
    | _ => s.disk.cwd
  let (r, d) := Project.init s.disk target Release.current.version
  set { s with disk := d }
  match r.fault with
  | some f => throw (.init f)
  | none =>
    if a.switch "quiet" false then return
    say ("created " ++ r.manifest ++ "\n")
    if r.createdMain then say ("created " ++ r.main ++ "\n")
    say ("\nnext:\n  cd " ++ r.root ++ "\n  unsure build\n")

/-- The release for other programs. -/
def releaseJson (r : Release) : Bytes :=
  let always : List (Bytes × Json) :=
    [("tool", .text Command.program), ("version", .text r.version), ("runtime", .text ({} : EmitOptions).runtime)]
  let unlessEmpty (name value : Bytes) : List (Bytes × Json) := if value.isEmpty then [] else [(name, .text value)]
  Json.document true (.object (always ++ unlessEmpty "git_commit" r.commit ++ unlessEmpty "build_date" r.date))

/-- Says which release this is. -/
def showRelease (a : Arguments) : Action Unit := do
  let name := a.text "format" "pretty"
  let format := Text.lower name
  if format = "pretty" then say (Release.current.banner a.color ++ "\n")
  else if format = "json" then say (releaseJson Release.current)
  else throw (.unsupportedFormat name)

end Bracescript.Shell
