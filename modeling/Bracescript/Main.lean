import Bracescript.Shell.Run

/-!
# The program

What a command may need is taken from the file system onto a disk, the command runs there, and the changes are carried
back.
-/

namespace Bracescript.Program

def toText (bytes : Bytes) : String := (Text.toString? bytes).getD ""

def pathAt (p : Place) : String := "/" ++ "/".intercalate (p.map toText)

def placeAt (path : String) : Place := Path.elements (Bytes.ofString path)

/-! ## From the file system to a disk -/

/-- Takes a file or a whole tree. What cannot be read is left out. -/
partial def load (d : Disk) (path : String) : IO Disk := do
  try
    let real ← IO.FS.realPath path
    let p := placeAt real.toString
    if ← real.isDir then
      (← real.readDir).foldlM (fun d entry => load d entry.path.toString) (d.set p .folder)
    else if ← real.pathExists then
      return d.set p (.file (← IO.FS.readBinFile real).toList)
    else return d
  catch _ => return d

/-- Takes the folders above a place and their manifests. -/
def loadAbove (d : Disk) (p : Place) : IO Disk :=
  (List.range p.length).foldlM (fun d n => do
    let folder := p.take (n + 1)
    load (d.set folder .folder) (pathAt (folder ++ [Project.manifestName]))) d

/-- The paths that a command may look at: where it runs, what its arguments name, and the cache. -/
def roots (w : Surroundings) (cwd : String) (args : List String) : List String :=
  let named := (args.filter fun arg => !arg.startsWith "-").map fun arg =>
    toText (Path.absolute (Bytes.ofString cwd) (Bytes.ofString arg))
  let cache := (Shell.cacheHome? w).toList.map fun home => toText (Path.join [home, Command.program])
  cwd :: named ++ cache

def takeDisk (w : Surroundings) (cwd : String) (args : List String) : IO Disk :=
  (roots w cwd args).foldlM (fun d root => do
    let d ← load d root
    if (d.get? (placeAt root)).isSome then loadAbove d (placeAt root).dropLast else return d) { cwd := Bytes.ofString cwd }

/-! ## From a disk to the file system -/

/-- Carries the difference between two disks to the file system, folders before what is in them. -/
def carryBack (old new : Disk) : IO Unit := do
  let byDepth (d : Disk) := d.entries.mergeSort fun a b => a.1.length ≤ b.1.length
  for (p, entry) in byDepth new do
    if old.get? p ≠ some entry then
      match entry with
      | .folder => IO.FS.createDirAll (pathAt p)
      | .file content => IO.FS.writeBinFile (pathAt p) content.toByteArray
      | .link _ => pure ()
  for (p, entry) in (byDepth old).reverse do
    if (new.get? p).isNone then
      match entry with
      | .folder => IO.FS.removeDir (pathAt p)
      | _ => IO.FS.removeFile (pathAt p)

/-! ## Running -/

partial def readAll (input : IO.FS.Stream) (soFar : ByteArray) : IO ByteArray := do
  let piece ← input.read 65536
  if piece.isEmpty then return soFar else readAll input (soFar ++ piece)

/-- Whether a line of arguments starts a session on the input. -/
def readsInput (args : List Bytes) : Bool :=
  match Command.request args with
  | .ok (.run .repl _) => true
  | .ok (.run .plain a) => !a.has "code" && a.rest.isEmpty
  | _ => false

def write (out err : Bytes) : IO Unit := do
  let stdout ← IO.getStdout
  stdout.write out.toByteArray
  stdout.flush
  (← IO.getStderr).write err.toByteArray

/-- What was done to the files of a tree between two looks at it. -/
def deedsBetween (old new : Disk) : List Deed :=
  let changed := new.entries.filterMap fun (p, entry) =>
    match old.get? p, entry with
    | some (.file before), .file content =>
      if before = content then none
      else if before.isPrefixOf content then some (Deed.append (Bytes.ofString (pathAt p)) (content.drop before.length))
      else some (.add (Bytes.ofString (pathAt p)) content)
    | none, .file content => some (.add (Bytes.ofString (pathAt p)) content)
    | none, .folder => some (.addFolder (Bytes.ofString (pathAt p)) [])
    | _, _ => none
  let gone := old.entries.filterMap fun (p, _) =>
    if (new.get? p).isNone then some (Deed.remove (Bytes.ofString (pathAt p))) else none
  changed ++ gone

/-- Looks at the file system now and then, and builds after every change. -/
partial def keepWatching (look : IO Disk) (s : Shell.Watching) (shell : Shell) : IO Unit := do
  IO.sleep 100
  let now ← look
  let (result, after) := ((s.follow (deedsBetween shell.disk now)).run.run { shell with out := [], err := [] }).run
  write after.out after.err
  carryBack now after.disk
  match result with
  | .ok s => keepWatching look s after
  | .error _ => pure ()

end Bracescript.Program

open Bracescript Program in
def main (args : List String) : IO UInt32 := do
  let cwd := (← IO.currentDir).toString
  let setting (name : String) : IO Bytes := do return Bytes.ofString ((← IO.getEnv name).getD "")
  let words := args.map Bytes.ofString
  let input ← if readsInput words then (·.toList) <$> readAll (← IO.getStdin) .empty else pure []
  let w : Surroundings := { home := ← setting "HOME", cacheHome := ← setting "XDG_CACHE_HOME", input }
  let look := takeDisk w cwd args
  let before ← look
  match Command.request words with
  | .ok (.run .watch a) =>
    let (result, shell) := ((Shell.startWatching w a).run.run { disk := before }).run
    write shell.out shell.err
    carryBack before shell.disk
    match result with
    | .ok s => keepWatching look s shell; return 0
    | .error c => write [] (Outcome.lastWords a.color c); return 1
  | _ =>
    let (outcome, after) := run w before words
    carryBack before after
    write outcome.out outcome.err
    return outcome.code.toUInt32
