import Bracescript.Manifest

/-!
# Projects

Where a project is, and how a new one is made.
-/

namespace Bracescript

namespace Project

/-- The name of manifest files. -/
def manifestName : Bytes := "unsure.toml"

/-- The name of a project whose directory has no usable one. -/
def defaultName : Bytes := "unsure-project"

/-- A letter, followed by letters, digits, underscores and dashes. -/
def isName : Bytes → Bool
  | [] => false
  | b :: bs =>
    Bytes.isLetter b
      && bs.all fun b => Bytes.isLetter b || Bytes.isDigit b || b = Bytes.ascii '_' || b = Bytes.ascii '-'

/-- The name of a project in a directory. -/
def nameOf (dir : Bytes) : Bytes :=
  let name := Text.trim (Path.base dir)
  if isName name then name else defaultName

/-! ## Finding -/

/-- Looks for a manifest in a directory and those above it, as far as `depth` goes. -/
def search (d : Disk) : Nat → Bytes → Except Bytes (Option Bytes)
  | depth, dir =>
    let candidate := Path.join [dir, manifestName]
    match d.stat candidate with
    | .ok _ => .ok (some candidate)
    | .error f =>
      if !f.isMissing then .error ("failed to stat " ++ Text.quoted candidate ++ ": " ++ f.message)
      else
        match depth with
        | 0 => .ok none
        | depth + 1 => if Path.dir dir = dir then .ok none else search d depth (Path.dir dir)

/-- The manifest that governs a directory. -/
def findManifest (d : Disk) (dir : Bytes) : Except Bytes (Option Bytes) :=
  let dir := Path.absolute d.cwd (if dir.isEmpty then Path.dot else dir)
  search d dir.length dir

/-- The root of the project that a directory belongs to. -/
def findRoot (d : Disk) (dir : Bytes) : Except Bytes (Option Bytes) := (findManifest d dir).map fun path => path.map Path.dir

/-- Why there is no usable manifest. -/
inductive Fault where
  | lost (message : Bytes)
  | unusable (path : Bytes) (f : ManifestFault)
  deriving DecidableEq

def Fault.message : Fault → Bytes
  | lost message => message
  | unusable path f => path ++ ": " ++ f.message

/-- Finds and loads the manifest that governs a directory, if there is one. -/
def discover (d : Disk) (dir : Bytes) : Except Fault (Option Manifest) :=
  match findManifest d dir with
  | .error message => .error (.lost message)
  | .ok none => .ok none
  | .ok (some path) =>
    match Manifest.load d path with
    | .error f => .error (.unusable path f)
    | .ok m => .ok (some m)

/-! ## Making -/

/-- Why no project was made. -/
inductive InitFault where
  | notFolder (path : Bytes)
  | alreadyThere (manifest : Bytes)
  | other (message : Bytes)
  deriving DecidableEq

def InitFault.message : InitFault → Bytes
  | notFolder path => Text.quoted path ++ " is not a directory"
  | alreadyThere manifest => "project already initialized: " ++ manifest ++ " exists"
  | other message => message

/-- What was made; an empty path was not reached. -/
structure InitResult where
  root : Bytes
  manifest : Bytes := []
  main : Bytes := []
  createdMain : Bool := false
  fault : Option InitFault := none

/-- The first program of a new project. -/
def firstProgram : Bytes :=
  "def greet(string name) \x7b\n    return \"Hello, \" + name + \"!\";\n\x7d\n\nprint(greet(\"unsure\"));\n"

/-- Makes sure that there is a directory. -/
def ensureFolder (d : Disk) (dir : Bytes) : Except InitFault Disk :=
  match d.stat dir with
  | .ok .folder => .ok d
  | .ok _ => .error (.notFolder dir)
  | .error f =>
    if !f.isMissing then .error (.other f.message)
    else
      (d.makeFolders dir).mapError fun f =>
        .other ("failed to create directory " ++ Text.quoted dir ++ ": " ++ f.message)

/-- Writes the first program unless there is one. -/
def makeMain (r : InitResult) (d : Disk) : InitResult × Disk :=
  let folder := Path.join [r.root, "src"]
  match d.makeFolders folder with
  | .error f => ({ r with fault := some (.other f.message) }, d)
  | .ok d =>
    let main := Path.join [folder, "main.uns"]
    let r := { r with main }
    match d.stat main with
    | .ok _ => (r, d)
    | .error f =>
      if !f.isMissing then (r, d)
      else
        match d.write main firstProgram with
        | .error f => ({ r with fault := some (.other ("failed to write main.uns: " ++ f.message)) }, d)
        | .ok d => ({ r with createdMain := true }, d)

/-- Makes a project in a directory. -/
def init (d : Disk) (dir compiler : Bytes) : InitResult × Disk :=
  match ensureFolder d dir with
  | .error f => ({ root := dir, fault := some f }, d)
  | .ok d =>
    let manifest := Path.join [dir, manifestName]
    let r : InitResult := { root := dir, manifest }
    match d.stat manifest with
    | .ok _ => ({ r with fault := some (.alreadyThere manifest) }, d)
    | .error _ =>
      match d.write manifest (Config.initial (nameOf dir) compiler).encode with
      | .error f => ({ r with fault := some (.other ("failed to write manifest: " ++ f.message)) }, d)
      | .ok d => makeMain r d

end Project

end Bracescript
