import Bracescript.Disk
import Bracescript.Watch

/-!
# Watching a tree

A watcher sees what happens to the files in the folders that it watches. Folders that appear in a watched folder are
watched as well.
-/

namespace Bracescript

/-- Something that is done to a tree while it is watched. -/
inductive Deed where
  /-- A finished file takes its place, perhaps that of another one. -/
  | add (path content : Bytes)
  | append (path content : Bytes)
  | remove (path : Bytes)
  | rename (path target : Bytes)
  /-- The file leaves the tree. -/
  | moveOut (path : Bytes)
  /-- The permissions of the file change. -/
  | permit (path : Bytes)
  /-- A folder takes its place with folders inside it. -/
  | addFolder (path : Bytes) (inside : List Bytes)
  deriving DecidableEq

structure Watcher where
  collector : Collector := {}
  /-- The watched folders by their place, with the path that each is watched by. -/
  folders : List (Place × Bytes) := []
  deriving Inhabited

namespace Watcher

def isHidden (path : Bytes) : Bool := (Path.base path).head? = some (Bytes.ascii '.')

/-- The folders at and below a path, without those below it that are hidden. -/
def foldersOf (d : Disk) (root : Bytes) : Except DiskFault (List Bytes) :=
  (d.tree (fun path => !isHidden path) root).map fun found =>
    match found with
    | [] => []
    | top :: more =>
      ((top :: more.filter fun (path, _) => !isHidden path).filter (·.2)).map (·.1)

/-- Watches one more folder. -/
def watch (w : Watcher) (d : Disk) (path : Bytes) : Watcher :=
  match d.place true path with
  | .error _ => w
  | .ok p => { w with folders := (p, Path.clean path) :: w.folders.filter (·.1 ≠ p) }

/-- Watches a folder and all in it. -/
def watchTree (w : Watcher) (d : Disk) (root : Bytes) : Except DiskFault Watcher :=
  (foldersOf d root).map fun paths => paths.foldl (fun w path => w.watch d path) w

/-- A watcher of a tree that cares for files with an ending. -/
def start (d : Disk) (root ext : Bytes) : Except DiskFault Watcher := watchTree { collector := { ext } } d root

/-- The paths of the watched folders in order. -/
def paths (w : Watcher) : List Bytes := Bytes.sorted (w.folders.map (·.2))

/-- The name under which a watcher sees a path, if it watches the folder. -/
def nameOf? (w : Watcher) (d : Disk) (path : Bytes) : Option Bytes :=
  match d.place true (Path.dir path) with
  | .error _ => none
  | .ok p => (w.folders.lookup p).map fun folder => folder ++ [Path.slash] ++ Path.base path

/-- Notes what happened to a path. -/
def note (w : Watcher) (d : Disk) (path : Bytes) (what : Changes) : Watcher :=
  match w.nameOf? d path with
  | none => w
  | some name => { w with collector := (w.collector.add name what).2 }

/-- Watches a folder that appeared. -/
def noteFolder (w : Watcher) (d : Disk) (path : Bytes) : Watcher :=
  match w.nameOf? d path with
  | none => w
  | some name => (w.watchTree d (Path.clean name)).toOption.getD w

/-- Takes the batch of what happened. -/
def flush (w : Watcher) : List Change × Watcher :=
  let (batch, collector) := w.collector.flush
  (batch, { w with collector })

end Watcher

namespace Deed

/-- Does a deed. What cannot be done is left. -/
def perform (d : Disk) : Deed → Disk
  | add path content => (d.writeDeep path content).toOption.getD d
  | append path content =>
    match d.read path with
    | .ok old => (d.write path (old ++ content)).toOption.getD d
    | .error _ => d
  | remove path => d.remove path
  | rename path target => (d.rename path target).toOption.getD d
  | moveOut path => (d.removeAll path).toOption.getD d
  | permit _ => d
  | addFolder path inside =>
    (path :: inside.map fun name => Path.join [path, name]).foldl (fun d p => (d.makeFolders p).toOption.getD d) d

/-- What a watcher notes of a deed that was just done. -/
def seen (w : Watcher) (d : Disk) : Deed → Watcher
  | add path _ => w.note d path Changes.create
  | append path _ => w.note d path Changes.write
  | remove path => w.note d path Changes.remove
  | rename path target => (w.note d path Changes.rename).note d target Changes.create
  | moveOut path => w.note d path Changes.rename
  | permit _ => w
  | addFolder path _ => w.noteFolder d path

end Deed

/-- Lets a deed happen under a watcher and takes the batch. -/
def Watcher.step (w : Watcher) (d : Disk) (deed : Deed) : List Change × Watcher × Disk :=
  let d := deed.perform d
  let (batch, w) := (deed.seen w d).flush
  (batch, w, d)

end Bracescript
