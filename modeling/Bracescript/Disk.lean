import Bracescript.Path

/-!
# Disks

A tree of files as a value, with the working directory of whoever uses it. What cannot be done has a reason.
-/

namespace Bracescript

/-- The elements of a path, from the root on and without links. -/
abbrev Place := List Bytes

/-- Why something could not be done on a disk. -/
inductive Reason where
  | missing
  | notFolder
  | isFolder
  | alreadyThere
  | notEmpty
  | tooManyLinks
  | nameTooLong
  | invalid
  deriving DecidableEq, Repr, Inhabited

def Reason.text : Reason → Bytes
  | missing => "no such file or directory"
  | notFolder => "not a directory"
  | isFolder => "is a directory"
  | alreadyThere => "file exists"
  | notEmpty => "directory not empty"
  | tooManyLinks => "too many levels of symbolic links"
  | nameTooLong => "file name too long"
  | invalid => "invalid argument"

/-- A failed operation: what was tried, and why it failed. -/
structure DiskFault where
  attempt : Bytes
  reason : Reason
  deriving DecidableEq, Inhabited

namespace DiskFault

def message (f : DiskFault) : Bytes := f.attempt ++ ": " ++ f.reason.text

def isMissing (f : DiskFault) : Bool := f.reason = .missing

/-- The fault of an operation on one path. -/
def on (operation path : Bytes) (reason : Reason) : DiskFault := ⟨operation ++ " " ++ path, reason⟩

end DiskFault

/-- What stands at a place. -/
inductive Entry where
  | file (content : Bytes)
  | folder
  | link (target : Bytes)
  deriving DecidableEq, Inhabited

structure Disk where
  /-- Everything but the root, by its place. -/
  entries : List (Place × Entry) := []
  /-- The absolute path where relative paths start. -/
  cwd : Bytes := "/"
  deriving Inhabited

namespace Disk

/-! ## Entries by place -/

def get? (d : Disk) (p : Place) : Option Entry := if p = [] then some .folder else d.entries.lookup p

def set (d : Disk) (p : Place) (e : Entry) : Disk := { d with entries := (p, e) :: d.entries.filter (·.1 ≠ p) }

/-- Takes away a place with all that is below it. -/
def erase (d : Disk) (p : Place) : Disk := { d with entries := d.entries.filter fun (q, _) => !p.isPrefixOf q }

/-- Carries a place with all that is below it to another. -/
def move (d : Disk) (p q : Place) : Disk :=
  let carry : Place × Entry → Place × Entry := fun (r, e) => if p.isPrefixOf r then (q ++ r.drop p.length, e) else (r, e)
  { d with entries := (if p = q then d else d.erase q).entries.map carry }

/-- The names in a folder, in ascending order. -/
def namesAt (d : Disk) (p : Place) : List Bytes :=
  Bytes.sorted (d.entries.filterMap fun (q, _) => if q.dropLast = p then q.getLast? else none)

/-! ## Places of paths -/

def longestName : Nat := 255

def longestPath : Nat := 4095

def mostLinks : Nat := 40

/-- Follows path elements from a place on. A link at the end is followed when `follow` says so; what stands at
the end need not exist. -/
def walk (d : Disk) (follow : Bool) (links : Nat) (here : Place) : List Bytes → Except Reason Place
  | [] => .ok here
  | element :: rest =>
    match d.get? here with
    | none => .error .missing
    | some .folder =>
      if element = [] || element = Path.dot then walk d follow links here rest
      else if element = Path.dotDot then walk d follow links here.dropLast rest
      else if longestName < element.length then .error .nameTooLong
      else
        match d.get? (here ++ [element]) with
        | some (.link target) =>
          if rest = [] && !follow then .ok (here ++ [element])
          else
            match links with
            | 0 => .error .tooManyLinks
            | left + 1 =>
              if target = [] then .error .missing
              else walk d follow left (if Path.isAbsolute target then [] else here) (target.split Path.slash ++ rest)
        | _ => walk d follow links (here ++ [element]) rest
    | some _ => .error .notFolder
termination_by elements => (links, elements.length)

/-- The place of a path. -/
def place (d : Disk) (follow : Bool) (path : Bytes) : Except Reason Place :=
  if path.contains 0 then .error .invalid
  else if path = [] then .error .missing
  else if longestPath < path.length then .error .nameTooLong
  else
    let start := if Path.isAbsolute path then [] else Path.elements d.cwd
    d.walk follow mostLinks start (path.split Path.slash)

/-- What stands at the end of a path. -/
def look (d : Disk) (follow : Bool) (path : Bytes) : Except Reason Entry :=
  match d.place follow path with
  | .error r => .error r
  | .ok p =>
    match d.get? p with
    | none => .error .missing
    | some e => .ok e

/-! ## Looking -/

/-- What a path leads to. -/
def stat (d : Disk) (path : Bytes) : Except DiskFault Entry := (d.look true path).mapError (DiskFault.on "stat" path)

/-- What a path names, even if it is a link. -/
def lstat (d : Disk) (path : Bytes) : Except DiskFault Entry := (d.look false path).mapError (DiskFault.on "lstat" path)

def isFolder (d : Disk) (path : Bytes) : Bool :=
  match d.look true path with
  | .ok .folder => true
  | _ => false

/-- The content of a file. -/
def read (d : Disk) (path : Bytes) : Except DiskFault Bytes :=
  match d.look true path with
  | .error r => .error (.on "open" path r)
  | .ok (.file content) => .ok content
  | .ok _ => .error (.on "read" path .isFolder)

/-- What is found below a path, in order: each path with whether it is a folder. Folders that `enter` refuses are
named but not entered. -/
def below (d : Disk) (enter : Bytes → Bool) : Nat → Bytes → Place → List (Bytes × Bool)
  | 0, _, _ => []
  | depth + 1, path, p =>
    (d.namesAt p).flatMap fun name =>
      let there := Path.join [path, name]
      if d.get? (p ++ [name]) = some .folder then
        (there, true) :: if enter there then below d enter depth there (p ++ [name]) else []
      else [(there, false)]

/-- The greatest depth of a place on the disk. -/
def depth (d : Disk) : Nat := (d.entries.map (·.1.length)).foldl max 0

/-- Everything at and below a path, which is not followed if it is a link. -/
def tree (d : Disk) (enter : Bytes → Bool) (path : Bytes) : Except DiskFault (List (Bytes × Bool)) :=
  match d.place false path with
  | .error r => .error (.on "lstat" path r)
  | .ok p =>
    match d.get? p with
    | none => .error (.on "lstat" path .missing)
    | some .folder => .ok ((path, true) :: d.below enter d.depth path p)
    | some _ => .ok [(path, false)]

/-! ## Changing -/

/-- Puts a file at a place unless a folder stands there. -/
def writeAt (d : Disk) (p : Place) (content : Bytes) : Except Reason Disk :=
  match d.get? p with
  | some .folder => .error .isFolder
  | _ =>
    match d.get? p.dropLast with
    | some .folder => .ok (d.set p (.file content))
    | some _ => .error .notFolder
    | none => .error .missing

/-- Writes a whole file, which is made if there is none. -/
def write (d : Disk) (path content : Bytes) : Except DiskFault Disk :=
  match d.place true path with
  | .error r => .error (.on "open" path r)
  | .ok p => (d.writeAt p content).mapError (DiskFault.on "open" path)

/-- Makes one folder. -/
def makeFolder (d : Disk) (path : Bytes) : Except DiskFault Disk :=
  match d.place false (if (Path.dropSlashes path).isEmpty then path else Path.dropSlashes path) with
  | .error r => .error (.on "mkdir" path r)
  | .ok p =>
    match d.get? p with
    | some _ => .error (.on "mkdir" path .alreadyThere)
    | none =>
      match d.get? p.dropLast with
      | some .folder => .ok (d.set p .folder)
      | some _ => .error (.on "mkdir" path .notFolder)
      | none => .error (.on "mkdir" path .missing)

/-- The path in front of the last element and its slash; empty when there is none. -/
def parentPath (path : Bytes) : Bytes := ((Path.dropSlashes path).reverse.dropWhile (· ≠ Path.slash)).tail.reverse

theorem length_parentPath (path : Bytes) (h : path ≠ []) : (parentPath path).length < path.length := by
  have short : (Path.dropSlashes path).length ≤ path.length := by
    simpa [Path.dropSlashes] using (List.dropWhile_sublist (l := path.reverse) (· = Path.slash)).length_le
  have cut : ((Path.dropSlashes path).reverse.dropWhile (· ≠ Path.slash)).length ≤ (Path.dropSlashes path).length := by
    simpa using (List.dropWhile_sublist (l := (Path.dropSlashes path).reverse) (· ≠ Path.slash)).length_le
  have pos : 0 < path.length := List.length_pos_iff.mpr h
  simp only [parentPath, List.length_reverse, List.length_tail]
  omega

/-- Makes a folder and those above it, as far as they are missing. -/
def makeFolders (d : Disk) (path : Bytes) : Except DiskFault Disk :=
  match d.look true path with
  | .ok .folder => .ok d
  | .ok _ => .error (.on "mkdir" path .notFolder)
  | .error _ =>
    if _h : path = [] then .error (.on "mkdir" path .missing)
    else
      match (if parentPath path = [] then .ok d else makeFolders d (parentPath path)) with
      | .error f => .error f
      | .ok d =>
        match d.makeFolder path with
        | .ok d => .ok d
        | .error f =>
          match d.look false path with
          | .ok .folder => .ok d
          | _ => .error f
termination_by path.length
decreasing_by exact length_parentPath path _h

/-- Writes a file after the folders above it are made. -/
def writeDeep (d : Disk) (path content : Bytes) : Except DiskFault Disk :=
  match d.makeFolders (Path.dir path) with
  | .error f => .error f
  | .ok d => d.write path content

/-- The names below a path, seen from it and in order; a folder's ends in a slash. -/
def listing (d : Disk) (path : Bytes) : Except DiskFault (List Bytes) :=
  (d.tree (fun _ => true) path).map fun found => Bytes.sorted <| found.filterMap fun (p, isFolder) =>
    match Path.relativeFrom? d.cwd path p with
    | none => none
    | some rel => if rel = Path.dot then none else some (if isFolder then rel ++ [Path.slash] else rel)

/-- Makes a link. -/
def makeLink (d : Disk) (target path : Bytes) : Except DiskFault Disk :=
  match d.place false path with
  | .error r => .error ⟨"symlink " ++ target ++ " " ++ path, r⟩
  | .ok p =>
    match d.get? p with
    | some _ => .error ⟨"symlink " ++ target ++ " " ++ path, .alreadyThere⟩
    | none => .ok (d.set p (.link target))

/-- Takes away what a path names with all below it, if it is there. -/
def removeAll (d : Disk) (path : Bytes) : Except DiskFault Disk :=
  match d.place false path with
  | .error .missing => .ok d
  | .error r => .error (.on "unlinkat" path r)
  | .ok p => .ok (d.erase p)

/-- Takes away a file, a link or an empty folder; a folder that holds something stays. -/
def remove (d : Disk) (path : Bytes) : Disk :=
  match d.place false path with
  | .error _ => d
  | .ok p => if (d.namesAt p).isEmpty then d.erase p else d

/-- Carries what a path names to another path; a folder is never replaced. -/
def rename (d : Disk) (old new : Bytes) : Except DiskFault Disk :=
  let fault : Reason → DiskFault := fun r => ⟨"rename " ++ old ++ " " ++ new, r⟩
  match d.look false old with
  | .error r => .error (fault r)
  | .ok e =>
    match d.place false old, d.place false new with
    | .error r, _ => .error (fault r)
    | _, .error r => .error (fault r)
    | .ok p, .ok q =>
      match d.get? q with
      | some .folder => if p = q && old ≠ new then .ok d else .error (fault .alreadyThere)
      | there =>
        if d.get? q.dropLast ≠ some .folder then
          .error (fault (if (d.get? q.dropLast).isNone then .missing else .notFolder))
        else if e = .folder && there.isSome then .error (fault .notFolder)
        else if p.isPrefixOf q && p ≠ q then .error (fault .invalid)
        else .ok (d.move p q)

end Disk

end Bracescript
