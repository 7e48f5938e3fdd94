import Bracescript.Bytes

/-!
# Paths

Slash-separated paths, worked on as texts: nothing here looks at a disk.
-/

namespace Bracescript.Path

def slash : UInt8 := Bytes.ascii '/'

def dot : Bytes := "."

def dotDot : Bytes := ".."

def isAbsolute (path : Bytes) : Bool := path.head? = some slash

/-- Resolves `.` and `..` among path elements; `done` holds the elements kept so far, last first. -/
def settle (rooted : Bool) (done : List Bytes) : List Bytes → List Bytes
  | [] => done.reverse
  | element :: rest =>
    if element = [] || element = dot then settle rooted done rest
    else if element = dotDot then
      match done with
      | [] => settle rooted (if rooted then [] else [dotDot]) rest
      | last :: older =>
        if last = dotDot then settle rooted (dotDot :: done) rest else settle rooted older rest
    else settle rooted (element :: done) rest

/-- The elements of the shortest equivalent path. -/
def elements (path : Bytes) : List Bytes := settle (isAbsolute path) [] (path.split slash)

/-- The shortest path that names the same place. -/
def clean (path : Bytes) : Bytes :=
  let parts := Bytes.join [slash] (elements path)
  if isAbsolute path then slash :: parts else if parts = [] then dot else parts

/-- Joins path elements and cleans the result; empty elements in front do not count. -/
def join (parts : List Bytes) : Bytes :=
  match parts.dropWhile List.isEmpty with
  | [] => []
  | parts => clean (Bytes.join [slash] parts)

def dropSlashes (path : Bytes) : Bytes := (path.reverse.dropWhile (· = slash)).reverse

/-- The last element; `.` for the empty path, `/` for a path of slashes. -/
def base (path : Bytes) : Bytes :=
  if path = [] then dot
  else
    match dropSlashes path with
    | [] => [slash]
    | path => (path.reverse.takeWhile (· ≠ slash)).reverse

/-- All but the last element, cleaned. -/
def dir (path : Bytes) : Bytes := clean (path.reverse.dropWhile (· ≠ slash)).reverse

/-- The end of the last element from its last dot on. -/
def ext (path : Bytes) : Bytes :=
  let last := path.reverse.takeWhile (· ≠ slash)
  let tail := last.takeWhile (· ≠ Bytes.ascii '.')
  if tail.length < last.length then (last.take (tail.length + 1)).reverse else []

/-- The path seen from the working directory `cwd`. -/
def absolute (cwd path : Bytes) : Bytes := if isAbsolute path then clean path else join [cwd, path]

/-- Both lists without what they have in common in front. -/
def dropCommon : List Bytes → List Bytes → List Bytes × List Bytes
  | a :: as, b :: bs => if a = b then dropCommon as bs else (a :: as, b :: bs)
  | as, bs => (as, bs)

/-- How to reach `target` from `start`; `none` when the texts alone do not tell. -/
def relative? (start target : Bytes) : Option Bytes :=
  let here := clean start
  let there := clean target
  if here = there then some dot
  else if isAbsolute here ≠ isAbsolute there then none
  else
    let there := if there = dot then [dot] else elements there
    match dropCommon (elements here) there with
    | (up, down) =>
      if up.head? = some dotDot then none
      else some (Bytes.join [slash] (up.map (fun _ => dotDot) ++ down))

/-- The path of a file under the working directory `cwd`, seen from `start`. -/
def relativeFrom? (cwd start path : Bytes) : Option Bytes :=
  relative? (absolute cwd start) (absolute cwd path)

end Bracescript.Path
