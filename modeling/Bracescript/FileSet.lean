import Bracescript.SourceFile

/-!
# File sets

All versions of all files of a run. A file is known by its number, a path by its newest version.
-/

namespace Bracescript

structure FileSet where
  files : Array SourceFile := #[]
  /-- Paths with the number of their newest version. -/
  newest : List (Bytes × UInt32) := []
  /-- Where displayed relative paths start; empty means the working directory. -/
  start : Bytes := []
  deriving Inhabited

namespace FileSet

/-- The path under which a file is kept. -/
def keptPath (path : Bytes) : Bytes := if path = [] then [] else Path.clean path

/-- Adds a version of the file at `path` and returns its number. -/
def add (set : FileSet) (path content : Bytes) (flags : FileFlags) : UInt32 × FileSet :=
  let id := set.files.size.toUInt32
  let path := keptPath path
  (id, { set with
    files := set.files.push ⟨id, path, content, flags⟩
    newest := (path, id) :: set.newest.filter (·.1 ≠ path) })

def addInMemory (set : FileSet) (name content : Bytes) : UInt32 × FileSet :=
  set.add name content FileFlags.inMemory

def byteOrderMark : Bytes := [0xef, 0xbb, 0xbf]

/-- Every line end of two bytes becomes a line feed. -/
def foldLineEnds : Bytes → Bytes
  | 0x0d :: 0x0a :: rest => 0x0a :: foldLineEnds rest
  | b :: rest => b :: foldLineEnds rest
  | [] => []

/-- Adds a file as it was read from disk: without a byte order mark and with plain line ends. -/
def addRaw (set : FileSet) (path raw : Bytes) : UInt32 × FileSet :=
  let marked := raw.startsWith byteOrderMark
  let unmarked := if marked then raw.drop byteOrderMark.length else raw
  let content := foldLineEnds unmarked
  let folded := content ≠ unmarked
  set.add path content ((if marked then FileFlags.hadMark else 0) ||| (if folded then FileFlags.foldedLines else 0))

def get? (set : FileSet) (id : UInt32) : Option SourceFile := set.files[id.toNat]?

def latest? (set : FileSet) (path : Bytes) : Option UInt32 := set.newest.lookup (keptPath path)

/-- Where relative paths start when the user works in `cwd`. -/
def startIn (set : FileSet) (cwd : Bytes) : Bytes := if set.start = [] then cwd else set.start

/-- The positions of both ends of a span; zeros for an unknown file. -/
def resolve (set : FileSet) (s : Span) : LineCol × LineCol :=
  match set.get? s.file with
  | none => (.none, .none)
  | some f => (f.position s.start, f.position s.stop)

/-- The displayed path of a file. -/
def displayPath (cwd : Bytes) (set : FileSet) (id : UInt32) (mode : PathMode) : Bytes :=
  match set.get? id with
  | none => "<unknown>"
  | some f => f.displayPath cwd mode (set.startIn cwd)

end FileSet

end Bracescript
