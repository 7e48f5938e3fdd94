import Bracescript.Span
import Bracescript.Path
import Bracescript.Sha256

/-!
# Source files

A version of a file with what is needed to speak about places in it.
-/

namespace Bracescript

/-- Marks of a file as a set of bits. -/
abbrev FileFlags := UInt8

namespace FileFlags

/-- The file is not on disk. -/
def inMemory : FileFlags := 1

/-- A byte order mark was taken off. -/
def hadMark : FileFlags := 2

/-- Line ends of two bytes were folded into one. -/
def foldedLines : FileFlags := 4

def has (flags bit : FileFlags) : Bool := flags &&& bit != 0

end FileFlags

/-- How the path of a file is shown. -/
inductive PathMode where
  | auto
  | absolute
  | relative
  | basename
  deriving DecidableEq, Repr, Inhabited

namespace PathMode

def number : PathMode → Nat
  | auto => 0
  | absolute => 1
  | relative => 2
  | basename => 3

def name : PathMode → Bytes
  | auto => "auto"
  | absolute => "absolute"
  | relative => "relative"
  | basename => "basename"

def all : List PathMode := [auto, absolute, relative, basename]

/-- The mode of a name or of its short form. -/
def ofName? (name : Bytes) : Option PathMode :=
  if name = "" || name = "auto" then some auto
  else if name = "absolute" || name = "abs" then some absolute
  else if name = "relative" || name = "rel" then some relative
  else if name = "basename" || name = "base" then some basename
  else none

end PathMode

structure SourceFile where
  id : UInt32
  path : Bytes
  content : Bytes
  flags : FileFlags
  deriving DecidableEq, Inhabited

namespace SourceFile

/-- The offsets of line feeds in a text that starts at offset `off`. -/
def lineFeedsFrom (off : UInt32) : Bytes → List UInt32
  | [] => []
  | b :: rest => if b = 0x0a then off :: lineFeedsFrom (off + 1) rest else lineFeedsFrom (off + 1) rest

/-- The offset of every line feed. -/
def lineFeeds (f : SourceFile) : List UInt32 := lineFeedsFrom 0 f.content

def size (f : SourceFile) : UInt32 := f.content.length.toUInt32

def hash (f : SourceFile) : Bytes := Sha256.digest f.content

/-- The line and column of an offset; a line feed belongs to the line it ends. -/
def position (f : SourceFile) (off : UInt32) : LineCol :=
  let before := f.lineFeeds.takeWhile (· < off)
  let lineStart := match before.getLast? with
    | none => 0
    | some feed => feed + 1
  ⟨before.length.toUInt32 + 1, off - lineStart + 1⟩

/-- The bytes from `start` up to `stop`, as far as there are any. -/
def slice (f : SourceFile) (start stop : Nat) : Bytes := (f.content.take stop).drop start

/-- The text of a span, as far as it lies in the file. -/
def text (f : SourceFile) (s : Span) : Bytes := f.slice s.start.toNat s.stop.toNat

/-- A line without its line feed; lines count from 1. -/
def line (f : SourceFile) (n : UInt32) : Bytes :=
  if n = 0 then []
  else
    let feeds := f.lineFeeds
    let stop := match feeds[n.toNat - 1]? with
      | some feed => feed.toNat
      | none => f.content.length
    if n = 1 then f.slice 0 stop
    else
      match feeds[n.toNat - 2]? with
      | none => []
      | some feed => f.slice (feed.toNat + 1) stop

/-- The path as shown to the user, who works in `cwd`; relative paths start from `start`. -/
def displayPath (cwd : Bytes) (f : SourceFile) (mode : PathMode) (start : Bytes) : Bytes :=
  if f.flags.has .inMemory then f.path
  else
    match mode with
    | .absolute => Path.absolute cwd f.path
    | .relative => (Path.relativeFrom? cwd (if start = [] then cwd else start) f.path).getD f.path
    | .basename => Path.base f.path
    | .auto => if f.path.length < 40 || !Path.isAbsolute f.path then f.path else Path.base f.path

end SourceFile

end Bracescript
