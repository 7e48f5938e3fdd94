import Bracescript.Diagnostic
import Bracescript.FileSet

/-!
# Short reports

One line per diagnostic, ordered by path and position.
-/

namespace Bracescript

/-- A line of a short report with what belongs to it. -/
structure ShortLine where
  path : Bytes
  pos : LineCol
  severity : Bytes
  code : Bytes
  message : Bytes
  notes : List Bytes

namespace ShortLine

/-- The line of a diagnostic; a place in an unknown file has no position. -/
def ofDiagnostic (cwd : Bytes) (set : FileSet) (notes : Bool) (d : Diagnostic) : ShortLine :=
  let (path, pos) : Bytes × LineCol := match set.get? d.span.file with
    | none => ("<unknown>", .none)
    | some f => (f.displayPath cwd .relative (set.startIn cwd), f.position d.span.start)
  { path, pos, severity := d.severity.name, code := d.code.id, message := d.message
    notes := if notes then d.notes.map Note.message else [] }

/-- By path, line, column and code. -/
def le (a b : ShortLine) : Bool :=
  if a.path ≠ b.path then Bytes.le a.path b.path
  else if a.pos.line ≠ b.pos.line then a.pos.line < b.pos.line
  else if a.pos.col ≠ b.pos.col then a.pos.col < b.pos.col
  else Bytes.le a.code b.code

def noteLine (note : Bytes) : Bytes := "  note: " ++ note ++ "\n"

def render (l : ShortLine) : Bytes :=
  l.path ++ ":" ++ l.pos.render ++ ": " ++ l.severity ++ " " ++ l.code ++ ": " ++ l.message ++ "\n"
    ++ l.notes.flatMap noteLine

end ShortLine

/-- The short report on some diagnostics, with or without their notes. -/
def shortReport (cwd : Bytes) (set : FileSet) (notes : Bool) (ds : List Diagnostic) : Bytes :=
  ((ds.map (ShortLine.ofDiagnostic cwd set notes)).mergeSort ShortLine.le).flatMap ShortLine.render

end Bracescript
