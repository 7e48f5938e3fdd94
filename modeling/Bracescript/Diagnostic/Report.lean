import Bracescript.Diagnostic.Bag
import Bracescript.FileSet
import Bracescript.Text.Json

/-!
# Reports as JSON
-/

namespace Bracescript

structure ReportOptions where
  /-- Whether lines and columns are given besides offsets. -/
  positions : Bool := true
  pathMode : PathMode := .auto
  /-- The greatest number of diagnostics shown; none when not positive. -/
  limit : Int := 0
  notes : Bool := true

/-- The diagnostics that a report shows. -/
structure Report where
  shown : List Diagnostic

namespace Report

open Json

def ofBag (o : ReportOptions) (b : Bag) : Report :=
  ⟨if 0 < o.limit then b.toList.take o.limit.toNat else b.toList⟩

/-- A number that is left out when zero. -/
def unlessZero (name : Bytes) (n : UInt32) : List (Bytes × Json) := if n = 0 then [] else [(name, nat n.toNat)]

def location (o : ReportOptions) (cwd : Bytes) (set : FileSet) (s : Span) : Json :=
  let offsets : List (Bytes × Json) :=
    [("file", text (set.displayPath cwd s.file o.pathMode)), ("start_byte", nat s.start.toNat),
      ("end_byte", nat s.stop.toNat)]
  let (start, stop) := set.resolve s
  let positions :=
    unlessZero "start_line" start.line ++ unlessZero "start_col" start.col ++ unlessZero "end_line" stop.line
      ++ unlessZero "end_col" stop.col
  object (offsets ++ if o.positions then positions else [])

def note (o : ReportOptions) (cwd : Bytes) (set : FileSet) (n : Note) : Json :=
  object [("message", text n.message), ("location", location o cwd set n.span)]

/-- A diagnostic; the notes of timings are never left out. -/
def diagnostic (o : ReportOptions) (cwd : Bytes) (set : FileSet) (d : Diagnostic) : Json :=
  let fields : List (Bytes × Json) :=
    [("severity", text d.severity.name), ("code", text d.code.id), ("title", text d.code.title),
      ("message", text d.message), ("location", location o cwd set d.span)]
  let notes : List (Bytes × Json) :=
    if (o.notes || d.code == Code.timings) && !d.notes.isEmpty then
      [("notes", list (d.notes.map (note o cwd set)))]
    else []
  object (fields ++ notes)

def toJson (r : Report) (o : ReportOptions) (cwd : Bytes) (set : FileSet) : Json :=
  object [("diagnostics", list (r.shown.map (diagnostic o cwd set))), ("count", nat r.shown.length)]

end Report

/-- The JSON report on a bag. -/
def jsonReport (o : ReportOptions) (cwd : Bytes) (set : FileSet) (b : Bag) : Bytes :=
  Json.document true ((Report.ofBag o b).toJson o cwd set)

end Bracescript
