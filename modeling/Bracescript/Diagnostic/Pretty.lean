import Bracescript.Diagnostic.Bag
import Bracescript.FileSet
import Bracescript.Text.Paint
import Bracescript.Text.Width

/-!
# Pretty reports

Diagnostics with the lines of source they speak of, and a marker under the place.
-/

namespace Bracescript

open Text

structure PrettyOptions where
  color : Bool := false
  /-- How many lines are shown before and after the place. -/
  context : Int := 1
  pathMode : PathMode := .auto
  notes : Bool := true

namespace Pretty

def ofSeverity : Severity → List Attribute
  | .error => [.red, .bold]
  | .warning => [.yellow, .bold]
  | _ => [.cyan, .bold]

def expandTabs (text : Bytes) : Bytes := Bytes.replace 0x09 "    " text

def displayWidth (text : Bytes) : Nat := width (expandTabs text)

/-- A number between two bounds. -/
def clamp (least most n : Nat) : Nat := min (max n least) most

/-- Cells before a marked part of a line and cells it takes; columns count bytes from 1. -/
def markerExtent (line : Bytes) (startCol stopCol : Nat) : Nat × Nat :=
  let startCol := clamp 1 (line.length + 1) startCol
  let stopCol := clamp startCol (line.length + 1) stopCol
  (displayWidth (line.take (startCol - 1)),
    max (displayWidth ((line.take (stopCol - 1)).drop (startCol - 1))) 1)

def marker (cells : Nat) : Bytes := "^" ++ Bytes.repeated (cells - 1) (Bytes.ascii '~')

/-- A number with blanks in front. -/
def padLeft (width : Nat) (digits : Bytes) : Bytes := Bytes.repeated (width - digits.length) 0x20 ++ digits

/-- The lines of a snippet from number `n` on, `count` of them; the line of `start` gets a marker. -/
def snippetLines (color : Bool) (f : SourceFile) (start stop : LineCol) (width : Nat) (bar : Bytes) :
    Nat → Nat → Bytes
  | _, 0 => []
  | n, count + 1 =>
    let line := f.line n.toUInt32
    let shown := paint color [.blue] (padLeft width (Bytes.ofNat n) ++ " |") ++ " " ++ expandTabs line ++ "\n"
    let mark : Bytes :=
      if n = start.line.toNat then
        let stopCol := if stop.line = start.line then stop.col.toNat else line.length + 1
        let (pad, cells) := markerExtent line start.col.toNat stopCol
        bar ++ " " ++ Bytes.repeated pad 0x20 ++ paint color [.green, .bold] (marker cells) ++ "\n"
      else []
    shown ++ mark ++ snippetLines color f start stop width bar (n + 1) count

/-- The source around a span. -/
def snippet (color : Bool) (set : FileSet) (s : Span) (context : Int) : Bytes :=
  match set.get? s.file with
  | none => []
  | some f =>
    if f.content.isEmpty then []
    else
      let (start, stop) := set.resolve s
      if start.line = 0 then []
      else
        let first := max ((start.line.toNat : Int) - context) 1
        let last := min ((start.line.toNat : Int) + context) (f.lineFeeds.length + 1)
        let width := (Bytes.ofInt last).length
        let bar := paint color [.blue] (Bytes.repeated width 0x20 ++ " |")
        bar ++ "\n" ++ snippetLines color f start stop width bar first.toNat (last + 1 - first).toNat

def header (o : PrettyOptions) (cwd : Bytes) (set : FileSet) (d : Diagnostic) : Bytes :=
  let (start, _) := set.resolve d.span
  let path := set.displayPath cwd d.span.file o.pathMode
  let place := if start.line = 0 then path else path ++ ":" ++ start.render
  paint o.color [.bold] place ++ ": " ++ paint o.color (ofSeverity d.severity) (d.severity.name ++ " " ++ d.code.id)
    ++ ": " ++ d.message ++ "\n"

/-- A note, with its place unless it has none. -/
def note (o : PrettyOptions) (cwd : Bytes) (set : FileSet) (n : Note) : Bytes :=
  let word := paint o.color [.blue] "note:"
  if n.span.isEmpty && n.span.start == 0 then "  " ++ word ++ " " ++ n.message ++ "\n"
  else
    let (start, _) := set.resolve n.span
    let place := set.displayPath cwd n.span.file o.pathMode ++ ":" ++ start.render
    "  " ++ word ++ " " ++ paint o.color [.bold] place ++ ": " ++ n.message ++ "\n" ++ snippet o.color set n.span 0

/-- One diagnostic. What is only information shows no source and always its notes. -/
def diagnostic (o : PrettyOptions) (cwd : Bytes) (set : FileSet) (d : Diagnostic) : Bytes :=
  header o cwd set d
    ++ (if d.severity = .info then [] else snippet o.color set d.span o.context)
    ++ (if o.notes || d.severity = .info then d.notes.flatMap (note o cwd set) else [])

end Pretty

/-- The pretty report on a bag, in its order. -/
def prettyReport (o : PrettyOptions) (cwd : Bytes) (set : FileSet) (b : Bag) : Bytes :=
  Bytes.join "\n" (b.toList.map (Pretty.diagnostic o cwd set))

end Bracescript
