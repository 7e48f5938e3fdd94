import Bracescript.Build.Progress
import Bracescript.Text.Fixed
import Bracescript.Text.Width

/-!
# The view of a build

A screen that shows every file with its status, and a bar.
-/

namespace Bracescript

open Text

/-- What is said of a file, or of the whole build. -/
inductive Label where
  | queued
  | lexing
  | parsing
  | generating
  | writing
  | cached
  | done
  | error
  deriving DecidableEq, Repr, Inhabited

namespace Label

def text : Label → Bytes
  | queued => "queued"
  | lexing => "lexing"
  | parsing => "parsing"
  | generating => "generating"
  | writing => "writing"
  | cached => "cached"
  | done => "done"
  | error => "error"

end Label

/-- What is said while a stage is worked on. -/
def Stage.label? : Stage → Option Label
  | lex => some .lexing
  | parse => some .parsing
  | codegen => some .generating
  | write => some .writing
  | other _ => Option.none

def Progress.label? (p : Progress) : Option Label :=
  match p.status with
  | .queued => some .queued
  | .done => some .done
  | .error => some .error
  | .cached => some .cached
  | .working => p.stage.label?
  | .other _ => none

/-- A file on the screen. -/
structure ViewItem where
  path : Bytes
  label : Label := .queued
  stage : Stage := .none
  deriving DecidableEq, Inhabited

namespace ViewItem

/-- The part of the work on the file that is behind. -/
def share (i : ViewItem) : Float :=
  match i.label with
  | .done | .error => 1.0
  | .cached => 0.9
  | _ =>
    match i.stage with
    | .lex => 0.1
    | .parse => 0.3
    | .codegen => 0.6
    | .write => 0.9
    | .other _ => 0.0

/-- A file that failed stays so. -/
def update (i : ViewItem) (label : Label) (stage : Stage) : ViewItem :=
  if i.label = .error then i else { i with label, stage }

end ViewItem

structure BuildView where
  title : Bytes
  items : List ViewItem
  /-- What is said of the whole build. -/
  label : Option Label := none
  width : Int := 80
  barWidth : Int := 76
  /-- How often the spinner turned. -/
  turns : Nat := 0
  done : Bool := false
  failed : Bool := false
  deriving Inhabited

namespace BuildView

def new (title : Bytes) (files : List Bytes) : BuildView := { title, items := files.map fun path => { path } }

/-- What the view is told. -/
inductive Message where
  | progress (p : Progress)
  | done
  | resize (width : Int)
  | tick
  | other

/-- Changes the first item of a path. -/
def updateFirst (path : Bytes) (f : ViewItem → ViewItem) : List ViewItem → List ViewItem
  | [] => []
  | i :: more => if i.path = path then f i :: more else i :: updateFirst path f more

/-- Takes progress in; of files with one name the last is meant. -/
def apply (v : BuildView) (p : Progress) : BuildView :=
  if p.file.isEmpty then
    { v with failed := v.failed || p.status = .error, label := p.label? <|> v.label }
  else
    match p.label? with
    | none => v
    | some label => { v with items := (updateFirst p.file (·.update label p.stage) v.items.reverse).reverse }

def update (v : BuildView) : Message → BuildView
  | .progress p => v.apply p
  | .done => { v with done := true }
  | .resize width => if 0 < width then { v with width, barWidth := width - 4 } else v
  | .tick => if v.done then v else { v with turns := v.turns + 1 }
  | .other => v

/-- The part of the work that is behind. -/
def percent (v : BuildView) : Float :=
  if v.items.isEmpty then 0.0
  else (v.items.foldl (fun total i => total + i.share) 0.0) / Float.ofNat v.items.length

def spinner : List Bytes := ["⣾ ", "⣽ ", "⣻ ", "⢿ ", "⡿ ", "⣟ ", "⣯ ", "⣷ "]

/-- The text with plain line ends and four blanks for a tab. -/
def untabbed : Bytes → Bytes
  | 0x0d :: 0x0a :: rest => 0x0a :: untabbed rest
  | 0x09 :: rest => ("    " : Bytes) ++ untabbed rest
  | b :: rest => b :: untabbed rest
  | [] => []

/-- The lines of a text made equally wide. -/
def block (text : Bytes) : Bytes :=
  let lines := (untabbed text).split 0x0a
  let widest := (lines.map Text.width).foldl max 0
  Bytes.join "\n" (lines.map fun line => line ++ Bytes.repeated (widest - Text.width line) 0x20)

def header (v : BuildView) : Bytes :=
  let title : Bytes := match v.label with
    | none => v.title
    | some label => v.title ++ " (" ++ label.text ++ ")"
  let front : Bytes :=
    if v.done then (if v.failed then "failed: " else "done: ")
    else spinner.getD (v.turns % spinner.length) [] ++ " "
  block (front ++ title)

/-- A name cut to a number of cells. -/
def shorten (name : Bytes) (cells : Int) : Bytes :=
  if cells ≤ 0 || (Text.width name : Int) ≤ cells then name
  else if cells ≤ 3 then truncate name cells []
  else truncate name (cells - 3) "..."

def itemLine (cells : Int) (i : ViewItem) : Bytes :=
  "  " ++ padFront 12 i.label.text ++ " " ++ shorten i.path cells ++ "\n"

/-- The bar is empty until all is done. -/
def bar (v : BuildView) : Bytes :=
  let cells := (v.barWidth - 5).toNat
  let cell : Bytes := if v.done then "█" else "░"
  let percent : Bytes := if v.done then " 100%" else "   0%"
  (List.replicate cells cell).flatten ++ percent

def render (v : BuildView) : Bytes :=
  if v.items.isEmpty then []
  else v.header ++ "\n\n" ++ v.items.flatMap (itemLine (max (v.width - 16) 20)) ++ "\n" ++ v.bar ++ "\n"

end BuildView

end Bracescript
