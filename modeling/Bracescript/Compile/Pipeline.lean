import Bracescript.Compile.Stage
import Bracescript.Diagnostic.Bag
import Bracescript.Parse
import Bracescript.Target.Emit

/-!
# The pipeline

One file from its text to a module: tokens, program, emitted text.
-/

namespace Bracescript

/-- What became of a file. -/
structure Compilation where
  program : Option Program := none
  /-- The emitted module; empty unless all went well. -/
  output : Bytes := []
  bag : Bag
  /-- The passes in their order. -/
  phases : List Phase := []
  /-- A failure that is not the program's own fault. -/
  fault : Option Fault := none

namespace SourceFile

/-- The program of a file, with the passes up to it. -/
def parsePhases (f : SourceFile) (bag : Bag) : Compilation :=
  match f.tokenize with
  | .error e => { bag := bag.insert e.diagnostic, phases := [.failed .lex (.malformed e)] }
  | .ok tokens =>
    let lexed := Phase.passed .lex (Bytes.ofNat tokens.length ++ " tokens")
    match f.parseTokens tokens with
    | .error (.malformed e) =>
      { bag := bag.insert e.diagnostic, phases := [lexed, .failed .parse (.malformed e)] }
    | .error fault => { bag, phases := [lexed, .failed .parse fault], fault := some fault }
    | .ok program =>
      let parsed := Phase.passed .parse (Bytes.ofNat program.statements.length ++ " statements")
      { program := some program, bag, phases := [lexed, parsed] }

/-- The whole pipeline. -/
def compile (f : SourceFile) (o : EmitOptions) (bag : Bag) : Compilation :=
  let c := f.parsePhases bag
  match c.program with
  | none => c
  | some program =>
    match program.emit o with
    | .error u =>
      let fault := Fault.unsupported u
      { c with bag := c.bag.report fault .unsupportedNode, phases := c.phases ++ [.failed .codegen fault], fault := some fault }
    | .ok output =>
      { c with output, phases := c.phases ++ [.passed .codegen (Bytes.ofNat output.length ++ " bytes")] }

end SourceFile

/-- A run that was called off before it began. -/
def cancelled : Fault := .other "context canceled"

/-! ## Timings -/

namespace Phase

open Json in
/-- A measured pass. Clocks are outside of the model, so it took no time. -/
def timing (p : Phase) : Json :=
  let measured : List (Bytes × Json) := [("name", text p.stage.name), ("duration_ms", int 0)]
  let note : List (Bytes × Json) := if p.note.isEmpty then [] else [("note", text p.note)]
  object (measured ++ note)

open Json in
/-- The finding that carries the times of all passes over the file at `path`. -/
def timingDiagnostic (path : Bytes) (phases : List Phase) : Diagnostic :=
  let about : Bytes := if path.isEmpty then [] else ": " ++ path
  let place : List (Bytes × Json) := if path.isEmpty then [] else [("path", text path)]
  let kind : List (Bytes × Json) := [("kind", text "compile")]
  let times : List (Bytes × Json) :=
    [("total_ms", int 0), ("phases", if phases.isEmpty then null else list (phases.map timing))]
  { severity := .info, code := .timings, message := "timings (compile): total 0.00 ms" ++ about, span := .none
    notes := [⟨.none, (object (kind ++ place ++ times)).compact true⟩] }

end Phase

/-- Puts a finding in even if the bag is full. -/
def Bag.force (b : Bag) (d : Diagnostic) : Bag :=
  match b.add d with
  | (true, b) => b
  | (false, b) => b.merge ((Bag.new 1).insert d)

end Bracescript
