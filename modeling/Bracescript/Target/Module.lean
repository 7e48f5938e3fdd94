import Bracescript.Target.Runtime
import Bracescript.Text.Quoted
import Bracescript.Text.Trim

/-!
# Modules

What stands around the statements of an emitted module.
-/

namespace Bracescript

inductive ModuleFormat where
  | esm
  | cjs
  /-- A format without a name, which binds like `esm`. -/
  | other (number : UInt8)
  deriving DecidableEq, Repr, Inhabited

namespace ModuleFormat

def ofNumber (n : UInt8) : ModuleFormat := if n = 0 then esm else if n = 1 then cjs else other n

def name : ModuleFormat → Bytes
  | esm => "esm"
  | cjs => "cjs"
  | other n => "ModuleFormat(" ++ Bytes.ofNat n.toNat ++ ")"

/-- The format of a name, in any letter case and with blanks around it. -/
def parse (s : Bytes) : Except Bytes ModuleFormat :=
  let word := Text.lower (Text.trim s)
  if word = "" || word = "esm" then .ok esm
  else if word = "cjs" || word = "commonjs" then .ok cjs
  else .error ("unknown module format " ++ Text.quoted s ++ " (want esm or cjs)")

end ModuleFormat

/-- How an emitted module is bound to the runtime library. -/
structure EmitOptions where
  /-- The module specifier of the library. -/
  runtime : Bytes := "unsure/runtime"
  format : ModuleFormat := .esm
  /-- Whether the debug slot is declared and printed. -/
  debug : Bool := true
  deriving DecidableEq, Inhabited

namespace EmitOptions

def defaultRuntime : Bytes := "unsure/runtime"

/-- Binds the names of the library. -/
def prelude (o : EmitOptions) : Bytes :=
  let source := Target.quote (if o.runtime = [] then defaultRuntime else o.runtime)
  let names := Bytes.join "," Target.exports
  let binding : Bytes := match o.format with
    | .cjs => "const \x7b" ++ names ++ "\x7d=require(" ++ source ++ ");"
    | _ => "import \x7b" ++ names ++ "\x7d from " ++ source ++ ";"
  binding ++ if o.debug then "let " ++ Target.debugSlot ++ "=undefined;" else []

/-- Prints the debug slot if the program has set it. -/
def epilogue (o : EmitOptions) : Bytes :=
  if o.debug then
    ";if(" ++ Target.debugSlot ++ "!==undefined)\x7bconsole.log(" ++ Target.debugSlot ++ ");\x7d;"
  else []

end EmitOptions

end Bracescript
