import Bracescript.Flag

/-!
# Commands

The commands of the program, the flags of each, and which command a line of arguments asks for.
-/

namespace Bracescript

inductive Command where
  /-- No command word: a snippet, a path or an interactive session. -/
  | plain
  | tokenize
  | parse
  | compile
  | build
  | watch
  | repl
  | init
  | version
  | help
  deriving DecidableEq, Repr, Inhabited

/-- How many arguments a command takes besides flags. -/
inductive Arity where
  | none
  | atMost (n : Nat)
  | exactly (n : Nat)
  | any
  deriving DecidableEq, Repr

namespace Command

def program : Bytes := "unsure"

/-- The commands that have a word, with it. -/
def named : List (Bytes × Command) :=
  [("tokenize", tokenize), ("parse", parse), ("compile", compile), ("build", build), ("watch", watch), ("repl", repl),
    ("init", init), ("version", version), ("help", help)]

def name (c : Command) : Bytes := ((named.find? (·.2 = c)).map (·.1)).getD []

/-- The command as it is typed. -/
def path (c : Command) : Bytes := if c = plain then program else program ++ " " ++ c.name

def arity : Command → Arity
  | plain | build | watch | init => .atMost 1
  | tokenize | parse | compile => .exactly 1
  | repl | version => .none
  | help => .any

/-! ## Flags -/

/-- The flags that every command has. -/
def commonFlags : List Flag :=
  [⟨"color", .text, none⟩, ⟨"quiet", .switch, none⟩, ⟨"timings", .switch, none⟩, ⟨"max-diagnostics", .number, none⟩,
    ⟨"diagnostics", .text, none⟩, ⟨"path-mode", .text, none⟩, ⟨"trace", .text, none⟩, ⟨"trace-level", .text, none⟩,
    ⟨"trace-format", .text, none⟩, ⟨"cpu-profile", .text, none⟩, ⟨"mem-profile", .text, none⟩,
    ⟨"runtime-trace", .text, none⟩]

/-- The flags that say what modules look like. -/
def emitFlags : List Flag := [⟨"runtime", .text, none⟩, ⟨"module", .text, none⟩, ⟨"debug", .switch, none⟩]

def cacheFlags : List Flag := [⟨"no-cache", .switch, none⟩, ⟨"clear-cache", .switch, none⟩]

def outFlag : Flag := ⟨"out", .text, some (Bytes.ascii 'o')⟩

def jobsFlag : Flag := ⟨"jobs", .number, none⟩

def formatFlag : Flag := ⟨"format", .text, none⟩

def progressFlag : Flag := ⟨"ui", .text, none⟩

def compileFlags : List Flag := [outFlag, progressFlag, jobsFlag] ++ emitFlags ++ cacheFlags

/-- The flags of a command of its own. -/
def ownFlags : Command → List Flag
  | plain => ⟨"code", .text, some (Bytes.ascii 'c')⟩ :: compileFlags
  | tokenize => [formatFlag, ⟨"all", .switch, none⟩, jobsFlag]
  | parse => [formatFlag, jobsFlag]
  | compile => compileFlags
  | build => [progressFlag, jobsFlag] ++ emitFlags ++ cacheFlags
  | watch => [outFlag, jobsFlag, ⟨"debounce", .duration, none⟩] ++ emitFlags ++ cacheFlags
  | repl => emitFlags
  | version => [formatFlag]
  | init | help => []

/-- The flags by which a command word is told from the value of a flag. -/
def flags (c : Command) : List Flag := c.ownFlags ++ commonFlags

/-- All flags of a command, with those that only ask about it. -/
def allFlags (c : Command) : List Flag :=
  let help : Flag := ⟨"help", .switch, some (Bytes.ascii 'h')⟩
  let version : Flag := ⟨"version", .switch, some (Bytes.ascii 'v')⟩
  c.flags ++ help :: if c = plain then [version] else []

/-! ## Finding the command -/

def isDashed (arg : Bytes) : Bool := arg.head? = some (Bytes.ascii '-')

/-- Whether an argument is a flag whose value is the next argument. An unknown flag is taken to need one. -/
def takesNext (flags : List Flag) (arg : Bytes) : Bool :=
  !arg.contains (Bytes.ascii '=') &&
    match arg with
    | 0x2d :: 0x2d :: name => (Flag.named? flags name).map Flag.kind ≠ some .switch
    | [0x2d, letter] => (Flag.lettered? flags letter).map Flag.kind ≠ some .switch
    | _ => false

/-- The first argument that is no flag and no value of one. -/
def firstWord? (flags : List Flag) : List Bytes → Option Bytes
  | [] => none
  | arg :: rest =>
    if arg = "--" then none
    else if takesNext flags arg then
      match rest with
      | _ :: b :: more => firstWord? flags (b :: more)
      | _ => none
    else if arg = [] || isDashed arg then firstWord? flags rest
    else some arg

/-- The arguments without the first word, if it is `word`. -/
def withoutWord (flags : List Flag) (word : Bytes) : List Bytes → List Bytes
  | [] => []
  | arg :: rest =>
    if arg = "--" then arg :: rest
    else if takesNext flags arg then
      match rest with
      | value :: more => arg :: value :: withoutWord flags word more
      | [] => [arg]
    else if !isDashed arg && arg = word then rest
    else arg :: withoutWord flags word rest

/-- The command that arguments ask for, and what they leave for it. -/
def find (args : List Bytes) : Command × List Bytes :=
  match firstWord? plain.flags args with
  | none => (plain, args)
  | some word =>
    match named.lookup word with
    | none => (plain, args)
    | some c => (c, withoutWord plain.flags word args)

/-! ## Reading the arguments -/

/-- Why a command is not started. -/
inductive Fault where
  | flag (f : FlagFault)
  | unexpected (c : Command) (word : Bytes)
  | tooMany (most given : Nat)
  | notExactly (wanted given : Nat)
  deriving DecidableEq, Repr

def Fault.message : Fault → Bytes
  | flag f => f.message
  | unexpected c word => "unknown command " ++ Text.quoted word ++ " for " ++ Text.quoted c.path
  | tooMany most given => "accepts at most " ++ Bytes.ofNat most ++ " arg(s), received " ++ Bytes.ofNat given
  | notExactly wanted given => "accepts " ++ Bytes.ofNat wanted ++ " arg(s), received " ++ Bytes.ofNat given

/-- Whether a command takes these arguments. -/
def checkArity (c : Command) (rest : List Bytes) : Except Fault Unit :=
  match c.arity, rest with
  | .none, word :: _ => .error (.unexpected c word)
  | .atMost n, rest => if n < rest.length then .error (.tooMany n rest.length) else .ok ()
  | .exactly n, rest => if rest.length = n then .ok () else .error (.notExactly n rest.length)
  | _, _ => .ok ()

/-- What a line of arguments asks for. -/
inductive Request where
  | run (c : Command) (a : Arguments)
  | showHelp
  | showVersion

/-- Reads a line of arguments. Questions about the program go before the number of arguments. -/
def request (args : List Bytes) : Except Fault Request :=
  let (c, args) := find args
  match Arguments.read c.allFlags args {} with
  | .error f => .error (.flag f)
  | .ok a =>
    if a.switch "help" false || c = help then .ok .showHelp
    else if a.switch "version" false then .ok .showVersion
    else (c.checkArity a.rest).map fun _ => .run c a

end Command

end Bracescript
