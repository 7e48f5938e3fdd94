import Bracescript.Shell

/-!
# Interactive sessions

Each entry is compiled and its module is shown. An entry goes on over further lines as long as it ends inside an open
bracket or string.
-/

namespace Bracescript

namespace Dialogue

/-! ## Lines of input -/

/-- The greatest length of a line that is read at once. -/
def lineSize : Nat := 4096

/-- A line without its end. -/
structure Line where
  text : Bytes
  /-- Whether the line was too long and goes on in the next one. -/
  isCut : Bool := false
  deriving DecidableEq, Inhabited

/-- The first line of a text that is not empty, and the text after it. A carriage return in front of the line feed
belongs to the end of the line, and no line is cut between the two. -/
def firstLine (text : Bytes) : Line × Bytes :=
  let front := text.take lineSize
  let line := front.takeWhile (· ≠ 0x0a)
  if line.length < front.length then (⟨Bytes.dropTail line "\r", false⟩, text.drop (line.length + 1))
  else if front.length < lineSize then (⟨front, false⟩, [])
  else if front.getLast? = some 0x0d then (⟨front.dropLast, true⟩, text.drop (lineSize - 1))
  else (⟨front, true⟩, text.drop lineSize)

theorem length_firstLine (text : Bytes) (h : text ≠ []) : (firstLine text).2.length < text.length := by
  have pos : 0 < text.length := List.length_pos_iff.mpr h
  have short (n : Nat) (hn : 0 < n) : (text.drop n).length < text.length := by
    rw [List.length_drop]; omega
  have none : ([] : Bytes).length < text.length := pos
  unfold firstLine lineSize
  grind

/-- All lines of a text. -/
def lines (text : Bytes) : List Line :=
  if _h : text = [] then [] else (firstLine text).1 :: lines (firstLine text).2
termination_by text.length
decreasing_by exact length_firstLine text _h

/-! ## History -/

/-- The most entries that are remembered. -/
def historyLimit : Nat := 1000

/-- Forgets the oldest entry if there are too many. -/
def forget (history : List Bytes) : List Bytes := if historyLimit < history.length then history.tail else history

/-- Remembers an entry in one line unless it repeats the one before. -/
def remember (history : List Bytes) (entry : Bytes) : List Bytes :=
  let item := Bytes.replace 0x0a " " entry
  if history.getLast? = some item then history else forget (history ++ [item])

/-- Reads a history up to the first line that is too long or no text. -/
def readHistory (text : Bytes) : List Bytes :=
  let isRead (line : Line) : Bool := !line.isCut && (Text.toString? line.text).isSome
  ((lines text).takeWhile isRead).foldl (fun history line => forget (history ++ [line.text])) []

def writeHistory (history : List Bytes) : Bytes := history.flatMap (· ++ "\n")

/-- Where the history is kept, if anywhere. A cache directory that is set has to be an absolute path for that. -/
def historyPath? (w : Surroundings) : Option Bytes :=
  if !w.cacheHome.isEmpty && !Path.isAbsolute w.cacheHome then none
  else (Shell.cacheHome? w).map fun home => Path.join [home, Command.program, "history"]

/-! ## Entries -/

/-- Whether nothing is wrong with an entry but a bracket or a string left open. -/
def isIncomplete (bag : Bag) : Bool :=
  let unclosed : List Code := [.unclosedParen, .unclosedBracket, .unclosedBrace, .unterminatedString]
  bag.hasErrors && bag.toList.all fun d => d.severity.rank < Severity.error.rank || unclosed.contains d.code

end Dialogue

/-- A session. -/
structure Dialogue where
  options : CommonOptions
  emit : EmitOptions
  /-- Whether whole modules are shown. -/
  full : Bool := false
  /-- The lines of an entry that is not complete. -/
  pending : Bytes := []
  history : List Bytes := []

namespace Dialogue

open Shell

def help : Bytes :=
  ":help  show this message\n:full  toggle printing the whole module (prelude and epilogue)\n"
    ++ ":quit  leave the session (also ctrl-d)\n"

def prompt (s : Dialogue) : Bytes := if s.pending.isEmpty then ">>> " else "... "

/-- Compiles an entry. -/
def compile (s : Dialogue) (timings : Bool) (entry : Bytes) : Action CompileResult :=
  traced fun d t =>
    let o : CompileOptions := { emit := s.emit, limit := s.options.limit, timings }
    let (r, t) := compileText o t 0 "<repl>" entry
    (r, d, t)

/-- Says what stopped an entry. -/
def complain (s : Dialogue) (message : Bytes) : Action Unit :=
  warn (Text.paint s.options.color [.red] "error:" ++ " " ++ message ++ "\n")

/-- Compiles an entry and shows what came of it. -/
def evaluate (s : Dialogue) (entry : Bytes) : Action Unit := do
  let r ← s.compile s.options.timings entry
  report s.options r.set r.bag
  match r.fault, r.run.program with
  | some f, _ => s.complain f.message
  | none, program =>
    if r.bag.hasErrors then return
    let shown : Except Unsupported Bytes := match s.full, program with
      | false, some p => p.emitBody
      | _, _ => .ok r.run.output
    match shown with
    | .error u => s.complain u.message
    | .ok text => say (if Bytes.endsWith text "\n" then text else text ++ "\n")

/-- Does what a command of the session asks for; `none` ends the session. -/
def command (s : Dialogue) (name : Bytes) : Action (Option Dialogue) := do
  if name = ":quit" || name = ":q" then return none
  else if name = ":help" then
    say help
    return some s
  else if name = ":full" then
    let full := !s.full
    say ("full module output: " ++ (if full then "true" else "false") ++ "\n")
    return some { s with full }
  else
    say "unknown command. Type :help for the list.\n"
    return some s

/-- Takes one line, and tells whether the session goes on. -/
def hear (s : Dialogue) (line : Bytes) : Action (Dialogue × Bool) := do
  let entry := if s.pending.isEmpty then line else s.pending ++ "\n" ++ line
  let trimmed := Text.trim entry
  let fresh := { s with pending := [] }
  if trimmed.head? = some (Bytes.ascii ':') then
    match ← fresh.command (Text.lower trimmed) with
    | none => return (fresh, false)
    | some s => return (s, true)
  else
    let r ← s.compile false entry
    if r.fault.isNone && isIncomplete r.bag then return ({ s with pending := entry }, true)
    else if trimmed.isEmpty then return (fresh, true)
    else
      fresh.evaluate entry
      return ({ fresh with history := remember s.history entry }, true)

/-- Takes lines until they or the session end. -/
def converse (s : Dialogue) : List Line → Action Dialogue
  | [] => do
    say (s.prompt ++ "\n")
    return s
  | line :: more => do
    say s.prompt
    let (s, goesOn) ← s.hear line.text
    if goesOn then s.converse more else return s

/-- Keeps the history of a session; a history that cannot be written is lost. -/
def save (s : Dialogue) (w : Surroundings) : Action Unit :=
  match historyPath? w with
  | none => pure ()
  | some path => modify fun shell =>
    { shell with disk := (shell.disk.writeDeep path (writeHistory s.history)).toOption.getD shell.disk }

end Dialogue

open Shell in
/-- Runs a session on the input. -/
def Shell.converse (w : Surroundings) (a : Arguments) : Action Unit := do
  let options ← orStop id (CommonOptions.read a)
  let emit ← orStop id (emitOptions a none)
  say ("Unsure " ++ Release.current.colored a.color ++ "\n")
  let d := (← get).disk
  let history := ((Dialogue.historyPath? w).bind fun path => (d.read path).toOption).getD []
  let s : Dialogue := { options, emit, history := Dialogue.readHistory history }
  let s ← s.converse (Dialogue.lines w.input)
  s.save w

end Bracescript
