import Bracescript.Flag.Integer
import Bracescript.Flag.Duration

/-!
# Flags of a command line

A flag has a name, perhaps a letter, and a kind of value. Arguments that are neither flags nor their values are kept in
order.
-/

namespace Bracescript

/-- The kind of value that a flag takes. A switch can stand without one. -/
inductive FlagKind where
  | text
  | switch
  | number
  | duration
  deriving DecidableEq, Repr

structure Flag where
  name : Bytes
  kind : FlagKind := .text
  letter : Option UInt8 := none
  deriving DecidableEq, Repr

/-- The value that a flag was given. -/
inductive Setting where
  | text (value : Bytes)
  | switch (value : Bool)
  | number (value : Int)
  deriving DecidableEq, Repr

/-- Why a flag does not take a value. -/
inductive SettingFault where
  | notSwitch
  | notInteger (f : Flag.IntegerFault)
  | notDuration (f : Flag.DurationFault)
  deriving DecidableEq, Repr

def SettingFault.message (value : Bytes) : SettingFault → Bytes
  | notSwitch => "strconv.ParseBool: parsing " ++ Text.quoted value ++ ": invalid syntax"
  | notInteger f => f.message value
  | notDuration f => f.message value

/-- Why arguments are refused. -/
inductive FlagFault where
  | malformed (arg : Bytes)
  | unknown (name : Bytes)
  | unknownLetter (letter : UInt8) (letters : Bytes)
  | needsValue (name : Bytes)
  | letterNeedsValue (letter : UInt8) (letters : Bytes)
  | badValue (flag : Flag) (value : Bytes) (f : SettingFault)
  deriving DecidableEq, Repr

namespace FlagFault

/-- A letter as messages show it; one beyond ASCII stands for the first byte of its encoding. -/
def showLetter (b : UInt8) : Bytes :=
  Text.quotedChar (if b < 0x80 then Char.ofNat b.toNat else if b < 0xc0 then Char.ofNat 0xc2 else Char.ofNat 0xc3)

def showFlag (f : Flag) : Bytes :=
  match f.letter with
  | some b => "-" ++ [b] ++ ", --" ++ f.name
  | none => "--" ++ f.name

def message : FlagFault → Bytes
  | malformed arg => "bad flag syntax: " ++ arg
  | unknown name => "unknown flag: --" ++ name
  | unknownLetter letter letters => "unknown shorthand flag: " ++ showLetter letter ++ " in -" ++ letters
  | needsValue name => "flag needs an argument: --" ++ name
  | letterNeedsValue letter letters => "flag needs an argument: " ++ showLetter letter ++ " in -" ++ letters
  | badValue flag value f =>
    "invalid argument " ++ Text.quoted value ++ " for " ++ Text.quoted (showFlag flag) ++ " flag: " ++ f.message value

end FlagFault

namespace Flag

def named? (flags : List Flag) (name : Bytes) : Option Flag := flags.find? (·.name = name)

def lettered? (flags : List Flag) (letter : UInt8) : Option Flag := flags.find? (·.letter = some letter)

/-- The value of a switch. -/
def switch? (text : Bytes) : Option Bool :=
  let on : List Bytes := ["1", "t", "T", "true", "TRUE", "True"]
  let off : List Bytes := ["0", "f", "F", "false", "FALSE", "False"]
  if on.contains text then some true else if off.contains text then some false else none

/-- Reads the value of a flag. -/
def read (f : Flag) (value : Bytes) : Except FlagFault Setting :=
  match f.kind with
  | .text => .ok (.text value)
  | .switch =>
    match switch? value with
    | some b => .ok (.switch b)
    | none => .error (.badValue f value .notSwitch)
  | .number =>
    match integer value with
    | .ok n => .ok (.number n)
    | .error e => .error (.badValue f value (.notInteger e))
  | .duration =>
    match duration value with
    | .ok n => .ok (.number n)
    | .error e => .error (.badValue f value (.notDuration e))

end Flag

/-- Arguments after their flags were read. -/
structure Arguments where
  /-- What flags were given, the last one first. -/
  settings : List (Bytes × Setting) := []
  rest : List Bytes := []
  deriving Inhabited

namespace Arguments

def has (a : Arguments) (name : Bytes) : Bool := (a.settings.lookup name).isSome

def text (a : Arguments) (name fallback : Bytes) : Bytes :=
  match a.settings.lookup name with
  | some (.text value) => value
  | _ => fallback

def switch (a : Arguments) (name : Bytes) (fallback : Bool) : Bool :=
  match a.settings.lookup name with
  | some (.switch value) => value
  | _ => fallback

def number (a : Arguments) (name : Bytes) (fallback : Int) : Int :=
  match a.settings.lookup name with
  | some (.number value) => value
  | _ => fallback

/-- Gives a flag its value. -/
def give (a : Arguments) (f : Flag) (value : Bytes) : Except FlagFault Arguments :=
  (f.read value).map fun s => { a with settings := (f.name, s) :: a.settings }

/-- Gives a flag the value that follows it, if it needs one; the answer tells whether the next argument was taken. -/
def giveNext (a : Arguments) (f : Flag) (next : Option Bytes) (none? : FlagFault) : Except FlagFault (Bool × Arguments) :=
  if f.kind = .switch then (a.give f "true").map (false, ·)
  else
    match next with
    | some value => (a.give f value).map (true, ·)
    | none => .error none?

/-- Reads `--name`, `--name=value` or `--name value` without its dashes. -/
def readLong (flags : List Flag) (next : Option Bytes) (body : Bytes) (a : Arguments) :
    Except FlagFault (Bool × Arguments) :=
  if body.head? = some (Bytes.ascii '-') || body.head? = some (Bytes.ascii '=') then .error (.malformed ("--" ++ body))
  else
    let (name, value?) : Bytes × Option Bytes := match body.cut (Bytes.ascii '=') with
      | some (name, value) => (name, some value)
      | none => (body, none)
    match Flag.named? flags name, value? with
    | none, _ => .error (.unknown name)
    | some f, some value => (a.give f value).map (false, ·)
    | some f, none => a.giveNext f next (.needsValue name)

/-- Reads a row of letters without its dash. A letter that needs a value takes the rest of the row as one. -/
def readLetters (flags : List Flag) (next : Option Bytes) : Bytes → Arguments → Except FlagFault (Bool × Arguments)
  | [], a => .ok (false, a)
  | letter :: rest, a =>
    if Bytes.startsWith (letter :: rest) "test." then .ok (false, a)
    else
      match Flag.lettered? flags letter, rest with
      | none, _ => .error (.unknownLetter letter (letter :: rest))
      | some f, 0x3d :: b :: value => (a.give f (b :: value)).map (false, ·)
      | some f, rest =>
        if f.kind = .switch then
          match a.give f "true" with
          | .error e => .error e
          | .ok a => readLetters flags next rest a
        else if rest.isEmpty then a.giveNext f next (.letterNeedsValue letter [letter])
        else (a.give f rest).map (false, ·)

/-- Reads one argument that is not known to be a value. -/
def readOne (flags : List Flag) (next : Option Bytes) (arg : Bytes) (a : Arguments) : Except FlagFault (Bool × Arguments) :=
  match arg with
  | 0x2d :: 0x2d :: body => readLong flags next body a
  | 0x2d :: b :: letters => readLetters flags next (b :: letters) a
  | _ => .ok (false, { a with rest := a.rest ++ [arg] })

/-- Reads all arguments. Two dashes alone end the flags. -/
def read (flags : List Flag) : List Bytes → Arguments → Except FlagFault Arguments
  | [], a => .ok a
  | arg :: more, a =>
    if arg = "--" then .ok { a with rest := a.rest ++ more }
    else
      match readOne flags more.head? arg a with
      | .error f => .error f
      | .ok (tookNext, a) => read flags (if tookNext then more.tail else more) a
termination_by args => args.length
decreasing_by
  split <;> simp only [List.length_tail, List.length_cons] <;> omega

end Arguments

end Bracescript
