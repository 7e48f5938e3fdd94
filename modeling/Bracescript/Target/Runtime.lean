import Bracescript.Text.Json
import Bracescript.Tree.Kind

/-!
# The runtime library

The names that emitted code takes from the library it runs on.
-/

namespace Bracescript.Target

/-- The binding that holds all dispatch keys. -/
def symbols : Bytes := "s"

/-! ## Dispatch keys -/

def unaryKeys : List (String × String) :=
  [("+", "unary_plus"), ("-", "unary_minus"), ("++", "increment"), ("--", "decrement"), ("!", "not"),
    ("~", "boolean_not"), ("typeof", "typeof")]

def binaryKeys : List (String × String) :=
  [("&&", "boolean_and"), ("||", "boolean_or"), ("^^", "boolean_xor"), ("==", "eq"), ("!=", "ne"), ("<", "lt"),
    ("<=", "le"), (">", "gt"), (">=", "ge"), ("**", "exp"), ("+", "add"), ("-", "sub"), ("*", "mul"), ("/", "div"),
    ("%", "mod"), ("&", "and"), ("|", "or"), ("^", "xor"), ("extends", "extends_"), ("instanceof", "is_instance"),
    ("subclassof", "is_subclass")]

/-- The key of a symbol in a table. -/
def keyIn? (table : List (String × String)) (symbol : Bytes) : Option Bytes :=
  (table.find? fun (s, _) => Bytes.ofString s = symbol).map fun (_, key) => Bytes.ofString key

def unaryKey? (symbol : Bytes) : Option Bytes := keyIn? unaryKeys symbol

def binaryKey? (symbol : Bytes) : Option Bytes := keyIn? binaryKeys symbol

/-- The selector of a key: `[s.key]`. -/
def select (key : Bytes) : Bytes := "[" ++ symbols ++ "." ++ key ++ "]"

def call : Bytes := "call"

def getAttr : Bytes := "getattr"

def setAttr : Bytes := "setattr"

def getItem : Bytes := "get_item"

def setItem : Bytes := "set_item"

def getSlice : Bytes := "get_slice"

def setSlice : Bytes := "set_slice"

def choose : Bytes := "ternary_conditional"

/-! ## Functions and values -/

def truthy : Bytes := "truthy"

def function : Bytes := "func"

def createSubclass : Bytes := "createSubclass"

def any : Bytes := "$any"

def nothing : Bytes := "$null"

def yes : Bytes := "$true"

def no : Bytes := "$false"

/-- The variable that a program may set to have it printed. -/
def debugSlot : Bytes := "$__debug__"

/-- A name of the program as it is emitted. -/
def userName (name : Bytes) : Bytes := "$" ++ name

/-- The function that makes a literal. -/
def constructor? : LiteralKind → Option Bytes
  | .string => some "string"
  | .byte => some "byte"
  | .unsignedByte => some "unsigned_byte"
  | .short => some "short"
  | .unsignedShort => some "unsigned_short"
  | .int32 => some "int32"
  | .unsignedInt32 => some "unsigned_int32"
  | .long => some "long"
  | .unsignedLong => some "unsigned_long"
  | .bigint => some "bigint"
  | .float32 => some "float32"
  | .double => some "double"
  | .unknown _ => none

/-- Whether the maker of a literal takes digits followed by `n`. -/
def takesBigint : LiteralKind → Bool
  | .long | .unsignedLong | .bigint => true
  | _ => false

/-- All names that emitted code may use, in the order of their binding. -/
def exports : List Bytes :=
  [symbols] ++ LiteralKind.all.filterMap constructor?
    ++ [function, createSubclass, truthy, any, nothing, yes, no]

/-- A string literal of the emitted code. -/
def quote (s : Bytes) : Bytes := Json.string false s

end Bracescript.Target
