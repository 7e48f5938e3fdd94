import Bracescript.Bytes

/-!
# Kinds of nodes

Every kind has a number and a name; a number beyond the last kind stands for an unknown one.
-/

namespace Bracescript

inductive ExprKind where
  | identifier
  | literal
  | unary
  | binary
  | ternary
  | member
  | call
  | index
  | slice
  | generic
  | unknown (number : Nat)
  deriving DecidableEq, Repr, Inhabited

namespace ExprKind

def ofNumber : Nat → ExprKind
  | 0 => identifier
  | 1 => literal
  | 2 => unary
  | 3 => binary
  | 4 => ternary
  | 5 => member
  | 6 => call
  | 7 => index
  | 8 => slice
  | 9 => generic
  | n => unknown n

def name : ExprKind → Bytes
  | identifier => "Identifier"
  | literal => "Literal"
  | unary => "UnaryOp"
  | binary => "BinaryOp"
  | ternary => "TernaryConditional"
  | member => "PropertyAccess"
  | call => "FunctionCall"
  | index => "GetItem"
  | slice => "GetSlice"
  | generic => "Generic"
  | unknown _ => "UnknownExpr"

end ExprKind

/-- The variants of a literal. -/
inductive LiteralKind where
  | string
  | byte
  | unsignedByte
  | short
  | unsignedShort
  | int32
  | unsignedInt32
  | long
  | unsignedLong
  | bigint
  | float32
  | double
  | unknown (number : Nat)
  deriving DecidableEq, Repr, Inhabited

namespace LiteralKind

/-- All known kinds in the order of their numbers. -/
def all : List LiteralKind :=
  [string, byte, unsignedByte, short, unsignedShort, int32, unsignedInt32, long, unsignedLong, bigint, float32, double]

def ofNumber (n : Nat) : LiteralKind := all.getD n (unknown n)

def name : LiteralKind → Bytes
  | string => "StringLiteral"
  | byte => "ByteLiteral"
  | unsignedByte => "UnsignedByteLiteral"
  | short => "ShortLiteral"
  | unsignedShort => "UnsignedShortLiteral"
  | int32 => "Int32Literal"
  | unsignedInt32 => "UnsignedInt32Literal"
  | long => "LongLiteral"
  | unsignedLong => "UnsignedLongLiteral"
  | bigint => "BigintLiteral"
  | float32 => "Float32Literal"
  | double => "DoubleLiteral"
  | unknown _ => "UnknownLiteral"

def isInteger : LiteralKind → Bool
  | byte | unsignedByte | short | unsignedShort | int32 | unsignedInt32 | long | unsignedLong | bigint => true
  | _ => false

def isFloat : LiteralKind → Bool
  | float32 | double => true
  | _ => false

/-- The integer kind that a suffix asks for. -/
def ofIntegerSuffix? (suffix : Bytes) : Option LiteralKind :=
  if suffix = "b" then some byte
  else if suffix = "ub" then some unsignedByte
  else if suffix = "s" then some short
  else if suffix = "us" then some unsignedShort
  else if suffix = "i" then some int32
  else if suffix = "ui" then some unsignedInt32
  else if suffix = "l" then some long
  else if suffix = "ul" then some unsignedLong
  else if suffix = "n" then some bigint
  else none

end LiteralKind

inductive StmtKind where
  | expression
  | assignment
  | typedAssignment
  | conditional
  | forLoop
  | whileLoop
  | definition
  | classDefinition
  | ret
  | brk
  | cont
  | unknown (number : Nat)
  deriving DecidableEq, Repr, Inhabited

namespace StmtKind

def ofNumber : Nat → StmtKind
  | 0 => expression
  | 1 => assignment
  | 2 => typedAssignment
  | 3 => conditional
  | 4 => forLoop
  | 5 => whileLoop
  | 6 => definition
  | 7 => classDefinition
  | 8 => ret
  | 9 => brk
  | 10 => cont
  | n => unknown n

def name : StmtKind → Bytes
  | expression => "ExpressionStatement"
  | assignment => "Assignment"
  | typedAssignment => "TypedAssignment"
  | conditional => "IfStatement"
  | forLoop => "ForLoop"
  | whileLoop => "WhileLoop"
  | definition => "FunctionDefinition"
  | classDefinition => "ClassDefinition"
  | ret => "Return"
  | brk => "Break"
  | cont => "Continue"
  | unknown _ => "UnknownStmt"

end StmtKind

end Bracescript
