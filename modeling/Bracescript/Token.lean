import Bracescript.Span

/-!
# Tokens

The smallest parts of a program text, the keywords and the operators.
-/

namespace Bracescript

inductive TokenKind where
  | invalid
  | eof
  | space
  | newline
  | semicolon
  | leftParen
  | rightParen
  | leftBracket
  | rightBracket
  | leftBrace
  | rightBrace
  | period
  | comma
  | equals
  | stringLiteral
  | numberLiteral
  | keyword
  | operator
  | identifier
  deriving DecidableEq, Repr, Inhabited

namespace TokenKind

/-- All kinds in the order of their numbers. -/
def all : List TokenKind :=
  [invalid, eof, space, newline, semicolon, leftParen, rightParen, leftBracket, rightBracket, leftBrace, rightBrace,
    period, comma, equals, stringLiteral, numberLiteral, keyword, operator, identifier]

def name : TokenKind → Bytes
  | invalid => "Invalid"
  | eof => "EOF"
  | space => "Space"
  | newline => "Newline"
  | semicolon => "Semicolon"
  | leftParen => "LeftParen"
  | rightParen => "RightParen"
  | leftBracket => "LeftBracket"
  | rightBracket => "RightBracket"
  | leftBrace => "LeftBrace"
  | rightBrace => "RightBrace"
  | period => "Period"
  | comma => "Comma"
  | equals => "Equals"
  | stringLiteral => "StringLiteral"
  | numberLiteral => "NumberLiteral"
  | keyword => "Keyword"
  | operator => "Operator"
  | identifier => "Identifier"

def ofName? (name : Bytes) : Option TokenKind := all.find? (·.name = name)

/-- The name of a kind given by number. -/
def nameOfNumber (n : Nat) : Bytes := (all[n]?.map TokenKind.name).getD "Unknown"

/-- The kind of a byte that is a token by itself. -/
def ofPunctuation? (b : UInt8) : Option TokenKind :=
  if b = 0x3b then some semicolon
  else if b = 0x28 then some leftParen
  else if b = 0x29 then some rightParen
  else if b = 0x5b then some leftBracket
  else if b = 0x5d then some rightBracket
  else if b = 0x7b then some leftBrace
  else if b = 0x7d then some rightBrace
  else if b = 0x2e then some period
  else if b = 0x2c then some comma
  else if b = 0x3d then some equals
  else none

def isWhitespace (k : TokenKind) : Bool := k == space || k == newline

/-- What closes an opening delimiter. -/
def closer? : TokenKind → Option TokenKind
  | leftParen => some rightParen
  | leftBracket => some rightBracket
  | leftBrace => some rightBrace
  | _ => none

def isOpener (k : TokenKind) : Bool := k.closer?.isSome

def isCloser (k : TokenKind) : Bool := k == rightParen || k == rightBracket || k == rightBrace

end TokenKind

/-! ## Words and symbols -/

def keywords : List Bytes :=
  ["let", "const", "if", "else", "for", "while", "return", "def", "in", "typeof", "extends", "instanceof", "subclassof",
    "type", "interface", "use", "class", "break", "continue", "async", "await", "yield", "switch", "case", "throw",
    "try", "catch", "finally", "enum", "super", "abstract"]

def isKeyword (word : Bytes) : Bool := keywords.contains word

/-- Keywords that are operators. -/
def wordOperators : List Bytes := ["typeof", "extends", "instanceof", "subclassof"]

def isWordOperator (word : Bytes) : Bool := wordOperators.contains word

/-- Operator symbols; one that begins another comes after it. -/
def operatorSymbols : List Bytes :=
  ["++", "--", "&&", "||", "^^", "==", "!=", "<=", ">=", "**",
    "+", "-", "*", "/", "%", "&", "|", "^", "!", "~", "<", ">", "?", ":"]

/-- The longest operator at the front of a text. -/
def matchOperator? (text : Bytes) : Option Bytes := operatorSymbols.find? text.startsWith

def unaryOperators : List Bytes := ["+", "-", "++", "--", "!", "~", "typeof"]

def isUnary (symbol : Bytes) : Bool := unaryOperators.contains symbol

/-! ## Tokens -/

structure Token where
  kind : TokenKind
  span : Span
  pos : LineCol
  /-- The text as it stands in the source. -/
  text : Bytes
  /-- The name, symbol, decoded string or signed digits. -/
  value : Bytes
  /-- The suffix of a number. -/
  flag : Bytes
  deriving DecidableEq, Repr, Inhabited

namespace Token

def isWhitespace (t : Token) : Bool := t.kind.isWhitespace

def isOperator (t : Token) (symbol : Bytes) : Bool := t.kind == .operator && t.value == symbol

def isKeyword (t : Token) (word : Bytes) : Bool := t.kind == .keyword && t.value == word

/-- The symbol of an operator, spelled with signs or as a word. -/
def operatorSymbol? (t : Token) : Option Bytes :=
  match t.kind with
  | .operator => some t.value
  | .keyword => if isWordOperator t.value then some t.value else none
  | _ => none

end Token

end Bracescript
