import Bracescript.Bytes

/-!
# Diagnostic codes

Each kind of finding has a number; its thousands tell which stage found it.
-/

namespace Bracescript

structure Code where
  number : UInt16
  deriving DecidableEq, Repr, Inhabited

namespace Code

def unknown : Code := ⟨0⟩

def lexInfo : Code := ⟨1000⟩
def unknownCharacter : Code := ⟨1001⟩
def unterminatedString : Code := ⟨1002⟩
def badEscape : Code := ⟨1003⟩
def badNumber : Code := ⟨1004⟩

def syntaxInfo : Code := ⟨2000⟩
def unexpectedToken : Code := ⟨2001⟩
def unclosedParen : Code := ⟨2002⟩
def unclosedBracket : Code := ⟨2003⟩
def unclosedBrace : Code := ⟨2004⟩
def unbalancedClose : Code := ⟨2005⟩
def notUnary : Code := ⟨2006⟩
def missingOperand : Code := ⟨2007⟩
def extraOperand : Code := ⟨2008⟩
def emptyExpression : Code := ⟨2009⟩
def namedArgument : Code := ⟨2010⟩
def badTernary : Code := ⟨2011⟩
def badSubscript : Code := ⟨2012⟩
def expectIdentifier : Code := ⟨2013⟩

def badAssignment : Code := ⟨2100⟩
def ambiguousStatement : Code := ⟨2101⟩
def constWithoutValue : Code := ⟨2102⟩
def expectParen : Code := ⟨2103⟩
def expectBrace : Code := ⟨2104⟩
def badForHeader : Code := ⟨2105⟩
def noAssignedMeaning : Code := ⟨2106⟩
def invalidStatementStart : Code := ⟨2107⟩
def badParameter : Code := ⟨2108⟩
def returnOutsideDef : Code := ⟨2109⟩
def loopControlOutsideLoop : Code := ⟨2110⟩
def badClassMember : Code := ⟨2111⟩
def trailingTokens : Code := ⟨2112⟩

def emissionInfo : Code := ⟨3000⟩
def unsupportedNode : Code := ⟨3001⟩
def unknownOperator : Code := ⟨3002⟩
def badLiteral : Code := ⟨3003⟩

def loadFile : Code := ⟨4001⟩
def writeFile : Code := ⟨4002⟩

def badManifest : Code := ⟨5001⟩
def compilerMismatch : Code := ⟨5002⟩
def timings : Code := ⟨5003⟩

def titles : List (Code × String) := [
  (unknown, "Unknown error"),
  (lexInfo, "Lexical information"),
  (unknownCharacter, "Cannot find token"),
  (unterminatedString, "Unterminated string literal"),
  (badEscape, "Invalid escape sequence"),
  (badNumber, "Malformed number literal"),
  (syntaxInfo, "Syntax information"),
  (unexpectedToken, "Unexpected token"),
  (unclosedParen, "Unclosed parenthesis"),
  (unclosedBracket, "Unclosed bracket"),
  (unclosedBrace, "Unclosed brace"),
  (unbalancedClose, "Unbalanced closing delimiter"),
  (notUnary, "Operator is not unary"),
  (missingOperand, "Missing operand"),
  (extraOperand, "Too many operands"),
  (emptyExpression, "Empty expression"),
  (namedArgument, "Named argument outside a definition"),
  (badTernary, "Malformed conditional expression"),
  (badSubscript, "Malformed subscript"),
  (expectIdentifier, "Expect identifier"),
  (badAssignment, "Malformed assignment"),
  (ambiguousStatement, "Statement is neither an assignment nor an expression"),
  (constWithoutValue, "Constant declared without a value"),
  (expectParen, "Expect parenthesis"),
  (expectBrace, "Expect brace"),
  (badForHeader, "Malformed for-loop header"),
  (noAssignedMeaning, "Keyword has no assigned meaning"),
  (invalidStatementStart, "Invalid token for start of statement"),
  (badParameter, "Malformed parameter"),
  (returnOutsideDef, "return outside of def"),
  (loopControlOutsideLoop, "break/continue outside of a loop"),
  (badClassMember, "Invalid class member"),
  (trailingTokens, "Unexpected tokens after statement"),
  (emissionInfo, "Code generation information"),
  (unsupportedNode, "Unsupported node kind"),
  (unknownOperator, "Operator has no dispatch key"),
  (badLiteral, "Literal cannot be lowered"),
  (loadFile, "I/O load file error"),
  (writeFile, "I/O write file error"),
  (badManifest, "Invalid project manifest"),
  (compilerMismatch, "Compiler version does not satisfy the manifest"),
  (timings, "Pipeline timings")]

def title (c : Code) : Bytes := (titles.lookup c).getD "Unknown error"

/-- The stage in capital letters and the number. -/
def id (c : Code) : Bytes :=
  let n := c.number.toNat
  if 1000 ≤ n && n < 2000 then "LEX" ++ Bytes.ofNat n
  else if 2000 ≤ n && n < 3000 then "SYN" ++ Bytes.ofNat n
  else if 3000 ≤ n && n < 4000 then "GEN" ++ Bytes.ofNat n
  else if 4000 ≤ n && n < 5000 then "IO" ++ Bytes.ofNat n
  else if 5000 ≤ n && n < 6000 then "PRJ" ++ Bytes.ofNat n
  else "E0000"

def render (c : Code) : Bytes := "[" ++ c.id ++ "]: " ++ c.title

end Code

end Bracescript
