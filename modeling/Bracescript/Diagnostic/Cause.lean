import Bracescript.Token
import Bracescript.Text.Quoted
import Bracescript.Diagnostic.Code

/-!
# Causes of syntax errors

Everything that can be wrong with a program text, its code and its wording.
-/

namespace Bracescript

open Text

/-- How messages name a token. -/
def Token.describe (t : Token) : Bytes :=
  if t.kind = .eof then "end of input" else t.kind.name ++ " " ++ quoted t.text

inductive Cause where
  -- characters and literals
  | unknownCharacter (c : Char)
  | unterminatedString
  | shortEscape (letter : UInt8) (width : Nat)
  | invalidCodePoint (letter : UInt8) (width : Nat) (value : Int)
  | leadingZeros
  | missingDigits (base : UInt8)
  | gluedCharacter
  | unknownSuffix (suffix text : Bytes)
  | integerSuffixOnFloat (suffix text : Bytes)
  -- delimiters
  | unbalanced (close : Bytes)
  | mismatched (close opener : Bytes) (line col : UInt32)
  | unclosed (opener : TokenKind) (text : Bytes)
  -- expressions
  | expectedExpression
  | expectedExpressionBefore (next : Token)
  | emptyParentheses
  | emptyArgument
  | keywordInExpression (word : Bytes)
  | unexpectedInExpression (t : Token)
  | subscriptWithoutOperand
  | emptySubscript
  | propertyWithoutOperand
  | expectedPropertyName (t : Token)
  | namedArgument
  | colonWithoutQuestion
  | questionWithoutColon
  | missingCondition
  | missingThen
  | missingElse
  | unexpectedOperand
  | tooManyOperands
  | operatorAfterOperand (symbol : Bytes)
  | missingOperandAfter (symbol : Bytes)
  | missingOperandFor (symbol : Bytes)
  | notUnary (symbol : Bytes)
  -- statements
  | noAssignedMeaning (word : Bytes)
  | invalidStatementStart (t : Token)
  | expectedDeclaredName (word : Bytes) (t : Token)
  | constWithoutValue (name : Bytes)
  | expectedEquals (name : Bytes) (t : Token)
  | expectedEqualsOrName (name : Bytes) (t : Token)
  | cannotAssign (kind : Bytes)
  | ambiguous (asAssignment asExpression : Bytes)
  | returnOutsideDef
  | outsideLoop (word : Bytes)
  | trailingAfterWord (t : Token) (word : Bytes)
  | trailingAfterBlock (t : Token)
  | expectedParenAfterWord (word : Bytes) (t : Token)
  | expectedParenAfterName (name : Bytes) (t : Token)
  | expectedConditionEnd (word : Bytes) (t : Token)
  | expectedBrace (t : Token)
  | clauseCount (count : Nat)
  | expectedFunctionName (t : Token)
  | expectedClassName (t : Token)
  | emptyParameter
  | malformedParameter
  | duplicateParameter (name : Bytes)
  | notClassMember (kind : Bytes)

namespace Cause

def code : Cause → Code
  | unknownCharacter _ => .unknownCharacter
  | unterminatedString => .unterminatedString
  | shortEscape .. | invalidCodePoint .. => .badEscape
  | leadingZeros | missingDigits _ | gluedCharacter | unknownSuffix .. | integerSuffixOnFloat .. => .badNumber
  | unbalanced _ | mismatched .. => .unbalancedClose
  | unclosed .leftBracket _ => .unclosedBracket
  | unclosed .leftBrace _ => .unclosedBrace
  | unclosed .. => .unclosedParen
  | expectedExpression | expectedExpressionBefore _ | emptyParentheses | emptyArgument => .emptyExpression
  | keywordInExpression _ | unexpectedInExpression _ | propertyWithoutOperand | operatorAfterOperand _
  | expectedConditionEnd .. => .unexpectedToken
  | subscriptWithoutOperand | emptySubscript => .badSubscript
  | expectedPropertyName _ | expectedDeclaredName .. | expectedFunctionName _ | expectedClassName _ =>
    .expectIdentifier
  | namedArgument => .namedArgument
  | colonWithoutQuestion | questionWithoutColon | missingCondition | missingThen | missingElse => .badTernary
  | unexpectedOperand | tooManyOperands => .extraOperand
  | missingOperandAfter _ | missingOperandFor _ => .missingOperand
  | notUnary _ => .notUnary
  | noAssignedMeaning _ => .noAssignedMeaning
  | invalidStatementStart _ => .invalidStatementStart
  | constWithoutValue _ => .constWithoutValue
  | expectedEquals .. | expectedEqualsOrName .. | cannotAssign _ => .badAssignment
  | ambiguous .. => .ambiguousStatement
  | returnOutsideDef => .returnOutsideDef
  | outsideLoop _ => .loopControlOutsideLoop
  | trailingAfterWord .. | trailingAfterBlock _ => .trailingTokens
  | expectedParenAfterWord .. | expectedParenAfterName .. => .expectParen
  | expectedBrace _ => .expectBrace
  | clauseCount _ => .badForHeader
  | emptyParameter | malformedParameter | duplicateParameter _ => .badParameter
  | notClassMember _ => .badClassMember

/-- Upper-case hexadecimal with zeros on the left up to `width`, sign included. -/
def hexUpper (width : Nat) (value : Int) : Bytes :=
  let digits := (Nat.toDigits 16 value.natAbs).map fun c => c.toUpper.toUInt8
  if value < 0 then "-" ++ Bytes.repeated (width - 1 - digits.length) 0x30 ++ digits
  else Bytes.repeated (width - digits.length) 0x30 ++ digits

def message : Cause → Bytes
  | unknownCharacter c => "cannot find token " ++ quotedChar c
  | unterminatedString => "unterminated string literal"
  | shortEscape letter width =>
    "invalid \\" ++ [letter] ++ " escape: expected " ++ Bytes.ofNat width ++ " hex digits"
  | invalidCodePoint letter width value =>
    "escape \\" ++ [letter] ++ hexUpper width value ++ " is not a valid code point"
  | leadingZeros => "leading zeros in number literal"
  | missingDigits base => "expected digits after 0" ++ [base]
  | gluedCharacter => "invalid character in number literal"
  | unknownSuffix suffix text => "unknown number suffix " ++ quoted suffix ++ ": " ++ quoted text
  | integerSuffixOnFloat suffix text =>
    "integer suffix " ++ quoted suffix ++ " on a floating literal: " ++ quoted text
  | unbalanced close => "unbalanced " ++ quoted close
  | mismatched close opener line col =>
    "mismatched " ++ quoted close ++ ": " ++ quoted opener ++ " opened at line " ++ Bytes.ofNat line.toNat ++ ", col "
      ++ Bytes.ofNat col.toNat
  | unclosed _ text => "unclosed " ++ quoted text
  | expectedExpression => "expected an expression"
  | expectedExpressionBefore next => "expected an expression before " ++ next.describe
  | emptyParentheses => "empty parentheses"
  | emptyArgument => "empty argument"
  | keywordInExpression word => "unexpected keyword " ++ quoted word ++ " in expression"
  | unexpectedInExpression t => "unexpected " ++ t.describe ++ " in expression"
  | subscriptWithoutOperand => "subscript without an operand"
  | emptySubscript => "empty subscript"
  | propertyWithoutOperand => "property access without an operand"
  | expectedPropertyName t => "expected property name after '.', got " ++ t.describe
  | namedArgument => "named or default arguments are only allowed in a def"
  | colonWithoutQuestion => "':' without a matching '?'"
  | questionWithoutColon => "'?' without a matching ':'"
  | missingCondition => "missing condition before '?'"
  | missingThen => "missing value between '?' and ':'"
  | missingElse => "missing value after ':'"
  | unexpectedOperand => "unexpected operand, expected an operator"
  | tooManyOperands => "too many operands"
  | operatorAfterOperand symbol => "operator " ++ quoted symbol ++ " cannot follow an operand"
  | missingOperandAfter symbol => "missing operand after " ++ quoted symbol
  | missingOperandFor symbol => "missing operand for " ++ quoted symbol
  | notUnary symbol => quoted symbol ++ " is not a unary operator"
  | noAssignedMeaning word => "keyword " ++ quoted word ++ " has no assigned meaning"
  | invalidStatementStart t => "invalid token for start of statement: " ++ t.describe
  | expectedDeclaredName word t => "expected a name after " ++ quoted word ++ ", got " ++ t.describe
  | constWithoutValue name => "const " ++ quoted name ++ " declared without a value"
  | expectedEquals name t => "expected '=' after " ++ quoted name ++ ", got " ++ t.describe
  | expectedEqualsOrName name t => "expected '=' or a name after " ++ quoted name ++ ", got " ++ t.describe
  | cannotAssign kind => "cannot assign to " ++ kind
  | ambiguous asAssignment asExpression =>
    "not an assignment (" ++ asAssignment ++ ") and not an expression (" ++ asExpression ++ ")"
  | returnOutsideDef => "return outside of def"
  | outsideLoop word => word ++ " outside of a loop"
  | trailingAfterWord t word => "unexpected " ++ t.describe ++ " after " ++ word
  | trailingAfterBlock t => "unexpected " ++ t.describe ++ " after block"
  | expectedParenAfterWord word t => "expected '(' after " ++ word ++ ", got " ++ t.describe
  | expectedParenAfterName name t => "expected '(' after " ++ quoted name ++ ", got " ++ t.describe
  | expectedConditionEnd word t => "expected ')' to close the " ++ word ++ " condition, got " ++ t.describe
  | expectedBrace t => "expected '\x7b', got " ++ t.describe
  | clauseCount count => "for header needs 3 clauses separated by ';', got " ++ Bytes.ofNat count
  | expectedFunctionName t => "expected a function name after def, got " ++ t.describe
  | expectedClassName t => "expected a class name, got " ++ t.describe
  | emptyParameter => "empty parameter"
  | malformedParameter => "expected 'name', 'type name' or either with '= default'"
  | duplicateParameter name => "duplicate parameter " ++ quoted name
  | notClassMember kind => kind ++ " is not allowed in a class body"

end Cause

/-- A fault in a program text: what is wrong and where. -/
structure SyntaxError where
  code : Code
  message : Bytes
  pos : LineCol
  span : Span
  deriving DecidableEq, Inhabited

namespace SyntaxError

def of (cause : Cause) (span : Span) (pos : LineCol) : SyntaxError := ⟨cause.code, cause.message, pos, span⟩

/-- The fault stands at a token. -/
def atToken (cause : Cause) (t : Token) : SyntaxError := of cause t.span t.pos

def render (e : SyntaxError) : Bytes :=
  e.message ++ " at line " ++ Bytes.ofNat e.pos.line.toNat ++ ", col " ++ Bytes.ofNat e.pos.col.toNat

end SyntaxError

end Bracescript
