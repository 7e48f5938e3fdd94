import Bracescript.Cursor
import Bracescript.Lexer.Lexeme

/-!
# Lexers

A lexer reads a file from left to right, one token at a time, until its end or the first fault.
-/

namespace Bracescript

structure Lexer where
  cursor : Cursor
  /-- The last token that is not white space. -/
  last : Option Token := none
  /-- The fault that ended the reading. -/
  fault : Option SyntaxError := none
  deriving Inhabited

namespace Lexer

def start (f : SourceFile) : Lexer := { cursor := Cursor.start f }

/-- Whether the token can end an operand, so that a minus after it subtracts. -/
def endsOperand (t : Token) : Bool :=
  match t.kind with
  | .identifier | .numberLiteral | .stringLiteral | .rightParen | .rightBracket => true
  | .operator => t.value == "++" || t.value == "--"
  | _ => false

def afterOperand (lx : Lexer) : Bool := (lx.last.map endsOperand).getD false

/-- The token of a lexeme at the cursor. -/
def tokenOf (c : Cursor) (x : Lexeme) : Token where
  kind := x.kind
  span := (c.advance x.size).spanFrom c.toMark
  pos := c.pos
  text := c.rest.take x.size
  value := x.value
  flag := x.flag

/-- The error of a misread text at the cursor. -/
def errorOf (c : Cursor) (m : Misread) : SyntaxError :=
  let c := c.advance m.off
  .of m.cause ⟨c.file, c.off, c.off + m.width.toUInt32⟩ c.pos

def eofToken (c : Cursor) : Token := ⟨.eof, c.spanFrom c.toMark, c.pos, [], [], []⟩

/-- The lexer after a token. -/
def after (lx : Lexer) (x : Lexeme) (t : Token) : Lexer :=
  { lx with cursor := lx.cursor.advance x.size, last := if t.isWhitespace then lx.last else some t }

/-- The next token, white space included. The end is answered again and again, and so is a fault. -/
def next (lx : Lexer) : Except SyntaxError Token × Lexer :=
  match lx.fault with
  | some e => (.error e, lx)
  | none =>
    match lx.cursor.rest with
    | [] => (.ok (eofToken lx.cursor), lx)
    | b :: rest =>
      match Lexeme.read lx.afterOperand b rest with
      | .error m => (.error (errorOf lx.cursor m), { lx with fault := some (errorOf lx.cursor m) })
      | .ok x => (.ok (tokenOf lx.cursor x), lx.after x (tokenOf lx.cursor x))

/-- All tokens up to the end or the first fault, and that fault. -/
def all (lx : Lexer) : List Token × Option SyntaxError :=
  match lx.fault with
  | some e => ([], some e)
  | none =>
    match _h : lx.cursor.rest with
    | [] => ([], none)
    | b :: rest =>
      match Lexeme.read lx.afterOperand b rest with
      | .error m => ([], some (errorOf lx.cursor m))
      | .ok x =>
        let t := tokenOf lx.cursor x
        let (tokens, fault) := (lx.after x t).all
        (t :: tokens, fault)
termination_by lx.cursor.rest.length
decreasing_by
  have := x.size_pos
  simp [after, Cursor.rest_advance, _h]
  omega

/-- The lexer once it has nothing more to read. -/
def drained (lx : Lexer) : Lexer :=
  { lx with cursor := lx.cursor.advance lx.cursor.rest.length }

end Lexer

namespace SourceFile

/-- The tokens of a file, white space included and without an end token. -/
def tokenize (f : SourceFile) : Except SyntaxError (List Token) :=
  match (Lexer.start f).all with
  | (tokens, none) => .ok tokens
  | (_, some e) => .error e

/-- The tokens up to a fault, or all tokens and the end token. -/
def tokensToEnd (f : SourceFile) : List Token × Option SyntaxError :=
  match (Lexer.start f).all with
  | (tokens, none) => (tokens ++ [Lexer.eofToken (Lexer.start f).drained.cursor], none)
  | (tokens, some e) => (tokens, some e)

end SourceFile

end Bracescript
