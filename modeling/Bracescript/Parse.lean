import Bracescript.Lexer
import Bracescript.Parse.Statement

/-!
# Programs

From the tokens of a file to its statements.
-/

namespace Bracescript

open TokenTree

/-- The token that stands for the end of a file. -/
def SourceFile.endToken (f : SourceFile) : Token where
  kind := .eof
  span := ⟨f.id, f.size, f.size⟩
  pos := f.position f.size
  text := []
  value := []
  flag := []

/-- The tokens that matter to the parser. -/
def significant (tokens : List Token) : List Token := tokens.filter fun t => !t.isWhitespace && t.kind != .eof

namespace SourceFile

/-- Reads all statements; a fault among the delimiters comes after those of the statements before it. -/
def parseStatements (f : SourceFile) (tokens : List Token) : Parse (List Stmt) :=
  match nest (significant tokens) with
  | (trees, none) => Parse.sequence (statements f.endToken trees)
  | (trees, some fault) => do
    let _ ← Parse.sequence (splitStatements f.endToken [] trees).1
    Parse.throw (.malformed fault)

/-- The program that a file's tokens are. -/
def parseTokens (f : SourceFile) (tokens : List Token) : Except Fault Program :=
  match f.parseStatements tokens {} with
  | (.error fault, _) => .error fault
  | (.ok statements, state) =>
    let first := ((significant tokens).head?).getD f.endToken
    .ok { file := f, forest := state.forest, statements, span := first.span.cover f.endToken.span }

/-- The program of a file. -/
def parse (f : SourceFile) : Except Fault Program :=
  match f.tokenize with
  | .error e => .error (.malformed e)
  | .ok tokens => f.parseTokens tokens

end SourceFile

end Bracescript
