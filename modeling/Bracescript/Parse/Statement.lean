import Bracescript.Parse.Expression

/-!
# Statements

A clause becomes a statement, by its first token. A statement that starts with a name is an assignment or an
expression.
-/

namespace Bracescript

open TokenTree

namespace Parse

/-! ## Statements without a block -/

def exprStatement (r : Stretch) : Parse Stmt := do
  let e ← expression r
  newStmt r.span r.first.pos fun n => .expr n e

/-- The type, if there is one, the name and what follows in a declaration. -/
def declaredName (first : Token) (rest : List TokenTree) : Option Token × Token × List TokenTree :=
  match rest with
  | .leaf second :: more => if second.kind = .identifier then (some first, second, more) else (none, first, rest)
  | _ => (none, first, rest)

/-- The value of a declaration of `name`, which only `let` may leave out. -/
def declaredValue (constant : Bool) (name : Token) (r : Stretch) : Parse (Option Expr) :=
  match r.trees with
  | [] => if constant then fail (.constWithoutValue name.value) name else return none
  | t :: after =>
    if t.isLeaf .equals then return some (← expression ⟨after, r.stop⟩)
    else fail (.expectedEquals name.value t.first) t.first

/-- `let` or `const`, perhaps a type, a name, and perhaps a value. -/
def declaration (word : Token) (r : Stretch) : Parse Stmt :=
  match r.trees with
  | .leaf first :: rest =>
    if first.kind = .identifier then do
      let constant := word.value == "const"
      let (type, name, after) := declaredName first rest
      let value ← declaredValue constant name ⟨after, r.stop⟩
      let target ← newIdent name
      let span := Stretch.span ⟨.leaf word :: r.trees, r.stop⟩
      match type with
      | some type =>
        let type ← newIdent type
        newStmt span word.pos fun n => .typed n type constant target value
      | none => newStmt span word.pos fun n => .assign n true constant target value
    else fail (.expectedDeclaredName word.value first) first
  | _ => fail (.expectedDeclaredName word.value r.first) r.first

/-- What can be assigned to besides a name. -/
def isAssignable : Expr → Bool
  | .member .. | .index .. | .slice .. => true
  | _ => false

/-- A name, a member, an index or a slice, and its new value; or a type, a name and perhaps a value. -/
def assignment (r : Stretch) : Parse Stmt :=
  let place := r.first
  match cutAt .equals r.trees with
  | none =>
    match r.trees with
    | [.leaf type, .leaf name] =>
      if name.kind = .identifier then do
        let type ← newIdent type
        let target ← newIdent name
        newStmt r.span place.pos fun n => .typed n type false target none
      else fail (.expectedEqualsOrName place.value name) name
    | _ => fail (.expectedEqualsOrName place.value r.tail.first) r.tail.first
  | some ([.leaf name], _, after) => do
    let target ← newIdent name
    let value ← expression ⟨after, r.stop⟩
    newStmt r.span place.pos fun n => .assign n false false target (some value)
  | some (before, equals, after) =>
    match before with
    | [.leaf type, .leaf name] =>
      if name.kind = .identifier then do
        let target ← newIdent name
        let value ← expression ⟨after, r.stop⟩
        let type ← newIdent type
        newStmt r.span place.pos fun n => .typed n type false target (some value)
      else assignTo before equals after
    | _ => assignTo before equals after
where
  /-- Assigns to an expression. -/
  assignTo (before : List TokenTree) (equals : Token) (after : List TokenTree) : Parse Stmt := do
    let target ← expression ⟨before, equals⟩
    if isAssignable target then
      let value ← expression ⟨after, r.stop⟩
      newStmt r.span r.first.pos fun n => .assign n false false target (some value)
    else failAt (.cannotAssign target.kindName) target

/-- Why a statement is neither an assignment nor an expression; it is said where the longer attempt ended. -/
def ambiguity (a e : SyntaxError) : SyntaxError :=
  let place := if e.span.start < a.span.start then a else e
  .of (.ambiguous a.message e.message) place.span place.pos

/-- A statement that starts with a name. -/
def nameStatement (r : Stretch) : Parse Stmt := do
  match ← attempt (assignment r) with
  | .ok s => return s
  | .error (.malformed a) =>
    match ← attempt (exprStatement r) with
    | .ok s => return s
    | .error (.malformed e) => throw (.malformed (ambiguity a e))
    | .error fault => throw fault
  | .error fault => throw fault

/-- A clause of a `for` header, which may be empty. -/
def simpleStatement (r : Stretch) : Parse (Option Stmt) :=
  match r.trees with
  | [] => return none
  | .leaf t :: rest =>
    if t.isKeyword "let" || t.isKeyword "const" then return some (← declaration t ⟨rest, r.stop⟩)
    else if t.kind = .identifier then return some (← nameStatement r)
    else return some (← exprStatement r)
  | _ => return some (← exprStatement r)

def returnStatement (word : Token) (r : Stretch) : Parse Stmt := do
  let scope ← scope
  if scope.defs = 0 then fail .returnOutsideDef word
  else
    let value ← bound r
    newStmt (Stretch.span ⟨.leaf word :: r.trees, r.stop⟩) word.pos fun n => .ret n value

/-- `break` or `continue`. -/
def loopStatement (word : Token) (r : Stretch) : Parse Stmt := do
  let scope ← scope
  if scope.loops = 0 then fail (.outsideLoop word.value) word
  else if !r.isEmpty then fail (.trailingAfterWord r.first word.value) r.first
  else newStmt word.span word.pos fun n => if word.value = "break" then .brk n else .cont n

/-! ## Headers -/

/-- Nothing may follow a block. -/
def expectEnd (r : Stretch) : Parse Unit :=
  if r.isEmpty then return () else fail (.trailingAfterBlock r.first) r.first

/-- The condition in parentheses behind the word `if` or `while`. -/
def condition (word : Token) (r : Stretch) : Parse Expr :=
  match r.trees with
  | .group opener inside closer :: _ =>
    if opener.kind = .leftParen then do
      let test ← expression (conditionPart inside closer)
      match inside.dropWhile fun t => !endsCondition t with
      | [] => return test
      | t :: _ => fail (.expectedConditionEnd word.value t.first) t.first
    else fail (.expectedParenAfterWord word.value opener) opener
  | _ => fail (.expectedParenAfterWord word.value r.first) r.first

/-- The three clauses in parentheses behind `for`. -/
def forHeader (word : Token) (r : Stretch) : Parse (Option Stmt × Option Expr × Option Stmt) :=
  match r.trees with
  | .group opener inside closer :: _ =>
    if opener.kind = .leftParen then
      match splitAt .semicolon closer inside with
      | [first, second, third] => do
        let init ← simpleStatement first
        let test ← bound second
        let step ← simpleStatement third
        return (init, test, step)
      | clauses => fail (.clauseCount clauses.length) opener
    else fail (.expectedParenAfterWord word.value opener) opener
  | _ => fail (.expectedParenAfterWord word.value r.first) r.first

/-- A parameter: a name, or a type and a name. -/
def parameterName (place : Token) (head : List TokenTree) : Parse (Option Expr × Token) :=
  match head with
  | [.leaf name] => if name.kind = .identifier then return (none, name) else fail .malformedParameter place
  | [.leaf type, .leaf name] =>
    if type.kind = .identifier && name.kind = .identifier then return (some (← newIdent type), name)
    else fail .malformedParameter place
  | _ => fail .malformedParameter place

/-- A default, which need not be there. -/
def optional : Option Stretch → Parse (Option Expr)
  | none => return none
  | some r => return some (← expression r)

/-- The parameters of a definition; `seen` are the names that are taken. -/
def parameters (seen : List Bytes) : List Stretch → Parse (List (Argument Expr))
  | [] => return []
  | r :: rs =>
    if r.isEmpty then fail .emptyParameter r.stop
    else do
      let (head, default) := match cutAt .equals r.trees with
        | none => (r.trees, none)
        | some (before, _, after) => (before, some (⟨after, r.stop⟩ : Stretch))
      let (type, name) ← parameterName r.first head
      if seen.contains name.value then fail (.duplicateParameter name.value) name
      else
        let value ← optional default
        let params ← parameters (name.value :: seen) rs
        return { span := r.span, pos := r.first.pos, name := name.value, type, value } :: params

/-- The stretches between commas in parentheses; none when there is nothing. -/
def commaList (inside : List TokenTree) (closer : Token) : List Stretch :=
  if inside.isEmpty then [] else splitAt .comma closer inside

/-- The name and the parameters of a definition. -/
def defHeader (r : Stretch) : Parse (Token × List (Argument Expr)) :=
  match r.trees with
  | .leaf name :: rest =>
    if name.kind = .identifier then
      match rest with
      | .group opener inside closer :: _ =>
        if opener.kind = .leftParen then return (name, ← parameters [] (commaList inside closer))
        else fail (.expectedParenAfterName name.value opener) opener
      | _ => fail (.expectedParenAfterName name.value r.tail.first) r.tail.first
    else fail (.expectedFunctionName name) name
  | _ => fail (.expectedFunctionName r.first) r.first

def expressions : List Stretch → Parse (List Expr)
  | [] => return []
  | r :: rs => do
    let e ← expression r
    let es ← expressions rs
    return e :: es

/-- The name of a class. -/
def className (r : Stretch) : Parse Token :=
  match r.trees with
  | .leaf name :: _ => if name.kind = .identifier then return name else fail (.expectedClassName name) name
  | _ => fail (.expectedClassName r.first) r.first

/-- What stands between the name of a class and its body. -/
def classBases (r : Stretch) : Parse (List Expr) :=
  match r.trees with
  | .group opener inside closer :: _ =>
    if opener.kind = .leftParen then expressions (commaList inside closer) else return []
  | _ => return []

/-- What follows the name of a class and its bases. -/
def afterBases (r : Stretch) : Stretch :=
  match r.trees with
  | .group opener _ _ :: _ => if opener.kind = .leftParen then r.tail else r
  | _ => r

theorem weight_afterBases_le (r : Stretch) : (afterBases r).weight ≤ r.weight := by
  unfold afterBases
  split
  · split
    · exact r.weight_tail_le
    · exact Nat.le_refl _
  · exact Nat.le_refl _

/-- A class holds typed fields, methods and named values. -/
def isClassMember : Stmt → Bool
  | .typed .. | .define .. => true
  | .assign _ _ _ (.ident ..) _ => true
  | _ => false

def checkMembers : List Stmt → Parse Unit
  | [] => return ()
  | s :: ss =>
    if isClassMember s then checkMembers ss
    else throw (.malformed (.of (.notClassMember s.kindName) s.span s.pos))

/-! ## Statements with a block -/

/-- The `if` that follows an `else`, with what follows it. -/
def elseIf? (r : Stretch) : Option (Token × Stretch) :=
  match r.trees with
  | .leaf t :: rest => if t.isKeyword "if" then some (t, ⟨rest, r.stop⟩) else none
  | _ => none

theorem weight_elseIf {r rest : Stretch} {t : Token} (h : elseIf? r = some (t, rest)) : rest.weight < r.weight := by
  unfold elseIf? at h
  split at h
  · rename_i token trees heq
    split at h
    · simp only [Option.some.injEq, Prod.mk.injEq] at h
      obtain ⟨_, rfl⟩ := h
      simp [Stretch.weight, heq, weightAll, weight]
    · simp at h
  · simp at h

/-- Whether an `else` comes next. -/
def startsWithElse (r : Stretch) : Bool := ((r.trees.head?).map (TokenTree.isKeyword "else")).getD false

mutual

/-- Reads statements one after the other. -/
def sequence (cs : List Clause) : Parse (List Stmt) :=
  match cs with
  | [] => return []
  | c :: cs => do
    let s ← statement c
    let ss ← sequence cs
    return s :: ss
termination_by 4 * Clause.weightAll cs + 1
decreasing_by
  · simp only [Clause.weightAll]; omega
  · have := c.head.weight_pos
    simp only [Clause.weightAll, Clause.weight]; omega

def statement (c : Clause) : Parse Stmt :=
  match _h : c.head with
  | .group opener _ _ => fail (.invalidStatementStart opener) opener
  | .leaf t =>
    match t.kind with
    | .identifier => nameStatement c.stretch
    | .keyword =>
      if t.value = "let" || t.value = "const" then declaration t c.after
      else if t.value = "if" then conditional t c.after
      else if t.value = "for" then do
        let (init, test, step) ← forHeader t c.after
        let scope ← scope
        let body ← within { scope with loops := scope.loops + 1 } (body c.after.tail)
        expectEnd c.after.tail.tail
        newStmt c.span t.pos fun n => .forLoop n init test step body
      else if t.value = "while" then do
        let test ← condition t c.after
        let scope ← scope
        let body ← within { scope with loops := scope.loops + 1 } (body c.after.tail)
        expectEnd c.after.tail.tail
        newStmt c.span t.pos fun n => .whileLoop n test body
      else if t.value = "def" then do
        let (name, params) ← defHeader c.after
        let scope ← scope
        let body ← within { defs := scope.defs + 1, loops := 0 } (body c.after.tail.tail)
        expectEnd c.after.tail.tail.tail
        newStmt c.span t.pos fun n => .define n name.value params body
      else if t.value = "class" then do
        let name ← className c.after
        let bases ← classBases c.after.tail
        let members ← within {} (body (afterBases c.after.tail))
        expectEnd (afterBases c.after.tail).tail
        checkMembers members
        newStmt c.span t.pos fun n => .defineClass n name.value bases members
      else if t.value = "return" then returnStatement t c.after
      else if t.value = "break" || t.value = "continue" then loopStatement t c.after
      else fail (.noAssignedMeaning t.value) t
    | _ => fail (.invalidStatementStart t) t
termination_by 4 * c.weight
decreasing_by
  all_goals
    have := c.after.weight_tail_le
    have := c.after.tail.weight_tail_le
    have := weight_afterBases_le c.after.tail
    simp only [Clause.weight, _h, weight]
    simp only [Clause.after, Stretch.weight] at *
    omega

/-- What follows the word `if`. -/
def conditional (word : Token) (r : Stretch) : Parse Stmt := do
  let test ← condition word r
  let yes ← body r.tail
  let span := Stretch.span ⟨.leaf word :: r.trees, r.stop⟩
  if startsWithElse r.tail.tail then
    match _h : elseIf? r.tail.tail.tail with
    | some (nested, rest) =>
      let no ← conditional nested rest
      newStmt span word.pos fun n => .conditional n test yes [no]
    | none =>
      let no ← body r.tail.tail.tail
      expectEnd r.tail.tail.tail.tail
      newStmt span word.pos fun n => .conditional n test yes no
  else
    expectEnd r.tail.tail
    newStmt span word.pos fun n => .conditional n test yes []
termination_by 4 * r.weight + 2
decreasing_by
  all_goals
    have := r.weight_tail_le
    have := r.tail.weight_tail_le
    have := r.tail.tail.weight_tail_le
    try have := weight_elseIf _h
    omega

/-- The statements of the block that comes next. -/
def body (r : Stretch) : Parse (List Stmt) :=
  match _h : r.trees with
  | .group opener inside closer :: _ =>
    if opener.kind = .leftBrace then sequence (statements closer inside) else fail (.expectedBrace opener) opener
  | _ => fail (.expectedBrace r.first) r.first
termination_by 4 * r.weight + 1
decreasing_by
  have := weightAll_statements closer inside
  simp only [Stretch.weight, _h, weightAll, weight]
  omega

end

end Parse

end Bracescript
