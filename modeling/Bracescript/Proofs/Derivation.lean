import Bracescript.Parse

/-!
# Derivations

What a list of trees can be read as: an expression, a statement or a part of one, with the place of every node. How
tightly operators bind is left open here, so a list may have more than one derivation.
-/

namespace Bracescript

open Item TokenTree

/-- What stands in a list of trees. -/
inductive Part where
  | expr (e : Expr)
  /-- An expression that may be left out. -/
  | bound (e : Option Expr)
  /-- An equals sign and an expression, which may be left out. -/
  | value (e : Option Expr)
  | arg (a : Argument Expr)
  | param (p : Argument Expr)
  /-- Parts with commas between them. -/
  | list (ps : List Part)
  /-- A statement but for its number and its place. -/
  | shape (build : Node → Stmt)
  | stmt (s : Stmt)
  /-- A statement that may be left out. -/
  | clause (s : Option Stmt)
  /-- The clauses of a `for` loop. -/
  | header (init : Option Stmt) (test : Option Expr) (step : Option Stmt)
  /-- What follows the first block of a conditional. -/
  | otherwise (ss : List Stmt)
  | stmts (ss : List Stmt)

/-- The name that a token is. -/
def Token.ident (id : Nat) (t : Token) : Expr := .ident ⟨id, t.span, t.pos⟩ t.value

inductive Derives : List TokenTree → Part → Prop
  -- expressions
  | ident {t : Token} {id : Nat} (kind : t.kind = .identifier) : Derives [.leaf t] (.expr (t.ident id))
  | string {t : Token} {id : Nat} (kind : t.kind = .stringLiteral) :
    Derives [.leaf t] (.expr (.literal ⟨id, t.span, t.pos⟩ .string t.value))
  | number {t : Token} {id : Nat} {literal : LiteralKind} (kind : t.kind = .numberLiteral)
    (known : numberKind t.value t.flag t.text = .ok literal) :
    Derives [.leaf t] (.expr (.literal ⟨id, t.span, t.pos⟩ literal t.value))
  | parens {o c : Token} {inside : List TokenTree} {e : Expr} (opener : o.kind = .leftParen)
    (inside_ok : Derives inside (.expr e)) : Derives [.group o inside c] (.expr e)
  | front {t : Token} {symbol : Bytes} {ts : List TokenTree} {e : Expr} {id : Nat}
    (operator : t.operatorSymbol? = some symbol) (known : isUnary symbol = true) (operand_ok : Derives ts (.expr e)) :
    Derives (.leaf t :: ts) (.expr (.unary ⟨id, t.span.cover e.span, t.pos⟩ symbol e false))
  | behind {t : Token} {symbol : Bytes} {ts : List TokenTree} {e : Expr} {id : Nat}
    (operator : t.operatorSymbol? = some symbol) (known : isBehind symbol = true) (operand_ok : Derives ts (.expr e)) :
    Derives (ts ++ [.leaf t]) (.expr (.unary ⟨id, e.span.cover t.span, e.pos⟩ symbol e true))
  | binary {t : Token} {symbol : Bytes} {ls rs : List TokenTree} {l r : Expr} {id : Nat}
    (operator : t.operatorSymbol? = some symbol) (known : isBinary symbol = true) (left_ok : Derives ls (.expr l))
    (right_ok : Derives rs (.expr r)) :
    Derives (ls ++ .leaf t :: rs) (.expr (.binary ⟨id, l.span.cover r.span, l.pos⟩ symbol l r))
  | ternary {question colon : Token} {as bs cs : List TokenTree} {a b c : Expr} {id : Nat}
    (question_ok : question.operatorSymbol? = some "?") (colon_ok : colon.operatorSymbol? = some ":")
    (test_ok : Derives as (.expr a)) (yes_ok : Derives bs (.expr b)) (no_ok : Derives cs (.expr c)) :
    Derives (as ++ .leaf question :: (bs ++ .leaf colon :: cs))
      (.expr (.ternary ⟨id, a.span.cover c.span, a.pos⟩ a b c))
  | member {period name : Token} {ts : List TokenTree} {e : Expr} {id : Nat} (period_ok : period.kind = .period)
    (name_ok : name.kind = .identifier) (target_ok : Derives ts (.expr e)) :
    Derives (ts ++ [.leaf period, .leaf name]) (.expr (.member ⟨id, e.span.cover name.span, e.pos⟩ e name.value))
  | call {o c : Token} {ts inside : List TokenTree} {e : Expr} {args : List (Argument Expr)} {id : Nat}
    (opener : o.kind = .leftParen) (callee_ok : Derives ts (.expr e)) (args_ok : Derives inside (.list (args.map .arg))) :
    Derives (ts ++ [.group o inside c]) (.expr (.call ⟨id, e.span.cover c.span, e.pos⟩ e args))
  | index {o c : Token} {ts inside : List TokenTree} {e i : Expr} {id : Nat} (opener : o.kind = .leftBracket)
    (target_ok : Derives ts (.expr e)) (index_ok : Derives inside (.expr i)) :
    Derives (ts ++ [.group o inside c]) (.expr (.index ⟨id, e.span.cover c.span, e.pos⟩ e i))
  | slice {o c colon : Token} {ts before after : List TokenTree} {e : Expr} {start stop : Option Expr} {id : Nat}
    (opener : o.kind = .leftBracket) (colon_ok : colon.operatorSymbol? = some ":") (target_ok : Derives ts (.expr e))
    (start_ok : Derives before (.bound start)) (stop_ok : Derives after (.bound stop)) :
    Derives (ts ++ [.group o (before ++ .leaf colon :: after) c])
      (.expr (.slice ⟨id, e.span.cover c.span, e.pos⟩ e start stop))
  -- parts of expressions and declarations
  | unbound : Derives [] (.bound none)
  | bound {ts : List TokenTree} {e : Expr} (ok : Derives ts (.expr e)) : Derives ts (.bound (some e))
  | unset : Derives [] (.value none)
  | set {equals : Token} {ts : List TokenTree} {e : Expr} (equals_ok : equals.kind = .equals)
    (ok : Derives ts (.expr e)) : Derives (.leaf equals :: ts) (.value (some e))
  | arg {ts : List TokenTree} {stop : Token} {e : Expr} (ok : Derives ts (.expr e)) :
    Derives ts (.arg { span := Stretch.span ⟨ts, stop⟩, pos := (Stretch.first ⟨ts, stop⟩).pos, value := some e })
  | param {name stop : Token} {ts : List TokenTree} {value : Option Expr} (name_ok : name.kind = .identifier)
    (value_ok : Derives ts (.value value)) :
    Derives (.leaf name :: ts)
      (.param { span := Stretch.span ⟨.leaf name :: ts, stop⟩, pos := name.pos, name := name.value, value })
  | typedParam {type name stop : Token} {ts : List TokenTree} {value : Option Expr} {id : Nat}
    (type_ok : type.kind = .identifier) (name_ok : name.kind = .identifier) (value_ok : Derives ts (.value value)) :
    Derives (.leaf type :: .leaf name :: ts)
      (.param { span := Stretch.span ⟨.leaf type :: .leaf name :: ts, stop⟩, pos := type.pos, name := name.value,
                type := some (type.ident id), value })
  | empty : Derives [] (.list [])
  | last {ts : List TokenTree} {p : Part} (ok : Derives ts p) : Derives ts (.list [p])
  | next {comma : Token} {ts us : List TokenTree} {p : Part} {ps : List Part} (comma_ok : comma.kind = .comma)
    (ok : Derives ts p) (rest_ok : Derives us (.list ps)) : Derives (ts ++ .leaf comma :: us) (.list (p :: ps))
  -- statements
  | expr {ts : List TokenTree} {e : Expr} (ok : Derives ts (.expr e)) : Derives ts (.shape fun n => .expr n e)
  | declare {word name : Token} {ts : List TokenTree} {value : Option Expr} {id : Nat}
    (word_ok : word.isKeyword "let" = true ∨ word.isKeyword "const" = true) (name_ok : name.kind = .identifier)
    (value_ok : Derives ts (.value value)) :
    Derives (.leaf word :: .leaf name :: ts)
      (.shape fun n => .assign n true (word.value == "const") (name.ident id) value)
  | declareTyped {word type name : Token} {ts : List TokenTree} {value : Option Expr} {id m : Nat}
    (word_ok : word.isKeyword "let" = true ∨ word.isKeyword "const" = true) (type_ok : type.kind = .identifier)
    (name_ok : name.kind = .identifier) (value_ok : Derives ts (.value value)) :
    Derives (.leaf word :: .leaf type :: .leaf name :: ts)
      (.shape fun n => .typed n (type.ident id) (word.value == "const") (name.ident m) value)
  | typed {type name : Token} {ts : List TokenTree} {value : Option Expr} {id m : Nat}
    (type_ok : type.kind = .identifier) (name_ok : name.kind = .identifier) (value_ok : Derives ts (.value value)) :
    Derives (.leaf type :: .leaf name :: ts) (.shape fun n => .typed n (type.ident id) false (name.ident m) value)
  | change {equals : Token} {before after : List TokenTree} {target e : Expr} (equals_ok : equals.kind = .equals)
    (target_ok : Derives before (.expr target)) (ok : Derives after (.expr e)) :
    Derives (before ++ .leaf equals :: after) (.shape fun n => .assign n false false target (some e))
  | conditional {word o c o' c' : Token} {test yes rest : List TokenTree} {e : Expr} {ss ss' : List Stmt}
    (word_ok : word.isKeyword "if" = true) (opener : o.kind = .leftParen) (opener' : o'.kind = .leftBrace)
    (test_ok : Derives test (.expr e)) (yes_ok : Derives yes (.stmts ss)) (no_ok : Derives rest (.otherwise ss')) :
    Derives (.leaf word :: .group o test c :: .group o' yes c' :: rest) (.shape fun n => .conditional n e ss ss')
  | forLoop {word o c o' c' : Token} {inside body : List TokenTree} {init step : Option Stmt} {test : Option Expr}
    {ss : List Stmt} (word_ok : word.isKeyword "for" = true) (opener : o.kind = .leftParen)
    (opener' : o'.kind = .leftBrace) (header_ok : Derives inside (.header init test step))
    (body_ok : Derives body (.stmts ss)) :
    Derives [.leaf word, .group o inside c, .group o' body c'] (.shape fun n => .forLoop n init test step ss)
  | whileLoop {word o c o' c' : Token} {test body : List TokenTree} {e : Expr} {ss : List Stmt}
    (word_ok : word.isKeyword "while" = true) (opener : o.kind = .leftParen) (opener' : o'.kind = .leftBrace)
    (test_ok : Derives test (.expr e)) (body_ok : Derives body (.stmts ss)) :
    Derives [.leaf word, .group o test c, .group o' body c'] (.shape fun n => .whileLoop n e ss)
  | define {word name o c o' c' : Token} {inside body : List TokenTree} {params : List (Argument Expr)}
    {ss : List Stmt} (word_ok : word.isKeyword "def" = true) (name_ok : name.kind = .identifier)
    (opener : o.kind = .leftParen) (opener' : o'.kind = .leftBrace)
    (params_ok : Derives inside (.list (params.map .param))) (body_ok : Derives body (.stmts ss)) :
    Derives [.leaf word, .leaf name, .group o inside c, .group o' body c']
      (.shape fun n => .define n name.value params ss)
  | defineClass {word name o c : Token} {body : List TokenTree} {ss : List Stmt}
    (word_ok : word.isKeyword "class" = true) (name_ok : name.kind = .identifier) (opener : o.kind = .leftBrace)
    (body_ok : Derives body (.stmts ss)) :
    Derives [.leaf word, .leaf name, .group o body c] (.shape fun n => .defineClass n name.value [] ss)
  | defineSubclass {word name o c o' c' : Token} {inside body : List TokenTree} {bases : List Expr} {ss : List Stmt}
    (word_ok : word.isKeyword "class" = true) (name_ok : name.kind = .identifier) (opener : o.kind = .leftParen)
    (opener' : o'.kind = .leftBrace) (bases_ok : Derives inside (.list (bases.map .expr)))
    (body_ok : Derives body (.stmts ss)) :
    Derives [.leaf word, .leaf name, .group o inside c, .group o' body c']
      (.shape fun n => .defineClass n name.value bases ss)
  | ret {word : Token} {ts : List TokenTree} {value : Option Expr} (word_ok : word.isKeyword "return" = true)
    (value_ok : Derives ts (.bound value)) : Derives (.leaf word :: ts) (.shape fun n => .ret n value)
  | brk {word : Token} (word_ok : word.isKeyword "break" = true) : Derives [.leaf word] (.shape .brk)
  | cont {word : Token} (word_ok : word.isKeyword "continue" = true) : Derives [.leaf word] (.shape .cont)
  /-- A statement starts with its first token and reaches to its last one. -/
  | stmt {ts : List TokenTree} {stop : Token} {build : Node → Stmt} {id : Nat} (ok : Derives ts (.shape build)) :
    Derives ts (.stmt (build ⟨id, Stretch.span ⟨ts, stop⟩, (Stretch.first ⟨ts, stop⟩).pos⟩))
  -- parts of statements
  | noClause : Derives [] (.clause none)
  | clause {ts : List TokenTree} {s : Stmt} (ok : Derives ts (.stmt s)) : Derives ts (.clause (some s))
  | header {a b : Token} {first second third : List TokenTree} {init step : Option Stmt} {test : Option Expr}
    (a_ok : a.kind = .semicolon) (b_ok : b.kind = .semicolon) (init_ok : Derives first (.clause init))
    (test_ok : Derives second (.bound test)) (step_ok : Derives third (.clause step)) :
    Derives (first ++ .leaf a :: (second ++ .leaf b :: third)) (.header init test step)
  | noElse : Derives [] (.otherwise [])
  | elseBlock {word o c : Token} {inside : List TokenTree} {ss : List Stmt} (word_ok : word.isKeyword "else" = true)
    (opener : o.kind = .leftBrace) (ok : Derives inside (.stmts ss)) :
    Derives [.leaf word, .group o inside c] (.otherwise ss)
  | elseIf {word : Token} {ts : List TokenTree} {s : Stmt} (word_ok : word.isKeyword "else" = true)
    (ok : Derives ts (.stmt s)) : Derives (.leaf word :: ts) (.otherwise [s])
  | noStmts : Derives [] (.stmts [])
  | separator {semicolon : Token} {ts : List TokenTree} {ss : List Stmt} (kind : semicolon.kind = .semicolon)
    (ok : Derives ts (.stmts ss)) : Derives (.leaf semicolon :: ts) (.stmts ss)
  | stmts {ts us : List TokenTree} {s : Stmt} {ss : List Stmt} (ok : Derives ts (.stmt s))
    (rest_ok : Derives us (.stmts ss)) : Derives (ts ++ us) (.stmts (s :: ss))

end Bracescript
