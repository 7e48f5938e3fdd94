import Bracescript.Diagnostic.Cause

/-!
# Lexemes

Reading one token at the front of a text, without regard to where the text stands.
-/

namespace Bracescript

/-- What a token will hold, and how many bytes it takes. -/
structure Lexeme where
  kind : TokenKind
  size : Nat
  value : Bytes
  flag : Bytes := []
  size_pos : 0 < size := by omega

/-- A fault `off` bytes into the text, which covers `width` bytes there. -/
structure Misread where
  cause : Cause
  off : Nat
  width : Nat

namespace Lexeme

/-- A byte that can begin a name. -/
def isNameStart (b : UInt8) : Bool := Bytes.isLetter b || b == Bytes.ascii '_' || b == Bytes.ascii '$'

def isNamePart (b : UInt8) : Bool := isNameStart b || Bytes.isDigit b

/-- White space within a line. -/
def isBlank (b : UInt8) : Bool := b == 0x20 || b == 0x09 || b == 0x0d

/-! ## Strings -/

def namedEscapes : List (UInt8 × UInt8) :=
  [(Bytes.ascii 'a', 0x07), (Bytes.ascii 'b', 0x08), (Bytes.ascii 'e', 0x1b), (Bytes.ascii 'f', 0x0c),
    (Bytes.ascii 'n', 0x0a), (Bytes.ascii 'r', 0x0d), (Bytes.ascii 't', 0x09), (Bytes.ascii 'v', 0x0b)]

/-- The letters of hexadecimal escapes and how many digits follow them. -/
def hexEscapes : List (UInt8 × Nat) := [(Bytes.ascii 'x', 2), (Bytes.ascii 'u', 4), (Bytes.ascii 'U', 8)]

/-- A number of at most 32 bits, read as a signed word. -/
def signedWord (n : Nat) : Int := if n < 0x80000000 then n else (n : Int) - 0x100000000

/-- A hexadecimal escape: its letter is read, `rest` follows. -/
def readHexEscape (letter : UInt8) (width : Nat) (rest : Bytes) : Except Cause (Bytes × Nat) :=
  let digits := rest.take width
  if digits.length < width || !digits.all Bytes.isHex then .error (.shortEscape letter width)
  else
    let n := digits.foldl (fun n b => n * 16 + Bytes.hexValue b) 0
    if n.isValidChar then .ok (Bytes.ofChar (Char.ofNat n), 1 + width)
    else .error (.invalidCodePoint letter width (signedWord n))

/-- What a backslash followed by `b` and `rest` stands for, and how many bytes after the backslash it takes. -/
def readEscape (b : UInt8) (rest : Bytes) : Except Cause (Bytes × Nat) :=
  match namedEscapes.lookup b with
  | some byte => .ok ([byte], 1)
  | none =>
    match hexEscapes.lookup b with
    | some width => readHexEscape b width rest
    | none =>
      if Bytes.isOctal b then
        let digits := b :: (rest.take 2).takeWhile Bytes.isOctal
        let n := digits.foldl (fun n b => n * 8 + (b.toNat - 0x30)) 0
        .ok (Bytes.ofChar (Char.ofNat n), digits.length)
      else
        let (glyph, size) := Text.glyphAt b rest
        .ok (glyph.repaired, size)

/-- Reads a string up to its closing quote. `off` bytes, the opening quote among them, are behind; the result is the
decoded text and the size with both quotes. -/
def readString (quote : UInt8) (off : Nat) (text : Bytes) : Except Misread (Bytes × Nat) :=
  match text with
  | [] => .error ⟨.unterminatedString, 0, 1⟩
  | b :: rest =>
    if b = quote then .ok ([], off + 1)
    else if b = Bytes.ascii '\\' then
      match rest with
      | [] => .error ⟨.unterminatedString, 0, 1⟩
      | e :: more =>
        match readEscape e more with
        | .error cause => .error ⟨cause, off, 1⟩
        | .ok (value, size) =>
          (readString quote (off + 1 + size) ((e :: more).drop size)).map fun (tail, total) => (value ++ tail, total)
    else (readString quote (off + 1) rest).map fun (tail, total) => (b :: tail, total)
termination_by text.length
decreasing_by all_goals simp_all <;> omega

/-! ## Numbers -/

def isIntWidth (b : UInt8) : Bool := ("bsil" : Bytes).contains b

/-- The suffix in front of a text: a letter, or `u` and a width. -/
def suffix : Bytes → Bytes
  | b :: rest =>
    if ("nfd" : Bytes).contains b || isIntWidth b then [b]
    else if b = Bytes.ascii 'u' then
      match rest with
      | w :: _ => if isIntWidth w then [b, w] else []
      | [] => []
    else []
  | [] => []

/-- Completes a number whose sign and mantissa are `value` and which `rest` follows. -/
def finishNumber (value rest : Bytes) (value_ne : 0 < value.length) : Except Misread Lexeme :=
  let flag := suffix rest
  if ((rest.drop flag.length).head?.map isNamePart).getD false then
    .error ⟨.gluedCharacter, 0, value.length + flag.length + 1⟩
  else .ok { kind := .numberLiteral, size := value.length + flag.length, value, flag }

/-- The digits of a base that is written after a zero. -/
def baseDigit? (base : UInt8) : Option (UInt8 → Bool) :=
  if base = Bytes.ascii 'b' then some fun b => b == 0x30 || b == 0x31
  else if base = Bytes.ascii 'o' then some Bytes.isOctal
  else if base = Bytes.ascii 'x' then some Bytes.isHex
  else none

/-- The fraction in front of a text: a period and at least one digit. -/
def fraction : Bytes → Bytes
  | p :: d :: rest =>
    if p = Bytes.ascii '.' && Bytes.isDigit d then p :: d :: rest.takeWhile Bytes.isDigit else []
  | _ => []

/-- A decimal number whose whole part is `whole`. -/
def readDecimal (sign whole rest : Bytes) (whole_ne : 0 < whole.length) : Except Misread Lexeme :=
  let frac := fraction rest
  finishNumber (sign ++ whole ++ frac) (rest.drop frac.length) (by simp; omega)

/-- A number that starts with the digit `d` behind `sign`. -/
def readUnsigned (sign : Bytes) (d : UInt8) (rest : Bytes) : Except Misread Lexeme :=
  if d = 0x30 then
    match rest with
    | [] => readDecimal sign [d] [] (by simp)
    | b :: more =>
      match baseDigit? b with
      | some isBaseDigit =>
        let digits := more.takeWhile isBaseDigit
        if digits.isEmpty then .error ⟨.missingDigits b, 0, sign.length + 2⟩
        else finishNumber (sign ++ d :: b :: digits) (more.drop digits.length) (by simp only [List.length_append, List.length_cons]; omega)
      | none =>
        if Bytes.isDigit b then .error ⟨.leadingZeros, 0, sign.length + 1⟩
        else readDecimal sign [d] rest (by simp)
  else
    let digits := rest.takeWhile Bytes.isDigit
    readDecimal sign (d :: digits) (rest.drop digits.length) (by simp)

/-! ## All kinds -/

/-- A keyword or an identifier. -/
def readWord (b : UInt8) (rest : Bytes) : Lexeme :=
  let word := b :: rest.takeWhile isNamePart
  { kind := if isKeyword word then .keyword else .identifier, size := word.length, value := word, size_pos := by simp [word] }

/-- An operator, or nothing that is known. -/
def readOperator (b : UInt8) (rest : Bytes) : Except Misread Lexeme :=
  match matchOperator? (b :: rest) with
  | some symbol =>
    if h : 0 < symbol.length then .ok { kind := .operator, size := symbol.length, value := symbol }
    else .error ⟨.unknownCharacter (Text.glyphAt b rest).1.toChar, 0, 1⟩
  | none => .error ⟨.unknownCharacter (Text.glyphAt b rest).1.toChar, 0, 1⟩

/-- Reads the token in front of a text. After an operand a minus is never the sign of a number. -/
def read (afterOperand : Bool) (b : UInt8) (rest : Bytes) : Except Misread Lexeme :=
  if b = Bytes.ascii '=' && rest.head? = some (Bytes.ascii '=') then readOperator b rest
  else
    match TokenKind.ofPunctuation? b with
    | some kind => .ok { kind, size := 1, value := [b] }
    | none =>
      if isBlank b then
        let blanks := b :: rest.takeWhile isBlank
        .ok { kind := .space, size := blanks.length, value := blanks, size_pos := by simp [blanks] }
      else if b = 0x0a then .ok { kind := .newline, size := 1, value := [b] }
      else if isNameStart b then .ok (readWord b rest)
      else if b = Bytes.ascii '"' || b = Bytes.ascii '\'' then
        match readString b 1 rest with
        | .error m => .error m
        | .ok (value, size) =>
          if h : 0 < size then .ok { kind := .stringLiteral, size, value } else .error ⟨.unterminatedString, 0, 1⟩
      else if Bytes.isDigit b then readUnsigned [] b rest
      else if b = Bytes.ascii '-' && !afterOperand then
        match rest with
        | d :: more => if Bytes.isDigit d then readUnsigned [b] d more else readOperator b rest
        | [] => readOperator b rest
      else readOperator b rest

end Lexeme

end Bracescript
