import Bracescript.Proofs.EmittedLiterals
import Bracescript.Proofs.Numerals

/-!
# Number literals

A number is made by the function that its suffix asks for. The parser refuses a fraction with the suffix of an integer
and nothing else, so what is emitted with `n` behind it never has a fraction.
-/

namespace Bracescript

/-! ## The text of a number -/

/-- The functions that make numbers, by suffix. -/
def numberMakers : List (Bytes × Bytes) :=
  [("n", "bigint"), ("f", "float32"), ("d", "double"), ("b", "byte"), ("s", "short"), ("i", "int32"), ("l", "long"),
    ("ub", "unsigned_byte"), ("us", "unsigned_short"), ("ui", "unsigned_int32"), ("ul", "unsigned_long")]

/-- The function that makes a number; without a suffix the period decides. -/
def numberMaker (value flag : Bytes) : Bytes :=
  if flag = "" then if Bytes.ascii '.' ∈ value then "double" else "bigint" else (numberMakers.lookup flag).getD []

/-- Whether the function takes a big integer. -/
def isWide (maker : Bytes) : Bool := maker = "bigint" || maker = "long" || maker = "unsigned_long"

def numberText (value flag : Bytes) : Bytes :=
  numberMaker value flag ++ "(" ++ (if isWide (numberMaker value flag) then value ++ "n" else value) ++ ")"

/-- A fraction with the suffix of an integer. -/
def IsRefused (value flag : Bytes) : Prop := Bytes.ascii '.' ∈ value ∧ flag ∈ integerSuffixes

theorem integerSuffix_kind {flag : Bytes} (h : flag ∈ integerSuffixes) :
    flag ≠ "" ∧ flag ≠ "f" ∧ flag ≠ "d" ∧ ∃ kind maker, LiteralKind.ofIntegerSuffix? flag = some kind ∧
      kind ≠ .string ∧ Target.constructor? kind = some maker ∧ numberMakers.lookup flag = some maker ∧
      Target.takesBigint kind = isWide maker := by
  have htable : ∀ flag ∈ integerSuffixes, flag ≠ "" ∧ flag ≠ "f" ∧ flag ≠ "d" ∧ ∃ kind ∈ LiteralKind.all,
      ∃ maker ∈ Target.exports, LiteralKind.ofIntegerSuffix? flag = some kind ∧
      kind ≠ .string ∧ Target.constructor? kind = some maker ∧ numberMakers.lookup flag = some maker ∧
      Target.takesBigint kind = isWide maker := by decide
  obtain ⟨hempty, hf, hd, kind, -, maker, -, hrest⟩ := htable flag h
  exact ⟨hempty, hf, hd, kind, maker, hrest⟩

theorem numberKind_of_refused {value flag : Bytes} (text : Bytes) (h : IsRefused value flag) :
    numberKind value flag text = .error (.integerSuffixOnFloat flag text) := by
  obtain ⟨hpoint, hflag⟩ := h
  obtain ⟨hempty, hf, hd, kind, -, hkind, -⟩ := integerSuffix_kind hflag
  simp [numberKind, hempty, hf, hd, hkind, hpoint]

/-- A kind whose maker is known writes the number as a call of it. -/
theorem literal_eq_numberText {kind : LiteralKind} {value flag : Bytes} (hstring : kind ≠ .string)
    (hmaker : Target.constructor? kind = some (numberMaker value flag))
    (hwide : Target.takesBigint kind = isWide (numberMaker value flag)) :
    Emit.literal kind value = .ok (numberText value flag) := by
  simp [Emit.literal, hmaker, hstring, hwide, numberText]

theorem numberKind_of_not_refused {value flag : Bytes} (text : Bytes) (hflag : flag ∈ numberSuffixes)
    (h : ¬IsRefused value flag) :
    ∃ kind, numberKind value flag text = .ok kind ∧ Emit.literal kind value = .ok (numberText value flag) := by
  simp only [numberSuffixes, List.mem_cons] at hflag
  rcases hflag with rfl | rfl | rfl | hflag
  · by_cases hpoint : Bytes.ascii '.' ∈ value
    · refine ⟨.double, by simp [numberKind, hpoint], literal_eq_numberText (by simp) ?_ ?_⟩
      · simp [numberMaker, hpoint, Target.constructor?]
      · simp only [numberMaker, hpoint]
        decide
    · refine ⟨.bigint, by simp [numberKind, hpoint], literal_eq_numberText (by simp) ?_ ?_⟩
      · simp [numberMaker, hpoint, Target.constructor?]
      · simp only [numberMaker, hpoint]
        decide
  · exact ⟨.float32, rfl, literal_eq_numberText (by simp) rfl rfl⟩
  · exact ⟨.double, rfl, literal_eq_numberText (by simp) rfl rfl⟩
  · obtain ⟨hempty, hf, hd, kind, maker, hkind, hstring, hmaker, hlookup, hwide⟩ := integerSuffix_kind hflag
    have hpoint : Bytes.ascii '.' ∉ value := fun hpoint => h ⟨hpoint, hflag⟩
    have hname : numberMaker value flag = maker := by simp [numberMaker, hempty, hlookup]
    refine ⟨kind, by simp [numberKind, hempty, hf, hd, hkind, hpoint], literal_eq_numberText hstring ?_ ?_⟩
    · rw [hname, hmaker]
    · rw [hname, hwide]

/-- What takes a big integer has no fraction. -/
theorem not_isWide_of_point {value flag : Bytes} (hflag : flag ∈ numberSuffixes) (h : ¬IsRefused value flag)
    (hpoint : Bytes.ascii '.' ∈ value) : isWide (numberMaker value flag) = false := by
  simp only [numberSuffixes, List.mem_cons] at hflag
  rcases hflag with rfl | rfl | rfl | hflag
  · simp only [numberMaker, hpoint]
    decide
  · rfl
  · rfl
  · exact absurd ⟨hpoint, hflag⟩ h

/-! ## From the text to the program -/

theorem Parse.tokenItem_of_error {t : Token} {cause : Cause} (hkind : t.kind = .numberLiteral)
    (h : numberKind t.value t.flag t.text = .error cause) (s : ParseState) :
    Parse.tokenItem t s = (.error (.malformed (.atToken cause t)), s) := by
  simp only [tokenItem, hkind, h]
  rfl

theorem Parse.tokenItem_of_ok {t : Token} {kind : LiteralKind} (hkind : t.kind = .numberLiteral)
    (h : numberKind t.value t.flag t.text = .ok kind) (s : ParseState) :
    ∃ n, (Parse.tokenItem t s).1 = .ok (.operand (.literal n kind t.value)) := by
  simp only [tokenItem, hkind, h]
  exact ⟨_, rfl⟩

theorem Token.literals_of_number {t : Token} (h : t.kind = .numberLiteral) :
    t.literals = [(numberKind t.value t.flag t.text, t.value)] := by
  simp [Token.literals, h]

theorem SourceFile.all_of_tokenize {f : SourceFile} {tokens : List Token} (h : f.tokenize = .ok tokens) :
    (Lexer.start f).all.1 = tokens := by
  unfold tokenize at h
  split at h
  · rename_i hall
    rw [hall]
    exact Except.ok.inj h
  · cases h

/-- A program that holds a number has it between the literals before it and those behind it. -/
theorem SourceFile.literals_around {f : SourceFile} {p : Program} (hparse : f.parse = .ok p) {before after : List Token}
    {t : Token} (h : (Lexer.start f).all.1 = before ++ t :: after) (hkind : t.kind = .numberLiteral) :
    ∃ kind left right, numberKind t.value t.flag t.text = .ok kind ∧
      Stmt.literalsAll p.statements = left ++ (kind, t.value) :: right ∧ before.flatMap Token.literals = left.map known ∧
      after.flatMap Token.literals = right.map known := by
  obtain ⟨tokens, htokens, hliterals⟩ := literals_of_parse hparse
  rw [← all_of_tokenize htokens, h, List.flatMap_append, List.flatMap_cons, Token.literals_of_number hkind] at hliterals
  obtain ⟨left, rest, hsplit, hleft, hrest⟩ := List.map_eq_append_iff.mp hliterals.symm
  obtain ⟨l, right, rfl, hl, hright⟩ := List.map_eq_cons_iff.mp hrest
  obtain ⟨hl₁, hl₂⟩ := Prod.mk.inj hl
  refine ⟨l.1, left, right, hl₁.symm, ?_, hleft.symm, hright.symm⟩
  rw [hsplit, ← hl₂]

/-- Every number that the lexer answers is a numeral with a suffix behind which no name goes on. The parser refuses it
just when it is a fraction with the suffix of an integer. Otherwise its text in the program is a call of its maker, with
`n` behind the numeral only where this has no period, and stands between the literals before it and those behind it. -/
theorem SourceFile.numbers_sound (f : SourceFile) {before after : List Token} {t : Token}
    (h : (Lexer.start f).all.1 = before ++ t :: after) (hkind : t.kind = .numberLiteral) :
    (t.text = t.value ++ t.flag ∧ IsNumeral t.value ∧ t.flag ∈ numberSuffixes ∧
      ∃ tail, f.content = before.flatMap Token.text ++ t.text ++ tail ∧
        ∀ b, tail.head? = some b → Lexeme.isNamePart b = false) ∧
    (IsRefused t.value t.flag → (∀ s, Parse.tokenItem t s =
      (.error (.malformed (.atToken (.integerSuffixOnFloat t.flag t.text) t)), s)) ∧ ∃ fault, f.parse = .error fault) ∧
    (¬IsRefused t.value t.flag →
      (∀ s, ∃ n kind, (Parse.tokenItem t s).1 = .ok (.operand (.literal n kind t.value)) ∧
        Emit.literal kind t.value = .ok (numberText t.value t.flag)) ∧
      (isWide (numberMaker t.value t.flag) = true → Bytes.ascii '.' ∉ t.value) ∧
      ∀ p body, f.parse = .ok p → p.emitBody = .ok body →
        ∃ ls left rs right, body = left ++ numberText t.value t.flag ++ right ∧
          before.flatMap Token.literals = ls.map known ∧ Emit.Renders ls left ∧
          after.flatMap Token.literals = rs.map known ∧ Emit.Renders rs right) := by
  have hspelled := number_spelled h hkind
  have hflag : t.flag ∈ numberSuffixes := hspelled.2.2.1
  refine ⟨hspelled, fun hrefused => ⟨fun s => ?_, ?_⟩, fun hkept => ⟨fun s => ?_, fun hwide hpoint => ?_, ?_⟩⟩
  · exact Parse.tokenItem_of_error hkind (numberKind_of_refused _ hrefused) s
  · cases hparse : f.parse with
    | error fault => exact ⟨fault, rfl⟩
    | ok p =>
      obtain ⟨kind, -, -, hknown, -⟩ := literals_around hparse h hkind
      rw [numberKind_of_refused _ hrefused] at hknown
      cases hknown
  · obtain ⟨kind, hknown, htext⟩ := numberKind_of_not_refused t.text hflag hkept
    obtain ⟨n, hitem⟩ := Parse.tokenItem_of_ok hkind hknown s
    exact ⟨n, kind, hitem, htext⟩
  · rw [not_isWide_of_point hflag hkept hpoint] at hwide
    cases hwide
  · intro p body hparse hbody
    obtain ⟨kind, hknown, htext⟩ := numberKind_of_not_refused t.text hflag hkept
    obtain ⟨kind', ls, rs, hknown', hliterals, hbefore, hafter⟩ := literals_around hparse h hkind
    obtain rfl : kind = kind' := Except.ok.inj (hknown.symm.trans hknown')
    have hrenders := Emit.stmts_renders p.statements body hbody
    rw [hliterals] at hrenders
    obtain ⟨left, text, right, htext', hsplit, hleft, hright⟩ := hrenders.split
    obtain rfl := Except.ok.inj (htext.symm.trans htext')
    exact ⟨ls, left, rs, right, hsplit, hbefore, hleft, hafter, hright⟩

/-- A number in base sixteen between two others. -/
def threeNumbers : SourceFile := ⟨0, "three.uns", "f(1.5, -0x1Ful)[0]", 0⟩

theorem threeNumbers_sound :
    ∃ before t after, (Lexer.start threeNumbers).all.1 = before ++ t :: after ∧ t.kind = .numberLiteral ∧
      t.text = ("-0x1Ful" : Bytes) ∧ IsNumeral t.value ∧ ∃ p body left right, threeNumbers.parse = .ok p ∧
        p.emitBody = .ok body ∧ body = left ++ "unsigned_long(-0x1Fn)" ++ right := by
  have hread : ((Lexer.start threeNumbers).all.1[5]?.map fun t => (t.kind, t.text, t.value, t.flag)) =
      some (.numberLiteral, ("-0x1Ful" : Bytes), ("-0x1F" : Bytes), ("ul" : Bytes)) := by decide +kernel
  obtain ⟨t, ht, hfields⟩ := Option.map_eq_some_iff.mp hread
  simp only [Prod.mk.injEq] at hfields
  obtain ⟨hkind, htext, hvalue, hflag⟩ := hfields
  obtain ⟨hlt, hget⟩ := List.getElem?_eq_some_iff.mp ht
  have hall := (List.take_append_drop 5 (Lexer.start threeNumbers).all.1).symm
  rw [List.drop_eq_getElem_cons hlt, hget] at hall
  obtain ⟨⟨-, hnumeral, -⟩, -, hkept⟩ := threeNumbers.numbers_sound hall hkind
  obtain ⟨p, body, hparse, hbody⟩ := SourceFile.exists_body threeNumbers 3 (by decide +kernel)
  rw [hvalue, hflag] at hkept
  obtain ⟨-, -, hemitted⟩ := hkept (by unfold IsRefused; decide)
  obtain ⟨-, left, -, right, hsplit, -⟩ := hemitted p body hparse hbody
  exact ⟨_, t, _, hall, hkind, htext, hnumeral, p, body, left, right, hparse, hbody, hsplit⟩

end Bracescript
