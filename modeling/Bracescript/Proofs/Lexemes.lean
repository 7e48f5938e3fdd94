import Bracescript.Proofs.Lookahead
import Bracescript.Proofs.Unplaced

/-!
# The lexemes of a text

What a text is cut into, without the places: the tokens of a file are its lexemes, each put where it stands. White
space in front of a text adds white space only, and two texts with a semicolon between them are cut as each is alone.
-/

namespace Bracescript

namespace Lexeme

/-! ## Sizes -/

theorem readOperator_size_le {b : UInt8} {rest : Bytes} {x : Lexeme} (h : readOperator b rest = .ok x) :
    x.size ≤ rest.length + 1 := by
  unfold readOperator at h
  split at h
  · rename_i symbol hsymbol
    split at h
    · cases h
      have hstarts : Bytes.startsWith (b :: rest) symbol = true := List.find?_some hsymbol
      exact (List.isPrefixOf_iff_prefix.mp hstarts).length_le
    · cases h
  · cases h

/-- What is read is a piece of the text. -/
theorem read_size_le {after : Bool} {b : UInt8} {rest : Bytes} {x : Lexeme} (h : read after b rest = .ok x) :
    x.size ≤ rest.length + 1 := by
  unfold read at h
  split at h
  · exact readOperator_size_le h
  split at h
  · cases h
    simp
  split at h
  · cases h
    have hblanks := (List.takeWhile_sublist isBlank (l := rest)).length_le
    simpa using hblanks
  split at h
  · cases h
    simp
  split at h
  · cases h
    have hparts := (List.takeWhile_sublist isNamePart (l := rest)).length_le
    simpa [readWord] using hparts
  split at h
  · rename_i hquote
    split at h
    · cases h
    · rename_i value size hstring
      obtain ⟨mid, post, rfl, hsize, -⟩ := readString_quote (isQuote_of_or hquote) hstring
      split at h
      · cases h
        dsimp only at hsize ⊢
        simp only [List.length_append, List.length_cons]
        omega
      · cases h
  split at h
  · have hsize := (readUnsigned_size h).2
    simp only [List.length_nil] at hsize
    omega
  split at h
  · split at h
    · split at h
      · have hsize := (readUnsigned_size h).2
        simp only [List.length_cons, List.length_nil] at hsize ⊢
        omega
      · exact readOperator_size_le h
    · exact readOperator_size_le h
  · exact readOperator_size_le h

/-- What is read is read again when more follows that does not go on with it. -/
theorem read_append {after : Bool} {b : UInt8} {rest post : Bytes} {x : Lexeme} (h : read after b rest = .ok x)
    (hpost : StartsGap post) (hblank : post.takeWhile isBlank = []) : read after b (rest ++ post) = .ok x := by
  have htake := read_take h (read_size_le h) hpost fun _ => hblank
  rwa [List.take_length] at htake

end Lexeme

namespace Lexer

/-- Whether a minus behind the lexeme subtracts. -/
def turn (after : Bool) (x : Lexeme) : Bool :=
  if x.kind.isWhitespace then after else endsOperand (Token.mark x.kind x.value)

/-- The text is cut into these lexemes, of which the first is read behind an operand or not. -/
inductive Scans : Bool → Bytes → List Lexeme → Prop
  | done {after : Bool} : Scans after [] []
  | step {after : Bool} {b : UInt8} {rest : Bytes} {x : Lexeme} {xs : List Lexeme}
      (read : Lexeme.read after b rest = .ok x) (next : Scans (turn after x) ((b :: rest).drop x.size) xs) :
      Scans after (b :: rest) (x :: xs)

/-- The tokens of lexemes that stand one behind the other from the cursor on. -/
def place (c : Cursor) : List Lexeme → List Token
  | [] => []
  | x :: xs => tokenOf c x :: place (c.advance x.size) xs

theorem afterOperand_after (lx : Lexer) (x : Lexeme) :
    (lx.after x (tokenOf lx.cursor x)).afterOperand = turn lx.afterOperand x := by
  unfold after turn
  by_cases hspace : x.kind.isWhitespace = true
  · simp [afterOperand, Token.isWhitespace, tokenOf, hspace]
  · simp [afterOperand, Token.isWhitespace, tokenOf, hspace, endsOperand, Token.mark]

theorem scans_of_all (lx : Lexer) (hall : lx.all.2 = none) :
    ∃ xs, Scans lx.afterOperand lx.cursor.rest xs ∧ lx.all.1 = place lx.cursor xs := by
  fun_induction all lx with
  | case1 => cases hall
  | case2 lx _ hrest =>
    rw [hrest]
    exact ⟨[], .done, rfl⟩
  | case3 => cases hall
  | case4 lx _ b rest hrest x hread t tokens fault htail ih =>
    rw [htail] at ih
    obtain ⟨xs, hscans, hplace⟩ := ih hall
    rw [afterOperand_after] at hscans
    replace hscans : Scans _ (lx.cursor.advance x.size).rest xs := hscans
    rw [Cursor.rest_advance, hrest] at hscans
    rw [hrest]
    exact ⟨x :: xs, .step hread hscans, congrArg (t :: ·) hplace⟩

theorem all_of_scans (lx : Lexer) (hfault : lx.fault = none) {xs : List Lexeme}
    (h : Scans lx.afterOperand lx.cursor.rest xs) : lx.all = (place lx.cursor xs, none) := by
  fun_induction all lx generalizing xs with
  | case1 lx e he => simp [hfault] at he
  | case2 lx _ hrest =>
    rw [hrest] at h
    cases h
    rfl
  | case3 lx _ b rest hrest m hm =>
    rw [hrest] at h
    cases h with
    | step hread => simp [hm] at hread
  | case4 lx _ b rest hrest x hx t tokens fault htail ih =>
    rw [hrest] at h
    cases h with
    | step hread hnext =>
      obtain rfl := Except.ok.inj (hx.symm.trans hread)
      rw [← hrest, ← Cursor.rest_advance, ← afterOperand_after] at hnext
      have htokens := htail.symm.trans (ih hfault hnext)
      cases htokens
      rfl

end Lexer

/-- The tokens of a file are its lexemes, each where it stands. -/
theorem SourceFile.tokenize_eq_ok_iff {f : SourceFile} {tokens : List Token} :
    f.tokenize = .ok tokens ↔ ∃ xs, Lexer.Scans false f.content xs ∧ tokens = Lexer.place (Cursor.start f) xs := by
  unfold tokenize
  constructor
  · intro h
    split at h
    · rename_i hall
      cases h
      obtain ⟨xs, hscans, hplace⟩ := Lexer.scans_of_all (Lexer.start f) (by rw [hall])
      rw [hall] at hplace
      exact ⟨xs, hscans, hplace⟩
    · cases h
  · rintro ⟨xs, hscans, rfl⟩
    rw [Lexer.all_of_scans (Lexer.start f) rfl hscans]
    rfl

namespace Lexer

/-! ## White space in front -/

/-- The lexemes that matter to the parser. -/
def solid (xs : List Lexeme) : List Lexeme := xs.filter fun x => !x.kind.isWhitespace

theorem solid_cons_white {x : Lexeme} (hx : x.kind.isWhitespace = true) (xs : List Lexeme) :
    solid (x :: xs) = solid xs := by
  simp [solid, hx]

theorem solid_cons {x : Lexeme} (hx : x.kind.isWhitespace = false) (xs : List Lexeme) :
    solid (x :: xs) = x :: solid xs := by
  simp [solid, hx]

theorem turn_white {x : Lexeme} (hx : x.kind.isWhitespace = true) (after : Bool) : turn after x = after := if_pos hx

/-- A byte that separates tokens and is none. -/
def isWhite (b : UInt8) : Bool := Lexeme.isBlank b || b == 0x0a

theorem read_blank {b : UInt8} (hb : Lexeme.isBlank b = true) (after : Bool) (rest : Bytes) :
    ∃ x, Lexeme.read after b rest = .ok x ∧ x.kind.isWhitespace = true ∧
      x.size = (rest.takeWhile Lexeme.isBlank).length + 1 := by
  have hcases : b = 0x20 ∨ b = 0x09 ∨ b = 0x0d := by
    simpa [Lexeme.isBlank, or_assoc] using hb
  rcases hcases with rfl | rfl | rfl <;> exact ⟨_, rfl, rfl, rfl⟩

theorem Scans.cons_blank {after : Bool} {b : UInt8} (hb : Lexeme.isBlank b = true) {text : Bytes} {xs : List Lexeme}
    (h : Scans after text xs) : ∃ ys, Scans after (b :: text) ys ∧ solid ys = solid xs := by
  obtain ⟨y, hy, hwhite, hsize⟩ := read_blank hb after text
  have hnext : ∀ {ys : List Lexeme}, Scans after ((b :: text).drop y.size) ys → Scans after (b :: text) (y :: ys) := by
    intro ys hys
    rw [← turn_white hwhite after] at hys
    exact .step hy hys
  cases h with
  | done =>
    rw [hsize] at hnext
    exact ⟨[y], hnext .done, solid_cons_white hwhite []⟩
  | @step _ c rest x xs hread hrest =>
    by_cases hc : Lexeme.isBlank c = true
    · -- the blank joins the white space that is in front already
      obtain ⟨x', hread', hwhite', hsize'⟩ := read_blank hc after rest
      obtain rfl := Except.ok.inj (hread.symm.trans hread')
      rw [List.takeWhile_cons_of_pos hc, List.length_cons, ← hsize'] at hsize
      rw [hsize, List.drop_succ_cons] at hnext
      rw [turn_white hwhite'] at hrest
      exact ⟨y :: xs, hnext hrest, by rw [solid_cons_white hwhite, solid_cons_white hwhite']⟩
    · rw [List.takeWhile_cons_of_neg hc] at hsize
      rw [hsize] at hnext
      exact ⟨y :: x :: xs, hnext (.step hread hrest), solid_cons_white hwhite _⟩

/-- White space in front of a text adds white space only. -/
theorem Scans.append_white {after : Bool} {white text : Bytes} {xs : List Lexeme}
    (hwhite : ∀ b ∈ white, isWhite b = true) (h : Scans after text xs) :
    ∃ ys, Scans after (white ++ text) ys ∧ solid ys = solid xs := by
  induction white with
  | nil => exact ⟨xs, h, rfl⟩
  | cons b white ih =>
    rw [List.forall_mem_cons] at hwhite
    obtain ⟨ys, hys, heq⟩ := ih hwhite.2
    rcases (Bool.or_eq_true _ _).mp hwhite.1 with hb | hb
    · obtain ⟨zs, hzs, heq'⟩ := hys.cons_blank hb
      exact ⟨zs, hzs, heq'.trans heq⟩
    · obtain rfl : b = 0x0a := by simpa using hb
      exact ⟨_ :: ys, .step rfl hys, heq⟩

/-! ## A semicolon between -/

theorem drop_append_of_read {after : Bool} {b : UInt8} {rest : Bytes} {x : Lexeme}
    (h : Lexeme.read after b rest = .ok x) (post : Bytes) :
    (b :: (rest ++ post)).drop x.size = (b :: rest).drop x.size ++ post := by
  rw [← List.cons_append, List.drop_append_of_le_length (Lexeme.read_size_le h)]

/-- Behind a semicolon everything is read as at the start of a text. -/
theorem Scans.append_semicolon {after : Bool} {text post : Bytes} {xs ys : List Lexeme} (h : Scans after text xs)
    (hpost : Scans false post ys) :
    ∃ x : Lexeme, x.kind = .semicolon ∧ x.size = 1 ∧ Scans after (text ++ 0x3b :: post) (xs ++ x :: ys) := by
  induction h with
  | done => exact ⟨_, rfl, rfl, .step rfl hpost⟩
  | @step after b rest x xs hread _ ih =>
    obtain ⟨semicolon, hkind, hsize, hscans⟩ := ih
    rw [← drop_append_of_read hread] at hscans
    have hstarts : Lexeme.StartsGap (0x3b :: post) := Lexeme.startsGap_cons.mpr rfl
    have hagain := Lexeme.read_append hread hstarts rfl
    exact ⟨semicolon, hkind, hsize, .step hagain hscans⟩

end Lexer

end Bracescript
