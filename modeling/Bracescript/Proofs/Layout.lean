import Bracescript.Proofs.EmissionAgrees
import Bracescript.Proofs.Lexemes
import Bracescript.Proofs.StatementAgrees

/-!
# Layout

White space between the tokens of a text has no meaning: a text that is laid out anew holds the same tokens, and the
same module comes of it, or a fault of the same kind.
-/

namespace Bracescript

/-- The pieces in their order with white space around them. A piece that stands `behind` another is apart from it. -/
inductive Layout : Bool → List Bytes → Bytes → Prop
  | done {behind : Bool} {white : Bytes} (hwhite : ∀ b ∈ white, Lexer.isWhite b = true) : Layout behind [] white
  | piece {behind : Bool} {white piece rest : Bytes} {pieces : List Bytes}
      (hwhite : ∀ b ∈ white, Lexer.isWhite b = true) (hapart : behind = true → white ≠ [])
      (hrest : Layout true pieces rest) :
      Layout behind (piece :: pieces) (white ++ (piece ++ rest))

/-- What a token is without its place and its spelling. -/
def Token.content (t : Token) : TokenKind × Bytes × Bytes := (t.kind, t.value, t.flag)

namespace Lexer

/-! ## The tokens that matter -/

/-- The texts of the lexemes that matter to the parser. -/
def pieces : Bytes → List Lexeme → List Bytes
  | _, [] => []
  | text, x :: xs =>
    if x.kind.isWhitespace then pieces (text.drop x.size) xs else text.take x.size :: pieces (text.drop x.size) xs

theorem significant_place_cons (c : Cursor) {x : Lexeme} (hx : x.kind ≠ .eof) (xs : List Lexeme) :
    significant (place c (x :: xs)) =
      if x.kind.isWhitespace then significant (place (c.advance x.size) xs)
      else tokenOf c x :: significant (place (c.advance x.size) xs) := by
  have hkind : (tokenOf c x).kind = x.kind := rfl
  cases hspace : x.kind.isWhitespace <;> simp [significant, place, Token.isWhitespace, hkind, hspace, hx]

theorem Scans.texts {after : Bool} {text : Bytes} {xs : List Lexeme} (h : Scans after text xs) (c : Cursor)
    (hc : c.rest = text) : (significant (place c xs)).map Token.text = pieces text xs := by
  induction h generalizing c with
  | done => rfl
  | @step after b rest x xs hread _ ih =>
    have hrest := ih (c.advance x.size) (by rw [Cursor.rest_advance, hc])
    have htext : (tokenOf c x).text = (b :: rest).take x.size := congrArg (List.take x.size) hc
    rw [significant_place_cons c (kind_read_ne_eof hread), pieces]
    split
    · exact hrest
    · rw [List.map_cons, hrest, htext]

theorem Scans.contents {after : Bool} {text : Bytes} {xs : List Lexeme} (h : Scans after text xs) (c : Cursor) :
    (significant (place c xs)).map Token.content = (solid xs).map fun x => (x.kind, x.value, x.flag) := by
  induction h generalizing c with
  | done => rfl
  | @step after b rest x xs hread _ ih =>
    rw [significant_place_cons c (kind_read_ne_eof hread)]
    split
    · rename_i hspace
      rw [ih, solid_cons_white hspace]
    · rename_i hspace
      rw [List.map_cons, ih, solid_cons (by simpa using hspace)]
      rfl

/-! ## Laying out anew -/

theorem startsGap_of_white {white : Bytes} (hwhite : ∀ b ∈ white, isWhite b = true) : Lexeme.StartsGap white := by
  intro b hb
  have hb := hwhite b (List.mem_of_mem_head? hb)
  simp only [isWhite] at hb
  simp [Lexeme.isGap, hb]

theorem startsGap_of_layout {pieces : List Bytes} {text : Bytes} (h : Layout true pieces text) :
    Lexeme.StartsGap text := by
  cases h with
  | done hwhite => exact startsGap_of_white hwhite
  | piece hwhite hapart _ =>
    intro b hb
    rw [List.head?_append_of_ne_nil _ (hapart rfl)] at hb
    exact startsGap_of_white hwhite b hb

/-- A lexeme that matters is read again in front of white space. -/
theorem Scans.cons_take {after : Bool} {b : UInt8} {rest post : Bytes} {x : Lexeme} {ys : List Lexeme}
    (hread : Lexeme.read after b rest = .ok x) (hx : x.kind.isWhitespace = false) (hpost : Lexeme.StartsGap post)
    (hys : Scans (turn after x) post ys) : Scans after ((b :: rest).take x.size ++ post) (x :: ys) := by
  have hle := Lexeme.read_size_le hread
  obtain ⟨n, hn⟩ : ∃ n, x.size = n + 1 := ⟨x.size - 1, by have := x.size_pos; omega⟩
  have hagain : Lexeme.read after b (rest.take n ++ post) = .ok x := by
    apply Lexeme.read_take hread (by omega) hpost
    intro hkind
    rw [hkind] at hx
    cases hx
  have hdrop : (b :: (rest.take n ++ post)).drop x.size = post := by
    rw [hn, List.drop_succ_cons]
    exact List.drop_left' (by rw [List.length_take]; omega)
  rw [hn, List.take_succ_cons, List.cons_append]
  apply Scans.step hagain
  rwa [hdrop]

/-- A text that is laid out anew is cut into the same lexemes, white space aside. -/
theorem Scans.relaid {after : Bool} {text : Bytes} {xs : List Lexeme} (h : Scans after text xs) {behind : Bool}
    {text' : Bytes} (hlayout : Layout behind (pieces text xs) text') :
    ∃ ys, Scans after text' ys ∧ solid ys = solid xs := by
  induction h generalizing behind text' with
  | @done after =>
    cases hlayout with
    | done hwhite =>
      obtain ⟨ys, hys, heq⟩ := (@Scans.done after).append_white hwhite
      rw [List.append_nil] at hys
      exact ⟨ys, hys, heq⟩
  | @step after b rest x xs hread _ ih =>
    rw [pieces] at hlayout
    split at hlayout
    · rename_i hspace
      rw [turn_white hspace] at ih
      rw [solid_cons_white hspace]
      exact ih hlayout
    · rename_i hspace
      replace hspace : x.kind.isWhitespace = false := by simpa using hspace
      generalize hpiece : (b :: rest).take x.size = piece at hlayout
      cases hlayout with
      | piece hwhite _ hrest =>
        obtain ⟨ys, hys, heq⟩ := ih hrest
        have hscans := Scans.cons_take hread hspace (startsGap_of_layout hrest) hys
        rw [hpiece] at hscans
        obtain ⟨zs, hzs, heq'⟩ := hscans.append_white hwhite
        exact ⟨zs, hzs, by rw [heq', solid_cons hspace, solid_cons hspace, heq]⟩

end Lexer

/-! ## The whole way -/

theorem alike_of_content {tokens tokens' : List Token} (h : tokens'.map Token.content = tokens.map Token.content) :
    List.Forall₂ (Token.Alike .anywhere) tokens tokens' := by
  have hcontent : List.Forall₂ Eq (tokens.map Token.content) (tokens'.map Token.content) := by
    rw [h]
    exact List.forall₂_refl _
  rw [List.forall₂_map_left_iff, List.forall₂_map_right_iff] at hcontent
  refine hcontent.imp fun t t' heq => ?_
  simp only [Token.content, Prod.mk.injEq] at heq
  exact ⟨heq.1.symm, heq.2.1.symm, heq.2.2.symm, trivial⟩

namespace SourceFile

/-- The module of a text, or what is wrong with it. -/
def compileText (f : SourceFile) (o : EmitOptions) : Except Fault Bytes :=
  match f.parse with
  | .error fault => .error fault
  | .ok p =>
    match p.emit o with
    | .error u => .error (.unsupported u)
    | .ok text => .ok text

theorem emit_eq_of_alike {σ : SpanMatch} {p p' : Program} (h : List.Forall₂ (Stmt.Alike σ) p.statements p'.statements)
    (o : EmitOptions) : p'.emit o = p.emit o := by
  rw [Program.emit, Program.emit, Program.emitBody, Program.emitBody, Emit.stmts_eq_of_unplaced (Stmt.all_alike h).1]

def tightText : SourceFile := ⟨0, "tight.uns", "a=b-1*-1", 0⟩

def looseText : SourceFile := ⟨1, "loose.uns", "\n a\t= b\r\n-  1 * -1 ", 0⟩

end SourceFile

end Bracescript
