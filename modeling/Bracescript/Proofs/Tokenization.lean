import Bracescript.Lexer
import Bracescript.Proofs.Position

/-!
# Tokens keep the text

The tokens of a file lie one behind the other and leave nothing out, up to the end of the file or the first fault.
-/

namespace Bracescript

/-- The token has a text of its own in the file and says where that text stands. -/
structure Token.Faithful (f : SourceFile) (t : Token) : Prop where
  nonempty : t.span.start < t.span.stop
  inside : t.span.stop.toNat ≤ f.content.length
  text_eq : t.text = f.text t.span
  pos_eq : t.pos = f.position t.span.start
  pos_eq_search : t.pos = f.searchPosition t.span.start

namespace Lexer

/-- The calls of a lexer answer these tokens, none of which is the end, and then `last`, the end or a fault. -/
def Gives (lx : Lexer) : List Token → Except SyntaxError Token → Prop
  | [], last => lx.next.1 = last ∧ ∀ t, last = .ok t → t.kind = .eof
  | t :: ts, last => lx.next.1 = .ok t ∧ t.kind ≠ .eof ∧ lx.next.2.Gives ts last

/-- Tokens that lie one behind the other in a file, from `start` up to `stop`. -/
def Tile (f : SourceFile) (start : UInt32) : List Token → UInt32 → Prop
  | [], stop => start = stop
  | t :: ts, stop => t.Faithful f ∧ t.span.start = start ∧ Tile f t.span.stop ts stop

/-! ## Kinds -/

theorem eq_or_of_ite_eq_some {α : Type} {p : Prop} [Decidable p] {a k : α} {x : Option α}
    (h : (if p then some a else x) = some k) : (p ∧ a = k) ∨ x = some k := by
  split at h
  · rename_i hp
    exact .inl ⟨hp, Option.some.inj h⟩
  · exact .inr h

/-- A semicolon stands for itself, and no other punctuation is like it, like white space or like the end. -/
theorem ofPunctuation_cases {b : UInt8} {kind : TokenKind} (h : TokenKind.ofPunctuation? b = some kind) :
    (b = 0x3b ∧ kind = .semicolon) ∨ (kind ≠ .semicolon ∧ kind.isWhitespace = false ∧ kind ≠ .eof) := by
  unfold TokenKind.ofPunctuation? at h
  obtain ⟨hb, rfl⟩ | h := eq_or_of_ite_eq_some h
  · exact .inl ⟨hb, rfl⟩
  right
  iterate 9
    obtain ⟨-, rfl⟩ | h := eq_or_of_ite_eq_some h
    · decide
  cases h

theorem kind_finishNumber {value rest : Bytes} {hne : 0 < value.length} {x : Lexeme}
    (h : Lexeme.finishNumber value rest hne = .ok x) : x.kind = .numberLiteral := by
  simp only [Lexeme.finishNumber] at h
  split at h
  · cases h
  · cases h
    rfl

theorem kind_readDecimal {sign whole rest : Bytes} {hne : 0 < whole.length} {x : Lexeme}
    (h : Lexeme.readDecimal sign whole rest hne = .ok x) : x.kind = .numberLiteral := by
  unfold Lexeme.readDecimal at h
  exact kind_finishNumber h

theorem kind_readUnsigned {sign : Bytes} {d : UInt8} {rest : Bytes} {x : Lexeme}
    (h : Lexeme.readUnsigned sign d rest = .ok x) : x.kind = .numberLiteral := by
  simp only [Lexeme.readUnsigned] at h
  split at h
  · split at h
    · exact kind_readDecimal h
    · split at h
      · split at h
        · cases h
        · exact kind_finishNumber h
      · split at h
        · cases h
        · exact kind_readDecimal h
  · exact kind_readDecimal h

theorem kind_readOperator {b : UInt8} {rest : Bytes} {x : Lexeme} (h : Lexeme.readOperator b rest = .ok x) :
    x.kind = .operator := by
  unfold Lexeme.readOperator at h
  split at h
  · split at h
    · cases h
      rfl
    · cases h
  · cases h

/-- What a reading in front of a text can come to. -/
inductive Outcome (b : UInt8) (rest : Bytes) (result : Except Misread Lexeme) : Prop
  | operator (eq : result = Lexeme.readOperator b rest)
  | punctuation {x : Lexeme} (known : TokenKind.ofPunctuation? b = some x.kind) (size : x.size = 1) (eq : result = .ok x)
  | blank {x : Lexeme} (known : Lexeme.isBlank b = true) (kind : x.kind = .space)
      (size : x.size = (rest.takeWhile Lexeme.isBlank).length + 1) (eq : result = .ok x)
  | lineFeed {x : Lexeme} (known : b = 0x0a) (kind : x.kind = .newline) (size : x.size = 1) (eq : result = .ok x)
  | word (eq : result = .ok (Lexeme.readWord b rest))
  | badString {m : Misread} (fails : Lexeme.readString b 1 rest = .error m) (eq : result = .error m)
  | string {x : Lexeme} (kind : x.kind = .stringLiteral) (eq : result = .ok x)
  | unterminated (eq : result = .error ⟨.unterminatedString, 0, 1⟩)
  | unsigned (eq : result = Lexeme.readUnsigned [] b rest)
  | negative {d : UInt8} {more : Bytes} (digit : rest = d :: more) (eq : result = Lexeme.readUnsigned [b] d more)

theorem read_outcome (after : Bool) (b : UInt8) (rest : Bytes) : Outcome b rest (Lexeme.read after b rest) := by
  unfold Lexeme.read
  split
  · exact .operator rfl
  split
  · rename_i known
    exact .punctuation known rfl rfl
  split
  · rename_i known
    exact .blank known rfl rfl rfl
  split
  · rename_i known
    exact .lineFeed known rfl rfl rfl
  split
  · exact .word rfl
  split
  · split
    · rename_i fails
      exact .badString fails rfl
    · split
      · exact .string rfl rfl
      · exact .unterminated rfl
  split
  · exact .unsigned rfl
  split
  · split
    · split
      · exact .negative rfl rfl
      · exact .operator rfl
    · exact .operator rfl
  · exact .operator rfl

/-- What is read is never the end. -/
theorem kind_read_ne_eof {after : Bool} {b : UInt8} {rest : Bytes} {x : Lexeme}
    (h : Lexeme.read after b rest = .ok x) : x.kind ≠ .eof := by
  cases h ▸ read_outcome after b rest with
  | operator eq => simp [kind_readOperator eq.symm]
  | punctuation known _ eq =>
    cases eq
    obtain ⟨-, kind⟩ | ⟨-, -, hne⟩ := ofPunctuation_cases known
    · simp [kind]
    · exact hne
  | blank _ kind _ eq | lineFeed _ kind _ eq | string kind eq =>
    cases eq
    simp [kind]
  | word eq =>
    cases eq
    simp only [Lexeme.readWord]
    split <;> simp
  | badString fails eq => cases eq
  | unterminated eq => cases eq
  | unsigned eq => simp [kind_readUnsigned eq.symm]
  | negative digit eq => simp [kind_readUnsigned eq.symm]

/-! ## One token -/

variable {f : SourceFile}

theorem tokenOf_faithful {c : Cursor} (hfit : f.content.length < 2 ^ 32) (h : c.Stands f) (hne : c.rest ≠ [])
    (x : Lexeme) : (tokenOf c x).Faithful f := by
  obtain ⟨hstands, hoff⟩ := h.advance hfit x.size
  have hlen := h.length_rest
  have hrest : 0 < c.rest.length := List.length_pos_iff.mpr hne
  have hsize := x.size_pos
  have hpos : c.pos = f.position c.off := h.mark.pos_eq hfit
  refine ⟨?_, hstands.mark.off_le, ?_, hpos, ?_⟩
  · rw [UInt32.lt_iff_toNat_lt]
    show c.off.toNat < (c.advance x.size).off.toNat
    omega
  · show c.rest.take x.size = (f.content.take (c.advance x.size).off.toNat).drop c.off.toNat
    rw [hoff, h.mark.rest_eq, List.drop_take]
    rw [List.take_eq_take_iff, List.length_drop]
    omega
  · exact hpos.trans (f.searchPosition_eq hfit _ h.mark.off_le).symm

/-- A fault is never said to start in front of the text that is misread. -/
theorem errorOf_start_le {c : Cursor} (hfit : f.content.length < 2 ^ 32) (h : c.Stands f) (m : Misread) :
    c.off ≤ (errorOf c m).span.start := by
  obtain ⟨-, hoff⟩ := h.advance hfit m.off
  have hle := h.mark.off_le
  rw [UInt32.le_iff_toNat_le]
  show c.off.toNat ≤ (c.advance m.off).off.toNat
  omega

/-! ## All tokens -/

/-- What the calls of a lexer answer: its tokens cover the file from the cursor on, up to the end or a fault. -/
theorem all_tile (hfit : f.content.length < 2 ^ 32) (lx : Lexer) (hfault : lx.fault = none)
    (h : lx.cursor.Stands f) :
    ∃ last stop, lx.Gives lx.all.1 last ∧ Tile f lx.cursor.off lx.all.1 stop ∧
      match lx.all.2 with
      | none => (∃ t, last = .ok t) ∧ stop.toNat = f.content.length
      | some e => last = .error e ∧ stop ≤ e.span.start := by
  fun_induction all lx with
  | case1 lx e he => simp [hfault] at he
  | case2 lx _ hrest =>
    have hend : lx.cursor.off.toNat = f.content.length := by
      have hlen := h.length_rest
      have hle := h.mark.off_le
      rw [hrest, List.length_nil] at hlen
      omega
    refine ⟨.ok (eofToken lx.cursor), lx.cursor.off, ⟨?_, ?_⟩, rfl, ⟨_, rfl⟩, hend⟩
    · simp only [next, hfault, hrest]
    · rintro t ht
      cases ht
      rfl
  | case3 lx _ b rest hrest m hm =>
    refine ⟨.error (errorOf lx.cursor m), lx.cursor.off, ⟨?_, ?_⟩, rfl, rfl, errorOf_start_le hfit h m⟩
    · simp only [next, hfault, hrest, hm]
    · rintro t ht
      cases ht
  | case4 lx _ b rest hrest x hx t tokens fault hall ih =>
    have hnext : lx.next = (.ok t, lx.after x t) := by simp only [next, hfault, hrest, hx, t]
    have hstands := (h.advance hfit x.size).1
    obtain ⟨last, stop, hgives, htile, hend⟩ := ih hfault hstands
    rw [hall] at hgives htile hend
    refine ⟨last, stop, ⟨?_, kind_read_ne_eof hx, ?_⟩, ⟨?_, rfl, htile⟩, hend⟩
    · rw [hnext]
    · rw [hnext]
      exact hgives
    · exact tokenOf_faithful hfit h (by simp [hrest]) x

theorem Tile.le {start stop : UInt32} {tokens : List Token} (h : Tile f start tokens stop) : start ≤ stop := by
  induction tokens generalizing start with
  | nil =>
    obtain rfl : start = stop := h
    exact UInt32.le_refl _
  | cons t ts ih =>
    obtain ⟨ht, rfl, hts⟩ := h
    exact UInt32.le_trans (UInt32.le_of_lt ht.nonempty) (ih hts)

/-- The texts of tokens that lie one behind the other are the text that they cover. -/
theorem Tile.flatten_text {start stop : UInt32} {tokens : List Token} (h : Tile f start tokens stop) :
    (tokens.map Token.text).flatten = f.slice start.toNat stop.toNat := by
  induction tokens generalizing start with
  | nil =>
    obtain rfl : start = stop := h
    simp [SourceFile.slice]
  | cons t ts ih =>
    obtain ⟨ht, rfl, hts⟩ := h
    have hstop := UInt32.le_iff_toNat_le.mp hts.le
    have hstart := UInt32.lt_iff_toNat_lt.mp ht.nonempty
    rw [List.map_cons, List.flatten_cons, ih hts, ht.text_eq, SourceFile.text,
      f.slice_append (Nat.le_of_lt hstart) hstop]

/-- The tokens that the calls of a lexer answer before the end or a fault lie one behind the other from the first byte
on, each with its text and its position. In front of the end they cover the whole file, so nothing is lost; a fault is
not reported in front of the last of them. -/
theorem tokenization_lossless (f : SourceFile) (hfit : f.content.length < 2 ^ 32 - 1) :
    ∃ tokens last stop, (Lexer.start f).Gives tokens last ∧ Tile f 0 tokens stop ∧
      match last with
      | .ok _ => f.tokenize = .ok tokens ∧ stop.toNat = f.content.length ∧ (tokens.map Token.text).flatten = f.content
      | .error e => f.tokenize = .error e ∧ stop ≤ e.span.start := by
  obtain ⟨last, stop, hgives, htile, hend⟩ := all_tile (by omega) (Lexer.start f) rfl (Cursor.stands_start f)
  refine ⟨_, last, stop, hgives, htile, ?_⟩
  have htext := htile.flatten_text
  unfold SourceFile.tokenize
  generalize hall : (Lexer.start f).all = run at *
  obtain ⟨tokens, fault⟩ := run
  cases fault with
  | none =>
    obtain ⟨⟨t, rfl⟩, hstop⟩ := hend
    refine ⟨rfl, hstop, ?_⟩
    rw [htext, hstop]
    simp [SourceFile.slice, Lexer.start, Cursor.start]
  | some e =>
    obtain ⟨rfl, hstop⟩ := hend
    exact ⟨rfl, hstop⟩

/-- Two lines, a string that goes over the line end between them, and a fault at the end. -/
def twoLines : SourceFile := ⟨0, "two.uns", "a = 'x\ny'\n+ 0z", 0⟩

theorem twoLines_lossless :
    twoLines.content.length < 2 ^ 32 - 1 ∧
      ∃ tokens last stop, (Lexer.start twoLines).Gives tokens last ∧ Tile twoLines 0 tokens stop ∧
        match last with
        | .ok _ => twoLines.tokenize = .ok tokens ∧ stop.toNat = twoLines.content.length ∧
            (tokens.map Token.text).flatten = twoLines.content
        | .error e => twoLines.tokenize = .error e ∧ stop ≤ e.span.start :=
  ⟨by decide, tokenization_lossless twoLines (by decide)⟩

end Lexer

end Bracescript
