import Bracescript.Proofs.Emission
import Bracescript.Proofs.EmissionAgrees
import Bracescript.Proofs.Lexemes
import Bracescript.Proofs.StatementAgrees
import Bracescript.Proofs.StatementReads
import Mathlib.Algebra.Group.Nat.Defs

/-!
# Composition

Two texts with a semicolon between them mean what the one means and then what the other means.
-/

namespace Bracescript

open TokenTree

/-! ## Places that move -/

/-- The span in another file, `k` bytes further on. -/
def Span.moved (file k : UInt32) (s : Span) : Span := ⟨file, s.start + k, s.stop + k⟩

/-- A span of file `i` that is moved to file `j` and does not go over the greatest offset there. -/
structure Span.Moves (i j k : UInt32) (s s' : Span) : Prop where
  file : s.file = i
  start_lt : s.start.toNat + k.toNat < 2 ^ 32
  stop_lt : s.stop.toNat + k.toNat < 2 ^ 32
  eq : s' = s.moved j k

theorem Span.Moves.cover {i j k : UInt32} {s s' t t' : Span} (hs : s.Moves i j k s') (ht : t.Moves i j k t') :
    (s.cover t).Moves i j k (s'.cover t') := by
  have hle : ∀ {x y : UInt32}, x.toNat + k.toNat < 2 ^ 32 → y.toNat + k.toNat < 2 ^ 32 → (x + k ≤ y + k ↔ x ≤ y) := by
    intro x y hx hy
    rw [UInt32.le_iff_toNat_le, UInt32.le_iff_toNat_le, UInt32.toNat_add, UInt32.toNat_add]
    omega
  obtain ⟨hfile, hstart, hstop, rfl⟩ := hs
  obtain ⟨hfile', hstart', hstop', rfl⟩ := ht
  have hcover : s.cover t = ⟨i, if s.start ≤ t.start then s.start else t.start,
      if s.stop ≤ t.stop then t.stop else s.stop⟩ := by
    rw [Span.cover, if_pos (hfile.trans hfile'.symm), hfile]
    rfl
  rw [hcover]
  refine ⟨rfl, ?_, ?_, ?_⟩
  · dsimp only
    split
    · exact hstart
    · exact hstart'
  · dsimp only
    split
    · exact hstop'
    · exact hstop
  · have hcover' : (s.moved j k).cover (t.moved j k) =
        ⟨j, if s.start + k ≤ t.start + k then s.start + k else t.start + k,
          if s.stop + k ≤ t.stop + k then t.stop + k else s.stop + k⟩ := if_pos rfl
    rw [hcover']
    simp only [hle hstart hstart', hle hstop hstop', Span.moved, Span.mk.injEq, true_and]
    constructor
    · split <;> rfl
    · split <;> rfl

/-- Places that move if they fit in. -/
def SpanMatch.moved (fits : Prop) (i j k : UInt32) : SpanMatch :=
  ⟨fun s s' => fits → s.Moves i j k s', fun hs ht hfits => (hs hfits).cover (ht hfits)⟩

/-! ## Splitting -/

theorem endsStatement_append (t : TokenTree) (ts us : List TokenTree) {semicolon : Token}
    (hkind : semicolon.kind = .semicolon) : endsStatement t (ts ++ leaf semicolon :: us) = endsStatement t ts := by
  cases ts with
  | nil => simp [endsStatement, TokenTree.isKeyword, Token.isKeyword, hkind]
  | cons u ts => rfl

theorem splitStatements_append (stop : Token) {semicolon : Token} (hkind : semicolon.kind = .semicolon)
    (done ts us : List TokenTree) :
    splitStatements stop done (ts ++ leaf semicolon :: us) =
      ((splitStatements semicolon done ts).1 ++ Clause.ofTrees semicolon (splitStatements semicolon done ts).2 ++
        (splitStatements stop [] us).1, (splitStatements stop [] us).2) := by
  induction ts generalizing done with
  | nil => simp [splitStatements, TokenTree.isLeaf, hkind, TokenTree.first]
  | cons t ts ih =>
    rw [List.cons_append, splitStatements, splitStatements, endsStatement_append t ts us hkind]
    split
    · simp [ih]
    · split
      · have hstop : (((ts ++ leaf semicolon :: us).head?).map TokenTree.first).getD stop =
            ((ts.head?).map TokenTree.first).getD semicolon := by
          cases ts <;> rfl
        rw [hstop]
        simp [ih]
      · exact ih (t :: done)

theorem statements_append (stop : Token) {semicolon : Token} (hkind : semicolon.kind = .semicolon)
    (ts us : List TokenTree) :
    statements stop (ts ++ leaf semicolon :: us) = statements semicolon ts ++ statements stop us := by
  simp [statements, splitStatements_append stop hkind]

theorem nest_append {xs ys : List Token} {semicolon : Token} (hkind : semicolon.kind = .semicolon)
    {ts us : List TokenTree} (hxs : nest xs = (ts, none)) (hys : nest ys = (us, none)) :
    nest (xs ++ semicolon :: ys) = (ts ++ leaf semicolon :: us, none) := by
  have hts := nest_nests xs
  have hus := nest_nests ys
  rw [hxs] at hts
  rw [hys] at hus
  have hleaf : (leaf semicolon).Matched := by
    rw [Matched, hkind]
    decide
  have hmatched : MatchedAll (ts ++ leaf semicolon :: us) := matchedAll_append.mpr ⟨hts.1, hleaf, hus.1⟩
  have hflatten : flattenAll (ts ++ leaf semicolon :: us) = xs ++ semicolon :: ys := by
    rw [flattenAll_append, hts.2, flattenAll, flatten, hus.2]
    rfl
  rw [← hflatten]
  exact nest_flattenAll hmatched

/-! ## Parsing -/

namespace Parse

theorem Agree.run_ok {α β : Type} {Q : α → β → Prop} {p : Parse α} {q : Parse β} (h : Agree Q p q) {s s' t : ParseState}
    {value : α} (hscope : s.scope = t.scope) (hrun : p s = (.ok value, s')) :
    ∃ value' t', q t = (.ok value', t') ∧ Q value value' ∧ s'.scope = t'.scope := by
  obtain ⟨hmatch, hscope⟩ := h s t hscope
  rw [hrun] at hmatch hscope
  generalize q t = result at hmatch hscope
  obtain ⟨outcome, t'⟩ := result
  cases hmatch with
  | ok hvalue => exact ⟨_, t', rfl, hvalue, hscope⟩

theorem sequence_append {cs cs' : List Clause} {s s' s'' : ParseState} {ss us : List Stmt}
    (h : sequence cs s = (.ok ss, s')) (h' : sequence cs' s' = (.ok us, s'')) :
    sequence (cs ++ cs') s = (.ok (ss ++ us), s'') := by
  induction cs generalizing s ss with
  | nil =>
    rw [sequence] at h
    cases h
    exact h'
  | cons c cs ih =>
    rw [sequence] at h
    rw [List.cons_append, sequence]
    cases hfirst : statement c s with
    | mk result s₁ =>
      cases result with
      | error fault =>
        rw [bind_run_error hfirst] at h
        cases h
      | ok first =>
        rw [bind_run_ok hfirst] at h ⊢
        cases hrest : sequence cs s₁ with
        | mk result s₂ =>
          cases result with
          | error fault =>
            rw [bind_run_error hrest] at h
            cases h
          | ok rest =>
            rw [bind_run_ok hrest] at h
            cases h
            rw [bind_run_ok (ih hrest)]
            rfl

end Parse

theorem SourceFile.parseTokens_eq_ok {f : SourceFile} {tokens : List Token} {p : Program}
    (h : f.parseTokens tokens = .ok p) : ∃ trees state, nest (significant tokens) = (trees, none) ∧
      Parse.sequence (statements f.endToken trees) {} = (.ok p.statements, state) ∧
      state.scope = ({} : ParseState).scope := by
  obtain ⟨-, hscope, -⟩ := f.parseStatements_reads tokens {}
  have hrun : ∃ state, f.parseStatements tokens {} = (.ok p.statements, state) := by
    unfold parseTokens at h
    split at h
    · cases h
    · rename_i statements state hrun
      cases h
      exact ⟨state, hrun⟩
  obtain ⟨state, hrun⟩ := hrun
  rw [hrun] at hscope
  cases hnest : nest (significant tokens) with
  | mk trees fault =>
    rw [parseStatements, hnest] at hrun
    cases fault with
    | none => exact ⟨trees, state, rfl, hrun, hscope⟩
    | some fault =>
      -- a fault among the delimiters is thrown at last
      exfalso
      dsimp only at hrun
      cases hsequence : Parse.sequence (splitStatements f.endToken [] trees).1 {} with
      | mk result s =>
        cases result with
        | error e =>
          rw [Parse.bind_run_error hsequence] at hrun
          cases hrun
        | ok ss =>
          rw [Parse.bind_run_ok hsequence] at hrun
          cases hrun

theorem nest_alike_ok {σ : SpanMatch} {tokens tokens' : List Token} {ts : List TokenTree}
    (h : List.Forall₂ (Token.Alike σ) tokens tokens') (hnest : nest tokens = (ts, none)) :
    ∃ ts', nest tokens' = (ts', none) ∧ AlikeAll σ ts ts' := by
  obtain ⟨htrees, hfault⟩ := nest_alike h
  rw [hnest] at htrees hfault
  generalize nest tokens' = nested at htrees hfault
  obtain ⟨ts', fault⟩ := nested
  cases hfault
  exact ⟨ts', rfl, htrees⟩

/-- Tokens that are alike those of two programs, with a semicolon between them, are a program of both. -/
theorem SourceFile.parseTokens_append {σ τ : SpanMatch} (a b c : SourceFile)
    {tokensA tokensB tokensC xs ys : List Token} {semicolon : Token} (hkind : semicolon.kind = .semicolon)
    (hC : significant tokensC = xs ++ semicolon :: ys)
    (hxs : List.Forall₂ (Token.Alike σ) (significant tokensA) xs)
    (hys : List.Forall₂ (Token.Alike τ) (significant tokensB) ys) {p q : Program} (hp : a.parseTokens tokensA = .ok p)
    (hq : b.parseTokens tokensB = .ok q) :
    ∃ (r : Program) (ss us : List Stmt), c.parseTokens tokensC = .ok r ∧ r.statements = ss ++ us ∧
      List.Forall₂ (Stmt.Alike σ) p.statements ss ∧ List.Forall₂ (Stmt.Alike τ) q.statements us := by
  obtain ⟨ts, state, hts, hrun, hscope⟩ := parseTokens_eq_ok hp
  obtain ⟨us, state', hus, hrun', -⟩ := parseTokens_eq_ok hq
  obtain ⟨ts', hts', htsAlike⟩ := nest_alike_ok hxs hts
  obtain ⟨us', hus', husAlike⟩ := nest_alike_ok hys hus
  have hfirst := Parse.sequence_agree (statements_alike a.endToken semicolon htsAlike) fun c _ c' hc =>
    Parse.statement_agree c hc
  have hsecond := Parse.sequence_agree (statements_alike b.endToken c.endToken husAlike) fun c _ c' hc =>
    Parse.statement_agree c hc
  obtain ⟨ss, s₁, hss, hssAlike, hscope₁⟩ := hfirst.run_ok rfl hrun
  -- the second half starts behind the first, with the same surroundings
  obtain ⟨vs, s₂, hvs, hvsAlike, -⟩ := hsecond.run_ok (hscope.symm.trans hscope₁) hrun'
  have hsequence := Parse.sequence_append hss hvs
  rw [← statements_append c.endToken hkind] at hsequence
  have hparse : c.parseStatements tokensC {} = (.ok (ss ++ vs), s₂) := by
    rw [parseStatements, hC, nest_append hkind hts' hus']
    exact hsequence
  simp only [parseTokens, hparse]
  exact ⟨_, ss, vs, rfl, rfl, hssAlike, hvsAlike⟩

/-! ## Tokens of a part -/

/-- Two cursors of two files, the second one `k` bytes further on. -/
structure Cursor.Moved (a c : SourceFile) (k : UInt32) (ca cc : Cursor) : Prop where
  first : ca.Stands a
  second : cc.Stands c
  off : cc.off.toNat = ca.off.toNat + k.toNat

theorem Cursor.Moved.advance {a c : SourceFile} {k : UInt32} {ca cc : Cursor} (ha : a.content.length < 2 ^ 32)
    (hc : c.content.length < 2 ^ 32) (h : Cursor.Moved a c k ca cc) {n : Nat} (hn : n ≤ ca.rest.length)
    (hn' : n ≤ cc.rest.length) : Cursor.Moved a c k (ca.advance n) (cc.advance n) := by
  obtain ⟨hfirst, hoff⟩ := h.first.advance ha n
  obtain ⟨hsecond, hoff'⟩ := h.second.advance hc n
  have := h.off
  have := h.first.length_rest
  have := h.second.length_rest
  have := h.first.mark.off_le
  have := h.second.mark.off_le
  exact ⟨hfirst, hsecond, by omega⟩

theorem Cursor.Moved.moves {a c : SourceFile} {k : UInt32} {ca cc ca' cc' : Cursor} (hc : c.content.length < 2 ^ 32)
    (h : Cursor.Moved a c k ca cc) (h' : Cursor.Moved a c k ca' cc') :
    (ca'.spanFrom ca.toMark).Moves a.id c.id k (cc'.spanFrom cc.toMark) := by
  have hadd : ∀ {x y : Cursor}, Cursor.Moved a c k x y → x.off.toNat + k.toNat < 2 ^ 32 ∧ y.off = x.off + k := by
    intro x y hxy
    have hle := hxy.second.mark.off_le
    have hoff := hxy.off
    refine ⟨by omega, UInt32.toNat.inj ?_⟩
    rw [UInt32.toNat_add, hoff, Nat.mod_eq_of_lt (by omega)]
  refine ⟨h'.first.file_eq, (hadd h).1, (hadd h').1, ?_⟩
  simp only [Cursor.spanFrom, Span.moved, h'.second.file_eq, (hadd h).2, (hadd h').2]

namespace Lexer

/-- The cursor behind the lexemes. -/
def past (c : Cursor) : List Lexeme → Cursor
  | [] => c
  | x :: xs => past (c.advance x.size) xs

theorem place_append (c : Cursor) (xs ys : List Lexeme) : place c (xs ++ ys) = place c xs ++ place (past c xs) ys := by
  induction xs generalizing c with
  | nil => rfl
  | cons x xs ih => rw [List.cons_append, place, place, past, ih, List.cons_append]

theorem Scans.rest_past {after : Bool} {text post : Bytes} {xs : List Lexeme} (h : Scans after text xs) {c : Cursor}
    (hc : c.rest = text ++ post) : (past c xs).rest = post := by
  induction h generalizing c with
  | done => exact hc
  | step hread _ ih =>
    apply ih
    rw [Cursor.rest_advance, hc, List.cons_append, drop_append_of_read hread]

theorem stands_past {f : SourceFile} (hfit : f.content.length < 2 ^ 32) {c : Cursor} (h : c.Stands f)
    (xs : List Lexeme) : (past c xs).Stands f := by
  induction xs generalizing c with
  | nil => exact h
  | cons x xs ih => exact ih (h.advance hfit x.size).1

/-- The tokens of a text that is part of another are there too. -/
theorem Scans.place_alike {a c : SourceFile} (hle : a.content.length ≤ c.content.length) {k : UInt32} {after : Bool}
    {text post : Bytes} {xs : List Lexeme} (h : Scans after text xs) {ca cc : Cursor} (hca : ca.rest = text)
    (hcc : cc.rest = text ++ post) (hmoved : c.content.length < 2 ^ 32 → Cursor.Moved a c k ca cc) :
    List.Forall₂ (Token.Alike (.moved (c.content.length < 2 ^ 32) a.id c.id k)) (place ca xs) (place cc xs) := by
  induction h generalizing ca cc with
  | done => exact .nil
  | @step after b rest x xs hread _ ih =>
    have hsize := Lexeme.read_size_le hread
    have hnext : c.content.length < 2 ^ 32 → Cursor.Moved a c k (ca.advance x.size) (cc.advance x.size) := by
      intro hfit
      apply (hmoved hfit).advance (by omega) hfit
      · rw [hca, List.length_cons]
        exact hsize
      · rw [hcc, List.length_append, List.length_cons]
        omega
    refine .cons ⟨rfl, rfl, rfl, fun hfit => (hmoved hfit).moves hfit (hnext hfit)⟩ (ih ?_ ?_ hnext)
    · rw [Cursor.rest_advance, hca]
    · rw [Cursor.rest_advance, hcc, List.cons_append, drop_append_of_read hread]

end Lexer

theorem significant_alike {σ : SpanMatch} {xs ys : List Token} (h : List.Forall₂ (Token.Alike σ) xs ys) :
    List.Forall₂ (Token.Alike σ) (significant xs) (significant ys) := by
  induction h with
  | nil => exact .nil
  | cons ht _ ih =>
    simp only [significant, List.filter_cons, Token.isWhitespace, ht.kind]
    split
    · exact .cons ht ih
    · exact ih

/-! ## Two texts and a semicolon -/

theorem Stmt.unplacedAll_append (ss us : List Stmt) :
    Stmt.unplacedAll (ss ++ us) = Stmt.unplacedAll ss ++ Stmt.unplacedAll us := by
  induction ss with
  | nil => rfl
  | cons s ss ih => rw [List.cons_append, Stmt.unplacedAll, Stmt.unplacedAll, ih, List.cons_append]

theorem Stmt.spansAll_append (ss us : List Stmt) :
    Stmt.spansAll (ss ++ us) = Stmt.spansAll ss ++ Stmt.spansAll us := by
  induction ss with
  | nil => rfl
  | cons s ss ih => rw [List.cons_append, Stmt.spansAll, Stmt.spansAll, ih, List.append_assoc]

theorem spans_eq_map_moved {fits : Prop} {i j k : UInt32} {spans spans' : List Span}
    (h : List.Forall₂ (SpanMatch.moved fits i j k).Rel spans spans') (hfits : fits) :
    spans' = spans.map (Span.moved j k) := by
  induction h with
  | nil => rfl
  | cons hs _ ih => rw [List.map_cons, ← (hs hfits).eq, ih]

namespace SourceFile

theorem parse_eq_ok {f : SourceFile} {p : Program} (h : f.parse = .ok p) :
    ∃ xs, Lexer.Scans false f.content xs ∧ f.parseTokens (Lexer.place (Cursor.start f) xs) = .ok p := by
  unfold parse at h
  split at h
  · cases h
  · rename_i tokens htokens
    obtain ⟨xs, hscans, rfl⟩ := tokenize_eq_ok_iff.mp htokens
    exact ⟨xs, hscans, h⟩

/-- The text of two texts with a semicolon between them has the statements of both, each where it stood in its own text,
the second ones behind the first text and the semicolon. -/
theorem parse_append {a b c : SourceFile} (hc : c.content = a.content ++ 0x3b :: b.content) {p q : Program}
    (ha : a.parse = .ok p) (hb : b.parse = .ok q) :
    ∃ (r : Program) (ss us : List Stmt), c.parse = .ok r ∧ r.statements = ss ++ us ∧
      List.Forall₂ (Stmt.Alike (.moved (c.content.length < 2 ^ 32) a.id c.id 0)) p.statements ss ∧
      List.Forall₂ (Stmt.Alike (.moved (c.content.length < 2 ^ 32) b.id c.id (UInt32.ofNat (a.content.length + 1))))
        q.statements us := by
  obtain ⟨xs, hxs, hp⟩ := parse_eq_ok ha
  obtain ⟨ys, hys, hq⟩ := parse_eq_ok hb
  obtain ⟨x, hkind, hsize, hscans⟩ := hxs.append_semicolon hys
  have hlength : c.content.length = a.content.length + 1 + b.content.length := by
    rw [hc, List.length_append, List.length_cons]
    omega
  -- the cursor behind the first text, and the one behind the semicolon
  have hrest : (Lexer.past (Cursor.start c) xs).rest = 0x3b :: b.content := hxs.rest_past hc
  have hrest' : ((Lexer.past (Cursor.start c) xs).advance x.size).rest = b.content := by
    rw [Cursor.rest_advance, hrest, hsize]
    rfl
  have hleft : List.Forall₂ (Token.Alike (.moved (c.content.length < 2 ^ 32) a.id c.id 0))
      (Lexer.place (Cursor.start a) xs) (Lexer.place (Cursor.start c) xs) :=
    hxs.place_alike (by omega) rfl hc fun _ => ⟨Cursor.stands_start a, Cursor.stands_start c, rfl⟩
  have hmoved : c.content.length < 2 ^ 32 → Cursor.Moved b c (UInt32.ofNat (a.content.length + 1)) (Cursor.start b)
      ((Lexer.past (Cursor.start c) xs).advance x.size) := by
    intro hfit
    have hstands := ((Lexer.stands_past hfit (Cursor.stands_start c) xs).advance hfit x.size).1
    have hoff := hstands.length_rest
    have hle := hstands.mark.off_le
    rw [hrest'] at hoff
    refine ⟨Cursor.stands_start b, hstands, ?_⟩
    have hlt : a.content.length + 1 < UInt32.size := Nat.lt_of_le_of_lt (by omega) hfit
    rw [UInt32.toNat_ofNat_of_lt' hlt]
    show _ = 0 + (a.content.length + 1)
    omega
  have hright : List.Forall₂ (Token.Alike (.moved (c.content.length < 2 ^ 32) b.id c.id
      (UInt32.ofNat (a.content.length + 1)))) (Lexer.place (Cursor.start b) ys)
      (Lexer.place ((Lexer.past (Cursor.start c) xs).advance x.size) ys) :=
    hys.place_alike (by omega) rfl (hrest'.trans (List.append_nil _).symm) hmoved
  have hcut : significant (Lexer.place (Cursor.start c) (xs ++ x :: ys)) =
      significant (Lexer.place (Cursor.start c) xs) ++ Lexer.tokenOf (Lexer.past (Cursor.start c) xs) x ::
        significant (Lexer.place ((Lexer.past (Cursor.start c) xs).advance x.size) ys) := by
    rw [Lexer.place_append, significant, List.filter_append, Lexer.place, List.filter_cons_of_pos]
    · rfl
    · simp [Lexer.tokenOf, Token.isWhitespace, hkind, TokenKind.isWhitespace]
  obtain ⟨r, ss, us, hr, hstatements, hss, hus⟩ :=
    parseTokens_append a b c hkind hcut (significant_alike hleft) (significant_alike hright) hp hq
  have htokens : c.tokenize = .ok (Lexer.place (Cursor.start c) (xs ++ x :: ys)) :=
    tokenize_eq_ok_iff.mpr ⟨xs ++ x :: ys, by rwa [hc], rfl⟩
  refine ⟨r, ss, us, ?_, hstatements, hss, hus⟩
  rw [parse, htokens]
  exact hr

/-- A function, whose block ends the statement before the semicolon does. -/
def functionText : SourceFile := ⟨0, "function.uns", "def f(a) \x7b\x7d", 0⟩

def classText : SourceFile := ⟨1, "class.uns", " class B \x7b\x7d", 0⟩

def bothTexts : SourceFile := ⟨2, "both.uns", "def f(a) \x7b\x7d; class B \x7b\x7d", 0⟩

end SourceFile

end Bracescript
