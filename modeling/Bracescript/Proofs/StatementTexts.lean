import Bracescript.Proofs.Composition
import Bracescript.Proofs.Scanning
import Mathlib.Algebra.Group.Nat.Defs

/-!
# Texts of statements

The text that a statement was read from is read as that statement again. A text can be cut in front of a word and behind
any token without a change to the tokens between, and a statement is split from its surroundings by its own trees.
-/

namespace Bracescript

open TokenTree

/-! ## Cutting a text -/

namespace Lexer

/-- A text can be cut behind any lexeme. -/
theorem Scans.cut {after : Bool} {text : Bytes} {xs ys : List Lexeme} (h : Scans after text (xs ++ ys)) :
    ∃ pre post after', text = pre ++ post ∧ Scans after pre xs ∧ Scans after' post ys := by
  induction xs generalizing after text with
  | nil => exact ⟨[], text, after, rfl, .done, h⟩
  | cons x xs ih =>
    cases h with
    | @step _ b rest _ _ hread hnext =>
      obtain ⟨pre, post, after', heq, hpre, hpost⟩ := ih hnext
      obtain ⟨n, hn⟩ : ∃ n, x.size = n + 1 := ⟨x.size - 1, by have := x.size_pos; omega⟩
      have hle := Lexeme.read_size_le hread
      have hlength : (rest.take n).length = n := List.length_take_of_le (by omega)
      rw [hn, List.drop_succ_cons] at heq
      have hrest : rest.take n ++ pre ++ post = rest := by
        rw [List.append_assoc, ← heq, List.take_append_drop]
      have htake : rest.take (n + pre.length) = rest.take n ++ pre := by
        have hleft : (rest.take n ++ pre).length = n + pre.length := by rw [List.length_append, hlength]
        have hcut : (rest.take n ++ pre ++ post).take (n + pre.length) = rest.take n ++ pre := List.take_left' hleft
        rwa [hrest] at hcut
      -- the end of the text does not go on with what is read
      have hagain := Lexeme.read_take (n := n + pre.length) hread (by omega) Lexeme.startsGap_nil fun _ => rfl
      rw [List.append_nil, htake] at hagain
      have hdrop : (b :: (rest.take n ++ pre)).drop x.size = pre := by
        rw [hn, List.drop_succ_cons]
        exact List.drop_left' hlength
      refine ⟨b :: (rest.take n ++ pre), post, after', ?_, .step hagain ?_, hpost⟩
      · rw [List.cons_append, hrest]
      · rwa [hdrop]

theorem read_minus_kind {after : Bool} {rest : Bytes} {x : Lexeme}
    (h : Lexeme.read after (Bytes.ascii '-') rest = .ok x) : x.kind = .operator ∨ x.kind = .numberLiteral := by
  cases after with
  | true => exact .inl (kind_readOperator h)
  | false =>
    cases rest with
    | nil =>
      have hread : Lexeme.read false (Bytes.ascii '-') [] = Lexeme.readOperator (Bytes.ascii '-') [] := rfl
      rw [hread] at h
      exact .inl (kind_readOperator h)
    | cons d more =>
      have hread : Lexeme.read false (Bytes.ascii '-') (d :: more) = if Bytes.isDigit d then
          Lexeme.readUnsigned [Bytes.ascii '-'] d more else Lexeme.readOperator (Bytes.ascii '-') (d :: more) := rfl
      rw [hread] at h
      split at h
      · exact .inr (kind_readUnsigned h)
      · exact .inl (kind_readOperator h)

theorem read_word {after : Bool} {b : UInt8} {rest : Bytes} {x : Lexeme} (h : Lexeme.read after b rest = .ok x)
    (hx : x.kind = .identifier ∨ x.kind = .keyword) (after' : Bool) : Lexeme.read after' b rest = .ok x := by
  -- only a minus is read with regard to what stands before it
  by_cases hb : b = Bytes.ascii '-'
  · subst hb
    rcases hx with hx | hx <;> simpa [hx] using read_minus_kind h
  · rw [← h]
    simp [Lexeme.read, hb]

theorem Scans.restart {after : Bool} {text : Bytes} {x : Lexeme} {xs : List Lexeme} (h : Scans after text (x :: xs))
    (hx : x.kind = .identifier ∨ x.kind = .keyword) (after' : Bool) : Scans after' text (x :: xs) := by
  cases h with
  | step hread hnext =>
    have hwhite : x.kind.isWhitespace = false := by
      rcases hx with hx | hx <;> rw [hx] <;> rfl
    have hturn : turn after' x = turn after x := by simp [turn, hwhite]
    exact .step (read_word hread hx after') (hturn ▸ hnext)

theorem place_eq_append {c : Cursor} {xs : List Lexeme} {as bs : List Token} (h : place c xs = as ++ bs) :
    ∃ ys zs, xs = ys ++ zs ∧ place c ys = as ∧ place (past c ys) zs = bs := by
  induction as generalizing c xs with
  | nil => exact ⟨[], xs, rfl, rfl, h⟩
  | cons a as ih =>
    cases xs with
    | nil => cases h
    | cons x xs =>
      obtain ⟨rfl, hrest⟩ := List.cons.inj h
      obtain ⟨ys, zs, rfl, rfl, rfl⟩ := ih hrest
      exact ⟨x :: ys, zs, rfl, rfl, rfl⟩

theorem stop_of_getLast? {c : Cursor} {xs : List Lexeme} {t : Token} (h : (place c xs).getLast? = some t) :
    t.span.stop = (past c xs).off := by
  induction xs generalizing c with
  | nil => cases h
  | cons x xs ih =>
    cases xs with
    | nil =>
      cases h
      rfl
    | cons y ys => exact ih h

theorem Scans.off_past {f : SourceFile} (hfit : f.content.length < 2 ^ 32) {after : Bool} {text post : Bytes}
    {xs : List Lexeme} (h : Scans after text xs) {c : Cursor} (hc : c.Stands f) (hrest : c.rest = text ++ post) :
    (past c xs).off.toNat = c.off.toNat + text.length := by
  have hstands := stands_past hfit hc xs
  have hlength := hc.length_rest
  have hlength' := hstands.length_rest
  have hle := hc.mark.off_le
  have hle' := hstands.mark.off_le
  rw [hrest, List.length_append] at hlength
  rw [h.rest_past hrest] at hlength'
  omega

/-- The text from a word up to the end of a token has the tokens that it has in the file. -/
theorem Scans.part {f f' : SourceFile} (hfit : f.content.length < 2 ^ 32) {xs : List Lexeme}
    (hscans : Scans false f.content xs) {before inner behind : List Token} {t u : Token}
    (htokens : place (Cursor.start f) xs = before ++ (t :: inner ++ behind))
    (hword : t.kind = .identifier ∨ t.kind = .keyword) (hlast : (t :: inner).getLast? = some u)
    (hcontent : f'.content = f.slice t.span.start.toNat u.span.stop.toNat) :
    ∃ ys, Scans false f'.content ys ∧ List.Forall₂
      (Token.Alike (.moved (f.content.length < 2 ^ 32) f'.id f.id t.span.start)) (place (Cursor.start f') ys)
      (t :: inner) := by
  obtain ⟨ws, rest, rfl, -, hrest⟩ := place_eq_append htokens
  obtain ⟨ys, zs, rfl, hys, -⟩ := place_eq_append hrest
  obtain ⟨pre, text, after, hpre, hws, hscans⟩ := hscans.cut
  obtain ⟨mid, post, -, rfl, hmid, -⟩ := hscans.cut
  -- the cursor in front of the part, and how far it and the one behind the part have come
  have hfront := stands_past hfit (Cursor.stands_start f) ws
  have hfrontRest : (past (Cursor.start f) ws).rest = mid ++ post := hws.rest_past hpre
  have hfrontOff : (past (Cursor.start f) ws).off.toNat = pre.length :=
    (hws.off_past hfit (Cursor.stands_start f) hpre).trans (Nat.zero_add _)
  have hbackOff := hmid.off_past hfit hfront hfrontRest
  have hstop : u.span.stop = (past (past (Cursor.start f) ws) ys).off := stop_of_getLast? (hys ▸ hlast)
  rw [hfrontOff, ← List.length_append] at hbackOff
  cases ys with
  | nil => cases hys
  | cons y ys =>
    obtain ⟨rfl, -⟩ := List.cons.inj hys
    have hstart : (tokenOf (past (Cursor.start f) ws) y).span.start = (past (Cursor.start f) ws).off := rfl
    have hslice : f'.content = mid := by
      rw [hcontent, hstart, hstop, SourceFile.slice, hpre, ← List.append_assoc, hfrontOff, hbackOff,
        List.take_left' rfl, List.drop_left' rfl]
    refine ⟨y :: ys, hslice ▸ hmid.restart hword false, ?_⟩
    rw [← hys]
    refine hmid.place_alike ?_ hslice hfrontRest fun _ => ⟨Cursor.stands_start f', hfront, (Nat.zero_add _).symm⟩
    rw [hslice, hpre, List.length_append, List.length_append]
    omega

end Lexer

/-- What a filter leaves in front is left of a part that ends with the last of it. -/
theorem filter_eq_append {α : Type} {p : α → Bool} {l as bs : List α} (h : l.filter p = as ++ bs) :
    ∃ l₁ l₂, l = l₁ ++ l₂ ∧ l₁.filter p = as ∧ l₂.filter p = bs ∧ l₁.getLast? = as.getLast? := by
  induction as generalizing l with
  | nil => exact ⟨[], l, rfl, rfl, h, rfl⟩
  | cons a as ih =>
    obtain ⟨before, l, rfl, hbefore, ha, hrest⟩ := List.filter_eq_cons_iff.mp h
    obtain ⟨l₁, l₂, rfl, hl₁, hl₂, hlast⟩ := ih hrest
    refine ⟨before ++ a :: l₁, l₂, by simp, ?_, hl₂, ?_⟩
    · rw [List.filter_append, List.filter_eq_nil_iff.mpr hbefore, List.filter_cons_of_pos ha, hl₁]
      rfl
    · simp [List.getLast?_append, List.getLast?_cons, hlast]

/-- Tokens of a row that matter stand in a part of the tokens with the same first and last one. -/
theorem significant_eq_append {tokens as bs cs : List Token} {t : Token}
    (h : significant tokens = as ++ (t :: bs ++ cs)) :
    ∃ before inner behind, tokens = before ++ (t :: inner ++ behind) ∧ significant (t :: inner) = t :: bs ∧
      (t :: inner).getLast? = (t :: bs).getLast? := by
  obtain ⟨front, rest, rfl, -, hrest, -⟩ := filter_eq_append h
  obtain ⟨white, rest, rfl, hwhite, ht, hrest⟩ := List.filter_eq_cons_iff.mp hrest
  obtain ⟨inner, behind, rfl, hinner, -, hlast⟩ := filter_eq_append hrest
  refine ⟨front ++ white, inner, behind, by simp, ?_, ?_⟩
  · rw [significant, List.filter_cons, if_pos ht, hinner]
  · rw [List.getLast?_cons, List.getLast?_cons, hlast]

/-! ## Splitting one statement -/

/-- Whether an `else` follows. -/
def elseNext (ts : List TokenTree) : Bool := ((ts.head?).map (TokenTree.isKeyword "else")).getD false

/-- Trees, last first, that do not end a statement by themselves, before an `else` or not. -/
def Unended (done : List TokenTree) (more : Bool) : Prop :=
  ∀ stop ts, elseNext ts = more → splitStatements stop [] (done.reverse ++ ts) = splitStatements stop done ts

namespace Unended

variable {done : List TokenTree} {t : TokenTree} {more : Bool}

theorem nil : Unended [] more := fun _ _ _ => rfl

theorem cons (h : Unended done (t.isKeyword "else")) (hleaf : ¬t.isLeaf .semicolon = true)
    (hends : ¬(t.isBlock && !more) = true) : Unended (t :: done) more := by
  intro stop ts hmore
  have hnot : ¬endsStatement t ts = true := by
    rw [← hmore] at hends
    exact hends
  rw [List.reverse_cons, List.append_assoc, List.singleton_append, h stop (t :: ts) rfl, splitStatements, if_neg hleaf,
    if_neg hnot]

theorem statements_eq (h : Unended done false) (stop : Token) :
    statements stop done.reverse = Clause.ofTrees stop done.reverse := by
  have hsplit := h stop [] rfl
  rw [List.append_nil] at hsplit
  rw [statements, hsplit]
  rfl

theorem statements_block (h : Unended done (t.isKeyword "else")) (hleaf : ¬t.isLeaf .semicolon = true)
    (hblock : t.isBlock = true) (stop : Token) :
    statements stop (t :: done).reverse = Clause.ofTrees stop (t :: done).reverse := by
  -- behind the block nothing is left, so there is no other statement
  have hends : endsStatement t [] = true := by simp [endsStatement, hblock]
  have hsplit := h stop [t] rfl
  rw [← List.reverse_cons, splitStatements, if_neg hleaf, if_pos hends] at hsplit
  rw [statements, hsplit]
  simp [splitStatements, Clause.ofTrees]

end Unended

theorem eq_of_mem_ofTrees {stop : Token} {ts : List TokenTree} {c : Clause} (h : c ∈ Clause.ofTrees stop ts) :
    ts = c.head :: c.tail := by
  cases ts with
  | nil => cases h
  | cons t ts =>
    cases List.mem_singleton.mp h
    rfl

/-- A clause is one again if its trees stand alone: the trees at hand are never ended before their last one. -/
theorem splitStatements_alone (stop : Token) {done ts : List TokenTree} (h : Unended done (elseNext ts)) {c : Clause}
    (hc : c ∈ (splitStatements stop done ts).1 ++ Clause.ofTrees stop (splitStatements stop done ts).2) (stop' : Token) :
    statements stop' (c.head :: c.tail) = Clause.ofTrees stop' (c.head :: c.tail) := by
  induction ts generalizing done with
  | nil =>
    rw [← eq_of_mem_ofTrees hc]
    exact h.statements_eq stop'
  | cons t ts ih =>
    rw [splitStatements] at hc
    split at hc
    · rename_i hleaf
      rw [List.append_assoc, List.mem_append] at hc
      rcases hc with hc | hc
      · have helse : elseNext (t :: ts) = false := by
          cases t with
          | leaf token => simp_all [elseNext, isLeaf, TokenTree.isKeyword, Token.isKeyword]
          | group => rfl
        rw [helse] at h
        rw [← eq_of_mem_ofTrees hc]
        exact h.statements_eq stop'
      · exact ih .nil hc
    rename_i hleaf
    split at hc
    · rename_i hends
      rw [List.append_assoc, List.mem_append] at hc
      rcases hc with hc | hc
      · rw [← eq_of_mem_ofTrees hc]
        exact Unended.statements_block h hleaf ((Bool.and_eq_true _ _).mp hends).1 stop'
      · exact ih .nil hc
    · rename_i hends
      exact ih (.cons h hleaf hends) hc

theorem statements_of_mem {stop : Token} {ts : List TokenTree} {c : Clause} (h : c ∈ statements stop ts) :
    statements c.stop (c.head :: c.tail) = [c] := splitStatements_alone stop .nil h c.stop

theorem Divided.exists_eq {tokens : List Token} {cs : List Clause} {ts : List TokenTree} (h : Divided tokens cs ts)
    {c : Clause} (hc : c ∈ cs) : c.stop ∈ tokens ∧ ∃ before behind, ts = before ++ (c.head :: c.tail ++ behind) := by
  induction h with
  | nil => cases hc
  | @separator t _ _ _ _ ih =>
    obtain ⟨hstop, before, behind, rfl⟩ := ih hc
    exact ⟨hstop, .leaf t :: before, behind, rfl⟩
  | @clause c' _ ts stop_mem _ ih =>
    rcases List.mem_cons.mp hc with rfl | hc
    · exact ⟨stop_mem, [], ts, rfl⟩
    · obtain ⟨hstop, before, behind, rfl⟩ := ih hc
      exact ⟨hstop, c'.head :: c'.tail ++ before, behind, by simp⟩

/-! ## Reading one statement -/

namespace Parse

theorem Agree.ok_of_run {α β : Type} {Q : α → β → Prop} {p : Parse α} {q : Parse β} (h : Agree Q p q) {s t t' : ParseState}
    {value' : β} (hscope : s.scope = t.scope) (hrun : q t = (.ok value', t')) :
    ∃ value s', p s = (.ok value, s') ∧ Q value value' := by
  have hmatch := (h s t hscope).1
  rw [hrun] at hmatch
  generalize p s = result at hmatch
  obtain ⟨outcome, s'⟩ := result
  cases hmatch with
  | ok hvalue => exact ⟨_, s', rfl, hvalue⟩

theorem statement_scope (c : Clause) (s : ParseState) : (statement c s).2.scope = s.scope := by
  have hinside : c.stretch.Inside (flattenAll c.stretch.trees ++ [c.stop]) :=
    ⟨List.sublist_append_left _ _, List.mem_append_right _ List.mem_cons_self⟩
  exact (statement_reads c hinside s).2.1

theorem statement_head {c : Clause} {s s' : ParseState} {st : Stmt} (h : statement c s = (.ok st, s')) :
    ∃ t, c.head = .leaf t ∧ (t.kind = .identifier ∨ t.kind = .keyword) := by
  obtain ⟨head, tail, stop⟩ := c
  cases head with
  | group opener inside closer =>
    rw [statement] at h
    cases h
  | leaf t =>
    refine ⟨t, rfl, ?_⟩
    cases hkind : t.kind with
    | identifier => exact .inl rfl
    | keyword => exact .inr rfl
    | _ =>
      rw [statement] at h
      simp only [hkind] at h
      cases h

/-- Each statement of a sequence is read from one of the clauses, in the surroundings of the sequence. -/
theorem exists_clause {cs : List Clause} {s s' : ParseState} {ss : List Stmt} (h : sequence cs s = (.ok ss, s')) {st : Stmt}
    (hst : st ∈ ss) : ∃ c ∈ cs, ∃ s₁ s₂, statement c s₁ = (.ok st, s₂) ∧ s₁.scope = s.scope := by
  induction cs generalizing s ss with
  | nil =>
    rw [sequence] at h
    cases h
    cases hst
  | cons c cs ih =>
    rw [sequence] at h
    cases hfirst : statement c s with
    | mk result s₁ =>
      have hscope := statement_scope c s
      rw [hfirst] at hscope
      cases result with
      | error fault =>
        rw [bind_run_error hfirst] at h
        cases h
      | ok first =>
        rw [bind_run_ok hfirst] at h
        cases hrest : sequence cs s₁ with
        | mk result s₂ =>
          cases result with
          | error fault =>
            rw [bind_run_error hrest] at h
            cases h
          | ok rest =>
            rw [bind_run_ok hrest] at h
            cases h
            rcases List.mem_cons.mp hst with rfl | hst
            · exact ⟨c, List.mem_cons_self, s, s₁, hfirst, rfl⟩
            · obtain ⟨c', hc', s₃, s₄, hrun, hscope'⟩ := ih hrest hst
              exact ⟨c', List.mem_cons_of_mem _ hc', s₃, s₄, hrun, hscope'.trans hscope⟩

end Parse

/-- Tokens that are alike those of one clause are a program of its statement. -/
theorem SourceFile.parseTokens_alone {σ : SpanMatch} (f : SourceFile) {tokens : List Token} {c : Clause}
    (hc : statements c.stop (c.head :: c.tail) = [c]) (hmatched : MatchedAll (c.head :: c.tail))
    (htokens : List.Forall₂ (Token.Alike σ) (significant tokens) (flattenAll (c.head :: c.tail))) {s s' : ParseState}
    {st : Stmt} (hrun : Parse.statement c s = (.ok st, s')) (hscope : s.scope = ({} : ParseState).scope) :
    ∃ p st', f.parseTokens tokens = .ok p ∧ p.statements = [st'] ∧ st'.Alike σ st := by
  obtain ⟨htrees, hfault⟩ := nest_alike htokens
  rw [nest_flattenAll hmatched] at htrees hfault
  cases hnest : nest (significant tokens) with
  | mk ts fault =>
    rw [hnest] at htrees hfault
    cases hfault
    have hclauses := statements_alike f.endToken c.stop htrees
    rw [hc] at hclauses
    have hagree := Parse.sequence_agree hclauses fun c _ c' hc => Parse.statement_agree c hc
    have hone : Parse.sequence [c] s = (.ok [st], s') := by
      rw [Parse.sequence, Parse.bind_run_ok hrun, Parse.sequence]
      rfl
    obtain ⟨ss, state, hss, halike⟩ := hagree.ok_of_run hscope.symm hone
    have hparse : f.parseStatements tokens {} = (.ok ss, state) := by
      rw [parseStatements, hnest]
      exact hss
    obtain ⟨st', rfl, hst'⟩ : ∃ st', ss = [st'] ∧ st'.Alike σ st := by
      cases halike with
      | cons hst hnil =>
        cases hnil
        exact ⟨_, rfl, hst⟩
    simp only [parseTokens, hparse]
    exact ⟨_, st', rfl, rfl, hst'⟩

/-! ## Statements of a program -/

/-- A clause of the tokens, by itself, is read as this statement. -/
structure Clause.Gives (c : Clause) (tokens : List Token) (st : Stmt) : Prop where
  alone : statements c.stop (c.head :: c.tail) = [c]
  matched : MatchedAll (c.head :: c.tail)
  among : ∃ before behind, tokens = before ++ (flattenAll (c.head :: c.tail) ++ behind)
  derived : Derives (c.head :: c.tail) (.stmt st)
  read : ∃ s s', Parse.statement c s = (.ok st, s') ∧ s.scope = ({} : ParseState).scope

theorem SourceFile.exists_gives {f : SourceFile} {tokens : List Token} {p : Program} (h : f.parseTokens tokens = .ok p)
    {st : Stmt} (hst : st ∈ p.statements) : ∃ c : Clause, c.Gives (significant tokens) st := by
  obtain ⟨trees, state, hnest, hrun, -⟩ := parseTokens_eq_ok h
  obtain ⟨hmatched, hflatten⟩ : MatchedAll trees ∧ flattenAll trees = significant tokens := by
    have hnests := nest_nests (significant tokens)
    rwa [hnest] at hnests
  obtain ⟨c, hc, s, s', hread, hscope⟩ := Parse.exists_clause hrun hst
  have hinside : Inside (significant tokens ++ [f.endToken]) trees := by
    rw [Inside, hflatten]
    exact List.sublist_append_left _ _
  obtain ⟨hstop, before, behind, rfl⟩ :=
    (statements_divided (List.mem_append_right _ List.mem_cons_self) hinside).exists_eq hc
  have hderived := (Parse.statement_reads c ⟨hinside.right.left, hstop⟩ s).1
  rw [hread] at hderived
  rw [flattenAll_append, flattenAll_append] at hflatten
  exact ⟨c, statements_of_mem hc, (matchedAll_append.mp (matchedAll_append.mp hmatched).2).1, ⟨_, _, hflatten.symm⟩,
    hderived, s, s', hread, hscope⟩

theorem Laid.tighten {f : SourceFile} {lo hi : Nat} {t u : Token} {ts : List Token} (h : Laid f lo (t :: ts) hi)
    (hlast : (t :: ts).getLast? = some u) : Laid f t.span.start.toNat (t :: ts) u.span.stop.toNat := by
  obtain ⟨init, heq⟩ := List.getLast?_eq_some_iff.mp hlast
  have hfirst : Laid f t.span.start.toNat (t :: ts) hi := ⟨h.1, Nat.le_refl _, h.2.2⟩
  rw [heq] at hfirst ⊢
  obtain ⟨mid, hinit, hu, hmid, -⟩ := append_iff.mp hfirst
  exact append_iff.mpr ⟨mid, hinit, hu, hmid, Nat.le_refl _⟩

/-- A statement reaches from its first token to its last one. -/
theorem Derives.stmt_ends {f : SourceFile} {ts : List TokenTree} {st : Stmt} (h : Derives ts (.stmt st)) {lo hi : Nat}
    (hlaid : Laid f lo (flattenAll ts) hi) {t u : Token} {more : List Token} (hfirst : flattenAll ts = t :: more)
    (hlast : (t :: more).getLast? = some u) : st.span.start = t.span.start ∧ st.span.stop = u.span.stop := by
  rw [hfirst] at hlaid
  obtain ⟨hlies, hall⟩ := h.stmt_lies (hfirst ▸ hlaid.tighten hlast)
  rw [hfirst] at hall
  have hstart := (hall t List.mem_cons_self).1
  have hstop := (hall u (List.mem_of_getLast? hlast)).2
  exact ⟨UInt32.toNat.inj (Nat.le_antisymm hstart hlies.lo_le), UInt32.toNat.inj (Nat.le_antisymm hlies.le_hi hstop)⟩

namespace SourceFile

theorem parseTokens_file {f : SourceFile} {tokens : List Token} {p : Program} (h : f.parseTokens tokens = .ok p) :
    p.file = f := by
  unfold parseTokens at h
  split at h
  · cases h
  · cases h
    rfl

/-- The text of a statement is read as that statement. For every statement of a program, a file that has just its text has a
program of one statement, which is the same but for the places: moved by the start of the statement, these are the places
in the first file. Offsets are words of 32 bits, and the file has to be shorter than the greatest of them. -/
theorem statement_text_parses {f f' : SourceFile} {p : Program} (hfit : f.content.length < 2 ^ 32) (h : f.parse = .ok p)
    {st : Stmt} (hst : st ∈ p.statements) (hcontent : f'.content = p.raw st.span) :
    ∃ p' st', f'.parse = .ok p' ∧ p'.statements = [st'] ∧ st'.unplaced = st.unplaced ∧
      List.Forall₂ (Span.Moves f'.id f.id st.span.start) st'.spans st.spans := by
  obtain ⟨xs, hscans, hparse⟩ := parse_eq_ok h
  obtain ⟨c, hgives⟩ := exists_gives hparse hst
  obtain ⟨before, behind, hamong⟩ := hgives.among
  obtain ⟨s, s', hread, hscope⟩ := hgives.read
  obtain ⟨t, hhead, hword⟩ := Parse.statement_head hread
  have hflatten : flattenAll (c.head :: c.tail) = t :: flattenAll c.tail := by
    rw [hhead]
    rfl
  have hlaid : Laid f 0 (flattenAll (c.head :: c.tail)) f.content.length := by
    refine (tokenize_laid hfit (tokenize_eq_ok_iff.mpr ⟨xs, hscans, rfl⟩)).sublist ?_
    rw [hamong]
    exact ((List.sublist_append_left _ _).trans (List.sublist_append_right _ _)).trans (List.sublist_append_left _ _)
  rw [hflatten] at hamong
  obtain ⟨front, inner, back, htokens, hinner, hends⟩ := significant_eq_append hamong
  obtain ⟨u, hlast⟩ : ∃ u, (t :: flattenAll c.tail).getLast? = some u := ⟨_, List.getLast?_cons⟩
  obtain ⟨hstart, hstop⟩ := hgives.derived.stmt_ends hlaid hflatten hlast
  have hpart : f'.content = f.slice t.span.start.toNat u.span.stop.toNat := by
    rw [hcontent, Program.raw, parseTokens_file hparse, text, hstart, hstop]
  obtain ⟨ys, hscans', halike⟩ := hscans.part hfit htokens hword (hends.trans hlast) hpart
  have hsignificant := significant_alike halike
  rw [hinner, ← hflatten] at hsignificant
  obtain ⟨p', st', hp', hone, hst'⟩ := f'.parseTokens_alone hgives.alone hgives.matched hsignificant hread hscope
  refine ⟨p', st', ?_, hone, hst'.unplaced.symm, ?_⟩
  · rw [parse, tokenize_eq_ok_iff.mpr ⟨ys, hscans', rfl⟩]
    exact hp'
  · rw [hstart]
    exact hst'.spans.imp fun _ _ hmoves => hmoves hfit

/-- A minus behind an operand and one that is a sign, a string of two lines, and a block that does not end its statement. -/
def threeStatements : SourceFile := ⟨0, "three.uns", "x = 1 -1;\nif (x) \x7b\x7d else \x7b y = 'p\nq' \x7d\nz(-2) ;", 0⟩

def middleStatement : SourceFile := ⟨1, "middle.uns", "if (x) \x7b\x7d else \x7b y = 'p\nq' \x7d", 0⟩

theorem threeStatements_texts : (threeStatements.parse.toOption.map fun p => p.statements.map fun st => p.raw st.span) =
    some (["x = 1 -1", "if (x) \x7b\x7d else \x7b y = 'p\nq' \x7d", "z(-2)"] : List Bytes) := by
  decide +kernel

theorem middleStatement_parses : ∃ p st p' st', threeStatements.content.length < 2 ^ 32 ∧ threeStatements.parse = .ok p ∧
    st ∈ p.statements ∧ middleStatement.content = p.raw st.span ∧ middleStatement.parse = .ok p' ∧
    p'.statements = [st'] ∧ st'.unplaced = st.unplaced ∧
    List.Forall₂ (Span.Moves 1 0 st.span.start) st'.spans st.spans := by
  have htexts := threeStatements_texts
  cases hparse : threeStatements.parse with
  | error fault =>
    rw [hparse] at htexts
    cases htexts
  | ok p =>
    rw [hparse] at htexts
    have hmap : (p.statements.map fun st => p.raw st.span) = _ := Option.some.inj htexts
    have hmem : middleStatement.content ∈ p.statements.map fun st => p.raw st.span := by
      rw [hmap]
      exact List.mem_cons_of_mem _ List.mem_cons_self
    obtain ⟨st, hst, hcontent⟩ := List.mem_map.mp hmem
    obtain ⟨p', st', hp', hone, hplain, hspans⟩ := statement_text_parses (by decide) hparse hst hcontent.symm
    exact ⟨p, st, p', st', by decide, rfl, hst, hcontent.symm, hp', hone, hplain, hspans⟩

end SourceFile

end Bracescript
