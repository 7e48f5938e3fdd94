import Bracescript.Proofs.Conservation
import Bracescript.Tree.SpanCheck

/-!
# Spans of programs

Every node that the parser creates, also one that it gives up again, has a span that is not empty and lies in the
program. Operands lie in their expressions, and the statements of a program stand one behind the other.
-/

namespace Bracescript

open TokenTree

/-! ## Spans in spans -/

/-- The second span reaches nowhere out of the first. -/
def Span.Encloses (s t : Span) : Prop := s.start ≤ t.start ∧ t.stop ≤ s.stop

section

variable {f : SourceFile} {lo mid hi : Nat} {s s' : Span} {pos pos' : LineCol}

theorem Span.Lies.start_cover (h : s.Lies f lo mid pos) (h' : s'.Lies f mid hi pos') :
    (s.cover s').start = s.start ∧ (s.cover s').stop = s'.stop := by
  have hfile : s.file = s'.file := h.file_eq.trans h'.file_eq.symm
  have := h.le_hi
  have := h'.lo_le
  have := h.start_le
  have := h'.start_le
  rw [Span.cover_eq hfile (by omega) (by omega)]
  exact ⟨rfl, rfl⟩

theorem Span.Lies.cover_encloses (h : s.Lies f lo mid pos) (h' : s'.Lies f mid hi pos') :
    (s.cover s').Encloses s ∧ (s.cover s').Encloses s' := by
  obtain ⟨hstart, hstop⟩ := h.start_cover h'
  have := h.le_hi
  have := h'.lo_le
  have := h.start_le
  have := h'.start_le
  unfold Encloses
  rw [hstart, hstop]
  simp only [UInt32.le_iff_toNat_le]
  omega

/-- What lies between two spans lies in the span that covers both. -/
theorem Span.Lies.cover_encloses_between {mid' : Nat} {between : Span} {pos'' : LineCol} (h : s.Lies f lo mid pos)
    (hbetween : between.Lies f mid mid' pos'') (h' : s'.Lies f mid' hi pos') : (s.cover s').Encloses between := by
  have hlies := hbetween.start_le
  have := hbetween.lo_le
  have := hbetween.le_hi
  have := h'.lo_le
  obtain ⟨hstart, hstop⟩ := h.start_cover (h'.widen (by omega : mid ≤ mid') (Nat.le_refl _))
  have := h.le_hi
  have := h.start_le
  have := h'.start_le
  unfold Encloses
  rw [hstart, hstop]
  simp only [UInt32.le_iff_toNat_le]
  omega

theorem Span.Encloses.nonempty {s t : Span} (h : s.Encloses t) (ht : t.start < t.stop) : s.start < s.stop := by
  obtain ⟨hstart, hstop⟩ := h
  simp only [UInt32.le_iff_toNat_le, UInt32.lt_iff_toNat_lt] at *
  omega

end

/-! ## Derived nodes -/

/-- A token that holds at least one byte, or the end of the file. -/
def Token.IsSolid (t : Token) : Prop := t.kind = .eof ∨ t.span.start < t.span.stop

/-- The span of an expression is not empty and its operands lie in it. -/
structure Expr.IsSolid (e : Expr) : Prop where
  nonempty : e.span.start < e.span.stop
  operands : ∀ o ∈ Program.operands e, e.span.Encloses o.span

def Part.IsSolid : Part → Prop
  | .expr e => e.IsSolid
  | _ => True

theorem Token.kind_of_symbol {t : Token} {symbol : Bytes} (h : t.operatorSymbol? = some symbol) : t.kind ≠ .eof := by
  intro kind
  simp [operatorSymbol?, kind] at h

theorem Token.kind_of_keyword {t : Token} {word : Bytes} (h : t.isKeyword word = true) : t.kind ≠ .eof := by
  intro kind
  simp [isKeyword, kind] at h

theorem Token.IsSolid.nonempty {t : Token} (h : t.IsSolid) (hkind : t.kind ≠ .eof) : t.span.start < t.span.stop :=
  h.resolve_left hkind

theorem Derives.isSolid {f : SourceFile} {ts : List TokenTree} {p : Part} (h : Derives ts p) {lo hi : Nat}
    (hlaid : Laid f lo (flattenAll ts) hi) (hsolid : ∀ t ∈ flattenAll ts, t.IsSolid) : p.IsSolid := by
  induction h generalizing lo hi with
  | ident kind | string kind | number kind =>
    refine ⟨?_, List.forall_mem_nil _⟩
    exact (hsolid _ List.mem_cons_self).nonempty (by simp [kind])
  | parens _ _ ih =>
    refine ih hlaid.inside fun t ht => hsolid t ?_
    simp [flattenAll, flatten, ht]
  | front operator _ operand_ok ih =>
    obtain ⟨ht, hlo, hrest⟩ := hlaid
    have hcover := Span.Lies.cover_encloses ⟨ht, hlo, Nat.le_refl _⟩ (operand_ok.lies hrest)
    refine ⟨?_, List.forall_mem_singleton.mpr hcover.2⟩
    exact hcover.1.nonempty ((hsolid _ List.mem_cons_self).nonempty (Token.kind_of_symbol operator))
  | behind operator _ operand_ok ih =>
    obtain ⟨mid, hts, ht⟩ := hlaid.split
    have hcover := (operand_ok.lies hts).cover_encloses (ht.lies List.mem_cons_self)
    have hoperand := ih hts fun t ht => hsolid t (by simp [flattenAll_append, ht])
    exact ⟨hcover.1.nonempty hoperand.nonempty, List.forall_mem_singleton.mpr hcover.1⟩
  | binary operator _ left_ok right_ok ihl _ =>
    obtain ⟨mid, hls, hrs⟩ := hlaid.split
    have hcover := (left_ok.lies hls).cover_encloses (right_ok.lies hrs.tail)
    have hleft := ihl hls fun t ht => hsolid t (by simp [flattenAll_append, ht])
    refine ⟨hcover.1.nonempty hleft.nonempty, ?_⟩
    exact List.forall_mem_cons.mpr ⟨hcover.1, List.forall_mem_singleton.mpr hcover.2⟩
  | ternary _ _ test_ok yes_ok no_ok iha _ _ =>
    obtain ⟨mid, has, hrest⟩ := hlaid.split
    obtain ⟨mid', hbs, hcs⟩ := hrest.tail.split
    have hno := no_ok.lies hcs.tail
    have hcover := (test_ok.lies has).cover_encloses (hno.widen hbs.le (Nat.le_refl _))
    have hyes := (test_ok.lies has).cover_encloses_between (yes_ok.lies hbs) hno
    have htest := iha has fun t ht => hsolid t (by simp [flattenAll_append, ht])
    refine ⟨hcover.1.nonempty htest.nonempty, ?_⟩
    exact List.forall_mem_cons.mpr ⟨hcover.1, List.forall_mem_cons.mpr ⟨hyes, List.forall_mem_singleton.mpr hcover.2⟩⟩
  | member _ _ target_ok ih =>
    obtain ⟨mid, hts, hrest⟩ := hlaid.split
    have hcover := (target_ok.lies hts).cover_encloses (hrest.tail.lies List.mem_cons_self)
    have htarget := ih hts fun t ht => hsolid t (by simp [flattenAll_append, ht])
    exact ⟨hcover.1.nonempty htarget.nonempty, List.forall_mem_nil _⟩
  | call _ target_ok _ ih _ | index _ target_ok _ ih _ | slice _ _ target_ok _ _ ih _ _ =>
    obtain ⟨mid, hts, hgroup⟩ := hlaid.split
    have hcover := (target_ok.lies hts).cover_encloses hgroup.closer_lies
    have htarget := ih hts fun t ht => hsolid t (by simp [flattenAll_append, ht])
    exact ⟨hcover.1.nonempty htarget.nonempty, List.forall_mem_nil _⟩
  | _ => trivial

/-- What is read as an expression holds a token that is not the end of the file. -/
theorem Derives.exists_token {ts : List TokenTree} {e : Expr} (h : Derives ts (.expr e)) :
    ∃ t ∈ flattenAll ts, t.kind ≠ .eof := by
  generalize hp : Part.expr e = p at h
  induction h generalizing e with
  | @ident t _ kind | @string t _ kind | @number t _ _ kind => exact ⟨t, List.mem_cons_self, by simp [kind]⟩
  | @parens o _ _ _ opener => exact ⟨o, List.mem_cons_self, by simp [opener]⟩
  | @front t _ _ _ _ operator => exact ⟨t, List.mem_cons_self, Token.kind_of_symbol operator⟩
  | behind _ _ _ ih | binary _ _ _ _ ih _ | ternary _ _ _ _ _ ih _ _ | member _ _ _ ih | call _ _ _ ih _
  | index _ _ _ ih _ | slice _ _ _ _ _ ih _ _ =>
    obtain ⟨t, ht, hkind⟩ := ih rfl
    exact ⟨t, by simp [flattenAll_append, ht], hkind⟩
  | _ => cases hp

theorem Derives.shape_exists_token {ts : List TokenTree} {build : Node → Stmt} (h : Derives ts (.shape build)) :
    ∃ t ∈ flattenAll ts, t.kind ≠ .eof := by
  cases h with
  | expr ok => exact ok.exists_token
  | @declare word _ _ _ _ word_ok | @declareTyped word _ _ _ _ _ _ word_ok =>
    exact ⟨word, List.mem_cons_self, word_ok.elim Token.kind_of_keyword Token.kind_of_keyword⟩
  | @typed type _ _ _ _ _ type_ok => exact ⟨type, List.mem_cons_self, by simp [type_ok]⟩
  | @change equals _ _ _ _ equals_ok =>
    exact ⟨equals, by simp [flattenAll_append, flattenAll, flatten], by simp [equals_ok]⟩
  | @conditional word _ _ _ _ _ _ _ _ _ _ word_ok | @forLoop word _ _ _ _ _ _ _ _ _ _ word_ok
  | @whileLoop word _ _ _ _ _ _ _ _ word_ok | @define word _ _ _ _ _ _ _ _ _ word_ok
  | @defineClass word _ _ _ _ _ word_ok | @defineSubclass word _ _ _ _ _ _ _ _ _ word_ok | @ret word _ _ word_ok
  | @brk word word_ok | @cont word word_ok => exact ⟨word, List.mem_cons_self, Token.kind_of_keyword word_ok⟩

theorem Derives.stmt_nonempty {f : SourceFile} {ts : List TokenTree} {s : Stmt} (h : Derives ts (.stmt s)) {lo hi : Nat}
    (hlaid : Laid f lo (flattenAll ts) hi) (hsolid : ∀ t ∈ flattenAll ts, t.IsSolid) : s.span.start < s.span.stop := by
  have hcovers := (h.stmt_lies hlaid).2
  cases h with
  | stmt ok =>
    obtain ⟨t, ht, hkind⟩ := ok.shape_exists_token
    have hnonempty := UInt32.lt_iff_toNat_lt.mp ((hsolid t ht).nonempty hkind)
    have := hcovers t ht
    rw [UInt32.lt_iff_toNat_lt]
    omega

/-! ## Sound programs -/

namespace Program

/-- The span is not empty and lies in the program. -/
structure Holds (p : Program) (s : Span) : Prop where
  nonempty : s.start < s.stop
  file_eq : s.file = p.file.id
  inside : p.span.Encloses s

/-- Spans are where they should be, those of all nodes that were ever created included. -/
structure SpansSound (p : Program) : Prop where
  file_eq : p.span.file = p.file.id
  start_le : p.span.start ≤ p.span.stop
  inside : p.span.stop.toNat ≤ p.file.content.length
  stmts : ∀ s ∈ p.forest.stmts.toList, p.Holds s.span
  exprs : ∀ e ∈ p.forest.exprs.toList, p.Holds e.span ∧ ∀ o ∈ operands e, e.span.Encloses o.span
  ordered : p.statements.Pairwise fun s s' => s.span.stop ≤ s'.span.start

variable {p : Program}

theorem Holds.checkInside {s : Span} (h : p.Holds s) (what : Bytes) : p.checkInside what s = none := by
  have hnonempty : ¬s.stop ≤ s.start := UInt32.not_le.mpr h.nonempty
  have hstart : ¬s.start < p.span.start := UInt32.not_lt.mpr h.inside.1
  have hstop : ¬p.span.stop < s.stop := UInt32.not_lt.mpr h.inside.2
  unfold Program.checkInside
  simp [hnonempty, h.file_eq, hstart, hstop]

theorem checkOperand_eq_none {parent operand : Expr} (h : parent.span.Encloses operand.span) :
    checkOperand parent operand = none := by
  have hstart : ¬operand.span.start < parent.span.start := UInt32.not_lt.mpr h.1
  have hstop : ¬parent.span.stop < operand.span.stop := UInt32.not_lt.mpr h.2
  unfold checkOperand
  simp [hstart, hstop]

theorem checkOrder_eq_none {ss : List Stmt} (h : ss.Pairwise fun s s' => s.span.stop ≤ s'.span.start) (index : Nat)
    (stop : UInt32) (hstop : ∀ s ∈ ss, stop ≤ s.span.start) : checkOrder index stop ss = none := by
  induction ss generalizing index stop with
  | nil => rfl
  | cons s ss ih =>
    rw [List.pairwise_cons] at h
    have hfirst : ¬s.span.start < stop := UInt32.not_lt.mpr (hstop s List.mem_cons_self)
    unfold checkOrder
    simp only [hfirst, decide_false, Bool.and_false, Bool.false_eq_true, if_false]
    exact ih h.2 (index + 1) s.span.stop h.1

/-- The check finds nothing in a program whose spans are sound. -/
theorem SpansSound.spanFault_eq_none (h : p.SpansSound) (hfit : p.file.content.length < 2 ^ 32) :
    p.spanFault? = none := by
  have hstart : ¬p.span.stop < p.span.start := UInt32.not_lt.mpr h.start_le
  have hstop : ¬p.file.size < p.span.stop := by
    have := h.inside
    rw [UInt32.lt_iff_toNat_lt, SourceFile.size]
    simp
    omega
  unfold spanFault?
  simp only [h.file_eq, ne_eq, not_true_eq_false, if_false, hstart, hstop, decide_false, Bool.or_self,
    Bool.false_eq_true]
  rw [Option.or_eq_none_iff, Option.or_eq_none_iff, List.findSome?_eq_none_iff, List.findSome?_eq_none_iff]
  refine ⟨?_, ?_, ?_⟩
  · rintro ⟨s, i⟩ hs
    exact (h.stmts s (List.fst_mem_of_mem_zipIdx hs)).checkInside _
  · rintro ⟨e, i⟩ he
    obtain ⟨hinside, hoperands⟩ := h.exprs e (List.fst_mem_of_mem_zipIdx he)
    unfold checkExpr
    rw [hinside.checkInside, Option.none_or, List.findSome?_eq_none_iff]
    intro o ho
    exact checkOperand_eq_none (hoperands o ho)
  · exact checkOrder_eq_none h.ordered 0 0 fun s _ => UInt32.zero_le

end Program

/-! ## Parsed programs -/

theorem Span.Lies.holds {p : Program} {s : Span} {pos : LineCol}
    (h : s.Lies p.file p.span.start.toNat p.span.stop.toNat pos) (hnonempty : s.start < s.stop) : p.Holds s where
  nonempty := hnonempty
  file_eq := h.file_eq
  inside := ⟨UInt32.le_iff_toNat_le.mpr h.lo_le, UInt32.le_iff_toNat_le.mpr h.le_hi⟩

namespace Program

variable {p : Program} {tokens : List Token}

theorem holds_expr {e : Expr} (hlaid : Laid p.file p.span.start.toNat tokens p.span.stop.toNat)
    (hsolid : ∀ t ∈ tokens, t.IsSolid) (h : Part.Within tokens (.expr e)) :
    p.Holds e.span ∧ ∀ o ∈ operands e, e.span.Encloses o.span := by
  obtain ⟨ts, hin, hderives⟩ := h
  have hts := hlaid.sublist hin
  have he : e.IsSolid := hderives.isSolid hts fun t ht => hsolid t (hin.subset ht)
  have hlies : e.span.Lies p.file p.span.start.toNat p.span.stop.toNat e.pos := hderives.lies hts
  exact ⟨hlies.holds he.nonempty, he.operands⟩

theorem holds_stmt {s : Stmt} (hlaid : Laid p.file p.span.start.toNat tokens p.span.stop.toNat)
    (hsolid : ∀ t ∈ tokens, t.IsSolid) (h : Part.Within tokens (.stmt s)) : p.Holds s.span := by
  obtain ⟨ts, hin, hderives⟩ := h
  have hts := hlaid.sublist hin
  have hs := hderives.stmt_nonempty hts fun t ht => hsolid t (hin.subset ht)
  exact (hderives.stmt_lies hts).1.holds hs

end Program

theorem Lexer.Tile.faithful {f : SourceFile} {start stop : UInt32} {tokens : List Token} (h : Tile f start tokens stop) :
    ∀ t ∈ tokens, t.Faithful f := by
  induction tokens generalizing start with
  | nil => exact List.forall_mem_nil _
  | cons t ts ih => exact List.forall_mem_cons.mpr ⟨h.1, ih h.2.2⟩

namespace SourceFile

variable {f : SourceFile} {tokens : List Token}

theorem isSolid_of_tokenize (hfit : f.content.length < 2 ^ 32) (h : f.tokenize = .ok tokens) :
    ∀ t ∈ significant tokens ++ [f.endToken], t.IsSolid := by
  obtain ⟨stop, htile, -⟩ := tokenize_tile hfit h
  intro t ht
  rw [List.mem_append, List.mem_singleton] at ht
  rcases ht with ht | rfl
  · exact .inr (htile.faithful t (List.mem_filter.mp ht).1).nonempty
  · exact .inl rfl

/-- A program reaches from its first token to the end of the file, and all tokens lie in between. -/
theorem span_of_tokenize (hfit : f.content.length < 2 ^ 32) (h : f.tokenize = .ok tokens) :
    let span := (((significant tokens).head?).getD f.endToken).span.cover f.endToken.span
    span.Lies f 0 f.content.length (((significant tokens).head?).getD f.endToken).pos ∧
      Laid f span.start.toNat (significant tokens ++ [f.endToken]) span.stop.toNat := by
  have hlaid := tokenize_laid hfit h
  have hend := endToken_points hfit
  have hsize : f.endToken.span.stop.toNat = f.content.length := hend.at_end rfl
  obtain ⟨more, hmore⟩ : ∃ more, significant tokens ++ [f.endToken] =
      ((significant tokens).head?).getD f.endToken :: more := by
    cases significant tokens with
    | nil => exact ⟨[], rfl⟩
    | cons t ts => exact ⟨ts ++ [f.endToken], rfl⟩
  have hhull := hlaid.hull hmore ⟨significant tokens, rfl⟩
  rw [hmore] at hlaid
  have hfirst := hlaid.lies List.mem_cons_self
  have hstop := Nat.le_trans hfirst.inside (Nat.le_of_eq hsize.symm)
  refine ⟨hhull.1, ?_⟩
  rw [Span.cover_eq hfirst.file_eq (Nat.le_trans hfirst.start_le hstop) hstop, hmore, hsize]
  exact ⟨hlaid.1, Nat.le_refl _, hlaid.2.2⟩

/-- A program that was parsed has sound spans, and the check of spans finds nothing in it. -/
theorem parse_spansSound (f : SourceFile) (hfit : f.content.length < 2 ^ 32) (p : Program) (h : f.parse = .ok p) :
    p.SpansSound ∧ p.spanFault? = none := by
  suffices hsound : p.file = f ∧ p.SpansSound by
    obtain ⟨rfl, hsound⟩ := hsound
    exact ⟨hsound, hsound.spanFault_eq_none hfit⟩
  unfold parse at h
  split at h
  · cases h
  · rename_i tokens htokens
    obtain ⟨hanswers, -, ⟨es, hes, hexprs⟩, ⟨ss, hss, hstmts⟩⟩ := f.parseStatements_reads tokens {}
    obtain ⟨hspan, hlaid⟩ := span_of_tokenize hfit htokens
    have hsolid := isSolid_of_tokenize hfit htokens
    unfold parseTokens at h
    split at h
    · cases h
    · rename_i statements state hrun
      cases h
      rw [hrun] at hanswers hes hss
      obtain ⟨trees, -, hflatten, hderives⟩ := hanswers
      refine ⟨rfl, hspan.file_eq, UInt32.le_iff_toNat_le.mpr hspan.start_le, hspan.inside, ?_, ?_, ?_⟩
      · intro s hs
        rw [hss] at hs
        exact Program.holds_stmt hlaid hsolid (hstmts s hs)
      · intro e he
        rw [hes] at he
        exact Program.holds_expr hlaid hsolid (hexprs e he)
      · have htrees := hlaid.sublist (List.sublist_append_left _ _)
        rw [← hflatten] at htrees
        exact (hderives.covers htrees).ordered.imp UInt32.le_iff_toNat_le.mpr

/-- A statement that is no assignment, and operators of all kinds in a block. -/
def givenUp : SourceFile := ⟨0, "given.uns", "\n a.b[c]++;\nif (x) \x7b f(-(a + 1), y ? z : w) \x7d ", 0⟩

theorem givenUp_spansSound :
    givenUp.content.length < 2 ^ 32 ∧ ∃ p, givenUp.parse = .ok p ∧ p.SpansSound ∧ p.spanFault? = none := by
  have hfit : givenUp.content.length < 2 ^ 32 := by decide
  have hparses : givenUp.parse.toOption.isSome = true := by decide +kernel
  cases h : givenUp.parse with
  | error fault =>
    rw [h] at hparses
    cases hparses
  | ok p => exact ⟨hfit, p, rfl, parse_spansSound givenUp hfit p h⟩

end SourceFile

end Bracescript
