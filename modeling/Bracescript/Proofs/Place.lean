import Mathlib.Algebra.Group.Nat.Defs
import Bracescript.Proofs.Position
import Bracescript.Proofs.Reading

/-!
# Places of nodes

Tokens that lie in a file one behind the other give every expression and every statement that is derived from them a
place in the file: from the start of its first token to the end of its last one.
-/

namespace Bracescript

open TokenTree

/-- The span lies in the file, is empty at most at its end, and starts at this line and column. -/
structure Span.Points (f : SourceFile) (s : Span) (pos : LineCol) : Prop where
  file_eq : s.file = f.id
  start_le : s.start.toNat ≤ s.stop.toNat
  inside : s.stop.toNat ≤ f.content.length
  at_end : s.start.toNat = s.stop.toNat → s.start.toNat = f.content.length
  pos_eq : pos = f.position s.start

/-- The same between two offsets. -/
structure Span.Lies (f : SourceFile) (lo hi : Nat) (s : Span) (pos : LineCol) : Prop extends s.Points f pos where
  lo_le : lo ≤ s.start.toNat
  le_hi : s.stop.toNat ≤ hi

variable {f : SourceFile} {lo hi mid : Nat} {s s' : Span} {pos pos' : LineCol}

theorem Span.Lies.widen {lo' hi' : Nat} (h : s.Lies f lo hi pos) (hlo : lo' ≤ lo) (hhi : hi ≤ hi') :
    s.Lies f lo' hi' pos where
  toPoints := h.toPoints
  lo_le := Nat.le_trans hlo h.lo_le
  le_hi := Nat.le_trans h.le_hi hhi

theorem Span.cover_eq (hfile : s.file = s'.file) (hstart : s.start.toNat ≤ s'.start.toNat)
    (hstop : s.stop.toNat ≤ s'.stop.toNat) : s.cover s' = ⟨s.file, s.start, s'.stop⟩ := by
  have hmin : min s.start s'.start = s.start := if_pos hstart
  have hmax : max s.stop s'.stop = s'.stop := if_pos hstop
  rw [cover, if_pos hfile, hmin, hmax]

/-- What covers two spans, one behind the other, has the position of the first. -/
theorem Span.Lies.cover (h : s.Lies f lo mid pos) (h' : s'.Lies f mid hi pos') : (s.cover s').Lies f lo hi pos := by
  have hbetween := Nat.le_trans h.le_hi h'.lo_le
  have hstart := h.start_le
  have hstop := h'.start_le
  rw [cover_eq (h.file_eq.trans h'.file_eq.symm) (by omega) (by omega)]
  refine ⟨⟨h.file_eq, ?_, h'.inside, ?_, h.pos_eq⟩, h.lo_le, h'.le_hi⟩
  · show s.start.toNat ≤ s'.stop.toNat
    omega
  · intro hempty
    have hempty : s.start.toNat = s'.stop.toNat := hempty
    exact h.at_end (by omega)

/-! ## Tokens one behind the other -/

/-- The tokens lie in the file one behind the other, from `lo` up to `hi`. -/
def Laid (f : SourceFile) (lo : Nat) : List Token → Nat → Prop
  | [], hi => lo ≤ hi
  | t :: ts, hi => t.span.Points f t.pos ∧ lo ≤ t.span.start.toNat ∧ Laid f t.span.stop.toNat ts hi

namespace Laid

variable {xs ys : List Token} {t : Token}

theorem le (h : Laid f lo xs hi) : lo ≤ hi := by
  induction xs generalizing lo with
  | nil => exact h
  | cons t ts ih =>
    obtain ⟨ht, hlo, hrest⟩ := h
    have := ih hrest
    have := ht.start_le
    omega

theorem of_le {lo' : Nat} (h : Laid f lo xs hi) (hlo : lo' ≤ lo) : Laid f lo' xs hi := by
  cases xs with
  | nil => exact Nat.le_trans hlo h
  | cons t ts => exact ⟨h.1, Nat.le_trans hlo h.2.1, h.2.2⟩

theorem append_iff : Laid f lo (xs ++ ys) hi ↔ ∃ mid, Laid f lo xs mid ∧ Laid f mid ys hi := by
  induction xs generalizing lo with
  | nil =>
    constructor
    · intro h
      exact ⟨lo, Nat.le_refl _, h⟩
    · rintro ⟨mid, hle, h⟩
      exact h.of_le hle
  | cons t ts ih =>
    constructor
    · rintro ⟨ht, hlo, hrest⟩
      obtain ⟨mid, hts, hys⟩ := ih.mp hrest
      exact ⟨mid, ⟨ht, hlo, hts⟩, hys⟩
    · rintro ⟨mid, ⟨ht, hlo, hts⟩, hys⟩
      exact ⟨ht, hlo, ih.mpr ⟨mid, hts, hys⟩⟩

theorem sublist (h : Laid f lo ys hi) (hsub : xs.Sublist ys) : Laid f lo xs hi := by
  induction hsub generalizing lo with
  | slnil => exact h
  | cons t _ ih =>
    obtain ⟨ht, hlo, hrest⟩ := h
    exact (ih hrest).of_le (Nat.le_trans hlo ht.start_le)
  | cons_cons t _ ih => exact ⟨h.1, h.2.1, ih h.2.2⟩

theorem lies (h : Laid f lo xs hi) (ht : t ∈ xs) : t.span.Lies f lo hi t.pos := by
  obtain ⟨before, after, rfl⟩ := List.append_of_mem ht
  obtain ⟨mid, hbefore, ht, hmid, hafter⟩ := append_iff.mp h
  exact ⟨ht, Nat.le_trans hbefore.le hmid, hafter.le⟩

/-- The first token starts first, and the last one ends last. -/
theorem hull {a b : Token} {more : List Token} (ha : xs = a :: more) (hb : ∃ init, xs = init ++ [b])
    (h : Laid f lo xs hi) :
    (a.span.cover b.span).Lies f lo hi a.pos ∧
      ∀ t ∈ xs, (a.span.cover b.span).start.toNat ≤ t.span.start.toNat ∧
        t.span.stop.toNat ≤ (a.span.cover b.span).stop.toNat := by
  obtain ⟨init, hb⟩ := hb
  have hfirst : ∀ t ∈ xs, a.span.start.toNat ≤ t.span.start.toNat ∧ a.span.stop.toNat ≤ t.span.stop.toNat := by
    rw [ha] at h ⊢
    obtain ⟨hpoints, hlo, hmore⟩ := h
    refine List.forall_mem_cons.mpr ⟨⟨Nat.le_refl _, Nat.le_refl _⟩, fun t ht => ?_⟩
    have hlies := hmore.lies ht
    have := hlies.lo_le
    have := hlies.start_le
    have := hpoints.start_le
    omega
  have hlast : ∀ t ∈ xs, t.span.stop.toNat ≤ b.span.stop.toNat := by
    rw [hb] at h ⊢
    obtain ⟨mid, hinit, hpoints, hmid, -⟩ := append_iff.mp h
    refine List.forall_mem_append.mpr ⟨fun t ht => ?_, by simp⟩
    have := (hinit.lies ht).le_hi
    have := hpoints.start_le
    omega
  have hamem : a ∈ xs := by simp [ha]
  have hbmem : b ∈ xs := by simp [hb]
  have halies := h.lies hamem
  have hblies := h.lies hbmem
  obtain ⟨hstart, hstop⟩ := hfirst b hbmem
  rw [Span.cover_eq (halies.file_eq.trans hblies.file_eq.symm) hstart hstop]
  refine ⟨⟨⟨halies.file_eq, ?_, hblies.inside, ?_, halies.pos_eq⟩, halies.lo_le, hblies.le_hi⟩, ?_⟩
  · exact Nat.le_trans hstart hblies.start_le
  · intro hempty
    have hempty : a.span.start.toNat = b.span.stop.toNat := hempty
    have := halies.start_le
    exact halies.at_end (by omega)
  · exact fun t ht => ⟨(hfirst t ht).1, hlast t ht⟩

end Laid

/-! ## Derived nodes -/

theorem TokenTree.flatten_eq_first (t : TokenTree) : ∃ more, t.flatten = t.first :: more := by
  cases t with
  | leaf t => exact ⟨[], rfl⟩
  | group opener inside closer => exact ⟨_, rfl⟩

theorem TokenTree.flatten_eq_last (t : TokenTree) : ∃ init, t.flatten = init ++ [t.last] := by
  cases t with
  | leaf t => exact ⟨[], rfl⟩
  | group opener inside closer => exact ⟨opener :: flattenAll inside, rfl⟩

/-- Trees reach from the start of their first token to the end of their last one. -/
theorem Laid.stretch {ts : List TokenTree} (stop : Token) (hne : ts ≠ []) (h : Laid f lo (flattenAll ts) hi) :
    (Stretch.span ⟨ts, stop⟩).Lies f lo hi (Stretch.first ⟨ts, stop⟩).pos ∧
      ∀ t ∈ flattenAll ts, (Stretch.span ⟨ts, stop⟩).start.toNat ≤ t.span.start.toNat ∧
        t.span.stop.toNat ≤ (Stretch.span ⟨ts, stop⟩).stop.toNat := by
  cases ts with
  | nil => exact absurd rfl hne
  | cons t ts =>
    obtain ⟨more, hfirst⟩ := t.flatten_eq_first
    obtain ⟨init, hlast⟩ := ((t :: ts).getLast (by simp)).flatten_eq_last
    have hsplit := List.dropLast_concat_getLast (l := t :: ts) (by simp)
    have ha : flattenAll (t :: ts) = t.first :: (more ++ flattenAll ts) := by rw [flattenAll, hfirst, List.cons_append]
    have hb := congrArg flattenAll hsplit
    rw [flattenAll_append, flattenAll, hlast, flattenAll, List.append_nil, ← List.append_assoc] at hb
    exact hull ha ⟨_, hb.symm⟩ h

theorem Laid.split {xs ys : List TokenTree} (h : Laid f lo (flattenAll (xs ++ ys)) hi) :
    ∃ mid, Laid f lo (flattenAll xs) mid ∧ Laid f mid (flattenAll ys) hi := by
  rw [flattenAll_append] at h
  exact append_iff.mp h

theorem Laid.tail {x : TokenTree} {ts : List TokenTree} (h : Laid f lo (flattenAll (x :: ts)) hi) :
    Laid f lo (flattenAll ts) hi := h.sublist (List.sublist_append_right _ _)

theorem Laid.inside {o c : Token} {inner ts : List TokenTree} (h : Laid f lo (flattenAll (.group o inner c :: ts)) hi) :
    Laid f lo (flattenAll inner) hi := by
  refine h.sublist (List.Sublist.trans ?_ (List.sublist_append_left _ _))
  simp [flatten]

theorem Laid.closer_lies {o c : Token} {inner ts : List TokenTree}
    (h : Laid f lo (flattenAll (.group o inner c :: ts)) hi) : c.span.Lies f lo hi c.pos :=
  h.lies (by simp [flattenAll, flatten])

def Part.Lies (f : SourceFile) (lo hi : Nat) : Part → Prop
  | .expr e => e.span.Lies f lo hi e.pos
  | _ => True

theorem Derives.lies {ts : List TokenTree} {p : Part} (h : Derives ts p) {lo hi : Nat}
    (hlaid : Laid f lo (flattenAll ts) hi) : p.Lies f lo hi := by
  induction h generalizing lo hi with
  | ident | string | number => exact hlaid.lies List.mem_cons_self
  | parens _ _ ih => exact ih hlaid.inside
  | front _ _ _ ih =>
    obtain ⟨ht, hlo, hrest⟩ := hlaid
    exact Span.Lies.cover ⟨ht, hlo, Nat.le_refl _⟩ (ih hrest)
  | behind _ _ _ ih =>
    obtain ⟨mid, hts, ht⟩ := hlaid.split
    exact (ih hts).cover (ht.lies List.mem_cons_self)
  | binary _ _ _ _ ihl ihr =>
    obtain ⟨mid, hls, hrs⟩ := hlaid.split
    exact (ihl hls).cover (ihr hrs.tail)
  | ternary _ _ _ _ _ iha _ ihc =>
    obtain ⟨mid, has, hrest⟩ := hlaid.split
    obtain ⟨mid', hbs, hcs⟩ := hrest.tail.split
    exact (iha has).cover ((ihc hcs.tail).widen hbs.le (Nat.le_refl _))
  | member _ _ _ ih =>
    obtain ⟨mid, hts, hrest⟩ := hlaid.split
    exact (ih hts).cover (hrest.tail.lies List.mem_cons_self)
  | call _ _ _ ih _ | index _ _ _ ih _ | slice _ _ _ _ _ ih _ _ =>
    obtain ⟨mid, hts, hgroup⟩ := hlaid.split
    exact (ih hts).cover hgroup.closer_lies
  | _ => trivial

theorem Derives.expr_ne_nil {ts : List TokenTree} {e : Expr} (h : Derives ts (.expr e)) : ts ≠ [] := by
  generalize hp : Part.expr e = p at h
  induction h generalizing e with
  | behind _ _ _ _ | binary _ _ _ _ _ _ | ternary _ _ _ _ _ _ _ _ | member _ _ _ _ | call _ _ _ _ _ | index _ _ _ _ _
  | slice _ _ _ _ _ _ _ _ => simp
  | ident | string | number | parens | front => simp
  | _ => cases hp

theorem Derives.shape_ne_nil {ts : List TokenTree} {build : Node → Stmt} (h : Derives ts (.shape build)) : ts ≠ [] := by
  cases h with
  | expr ok => exact ok.expr_ne_nil
  | change => simp
  | _ => simp

theorem Derives.shape_node {ts : List TokenTree} {build : Node → Stmt} (h : Derives ts (.shape build)) (n : Node) :
    (build n).node? = some n := by
  cases h <;> rfl

/-- A statement reaches as far as its tokens. -/
theorem Derives.stmt_lies {ts : List TokenTree} {s : Stmt} (h : Derives ts (.stmt s)) {lo hi : Nat}
    (hlaid : Laid f lo (flattenAll ts) hi) :
    s.span.Lies f lo hi s.pos ∧
      ∀ t ∈ flattenAll ts, s.span.start.toNat ≤ t.span.start.toNat ∧ t.span.stop.toNat ≤ s.span.stop.toNat := by
  cases h with
  | stmt ok =>
    rw [Stmt.span, Stmt.pos, ok.shape_node]
    exact hlaid.stretch _ ok.shape_ne_nil

theorem IsPlace.points {tokens : List Token} {span : Span} {pos : LineCol} (h : IsPlace tokens span pos)
    (hlaid : Laid f lo tokens hi) : span.Points f pos := by
  cases h with
  | token mem => exact (hlaid.lies mem).toPoints
  | expr derived =>
    obtain ⟨ts, hin, h⟩ := derived
    exact (h.lies (hlaid.sublist hin)).toPoints
  | stmt derived =>
    obtain ⟨ts, hin, h⟩ := derived
    exact (h.stmt_lies (hlaid.sublist hin)).1.toPoints

end Bracescript
