import Mathlib.Algebra.Group.Nat.Defs
import Bracescript.Proofs.Position
import Bracescript.Proofs.SettledPaths

/-!
# Lines

The lines of a file are the pieces of its text between line feeds. An offset, a line with a column in it, and the bytes
of the lines tell the same: each can be computed from the others.
-/

namespace Bracescript

/-! ## Pieces of a text -/

namespace Bytes

theorem join_split (sep : UInt8) (bs : Bytes) : join [sep] (split sep bs) = bs := by
  induction bs with
  | nil => rfl
  | cons b bs ih =>
    obtain ⟨piece, pieces, hsplit⟩ := List.exists_cons_of_ne_nil (split_ne_nil sep bs)
    by_cases hb : b = sep
    · rw [split, if_pos hb, join_cons [sep] [] (split_ne_nil sep bs), ih, hb]
      rfl
    · rw [split, if_neg hb, hsplit]
      rw [hsplit] at ih
      cases pieces with
      | nil => simpa [join, List.intercalate] using ih
      | cons second pieces =>
        rw [join_cons [sep] piece (by simp)] at ih
        rw [join_cons [sep] (b :: piece) (by simp), ← ih]
        rfl

theorem length_split_le (sep : UInt8) (bs : Bytes) : (split sep bs).length ≤ bs.length + 1 := by
  induction bs with
  | nil => exact Nat.le_refl _
  | cons b bs ih =>
    obtain ⟨piece, pieces, hsplit⟩ := List.exists_cons_of_ne_nil (split_ne_nil sep bs)
    by_cases hb : b = sep
    · rw [split, if_pos hb, List.length_cons, List.length_cons]
      exact Nat.succ_le_succ ih
    · rw [hsplit, List.length_cons] at ih
      rw [split, if_neg hb, hsplit, List.length_cons, List.length_cons]
      exact Nat.le_succ_of_le ih

/-- The pieces of a text that is cut in two: the piece at the cut is in two parts. -/
theorem split_cut (sep : UInt8) (as bs : Bytes) :
    ∃ before left right after, split sep as = before ++ [left] ∧ split sep bs = right :: after ∧
      split sep (as ++ bs) = before ++ (left ++ right) :: after := by
  induction as with
  | nil =>
    obtain ⟨right, after, hsplit⟩ := List.exists_cons_of_ne_nil (split_ne_nil sep bs)
    exact ⟨[], [], right, after, rfl, hsplit, hsplit⟩
  | cons a as ih =>
    obtain ⟨before, left, right, after, has, hbs, hall⟩ := ih
    by_cases ha : a = sep
    · refine ⟨[] :: before, left, right, after, ?_, hbs, ?_⟩
      · rw [split, if_pos ha, has, List.cons_append]
      · rw [List.cons_append, split, if_pos ha, hall, List.cons_append]
    · -- the byte goes in front of the first piece, which is the one at the cut if there is no other
      cases before with
      | nil =>
        refine ⟨[], a :: left, right, after, ?_, hbs, ?_⟩
        · rw [split, if_neg ha, has]
          rfl
        · rw [List.cons_append, split, if_neg ha, hall]
          rfl
      | cons first before =>
        refine ⟨(a :: first) :: before, left, right, after, ?_, hbs, ?_⟩
        · rw [split, if_neg ha, has]
          rfl
        · rw [List.cons_append, split, if_neg ha, hall]
          rfl

theorem join_cons_eq (sep : UInt8) (first : Bytes) (rest : List Bytes) :
    join [sep] (first :: rest) = first ++ rest.flatMap (sep :: ·) := by
  induction rest generalizing first with
  | nil => simp [join, List.intercalate]
  | cons second rest ih => rw [join_cons [sep] first (by simp), ih]; simp

/-- Pieces with a separator behind each. -/
def ended (sep : UInt8) (pieces : List Bytes) : Bytes := pieces.flatMap (· ++ [sep])

theorem ended_concat (sep : UInt8) (pieces : List Bytes) (piece : Bytes) :
    ended sep (pieces ++ [piece]) = ended sep pieces ++ piece ++ [sep] := by
  simp [ended]

theorem length_ended_concat (sep : UInt8) (pieces : List Bytes) (piece : Bytes) :
    (ended sep (pieces ++ [piece])).length = (ended sep pieces ++ piece).length + 1 := by
  rw [ended_concat, List.length_append]
  rfl

/-- Every piece in front of another is ended by a separator, every piece behind it begins with one. -/
theorem join_middle (sep : UInt8) (before : List Bytes) (piece : Bytes) (after : List Bytes) :
    join [sep] (before ++ piece :: after) = ended sep before ++ piece ++ after.flatMap (sep :: ·) := by
  induction before with
  | nil => exact join_cons_eq sep piece after
  | cons first before ih =>
    rw [List.cons_append, join_cons [sep] first (by simp), ih]
    simp only [ended, List.flatMap_cons, List.append_assoc]

/-- A text is cut into these pieces if they are joined to it and hold no separator. -/
theorem split_middle {sep : UInt8} {before : List Bytes} {piece : Bytes} (hbefore : ∀ p ∈ before, sep ∉ p)
    (hpiece : sep ∉ piece) : split sep (ended sep before ++ piece) = before ++ [piece] := by
  have hjoin := join_middle sep before piece []
  rw [List.flatMap_nil, List.append_nil] at hjoin
  rw [← hjoin]
  exact split_join (by simp) (List.forall_mem_append.mpr ⟨hbefore, List.forall_mem_singleton.mpr hpiece⟩)

end Bytes

theorem toNat_toUInt32 {n : Nat} (h : n < 2 ^ 32) : n.toUInt32.toNat = n := UInt32.toNat_ofNat_of_lt' h

theorem toUInt32_add (m n : Nat) : (m + n).toUInt32 = m.toUInt32 + n.toUInt32 := UInt32.ofNat_add m n

/-- Whether a position comes in front of another. -/
def LineCol.Before (p q : LineCol) : Prop := p.line < q.line ∨ p.line = q.line ∧ p.col < q.col

namespace SourceFile

open Bytes

/-- All lines of a file. -/
def lines (f : SourceFile) : List Bytes := (List.range (f.lineFeeds.length + 1)).map fun i => f.line (i + 1).toUInt32

/-- How many bytes stand in front of the line with this number: the lines before it, each with its line feed. -/
def lineStart (f : SourceFile) (n : Nat) : Nat := (ended 0x0a (f.lines.take (n - 1))).length

/-- Where a line stops: at its line feed or, if it has none, at the end of the text. -/
def lineStop (f : SourceFile) (n : Nat) : Nat := f.lineFeeds[n - 1]?.elim f.content.length UInt32.toNat

theorem line_one (f : SourceFile) : f.line 1 = f.slice 0 (f.lineStop 1) := by
  have hone : (1 : UInt32).toNat = 1 := rfl
  rw [line, if_neg (by decide), hone, lineStop]
  dsimp only
  rw [if_pos rfl]
  cases f.lineFeeds[1 - 1]? <;> rfl

theorem line_behind (f : SourceFile) {n feed : UInt32} (hn : 1 < n.toNat)
    (hfeed : f.lineFeeds[n.toNat - 2]? = some feed) : f.line n = f.slice (feed.toNat + 1) (f.lineStop n.toNat) := by
  have hne : n ≠ 0 ∧ n ≠ 1 := by
    constructor <;> rintro rfl <;> exact absurd hn (by decide)
  rw [line, if_neg hne.1]
  dsimp only
  rw [if_neg hne.2, hfeed, lineStop]
  cases f.lineFeeds[n.toNat - 1]? <;> rfl

theorem line_eq_nil (f : SourceFile) {n : UInt32} (hn : n = 0 ∨ f.lineFeeds.length + 1 < n.toNat) : f.line n = [] := by
  rcases hn with rfl | hn
  · rfl
  · have hne : n ≠ 0 ∧ n ≠ 1 := by
      constructor <;> rintro rfl <;> simp at hn
    have hnone : f.lineFeeds[n.toNat - 2]? = none := List.getElem?_eq_none (by omega)
    rw [line, if_neg hne.1]
    dsimp only
    rw [if_neg hne.2, hnone]

/-! ## Line feeds and pieces -/

theorem length_split (off : UInt32) (text : Bytes) : (split 0x0a text).length = (lineFeedsFrom off text).length + 1 := by
  induction text generalizing off with
  | nil => rfl
  | cons b text ih =>
    obtain ⟨piece, pieces, hsplit⟩ := List.exists_cons_of_ne_nil (split_ne_nil 0x0a text)
    have hrest := ih (off + 1)
    by_cases hb : b = 0x0a
    · rw [split, if_pos hb, lineFeedsFrom, if_pos hb, List.length_cons, List.length_cons, hrest]
    · rw [split, if_neg hb, lineFeedsFrom, if_neg hb, ← hrest, hsplit]
      rfl

theorem lineFeeds_eq {before after : Bytes} {f : SourceFile} (h : f.content = before ++ 0x0a :: after) :
    ∃ later, f.lineFeeds = lineFeedsFrom 0 before ++ before.length.toUInt32 :: later := by
  rw [lineFeeds, h, lineFeedsFrom_append, lineFeedsFrom, if_pos rfl, UInt32.zero_add]
  exact ⟨_, rfl⟩

theorem lineFeeds_getElem? {before after : Bytes} {f : SourceFile} (h : f.content = before ++ 0x0a :: after) {n : Nat}
    (hn : (split 0x0a before).length = n + 1) : f.lineFeeds[n]? = some before.length.toUInt32 := by
  obtain ⟨later, hfeeds⟩ := lineFeeds_eq h
  rw [length_split 0, Nat.add_right_cancel_iff] at hn
  rw [hfeeds, ← hn, List.getElem?_append_right (Nat.le_refl _), Nat.sub_self, List.getElem?_cons_zero]

variable {f : SourceFile}

theorem toNat_length (hfit : f.content.length < 2 ^ 32 - 1) {a b : Bytes} (h : f.content = a ++ b) :
    a.length.toUInt32.toNat = a.length := by
  have hlength := congrArg List.length h
  rw [List.length_append] at hlength
  exact toNat_toUInt32 (by omega)

section Pieces

variable {before after : List Bytes} {piece : Bytes} (hsplit : split 0x0a f.content = before ++ piece :: after)

include hsplit

theorem content_eq_pieces : f.content = ended 0x0a before ++ piece ++ after.flatMap (0x0a :: ·) := by
  rw [← join_middle, ← hsplit, join_split]

theorem lineFeed_notin : (∀ p ∈ before, (0x0a : UInt8) ∉ p) ∧ (0x0a : UInt8) ∉ piece := by
  have hnone : ∀ p ∈ before ++ piece :: after, (0x0a : UInt8) ∉ p := by
    rw [← hsplit]
    exact fun p hp => not_mem_of_mem_split hp
  rw [List.forall_mem_append, List.forall_mem_cons] at hnone
  exact ⟨hnone.1, hnone.2.1⟩

theorem length_before_le : before.length ≤ f.content.length := by
  have hle := length_split_le 0x0a f.content
  rw [hsplit, List.length_append, List.length_cons] at hle
  omega

/-- The line feed behind a piece, if there is a piece behind it. -/
theorem lineFeeds_behind :
    f.lineFeeds[before.length]? =
      if after = [] then none else some (ended 0x0a before ++ piece).length.toUInt32 := by
  have hcontent := content_eq_pieces hsplit
  cases after with
  | nil =>
    have hlength := length_split 0 f.content
    rw [hsplit, List.length_append, List.length_singleton] at hlength
    rw [if_pos rfl, List.getElem?_eq_none]
    exact Nat.le_of_eq (Nat.succ.inj hlength).symm
  | cons second after =>
    rw [List.flatMap_cons, List.cons_append] at hcontent
    obtain ⟨hbefore, hpiece⟩ := lineFeed_notin hsplit
    rw [if_neg (List.cons_ne_nil _ _)]
    apply lineFeeds_getElem? hcontent
    rw [split_middle hbefore hpiece, List.length_append, List.length_singleton]

theorem lineFeeds_front {first : List Bytes} {p : Bytes} (hbefore : before = first ++ [p]) :
    f.lineFeeds[first.length]? = some (ended 0x0a first ++ p).length.toUInt32 := by
  have hfirst : split 0x0a f.content = first ++ p :: (piece :: after) := by
    rw [hsplit, hbefore, List.append_assoc]
    rfl
  rw [lineFeeds_behind hfirst, if_neg (List.cons_ne_nil _ _)]

theorem lineStop_eq (hfit : f.content.length < 2 ^ 32 - 1) :
    f.lineStop (before.length + 1) = (ended 0x0a before ++ piece).length := by
  have hcontent := content_eq_pieces hsplit
  rw [lineStop, Nat.add_sub_cancel, lineFeeds_behind hsplit]
  by_cases hafter : after = []
  · rw [hafter, List.flatMap_nil, List.append_nil] at hcontent
    rw [if_pos hafter]
    exact congrArg List.length hcontent
  · rw [if_neg hafter]
    exact toNat_length hfit hcontent

/-- The line whose number is one more than the number of pieces in front of a piece is that piece. -/
theorem line_eq (hfit : f.content.length < 2 ^ 32 - 1) : f.line (before.length + 1).toUInt32 = piece := by
  have hcontent := content_eq_pieces hsplit
  have hbound := length_before_le hsplit
  have hnumber : (before.length + 1).toUInt32.toNat = before.length + 1 := toNat_toUInt32 (by omega)
  have hstop := lineStop_eq hsplit hfit
  have hslice : f.slice (ended 0x0a before).length (ended 0x0a before ++ piece).length = piece := by
    rw [slice, hcontent, List.take_left, List.drop_left]
  -- only the first line has no line feed in front of it
  rcases List.eq_nil_or_concat before with rfl | ⟨first, p, hbefore⟩
  · exact f.line_one.trans ((congrArg (f.slice 0) hstop).trans hslice)
  · rw [List.concat_eq_append] at hbefore
    have hlength : before.length = first.length + 1 := by rw [hbefore, List.length_append, List.length_singleton]
    have hfront : ended 0x0a before = ended 0x0a first ++ p ++ [0x0a] := by rw [hbefore, ended_concat]
    have hfeed := lineFeeds_front hsplit hbefore
    rw [hfront, List.append_assoc, List.append_assoc] at hcontent
    have hstart : (ended 0x0a first ++ p).length.toUInt32.toNat + 1 =
        (ended 0x0a before).length := by
      rw [toNat_length hfit hcontent, hbefore, length_ended_concat]
    rw [f.line_behind (by omega) (by rw [hnumber, hlength]; exact hfeed), hnumber, hstop, hstart, hslice]

end Pieces

theorem exists_pieces {i : Nat} (hi : i ≤ f.lineFeeds.length) :
    ∃ before piece after, split 0x0a f.content = before ++ piece :: after ∧ before.length = i := by
  have hlt : i < (split 0x0a f.content).length := by
    rw [length_split 0]
    exact Nat.lt_succ_of_le hi
  refine ⟨(split 0x0a f.content).take i, (split 0x0a f.content)[i], (split 0x0a f.content).drop (i + 1), ?_, ?_⟩
  · rw [← List.drop_eq_getElem_cons hlt, List.take_append_drop]
  · rw [List.length_take, Nat.min_eq_left (Nat.le_of_lt hlt)]

/-- The lines of a file are the pieces of its text. -/
theorem lines_eq_split (hfit : f.content.length < 2 ^ 32 - 1) : f.lines = split 0x0a f.content := by
  apply List.ext_getElem
  · rw [lines, List.length_map, List.length_range, length_split 0]
    rfl
  · intro i hi hi'
    rw [lines, List.length_map, List.length_range] at hi
    obtain ⟨before, piece, after, hsplit, rfl⟩ := exists_pieces (Nat.le_of_lt_succ hi)
    simp only [lines, List.getElem_map, List.getElem_range, line_eq hsplit hfit, hsplit, List.getElem_append_right,
      Nat.le_refl, Nat.sub_self, List.getElem_cons_zero]

theorem lineStart_eq (hfit : f.content.length < 2 ^ 32 - 1) {before after : List Bytes}
    (hsplit : split 0x0a f.content = before ++ after) :
    f.lineStart (before.length + 1) = (ended 0x0a before).length := by
  rw [lineStart, lines_eq_split hfit, hsplit, Nat.add_sub_cancel, List.take_left]

/-! ## Positions and pieces -/

theorem lineFeedsFrom_eq_nil (off : UInt32) {text : Bytes} (h : (0x0a : UInt8) ∉ text) : lineFeedsFrom off text = [] := by
  have hlength := length_split off text
  rw [split_of_not_mem h] at hlength
  exact List.eq_nil_of_length_eq_zero (Nat.succ.inj hlength).symm

/-- The offset at which the last line of a text starts. -/
theorem startAfter_eq {text : Bytes} {before : List Bytes} {left : Bytes}
    (hsplit : split 0x0a text = before ++ [left]) :
    startAfter (lineFeedsFrom 0 text) = (ended 0x0a before).length.toUInt32 := by
  have htext : text = ended 0x0a before ++ left := by
    rw [← join_split 0x0a text, hsplit, join_middle, List.flatMap_nil, List.append_nil]
  have hmem : left ∈ split 0x0a text := by simp [hsplit]
  have hleft := not_mem_of_mem_split hmem
  rw [htext, lineFeedsFrom_append, lineFeedsFrom_eq_nil _ hleft, List.append_nil]
  rcases List.eq_nil_or_concat before with rfl | ⟨first, p, rfl⟩
  · rfl
  · rw [List.concat_eq_append, length_ended_concat, ended_concat, lineFeedsFrom_append, lineFeedsFrom, if_pos rfl,
      lineFeedsFrom, startAfter, List.getLast?_concat, UInt32.zero_add, toUInt32_add]
    rfl

/-- The position of an offset is told by the pieces in front of it. -/
theorem position_eq_pieces (hfit : f.content.length < 2 ^ 32 - 1) {off : UInt32} (hoff : off.toNat ≤ f.content.length)
    {before : List Bytes} {left : Bytes} (hsplit : split 0x0a (f.content.take off.toNat) = before ++ [left]) :
    f.position off = ⟨(before.length + 1).toUInt32, (left.length + 1).toUInt32⟩ := by
  have hlines := length_split 0 (f.content.take off.toNat)
  have hjoin := join_split 0x0a (f.content.take off.toNat)
  rw [hsplit, List.length_append, List.length_singleton, Nat.add_right_cancel_iff] at hlines
  rw [hsplit, join_middle, List.flatMap_nil, List.append_nil] at hjoin
  have hsum : off = left.length.toUInt32 + (ended 0x0a before).length.toUInt32 := by
    have hlength := congrArg List.length hjoin
    rw [List.length_append, List.length_take, Nat.min_eq_left hoff, Nat.add_comm] at hlength
    rw [← toUInt32_add, hlength]
    exact UInt32.ofNat_toNat.symm
  have hcol : off - (ended 0x0a before).length.toUInt32 = left.length.toUInt32 := by
    rw [hsum, UInt32.add_sub_cancel]
  rw [f.position_eq (by omega) off hoff, feedsBefore, ← hlines, startAfter_eq hsplit, hcol, toUInt32_add, toUInt32_add]
  rfl

/-- What stands in front of an offset and behind it: whole lines, and a line in two parts. -/
theorem position_cut (hfit : f.content.length < 2 ^ 32 - 1) {off : UInt32} (hoff : off.toNat ≤ f.content.length) :
    ∃ before left right after, split 0x0a f.content = before ++ (left ++ right) :: after ∧
      f.content.take off.toNat = ended 0x0a before ++ left ∧
      f.position off = ⟨(before.length + 1).toUInt32, (left.length + 1).toUInt32⟩ := by
  obtain ⟨before, left, right, after, hfront, -, hall⟩ := split_cut 0x0a (f.content.take off.toNat) (f.content.drop off.toNat)
  rw [List.take_append_drop] at hall
  refine ⟨before, left, right, after, hall, ?_, position_eq_pieces hfit hoff hfront⟩
  rw [← join_split 0x0a (f.content.take off.toNat), hfront, join_middle, List.flatMap_nil, List.append_nil]

theorem position_of_line (hfit : f.content.length < 2 ^ 32 - 1) {before after : List Bytes} {piece : Bytes} {n : Nat}
    (hsplit : split 0x0a f.content = before ++ piece :: after) (hn : n ≤ piece.length) :
    f.lineStart (before.length + 1) + n ≤ f.content.length ∧
      f.position (f.lineStart (before.length + 1) + n).toUInt32 =
        ⟨(before.length + 1).toUInt32, (n + 1).toUInt32⟩ := by
  have hcontent := content_eq_pieces hsplit
  have hlength := congrArg List.length hcontent
  simp only [List.length_append] at hlength
  have hword : ((ended 0x0a before).length + n).toUInt32.toNat = (ended 0x0a before).length + n :=
    toNat_toUInt32 (by omega)
  have htake : f.content.take ((ended 0x0a before).length + n) =
      ended 0x0a before ++ piece.take n := by
    rw [hcontent, List.append_assoc, List.take_length_add_append, List.take_append_of_le_length hn]
  obtain ⟨hbefore, hpiece⟩ := lineFeed_notin hsplit
  have hpieces : split 0x0a (f.content.take ((ended 0x0a before).length + n).toUInt32.toNat) = before ++ [piece.take n] := by
    rw [hword, htake]
    exact split_middle hbefore fun h => hpiece (List.mem_of_mem_take h)
  rw [lineStart_eq hfit hsplit]
  refine ⟨by omega, ?_⟩
  rw [position_eq_pieces hfit (by omega) hpieces, List.length_take_of_le hn]

theorem position_before (hfit : f.content.length < 2 ^ 32 - 1) {off off' : UInt32} (hlt : off < off')
    (hoff : off'.toNat ≤ f.content.length) : (f.position off).Before (f.position off') := by
  rw [UInt32.lt_iff_toNat_lt] at hlt
  have htake : f.content.take off.toNat ++ (f.content.take off'.toNat).drop off.toNat = f.content.take off'.toNat := by
    rw [← List.take_append_drop off.toNat (f.content.take off'.toNat), List.take_take,
      Nat.min_eq_left (Nat.le_of_lt hlt), List.drop_left']
    rw [List.length_take]
    omega
  -- the text up to the second offset is cut at the first one
  obtain ⟨before, left, right, after, hfront, hbetween, hall⟩ :=
    split_cut 0x0a (f.content.take off.toNat) ((f.content.take off'.toNat).drop off.toNat)
  rw [htake] at hall
  have hlines := length_split_le 0x0a (f.content.take off'.toNat)
  have hbytes := congrArg List.length (join_split 0x0a (f.content.take off'.toNat))
  rw [hall, List.length_append, List.length_cons, List.length_take, Nat.min_eq_left hoff] at hlines
  rw [hall, join_middle, List.length_take, Nat.min_eq_left hoff, List.length_append, List.length_append] at hbytes
  rw [position_eq_pieces hfit (by omega) hfront]
  rcases List.eq_nil_or_concat after with rfl | ⟨init, last, rfl⟩
  · -- no line feed is between the offsets, so the second has the greater column
    have hright : 0 < right.length := by
      have hjoin := congrArg List.length (join_split 0x0a ((f.content.take off'.toNat).drop off.toNat))
      rw [hbetween, join_cons_eq, List.flatMap_nil, List.append_nil, List.length_drop, List.length_take] at hjoin
      omega
    rw [List.length_append] at hbytes
    rw [position_eq_pieces hfit hoff hall]
    refine .inr ⟨rfl, ?_⟩
    rw [UInt32.lt_iff_toNat_lt, toNat_toUInt32 (by omega), toNat_toUInt32 (by rw [List.length_append]; omega),
      List.length_append]
    omega
  · -- some line feed is between, so the second is in a later line
    have hall' : split 0x0a (f.content.take off'.toNat) = (before ++ (left ++ right) :: init) ++ [last] := by
      rw [hall, List.concat_eq_append, List.append_assoc, List.cons_append]
    rw [List.length_concat] at hlines
    rw [position_eq_pieces hfit hoff hall']
    left
    rw [UInt32.lt_iff_toNat_lt, List.length_append, List.length_cons, toNat_toUInt32 (by omega),
      toNat_toUInt32 (by omega)]
    omega

/-! ## There and back -/

/-- Offsets, positions and lines tell the same. A position has the number of a line and a column in it or just behind it,
and the start of that line is as far in front of the offset as the column says; the line is also found by halving. Every
column of every line is the position of its offset, and greater offsets have later positions. The lines with line feeds
between them are the text, and there are no lines besides them. -/
theorem positions_invert (f : SourceFile) (hfit : f.content.length < 2 ^ 32 - 1) :
    (∀ off : UInt32, off.toNat ≤ f.content.length →
      1 ≤ (f.position off).line.toNat ∧ (f.position off).line.toNat ≤ f.lineFeeds.length + 1 ∧
      1 ≤ (f.position off).col.toNat ∧
      f.lineStart (f.position off).line.toNat + ((f.position off).col.toNat - 1) = off.toNat ∧
      (f.position off).col.toNat - 1 ≤ (f.line (f.position off).line).length ∧
      f.searchPosition off = f.position off) ∧
    (∀ n k : UInt32, 1 ≤ n.toNat → n.toNat ≤ f.lineFeeds.length + 1 → 1 ≤ k.toNat → k.toNat - 1 ≤ (f.line n).length →
      f.lineStart n.toNat + (k.toNat - 1) ≤ f.content.length ∧
      f.position (f.lineStart n.toNat + (k.toNat - 1)).toUInt32 = ⟨n, k⟩) ∧
    (∀ off off' : UInt32, off < off' → off'.toNat ≤ f.content.length → (f.position off).Before (f.position off')) ∧
    Bytes.join [0x0a] f.lines = f.content ∧
    ∀ n : UInt32, n = 0 ∨ f.lineFeeds.length + 1 < n.toNat → f.line n = [] := by
  refine ⟨fun off hoff => ?_, fun n k hn hn' hk hk' => ?_, fun off off' => position_before hfit, ?_, fun n => f.line_eq_nil⟩
  · obtain ⟨before, left, right, after, hsplit, htake, hposition⟩ := position_cut hfit hoff
    have hlines := length_split 0 f.content
    have hbound := length_before_le hsplit
    have hbytes := congrArg List.length htake
    rw [hsplit, List.length_append, List.length_cons] at hlines
    rw [List.length_take, Nat.min_eq_left hoff, List.length_append] at hbytes
    have hline : (before.length + 1).toUInt32.toNat = before.length + 1 := toNat_toUInt32 (by omega)
    have hcol : (left.length + 1).toUInt32.toNat = left.length + 1 := toNat_toUInt32 (by omega)
    rw [f.searchPosition_eq (by omega) off hoff, hposition]
    dsimp only
    rw [hline, hcol, line_eq hsplit hfit, lineStart_eq hfit hsplit, List.length_append, lineFeeds]
    exact ⟨by omega, by omega, by omega, by omega, by omega, rfl⟩
  · obtain ⟨before, piece, after, hsplit, hlength⟩ := exists_pieces (f := f) (i := n.toNat - 1) (by omega)
    replace hlength : before.length + 1 = n.toNat := by omega
    have hnumber : (before.length + 1).toUInt32 = n := by
      rw [hlength]
      exact UInt32.ofNat_toNat
    have hcol : (k.toNat - 1 + 1).toUInt32 = k := by
      rw [Nat.sub_add_cancel hk]
      exact UInt32.ofNat_toNat
    rw [← hnumber, line_eq hsplit hfit] at hk'
    have hback := position_of_line hfit hsplit hk'
    rwa [hnumber, hcol, hlength] at hback
  · rw [lines_eq_split hfit, join_split]

/-- An empty line, and a line feed at the end. -/
def gappedLines : SourceFile := ⟨0, "gapped.uns", "ab\n\ncd\n", 0⟩

theorem gappedLines_invert :
    gappedLines.content.length < 2 ^ 32 - 1 ∧ gappedLines.position 2 = ⟨1, 3⟩ ∧ gappedLines.position 7 = ⟨4, 1⟩ ∧
      (gappedLines.position 2).Before (gappedLines.position 7) ∧ gappedLines.line 5 = [] ∧
      Bytes.join [0x0a] gappedLines.lines = gappedLines.content := by
  have hfit : gappedLines.content.length < 2 ^ 32 - 1 := by decide
  obtain ⟨-, -, hbefore, hjoin, hnone⟩ := positions_invert gappedLines hfit
  exact ⟨hfit, by decide, by decide, hbefore 2 7 (by decide) (by decide), hnone 5 (.inr (by decide)), hjoin⟩

end SourceFile

end Bracescript
