import Bracescript.Diagnostic.Bag
import Bracescript.Proofs.Sorting
import Mathlib.Data.Prod.Lex

/-!
# Bags over whole runs

Bags are made, filled, merged, sorted and thinned out in any order. A step changes one bag, in one of a few ways, and each
way keeps the bag within its limit and never lowers the limit. Merging takes as much of the other bag as the greatest limit
allows, and sorting keeps the order of findings that have the same rank.
-/

namespace Bracescript

/-! ## The rank of a finding -/

theorem Severity.rank_inj {a b : Severity} : a.rank = b.rank ↔ a = b := by
  cases a <;> cases b <;> decide

namespace Diagnostic

/-- What findings are ordered by: file, start and end, then the severity from the highest down, then the code. -/
def rank (d : Diagnostic) : Nat ×ₗ Nat ×ₗ Nat ×ₗ Natᵒᵈ ×ₗ Nat :=
  toLex (d.span.file.toNat, toLex (d.span.start.toNat, toLex (d.span.stop.toNat,
    toLex (OrderDual.toDual d.severity.rank, d.code.number.toNat))))

theorem le_iff_rank_le (a b : Diagnostic) : a.le b = true ↔ a.rank ≤ b.rank := by
  have hlast : (if a.severity ≠ b.severity then decide (b.severity.rank < a.severity.rank)
      else decide (a.code.number ≤ b.code.number)) = true ↔
      b.severity.rank < a.severity.rank ∨
        a.severity.rank = b.severity.rank ∧ a.code.number.toNat ≤ b.code.number.toNat := by
    by_cases hsame : a.severity = b.severity
    · simp [hsame, UInt16.le_iff_toNat_le]
    · simp [hsame, Severity.rank_inj]
  unfold le
  simp only [rank, Prod.Lex.toLex_le_toLex, OrderDual.toDual_lt_toDual, OrderDual.toDual_inj, ← hlast, ← Sorting.compare_words]

end Diagnostic

/-! ## What is done to a bag -/

namespace Bag

variable {b other b' : Bag}

/-- A bag holds no more than its limit, and the limit is one that there is. -/
structure InLimits (b : Bag) : Prop where
  pos : 1 ≤ b.limit
  limit_le : b.limit ≤ maxLimit
  size_le : b.size ≤ b.limit

/-- A bag after one step: as it was, or with more, or sorted, or without repeats. -/
inductive Next (b : Bag) : Bag → Prop
  | stay : Next b b
  | insert (d : Diagnostic) : Next b (b.insert d)
  | merge (other : Bag) : Next b (b.merge other)
  | sort : Next b b.sort
  | dedup : Next b b.dedup

theorem inLimits_new (limit : Int) : (new limit).InLimits := by
  unfold new
  split
  · rename_i h
    have hpos : 1 ≤ limit.toNat := by omega
    have hlimit : limit.toNat ≤ maxLimit := by omega
    exact ⟨hpos, hlimit, Nat.zero_le _⟩
  · exact ⟨by decide, Nat.le_refl _, Nat.zero_le _⟩

theorem size_eq_length (b : Bag) : b.size = b.toList.length := Array.length_toList.symm

theorem add_of_room (h : b.size < b.limit) (d : Diagnostic) : b.add d = (true, { b with items := b.items.push d }) := if_pos h

theorem add_of_full (h : ¬b.size < b.limit) (d : Diagnostic) : b.add d = (false, b) := if_neg h

theorem length_distinct_le (seen : Std.HashSet Bytes) (ds : List Diagnostic) : (distinct seen ds).length ≤ ds.length := by
  induction ds generalizing seen with
  | nil => exact Nat.le_refl _
  | cons d ds ih =>
    unfold distinct
    split
    · exact Nat.le_succ_of_le (ih seen)
    · exact Nat.succ_le_succ (ih _)

theorem size_dedup_le (b : Bag) : b.dedup.size ≤ b.size := by
  rw [size_eq_length b]
  exact length_distinct_le {} b.toList

theorem size_sort (b : Bag) : b.sort.size = b.size := by
  rw [size_eq_length b]
  exact List.length_mergeSort b.toList

/-- The other bag is taken over as far as the greatest limit allows. -/
theorem toList_merge (h : b.InLimits) (other : Bag) :
    (b.merge other).toList = b.toList ++ other.toList.take (maxLimit - b.size) := by
  obtain ⟨-, hlimit, hsize⟩ := h
  simp only [merge, toList, Array.toList_append, Array.toList_extract, List.extract_eq_drop_take', List.drop_zero]
  congr 1
  have hother : other.items.toList.length = other.size := Array.length_toList
  split
  · rw [List.take_eq_take_iff]
    omega
  · rw [List.take_of_length_le (by omega), List.take_of_length_le (by omega)]

theorem limit_le_merge (h : b.limit ≤ maxLimit) (other : Bag) :
    b.limit ≤ (b.merge other).limit ∧ (b.merge other).limit ≤ maxLimit := by
  simp only [merge]
  split <;> omega

theorem size_merge (b other : Bag) :
    (b.merge other).size = b.size + min ((b.merge other).limit - b.size) other.size := by
  simp [merge, size]

theorem Next.limit_le (h : Next b b') (hb : b.InLimits) : b.limit ≤ b'.limit := by
  cases h with
  | insert d =>
    unfold Bag.insert add
    split <;> exact Nat.le_refl _
  | merge other => exact (limit_le_merge hb.limit_le other).1
  | stay | sort | dedup => exact Nat.le_refl _

/-- No step takes a bag out of its limits. -/
theorem Next.inLimits (h : Next b b') (hb : b.InLimits) : b'.InLimits := by
  obtain ⟨hpos, hlimit, hsize⟩ := hb
  cases h with
  | stay => exact ⟨hpos, hlimit, hsize⟩
  | insert d =>
    by_cases hroom : b.size < b.limit
    · rw [Bag.insert, add_of_room hroom]
      exact ⟨hpos, hlimit, Nat.le_trans (Nat.le_of_eq (Array.size_push d)) hroom⟩
    · rw [Bag.insert, add_of_full hroom]
      exact ⟨hpos, hlimit, hsize⟩
  | merge other =>
    obtain ⟨hle, hmax⟩ := limit_le_merge hlimit other
    have hmerge := size_merge b other
    exact ⟨Nat.le_trans hpos hle, hmax, by omega⟩
  | sort => exact ⟨hpos, hlimit, (size_sort b).trans_le hsize⟩
  | dedup => exact ⟨hpos, hlimit, (size_dedup_le b).trans hsize⟩

/-- `b'` is `b` with the longest part of `other` from its front on that fits. -/
def MergedFrom (b other b' : Bag) : Prop :=
  ∃ front, front <+: other.toList ∧ b'.toList = b.toList ++ front ∧ b'.size ≤ maxLimit ∧
    ∀ longer, longer <+: other.toList → b.size + longer.length ≤ maxLimit → longer <+: front

/-- `b'` is `b` in the order of the ranks, and what has the same rank is in the order in which it was. -/
structure SortedFrom (b b' : Bag) : Prop where
  perm : b'.toList.Perm b.toList
  ordered : b'.toList.Pairwise fun d d' => d.rank ≤ d'.rank
  stable : ∀ r, (b'.toList.filter fun d => d.rank = r) = b.toList.filter fun d => d.rank = r

theorem mergedFrom_merge (h : b.InLimits) (other : Bag) : MergedFrom b other (b.merge other) := by
  have hnext : (b.merge other).InLimits := (Next.merge other).inLimits h
  refine ⟨_, List.take_prefix _ _, toList_merge h other, Nat.le_trans hnext.size_le hnext.limit_le, ?_⟩
  intro longer hlonger hfits
  rw [List.prefix_take_iff]
  exact ⟨hlonger, by omega⟩

theorem sortedFrom_sort (b : Bag) : SortedFrom b b.sort :=
  ⟨List.mergeSort_perm _ _, Sorting.pairwise_rank Diagnostic.le_iff_rank_le b.toList,
    Sorting.filter_rank Diagnostic.le_iff_rank_le b.toList⟩

theorem add_iff (b : Bag) (d : Diagnostic) : (b.add d).1 = true ↔ (b.add d).2.toList = b.toList ++ [d] := by
  by_cases hroom : b.size < b.limit
  · simp [add_of_room hroom, toList]
  · simp [add_of_full hroom]

theorem add_false_iff (b : Bag) (d : Diagnostic) : (b.add d).1 = false ↔ (b.add d).2 = b := by
  by_cases hroom : b.size < b.limit
  · have hlonger : { b with items := b.items.push d } ≠ b := by
      intro hsame
      have hlength := congrArg size hsame
      simp [size] at hlength
    simp [hlonger, add_of_room hroom]
  · simp [add_of_full hroom]

end Bag

/-! ## What is done to a shelf -/

namespace Shelf

/-- A step of a run over bags that are known by their numbers. -/
inductive Operation where
  | new (limit : Int)
  | add (i : Nat) (d : Diagnostic)
  | merge (i : Nat) (other : Option Nat)
  | sort (i : Nat)
  | dedup (i : Nat)

def apply (s : Shelf) : Operation → Shelf
  | .new limit => s.new limit
  | .add i d => s.set i ((s.get i).insert d)
  | .merge i other => s.merge i other
  | .sort i => s.set i (s.get i).sort
  | .dedup i => s.set i (s.get i).dedup

/-- The bags after a run that starts without any. -/
def run (ops : List Operation) : Shelf := ops.foldl apply {}

variable {s s' : Shelf} {i j : Nat} {b : Bag}

theorem run_concat (ops : List Operation) (op : Operation) : run (ops ++ [op]) = (run ops).apply op := by
  simp [run]

theorem get_set (s : Shelf) (i j : Nat) (b : Bag) :
    (s.set i b).get j = if i = j ∧ i < s.bags.size then b else s.get j := by
  simp only [get, set, Array.getD_eq_getD_getElem?, Array.getElem?_setIfInBounds]
  by_cases hij : i = j
  · subst hij
    by_cases hi : i < s.bags.size <;> simp [hi]
  · simp [hij]

theorem get_set_self (hi : i < s.bags.size) (b : Bag) : (s.set i b).get i = b := by
  rw [get_set, if_pos ⟨rfl, hi⟩]

theorem get_set_of_ne (hij : i ≠ j) (b : Bag) : (s.set i b).get j = s.get j := by
  rw [get_set, if_neg fun h => hij h.1]

theorem set_get (s : Shelf) (i : Nat) : s.set i (s.get i) = s := by
  obtain ⟨bags⟩ := s
  simp only [set, get, Shelf.mk.injEq]
  apply Array.ext_getElem?
  intro k
  rw [Array.getElem?_setIfInBounds]
  split
  · rename_i hik
    subst hik
    by_cases hi : i < bags.size <;> simp [hi]
  · rfl

theorem size_set (s : Shelf) (i : Nat) (b : Bag) : (s.set i b).bags.size = s.bags.size := by
  simp [set]

/-- A step that changes a bag leaves the others alone. -/
theorem next_set (h : Bag.Next (s.get i) b) (j : Nat) : Bag.Next (s.get j) ((s.set i b).get j) := by
  rw [get_set]
  split
  · rename_i hij
    rw [← hij.1]
    exact h
  · exact .stay

theorem get_new (s : Shelf) (limit : Int) (i : Nat) :
    (s.new limit).get i = if i = s.bags.size then .new limit else s.get i := by
  simp only [get, new, Array.getD_eq_getD_getElem?, Array.getElem?_push]
  split <;> rfl

/-- Of the bags that are there a step changes one at most, and that in one of the ways in which a bag can change. -/
theorem next_apply (op : Operation) (hi : i < s.bags.size) :
    Bag.Next (s.get i) ((s.apply op).get i) ∧ i < (s.apply op).bags.size := by
  cases op with
  | new limit =>
    rw [apply, get_new, if_neg (Nat.ne_of_lt hi)]
    exact ⟨.stay, by simpa [new] using Nat.lt_succ_of_lt hi⟩
  | add k d => exact ⟨next_set (.insert d) i, (size_set ..).symm ▸ hi⟩
  | merge k other =>
    cases other with
    | none => exact ⟨.stay, hi⟩
    | some j =>
      simp only [apply, merge]
      split
      · exact ⟨.stay, hi⟩
      · exact ⟨next_set (.merge _) i, (size_set ..).symm ▸ hi⟩
  | sort k => exact ⟨next_set .sort i, (size_set ..).symm ▸ hi⟩
  | dedup k => exact ⟨next_set .dedup i, (size_set ..).symm ▸ hi⟩

theorem size_apply (s : Shelf) (op : Operation) :
    (s.apply op).bags.size = s.bags.size ∨ ∃ limit, op = .new limit := by
  cases op with
  | new limit => exact .inr ⟨limit, rfl⟩
  | add | sort | dedup => exact .inl (size_set ..)
  | merge k other =>
    cases other with
    | none => exact .inl rfl
    | some j =>
      simp only [apply, merge]
      split
      · exact .inl rfl
      · exact .inl (size_set ..)

/-- Every bag is within its limits. -/
def InLimits (s : Shelf) : Prop := ∀ i < s.bags.size, (s.get i).InLimits

theorem InLimits.apply (h : s.InLimits) (op : Operation) : (s.apply op).InLimits := by
  intro i hi
  by_cases hold : i < s.bags.size
  · exact (next_apply op hold).1.inLimits (h i hold)
  · -- only a new bag can be behind those that were there
    rcases size_apply s op with hsize | ⟨limit, rfl⟩
    · omega
    · have hlast : i = s.bags.size := by
        simp only [Shelf.apply, new, Array.size_push] at hi
        omega
      rw [Shelf.apply, get_new, if_pos hlast]
      exact Bag.inLimits_new limit

theorem inLimits_run (ops : List Operation) : (run ops).InLimits := by
  have hrun : ∀ s : Shelf, s.InLimits → (ops.foldl Shelf.apply s).InLimits := by
    induction ops with
    | nil => exact fun s h => h
    | cons op ops ih => exact fun s h => ih _ (h.apply op)
  exact hrun {} fun i hi => absurd hi (Nat.not_lt_zero i)

theorem limit_le_foldl (h : s.InLimits) (ops : List Operation) (hi : i < s.bags.size) :
    (s.get i).limit ≤ ((ops.foldl Shelf.apply s).get i).limit := by
  induction ops generalizing s with
  | nil => exact Nat.le_refl _
  | cons op ops ih =>
    obtain ⟨hnext, hstill⟩ := next_apply op hi
    exact Nat.le_trans (hnext.limit_le (h i hi)) (ih (h.apply op) hstill)

/-- What holds of every bag at every point of every run: it is within its limits, and whatever follows, its limit does not
fall. Adding tells whether the finding is now at the end, and changes nothing otherwise. Merging with no bag or with itself
changes nothing, and merging with another one changes only the bag itself, which takes over the longest front part that
fits. Sorting orders it by rank and keeps the order of what has the same rank. -/
theorem bags_kept (ops more : List Operation) {i : Nat} (hi : i < (run ops).bags.size) :
    ((run ops).get i).InLimits ∧
    ((run ops).get i).limit ≤ ((run (ops ++ more)).get i).limit ∧
    (∀ d, (((run ops).get i).add d).1 = true ↔
      ((run (ops ++ [Operation.add i d])).get i).toList = ((run ops).get i).toList ++ [d]) ∧
    (∀ d, (((run ops).get i).add d).1 = false ↔ run (ops ++ [Operation.add i d]) = run ops) ∧
    run (ops ++ [Operation.merge i none]) = run ops ∧
    run (ops ++ [Operation.merge i (some i)]) = run ops ∧
    (∀ j < (run ops).bags.size, j ≠ i →
      Bag.MergedFrom ((run ops).get i) ((run ops).get j) ((run (ops ++ [Operation.merge i (some j)])).get i) ∧
      ∀ k ≠ i, (run (ops ++ [Operation.merge i (some j)])).get k = (run ops).get k) ∧
    Bag.SortedFrom ((run ops).get i) ((run (ops ++ [Operation.sort i])).get i) := by
  have hlimits := inLimits_run ops i hi
  refine ⟨hlimits, ?_, fun d => ?_, fun d => ?_, ?_, ?_, fun j _ hne => ?_, ?_⟩
  · rw [run, run, List.foldl_append]
    exact limit_le_foldl (inLimits_run ops) more hi
  · rw [run_concat, apply, get_set_self hi]
    exact Bag.add_iff _ d
  · rw [run_concat, apply]
    rw [Bag.add_false_iff, Bag.insert]
    refine ⟨fun hfull => hfull.symm ▸ set_get _ i, fun hsame => ?_⟩
    have hbag := get_set_self hi (((run ops).get i).add d).2
    rw [hsame] at hbag
    exact hbag.symm
  · exact run_concat ..
  · rw [run_concat, apply, merge, if_pos rfl]
  · have hmerge : run (ops ++ [Operation.merge i (some j)]) = (run ops).set i (((run ops).get i).merge ((run ops).get j)) := by
      rw [run_concat, apply, merge, if_neg (Ne.symm hne)]
    rw [hmerge]
    exact ⟨(get_set_self hi _).symm ▸ Bag.mergedFrom_merge hlimits _, fun k hk => get_set_of_ne (Ne.symm hk) _⟩
  · rw [run_concat, apply, get_set_self hi]
    exact Bag.sortedFrom_sort _

def anyFinding : Diagnostic := { severity := .error, code := .badNumber, message := "m", span := .none }

/-- Two bags with one finding each; the first is full. -/
def twoBags : List Operation := [.new 1, .new (-3), .add 0 anyFinding, .add 1 anyFinding]

theorem twoBags_kept :
    0 < (run twoBags).bags.size ∧ ((run twoBags).get 0).limit = 1 ∧
      ((run twoBags).get 0).InLimits ∧ run (twoBags ++ [Operation.add 0 anyFinding]) = run twoBags ∧
      Bag.MergedFrom ((run twoBags).get 0) ((run twoBags).get 1) ((run (twoBags ++ [Operation.merge 0 (some 1)])).get 0) := by
  have hfirst : 0 < (run twoBags).bags.size := by decide
  obtain ⟨hlimits, -, -, hfull, -, -, hmerge, -⟩ := bags_kept twoBags [] hfirst
  exact ⟨hfirst, rfl, hlimits, (hfull anyFinding).mp rfl, (hmerge 1 (by decide) (by decide)).1⟩

end Shelf

end Bracescript
