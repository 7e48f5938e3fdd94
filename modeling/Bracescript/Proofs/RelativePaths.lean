import Bracescript.Proofs.BuildNames

/-!
# Paths below a directory

A path that is a directory's with names put behind it can be seen from the directory, wherever the directory itself is seen
from: what leads there is the names.
-/

namespace Bracescript.Path

variable {rooted : Bool} {es done xs names : List Bytes} {e x : Bytes}

/-! ## Settling step by step -/

theorem dotDot_isUp : dotDot ≠ [] ∧ dotDot ≠ dot := by decide

/-- What one more element makes of those that are kept so far. -/
def keep (rooted : Bool) (done : List Bytes) (element : Bytes) : List Bytes :=
  if element = [] ∨ element = dot then done
  else if element = dotDot then
    match done with
    | [] => if rooted then [] else [dotDot]
    | last :: older => if last = dotDot then dotDot :: done else older
  else element :: done

theorem settle_eq_foldl (rooted : Bool) (done xs : List Bytes) :
    settle rooted done xs = (xs.foldl (keep rooted) done).reverse := by
  induction xs generalizing done with
  | nil => rfl
  | cons x xs ih =>
    have hcons : settle rooted done (x :: xs) = settle rooted (keep rooted done x) xs := by
      rw [settle.eq_def]
      unfold keep
      by_cases hskip : x = [] ∨ x = dot
      · simp [hskip]
      · obtain ⟨hnil, hdot⟩ := not_or.mp hskip
        by_cases hup : x = dotDot
        · cases done <;> simp [hup, apply_ite (settle rooted · xs)]
        · simp [hnil, hdot, hup]
    rw [hcons, ih, List.foldl_cons]

theorem settle_append (rooted : Bool) (done xs ys : List Bytes) :
    settle rooted done (xs ++ ys) = settle rooted (settle rooted done xs).reverse ys := by
  simp only [settle_eq_foldl, List.foldl_append, List.reverse_reverse]

theorem keep_name (hnil : x ≠ []) (hdot : x ≠ dot) (hup : x ≠ dotDot) : keep rooted done x = x :: done := by
  simp [keep, hnil, hdot, hup]

/-- An element can be taken into account before what is in front is known. -/
theorem foldl_keep_reverse {acc : List Bytes} (hacc : ∀ x ∈ acc, x ≠ [] ∧ x ≠ dot) (done : List Bytes) (x : Bytes) :
    (keep false acc x).reverse.foldl (keep rooted) done = keep rooted (acc.reverse.foldl (keep rooted) done) x := by
  by_cases hskip : x = [] ∨ x = dot
  · simp [keep, hskip]
  · obtain ⟨hnil, hdot⟩ := not_or.mp hskip
    by_cases hup : x = dotDot
    · subst hup
      cases acc with
      | nil => simp [keep, dotDot_isUp]
      | cons last older =>
        obtain ⟨hlastNil, hlastDot⟩ := hacc last List.mem_cons_self
        by_cases hlast : last = dotDot
        · simp [keep, hlast, dotDot_isUp]
        · -- the name that the step upward takes away was put there just before
          have hkeep : keep false (last :: older) dotDot = older := by
            simp [keep, hlast, dotDot_isUp]
          rw [hkeep, List.reverse_cons, List.foldl_append, List.foldl_cons, List.foldl_nil,
            keep_name hlastNil hlastDot hlast]
          simp [keep, hlast, dotDot_isUp]
    · rw [keep_name hnil hdot hup, List.reverse_cons, List.foldl_append]
      rfl

theorem mem_keep {acc : List Bytes} (hacc : ∀ y ∈ acc, y ≠ [] ∧ y ≠ dot) : ∀ y ∈ keep rooted acc x, y ≠ [] ∧ y ≠ dot := by
  intro y hy
  unfold keep at hy
  split at hy
  · exact hacc y hy
  · rename_i hskip
    split at hy
    · split at hy
      · split at hy
        · cases hy
        · rw [List.mem_singleton.mp hy]
          decide
      · split at hy
        · rcases List.mem_cons.mp hy with rfl | hy
          · decide
          · exact hacc y hy
        · exact hacc y (List.mem_cons_of_mem _ hy)
    · rcases List.mem_cons.mp hy with rfl | hy
      · exact not_or.mp hskip
      · exact hacc y hy

/-- It makes no difference whether a path is settled before it is put behind another. -/
theorem settle_settle (rooted : Bool) (done xs : List Bytes) :
    settle rooted done (settle false [] xs) = settle rooted done xs := by
  have hall : ∀ acc : List Bytes, (∀ y ∈ acc, y ≠ [] ∧ y ≠ dot) →
      (xs.foldl (keep false) acc).reverse.foldl (keep rooted) done =
        xs.foldl (keep rooted) (acc.reverse.foldl (keep rooted) done) := by
    induction xs with
    | nil => exact fun acc _ => rfl
    | cons x xs ih =>
      intro acc hacc
      rw [List.foldl_cons, List.foldl_cons, ih _ (mem_keep hacc), foldl_keep_reverse hacc]
  simp only [settle_eq_foldl]
  rw [hall [] (List.forall_mem_nil _)]
  rfl

/-! ## Cleaned and absolute paths -/

theorem isAbsolute_clean (path : Bytes) : isAbsolute (clean path) = isAbsolute path := by
  by_cases hne : elements path = []
  · unfold clean
    cases hrooted : isAbsolute path <;> simp [hne, Bytes.join, isAbsolute, dot] <;> decide
  · rw [clean_eq_render hne, isAbsolute_render (settled_elements path)]

theorem elements_clean (path : Bytes) : elements (clean path) = elements path := by
  by_cases hne : elements path = []
  · unfold clean
    cases isAbsolute path <;> simp only [hne] <;> decide
  · rw [clean_eq_render hne, elements_render (settled_elements path) hne]

theorem clean_render (h : Settled rooted es) (hne : es ≠ []) : clean (render rooted es) = render rooted es := by
  rw [clean_eq_render (by rwa [elements_render h hne]), elements_render h hne, isAbsolute_render h]

theorem join_pair {path : Bytes} (hpath : path ≠ []) (front : Bytes) :
    join [front, path] = clean (if front = [] then path else front ++ slash :: path) := by
  have hempty : List.isEmpty path = false := by simpa using hpath
  by_cases hfront : front = []
  · subst hfront
    rw [join, List.dropWhile_cons_of_pos rfl, List.dropWhile_cons_of_neg (by simp [hempty])]
    simp [Bytes.join, List.intercalate]
  · simp [join, hfront, Bytes.join, List.intercalate]

/-- Putting a path behind another settles its elements behind those in front. -/
theorem elements_join (front : Bytes) {path : Bytes} (hpath : path ≠ []) (h : front ≠ [] ∨ isAbsolute path = false) :
    isAbsolute (join [front, path]) = isAbsolute front ∧
      elements (join [front, path]) = settle (isAbsolute front) (elements front).reverse (path.split slash) := by
  rw [join_pair hpath, isAbsolute_clean, elements_clean]
  by_cases hfront : front = []
  · have hrelative := h.resolve_left fun hne => hne hfront
    subst hfront
    rw [if_pos rfl, elements, hrelative]
    exact ⟨rfl, rfl⟩
  · rw [if_neg hfront, elements, isAbsolute_append hfront, Bytes.split_append, settle_append]
    exact ⟨rfl, rfl⟩

/-! ## Paths below a directory -/

theorem settle_skip (h : x = [] ∨ x = dot) : settle rooted done (x :: xs) = settle rooted done xs := by
  rw [settle_eq_foldl, List.foldl_cons, show keep rooted done x = done from if_pos h, ← settle_eq_foldl]

/-- Names that are put behind a directory are behind it from wherever it is seen. -/
theorem elements_absolute_below (cwd : Bytes) {dir : Bytes} (hdir : dir ≠ []) (hne : names ≠ [])
    (hnames : ∀ n ∈ names, IsChild n) :
    isAbsolute (absolute cwd (render (isAbsolute dir) (elements dir ++ names))) = isAbsolute (absolute cwd dir) ∧
      elements (absolute cwd (render (isAbsolute dir) (elements dir ++ names))) = elements (absolute cwd dir) ++ names := by
  have hsettled := (settled_elements dir).append_names hnames
  have hall : elements dir ++ names ≠ [] := by simp [hne]
  unfold absolute
  rw [isAbsolute_render hsettled]
  cases hrooted : isAbsolute dir with
  | true =>
    rw [hrooted] at hsettled
    simp only [if_true]
    rw [clean_render hsettled hall, isAbsolute_render hsettled, elements_render hsettled hall, isAbsolute_clean, hrooted,
      elements_clean]
    exact ⟨rfl, rfl⟩
  | false =>
    rw [hrooted] at hsettled
    simp only [Bool.false_eq_true, if_false]
    obtain ⟨hfile, hfileElements⟩ := elements_join cwd (render_ne_nil hsettled hall) (.inr (isAbsolute_render hsettled))
    obtain ⟨hbase, hbaseElements⟩ := elements_join cwd hdir (.inr hrooted)
    refine ⟨hfile.trans hbase.symm, ?_⟩
    rw [hfileElements, hbaseElements, split_render hsettled hall, if_neg Bool.false_ne_true, List.nil_append,
      settle_append_names _ hnames, elements.eq_def dir, hrooted, settle_settle]

/-- Two cleaned paths are the same if they start at the same place and have the same elements. -/
theorem eq_iff_of_clean {path path' : Bytes} (h : clean path = path) (h' : clean path' = path') :
    path = path' ↔ isAbsolute path = isAbsolute path' ∧ elements path = elements path' := by
  refine ⟨fun heq => heq ▸ ⟨rfl, rfl⟩, fun heq => ?_⟩
  rw [← h, ← h']
  exact clean_congr heq.1 heq.2

theorem clean_join {path : Bytes} (hpath : path ≠ []) (front : Bytes) : clean (join [front, path]) = join [front, path] := by
  rw [join_pair hpath, clean_clean]

theorem settle_split_render (h : Settled rooted es) (hne : es ≠ []) (top : Bool) (done : List Bytes) :
    settle top done ((render rooted es).split slash) = settle top done es := by
  rw [split_render h hne]
  cases rooted with
  | true => exact settle_skip (.inl rfl)
  | false => rfl

theorem settle_split_clean (top : Bool) (done : List Bytes) (path : Bytes) :
    settle top done ((clean path).split slash) = settle top done (elements path) := by
  by_cases hne : elements path = []
  · have hbare : clean path = [slash] ∨ clean path = dot := by
      unfold clean
      cases isAbsolute path <;> simp [hne, Bytes.join]
    rw [hne]
    rcases hbare with h | h <;> rw [h]
    · exact (settle_skip (.inl rfl)).trans (settle_skip (.inl rfl))
    · exact settle_skip (.inr rfl)
  · rw [clean_eq_render hne, settle_split_render (settled_elements path) hne]

theorem dropCommon_append (as bs : List Bytes) : dropCommon as (as ++ bs) = ([], bs) := by
  induction as with
  | nil => cases bs <;> rfl
  | cons a as ih => rw [List.cons_append, dropCommon, if_pos rfl, ih]

/-- From a directory the names lead to what is below it. -/
theorem relative?_below {start target : Bytes} (hrooted : isAbsolute target = isAbsolute start)
    (helements : elements target = elements start ++ names) (hne : names ≠ []) :
    relative? start target = some (Bytes.join [slash] names) := by
  have hdiffer : elements (clean start) ≠ elements (clean target) := by
    rw [elements_clean, elements_clean, helements]
    simpa using hne
  have hdot : clean target ≠ dot := by
    intro hdot
    have hnone : elements (clean target) = [] := hdot ▸ rfl
    rw [elements_clean, helements] at hnone
    exact hne (List.append_eq_nil_iff.mp hnone).2
  unfold relative?
  dsimp only
  rw [if_neg fun hsame => hdiffer (congrArg elements hsame), if_neg (by simp [isAbsolute_clean, hrooted]), if_neg hdot,
    elements_clean, elements_clean, helements, dropCommon_append]
  simp

/-! ## The last name -/

/-- What is in front of the last element ends in a slash, if there is anything. -/
theorem render_concat_eq (rooted : Bool) (es : List Bytes) (e : Bytes) :
    ∃ front, render rooted (es ++ [e]) = front ++ e ∧ (front = [] ∨ ∃ more, front = more ++ [slash]) := by
  by_cases hes : es = []
  · subst hes
    cases rooted with
    | true => exact ⟨[slash], by simp [render, Bytes.join, List.intercalate], .inr ⟨[], rfl⟩⟩
    | false => exact ⟨[], by simp [render, Bytes.join, List.intercalate], .inl rfl⟩
  · exact ⟨render rooted es ++ [slash], by simp [render_concat hes], .inr ⟨_, rfl⟩⟩

theorem takeWhile_of_notin {front : Bytes} (hfront : slash ∉ front) (more : Bytes) :
    (front ++ more).takeWhile (· ≠ slash) = front ++ more.takeWhile (· ≠ slash) := by
  refine List.takeWhile_append_of_pos fun b hb => ?_
  have hne : b ≠ slash := fun h => hfront (h ▸ hb)
  simpa using hne

theorem base_render (hne : e ≠ []) (hslash : slash ∉ e) : base (render rooted (es ++ [e])) = e := by
  obtain ⟨front, hrender, hfront⟩ := render_concat_eq rooted es e
  have hpath : render rooted (es ++ [e]) ≠ [] := by simp [hrender, hne]
  have hstop : front.reverse.takeWhile (· ≠ slash) = [] := by
    rcases hfront with rfl | ⟨more, rfl⟩ <;> simp
  rw [base, if_neg hpath, Disk.dropSlashes_render hne hslash]
  split
  · contradiction
  · rw [hrender, List.reverse_append, takeWhile_of_notin (by simpa using hslash), hstop]
    simp

/-- An ending without a slash is the ending of the last name. -/
theorem endsWith_render {tail : Bytes} (htail : slash ∉ tail) (h : (render rooted (es ++ [e])).endsWith tail = true) :
    ∃ stem, e = stem ++ tail := by
  obtain ⟨front, hrender, hfront⟩ := render_concat_eq rooted es e
  have hsuffix : tail <:+ front ++ e := by
    rw [← hrender]
    exact List.isSuffixOf_iff_suffix.mp h
  rcases List.suffix_or_suffix_of_suffix hsuffix (List.suffix_append front e) with hshort | hlong
  · obtain ⟨stem, hstem⟩ := hshort
    exact ⟨stem, hstem.symm⟩
  · -- otherwise the slash before the last name would be in the ending
    obtain ⟨more, hmore⟩ := hlong
    rcases List.eq_nil_or_concat more with rfl | ⟨more, b, rfl⟩
    · exact ⟨[], by simpa using hmore⟩
    · obtain ⟨rest, hrest⟩ := hsuffix
      rw [← hmore, List.concat_eq_append, ← List.append_assoc] at hrest
      have hends := List.append_cancel_right hrest
      rcases hfront with rfl | ⟨before, rfl⟩
      · simp at hends
      · rw [← List.append_assoc] at hends
        have hslash : b = slash := by simpa using (List.append_inj' hends rfl).2
        exact absurd (by rw [← hmore, hslash]; simp) htail

end Bracescript.Path
