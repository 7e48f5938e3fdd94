import Bracescript.Path
import Bracescript.Disk

/-!
# Settled paths

A cleaned path is made of settled elements: some `..` in front unless it starts at the root, and names behind them. It
can be taken apart again, and names can be put behind it without looking at what is in front.
-/

namespace Bracescript

/-! ## Splitting and joining -/

namespace Bytes

variable {sep : UInt8} {bs : Bytes}

theorem split_ne_nil (sep : UInt8) (bs : Bytes) : split sep bs ≠ [] := by
  induction bs with
  | nil => simp [split]
  | cons b bs ih =>
    unfold split
    split
    · simp
    · split <;> simp

theorem split_of_not_mem (h : sep ∉ bs) : split sep bs = [bs] := by
  induction bs with
  | nil => rfl
  | cons b bs ih =>
    rw [List.mem_cons, not_or] at h
    rw [split, if_neg (Ne.symm h.1), ih h.2]

theorem split_append (sep : UInt8) (bs more : Bytes) : split sep (bs ++ sep :: more) = split sep bs ++ split sep more := by
  induction bs with
  | nil => simp [split]
  | cons b bs ih =>
    by_cases hb : b = sep
    · simp [split, hb, ih]
    · rw [List.cons_append, split, if_neg hb, ih, split, if_neg hb]
      obtain ⟨piece, pieces, hsplit⟩ := List.exists_cons_of_ne_nil (split_ne_nil sep bs)
      simp [hsplit]

theorem not_mem_of_mem_split {piece : Bytes} (h : piece ∈ split sep bs) : sep ∉ piece := by
  induction bs generalizing piece with
  | nil => simp_all [split]
  | cons b bs ih =>
    obtain ⟨first, pieces, hsplit⟩ := List.exists_cons_of_ne_nil (split_ne_nil sep bs)
    by_cases hb : b = sep
    · rw [split, if_pos hb, List.mem_cons] at h
      rcases h with rfl | h
      · simp
      · exact ih h
    · rw [split, if_neg hb, hsplit, List.mem_cons] at h
      rw [hsplit] at ih
      rcases h with rfl | h
      · simp [Ne.symm hb, ih List.mem_cons_self]
      · exact ih (List.mem_cons_of_mem _ h)

theorem join_cons (sep first : Bytes) {pieces : List Bytes} (h : pieces ≠ []) :
    join sep (first :: pieces) = first ++ sep ++ join sep pieces := by
  obtain ⟨second, pieces, rfl⟩ := List.exists_cons_of_ne_nil h
  simp [join, List.intercalate]

theorem join_concat (sep last : Bytes) {pieces : List Bytes} (h : pieces ≠ []) :
    join sep (pieces ++ [last]) = join sep pieces ++ sep ++ last := by
  induction pieces with
  | nil => exact absurd rfl h
  | cons first pieces ih =>
    by_cases hp : pieces = []
    · simp [hp, join, List.intercalate]
    · rw [List.cons_append, join_cons sep first (by simp), join_cons sep first hp, ih hp]
      simp

theorem split_join {pieces : List Bytes} (hne : pieces ≠ []) (h : ∀ piece ∈ pieces, sep ∉ piece) :
    split sep (join [sep] pieces) = pieces := by
  induction pieces with
  | nil => exact absurd rfl hne
  | cons first pieces ih =>
    by_cases hp : pieces = []
    · subst hp
      simpa [join, List.intercalate] using split_of_not_mem (h first List.mem_cons_self)
    · rw [join_cons [sep] first hp, List.append_assoc, List.singleton_append, split_append,
        split_of_not_mem (h first List.mem_cons_self), ih hp fun piece hpiece => h piece (List.mem_cons_of_mem _ hpiece)]
      rfl

end Bytes

namespace Path

/-! ## Settled elements -/

/-- An element that names something in a folder. -/
structure IsChild (e : Bytes) : Prop where
  ne_nil : e ≠ []
  ne_dot : e ≠ dot
  ne_dotDot : e ≠ dotDot
  slash_notin : slash ∉ e

/-- Elements that say nothing twice. -/
inductive Settled (rooted : Bool) : List Bytes → Prop
  | nil : Settled rooted []
  | ups (hrooted : rooted = false) (n : Nat) : Settled rooted (List.replicate (n + 1) dotDot)
  | name {es : List Bytes} {e : Bytes} (settled : Settled rooted es) (he : IsChild e) : Settled rooted (es ++ [e])

variable {rooted : Bool} {es xs names : List Bytes} {e : Bytes}

theorem Settled.of_mem (h : Settled rooted es) (he : e ∈ es) : e ≠ [] ∧ slash ∉ e := by
  induction h with
  | nil => cases he
  | ups _ n =>
    rw [List.eq_of_mem_replicate he]
    decide
  | name _ hname ih =>
    rw [List.mem_append, List.mem_singleton] at he
    rcases he with he | rfl
    · exact ih he
    · exact ⟨hname.ne_nil, hname.slash_notin⟩

/-- What stands before the last element is settled, and only an upward step may follow upward steps alone. -/
theorem Settled.of_concat (h : Settled rooted (es ++ [e])) :
    Settled rooted es ∧ (IsChild e ∨ e = dotDot ∧ rooted = false ∧ ∃ n, es = List.replicate n dotDot) := by
  generalize hall : es ++ [e] = all at h
  cases h with
  | nil => simp at hall
  | ups hrooted n =>
    rw [List.replicate_succ'] at hall
    obtain ⟨rfl, he⟩ := List.append_inj' hall rfl
    cases he
    refine ⟨?_, .inr ⟨rfl, hrooted, n, rfl⟩⟩
    cases n with
    | zero => exact .nil
    | succ n => exact .ups hrooted n
  | name settled he =>
    obtain ⟨rfl, heq⟩ := List.append_inj' hall rfl
    cases heq
    exact ⟨settled, .inl he⟩

theorem Settled.append_names (h : Settled rooted es) (hnames : ∀ n ∈ names, IsChild n) : Settled rooted (es ++ names) := by
  induction names generalizing es with
  | nil => simpa using h
  | cons n names ih =>
    rw [List.append_cons]
    exact ih (.name h (hnames n List.mem_cons_self)) fun m hm => hnames m (List.mem_cons_of_mem _ hm)

theorem settled_settle {done : List Bytes} (hdone : Settled rooted done.reverse) (hxs : ∀ x ∈ xs, slash ∉ x) :
    Settled rooted (settle rooted done xs) := by
  induction xs generalizing done with
  | nil => simpa [settle] using hdone
  | cons x xs ih =>
    have hmore : ∀ y ∈ xs, slash ∉ y := fun y hy => hxs y (List.mem_cons_of_mem _ hy)
    unfold settle
    by_cases hx : x = [] ∨ x = dot
    · simpa [hx] using ih hdone hmore
    · obtain ⟨hnil, hdot⟩ := not_or.mp hx
      simp only [hnil, hdot, decide_false, Bool.or_self, Bool.false_eq_true, if_false]
      by_cases hup : x = dotDot
      · simp only [hup, if_true]
        cases done with
        | nil =>
          refine ih ?_ hmore
          cases rooted
          · exact .ups rfl 0
          · exact .nil
        | cons last older =>
          dsimp only
          rw [List.reverse_cons] at hdone
          obtain ⟨hbefore, hlast⟩ := hdone.of_concat
          split
          · rename_i hlastUp
            rcases hlast with hname | ⟨-, hrooted, n, hups⟩
            · exact absurd hlastUp hname.ne_dotDot
            · refine ih ?_ hmore
              rw [List.reverse_cons, List.reverse_cons, hups, hlastUp, ← List.replicate_succ', ← List.replicate_succ']
              exact .ups hrooted (n + 1)
          · exact ih hbefore hmore
      · simp only [hup, if_false]
        refine ih ?_ hmore
        rw [List.reverse_cons]
        exact .name hdone ⟨hnil, hdot, hup, hxs x List.mem_cons_self⟩

theorem settled_elements (path : Bytes) : Settled (isAbsolute path) (elements path) :=
  settled_settle .nil fun _ => Bytes.not_mem_of_mem_split

theorem settle_names (done : List Bytes) (hnames : ∀ n ∈ names, IsChild n) :
    settle rooted done names = done.reverse ++ names := by
  induction names generalizing done with
  | nil => simp [settle]
  | cons n names ih =>
    have hn := hnames n List.mem_cons_self
    unfold settle
    simp only [hn.ne_nil, hn.ne_dot, hn.ne_dotDot, decide_false, Bool.or_self, Bool.false_eq_true, if_false]
    rw [ih _ fun m hm => hnames m (List.mem_cons_of_mem _ hm)]
    simp

theorem settle_append_names (done : List Bytes) (hnames : ∀ n ∈ names, IsChild n) :
    settle rooted done (xs ++ names) = settle rooted done xs ++ names := by
  induction xs generalizing done with
  | nil => rw [List.nil_append, settle_names done hnames, settle]
  | cons x xs ih =>
    rw [List.cons_append]
    unfold settle
    split
    · exact ih done
    · split
      · split
        · exact ih _
        · split <;> exact ih _
      · exact ih _

theorem settle_ups (k n : Nat) :
    settle false (List.replicate k dotDot) (List.replicate n dotDot) = List.replicate (k + n) dotDot := by
  have hdotDot : dotDot ≠ [] ∧ dotDot ≠ dot := by decide
  induction n generalizing k with
  | zero => simp [settle]
  | succ n ih =>
    rw [List.replicate_succ]
    unfold settle
    simp only [hdotDot, decide_false, Bool.or_self, Bool.false_eq_true, if_false, if_true]
    rw [← Nat.succ_add_eq_add_succ, ← ih (k + 1)]
    cases k with
    | zero => rfl
    | succ k => simp [List.replicate_succ]

theorem Settled.settle_eq (h : Settled rooted es) : settle rooted [] es = es := by
  induction h with
  | nil => rfl
  | ups hrooted n =>
    subst hrooted
    simpa using settle_ups 0 (n + 1)
  | name _ he ih => rw [settle_append_names [] (by simpa using he), ih]

/-! ## Paths of settled elements -/

/-- The path of some elements, from the root on or not. -/
def render (rooted : Bool) (es : List Bytes) : Bytes := (if rooted then [slash] else []) ++ Bytes.join [slash] es

theorem isAbsolute_append {path : Bytes} (h : path ≠ []) (more : Bytes) : isAbsolute (path ++ more) = isAbsolute path := by
  obtain ⟨b, path, rfl⟩ := List.exists_cons_of_ne_nil h
  simp [isAbsolute]

theorem isAbsolute_of_notin {path : Bytes} (h : slash ∉ path) : isAbsolute path = false := by
  cases path with
  | nil => rfl
  | cons b path =>
    have hb : b ≠ slash := fun hb => h (hb ▸ List.mem_cons_self)
    simp [isAbsolute, hb]

theorem isAbsolute_join (hes : ∀ x ∈ es, x ≠ [] ∧ slash ∉ x) : isAbsolute (Bytes.join [slash] es) = false := by
  cases es with
  | nil => rfl
  | cons e es =>
    obtain ⟨hne, hslash⟩ := hes e List.mem_cons_self
    by_cases hempty : es = []
    · subst hempty
      simpa [Bytes.join, List.intercalate] using isAbsolute_of_notin hslash
    · rw [Bytes.join_cons _ _ hempty, List.append_assoc, isAbsolute_append hne, isAbsolute_of_notin hslash]

theorem join_ne_nil (hne : es ≠ []) (hes : ∀ x ∈ es, x ≠ [] ∧ slash ∉ x) : Bytes.join [slash] es ≠ [] := by
  obtain ⟨e, es, rfl⟩ := List.exists_cons_of_ne_nil hne
  have he := (hes e List.mem_cons_self).1
  by_cases hempty : es = []
  · subst hempty
    simpa [Bytes.join, List.intercalate] using he
  · simp [Bytes.join_cons _ _ hempty]

theorem render_ne_nil (h : Settled rooted es) (hne : es ≠ []) : render rooted es ≠ [] := by
  simp [render, join_ne_nil hne fun _ => h.of_mem]

theorem isAbsolute_render (h : Settled rooted es) : isAbsolute (render rooted es) = rooted := by
  cases rooted with
  | false => simpa [render] using isAbsolute_join fun _ => h.of_mem
  | true => simp [render, isAbsolute]

theorem split_render (h : Settled rooted es) (hne : es ≠ []) :
    (render rooted es).split slash = (if rooted then [[]] else []) ++ es := by
  have hjoin := Bytes.split_join hne fun x hx => (h.of_mem hx).2
  cases rooted with
  | false => simpa [render] using hjoin
  | true => simp [render, Bytes.split, hjoin]

theorem elements_render (h : Settled rooted es) (hne : es ≠ []) : elements (render rooted es) = es := by
  rw [elements, isAbsolute_render h, split_render h hne]
  cases rooted with
  | false => exact h.settle_eq
  | true => simpa [settle] using h.settle_eq

theorem clean_eq_render {path : Bytes} (hne : elements path ≠ []) :
    clean path = render (isAbsolute path) (elements path) := by
  have hjoin := join_ne_nil hne fun _ => (settled_elements path).of_mem
  unfold clean render
  cases isAbsolute path <;> simp [hjoin]

theorem render_concat (hne : es ≠ []) : render rooted (es ++ [e]) = render rooted es ++ slash :: e := by
  simp [render, Bytes.join_concat _ _ hne]

theorem render_append (rooted : Bool) (es : List Bytes) (e tail : Bytes) :
    render rooted (es ++ [e]) ++ tail = render rooted (es ++ [e ++ tail]) := by
  by_cases hes : es = []
  · simp [hes, render, Bytes.join, List.intercalate]
  · simp [render_concat hes]

theorem elements_append_names {path : Bytes} (hpath : path ≠ []) (hne : names ≠ []) (hnames : ∀ n ∈ names, IsChild n) :
    elements (path ++ slash :: Bytes.join [slash] names) = elements path ++ names := by
  rw [elements, isAbsolute_append hpath, Bytes.split_append, Bytes.split_join hne fun n hn => (hnames n hn).slash_notin,
    settle_append_names [] hnames]
  rfl

/-- Names can be put behind any path. -/
theorem join_names (dir : Bytes) (hne : names ≠ []) (hnames : ∀ n ∈ names, IsChild n) :
    join (dir :: names) = render (isAbsolute dir) (elements dir ++ names) := by
  by_cases hdir : dir = []
  · subst hdir
    obtain ⟨n, names, rfl⟩ := List.exists_cons_of_ne_nil hne
    have hn : List.isEmpty n = false := by simpa using (hnames n List.mem_cons_self).ne_nil
    have hsettled : Settled false (n :: names) := Settled.append_names .nil hnames
    have helements : elements (Bytes.join [slash] (n :: names)) = n :: names := by
      simpa [render] using elements_render hsettled hne
    have habsolute : isAbsolute (Bytes.join [slash] (n :: names)) = false := isAbsolute_join fun _ => hsettled.of_mem
    rw [join, List.dropWhile_cons_of_pos rfl, List.dropWhile_cons_of_neg (by simp [hn])]
    dsimp only
    rw [clean_eq_render (by simp [helements]), helements, habsolute]
    rfl
  · have hempty : List.isEmpty dir = false := by simpa using hdir
    have helements := elements_append_names hdir hne hnames
    rw [join, List.dropWhile_cons_of_neg (by simp [hempty])]
    dsimp only
    rw [Bytes.join_cons _ _ hne, List.append_assoc, List.singleton_append, clean_eq_render (by simp [helements, hne]),
      helements, isAbsolute_append hdir]

/-- A settled path that a name is put behind only grows by it. -/
theorem join_render (h : Settled rooted es) (hne : es ≠ []) (hnames : names ≠ []) (hall : ∀ n ∈ names, IsChild n) :
    join (render rooted es :: names) = render rooted (es ++ names) := by
  rw [join_names _ hnames hall, isAbsolute_render h, elements_render h hne]

end Path

/-! ## The path of the parent -/

namespace Disk

open Path

variable {rooted : Bool} {es : List Bytes} {e : Bytes}

theorem dropSlashes_append (path : Bytes) (hne : e ≠ []) (hslash : slash ∉ e) : dropSlashes (path ++ e) = path ++ e := by
  obtain ⟨es, last, rfl⟩ : ∃ es last, e = es ++ [last] := ⟨_, _, (List.dropLast_concat_getLast hne).symm⟩
  have hlast : last ≠ slash := fun h => hslash (by simp [h])
  simp [dropSlashes, hlast]

theorem dropWhile_of_notin {front : Bytes} (hfront : slash ∉ front) (more : Bytes) :
    (front ++ more).dropWhile (· ≠ slash) = more.dropWhile (· ≠ slash) := by
  induction front with
  | nil => rfl
  | cons b front ih =>
    rw [List.mem_cons, not_or] at hfront
    rw [List.cons_append, List.dropWhile_cons_of_pos (by simpa using Ne.symm hfront.1), ih hfront.2]

theorem parentPath_of_notin (hne : e ≠ []) (hslash : slash ∉ e) : parentPath e = [] := by
  have hdrop := dropSlashes_append [] hne hslash
  have hall := dropWhile_of_notin (show slash ∉ e.reverse by simpa using hslash) []
  rw [List.nil_append] at hdrop
  rw [List.append_nil] at hall
  rw [parentPath, hdrop, hall]
  rfl

theorem parentPath_append (path : Bytes) (hne : e ≠ []) (hslash : slash ∉ e) : parentPath (path ++ slash :: e) = path := by
  have hdrop := dropSlashes_append (path ++ [slash]) hne hslash
  have hall := dropWhile_of_notin (show slash ∉ e.reverse by simpa using hslash) (slash :: path.reverse)
  rw [List.append_assoc, List.singleton_append] at hdrop
  rw [parentPath, hdrop]
  simp only [List.reverse_append, List.reverse_cons, List.append_assoc, List.singleton_append, hall]
  simp

theorem parentPath_render (hne : e ≠ []) (hslash : slash ∉ e) :
    parentPath (render rooted (es ++ [e])) = if es = [] then [] else render rooted es := by
  by_cases hes : es = []
  · subst hes
    cases rooted with
    | false => simpa [render, Bytes.join, List.intercalate] using parentPath_of_notin hne hslash
    | true => simpa [render, Bytes.join, List.intercalate] using parentPath_append [] hne hslash
  · rw [if_neg hes, render_concat hes, parentPath_append _ hne hslash]

theorem dropSlashes_render (hne : e ≠ []) (hslash : slash ∉ e) :
    dropSlashes (render rooted (es ++ [e])) = render rooted (es ++ [e]) := by
  by_cases hes : es = []
  · subst hes
    simpa [render, Bytes.join, List.intercalate] using dropSlashes_append (if rooted then [slash] else []) hne hslash
  · rw [render_concat hes, List.append_cons]
    exact dropSlashes_append _ hne hslash

end Disk

end Bracescript
