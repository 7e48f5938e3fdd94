import Bracescript.Proofs.SettledPaths

/-!
# Places on a disk

What stands where after each change of a disk, and where paths lead to. A walk depends on the folders and links it meets
and on nothing else, so what only adds files or fresh folders leaves every walk as it was.
-/

namespace Bracescript

/-! ## Lists of pairs -/

section Pairs

variable {α β : Type} [BEq α] [LawfulBEq α] [DecidableEq α]

theorem lookup_cons_eq (a : α) (x : β) (pairs : List (α × β)) (b : α) :
    ((a, x) :: pairs).lookup b = if b = a then some x else pairs.lookup b := by
  rw [List.lookup_cons]
  by_cases h : b = a
  · simp [h]
  · simp [h, show (b == a) = false by simpa using h]

theorem lookup_filter (keep : α → Bool) (pairs : List (α × β)) (b : α) :
    (pairs.filter fun p => keep p.1).lookup b = if keep b then pairs.lookup b else none := by
  induction pairs with
  | nil => simp
  | cons p pairs ih =>
    obtain ⟨a, x⟩ := p
    by_cases hb : b = a
    · subst hb
      cases hkeep : keep b <;> simp [hkeep, ih]
    · cases hkeep : keep a <;> simp [hkeep, ih, hb, lookup_cons_eq]

end Pairs

namespace Disk

open Path

variable {d d' : Disk} {p q r here : Place} {e : Entry}

/-! ## Entries after a change -/

@[simp] theorem get?_nil (d : Disk) : d.get? [] = some .folder := rfl

theorem get?_of_ne_nil (h : p ≠ []) : d.get? p = d.entries.lookup p := if_neg h

theorem isPrefixOf_eq_decide (p q : Place) : p.isPrefixOf q = decide (p <+: q) := by
  rw [Bool.eq_iff_iff]
  simp

theorem get?_set (hp : p ≠ []) : (d.set p e).get? r = if r = p then some e else d.get? r := by
  by_cases hr : r = []
  · subst hr
    simp [Ne.symm hp]
  · have hfilter := lookup_filter (fun q => decide (q ≠ p)) d.entries r
    rw [get?_of_ne_nil hr, get?_of_ne_nil hr, set, lookup_cons_eq]
    by_cases hrp : r = p
    · simp [hrp]
    · simp only [hrp, if_false]
      simpa [hrp] using hfilter

theorem get?_erase (hp : p ≠ []) : (d.erase p).get? r = if p <+: r then none else d.get? r := by
  by_cases hr : r = []
  · subst hr
    simp [hp]
  · have hfilter := lookup_filter (fun q => !p.isPrefixOf q) d.entries r
    rw [get?_of_ne_nil hr, get?_of_ne_nil hr]
    simp only [erase]
    rw [hfilter, isPrefixOf_eq_decide]
    by_cases hpr : p <+: r <;> simp [hpr]

theorem lookup_carry {entries : List (Place × Entry)} (hfree : ∀ x ∈ entries, ¬q <+: x.1) (r : Place) :
    (entries.map fun (s, e) => if p.isPrefixOf s then (q ++ s.drop p.length, e) else (s, e)).lookup r =
      if q <+: r then entries.lookup (p ++ r.drop q.length) else if p <+: r then none else entries.lookup r := by
  induction entries with
  | nil => simp
  | cons x entries ih =>
    obtain ⟨s, e⟩ := x
    have hs : ¬q <+: s := hfree (s, e) List.mem_cons_self
    have hmore := ih fun x hx => hfree x (List.mem_cons_of_mem _ hx)
    rw [List.map_cons]
    dsimp only
    rw [isPrefixOf_eq_decide]
    by_cases hps : p <+: s
    · obtain ⟨t, rfl⟩ := hps
      simp only [List.prefix_append, decide_true, if_true, List.drop_left, lookup_cons_eq, hmore]
      by_cases hqr : q <+: r
      · obtain ⟨u, rfl⟩ := hqr
        simp only [List.prefix_append, if_true, List.drop_left, List.append_cancel_left_eq]
      · have hne : r ≠ q ++ t := by
          rintro rfl
          exact hqr (List.prefix_append q t)
        have hne' : ¬p <+: r → r ≠ p ++ t := by
          rintro hpr rfl
          exact hpr (List.prefix_append p t)
        by_cases hpr : p <+: r
        · simp [hqr, hpr, hne]
        · simp [hqr, hpr, hne, hne' hpr]
    · simp only [hps, decide_false, Bool.false_eq_true, if_false, lookup_cons_eq, hmore]
      by_cases hqr : q <+: r
      · have hne : r ≠ s := by
          rintro rfl
          exact hs hqr
        have hne' : p ++ r.drop q.length ≠ s := by
          rintro rfl
          exact hps (List.prefix_append _ _)
        simp [hqr, hne, hne']
      · by_cases hpr : p <+: r
        · have hne : r ≠ s := by
            rintro rfl
            exact hps hpr
          simp [hqr, hpr, hne]
        · simp [hqr, hpr]

/-- Nothing is left at the old place, and the new one holds what stood there. -/
theorem get?_move (hpq : ¬p <+: q) (hqp : ¬q <+: p) :
    (d.move p q).get? r = if q <+: r then d.get? (p ++ r.drop q.length) else if p <+: r then none else d.get? r := by
  have hp : p ≠ [] := by
    rintro rfl
    exact hpq List.nil_prefix
  have hq : q ≠ [] := by
    rintro rfl
    exact hqp List.nil_prefix
  have hne : p ≠ q := by
    rintro rfl
    exact hpq List.prefix_rfl
  by_cases hr : r = []
  · subst hr
    simp [hp, hq]
  · have hfree : ∀ x ∈ (d.erase q).entries, ¬q <+: x.1 := by
      intro x hx
      simp only [erase, List.mem_filter, isPrefixOf_eq_decide] at hx
      simpa using hx.2
    have hcarry := lookup_carry (p := p) hfree r
    rw [get?_of_ne_nil hr, move]
    simp only [hne, if_false]
    rw [hcarry]
    by_cases hqr : q <+: r
    · have hplace : p ++ r.drop q.length ≠ [] := by simp [hp]
      have hnot : ¬q <+: p ++ r.drop q.length := by
        intro hpre
        rcases List.prefix_or_prefix_of_prefix hpre (List.prefix_append p _) with h | h
        · exact hqp h
        · exact hpq h
      have herase := get?_erase (d := d) (r := p ++ r.drop q.length) hq
      rw [if_neg hnot, get?_of_ne_nil hplace] at herase
      rw [if_pos hqr, if_pos hqr, herase]
    · have herase := get?_erase (d := d) (r := r) hq
      rw [if_neg hqr, get?_of_ne_nil hr] at herase
      rw [if_neg hqr, if_neg hqr, herase]

/-! ## Trees -/

/-- Everything stands in a folder. -/
def IsTree (d : Disk) : Prop := ∀ p name e, d.get? (p ++ [name]) = some e → d.get? p = some .folder

theorem isTree_of_entries (h : ∀ x ∈ d.entries, d.get? x.1.dropLast = some .folder) : d.IsTree := by
  intro p name e he
  rw [get?_of_ne_nil (by simp)] at he
  obtain ⟨before, after, hentries, -⟩ := List.lookup_eq_some_iff.mp he
  have hparent := h (p ++ [name], e) (by simp [hentries])
  simpa using hparent

theorem IsTree.dropLast (h : d.IsTree) (hp : d.get? p = some e) : d.get? p.dropLast = some .folder := by
  rcases List.eq_nil_or_concat p with rfl | ⟨p, name, rfl⟩
  · rfl
  · rw [List.concat_eq_append] at hp
    simpa using h p name e hp

/-- Nothing stands below what is no folder. -/
theorem IsTree.none_below (h : d.IsTree) (hp : d.get? p ≠ some .folder) (hne : r ≠ []) : d.get? (p ++ r) = none := by
  induction r generalizing p with
  | nil => exact absurd rfl hne
  | cons name r ih =>
    have hnone : d.get? (p ++ [name]) = none := by
      rw [Option.eq_none_iff_forall_ne_some]
      intro e he
      exact hp (h _ _ _ he)
    by_cases hr : r = []
    · rw [hr, hnone]
    · rw [List.append_cons]
      exact ih (by simp [hnone]) hr

theorem IsTree.move (h : d.IsTree) (hpq : ¬p <+: q) (hqp : ¬q <+: p) (hparent : (d.move p q).get? q.dropLast = some .folder) :
    (d.move p q).IsTree := by
  intro r name e he
  rw [get?_move hpq hqp] at he
  split at he
  · rename_i hqr
    obtain ⟨t, ht⟩ := hqr
    rcases List.eq_nil_or_concat t with rfl | ⟨t, last, rfl⟩
    · rw [List.append_nil] at ht
      simpa [ht] using hparent
    · rw [List.concat_eq_append, ← List.append_assoc] at ht
      obtain ⟨rfl, hlast⟩ := List.append_inj' ht rfl
      rw [List.append_assoc, List.drop_left, ← List.append_assoc] at he
      rw [get?_move hpq hqp, if_pos (List.prefix_append q t), List.drop_left]
      exact h _ _ _ he
  · rename_i hqr
    split at he
    · cases he
    · rename_i hpr
      rw [get?_move hpq hqp, if_neg fun hr => hqr (hr.trans (List.prefix_append r [name])),
        if_neg fun hr => hpr (hr.trans (List.prefix_append r [name]))]
      exact h r name e he

theorem IsTree.erase (h : d.IsTree) (hp : p ≠ []) : (d.erase p).IsTree := by
  intro r name e he
  rw [get?_erase hp] at he ⊢
  split at he
  · cases he
  · rename_i hbelow
    rw [if_neg fun hr => hbelow (hr.trans (List.prefix_append r [name]))]
    exact h r name e he

/-! ## Where walks lead -/

/-- An element that a walk takes for the name of something in a folder. -/
def Steps (element : Bytes) : Prop :=
  element ≠ [] ∧ element ≠ dot ∧ element ≠ dotDot ∧ element.length ≤ longestName

instance (element : Bytes) : Decidable (Steps element) := inferInstanceAs (Decidable (_ ∧ _ ∧ _ ∧ _))

/-- A walk that comes to an end, step by step. -/
inductive Leads (d : Disk) (follow : Bool) : Nat → Place → List Bytes → Place → Prop
  | done {links : Nat} {here : Place} : Leads d follow links here [] here
  | stay {links : Nat} {here there : Place} {element : Bytes} {rest : List Bytes} (folder : d.get? here = some .folder)
    (stays : element = [] ∨ element = dot) (further : Leads d follow links here rest there) :
    Leads d follow links here (element :: rest) there
  | up {links : Nat} {here there : Place} {rest : List Bytes} (folder : d.get? here = some .folder)
    (further : Leads d follow links here.dropLast rest there) : Leads d follow links here (dotDot :: rest) there
  | down {links : Nat} {here there : Place} {element : Bytes} {rest : List Bytes} (folder : d.get? here = some .folder)
    (steps : Steps element) (noLink : ∀ target, d.get? (here ++ [element]) ≠ some (.link target))
    (further : Leads d follow links (here ++ [element]) rest there) : Leads d follow links here (element :: rest) there
  | stop {links : Nat} {here : Place} {element target : Bytes} (folder : d.get? here = some .folder)
    (steps : Steps element) (link : d.get? (here ++ [element]) = some (.link target)) (stops : follow = false) :
    Leads d follow links here [element] (here ++ [element])
  | jump {links : Nat} {here there : Place} {element target : Bytes} {rest : List Bytes}
    (folder : d.get? here = some .folder) (steps : Steps element)
    (link : d.get? (here ++ [element]) = some (.link target)) (jumps : rest = [] → follow = true) (some : target ≠ [])
    (further : Leads d follow links (if isAbsolute target then [] else here) (target.split slash ++ rest) there) :
    Leads d follow (links + 1) here (element :: rest) there

variable {follow : Bool} {links : Nat} {there : Place} {xs : List Bytes} {name : Bytes}

theorem leads_of_walk (h : d.walk follow links here xs = .ok there) : Leads d follow links here xs there := by
  fun_induction Disk.walk d follow links here xs with
  | case1 =>
    cases h
    exact .done
  | case3 links here element rest folder stays ih => exact .stay folder (by simpa using stays) (ih h)
  | case4 links here rest folder stays ih => exact .up folder (ih h)
  | case6 links here element rest folder stays hup hlength target link stops =>
    obtain ⟨hnil, hdot⟩ : element ≠ [] ∧ element ≠ dot := by simpa using stays
    obtain ⟨rfl, hfollow⟩ : rest = [] ∧ follow = false := by simpa using stops
    cases h
    exact .stop folder ⟨hnil, hdot, hup, Nat.not_lt.mp hlength⟩ link hfollow
  | case9 here element rest folder stays hup hlength target link stops left hsome ih =>
    obtain ⟨hnil, hdot⟩ : element ≠ [] ∧ element ≠ dot := by simpa using stays
    exact .jump folder ⟨hnil, hdot, hup, Nat.not_lt.mp hlength⟩ link (by simpa using stops) hsome (ih h)
  | case10 links here element rest folder stays hup hlength noLink ih =>
    obtain ⟨hnil, hdot⟩ : element ≠ [] ∧ element ≠ dot := by simpa using stays
    exact .down folder ⟨hnil, hdot, hup, Nat.not_lt.mp hlength⟩ noLink (ih h)
  | case2 => cases h
  | case5 => cases h
  | case7 => cases h
  | case8 => cases h
  | case11 => cases h

theorem walk_of_leads (h : Leads d follow links here xs there) : d.walk follow links here xs = .ok there := by
  induction h with
  | done => rw [walk]
  | stay folder stays _ ih =>
    rw [walk, folder]
    rcases stays with rfl | rfl <;> simpa using ih
  | up folder _ ih =>
    rw [walk, folder]
    simpa [show dotDot ≠ [] ∧ dotDot ≠ dot by decide] using ih
  | @down links here there element rest folder steps noLink _ ih =>
    obtain ⟨hnil, hdot, hup, hlength⟩ := steps
    rw [walk, folder]
    simp only [hnil, hdot, hup, Nat.not_lt.mpr hlength, decide_false, Bool.or_self, Bool.false_eq_true, if_false]
    exact ih
  | stop folder steps link stops =>
    obtain ⟨hnil, hdot, hup, hlength⟩ := steps
    rw [walk, folder]
    simp [hnil, hdot, hup, Nat.not_lt.mpr hlength, link, stops]
  | jump folder steps link jumps some _ ih =>
    obtain ⟨hnil, hdot, hup, hlength⟩ := steps
    rw [walk, folder]
    simp only [hnil, hdot, hup, Nat.not_lt.mpr hlength, decide_false, Bool.or_self, Bool.false_eq_true, if_false, link, some]
    rw [if_neg]
    · exact ih
    · simpa using jumps

theorem walk_eq_ok : d.walk follow links here xs = .ok there ↔ Leads d follow links here xs there :=
  ⟨leads_of_walk, walk_of_leads⟩

theorem Leads.unique {there' : Place} (h : Leads d follow links here xs there) (h' : Leads d follow links here xs there') :
    there = there' := by
  rw [← walk_eq_ok] at h h'
  rw [h] at h'
  cases h'
  rfl

/-- A name at the end of a path is looked for where the rest of the path leads to. -/
theorem Leads.of_concat (h : Leads d follow links here (xs ++ [name]) there) (hname : IsChild name) :
    ∃ q, Leads d true links here xs q ∧ d.get? q = some .folder ∧ Steps name ∧
      (there = q ++ [name] ∨ follow = true ∧ ∃ target, d.get? (q ++ [name]) = some (.link target)) := by
  generalize hall : xs ++ [name] = all at h
  induction h generalizing xs with
  | done => simp at hall
  | stay folder stays _ ih =>
    cases xs with
    | nil =>
      cases hall
      exact absurd stays (not_or.mpr ⟨hname.ne_nil, hname.ne_dot⟩)
    | cons x xs =>
      cases hall
      obtain ⟨q, hq, hrest⟩ := ih rfl
      exact ⟨q, .stay folder stays hq, hrest⟩
  | up folder _ ih =>
    cases xs with
    | nil =>
      cases hall
      exact absurd rfl hname.ne_dotDot
    | cons x xs =>
      cases hall
      obtain ⟨q, hq, hrest⟩ := ih rfl
      exact ⟨q, .up folder hq, hrest⟩
  | down folder steps noLink further ih =>
    cases xs with
    | nil =>
      cases hall
      cases further
      exact ⟨_, .done, folder, steps, .inl rfl⟩
    | cons x xs =>
      cases hall
      obtain ⟨q, hq, hrest⟩ := ih rfl
      exact ⟨q, .down folder steps noLink hq, hrest⟩
  | stop folder steps link stops =>
    cases xs with
    | nil =>
      cases hall
      exact ⟨_, .done, folder, steps, .inl rfl⟩
    | cons x xs => simp at hall
  | jump folder steps link jumps some _ ih =>
    cases xs with
    | nil =>
      cases hall
      exact ⟨_, .done, folder, steps, .inr ⟨jumps rfl, _, link⟩⟩
    | cons x xs =>
      cases hall
      obtain ⟨q, hq, hrest⟩ := ih (List.append_assoc ..)
      exact ⟨q, .jump folder steps link (fun _ => rfl) some hq, hrest⟩

theorem leads_name (folder : d.get? here = some .folder) (steps : Steps name)
    (hend : follow = false ∨ ∀ target, d.get? (here ++ [name]) ≠ some (.link target)) :
    Leads d follow links here [name] (here ++ [name]) := by
  by_cases hlink : ∃ target, d.get? (here ++ [name]) = some (.link target)
  · obtain ⟨target, hlink⟩ := hlink
    exact .stop folder steps hlink (hend.resolve_right fun hno => hno target hlink)
  · exact .down folder steps (not_exists.mp hlink) .done

theorem Leads.concat (h : Leads d true links here xs q) (folder : d.get? q = some .folder) (steps : Steps name)
    (hend : follow = false ∨ ∀ target, d.get? (q ++ [name]) ≠ some (.link target)) :
    Leads d follow links here (xs ++ [name]) (q ++ [name]) := by
  induction h with
  | done => exact leads_name folder steps hend
  | stay folder' stays _ ih => exact .stay folder' stays (ih folder hend)
  | up folder' _ ih => exact .up folder' (ih folder hend)
  | down folder' steps' noLink _ ih => exact .down folder' steps' noLink (ih folder hend)
  | stop _ _ _ stops => cases stops
  | jump folder' steps' link jumps some _ ih =>
    have hfurther := ih folder hend
    rw [List.append_assoc] at hfurther
    exact .jump folder' steps' link (by simp) some hfurther

/-- Upward steps end in a folder. -/
theorem Leads.folder_of_ups {n : Nat} (htree : d.IsTree) (h : Leads d follow links here (List.replicate (n + 1) dotDot) there) :
    d.get? there = some .folder := by
  generalize hups : List.replicate (n + 1) dotDot = ups at h
  induction h generalizing n with
  | done => cases hups
  | stay _ stays =>
    rw [List.replicate_succ] at hups
    cases hups
    exact absurd stays (by decide)
  | up folder further ih =>
    rw [List.replicate_succ] at hups
    cases hups
    cases n with
    | zero =>
      cases further
      exact htree.dropLast folder
    | succ n => exact ih rfl
  | down _ steps | stop _ steps | jump _ steps =>
    rw [List.replicate_succ] at hups
    injection hups with helement
    exact absurd helement.symm steps.2.2.1

/-- Folders stay folders, and the links are the same ones. -/
structure SameWays (d d' : Disk) : Prop where
  folder : ∀ r, d.get? r = some .folder → d'.get? r = some .folder
  link : ∀ r target, d'.get? r = some (.link target) ↔ d.get? r = some (.link target)

theorem Leads.sameWays (h : Leads d follow links here xs there) (hways : SameWays d d') :
    Leads d' follow links here xs there := by
  induction h with
  | done => exact .done
  | stay folder stays _ ih => exact .stay (hways.folder _ folder) stays ih
  | up folder _ ih => exact .up (hways.folder _ folder) ih
  | down folder steps noLink _ ih =>
    exact .down (hways.folder _ folder) steps (fun target hlink => noLink target ((hways.link _ target).mp hlink)) ih
  | stop folder steps link stops => exact .stop (hways.folder _ folder) steps ((hways.link _ _).mpr link) stops
  | jump folder steps link jumps some _ ih =>
    exact .jump (hways.folder _ folder) steps ((hways.link _ _).mpr link) jumps some ih

/-- Nothing that stands on `d` is different on `d'`. -/
def Keeps (d d' : Disk) : Prop := ∀ r e, d.get? r = some e → d'.get? r = some e

/-- Nothing is behind what does not exist. -/
theorem Leads.of_none (h : Leads d follow links here xs there) (hnone : d.get? here = none) : xs = [] ∧ there = here := by
  cases h with
  | done => exact ⟨rfl, rfl⟩
  | stay folder | up folder | down folder | stop folder | jump folder =>
    rw [hnone] at folder
    cases folder

/-- Where both disks have something, it is the same. -/
def Compatible (d d' : Disk) : Prop := ∀ r e e', d.get? r = some e → d'.get? r = some e' → e = e'

/-- Two walks over the same elements that both come to something come to the same place: they could only part where one
disk has nothing, and there that walk ends. -/
theorem Leads.compatible {there' : Place} (h : Leads d true links here xs there) (h' : Leads d' true links here xs there')
    (hcompatible : Compatible d d') (hthere : d.get? there ≠ none) (hthere' : d'.get? there' ≠ none) : there = there' := by
  induction h with
  | done =>
    cases h'
    rfl
  | stay folder stays further ih =>
    cases h' with
    | stay _ _ further' => exact ih further' hthere
    | up => exact absurd stays (by decide)
    | down _ steps | jump _ steps => exact absurd stays (not_or.mpr ⟨steps.1, steps.2.1⟩)
    | stop _ _ _ stops => cases stops
  | up folder further ih =>
    cases h' with
    | stay _ stays => exact absurd stays (by decide)
    | up _ further' => exact ih further' hthere
    | down _ steps | jump _ steps => exact absurd rfl steps.2.2.1
    | stop _ _ _ stops => cases stops
  | @down _ here _ element _ folder steps noLink further ih =>
    cases h' with
    | stay _ stays => exact absurd stays (not_or.mpr ⟨steps.1, steps.2.1⟩)
    | up => exact absurd rfl steps.2.2.1
    | down _ _ _ further' => exact ih further' hthere
    | stop _ _ _ stops => cases stops
    | jump _ _ link' _ _ _ =>
      have hnone : d.get? (here ++ [element]) = none := by
        rw [Option.eq_none_iff_forall_ne_some]
        intro e he
        exact noLink _ (he.trans (congrArg some (hcompatible _ _ _ he link')))
      rw [(further.of_none hnone).2] at hthere
      exact absurd hnone hthere
  | stop _ _ _ stops => cases stops
  | @jump _ here _ element _ _ folder steps link jumps some further ih =>
    cases h' with
    | stay _ stays => exact absurd stays (not_or.mpr ⟨steps.1, steps.2.1⟩)
    | up => exact absurd rfl steps.2.2.1
    | down _ _ noLink' further' =>
      have hnone : d'.get? (here ++ [element]) = none := by
        rw [Option.eq_none_iff_forall_ne_some]
        intro e he
        exact noLink' _ (he.trans (congrArg Option.some (hcompatible _ _ _ link he).symm))
      rw [(further'.of_none hnone).2] at hthere'
      exact absurd hnone hthere'
    | stop _ _ _ stops => cases stops
    | jump _ _ link' _ _ further' =>
      cases hcompatible _ _ _ link link'
      exact ih further' hthere

/-! ## Places of settled paths -/

/-- Where a path starts. -/
def start (d : Disk) (rooted : Bool) : Place := if rooted then [] else elements d.cwd

/-- A path that a disk takes. -/
def Fits (path : Bytes) : Prop := 0 ∉ path ∧ path.length ≤ longestPath

instance (path : Bytes) : Decidable (Fits path) := inferInstanceAs (Decidable (_ ∧ _))

variable {rooted : Bool} {es : List Bytes}

theorem start_congr (h : d'.cwd = d.cwd) (rooted : Bool) : d'.start rooted = d.start rooted := by
  rw [start, start, h]

theorem Fits.of_concat (h : Fits (render rooted (es ++ [name]))) (hne : es ≠ []) : Fits (render rooted es) := by
  rw [render_concat hne] at h
  obtain ⟨hzero, hlength⟩ := h
  rw [List.length_append] at hlength
  exact ⟨fun hmem => hzero (List.mem_append_left _ hmem), by omega⟩

theorem place_eq_ok {path : Bytes} :
    d.place follow path = .ok p ↔ path ≠ [] ∧ Fits path ∧
      Leads d follow mostLinks (d.start (isAbsolute path)) (path.split slash) p := by
  rw [← walk_eq_ok, place, Fits, start]
  by_cases hzero : 0 ∈ path
  · simp [hzero]
  · by_cases hnil : path = []
    · simp [hnil]
    · by_cases hlong : longestPath < path.length
      · simp [hzero, hnil, hlong, Nat.not_le.mpr hlong]
      · simp [hzero, hnil, hlong, Nat.not_lt.mp hlong]

theorem place_render (hes : Settled rooted es) (hne : es ≠ []) :
    d.place follow (render rooted es) = .ok p ↔
      Fits (render rooted es) ∧ Leads d follow mostLinks (d.start rooted) es p := by
  rw [place_eq_ok, isAbsolute_render hes, split_render hes hne]
  cases rooted with
  | false => simp [render_ne_nil hes hne]
  | true =>
    have hroot : Leads d follow mostLinks [] ([] :: es) p ↔ Leads d follow mostLinks [] es p := by
      rw [← walk_eq_ok, ← walk_eq_ok, walk]
      simp
    simpa [render_ne_nil hes hne, start] using fun _ => hroot

/-- What a settled path names stands in the folder that the path before its last name leads to. -/
theorem place_concat (hes : Settled rooted es) (hname : IsChild name) :
    d.place false (render rooted (es ++ [name])) = .ok p ↔
      ∃ q, Leads d true mostLinks (d.start rooted) es q ∧ d.get? q = some .folder ∧ Steps name ∧
        Fits (render rooted (es ++ [name])) ∧ p = q ++ [name] := by
  rw [place_render (.name hes hname) (by simp)]
  constructor
  · rintro ⟨hfits, hleads⟩
    obtain ⟨q, hq, hfolder, hsteps, hend⟩ := hleads.of_concat hname
    exact ⟨q, hq, hfolder, hsteps, hfits, by simpa using hend⟩
  · rintro ⟨q, hq, hfolder, hsteps, hfits, rfl⟩
    exact ⟨hfits, hq.concat hfolder hsteps (.inl rfl)⟩

theorem look_eq_ok {path : Bytes} : d.look follow path = .ok e ↔ ∃ p, d.place follow path = .ok p ∧ d.get? p = some e := by
  unfold look
  cases hplace : d.place follow path with
  | error r => simp
  | ok p => cases hentry : d.get? p <;> simp [hentry]

/-! ## Making folders -/

/-- There may be more folders, and nothing else is different. -/
structure Grown (d d' : Disk) : Prop where
  tree : d'.IsTree
  cwd : d'.cwd = d.cwd
  entry : ∀ r, d'.get? r = d.get? r ∨ d.get? r = none ∧ d'.get? r = some .folder

theorem Grown.refl (htree : d.IsTree) : Grown d d := ⟨htree, rfl, fun _ => .inl rfl⟩

theorem Grown.keeps (h : Grown d d') : Keeps d d' := by
  intro r e he
  rcases h.entry r with heq | ⟨hnone, -⟩
  · rw [heq, he]
  · rw [hnone] at he
    cases he

/-- What is no folder was there before. -/
theorem Grown.before (h : Grown d d') (he : d'.get? r = some e) (hfolder : e ≠ .folder) : d.get? r = some e := by
  rcases h.entry r with heq | ⟨-, hnew⟩
  · rw [← heq, he]
  · rw [hnew] at he
    cases he
    exact absurd rfl hfolder

theorem Grown.trans {d'' : Disk} (h : Grown d d') (h' : Grown d' d'') : Grown d d'' := by
  refine ⟨h'.tree, h'.cwd.trans h.cwd, fun r => ?_⟩
  rcases h'.entry r with heq' | ⟨hnone', hnew'⟩
  · rw [heq']
    exact h.entry r
  · rcases h.entry r with heq | ⟨-, hnew⟩
    · exact .inr ⟨heq ▸ hnone', hnew'⟩
    · rw [hnew] at hnone'
      cases hnone'

theorem Grown.sameWays (h : Grown d d') : SameWays d d' := by
  refine ⟨fun r hr => h.keeps r _ hr, fun r target => ⟨fun hr => ?_, fun hr => h.keeps r _ hr⟩⟩
  exact h.before hr (by simp)

theorem grown_set (htree : d.IsTree) (hnone : d.get? p = none) (hparent : d.get? p.dropLast = some .folder) :
    Grown d (d.set p .folder) := by
  have hp : p ≠ [] := by
    rintro rfl
    cases hnone
  have hget : ∀ r, (d.set p .folder).get? r = if r = p then some .folder else d.get? r := fun r => get?_set hp
  refine ⟨fun r name e he => ?_, rfl, fun r => ?_⟩
  · rw [hget] at he ⊢
    split
    · rfl
    · by_cases heq : r ++ [name] = p
      · subst heq
        simpa using hparent
      · rw [if_neg heq] at he
        exact htree r name e he
  · rw [hget]
    by_cases hr : r = p
    · subst hr
      simp [hnone]
    · simp [hr]

theorem makeFolder_eq_ok {path : Bytes} (hpath : path ≠ []) (hslash : dropSlashes path = path)
    (h : d.makeFolder path = .ok d') :
    ∃ p, d.place false path = .ok p ∧ d.get? p = none ∧ d.get? p.dropLast = some .folder ∧ d' = d.set p .folder := by
  have hempty : List.isEmpty path = false := by simpa using hpath
  unfold makeFolder at h
  rw [hslash] at h
  simp only [hempty, Bool.false_eq_true, if_false] at h
  split at h
  · cases h
  · rename_i p hplace
    split at h
    · cases h
    · rename_i hnone
      split at h
      · rename_i hparent
        cases h
        exact ⟨p, hplace, hnone, hparent, rfl⟩
      · cases h
      · cases h

/-- How folders come to be made: there is one already, or the parent is made and then a fresh folder in it, unless there
is one by then. -/
theorem makeFolders_eq_ok {e : Bytes} (hes : Settled rooted (es ++ [e])) (h : d.makeFolders (render rooted (es ++ [e])) = .ok d') :
    d' = d ∨ ∃ d₁, (es = [] ∧ d₁ = d ∨ es ≠ [] ∧ d.makeFolders (render rooted es) = .ok d₁) ∧
      (d' = d₁ ∨ ∃ p, d₁.place false (render rooted (es ++ [e])) = .ok p ∧ d₁.get? p = none ∧
        d₁.get? p.dropLast = some .folder ∧ d' = d₁.set p .folder) := by
  obtain ⟨hne, hslash⟩ := hes.of_mem (List.mem_append_right es (List.mem_singleton_self e))
  have hpath := render_ne_nil hes (by simp)
  rw [makeFolders] at h
  rw [parentPath_render hne hslash] at h
  split at h
  · cases h
    exact .inl rfl
  · cases h
  · rw [dif_neg hpath] at h
    split at h
    · cases h
    · rename_i d₁ hparent
      refine .inr ⟨d₁, ?_, ?_⟩
      · by_cases hempty : es = []
        · subst hempty
          simp only [if_true] at hparent
          cases hparent
          exact .inl ⟨rfl, rfl⟩
        · rw [if_neg hempty, if_neg (render_ne_nil hes.of_concat.1 hempty)] at hparent
          exact .inr ⟨hempty, hparent⟩
      · split at h
        · rename_i hmake
          cases h
          exact .inr (makeFolder_eq_ok hpath (dropSlashes_render hne hslash) hmake)
        · split at h
          · cases h
            exact .inl rfl
          · cases h

/-- Paths that only lead upward need no folders made. -/
theorem makeFolders_ups {n : Nat} (htree : d.IsTree) (hn : n ≠ 0)
    (h : d.makeFolders (render false (List.replicate n dotDot)) = .ok d') : d' = d := by
  induction n generalizing d' with
  | zero => exact absurd rfl hn
  | succ n ih =>
    have hups : Settled false (List.replicate (n + 1) dotDot) := .ups rfl n
    rw [List.replicate_succ'] at h hups
    rcases makeFolders_eq_ok hups h with heq | ⟨d₁, hparent, hlast⟩
    · exact heq
    · have hsame : d₁ = d := by
        rcases hparent with ⟨-, heq⟩ | ⟨hne, hparent⟩
        · exact heq
        · exact ih (by simpa using hne) hparent
      subst hsame
      rcases hlast with heq | ⟨p, hplace, hnone, -, -⟩
      · exact heq
      · rw [place_render hups (by simp), ← List.replicate_succ'] at hplace
        rw [hplace.2.folder_of_ups htree] at hnone
        cases hnone

/-- Nothing stood at the end of a path, and it is empty if something stands there now. -/
def IsNewAt (d d' : Disk) (path : Bytes) : Prop :=
  ∀ p, d'.place true path = .ok p → d.get? p = none ∧ ∀ r, r ≠ [] → d'.get? (p ++ r) = none

/-- What is in a new folder is new. -/
theorem IsNewAt.concat {e : Bytes} (htree : d.IsTree) (hes : Settled rooted es) (hne : es ≠ []) (he : IsChild e)
    (hnew : IsNewAt d d' (render rooted es)) : IsNewAt d d' (render rooted (es ++ [e])) := by
  intro p hp
  rw [place_render (hes.name he) (by simp)] at hp
  obtain ⟨q, hq, -, -, hend⟩ := hp.2.of_concat he
  obtain ⟨hparent, hbelow⟩ := hnew q ((place_render hes hne).mpr ⟨hp.1.of_concat hne, hq⟩)
  have hempty : d'.get? (q ++ [e]) = none := hbelow [e] (by simp)
  obtain rfl : p = q ++ [e] := by simpa [hempty] using hend
  refine ⟨htree.none_below (by simp [hparent]) (by simp), fun r _ => ?_⟩
  rw [List.append_assoc]
  exact hbelow ([e] ++ r) (by simp)

theorem isNewAt_set {d₁ : Disk} {e : Bytes} {p : Place} (hgrown : Grown d d₁) (hes : Settled rooted es) (he : IsChild e)
    (hplace : d₁.place false (render rooted (es ++ [e])) = .ok p) (hnone : d₁.get? p = none)
    (hfolder : d₁.get? p.dropLast = some .folder) : IsNewAt d (d₁.set p .folder) (render rooted (es ++ [e])) := by
  have hset := grown_set hgrown.tree hnone hfolder
  intro p' hp'
  rw [place_render (hes.name he) (by simp)] at hplace hp'
  obtain ⟨q, hq, hparent, hsteps, hend⟩ := hplace.2.of_concat he
  obtain rfl : p = q ++ [e] := by simpa using hend
  have hget : ∀ r, (d₁.set (q ++ [e]) .folder).get? r = if r = q ++ [e] then some .folder else d₁.get? r :=
    fun r => get?_set (by simp)
  have hleads : Leads (d₁.set (q ++ [e]) .folder) true mostLinks (d₁.start rooted) (es ++ [e]) (q ++ [e]) :=
    (hq.sameWays hset.sameWays).concat (hset.keeps _ _ hparent) hsteps
      (.inr fun target hlink => by simp [hget] at hlink)
  rw [hp'.2.unique hleads]
  refine ⟨?_, fun r hr => ?_⟩
  · rw [Option.eq_none_iff_forall_ne_some]
    intro e' he'
    rw [hgrown.keeps _ _ he'] at hnone
    cases hnone
  · rw [hget, if_neg (by simpa using hr)]
    exact hgrown.tree.none_below (by simp [hnone]) hr

/-- Folders are made where nothing was: either none is made, or the one at the end is new as well. -/
theorem makeFolders_grown (htree : d.IsTree) (hes : Settled rooted es) (hne : es ≠ [])
    (h : d.makeFolders (render rooted es) = .ok d') : Grown d d' ∧ (d' = d ∨ IsNewAt d d' (render rooted es)) := by
  induction hes generalizing d' with
  | nil => exact absurd rfl hne
  | ups hrooted n =>
    subst hrooted
    obtain rfl := makeFolders_ups htree (Nat.succ_ne_zero n) h
    exact ⟨.refl htree, .inl rfl⟩
  | @name es e settled he ih =>
    rcases makeFolders_eq_ok (settled.name he) h with rfl | ⟨d₁, hparent, hlast⟩
    · exact ⟨.refl htree, .inl rfl⟩
    have hgrown : Grown d d₁ ∧ (d₁ = d ∨ es ≠ [] ∧ IsNewAt d d₁ (render rooted es)) := by
      rcases hparent with ⟨-, rfl⟩ | ⟨hparent, hmake⟩
      · exact ⟨.refl htree, .inl rfl⟩
      · obtain ⟨hgrown, hnew⟩ := ih hparent hmake
        exact ⟨hgrown, hnew.imp_right fun hnew => ⟨hparent, hnew⟩⟩
    obtain ⟨hgrown, hnew⟩ := hgrown
    rcases hlast with rfl | ⟨p, hplace, hnone, hfolder, rfl⟩
    · exact ⟨hgrown, hnew.imp_right fun hnew => hnew.2.concat htree settled hnew.1 he⟩
    · exact ⟨hgrown.trans (grown_set hgrown.tree hnone hfolder), .inr (isNewAt_set hgrown settled he hplace hnone hfolder)⟩

theorem makeFolders_of_folder {path : Bytes} (h : d.look true path = .ok .folder) : d.makeFolders path = .ok d := by
  rw [makeFolders, h]

/-! ## Writing and carrying -/

theorem write_eq_ok {path content : Bytes} (h : d.write path content = .ok d') :
    ∃ p, d.place true path = .ok p ∧ d.get? p ≠ some .folder ∧ d.get? p.dropLast = some .folder ∧
      d' = d.set p (.file content) := by
  unfold write at h
  split at h
  · cases h
  · rename_i p hplace
    unfold writeAt at h
    split at h
    · cases h
    · rename_i hfolder
      split at h
      · rename_i hparent
        cases h
        exact ⟨p, hplace, hfolder, hparent, rfl⟩
      · cases h
      · cases h

/-- A file that is written at one place and carried to another, neither of them being a folder, is at the other. -/
theorem get?_set_move (htree : d.IsTree) (hp : d.get? p ≠ some .folder) (hq : d.get? q ≠ some .folder) (hpq : ¬p <+: q)
    (hqp : ¬q <+: p) :
    ((d.set p e).move p q).get? r = if r = q then some e else if r = p then none else d.get? r := by
  have hne : p ≠ [] := by
    rintro rfl
    exact hpq List.nil_prefix
  rw [get?_move hpq hqp]
  by_cases hqr : q <+: r
  · obtain ⟨t, rfl⟩ := hqr
    rw [if_pos (List.prefix_append q t), List.drop_left, get?_set hne]
    by_cases ht : t = []
    · simp [ht]
    · have hother : q ++ t ≠ p := fun h => hqp (h ▸ List.prefix_append q t)
      simp [ht, hother, htree.none_below hp ht, htree.none_below hq ht]
  · have hrq : r ≠ q := fun h => hqr (h ▸ List.prefix_rfl)
    rw [if_neg hqr, if_neg hrq]
    by_cases hpr : p <+: r
    · obtain ⟨t, rfl⟩ := hpr
      by_cases ht : t = []
      · simp [ht]
      · simp [ht, htree.none_below hp ht]
    · have hrp : r ≠ p := fun h => hpr (h ▸ List.prefix_rfl)
      rw [if_neg hpr, if_neg hrp, get?_set hne, if_neg hrp]

theorem rename_eq_ok {old new : Bytes} (h : d.rename old new = .ok d') :
    ∃ e p q, d.look false old = .ok e ∧ d.place false old = .ok p ∧ d.place false new = .ok q ∧
      (d' = d ∧ p = q ∨ d.get? q ≠ some .folder ∧ d.get? q.dropLast = some .folder ∧ d' = d.move p q) := by
  unfold rename at h
  dsimp only at h
  split at h
  · cases h
  · rename_i e hlook
    split at h
    · cases h
    · cases h
    · rename_i p q hold hnew
      refine ⟨e, p, q, hlook, hold, hnew, ?_⟩
      split at h
      · split at h
        · rename_i hsame
          cases h
          exact .inl ⟨rfl, by simp_all⟩
        · cases h
      · rename_i hfolder
        split at h
        · cases h
        · rename_i hparent
          split at h
          · cases h
          · split at h
            · cases h
            · cases h
              exact .inr ⟨hfolder, by simpa using hparent, rfl⟩

end Disk

end Bracescript
