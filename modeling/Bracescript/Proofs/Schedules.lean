import Mathlib.Data.Nat.Find
import Bracescript.Proofs.CacheTransparency

/-!
# Jobs side by side

The jobs of a directory may be worked on side by side, over one disk and one cache. A job looks into the cache, goes
through its passes and puts its output into the cache, and between any two of these steps others may take theirs. The
order in which they do makes no difference to what they come to.
-/

namespace Bracescript

/-! ## One job -/

namespace Job

/-- The result for a file that was not loaded. -/
def unloaded (j : Job) : CompiledFile :=
  { path := j.path, id := 0, run := { bag := j.bag }, timing := none
    events := [{ path := j.path, stage := .lex, status := .failed }] }

/-- The result of a run on the file of a job. -/
def compiled (o : CompileOptions) (j : Job) (f : SourceFile) (run : FileRun) : CompiledFile :=
  { path := j.path, id := f.id, run, timing := if o.timings then some run.measured else none
    events := run.events f.path }

end Job

/-- How far a job is. -/
inductive JobState where
  | waiting
  | begun
  /-- The output is not in the cache. -/
  | missed (f : SourceFile) (before : List Happening)
  /-- The passes are over. -/
  | worked (f : SourceFile) (before : List Happening) (run : FileRun)
  | done (file : CompiledFile)
  /-- The job was called off before it did anything. -/
  | skipped

namespace JobState

def isBusy : JobState → Bool
  | begun | missed .. | worked .. => true
  | _ => false

def isOver : JobState → Bool
  | done _ | skipped => true
  | _ => false

/-- How many steps there are at most. -/
def stepsLeft : JobState → Nat
  | waiting => 4
  | begun => 3
  | missed .. => 2
  | worked .. => 1
  | done _ | skipped => 0

def file? : JobState → Option CompiledFile
  | done file => some file
  | _ => none

end JobState

namespace Job

variable (o : CompileOptions) (cache : Option Cache)

/-- The look into the cache. -/
def look (d : Disk) (j : Job) (f : SourceFile) : JobState :=
  match cache with
  | none => .missed f []
  | some c =>
    match c.store.get d (o.emit.digest f.hash) with
    | .ok (some output) =>
      .done (j.compiled o f { output, bag := j.bag, cached := true, happenings := [.cacheHit (o.emit.digest f.hash)] })
    | .ok none => .missed f []
    | .error message => .missed f [.cacheUnreadable message]

/-- Puts the output of a run into the cache if all went well. -/
def keep (d : Disk) (j : Job) (f : SourceFile) (before : List Happening) (run : FileRun) : JobState × Disk :=
  match cache with
  | none => (.done (j.compiled o f { run with happenings := before ++ run.happenings }), d)
  | some c =>
    if run.program.isSome && run.fault.isNone then
      match c.store.put d (o.emit.digest f.hash) { path := f.path, compiler := Release.current.version, output := run.output } with
      | .ok d => (.done (j.compiled o f { run with happenings := before ++ run.happenings }), d)
      | .error message =>
        (.done (j.compiled o f { run with happenings := before ++ run.happenings ++ [.cacheUnwritable message] }), d)
    else (.done (j.compiled o f { run with happenings := before ++ run.happenings }), d)

/-- The next step of a job that has begun. -/
def advance (off : Bool) (j : Job) (s : JobState) (d : Disk) : JobState × Disk :=
  match s with
  | .begun =>
    if off then (.skipped, d)
    else
      match j.file with
      | none => (.done j.unloaded, d)
      | some f => (j.look o cache d f, d)
  | .missed f before => (.worked f before (f.run { o with cancelled := off } j.bag), d)
  | .worked f before run => j.keep o cache d f before run
  | s => (s, d)

end Job

/-! ## All jobs -/

/-- Jobs that are worked on side by side. -/
structure Group where
  disk : Disk
  /-- How far each job is, in the order of the jobs. -/
  states : List JobState
  /-- The first fault with which a job ended. -/
  fault : Option Fault := none

namespace Group

/-- How many jobs may be worked on at once: by default one for each processor, and never more than there are. -/
def slots (workers : Int) (processors size : Nat) : Nat :=
  min (if workers ≤ 0 then processors else workers.toNat) size

def start (d : Disk) (jobs : List Job) : Group := { disk := d, states := jobs.map fun _ => .waiting }

def busy (g : Group) : Nat := g.states.countP JobState.isBusy

def isOver (g : Group) : Bool := g.states.all JobState.isOver

def stepsLeft (g : Group) : Nat := g.states.foldr (fun s left => s.stepsLeft + left) 0

/-- The results in the order of the jobs. -/
def files (g : Group) : List CompiledFile := g.states.filterMap JobState.file?

/-- A fault calls off everything else. -/
def isOff (o : CompileOptions) (g : Group) : Bool := o.cancelled || g.fault.isSome

/-- Job `i` has come to `next`. A job that ends when all is called off has that for its fault. -/
def moved (g : Group) (off : Bool) (i : Nat) (next : JobState × Disk) : Group where
  disk := next.2
  states := g.states.set i next.1
  fault := if off && next.1.isOver then g.fault.or (some cancelled) else g.fault

variable (o : CompileOptions) (cache : Option Cache) (slots : Nat) (jobs : List Job)

/-- Jobs begin in their order when there is room, and each job that has begun may take the next step. -/
inductive Step (g : Group) : Group → Prop
  | begin {i : Nat} (waits : g.states[i]? = some .waiting) (first : ∀ k < i, g.states[k]? ≠ some .waiting)
    (room : g.busy < slots) : Step g { g with states := g.states.set i .begun }
  | advance {i : Nat} {j : Job} {s : JobState} (job : jobs[i]? = some j) (state : g.states[i]? = some s)
    (busy : s.isBusy = true) : Step g (g.moved (g.isOff o) i (j.advance o cache (g.isOff o) s g.disk))

inductive Steps (g : Group) : Nat → Group → Prop
  | refl : Steps g 0 g
  | step {n : Nat} {g' g'' : Group} (steps : Steps g n g') (last : Step o cache slots jobs g' g'') : Steps g (n + 1) g''

end Group

/-! ## What jobs come to -/

/-- A happening that only a tracer is told of. -/
def Happening.IsQuiet : Happening → Prop
  | .cacheUnreadable _ | .cacheUnwritable _ => True
  | _ => False

namespace Job

variable (o : CompileOptions) (allowed : SourceFile → Bytes → Prop) (j : Job)

/-- What a job can come to when only allowed outputs are found in the cache. -/
inductive Result : CompiledFile → Prop
  | unloaded (none : j.file = none) : Result j.unloaded
  | served {f : SourceFile} {output : Bytes} {key : Digest} (file : j.file = some f) (known : allowed f output) :
    Result (j.compiled o f { output, bag := j.bag, cached := true, happenings := [.cacheHit key] })
  | fresh {f : SourceFile} {before after : List Happening} (file : j.file = some f) (quiet : ∀ h ∈ before, h.IsQuiet)
    (quiet' : ∀ h ∈ after, h.IsQuiet) :
    Result (j.compiled o f { f.run o j.bag with happenings := before ++ (f.run o j.bag).happenings ++ after })

/-- A state that a job can be in when nothing is called off. -/
def Fits : JobState → Prop
  | .waiting | .begun => True
  | .missed f before => j.file = some f ∧ ∀ h ∈ before, h.IsQuiet
  | .worked f before run => j.file = some f ∧ (∀ h ∈ before, h.IsQuiet) ∧ run = f.run o j.bag
  | .done file => Result o allowed j file
  | .skipped => False

/-- Where `fact` is true of the disk the job finds only allowed outputs, and it stays true when the job puts in its own. -/
structure Respects (cache : Option Cache) (fact : Disk → Prop) : Prop where
  found : ∀ {c d f output}, cache = some c → j.file = some f → fact d →
    c.store.get d (o.emit.digest f.hash) = .ok (some output) → allowed f output
  kept : ∀ {c d d' f}, cache = some c → j.file = some f → fact d → (f.run o j.bag).program.isSome = true →
    (f.run o j.bag).fault = none → c.store.put d (o.emit.digest f.hash) (f.entry o j.bag) = .ok d' → fact d'

variable {o allowed j} {cache : Option Cache} {fact : Disk → Prop} {d : Disk}

theorem result_fresh {f : SourceFile} (hfile : j.file = some f) {before after happenings : List Happening}
    (hbefore : ∀ h ∈ before, h.IsQuiet) (hafter : ∀ h ∈ after, h.IsQuiet)
    (heq : happenings = before ++ (f.run o j.bag).happenings ++ after) :
    Result o allowed j (j.compiled o f { f.run o j.bag with happenings }) := heq ▸ .fresh hfile hbefore hafter

theorem Result.path {file : CompiledFile} (h : Result o allowed j file) : file.path = j.path := by
  cases h with
  | unloaded | served | fresh => rfl

theorem look_fits {f : SourceFile} (hfile : j.file = some f) (hrespects : Respects o allowed j cache fact) (hfact : fact d) :
    Fits o allowed j (j.look o cache d f) := by
  unfold look
  split
  · exact ⟨hfile, List.forall_mem_nil _⟩
  · split
    · rename_i output hget
      exact .served hfile (hrespects.found rfl hfile hfact hget)
    · exact ⟨hfile, List.forall_mem_nil _⟩
    · exact ⟨hfile, List.forall_mem_singleton.mpr trivial⟩

theorem keep_fits {f : SourceFile} {before : List Happening} (hfile : j.file = some f) (hquiet : ∀ h ∈ before, h.IsQuiet)
    (hrespects : Respects o allowed j cache fact) (hfact : fact d) :
    Fits o allowed j (j.keep o cache d f before (f.run o j.bag)).1 ∧ fact (j.keep o cache d f before (f.run o j.bag)).2 := by
  have hfresh :
      Result o allowed j (j.compiled o f { f.run o j.bag with happenings := before ++ (f.run o j.bag).happenings }) :=
    result_fresh hfile hquiet (List.forall_mem_nil _) (List.append_nil _).symm
  unfold keep
  split
  · exact ⟨hfresh, hfact⟩
  · split
    · rename_i hwell
      obtain ⟨hprogram, hfault⟩ : (f.run o j.bag).program.isSome = true ∧ (f.run o j.bag).fault = none := by
        simpa using hwell
      split
      · rename_i hput
        exact ⟨hfresh, hrespects.kept rfl hfile hfact hprogram hfault hput⟩
      · rename_i message _
        have hlast : ∀ h ∈ [Happening.cacheUnwritable message], h.IsQuiet := List.forall_mem_singleton.mpr trivial
        exact ⟨result_fresh hfile hquiet hlast rfl, hfact⟩
    · exact ⟨hfresh, hfact⟩

/-- A step of a job leaves it in a state that fits, and keeps what is true of the disk. -/
theorem advance_fits {s : JobState} (hlive : o.cancelled = false) (hrespects : Respects o allowed j cache fact)
    (hfits : Fits o allowed j s) (hfact : fact d) :
    Fits o allowed j (j.advance o cache false s d).1 ∧ fact (j.advance o cache false s d).2 := by
  unfold advance
  split
  · split
    · rename_i hoff
      cases hoff
    · split
      · rename_i hnone
        exact ⟨.unloaded hnone, hfact⟩
      · rename_i f hfile
        exact ⟨look_fits hfile hrespects hfact, hfact⟩
  · rename_i f before
    obtain ⟨hfile, hquiet⟩ := hfits
    exact ⟨⟨hfile, hquiet, by rw [← CompileOptions.live, CompileOptions.live_eq hlive]⟩, hfact⟩
  · rename_i f before run
    obtain ⟨hfile, hquiet, rfl⟩ := hfits
    exact keep_fits hfile hquiet hrespects hfact
  · exact ⟨hfits, hfact⟩

theorem stepsLeft_look (f : SourceFile) : (j.look o cache d f).stepsLeft ≤ 2 := by
  unfold look
  repeat' split
  all_goals simp [JobState.stepsLeft]

theorem stepsLeft_keep (f : SourceFile) (before : List Happening) (run : FileRun) :
    (j.keep o cache d f before run).1.stepsLeft = 0 := by
  unfold keep
  repeat' split
  all_goals rfl

theorem stepsLeft_advance {off : Bool} {s : JobState} (hbusy : s.isBusy = true) :
    (j.advance o cache off s d).1.stepsLeft < s.stepsLeft := by
  cases s with
  | waiting | done _ | skipped => cases hbusy
  | begun =>
    unfold advance
    dsimp only
    split
    · exact Nat.zero_lt_succ 2
    · split
      · exact Nat.zero_lt_succ 2
      · exact Nat.lt_succ_of_le (stepsLeft_look _)
  | missed f before => exact Nat.lt_succ_self 1
  | worked f before run =>
    rw [advance, stepsLeft_keep]
    exact Nat.zero_lt_one

end Job

/-! ## What all jobs come to -/

namespace Group

variable {o : CompileOptions} {allowed : SourceFile → Bytes → Prop} {cache : Option Cache} {fact : Disk → Prop}
  {slots : Nat} {jobs : List Job} {g g' : Group}

/-- What is true of jobs that nobody calls off. -/
structure Sound (o : CompileOptions) (allowed : SourceFile → Bytes → Prop) (fact : Disk → Prop) (jobs : List Job)
    (g : Group) : Prop where
  quiet : g.fault = none
  disk : fact g.disk
  length : g.states.length = jobs.length
  fits : ∀ (i : Nat) (j : Job) (s : JobState), jobs[i]? = some j → g.states[i]? = some s → j.Fits o allowed s

theorem sound_start {d : Disk} (hfact : fact d) : Sound o allowed fact jobs (start d jobs) := by
  refine ⟨rfl, hfact, by simp [start], fun i j s _ hs => ?_⟩
  obtain ⟨_, -, rfl⟩ := List.mem_map.mp (List.mem_of_getElem? hs)
  exact trivial

theorem fits_set (hsound : Sound o allowed fact jobs g) {i : Nat} {next : JobState}
    (hnext : ∀ j, jobs[i]? = some j → j.Fits o allowed next) (k : Nat) (j : Job) (s : JobState) (hj : jobs[k]? = some j)
    (hs : (g.states.set i next)[k]? = some s) : j.Fits o allowed s := by
  rw [List.getElem?_set] at hs
  split at hs
  · rename_i heq
    subst heq
    split at hs
    · cases hs
      exact hnext j hj
    · cases hs
  · exact hsound.fits k j s hj hs

theorem Step.sound (hlive : o.cancelled = false) (hrespects : ∀ j ∈ jobs, j.Respects o allowed cache fact)
    (hsound : Sound o allowed fact jobs g) (h : Step o cache slots jobs g g') : Sound o allowed fact jobs g' := by
  have hon : g.isOff o = false := by simp [isOff, hlive, hsound.quiet]
  cases h with
  | begin waits first room =>
    refine ⟨hsound.quiet, hsound.disk, ?_, fits_set hsound fun _ _ => trivial⟩
    rw [List.length_set, hsound.length]
  | @advance i j s job state busy =>
    rw [hon]
    obtain ⟨hfits, hfact⟩ := Job.advance_fits (d := g.disk) hlive (hrespects j (List.mem_of_getElem? job))
      (hsound.fits i j s job state) hsound.disk
    refine ⟨hsound.quiet, hfact, ?_, fits_set hsound fun j' hj' => ?_⟩
    · rw [moved, List.length_set, hsound.length]
    · obtain rfl := Option.some.inj (job.symm.trans hj')
      exact hfits

theorem Steps.sound {n : Nat} (hlive : o.cancelled = false) (hrespects : ∀ j ∈ jobs, j.Respects o allowed cache fact)
    (hsound : Sound o allowed fact jobs g) (h : Steps o cache slots jobs g n g') : Sound o allowed fact jobs g' := by
  induction h with
  | refl => exact hsound
  | step _ last ih => exact Step.sound hlive hrespects ih last

/-! ### Progress -/

theorem foldr_set_lt {l : List JobState} {i : Nat} {s next : JobState} (hs : l[i]? = some s)
    (hnext : next.stepsLeft < s.stepsLeft) :
    (l.set i next).foldr (fun s left => s.stepsLeft + left) 0 < l.foldr (fun s left => s.stepsLeft + left) 0 := by
  induction l generalizing i with
  | nil => cases hs
  | cons first l ih =>
    cases i with
    | zero =>
      cases hs
      simp only [List.set_cons_zero, List.foldr_cons]
      omega
    | succ i =>
      have hrest := ih hs
      simp only [List.set_cons_succ, List.foldr_cons]
      omega

theorem Step.stepsLeft_lt (h : Step o cache slots jobs g g') : g'.stepsLeft < g.stepsLeft := by
  cases h with
  | begin waits first room => exact foldr_set_lt waits (by decide)
  | advance job state busy => exact foldr_set_lt state (Job.stepsLeft_advance busy)

/-- No run takes more steps than there are. -/
theorem Steps.length_le {n : Nat} (h : Steps o cache slots jobs g n g') : n + g'.stepsLeft ≤ g.stepsLeft := by
  induction h with
  | refl => omega
  | step _ last ih =>
    have hless := last.stepsLeft_lt
    omega

theorem stepsLeft_start (d : Disk) (jobs : List Job) : (start d jobs).stepsLeft = 4 * jobs.length := by
  induction jobs with
  | nil => rfl
  | cons j jobs ih =>
    simp only [stepsLeft, start, List.map_cons, List.foldr_cons, List.length_cons] at ih ⊢
    rw [ih, JobState.stepsLeft]
    omega

/-- As long as not all is over there is a step to take. -/
theorem exists_step (hroom : 0 < slots) (hlength : g.states.length = jobs.length) (h : g.isOver = false) :
    ∃ g', Step o cache slots jobs g g' := by
  by_cases hbusy : ∃ s ∈ g.states, s.isBusy = true
  · obtain ⟨s, hs, hbusy⟩ := hbusy
    obtain ⟨i, hi⟩ := List.mem_iff_getElem?.mp hs
    have hlt : i < jobs.length := hlength ▸ (List.getElem?_eq_some_iff.mp hi).1
    exact ⟨_, .advance (List.getElem?_eq_getElem hlt) hi hbusy⟩
  · have hnone : g.busy = 0 := by
      rw [busy, List.countP_eq_zero]
      exact fun s hs hb => hbusy ⟨s, hs, hb⟩
    obtain ⟨s, hs, hleft⟩ : ∃ s ∈ g.states, ¬s.isOver = true := by simpa [isOver] using h
    have hwaits : s = .waiting := by
      cases s with
      | waiting => rfl
      | begun | missed _ _ | worked _ _ _ => exact absurd ⟨_, hs, rfl⟩ hbusy
      | done _ | skipped => exact absurd rfl hleft
    subst hwaits
    -- the first job that waits is the one that begins
    have hexists : ∃ i : Nat, g.states[i]? = some JobState.waiting := List.mem_iff_getElem?.mp hs
    classical
    exact ⟨_, .begin (Nat.find_spec hexists) (fun k hk => Nat.find_min hexists hk) (by omega)⟩

theorem map_done_filterMap {l : List JobState} (h : ∀ s ∈ l, ∃ file, s = .done file) :
    (l.filterMap JobState.file?).map .done = l := by
  induction l with
  | nil => rfl
  | cons s l ih =>
    obtain ⟨⟨file, rfl⟩, hrest⟩ := List.forall_mem_cons.mp h
    simp only [List.filterMap_cons, JobState.file?, List.map_cons, ih hrest]

/-- When all is over each job has a result, in the order of the jobs. -/
theorem Sound.files (hsound : Sound o allowed fact jobs g) (hover : g.isOver = true) :
    g.files.length = jobs.length ∧
      ∀ (i : Nat) (j : Job), jobs[i]? = some j → ∃ file, g.files[i]? = some file ∧ j.Result o allowed file := by
  have hdone : ∀ s ∈ g.states, ∃ file, s = .done file := by
    intro s hs
    obtain ⟨i, hi⟩ := List.mem_iff_getElem?.mp hs
    have hlt : i < jobs.length := hsound.length ▸ (List.getElem?_eq_some_iff.mp hi).1
    have hfits := hsound.fits i _ s (List.getElem?_eq_getElem hlt) hi
    have hends : s.isOver = true := List.all_eq_true.mp hover s hs
    cases s with
    | done file => exact ⟨file, rfl⟩
    | skipped => exact hfits.elim
    | waiting | begun | missed _ _ | worked _ _ _ => cases hends
  have hstates : g.files.map .done = g.states := map_done_filterMap hdone
  have hlength : g.files.length = jobs.length := by rw [← hsound.length, ← hstates, List.length_map]
  refine ⟨hlength, fun i j hj => ?_⟩
  have hlt : i < g.files.length := hlength ▸ (List.getElem?_eq_some_iff.mp hj).1
  have hstate : g.states[i]? = some (.done g.files[i]) := by
    rw [← hstates, List.getElem?_map, List.getElem?_eq_getElem hlt]
    rfl
  exact ⟨_, List.getElem?_eq_getElem hlt, hsound.fits i j _ hj hstate⟩

end Group

/-! ## One job after the other -/

namespace Job

variable (o : CompileOptions) (cache : Option Cache) (j : Job)

/-- The next step when nothing is called off. -/
def next (p : JobState × Disk) : JobState × Disk := j.advance o cache false p.1 p.2

variable {o cache j}

/-- What is put in after a look that found nothing is what a stored run puts in. -/
theorem keep_runAndPut {c : Cache} {d : Disk} {f : SourceFile} (before : List Happening) :
    j.keep o (some c) d f before (f.run o j.bag) =
      (.done (j.compiled o f (SourceFile.runAndPut c.store d f o j.bag before).1),
        (SourceFile.runAndPut c.store d f o j.bag before).2) := by
  unfold keep SourceFile.runAndPut SourceFile.entry
  dsimp only
  split
  · generalize c.store.put d _ _ = answer
    cases answer <;> rfl
  · rfl

/-- Three steps take a job from its beginning to what it compiles to by itself. -/
theorem next_next_next (hlive : o.cancelled = false) (parent : Nat) (d : Disk) (t : Tracer) :
    j.next o cache (j.next o cache (j.next o cache (.begun, d))) =
      (.done (j.compile o cache parent d t).1, (j.compile o cache parent d t).2.1) := by
  have hrun : ∀ f before, j.next o cache (.missed f before, d) = (.worked f before (f.run o j.bag), d) := by
    intro f before
    simp only [next, advance]
    rw [← CompileOptions.live, CompileOptions.live_eq hlive]
  cases hfile : j.file with
  | none => simp [next, advance, compile, hfile, unloaded]
  | some f =>
    have hbegun : j.next o cache (.begun, d) = (j.look o cache d f, d) := by simp [next, advance, hfile]
    rw [hbegun]
    simp only [compile, hfile]
    cases cache with
    | none =>
      simp only [look, hrun]
      rfl
    | some c =>
      simp only [SourceFile.runOn, SourceFile.runStored_eq, look]
      cases hget : c.store.get d (o.emit.digest f.hash) with
      | error message =>
        simp only [hrun]
        exact keep_runAndPut [.cacheUnreadable message]
      | ok kept =>
        cases kept with
        | none =>
          simp only [hrun]
          exact keep_runAndPut []
        | some output => rfl

end Job

namespace Group

variable {o : CompileOptions} {cache : Option Cache} {slots : Nat} {jobs : List Job} {g g' g'' : Group}

theorem Steps.trans {n m : Nat} (h : Steps o cache slots jobs g n g') (h' : Steps o cache slots jobs g' m g'') :
    Steps o cache slots jobs g (n + m) g'' := by
  induction h' with
  | refl => exact h
  | step _ last ih => exact .step ih last

/-- A group whose first jobs are done. -/
def partway (d : Disk) (done : List CompiledFile) (rest : List JobState) : Group :=
  { disk := d, states := done.map JobState.done ++ rest }

section Partway

variable (d : Disk) (done : List CompiledFile) (s s' : JobState) (rest : List JobState)

theorem partway_getElem? : (partway d done (s :: rest)).states[done.length]? = some s := by
  rw [partway, List.getElem?_append_right (by simp)]
  simp

theorem partway_set : (partway d done (s :: rest)).states.set done.length s' = (partway d done (s' :: rest)).states := by
  rw [partway, List.set_append_right _ _ (by simp)]
  simp [partway]

theorem partway_first {k : Nat} (h : k < done.length) : (partway d done rest).states[k]? ≠ some .waiting := by
  rw [partway, List.getElem?_append_left (by simpa using h), List.getElem?_map]
  cases done[k]? <;> simp

theorem partway_busy (jobs : List Job) : (partway d done (jobs.map fun _ => .waiting)).busy = 0 := by
  rw [busy, List.countP_eq_zero]
  intro s hs
  rcases List.mem_append.mp hs with hs | hs
  · obtain ⟨file, -, rfl⟩ := List.mem_map.mp hs
    exact Bool.false_ne_true
  · obtain ⟨job, -, rfl⟩ := List.mem_map.mp hs
    exact Bool.false_ne_true

theorem partway_isOver : (partway d done []).isOver = true := by simp [isOver, partway, JobState.isOver]

theorem partway_files : (partway d done []).files = done := by
  simp [files, partway, List.filterMap_map, Function.comp_def, JobState.file?]

end Partway

/-- The first job that is not done may go on, unless it waits. -/
theorem steps_next (hlive : o.cancelled = false) {done : List CompiledFile} {rest : List JobState} {j : Job}
    (hjob : jobs[done.length]? = some j) (p : JobState × Disk) :
    ∃ n, Steps o cache slots jobs (partway p.2 done (p.1 :: rest)) n
      (partway (j.next o cache p).2 done ((j.next o cache p).1 :: rest)) := by
  obtain ⟨s, d⟩ := p
  cases hbusy : s.isBusy with
  | false =>
    have hsame : j.next o cache (s, d) = (s, d) := by
      cases s with
      | waiting | done _ | skipped => rfl
      | begun | missed _ _ | worked _ _ _ => cases hbusy
    rw [hsame]
    exact ⟨0, .refl⟩
  | true =>
    have hstep : Step o cache slots jobs (partway d done (s :: rest)) _ :=
      .advance hjob (partway_getElem? d done s rest) hbusy
    have hon : isOff o (partway d done (s :: rest)) = false := by simp [isOff, hlive, partway]
    rw [hon, moved, partway_set] at hstep
    exact ⟨1, .step .refl hstep⟩

/-- The first job that is not done can be worked on alone, and comes to what it compiles to. -/
theorem steps_compile (hlive : o.cancelled = false) {done : List CompiledFile} {rest : List JobState} {j : Job}
    (hjob : jobs[done.length]? = some j) (parent : Nat) (d : Disk) (t : Tracer) :
    ∃ n, Steps o cache slots jobs (partway d done (.begun :: rest)) n
      (partway (j.compile o cache parent d t).2.1 (done ++ [(j.compile o cache parent d t).1]) rest) := by
  have hnext : ∀ p, ∃ n, Steps o cache slots jobs (partway p.2 done (p.1 :: rest)) n
      (partway (j.next o cache p).2 done ((j.next o cache p).1 :: rest)) := steps_next hlive hjob
  obtain ⟨n₁, h₁⟩ := hnext (.begun, d)
  obtain ⟨n₂, h₂⟩ := hnext (j.next o cache (.begun, d))
  obtain ⟨n₃, h₃⟩ := hnext (j.next o cache (j.next o cache (.begun, d)))
  rw [Job.next_next_next hlive parent d t] at h₃
  have hend : ∀ d' file, partway d' (done ++ [file]) rest = partway d' done (.done file :: rest) := by simp [partway]
  rw [hend]
  exact ⟨_, (h₁.trans h₂).trans h₃⟩

/-- Jobs can be compiled one after the other. -/
theorem steps_compileAll (hlive : o.cancelled = false) (hroom : jobs ≠ [] → 0 < slots) (parent : Nat) (d : Disk)
    (t : Tracer) (done : List CompiledFile) {before rest : List Job} (hjobs : jobs = before ++ rest)
    (hlength : before.length = done.length) :
    ∃ n, Steps o cache slots jobs (partway d done (rest.map fun _ => .waiting)) n
      (partway (Job.compileAll o cache parent d t rest).2.1 (done ++ (Job.compileAll o cache parent d t rest).1) []) := by
  induction rest generalizing d t done before with
  | nil =>
    rw [Job.compileAll, List.append_nil]
    exact ⟨0, .refl⟩
  | cons j rest ih =>
    have hjob : jobs[done.length]? = some j := by
      rw [hjobs, ← hlength, List.getElem?_append_right (Nat.le_refl _), Nat.sub_self]
      rfl
    have hfree := hroom (by simp [hjobs])
    have hbusy := partway_busy d done (j :: rest)
    rw [List.map_cons] at hbusy ⊢
    have hbegin : Step o cache slots jobs (partway d done (.waiting :: rest.map fun _ => .waiting)) _ :=
      .begin (partway_getElem? d done _ _) (fun k hk => partway_first d done _ hk) (by omega)
    rw [partway_set] at hbegin
    obtain ⟨n, hfirst⟩ := steps_compile hlive hjob parent d t
    have hsplit : jobs = (before ++ [j]) ++ rest := by simpa using hjobs
    obtain ⟨m, hrest⟩ := ih (j.compile o cache parent d t).2.1 (j.compile o cache parent d t).2.2
      (done ++ [(j.compile o cache parent d t).1]) hsplit (by simpa using hlength)
    rw [List.append_assoc] at hrest
    exact ⟨_, ((Steps.step .refl hbegin).trans hfirst).trans hrest⟩

end Group

end Bracescript
