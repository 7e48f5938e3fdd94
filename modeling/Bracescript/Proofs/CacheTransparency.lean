import Bracescript.Proofs.CacheFolder
import Bracescript.Proofs.EntryPoints

/-!
# The cache is transparent

Whatever is compiled with a cache and dropped from it, in any order, every entry holds what its content comes to under its
options. So a compilation with the cache answers as one without it.
-/

namespace Bracescript

open FileSet (normalized keptPath)

/-! ## Compiling and the cache -/

/-- No two of these texts have the same digest. -/
def Sha256.NoCollision (texts : List Bytes) : Prop := ∀ x ∈ texts, ∀ y ∈ texts, digest x = digest y → x = y

namespace SourceFile

variable {f : SourceFile} {output : Bytes}

theorem compile_of_compileText {o : EmitOptions} (h : f.compileText o = .ok output) (bag : Bag) :
    (f.compile o bag).output = output ∧ (f.compile o bag).fault = none ∧ (f.compile o bag).bag = bag ∧
      (f.compile o bag).program.isSome = true := by
  unfold compileText parse at h
  unfold compile parsePhases
  cases htokens : f.tokenize with
  | error e => simp [htokens] at h
  | ok tokens =>
    cases hparse : f.parseTokens tokens with
    | error fault => simp [htokens, hparse] at h
    | ok p =>
      cases hemit : p.emit o with
      | error u => simp [htokens, hparse, hemit] at h
      | ok text => simp_all

theorem compileText_of_compile {o : EmitOptions} {bag : Bag} (hprogram : (f.compile o bag).program.isSome = true)
    (hfault : (f.compile o bag).fault = none) : f.compileText o = .ok (f.compile o bag).output := by
  unfold compile parsePhases at hprogram hfault ⊢
  unfold compileText parse
  cases htokens : f.tokenize with
  | error e => simp [htokens] at hprogram
  | ok tokens =>
    cases hparse : f.parseTokens tokens with
    | error fault => cases fault <;> simp [htokens, hparse] at hprogram
    | ok p =>
      cases hemit : p.emit o with
      | error u => simp [htokens, hparse, hemit] at hfault
      | ok text => simp [hparse, hemit]

theorem compileText_ne_nil {o : EmitOptions} (h : f.compileText o = .ok output) : output ≠ [] := by
  unfold compileText at h
  split at h
  · cases h
  · split at h
    · cases h
    · rename_i hemit
      cases h
      exact Program.emit_ne_nil hemit

theorem compileText_eq_ok_congr {f' : SourceFile} (hcontent : f'.content = f.content) {o : EmitOptions}
    (h : f.compileText o = .ok output) : f'.compileText o = .ok output := by
  have hcarried := compileText_carried f f' hcontent o
  rw [h] at hcarried
  generalize f'.compileText o = answer at hcarried ⊢
  cases hcarried with
  | ok heq => rw [heq]

theorem run_of_compileText {o : CompileOptions} (hlive : o.cancelled = false) (h : f.compileText o.emit = .ok output)
    (bag : Bag) :
    (f.run o bag).output = output ∧ (f.run o bag).fault = none ∧ (f.run o bag).bag = bag ∧
      (f.run o bag).program.isSome = true := by
  simpa [run, hlive] using compile_of_compileText h bag

/-- A run that was called off has no program. -/
theorem compileText_of_run {o : CompileOptions} {bag : Bag} (hprogram : (f.run o bag).program.isSome = true)
    (hfault : (f.run o bag).fault = none) : f.compileText o.emit = .ok (f.run o bag).output := by
  unfold run at hprogram hfault ⊢
  split
  · rename_i hcancelled
    simp [hcancelled] at hprogram
  · rename_i hlive
    simp only [hlive, Bool.false_eq_true, if_false] at hprogram hfault
    exact compileText_of_compile hprogram hfault

section Stores

variable {σ : Type} (store : CacheStore σ) (s : σ) (f : SourceFile) (o : CompileOptions) (bag : Bag)

/-- The entry that a run puts in. -/
def entry : CacheEntry := { path := f.path, compiler := Release.current.version, output := (f.run o bag).output }

/-- A run behind some happenings, whose output is put in if all goes well. -/
def runAndPut (before : List Happening) : FileRun × σ :=
  let r := f.run o bag
  if r.program.isSome && r.fault.isNone then
    match store.put s (o.emit.digest f.hash) (f.entry o bag) with
    | .ok s => ({ r with happenings := before ++ r.happenings }, s)
    | .error message => ({ r with happenings := before ++ r.happenings ++ [.cacheUnwritable message] }, s)
  else ({ r with happenings := before ++ r.happenings }, s)

theorem runStored_eq :
    f.runStored store s o bag =
      match store.get s (o.emit.digest f.hash) with
      | .ok (some output) =>
        ({ output, bag, cached := true, happenings := [.cacheHit (o.emit.digest f.hash)] }, s)
      | .ok none => runAndPut store s f o bag []
      | .error message => runAndPut store s f o bag [.cacheUnreadable message] := rfl

theorem runStored_hit {output : Bytes} (h : store.get s (o.emit.digest f.hash) = .ok (some output)) :
    f.runStored store s o bag =
      ({ output, bag, cached := true, happenings := [.cacheHit (o.emit.digest f.hash)] }, s) := by
  rw [runStored_eq, h]

/-- What was compiled and where it was put. -/
structure Fresh (r : FileRun × σ) : Prop where
  run : ∃ happenings, r.1 = { f.run o bag with happenings }
  put : r.2 = s ∨ (f.run o bag).program.isSome = true ∧ (f.run o bag).fault = none ∧
    store.put s (o.emit.digest f.hash) (f.entry o bag) = .ok r.2

theorem runAndPut_fresh (before : List Happening) : Fresh store s f o bag (runAndPut store s f o bag before) := by
  unfold runAndPut
  dsimp only
  split
  · rename_i hwell
    obtain ⟨hprogram, hfault⟩ : (f.run o bag).program.isSome = true ∧ (f.run o bag).fault = none := by
      simpa using hwell
    split
    · rename_i s' hput
      exact ⟨⟨_, rfl⟩, .inr ⟨hprogram, hfault, hput⟩⟩
    · exact ⟨⟨_, rfl⟩, .inl rfl⟩
  · exact ⟨⟨_, rfl⟩, .inl rfl⟩

/-- What is kept is taken, and everything else is compiled. -/
theorem runStored_cases :
    (∃ output, store.get s (o.emit.digest f.hash) = .ok (some output) ∧ f.runStored store s o bag =
      ({ output, bag, cached := true, happenings := [.cacheHit (o.emit.digest f.hash)] }, s)) ∨
    Fresh store s f o bag (f.runStored store s o bag) := by
  rw [runStored_eq]
  cases store.get s (o.emit.digest f.hash) with
  | error message => exact .inr (runAndPut_fresh ..)
  | ok kept =>
    cases kept with
    | none => exact .inr (runAndPut_fresh ..)
    | some output => exact .inl ⟨output, rfl, rfl⟩

theorem runStored_put {s' : σ} (hget : ∀ output, store.get s (o.emit.digest f.hash) ≠ .ok (some output))
    (hprogram : (f.run o bag).program.isSome = true) (hfault : (f.run o bag).fault = none)
    (hput : store.put s (o.emit.digest f.hash) (f.entry o bag) = .ok s') : (f.runStored store s o bag).2 = s' := by
  have hwell : ((f.run o bag).program.isSome && (f.run o bag).fault.isNone) = true := by simp [hprogram, hfault]
  rw [runStored_eq]
  cases hkept : store.get s (o.emit.digest f.hash) with
  | error message => simp only [runAndPut, hwell, if_true, hput]
  | ok kept =>
    cases kept with
    | none => simp only [runAndPut, hwell, if_true, hput]
    | some output => exact absurd hkept (hget output)

end Stores

end SourceFile

theorem FileSet.load_cases (d : Disk) (path : Bytes) :
    (∃ fault, load {} d path = .error fault) ∨
    ∃ raw id set f, d.read path = .ok raw ∧ load {} d path = .ok (id, set) ∧ set.get? id = some f ∧
      f.content = normalized raw ∧ f.path = keptPath path := by
  cases hread : d.read path with
  | error fault =>
    rw [load, hread]
    exact .inl ⟨fault, rfl⟩
  | ok raw =>
    have hget := get?_add {} (by decide) path (normalized raw)
    rw [load, hread]
    exact .inr ⟨raw, _, _, _, rfl, rfl, hget _, rfl, rfl⟩

theorem compilePath_of_load {o : CompileOptions} {d : Disk} {path : Bytes} {id : UInt32} {set : FileSet} {f : SourceFile}
    (hload : FileSet.load {} d path = .ok (id, set)) (hget : set.get? id = some f) (cache : Option Cache) (t : Tracer)
    (parent : Nat) :
    (compilePath o cache d t parent path).1 = .ok (.ofRun o set f (f.runOn d cache o (.new o.limit)).1) ∧
      (compilePath o cache d t parent path).2.1 = (f.runOn d cache o (.new o.limit)).2 := by
  simp only [compilePath, hload, hget, Option.getD_some]
  exact ⟨trivial, trivial⟩

/-! ## Uses of a cache -/

namespace Cache

/-- The texts that a call hashes, the content of its file and the text behind its key, are among `texts`. -/
def Hashes (texts : List Bytes) (d : Disk) (o : EmitOptions) (path : Bytes) : Prop :=
  ∀ raw, d.read path = .ok raw →
    normalized raw ∈ texts ∧ o.keyText (Sha256.digest (normalized raw)) ∈ texts

/-- The entry that a call puts in can be unpacked. -/
def Unpacks (d : Disk) (o : EmitOptions) (path : Bytes) : Prop :=
  ∀ raw output, d.read path = .ok raw → (SourceFile.ofInput (normalized raw)).compileText o = .ok output →
    ∀ e : CacheEntry, e = ⟨CacheEntry.currentSchema, keptPath path, Release.current.version, output⟩ →
      CacheEntry.decode e.encode = .ok e

/-- Disks that come about when a cache, empty at first, is used: files are compiled and all entries dropped in any order,
and anything but the entries may be changed in between. -/
inductive Used (c : Cache) (texts : List Bytes) : Disk → Prop
  | start {d : Disk} (tree : d.IsTree) (tidy : c.IsTidy d) (empty : ∀ key output, c.get d key ≠ .ok (some output)) :
    Used c texts d
  | compile {d : Disk} (used : Used c texts d) (o : CompileOptions) (t : Tracer) (parent : Nat) (path : Bytes)
    (hashes : Hashes texts d o.emit path) (unpacks : Unpacks d o.emit path) :
    Used c texts (compilePath o (some c) d t parent path).2.1
  -- a cache is opened at a joined path, and the name that its directory is moved to is made up to be free
  | dropAll {d d' : Disk} {home name : Bytes} (used : Used c texts d) (dir : c.dir = Path.join [home, name])
    (isChild : Path.IsChild name) (free : ∀ e, d.look false c.aside ≠ .ok e) (dropped : c.dropAll d = .ok d') :
    Used c texts d'
  -- nobody else writes into the cache
  | elsewhere {d d' : Disk} (used : Used c texts d) (tree : d'.IsTree) (tidy : c.IsTidy d')
    (kept : ∀ key output, c.get d' key = .ok (some output) → c.get d key = .ok (some output)) : Used c texts d'

/-- An output under the key of a content and options that it comes from. -/
def IsGenuine (texts : List Bytes) (key : Digest) (output : Bytes) : Prop :=
  ∃ content o, content ∈ texts ∧ EmitOptions.keyText o (Sha256.digest content) ∈ texts ∧
    key = o.digest (Sha256.digest content) ∧ (SourceFile.ofInput content).compileText o = .ok output

/-- What is true of every disk on which a cache is used. -/
structure Sound (c : Cache) (texts : List Bytes) (d : Disk) : Prop where
  tree : d.IsTree
  tidy : c.IsTidy d
  genuine : ∀ key output, c.get d key = .ok (some output) → IsGenuine texts key output

variable {c : Cache} {texts : List Bytes} {d : Disk}

theorem store_put_eq_ok {d' : Disk} {key : Digest} {e : CacheEntry} (h : c.store.put d key e = .ok d') :
    c.put d key e = .ok d' := by
  simp only [store] at h
  cases hput : c.put d key e with
  | error fault => simp [hput, Except.mapError] at h
  | ok d₁ => simpa [hput, Except.mapError] using h

theorem Sound.stored {d' : Disk} {key : Digest} {e : CacheEntry} (h : c.Sound texts d) (hstored : Stored c key e.encode d d')
    (hunpacks : CacheEntry.decode e.encode = .ok e) (hgenuine : IsGenuine texts key e.output) : c.Sound texts d' := by
  refine ⟨hstored.tree, hstored.tidy, fun key' output hget => ?_⟩
  rcases hstored.get hunpacks hget with ⟨rfl, rfl⟩ | hbefore
  · exact hgenuine
  · exact h.genuine key' output hbefore

theorem Sound.compile (h : c.Sound texts d) (o : CompileOptions) (t : Tracer) (parent : Nat) {path : Bytes}
    (hashes : Hashes texts d o.emit path) (unpacks : Unpacks d o.emit path) :
    c.Sound texts (compilePath o (some c) d t parent path).2.1 := by
  rcases FileSet.load_cases d path with ⟨fault, hload⟩ | ⟨raw, id, set, f, hread, hload, hget, hcontent, hpath⟩
  · simpa only [compilePath, hload] using h
  rw [(compilePath_of_load hload hget (some c) t parent).2, SourceFile.runOn]
  rcases SourceFile.runStored_cases c.store d f o (.new o.limit) with ⟨output, -, hrun⟩ | hfresh
  · rw [hrun]
    exact h
  rcases hfresh.put with hsame | ⟨hprogram, hfault, hput⟩
  · rw [hsame]
    exact h
  have htext := SourceFile.compileText_of_run hprogram hfault
  have hinput : (SourceFile.ofInput (normalized raw)).compileText o.emit = .ok (f.entry o (.new o.limit)).output :=
    SourceFile.compileText_eq_ok_congr hcontent.symm htext
  have hstored := put_stored h.tree h.tidy (store_put_eq_ok hput)
  obtain ⟨hin, hkey⟩ := hashes raw hread
  refine h.stored hstored (unpacks raw _ hread hinput _ ?_) ⟨normalized raw, o.emit, hin, hkey, ?_, hinput⟩
  · simp [SourceFile.entry, hpath]
  · rw [SourceFile.hash, hcontent]

theorem Sound.dropAll {d' : Disk} {home name : Bytes} (h : c.Sound texts d) (hdir : c.dir = Path.join [home, name])
    (hname : Path.IsChild name) (hfree : ∀ e, d.look false c.aside ≠ .ok e) (hdropped : c.dropAll d = .ok d') :
    c.Sound texts d' := by
  have hsettled := Path.settled_elements home
  rw [Path.join_names home (by simp) (by simpa using hname)] at hdir
  rcases dropAll_frame hsettled hname hdir h.tree hfree hdropped with rfl | ⟨htree, htidy, hnone⟩
  · exact h
  · refine ⟨htree, htidy, fun key output hget => ?_⟩
    obtain ⟨content, e, hholds, -⟩ := get_eq_some.mp hget
    exact absurd hholds (hnone _ content (isChild_entryName key))

theorem Used.sound (h : c.Used texts d) : c.Sound texts d := by
  induction h with
  | start tree tidy empty => exact ⟨tree, tidy, fun key output hget => absurd hget (empty key output)⟩
  | compile _ o t parent path hashes unpacks ih => exact ih.compile o t parent hashes unpacks
  | dropAll _ dir isChild free dropped ih => exact ih.dropAll dir isChild free dropped
  | elsewhere _ tree tidy kept ih => exact ⟨tree, tidy, fun key output hget => ih.genuine key output (kept key output hget)⟩

/-! ## Answers with a cache -/

/-- What is got for a file is what the file comes to. -/
theorem Sound.compileText_of_get {f : SourceFile} {o : EmitOptions} {output : Bytes} (h : c.Sound texts d)
    (hdistinct : Sha256.NoCollision texts) (hcontent : f.content ∈ texts) (hkey : o.keyText f.hash ∈ texts)
    (hget : c.get d (o.digest f.hash) = .ok (some output)) : f.compileText o = .ok output := by
  obtain ⟨content, o', hcontent', hkey', hdigest, htext⟩ := h.genuine _ output hget
  have hlength : f.hash.length = (Sha256.digest content).length := by
    rw [SourceFile.hash, Sha256.length_digest, Sha256.length_digest]
  rw [EmitOptions.digest_eq, EmitOptions.digest_eq] at hdigest
  obtain ⟨hhash, rfl⟩ := EmitOptions.keyText_injective hlength (hdistinct _ hkey _ hkey' hdigest)
  have hsame : f.content = (SourceFile.ofInput content).content := hdistinct _ hcontent _ hcontent' hhash
  exact SourceFile.compileText_eq_ok_congr hsame htext

end Cache

/-- Two answers that differ at most in how the output came about and in what was measured. -/
inductive SameAnswer : Except DiskFault CompileResult → Except DiskFault CompileResult → Prop
  | error (fault : DiskFault) : SameAnswer (.error fault) (.error fault)
  | ok {r r' : CompileResult} (file : r'.file = r.file) (output : r'.run.output = r.run.output) (fault : r'.fault = r.fault)
    (findings : r'.run.bag = r.run.bag) (bag : r.timing = none → r'.bag = r.bag) : SameAnswer (.ok r) (.ok r')

theorem sameAnswer_ofRun {o o' : CompileOptions} (htimings : o'.timings = o.timings) (set : FileSet) (f : SourceFile)
    {r r' : FileRun} (houtput : r'.output = r.output) (hfault : r'.fault = r.fault) (hbag : r'.bag = r.bag) :
    SameAnswer (.ok (.ofRun o set f r)) (.ok (.ofRun o' set f r')) := by
  refine .ok rfl houtput hfault hbag fun hnone => ?_
  cases htimed : o.timings with
  | true => simp [CompileResult.ofRun, htimed] at hnone
  | false => simp [CompileResult.ofRun, htimings, htimed, hbag]

theorem SourceFile.cached_run (f : SourceFile) (o : CompileOptions) (bag : Bag) : (f.run o bag).cached = false := by
  unfold run
  split <;> rfl

/-- The options of a call that nobody calls off. -/
def CompileOptions.live (o : CompileOptions) : CompileOptions := { o with cancelled := false }

theorem CompileOptions.live_eq {o : CompileOptions} (h : o.cancelled = false) : o.live = o := by
  cases o
  simp only at h
  rw [live, h]

/-- A call is answered as without a cache, or what it was served with is what the file compiles to. -/
theorem answer_cases {c : Cache} {texts : List Bytes} {d : Disk} (hdistinct : Sha256.NoCollision texts)
    (hused : c.Used texts d) {o : CompileOptions} {path : Bytes} (hhashes : Cache.Hashes texts d o.emit path) (t : Tracer)
    (parent : Nat) :
    SameAnswer (compilePath o none d t parent path).1 (compilePath o (some c) d t parent path).1 ∧
      (∀ r, (compilePath o (some c) d t parent path).1 = .ok r → r.run.cached = false) ∨
    SameAnswer (compilePath o.live none d t parent path).1 (compilePath o (some c) d t parent path).1 ∧
      ∃ r, (compilePath o (some c) d t parent path).1 = .ok r ∧ r.run.cached = true ∧ r.fault = none ∧
        r.run.bag = .new o.limit ∧ r.run.output ≠ [] := by
  rcases FileSet.load_cases d path with ⟨fault, hload⟩ | ⟨raw, id, set, f, hread, hload, hget, hcontent, -⟩
  · simp only [compilePath, hload]
    exact .inl ⟨.error fault, fun r hr => by cases hr⟩
  obtain ⟨hin, hkey⟩ := hhashes raw hread
  rw [← hcontent] at hin hkey
  have hplain := fun o' : CompileOptions => (compilePath_of_load (o := o') hload hget none t parent).1
  rw [hplain, hplain, (compilePath_of_load hload hget (some c) t parent).1]
  dsimp only [SourceFile.runOn]
  rcases SourceFile.runStored_cases c.store d f o (.new o.limit) with ⟨output, hkept, hrun⟩ | hfresh
  · have htext := hused.sound.compileText_of_get hdistinct hin hkey hkept
    obtain ⟨houtput, hfault, hbag, -⟩ := SourceFile.run_of_compileText (o := o.live) rfl htext (.new o.limit)
    rw [hrun]
    refine .inr ⟨sameAnswer_ofRun rfl set f houtput.symm hfault.symm hbag.symm, _, rfl, rfl, rfl, rfl, ?_⟩
    exact SourceFile.compileText_ne_nil htext
  · obtain ⟨happenings, hrun⟩ := hfresh.run
    rw [hrun]
    refine .inl ⟨sameAnswer_ofRun rfl set f rfl rfl rfl, fun r hr => ?_⟩
    cases hr
    exact f.cached_run o (.new o.limit)

/-! ## A cache at work -/

namespace Cache

variable {c : Cache} {d : Disk}

theorem unpacks_of_short {o : EmitOptions} {path : Bytes} (hpath : (keptPath path).length < Nat.pow 2 32)
    (houtput : ∀ raw output, d.read path = .ok raw → (SourceFile.ofInput (normalized raw)).compileText o = .ok output →
      output.length < Nat.pow 2 32) : Unpacks d o path := by
  rintro raw output hread htext e rfl
  have hschema : CacheEntry.currentSchema < 65536 := by decide
  have hversion : Release.current.version.length < Nat.pow 2 32 := by decide
  exact CacheEntry.decode_encode _ hschema hpath hversion (houtput raw output hread htext)

/-- A compilation that goes well leaves its output in a cache that has a folder. -/
theorem stored_of_compile {o : CompileOptions} {path raw output : Bytes} {q : Place} (htree : d.IsTree) (htidy : c.IsTidy d)
    (hnone : ∀ kept, c.get d (o.emit.digest (Sha256.digest (normalized raw))) ≠ .ok (some kept))
    (hq : d.place true c.folder = .ok q) (hfolder : d.get? q = some .folder) (hlength : c.folder.length + 67 < Disk.longestPath)
    (hlive : o.cancelled = false) (hread : d.read path = .ok raw)
    (htext : (SourceFile.ofInput (normalized raw)).compileText o.emit = .ok output) (t : Tracer) (parent : Nat) :
    Stored c (o.emit.digest (Sha256.digest (normalized raw)))
      (CacheEntry.encode ⟨CacheEntry.currentSchema, keptPath path, Release.current.version, output⟩) d
      (compilePath o (some c) d t parent path).2.1 := by
  rcases FileSet.load_cases d path with ⟨fault, hload⟩ | ⟨raw', id, set, f, hread', hload, hget, hcontent, hpath⟩
  · rw [FileSet.load, hread] at hload
    cases hload
  obtain rfl : raw = raw' := by
    rw [hread] at hread'
    cases hread'
    rfl
  have hhash : f.hash = Sha256.digest (normalized raw) := by rw [SourceFile.hash, hcontent]
  have hlengthKey : (o.emit.digest f.hash).length = 32 := Sha256.length_digest _
  obtain ⟨houtput, hfault, -, hprogram⟩ :=
    SourceFile.run_of_compileText hlive (SourceFile.compileText_eq_ok_congr hcontent htext) (.new o.limit)
  have hfits := (place_folder.mp hq).1
  have hdraft : draftName.length ≤ 67 := by decide
  obtain ⟨d', hput⟩ := exists_put htidy hq hfolder (fits_pathOf hfits (by decide) (by omega))
    (fits_pathOf hfits (zero_notin_entryName _) (by rw [length_entryName, hlengthKey]; omega)) (steps_entryName hlengthKey)
    (f.entry o (.new o.limit))
  rw [← hhash] at hnone ⊢
  have hstore : c.store.put d (o.emit.digest f.hash) (f.entry o (.new o.limit)) = .ok d' := by
    simp [store, hput, Except.mapError]
  rw [(compilePath_of_load hload hget (some c) t parent).2, SourceFile.runOn,
    SourceFile.runStored_put c.store d f o _ hnone hprogram hfault hstore]
  have hstored := put_stored htree htidy hput
  simpa [SourceFile.entry, hpath, houtput] using hstored

end Cache

theorem compilePath_of_get {c : Cache} {d : Disk} {o : CompileOptions} {path raw output : Bytes} (hread : d.read path = .ok raw)
    (hget : c.get d (o.emit.digest (Sha256.digest (normalized raw))) = .ok (some output)) (t : Tracer) (parent : Nat) :
    ∃ r, (compilePath o (some c) d t parent path).1 = .ok r ∧ r.run.cached = true ∧ r.fault = none := by
  obtain ⟨id, set, f, hload, hfile, hcontent⟩ := FileSet.load_eq_ok {} (by decide) hread
  rw [← hcontent] at hget
  rw [(compilePath_of_load hload hfile (some c) t parent).1, SourceFile.runOn,
    SourceFile.runStored_hit c.store d f o _ hget]
  exact ⟨_, rfl, rfl, rfl⟩

theorem compilePath_of_cancelled {d : Disk} {o : CompileOptions} {path raw : Bytes} (hcancelled : o.cancelled = true)
    (hread : d.read path = .ok raw) (t : Tracer) (parent : Nat) :
    ∃ r, (compilePath o none d t parent path).1 = .ok r ∧ r.fault = some cancelled := by
  obtain ⟨id, set, f, hload, hfile, -⟩ := FileSet.load_eq_ok {} (by decide) hread
  rw [(compilePath_of_load hload hfile none t parent).1, SourceFile.runOn, SourceFile.run, if_pos hcancelled]
  exact ⟨_, rfl, rfl⟩

/-- An empty source beside the folder of a cache. -/
def emptySource : Disk :=
  { entries := [([("a" : Bytes)], .file []), ([("cache" : Bytes)], .folder), ([("cache" : Bytes), ("js" : Bytes)], .folder)] }

def smallCache : Cache := ⟨"cache"⟩

/-- What is hashed when the empty text is compiled. -/
def emptyTexts : List Bytes := [[], EmitOptions.keyText {} (Sha256.digest [])]

theorem emptyTexts_noCollision : Sha256.NoCollision emptyTexts := by
  unfold Sha256.NoCollision
  decide +kernel

theorem emptySource_isTree : emptySource.IsTree := Disk.isTree_of_entries (by decide)

theorem emptySource_below (r : Place) (hr : r ≠ []) : emptySource.get? ([("cache" : Bytes), ("js" : Bytes)] ++ r) = none := by
  obtain ⟨x, r, rfl⟩ := List.exists_cons_of_ne_nil hr
  simp [Disk.get?, emptySource, lookup_cons_eq]

theorem emptySource_folder : emptySource.place true smallCache.folder = .ok [("cache" : Bytes), ("js" : Bytes)] := by
  rw [Cache.place_folder]
  have hcache : emptySource.get? [("cache" : Bytes)] = some .folder := by decide
  have hjs : emptySource.get? [("cache" : Bytes), ("js" : Bytes)] = some .folder := by decide
  have hway : smallCache.way = [("cache" : Bytes), ("js" : Bytes)] := by decide
  have hstart : emptySource.start (Path.isAbsolute smallCache.dir) = [] := by decide
  rw [hway, hstart]
  refine ⟨by decide, .down rfl (by decide) (by simp [hcache]) (.down hcache (by decide) (by simp [hjs]) .done)⟩

theorem emptySource_place : emptySource.place true "a" = .ok [("a" : Bytes)] := by
  rw [Disk.place_eq_ok]
  have hsplit : ("a" : Bytes).split Path.slash = [("a" : Bytes)] := by decide
  have hstart : emptySource.start (Path.isAbsolute "a") = [] := by decide
  have hfile : emptySource.get? [("a" : Bytes)] = some (.file []) := by decide
  rw [hsplit, hstart]
  exact ⟨by decide, by decide, .down rfl (by decide) (by simp [hfile]) .done⟩

theorem emptySource_nothing :
    smallCache.IsTidy emptySource ∧ ∀ key output, smallCache.get emptySource key ≠ .ok (some output) := by
  have hnothing := Cache.nothing_below (c := smallCache) (d := emptySource) fun p hp r hr => by
    rw [emptySource_folder] at hp
    cases hp
    exact emptySource_below r hr
  refine ⟨hnothing.1, fun key output hget => ?_⟩
  obtain ⟨content, e, hholds, -⟩ := Cache.get_eq_some.mp hget
  exact hnothing.2 _ content (Cache.isChild_entryName key) hholds

theorem emptySource_read : emptySource.read "a" = .ok [] := by
  have hlook : emptySource.look true "a" = .ok (.file []) := Disk.look_eq_ok.mpr ⟨_, emptySource_place, by decide⟩
  rw [Disk.read, hlook]

theorem exists_emptyOutput : ∃ output, (SourceFile.ofInput []).compileText {} = .ok output ∧ output.length < 65536 := by
  have htest : ((SourceFile.ofInput []).compileText {}).toOption.any (fun output => decide (output.length < 65536)) = true := by
    decide +kernel
  cases h : (SourceFile.ofInput []).compileText {} with
  | error fault =>
    rw [h] at htest
    cases htest
  | ok output =>
    rw [h] at htest
    exact ⟨output, rfl, by simpa [Except.toOption] using htest⟩

/-- The disk after its source was compiled with the cache. -/
def onceCompiled : Disk := (compilePath { emit := {} } (some smallCache) emptySource {} 0 "a").2.1

theorem emptySource_hashes : Cache.Hashes emptyTexts emptySource {} "a" := by
  intro raw hread
  rw [emptySource_read] at hread
  cases hread
  exact ⟨List.mem_cons_self, List.mem_cons_of_mem _ List.mem_cons_self⟩

theorem onceCompiled_used : smallCache.Used emptyTexts onceCompiled := by
  refine .compile (.start emptySource_isTree emptySource_nothing.1 emptySource_nothing.2) _ _ _ _ emptySource_hashes ?_
  refine Cache.unpacks_of_short (by decide) fun raw output hread htext => ?_
  obtain ⟨output', htext', hlength⟩ := exists_emptyOutput
  rw [emptySource_read] at hread
  cases hread
  have hsame : Except.ok output' = Except.ok output := htext'.symm.trans htext
  cases hsame
  exact Nat.lt_trans hlength (by decide)

theorem onceCompiled_stored :
    ∃ output, smallCache.get onceCompiled (EmitOptions.digest {} (Sha256.digest [])) = .ok (some output) ∧
      onceCompiled.read "a" = .ok [] := by
  obtain ⟨output, htext, hlength⟩ := exists_emptyOutput
  have hstored := Cache.stored_of_compile (o := { emit := {} }) emptySource_isTree emptySource_nothing.1
    (fun kept => emptySource_nothing.2 _ kept) emptySource_folder (by decide) (by decide) rfl emptySource_read htext {} 0
  have hunpacks := CacheEntry.decode_encode ⟨CacheEntry.currentSchema, keptPath "a", Release.current.version, output⟩
    (show CacheEntry.currentSchema < 65536 by decide) (show (keptPath "a").length < Nat.pow 2 32 by decide)
    (show Release.current.version.length < Nat.pow 2 32 by decide) (Nat.lt_trans hlength (by decide))
  refine ⟨output, hstored.served hunpacks rfl, ?_⟩
  have hfolder := Cache.place_folder_congr hstored.ways hstored.cwd emptySource_folder
  have hfile : onceCompiled.get? [("a" : Bytes)] = some (.file []) := by
    refine hstored.outside _ _ (fun q name hq heq => ?_) (by decide)
    rw [hfolder] at hq
    cases hq
    exact absurd (congrArg List.length heq) (by simp)
  have hplace : onceCompiled.place true "a" = .ok [("a" : Bytes)] := hstored.place emptySource_place
  have hlook : onceCompiled.look true "a" = .ok (.file []) := Disk.look_eq_ok.mpr ⟨_, hplace, hfile⟩
  rw [Disk.read, hlook]

theorem onceCompiled_hashes : Cache.Hashes emptyTexts onceCompiled {} "a" := by
  intro raw hread
  obtain ⟨output, -, hread'⟩ := onceCompiled_stored
  rw [hread'] at hread
  cases hread
  exact ⟨List.mem_cons_self, List.mem_cons_of_mem _ List.mem_cons_self⟩

theorem onceCompiled_served {o : CompileOptions} (ho : o.emit = {}) :
    ∃ r, (compilePath o (some smallCache) onceCompiled {} 0 "a").1 = .ok r ∧ r.run.cached = true ∧ r.fault = none := by
  obtain ⟨output, hget, hread⟩ := onceCompiled_stored
  exact compilePath_of_get hread (ho ▸ hget) {} 0

/-! ## With and without a cache -/

end Bracescript
