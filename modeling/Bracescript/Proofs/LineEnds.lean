import Bracescript.Proofs.DiskPlaces
import Bracescript.Proofs.EntryPoints

/-!
# Line ends and byte order marks

A text that was written with line ends of two bytes, or behind a byte order mark, is loaded as the text itself.
-/

namespace Bracescript

namespace FileSet

/-! ## Folding -/

/-- The text with every line feed written as a line end of two bytes. -/
def widened (text : Bytes) : Bytes := Bytes.replace 0x0a [0x0d, 0x0a] text

theorem widened_lineFeed (text : Bytes) : widened (0x0a :: text) = 0x0d :: 0x0a :: widened text := rfl

theorem widened_cons {b : UInt8} (hb : b ≠ 0x0a) (text : Bytes) : widened (b :: text) = b :: widened text := by
  rw [widened, Bytes.replace, List.flatMap_cons, if_neg hb]
  rfl

theorem head_widened_ne (text : Bytes) : (widened text).head? ≠ some 0x0a := by
  cases text with
  | nil => simp [widened, Bytes.replace]
  | cons b text =>
    by_cases hb : b = 0x0a
    · rw [hb, widened_lineFeed]
      simp
    · rw [widened_cons hb]
      simpa using hb

theorem foldLineEnds_cons {b : UInt8} {rest : Bytes} (h : b = 0x0d → rest.head? ≠ some 0x0a) :
    foldLineEnds (b :: rest) = b :: foldLineEnds rest := by
  rw [foldLineEnds.eq_def]
  split
  · rename_i heq
    cases heq
    exact absurd rfl (h rfl)
  · rename_i heq
    cases heq
    rfl
  · rename_i heq
    cases heq

theorem foldLineEnds_widened (text : Bytes) : foldLineEnds (widened text) = text := by
  induction text with
  | nil => rfl
  | cons b text ih =>
    by_cases hb : b = 0x0a
    · rw [hb, widened_lineFeed, foldLineEnds, ih]
    · -- a carriage return of the text stays too: no line feed comes behind it any more
      rw [widened_cons hb, foldLineEnds_cons fun _ => head_widened_ne text, ih]

/-! ## Marks -/

theorem isPrefixOf_widened {start : Bytes} (hstart : ∀ b ∈ start, b ≠ 0x0a ∧ b ≠ 0x0d) (text : Bytes) :
    start.isPrefixOf (widened text) = start.isPrefixOf text := by
  induction start generalizing text with
  | nil => simp
  | cons a start ih =>
    obtain ⟨⟨hfeed, hreturn⟩, hrest⟩ := List.forall_mem_cons.mp hstart
    cases text with
    | nil => rfl
    | cons b text =>
      by_cases hb : b = 0x0a
      · rw [hb, widened_lineFeed, List.isPrefixOf, List.isPrefixOf, beq_false_of_ne hreturn, beq_false_of_ne hfeed]
        rfl
      · rw [widened_cons hb, List.isPrefixOf, List.isPrefixOf, ih hrest]

theorem startsWith_widened (text : Bytes) : (widened text).startsWith byteOrderMark = text.startsWith byteOrderMark :=
  isPrefixOf_widened (by simp [byteOrderMark]) text

theorem startsWith_mark (text : Bytes) : Bytes.startsWith (byteOrderMark ++ text) byteOrderMark = true :=
  List.isPrefixOf_iff_prefix.mpr (List.prefix_append _ _)

/-- What a text is put on the disk as: with line ends of two bytes, and behind a mark if wanted. -/
def written (marked : Bool) (text : Bytes) : Bytes := (if marked then byteOrderMark else []) ++ widened text

theorem addRaw_written (set : FileSet) (path : Bytes) (marked : Bool) {text : Bytes}
    (htext : text.startsWith byteOrderMark = false) :
    ∃ flags, set.addRaw path (written marked text) = set.add path text flags := by
  unfold addRaw
  cases marked with
  | false =>
    have hwritten : written false text = widened text := rfl
    rw [hwritten, startsWith_widened, htext]
    simp only [Bool.false_eq_true, if_false, foldLineEnds_widened]
    exact ⟨_, rfl⟩
  | true =>
    have hwritten : written true text = byteOrderMark ++ widened text := rfl
    rw [hwritten, startsWith_mark]
    simp only [if_true, List.drop_left, foldLineEnds_widened]
    exact ⟨_, rfl⟩

end FileSet

/-! ## Files with other marks -/

/-- The run with its program in another file. -/
def FileRun.rehomed (f : SourceFile) (r : FileRun) : FileRun :=
  { r with program := r.program.map fun p => { p with file := f } }

/-- The compilation with its program in another file. -/
def Compilation.rehomed (f : SourceFile) (c : Compilation) : Compilation :=
  { c with program := c.program.map fun p => { p with file := f } }

/-- Nothing but the marks of two files is read differently: lines, hash, tokens and positions are the same, and so is what
comes of compiling them, with or without a cache. -/
structure SourceFile.ReadAlike (f g : SourceFile) : Prop where
  lineFeeds : f.lineFeeds = g.lineFeeds
  hash : f.hash = g.hash
  tokens : f.tokenize = g.tokenize
  position : ∀ off, f.position off = g.position off
  line : ∀ n, f.line n = g.line n
  compiled : ∀ d cache o bag, f.runOn d cache o bag = ((g.runOn d cache o bag).1.rehomed f, (g.runOn d cache o bag).2)

namespace SourceFile

variable {f g : SourceFile}

section Alike

variable (hid : f.id = g.id) (hcontent : f.content = g.content)

include hid hcontent

theorem tokenize_congr : f.tokenize = g.tokenize := by
  rw [tokenize, tokenize, Lexer.start, Lexer.start, Cursor.start, Cursor.start, hid, hcontent]

theorem endToken_congr : f.endToken = g.endToken := by
  obtain ⟨id, path, content, flags⟩ := f
  cases hid
  cases hcontent
  rfl

theorem parseTokens_rehomed (tokens : List Token) :
    f.parseTokens tokens = (g.parseTokens tokens).map fun p => { p with file := f } := by
  rw [parseTokens, parseTokens, parseStatements, parseStatements, endToken_congr hid hcontent]
  split <;> rfl

theorem parse_rehomed : f.parse = g.parse.map fun p => { p with file := f } := by
  rw [parse, parse, tokenize_congr hid hcontent]
  cases g.tokenize with
  | error e => rfl
  | ok tokens => exact parseTokens_rehomed hid hcontent tokens

theorem parsePhases_rehomed (bag : Bag) : f.parsePhases bag = (g.parsePhases bag).rehomed f := by
  rw [parsePhases, parsePhases, tokenize_congr hid hcontent]
  cases g.tokenize with
  | error e => rfl
  | ok tokens =>
    simp only [parseTokens_rehomed hid hcontent tokens]
    cases g.parseTokens tokens with
    | error fault => cases fault <;> rfl
    | ok p => rfl

theorem compile_rehomed (o : EmitOptions) (bag : Bag) : f.compile o bag = (g.compile o bag).rehomed f := by
  rw [compile, compile, parsePhases_rehomed hid hcontent]
  obtain ⟨program, output, bag, phases, fault⟩ := g.parsePhases bag
  cases program with
  | none => rfl
  | some p =>
    -- what is emitted depends on the statements only
    have hemit : Program.emit { p with file := f } o = p.emit o := rfl
    simp only [Compilation.rehomed, Option.map_some, hemit]
    cases p.emit o <;> rfl

theorem run_rehomed (o : CompileOptions) (bag : Bag) : f.run o bag = (g.run o bag).rehomed f := by
  rw [run, run, compile_rehomed hid hcontent]
  split <;> rfl

theorem runStored_rehomed {σ : Type} (store : CacheStore σ) (s : σ) (hpath : f.path = g.path) (o : CompileOptions)
    (bag : Bag) : f.runStored store s o bag = ((g.runStored store s o bag).1.rehomed f, (g.runStored store s o bag).2) := by
  have hhash : f.hash = g.hash := congrArg Sha256.digest hcontent
  have hprogram : ((g.run o bag).rehomed f).program.isSome = (g.run o bag).program.isSome := Option.isSome_map
  have hfault : ((g.run o bag).rehomed f).fault = (g.run o bag).fault := rfl
  have houtput : ((g.run o bag).rehomed f).output = (g.run o bag).output := rfl
  simp only [runStored, hhash, hpath, run_rehomed hid hcontent, hprogram, hfault, houtput]
  cases store.get s (o.emit.digest g.hash) with
  | error message =>
    dsimp only
    split
    · split <;> rfl
    · rfl
  | ok found =>
    cases found with
    | some output => rfl
    | none =>
      dsimp only
      split
      · split <;> rfl
      · rfl

theorem runOn_rehomed (hpath : f.path = g.path) (d : Disk) (cache : Option Cache) (o : CompileOptions) (bag : Bag) :
    f.runOn d cache o bag = ((g.runOn d cache o bag).1.rehomed f, (g.runOn d cache o bag).2) := by
  cases cache with
  | none => exact congrArg (·, d) (run_rehomed hid hcontent o bag)
  | some c => exact runStored_rehomed hid hcontent c.store d hpath o bag

theorem readAlike (hpath : f.path = g.path) : f.ReadAlike g where
  lineFeeds := congrArg (lineFeedsFrom 0) hcontent
  hash := congrArg Sha256.digest hcontent
  tokens := tokenize_congr hid hcontent
  position off := by simp only [position, lineFeeds, hcontent]
  line n := by simp only [line, slice, lineFeeds, hcontent]
  compiled := runOn_rehomed hid hcontent hpath

end Alike

end SourceFile

namespace FileSet

/-- Line ends and a mark in front mean nothing. A text that does not begin with a byte order mark may be on the disk with
line ends of two bytes, and behind one mark: loading it adds a file with just that text, also where the text has carriage
returns of its own, and this file is read like the one that is added for the text itself. -/
theorem lineEnds_mean_nothing (set : FileSet) {d : Disk} {path text : Bytes} (marked : Bool) (flags : FileFlags)
    (htext : text.startsWith byteOrderMark = false) (hread : d.read path = .ok (written marked text)) :
    ∃ (f g : SourceFile) (loaded added : FileSet),
      set.load d path = .ok (f.id, loaded) ∧ loaded.files = set.files.push f ∧ f.content = text ∧
      set.add path text flags = (g.id, added) ∧ added.files = set.files.push g ∧ f.ReadAlike g ∧
      (set.files.size < UInt32.size → loaded.get? f.id = some f ∧ added.get? g.id = some g) := by
  obtain ⟨marks, hraw⟩ := set.addRaw_written path marked htext
  have hload : set.load d path = .ok (set.add path text marks) := by
    rw [load, hread]
    exact congrArg Except.ok hraw
  exact ⟨⟨set.files.size.toUInt32, keptPath path, text, marks⟩, ⟨set.files.size.toUInt32, keptPath path, text, flags⟩, _, _,
    hload, rfl, rfl, rfl, rfl, SourceFile.readAlike rfl rfl rfl,
    fun hfit => ⟨get?_add set hfit path text marks, get?_add set hfit path text flags⟩⟩

/-- A text with a wide line end, a lone carriage return and a plain line end. -/
def mixedEnds : Bytes := "x\r\n\ry\n"

/-- A disk that has this text in a file, behind a mark. -/
def mixedDisk : Disk := { entries := [([("a.uns" : Bytes)], .file (written true mixedEnds))] }

theorem mixedDisk_read : mixedDisk.read "a.uns" = .ok (written true mixedEnds) := by
  have hfile : mixedDisk.get? [("a.uns" : Bytes)] = some (.file (written true mixedEnds)) := by decide
  have hplace : mixedDisk.place true "a.uns" = .ok [("a.uns" : Bytes)] := by
    have hsplit : ("a.uns" : Bytes).split Path.slash = [("a.uns" : Bytes)] := by decide
    have hstart : mixedDisk.start (Path.isAbsolute "a.uns") = [] := by decide
    rw [Disk.place_eq_ok, hsplit, hstart]
    exact ⟨by decide, by decide, .down rfl (by decide) (by simp [hfile]) .done⟩
  have hlook : mixedDisk.look true "a.uns" = .ok (.file (written true mixedEnds)) :=
    Disk.look_eq_ok.mpr ⟨_, hplace, hfile⟩
  rw [Disk.read, hlook]

theorem mixedEnds_loaded :
    mixedEnds.startsWith byteOrderMark = false ∧ mixedDisk.read "a.uns" = .ok (written true mixedEnds) ∧
      ∃ (f g : SourceFile) (loaded added : FileSet), load {} mixedDisk "a.uns" = .ok (f.id, loaded) ∧
        loaded.get? f.id = some f ∧ f.content = mixedEnds ∧ addInMemory {} "a.uns" mixedEnds = (g.id, added) ∧
        added.get? g.id = some g ∧ f.ReadAlike g := by
  have htext : mixedEnds.startsWith byteOrderMark = false := by decide
  obtain ⟨f, g, loaded, added, hload, -, hcontent, hadd, -, halike, hget⟩ :=
    lineEnds_mean_nothing {} true .inMemory htext mixedDisk_read
  obtain ⟨hloaded, hadded⟩ := hget (by decide)
  exact ⟨htext, mixedDisk_read, f, g, loaded, added, hload, hloaded, hcontent, hadd, hadded, halike⟩

end FileSet

end Bracescript
