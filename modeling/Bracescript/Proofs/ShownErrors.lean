import Bracescript.Proofs.ErrorPlace
import Bracescript.Proofs.LineEnds
import Bracescript.Shell.Compile

/-!
# Errors that are shown

What is shown of a text that cannot be parsed: its error, and the timings if they are asked for. Findings are shown in the
order of their places, and the timings have the first place of all.
-/

namespace Bracescript

/-! ## Bags with two findings -/

namespace Bag

theorem toList_force {b : Bag} (hfit : b.size < maxLimit) (d : Diagnostic) : (b.force d).toList = b.toList ++ [d] := by
  by_cases hroom : b.items.size < b.limit
  · have hadd : b.add d = (true, { b with items := b.items.push d }) := if_pos hroom
    rw [force, hadd]
    exact Array.toList_push
  · have hadd : b.add d = (false, b) := if_neg hroom
    have hone : ((new 1).insert d).items = #[d] := Array.toList_inj.mp (toList_insert_new 1 d)
    have hsize : b.items.size < maxLimit := hfit
    -- the limit grows by the one place that is needed
    have hlimit : min (b.items.size + 1) maxLimit - b.items.size = 1 := by omega
    have hgrows : b.limit < b.items.size + 1 := by omega
    rw [force, hadd]
    simp only [merge, size, toList, hone, List.size_toArray, List.length_singleton, if_pos hgrows, hlimit]
    simp

theorem toList_sort (b : Bag) : b.sort.toList = b.toList.mergeSort Diagnostic.le := rfl

theorem mem_sort {b : Bag} {d : Diagnostic} : d ∈ b.sort.toList ↔ d ∈ b.toList := List.mem_mergeSort

theorem toList_sort_pair {b : Bag} {d d' : Diagnostic} (h : b.toList = [d, d']) (hle : d.le d' = false) :
    b.sort.toList = [d', d] := by
  simp [toList_sort, h, List.mergeSort, List.MergeSort.Internal.splitInTwo, hle]

end Bag

/-- A finding that has a place in a text of the first file is behind one that has none. -/
theorem Diagnostic.le_none {d d' : Diagnostic} (hnone : d'.span = .none) (hfile : d.span.file = 0)
    (hstop : d.span.stop ≠ 0) : d.le d' = false := by
  have hfile' : d'.span.file = 0 := congrArg Span.file hnone
  have hstart' : d'.span.start = 0 := congrArg Span.start hnone
  have hstop' : d'.span.stop = 0 := congrArg Span.stop hnone
  simp [le, hfile, hfile', hstart', hstop', hstop]

/-! ## Malformed texts -/

namespace SourceFile

theorem compile_malformed {f : SourceFile} {e : SyntaxError} (h : f.parse = .error (.malformed e)) (o : EmitOptions)
    (limit : Int) :
    (f.compile o (.new limit)).bag.toList = [e.diagnostic] ∧ (f.compile o (.new limit)).fault = none := by
  unfold parse at h
  unfold compile parsePhases
  cases htokenize : f.tokenize with
  | error e' =>
    rw [htokenize] at h
    cases h
    exact ⟨Bag.toList_insert_new limit _, rfl⟩
  | ok tokens =>
    rw [htokenize] at h
    dsimp only at h ⊢
    rw [h]
    exact ⟨Bag.toList_insert_new limit _, rfl⟩

theorem parse_error_congr {f g : SourceFile} {fault : Fault} (hid : f.id = g.id) (hcontent : f.content = g.content)
    (h : g.parse = .error fault) : f.parse = .error fault := by
  rw [parse_rehomed hid hcontent, h]
  rfl

theorem parse_nil {f : SourceFile} (h : f.content = []) : ∃ p, f.parse = .ok p := by
  have htokenize : f.tokenize = .ok [] := tokenize_eq_ok_iff.mpr ⟨[], h ▸ .done, rfl⟩
  have hsequence : f.parseStatements [] = Parse.sequence [] := rfl
  rw [parse, htokenize]
  simp only [parseTokens, hsequence, Parse.sequence]
  exact ⟨_, rfl⟩

theorem parse_error_stop {f : SourceFile} {e : SyntaxError} (hfit : f.content.length < 2 ^ 32)
    (h : f.parse = .error (.malformed e)) : e.span.file = f.id ∧ e.span.stop ≠ 0 := by
  obtain ⟨e', heq, hpoints⟩ := parse_error_points hfit h
  cases heq
  refine ⟨hpoints.file_eq, fun hzero => ?_⟩
  -- an error that ends at the front is empty, so it is at the end of the text, but the empty text has no error
  have hstop : e.span.stop.toNat = 0 := congrArg UInt32.toNat hzero
  have hstart := hpoints.start_le
  have hend := hpoints.at_end (by omega)
  obtain ⟨p, hparse⟩ := parse_nil (f := f) (List.eq_nil_of_length_eq_zero (by omega))
  rw [hparse] at h
  cases h

end SourceFile

/-- What is found in a malformed text: its error and, if they are asked for, the timings. -/
structure CompileResult.Fails (r : CompileResult) (timings : Bool) (e : SyntaxError) : Prop where
  fault_eq : r.fault = none
  found : ∃ timing : Diagnostic, timing.severity = .info ∧ timing.span = .none ∧
    r.bag.toList = e.diagnostic :: if timings then [timing] else []

theorem CompileResult.ofRun_fails {f : SourceFile} {e : SyntaxError} (h : f.parse = .error (.malformed e))
    {o : CompileOptions} (hlive : o.cancelled = false) (set : FileSet) :
    (ofRun o set f (f.run o (.new o.limit))).Fails o.timings e := by
  obtain ⟨hbag, hfault⟩ := SourceFile.compile_malformed h o.emit o.limit
  have hrun : (f.run o (.new o.limit)).toCompilation = f.compile o.emit (.new o.limit) := by
    rw [SourceFile.run, hlive]
    rfl
  have hroom : (f.compile o.emit (.new o.limit)).bag.size < Bag.maxLimit := by
    have hsize : (f.compile o.emit (.new o.limit)).bag.size = 1 := congrArg List.length hbag
    rw [hsize]
    decide
  refine ⟨(congrArg Compilation.fault hrun).trans hfault, Phase.timingDiagnostic f.path (f.run o (.new o.limit)).measured, rfl, rfl, ?_⟩
  simp only [ofRun, hrun]
  split
  · rw [Bag.toList_force hroom, hbag]
    rfl
  · exact hbag

theorem compileText_fails {text : Bytes} {e : SyntaxError}
    (h : (SourceFile.ofInput text).parse = .error (.malformed e)) {o : CompileOptions} (hlive : o.cancelled = false)
    (t : Tracer) (parent : Nat) (name : Bytes) : (compileText o t parent name text).1.Fails o.timings e := by
  have hget := FileSet.get?_add {} (by decide) (if name.isEmpty then inputName else name) text .inMemory
  simp only [compileText, FileSet.addInMemory, hget, Option.getD_some]
  refine CompileResult.ofRun_fails (SourceFile.parse_error_congr ?_ ?_ h) hlive _ <;> rfl

/-! ## What is shown -/

namespace Shell

/-- What the JSON report on a bag shows. -/
def shown (g : CommonOptions) (bag : Bag) : Report := .ofBag ⟨true, g.pathMode, g.limit, true⟩ bag.sort

theorem report_json {g : CommonOptions} (hstyle : g.style = .json) (files : FileSet) {bag : Bag} (hbag : bag.size ≠ 0)
    (s : Shell) :
    (report g files bag).run.run s = (.ok (), { s with
      err := s.err ++ Json.document true ((shown g bag).toJson ⟨true, g.pathMode, g.limit, true⟩ s.disk.cwd files) }) := by
  simp only [report, if_neg hbag, hstyle]
  rfl

/-- A compilation with an error reports on it and stops without another word. -/
theorem expectModule_told {g : CommonOptions} (hstyle : g.style = .json) {r : CompileResult} (hfault : r.fault = none)
    (herrors : r.bag.hasErrors = true) (s : Shell) :
    (expectModule g r).run.run s = (.error .told, { s with
      err := s.err ++ Json.document true ((shown g r.bag).toJson ⟨true, g.pathMode, g.limit, true⟩ s.disk.cwd r.set) }) := by
  have hsize : r.bag.size ≠ 0 := by
    intro hzero
    have hnil : r.bag.items = #[] := Array.size_eq_zero_iff.mp hzero
    simp [Bag.hasErrors, hnil] at herrors
  have hreport := report_json hstyle r.set hsize s
  simp only [expectModule, hfault, herrors, if_true]
  simp only [ExceptT.run_bind, StateT.run_bind, hreport]
  rfl

theorem shown_eq_sort {g : CommonOptions} {bag : Bag} (h : bag.toList.length ≤ g.limit) :
    (shown g bag).shown = bag.sort.toList := by
  have hlength : bag.sort.toList.length ≤ g.limit.toNat := by
    rw [Bag.toList_sort, List.length_mergeSort]
    omega
  simp only [shown, Report.ofBag]
  split
  · exact List.take_of_length_le hlength
  · rfl

end Shell

namespace CompileResult.Fails

open Shell

variable {g : CommonOptions} {r : CompileResult} {e : SyntaxError}

theorem hasErrors (h : r.Fails g.timings e) : r.bag.hasErrors = true := by
  obtain ⟨timing, -, -, hbag⟩ := h.found
  have hmem : e.diagnostic ∈ r.bag.toList := hbag ▸ List.mem_cons_self
  rw [Bag.hasErrors, ← Array.any_toList]
  exact List.any_eq_true.mpr ⟨e.diagnostic, hmem, rfl⟩

theorem mem_shown (h : r.Fails g.timings e) (hlimit : 1 ≤ g.limit) (hroom : ¬(g.timings = true ∧ g.limit = 1)) :
    e.diagnostic ∈ (shown g r.bag).shown := by
  obtain ⟨timing, -, -, hbag⟩ := h.found
  have hlength : r.bag.toList.length ≤ g.limit := by
    rw [hbag]
    cases htimings : g.timings with
    | true =>
      have hne : g.limit ≠ 1 := fun hone => hroom ⟨htimings, hone⟩
      simp only [if_true, List.length_cons, List.length_nil]
      omega
    | false => exact hlimit
  rw [shown_eq_sort hlength, Bag.mem_sort, hbag]
  exact List.mem_cons_self

theorem shown_timing (h : r.Fails g.timings e) (hfile : e.span.file = 0) (hstop : e.span.stop ≠ 0)
    (htimings : g.timings = true) (hone : g.limit = 1) :
    ∃ timing, (shown g r.bag).shown = [timing] ∧ timing.severity = .info := by
  obtain ⟨timing, hinfo, hnone, hbag⟩ := h.found
  rw [htimings, if_pos rfl] at hbag
  -- the timings have no place, so they are sorted to the front and take all the room
  have hsort := Bag.toList_sort_pair hbag (Diagnostic.le_none hnone hfile hstop)
  refine ⟨timing, ?_, hinfo⟩
  simp [shown, Report.ofBag, hone, hsort]

end CompileResult.Fails

namespace Shell

/-- What the JSON report on a text that cannot be parsed shows. The command says nothing but the report and fails; the report
shows the error unless timings are asked for and one finding is the limit, where it shows the timings and no error. -/
theorem failures_shown {g : CommonOptions} (hstyle : g.style = .json) (hlimit : 1 ≤ g.limit) {text : Bytes}
    {e : SyntaxError} (hparse : (SourceFile.ofInput text).parse = .error (.malformed e)) (emit : EmitOptions) {t t' : Tracer}
    {parent : Nat} {name : Bytes} {r : CompileResult}
    (hrun : compileText (compileOptions g emit) t parent name text = (r, t')) :
    (∀ s : Shell, (expectModule g r).run.run s = (.error .told, { s with
      err := s.err ++
        Json.document true ((shown g r.bag).toJson ⟨true, g.pathMode, g.limit, true⟩ s.disk.cwd r.set) })) ∧
    (¬(g.timings = true ∧ g.limit = 1) → e.diagnostic ∈ (shown g r.bag).shown ∧ e.diagnostic.severity = .error) ∧
    (g.timings = true ∧ g.limit = 1 → text.length < 2 ^ 32 →
      ∃ timing, (shown g r.bag).shown = [timing] ∧ timing.severity = .info) := by
  have hfails : r.Fails g.timings e := by
    have h := compileText_fails hparse (o := compileOptions g emit) rfl t parent name
    rw [hrun] at h
    exact h
  refine ⟨expectModule_told hstyle hfails.fault_eq hfails.hasErrors, fun hroom => ⟨hfails.mem_shown hlimit hroom, rfl⟩, ?_⟩
  rintro ⟨htimings, hone⟩ hfit
  obtain ⟨hfile, hstop⟩ := SourceFile.parse_error_stop hfit hparse
  exact hfails.shown_timing hfile hstop htimings hone

/-- A report in JSON with timings that shows as many findings. -/
def timedJson (limit : Int) : CommonOptions :=
  { quiet := false, timings := true, limit, style := .json, pathMode := .auto, color := false }

/-- A parenthesis that is not closed. -/
def openParen : Bytes := "x = (1"

theorem openParen_malformed : ∃ e, (SourceFile.ofInput openParen).parse = .error (.malformed e) := by
  have hfails : (SourceFile.ofInput openParen).parse.toOption.isNone = true := by decide +kernel
  cases h : (SourceFile.ofInput openParen).parse with
  | ok p =>
    rw [h] at hfails
    cases hfails
  | error fault =>
    obtain ⟨e, rfl, -⟩ := SourceFile.parse_error_points (by decide) h
    exact ⟨e, rfl⟩

theorem openParen_shown :
    (timedJson 2).style = .json ∧ 1 ≤ (timedJson 2).limit ∧
      ∃ e r t', (SourceFile.ofInput openParen).parse = .error (.malformed e) ∧
        compileText (compileOptions (timedJson 2) {}) {} 0 "<code>" openParen = (r, t') ∧
        e.diagnostic ∈ (shown (timedJson 2) r.bag).shown := by
  obtain ⟨e, hparse⟩ := openParen_malformed
  obtain ⟨r, t', hrun⟩ : ∃ r t', compileText (compileOptions (timedJson 2) {}) {} 0 "<code>" openParen = (r, t') :=
    ⟨_, _, rfl⟩
  obtain ⟨-, hshown, -⟩ := failures_shown rfl (by decide) hparse {} hrun
  exact ⟨rfl, by decide, e, r, t', hparse, hrun, (hshown (by decide)).1⟩

/-- A failure that is not shown: the only finding in the report is that of the timings. -/
theorem openParen_hidden :
    ∃ e timing, (SourceFile.ofInput openParen).parse = .error (.malformed e) ∧
      (shown (timedJson 1) (compileText (compileOptions (timedJson 1) {}) {} 0 "<code>" openParen).1.bag).shown = [timing] ∧
      timing.severity ≠ .error := by
  obtain ⟨e, hparse⟩ := openParen_malformed
  obtain ⟨hfile, hstop⟩ := SourceFile.parse_error_stop (by decide) hparse
  have hfails := compileText_fails hparse (o := compileOptions (timedJson 1) {}) rfl {} 0 "<code>"
  obtain ⟨timing, hshown, hinfo⟩ := hfails.shown_timing (g := timedJson 1) hfile hstop rfl rfl
  exact ⟨e, timing, hparse, hshown, by simp [hinfo]⟩

end Shell

end Bracescript
