import Bracescript.Proofs.Hygiene
import Bracescript.Proofs.Spelling
import Bracescript.Proofs.StatementReads

/-!
# The text of a program

Whatever a program holds, the text of its body is one of the grammar of emitted texts: one lemma for each kind of node,
and from these, over the derivation of the program, the text of the whole.
-/

namespace Bracescript

open Target TokenTree

/-! ## Texts of the grammar -/

namespace Target.IsCode

variable {source : List Token} {a b c : Bytes}

theorem congr (h : IsCode source a) (heq : b = a) : IsCode source b := heq ▸ h

theorem keyword (w : Bytes) (h : w ∈ reserved := by simp [reserved]) : IsCode source w := by
  have htable : ∀ w ∈ reserved, isWordText w = true := by decide
  exact .word (.keyword h) (htable w h)

theorem library (w : Bytes) (h : w ∈ exports := by simp [exports]) : IsCode source w := by
  have htable : ∀ w ∈ exports, isWordText w = true := by decide
  exact .word (.library h) (htable w h)

theorem undefined : IsCode source "undefined" := .word (.undefined rfl) (by decide)

theorem parens (ha : IsCode source a) (hb : IsCode source b) : IsCode source (a ++ "(" ++ b ++ ")") :=
  (group rfl ha hb .nil).congr (by simp only [List.append_assoc]; rfl)

theorem braces (ha : IsCode source a) (hb : IsCode source b) (hc : IsCode source c) :
    IsCode source (a ++ "\x7b" ++ b ++ "\x7d" ++ c) :=
  (group rfl ha hb hc).congr (by simp only [List.append_assoc]; rfl)

theorem dispatch {key : Bytes} (hkey : key ∈ dispatchKeys) (ha : IsCode source a) (hb : IsCode source b) :
    IsCode source (a ++ Target.select key ++ "(" ++ b ++ ")") :=
  (parens (select hkey ha .nil) hb).congr (by simp)

theorem invoke (ha : IsCode source a) (key : Bytes) (hb : IsCode source b)
    (hkey : key ∈ fixedKeys := by simp [fixedKeys]) : IsCode source (a ++ Target.select key ++ "(" ++ b ++ ")") :=
  ha.dispatch (List.mem_append_right _ hkey) hb

/-- A separator between two texts. -/
theorem sep (ha : IsCode source a) (s : Bytes) (hb : IsCode source b) (hs : s.map isSeparator = [true] := by decide) :
    IsCode source (a ++ s ++ b) := by
  obtain ⟨m, rfl, hm⟩ := List.map_eq_singleton_iff.mp hs
  exact (mark hm ha hb).congr (by simp)

theorem join {texts : List Bytes} (h : ∀ text ∈ texts, IsCode source text) : IsCode source (Bytes.join "," texts) := by
  unfold Bytes.join
  induction texts with
  | nil => exact .nil
  | cons first texts ih =>
    obtain ⟨hfirst, hrest⟩ := List.forall_mem_cons.mp h
    cases texts with
    | nil => exact hfirst.congr (by simp)
    | cons second texts =>
      rw [List.intercalate_cons_cons]
      exact hfirst.sep "," (ih hrest)

end Target.IsCode

/-- The name of a token of the source. -/
def IsName (source : List Token) (name : Bytes) : Prop := ∃ t ∈ source, t.kind = .identifier ∧ name = t.value

theorem IsName.isCode {source : List Token} (hlegible : Legible source) {name : Bytes} (h : IsName source name) :
    IsCode source (userName name) := by
  obtain ⟨t, ht, hkind, rfl⟩ := h
  exact .word (.name ht hkind rfl) (isWordText_userName (hlegible.names t ht hkind))

/-! ## Emission -/

namespace Emit

variable {α β : Type} {source : List Token} {P : α → Prop} {Q : β → Prop}

/-- What is emitted has the property. -/
def Yields (P : α → Prop) (x : Except Unsupported α) : Prop := ∀ a, x = .ok a → P a

theorem yields_ok {a : α} (h : P a) : Yields P (.ok a) := by
  intro a' ha
  cases ha
  exact h

theorem yields_error {u : Unsupported} : Yields P (.error u) := by
  intro a ha
  cases ha

theorem yields_bind {x : Except Unsupported α} {f : α → Except Unsupported β} (hx : Yields P x)
    (hf : ∀ a, P a → Yields Q (f a)) : Yields Q (x >>= f) := by
  cases x with
  | error u => exact yields_error
  | ok a => exact hf a (hx a rfl)

/-- The expression is emitted as text of the grammar, and so is a change of it. -/
structure WritesExpr (source : List Token) (e : Expr) : Prop where
  text : Yields (IsCode source) (expr e)
  change : ∀ value, (∀ v, value = some v → Yields (IsCode source) (expr v)) → Yields (IsCode source) (change e value)

def WritesOption (source : List Token) (value : Option Expr) : Prop := ∀ e, value = some e → WritesExpr source e

theorem argument_writes {e : Expr} (h : WritesExpr source e) : Yields (IsCode source) (argument e) := by
  unfold argument
  split
  · exact yields_ok .undefined
  · exact h.text

theorem optional_writes {value : Option Expr} (h : ∀ e, value = some e → Yields (IsCode source) (expr e)) :
    Yields (IsCode source) (optional value) := by
  cases value with
  | none =>
    rw [optional]
    exact yields_ok .undefined
  | some e =>
    rw [optional]
    exact h e rfl

theorem required_writes {value : Option Expr} (h : ∀ e, value = some e → Yields (IsCode source) (expr e)) :
    Yields (IsCode source) (required value) := by
  cases value with
  | none =>
    rw [required, expr]
    exact yields_error
  | some e => exact h e rfl

theorem WritesOption.text {value : Option Expr} (h : WritesOption source value) :
    ∀ e, value = some e → Yields (IsCode source) (expr e) := fun e he => (h e he).text

theorem writesOption_none : WritesOption source none := by
  intro e he
  cases he

theorem writesOption_some {e : Expr} (h : WritesExpr source e) : WritesOption source (some e) := by
  intro e' he
  cases he
  exact h

theorem arguments_writes {args : List (Argument Expr)} (h : ∀ a ∈ args, WritesOption source a.value) :
    Yields (∀ text ∈ ·, IsCode source text) (arguments args) := by
  induction args with
  | nil =>
    rw [arguments]
    exact yields_ok (List.forall_mem_nil _)
  | cons a args ih =>
    obtain ⟨ha, hargs⟩ := List.forall_mem_cons.mp h
    rw [arguments]
    refine yields_bind (P := IsCode source) ?_ fun text htext => yields_bind (ih hargs) fun texts htexts =>
      yields_ok (List.forall_mem_cons.mpr ⟨htext, htexts⟩)
    obtain ⟨span, pos, name, type, value⟩ := a
    rw [Emit.value]
    exact optional_writes (WritesOption.text ha)

theorem maker_mem_exports {kind : LiteralKind} {maker : Bytes} (h : constructor? kind = some maker) :
    maker ∈ exports := by
  cases kind with
  | unknown => cases h
  | _ =>
    cases h
    decide

/-- What is emitted with `n` behind it has no fraction. -/
theorem numberKind_cases {digits suffix text : Bytes} {kind : LiteralKind}
    (h : numberKind digits suffix text = .ok kind) :
    kind ≠ .string ∧ (takesBigint kind = true → Bytes.ascii '.' ∉ digits) := by
  unfold numberKind at h
  dsimp only at h
  split at h
  · obtain rfl := Except.ok.inj h
    split
    · simp [takesBigint]
    · rename_i hpoint
      exact ⟨by simp, fun _ hmem => hpoint (List.contains_iff_mem.mpr hmem)⟩
  split at h
  · obtain rfl := Except.ok.inj h
    simp [takesBigint]
  split at h
  · obtain rfl := Except.ok.inj h
    simp [takesBigint]
  split at h
  · cases h
  · rename_i known hknown
    split at h
    · cases h
    · rename_i hpoint
      obtain rfl := Except.ok.inj h
      refine ⟨?_, fun _ hmem => hpoint (List.contains_iff_mem.mpr hmem)⟩
      unfold LiteralKind.ofIntegerSuffix? at hknown
      iterate 9
        obtain ⟨-, rfl⟩ | hknown := Lexer.eq_or_of_ite_eq_some hknown
        · simp
      cases hknown

theorem isNumeralText_append {digits : Bytes} (h : IsNumeralText digits) (hpoint : Bytes.ascii '.' ∉ digits) :
    IsNumeralText (digits ++ "n") := by
  obtain ⟨first, whole, frac, rfl, hfirst, hwhole, hfrac⟩ := h
  rcases hfrac with rfl | ⟨d, ds, rfl, -⟩
  · refine ⟨first, whole ++ "n", [], by simp, hfirst, ?_, .inl rfl⟩
    rw [List.all_append, hwhole]
    decide
  · exact absurd (by simp) hpoint

/-- The value of a number as it is emitted: perhaps a sign, then a numeral. -/
theorem number_isCode (hlegible : Legible source) {t : Token} (ht : t ∈ source) (hkind : t.kind = .numberLiteral)
    {tail : Bytes} (htail : tail = [] ∨ tail = "n" ∧ Bytes.ascii '.' ∉ t.value) : IsCode source (t.value ++ tail) := by
  obtain ⟨sign, hsign, digits, hvalue, hdigits⟩ := hlegible.numbers t ht hkind
  have hnumeral : IsCode source (digits ++ tail) := by
    refine .numeral ⟨t, ht, hkind, sign, hsign, tail, ?_, digits, hvalue, rfl⟩ ?_
    · rcases htail with rfl | ⟨rfl, -⟩ <;> decide
    · rcases htail with rfl | ⟨rfl, hpoint⟩
      · simpa using hdigits
      · refine isNumeralText_append hdigits fun hmem => hpoint ?_
        rw [hvalue]
        exact List.mem_append_right _ hmem
  rw [hvalue, List.append_assoc]
  simp only [List.mem_cons, List.not_mem_nil, or_false] at hsign
  rcases hsign with rfl | rfl
  · exact hnumeral
  · exact IsCode.nil.sep "-" hnumeral

theorem number_writes (hlegible : Legible source) {t : Token} (ht : t ∈ source) (hkind : t.kind = .numberLiteral)
    {kind : LiteralKind} (hknown : numberKind t.value t.flag t.text = .ok kind) (n : Node) :
    WritesExpr source (.literal n kind t.value) := by
  obtain ⟨hstring, hpoint⟩ := numberKind_cases hknown
  refine ⟨?_, fun _ _ => yields_error⟩
  rw [expr, literal]
  split
  · exact yields_error
  · rename_i maker hmaker
    rw [if_neg hstring]
    refine yields_ok ((IsCode.library maker (maker_mem_exports hmaker)).parens ?_)
    split
    · rename_i hbigint
      exact number_isCode hlegible ht hkind (.inr ⟨rfl, hpoint hbigint⟩)
    · exact (number_isCode hlegible ht hkind (.inl rfl)).congr (List.append_nil _).symm

theorem string_writes (n : Node) (value : Bytes) : WritesExpr source (.literal n .string value) := by
  refine ⟨?_, fun _ _ => yields_error⟩
  rw [expr, literal]
  exact yields_ok ((IsCode.library _ (maker_mem_exports (rfl : constructor? .string = _))).parens (.literal value))

theorem ident_writes (hlegible : Legible source) {n : Node} {name : Bytes} (h : IsName source name) :
    WritesExpr source (.ident n name) := by
  have hname := h.isCode hlegible
  constructor
  · rw [expr]
    exact yields_ok hname
  · intro value hvalue
    exact yields_bind (required_writes hvalue) fun text htext => yields_ok (hname.sep "=" htext)

theorem mem_dispatchKeys_of_unary {symbol key : Bytes} (h : unaryKey? symbol = some key) : key ∈ dispatchKeys := by
  obtain ⟨row, hrow, -, rfl⟩ := exists_row h
  exact List.mem_append_left _ (List.mem_append_left _ (List.mem_map.mpr ⟨row, hrow, rfl⟩))

theorem mem_dispatchKeys_of_binary {symbol key : Bytes} (h : binaryKey? symbol = some key) : key ∈ dispatchKeys := by
  obtain ⟨row, hrow, -, rfl⟩ := exists_row h
  exact List.mem_append_left _ (List.mem_append_right _ (List.mem_map.mpr ⟨row, hrow, rfl⟩))

theorem unary_writes {n : Node} {symbol : Bytes} {operand : Expr} {behind : Bool} (h : WritesExpr source operand) :
    WritesExpr source (.unary n symbol operand behind) := by
  refine ⟨?_, fun _ _ => yields_error⟩
  rw [expr]
  split
  · exact yields_error
  · rename_i key hkey
    refine yields_bind h.text fun text htext => yields_ok ?_
    have hcall := htext.dispatch (mem_dispatchKeys_of_unary hkey) .nil
    exact hcall.congr (by simp only [List.append_assoc]; rfl)

theorem binary_writes {n : Node} {symbol : Bytes} {left right : Expr} (hleft : WritesExpr source left)
    (hright : WritesExpr source right) : WritesExpr source (.binary n symbol left right) := by
  refine ⟨?_, fun _ _ => yields_error⟩
  rw [expr]
  split
  · exact yields_error
  · rename_i key hkey
    refine yields_bind hleft.text fun l hl => yields_bind hright.text fun r hr => yields_ok ?_
    exact hl.dispatch (mem_dispatchKeys_of_binary hkey) hr

theorem ternary_writes {n : Node} {test yes no : Expr} (htest : WritesExpr source test) (hyes : WritesExpr source yes)
    (hno : WritesExpr source no) : WritesExpr source (.ternary n test yes no) := by
  refine ⟨?_, fun _ _ => yields_error⟩
  rw [expr]
  refine yields_bind htest.text fun t ht => yields_bind (argument_writes hyes) fun y hy =>
    yields_bind (argument_writes hno) fun e he => yields_ok ?_
  exact (ht.invoke choose (hy.sep "," he)).congr (by simp)

theorem member_writes {n : Node} {target : Expr} {field : Bytes} (h : WritesExpr source target) :
    WritesExpr source (.member n target field) := by
  constructor
  · rw [expr]
    exact yields_bind h.text fun text htext => yields_ok (htext.invoke getAttr (.literal field))
  · intro value hvalue
    refine yields_bind h.text fun text htext => yields_bind (required_writes hvalue) fun v hv => yields_ok ?_
    exact (htext.invoke setAttr ((IsCode.literal field).sep "," hv)).congr (by simp)

theorem call_writes {n : Node} {target : Expr} {args : List (Argument Expr)} (h : WritesExpr source target)
    (hargs : ∀ a ∈ args, WritesOption source a.value) : WritesExpr source (.call n target args) := by
  refine ⟨?_, fun _ _ => yields_error⟩
  rw [expr]
  refine yields_bind h.text fun text htext => ?_
  split
  · exact yields_error
  · refine yields_bind (arguments_writes hargs) fun texts htexts => yields_ok ?_
    exact htext.invoke call (.join htexts)

theorem index_writes {n : Node} {target key : Expr} (h : WritesExpr source target) (hkey : WritesExpr source key) :
    WritesExpr source (.index n target key) := by
  constructor
  · rw [expr]
    refine yields_bind h.text fun text htext => yields_bind (argument_writes hkey) fun k hk => yields_ok ?_
    exact htext.invoke getItem hk
  · intro value hvalue
    refine yields_bind h.text fun text htext => yields_bind (argument_writes hkey) fun k hk =>
      yields_bind (optional_writes hvalue) fun v hv => yields_ok ?_
    exact (htext.invoke setItem (hk.sep "," hv)).congr (by simp)

theorem slice_writes {n : Node} {target : Expr} {start stop : Option Expr} (h : WritesExpr source target)
    (hstart : WritesOption source start) (hstop : WritesOption source stop) :
    WritesExpr source (.slice n target start stop) := by
  constructor
  · rw [expr]
    refine yields_bind h.text fun text htext => yields_bind (optional_writes hstart.text) fun a ha =>
      yields_bind (optional_writes hstop.text) fun b hb => yields_ok ?_
    exact (htext.invoke getSlice (ha.sep "," hb)).congr (by simp)
  · intro value hvalue
    refine yields_bind h.text fun text htext => yields_bind (optional_writes hstart.text) fun a ha =>
      yields_bind (optional_writes hstop.text) fun b hb => yields_bind (optional_writes hvalue) fun v hv => yields_ok ?_
    exact (htext.invoke setSlice ((ha.sep "," hb).sep "," hv)).congr (by simp)

/-! ### Statements -/

/-- The statement is emitted as text of the grammar, by itself and as a member of a class. -/
structure WritesStmt (source : List Token) (s : Stmt) : Prop where
  text : Yields (IsCode source) (stmt s)
  member : Yields (IsCode source) (member s)

theorem condition_writes {e : Expr} (h : WritesExpr source e) : Yields (IsCode source) (condition e) :=
  yields_bind h.text fun text htext => yields_ok ((IsCode.library truthy).parens htext)

theorem orNothing_writes {value : Option Expr} (h : WritesOption source value) :
    Yields (IsCode source) (orNothing value) := by
  cases value with
  | none => exact yields_ok (.library nothing)
  | some e => exact (h e rfl).text

theorem convert_writes {type : Expr} {value : Option Expr} (htype : WritesExpr source type)
    (h : WritesOption source value) : Yields (IsCode source) (convert type value) := by
  refine yields_bind htype.text fun text htext => ?_
  cases value with
  | none => exact yields_ok ((htext.invoke call .nil).congr (by simp only [List.append_assoc]; rfl))
  | some e => exact yields_bind (h e rfl).text fun v hv => yields_ok (htext.invoke call hv)

theorem declarator_isCode (constant : Bool) {text : Bytes} (h : IsCode source text) :
    IsCode source (declarator constant ++ text) := by
  cases constant with
  | true => exact (IsCode.keyword "const").sep " " h
  | false => exact (IsCode.keyword "let").sep " " h

/-- A statement that cannot be a member of a class. -/
theorem writesStmt_of_text {s : Stmt} (h : Yields (IsCode source) (stmt s)) (hmember : ∃ u, member s = .error u) :
    WritesStmt source s := by
  obtain ⟨u, hu⟩ := hmember
  refine ⟨h, ?_⟩
  rw [hu]
  exact yields_error

theorem expr_writes {n : Node} {e : Expr} (h : WritesExpr source e) : WritesStmt source (.expr n e) := by
  refine writesStmt_of_text ?_ ⟨_, by rw [member] <;> simp⟩
  rw [stmt]
  exact h.text

theorem assign_writes {n : Node} {declares constant : Bool} {target : Expr} {value : Option Expr}
    (htarget : WritesExpr source target) (hvalue : WritesOption source value) :
    WritesStmt source (.assign n declares constant target value) := by
  constructor
  · rw [stmt, assign]
    split
    · refine yields_bind htarget.text fun t ht => yields_bind (orNothing_writes hvalue) fun v hv => yields_ok ?_
      exact (declarator_isCode constant (ht.sep "=" hv)).congr (by simp)
    · exact htarget.change value hvalue.text
  · rw [member]
    refine yields_bind (P := fun _ => True) (fun _ _ => trivial) fun name _ => ?_
    exact yields_bind (orNothing_writes hvalue) fun v hv => yields_ok ((IsCode.literal name).sep ":" hv)

theorem typed_writes {n : Node} {type target : Expr} {constant : Bool} {value : Option Expr}
    (htype : WritesExpr source type) (htarget : WritesExpr source target) (hvalue : WritesOption source value) :
    WritesStmt source (.typed n type constant target value) := by
  constructor
  · rw [stmt, typed]
    refine yields_bind htarget.text fun t ht => yields_bind (convert_writes htype hvalue) fun v hv => yields_ok ?_
    exact (declarator_isCode constant (ht.sep "=" hv)).congr (by simp)
  · rw [member]
    refine yields_bind (P := fun _ => True) (fun _ _ => trivial) fun name _ => ?_
    exact yields_bind (convert_writes htype hvalue) fun v hv => yields_ok ((IsCode.literal name).sep ":" hv)

theorem stmts_writes : {ss : List Stmt} → (∀ s ∈ ss, WritesStmt source s) → Yields (IsCode source) (stmts ss)
  | [], _ => by
    rw [stmts]
    exact yields_ok .nil
  | [s], h => by
    rw [stmts]
    exact (h s List.mem_cons_self).text
  | first :: second :: ss, h => by
    obtain ⟨hfirst, hrest⟩ := List.forall_mem_cons.mp h
    rw [stmts]
    · exact yields_bind hfirst.text fun text htext => yields_bind (stmts_writes hrest) fun rest hrest =>
        yields_ok (htext.sep ";" hrest)
    · exact List.cons_ne_nil second ss

theorem members_writes {ss : List Stmt} (h : ∀ s ∈ ss, WritesStmt source s) :
    Yields (∀ text ∈ ·, IsCode source text) (members ss) := by
  induction ss with
  | nil =>
    rw [members]
    exact yields_ok (List.forall_mem_nil _)
  | cons s ss ih =>
    obtain ⟨hs, hss⟩ := List.forall_mem_cons.mp h
    rw [members]
    exact yields_bind hs.member fun text htext => yields_bind (ih hss) fun texts htexts =>
      yields_ok (List.forall_mem_cons.mpr ⟨htext, htexts⟩)

theorem step_writes {clause : Option Stmt} (h : ∀ s, clause = some s → WritesStmt source s) :
    Yields (IsCode source) (step? clause) := by
  cases clause with
  | none =>
    rw [step?]
    exact yields_ok .nil
  | some s =>
    rw [step?]
    exact (h s rfl).text

theorem conditional_writes {n : Node} {test : Expr} {yes no : List Stmt} (htest : WritesExpr source test)
    (hyes : ∀ s ∈ yes, WritesStmt source s) (hno : ∀ s ∈ no, WritesStmt source s) :
    WritesStmt source (.conditional n test yes no) := by
  refine writesStmt_of_text ?_ ⟨_, by rw [member] <;> simp⟩
  rw [stmt]
  refine yields_bind (condition_writes htest) fun t ht => yields_bind (stmts_writes hyes) fun y hy => ?_
  have hhead : IsCode source ("if" ++ "(" ++ t ++ ")") := (IsCode.keyword "if").parens ht
  dsimp only
  split
  · exact yields_ok ((hhead.braces hy .nil).congr (by simp only [List.append_assoc]; rfl))
  · refine yields_bind (stmts_writes hno) fun e he => yields_ok ?_
    have helse := (hhead.braces hy (.keyword "else")).braces he .nil
    exact helse.congr (by simp only [List.append_assoc]; rfl)

theorem forLoop_writes {n : Node} {init step : Option Stmt} {test : Option Expr} {body : List Stmt}
    (hinit : ∀ s, init = some s → WritesStmt source s) (htest : WritesOption source test)
    (hstep : ∀ s, step = some s → WritesStmt source s) (hbody : ∀ s ∈ body, WritesStmt source s) :
    WritesStmt source (.forLoop n init test step body) := by
  refine writesStmt_of_text ?_ ⟨_, by rw [member] <;> simp⟩
  rw [stmt]
  refine yields_bind (step_writes hinit) fun i hi => ?_
  have hrest : ∀ t, IsCode source t → Yields (IsCode source) (do
      let step ← step? step
      let body ← stmts body
      return "for(" ++ i ++ ";" ++ t ++ ";" ++ step ++ ")\x7b" ++ body ++ "\x7d") := by
    intro t ht
    refine yields_bind (step_writes hstep) fun u hu => yields_bind (stmts_writes hbody) fun b hb => yields_ok ?_
    have hloop := ((IsCode.keyword "for").parens ((hi.sep ";" ht).sep ";" hu)).braces hb .nil
    exact hloop.congr (by simp only [List.append_assoc]; rfl)
  split
  · exact yields_bind (yields_ok .nil) hrest
  · exact yields_bind (condition_writes (htest _ rfl)) hrest

theorem whileLoop_writes {n : Node} {test : Expr} {body : List Stmt} (htest : WritesExpr source test)
    (hbody : ∀ s ∈ body, WritesStmt source s) : WritesStmt source (.whileLoop n test body) := by
  refine writesStmt_of_text ?_ ⟨_, by rw [member] <;> simp⟩
  rw [stmt]
  refine yields_bind (condition_writes htest) fun t ht => yields_bind (stmts_writes hbody) fun b hb => yields_ok ?_
  have hloop := ((IsCode.keyword "while").parens ht).braces hb .nil
  exact hloop.congr (by simp only [List.append_assoc]; rfl)

/-- The name, the type and the default of a parameter. -/
structure WritesParam (source : List Token) (p : Argument Expr) : Prop where
  name : IsName source p.name
  type : WritesOption source p.type
  value : WritesOption source p.value

theorem parameters_writes (hlegible : Legible source) {params : List (Argument Expr)}
    (h : ∀ p ∈ params, WritesParam source p) : Yields (∀ text ∈ ·, IsCode source text) (parameters params) := by
  induction params with
  | nil => exact yields_ok (List.forall_mem_nil _)
  | cons p params ih =>
    obtain ⟨hp, hparams⟩ := List.forall_mem_cons.mp h
    have hname := hp.name.isCode hlegible
    rw [parameters]
    refine yields_bind (P := IsCode source) ?_ fun text htext => yields_bind (ih hparams) fun texts htexts =>
      yields_ok (List.forall_mem_cons.mpr ⟨htext, htexts⟩)
    unfold parameter
    split
    · exact yields_ok hname
    · rename_i e he
      exact yields_bind (hp.value e he).text fun v hv => yields_ok (hname.sep "=" hv)

/-- Each conversion ends in a semicolon, so a body can follow. -/
theorem conversions_writes (hlegible : Legible source) {params : List (Argument Expr)}
    (h : ∀ p ∈ params, WritesParam source p) :
    Yields (fun entry => ∀ body, IsCode source body → IsCode source (entry ++ body)) (conversions params) := by
  induction params with
  | nil => exact yields_ok fun body hbody => hbody
  | cons p params ih =>
    obtain ⟨hp, hparams⟩ := List.forall_mem_cons.mp h
    have hname := hp.name.isCode hlegible
    rw [conversions]
    split
    · exact ih hparams
    · rename_i type htype
      refine yields_bind (hp.type type htype).text fun t ht => yields_bind (ih hparams) fun rest hrest => yields_ok ?_
      intro body hbody
      have hcall := (hname.sep "=" (ht.invoke call hname)).sep ";" (hrest body hbody)
      exact hcall.congr (by simp only [List.append_assoc]; rfl)

theorem function_isCode {name entry body : Bytes} {params : List Bytes} (hparams : ∀ text ∈ params, IsCode source text)
    (hbody : IsCode source (entry ++ body)) : IsCode source (function name params entry body) := by
  have hinner := (((IsCode.keyword "function").parens (.join hparams)).braces hbody .nil).sep ","
    (.literal name)
  have hcall := (IsCode.library Target.function).parens hinner
  exact hcall.congr (by unfold function; simp only [List.append_assoc]; rfl)

theorem define_writes (hlegible : Legible source) {n : Node} {name : Bytes} {params : List (Argument Expr)}
    {body : List Stmt} (hname : IsName source name) (hparams : ∀ p ∈ params, WritesParam source p)
    (hbody : ∀ s ∈ body, WritesStmt source s) : WritesStmt source (.define n name params body) := by
  have hfunction : ∀ before : Bytes, (∀ text, IsCode source text → IsCode source (before ++ text)) →
      Yields (IsCode source) (do
        let params' ← parameters params
        let entry ← conversions params
        let body ← stmts body
        return before ++ function name params' entry body) := by
    intro before hbefore
    refine yields_bind (parameters_writes hlegible hparams) fun ps hps =>
      yields_bind (conversions_writes hlegible hparams) fun entry hentry =>
        yields_bind (stmts_writes hbody) fun b hb => yields_ok ?_
    exact hbefore _ (function_isCode hps (hentry b hb))
  constructor
  · rw [stmt]
    refine hfunction _ fun text htext => ?_
    exact (declarator_isCode true ((hname.isCode hlegible).sep "=" htext)).congr (by simp only [List.append_assoc]; rfl)
  · rw [member]
    exact hfunction _ fun text htext => (IsCode.literal name).sep ":" htext

theorem defineClass_writes (hlegible : Legible source) {n : Node} {name : Bytes} {bases : List Expr}
    {body : List Stmt} (hname : IsName source name) (hbases : ∀ e ∈ bases, WritesExpr source e)
    (hbody : ∀ s ∈ body, WritesStmt source s) : WritesStmt source (.defineClass n name bases body) := by
  have hclass : ∀ base, IsCode source base → Yields (IsCode source) (do
      let body ← members body
      return "const " ++ userName name ++ "=" ++ createSubclass ++ "(" ++ base ++ "," ++ quote name ++ ",\x7b"
        ++ Bytes.join "," body ++ "\x7d)") := by
    intro base hbase
    refine yields_bind (members_writes hbody) fun texts htexts => yields_ok ?_
    have hargs := (hbase.sep "," (.literal name)).sep "," (IsCode.nil.braces (.join htexts) .nil)
    have hcall := (IsCode.library createSubclass).parens hargs
    have hdeclare := declarator_isCode true ((hname.isCode hlegible).sep "=" hcall)
    exact hdeclare.congr (by simp only [List.append_assoc]; rfl)
  refine writesStmt_of_text ?_ ⟨_, by rw [member] <;> simp⟩
  match bases with
  | [] =>
    rw [stmt]
    exact yields_bind (yields_ok (.library Target.any)) hclass
  | [base] =>
    rw [stmt]
    · exact yields_bind (hbases base List.mem_cons_self).text hclass
    · simp
  | _ :: _ :: _ =>
    rw [stmt]
    exact yields_error

theorem ret_writes {n : Node} {value : Option Expr} (h : WritesOption source value) :
    WritesStmt source (.ret n value) := by
  refine writesStmt_of_text ?_ ⟨_, by rw [member] <;> simp⟩
  rw [stmt]
  exact yields_bind (orNothing_writes h) fun v hv => yields_ok ((IsCode.keyword "return").sep " " hv)

theorem brk_writes (n : Node) : WritesStmt source (.brk n) := by
  refine writesStmt_of_text ?_ ⟨_, by rw [member] <;> simp⟩
  rw [stmt]
  exact yields_ok (.keyword "break")

theorem cont_writes (n : Node) : WritesStmt source (.cont n) := by
  refine writesStmt_of_text ?_ ⟨_, by rw [member] <;> simp⟩
  rw [stmt]
  exact yields_ok (.keyword "continue")

end Emit

/-! ## Derived programs -/

open Emit

mutual

/-- All that stands in a part is emitted as text of the grammar. -/
def Part.Writes (source : List Token) : Part → Prop
  | .expr e => WritesExpr source e
  | .bound e | .value e => WritesOption source e
  | .arg a => WritesOption source a.value
  | .param p => WritesParam source p
  | .list ps => Part.WritesAll source ps
  | .shape build => ∀ n, WritesStmt source (build n)
  | .stmt s => WritesStmt source s
  | .clause s => ∀ t, s = some t → WritesStmt source t
  | .header init test step =>
    (∀ s, init = some s → WritesStmt source s) ∧ WritesOption source test ∧ ∀ s, step = some s → WritesStmt source s
  | .otherwise ss | .stmts ss => ∀ s ∈ ss, WritesStmt source s

def Part.WritesAll (source : List Token) : List Part → Prop
  | [] => True
  | p :: ps => p.Writes source ∧ Part.WritesAll source ps

end

theorem Part.writesAll_iff {source : List Token} {ps : List Part} :
    Part.WritesAll source ps ↔ ∀ p ∈ ps, p.Writes source := by
  induction ps with
  | nil => simp [Part.WritesAll]
  | cons p ps ih => simp [Part.WritesAll, ih]

theorem Part.writesAll_map {α : Type} {source : List Token} {f : α → Part} {xs : List α} :
    Part.WritesAll source (xs.map f) ↔ ∀ x ∈ xs, (f x).Writes source := by
  simp [Part.writesAll_iff]

theorem Token.ident_writes {source : List Token} (hlegible : Legible source) {t : Token} (ht : t ∈ source)
    (hkind : t.kind = .identifier) (id : Nat) : WritesExpr source (t.ident id) :=
  Emit.ident_writes hlegible ⟨t, ht, hkind, rfl⟩

/-- What is derived from tokens of the source is emitted as text of the grammar. -/
theorem Derives.writes {source : List Token} (hlegible : Legible source) {ts : List TokenTree} {p : Part}
    (h : Derives ts p) (hin : Inside source ts) : p.Writes source := by
  induction h with
  -- expressions
  | ident kind => exact Token.ident_writes hlegible hin.leaf_mem kind _
  | string kind => exact string_writes _ _
  | number kind known => exact number_writes hlegible hin.leaf_mem kind known _
  | parens _ _ ih => exact ih hin.inside
  | front _ _ _ ih => exact unary_writes (ih hin.tail)
  | behind _ _ _ ih => exact unary_writes (ih hin.left)
  | binary _ _ _ _ ihl ihr => exact binary_writes (ihl hin.left) (ihr hin.right.tail)
  | ternary _ _ _ _ _ iha ihb ihc =>
    exact ternary_writes (iha hin.left) (ihb hin.right.tail.left) (ihc hin.right.tail.right.tail)
  | member _ _ _ ih => exact member_writes (ih hin.left)
  | call _ _ _ ih iha => exact call_writes (ih hin.left) (Part.writesAll_map.mp (iha hin.right.inside))
  | index _ _ _ ih ihi => exact index_writes (ih hin.left) (ihi hin.right.inside)
  | slice _ _ _ _ _ ih ihs ihe =>
    exact slice_writes (ih hin.left) (ihs hin.right.inside.left) (ihe hin.right.inside.right.tail)
  -- parts of expressions and declarations
  | unbound | unset => exact writesOption_none
  | bound _ ih | arg _ ih => exact writesOption_some (ih hin)
  | set _ _ ih => exact writesOption_some (ih hin.tail)
  | param kind _ ih => exact ⟨⟨_, hin.leaf_mem, kind, rfl⟩, writesOption_none, ih hin.tail⟩
  | typedParam type name _ ih =>
    have htype := Token.ident_writes hlegible hin.leaf_mem type
    exact ⟨⟨_, hin.tail.leaf_mem, name, rfl⟩, writesOption_some (htype _), ih hin.tail.tail⟩
  | empty => exact trivial
  | last _ ih => exact ⟨ih hin, trivial⟩
  | next _ _ _ ih ihr => exact ⟨ih hin.left, ihr hin.right.tail⟩
  -- statements
  | expr _ ih => exact fun n => expr_writes (ih hin)
  | declare _ name _ ih =>
    exact fun n => assign_writes (Token.ident_writes hlegible hin.tail.leaf_mem name _) (ih hin.tail.tail)
  | declareTyped _ type name _ ih =>
    exact fun n => typed_writes (Token.ident_writes hlegible hin.tail.leaf_mem type _)
      (Token.ident_writes hlegible hin.tail.tail.leaf_mem name _) (ih hin.tail.tail.tail)
  | typed type name _ ih =>
    exact fun n => typed_writes (Token.ident_writes hlegible hin.leaf_mem type _)
      (Token.ident_writes hlegible hin.tail.leaf_mem name _) (ih hin.tail.tail)
  | change _ _ _ iht ihe => exact fun n => assign_writes (iht hin.left) (writesOption_some (ihe hin.right.tail))
  | conditional _ _ _ _ _ _ iht ihy ihn =>
    exact fun n => conditional_writes (iht hin.tail.inside) (ihy hin.tail.tail.inside) (ihn hin.tail.tail.tail)
  | forLoop _ _ _ _ _ ihh ihb =>
    obtain ⟨hinit, htest, hstep⟩ := ihh hin.tail.inside
    exact fun n => forLoop_writes hinit htest hstep (ihb hin.tail.tail.inside)
  | whileLoop _ _ _ _ _ iht ihb => exact fun n => whileLoop_writes (iht hin.tail.inside) (ihb hin.tail.tail.inside)
  | define _ name _ _ _ _ ihp ihb =>
    exact fun n => define_writes hlegible ⟨_, hin.tail.leaf_mem, name, rfl⟩
      (Part.writesAll_map.mp (ihp hin.tail.tail.inside)) (ihb hin.tail.tail.tail.inside)
  | defineClass _ name _ _ ihb =>
    exact fun n => defineClass_writes hlegible ⟨_, hin.tail.leaf_mem, name, rfl⟩ (List.forall_mem_nil _)
      (ihb hin.tail.tail.inside)
  | defineSubclass _ name _ _ _ _ ihe ihb =>
    exact fun n => defineClass_writes hlegible ⟨_, hin.tail.leaf_mem, name, rfl⟩
      (Part.writesAll_map.mp (ihe hin.tail.tail.inside)) (ihb hin.tail.tail.tail.inside)
  | ret _ _ ih => exact fun n => ret_writes (ih hin.tail)
  | brk => exact brk_writes
  | cont => exact cont_writes
  | stmt _ ih => exact ih hin _
  -- parts of statements
  | noClause =>
    intro s hs
    cases hs
  | clause _ ih =>
    intro s hs
    cases hs
    exact ih hin
  | header _ _ _ _ _ ihi iht ihs => exact ⟨ihi hin.left, iht hin.right.tail.left, ihs hin.right.tail.right.tail⟩
  | noElse | noStmts => exact List.forall_mem_nil _
  | elseBlock _ _ _ ih => exact ih hin.tail.inside
  | elseIf _ _ ih => exact List.forall_mem_singleton.mpr (ih hin.tail)
  | separator _ _ ih => exact ih hin.tail
  | stmts _ _ ih ihr => exact List.forall_mem_cons.mpr ⟨ih hin.left, ihr hin.right⟩

/-- The text of a program is one of the grammar, over the tokens of its source. -/
theorem Program.isCode_body {f : SourceFile} {p : Program} (hparse : f.parse = .ok p) {body : Bytes}
    (hbody : p.emitBody = .ok body) : ∃ tokens, f.tokenize = .ok tokens ∧ IsCode tokens body := by
  unfold SourceFile.parse at hparse
  split at hparse
  · cases hparse
  · rename_i tokens htokens
    have hreads := (f.parseStatements_reads tokens {}).1
    unfold SourceFile.parseTokens at hparse
    split at hparse
    · cases hparse
    · rename_i statements s hrun
      cases hparse
      rw [hrun] at hreads
      obtain ⟨trees, -, hflatten, hderives⟩ := hreads
      have hin : Inside tokens trees := by
        rw [Inside, hflatten]
        exact List.filter_sublist
      have hwrites := hderives.writes (SourceFile.legible_of_tokenize htokens) hin
      exact ⟨tokens, htokens, stmts_writes hwrites body hbody⟩

end Bracescript
