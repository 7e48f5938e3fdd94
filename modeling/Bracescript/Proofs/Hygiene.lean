import Bracescript.Proofs.Emission

/-!
# Names of the program and names of the library

A program's names are emitted behind a dollar sign. Four names of the library and the debug slot have one, too, so a
program that binds such a name takes the place of the library's binding; no other name can do so.
-/

namespace Bracescript

open Target (userName)

namespace Target

/-- The prelude binds the emitted form of the name. -/
def IsTaken (name : Bytes) : Prop := userName name ∈ exports ∨ userName name = debugSlot

instance : DecidablePred IsTaken := fun _ => inferInstanceAs (Decidable (_ ∨ _))

/-- The names whose emitted form the prelude binds. -/
def takenNames : List Bytes := ["any", "null", "true", "false", "__debug__"]

theorem exports_dollar {text : Bytes} (h : text ∈ exports) (hdollar : text.head? = some (Bytes.ascii '$')) :
    text ∈ takenNames.map userName := by
  have htable : ∀ text ∈ exports, text.head? = some (Bytes.ascii '$') → text ∈ takenNames.map userName := by decide
  exact htable text h hdollar

theorem userName_injective {a b : Bytes} (h : userName a = userName b) : a = b := List.append_cancel_left h

theorem isTaken_iff (name : Bytes) : IsTaken name ↔ name ∈ takenNames := by
  constructor
  · rintro (h | h)
    · obtain ⟨taken, htaken, heq⟩ := List.mem_map.mp (exports_dollar h rfl)
      rwa [← userName_injective heq]
    · rw [userName_injective (b := "__debug__") (h.trans (by decide))]
      decide
  · intro h
    have htable : ∀ name ∈ takenNames, IsTaken name := by decide
    exact htable name h

end Target

/-! ## Names that a program binds -/

/-- The name that a declaration of this target binds. -/
def Expr.declared : Expr → List Bytes
  | .ident _ name => [name]
  | _ => []

mutual

/-- The names that a statement binds, those of all scopes in it included. -/
def Stmt.bound : Stmt → List Bytes
  | .assign _ declares _ target _ => if declares then target.declared else []
  | .typed _ _ _ target _ => target.declared
  | .conditional _ _ yes no => Stmt.boundAll yes ++ Stmt.boundAll no
  | .forLoop _ init _ step body => Stmt.boundOption init ++ (Stmt.boundOption step ++ Stmt.boundAll body)
  | .whileLoop _ _ body => Stmt.boundAll body
  | .define _ name params body => name :: (params.map Argument.name ++ Stmt.boundAll body)
  | .defineClass _ name _ body => name :: Stmt.boundMembers body
  | _ => []

def Stmt.boundOption : Option Stmt → List Bytes
  | none => []
  | some s => s.bound

def Stmt.boundAll : List Stmt → List Bytes
  | [] => []
  | s :: ss => s.bound ++ Stmt.boundAll ss

/-- A member of a class is a property and no binding, but a method has parameters and a body. -/
def Stmt.boundMember : Stmt → List Bytes
  | .define _ _ params body => params.map Argument.name ++ Stmt.boundAll body
  | _ => []

def Stmt.boundMembers : List Stmt → List Bytes
  | [] => []
  | s :: ss => s.boundMember ++ Stmt.boundMembers ss

end

def Program.bound (p : Program) : List Bytes := Stmt.boundAll p.statements

theorem Stmt.exists_of_mem_boundAll {name : Bytes} {ss : List Stmt} (h : name ∈ Stmt.boundAll ss) :
    ∃ s ∈ ss, name ∈ s.bound := by
  induction ss with
  | nil => simp [Stmt.boundAll] at h
  | cons s ss ih =>
    rw [Stmt.boundAll, List.mem_append] at h
    rcases h with h | h
    · exact ⟨s, List.mem_cons_self, h⟩
    · obtain ⟨t, ht, hname⟩ := ih h
      exact ⟨t, List.mem_cons_of_mem _ ht, hname⟩

theorem Stmt.exists_of_mem_boundMembers {name : Bytes} {ss : List Stmt} (h : name ∈ Stmt.boundMembers ss) :
    ∃ s ∈ ss, name ∈ s.boundMember := by
  induction ss with
  | nil => simp [Stmt.boundMembers] at h
  | cons s ss ih =>
    rw [Stmt.boundMembers, List.mem_append] at h
    rcases h with h | h
    · exact ⟨s, List.mem_cons_self, h⟩
    · obtain ⟨t, ht, hname⟩ := ih h
      exact ⟨t, List.mem_cons_of_mem _ ht, hname⟩

theorem Stmt.exists_of_mem_boundOption {name : Bytes} {clause : Option Stmt} (h : name ∈ Stmt.boundOption clause) :
    ∃ s, clause = some s ∧ name ∈ s.bound := by
  cases clause with
  | none => simp [Stmt.boundOption] at h
  | some s => exact ⟨s, rfl, h⟩

/-! ## Bound names in the emitted text -/

namespace Emit

variable {α : Type} {word : Bytes}

/-- A text that is emitted holds the word. -/
def Shows (word : Bytes) (x : Emitted) : Prop := ∀ text, x = .ok text → word <:+: text

theorem shows_ok {text : Bytes} (h : word <:+: text) : Shows word (.ok text) := by
  intro text' htext
  cases htext
  exact h

theorem shows_bind {x : Except Unsupported α} {f : α → Emitted} (h : ∀ a, x = .ok a → Shows word (f a)) :
    Shows word (x >>= f) := by
  cases x with
  | error u =>
    intro text htext
    cases htext
  | ok a => exact h a rfl

theorem infix_join {text : Bytes} {texts : List Bytes} (h : text ∈ texts) : text <:+: Bytes.join "," texts := by
  unfold Bytes.join
  induction texts with
  | nil => cases h
  | cons first texts ih =>
    cases texts with
    | nil =>
      rw [List.mem_singleton] at h
      simp [h]
    | cons second texts =>
      rw [List.intercalate_cons_cons]
      rcases List.mem_cons.mp h with rfl | h
      · exact List.infix_append_of_infix_left (List.infix_append_of_infix_left List.infix_rfl)
      · exact List.infix_append_of_infix_right (ih h)

theorem parameters_shows {params : List (Argument Expr)} {texts : List Bytes} (h : parameters params = .ok texts)
    {p : Argument Expr} (hp : p ∈ params) : ∃ text ∈ texts, userName p.name <:+: text := by
  induction params generalizing texts with
  | nil => cases hp
  | cons q params ih =>
    rw [parameters] at h
    cases hq : parameter q with
    | error u =>
      rw [hq] at h
      cases h
    | ok first =>
      cases hrest : parameters params with
      | error u =>
        rw [hq, hrest] at h
        cases h
      | ok rest =>
        rw [hq, hrest] at h
        cases h
        rcases List.mem_cons.mp hp with rfl | hp
        · refine ⟨first, List.mem_cons_self, ?_⟩
          have hshows : Shows (userName p.name) (parameter p) := by
            unfold parameter
            split
            · exact shows_ok List.infix_rfl
            · refine shows_bind fun value _ => shows_ok ?_
              exact List.infix_append_of_infix_left (List.infix_append_of_infix_left List.infix_rfl)
          exact hshows first hq
        · obtain ⟨text, htext, hname⟩ := ih hrest hp
          exact ⟨text, List.mem_cons_of_mem _ htext, hname⟩

theorem infix_function_params {name entry body : Bytes} {params : List Bytes} (h : word <:+: Bytes.join "," params) :
    word <:+: function name params entry body := by
  unfold function
  iterate 6 apply List.infix_append_of_infix_left
  exact List.infix_append_of_infix_right h

theorem infix_function_body {name entry body : Bytes} {params : List Bytes} (h : word <:+: body) :
    word <:+: function name params entry body := by
  unfold function
  iterate 3 apply List.infix_append_of_infix_left
  exact List.infix_append_of_infix_right h

theorem stmts_shows : {ss : List Stmt} → {s : Stmt} → s ∈ ss → Shows word (stmt s) → Shows word (stmts ss)
  | [s], _, hs, h => by
    rw [List.mem_singleton] at hs
    rw [stmts, ← hs]
    exact h
  | first :: second :: ss, s, hs, h => by
    rw [stmts]
    · refine shows_bind fun text htext => shows_bind fun rest hrest => shows_ok ?_
      rcases List.mem_cons.mp hs with rfl | hs
      · exact List.infix_append_of_infix_left (List.infix_append_of_infix_left (h text htext))
      · exact List.infix_append_of_infix_right (stmts_shows hs h rest hrest)
    · exact List.cons_ne_nil second ss

theorem members_shows {ss : List Stmt} {s : Stmt} (hs : s ∈ ss) (h : Shows word (member s)) {texts : List Bytes}
    (htexts : members ss = .ok texts) : ∃ text ∈ texts, word <:+: text := by
  induction ss generalizing texts with
  | nil => cases hs
  | cons first ss ih =>
    rw [members] at htexts
    cases hfirst : member first with
    | error u =>
      rw [hfirst] at htexts
      cases htexts
    | ok text =>
      cases hrest : members ss with
      | error u =>
        rw [hfirst, hrest] at htexts
        cases htexts
      | ok rest =>
        rw [hfirst, hrest] at htexts
        cases htexts
        rcases List.mem_cons.mp hs with rfl | hs
        · exact ⟨text, List.mem_cons_self, h text hfirst⟩
        · obtain ⟨later, hlater, hword⟩ := ih hs hrest
          exact ⟨later, List.mem_cons_of_mem _ hlater, hword⟩

theorem step_shows {clause : Option Stmt} {s : Stmt} (hs : clause = some s) (h : Shows word (stmt s)) :
    Shows word (step? clause) := by
  rw [hs, step?]
  exact h

/-- A function shows its parameters and what its body shows. -/
theorem function_shows {name : Bytes} {params : List (Argument Expr)} {body : List Stmt} {before : Bytes}
    (h : (∃ p ∈ params, word = userName p.name) ∨ ∃ s ∈ body, Shows word (stmt s)) :
    Shows word (do
      let params' ← parameters params
      let entry ← conversions params
      let body ← stmts body
      return before ++ function name params' entry body) := by
  refine shows_bind fun params' hparams => shows_bind fun entry _ => shows_bind fun text htext => shows_ok ?_
  refine List.infix_append_of_infix_right ?_
  rcases h with ⟨p, hp, rfl⟩ | ⟨s, hs, h⟩
  · obtain ⟨shown, hshown, hname⟩ := parameters_shows hparams hp
    exact infix_function_params (hname.trans (infix_join hshown))
  · exact infix_function_body (stmts_shows hs h text htext)

theorem defineClass_shows {n : Node} {name : Bytes} {bases : List Expr} {body : List Stmt}
    (h : word = userName name ∨ ∃ s ∈ body, Shows word (member s)) : Shows word (stmt (.defineClass n name bases body)) := by
  have htext : ∀ (base : Bytes) (texts : List Bytes), members body = .ok texts →
      word <:+: "const " ++ userName name ++ "=" ++ Target.createSubclass ++ "(" ++ base ++ "," ++ Target.quote name
        ++ ",\x7b" ++ Bytes.join "," texts ++ "\x7d)" := by
    intro base texts htexts
    rcases h with rfl | ⟨s, hs, h⟩
    · iterate 9 apply List.infix_append_of_infix_left
      exact List.infix_append_of_infix_right List.infix_rfl
    · obtain ⟨text, htext, hword⟩ := members_shows hs h htexts
      refine List.infix_append_of_infix_left (List.infix_append_of_infix_right ?_)
      exact hword.trans (infix_join htext)
  match bases with
  | [] =>
    rw [stmt]
    exact shows_bind fun base _ => shows_bind fun texts htexts => shows_ok (htext base texts htexts)
  | [base] =>
    rw [stmt]
    · exact shows_bind fun base _ => shows_bind fun texts htexts => shows_ok (htext base texts htexts)
    · simp
  | _ :: _ :: bases =>
    rw [stmt]
    intro text htext
    cases htext

theorem declared_shows {target : Expr} {name : Bytes} (h : name ∈ target.declared) : Shows (userName name) (expr target) := by
  cases target with
  | ident n name' =>
    rw [List.mem_singleton.mp h, expr]
    exact shows_ok List.infix_rfl
  | _ => cases h

/-- A declaration shows its target. -/
theorem declaration_shows {constant : Bool} {target : Expr} {name : Bytes} {value : Emitted} (h : name ∈ target.declared) :
    Shows (userName name) (do
      let target ← expr target
      let value ← value
      return declarator constant ++ target ++ "=" ++ value) := by
  refine shows_bind fun text htext => shows_bind fun value _ => shows_ok ?_
  refine List.infix_append_of_infix_left (List.infix_append_of_infix_left (List.infix_append_of_infix_right ?_))
  exact declared_shows h text htext

/-- What a statement binds stands in its text, and what a member of a class binds in the text of the member. -/
theorem bound_shows {s : Stmt} (h : s.WellFormed) :
    (∀ name ∈ s.bound, Shows (userName name) (stmt s)) ∧ ∀ name ∈ s.boundMember, Shows (userName name) (member s) := by
  induction h with
  | declare | typed =>
    refine ⟨fun name hname => ?_, List.forall_mem_nil _⟩
    rw [stmt]
    exact declaration_shows hname
  | conditional _ _ _ ihyes ihno =>
    refine ⟨fun name hname => ?_, List.forall_mem_nil _⟩
    rw [stmt]
    refine shows_bind fun test _ => shows_bind fun yesText hyes => ?_
    rw [Stmt.bound, List.mem_append] at hname
    rcases hname with hname | hname
    · obtain ⟨s, hs, hname⟩ := Stmt.exists_of_mem_boundAll hname
      have hword := stmts_shows hs ((ihyes s hs).1 name hname) yesText hyes
      have hhead : userName name <:+: "if(" ++ test ++ ")\x7b" ++ yesText ++ "\x7d" :=
        List.infix_append_of_infix_left (List.infix_append_of_infix_right hword)
      dsimp only
      split
      · exact shows_ok hhead
      · refine shows_bind fun noText _ => shows_ok ?_
        iterate 3 apply List.infix_append_of_infix_left
        exact hhead
    · obtain ⟨s, hs, hname⟩ := Stmt.exists_of_mem_boundAll hname
      dsimp only
      split
      · rename_i hempty
        rw [List.isEmpty_iff.mp hempty] at hs
        cases hs
      · refine shows_bind fun noText hno => shows_ok ?_
        have hword := stmts_shows hs ((ihno s hs).1 name hname) noText hno
        exact List.infix_append_of_infix_left (List.infix_append_of_infix_right hword)
  | @forLoop _ init step _ body _ _ _ _ ihinit ihstep ihbody =>
    refine ⟨fun name hname => ?_, List.forall_mem_nil _⟩
    rw [stmt]
    refine shows_bind fun initText hinit => ?_
    have hrest : ∀ test : Bytes, Shows (userName name) (do
        let step ← step? step
        let body ← stmts body
        return "for(" ++ initText ++ ";" ++ test ++ ";" ++ step ++ ")\x7b" ++ body ++ "\x7d") := by
      intro test
      refine shows_bind fun step hstep => shows_bind fun body hbody => shows_ok ?_
      rw [Stmt.bound, List.mem_append, List.mem_append] at hname
      rcases hname with hname | hname | hname
      · obtain ⟨s, hs, hname⟩ := Stmt.exists_of_mem_boundOption hname
        have hword := step_shows hs ((ihinit s hs).1 name hname) initText hinit
        iterate 7 apply List.infix_append_of_infix_left
        exact List.infix_append_of_infix_right hword
      · obtain ⟨s, hs, hname⟩ := Stmt.exists_of_mem_boundOption hname
        have hword := step_shows hs ((ihstep s hs).1 name hname) step hstep
        iterate 3 apply List.infix_append_of_infix_left
        exact List.infix_append_of_infix_right hword
      · obtain ⟨s, hs, hname⟩ := Stmt.exists_of_mem_boundAll hname
        have hword := stmts_shows hs ((ihbody s hs).1 name hname) body hbody
        exact List.infix_append_of_infix_left (List.infix_append_of_infix_right hword)
    split
    · exact shows_bind fun test _ => hrest test
    · exact shows_bind fun test _ => hrest test
  | whileLoop _ _ ihbody =>
    refine ⟨fun name hname => ?_, List.forall_mem_nil _⟩
    rw [stmt]
    refine shows_bind fun test _ => shows_bind fun body hbody => shows_ok ?_
    obtain ⟨s, hs, hname⟩ := Stmt.exists_of_mem_boundAll hname
    have hword := stmts_shows hs ((ihbody s hs).1 name hname) body hbody
    exact List.infix_append_of_infix_left (List.infix_append_of_infix_right hword)
  | @define _ name params body _ _ _ _ ihbody =>
    have hinner : ∀ word ∈ params.map Argument.name ++ Stmt.boundAll body,
        (∃ p ∈ params, userName word = userName p.name) ∨ ∃ s ∈ body, Shows (userName word) (stmt s) := by
      intro word hword
      rw [List.mem_append, List.mem_map] at hword
      rcases hword with ⟨p, hp, rfl⟩ | hword
      · exact .inl ⟨p, hp, rfl⟩
      · obtain ⟨s, hs, hword⟩ := Stmt.exists_of_mem_boundAll hword
        exact .inr ⟨s, hs, (ihbody s hs).1 word hword⟩
    rw [stmt, member]
    refine ⟨List.forall_mem_cons.mpr ⟨?_, fun word hword => function_shows (hinner word hword)⟩,
      fun word hword => function_shows (hinner word hword)⟩
    refine shows_bind fun params' _ => shows_bind fun entry _ => shows_bind fun text _ => shows_ok ?_
    exact List.infix_append_of_infix_left (List.infix_append_of_infix_left (List.infix_append_of_infix_right List.infix_rfl))
  | defineClass _ _ _ ihbody =>
    refine ⟨List.forall_mem_cons.mpr ⟨defineClass_shows (.inl rfl), fun word hword => ?_⟩, List.forall_mem_nil _⟩
    obtain ⟨s, hs, hword⟩ := Stmt.exists_of_mem_boundMembers hword
    exact defineClass_shows (.inr ⟨s, hs, (ihbody s hs).2 word hword⟩)
  | _ => exact ⟨List.forall_mem_nil _, List.forall_mem_nil _⟩

end Emit

theorem Program.bound_shows {f : SourceFile} {p : Program} (h : f.parse = .ok p) {body : Bytes} (hbody : p.emitBody = .ok body)
    {name : Bytes} (hname : name ∈ p.bound) : userName name <:+: body := by
  obtain ⟨tokens, htokens⟩ := SourceFile.exists_tokens_of_parse h
  obtain ⟨s, hs, hname⟩ := Stmt.exists_of_mem_boundAll hname
  have hwell := SourceFile.wellFormed_of_parseTokens htokens s hs
  exact Emit.stmts_shows hs ((Emit.bound_shows hwell).1 name hname) body hbody

theorem Program.exists_body_of_emit {p : Program} {o : EmitOptions} {text : Bytes} (h : p.emit o = .ok text) :
    ∃ body, p.emitBody = .ok body ∧ text = o.prelude ++ body ++ o.epilogue := by
  unfold emit at h
  cases hbody : p.emitBody with
  | error u =>
    rw [hbody] at h
    cases h
  | ok body =>
    rw [hbody] at h
    cases h
    exact ⟨body, rfl, rfl⟩

/-- A function of the name. -/
def namedFunction (name : Bytes) : SourceFile := ⟨0, "name.uns", "def " ++ name ++ "() \x7b\x7d", 0⟩

theorem exists_namedFunction {name : Bytes} (h : name ∈ Target.takenNames) :
    ∃ p body, (namedFunction name).parse = .ok p ∧ p.emitBody = .ok body ∧ p.bound = [name] := by
  have htable : ∀ name ∈ Target.takenNames, ((namedFunction name).parse.toOption.any fun p =>
      p.emitBody.toOption.any fun _ => p.bound == [name]) = true := by
    decide +kernel
  obtain ⟨p, body, hparse, hbody, hbound⟩ := SourceFile.exists_emitted (htable name h)
  exact ⟨p, body, hparse, hbody, eq_of_beq hbound⟩

/-- Each name that a program binds stands in its text behind the dollar sign. The prelude binds none of them exactly
where the program binds none of five names, and each of the five is bound by a program that has a text. -/
theorem Program.bound_free_iff {f : SourceFile} {p : Program} {o : EmitOptions} {text : Bytes}
    (hparse : f.parse = .ok p) (hemit : p.emit o = .ok text) :
    (∃ body, text = o.prelude ++ body ++ o.epilogue ∧ ∀ name ∈ p.bound, userName name <:+: body) ∧
    ((∀ name ∈ p.bound, ¬ Target.IsTaken name) ↔ ∀ name ∈ Target.takenNames, name ∉ p.bound) ∧
    ∀ name ∈ Target.takenNames, ∃ (g : SourceFile) (q : Program) (body : Bytes),
      g.parse = .ok q ∧ q.emitBody = .ok body ∧ name ∈ q.bound := by
  refine ⟨?_, ⟨?_, ?_⟩, fun name hname => ?_⟩
  · obtain ⟨body, hbody, htext⟩ := Program.exists_body_of_emit hemit
    exact ⟨body, htext, fun name hname => Program.bound_shows hparse hbody hname⟩
  · intro hfree name htaken hname
    exact hfree name hname ((Target.isTaken_iff name).mpr htaken)
  · intro hnone name hname htaken
    exact hnone name ((Target.isTaken_iff name).mp htaken) hname
  · obtain ⟨q, body, hq, hbody, hbound⟩ := exists_namedFunction hname
    refine ⟨namedFunction name, q, body, hq, hbody, ?_⟩
    rw [hbound]
    exact List.mem_singleton_self name

/-- Names that differ from the five in one letter. -/
def nearNames : SourceFile := ⟨0, "near.uns", "def Null(_true) \x7b class anY \x7b\x7d \x7d", 0⟩

theorem nearNames_free :
    ∃ p text, nearNames.parse = .ok p ∧ p.emit {} = .ok text ∧ p.bound = [("Null" : Bytes), "_true", "anY"] ∧
      ∀ name ∈ p.bound, ¬ Target.IsTaken name := by
  have hread : (nearNames.parse.toOption.any fun p =>
      p.emitBody.toOption.any fun _ => p.bound == [("Null" : Bytes), "_true", "anY"]) = true := by
    decide +kernel
  obtain ⟨p, body, hparse, hbody, hbound⟩ := SourceFile.exists_emitted hread
  have hemit : p.emit {} = .ok (({} : EmitOptions).prelude ++ body ++ ({} : EmitOptions).epilogue) := by
    rw [Program.emit, hbody]
    rfl
  refine ⟨p, _, hparse, hemit, eq_of_beq hbound, ?_⟩
  apply (Program.bound_free_iff hparse hemit).2.1.mpr
  rw [eq_of_beq hbound]
  decide

/-- A parameter in the place of the value that a bare return gives. -/
def nullParameter : SourceFile := ⟨0, "null.uns", "def f(null) \x7b return; \x7d", 0⟩

theorem nullParameter_captures :
    ∃ p, nullParameter.parse = .ok p ∧ ("null" : Bytes) ∈ p.bound ∧ Target.IsTaken "null" ∧
      p.emitBody = .ok "const $f=func(function($null)\x7breturn $null\x7d,\"f\")" := by
  have hread : (nullParameter.parse.toOption.any fun p => p.emitBody.toOption.any fun body =>
      ("null" : Bytes) ∈ p.bound &&
        body == Bytes.ofString "const $f=func(function($null)\x7breturn $null\x7d,\"f\")") = true := by
    decide +kernel
  obtain ⟨p, body, hparse, hbody, htest⟩ := SourceFile.exists_emitted hread
  obtain ⟨hbound, htext⟩ := (Bool.and_eq_true _ _).mp htest
  cases eq_of_beq htext
  exact ⟨p, hparse, of_decide_eq_true hbound, by decide, hbody⟩

end Bracescript
