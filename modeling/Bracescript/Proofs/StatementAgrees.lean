import Bracescript.Proofs.ExpressionAgrees
import Bracescript.Proofs.StatementReads

/-!
# The statement parser agrees on alike tokens

What holds of expressions holds of statements and of whole programs: where the tokens stand changes neither the trees
nor the kind and the code of a fault.
-/

namespace Bracescript

open TokenTree

variable {σ : SpanMatch} {r r' : Stretch}

namespace Parse

/-- The trees of a statement from its first word on. -/
theorem span_word {word word' : Token} (hword : word.Alike σ word') (h : r.Alike σ r') :
    σ.Rel (Stretch.span ⟨.leaf word :: r.trees, r.stop⟩) (Stretch.span ⟨.leaf word' :: r'.trees, r'.stop⟩) :=
  Stretch.Alike.span (.cons (.leaf hword) h) rfl

theorem exprStatement_agree (h : r.Alike σ r') (hne : r.isEmpty = false) :
    Agree (Stmt.Alike σ) (exprStatement r) (exprStatement r') :=
  agree_bind (expression_agree r h) fun _ _ he => agree_newStmt (h.span hne) fun _ _ hn => .expr hn he

/-! ## Declarations and assignments -/

theorem declaredName_alike {first first' : Token} {rest rest' : List TokenTree} (hfirst : first.Alike σ first')
    (h : AlikeAll σ rest rest') :
    Option.Rel (Token.Alike σ) (declaredName first rest).1 (declaredName first' rest').1 ∧
      (declaredName first rest).2.1.Alike σ (declaredName first' rest').2.1 ∧
      AlikeAll σ (declaredName first rest).2.2 (declaredName first' rest').2.2 := by
  cases h with
  | nil => exact ⟨.none, hfirst, .nil⟩
  | cons hnext hrest =>
    cases hnext with
    | group hopener hinside hcloser => exact ⟨.none, hfirst, .cons (.group hopener hinside hcloser) hrest⟩
    | leaf hsecond =>
      simp only [declaredName, hsecond.kind]
      split
      · exact ⟨.some hfirst, hsecond, hrest⟩
      · exact ⟨.none, hfirst, .cons (.leaf hsecond) hrest⟩

theorem declaredValue_agree (constant : Bool) (name name' : Token) (h : r.Alike σ r') :
    Agree (Option.Rel (Expr.Alike σ)) (declaredValue constant name r) (declaredValue constant name' r') := by
  obtain ⟨trees, stop⟩ := r
  obtain ⟨trees', stop'⟩ := r'
  unfold declaredValue
  cases h with
  | nil =>
    dsimp only
    split
    · exact agree_fail _ _ rfl
    · exact agree_pure .none
  | cons hfirst hrest =>
    dsimp only
    rw [hfirst.isLeaf]
    split
    · exact agree_some (expression_agree _ hrest)
    · exact agree_fail _ _ rfl

theorem declaration_agree {word word' : Token} (hword : word.Alike σ word') (h : r.Alike σ r') :
    Agree (Stmt.Alike σ) (declaration word r) (declaration word' r') := by
  have hspan := span_word hword h
  obtain ⟨trees, stop⟩ := r
  obtain ⟨trees', stop'⟩ := r'
  unfold declaration
  cases h with
  | nil => exact agree_fail _ _ rfl
  | cons hfirst hrest =>
    cases hfirst with
    | group => exact agree_fail _ _ rfl
    | leaf hfirst =>
      dsimp only at hspan ⊢
      rw [hfirst.kind, hword.value]
      split
      · obtain ⟨htype, hname, hafter⟩ := declaredName_alike hfirst hrest
        refine agree_bind (declaredValue_agree _ _ _ hafter) fun _ _ hvalue => ?_
        refine agree_bind (agree_newIdent hname) fun _ _ htarget => ?_
        generalize (declaredName _ _).1 = type at htype ⊢
        generalize (declaredName _ _).1 = type' at htype ⊢
        cases htype with
        | none => exact agree_newStmt hspan fun _ _ hn => .assign hn htarget hvalue _ _
        | some htype =>
          refine agree_bind (agree_newIdent htype) fun _ _ htype => ?_
          exact agree_newStmt hspan fun _ _ hn => .typed hn htype htarget hvalue _
      · exact agree_fail _ _ rfl

theorem isAssignable_alike {e e' : Expr} (h : e.Alike σ e') : isAssignable e' = isAssignable e := by
  rw [← isAssignable_unplaced, h.unplaced, isAssignable_unplaced]

theorem assignTo_agree {before before' after after' : List TokenTree} (equals equals' : Token) (h : r.Alike σ r')
    (hne : r.isEmpty = false) (hbefore : AlikeAll σ before before') (hafter : AlikeAll σ after after') :
    Agree (Stmt.Alike σ) (assignment.assignTo r before equals after) (assignment.assignTo r' before' equals' after') := by
  unfold assignment.assignTo
  refine agree_bind (expression_agree ⟨before, equals⟩ hbefore) fun _ _ htarget => ?_
  rw [isAssignable_alike htarget]
  split
  · refine agree_bind (expression_agree ⟨after, r.stop⟩ hafter) fun _ _ hvalue => ?_
    exact agree_newStmt (h.span hne) fun _ _ hn => .assign hn htarget (.some hvalue) _ _
  · exact agree_failAt _ _ rfl

theorem assignment_agree (h : r.Alike σ r') (hne : r.isEmpty = false) :
    Agree (Stmt.Alike σ) (assignment r) (assignment r') := by
  have hspan := h.span hne
  have hcut := cutAt_alike .equals h
  unfold assignment
  generalize cutAt .equals r.trees = cut at hcut ⊢
  generalize cutAt .equals r'.trees = cut' at hcut ⊢
  cases hcut with
  | none =>
    -- without an equals sign there must be two names
    obtain ⟨trees, stop⟩ := r
    obtain ⟨trees', stop'⟩ := r'
    cases h with
    | nil => exact agree_fail _ _ rfl
    | cons hfirst hrest =>
      cases hfirst with
      | group => exact agree_fail _ _ rfl
      | leaf htype =>
        cases hrest with
        | nil => exact agree_fail _ _ rfl
        | cons hsecond hrest =>
          cases hsecond with
          | group => exact agree_fail _ _ rfl
          | leaf hname =>
            cases hrest with
            | cons => exact agree_fail _ _ rfl
            | nil =>
              dsimp only at hspan ⊢
              rw [hname.kind]
              split
              · refine agree_bind (agree_newIdent htype) fun _ _ htype => ?_
                refine agree_bind (agree_newIdent hname) fun _ _ htarget => ?_
                exact agree_newStmt hspan fun _ _ hn => .typed hn htype htarget .none _
              · exact agree_fail _ _ rfl
  | @some cut cut' hparts =>
    obtain ⟨before, equals, after⟩ := cut
    obtain ⟨before', equals', after'⟩ := cut'
    obtain ⟨hbefore, -, hafter⟩ := hparts
    dsimp only at hbefore hafter
    have hassign := assignTo_agree equals equals' h hne hbefore hafter
    cases hbefore with
    | nil => exact hassign
    | cons hfirst hrest =>
      cases hfirst with
      | group => exact hassign
      | leaf htype =>
        cases hrest with
        | nil =>
          refine agree_bind (agree_newIdent htype) fun _ _ htarget => ?_
          refine agree_bind (expression_agree ⟨after, r.stop⟩ hafter) fun _ _ hvalue => ?_
          exact agree_newStmt hspan fun _ _ hn => .assign hn htarget (.some hvalue) _ _
        | cons hsecond hrest =>
          cases hsecond with
          | group => exact hassign
          | leaf hname =>
            cases hrest with
            | cons => exact hassign
            | nil =>
              dsimp only
              rw [hname.kind]
              split
              · refine agree_bind (agree_newIdent hname) fun _ _ htarget => ?_
                refine agree_bind (expression_agree ⟨after, r.stop⟩ hafter) fun _ _ hvalue => ?_
                refine agree_bind (agree_newIdent htype) fun _ _ htype => ?_
                exact agree_newStmt hspan fun _ _ hn => .typed hn htype htarget (.some hvalue) _
              · exact hassign

/-- The longer attempt says only where an ambiguity is, not what it is. -/
theorem nameStatement_agree (h : r.Alike σ r') (hne : r.isEmpty = false) :
    Agree (Stmt.Alike σ) (nameStatement r) (nameStatement r') := by
  unfold nameStatement
  refine agree_bind (agree_attempt (assignment_agree h hne)) fun _ _ houtcome => ?_
  cases houtcome with
  | ok hs => exact agree_pure hs
  | error hfault =>
    cases hfault with
    | unsupported u => exact agree_throw (.unsupported u)
    | internal m m' => exact agree_throw (.internal m m')
    | other m m' => exact agree_throw (.other m m')
    | malformed hcode =>
      refine agree_bind (agree_attempt (exprStatement_agree h hne)) fun _ _ houtcome => ?_
      cases houtcome with
      | ok hs => exact agree_pure hs
      | error hfault =>
        cases hfault with
        | malformed => exact agree_throw (.malformed rfl)
        | unsupported u => exact agree_throw (.unsupported u)
        | internal m m' => exact agree_throw (.internal m m')
        | other m m' => exact agree_throw (.other m m')

theorem simpleStatement_agree (h : r.Alike σ r') :
    Agree (Option.Rel (Stmt.Alike σ)) (simpleStatement r) (simpleStatement r') := by
  obtain ⟨trees, stop⟩ := r
  obtain ⟨trees', stop'⟩ := r'
  unfold simpleStatement
  have hr := h
  cases h with
  | nil => exact agree_pure .none
  | cons hfirst hrest =>
    cases hfirst with
    | group => exact agree_some (exprStatement_agree hr rfl)
    | leaf ht =>
      dsimp only
      rw [ht.isKeyword, ht.isKeyword, ht.kind]
      split
      · exact agree_some (declaration_agree ht hrest)
      split
      · exact agree_some (nameStatement_agree hr rfl)
      · exact agree_some (exprStatement_agree hr rfl)

theorem returnStatement_agree {word word' : Token} (hword : word.Alike σ word') (h : r.Alike σ r') :
    Agree (Stmt.Alike σ) (returnStatement word r) (returnStatement word' r') := by
  unfold returnStatement
  refine agree_bind agree_scope fun scope scope' hscope => ?_
  subst hscope
  split
  · exact agree_fail _ _ rfl
  · refine agree_bind (bound_agree r h) fun _ _ hvalue => ?_
    exact agree_newStmt (span_word hword h) fun _ _ hn => .ret hn hvalue

theorem loopStatement_agree {word word' : Token} (hword : word.Alike σ word') (h : r.Alike σ r') :
    Agree (Stmt.Alike σ) (loopStatement word r) (loopStatement word' r') := by
  unfold loopStatement
  refine agree_bind agree_scope fun scope scope' hscope => ?_
  subst hscope
  rw [h.isEmpty, hword.value]
  split
  · exact agree_fail _ _ rfl
  split
  · exact agree_fail _ _ rfl
  · refine agree_newStmt hword.span fun _ _ hn => ?_
    split
    · exact ⟨rfl, .cons hn .nil⟩
    · exact ⟨rfl, .cons hn .nil⟩

/-! ## Headers -/

theorem expectEnd_agree (h : r.Alike σ r') : Agree (fun _ _ => True) (expectEnd r) (expectEnd r') := by
  unfold expectEnd
  rw [h.isEmpty]
  split
  · exact agree_pure trivial
  · exact agree_fail _ _ rfl

theorem condition_agree (word word' : Token) (h : r.Alike σ r') :
    Agree (Expr.Alike σ) (condition word r) (condition word' r') := by
  obtain ⟨trees, stop⟩ := r
  obtain ⟨trees', stop'⟩ := r'
  unfold condition
  cases h with
  | nil => exact agree_fail _ _ rfl
  | cons hfirst hrest =>
    cases hfirst with
    | leaf => exact agree_fail _ _ rfl
    | @group _ _ closer closer' inside inside' hopener hinside hcloser =>
      have hgoes : ∀ t t' : TokenTree, t.Alike σ t' → (!endsCondition t') = !endsCondition t := by
        intro t t' ht
        rw [ht.endsCondition]
      have htest : (conditionPart inside closer).Alike σ (conditionPart inside' closer') :=
        forall₂_takeWhile hgoes hinside
      have hleft := forall₂_dropWhile hgoes hinside
      dsimp only
      rw [hopener.kind]
      split
      · refine agree_bind (expression_agree _ htest) fun _ _ htest => ?_
        generalize List.dropWhile _ _ = left at hleft ⊢
        generalize List.dropWhile _ _ = left' at hleft ⊢
        cases hleft with
        | nil => exact agree_pure htest
        | cons => exact agree_fail _ _ rfl
      · exact agree_fail _ _ rfl

/-- What the header of a `for` holds. -/
def HeaderAlike (σ : SpanMatch) (h h' : Option Stmt × Option Expr × Option Stmt) : Prop :=
  Option.Rel (Stmt.Alike σ) h.1 h'.1 ∧ Option.Rel (Expr.Alike σ) h.2.1 h'.2.1 ∧ Option.Rel (Stmt.Alike σ) h.2.2 h'.2.2

theorem forHeader_agree (word word' : Token) (h : r.Alike σ r') :
    Agree (HeaderAlike σ) (forHeader word r) (forHeader word' r') := by
  obtain ⟨trees, stop⟩ := r
  obtain ⟨trees', stop'⟩ := r'
  unfold forHeader
  cases h with
  | nil => exact agree_fail _ _ rfl
  | cons hfirst hrest =>
    cases hfirst with
    | leaf => exact agree_fail _ _ rfl
    | @group _ _ closer closer' _ _ hopener hinside hcloser =>
      have hclauses := splitAt_alike .semicolon closer closer' hinside
      dsimp only
      rw [hopener.kind]
      split
      · generalize splitAt _ _ _ = rs at hclauses ⊢
        generalize splitAt _ _ _ = rs' at hclauses ⊢
        match rs, rs', hclauses with
        | _, _, .cons hinit (.cons htest (.cons hstep .nil)) =>
          refine agree_bind (simpleStatement_agree hinit) fun _ _ hinit => ?_
          refine agree_bind (bound_agree _ htest) fun _ _ htest => ?_
          refine agree_bind (simpleStatement_agree hstep) fun _ _ hstep => ?_
          exact agree_pure ⟨hinit, htest, hstep⟩
        | _, _, .nil => exact agree_fail _ _ rfl
        | _, _, .cons _ .nil => exact agree_fail _ _ rfl
        | _, _, .cons _ (.cons _ .nil) => exact agree_fail _ _ rfl
        | _, _, .cons _ (.cons _ (.cons _ (.cons _ _))) => exact agree_fail _ _ rfl
      · exact agree_fail _ _ rfl

/-- A type, if there is one, and a name. -/
def NameAlike (σ : SpanMatch) (x x' : Option Expr × Token) : Prop :=
  Option.Rel (Expr.Alike σ) x.1 x'.1 ∧ x.2.Alike σ x'.2

theorem parameterName_agree (place place' : Token) {head head' : List TokenTree} (h : AlikeAll σ head head') :
    Agree (NameAlike σ) (parameterName place head) (parameterName place' head') := by
  unfold parameterName
  cases h with
  | nil => exact agree_fail _ _ rfl
  | cons hfirst hrest =>
    cases hfirst with
    | group => exact agree_fail _ _ rfl
    | leaf hfirst =>
      cases hrest with
      | nil =>
        dsimp only
        rw [hfirst.kind]
        split
        · exact agree_pure ⟨.none, hfirst⟩
        · exact agree_fail _ _ rfl
      | cons hsecond hrest =>
        cases hsecond with
        | group => exact agree_fail _ _ rfl
        | leaf hname =>
          cases hrest with
          | cons => exact agree_fail _ _ rfl
          | nil =>
            dsimp only
            rw [hfirst.kind, hname.kind]
            split
            · exact agree_bind (agree_newIdent hfirst) fun _ _ htype => agree_pure ⟨.some htype, hname⟩
            · exact agree_fail _ _ rfl

theorem parameterParts_alike (h : r.Alike σ r') :
    AlikeAll σ (parameterParts r).1 (parameterParts r').1 ∧
      Option.Rel (Stretch.Alike σ) (parameterParts r).2 (parameterParts r').2 := by
  have hcut := cutAt_alike .equals h
  unfold parameterParts
  generalize cutAt .equals r.trees = cut at hcut ⊢
  generalize cutAt .equals r'.trees = cut' at hcut ⊢
  cases hcut with
  | none => exact ⟨h, .none⟩
  | some hparts => exact ⟨hparts.1, .some hparts.2.2⟩

theorem optional_agree {part part' : Option Stretch} (h : Option.Rel (Stretch.Alike σ) part part') :
    Agree (Option.Rel (Expr.Alike σ)) (optional part) (optional part') := by
  cases h with
  | none => exact agree_pure .none
  | some h => exact agree_some (expression_agree _ h)

theorem parameters_agree (seen : List Bytes) {rs rs' : List Stretch} (h : List.Forall₂ (Stretch.Alike σ) rs rs') :
    Agree (List.Forall₂ (Argument.Alike σ)) (parameters seen rs) (parameters seen rs') := by
  induction h generalizing seen with
  | nil => exact agree_pure .nil
  | cons hr _ ih =>
    rw [parameters_cons, parameters_cons, hr.isEmpty]
    split
    · exact agree_fail _ _ rfl
    rename_i hne
    obtain ⟨hhead, hdefault⟩ := parameterParts_alike hr
    refine agree_bind (parameterName_agree _ _ hhead) ?_
    rintro ⟨type, name⟩ ⟨type', name'⟩ ⟨htype, hname⟩
    dsimp only at htype hname ⊢
    rw [hname.value]
    split
    · exact agree_fail _ _ rfl
    · refine agree_bind (optional_agree hdefault) fun _ _ hvalue => ?_
      refine agree_bind (ih _) fun _ _ hparams => agree_pure (.cons ?_ hparams)
      exact Argument.alike_mk (hr.span (by simpa using hne)) htype hvalue

theorem commaList_alike {inside inside' : List TokenTree} (closer closer' : Token) (h : AlikeAll σ inside inside') :
    List.Forall₂ (Stretch.Alike σ) (commaList inside closer) (commaList inside' closer') := by
  unfold commaList
  rw [forall₂_isEmpty h]
  split
  · exact .nil
  · exact splitAt_alike .comma closer closer' h

theorem defHeader_agree (h : r.Alike σ r') :
    Agree (fun x x' : Token × List (Argument Expr) => x.1.Alike σ x'.1 ∧ List.Forall₂ (Argument.Alike σ) x.2 x'.2)
      (defHeader r) (defHeader r') := by
  obtain ⟨trees, stop⟩ := r
  obtain ⟨trees', stop'⟩ := r'
  unfold defHeader
  cases h with
  | nil => exact agree_fail _ _ rfl
  | cons hfirst hrest =>
    cases hfirst with
    | group => exact agree_fail _ _ rfl
    | leaf hname =>
      dsimp only
      rw [hname.kind]
      split
      · cases hrest with
        | nil => exact agree_fail _ _ rfl
        | cons hnext hrest =>
          cases hnext with
          | leaf => exact agree_fail _ _ rfl
          | group hopener hinside hcloser =>
            dsimp only
            rw [hopener.kind]
            split
            · refine agree_bind (parameters_agree [] (commaList_alike _ _ hinside)) fun _ _ hparams => ?_
              exact agree_pure ⟨hname, hparams⟩
            · exact agree_fail _ _ rfl
      · exact agree_fail _ _ rfl

theorem expressions_agree {rs rs' : List Stretch} (h : List.Forall₂ (Stretch.Alike σ) rs rs') :
    Agree (List.Forall₂ (Expr.Alike σ)) (expressions rs) (expressions rs') := by
  induction h with
  | nil => exact agree_pure .nil
  | cons hr _ ih =>
    exact agree_bind (expression_agree _ hr) fun _ _ he => agree_bind ih fun _ _ hes => agree_pure (.cons he hes)

theorem className_agree (h : r.Alike σ r') : Agree (Token.Alike σ) (className r) (className r') := by
  obtain ⟨trees, stop⟩ := r
  obtain ⟨trees', stop'⟩ := r'
  unfold className
  cases h with
  | nil => exact agree_fail _ _ rfl
  | cons hfirst _ =>
    cases hfirst with
    | group => exact agree_fail _ _ rfl
    | leaf hname =>
      dsimp only
      rw [hname.kind]
      split
      · exact agree_pure hname
      · exact agree_fail _ _ rfl

theorem classBases_agree (h : r.Alike σ r') : Agree (List.Forall₂ (Expr.Alike σ)) (classBases r) (classBases r') := by
  obtain ⟨trees, stop⟩ := r
  obtain ⟨trees', stop'⟩ := r'
  unfold classBases
  cases h with
  | nil => exact agree_pure .nil
  | cons hfirst _ =>
    cases hfirst with
    | leaf => exact agree_pure .nil
    | group hopener hinside hcloser =>
      dsimp only
      rw [hopener.kind]
      split
      · exact expressions_agree (commaList_alike _ _ hinside)
      · exact agree_pure .nil

theorem afterBases_alike (h : r.Alike σ r') : (afterBases r).Alike σ (afterBases r') := by
  obtain ⟨trees, stop⟩ := r
  obtain ⟨trees', stop'⟩ := r'
  have hr := h
  unfold afterBases
  cases h with
  | nil => exact hr
  | cons hfirst hrest =>
    cases hfirst with
    | leaf => exact hr
    | group hopener =>
      dsimp only
      rw [hopener.kind]
      split
      · exact hrest
      · exact hr

theorem isClassMember_alike {s s' : Stmt} (h : s.Alike σ s') : isClassMember s' = isClassMember s := by
  rw [← isClassMember_unplaced, h.unplaced, isClassMember_unplaced]

theorem checkMembers_agree {ss ss' : List Stmt} (h : List.Forall₂ (Stmt.Alike σ) ss ss') :
    Agree (fun _ _ => True) (checkMembers ss) (checkMembers ss') := by
  induction h with
  | nil => exact agree_pure trivial
  | cons hs _ ih =>
    rw [checkMembers, checkMembers, isClassMember_alike hs]
    split
    · exact ih
    · exact agree_throw (.malformed rfl)

/-! ## Statements with a block -/

theorem elseIf_alike (h : r.Alike σ r') :
    Option.Rel (fun (x x' : Token × Stretch) => x.1.Alike σ x'.1 ∧ x.2.Alike σ x'.2) (elseIf? r) (elseIf? r') := by
  obtain ⟨trees, stop⟩ := r
  obtain ⟨trees', stop'⟩ := r'
  unfold elseIf?
  cases h with
  | nil => exact .none
  | cons hfirst hrest =>
    cases hfirst with
    | group => exact .none
    | leaf ht =>
      dsimp only
      rw [ht.isKeyword]
      split
      · exact .some ⟨ht, hrest⟩
      · exact .none

theorem sequence_agree {cs cs' : List Clause} (h : List.Forall₂ (Clause.Alike σ) cs cs')
    (hstatement : ∀ c ∈ cs, ∀ c' : Clause, c.Alike σ c' → Agree (Stmt.Alike σ) (statement c) (statement c')) :
    Agree (List.Forall₂ (Stmt.Alike σ)) (sequence cs) (sequence cs') := by
  induction h with
  | nil =>
    rw [sequence]
    exact agree_pure .nil
  | cons hc _ ih =>
    rw [List.forall_mem_cons] at hstatement
    rw [sequence, sequence]
    refine agree_bind (hstatement.1 _ hc) fun _ _ hs => ?_
    exact agree_bind (ih hstatement.2) fun _ _ hss => agree_pure (.cons hs hss)

-- A block is read by its statements, a statement by its blocks, and a conditional by the one behind its `else`.
mutual

theorem statement_agree (c : Clause) {c' : Clause} (h : c.Alike σ c') :
    Agree (Stmt.Alike σ) (statement c) (statement c') := by
  have hspan : σ.Rel c.span c'.span := Stretch.Alike.span h rfl
  match c with
  | ⟨.group opener inside closer, tail, stop⟩ =>
    obtain ⟨head', tail', stop'⟩ := c'
    obtain ⟨hhead, -⟩ := List.forall₂_cons.mp h
    cases hhead
    rw [statement, statement]
    exact agree_fail _ _ rfl
  | ⟨.leaf t, tail, stop⟩ =>
    obtain ⟨head', tail', stop'⟩ := c'
    obtain ⟨⟨ht⟩, htail⟩ := List.forall₂_cons.mp h
    have hafter : Stretch.Alike σ ⟨tail, stop⟩ ⟨tail', stop'⟩ := htail
    rw [statement, statement]
    dsimp only
    rw [ht.kind, ht.value]
    split
    · exact nameStatement_agree h rfl
    · split
      · exact declaration_agree ht hafter
      split
      · exact conditional_agree ⟨tail, stop⟩ ht hafter
      split
      · refine agree_bind (forHeader_agree _ _ hafter) ?_
        rintro ⟨init, test, step⟩ ⟨init', test', step'⟩ ⟨hinit, htest, hstep⟩
        refine agree_bind agree_scope fun scope scope' hscope => ?_
        subst hscope
        refine agree_bind (agree_within _ (body_agree (Stretch.tail ⟨tail, stop⟩) hafter.tail)) fun _ _ hbody => ?_
        refine agree_bind (expectEnd_agree hafter.tail.tail) fun _ _ _ => ?_
        exact agree_newStmt hspan fun _ _ hn => .forLoop hn hinit htest hstep hbody
      split
      · refine agree_bind (condition_agree _ _ hafter) fun _ _ htest => ?_
        refine agree_bind agree_scope fun scope scope' hscope => ?_
        subst hscope
        refine agree_bind (agree_within _ (body_agree (Stretch.tail ⟨tail, stop⟩) hafter.tail)) fun _ _ hbody => ?_
        refine agree_bind (expectEnd_agree hafter.tail.tail) fun _ _ _ => ?_
        exact agree_newStmt hspan fun _ _ hn => .whileLoop hn htest hbody
      split
      · refine agree_bind (defHeader_agree hafter) ?_
        rintro ⟨name, params⟩ ⟨name', params'⟩ ⟨hname, hparams⟩
        refine agree_bind agree_scope fun scope scope' hscope => ?_
        subst hscope
        refine agree_bind (agree_within _ (body_agree (Stretch.tail (Stretch.tail ⟨tail, stop⟩)) hafter.tail.tail)) ?_
        intro _ _ hbody
        refine agree_bind (expectEnd_agree hafter.tail.tail.tail) fun _ _ _ => ?_
        dsimp only at hname hparams ⊢
        rw [hname.value]
        exact agree_newStmt hspan fun _ _ hn => .define hn _ hparams hbody
      split
      · refine agree_bind (className_agree hafter) fun name name' hname => ?_
        refine agree_bind (classBases_agree hafter.tail) fun _ _ hbases => ?_
        have hrest := afterBases_alike hafter.tail
        refine agree_bind (agree_within _ (body_agree (afterBases (Stretch.tail ⟨tail, stop⟩)) hrest)) ?_
        intro _ _ hmembers
        refine agree_bind (expectEnd_agree hrest.tail) fun _ _ _ => ?_
        refine agree_bind (checkMembers_agree hmembers) fun _ _ _ => ?_
        rw [hname.value]
        exact agree_newStmt hspan fun _ _ hn => .defineClass hn _ hbases hmembers
      split
      · exact returnStatement_agree ht hafter
      split
      · exact loopStatement_agree ht hafter
      · exact agree_fail _ _ rfl
    · exact agree_fail _ _ rfl
termination_by 4 * c.weight
decreasing_by
  all_goals
    have := Stretch.weight_tail_le ⟨tail, stop⟩
    have := Stretch.weight_tail_le (Stretch.tail ⟨tail, stop⟩)
    have := weight_afterBases_le (Stretch.tail ⟨tail, stop⟩)
    simp only [Clause.weight, weight]
    simp only [Stretch.weight] at *
    omega

theorem conditional_agree (r : Stretch) {r' : Stretch} {word word' : Token} (hword : word.Alike σ word') (h : r.Alike σ r') :
    Agree (Stmt.Alike σ) (conditional word r) (conditional word' r') := by
  have hspan := span_word hword h
  have hnested := elseIf_alike h.tail.tail.tail
  have helse : startsWithElse r'.tail.tail = startsWithElse r.tail.tail := AlikeAll.head_isKeyword h.tail.tail "else"
  rw [conditional, conditional]
  refine agree_bind (condition_agree word word' h) fun _ _ htest => ?_
  refine agree_bind (body_agree r.tail h.tail) fun _ _ hyes => ?_
  dsimp only
  rw [helse]
  split
  · split
    · rename_i nested rest hsome
      have hlight := weight_elseIf hsome
      rw [hsome] at hnested
      split
      · rename_i nested' rest' hsome'
        rw [hsome'] at hnested
        cases hnested with
        | some hparts =>
          refine agree_bind (conditional_agree rest hparts.1 hparts.2) fun _ _ hno => ?_
          exact agree_newStmt hspan fun _ _ hn => .conditional hn htest hyes (.cons hno .nil)
      · rename_i hnone
        rw [hnone] at hnested
        cases hnested
    · rename_i hnone
      rw [hnone] at hnested
      split
      · rename_i hsome
        rw [hsome] at hnested
        cases hnested
      · refine agree_bind (body_agree r.tail.tail.tail h.tail.tail.tail) fun _ _ hno => ?_
        refine agree_bind (expectEnd_agree h.tail.tail.tail.tail) fun _ _ _ => ?_
        exact agree_newStmt hspan fun _ _ hn => .conditional hn htest hyes hno
  · refine agree_bind (expectEnd_agree h.tail.tail) fun _ _ _ => ?_
    exact agree_newStmt hspan fun _ _ hn => .conditional hn htest hyes .nil
termination_by 4 * r.weight + 2
decreasing_by
  all_goals
    have := r.weight_tail_le
    have := r.tail.weight_tail_le
    have := r.tail.tail.weight_tail_le
    omega

theorem body_agree (r : Stretch) {r' : Stretch} (h : r.Alike σ r') :
    Agree (List.Forall₂ (Stmt.Alike σ)) (body r) (body r') := by
  match r with
  | ⟨[], stop⟩ =>
    obtain ⟨trees', stop'⟩ := r'
    cases h
    rw [body, body]
    exact agree_fail _ _ rfl
  | ⟨.leaf t :: rest, stop⟩ =>
    obtain ⟨trees', stop'⟩ := r'
    obtain ⟨_, rest', ⟨⟩, -, rfl⟩ := List.forall₂_cons_left_iff.mp h
    rw [body, body]
    exact agree_fail _ _ rfl
  | ⟨.group opener inside closer :: rest, stop⟩ =>
    obtain ⟨trees', stop'⟩ := r'
    obtain ⟨_, rest', ⟨⟩ | ⟨hopener, hinside, -⟩, -, rfl⟩ := List.forall₂_cons_left_iff.mp h
    rw [body, body]
    dsimp only
    rw [hopener.kind]
    split
    · have hlight := weightAll_statements closer inside
      exact sequence_agree (statements_alike closer _ hinside) fun c hc c' hcc' => statement_agree c hcc'
    · exact agree_fail _ _ rfl
termination_by 4 * r.weight + 1
decreasing_by
  have := Clause.weight_le_of_mem hc
  simp only [Stretch.weight, weightAll, weight]
  omega

end

end Parse

/-! ## Programs -/

theorem SourceFile.parseStatements_agree (f f' : SourceFile) {tokens tokens' : List Token}
    (h : List.Forall₂ (Token.Alike σ) (significant tokens) (significant tokens')) :
    Parse.Agree (List.Forall₂ (Stmt.Alike σ)) (f.parseStatements tokens) (f'.parseStatements tokens') := by
  obtain ⟨htrees, hfault⟩ := nest_alike h
  unfold parseStatements
  generalize nest (significant tokens) = nested at htrees hfault ⊢
  generalize nest (significant tokens') = nested' at htrees hfault ⊢
  obtain ⟨trees, fault⟩ := nested
  obtain ⟨trees', fault'⟩ := nested'
  cases hfault with
  | none =>
    exact Parse.sequence_agree (statements_alike _ _ htrees) fun c _ c' hc => Parse.statement_agree c hc
  | some hcode =>
    obtain ⟨hclauses, -⟩ := splitStatements_alike f.endToken f'.endToken .nil htrees
    refine Parse.agree_bind (Parse.sequence_agree hclauses fun c _ c' hc => Parse.statement_agree c hc) fun _ _ _ => ?_
    exact Parse.agree_throw (.malformed hcode)

/-- The program of alike tokens has alike statements. -/
theorem SourceFile.parseTokens_matching (f f' : SourceFile) {tokens tokens' : List Token}
    (h : List.Forall₂ (Token.Alike σ) (significant tokens) (significant tokens')) :
    Matching (fun p p' => List.Forall₂ (Stmt.Alike σ) p.statements p'.statements) (f.parseTokens tokens)
      (f'.parseTokens tokens') := by
  obtain ⟨hmatch, -⟩ := f.parseStatements_agree f' h {} {} rfl
  unfold parseTokens
  generalize f.parseStatements tokens {} = run at hmatch ⊢
  generalize f'.parseStatements tokens' {} = run' at hmatch ⊢
  obtain ⟨result, state⟩ := run
  obtain ⟨result', state'⟩ := run'
  cases hmatch with
  | ok hss => exact .ok hss
  | error hfaults => exact .error hfaults

end Bracescript
