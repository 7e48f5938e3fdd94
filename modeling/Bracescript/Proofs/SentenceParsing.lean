import Mathlib.Data.List.TakeWhile
import Bracescript.Proofs.PhraseParsing
import Bracescript.Proofs.Sentence
import Bracescript.Proofs.StatementReads

/-!
# Sentences are read as they are meant

The parser finds the statements of sentences in the tokens that are written for them, wherever they stand.
-/

namespace Bracescript

open Item TokenTree

section

variable {kind : TokenKind} {us : List TokenTree} (h : ∀ t ∈ us, t.isLeaf kind = false)
include h

theorem cutAt_of_none : cutAt kind us = none := by
  induction us with
  | nil => rfl
  | cons t us ih =>
    rw [List.forall_mem_cons] at h
    rw [cutAt, if_neg (by simp [h.1]), ih h.2, Option.map_none]

theorem cutAt_append {mark : Token} (hmark : mark.kind = kind) (vs : List TokenTree) :
    cutAt kind (us ++ .leaf mark :: vs) = some (us, mark, vs) := by
  induction us with
  | nil => simp [cutAt, isLeaf, hmark, first]
  | cons t us ih =>
    rw [List.forall_mem_cons] at h
    rw [List.cons_append, cutAt, if_neg (by simp [h.1]), ih h.2, Option.map_some]

end

theorem unplacedAll_eq_braces_cons {ts inside more : List TokenTree} (h : unplacedAll ts = braces inside :: more) :
    ∃ o inner c us, ts = .group o inner c :: us ∧ o.kind = .leftBrace ∧ unplacedAll inner = inside ∧
      unplacedAll us = more := unplacedAll_eq_group_cons h

theorem symbolToken_kind (symbol : Bytes) : (symbolToken symbol).kind ≠ .identifier := by
  simp only [symbolToken, Token.mark]
  split <;> simp

namespace Parse

variable {here : Scope} {ts us : List TokenTree} {stop : Token}

theorem newIdent_gives (t : Token) : Gives here (newIdent t) fun e => e.unplaced = .ident .blank t.value :=
  gives_newExpr fun n => by rw [Expr.unplaced]

theorem some_phrase (p : Phrase) (h : unplacedAll ts = p.forest) :
    Gives here (expression ⟨ts, stop⟩ >>= fun e => pure (some e)) fun value =>
      Expr.unplacedOption value = Phrase.treeOption (some p) := by
  refine gives_bind (expression_phrase p ts stop h) fun e he => gives_pure ?_
  rw [Expr.unplacedOption, he, Phrase.treeOption]

theorem bound_phrase (p : Option Phrase) (h : unplacedAll ts = Phrase.forestOption p) :
    Gives here (bound ⟨ts, stop⟩) fun value => Expr.unplacedOption value = Phrase.treeOption p := by
  rw [bound]
  cases p with
  | none =>
    obtain rfl := unplacedAll_eq_nil h
    exact gives_pure rfl
  | some p =>
    rw [if_neg (by simp [Stretch.isEmpty, Phrase.ne_nil_of_unplacedAll h])]
    exact some_phrase p h

/-! ## Declarations -/

theorem declaredValue_phrase {constant : Bool} {name : Token} (value : Option Phrase)
    (known : constant = true → value.isSome = true) (h : unplacedAll ts = Phrase.valueForest value) :
    Gives here (declaredValue constant name ⟨ts, stop⟩) fun v => Expr.unplacedOption v = Phrase.treeOption value := by
  cases value with
  | none =>
    obtain rfl := unplacedAll_eq_nil h
    have hconstant : ¬constant = true := fun hc => absurd (known hc) (by simp)
    simp only [declaredValue]
    rw [if_neg hconstant]
    exact gives_pure rfl
  | some p =>
    obtain ⟨equals, us, rfl, hequals, -, hus⟩ := unplacedAll_eq_leaf_cons h
    simp only [declaredValue]
    rw [if_pos (by simp [isLeaf, hequals])]
    exact some_phrase p hus

/-- What follows a declared name is no name. -/
theorem declaredName_value {first : Token} {value : Option Phrase} (h : unplacedAll us = Phrase.valueForest value) :
    declaredName first us = (none, first, us) := by
  cases value with
  | none =>
    obtain rfl := unplacedAll_eq_nil h
    rfl
  | some p =>
    obtain ⟨equals, us, rfl, hequals, -, -⟩ := unplacedAll_eq_leaf_cons h
    rw [declaredName, if_neg (by simp [hequals])]

theorem declaration_sentence {word : Token} (constant : Bool) (type : Option Bytes) (x : Bytes) (value : Option Phrase)
    (known : constant = true → value.isSome = true) (hword : word.value = if constant then ("const" : Bytes) else "let")
    (h : unplacedAll ts = nameForest type x ++ Phrase.valueForest value) :
    Gives here (declaration word ⟨ts, stop⟩) fun s =>
      s.unplaced = (Simple.declare constant type x value known).tree := by
  have hconstant : (word.value == "const") = constant := by
    rw [hword]
    cases constant <;> decide
  cases type with
  | none =>
    obtain ⟨first, us, rfl, hfirst, rfl, hus⟩ := unplacedAll_eq_leaf_cons h
    simp only [declaration, hfirst, if_true, declaredName_value hus, hconstant]
    refine gives_bind (declaredValue_phrase value known hus) fun v hv => ?_
    refine gives_bind (newIdent_gives first) fun target htarget => gives_newStmt fun n => ?_
    rw [Stmt.unplaced, htarget, hv, Simple.tree]
  | some type =>
    obtain ⟨first, us, rfl, hfirst, rfl, hus⟩ := unplacedAll_eq_leaf_cons h
    obtain ⟨name, us, rfl, hname, rfl, hrest⟩ := unplacedAll_eq_leaf_cons hus
    simp only [declaration, hfirst, hname, if_true, declaredName, hconstant]
    refine gives_bind (declaredValue_phrase value known hrest) fun v hv => ?_
    refine gives_bind (newIdent_gives name) fun target htarget => ?_
    refine gives_bind (newIdent_gives first) fun type htype => gives_newStmt fun n => ?_
    rw [Stmt.unplaced, htype, htarget, hv, Simple.tree]

/-! ## Names and their links -/

theorem collect_trail (e : Trail) (h : unplacedAll us = e.forest) {rest : List TokenTree} {Q : List Item → Prop}
    (hrest : ∀ t, t.unplaced = e.tree → Gives here (collect [.operand t] rest stop) Q) :
    Gives here (collect [] (us ++ rest) stop) Q := by
  induction e generalizing us rest with
  | name x =>
    obtain ⟨t, us, rfl, hkind, rfl, hnil⟩ := unplacedAll_eq_leaf_cons h
    obtain rfl := unplacedAll_eq_nil hnil
    rw [List.cons_append, List.nil_append, collect_leaf (by simp [hkind])]
    refine gives_bind (tokenItem_name hkind) ?_
    rintro _ ⟨e, rfl, he⟩
    exact hrest e he
  | extend target link ih =>
    obtain ⟨us, vs, rfl, hus, hvs⟩ := unplacedAll_eq_append h
    rw [List.append_assoc]
    refine ih hus fun t ht => collect_link link vs hvs t fun e he => hrest e ?_
    rw [he, ht, Trail.tree]

theorem expression_trail (e : Trail) (h : unplacedAll ts = e.forest) :
    Gives here (expression ⟨ts, stop⟩) fun t => t.unplaced = e.tree := by
  rw [expression_eq (Trail.ne_nil_of_unplacedAll [] (by simpa using h)), ← List.append_nil ts]
  refine gives_bind (P := fun items => ∃ t, items = [.operand t] ∧ t.unplaced = e.tree) ?_ ?_
  · refine collect_trail e h fun t ht => ?_
    rw [collect]
    exact gives_pure ⟨t, rfl, ht⟩
  · rintro _ ⟨t, rfl, ht⟩
    rw [Reduction.reduce_operand]
    exact gives_pure ht

theorem expression_step (e : Trail) {symbol : Bytes} (known : isBehind symbol = true)
    (h : unplacedAll ts = e.forest ++ [symbolLeaf symbol]) :
    Gives here (expression ⟨ts, stop⟩) fun t => t.unplaced = .unary .blank symbol e.tree true := by
  rw [expression_eq (Trail.ne_nil_of_unplacedAll _ h)]
  obtain ⟨us, vs, rfl, hus, hvs⟩ := unplacedAll_eq_append h
  obtain ⟨t, vs, rfl, hsymbol, hnil⟩ := unplacedAll_eq_symbol_cons hvs
  obtain rfl := unplacedAll_eq_nil hnil
  refine gives_bind (P := fun items => ∃ e', items = [.operand e', .operator symbol t] ∧ e'.unplaced = e.tree) ?_ ?_
  · refine collect_trail e hus fun e' he => ?_
    rw [collect_symbol hsymbol, collect]
    exact gives_pure ⟨e', rfl, he⟩
  · rintro _ ⟨e', rfl, he⟩
    refine Reduction.reduce_behind known _ ▸ gives_newExpr fun n => ?_
    rw [Expr.unplaced, he]

/-! ## Statements that start with a name -/

theorem exprStatement_gives {e : Expr} (h : Gives here (expression ⟨ts, stop⟩) fun t => t.unplaced = e) :
    Gives here (exprStatement ⟨ts, stop⟩) fun s => s.unplaced = .expr .blank e := by
  refine gives_bind h fun t ht => gives_newStmt fun n => ?_
  rw [Stmt.unplaced, ht]

theorem nameStatement_of_assignment {r : Stretch} {Q : Stmt → Prop} (h : Gives here (assignment r) Q) :
    Gives here (nameStatement r) Q := by
  refine gives_bind (gives_attempt h) ?_
  rintro _ ⟨s, rfl, hs⟩
  exact gives_pure hs

theorem nameStatement_of_expr {r : Stretch} {Q : Stmt → Prop} {cause : Cause} {place : Token}
    (hassign : assignment r = fail cause place) (h : Gives here (exprStatement r) Q) :
    Gives here (nameStatement r) Q := by
  rw [nameStatement, hassign]
  refine gives_bind gives_attempt_fail ?_
  rintro _ ⟨a, rfl⟩
  refine gives_bind (gives_attempt h) ?_
  rintro _ ⟨s, rfl, hs⟩
  exact gives_pure hs

/-- Without an equals sign, only a type and a name are an assignment. -/
theorem assignment_fails (stop : Token) (hequals : ∀ t ∈ ts, t.isLeaf .equals = false)
    (hnames : ∀ type name, ts = [.leaf type, .leaf name] → name.kind ≠ .identifier) :
    ∃ cause place, assignment ⟨ts, stop⟩ = fail cause place := by
  simp only [assignment, cutAt_of_none hequals]
  split
  · rw [if_neg (hnames _ _ rfl)]
    exact ⟨_, _, rfl⟩
  · exact ⟨_, _, rfl⟩

theorem assignment_expression {before after : List TokenTree} {equals : Token}
    (hcut : cutAt .equals ts = some (before, equals, after)) (hname : ∀ name, before ≠ [.leaf name])
    (htyped : ∀ type name, before ≠ [.leaf type, .leaf name]) :
    assignment ⟨ts, stop⟩ = assignment.assignTo ⟨ts, stop⟩ before equals after := by
  -- The two hypotheses rule out the cases that come before the last one.
  simp only [assignment, hcut]

theorem typed_sentence (type x : Bytes) (value : Option Phrase)
    (h : unplacedAll ts = nameForest (some type) x ++ Phrase.valueForest value) :
    Gives here (assignment ⟨ts, stop⟩) fun s => s.unplaced = (Simple.typed type x value).tree := by
  obtain ⟨first, us, rfl, hfirst, rfl, hus⟩ := unplacedAll_eq_leaf_cons h
  obtain ⟨name, us, rfl, hname, rfl, hrest⟩ := unplacedAll_eq_leaf_cons hus
  have hlacks : ∀ t ∈ [leaf first, leaf name], t.isLeaf .equals = false := by simp [isLeaf, hfirst, hname]
  cases value with
  | none =>
    obtain rfl := unplacedAll_eq_nil hrest
    simp only [assignment, cutAt_of_none hlacks, hname, if_true]
    refine gives_bind (newIdent_gives first) fun type htype => ?_
    refine gives_bind (newIdent_gives name) fun target htarget => gives_newStmt fun n => ?_
    rw [Stmt.unplaced, htype, htarget, Expr.unplacedOption, Simple.tree, Phrase.treeOption]
  | some p =>
    obtain ⟨equals, us, rfl, hequals, -, hus⟩ := unplacedAll_eq_leaf_cons hrest
    have hcut := cutAt_append hlacks hequals us
    rw [List.cons_append, List.cons_append, List.nil_append] at hcut
    simp only [assignment, hcut, hname, if_true]
    refine gives_bind (newIdent_gives name) fun target htarget => ?_
    refine gives_bind (expression_phrase p us stop hus) fun e he => ?_
    refine gives_bind (newIdent_gives first) fun type htype => gives_newStmt fun n => ?_
    rw [Stmt.unplaced, htype, htarget, Expr.unplacedOption, he, Simple.tree, Phrase.treeOption]

theorem isAssignable_trail {target : Trail} {link : Link} {e : Expr} (known : (target.extend link).isTarget = true)
    (he : e.unplaced = (target.extend link).tree) : isAssignable e = true := by
  rw [← isAssignable_unplaced, he, Trail.tree]
  cases link with
  | call args => cases known
  | _ => rfl

theorem change_sentence (target : Trail) (known : target.isTarget = true) (value : Phrase)
    (h : unplacedAll ts = target.forest ++ equalsLeaf :: value.forest) :
    Gives here (assignment ⟨ts, stop⟩) fun s => s.unplaced = (Simple.change target known value).tree := by
  obtain ⟨us, vs, rfl, hus, hvs⟩ := unplacedAll_eq_append h
  obtain ⟨equals, vs, rfl, hequals, -, hvs⟩ := unplacedAll_eq_leaf_cons hvs
  have hlacks := isLeaf_of_unplacedAll hus fun t ht => (isLeaf_of_inline (target.forest_inline t ht)).2.2.1
  have hcut := cutAt_append hlacks hequals vs
  cases target with
  | name x =>
    obtain ⟨name, us, rfl, hname, rfl, hnil⟩ := unplacedAll_eq_leaf_cons hus
    obtain rfl := unplacedAll_eq_nil hnil
    simp only [assignment, hcut]
    refine gives_bind (newIdent_gives name) fun target htarget => ?_
    refine gives_bind (expression_phrase value vs stop hvs) fun e he => gives_newStmt fun n => ?_
    rw [Stmt.unplaced, htarget, Expr.unplacedOption, he, Simple.tree, Trail.tree]
  | extend target link =>
    have hname (name : Token) : us ≠ [.leaf name] := by
      rintro rfl
      exact target.extend_ne_leaf link _ hus.symm
    have htyped (type name : Token) : us ≠ [.leaf type, .leaf name] := by
      rintro rfl
      exact (target.extend link).forest_ne_leaves _ _ hus.symm
    rw [assignment_expression hcut hname htyped]
    refine gives_bind (expression_trail _ hus) fun t ht => ?_
    rw [if_pos (isAssignable_trail known ht)]
    refine gives_bind (expression_phrase value vs stop hvs) fun e he => gives_newStmt fun n => ?_
    rw [Stmt.unplaced, ht, Expr.unplacedOption, he, Simple.tree]

/-- What a simple sentence is read as, and by which function. -/
theorem simple_sentence (here : Scope) (stop : Token) (s : Simple) (h : unplacedAll ts = s.forest) :
    (∃ word rest, ts = .leaf word :: rest ∧ word.kind = .keyword ∧ (word.value = "let" ∨ word.value = "const") ∧
      Gives here (declaration word ⟨rest, stop⟩) fun t => t.unplaced = s.tree) ∨
    ∃ first rest, ts = .leaf first :: rest ∧ first.kind = .identifier ∧
      Gives here (nameStatement ⟨ts, stop⟩) fun t => t.unplaced = s.tree := by
  have starts {e : Trail} {more : List TokenTree} (h : unplacedAll ts = e.forest ++ more) :
      ∃ first rest, ts = .leaf first :: rest ∧ first.kind = .identifier := by
    obtain ⟨x, rest, hforest⟩ := e.head_forest
    rw [hforest] at h
    obtain ⟨first, us, rfl, hfirst, -, -⟩ := unplacedAll_eq_leaf_cons h
    exact ⟨first, us, rfl, hfirst⟩
  cases s with
  | declare constant type x value known =>
    obtain ⟨word, us, rfl, hkind, hvalue, hus⟩ := unplacedAll_eq_leaf_cons h
    refine .inl ⟨word, us, rfl, hkind, ?_, declaration_sentence constant type x value known hvalue hus⟩
    cases constant
    · exact .inl hvalue
    · exact .inr hvalue
  | typed type x value =>
    obtain ⟨first, rest, hts, hfirst⟩ := starts (e := .name type) h
    exact .inr ⟨first, rest, hts, hfirst, nameStatement_of_assignment (typed_sentence type x value h)⟩
  | change target known value =>
    obtain ⟨first, rest, hts, hfirst⟩ := starts h
    exact .inr ⟨first, rest, hts, hfirst, nameStatement_of_assignment (change_sentence target known value h)⟩
  | run e =>
    rw [Simple.forest] at h
    obtain ⟨first, rest, hts, hfirst⟩ := starts (h.trans (List.append_nil _).symm)
    have hlacks := isLeaf_of_unplacedAll h fun t ht => (isLeaf_of_inline (e.forest_inline t ht)).2.2.1
    obtain ⟨cause, place, hfails⟩ := assignment_fails stop hlacks fun type name hnames => by
      rw [hnames] at h
      exact absurd h.symm (e.forest_ne_leaves _ _)
    refine .inr ⟨first, rest, hts, hfirst, nameStatement_of_expr hfails ?_⟩
    exact exprStatement_gives (expression_trail e h)
  | step e symbol known =>
    obtain ⟨first, rest, hts, hfirst⟩ := starts h
    have hinline : ∀ t ∈ e.forest ++ [symbolLeaf symbol], t.isInline = true :=
      List.forall_mem_append.mpr ⟨e.forest_inline, by simp⟩
    have hlacks := isLeaf_of_unplacedAll h fun t ht => (isLeaf_of_inline (hinline t ht)).2.2.1
    obtain ⟨cause, place, hfails⟩ := assignment_fails stop hlacks fun type name hnames => by
      rw [hnames] at h
      have hlast : some (.leaf name.unplaced) = some (symbolLeaf symbol) :=
        (congrArg List.getLast? h).trans List.getLast?_concat
      rw [Option.some.injEq, symbolLeaf, TokenTree.leaf.injEq] at hlast
      have hkind := symbolToken_kind symbol
      rwa [← hlast] at hkind
    refine .inr ⟨first, rest, hts, hfirst, nameStatement_of_expr hfails ?_⟩
    exact exprStatement_gives (expression_step e known h)

/-! ## Headers -/

theorem simpleStatement_sentence (s : Option Simple) (h : unplacedAll ts = Simple.forestOption s) :
    Gives here (simpleStatement ⟨ts, stop⟩) fun t => Stmt.unplacedOption t = Simple.treeOption s := by
  cases s with
  | none =>
    obtain rfl := unplacedAll_eq_nil h
    exact gives_pure rfl
  | some s =>
    obtain ⟨word, rest, rfl, hkind, hvalue, hgives⟩ | ⟨first, rest, rfl, hkind, hgives⟩ := simple_sentence here stop s h
    · have hword : (word.isKeyword "let" || word.isKeyword "const") = true := by
        obtain hvalue | hvalue := hvalue <;> simp [Token.isKeyword, hkind, hvalue]
      simp only [simpleStatement, hword, if_true]
      refine gives_bind hgives fun t ht => gives_pure ?_
      rw [Stmt.unplacedOption, ht, Simple.treeOption]
    · have hword : (first.isKeyword "let" || first.isKeyword "const") = false := by
        simp [Token.isKeyword, hkind]
      simp only [simpleStatement, hword, Bool.false_eq_true, if_false, hkind, if_true]
      refine gives_bind hgives fun t ht => gives_pure ?_
      rw [Stmt.unplacedOption, ht, Simple.treeOption]

theorem endsCondition_of_inline {t : TokenTree} (h : t.isInline = true) : endsCondition t = false := by
  obtain ⟨hcomma, hsemicolon, -, hblock⟩ := isLeaf_of_inline h
  rw [endsCondition, hsemicolon, hcomma, hblock]
  rfl

section

variable {o c word : Token} {inner rest : List TokenTree} (ho : o.kind = .leftParen)
include ho

theorem condition_phrase (p : Phrase) (h : unplacedAll inner = p.forest) :
    Gives here (condition word ⟨.group o inner c :: rest, stop⟩) fun e => e.unplaced = p.tree := by
  have hinside : ∀ t ∈ inner, (!endsCondition t) = true := by
    intro t ht
    have hinline := inline_of_unplacedAll h p.forest_inline t ht
    rw [endsCondition_of_inline hinline]
    rfl
  have htake : inner.takeWhile (fun t => !endsCondition t) = inner := List.takeWhile_eq_self_iff.mpr hinside
  have hdrop : inner.dropWhile (fun t => !endsCondition t) = [] := List.dropWhile_eq_nil_iff.mpr hinside
  simp only [condition, ho, if_true, conditionPart, htake, hdrop]
  exact gives_bind (expression_phrase p inner c h) fun e he => gives_pure he

theorem forHeader_sentence (init : Option Simple) (test : Option Phrase) (step : Option Simple)
    (h : unplacedAll inner = Simple.forestOption init ++
      semicolonLeaf :: (Phrase.forestOption test ++ semicolonLeaf :: Simple.forestOption step)) :
    Gives here (forHeader word ⟨.group o inner c :: rest, stop⟩) fun header =>
      Stmt.unplacedOption header.1 = Simple.treeOption init ∧
      Expr.unplacedOption header.2.1 = Phrase.treeOption test ∧
      Stmt.unplacedOption header.2.2 = Simple.treeOption step := by
  obtain ⟨as, bs, rfl, has, hbs⟩ := unplacedAll_eq_append h
  obtain ⟨first, bs, rfl, hfirst, -, hbs⟩ := unplacedAll_eq_leaf_cons hbs
  obtain ⟨bs, cs, rfl, htest, hcs⟩ := unplacedAll_eq_append hbs
  obtain ⟨second, cs, rfl, hsecond, -, hcs⟩ := unplacedAll_eq_leaf_cons hcs
  have hsplit : splitAt .semicolon c (as ++ .leaf first :: (bs ++ .leaf second :: cs)) =
      [⟨as, first⟩, ⟨bs, second⟩, ⟨cs, c⟩] := by
    rw [splitAt_append (isLeaf_of_unplacedAll has (Simple.forestOption_semicolon init)) hfirst,
      splitAt_append (isLeaf_of_unplacedAll htest (Phrase.forestOption_semicolon test)) hsecond,
      splitAt_of_none (isLeaf_of_unplacedAll hcs (Simple.forestOption_semicolon step))]
  simp only [forHeader, ho, if_true, hsplit]
  refine gives_bind (simpleStatement_sentence init has) fun i hi => ?_
  refine gives_bind (bound_phrase test htest) fun t ht => ?_
  refine gives_bind (simpleStatement_sentence step hcs) fun s hs => ?_
  exact gives_pure ⟨hi, ht, hs⟩

end

/-! ## Parameters and bases -/

theorem parameterName_sentence (place : Token) (type : Option Bytes) (x : Bytes)
    (h : unplacedAll ts = nameForest type x) :
    Gives here (parameterName place ts) fun y =>
      Expr.unplacedOption y.1 = type.map (.ident .blank) ∧ y.2.value = x := by
  cases type with
  | none =>
    obtain ⟨name, us, rfl, hname, rfl, hnil⟩ := unplacedAll_eq_leaf_cons h
    obtain rfl := unplacedAll_eq_nil hnil
    rw [parameterName, if_pos hname]
    exact gives_pure ⟨rfl, rfl⟩
  | some type =>
    obtain ⟨first, us, rfl, hfirst, rfl, hus⟩ := unplacedAll_eq_leaf_cons h
    obtain ⟨name, us, rfl, hname, rfl, hnil⟩ := unplacedAll_eq_leaf_cons hus
    obtain rfl := unplacedAll_eq_nil hnil
    rw [parameterName, if_pos (by simp [hfirst, hname])]
    refine gives_bind (newIdent_gives first) fun e he => gives_pure ⟨?_, rfl⟩
    rw [Expr.unplacedOption, he, Option.map_some]

theorem parameterParts_sentence (here : Scope) (stop : Token) (p : Param) (h : unplacedAll ts = p.forest) :
    unplacedAll (parameterParts ⟨ts, stop⟩).1 = nameForest p.type p.name ∧
      Gives here (optional (parameterParts ⟨ts, stop⟩).2) fun v =>
        Expr.unplacedOption v = Phrase.treeOption p.default := by
  obtain ⟨type, x, value⟩ := p
  obtain ⟨us, vs, rfl, hus, hvs⟩ := unplacedAll_eq_append h
  have hlacks := isLeaf_of_unplacedAll hus fun t ht => (isLeaf_of_inline (nameForest_inline type x t ht)).2.2.1
  cases value with
  | none =>
    obtain rfl := unplacedAll_eq_nil hvs
    simp only [parameterParts, List.append_nil, cutAt_of_none hlacks]
    exact ⟨hus, gives_pure rfl⟩
  | some p =>
    obtain ⟨equals, vs, rfl, hequals, -, hvs⟩ := unplacedAll_eq_leaf_cons hvs
    simp only [parameterParts, cutAt_append hlacks hequals]
    exact ⟨hus, some_phrase p hvs⟩

theorem parameters_sentence (ps : List Param) (seen : List Bytes) (rs : List Stretch)
    (h : rs.map (fun r => unplacedAll r.trees) = ps.map Param.forest) (hdistinct : (ps.map Param.name).Nodup)
    (hseen : ∀ p ∈ ps, p.name ∉ seen) :
    Gives here (parameters seen rs) fun args => Expr.unplacedArgs args = ps.map Param.tree := by
  induction ps generalizing seen rs with
  | nil =>
    obtain rfl := List.map_eq_nil_iff.mp h
    exact gives_pure rfl
  | cons p ps ih =>
    obtain ⟨r, rs, rfl, hr, hrs⟩ := List.map_eq_cons_iff.mp h
    obtain ⟨trees, stop⟩ := r
    rw [List.map_cons, List.nodup_cons] at hdistinct
    rw [List.forall_mem_cons] at hseen
    have hne : trees ≠ [] := by
      rintro rfl
      exact absurd hr.symm p.forest_ne_nil
    obtain ⟨hparts, hvalue⟩ := parameterParts_sentence here stop p hr
    rw [parameters_cons, if_neg (by simp [Stretch.isEmpty, hne])]
    refine gives_bind (parameterName_sentence _ p.type p.name hparts) ?_
    rintro ⟨type, name⟩ ⟨htype, hname⟩
    dsimp only at htype hname ⊢
    rw [if_neg (by simp [hname, hseen.1])]
    refine gives_bind hvalue fun v hv => ?_
    have hlater : ∀ q ∈ ps, q.name ∉ name.value :: seen := by
      intro q hq
      rw [List.mem_cons, not_or]
      refine ⟨fun heq => hdistinct.1 ?_, hseen.2 q hq⟩
      rw [← hname, ← heq]
      exact List.mem_map_of_mem hq
    refine gives_bind (ih _ rs hrs hdistinct.2 hlater) fun args hargs => gives_pure ?_
    rw [Expr.unplacedArgs, hargs, Expr.unplacedArg, htype, hname, hv, List.map_cons, Param.tree]

theorem expressions_phrases (ps : List Phrase) (rs : List Stretch)
    (h : rs.map (fun r => unplacedAll r.trees) = ps.map Phrase.forest) :
    Gives here (expressions rs) fun es => Expr.unplacedAll es = ps.map Phrase.tree := by
  induction ps generalizing rs with
  | nil =>
    obtain rfl := List.map_eq_nil_iff.mp h
    exact gives_pure rfl
  | cons p ps ih =>
    obtain ⟨r, rs, rfl, hr, hrs⟩ := List.map_eq_cons_iff.mp h
    obtain ⟨trees, stop⟩ := r
    refine gives_bind (expression_phrase p trees stop hr) fun e he => ?_
    refine gives_bind (ih rs hrs) fun es hes => gives_pure ?_
    rw [Expr.unplacedAll, he, hes, List.map_cons]

/-- The name and the parameters of a definition, and what follows them. -/
theorem defHeader_sentence {name o c : Token} {inner rest : List TokenTree} (params : List Param)
    (distinct : (params.map Param.name).Nodup) (hname : name.kind = .identifier) (ho : o.kind = .leftParen)
    (h : unplacedAll inner = commaSeparated (params.map Param.forest)) :
    Gives here (defHeader ⟨.leaf name :: .group o inner c :: rest, stop⟩) fun header =>
      header.1 = name ∧ Expr.unplacedArgs header.2 = params.map Param.tree := by
  have hsplit := commaList_commaSeparated (List.forall_mem_map.mpr fun p _ => p.forest_comma)
    (List.forall_mem_map.mpr fun p _ => p.forest_ne_nil) h c
  simp only [defHeader, hname, ho, if_true]
  refine gives_bind (parameters_sentence params [] _ hsplit distinct (by simp)) fun args hargs => ?_
  exact gives_pure ⟨rfl, hargs⟩

theorem className_sentence {name : Token} {rest : List TokenTree} (hname : name.kind = .identifier) :
    Gives here (className ⟨.leaf name :: rest, stop⟩) (· = name) := by
  simp only [className, if_pos hname]
  exact gives_pure rfl

section

variable {us inside : List TokenTree} (bases : Option (List Phrase)) (h : unplacedAll ts = basesForest bases)
  (hus : unplacedAll us = [braces inside])
include h hus

/-- The bases of a class are read up to its body. -/
theorem classBases_sentence :
    Gives here (classBases ⟨ts ++ us, stop⟩) fun es => Expr.unplacedAll es = (bases.getD []).map Phrase.tree := by
  cases bases with
  | none =>
    obtain rfl := unplacedAll_eq_nil h
    obtain ⟨o, inner, c, us, rfl, ho, -, -⟩ := unplacedAll_eq_braces_cons hus
    have hparen : o.kind ≠ .leftParen := by simp [ho]
    simp only [List.nil_append, classBases, if_neg hparen]
    exact gives_pure rfl
  | some bases =>
    obtain ⟨o, inside, c, ts, rfl, ho, hinside, hnil⟩ := unplacedAll_eq_parens_cons h
    obtain rfl := unplacedAll_eq_nil hnil
    have hsplit := commaList_commaSeparated (List.forall_mem_map.mpr fun p _ => p.forest_comma)
      (List.forall_mem_map.mpr fun p _ => p.forest_ne_nil) hinside c
    simp only [List.singleton_append, classBases, if_pos ho]
    exact expressions_phrases bases _ hsplit

theorem afterBases_sentence : afterBases ⟨ts ++ us, stop⟩ = ⟨us, stop⟩ := by
  cases bases with
  | none =>
    obtain rfl := unplacedAll_eq_nil h
    obtain ⟨o, inner, c, us, rfl, ho, -, -⟩ := unplacedAll_eq_braces_cons hus
    have hparen : o.kind ≠ .leftParen := by simp [ho]
    simp only [List.nil_append, afterBases, if_neg hparen]
  | some bases =>
    obtain ⟨o, inside, c, ts, rfl, ho, -, hnil⟩ := unplacedAll_eq_parens_cons h
    obtain rfl := unplacedAll_eq_nil hnil
    simp only [List.singleton_append, afterBases, if_pos ho]
    rfl

end

theorem checkMembers_gives {ss : List Stmt} (h : ∀ s ∈ ss, isClassMember s = true) :
    Gives here (checkMembers ss) fun _ => True := by
  induction ss with
  | nil => exact gives_pure trivial
  | cons s ss ih =>
    rw [List.forall_mem_cons] at h
    rw [checkMembers, if_pos h.1]
    exact ih h.2

end Parse

/-! ## Blocks -/

theorem Clause.eq_leaf {c : Clause} {kind : TokenKind} {value : Bytes} {more : List TokenTree}
    (h : unplacedAll c.stretch.trees = .leaf (.mark kind value) :: more) :
    ∃ t us stop, c = ⟨.leaf t, us, stop⟩ ∧ t.kind = kind ∧ t.value = value ∧ unplacedAll us = more := by
  obtain ⟨head, tail, stop⟩ := c
  obtain ⟨t, us, heq, hkind, hvalue, hus⟩ := unplacedAll_eq_leaf_cons h
  cases heq
  exact ⟨t, tail, stop, rfl, hkind, hvalue, hus⟩

/-- Whether the scope is one in which what is around a sentence lets it stand. -/
def Scope.Allows (here : Scope) (inDef inLoop : Bool) : Prop :=
  (inDef = true → here.defs ≠ 0) ∧ (inLoop = true → here.loops ≠ 0)

namespace Scope

theorem allows_loop {here : Scope} {inDef inLoop : Bool} (h : here.Allows inDef inLoop) :
    Scope.Allows { here with loops := here.loops + 1 } inDef true := ⟨h.1, fun _ => Nat.succ_ne_zero _⟩

theorem allows_def (here : Scope) : Scope.Allows { defs := here.defs + 1, loops := 0 } true false :=
  ⟨fun _ => Nat.succ_ne_zero _, fun h => absurd h Bool.false_ne_true⟩

theorem allows_outside (here : Scope) : here.Allows false false :=
  ⟨fun h => absurd h Bool.false_ne_true, fun h => absurd h Bool.false_ne_true⟩

end Scope

namespace Parse

variable {here : Scope} {stop : Token}

theorem statement_simple (s : Simple) (c : Clause) (h : unplacedAll c.stretch.trees = s.forest) :
    Gives here (statement c) fun t => t.unplaced = s.tree := by
  obtain ⟨head, tail, stop⟩ := c
  obtain ⟨word, rest, heq, hkind, hvalue, hgives⟩ | ⟨first, rest, heq, hkind, hgives⟩ := simple_sentence here stop s h
  · cases heq
    rw [statement]
    simp only [hkind]
    rw [if_pos (by simpa using hvalue)]
    exact hgives
  · cases heq
    rw [statement]
    simp only [hkind]
    exact hgives

theorem isClassMember_tree {s : Sentence} (h : s.isMember = true) : isClassMember s.tree = true := by
  unfold Sentence.isMember at h
  split at h
  · rename_i constant type x value known
    cases type <;> rfl
  · rfl
  · rfl
  · rfl
  · cases h

theorem members_unplaced {ss : List Sentence} {ts : List Stmt} (hmember : ss.all Sentence.isMember = true)
    (h : Stmt.unplacedAll ts = Sentence.treeAll ss) : ∀ t ∈ ts, isClassMember t = true := by
  induction ss generalizing ts with
  | nil =>
    cases ts with
    | nil => exact List.forall_mem_nil _
    | cons t ts => cases h
  | cons s ss ih =>
    rw [List.all_cons, Bool.and_eq_true] at hmember
    cases ts with
    | nil => cases h
    | cons t ts =>
      rw [Stmt.unplacedAll, Sentence.treeAll, List.cons.injEq] at h
      refine List.forall_mem_cons.mpr ⟨?_, ih hmember.2 h.2⟩
      rw [← isClassMember_unplaced, h.1]
      exact isClassMember_tree hmember.1

theorem startsWithElse_leaf {w : Token} {us : List TokenTree} (hkind : w.kind = .keyword) (hvalue : w.value = "else") :
    startsWithElse ⟨.leaf w :: us, stop⟩ = true := by
  simp [startsWithElse, TokenTree.isKeyword, Token.isKeyword, hkind, hvalue]

theorem expectEnd_nil : Gives here (expectEnd ⟨[], stop⟩) fun _ => True := gives_pure trivial

theorem expectEnd_block {ts inside : List TokenTree} (h : unplacedAll ts = [braces inside]) :
    Gives here (expectEnd (Stretch.tail ⟨ts, stop⟩)) fun _ => True := by
  obtain ⟨o, inner, c, us, rfl, -, -, hnil⟩ := unplacedAll_eq_braces_cons h
  obtain rfl := unplacedAll_eq_nil hnil
  exact expectEnd_nil

theorem loop_sentence {word : Token} (hloop : here.loops ≠ 0) :
    Gives here (loopStatement word ⟨[], stop⟩) fun t =>
      t.unplaced = if word.value = "break" then .brk .blank else .cont .blank := by
  refine gives_bind gives_scope fun scope hscope => ?_
  rw [hscope, if_neg hloop, if_neg (by simp [Stretch.isEmpty])]
  refine gives_newStmt fun n => ?_
  split
  · rw [Stmt.unplaced]
  · rw [Stmt.unplaced]

theorem return_sentence {word : Token} {ts : List TokenTree} (value : Option Phrase) (hdef : here.defs ≠ 0)
    (h : unplacedAll ts = Phrase.forestOption value) :
    Gives here (returnStatement word ⟨ts, stop⟩) fun t => t.unplaced = .ret .blank (Phrase.treeOption value) := by
  refine gives_bind gives_scope fun scope hscope => ?_
  rw [hscope, if_neg hdef]
  refine gives_bind (bound_phrase value h) fun v hv => gives_newStmt fun n => ?_
  rw [Stmt.unplaced, hv]

/-! ## One step of nesting -/

/-- Wherever the sentence is placed, it is read as it is meant. -/
def Recovers (here : Scope) (s : Sentence) : Prop :=
  ∀ c : Clause, unplacedAll c.stretch.trees = s.forest → Gives here (statement c) fun t => t.unplaced = s.tree

/-- Wherever a block of the sentences is placed, they are read as they are meant. -/
def RecoversBlock (here : Scope) (ss : List Sentence) : Prop :=
  ∀ (ts : List TokenTree) (stop : Token) (more : List TokenTree),
    unplacedAll ts = braces (Sentence.forestAll ss) :: more →
      Gives here (body ⟨ts, stop⟩) fun us => Stmt.unplacedAll us = Sentence.treeAll ss

/-- Wherever an `if` is placed before it, the two are read as they are meant. -/
def RecoversOtherwise (here : Scope) (no : Otherwise) : Prop :=
  ∀ (test : Phrase) (yes : List Sentence), RecoversBlock here yes → ∀ (ts : List TokenTree) (word stop : Token),
    unplacedAll ts = parens test.forest :: braces (Sentence.forestAll yes) :: no.forest →
      Gives here (conditional word ⟨ts, stop⟩) fun t =>
        t.unplaced = .conditional .blank test.tree (Sentence.treeAll yes) no.tree

theorem recovers_simple (s : Simple) : Recovers here (.simple s) := fun c h => statement_simple s c h

theorem recovers_conditional (test : Phrase) {yes : List Sentence} {no : Otherwise} (hyes : RecoversBlock here yes)
    (hno : RecoversOtherwise here no) : Recovers here (.conditional test yes no) := by
  intro c h
  obtain ⟨word, us, stop, rfl, hkind, hvalue, hus⟩ := Clause.eq_leaf h
  rw [statement]
  simp +decide only [hkind, hvalue, if_true, if_false]
  exact hno test yes hyes us word stop hus

theorem recovers_forLoop (init : Option Simple) (test : Option Phrase) (step : Option Simple) {ss : List Sentence}
    (hbody : RecoversBlock { here with loops := here.loops + 1 } ss) : Recovers here (.forLoop init test step ss) := by
  intro c h
  obtain ⟨word, us, stop, rfl, hkind, hvalue, hus⟩ := Clause.eq_leaf h
  obtain ⟨o, as, a, us, rfl, ho, has, hblock⟩ := unplacedAll_eq_parens_cons hus
  rw [statement]
  simp +decide only [hkind, hvalue, if_true, if_false]
  refine gives_bind (forHeader_sentence ho init test step has) ?_
  rintro ⟨i, t, s⟩ ⟨hi, ht, hs⟩
  refine gives_bind gives_scope fun scope hscope => ?_
  rw [hscope]
  refine gives_bind (gives_within (hbody us stop [] hblock)) fun ts hts => ?_
  refine gives_bind (expectEnd_block hblock) fun _ _ => gives_newStmt fun n => ?_
  rw [Stmt.unplaced, hi, ht, hs, hts, Sentence.tree]

theorem recovers_whileLoop (test : Phrase) {ss : List Sentence}
    (hbody : RecoversBlock { here with loops := here.loops + 1 } ss) : Recovers here (.whileLoop test ss) := by
  intro c h
  obtain ⟨word, us, stop, rfl, hkind, hvalue, hus⟩ := Clause.eq_leaf h
  obtain ⟨o, as, a, us, rfl, ho, has, hblock⟩ := unplacedAll_eq_parens_cons hus
  rw [statement]
  simp +decide only [hkind, hvalue, if_true, if_false]
  refine gives_bind (condition_phrase ho test has) fun e he => ?_
  refine gives_bind gives_scope fun scope hscope => ?_
  rw [hscope]
  refine gives_bind (gives_within (hbody us stop [] hblock)) fun ts hts => ?_
  refine gives_bind (expectEnd_block hblock) fun _ _ => gives_newStmt fun n => ?_
  rw [Stmt.unplaced, he, hts, Sentence.tree]

theorem recovers_define (x : Bytes) (params : List Param) (distinct : (params.map Param.name).Nodup)
    {ss : List Sentence}
    (hbody : RecoversBlock { defs := here.defs + 1, loops := 0 } ss) :
    Recovers here (.define x params distinct ss) := by
  intro c h
  obtain ⟨word, us, stop, rfl, hkind, hvalue, hus⟩ := Clause.eq_leaf h
  obtain ⟨name, us, rfl, hname, rfl, hrest⟩ := unplacedAll_eq_leaf_cons hus
  obtain ⟨o, as, a, us, rfl, ho, has, hblock⟩ := unplacedAll_eq_parens_cons hrest
  rw [statement]
  simp +decide only [hkind, hvalue, if_true, if_false]
  refine gives_bind (defHeader_sentence params distinct hname ho has) ?_
  rintro ⟨_, args⟩ ⟨rfl, hargs⟩
  refine gives_bind gives_scope fun scope hscope => ?_
  rw [hscope]
  refine gives_bind (gives_within (hbody us stop [] hblock)) fun ts hts => ?_
  refine gives_bind (expectEnd_block hblock) fun _ _ => gives_newStmt fun n => ?_
  rw [Stmt.unplaced, hargs, hts, Sentence.tree]

theorem recovers_defineClass (x : Bytes) (bases : Option (List Phrase)) {ss : List Sentence}
    (hmember : ss.all Sentence.isMember = true) (hbody : RecoversBlock {} ss) :
    Recovers here (.defineClass x bases ss) := by
  intro c h
  obtain ⟨word, us, stop, rfl, hkind, hvalue, hus⟩ := Clause.eq_leaf h
  obtain ⟨name, us, rfl, hname, rfl, hrest⟩ := unplacedAll_eq_leaf_cons hus
  obtain ⟨as, us, rfl, has, hblock⟩ := unplacedAll_eq_append hrest
  rw [statement]
  simp +decide only [hkind, hvalue, if_true, if_false, Clause.after, Stretch.tail, List.tail_cons,
    afterBases_sentence bases has hblock]
  refine gives_bind (className_sentence hname) ?_
  rintro _ rfl
  refine gives_bind (classBases_sentence bases has hblock) fun es hes => ?_
  refine gives_bind (gives_within (hbody us stop [] hblock)) fun ts hts => ?_
  refine gives_bind (expectEnd_block hblock) fun _ _ => ?_
  refine gives_bind (checkMembers_gives (members_unplaced hmember hts)) fun _ _ => gives_newStmt fun n => ?_
  rw [Stmt.unplaced, hes, hts, Sentence.tree]

theorem recovers_ret (value : Option Phrase) (hdef : here.defs ≠ 0) : Recovers here (.ret value) := by
  intro c h
  obtain ⟨word, us, stop, rfl, hkind, hvalue, hus⟩ := Clause.eq_leaf h
  rw [statement]
  simp +decide only [hkind, hvalue, if_true, if_false]
  exact return_sentence value hdef hus

theorem recovers_brk (hloop : here.loops ≠ 0) : Recovers here .brk := by
  intro c h
  obtain ⟨word, us, stop, rfl, hkind, hvalue, hnil⟩ := Clause.eq_leaf h
  obtain rfl := unplacedAll_eq_nil hnil
  rw [statement]
  simp +decide only [hkind, hvalue, if_true, if_false]
  refine (loop_sentence hloop).mono fun t ht => ?_
  rw [ht, if_pos hvalue, Sentence.tree]

theorem recovers_cont (hloop : here.loops ≠ 0) : Recovers here .cont := by
  intro c h
  obtain ⟨word, us, stop, rfl, hkind, hvalue, hnil⟩ := Clause.eq_leaf h
  obtain rfl := unplacedAll_eq_nil hnil
  rw [statement]
  simp +decide only [hkind, hvalue, if_true, if_false]
  refine (loop_sentence hloop).mono fun t ht => ?_
  rw [ht, hvalue, if_neg (by decide), Sentence.tree]

theorem recovers_nothing : RecoversOtherwise here .nothing := by
  intro test yes hyes ts word stop h
  obtain ⟨o, as, a, ts, rfl, ho, has, hblock⟩ := unplacedAll_eq_parens_cons h
  rw [conditional]
  refine gives_bind (condition_phrase ho test has) fun e he => ?_
  refine gives_bind (hyes ts stop _ hblock) fun us hus => ?_
  obtain ⟨o', bs, b, ts, rfl, ho', hbs, hnil⟩ := unplacedAll_eq_braces_cons hblock
  obtain rfl := unplacedAll_eq_nil hnil
  refine gives_bind expectEnd_nil fun _ _ => gives_newStmt fun n => ?_
  rw [Stmt.unplaced, he, hus, Stmt.unplacedAll, Otherwise.tree]

theorem recovers_block {no : List Sentence} (hno : RecoversBlock here no) : RecoversOtherwise here (.block no) := by
  intro test yes hyes ts word stop h
  obtain ⟨o, as, a, ts, rfl, ho, has, hblock⟩ := unplacedAll_eq_parens_cons h
  rw [conditional]
  refine gives_bind (condition_phrase ho test has) fun e he => ?_
  refine gives_bind (hyes ts stop _ hblock) fun us hus => ?_
  obtain ⟨o', bs, b, ts, rfl, ho', hbs, hno'⟩ := unplacedAll_eq_braces_cons hblock
  obtain ⟨w, ts, rfl, hw, hvalue, hlast⟩ := unplacedAll_eq_leaf_cons hno'
  have hif : elseIf? ⟨ts, stop⟩ = none := by
    obtain ⟨o, bs, b, ts, rfl, -, -, -⟩ := unplacedAll_eq_braces_cons hlast
    rfl
  simp only [Stretch.tail, List.tail_cons, startsWithElse_leaf hw hvalue, if_true]
  split
  · rename_i heq
    rw [hif] at heq
    cases heq
  · refine gives_bind (hno ts stop [] hlast) fun vs hvs => ?_
    refine gives_bind (expectEnd_block hlast) fun _ _ => gives_newStmt fun n => ?_
    rw [Stmt.unplaced, he, hus, hvs, Otherwise.tree]

theorem recovers_elseIf (test : Phrase) {yes : List Sentence} {no : Otherwise} (hyes : RecoversBlock here yes)
    (hno : RecoversOtherwise here no) : RecoversOtherwise here (.elseIf test yes no) := by
  intro test' yes' hyes' ts word stop h
  obtain ⟨o, as, a, ts, rfl, ho, has, hblock⟩ := unplacedAll_eq_parens_cons h
  rw [conditional]
  refine gives_bind (condition_phrase ho test' has) fun e he => ?_
  refine gives_bind (hyes' ts stop _ hblock) fun us hus => ?_
  obtain ⟨o', bs, b, ts, rfl, ho', hbs, hno'⟩ := unplacedAll_eq_braces_cons hblock
  obtain ⟨w, ts, rfl, hw, hvalue, hif⟩ := unplacedAll_eq_leaf_cons hno'
  obtain ⟨w', ts, rfl, hw', hvalue', hrest⟩ := unplacedAll_eq_leaf_cons hif
  have hif : elseIf? ⟨.leaf w' :: ts, stop⟩ = some (w', ⟨ts, stop⟩) := by
    simp [elseIf?, Token.isKeyword, hw', hvalue']
  simp only [Stretch.tail, List.tail_cons, startsWithElse_leaf hw hvalue, if_true]
  split
  · rename_i heq
    rw [hif] at heq
    cases heq
    refine gives_bind (hno test yes hyes ts w' stop hrest) fun t ht => gives_newStmt fun n => ?_
    rw [Stmt.unplaced, he, hus, Stmt.unplacedAll, ht, Stmt.unplacedAll, Otherwise.tree]
  · rename_i heq
    rw [hif] at heq
    cases heq

theorem sequence_sentences {ss : List Sentence} {cs : List Clause} (hss : ∀ s ∈ ss, Recovers here s)
    (h : cs.map (fun c => unplacedAll c.stretch.trees) = ss.map Sentence.forest) :
    Gives here (sequence cs) fun ts => Stmt.unplacedAll ts = Sentence.treeAll ss := by
  induction ss generalizing cs with
  | nil =>
    obtain rfl := List.map_eq_nil_iff.mp h
    rw [sequence]
    exact gives_pure rfl
  | cons s ss ih =>
    obtain ⟨c, cs, rfl, hc, hcs⟩ := List.map_eq_cons_iff.mp h
    rw [List.forall_mem_cons] at hss
    rw [sequence]
    refine gives_bind (hss.1 c hc) fun t ht => ?_
    refine gives_bind (ih hss.2 hcs) fun ts hts => gives_pure ?_
    rw [Stmt.unplacedAll, ht, hts, Sentence.treeAll]

theorem recoversBlock_of_forall {ss : List Sentence} (hss : ∀ s ∈ ss, Recovers here s) : RecoversBlock here ss := by
  intro ts stop more h
  obtain ⟨o, inner, c, us, rfl, ho, hinner, -⟩ := unplacedAll_eq_braces_cons h
  rw [body]
  simp only [ho, if_true]
  exact sequence_sentences hss (statements_forestAll hinner c)

/-! ## Any depth of nesting -/

mutual

theorem recovers (s : Sentence) {here : Scope} {inDef inLoop : Bool} (hfits : s.fits inDef inLoop = true)
    (hallows : here.Allows inDef inLoop) : Recovers here s := by
  match s with
  | .simple s => exact recovers_simple s
  | .conditional test yes no =>
    rw [Sentence.fits, Bool.and_eq_true] at hfits
    exact recovers_conditional test (recoversBlock_of_forall (recoversAll yes hfits.1 hallows))
      (recoversOtherwise no hfits.2 hallows)
  | .forLoop init test step body =>
    exact recovers_forLoop init test step (recoversBlock_of_forall (recoversAll body hfits (Scope.allows_loop hallows)))
  | .whileLoop test body =>
    exact recovers_whileLoop test (recoversBlock_of_forall (recoversAll body hfits (Scope.allows_loop hallows)))
  | .define x params distinct body =>
    exact recovers_define x params distinct (recoversBlock_of_forall (recoversAll body hfits (Scope.allows_def here)))
  | .defineClass x bases members =>
    rw [Sentence.fits, Bool.and_eq_true] at hfits
    exact recovers_defineClass x bases hfits.1
      (recoversBlock_of_forall (recoversAll members hfits.2 (Scope.allows_outside _)))
  | .ret value => exact recovers_ret value (hallows.1 hfits)
  | .brk => exact recovers_brk (hallows.2 hfits)
  | .cont => exact recovers_cont (hallows.2 hfits)

theorem recoversOtherwise (no : Otherwise) {here : Scope} {inDef inLoop : Bool} (hfits : no.fits inDef inLoop = true)
    (hallows : here.Allows inDef inLoop) : RecoversOtherwise here no := by
  match no with
  | .nothing => exact recovers_nothing
  | .block no => exact recovers_block (recoversBlock_of_forall (recoversAll no hfits hallows))
  | .elseIf test yes no =>
    rw [Otherwise.fits, Bool.and_eq_true] at hfits
    exact recovers_elseIf test (recoversBlock_of_forall (recoversAll yes hfits.1 hallows))
      (recoversOtherwise no hfits.2 hallows)

theorem recoversAll (ss : List Sentence) {here : Scope} {inDef inLoop : Bool}
    (hfits : Sentence.fitAll inDef inLoop ss = true) (hallows : here.Allows inDef inLoop) :
    ∀ s ∈ ss, Recovers here s := by
  match ss with
  | [] => exact List.forall_mem_nil _
  | s :: ss =>
    rw [Sentence.fitAll, Bool.and_eq_true] at hfits
    exact List.forall_mem_cons.mpr ⟨recovers s hfits.1 hallows, recoversAll ss hfits.2 hallows⟩

end

end Parse

end Bracescript
