import Bracescript.Proofs.ExpressionReads

/-!
# The statement parser reads derivations

The same for statements, up to a whole program.
-/

namespace Bracescript

open TokenTree

variable {tokens : List Token}

/-! ## Statements without a block -/

theorem Span.cover_self (s : Span) : s.cover s = s := by simp [cover, min, max]

theorem Stretch.span_leaf (t stop : Token) : Stretch.span ⟨[.leaf t], stop⟩ = t.span := t.span.cover_self

theorem Clause.weight_le_of_mem {c : Clause} {cs : List Clause} (h : c ∈ cs) : c.weight ≤ Clause.weightAll cs := by
  induction h with
  | head => simp [Clause.weightAll]
  | tail _ _ ih =>
    simp only [Clause.weightAll]
    omega

theorem Token.value_of_isKeyword {t : Token} {word : Bytes} (h : t.isKeyword word = true) : t.value = word := by
  rw [isKeyword, Bool.and_eq_true, beq_iff_eq] at h
  exact beq_iff_eq.mp h.2

namespace Parse

theorem reads_newShape {r : Stretch} {build : Node → Stmt} (h : r.Inside tokens) (hshape : Derives r.trees (.shape build)) :
    Reads tokens (newStmt r.span r.first.pos build) fun s => Derives r.trees (.stmt s) :=
  reads_newStmt h.trees fun _ => Derives.stmt hshape

theorem exprStatement_reads {r : Stretch} (h : r.Inside tokens) :
    Reads tokens (exprStatement r) fun s => Derives r.trees (.stmt s) :=
  reads_bind (expression_reads r h) fun _ he => reads_newShape h (.expr he)

theorem declaredValue_reads {constant : Bool} {name : Token} {r : Stretch} (hname : name ∈ tokens)
    (h : r.Inside tokens) :
    Reads tokens (declaredValue constant name r) fun value => Derives r.trees (.value value) := by
  obtain ⟨trees, stop⟩ := r
  unfold declaredValue
  split
  · rename_i hnil
    subst hnil
    split
    · exact reads_fail hname
    · exact reads_pure .unset
  · rename_i t after hcons
    subst hcons
    split
    · rename_i hleaf
      cases t with
      | leaf equals =>
        refine reads_bind (expression_reads ⟨after, stop⟩ ⟨h.trees.tail, h.stop⟩) fun e he => ?_
        exact reads_pure (.set (by simpa [isLeaf] using hleaf) he)
      | group => simp [isLeaf] at hleaf
    · exact reads_fail (h.trees.mem_of_mem List.mem_cons_self)

theorem declaredName_cases (first : Token) (rest : List TokenTree) :
    declaredName first rest = (none, first, rest) ∨
      ∃ second more, rest = .leaf second :: more ∧ second.kind = .identifier ∧
        declaredName first rest = (some first, second, more) := by
  unfold declaredName
  split
  · rename_i second more
    split
    · exact .inr ⟨second, more, rfl, by assumption, rfl⟩
    · exact .inl rfl
  · exact .inl rfl

theorem declaration_reads {word : Token} {r : Stretch}
    (hword : word.isKeyword "let" = true ∨ word.isKeyword "const" = true)
    (h : Stretch.Inside tokens ⟨.leaf word :: r.trees, r.stop⟩) :
    Reads tokens (declaration word r) fun s => Derives (.leaf word :: r.trees) (.stmt s) := by
  obtain ⟨trees, stop⟩ := r
  have hr : Stretch.Inside tokens ⟨trees, stop⟩ := h.tail
  unfold declaration
  split
  · rename_i first rest hcons
    subst hcons
    have hfirst := hr.trees
    split
    · rename_i kind
      obtain hdeclared | ⟨second, more, rfl, kind', hdeclared⟩ := declaredName_cases first rest
      · rw [hdeclared]
        refine reads_bind (declaredValue_reads hfirst.leaf_mem ⟨hfirst.tail, h.stop⟩) fun value hvalue => ?_
        refine reads_bind (reads_newIdent hfirst.head kind) ?_
        rintro _ ⟨id, rfl⟩
        exact reads_newShape h (.declare hword kind hvalue)
      · rw [hdeclared]
        refine reads_bind (declaredValue_reads hfirst.tail.leaf_mem ⟨hfirst.tail.tail, h.stop⟩) fun value hvalue => ?_
        refine reads_bind (reads_newIdent hfirst.tail.head kind') ?_
        rintro _ ⟨m, rfl⟩
        refine reads_bind (reads_newIdent hfirst.head kind) ?_
        rintro _ ⟨id, rfl⟩
        exact reads_newShape h (.declareTyped hword kind kind' hvalue)
    · exact reads_fail hfirst.leaf_mem
  · exact reads_fail hr.first_mem

theorem assignTo_reads {r : Stretch} {before after : List TokenTree} {equals : Token} (h : r.Inside tokens)
    (hcut : r.trees = before ++ .leaf equals :: after) (kind : equals.kind = .equals) :
    Reads tokens (assignment.assignTo r before equals after) fun s => Derives r.trees (.stmt s) := by
  have hin := h.trees
  rw [hcut] at hin
  refine reads_bind (expression_reads ⟨before, equals⟩ ⟨hin.left, hin.right.leaf_mem⟩) fun target htarget => ?_
  split
  · refine reads_bind (expression_reads ⟨after, r.stop⟩ ⟨hin.right.tail, h.stop⟩) fun value hvalue => ?_
    refine reads_newShape h ?_
    rw [hcut]
    exact .change kind htarget hvalue
  · exact reads_failAt ⟨before, hin.left, htarget⟩

/-- The statement starts with a name. -/
theorem assignment_reads {r : Stretch} {t : Token} {rest : List TokenTree} (h : r.Inside tokens)
    (hfirst : r.trees = .leaf t :: rest) (hname : t.kind = .identifier) :
    Reads tokens (assignment r) fun s => Derives r.trees (.stmt s) := by
  have hin := h.trees
  unfold assignment
  split
  · split
    · rename_i type name hpair
      rw [hpair] at hin
      obtain ⟨rfl, -⟩ : type = t ∧ _ := by simpa [hpair] using hfirst
      split
      · rename_i kind
        refine reads_bind (reads_newIdent hin.head hname) ?_
        rintro _ ⟨id, rfl⟩
        refine reads_bind (reads_newIdent hin.tail kind) ?_
        rintro _ ⟨m, rfl⟩
        refine reads_newShape h ?_
        rw [hpair]
        exact .typed hname kind .unset
      · exact reads_fail hin.tail.leaf_mem
    · exact reads_fail h.tail.first_mem
  · rename_i name equals after hcut
    obtain ⟨hcut, kind⟩ := cutAt_eq_some hcut
    obtain ⟨rfl, -⟩ : name = t ∧ _ := by simpa [hcut] using hfirst
    rw [hcut] at hin
    refine reads_bind (reads_newIdent hin.left hname) ?_
    rintro _ ⟨id, rfl⟩
    refine reads_bind (expression_reads ⟨after, r.stop⟩ ⟨hin.right.tail, h.stop⟩) fun value hvalue => ?_
    refine reads_newShape h ?_
    rw [hcut]
    exact .change kind (.ident hname) hvalue
  · rename_i before equals after _ hcut
    obtain ⟨hcut, kind⟩ := cutAt_eq_some hcut
    split
    · rename_i type name _ _
      obtain ⟨rfl, -⟩ : type = t ∧ _ := by simpa [hcut] using hfirst
      rw [hcut] at hin
      split
      · rename_i kind'
        refine reads_bind (reads_newIdent hin.tail.head kind') ?_
        rintro _ ⟨m, rfl⟩
        refine reads_bind (expression_reads ⟨after, r.stop⟩ ⟨hin.right.tail, h.stop⟩) fun value hvalue => ?_
        refine reads_bind (reads_newIdent hin.head hname) ?_
        rintro _ ⟨id, rfl⟩
        refine reads_newShape h ?_
        rw [hcut]
        exact .typed hname kind' (.set kind hvalue)
      · exact assignTo_reads h hcut kind
    · exact assignTo_reads h hcut kind

theorem isPlace_ambiguity {a e : SyntaxError} (ha : IsPlace tokens a.span a.pos) (he : IsPlace tokens e.span e.pos) :
    IsPlace tokens (ambiguity a e).span (ambiguity a e).pos := by
  simp only [ambiguity, SyntaxError.of]
  split
  · exact ha
  · exact he

theorem nameStatement_reads {r : Stretch} {t : Token} {rest : List TokenTree} (h : r.Inside tokens)
    (hfirst : r.trees = .leaf t :: rest) (hname : t.kind = .identifier) :
    Reads tokens (nameStatement r) fun s => Derives r.trees (.stmt s) := by
  refine reads_bind (reads_attempt (assignment_reads h hfirst hname)) fun result hresult => ?_
  cases result with
  | ok s => exact reads_pure hresult
  | error fault =>
    obtain ⟨a, rfl, ha⟩ := hresult
    refine reads_bind (reads_attempt (exprStatement_reads h)) fun result hresult => ?_
    cases result with
    | ok s => exact reads_pure hresult
    | error fault =>
      obtain ⟨e, rfl, he⟩ := hresult
      exact reads_throw (isPlace_ambiguity ha he)

theorem simpleStatement_reads {r : Stretch} (h : r.Inside tokens) :
    Reads tokens (simpleStatement r) fun s => Derives r.trees (.clause s) := by
  obtain ⟨trees, stop⟩ := r
  unfold simpleStatement
  split
  · rename_i hnil
    subst hnil
    exact reads_pure .noClause
  · rename_i t rest hcons
    subst hcons
    split
    · rename_i hword
      rw [Bool.or_eq_true] at hword
      exact reads_bind (declaration_reads hword h) fun s hs => reads_pure (.clause hs)
    · split
      · rename_i hname
        exact reads_bind (nameStatement_reads h rfl hname) fun s hs => reads_pure (.clause hs)
      · exact reads_bind (exprStatement_reads h) fun s hs => reads_pure (.clause hs)
  · exact reads_bind (exprStatement_reads h) fun s hs => reads_pure (.clause hs)

theorem returnStatement_reads {word : Token} {r : Stretch} (hword : word.isKeyword "return" = true)
    (h : Stretch.Inside tokens ⟨.leaf word :: r.trees, r.stop⟩) :
    Reads tokens (returnStatement word r) fun s => Derives (.leaf word :: r.trees) (.stmt s) := by
  refine reads_bind reads_scope fun scope _ => ?_
  split
  · exact reads_fail h.trees.leaf_mem
  · exact reads_bind (bound_reads r h.tail) fun value hvalue => reads_newShape h (.ret hword hvalue)

theorem loopStatement_reads {word : Token} {r : Stretch}
    (hword : word.isKeyword "break" = true ∨ word.isKeyword "continue" = true)
    (h : Stretch.Inside tokens ⟨.leaf word :: r.trees, r.stop⟩) :
    Reads tokens (loopStatement word r) fun s => Derives (.leaf word :: r.trees) (.stmt s) := by
  refine reads_bind reads_scope fun scope _ => ?_
  split
  · exact reads_fail h.trees.leaf_mem
  · split
    · exact reads_fail h.tail.first_mem
    · rename_i hempty
      obtain ⟨trees, stop⟩ := r
      obtain rfl : trees = [] := by simpa [Stretch.isEmpty] using hempty
      rw [← Stretch.span_leaf word stop]
      refine reads_newShape h ?_
      obtain hword | hword := hword
      · have hvalue := Token.value_of_isKeyword hword
        simp only [hvalue, if_true]
        exact .brk hword
      · have hvalue := Token.value_of_isKeyword hword
        have hne : ("continue" : Bytes) ≠ "break" := by decide
        simp only [hvalue, hne, if_false]
        exact .cont hword

/-! ## Headers -/

/-- A pair of delimiters comes next, and the part is between them. -/
def Opens (kind : TokenKind) (p : Part) (r : Stretch) : Prop :=
  ∃ o inside c, r.trees = .group o inside c :: r.tail.trees ∧ o.kind = kind ∧ Derives inside p

theorem expectEnd_reads {r : Stretch} (h : r.Inside tokens) : Reads tokens (expectEnd r) fun _ => r.trees = [] := by
  unfold expectEnd
  split
  · rename_i hempty
    exact reads_pure (List.isEmpty_iff.mp hempty)
  · exact reads_fail h.first_mem

theorem condition_reads {word : Token} {r : Stretch} (h : r.Inside tokens) :
    Reads tokens (condition word r) fun e => Opens .leftParen (.expr e) r := by
  obtain ⟨trees, stop⟩ := r
  unfold condition
  split
  · rename_i opener inside closer rest hcons
    subst hcons
    have hin := h.trees
    have hinside := hin.inside
    split
    · rename_i kind
      have hsplit := List.takeWhile_append_dropWhile (p := fun t => !endsCondition t) (l := inside)
      rw [← hsplit] at hinside
      have hrest : Stretch.Inside tokens ⟨inside.dropWhile fun t => !endsCondition t, closer⟩ :=
        ⟨hinside.right, hin.closer_mem⟩
      refine reads_bind (expression_reads _ ⟨hinside.left, hrest.first_mem⟩) fun test htest => ?_
      split
      · rename_i hnil
        rw [hnil, List.append_nil] at hsplit
        rw [conditionPart, hsplit] at htest
        exact reads_pure ⟨opener, inside, closer, rfl, kind, htest⟩
      · rename_i t more hcons
        rw [hcons] at hinside
        exact reads_fail (hinside.right.mem_of_mem List.mem_cons_self)
    · exact reads_fail hin.opener_mem
  · exact reads_fail h.first_mem

theorem forHeader_reads {word : Token} {r : Stretch} (h : r.Inside tokens) :
    Reads tokens (forHeader word r) fun (init, test, step) => Opens .leftParen (.header init test step) r := by
  obtain ⟨trees, stop⟩ := r
  unfold forHeader
  split
  · rename_i opener inside closer rest hcons
    subst hcons
    have hin := h.trees
    split
    · rename_i kind
      have hjoined := splitAt_joined .semicolon closer inside
      split
      · rename_i first second third hclauses
        rw [hclauses] at hjoined
        have hinside := hin.inside
        have hfirst := hjoined.inside hinside hin.closer_mem
        obtain _ | ⟨a_ok, hjoined⟩ := hjoined
        have hsecond := hjoined.inside hinside.right.tail hin.closer_mem
        obtain _ | ⟨b_ok, hjoined⟩ := hjoined
        have hthird := hjoined.inside hinside.right.tail.right.tail hin.closer_mem
        obtain _ | ⟨_, hjoined⟩ := hjoined
        · refine reads_bind (simpleStatement_reads hfirst) fun init hinit => ?_
          refine reads_bind (bound_reads second hsecond) fun test htest => ?_
          refine reads_bind (simpleStatement_reads hthird) fun step hstep => ?_
          exact reads_pure ⟨opener, _, closer, rfl, kind, .header a_ok b_ok hinit htest hstep⟩
        · cases hjoined
      · exact reads_fail hin.opener_mem
    · exact reads_fail hin.opener_mem
  · exact reads_fail h.first_mem

theorem parameterName_reads {place : Token} {head : List TokenTree} (hplace : place ∈ tokens) (hin : Inside tokens head) :
    Reads tokens (parameterName place head) fun (type, name) => name.kind = .identifier ∧
      ((head = [.leaf name] ∧ type = none) ∨
        ∃ t id, head = [.leaf t, .leaf name] ∧ t.kind = .identifier ∧ type = some (t.ident id)) := by
  unfold parameterName
  split
  · split
    · rename_i kind
      exact reads_pure ⟨kind, .inl ⟨rfl, rfl⟩⟩
    · exact reads_fail hplace
  · split
    · rename_i kinds
      rw [Bool.and_eq_true, decide_eq_true_eq, decide_eq_true_eq] at kinds
      refine reads_bind (reads_newIdent hin.head kinds.1) ?_
      rintro _ ⟨id, rfl⟩
      exact reads_pure ⟨kinds.2, .inr ⟨_, id, rfl, kinds.1, rfl⟩⟩
    · exact reads_fail hplace
  · exact reads_fail hplace

/-- What stands before a default, and the default. -/
def parameterParts (r : Stretch) : List TokenTree × Option Stretch :=
  match cutAt .equals r.trees with
  | none => (r.trees, none)
  | some (before, _, after) => (before, some ⟨after, r.stop⟩)

theorem parameters_cons (seen : List Bytes) (r : Stretch) (rs : List Stretch) :
    parameters seen (r :: rs) =
      if r.isEmpty then fail .emptyParameter r.stop
      else do
        let (type, name) ← parameterName r.first (parameterParts r).1
        if seen.contains name.value then fail (.duplicateParameter name.value) name
        else
          let value ← optional (parameterParts r).2
          let params ← parameters (name.value :: seen) rs
          return { span := r.span, pos := r.first.pos, name := name.value, type, value } :: params := rfl

theorem optional_reads {r : Stretch} (h : r.Inside tokens) :
    ∃ rest, r.trees = (parameterParts r).1 ++ rest ∧
      Reads tokens (optional (parameterParts r).2) fun value => Derives rest (.value value) := by
  unfold parameterParts
  split
  · exact ⟨[], by simp, reads_pure .unset⟩
  · rename_i before equals after hcut
    obtain ⟨hcut, kind⟩ := cutAt_eq_some hcut
    have hin := h.trees
    rw [hcut] at hin
    refine ⟨.leaf equals :: after, hcut, ?_⟩
    refine reads_bind (expression_reads ⟨after, r.stop⟩ ⟨hin.right.tail, h.stop⟩) fun e he => ?_
    exact reads_pure (.set kind he)

theorem parameters_reads {stop : Token} {rs : List Stretch} {ts : List TokenTree} (seen : List Bytes)
    (hjoined : Joined .comma stop rs ts) (hin : Inside tokens ts) (hstop : stop ∈ tokens) :
    Reads tokens (parameters seen rs) fun params => Derives ts (.list (params.map .param)) := by
  induction rs generalizing seen ts with
  | nil => cases hjoined
  | cons r rs ih =>
    have hr := hjoined.inside hin hstop
    rw [parameters_cons]
    split
    · exact reads_fail hr.stop
    · obtain ⟨rest, htrees, hdefault⟩ := optional_reads hr
      have hhead := hr.trees
      rw [htrees] at hhead
      refine reads_bind (parameterName_reads hr.first_mem hhead.left) fun (type, name) hname => ?_
      dsimp only at hname ⊢
      have hmem : name ∈ tokens := by
        obtain ⟨-, ⟨heq, -⟩ | ⟨t, id, heq, -, -⟩⟩ := hname
        · rw [heq] at hhead
          exact hhead.left.leaf_mem
        · rw [heq] at hhead
          exact hhead.left.tail.leaf_mem
      split
      · exact reads_fail hmem
      · refine reads_bind hdefault fun value hvalue => ?_
        have hparam : Derives r.trees (.param { span := r.span, pos := r.first.pos, name := name.value, type, value }) := by
          obtain ⟨trees, stop⟩ := r
          obtain ⟨kind, ⟨heq, rfl⟩ | ⟨t, id, heq, kind', rfl⟩⟩ := hname
          · rw [heq] at htrees
            subst htrees
            exact .param kind hvalue
          · rw [heq] at htrees
            subst htrees
            exact .typedParam kind' kind hvalue
        cases hjoined with
        | last =>
          rw [parameters, pure_bind]
          exact reads_pure (.last hparam)
        | next kind rest =>
          refine reads_bind (ih _ rest hin.right.tail) fun params hparams => ?_
          exact reads_pure (.next kind hparam hparams)

theorem expressions_reads {stop : Token} {rs : List Stretch} {ts : List TokenTree} (hjoined : Joined .comma stop rs ts)
    (hin : Inside tokens ts) (hstop : stop ∈ tokens) :
    Reads tokens (expressions rs) fun es => Derives ts (.list (es.map .expr)) := by
  induction rs generalizing ts with
  | nil => cases hjoined
  | cons r rs ih =>
    refine reads_bind (expression_reads r (hjoined.inside hin hstop)) fun e he => ?_
    cases hjoined with
    | last =>
      rw [expressions, pure_bind]
      exact reads_pure (.last he)
    | next kind rest =>
      refine reads_bind (ih rest hin.right.tail) fun es hes => ?_
      exact reads_pure (.next kind he hes)

theorem commaList_cases (inside : List TokenTree) (closer : Token) :
    (inside = [] ∧ commaList inside closer = []) ∨ Joined .comma closer (commaList inside closer) inside := by
  unfold commaList
  split
  · rename_i hempty
    exact .inl ⟨List.isEmpty_iff.mp hempty, rfl⟩
  · exact .inr (splitAt_joined .comma closer inside)

theorem defHeader_reads {r : Stretch} (h : r.Inside tokens) :
    Reads tokens (defHeader r) fun (name, params) => r.trees = .leaf name :: r.tail.trees ∧ name.kind = .identifier ∧
      Opens .leftParen (.list (params.map .param)) r.tail := by
  obtain ⟨trees, stop⟩ := r
  unfold defHeader
  split
  · rename_i name rest hcons
    subst hcons
    split
    · rename_i kind
      split
      · rename_i opener inside closer _
        have hin := h.trees.tail
        split
        · rename_i kind'
          have hparams : Reads tokens (parameters [] (commaList inside closer))
              fun params => Derives inside (.list (params.map .param)) := by
            obtain ⟨rfl, heq⟩ | hjoined := commaList_cases inside closer
            · rw [heq]
              exact reads_pure .empty
            · exact parameters_reads [] hjoined hin.inside hin.closer_mem
          refine reads_bind hparams fun params hparams => ?_
          exact reads_pure ⟨rfl, kind, opener, inside, closer, rfl, kind', hparams⟩
        · exact reads_fail hin.opener_mem
      · exact reads_fail h.tail.first_mem
    · exact reads_fail h.trees.leaf_mem
  · exact reads_fail h.first_mem

theorem className_reads {r : Stretch} (h : r.Inside tokens) :
    Reads tokens (className r) fun name => r.trees = .leaf name :: r.tail.trees ∧ name.kind = .identifier := by
  obtain ⟨trees, stop⟩ := r
  unfold className
  split
  · rename_i name rest hcons
    subst hcons
    split
    · rename_i kind
      exact reads_pure ⟨rfl, kind⟩
    · exact reads_fail h.trees.leaf_mem
  · exact reads_fail h.first_mem

theorem classBases_reads {r : Stretch} (h : r.Inside tokens) :
    Reads tokens (classBases r) fun bases => (bases = [] ∧ afterBases r = r) ∨
      (Opens .leftParen (.list (bases.map .expr)) r ∧ afterBases r = r.tail) := by
  obtain ⟨trees, stop⟩ := r
  unfold classBases afterBases
  split
  · rename_i opener inside closer rest hcons
    subst hcons
    have hin := h.trees
    split
    · rename_i kind
      have hbases : Reads tokens (expressions (commaList inside closer))
          fun es => Derives inside (.list (es.map .expr)) := by
        obtain ⟨rfl, heq⟩ | hjoined := commaList_cases inside closer
        · rw [heq]
          exact reads_pure .empty
        · exact expressions_reads hjoined hin.inside hin.closer_mem
      exact hbases.mono fun bases hbases => .inr ⟨⟨opener, inside, closer, rfl, kind, hbases⟩, rfl⟩
    · exact reads_pure (.inl ⟨rfl, rfl⟩)
  · exact reads_pure (.inl ⟨rfl, rfl⟩)

theorem checkMembers_reads {ss : List Stmt} (h : ∀ s ∈ ss, Part.Within tokens (.stmt s)) :
    Reads tokens (checkMembers ss) fun _ => True := by
  induction ss with
  | nil => exact reads_pure trivial
  | cons s ss ih =>
    rw [List.forall_mem_cons] at h
    rw [checkMembers]
    split
    · exact ih h.2
    · exact reads_throw (.stmt h.1)

/-! ## Statements with a block -/

theorem startsWithElse_eq_true {r : Stretch} (h : startsWithElse r = true) :
    ∃ t, r.trees = .leaf t :: r.tail.trees ∧ t.isKeyword "else" = true := by
  obtain ⟨trees, stop⟩ := r
  cases trees with
  | nil => simp [startsWithElse] at h
  | cons t ts =>
    cases t with
    | leaf t => exact ⟨t, rfl, by simpa [startsWithElse, TokenTree.isKeyword] using h⟩
    | group => simp [startsWithElse, TokenTree.isKeyword] at h

theorem elseIf_eq_some {r rest : Stretch} {t : Token} (h : elseIf? r = some (t, rest)) :
    r = ⟨.leaf t :: rest.trees, rest.stop⟩ ∧ t.isKeyword "if" = true := by
  obtain ⟨trees, stop⟩ := r
  unfold elseIf? at h
  split at h
  · rename_i token more hcons
    subst hcons
    split at h
    · rename_i hword
      simp only [Option.some.injEq, Prod.mk.injEq] at h
      obtain ⟨rfl, rfl⟩ := h
      exact ⟨rfl, hword⟩
    · simp at h
  · simp at h

theorem sequence_reads {cs : List Clause} {ts : List TokenTree} (hdivided : Divided tokens cs ts) (hin : Inside tokens ts)
    (hstatement : ∀ c ∈ cs, c.stretch.Inside tokens →
      Reads tokens (statement c) fun s => Derives c.stretch.trees (.stmt s)) :
    Reads tokens (sequence cs) fun ss => Derives ts (.stmts ss) := by
  induction hdivided with
  | nil =>
    rw [sequence]
    exact reads_pure .noStmts
  | separator kind _ ih => exact (ih hin.tail hstatement).mono fun ss hss => .separator kind hss
  | clause stop_mem _ ih =>
    rw [List.forall_mem_cons] at hstatement
    rw [sequence]
    refine reads_bind (hstatement.1 ⟨hin.left, stop_mem⟩) fun s hs => ?_
    exact reads_bind (ih hin.right hstatement.2) fun ss hss => reads_pure (.stmts hs hss)

theorem stmts_within {ts : List TokenTree} {ss : List Stmt} (hin : Inside tokens ts) (h : Derives ts (.stmts ss)) :
    ∀ s ∈ ss, Part.Within tokens (.stmt s) := by
  generalize hp : Part.stmts ss = p at h
  induction h generalizing ss with
  | noStmts =>
    cases hp
    exact List.forall_mem_nil _
  | separator _ _ ih => exact ih hin.tail hp
  | stmts hs _ _ ih =>
    cases hp
    exact List.forall_mem_cons.mpr ⟨⟨_, hin.left, hs⟩, ih hin.right rfl⟩
  | _ => cases hp

theorem afterBases_inside {r : Stretch} (h : r.Inside tokens) : (afterBases r).Inside tokens := by
  unfold afterBases
  split
  · split
    · exact h.tail
    · exact h
  · exact h

-- A block is read by its statements, a statement by its blocks, and a conditional by the one behind its `else`.
mutual

theorem statement_reads (c : Clause) (h : c.stretch.Inside tokens) :
    Reads tokens (statement c) fun s => Derives c.stretch.trees (.stmt s) := by
  match c with
  | ⟨.group opener inside closer, tail, stop⟩ =>
    rw [statement]
    exact reads_fail h.first_mem
  | ⟨.leaf t, tail, stop⟩ =>
    rw [statement]
    dsimp only
    split
    · rename_i kind
      exact nameStatement_reads h rfl kind
    · rename_i kind
      split
      · rename_i hword
        exact declaration_reads (by simpa [Token.isKeyword, kind] using hword) h
      split
      · rename_i hword
        exact conditional_reads t ⟨tail, stop⟩ (by simp [Token.isKeyword, kind, hword]) h
      split
      · rename_i hword
        refine reads_bind (forHeader_reads h.tail) ?_
        rintro ⟨init, test, step⟩ ⟨o, inside, c, heq, opener, hheader⟩
        refine reads_bind reads_scope fun scope _ => ?_
        refine reads_bind (reads_within _ (body_reads _ h.tail.tail)) ?_
        rintro body ⟨o', inside', c', heq', opener', hbody⟩
        refine reads_bind (expectEnd_reads h.tail.tail.tail) fun _ hend => ?_
        obtain rfl : tail = [.group o inside c, .group o' inside' c'] := heq.trans (by rw [heq', hend])
        exact reads_newShape h (.forLoop (by simp [Token.isKeyword, kind, hword]) opener opener' hheader hbody)
      split
      · rename_i hword
        refine reads_bind (condition_reads h.tail) ?_
        rintro test ⟨o, inside, c, heq, opener, htest⟩
        refine reads_bind reads_scope fun scope _ => ?_
        refine reads_bind (reads_within _ (body_reads _ h.tail.tail)) ?_
        rintro body ⟨o', inside', c', heq', opener', hbody⟩
        refine reads_bind (expectEnd_reads h.tail.tail.tail) fun _ hend => ?_
        obtain rfl : tail = [.group o inside c, .group o' inside' c'] := heq.trans (by rw [heq', hend])
        exact reads_newShape h (.whileLoop (by simp [Token.isKeyword, kind, hword]) opener opener' htest hbody)
      split
      · rename_i hword
        refine reads_bind (defHeader_reads h.tail) ?_
        rintro ⟨name, params⟩ ⟨heq, hname, o, inside, c, heq', opener, hparams⟩
        refine reads_bind reads_scope fun scope _ => ?_
        refine reads_bind (reads_within _ (body_reads _ h.tail.tail.tail)) ?_
        rintro body ⟨o', inside', c', heq'', opener', hbody⟩
        refine reads_bind (expectEnd_reads h.tail.tail.tail.tail) fun _ hend => ?_
        obtain rfl : tail = [.leaf name, .group o inside c, .group o' inside' c'] :=
          heq.trans (by rw [heq', heq'', hend])
        exact reads_newShape h (.define (by simp [Token.isKeyword, kind, hword]) hname opener opener' hparams hbody)
      split
      · rename_i hword
        refine reads_bind (className_reads h.tail) ?_
        rintro name ⟨heq, hname⟩
        refine reads_bind (classBases_reads h.tail.tail) fun bases hbases => ?_
        have hafter : (afterBases (Clause.after ⟨.leaf t, tail, stop⟩).tail).Inside tokens :=
          afterBases_inside h.tail.tail
        refine reads_bind (reads_within _ (body_reads _ hafter)) ?_
        rintro members ⟨o, inside, c, heq', opener, hmembers⟩
        refine reads_bind (expectEnd_reads hafter.tail) fun _ hend => ?_
        have hinside := hafter.trees
        rw [heq'] at hinside
        refine reads_bind (checkMembers_reads (stmts_within hinside.inside hmembers)) fun _ _ => ?_
        have hclass : t.isKeyword "class" = true := by simp [Token.isKeyword, kind, hword]
        obtain ⟨rfl, hbases⟩ | ⟨⟨o', inside', c', heq'', opener', hbases⟩, hrest⟩ := hbases
        · obtain rfl : tail = [.leaf name, .group o inside c] := heq.trans (by rw [← hbases, heq', hend])
          exact reads_newShape h (.defineClass hclass hname opener hmembers)
        · obtain rfl : tail = [.leaf name, .group o' inside' c', .group o inside c] :=
            heq.trans (by rw [heq'', ← hrest, heq', hend])
          exact reads_newShape h (.defineSubclass hclass hname opener' opener hbases hmembers)
      split
      · rename_i hword
        exact returnStatement_reads (by simp [Token.isKeyword, kind, hword]) h
      split
      · rename_i hword
        exact loopStatement_reads (by simpa [Token.isKeyword, kind] using hword) h
      · exact reads_fail h.first_mem
    · exact reads_fail h.first_mem
termination_by 4 * c.weight
decreasing_by
  all_goals
    have := Stretch.weight_tail_le ⟨tail, stop⟩
    have := Stretch.weight_tail_le (Stretch.tail ⟨tail, stop⟩)
    have := weight_afterBases_le (Stretch.tail ⟨tail, stop⟩)
    simp only [Clause.weight, weight]
    simp only [Clause.after, Stretch.weight] at *
    omega

theorem conditional_reads (word : Token) (r : Stretch) (hword : word.isKeyword "if" = true)
    (h : Stretch.Inside tokens ⟨.leaf word :: r.trees, r.stop⟩) :
    Reads tokens (conditional word r) fun s => Derives (.leaf word :: r.trees) (.stmt s) := by
  have hr : r.Inside tokens := h.tail
  rw [conditional]
  refine reads_bind (condition_reads hr) ?_
  rintro test ⟨o, inside, c, heq, opener, htest⟩
  refine reads_bind (body_reads r.tail hr.tail) ?_
  rintro yes ⟨o', inside', c', heq', opener', hyes⟩
  have hshape : ∀ ss, Derives r.tail.tail.trees (.otherwise ss) →
      Derives (.leaf word :: r.trees) (.shape fun n => .conditional n test yes ss) := by
    intro ss hss
    rw [heq, heq']
    exact .conditional hword opener opener' htest hyes hss
  dsimp only
  split
  · rename_i helse
    obtain ⟨word', heq'', hword'⟩ := startsWithElse_eq_true helse
    split
    · rename_i nested rest hnested
      obtain ⟨hrest, hif⟩ := elseIf_eq_some hnested
      have hinside := hr.tail.tail.tail
      rw [hrest] at hinside
      refine reads_bind (conditional_reads nested rest hif hinside) fun no hno => ?_
      refine reads_newShape h (hshape _ ?_)
      rw [heq'', hrest]
      exact .elseIf hword' hno
    · refine reads_bind (body_reads r.tail.tail.tail hr.tail.tail.tail) ?_
      rintro no ⟨o'', inside'', c'', hblock, opener'', hno⟩
      refine reads_bind (expectEnd_reads hr.tail.tail.tail.tail) fun _ hend => ?_
      refine reads_newShape h (hshape _ ?_)
      rw [heq'', hblock, hend]
      exact .elseBlock hword' opener'' hno
  · refine reads_bind (expectEnd_reads hr.tail.tail) fun _ hend => ?_
    refine reads_newShape h (hshape _ ?_)
    rw [hend]
    exact .noElse
termination_by 4 * r.weight + 2
decreasing_by
  all_goals
    have := r.weight_tail_le
    have := r.tail.weight_tail_le
    have := r.tail.tail.weight_tail_le
    try have := weight_elseIf (by assumption)
    omega

theorem body_reads (r : Stretch) (h : r.Inside tokens) :
    Reads tokens (body r) fun ss => Opens .leftBrace (.stmts ss) r := by
  rw [body]
  split
  · rename_i opener inside closer rest hcons
    have hin := h.trees
    rw [hcons] at hin
    split
    · rename_i kind
      have hlight : Clause.weightAll (statements closer inside) < r.weight := by
        have := weightAll_statements closer inside
        simp only [Stretch.weight, hcons, weightAll, weight]
        omega
      have hdivided := statements_divided hin.closer_mem hin.inside
      refine (sequence_reads hdivided hin.inside fun c hc hinside => statement_reads c hinside).mono fun ss hss => ?_
      exact ⟨opener, inside, closer, by simp [Stretch.tail, hcons], kind, hss⟩
    · exact reads_fail hin.opener_mem
  · exact reads_fail h.first_mem
termination_by 4 * r.weight + 1
decreasing_by
  have := Clause.weight_le_of_mem hc
  omega

end

end Parse

/-! ## Programs -/

/-- The end of the file counts as a token here: a fault can be there. -/
theorem SourceFile.parseStatements_reads (f : SourceFile) (ts : List Token) :
    Parse.Reads (significant ts ++ [f.endToken]) (f.parseStatements ts) fun ss =>
      ∃ trees, MatchedAll trees ∧ flattenAll trees = significant ts ∧ Derives trees (.stmts ss) := by
  have hnests := nest_nests (significant ts)
  have hend : f.endToken ∈ significant ts ++ [f.endToken] := by simp
  unfold parseStatements
  split
  · rename_i trees heq
    rw [heq] at hnests
    have hin : Inside (significant ts ++ [f.endToken]) trees := by
      rw [Inside, hnests.2]
      exact List.sublist_append_left _ _
    have hdivided := statements_divided hend hin
    refine (Parse.sequence_reads hdivided hin fun c _ hc => Parse.statement_reads c hc).mono fun ss hss => ?_
    exact ⟨trees, hnests.1, hnests.2, hss⟩
  · rename_i trees fault heq
    rw [heq] at hnests
    obtain ⟨hsub, t, ht, hspan, hpos⟩ := hnests
    have hin : Inside (significant ts ++ [f.endToken]) trees := hsub.trans (List.sublist_append_left _ _)
    obtain ⟨us, heq, hdivided⟩ := splitStatements_divided hend [] hin
    rw [List.reverse_nil, List.nil_append] at heq
    rw [heq] at hin
    refine Parse.reads_bind (Parse.sequence_reads hdivided hin.left fun c _ hc => Parse.statement_reads c hc) fun _ _ => ?_
    refine Parse.reads_throw ?_
    rw [hspan, hpos]
    exact .token (List.mem_append_left _ ht)

end Bracescript
