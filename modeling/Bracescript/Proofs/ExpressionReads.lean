import Bracescript.Proofs.Reading

/-!
# The expression parser reads derivations

Every function of the expression parser reads its tokens: what it gives is derived from all of them.
-/

namespace Bracescript

open Item TokenTree

variable {tokens : List Token}

/-! ## Items -/

def Item.ReadFrom (ts : List TokenTree) : Item → Prop
  | .operand e => Derives ts (.expr e)
  | .operator symbol t => ts = [.leaf t] ∧ t.operatorSymbol? = some symbol

/-- The items were read from the trees, one behind the other. -/
def Spelled : List TokenTree → List Item → Prop
  | ts, [] => ts = []
  | ts, i :: is => ∃ us vs, ts = us ++ vs ∧ i.ReadFrom us ∧ Spelled vs is

theorem spelled_append {ts : List TokenTree} {xs ys : List Item} :
    Spelled ts (xs ++ ys) ↔ ∃ us vs, ts = us ++ vs ∧ Spelled us xs ∧ Spelled vs ys := by
  induction xs generalizing ts with
  | nil =>
    constructor
    · intro h
      exact ⟨[], ts, rfl, rfl, h⟩
    · rintro ⟨_, vs, rfl, rfl, h⟩
      exact h
  | cons x xs ih =>
    constructor
    · rintro ⟨us, vs, rfl, hx, hrest⟩
      obtain ⟨us', vs', rfl, hxs, hys⟩ := ih.mp hrest
      exact ⟨us ++ us', vs', by simp, ⟨us, us', rfl, hx, hxs⟩, hys⟩
    · rintro ⟨_, vs, rfl, ⟨us, us', rfl, hx, hxs⟩, hys⟩
      exact ⟨us, us' ++ vs, by simp, hx, ih.mpr ⟨us', vs, rfl, hxs, hys⟩⟩

theorem spelled_singleton {ts : List TokenTree} {i : Item} : Spelled ts [i] ↔ i.ReadFrom ts := by
  constructor
  · rintro ⟨us, _, rfl, hi, rfl⟩
    rwa [List.append_nil]
  · intro h
    exact ⟨ts, [], by simp, h, rfl⟩

/-- The last item is on top of those read before it. -/
theorem spelled_reverse_cons {ts : List TokenTree} {i : Item} {is : List Item} :
    Spelled ts (i :: is).reverse ↔ ∃ us vs, ts = us ++ vs ∧ Spelled us is.reverse ∧ i.ReadFrom vs := by
  simp only [List.reverse_cons, spelled_append, spelled_singleton]

theorem binary_of_alternates {items : List Item} (h : Alternates items) :
    ∀ symbol token, Item.operator symbol token ∈ items → isBinary symbol = true := by
  fun_induction Alternates items with
  | case1 e => simp
  | case2 e symbol token rest ih =>
    intro symbol' token' hmem
    rw [List.mem_cons, List.mem_cons] at hmem
    rcases hmem with hmem | hmem | hmem
    · cases hmem
    · cases hmem
      exact h.1
    · exact ih h.2 symbol' token' hmem
  | case3 => exact h.elim

/-! ## Reduction -/

namespace Reduction

open Parse

/-- The tokens of operators that are held back, the nearest first. -/
def leaves (held : List (Bytes × Token)) : List TokenTree := held.reverse.map fun p => .leaf p.2

/-- All operators that are held back may stand in front of an operand. -/
def AreFront (held : List (Bytes × Token)) : Prop :=
  ∀ p ∈ held, isUnary p.1 = true ∧ p.2.operatorSymbol? = some p.1

theorem applyAll_reads {held : List (Bytes × Token)} {e : Expr} {ts : List TokenTree} (hheld : AreFront held)
    (hin : Inside tokens (leaves held ++ ts)) (he : Derives ts (.expr e)) :
    Reads tokens (applyAll held e) fun e => Derives (leaves held ++ ts) (.expr e) := by
  induction held generalizing e ts with
  | nil => exact reads_pure he
  | cons p held ih =>
    obtain ⟨symbol, token⟩ := p
    obtain ⟨⟨hknown, hsymbol⟩, hheld⟩ := List.forall_mem_cons.mp hheld
    have hleaves : leaves ((symbol, token) :: held) ++ ts = leaves held ++ .leaf token :: ts := by simp [leaves]
    rw [hleaves] at hin ⊢
    refine reads_bind (reads_newExpr hin.right fun _ => .front hsymbol hknown he) fun e he => ?_
    exact ih hheld hin he

/-- Before an operand and behind one, the items become operands with binary operators between them. -/
theorem operands_read (items : List Item) :
    (∀ last held ts, AreFront held → Spelled ts items → Inside tokens (leaves held ++ ts) →
      (∀ p, last = some p → p.2 ∈ tokens) → (items ≠ [] ∨ held ≠ [] ∨ last ≠ none) →
      Reads tokens (beforeOperand last held items) fun out => Spelled (leaves held ++ ts) out ∧ Alternates out) ∧
    (∀ e us ts, Derives us (.expr e) → Spelled ts items → Inside tokens (us ++ ts) →
      Reads tokens (behindOperand e items) fun out => Spelled (us ++ ts) out ∧ Alternates out) := by
  induction items with
  | nil =>
    constructor
    · rintro last held _ hheld rfl hin hlast hsome
      cases held with
      | cons p held =>
        refine reads_fail ?_
        exact hin.mem_of_mem (x := .leaf p.2) (by simp [leaves])
      | nil =>
        cases last with
        | some p => exact reads_fail (hlast p rfl)
        | none => simp at hsome
    · rintro e us _ he rfl hin
      rw [List.append_nil]
      exact reads_pure ⟨spelled_singleton.mpr he, trivial⟩
  | cons item items ih =>
    obtain ⟨ihBefore, ihBehind⟩ := ih
    cases item with
    | operand e =>
      constructor
      · rintro last held _ hheld ⟨us, vs, rfl, he, hrest⟩ hin hlast -
        rw [← List.append_assoc] at hin ⊢
        refine reads_bind (applyAll_reads hheld hin.left he) fun e he => ?_
        exact ihBehind e _ vs he hrest hin
      · rintro e' us _ he' ⟨vs, ws, rfl, he, hrest⟩ hin
        exact reads_failAt ⟨vs, hin.right.left, he⟩
    | operator symbol token =>
      constructor
      · rintro last held _ hheld ⟨_, vs, rfl, ⟨rfl, hsymbol⟩, hrest⟩ hin hlast -
        rw [beforeOperand]
        split
        · rename_i hknown
          have hleaves : leaves held ++ ([.leaf token] ++ vs) = leaves ((symbol, token) :: held) ++ vs := by
            simp [leaves]
          rw [hleaves] at hin ⊢
          exact ihBefore last _ vs (List.forall_mem_cons.mpr ⟨⟨hknown, hsymbol⟩, hheld⟩) hrest hin hlast (by simp)
        · exact reads_fail hin.right.leaf_mem
      · rintro e us _ he ⟨_, vs, rfl, ⟨rfl, hsymbol⟩, hrest⟩ hin
        rw [behindOperand]
        split
        · rename_i hknown
          rw [← List.append_assoc] at hin ⊢
          refine reads_bind (reads_newExpr hin.left fun _ => .behind hsymbol hknown he) fun e he => ?_
          exact ihBehind e _ vs he hrest hin
        · split
          · rename_i hknown
            have hlast : ∀ p, some (symbol, token) = some p → p.2 ∈ tokens := by
              rintro _ ⟨⟩
              exact hin.right.leaf_mem
            refine reads_bind (ihBefore _ [] vs (List.forall_mem_nil _) hrest hin.right.right hlast (by simp)) ?_
            rintro out ⟨hout, halternates⟩
            exact reads_pure ⟨⟨us, _, rfl, he, _, _, rfl, ⟨rfl, hsymbol⟩, hout⟩, hknown, halternates⟩
          · exact reads_fail hin.right.leaf_mem

theorem build_reads {t : OpTree} {ts : List TokenTree}
    (hbinary : ∀ symbol token, Item.operator symbol token ∈ t.items → isBinary symbol = true)
    (h : Spelled ts t.items) (hin : Inside tokens ts) : Reads tokens t.build fun e => Derives ts (.expr e) := by
  induction t generalizing ts with
  | atom e => exact reads_pure (spelled_singleton.mp h)
  | node symbol token left right ihl ihr =>
    obtain ⟨ls, _, rfl, hleft, _, rs, rfl, ⟨rfl, hsymbol⟩, hright⟩ := spelled_append.mp h
    have hknown := hbinary symbol token (by simp [OpTree.items])
    have hl := ihl (fun s t ht => hbinary s t (by simp [OpTree.items, ht])) hleft hin.left
    have hr := ihr (fun s t ht => hbinary s t (by simp [OpTree.items, ht])) hright hin.right.right
    refine reads_bind hl fun l hl => reads_bind hr fun r hr => ?_
    exact reads_newExpr hin fun _ => .binary hsymbol hknown hl hr

theorem binaries_reads {items : List Item} {ts : List TokenTree} (halternates : Alternates items) (h : Spelled ts items)
    (hin : Inside tokens ts) : Reads tokens (binaries items) fun e => Derives ts (.expr e) := by
  obtain ⟨t, rfl, hgrouped⟩ := OpTree.exists_grouped items halternates
  rw [OpTree.binaries_eq_build hgrouped]
  exact build_reads (binary_of_alternates halternates) h hin

theorem reduce_reads {items : List Item} {ts : List TokenTree} {place : Token} (h : Spelled ts items)
    (hin : Inside tokens ts) (hplace : place ∈ tokens) :
    Reads tokens (reduce items place) fun e => Derives ts (.expr e) := by
  induction hn : items.length using Nat.strongRecOn generalizing items ts place with
  | _ n ih =>
    rw [reduce]
    split
    · exact reads_fail hplace
    · rename_i hne
      split
      · refine reads_bind ((operands_read items).1 none [] ts (List.forall_mem_nil _) h hin (by simp) ?_) ?_
        · exact .inl (by simpa using hne)
        · rintro out ⟨hout, halternates⟩
          exact binaries_reads halternates hout hin
      · rename_i test symbol mark after hmark
        have hlenMark := length_cutAtMark hmark
        obtain ⟨rfl, -, -⟩ := Grammar.cutAtMark_eq_some hmark
        obtain ⟨as, _, rfl, htest, _, us, rfl, ⟨rfl, hsymbol⟩, hafter⟩ := spelled_append.mp h
        have hmem : mark ∈ tokens := hin.right.leaf_mem
        split
        · exact reads_fail hmem
        · rename_i hquestion
          obtain rfl : symbol = "?" := Decidable.not_not.mp hquestion
          split
          · exact reads_fail hmem
          · rename_i yes colon no hmatch
            have hlenMatch := length_cutAtMatch hmatch
            obtain rfl := Grammar.cutAtMatch_eq_some hmatch
            obtain ⟨bs, _, rfl, hyes, _, cs, rfl, ⟨rfl, hcolon⟩, hno⟩ := spelled_append.mp hafter
            have hin' : Inside tokens (bs ++ .leaf colon :: cs) := hin.right.right
            have hmem' : colon ∈ tokens := hin'.right.leaf_mem
            split
            · exact reads_fail hmem
            split
            · exact reads_fail hmem'
            split
            · exact reads_fail hmem'
            refine reads_bind (ih _ (by omega) htest hin.left hmem rfl) fun a ha => ?_
            refine reads_bind (ih _ (by omega) hyes hin'.left hmem' rfl) fun b hb => ?_
            refine reads_bind (ih _ (by omega) hno hin'.right.tail hmem' rfl) fun c hc => ?_
            exact reads_newExpr hin fun _ => .ternary hsymbol hcolon ha hb hc

end Reduction

/-! ## Expressions -/

theorem Joined.inside {separator : TokenKind} {stop : Token} {r : Stretch} {rs : List Stretch} {ts : List TokenTree}
    (h : Joined separator stop (r :: rs) ts) (hin : Inside tokens ts) (hstop : stop ∈ tokens) : r.Inside tokens := by
  cases h with
  | last => exact ⟨hin, hstop⟩
  | next => exact ⟨hin.left, hin.right.leaf_mem⟩

namespace Parse

theorem tokenItem_reads {t : Token} (hin : Inside tokens [.leaf t]) :
    Reads tokens (tokenItem t) (Item.ReadFrom [.leaf t]) := by
  unfold tokenItem
  split
  · rename_i kind
    refine reads_bind (reads_newExpr hin fun _ => Derives.ident kind) fun e he => reads_pure he
  · rename_i kind
    refine reads_bind (reads_newExpr hin fun _ => .string kind) fun e he => reads_pure he
  · rename_i kind
    split
    · exact reads_fail hin.leaf_mem
    · rename_i known
      refine reads_bind (reads_newExpr hin fun _ => .number kind known) fun e he => reads_pure he
  · rename_i kind
    exact reads_pure ⟨rfl, by simp [Token.operatorSymbol?, kind]⟩
  · rename_i kind
    split
    · rename_i hword
      exact reads_pure ⟨rfl, by simp [Token.operatorSymbol?, kind, hword]⟩
    · exact reads_fail hin.leaf_mem
  · exact reads_fail hin.leaf_mem

-- The parsers call each other, and so do their lemmas: each one falls by the measure of its parser.
mutual

theorem collect_reads (items : List Item) (trees : List TokenTree) (stop : Token) (before : List TokenTree)
    (hitems : Spelled before items.reverse) (hin : Inside tokens (before ++ trees)) (hstop : stop ∈ tokens) :
    Reads tokens (collect items trees stop) (Spelled (before ++ trees)) := by
  match trees with
  | [] =>
    rw [collect, List.append_nil]
    exact reads_pure hitems
  | .leaf t :: rest =>
    rw [collect.eq_def]
    dsimp only
    split
    · rename_i hperiod
      split
      · rename_i target items
        split
        · rename_i name rest
          split
          · rename_i hname
            obtain ⟨us, vs, rfl, hitems, htarget⟩ := spelled_reverse_cons.mp hitems
            have heq : us ++ vs ++ .leaf t :: .leaf name :: rest = us ++ (vs ++ [.leaf t, .leaf name]) ++ rest := by simp
            rw [heq] at hin ⊢
            refine reads_bind (reads_newExpr hin.left.right fun _ => .member hperiod hname htarget) fun e he => ?_
            exact collect_reads _ rest stop _ (spelled_reverse_cons.mpr ⟨us, _, rfl, hitems, he⟩) hin hstop
          · exact reads_fail hin.right.tail.leaf_mem
        · have hrest : Stretch.Inside tokens ⟨rest, stop⟩ := ⟨hin.right.tail, hstop⟩
          exact reads_fail hrest.first_mem
      · exact reads_fail hin.right.leaf_mem
    · have heq : before ++ .leaf t :: rest = before ++ [.leaf t] ++ rest := by simp
      rw [heq] at hin ⊢
      refine reads_bind (tokenItem_reads hin.left.right) fun item hitem => ?_
      exact collect_reads _ rest stop _ (spelled_reverse_cons.mpr ⟨before, _, rfl, hitems, hitem⟩) hin hstop
  | .group opener inside closer :: rest =>
    have hcloser := hin.right.closer_mem
    have hinside := hin.right.inside
    have heq : before ++ .group opener inside closer :: rest = before ++ [.group opener inside closer] ++ rest := by simp
    rw [collect.eq_def]
    dsimp only
    split
    · rename_i hopener
      split
      · rename_i callee items
        obtain ⟨us, vs, rfl, hitems, hcallee⟩ := spelled_reverse_cons.mp hitems
        rw [heq, List.append_assoc us] at hin ⊢
        refine reads_bind (P := fun args => Derives inside (.list (args.map .arg))) ?_ fun args hargs => ?_
        · split
          · rename_i hempty
            obtain rfl := List.isEmpty_iff.mp hempty
            rw [arguments]
            exact reads_pure .empty
          · exact arguments_reads _ inside (splitAt_joined .comma closer inside) hinside hcloser
        · refine reads_bind (reads_newExpr hin.left.right fun _ => .call hopener hcallee hargs) fun e he => ?_
          exact collect_reads _ rest stop _ (spelled_reverse_cons.mpr ⟨us, _, rfl, hitems, he⟩) hin hstop
      · split
        · exact reads_fail hcloser
        · refine reads_bind (expression_reads ⟨inside, closer⟩ ⟨hinside, hcloser⟩) fun e he => ?_
          rw [heq] at hin ⊢
          have hitem : Item.ReadFrom [.group opener inside closer] (.operand e) := .parens hopener he
          exact collect_reads _ rest stop _ (spelled_reverse_cons.mpr ⟨before, _, rfl, hitems, hitem⟩) hin hstop
    · rename_i hopener
      split
      · rename_i target items
        obtain ⟨us, vs, rfl, hitems, htarget⟩ := spelled_reverse_cons.mp hitems
        rw [heq, List.append_assoc us] at hin ⊢
        refine reads_bind (subscript_reads target inside closer hopener htarget hin.left.right) fun e he => ?_
        exact collect_reads _ rest stop _ (spelled_reverse_cons.mpr ⟨us, _, rfl, hitems, he⟩) hin hstop
      · exact reads_fail hin.right.opener_mem
    · exact reads_fail hin.right.opener_mem
termination_by 4 * weightAll trees
decreasing_by
  all_goals
    subst_vars
    simp only [weightAll, weight, Stretch.weight]
    first
    | omega
    | rw [weightAll_splitAt]; omega

theorem subscript_reads (target : Expr) (inside : List TokenTree) (closer : Token) {opener : Token}
    {ts : List TokenTree} (hopener : opener.kind = .leftBracket) (htarget : Derives ts (.expr target))
    (hin : Inside tokens (ts ++ [.group opener inside closer])) :
    Reads tokens (subscript target inside closer)
      fun e => Derives (ts ++ [.group opener inside closer]) (.expr e) := by
  have hcloser := hin.right.closer_mem
  have hinside := hin.right.inside
  rw [subscript]
  split
  · exact reads_fail hcloser
  · split
    · refine reads_bind (expression_reads ⟨inside, closer⟩ ⟨hinside, hcloser⟩) fun index hindex => ?_
      exact reads_newExpr hin fun _ => .index hopener htarget hindex
    · rename_i before colon after hcut
      obtain ⟨rfl, hcolon⟩ := cutAtColon_eq_some hcut
      refine reads_bind (bound_reads ⟨before, colon⟩ ⟨hinside.left, hinside.right.leaf_mem⟩) fun start hstart => ?_
      refine reads_bind (bound_reads ⟨after, closer⟩ ⟨hinside.right.tail, hcloser⟩) fun stop hstop => ?_
      exact reads_newExpr hin fun _ => .slice hopener hcolon htarget hstart hstop
termination_by 4 * weightAll inside + 3
decreasing_by
  · simp only [Stretch.weight]; omega
  all_goals
    subst_vars
    have := weightAll_cutAtColon (by assumption)
    simp only [Stretch.weight]; omega

theorem bound_reads (r : Stretch) (h : r.Inside tokens) :
    Reads tokens (bound r) fun value => Derives r.trees (.bound value) := by
  rw [bound]
  split
  · rename_i hempty
    rw [List.isEmpty_iff.mp hempty]
    exact reads_pure .unbound
  · exact reads_bind (expression_reads r h) fun e he => reads_pure (.bound he)
termination_by 4 * r.weight + 2

theorem arguments_reads (rs : List Stretch) {stop : Token} (ts : List TokenTree) (hjoined : Joined .comma stop rs ts)
    (hin : Inside tokens ts) (hstop : stop ∈ tokens) :
    Reads tokens (arguments rs) fun args => Derives ts (.list (args.map .arg)) := by
  match rs with
  | [] => cases hjoined
  | r :: rs =>
    have hr := hjoined.inside hin hstop
    rw [arguments]
    split
    · exact reads_fail hr.stop
    · split
      · rename_i before equals after hcut
        have hbefore := hr.trees
        rw [(cutAt_eq_some hcut).1] at hbefore
        exact reads_fail hbefore.right.leaf_mem
      · refine reads_bind (expression_reads r hr) fun value hvalue => ?_
        cases hjoined with
        | last =>
          rw [arguments, pure_bind]
          exact reads_pure (.last (.arg hvalue))
        | next kind rest =>
          refine reads_bind (arguments_reads rs _ rest hin.right.tail hstop) fun args hargs => ?_
          exact reads_pure (.next kind (.arg hvalue) hargs)
termination_by 4 * Stretch.weightAll rs
decreasing_by
  all_goals
    simp only [Stretch.weightAll]
    omega

theorem expression_reads (r : Stretch) (h : r.Inside tokens) :
    Reads tokens (expression r) fun e => Derives r.trees (.expr e) := by
  rw [expression]
  split
  · exact reads_fail h.stop
  · refine reads_bind (collect_reads [] r.trees r.stop [] rfl h.trees h.stop) fun items hitems => ?_
    exact Reduction.reduce_reads hitems h.trees h.first_mem
termination_by 4 * r.weight + 1
decreasing_by simp only [Stretch.weight]; omega

end

end Parse

end Bracescript
