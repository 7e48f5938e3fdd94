import Bracescript.Proofs.Grammar
import Bracescript.Proofs.Phrase

/-!
# Phrases are read as they are meant

The parser finds the tree of a phrase in the tokens that are written for it, wherever they stand.
-/

namespace Bracescript

open Item TokenTree Grammar

/-! ## Short lists of items -/

namespace Reduction

variable {symbol : Bytes} {t question colon : Token} {e a b c : Expr}

theorem reduce_unmarked {items : List Item} (hne : items ≠ []) (h : ∀ i ∈ items, isMark i = false) (place : Token) :
    reduce items place = unaries items >>= binaries := by
  have hnone := cutAtMark_append h []
  rw [List.append_nil] at hnone
  exact reduce_chain hne hnone place

theorem isMark_operand (e : Expr) : isMark (.operand e) = false := rfl

theorem reduce_operand (place : Token) : reduce [.operand e] place = pure e := by
  rw [reduce_unmarked (by simp) (by simp [isMark_operand])]
  simp [unaries, beforeOperand, applyAll, behindOperand, binaries, behindOperands, fold]

theorem reduce_front (h : isUnary symbol = true) (place : Token) :
    reduce [.operator symbol t, .operand e] place =
      Parse.newExpr (t.span.cover e.span) t.pos fun n => .unary n symbol e false := by
  have hmark : isMark (.operator symbol t) = false := not_mark_of_known (.inl h)
  rw [reduce_unmarked (by simp) (by simp [hmark, isMark_operand])]
  simp [unaries, beforeOperand, h, applyAll, behindOperand, binaries, behindOperands, fold]

theorem reduce_behind (h : isBehind symbol = true) (place : Token) :
    reduce [.operand e, .operator symbol t] place =
      Parse.newExpr (e.span.cover t.span) e.pos fun n => .unary n symbol e true := by
  have hmark : isMark (.operator symbol t) = false := not_mark_of_known (.inr (.inl h))
  rw [reduce_unmarked (by simp) (by simp [hmark, isMark_operand])]
  simp [unaries, beforeOperand, h, applyAll, behindOperand, binaries, behindOperands, fold]

theorem reduce_binary (h : isBinary symbol = true) (place : Token) :
    reduce [.operand a, .operator symbol t, .operand b] place =
      Parse.newExpr (a.span.cover b.span) a.pos fun n => .binary n symbol a b := by
  have hmark : isMark (.operator symbol t) = false := not_mark_of_known (.inr (.inr h))
  rw [reduce_unmarked (by simp) (by simp [hmark, isMark_operand])]
  simp [unaries, beforeOperand, h, not_behind_of_binary h, applyAll, behindOperand, binaries, behindOperands, fold]

theorem reduce_ternary (place : Token) :
    reduce [.operand a, .operator "?" question, .operand b, .operator ":" colon, .operand c] place =
      Parse.newExpr (a.span.cover c.span) a.pos fun n => .ternary n a b c := by
  have hmatch : cutAtMatch 0 [.operand b, .operator ":" colon, .operand c] = some ([.operand b], colon, [.operand c]) :=
    rfl
  rw [reduce_choose place rfl hmatch (List.cons_ne_nil _ _) (List.cons_ne_nil _ _) (List.cons_ne_nil _ _)]
  simp only [reduce_operand, pure_bind]

end Reduction

/-! ## Items of a phrase -/

section

variable {ts more inside : List TokenTree}

theorem unplacedAll_eq_leaf_cons {kind : TokenKind} {value : Bytes} (h : unplacedAll ts = .leaf (.mark kind value) :: more) :
    ∃ t us, ts = .leaf t :: us ∧ t.kind = kind ∧ t.value = value ∧ unplacedAll us = more := by
  obtain ⟨u, us, rfl, hu, hus⟩ := unplacedAll_eq_cons h
  obtain ⟨t, rfl, ht⟩ := unplaced_eq_leaf hu
  exact ⟨t, us, rfl, congrArg Token.kind ht, congrArg Token.value ht, hus⟩

theorem unplacedAll_eq_symbol_cons {symbol : Bytes} (h : unplacedAll ts = symbolLeaf symbol :: more) :
    ∃ t us, ts = .leaf t :: us ∧ t.operatorSymbol? = some symbol ∧ unplacedAll us = more := by
  obtain ⟨u, us, rfl, hu, hus⟩ := unplacedAll_eq_cons h
  obtain ⟨t, rfl, ht⟩ := unplaced_eq_leaf hu
  have hsymbol : (symbolToken symbol).operatorSymbol? = some symbol := by
    simp only [symbolToken, Token.mark, Token.operatorSymbol?]
    split <;> simp_all
  rw [← ht] at hsymbol
  exact ⟨t, us, rfl, hsymbol, hus⟩

theorem unplacedAll_eq_parens_cons (h : unplacedAll ts = parens inside :: more) :
    ∃ o inner c us, ts = .group o inner c :: us ∧ o.kind = .leftParen ∧ unplacedAll inner = inside ∧
      unplacedAll us = more := unplacedAll_eq_group_cons h

theorem unplacedAll_eq_brackets_cons (h : unplacedAll ts = brackets inside :: more) :
    ∃ o inner c us, ts = .group o inner c :: us ∧ o.kind = .leftBracket ∧ unplacedAll inner = inside ∧
      unplacedAll us = more := unplacedAll_eq_group_cons h

theorem Phrase.ne_nil_of_unplacedAll {p : Phrase} (h : unplacedAll ts = p.forest) : ts ≠ [] := by
  rintro rfl
  exact absurd h.symm p.forest_ne_nil

end

namespace Parse

variable {here : Scope} {items before : List Item} {rest inside : List TokenTree} {t o c period name stop : Token}
  {symbol : Bytes} {target : Expr}

theorem collect_leaf (h : t.kind ≠ .period) :
    collect items (.leaf t :: rest) stop = tokenItem t >>= fun item => collect (item :: items) rest stop := by
  rw [collect.eq_def]
  simp [h]

theorem tokenItem_symbol (h : t.operatorSymbol? = some symbol) : tokenItem t = pure (.operator symbol t) := by
  unfold Token.operatorSymbol? at h
  unfold tokenItem
  split at h
  · rename_i kind
    cases h
    simp [kind]
  · rename_i kind
    split at h
    · rename_i hword
      cases h
      simp [kind, hword]
    · cases h
  · cases h

theorem collect_symbol (h : t.operatorSymbol? = some symbol) :
    collect items (.leaf t :: rest) stop = collect (.operator symbol t :: items) rest stop := by
  have hkind : t.kind ≠ .period := by
    intro hkind
    simp [Token.operatorSymbol?, hkind] at h
  rw [collect_leaf hkind, tokenItem_symbol h, pure_bind]

/-- Parentheses that follow no operand are read on their own. -/
theorem collect_parens (ho : o.kind = .leftParen) (hitems : items = [] ∨ ∃ symbol t more, items = .operator symbol t :: more)
    (hne : inside ≠ []) :
    collect items (.group o inside c :: rest) stop =
      expression ⟨inside, c⟩ >>= fun e => collect (.operand e :: items) rest stop := by
  rw [collect.eq_def]
  obtain rfl | ⟨symbol, t, more, rfl⟩ := hitems <;> simp [ho, hne]

theorem collect_call (ho : o.kind = .leftParen) :
    collect (.operand target :: before) (.group o inside c :: rest) stop = (do
      let args ← arguments (commaList inside c)
      let e ← newExpr (target.span.cover c.span) target.pos fun n => .call n target args
      collect (.operand e :: before) rest stop) := by
  rw [collect.eq_def]
  simp [ho, commaList]

theorem collect_subscript (ho : o.kind = .leftBracket) :
    collect (.operand target :: before) (.group o inside c :: rest) stop =
      subscript target inside c >>= fun e => collect (.operand e :: before) rest stop := by
  rw [collect.eq_def]
  simp [ho]

theorem collect_member (hperiod : period.kind = .period) (hname : name.kind = .identifier) :
    collect (.operand target :: before) (.leaf period :: .leaf name :: rest) stop = (do
      let e ← newExpr (target.span.cover name.span) target.pos fun n => .member n target name.value
      collect (.operand e :: before) rest stop) := by
  rw [collect.eq_def]
  simp [hperiod, hname]

theorem subscript_index (hne : inside ≠ []) (h : cutAtColon 0 inside = none) :
    subscript target inside c = (do
      let index ← expression ⟨inside, c⟩
      newExpr (target.span.cover c.span) target.pos fun n => .index n target index) := by
  rw [subscript, if_neg (by simp [hne])]
  split
  · rfl
  · rename_i heq
    rw [h] at heq
    cases heq

theorem subscript_slice {as bs : List TokenTree} {colon : Token} (h : cutAtColon 0 inside = some (as, colon, bs)) :
    subscript target inside c = (do
      let start ← bound ⟨as, colon⟩
      let stop ← bound ⟨bs, c⟩
      newExpr (target.span.cover c.span) target.pos fun n => .slice n target start stop) := by
  have hne : inside ≠ [] := by
    rintro rfl
    simp [cutAtColon] at h
  rw [subscript, if_neg (by simp [hne])]
  split
  · rename_i heq
    rw [h] at heq
    cases heq
  · rename_i heq
    rw [h] at heq
    cases heq
    rfl

theorem expression_eq {ts : List TokenTree} (h : ts ≠ []) :
    expression ⟨ts, stop⟩ = collect [] ts stop >>= fun items => Reduction.reduce items (Stretch.first ⟨ts, stop⟩) := by
  rw [expression]
  simp [Stretch.isEmpty, h]

end Parse

/-! ## Lists between separators -/

section

variable {separator : TokenKind} {ts : List TokenTree} (h : ∀ t ∈ ts, t.isLeaf separator = false)
include h

theorem splitAt_of_none (stop : Token) : splitAt separator stop ts = [⟨ts, stop⟩] := by
  induction ts with
  | nil => rfl
  | cons t ts ih =>
    rw [List.forall_mem_cons] at h
    rw [splitAt, if_neg (by simp [h.1]), ih h.2, consTree]

theorem splitAt_append {mark : Token} (hmark : mark.kind = separator) (us : List TokenTree) (stop : Token) :
    splitAt separator stop (ts ++ .leaf mark :: us) = ⟨ts, mark⟩ :: splitAt separator stop us := by
  induction ts with
  | nil => simp [splitAt, isLeaf, hmark, first]
  | cons t ts ih =>
    rw [List.forall_mem_cons] at h
    rw [List.cons_append, splitAt, if_neg (by simp [h.1]), ih h.2, consTree]

end

theorem splitAt_commaSeparated {tss : List (List TokenTree)} (hne : tss ≠ [])
    (hlacks : ∀ ts ∈ tss, ∀ t ∈ ts, t.isLeaf .comma = false) {us : List TokenTree} (h : unplacedAll us = commaSeparated tss)
    (stop : Token) : (splitAt .comma stop us).map (fun r => unplacedAll r.trees) = tss := by
  induction tss using commaSeparated.induct generalizing us with
  | case1 => exact absurd rfl hne
  | case2 ts =>
    rw [splitAt_of_none (isLeaf_of_unplacedAll h (hlacks ts List.mem_cons_self))]
    exact congrArg (fun x => [x]) h
  | case3 ts more hmore ih =>
    rw [commaSeparated] at h
    · rw [List.forall_mem_cons] at hlacks
      obtain ⟨vs, ws, rfl, hvs, hws⟩ := unplacedAll_eq_append h
      obtain ⟨comma, ws, rfl, hkind, -, hrest⟩ := unplacedAll_eq_leaf_cons hws
      rw [splitAt_append (isLeaf_of_unplacedAll hvs hlacks.1) hkind, List.map_cons, hvs, ih hmore hlacks.2 hrest]
    · exact hmore

theorem commaList_commaSeparated {tss : List (List TokenTree)} (hlacks : ∀ ts ∈ tss, ∀ t ∈ ts, t.isLeaf .comma = false)
    (hne : ∀ ts ∈ tss, ts ≠ []) {us : List TokenTree} (h : unplacedAll us = commaSeparated tss) (stop : Token) :
    (Parse.commaList us stop).map (fun r => unplacedAll r.trees) = tss := by
  unfold Parse.commaList
  cases tss with
  | nil =>
    obtain rfl := unplacedAll_eq_nil h
    rfl
  | cons ts more =>
    have hus : us ≠ [] := by
      rintro rfl
      have hts := hne ts List.mem_cons_self
      cases more with
      | nil => exact hts h.symm
      | cons => simp [commaSeparated, unplacedAll] at h
    rw [if_neg (by simp [hus])]
    exact splitAt_commaSeparated (List.cons_ne_nil _ _) hlacks h stop

theorem Phrase.wrapAll_comma (ps : List Phrase) : ∀ ts ∈ Phrase.wrapAll ps, ∀ t ∈ ts, t.isLeaf .comma = false := by
  induction ps with
  | nil => exact List.forall_mem_nil _
  | cons p ps ih => exact List.forall_mem_cons.mpr ⟨by simp [parens, isLeaf], ih⟩

theorem Phrase.wrapAll_ne_nil (ps : List Phrase) : ∀ ts ∈ Phrase.wrapAll ps, ts ≠ [] := by
  induction ps with
  | nil => exact List.forall_mem_nil _
  | cons p ps ih => exact List.forall_mem_cons.mpr ⟨by simp, ih⟩

theorem isSymbol_of_operatorSymbol {t : Token} {symbol : Bytes} (h : t.operatorSymbol? = some symbol)
    (hsigns : isWordOperator symbol = false) : isSymbol symbol (.leaf t) = true := by
  unfold Token.operatorSymbol? at h
  split at h
  · rename_i hkind
    cases h
    simp [isSymbol, Token.isOperator, hkind]
  · split at h
    · cases h
      simp_all
    · cases h
  · cases h

/-- The bounds of a slice hold no colon of their own. -/
theorem cutAtColon_wrapOption {p : Option Phrase} {as : List TokenTree} {colon : Token}
    (has : unplacedAll as = Phrase.wrapOption p) (hcolon : colon.operatorSymbol? = some ":") (bs : List TokenTree) :
    cutAtColon 0 (as ++ .leaf colon :: bs) = some (as, colon, bs) := by
  have hsymbol := isSymbol_of_operatorSymbol hcolon (by decide)
  cases p with
  | none =>
    obtain rfl := unplacedAll_eq_nil has
    simp [cutAtColon, hsymbol, first]
  | some p =>
    obtain ⟨o, inner, c, us, rfl, ho, hinner, hus⟩ := unplacedAll_eq_parens_cons has
    obtain rfl := unplacedAll_eq_nil hus
    have hgroup : ∀ symbol, isSymbol symbol (.group o inner c) = false := fun _ => rfl
    simp [cutAtColon, hsymbol, hgroup, first]

/-! ## Phrases -/

theorem numberKind_of_ok {digits suffix : Bytes} {kind : LiteralKind} (h : numberKind digits suffix [] = .ok kind)
    (text : Bytes) : numberKind digits suffix text = .ok kind := by
  simp only [numberKind] at h ⊢
  repeat' split at h
  all_goals simp_all

namespace Parse

variable {here : Scope}

theorem expression_leaf {t stop : Token} {Q : Expr → Prop} (hkind : t.kind ≠ .period)
    (h : Gives here (tokenItem t) fun item => ∃ e, item = .operand e ∧ Q e) :
    Gives here (expression ⟨[.leaf t], stop⟩) Q := by
  rw [expression_eq (List.cons_ne_nil _ _), collect_leaf hkind, bind_assoc]
  refine gives_bind h ?_
  rintro _ ⟨e, rfl, he⟩
  rw [collect, pure_bind, List.reverse_singleton, Reduction.reduce_operand]
  exact gives_pure he

theorem expression_wrapped {o c stop : Token} {inner : List TokenTree} {Q : Expr → Prop} (ho : o.kind = .leftParen)
    (hne : inner ≠ []) (h : Gives here (expression ⟨inner, c⟩) Q) :
    Gives here (expression ⟨[.group o inner c], stop⟩) Q := by
  rw [expression_eq (List.cons_ne_nil _ _), collect_parens ho (.inl rfl) hne, bind_assoc]
  refine gives_bind h fun e he => ?_
  rw [collect, pure_bind, List.reverse_singleton, Reduction.reduce_operand]
  exact gives_pure he

theorem tokenItem_name {t : Token} (hkind : t.kind = .identifier) :
    Gives here (tokenItem t) fun item => ∃ e, item = .operand e ∧ e.unplaced = .ident .blank t.value := by
  simp only [tokenItem, hkind]
  refine gives_bind (gives_newExpr fun n => rfl) fun e he => gives_pure ⟨e, rfl, he⟩

-- Phrases, links and lists of phrases hold each other, and so do the lemmas about them.
mutual

theorem expression_phrase (p : Phrase) (ts : List TokenTree) (stop : Token) (h : unplacedAll ts = p.forest) :
    Gives here (expression ⟨ts, stop⟩) fun e => e.unplaced = p.tree := by
  have hne := Phrase.ne_nil_of_unplacedAll h
  match p with
  | .name x =>
    obtain ⟨t, us, rfl, hkind, rfl, hus⟩ := unplacedAll_eq_leaf_cons h
    obtain rfl := unplacedAll_eq_nil hus
    exact expression_leaf (by simp [hkind]) (tokenItem_name hkind)
  | .string value =>
    obtain ⟨t, us, rfl, hkind, rfl, hus⟩ := unplacedAll_eq_leaf_cons h
    obtain rfl := unplacedAll_eq_nil hus
    refine expression_leaf (by simp [hkind]) ?_
    simp only [tokenItem, hkind]
    exact gives_bind (gives_newExpr fun n => rfl) fun e he => gives_pure ⟨e, rfl, he⟩
  | .number digits suffix kind known =>
    obtain ⟨u, us, rfl, hu, hus⟩ := unplacedAll_eq_cons h
    obtain ⟨t, rfl, ht⟩ := unplaced_eq_leaf hu
    obtain rfl := unplacedAll_eq_nil hus
    have hkind : t.kind = .numberLiteral := congrArg Token.kind ht
    have hvalue : t.value = digits := congrArg Token.value ht
    have hflag : t.flag = suffix := congrArg Token.flag ht
    refine expression_leaf (by simp [hkind]) ?_
    simp only [tokenItem, hkind, hvalue, hflag, numberKind_of_ok known]
    exact gives_bind (gives_newExpr fun n => rfl) fun e he => gives_pure ⟨e, rfl, he⟩
  | .front symbol known inner =>
    obtain ⟨t, us, rfl, hsymbol, hus⟩ := unplacedAll_eq_symbol_cons h
    obtain ⟨o, ts, c, us, rfl, ho, hts, hus⟩ := unplacedAll_eq_parens_cons hus
    obtain rfl := unplacedAll_eq_nil hus
    rw [expression_eq hne, collect_symbol hsymbol, collect_parens ho (.inr ⟨_, _, _, rfl⟩)
      (Phrase.ne_nil_of_unplacedAll hts), bind_assoc]
    refine gives_bind (expression_phrase inner ts c hts) fun e he => ?_
    rw [collect, pure_bind]
    refine Reduction.reduce_front known _ ▸ gives_newExpr fun n => ?_
    rw [Expr.unplaced, he, Phrase.tree]
  | .behind inner symbol known =>
    obtain ⟨o, ts, c, us, rfl, ho, hts, hus⟩ := unplacedAll_eq_parens_cons h
    obtain ⟨t, us, rfl, hsymbol, hus⟩ := unplacedAll_eq_symbol_cons hus
    obtain rfl := unplacedAll_eq_nil hus
    rw [expression_eq hne, collect_parens ho (.inl rfl) (Phrase.ne_nil_of_unplacedAll hts), bind_assoc]
    refine gives_bind (expression_phrase inner ts c hts) fun e he => ?_
    rw [collect_symbol hsymbol, collect, pure_bind]
    refine Reduction.reduce_behind known _ ▸ gives_newExpr fun n => ?_
    rw [Expr.unplaced, he, Phrase.tree]
  | .binary left symbol known right =>
    obtain ⟨o, ls, c, us, rfl, ho, hls, hus⟩ := unplacedAll_eq_parens_cons h
    obtain ⟨t, us, rfl, hsymbol, hus⟩ := unplacedAll_eq_symbol_cons hus
    obtain ⟨o', rs, c', us, rfl, ho', hrs, hus⟩ := unplacedAll_eq_parens_cons hus
    obtain rfl := unplacedAll_eq_nil hus
    rw [expression_eq hne, collect_parens ho (.inl rfl) (Phrase.ne_nil_of_unplacedAll hls), bind_assoc]
    refine gives_bind (expression_phrase left ls c hls) fun l hl => ?_
    rw [collect_symbol hsymbol, collect_parens ho' (.inr ⟨_, _, _, rfl⟩) (Phrase.ne_nil_of_unplacedAll hrs), bind_assoc]
    refine gives_bind (expression_phrase right rs c' hrs) fun r hr => ?_
    rw [collect, pure_bind]
    refine Reduction.reduce_binary known _ ▸ gives_newExpr fun n => ?_
    rw [Expr.unplaced, hl, hr, Phrase.tree]
  | .ternary test yes no =>
    obtain ⟨o, as, c, us, rfl, ho, has, hus⟩ := unplacedAll_eq_parens_cons h
    obtain ⟨question, us, rfl, hquestion, hus⟩ := unplacedAll_eq_symbol_cons hus
    obtain ⟨o', bs, c', us, rfl, ho', hbs, hus⟩ := unplacedAll_eq_parens_cons hus
    obtain ⟨colon, us, rfl, hcolon, hus⟩ := unplacedAll_eq_symbol_cons hus
    obtain ⟨o'', cs, c'', us, rfl, ho'', hcs, hus⟩ := unplacedAll_eq_parens_cons hus
    obtain rfl := unplacedAll_eq_nil hus
    rw [expression_eq hne, collect_parens ho (.inl rfl) (Phrase.ne_nil_of_unplacedAll has), bind_assoc]
    refine gives_bind (expression_phrase test as c has) fun x hx => ?_
    rw [collect_symbol hquestion, collect_parens ho' (.inr ⟨_, _, _, rfl⟩) (Phrase.ne_nil_of_unplacedAll hbs), bind_assoc]
    refine gives_bind (expression_phrase yes bs c' hbs) fun y hy => ?_
    rw [collect_symbol hcolon, collect_parens ho'' (.inr ⟨_, _, _, rfl⟩) (Phrase.ne_nil_of_unplacedAll hcs), bind_assoc]
    refine gives_bind (expression_phrase no cs c'' hcs) fun z hz => ?_
    rw [collect, pure_bind]
    refine Reduction.reduce_ternary _ ▸ gives_newExpr fun n => ?_
    rw [Expr.unplaced, hx, hy, hz, Phrase.tree]
  | .extend target link =>
    obtain ⟨o, ts, c, us, rfl, ho, hts, hus⟩ := unplacedAll_eq_parens_cons h
    rw [expression_eq hne, collect_parens ho (.inl rfl) (Phrase.ne_nil_of_unplacedAll hts), bind_assoc]
    refine gives_bind (expression_phrase target ts c hts) fun e he => ?_
    rw [← List.append_nil us]
    refine gives_bind (P := fun items => ∃ e, items = [.operand e] ∧ e.unplaced = (Phrase.extend target link).tree) ?_ ?_
    · refine collect_link link us hus e fun e' he' => ?_
      rw [collect]
      exact gives_pure ⟨e', rfl, by rw [he', he, Phrase.tree]⟩
    · rintro _ ⟨e, rfl, he⟩
      rw [Reduction.reduce_operand]
      exact gives_pure he
  | .grouped inner =>
    obtain ⟨o, ts, c, us, rfl, ho, hts, hus⟩ := unplacedAll_eq_parens_cons h
    obtain rfl := unplacedAll_eq_nil hus
    refine (expression_wrapped ho (Phrase.ne_nil_of_unplacedAll hts) (expression_phrase inner ts c hts)).mono fun e he => ?_
    rw [he, Phrase.tree]

theorem collect_link (l : Link) (us : List TokenTree) (h : unplacedAll us = l.forest) (target : Expr)
    {before : List Item} {rest : List TokenTree} {stop : Token} {Q : List Item → Prop}
    (hrest : ∀ e, e.unplaced = l.applyTo target.unplaced → Gives here (collect (.operand e :: before) rest stop) Q) :
    Gives here (collect (.operand target :: before) (us ++ rest) stop) Q := by
  match l with
  | .member field =>
    obtain ⟨period, us, rfl, hperiod, -, hus⟩ := unplacedAll_eq_leaf_cons h
    obtain ⟨name, us, rfl, hname, rfl, hnil⟩ := unplacedAll_eq_leaf_cons hus
    obtain rfl := unplacedAll_eq_nil hnil
    rw [List.cons_append, List.cons_append, List.nil_append, collect_member hperiod hname]
    exact gives_bind (gives_newExpr fun n => by rw [Expr.unplaced, Link.applyTo]) hrest
  | .call args =>
    obtain ⟨o, inner, c, us, rfl, ho, hinner, hus⟩ := unplacedAll_eq_parens_cons h
    obtain rfl := unplacedAll_eq_nil hus
    rw [List.cons_append, List.nil_append, collect_call ho]
    have hsplit := commaList_commaSeparated (Phrase.wrapAll_comma args) (Phrase.wrapAll_ne_nil args) hinner c
    refine gives_bind (arguments_phrases args _ hsplit) fun args' hargs => ?_
    exact gives_bind (gives_newExpr fun n => by rw [Expr.unplaced, hargs, Link.applyTo]) hrest
  | .index key =>
    obtain ⟨o, inner, c, us, rfl, ho, hinner, hus⟩ := unplacedAll_eq_brackets_cons h
    obtain rfl := unplacedAll_eq_nil hus
    obtain ⟨o', ts, c', us, rfl, ho', hts, hus⟩ := unplacedAll_eq_parens_cons hinner
    obtain rfl := unplacedAll_eq_nil hus
    rw [List.cons_append, List.nil_append, collect_subscript ho, subscript_index (List.cons_ne_nil _ _) rfl, bind_assoc]
    refine gives_bind (expression_wrapped ho' (Phrase.ne_nil_of_unplacedAll hts) (expression_phrase key ts c' hts))
      fun k hk => ?_
    exact gives_bind (gives_newExpr fun n => by rw [Expr.unplaced, hk, Link.applyTo]) hrest
  | .slice start stop =>
    obtain ⟨o, inner, c, us, rfl, ho, hinner, hus⟩ := unplacedAll_eq_brackets_cons h
    obtain rfl := unplacedAll_eq_nil hus
    obtain ⟨as, bs, rfl, has, hbs⟩ := unplacedAll_eq_append hinner
    obtain ⟨colon, bs, rfl, hcolon, hbs⟩ := unplacedAll_eq_symbol_cons hbs
    rw [List.cons_append, List.nil_append, collect_subscript ho, subscript_slice (cutAtColon_wrapOption has hcolon bs),
      bind_assoc]
    refine gives_bind (bound_wrapOption start as colon has) fun x hx => ?_
    rw [bind_assoc]
    refine gives_bind (bound_wrapOption stop bs c hbs) fun y hy => ?_
    exact gives_bind (gives_newExpr fun n => by rw [Expr.unplaced, hx, hy, Link.applyTo]) hrest

theorem arguments_phrases (ps : List Phrase) (rs : List Stretch)
    (h : rs.map (fun r => unplacedAll r.trees) = Phrase.wrapAll ps) :
    Gives here (arguments rs) fun args => Expr.unplacedArgs args = Phrase.treeArgs ps := by
  match ps with
  | [] =>
    obtain rfl := List.map_eq_nil_iff.mp h
    rw [arguments]
    exact gives_pure rfl
  | p :: ps =>
    obtain ⟨r, rs, rfl, hr, hrs⟩ := List.map_eq_cons_iff.mp h
    obtain ⟨trees, stop⟩ := r
    obtain ⟨o, inner, c, us, rfl, ho, hinner, hus⟩ := unplacedAll_eq_parens_cons hr
    obtain rfl := unplacedAll_eq_nil hus
    have hcut : cutAt .equals [.group o inner c] = none := rfl
    rw [arguments]
    simp only [Stretch.isEmpty, List.isEmpty_cons, hcut]
    refine gives_bind (expression_wrapped ho (Phrase.ne_nil_of_unplacedAll hinner) (expression_phrase p inner c hinner))
      fun e he => ?_
    refine gives_bind (arguments_phrases ps rs hrs) fun args hargs => gives_pure ?_
    rw [Expr.unplacedArgs, hargs, Expr.unplacedArg, Expr.unplacedOption, Expr.unplacedOption, he, Phrase.treeArgs]

theorem bound_wrapOption (p : Option Phrase) (ts : List TokenTree) (stop : Token)
    (h : unplacedAll ts = Phrase.wrapOption p) :
    Gives here (bound ⟨ts, stop⟩) fun value => Expr.unplacedOption value = Phrase.treeOption p := by
  match p with
  | none =>
    obtain rfl := unplacedAll_eq_nil h
    rw [bound]
    exact gives_pure rfl
  | some p =>
    obtain ⟨o, inner, c, us, rfl, ho, hinner, hus⟩ := unplacedAll_eq_parens_cons h
    obtain rfl := unplacedAll_eq_nil hus
    rw [bound]
    simp only [Stretch.isEmpty, List.isEmpty_cons]
    refine gives_bind (expression_wrapped ho (Phrase.ne_nil_of_unplacedAll hinner) (expression_phrase p inner c hinner))
      fun e he => gives_pure ?_
    rw [Expr.unplacedOption, he, Phrase.treeOption]

end

end Parse

end Bracescript
