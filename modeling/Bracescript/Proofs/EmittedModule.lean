import Bracescript.Proofs.EmittedText

/-!
# Emitted modules

A module is closed: its literals end where they should and its delimiters match, whatever the program and the options
hold. Its words are keywords, names of the program behind a dollar sign, and names of the library.
-/

namespace Bracescript

open Target Emit

/-! ## Closed modules -/

theorem EmitOptions.prelude_isNeutral (o : EmitOptions) : IsNeutral o.prelude := by
  have hnames : IsNeutral (Bytes.join "," exports) := by
    have hcode : IsCode [] (Bytes.join "," exports) := .join fun w hw => .library w hw
    exact hcode.isNeutral
  have hgroup : IsNeutral (0x7b :: Bytes.join "," exports ++ [0x7d]) := .group rfl hnames
  unfold prelude
  refine IsNeutral.append ?_ ?_
  · generalize (if o.runtime = [] then defaultRuntime else o.runtime) = runtime
    have hsource := IsNeutral.literal runtime
    have hend : IsNeutral ";" := .of_inert (List.all_iff_forall_prop.mp (by decide))
    split
    · have hcall : IsNeutral (0x28 :: quote runtime ++ [0x29]) := .group rfl hsource
      have hopen : IsNeutral "const " := .of_inert (List.all_iff_forall_prop.mp (by decide))
      have hload : IsNeutral "=require" := .of_inert (List.all_iff_forall_prop.mp (by decide))
      have htext := ((hopen.append hgroup).append hload).append (hcall.append hend)
      simp only [List.append_assoc] at htext ⊢
      exact htext
    · have hopen : IsNeutral "import " := .of_inert (List.all_iff_forall_prop.mp (by decide))
      have hfrom : IsNeutral " from " := .of_inert (List.all_iff_forall_prop.mp (by decide))
      have htext := ((hopen.append hgroup).append hfrom).append (hsource.append hend)
      simp only [List.append_assoc] at htext ⊢
      exact htext
  · split
    · exact .of_inert (List.all_iff_forall_prop.mp (by decide))
    · exact .of_inert (List.forall_mem_nil _)

theorem EmitOptions.epilogue_isNeutral (o : EmitOptions) : IsNeutral o.epilogue := by
  unfold epilogue
  split
  · exact fun due => rfl
  · exact .of_inert (List.forall_mem_nil _)

/-- No part of a literal that stops short of its closing quote is closed. -/
theorem Target.quote_stays_open {s before after : Bytes} (h : quote s = before ++ after) (hbefore : before ≠ [])
    (hafter : after ≠ []) : ∃ mode, mode ≠ .code ∧ Scan.run {} before = some ⟨[], mode⟩ := by
  obtain ⟨inner, hquote, hinner⟩ := exists_literalBody s
  cases before with
  | nil => exact absurd rfl hbefore
  | cons b before =>
    rw [hquote, List.cons_append, List.cons_append, List.cons_eq_cons] at h
    obtain ⟨rfl, h⟩ := h
    have hlength : before.length ≤ inner.length := by
      have hsum := congrArg List.length h
      have hpos := List.length_pos_iff.mpr hafter
      simp only [List.length_append, List.length_singleton] at hsum
      omega
    have htake : before = inner.take before.length := by
      have hfront := congrArg (List.take before.length) h
      rw [List.take_append_of_le_length hlength, List.take_left] at hfront
      exact hfront.symm
    obtain ⟨mode, hmode, hrun⟩ := hinner.run_take [] before.length
    rw [← htake] at hrun
    exact ⟨mode, hmode, hrun⟩

/-- Down to this depth there is no class with many bases, and nothing is deeper. -/
def Stmt.isSupported : Nat → Stmt → Bool
  | 0, _ => false
  | depth + 1, s => !decide s.IsManyBased && s.children.all (Stmt.isSupported depth)

theorem Stmt.not_hasManyBased_of_isSupported {depth : Nat} {s : Stmt} (h : s.isSupported depth = true) :
    ¬s.HasManyBased := by
  induction depth generalizing s with
  | zero => cases h
  | succ depth ih =>
    rw [isSupported, Bool.and_eq_true, List.all_eq_true] at h
    have hclass : ¬s.IsManyBased := by simpa using h.1
    rw [hasManyBased_of_not hclass]
    rintro ⟨t, ht, hmany⟩
    exact ih (h.2 t ht) hmany

/-- A test that a text is read as a program which can be emitted. -/
theorem SourceFile.exists_body (f : SourceFile) (depth : Nat)
    (h : (f.parse.toOption.any fun p => p.statements.all (Stmt.isSupported depth)) = true) :
    ∃ p body, f.parse = .ok p ∧ p.emitBody = .ok body := by
  cases hparse : f.parse with
  | error fault =>
    rw [hparse] at h
    cases h
  | ok p =>
    rw [hparse] at h
    replace h : p.statements.all (Stmt.isSupported depth) = true := h
    rw [List.all_eq_true] at h
    obtain ⟨tokens, htokens⟩ := SourceFile.exists_tokens_of_parse hparse
    have hwell := SourceFile.wellFormed_of_parseTokens htokens
    have hsettles : Settles (∃ s ∈ p.statements, s.HasManyBased) p.emitBody :=
      stmts_settles fun s hs => (settles_of_wellFormed (hwell s hs)).1
    cases hbody : p.emitBody with
    | ok body => exact ⟨p, body, rfl, hbody⟩
    | error u =>
      rw [hbody] at hsettles
      obtain ⟨s, hs, hmany⟩ := hsettles.2
      exact absurd hmany (Stmt.not_hasManyBased_of_isSupported (h s hs))

/-- Delimiters and quotes in all kinds of text. -/
def hostileTexts : SourceFile :=
  ⟨0, "hostile.uns", "class A(b) \x7b def c(t d = '\"\x7d\n') \x7b d.e[0] = ')\"' \x7d \x7d", 0⟩

/-- A module specifier that looks like the end of a literal and of the module. -/
def hostileOptions : EmitOptions := { runtime := "\"\\\n\x7d);", format := .cjs }

theorem EmitOptions.exports_infix_prelude (o : EmitOptions) : Bytes.join "," exports <:+: o.prelude := by
  unfold prelude
  refine List.infix_append_of_infix_left ?_
  split
  · iterate 3 refine List.infix_append_of_infix_left ?_
    exact List.infix_append_of_infix_right List.infix_rfl
  · iterate 3 refine List.infix_append_of_infix_left ?_
    exact List.infix_append_of_infix_right List.infix_rfl

/-- Numbers of all forms, and names of the library among those of the program. -/
def mixedWords : SourceFile :=
  ⟨0, "mixed.uns", "let s = -1.5f + undefined(0x1Fl); for (;;) \x7b s.call = typeof 'if'; break \x7d", 0⟩

end Bracescript
