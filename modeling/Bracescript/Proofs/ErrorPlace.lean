import Bracescript.Proofs.Scanning
import Bracescript.Proofs.StatementReads

/-!
# Places of errors

A text that cannot be tokenized or parsed is told so at a place that is in the text.
-/

namespace Bracescript

namespace SourceFile

theorem parse_error_points {f : SourceFile} {fault : Fault} (hfit : f.content.length < 2 ^ 32)
    (h : f.parse = .error fault) : ∃ e, fault = .malformed e ∧ e.span.Points f e.pos := by
  unfold parse at h
  split at h
  · rename_i e htokenize
    cases h
    exact ⟨e, rfl, tokenize_error_points hfit htokenize⟩
  · rename_i tokens htokenize
    have hreads := (f.parseStatements_reads tokens {}).1
    unfold parseTokens at h
    split at h
    · rename_i fault' s hrun
      cases h
      rw [hrun] at hreads
      obtain ⟨e, rfl, hplace⟩ := hreads
      exact ⟨e, rfl, hplace.points (tokenize_laid hfit htokenize)⟩
    · cases h

/-- Where a syntax error says to be, it is: its span lies in the text and is empty only at its end, and its line and
column are those of the start of the span. Tokenizing and parsing fail in no other way. -/
theorem syntaxErrors_point (f : SourceFile) (hfit : f.content.length < 2 ^ 32) :
    (∀ e, f.tokenize = .error e → e.span.Points f e.pos) ∧
      ∀ fault, f.parse = .error fault → ∃ e, fault = .malformed e ∧ e.span.Points f e.pos :=
  ⟨fun _ => tokenize_error_points hfit, fun _ => parse_error_points hfit⟩

/-- An escape in a string of the second line that lacks a digit. -/
def shortEscape : SourceFile := ⟨0, "short.uns", "a;\n'x\\x1'", 0⟩

/-- A second line that is neither an assignment nor an expression. -/
def twoAttempts : SourceFile := ⟨0, "two.uns", "x = 1;\ny[0].z 2 + +", 0⟩

theorem shortEscape_twoAttempts_point :
    (shortEscape.content.length < 2 ^ 32 ∧ ∃ e, shortEscape.tokenize = .error e ∧ e.span.Points shortEscape e.pos) ∧
      twoAttempts.content.length < 2 ^ 32 ∧ (∃ tokens, twoAttempts.tokenize = .ok tokens) ∧
        ∃ e, twoAttempts.parse = .error (.malformed e) ∧ e.span.Points twoAttempts e.pos := by
  refine ⟨⟨by decide, ?_⟩, by decide, ?_, ?_⟩
  · have hfails : shortEscape.tokenize.toOption.isNone = true := by decide +kernel
    cases h : shortEscape.tokenize with
    | ok tokens =>
      rw [h] at hfails
      cases hfails
    | error e => exact ⟨e, rfl, (syntaxErrors_point shortEscape (by decide)).1 e h⟩
  · have hreads : twoAttempts.tokenize.toOption.isSome = true := by decide +kernel
    cases h : twoAttempts.tokenize with
    | ok tokens => exact ⟨tokens, rfl⟩
    | error e =>
      rw [h] at hreads
      cases hreads
  · have hfails : twoAttempts.parse.toOption.isNone = true := by decide +kernel
    cases h : twoAttempts.parse with
    | ok p =>
      rw [h] at hfails
      cases hfails
    | error fault =>
      obtain ⟨e, rfl, hpoints⟩ := (syntaxErrors_point twoAttempts (by decide)).2 fault h
      exact ⟨e, rfl, hpoints⟩

end SourceFile

end Bracescript
