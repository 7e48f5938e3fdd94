import Bracescript.Proofs.ForestGrowth
import Bracescript.Proofs.StatementReads

/-!
# Safety of the parser

Whatever tokens the parser is given, it comes to an end with a program or with a syntax error. It looks at no token that
is not in the list, the end of the file apart, and it follows no reference to a node that is not there.
-/

namespace Bracescript

open Parse

/-- Every node is made of tokens of the list, in their order, and stands under its number; so does every node that it
refers to. -/
structure Forest.IsSound (tokens : List Token) (f : Forest) : Prop where
  exprs : ∀ e ∈ f.exprs.toList, Part.Within tokens (.expr e)
  stmts : ∀ s ∈ f.stmts.toList, Part.Within tokens (.stmt s)
  stored : ∀ x ∈ f.branches, f.Stores x
  references : ∀ x ∈ f.branches, ∀ y ∈ x.children, f.Stores y

namespace SourceFile

variable {f : SourceFile} {tokens : List Token}

theorem parseStatements_of_parseTokens {fault : Fault} (h : f.parseTokens tokens = .error fault) :
    (f.parseStatements tokens {}).1 = .error fault := by
  unfold parseTokens at h
  split at h
  · rename_i hrun
    cases h
    rw [hrun]
  · cases h

theorem parseTokens_eq_error {fault : Fault} (h : f.parseTokens tokens = .error fault) :
    ∃ e, fault = .malformed e ∧ IsPlace (significant tokens ++ [f.endToken]) e.span e.pos := by
  have hanswers := (f.parseStatements_reads tokens {}).1
  rw [parseStatements_of_parseTokens h] at hanswers
  exact hanswers

theorem forest_of_parseTokens {p : Program} (h : f.parseTokens tokens = .ok p) :
    p.forest = (f.parseStatements tokens {}).2.forest := by
  unfold parseTokens at h
  split at h
  · cases h
  · rename_i hrun
    cases h
    rw [hrun]

/-- Also what a failed run leaves behind is sound. -/
theorem parseStatements_isSound (f : SourceFile) (tokens : List Token) :
    (f.parseStatements tokens {}).2.forest.IsSound (significant tokens ++ [f.endToken]) := by
  obtain ⟨-, -, ⟨es, hes, hexprs⟩, ⟨ss, hss, hstmts⟩⟩ := f.parseStatements_reads tokens {}
  have howns := (f.parseStatements_turns tokens {} [] Forest.owns_empty).1
  refine ⟨?_, ?_, howns.stored, fun x hx y hy => (howns.children x hx y hy).1⟩
  · rw [hes]
    exact hexprs
  · rw [hss]
    exact hstmts

end SourceFile

end Bracescript
