import GrammarKit.Grammar.First
import GrammarKit.Proofs.Occurrence

/-!
What analyses say of a wrapped expression. Main statement: merging wrappers changes neither the FIRST
set, whatever the sets of the rules are, nor the rules referred to, nor the patterns used.
-/

namespace GrammarKit

theorem Occurrence.nullable_merge (p o : Occurrence) :
    (p.merge o).nullable = (o.nullable || p.nullable) := by
  cases p <;> cases o <;> rfl

def FirstSet.wrap (o : Occurrence) (s : FirstSet) : FirstSet := ⟨o.nullable || s.nullable, s.patterns⟩

theorem FirstSet.wrap_wrap (p o : Occurrence) (s : FirstSet) :
    wrap o (wrap p s) = wrap (p.merge o) s := by
  simp only [wrap, Occurrence.nullable_merge, Bool.or_assoc]

namespace Expr

variable (e : Expr) (o : Occurrence)

theorem first_occur (table : FirstTable) :
    (e.occur o).first table = (wrap o e).first table := by
  have wraps (o : Occurrence) (e : Expr) :
      (wrap o e).first table = FirstSet.wrap o (e.first table) := rfl
  rw [wraps]
  exact map_occur wraps FirstSet.wrap_wrap e o

theorem references_occur : (e.occur o).references = e.references :=
  map_occur (g := fun _ names => names) (fun _ _ => rfl) (fun _ _ _ => rfl) e o

theorem patterns_occur : (e.occur o).patterns = e.patterns :=
  map_occur (g := fun _ ps => ps) (fun _ _ => rfl) (fun _ _ _ => rfl) e o

/-- No analysis tells an expression whose wrappers are merged from one that is wrapped once more. -/
theorem analyses_occur (table : FirstTable) :
    (e.occur o).first table = (wrap o e).first table ∧
      (e.occur o).referencedRules = e.referencedRules ∧
        (e.occur o).terminals = e.terminals := by
  refine ⟨first_occur e o table, ?_, ?_⟩
  · rw [referencedRules, references_occur, referencedRules]
  · rw [terminals, patterns_occur, terminals]

end Expr

end GrammarKit
