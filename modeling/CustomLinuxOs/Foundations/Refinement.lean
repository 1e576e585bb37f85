import CustomLinuxOs.Foundations.Run

/-!
Refinement of runs by traces of a more abstract system.

The abstract system is a relation between states and events: of what an event does it may leave
some open.  A run of a step function refines it when an abstraction of the states turns each step
into one of the relation.

* `Trace r a es b`: the events lead from `a` to `b` by steps of `r`.
* `Run.refines`: a run whose steps meet a condition refines `r`, when each single step under the
  condition does and keeps an invariant.
-/

namespace CustomLinuxOs

variable {σ τ ε ζ : Type*}

/-- The events, taken in order, lead from `a` to the last state by steps of the relation. -/
inductive Trace (r : τ → ζ → τ → Prop) (a : τ) : List ζ → τ → Prop
  | nil : Trace r a [] a
  | snoc {es : List ζ} {e : ζ} {b c : τ} : Trace r a es b → r b e c → Trace r a (es ++ [e]) c

/-- **The refinement rule.**  Let each step from a state with `I` that meets the condition `C` keep
`I`, and let it be a step of the relation under the abstraction `abs`.  Then a run whose steps all
meet the condition is a trace, event by event, and all its states have `I`. -/
theorem Run.refines {step : σ → ε → Option σ} {r : τ → ζ → τ → Prop} {abs : σ → τ}
    {call : ε → ζ} {I : σ → Prop} {C : σ → ε → Prop} {s z : σ} {es : List ε}
    (hrun : Run step s es z) (hC : EveryStep step s es C) (hI : I s)
    (hstep : ∀ t e u, I t → C t e → step t e = some u → I u ∧ r (abs t) (call e) (abs u)) :
    Trace r (abs s) (es.map call) (abs z) ∧ EveryState step s es I := by
  have hall : EveryState step s es I :=
    hC.everyState hI fun t e u ht he hu => (hstep t e u ht he hu).1
  refine ⟨?_, hall⟩
  induction hrun with
  | nil => exact Trace.nil
  | @snoc es e t u ht hu ih =>
      obtain ⟨hCes, hCe⟩ := (everyStep_snoc ht).mp hC
      obtain ⟨hIes, -⟩ := (everyState_snoc ht hu).mp hall
      rw [List.map_append, List.map_singleton]
      exact (ih hCes hIes).snoc (hstep t e u (hIes.last ht) hCe hu).2

end CustomLinuxOs
