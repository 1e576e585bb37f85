import Mathlib.Logic.Function.Iterate
import Mathlib.Tactic

/-!
Loops over `n` units that take them in blocks where they can: single steps until the place is right
for blocks, then blocks, then single steps for what is left.

* `untilReady`, `blockLoop`: the loop.
* `untilReady_inv`, `iterate_inv`, `blockLoop_inv`: what both kinds of step keep up, with the number
  of units that are done, holds with all `n` behind the loop.  When the place is right does not
  matter for that.
-/

namespace CustomLinuxOs

variable {σ : Type*}

/-- Single steps, at most `n`, until the state is ready.  It gives what is left of `n`. -/
def untilReady (ready : σ → Prop) [DecidablePred ready] (step : σ → σ) : ℕ → σ → ℕ × σ
  | 0, s => (0, s)
  | n + 1, s => if ready s then (n + 1, s) else untilReady ready step n (step s)

/-- The loop: single steps, blocks of `u` units, single steps. -/
def blockLoop (u : ℕ) (ready : σ → Prop) [DecidablePred ready] (step block : σ → σ) (n : ℕ)
    (s : σ) : σ :=
  let t := untilReady ready step n s
  step^[t.1 % u] (block^[t.1 / u] t.2)

variable (ready : σ → Prop) [DecidablePred ready] {step block : σ → σ} {Inv : ℕ → σ → Prop}
  {n u : ℕ}

/-- The rule for the single steps at the front. -/
lemma untilReady_inv (hstep : ∀ k s, k < n → Inv k s → Inv (k + 1) (step s)) {m k : ℕ} {s : σ}
    (hk : k + m = n) (h : Inv k s) :
    (untilReady ready step m s).1 ≤ n
      ∧ Inv (n - (untilReady ready step m s).1) (untilReady ready step m s).2 := by
  induction m generalizing k s with
  | zero =>
      refine ⟨Nat.zero_le n, ?_⟩
      rw [← hk]
      exact h
  | succ m ih =>
      rw [untilReady]
      split
      · refine ⟨by omega, ?_⟩
        rw [← hk, Nat.add_sub_cancel]
        exact h
      · exact ih (by omega) (hstep k s (by omega) h)

/-- The rule for a number of steps of one kind. -/
lemma iterate_inv (hblock : ∀ k s, k + u ≤ n → Inv k s → Inv (k + u) (block s)) {j k : ℕ} {s : σ}
    (hk : k + j * u ≤ n) (h : Inv k s) : Inv (k + j * u) (block^[j] s) := by
  induction j generalizing k s with
  | zero => rwa [Nat.zero_mul, Nat.add_zero]
  | succ j ih =>
      have hsum : k + (j + 1) * u = k + u + j * u := by
        rw [Nat.succ_mul, Nat.add_comm (j * u), Nat.add_assoc]
      rw [hsum] at hk ⊢
      rw [Function.iterate_succ_apply]
      exact ih hk (hblock k s (by omega) h)

/-- **The rule for the loop.** -/
theorem blockLoop_inv (hstep : ∀ k s, k < n → Inv k s → Inv (k + 1) (step s))
    (hblock : ∀ k s, k + u ≤ n → Inv k s → Inv (k + u) (block s)) {s : σ} (h : Inv 0 s) :
    Inv n (blockLoop u ready step block n s) := by
  obtain ⟨hle, hfront⟩ := untilReady_inv ready hstep (Nat.zero_add n) h
  set t := untilReady ready step n s with ht
  have hleft : t.1 / u * u + t.1 % u = t.1 := Nat.div_add_mod' t.1 u
  have hblocks := iterate_inv hblock (j := t.1 / u) (by omega) hfront
  have hrest := iterate_inv (u := 1) (n := n) (fun k s hk => hstep k s hk) (j := t.1 % u)
    (by omega) hblocks
  have hall : n - t.1 + t.1 / u * u + t.1 % u * 1 = n := by omega
  rwa [hall] at hrest

end CustomLinuxOs
