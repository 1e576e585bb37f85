import CustomLinuxOs.Foundations.Run

/-!
Runs without an end, in which one kind of event is not put off for ever.

* `FairRun step turn s`: a run from `s` in which an event with `turn` comes again and again.
* `FairRun.keeps`: what every step keeps from some place on.
* `FairRun.exists_turn`: **the progress rule**: what every other step keeps is still so when the
  next turn comes.
* `FairRun.project`: a run from some place on, seen in another system.
* `FairRun.follow`: the run of given events that are enabled everywhere.
-/

namespace CustomLinuxOs

variable {σ ε : Type*}

/-- A run without an end, with infinitely many events of a kind. -/
structure FairRun (step : σ → ε → Option σ) (turn : ε → Prop) (s : σ) where
  state : ℕ → σ
  event : ℕ → ε
  start : state 0 = s
  next : ∀ n, step (state n) (event n) = some (state (n + 1))
  fair : ∀ n, ∃ m, n ≤ m ∧ turn (event m)

namespace FairRun

variable {step : σ → ε → Option σ} {turn : ε → Prop} {s : σ}

/-- **Safety**: what every step from place `n` on keeps. -/
lemma keeps (r : FairRun step turn s) {P : σ → Prop} {n : ℕ}
    (hkeep : ∀ m, n ≤ m → P (r.state m) → P (r.state (m + 1))) (h : P (r.state n)) {m : ℕ}
    (hm : n ≤ m) : P (r.state m) := by
  induction m, hm using Nat.le_induction with
  | base => exact h
  | succ m hm ih => exact hkeep m hm ih

/-- **Progress**: what every step but a turn keeps is so at a turn. -/
lemma exists_turn (r : FairRun step turn s) {P : σ → Prop} {n : ℕ}
    (hkeep : ∀ m, n ≤ m → ¬ turn (r.event m) → P (r.state m) → P (r.state (m + 1)))
    (h : P (r.state n)) : ∃ m, n ≤ m ∧ turn (r.event m) ∧ P (r.state m) := by
  classical
  have hturn := r.fair n
  obtain ⟨hle, hfirst⟩ := Nat.find_spec hturn
  refine ⟨Nat.find hturn, hle, hfirst, ?_⟩
  have hbefore : ∀ m, n ≤ m → m ≤ Nat.find hturn → P (r.state m) := by
    intro m hm
    induction m, hm using Nat.le_induction with
    | base => exact fun _ => h
    | succ m hm ih =>
        intro hlt
        exact hkeep m hm (fun ht => Nat.find_min hturn hlt ⟨hm, ht⟩) (ih (by omega))
  exact hbefore _ hle le_rfl

/-- A run from place `n` on, seen through a function that goes along with its steps. -/
def project {τ : Type*} {step' : τ → ε → Option τ} {t : τ} (r : FairRun step turn s) (f : σ → τ)
    (n : ℕ) (hstart : f (r.state n) = t)
    (hstep : ∀ m, n ≤ m → step' (f (r.state m)) (r.event m) = some (f (r.state (m + 1)))) :
    FairRun step' turn t where
  state m := f (r.state (n + m))
  event m := r.event (n + m)
  start := hstart
  next m := hstep (n + m) (Nat.le_add_right n m)
  fair m := by
    obtain ⟨k, hk, hturn⟩ := r.fair (n + m)
    refine ⟨k - n, by omega, ?_⟩
    rwa [show n + (k - n) = k by omega]

/-- The run of these events, each of which is enabled in every state. -/
def follow (s : σ) (event : ℕ → ε) (henabled : ∀ t n, (step t (event n)).isSome = true)
    (hfair : ∀ n, ∃ m, n ≤ m ∧ turn (event m)) : FairRun step turn s where
  state := Nat.rec s fun n t => (step t (event n)).get (henabled t n)
  event := event
  start := rfl
  next _ := (Option.some_get _).symm
  fair := hfair

end FairRun

end CustomLinuxOs
