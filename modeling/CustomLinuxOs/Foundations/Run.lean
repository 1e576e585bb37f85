import Mathlib.Tactic

/-!
Runs of a system given by a partial step function.

A system is a state type, an event type and a function `step : σ → ε → Option σ`, where
`none` says that the event is not enabled in the state.  Everything the environment chooses
stands in the event, so a run is determined by its events.

* `Run step s es t`: from `s` the events `es`, taken in order, are all enabled and end in
  `t`; `run_append_iff` cuts a run at any place, `exists_run_of_map` computes one, and
  `Run.invariant` is the induction rule.
* `EveryState`, `EveryStep`: a property of all states a run visits, and a property of all
  steps it takes, the latter read in the state before the step.
* `guarded`: the steps that meet a condition; a run of these is a run that meets it throughout.
* `everyState_iff_everyStep`: when a step keeps a property exactly under a condition, a run
  keeps it in all its states exactly when all its steps meet the condition.
* `run_grows`: the same for steps that go up in a preorder, and come down again exactly under a
  condition.
-/

namespace CustomLinuxOs

variable {σ ε : Type*} {step : σ → ε → Option σ}

/-! ### Runs and their induction rule -/

/-- From `s` the events, taken in order, are all enabled and lead to the last state. -/
inductive Run (step : σ → ε → Option σ) (s : σ) : List ε → σ → Prop
  | nil : Run step s [] s
  | snoc {es : List ε} {e : ε} {t u : σ} :
      Run step s es t → step t e = some u → Run step s (es ++ [e]) u

lemma run_nil_iff {s t : σ} : Run step s [] t ↔ t = s := by
  constructor
  · intro h
    generalize hes : ([] : List ε) = es at h
    cases h with
    | nil => rfl
    | snoc _ _ => simp at hes
  · rintro rfl
    exact Run.nil

lemma run_snoc_iff {s u : σ} {es : List ε} {e : ε} :
    Run step s (es ++ [e]) u ↔ ∃ t, Run step s es t ∧ step t e = some u := by
  constructor
  · intro h
    generalize hfs : es ++ [e] = fs at h
    cases h with
    | nil => simp at hfs
    | snoc h1 h2 =>
        obtain ⟨rfl, hee⟩ := List.append_inj' hfs rfl
        obtain rfl : e = _ := by simpa using hee
        exact ⟨_, h1, h2⟩
  · rintro ⟨t, h1, h2⟩
    exact h1.snoc h2

/-- A run splits at any place of its list of events. -/
lemma run_append_iff {s u : σ} {es fs : List ε} :
    Run step s (es ++ fs) u ↔ ∃ t, Run step s es t ∧ Run step t fs u := by
  induction fs using List.reverseRecOn generalizing u with
  | nil => simp [run_nil_iff]
  | append_singleton fs f ih =>
      rw [← List.append_assoc, run_snoc_iff]
      constructor
      · rintro ⟨v, hv, hf⟩
        obtain ⟨t, ht, hfs⟩ := ih.mp hv
        exact ⟨t, ht, hfs.snoc hf⟩
      · rintro ⟨t, ht, h⟩
        obtain ⟨v, hv, hf⟩ := run_snoc_iff.mp h
        exact ⟨v, ih.mpr ⟨t, ht, hv⟩, hf⟩

lemma run_cons_iff {s u : σ} {e : ε} {es : List ε} :
    Run step s (e :: es) u ↔ ∃ t, step s e = some t ∧ Run step t es u := by
  rw [show e :: es = [] ++ [e] ++ es from rfl, run_append_iff]
  simp only [run_snoc_iff, run_nil_iff]
  constructor
  · rintro ⟨t, ⟨_, rfl, h⟩, h'⟩
    exact ⟨t, h, h'⟩
  · rintro ⟨t, h, h'⟩
    exact ⟨t, ⟨s, rfl, h⟩, h'⟩

/-- The events determine the state a run ends in. -/
lemma Run.unique {s t u : σ} {es : List ε} (ht : Run step s es t) (hu : Run step s es u) :
    t = u := by
  induction ht generalizing u with
  | nil => exact (run_nil_iff.mp hu).symm
  | snoc _ hstep ih =>
      obtain ⟨v, hv, hvu⟩ := run_snoc_iff.mp hu
      rw [ih hv, hvu] at hstep
      exact (Option.some.inj hstep).symm

/-- A run can be computed: it is the fold of the step function. -/
lemma run_iff_foldlM {s t : σ} {es : List ε} : Run step s es t ↔ es.foldlM step s = some t := by
  induction es generalizing s with
  | nil => simp [run_nil_iff, eq_comm]
  | cons e es ih =>
      rw [run_cons_iff, List.foldlM_cons]
      cases h : step s e with
      | none => simp
      | some u => simp [ih]

/-- A computed value of the last state shows that there is a run, and what its last state is
like. -/
lemma exists_run_of_map {α : Type*} {s : σ} {es : List ε} {f : σ → α} {v : α}
    (h : (es.foldlM step s).map f = some v) : ∃ z, Run step s es z ∧ f z = v := by
  obtain ⟨z, hz, hv⟩ := Option.map_eq_some_iff.mp h
  exact ⟨z, run_iff_foldlM.mpr hz, hv⟩

/-- The same for a run, one more event, and a value of the two states around that. -/
lemma exists_run_step_of_bind {α : Type*} {s : σ} {es : List ε} {e : ε} {f : σ → σ → α} {v : α}
    (h : (es.foldlM step s).bind (fun t => (step t e).map (f t)) = some v) :
    ∃ t u, Run step s es t ∧ step t e = some u ∧ f t u = v := by
  obtain ⟨t, ht, hu⟩ := Option.bind_eq_some_iff.mp h
  obtain ⟨u, hu, hv⟩ := Option.map_eq_some_iff.mp hu
  exact ⟨t, u, run_iff_foldlM.mpr ht, hu, hv⟩

lemma exists_run_of_isSome {s : σ} {es : List ε} (h : (es.foldlM step s).isSome = true) :
    ∃ z, Run step s es z := by
  obtain ⟨z, hz⟩ := Option.isSome_iff_exists.mp h
  exact ⟨z, run_iff_foldlM.mpr hz⟩

/-- **The invariant rule**: what the first state has and every step keeps, every state a run
reaches has. -/
theorem Run.invariant {P : σ → Prop} {s t : σ} {es : List ε} (hrun : Run step s es t)
    (hs : P s) (hstep : ∀ t e u, P t → step t e = some u → P u) : P t := by
  induction hrun with
  | nil => exact hs
  | snoc _ h ih => exact hstep _ _ _ ih h

/-! ### Properties of all states and of all steps -/

/-- `P` holds of every state the run of `es` from `s` visits, both ends included. -/
def EveryState (step : σ → ε → Option σ) (s : σ) (es : List ε) (P : σ → Prop) : Prop :=
  ∀ pre post t, es = pre ++ post → Run step s pre t → P t

/-- `C` holds of every event of the run and the state it is taken in. -/
def EveryStep (step : σ → ε → Option σ) (s : σ) (es : List ε) (C : σ → ε → Prop) : Prop :=
  ∀ pre e post t, es = pre ++ e :: post → Run step s pre t → C t e

lemma EveryState.last {s t : σ} {es : List ε} {P : σ → Prop} (h : EveryState step s es P)
    (hrun : Run step s es t) : P t :=
  h es [] t (List.append_nil es).symm hrun

lemma everyState_nil {s : σ} {P : σ → Prop} : EveryState step s [] P ↔ P s := by
  constructor
  · intro h
    exact h [] [] s rfl Run.nil
  · intro h pre post t hes ht
    obtain ⟨rfl, -⟩ := List.nil_eq_append_iff.mp hes
    rw [run_nil_iff.mp ht]
    exact h

lemma everyStep_nil {s : σ} {C : σ → ε → Prop} : EveryStep step s [] C := by
  intro pre e post t hes
  simp at hes

lemma everyState_snoc {s t u : σ} {es : List ε} {e : ε} {P : σ → Prop}
    (ht : Run step s es t) (hu : step t e = some u) :
    EveryState step s (es ++ [e]) P ↔ EveryState step s es P ∧ P u := by
  constructor
  · intro h
    refine ⟨fun pre post v hes hv => h pre (post ++ [e]) v (by simp [hes]) hv, ?_⟩
    exact h.last (ht.snoc hu)
  · rintro ⟨h, hPu⟩ pre post v hes hv
    rcases List.eq_nil_or_concat post with rfl | ⟨post, f, rfl⟩
    · rw [List.append_nil] at hes
      rw [← hes] at hv
      rw [hv.unique (ht.snoc hu)]
      exact hPu
    · rw [List.concat_eq_append, ← List.append_assoc] at hes
      exact h pre post v (List.append_inj' hes rfl).1 hv

lemma everyStep_snoc {s t : σ} {es : List ε} {e : ε} {C : σ → ε → Prop}
    (ht : Run step s es t) :
    EveryStep step s (es ++ [e]) C ↔ EveryStep step s es C ∧ C t e := by
  constructor
  · intro h
    refine ⟨fun pre f post v hes hv => h pre f (post ++ [e]) v (by simp [hes]) hv, ?_⟩
    exact h es e [] t rfl ht
  · rintro ⟨h, hC⟩ pre f post v hes hv
    rcases List.eq_nil_or_concat post with rfl | ⟨post, g, rfl⟩
    · obtain ⟨rfl, hfe⟩ := List.append_inj' hes rfl
      obtain rfl : e = f := by simpa using hfe
      rw [hv.unique ht]
      exact hC
    · rw [List.concat_eq_append, ← List.cons_append, ← List.append_assoc] at hes
      exact h pre f post v (List.append_inj' hes rfl).1 hv

lemma everyStep_singleton {s : σ} {e : ε} {C : σ → ε → Prop} :
    EveryStep step s [e] C ↔ C s e := by
  rw [show [e] = [] ++ [e] from rfl, everyStep_snoc Run.nil, and_iff_right everyStep_nil]

lemma EveryStep.cons {s t : σ} {e : ε} {es : List ε} {C : σ → ε → Prop} (ht : step s e = some t)
    (hC : C s e) (h : EveryStep step t es C) : EveryStep step s (e :: es) C := by
  intro pre f post v hes hv
  cases pre with
  | nil =>
      obtain ⟨rfl, -⟩ := List.cons.inj hes
      rw [run_nil_iff.mp hv]
      exact hC
  | cons g pre =>
      obtain ⟨rfl, hrest⟩ := List.cons.inj hes
      obtain ⟨t', ht', hv⟩ := run_cons_iff.mp hv
      rw [ht] at ht'
      cases ht'
      exact h pre f post v hrest hv

lemma EveryStep.head {s : σ} {e : ε} {es : List ε} {C : σ → ε → Prop}
    (h : EveryStep step s (e :: es) C) : C s e := h [] e es s rfl Run.nil

lemma EveryStep.tail {s t : σ} {e : ε} {es : List ε} {C : σ → ε → Prop}
    (h : EveryStep step s (e :: es) C) (ht : step s e = some t) : EveryStep step t es C := by
  intro pre f post v hes hv
  exact h (e :: pre) f post v (by rw [hes, List.cons_append]) (run_cons_iff.mpr ⟨t, ht, hv⟩)

/-- The events of a run are enabled where they are taken. -/
lemma Run.enabled {s t z : σ} {pre post : List ε} {e : ε} (hrun : Run step s (pre ++ e :: post) z)
    (ht : Run step s pre t) : ∃ u, step t e = some u := by
  obtain ⟨v, hv, hrest⟩ := run_append_iff.mp hrun
  obtain ⟨u, hu, -⟩ := run_cons_iff.mp hrest
  rw [ht.unique hv]
  exact ⟨u, hu⟩

/-- A condition on the steps of a run may be replaced by one that is equivalent where an event is
enabled. -/
lemma everyStep_congr {s z : σ} {es : List ε} {C D : σ → ε → Prop} (hrun : Run step s es z)
    (h : ∀ t e u, step t e = some u → (C t e ↔ D t e)) :
    EveryStep step s es C ↔ EveryStep step s es D := by
  have enabled {pre e post t} (hes : es = pre ++ e :: post) (ht : Run step s pre t) :
      ∃ u, step t e = some u := Run.enabled (hes ▸ hrun) ht
  constructor
  · intro hC pre e post t hes ht
    obtain ⟨u, hu⟩ := enabled hes ht
    exact (h t e u hu).mp (hC pre e post t hes ht)
  · intro hD pre e post t hes ht
    obtain ⟨u, hu⟩ := enabled hes ht
    exact (h t e u hu).mpr (hD pre e post t hes ht)

/-- The steps that meet a condition. -/
def guarded (step : σ → ε → Option σ) (C : σ → ε → Prop) [∀ s e, Decidable (C s e)] (s : σ)
    (e : ε) : Option σ :=
  if C s e then step s e else none

/-- A run of these steps is a run, and all its steps meet the condition. -/
lemma Run.of_guarded {C : σ → ε → Prop} [∀ s e, Decidable (C s e)] {s t : σ} {es : List ε}
    (h : Run (guarded step C) s es t) : Run step s es t ∧ EveryStep step s es C := by
  induction h with
  | nil => exact ⟨Run.nil, everyStep_nil⟩
  | @snoc es e t u _ hu ih =>
      obtain ⟨hC, hu⟩ := Option.ite_none_right_eq_some.mp hu
      exact ⟨ih.1.snoc hu, (everyStep_snoc ih.1).mpr ⟨ih.2, hC⟩⟩

/-- What a step under a condition keeps, a run whose steps meet it keeps. -/
theorem EveryStep.everyState {s : σ} {es : List ε} {P : σ → Prop} {C : σ → ε → Prop}
    (h : EveryStep step s es C) (hP : P s)
    (hstep : ∀ t e u, P t → C t e → step t e = some u → P u) : EveryState step s es P := by
  intro pre post t hes ht
  induction ht generalizing post with
  | nil => exact hP
  | @snoc pre e t u ht hu ih =>
      rw [List.append_assoc] at hes
      exact hstep t e u (ih _ hes) (h pre e post t hes ht) hu

/-- **Runs under a step condition.**  Let a step on an event with `V` from a state with `I` and
`P` keep `P` exactly when it meets the condition `C`, and let it keep `I` as long as it keeps
`P`.  Then `P` holds in all states of a run exactly when all its steps meet `C`. -/
theorem everyState_iff_everyStep {V : ε → Prop} {I P : σ → Prop} {C : σ → ε → Prop} {s z : σ}
    {es : List ε} (hrun : Run step s es z) (hV : ∀ e ∈ es, V e) (hI : I s) (hP : P s)
    (hstep : ∀ t e u, V e → I t → P t → step t e = some u → (P u ↔ C t e))
    (hkeep : ∀ t e u, V e → I t → P t → P u → step t e = some u → I u) :
    EveryState step s es P ↔ EveryStep step s es C := by
  have key : (EveryState step s es P ↔ EveryStep step s es C)
      ∧ (EveryState step s es P → I z) := by
    induction hrun with
    | nil => exact ⟨⟨fun _ => everyStep_nil, fun _ => everyState_nil.mpr hP⟩, fun _ => hI⟩
    | @snoc es e t u ht hu ih =>
        have hVe : V e := hV e (by simp)
        obtain ⟨ihiff, ihI⟩ := ih fun f hf => hV f (by simp [hf])
        rw [everyState_snoc ht hu, everyStep_snoc ht]
        refine ⟨⟨fun ⟨h, hPu⟩ => ?_, fun ⟨h, hC⟩ => ?_⟩, fun ⟨h, hPu⟩ => ?_⟩
        · exact ⟨ihiff.mp h, (hstep t e u hVe (ihI h) (h.last ht) hu).mp hPu⟩
        · have hall := ihiff.mpr h
          exact ⟨hall, (hstep t e u hVe (ihI hall) (hall.last ht) hu).mpr hC⟩
        · exact hkeep t e u hVe (ihI h) (h.last ht) hPu hu
  exact key.1

/-- **Runs that only grow.**  Let every step go up in a preorder, and come down again exactly when
it meets the condition `C`.  Then so does a run, and exactly when all its steps meet `C`. -/
theorem run_grows {r : σ → σ → Prop} {C : σ → ε → Prop} {s z : σ} {es : List ε}
    (hrefl : ∀ s, r s s) (htrans : ∀ s t u, r s t → r t u → r s u) (hrun : Run step s es z)
    (hgrows : ∀ t e u, step t e = some u → r t u)
    (hback : ∀ t e u, step t e = some u → (r u t ↔ C t e)) :
    r s z ∧ (r z s ↔ EveryStep step s es C) := by
  induction hrun with
  | nil => exact ⟨hrefl s, iff_of_true (hrefl s) everyStep_nil⟩
  | @snoc es e t u ht hu ih =>
      obtain ⟨hup, hdown⟩ := ih
      have hstep := hgrows t e u hu
      rw [everyStep_snoc ht, ← hdown, ← hback t e u hu]
      refine ⟨htrans s t u hup hstep, ?_⟩
      exact ⟨fun h => ⟨htrans t u s hstep h, htrans u s t h hup⟩, fun ⟨h, h'⟩ => htrans u t s h' h⟩

end CustomLinuxOs
