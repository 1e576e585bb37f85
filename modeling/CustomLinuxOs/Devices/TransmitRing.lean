import CustomLinuxOs.Foundations.Run

/-!
The transmit descriptors of `e1000.c`, which the driver fills and the network card works off.

`e1000_send_packet` fills the next descriptor, moves the tail, and waits for the status of the
descriptor to become nonzero.  It never sets a status back to zero.

* `TxDesc`, `E1000`: descriptors, counter and the two ring registers, with a record of the calls.
* `e1000SendPacket`: a call up to its waiting loop.
* `e1000Step`: calls and the card take steps in any order; the card sets a status only of a
  descriptor it has fetched.
* `Delivered`: a call that has returned is fetched, and a packet stays in its descriptor until
  then.
* `FirstRound`: with at most eight calls every descriptor is filled once, which each step keeps.
* `e1000_delivered_iff`: runs of `n` calls are right exactly for `n ≤ 8`.
-/

namespace CustomLinuxOs

/-- `NUM_DESCS`. -/
def NUM_DESCS : ℕ := 8

/-- `tx_desc_t`, as far as the driver sets it. -/
structure TxDesc where
  addrLow : UInt32
  length : UInt16
  cmdEop : Bool
  cmdIfcs : Bool
  cmdRs : Bool
  status : UInt8
  deriving DecidableEq, Repr

/-- The driver and the card.  Calls are numbered in the order they fill their descriptors. -/
structure E1000 where
  txDescs : ℕ → TxDesc
  txCounter : ℕ
  /-- the register `REG_TDTAIL` -/
  tdTail : ℕ
  /-- the register `REG_TDHEAD` -/
  tdHead : ℕ
  /-- the calls so far -/
  calls : ℕ
  /-- the call whose packet a descriptor holds -/
  owner : ℕ → Option ℕ
  /-- the calls whose packets the card has fetched -/
  fetched : List ℕ
  /-- the calls in their waiting loop, with their `old_counter` -/
  waiting : List (ℕ × ℕ)
  /-- the calls that have returned -/
  returned : List ℕ

/-- The state after `e1000_init`: all descriptors are zero, and the tail is behind the last one, so
that until the first call the card goes around descriptors that hold no packet. -/
def E1000.init : E1000 where
  txDescs := fun _ =>
    { addrLow := 0, length := 0, cmdEop := false, cmdIfcs := false, cmdRs := false, status := 0 }
  txCounter := 0
  tdTail := NUM_DESCS
  tdHead := 0
  calls := 0
  owner := fun _ => none
  fetched := []
  waiting := []
  returned := []

/-- `e1000_send_packet` up to its waiting loop.  A packet that is too long is refused. -/
def e1000SendPacket (s : E1000) (packet size : UInt32) : E1000 :=
  if size > 1518 then s
  else
    let counter := (s.txCounter + 1) % NUM_DESCS
    { s with
      txDescs := Function.update s.txDescs s.txCounter
        { s.txDescs s.txCounter with
          addrLow := packet, length := size.toUInt16, cmdEop := true, cmdIfcs := true,
          cmdRs := true }
      txCounter := counter
      tdTail := counter
      calls := s.calls + 1
      owner := Function.update s.owner s.txCounter (some s.calls)
      waiting := s.waiting ++ [(s.calls, s.txCounter)] }

/-- The steps of the driver and of the card. -/
inductive E1000Event where
  | send (packet size : UInt32)
  | leave (call : ℕ)
  | fetch
  | report (slot : ℕ) (status : UInt8)

/-- One step.  A call leaves its loop when it sees a status; the card fetches at its head unless
that is the tail, and reports on a descriptor it has fetched. -/
def e1000Step (s : E1000) : E1000Event → Option E1000
  | .send packet size => some (e1000SendPacket s packet size)
  | .leave call =>
      match s.waiting.find? fun w => w.1 == call with
      | none => none
      | some w =>
          if (s.txDescs w.2).status = 0 then none
          else some { s with waiting := s.waiting.erase w, returned := s.returned ++ [call] }
  | .fetch =>
      if s.tdHead = s.tdTail then none
      else some { s with
        tdHead := (s.tdHead + 1) % NUM_DESCS
        fetched := s.fetched ++ (s.owner s.tdHead).toList }
  | .report slot status =>
      match s.owner slot with
      | none => none
      | some call =>
          if status ≠ 0 ∧ call ∈ s.fetched then
            some { s with
              txDescs := Function.update s.txDescs slot { s.txDescs slot with status := status } }
          else none

/-- The packet of a call that has returned is fetched, and that of a call that is not fetched is
still in its descriptor. -/
structure Delivered (s : E1000) : Prop where
  returned : ∀ call ∈ s.returned, call ∈ s.fetched
  kept : ∀ call < s.calls, call ∈ s.fetched ∨ ∃ slot, s.owner slot = some call

/-! ### Eight calls -/

/-- No descriptor is used twice yet: call `i` has descriptor `i`, and a status says that its
packet is fetched. -/
structure FirstRound (s : E1000) : Prop where
  counter : s.txCounter = s.calls % NUM_DESCS
  owner : ∀ slot, s.owner slot = if slot < s.calls then some slot else none
  status : ∀ slot, (s.txDescs slot).status ≠ 0 → slot ∈ s.fetched
  waiting : ∀ w ∈ s.waiting, w.2 = w.1
  returned : ∀ call ∈ s.returned, call ∈ s.fetched

lemma FirstRound.delivered {s : E1000} (h : FirstRound s) : Delivered s :=
  ⟨h.returned, fun call hcall => .inr ⟨call, by rw [h.owner, if_pos hcall]⟩⟩

lemma firstRound_init : FirstRound E1000.init := by
  refine ⟨rfl, fun slot => by simp [E1000.init], fun slot h => absurd rfl h, fun w hw => ?_,
    fun call hcall => ?_⟩
  · cases hw
  · cases hcall

lemma e1000Step_calls {s u : E1000} {e : E1000Event} (hu : e1000Step s e = some u) :
    s.calls ≤ u.calls := by
  cases e with
  | send packet size =>
      cases hu
      rw [e1000SendPacket]
      split
      · exact le_rfl
      · exact Nat.le_succ _
  | leave call =>
      simp only [e1000Step] at hu
      split at hu
      · cases hu
      · split at hu <;> cases hu
        exact le_rfl
  | fetch =>
      simp only [e1000Step] at hu
      split at hu <;> cases hu
      exact le_rfl
  | report slot status =>
      simp only [e1000Step] at hu
      split at hu
      · cases hu
      · split at hu <;> cases hu
        exact le_rfl

/-- **One step** that does not begin a ninth call. -/
lemma FirstRound.step {s u : E1000} {e : E1000Event} (h : FirstRound s)
    (hu : e1000Step s e = some u) (hcalls : u.calls ≤ NUM_DESCS) : FirstRound u := by
  cases e with
  | send packet size =>
      cases hu
      rw [e1000SendPacket] at hcalls ⊢
      split_ifs at hcalls ⊢ with hsize
      · exact h
      · have hlt : s.calls < NUM_DESCS := hcalls
        have hcounter : s.txCounter = s.calls := by
          rw [h.counter, Nat.mod_eq_of_lt hlt]
        refine ⟨?_, fun slot => ?_, fun slot hstatus => ?_, fun w hw => ?_, h.returned⟩
        · simp only [hcounter]
        · rcases eq_or_ne slot s.calls with rfl | hne
          · simp [hcounter]
          · simp only [hcounter, Function.update_of_ne hne, h.owner]
            split_ifs <;> first | rfl | omega
        · rcases eq_or_ne slot s.txCounter with rfl | hne
          · simp only [Function.update_self] at hstatus
            exact h.status _ hstatus
          · simp only [Function.update_of_ne hne] at hstatus
            exact h.status _ hstatus
        · rcases List.mem_append.mp hw with hw | hw
          · exact h.waiting w hw
          · rw [List.mem_singleton.mp hw]
            exact hcounter
  | leave call =>
      simp only [e1000Step] at hu
      split at hu
      · cases hu
      · rename_i w hw
        split at hu
        · cases hu
        · rename_i hstatus
          cases hu
          refine ⟨h.counter, h.owner, h.status, fun v hv => h.waiting v (List.mem_of_mem_erase hv),
            fun c hc => ?_⟩
          rcases List.mem_append.mp hc with hc | hc
          · exact h.returned c hc
          · obtain rfl := List.mem_singleton.mp hc
            have hfirst : w.1 = c := by simpa using List.find?_some hw
            rw [h.waiting w (List.mem_of_find?_eq_some hw), hfirst] at hstatus
            exact h.status _ hstatus
  | fetch =>
      simp only [e1000Step] at hu
      split at hu <;> cases hu
      exact ⟨h.counter, h.owner, fun slot hs => List.mem_append_left _ (h.status slot hs),
        h.waiting, fun c hc => List.mem_append_left _ (h.returned c hc)⟩
  | report slot status =>
      simp only [e1000Step] at hu
      split at hu
      · cases hu
      · rename_i call howner
        split at hu
        · rename_i hfetched
          cases hu
          refine ⟨h.counter, h.owner, fun k hk => ?_, h.waiting, h.returned⟩
          rcases eq_or_ne k slot with rfl | hne
          · have hcall := h.owner k
            rw [howner] at hcall
            split_ifs at hcall
            rw [← Option.some.inj hcall]
            exact hfetched.2
          · simp only [Function.update_of_ne hne] at hk
            exact h.status k hk
        · cases hu

/-! ### Runs -/

lemma e1000Run_calls {s t : E1000} {es : List E1000Event} (hrun : Run e1000Step s es t) :
    s.calls ≤ t.calls := by
  induction hrun with
  | nil => exact le_rfl
  | snoc _ hstep ih => exact ih.trans (e1000Step_calls hstep)

/-- A run of at most eight calls stays in the first round. -/
lemma firstRound_run {t : E1000} {es : List E1000Event} (hrun : Run e1000Step E1000.init es t)
    (hcalls : t.calls ≤ NUM_DESCS) : FirstRound t := by
  induction hrun with
  | nil => exact firstRound_init
  | snoc _ hstep ih => exact (ih ((e1000Step_calls hstep).trans hcalls)).step hstep hcalls

/-- Eight calls, each of which is fetched and reported before the next. -/
def eightCalls : List E1000Event :=
  (List.range 8).flatMap fun i => [.send 0x1000 60, .fetch, .report i 1, .leave i]

/-- The ninth call finds the status of the first. -/
def ninthCall : List E1000Event := eightCalls ++ [.send 0x2000 60, .leave 8]

/-- It has returned, and its packet is not fetched. -/
lemma ninthCall_run :
    ∃ t, Run e1000Step E1000.init ninthCall t ∧ t.calls = 9 ∧ ¬ Delivered t := by
  have hread : (ninthCall.foldlM e1000Step E1000.init).map (fun t =>
      (t.calls, decide (8 ∈ t.returned), decide (8 ∈ t.fetched)))
      = some (9, true, false) := by decide +kernel
  obtain ⟨t, ht, hvalue⟩ := exists_run_of_map hread
  simp only [Prod.mk.injEq, decide_eq_true_eq, decide_eq_false_iff_not] at hvalue
  exact ⟨t, ht, hvalue.1, fun h => hvalue.2.2 (h.returned 8 hvalue.2.1)⟩

/-- Any number of calls can follow. -/
lemma exists_more_calls (t : E1000) (m : ℕ) :
    ∃ es z, Run e1000Step t es z ∧ z.calls = t.calls + m := by
  induction m with
  | zero => exact ⟨[], t, Run.nil, rfl⟩
  | succ m ih =>
      obtain ⟨es, z, hrun, hcalls⟩ := ih
      refine ⟨es ++ [.send 0x3000 60], _, hrun.snoc rfl, ?_⟩
      rw [e1000SendPacket, if_neg (by decide), ← Nat.add_assoc, ← hcalls]

/-- **Sent frames.**  Let calls of `e1000_send_packet` and the card take steps in any order.  In
every run of `n` calls each call that has returned is fetched and no packet that is not fetched
is overwritten, exactly when `n` is at most eight. -/
theorem e1000_delivered_iff (n : ℕ) :
    (∀ es z, Run e1000Step E1000.init es z → z.calls = n →
        EveryState e1000Step E1000.init es Delivered) ↔ n ≤ NUM_DESCS := by
  constructor
  · intro h
    by_contra hn
    obtain ⟨t, ht, hcalls, hbad⟩ := ninthCall_run
    have hle : 9 ≤ n := Nat.lt_of_not_le hn
    obtain ⟨es, z, hz, hzcalls⟩ := exists_more_calls t (n - 9)
    have hrun : Run e1000Step E1000.init (ninthCall ++ es) z := run_append_iff.mpr ⟨t, ht, hz⟩
    exact hbad (h _ z hrun (by omega) ninthCall es t rfl ht)
  · rintro hn es z hrun rfl pre post t rfl ht
    obtain ⟨t', ht', hpost⟩ := run_append_iff.mp hrun
    obtain rfl := ht.unique ht'
    exact (firstRound_run ht ((e1000Run_calls hpost).trans hn)).delivered

/-- The ninth call returns before its packet is fetched. -/
theorem e1000_returns_early :
    ¬ ∀ es, EveryState e1000Step E1000.init es Delivered := by
  intro h
  obtain ⟨t, ht, -, hbad⟩ := ninthCall_run
  exact hbad ((h ninthCall).last ht)

end CustomLinuxOs
