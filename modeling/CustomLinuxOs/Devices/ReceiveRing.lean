import CustomLinuxOs.Devices.TransmitRing
import CustomLinuxOs.Networking.UdpRoundTrip

/-!
The receive descriptors of `e1000.c`, which the network card fills and the driver empties.

The card stores a frame at its head, unless that is the tail, and never looks at the status that the
driver clears.  The driver moves the tail after every frame; before the first one the tail is beyond
the ring and the card goes round without a stop.

* `E1000Rx`, `e1000RxStep`: descriptors, head and tail, the place the driver is at in
  `e1000_interrupt`, and a record of the frames; card and driver take steps in any order.
* `FirstRing`: the card stores no ninth frame before the driver has moved the tail.
* `RxRingInv`: the invariant, with the frames that are cleared and those given back to the card.
* `receiveRing_faithful`: in all interleavings the frames are parsed in the order in which they
  arrive, each once, and the driver returns only when all of them are.
-/

namespace CustomLinuxOs

/-! ### The driver and the card -/

def INT_RXSEQ : UInt32 := 0x08
def INT_RXO : UInt32 := 0x40
def INT_RXT0 : UInt32 := 0x80

/-- The bytes of a buffer of `rx_buffers`. -/
def RX_BUFFER_SIZE : ℕ := 2048

/-- Where the driver is in `e1000_interrupt`, with the causes of the interrupt: before the test of
`receive_packet`, before `parse_packet`, before the status is cleared, before the tail is moved. -/
inductive RxPhase where
  | idle
  | test (status : UInt32)
  | parse (status : UInt32) (counter : ℕ)
  | clear (status : UInt32) (counter : ℕ)
  | tail (status : UInt32) (counter : ℕ)
  | dead
  deriving DecidableEq, Repr

/-- The driver and the card, with all frames that have come and all buffers that were parsed. -/
structure E1000Rx where
  /-- `status_DD` of the descriptors -/
  statusDd : ℕ → Bool
  /-- `status_EOP` of the descriptors -/
  statusEop : ℕ → Bool
  /-- `rx_buffers`, at the addresses in the descriptors -/
  buffers : ℕ → List UInt8
  rxCounter : ℕ
  /-- the register `REG_RDTAIL` -/
  rdTail : ℕ
  /-- the register `REG_RDHEAD` -/
  rdHead : ℕ
  phase : RxPhase
  stack : NetStack
  arrived : List (List UInt8)
  parsed : List (List UInt8)

/-- The state after `e1000_init`. -/
def E1000Rx.init (stack : NetStack) : E1000Rx where
  statusDd := fun _ => false
  statusEop := fun _ => false
  buffers := fun _ => List.replicate RX_BUFFER_SIZE 0
  rxCounter := 0
  rdTail := NUM_DESCS
  rdHead := 0
  phase := .idle
  stack := stack
  arrived := []
  parsed := []

/-- The steps of card and driver. -/
inductive E1000RxEvent where
  /-- the card stores a frame -/
  | store (frame : List UInt8)
  /-- an interrupt, with the causes in `REG_ICR` -/
  | interrupt (status : UInt32)
  /-- the next step of the driver -/
  | driver

/-- The end of `e1000_interrupt`: two causes are the end of everything. -/
def afterReceive (status : UInt32) : RxPhase :=
  if status &&& INT_RXO ≠ 0 then .dead
  else if status &&& INT_RXSEQ ≠ 0 then .dead
  else .idle

/-- The next step of the driver. -/
def driverStep (reply : Ip → List (Mac × Ip)) (s : E1000Rx) : Option E1000Rx :=
  match s.phase with
  | .idle => none
  | .test status =>
      if s.statusDd s.rxCounter && s.statusEop s.rxCounter then
        some { s with
          rxCounter := (s.rxCounter + 1) % NUM_DESCS
          phase := .parse status s.rxCounter }
      else some { s with phase := afterReceive status }
  | .parse status counter =>
      some { s with
        stack := parsePacket reply s.stack (s.buffers counter)
        parsed := s.parsed ++ [s.buffers counter]
        phase := .clear status counter }
  | .clear status counter =>
      some { s with
        statusDd := Function.update s.statusDd counter false
        phase := .tail status counter }
  | .tail status counter => some { s with rdTail := counter, phase := .test status }
  | .dead => none

/-- One step.  The card writes a frame over the beginning of the buffer. -/
def e1000RxStep (reply : Ip → List (Mac × Ip)) (s : E1000Rx) : E1000RxEvent → Option E1000Rx
  | .store frame =>
      if s.rdHead = s.rdTail ∨ frame.length > RX_BUFFER_SIZE then none
      else some { s with
        statusDd := Function.update s.statusDd s.rdHead true
        statusEop := Function.update s.statusEop s.rdHead true
        buffers := Function.update s.buffers s.rdHead
          (frame ++ (s.buffers s.rdHead).drop frame.length)
        rdHead := (s.rdHead + 1) % NUM_DESCS
        arrived := s.arrived ++ [frame] }
  | .interrupt status =>
      if s.phase = .idle then
        some { s with
          phase := if status &&& INT_RXT0 ≠ 0 then .test status else afterReceive status }
      else none
  | .driver => driverStep reply s

/-- Before the driver has moved the tail, the card stores a frame only when it has stored fewer than
there are descriptors. -/
def FirstRing (s : E1000Rx) : E1000RxEvent → Prop
  | .store _ => s.rdTail = NUM_DESCS → s.arrived.length < NUM_DESCS
  | _ => True

instance (s : E1000Rx) : (e : E1000RxEvent) → Decidable (FirstRing s e)
  | .store _ => inferInstanceAs (Decidable (_ → _))
  | .interrupt _ => inferInstanceAs (Decidable True)
  | .driver => inferInstanceAs (Decidable True)

/-- What reaches the network stack. -/
structure RxFaithful (reply : Ip → List (Mac × Ip)) (stack : NetStack) (s : E1000Rx) : Prop where
  /-- the buffers that were parsed begin with the frames that have come, in order -/
  inOrder : List.Forall₂ (· <+: ·) (s.arrived.take s.parsed.length) s.parsed
  /-- nothing else happened to the stack -/
  stack : s.stack = s.parsed.foldl (parsePacket reply) stack
  /-- a frame that is not parsed is in its descriptor -/
  kept : ∀ i, s.parsed.length ≤ i → ∀ hi : i < s.arrived.length,
    s.arrived[i] <+: s.buffers (i % NUM_DESCS)
  /-- the test fails only when all frames are parsed -/
  drained : ∀ status, s.phase = .test status →
    (s.statusDd s.rxCounter && s.statusEop s.rxCounter) = false →
      s.parsed.length = s.arrived.length

/-! ### The invariant -/

/-- What the place of the driver says of the numbers of frames: `p` parsed, `d` cleared, `t` given
back to the card, out of `a` that have come; and of `rx_counter`. -/
def RxPhase.Counts (counter p d t a : ℕ) : RxPhase → Prop
  | .idle => p = d ∧ t = d ∧ counter = d % NUM_DESCS
  | .test _ => p = d ∧ t = d ∧ counter = d % NUM_DESCS
  | .parse _ c => p = d ∧ t = d ∧ c = d % NUM_DESCS ∧ counter = (d + 1) % NUM_DESCS ∧ d < a
  | .clear _ c => p = d + 1 ∧ t = d ∧ c = d % NUM_DESCS ∧ counter = (d + 1) % NUM_DESCS ∧ d < a
  | .tail _ c => p = d ∧ d = t + 1 ∧ c = t % NUM_DESCS ∧ counter = d % NUM_DESCS
  | .dead => p = d ∧ t = d ∧ counter = d % NUM_DESCS

/-- The invariant of the ring, with `d` frames cleared and `t` given back. -/
structure RxRingInv (reply : Ip → List (Mac × Ip)) (stack : NetStack) (s : E1000Rx) (d t : ℕ) :
    Prop where
  counts : s.phase.Counts s.rxCounter s.parsed.length d t s.arrived.length
  head : s.rdHead = s.arrived.length % NUM_DESCS
  tail : s.rdTail = if t = 0 then NUM_DESCS else (t - 1) % NUM_DESCS
  cleared : d ≤ s.arrived.length
  room : s.arrived.length ≤ t + if t = 0 then NUM_DESCS else NUM_DESCS - 1
  full : ∀ i, d ≤ i → i < s.arrived.length →
    s.statusDd (i % NUM_DESCS) = true ∧ s.statusEop (i % NUM_DESCS) = true
  empty : ∀ i, s.arrived.length ≤ i → i < d + NUM_DESCS → s.statusDd (i % NUM_DESCS) = false
  kept : ∀ i, s.parsed.length ≤ i → ∀ hi : i < s.arrived.length,
    s.arrived[i] <+: s.buffers (i % NUM_DESCS)
  inOrder : List.Forall₂ (· <+: ·) (s.arrived.take s.parsed.length) s.parsed
  stack : s.stack = s.parsed.foldl (parsePacket reply) stack

section Invariant

variable {reply : Ip → List (Mac × Ip)} {stack : NetStack} {s u : E1000Rx} {d t : ℕ}

lemma rxRingInv_init : RxRingInv reply stack (E1000Rx.init stack) 0 0 where
  counts := ⟨rfl, rfl, rfl⟩
  head := rfl
  tail := rfl
  cleared := le_rfl
  room := Nat.zero_le _
  full i _ hi := absurd hi (Nat.not_lt_zero i)
  empty _ _ _ := rfl
  kept i _ hi := absurd hi (Nat.not_lt_zero i)
  inOrder := List.Forall₂.nil
  stack := rfl

lemma RxRingInv.faithful (h : RxRingInv reply stack s d t) : RxFaithful reply stack s where
  inOrder := h.inOrder
  stack := h.stack
  kept := h.kept
  drained status hphase htest := by
    have hcounts := h.counts
    rw [hphase] at hcounts
    obtain ⟨hp, -, hcounter⟩ := hcounts
    rcases h.cleared.lt_or_eq with hlt | heq
    · obtain ⟨hdd, heop⟩ := h.full d le_rfl hlt
      rw [hcounter, hdd, heop] at htest
      cases htest
    · exact hp.trans heq

/-- No more frames are given back than are cleared, and no fewer than one less. -/
lemma RxRingInv.given (h : RxRingInv reply stack s d t) :
    t ≤ d ∧ d ≤ t + 1 ∧ d ≤ s.parsed.length ∧ s.parsed.length ≤ s.arrived.length := by
  have hcounts := h.counts
  have hcleared := h.cleared
  cases hphase : s.phase <;> rw [hphase] at hcounts <;> obtain ⟨hp, ht, hrest⟩ := hcounts <;> omega

/-- Before the tail is moved it is beyond the ring. -/
lemma RxRingInv.first (h : RxRingInv reply stack s d t) : s.rdTail = NUM_DESCS ↔ t = 0 := by
  rw [h.tail]
  split
  · exact iff_of_true rfl ‹_›
  · refine iff_of_false (fun heq => ?_) ‹_›
    have hlt : (t - 1) % NUM_DESCS < NUM_DESCS := Nat.mod_lt _ (by decide)
    omega

lemma RxPhase.Counts.mono {counter p d t a a' : ℕ} {phase : RxPhase}
    (h : phase.Counts counter p d t a) (ha : a ≤ a') : phase.Counts counter p d t a' := by
  cases phase with
  | parse status c =>
      obtain ⟨hp, ht, hc, hcounter, hlt⟩ := h
      exact ⟨hp, ht, hc, hcounter, hlt.trans_le ha⟩
  | clear status c =>
      obtain ⟨hp, ht, hc, hcounter, hlt⟩ := h
      exact ⟨hp, ht, hc, hcounter, hlt.trans_le ha⟩
  | _ => exact h

/-- The head can go on, so there is a descriptor whose frame was given back. -/
lemma RxRingInv.lt_room (h : RxRingInv reply stack s d t) (hhead : s.rdHead ≠ s.rdTail)
    (hfirst : s.rdTail = NUM_DESCS → s.arrived.length < NUM_DESCS) :
    s.arrived.length < t + NUM_DESCS - if t = 0 then 0 else 1 := by
  have hroom := h.room
  have htail := h.tail
  rw [h.head] at hhead
  rcases Nat.eq_zero_or_pos t with rfl | ht
  · exact hfirst (h.first.mpr rfl)
  · rw [if_neg ht.ne'] at hroom htail ⊢
    rw [htail, NUM_DESCS] at hhead
    rw [NUM_DESCS] at hroom ⊢
    omega

/-- **The card stores a frame.** -/
lemma RxRingInv.store (h : RxRingInv reply stack s d t) {frame : List UInt8}
    (hfirst : s.rdTail = NUM_DESCS → s.arrived.length < NUM_DESCS)
    (hu : e1000RxStep reply s (.store frame) = some u) : RxRingInv reply stack u d t := by
  rw [e1000RxStep] at hu
  split at hu
  · cases hu
  rename_i hguard
  cases hu
  have hlt := h.lt_room (fun heq => hguard (.inl heq)) hfirst
  obtain ⟨htd, hdt, hdp, hpa⟩ := h.given
  have hcleared := h.cleared
  have hlength : (s.arrived ++ [frame]).length = s.arrived.length + 1 := by
    rw [List.length_append, List.length_singleton]
  -- a frame that waits in the ring is in another descriptor
  have hother (i : ℕ) (hi : d ≤ i) (hia : i < s.arrived.length) : i % NUM_DESCS ≠ s.rdHead := by
    rw [h.head]
    simp only [NUM_DESCS] at hlt ⊢
    split at hlt <;> omega
  refine ⟨?_, ?_, h.tail, ?_, ?_, fun i hi hia => ?_, fun i hi hid => ?_, fun i hi hia => ?_, ?_,
    h.stack⟩
  · exact h.counts.mono (by simp only [hlength]; omega)
  · simp only [hlength, h.head, NUM_DESCS]
    omega
  · simp only [hlength]
    omega
  · simp only [hlength]
    split at hlt <;> rename_i ht
    · rw [if_pos ht]
      omega
    · rw [if_neg ht]
      rw [NUM_DESCS] at hlt ⊢
      omega
  · rcases eq_or_ne (i % NUM_DESCS) s.rdHead with heq | hne
    · simp only [heq, Function.update_self, and_self]
    · have hia' : i < s.arrived.length := by
        simp only [hlength] at hia
        rcases Nat.lt_succ_iff_lt_or_eq.mp hia with hlt | heq
        · exact hlt
        · exact absurd (heq ▸ h.head.symm) hne
      simp only [Function.update_of_ne hne]
      exact h.full i hi hia'
  · simp only [hlength] at hi
    have hne : i % NUM_DESCS ≠ s.rdHead := by
      rw [h.head]
      simp only [NUM_DESCS] at hid ⊢
      omega
    simp only [Function.update_of_ne hne]
    exact h.empty i (by omega) hid
  · simp only [hlength] at hia
    rcases Nat.lt_succ_iff_lt_or_eq.mp hia with hlt' | heq
    · have hne := hother i (hdp.trans hi) hlt'
      simp only [List.getElem_append_left hlt', Function.update_of_ne hne]
      exact h.kept i hi hlt'
    · subst heq
      simp only [List.getElem_concat_length, ← h.head, Function.update_self]
      exact List.prefix_append _ _
  · simp only [List.take_append_of_le_length hpa]
    exact h.inOrder

/-- **The driver takes its next step.** -/
lemma RxRingInv.driver (h : RxRingInv reply stack s d t) (hu : driverStep reply s = some u) :
    ∃ d' t', RxRingInv reply stack u d' t' := by
  obtain ⟨htd, hdt, hdp, hpa⟩ := h.given
  have hroom := h.room
  have hcounts := h.counts
  cases hphase : s.phase with
  | idle => simp only [driverStep, hphase, reduceCtorEq] at hu
  | dead => simp only [driverStep, hphase, reduceCtorEq] at hu
  | test status =>
      rw [hphase] at hcounts
      obtain ⟨hp, ht, hcounter⟩ := hcounts
      simp only [driverStep, hphase] at hu
      split at hu
      · rename_i htest
        cases hu
        refine ⟨d, t, ⟨hp, ht, hcounter, ?_, ?_⟩, h.head, h.tail, h.cleared, h.room, h.full,
          h.empty, h.kept, h.inOrder, h.stack⟩
        · simp only [hcounter, NUM_DESCS]
          omega
        · by_contra hlt
          have hclear := h.empty d (Nat.le_of_not_lt hlt) (by rw [NUM_DESCS]; omega)
          rw [hcounter, hclear] at htest
          cases htest
      · cases hu
        refine ⟨d, t, ?_, h.head, h.tail, h.cleared, h.room, h.full, h.empty, h.kept, h.inOrder,
          h.stack⟩
        simp only [afterReceive]
        split_ifs <;> exact ⟨hp, ht, hcounter⟩
  | parse status c =>
      rw [hphase] at hcounts
      obtain ⟨hp, ht, hc, hcounter, hlt⟩ := hcounts
      simp only [driverStep, hphase] at hu
      cases hu
      have hlength : (s.parsed ++ [s.buffers c]).length = s.parsed.length + 1 := by
        rw [List.length_append, List.length_singleton]
      have hpa' : s.parsed.length < s.arrived.length := by omega
      refine ⟨d, t, ⟨by simp only [hlength, hp], ht, hc, hcounter, hlt⟩, h.head, h.tail, h.cleared,
        h.room, h.full, h.empty, fun i hi hia => ?_, ?_, ?_⟩
      · rw [hlength] at hi
        exact h.kept i (by omega) hia
      · have hbuffer : s.parsed.length % NUM_DESCS = c := by rw [hp, hc]
        have hframe := h.kept s.parsed.length le_rfl hpa'
        rw [hbuffer] at hframe
        simp only [hlength, ← List.take_append_getElem hpa']
        exact List.rel_append h.inOrder (List.Forall₂.cons hframe .nil)
      · rw [List.foldl_append, ← h.stack]
        rfl
  | clear status c =>
      rw [hphase] at hcounts
      obtain ⟨hp, ht, hc, hcounter, hlt⟩ := hcounts
      simp only [driverStep, hphase] at hu
      cases hu
      refine ⟨d + 1, t, ⟨hp, by rw [ht], ht ▸ hc, hcounter⟩, h.head, h.tail, hlt, h.room,
        fun i hi hia => ?_, fun i hi hid => ?_, h.kept, h.inOrder, h.stack⟩
      · have hne : i % NUM_DESCS ≠ c := by
          rw [hc]
          simp only [NUM_DESCS] at hroom hia ⊢
          split at hroom <;> omega
        simp only [Function.update_of_ne hne]
        exact h.full i (by omega) hia
      · rcases eq_or_ne (i % NUM_DESCS) c with heq | hne
        · simp only [heq, Function.update_self]
        · simp only [Function.update_of_ne hne]
          rw [hc] at hne
          refine h.empty i hi ?_
          simp only [NUM_DESCS] at hne hid ⊢
          omega
  | tail status c =>
      rw [hphase] at hcounts
      obtain ⟨hp, hd, hc, hcounter⟩ := hcounts
      simp only [driverStep, hphase] at hu
      cases hu
      refine ⟨d, t + 1, ⟨hp, hd.symm, hcounter⟩, h.head, ?_, h.cleared, ?_, h.full, h.empty, h.kept,
        h.inOrder, h.stack⟩
      · rw [if_neg (Nat.succ_ne_zero t), Nat.add_sub_cancel]
        exact hc
      · rw [if_neg (Nat.succ_ne_zero t)]
        simp only [NUM_DESCS] at hroom ⊢
        split at hroom <;> omega

/-- **One step** of card or driver. -/
lemma RxRingInv.step (h : RxRingInv reply stack s d t) {e : E1000RxEvent} (hfirst : FirstRing s e)
    (hu : e1000RxStep reply s e = some u) : ∃ d' t', RxRingInv reply stack u d' t' := by
  cases e with
  | store frame => exact ⟨d, t, h.store hfirst hu⟩
  | driver => exact h.driver hu
  | interrupt status =>
      rw [e1000RxStep] at hu
      split at hu
      · rename_i hidle
        cases hu
        have hcounts := h.counts
        rw [hidle] at hcounts
        refine ⟨d, t, ?_, h.head, h.tail, h.cleared, h.room, h.full, h.empty, h.kept, h.inOrder,
          h.stack⟩
        simp only [afterReceive]
        split_ifs <;> exact hcounts
      · cases hu

end Invariant

/-! ### Runs -/

/-- **Received frames.**  Let the card and the driver take steps in any order from `e1000_init` on,
with no more frames than there are descriptors before the driver moves the tail.  In every state the
buffers that were parsed begin with the frames that have come, each once and in their order, the
others are in their descriptors, and when `receive_packet` returns all are parsed. -/
theorem receiveRing_faithful (reply : Ip → List (Mac × Ip)) (stack : NetStack)
    {es : List E1000RxEvent}
    (hfirst : EveryStep (e1000RxStep reply) (E1000Rx.init stack) es FirstRing) :
    EveryState (e1000RxStep reply) (E1000Rx.init stack) es (RxFaithful reply stack) := by
  have hall : EveryState (e1000RxStep reply) (E1000Rx.init stack) es
      fun s => ∃ d t, RxRingInv reply stack s d t := by
    refine hfirst.everyState ⟨0, 0, rxRingInv_init⟩ fun s e u h he hu => ?_
    obtain ⟨d, t, h⟩ := h
    exact h.step he hu
  intro pre post s hes hs
  obtain ⟨d, t, h⟩ := hall pre post s hes hs
  exact h.faithful

/-- Two frames, of which the second comes while the driver works on the first. -/
def twoFrames : List E1000RxEvent :=
  [.store [1, 2], .interrupt INT_RXT0, .driver, .driver, .store [3], .driver, .driver, .driver,
    .driver, .driver, .driver, .driver]

/-- Both are parsed, and the driver returns. -/
theorem receiveRing_faithful_twoFrames :
    ∃ z, Run (e1000RxStep fun _ => []) (E1000Rx.init oneListener) twoFrames z
      ∧ z.phase = .idle ∧ z.parsed.map (·.take 2) = [[1, 2], [3, 0]]
      ∧ EveryState (e1000RxStep fun _ => []) (E1000Rx.init oneListener) twoFrames
        (RxFaithful (fun _ => []) oneListener) := by
  have hread : (twoFrames.foldlM (guarded (e1000RxStep fun _ => []) FirstRing)
      (E1000Rx.init oneListener)).map (fun z => (z.phase, z.parsed.map (·.take 2)))
      = some (.idle, [[1, 2], [3, 0]]) := by decide +kernel
  obtain ⟨z, hrun, hz⟩ := exists_run_of_map hread
  obtain ⟨hphase, hparsed⟩ := Prod.mk.inj hz
  obtain ⟨hrun, hfirst⟩ := hrun.of_guarded
  exact ⟨z, hrun, hphase, hparsed, receiveRing_faithful _ oneListener hfirst⟩

end CustomLinuxOs
