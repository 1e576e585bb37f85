import CustomLinuxOs.Foundations.Run
import CustomLinuxOs.Networking.UdpRoundTrip

/-!
The table of UDP listeners while calls of `udp_recv_start` and datagrams come in any order.

A call runs in a task and a datagram in an interrupt, so a datagram may come between any two
passes of the two loops a call consists of.

* `RecvCall`, `recvPass`: a call of `udp_recv_start`, one pass of a loop at a time;
  `recvCall_run` says that a call no datagram interrupts computes `udpRecvStart`.
* `udpParsePacket_handles`: what a datagram does to the table.
* `CallSound`: the invariant of a call, which makes its new listener the only one on the port.
* `udpListeners_run`: ports stay distinct, and an accepted listener stays in its slot until the
  first datagram for its port, which completes it.
-/

namespace CustomLinuxOs

/-! ### Calls, pass by pass -/

/-- Where a call stands: in the loop of `is_open` or in that of `add_listener`. -/
inductive RecvPhase where
  | isOpen (i : ℕ)
  | addListener (i : ℕ)
  deriving DecidableEq, Repr

/-- A call of `udp_recv_start` that runs. -/
structure RecvCall where
  port : UInt16
  data : ℕ
  n : UInt16
  phase : RecvPhase
  deriving DecidableEq, Repr

/-- The table, and the call that runs, if any. -/
structure ListenerState where
  udp : UdpState
  call : Option RecvCall

/-- `add_listener` fills a free entry in; the source port stays what it was. -/
def enterListener (u : UdpState) (i : ℕ) (c : RecvCall) : UdpState :=
  { u with
    openPorts := Function.update u.openPorts i
      { u.openPorts i with data := c.data, destPort := c.port, n := c.n, isValid := true } }

/-- One pass of the loop a call is in.  A call that ends leaves no call. -/
def recvPass (u : UdpState) (c : RecvCall) : ListenerState :=
  match c.phase with
  | .isOpen i =>
      if i = NUM_PORTS then ⟨u, some { c with phase := .addListener 0 }⟩
      else if (u.openPorts i).isValid && (u.openPorts i).destPort == c.port then ⟨u, none⟩
      else ⟨u, some { c with phase := .isOpen (i + 1) }⟩
  | .addListener i =>
      if i = NUM_PORTS then ⟨u, none⟩
      else if !(u.openPorts i).isValid then ⟨enterListener u i c, none⟩
      else ⟨u, some { c with phase := .addListener (i + 1) }⟩

/-- What happens to the table. -/
inductive ListenerEvent where
  | recvStart (port : UInt16) (data : ℕ) (n : UInt16)
  | pass
  | datagram (packet : List UInt8)

/-- One event.  A call begins when no other runs. -/
def listenerStep (t : ListenerState) : ListenerEvent → Option ListenerState
  | .recvStart port data n =>
      match t.call with
      | none => some { t with
          call := some { port := port, data := data, n := n, phase := .isOpen 0 } }
      | some _ => none
  | .pass => t.call.map (recvPass t.udp)
  | .datagram packet => some { t with udp := udpParsePacket t.udp packet }

/-- The table at power-on, which has no valid entry. -/
def emptyListeners (memory : ℕ → UInt8) : ListenerState where
  udp :=
    { openPorts := fun _ => { data := 0, sourcePort := 0, destPort := 0, n := 0, isValid := false }
      memory := memory }
  call := none

/-! ### A call that is not interrupted -/

/-- A search that has passed over the first entries. -/
lemma find?_range_of_skipped {p : ℕ → Bool} {n i : ℕ} (hskip : ∀ j < i, p j = false) (hi : i < n)
    (hp : p i = true) : (List.range n).find? p = some i := by
  rw [List.find?_range_eq_some]
  exact ⟨hp, List.mem_range.mpr hi, fun j hj => by simp [hskip j hj]⟩

/-- The passes of `add_listener` from entry `i` on, when the entries before it are taken. -/
lemma addListener_run (u : UdpState) (c : RecvCall) {i k : ℕ} (hk : i + k = NUM_PORTS)
    (htaken : ∀ j < i, (u.openPorts j).isValid = true) :
    ∃ m, Run listenerStep ⟨u, some { c with phase := .addListener i }⟩ (List.replicate m .pass)
      ⟨(addListener u c.port c.data c.n).2, none⟩ := by
  induction k generalizing i with
  | zero =>
      obtain rfl : i = NUM_PORTS := hk
      have hnone : (List.range NUM_PORTS).find? (fun j => !(u.openPorts j).isValid) = none := by
        rw [List.find?_eq_none]
        intro j hj
        simp [htaken j (List.mem_range.mp hj)]
      refine ⟨1, run_cons_iff.mpr ⟨_, ?_, Run.nil⟩⟩
      simp only [listenerStep, Option.map_some, recvPass, if_true, addListener, hnone]
  | succ k ih =>
      have hne : ¬ i = NUM_PORTS := by omega
      cases hvalid : (u.openPorts i).isValid with
      | false =>
          have hfind := find?_range_of_skipped (p := fun j => !(u.openPorts j).isValid)
            (fun j hj => by simp [htaken j hj]) (by omega : i < NUM_PORTS) (by simp [hvalid])
          refine ⟨1, run_cons_iff.mpr ⟨_, ?_, Run.nil⟩⟩
          simp only [listenerStep, Option.map_some, recvPass, if_neg hne, hvalid, Bool.not_false,
            if_true, addListener, hfind, enterListener]
      | true =>
          obtain ⟨m, hm⟩ := ih (i := i + 1) (by omega) fun j hj => by
            rcases Nat.lt_succ_iff_lt_or_eq.mp hj with hj | rfl
            · exact htaken j hj
            · exact hvalid
          refine ⟨m + 1, run_cons_iff.mpr ⟨_, ?_, hm⟩⟩
          simp [listenerStep, recvPass, hne, hvalid]

/-- The passes of `is_open` from entry `i` on, when no entry before it is on the port, and of
`add_listener` after it. -/
lemma isOpen_run (u : UdpState) (c : RecvCall) {i k : ℕ} (hk : i + k = NUM_PORTS)
    (hnone : ∀ j < i, ((u.openPorts j).isValid && (u.openPorts j).destPort == c.port) = false) :
    ∃ m, Run listenerStep ⟨u, some { c with phase := .isOpen i }⟩ (List.replicate m .pass)
      ⟨(udpRecvStart u c.port c.data c.n).2, none⟩ := by
  induction k generalizing i with
  | zero =>
      obtain rfl : i = NUM_PORTS := hk
      have hopen : isOpen u c.port = true := by
        rw [isOpen, Bool.not_eq_true', List.any_eq_false]
        intro j hj
        simp only [hnone j (List.mem_range.mp hj), Bool.false_eq_true, not_false_eq_true]
      obtain ⟨m, hm⟩ := addListener_run u c (Nat.zero_add NUM_PORTS) fun j hj =>
        absurd hj (Nat.not_lt_zero j)
      refine ⟨m + 1, run_cons_iff.mpr ⟨⟨u, some { c with phase := .addListener 0 }⟩, ?_, ?_⟩⟩
      · simp only [listenerStep, Option.map_some, recvPass, if_true]
      · rw [udpRecvStart, hopen]
        exact hm
  | succ k ih =>
      have hne : ¬ i = NUM_PORTS := by omega
      cases hmatch : (u.openPorts i).isValid && (u.openPorts i).destPort == c.port with
      | true =>
          have hopen : isOpen u c.port = false := by
            rw [isOpen, Bool.not_eq_false', List.any_eq_true]
            exact ⟨i, List.mem_range.mpr (by omega), hmatch⟩
          refine ⟨1, run_cons_iff.mpr ⟨_, ?_, Run.nil⟩⟩
          simp only [listenerStep, Option.map_some, recvPass, if_neg hne, hmatch, if_true,
            udpRecvStart, hopen, Bool.not_false]
      | false =>
          obtain ⟨m, hm⟩ := ih (i := i + 1) (by omega) fun j hj => by
            rcases Nat.lt_succ_iff_lt_or_eq.mp hj with hj | rfl
            · exact hnone j hj
            · exact hmatch
          refine ⟨m + 1, run_cons_iff.mpr ⟨_, ?_, hm⟩⟩
          simp only [listenerStep, Option.map_some, recvPass, if_neg hne, hmatch,
            Bool.false_eq_true, if_false]

/-- **A call that is not interrupted** leaves the table as `udpRecvStart` says. -/
theorem recvCall_run (u : UdpState) (port : UInt16) (data : ℕ) (n : UInt16) :
    ∃ m, Run listenerStep ⟨u, none⟩ (.recvStart port data n :: List.replicate m .pass)
      ⟨(udpRecvStart u port data n).2, none⟩ := by
  obtain ⟨m, hm⟩ := isOpen_run u ⟨port, data, n, .isOpen 0⟩ (Nat.zero_add NUM_PORTS)
    fun j hj => absurd hj (Nat.not_lt_zero j)
  exact ⟨m, run_cons_iff.mpr ⟨_, rfl, hm⟩⟩

/-! ### The invariant of a call -/

/-- How many entries `is_open` has passed over. -/
def RecvPhase.passed : RecvPhase → ℕ
  | .isOpen i => i
  | .addListener _ => NUM_PORTS

/-- What a call knows of the table: none of the entries `is_open` has passed over is valid on its
port. -/
def CallSound (t : ListenerState) : Prop :=
  ∀ c, t.call = some c → ∀ j < NUM_PORTS, j < c.phase.passed →
    (t.udp.openPorts j).isValid = true → (t.udp.openPorts j).destPort ≠ c.port

/-- No entry becomes valid through a datagram, and none that stays valid changes. -/
lemma udpParsePacket_valid {u : UdpState} (hports : DistinctPorts u) (packet : List UInt8) {j : ℕ}
    (hvalid : ((udpParsePacket u packet).openPorts j).isValid = true) :
    (udpParsePacket u packet).openPorts j = u.openPorts j := by
  by_cases hheard : ∃ i < NUM_PORTS, (u.openPorts i).isValid = true
      ∧ (u.openPorts i).destPort = udpDestPort packet
  · obtain ⟨i, hi, hvi, hport⟩ := hheard
    have hcomplete := udpParsePacket_heard hports hi hvi hport
    rcases eq_or_ne j i with rfl | hj
    · rw [hcomplete.entry] at hvalid
      cases hvalid
    · exact hcomplete.others j hj
  · push Not at hheard
    rw [udpParsePacket_unheard hheard]

/-- A new listener on a port without one leaves the ports distinct. -/
lemma enterListener_distinctPorts {u : UdpState} (h : DistinctPorts u) {c : RecvCall}
    (hfree : ∀ j < NUM_PORTS, (u.openPorts j).isValid = true → (u.openPorts j).destPort ≠ c.port)
    (k : ℕ) : DistinctPorts (enterListener u k c) :=
  h.update (fun _ => hfree) rfl

/-- All a pass can do: a listener is entered, the call moves on, or it ends. -/
lemma recvPass_cases (u : UdpState) (c : RecvCall) :
    (∃ i, c.phase = .addListener i ∧ (u.openPorts i).isValid = false
      ∧ recvPass u c = ⟨enterListener u i c, none⟩)
    ∨ (∃ i, c.phase = .addListener i
      ∧ recvPass u c = ⟨u, some { c with phase := .addListener (i + 1) }⟩)
    ∨ (∃ i, c.phase = .isOpen i
      ∧ ((u.openPorts i).isValid && (u.openPorts i).destPort == c.port) = false
      ∧ recvPass u c = ⟨u, some { c with phase := .isOpen (i + 1) }⟩)
    ∨ (c.phase = .isOpen NUM_PORTS
      ∧ recvPass u c = ⟨u, some { c with phase := .addListener 0 }⟩)
    ∨ recvPass u c = ⟨u, none⟩ := by
  rw [recvPass]
  cases hphase : c.phase with
  | isOpen i =>
      simp only
      split_ifs with hi hmatch
      · exact .inr (.inr (.inr (.inl ⟨by rw [hi], rfl⟩)))
      · exact .inr (.inr (.inr (.inr rfl)))
      · exact .inr (.inr (.inl ⟨i, rfl, by simpa using hmatch, rfl⟩))
  | addListener i =>
      simp only
      split_ifs with hi hvalid
      · exact .inr (.inr (.inr (.inr rfl)))
      · exact .inl ⟨i, rfl, by simpa using hvalid, rfl⟩
      · exact .inr (.inl ⟨i, rfl, rfl⟩)

/-- **One event** keeps the ports distinct and what a call knows true. -/
lemma listenerStep_sound {t v : ListenerState} {e : ListenerEvent}
    (hports : DistinctPorts t.udp) (hcall : CallSound t) (h : listenerStep t e = some v) :
    DistinctPorts v.udp ∧ CallSound v := by
  obtain ⟨u, call⟩ := t
  cases e with
  | recvStart port data n =>
      cases call with
      | some c => cases h
      | none =>
          cases h
          refine ⟨hports, fun c hc j _ hj => ?_⟩
          cases hc
          exact absurd hj (Nat.not_lt_zero j)
  | pass =>
      cases call with
      | none => cases h
      | some c =>
          obtain rfl : recvPass u c = v := Option.some.inj h
          have hknown := hcall c rfl
          rcases recvPass_cases u c with ⟨i, hphase, _, hpass⟩ | ⟨i, hphase, hpass⟩
              | ⟨i, hphase, hmatch, hpass⟩ | ⟨hphase, hpass⟩ | hpass <;> rw [hpass]
          · rw [hphase] at hknown
            exact ⟨enterListener_distinctPorts hports (fun j hj => hknown j hj hj) i,
              fun c hc => nomatch hc⟩
          · rw [hphase] at hknown
            refine ⟨hports, fun c' hc => ?_⟩
            cases hc
            exact hknown
          · rw [hphase] at hknown
            refine ⟨hports, fun c' hc j hj hlt hvalid => ?_⟩
            cases hc
            rcases Nat.lt_succ_iff_lt_or_eq.mp hlt with hlt | rfl
            · exact hknown j hj hlt hvalid
            · rw [hvalid, Bool.true_and, beq_eq_false_iff_ne] at hmatch
              exact hmatch
          · rw [hphase] at hknown
            refine ⟨hports, fun c' hc => ?_⟩
            cases hc
            exact hknown
          · exact ⟨hports, fun c hc => nomatch hc⟩
  | datagram packet =>
      obtain rfl : (⟨udpParsePacket u packet, call⟩ : ListenerState) = v := Option.some.inj h
      refine ⟨udpParsePacket_distinctPorts hports packet, fun c hc j hj hlt hvalid => ?_⟩
      have hsame := udpParsePacket_valid hports packet hvalid
      rw [hsame] at hvalid ⊢
      exact hcall c hc j hj hlt hvalid

/-! ### Waiting listeners -/

/-- The event is a datagram for the port. -/
def ListenerEvent.IsFor (port : UInt16) : ListenerEvent → Prop
  | .datagram packet => udpDestPort packet = port
  | _ => False

/-- **A listener waits**: an event that is no datagram for its port leaves it as it is. -/
lemma listenerStep_keeps {t v : ListenerState} {e : ListenerEvent} (hports : DistinctPorts t.udp)
    {i : ℕ} (hvalid : (t.udp.openPorts i).isValid = true)
    (hfor : ¬ e.IsFor (t.udp.openPorts i).destPort) (h : listenerStep t e = some v) :
    v.udp.openPorts i = t.udp.openPorts i := by
  obtain ⟨u, call⟩ := t
  cases e with
  | recvStart port data n =>
      cases call with
      | some c => cases h
      | none => cases h; rfl
  | pass =>
      cases call with
      | none => cases h
      | some c =>
          obtain rfl : recvPass u c = v := Option.some.inj h
          rcases recvPass_cases u c with ⟨k, _, hk, hpass⟩ | ⟨_, _, hpass⟩ | ⟨_, _, _, hpass⟩
              | ⟨_, hpass⟩ | hpass <;> rw [hpass]
          have hne : i ≠ k := by
            rintro rfl
            rw [hvalid] at hk
            cases hk
          exact Function.update_of_ne hne _ _
  | datagram packet =>
      obtain rfl : (⟨udpParsePacket u packet, call⟩ : ListenerState) = v := Option.some.inj h
      by_cases hheard : ∃ k < NUM_PORTS, (u.openPorts k).isValid = true
          ∧ (u.openPorts k).destPort = udpDestPort packet
      · obtain ⟨k, hk, hvk, hport⟩ := hheard
        have hne : i ≠ k := by
          rintro rfl
          exact hfor hport.symm
        exact (udpParsePacket_heard hports hk hvk hport).others i hne
      · push Not at hheard
        exact congrArg (fun u : UdpState => u.openPorts i) (udpParsePacket_unheard hheard)

/-- The next pass enters the listener of the call `c` in the entry `i`. -/
structure Registers (t : ListenerState) (i : ℕ) (c : RecvCall) : Prop where
  call : t.call = some c
  phase : c.phase = .addListener i
  slot : i < NUM_PORTS
  free : (t.udp.openPorts i).isValid = false

lemma Registers.step {t : ListenerState} {i : ℕ} {c : RecvCall} (h : Registers t i c) :
    listenerStep t .pass = some ⟨enterListener t.udp i c, none⟩ := by
  have hslot := h.slot
  simp only [listenerStep, h.call, Option.map_some, recvPass, h.phase, h.free, Bool.not_false,
    if_true, if_neg (show ¬ i = NUM_PORTS by omega)]

/-- What a datagram should do: the listener on its port completes and no other entry changes;
without one nothing changes. -/
def HandlesDatagram (u : UdpState) (packet : List UInt8) : Prop :=
  (∀ i < NUM_PORTS, (u.openPorts i).isValid = true → (u.openPorts i).destPort = udpDestPort packet →
      Completes i (udpSourcePort packet) (udpPayload packet) u (udpParsePacket u packet))
    ∧ ((∀ i < NUM_PORTS, (u.openPorts i).isValid = true →
      (u.openPorts i).destPort ≠ udpDestPort packet) → udpParsePacket u packet = u)

lemma DistinctPorts.handlesDatagram {u : UdpState} (h : DistinctPorts u) (packet : List UInt8) :
    HandlesDatagram u packet :=
  ⟨fun _ hi hvalid hport => udpParsePacket_heard h hi hvalid hport, udpParsePacket_unheard⟩

lemma emptyListeners_sound (memory : ℕ → UInt8) :
    DistinctPorts (emptyListeners memory).udp ∧ CallSound (emptyListeners memory) := by
  refine ⟨fun i _ j _ hi => ?_, fun c hc => ?_⟩
  · cases hi
  · cases hc

/-- Over a run without a datagram for its port a listener stays. -/
lemma run_keeps {t v : ListenerState} {es : List ListenerEvent} (hrun : Run listenerStep t es v)
    (hports : DistinctPorts t.udp) (hcall : CallSound t) {i : ℕ}
    (hvalid : (t.udp.openPorts i).isValid = true)
    (hfor : ∀ e ∈ es, ¬ e.IsFor (t.udp.openPorts i).destPort) :
    v.udp.openPorts i = t.udp.openPorts i ∧ DistinctPorts v.udp ∧ CallSound v := by
  induction hrun with
  | nil => exact ⟨rfl, hports, hcall⟩
  | @snoc es e v w _ hw ih =>
      obtain ⟨hsame, hdistinct, hsound⟩ := ih fun f hf => hfor f (by simp [hf])
      have hkeep := listenerStep_keeps hdistinct (by rw [hsame]; exact hvalid)
        (by rw [hsame]; exact hfor e (by simp)) hw
      exact ⟨hkeep.trans hsame, listenerStep_sound hdistinct hsound hw⟩

/-- **The table of listeners.**  Let calls of `udp_recv_start` and datagrams come in any order
from the empty table, datagrams also between the passes of a call.  In every state at most one
listener waits on a port, and a datagram completes the one on its port and touches no other
entry.  A listener that is entered stays in its slot, which no call can take, until the first
datagram for its port, and that datagram completes it. -/
theorem udpListeners_run (memory : ℕ → UInt8) (es : List ListenerEvent) :
    (EveryState listenerStep (emptyListeners memory) es fun t =>
        DistinctPorts t.udp ∧ ∀ packet, HandlesDatagram t.udp packet)
      ∧ ∀ pre mid post t v i c, es = pre ++ .pass :: mid ++ post →
        Run listenerStep (emptyListeners memory) pre t → Registers t i c →
        Run listenerStep t (.pass :: mid) v → (∀ e ∈ mid, ¬ e.IsFor c.port) →
          v.udp.openPorts i = {
            data := c.data, sourcePort := (t.udp.openPorts i).sourcePort, destPort := c.port,
            n := c.n, isValid := true }
          ∧ (∀ c', ¬ Registers v i c')
          ∧ ∀ packet, udpDestPort packet = c.port →
            Completes i (udpSourcePort packet) (udpPayload packet) v.udp
              (udpParsePacket v.udp packet) := by
  have sound {pre t} (ht : Run listenerStep (emptyListeners memory) pre t) :
      DistinctPorts t.udp ∧ CallSound t :=
    ht.invariant (emptyListeners_sound memory) fun _ _ _ hs h => listenerStep_sound hs.1 hs.2 h
  refine ⟨fun pre post t _ ht => ?_, fun pre mid post t v i c _ ht hreg hrun hfor => ?_⟩
  · exact ⟨(sound ht).1, (sound ht).1.handlesDatagram⟩
  · obtain ⟨w, hw, hmid⟩ := run_cons_iff.mp hrun
    obtain ⟨hports, hcall⟩ := sound (ht.snoc hw)
    rw [hreg.step] at hw
    cases hw
    have hentry : (enterListener t.udp i c).openPorts i = {
        data := c.data, sourcePort := (t.udp.openPorts i).sourcePort, destPort := c.port,
        n := c.n, isValid := true } := Function.update_self _ _ _
    obtain ⟨hsame, hdistinct, -⟩ := run_keeps hmid hports hcall (i := i) (by rw [hentry])
      (by rw [hentry]; exact hfor)
    have hv := hsame.trans hentry
    refine ⟨hv, fun c' hc' => ?_, fun packet hport => ?_⟩
    · have hfree := hc'.free
      rw [hv] at hfree
      cases hfree
    · exact udpParsePacket_heard hdistinct hreg.slot (by rw [hv]) (by rw [hv, hport])

end CustomLinuxOs
