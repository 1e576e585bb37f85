import CustomLinuxOs.Networking.UdpListeners

/-!
`udp_recv_join` after `udp_recv_start`, as `udp_recv`, `dns_query` and `dhcp_init` call them.

`udp_recv_start` returns 0 when the port has a listener and -1 when the table is full, and
`udp_recv_join` takes what it gets for the index of an entry.

* `portEntry`, `udpRecvJoin`: the entry at an index, also outside of the table, and a look at it.
* `ReturnsOwnSlot`, `WaitsForOwn`: the index is refused or that of the caller's listener; and the
  wait ends with a datagram for the caller's port in the caller's buffer.
* `Listening.waits`: a listener waits for its datagram.
* `udpRecv_waits_iff`: both hold exactly when the port is free and the table not full, or entry 0
  happens to be such a listener.
-/

namespace CustomLinuxOs

/-! ### The wait -/

/-- `open_ports[i]`; outside of the table lies other memory. -/
def portEntry (outside : ℤ → Datagram) (u : UdpState) (i : ℤ) : Datagram :=
  if 0 ≤ i ∧ i < NUM_PORTS then u.openPorts i.toNat else outside i

/-- A look of the loop of `udp_recv_join`: the source port, or `none` while it waits. -/
def udpRecvJoin (outside : ℤ → Datagram) (u : UdpState) (i : ℤ) : Option UInt16 :=
  let d := portEntry outside u i
  if d.isValid then none else some d.sourcePort

/-- An index that `udp_recv_join` does not take for that of an entry: it returns the same whatever
the table and the memory around it hold. -/
def JoinRefuses (i : ℤ) : Prop := ∃ v, ∀ outside u, udpRecvJoin outside u i = v

/-- Entry `i` is a listener on the port, with the buffer at `data`. -/
structure Listening (u : UdpState) (i : ℕ) (port : UInt16) (data : ℕ) : Prop where
  slot : i < NUM_PORTS
  valid : (u.openPorts i).isValid = true
  port : (u.openPorts i).destPort = port
  data : (u.openPorts i).data = data

/-- `udp_recv_start` returns an index that `udp_recv_join` refuses, or that of a listener on the
port with the buffer. -/
def ReturnsOwnSlot (u : UdpState) (port : UInt16) (data : ℕ) (n : UInt16) : Prop :=
  let r := udpRecvStart u port data n
  JoinRefuses r.1 ∨ ∃ i : ℕ, r.1 = i ∧ Listening r.2 i port data

/-- The datagram is for the port, and goes into the buffer at `data`. -/
def StoredIn (u : UdpState) (port : UInt16) (data : ℕ) (packet : List UInt8) : Prop :=
  udpDestPort packet = port ∧ ∃ i, Listening u i port data
    ∧ Completes i (udpSourcePort packet) (udpPayload packet) u (udpParsePacket u packet)

/-- After `udp_recv_start`, whatever datagrams come and other callers do: when `udp_recv_join` sees
its entry free, a datagram for the port has come and gone into the buffer. -/
def WaitsForOwn (outside : ℤ → Datagram) (u : UdpState) (port : UInt16) (data : ℕ) (n : UInt16) :
    Prop :=
  let r := udpRecvStart u port data n
  ∀ es v sourcePort, Run listenerStep ⟨r.2, none⟩ es v →
    udpRecvJoin outside v.udp r.1 = some sourcePort →
    ∃ pre packet post w, es = pre ++ .datagram packet :: post
      ∧ Run listenerStep ⟨r.2, none⟩ pre w ∧ StoredIn w.udp port data packet

/-- The port is free and so is an entry, or entry 0 is a listener on the port with the buffer. -/
def OwnSlot (u : UdpState) (port : UInt16) (data : ℕ) : Prop :=
  (isOpen u port = true ∧ ∃ i < NUM_PORTS, (u.openPorts i).isValid = false)
    ∨ Listening u 0 port data

/-! ### What is returned -/

/-- No index is refused: the entry is read, wherever it lies. -/
lemma not_joinRefuses (i : ℤ) : ¬ JoinRefuses i := by
  rintro ⟨v, h⟩
  let entry (valid : Bool) : Datagram :=
    { data := 0, sourcePort := 0, destPort := 0, n := 0, isValid := valid }
  have hread : ∀ valid, udpRecvJoin (fun _ => entry valid)
      { openPorts := fun _ => entry valid, memory := fun _ => 0 } i
      = if valid then none else some 0 := by
    intro valid
    simp only [udpRecvJoin, portEntry, ite_self]
    rfl
  have htrue := (hread true).symm.trans (h _ _)
  have hfalse := (hread false).symm.trans (h _ _)
  rw [← hfalse] at htrue
  cases htrue

/-- **`udp_recv_start`**, by its three cases. -/
lemma udpRecvStart_cases (u : UdpState) (port : UInt16) (data : ℕ) (n : UInt16) :
    (isOpen u port = false ∧ udpRecvStart u port data n = (0, u))
      ∨ (isOpen u port = true ∧ (∀ i < NUM_PORTS, (u.openPorts i).isValid = true)
        ∧ udpRecvStart u port data n = (-1, u))
      ∨ ∃ i : ℕ, isOpen u port = true ∧ (u.openPorts i).isValid = false
        ∧ (udpRecvStart u port data n).1 = i
        ∧ Listening (udpRecvStart u port data n).2 i port data := by
  cases hopen : isOpen u port with
  | false => exact .inl ⟨rfl, by rw [udpRecvStart, hopen]; rfl⟩
  | true =>
      have hstart : udpRecvStart u port data n = addListener u port data n := by
        rw [udpRecvStart, hopen]
        rfl
      rw [hstart, addListener]
      cases hfind : (List.range NUM_PORTS).find? fun i => !(u.openPorts i).isValid with
      | none =>
          refine .inr (.inl ⟨rfl, fun i hi => ?_, rfl⟩)
          have htaken := List.find?_eq_none.mp hfind i (List.mem_range.mpr hi)
          simpa using htaken
      | some i =>
          have hslot := List.mem_range.mp (List.mem_of_find?_eq_some hfind)
          have hfree := List.find?_some hfind
          refine .inr (.inr ⟨i, rfl, by simpa using hfree, rfl, hslot, ?_, ?_, ?_⟩)
          · simp only [Function.update_self]
          · simp only [Function.update_self]
          · simp only [Function.update_self]

/-- The index is right exactly when it belongs to a listener of the caller. -/
lemma returnsOwnSlot_iff {u : UdpState} {port : UInt16} {data : ℕ} {n : UInt16} :
    ReturnsOwnSlot u port data n ↔ OwnSlot u port data := by
  have hlistens : ∀ i, Listening u i port data → isOpen u port = false := fun i h =>
    (isOpen_eq_false_iff u port).mpr ⟨i, h.slot, h.valid, h.port⟩
  simp only [ReturnsOwnSlot, not_joinRefuses, false_or]
  rcases udpRecvStart_cases u port data n with ⟨hopen, hstart⟩ | ⟨hopen, hfull, hstart⟩
      | ⟨i, hopen, hfree, hindex, hlisten⟩
  · rw [hstart]
    refine ⟨fun ⟨i, hi, h⟩ => ?_, fun h => ?_⟩
    · obtain rfl : i = 0 := by omega
      exact .inr h
    · rcases h with ⟨hfree, -⟩ | h
      · rw [hopen] at hfree
        cases hfree
      · exact ⟨0, rfl, h⟩
  · rw [hstart]
    refine ⟨fun ⟨i, hi, h⟩ => by omega, fun h => ?_⟩
    rcases h with ⟨-, i, hi, hfree⟩ | h
    · rw [hfull i hi] at hfree
      cases hfree
    · rw [hlistens 0 h] at hopen
      cases hopen
  · exact ⟨fun _ => .inl ⟨hopen, i, hlisten.slot, hfree⟩, fun _ => ⟨i, hindex, hlisten⟩⟩

/-! ### The run after it -/

/-- **A listener waits for its datagram**: over a run it stays as it is, or a datagram for its port
goes into its buffer. -/
lemma Listening.run {t v : ListenerState} {es : List ListenerEvent} {i : ℕ} {port : UInt16}
    {data : ℕ} (hrun : Run listenerStep t es v) (hports : DistinctPorts t.udp)
    (hcall : CallSound t) (h : Listening t.udp i port data) :
    Listening v.udp i port data ∨ ∃ pre packet post w, es = pre ++ .datagram packet :: post
      ∧ Run listenerStep t pre w ∧ StoredIn w.udp port data packet := by
  induction hrun with
  | nil => exact .inl h
  | @snoc es e v w hv hw ih =>
      rcases ih with hlisten | ⟨pre, packet, post, x, hes, hx, hstored⟩
      · have hdistinct : DistinctPorts v.udp :=
          (hv.invariant (P := fun t => DistinctPorts t.udp ∧ CallSound t) ⟨hports, hcall⟩
            fun _ _ _ hs hstep => listenerStep_sound hs.1 hs.2 hstep).1
        by_cases hfor : e.IsFor port
        · cases e with
          | recvStart => exact hfor.elim
          | pass => exact hfor.elim
          | datagram packet =>
              have hheard := udpParsePacket_heard hdistinct hlisten.slot hlisten.valid
                (hlisten.port.trans hfor.symm)
              exact .inr ⟨es, packet, [], v, rfl, hv, hfor, i, hlisten, hheard⟩
        · have hsame := listenerStep_keeps hdistinct hlisten.valid
            (by rw [hlisten.port]; exact hfor) hw
          exact .inl ⟨hlisten.slot, by rw [hsame]; exact hlisten.valid,
            by rw [hsame]; exact hlisten.port, by rw [hsame]; exact hlisten.data⟩
      · exact .inr ⟨pre, packet, post ++ [e], x, by rw [hes]; simp, hx, hstored⟩

/-- `udp_recv_join` waits as long as the listener is there. -/
lemma Listening.join {u : UdpState} {i : ℕ} {port : UInt16} {data : ℕ}
    (h : Listening u i port data) (outside : ℤ → Datagram) : udpRecvJoin outside u i = none := by
  have hentry : portEntry outside u i = u.openPorts i :=
    if_pos ⟨Int.natCast_nonneg i, Int.ofNat_lt.mpr h.slot⟩
  rw [udpRecvJoin, hentry]
  exact if_pos h.valid

/-- **The wait for the own datagram**, when the index is that of the caller's listener. -/
lemma waitsForOwn_of_ownSlot {u : UdpState} (hports : DistinctPorts u) {port : UInt16} {data : ℕ}
    {n : UInt16} (h : OwnSlot u port data) (outside : ℤ → Datagram) :
    WaitsForOwn outside u port data n := by
  intro es v sourcePort hrun hreturn
  obtain hrefused | ⟨i, hindex, hlisten⟩ := (returnsOwnSlot_iff (n := n)).mpr h
  · exact absurd hrefused (not_joinRefuses _)
  · rcases hlisten.run hrun (udpRecvStart_distinctPorts hports port data n)
      (fun c hc => nomatch hc) with hstill | hstored
    · rw [hindex, hstill.join] at hreturn
      cases hreturn
    · exact hstored

/-- **`udp_recv` and its own datagram.**  Take any table that calls of `udp_recv_start` and
datagrams lead to.  For every port, buffer and capacity, the index that `udp_recv_start` returns is
refused by `udp_recv_join` or is that of a listener on the port with the buffer, and
`udp_recv_join` then returns only after a datagram for the port went into the buffer, exactly if
the port and an entry are free, or entry 0 is already such a listener. -/
theorem udpRecv_waits_iff {memory : ℕ → UInt8} {before : List ListenerEvent} {u : UdpState}
    (hreach : Run listenerStep (emptyListeners memory) before ⟨u, none⟩) (outside : ℤ → Datagram)
    (port : UInt16) (data : ℕ) (n : UInt16) :
    (ReturnsOwnSlot u port data n ∧ WaitsForOwn outside u port data n) ↔ OwnSlot u port data := by
  have hports : DistinctPorts u :=
    (hreach.invariant (P := fun t => DistinctPorts t.udp ∧ CallSound t)
      (emptyListeners_sound memory) fun _ _ _ hs h => listenerStep_sound hs.1 hs.2 h).1
  exact ⟨fun h => returnsOwnSlot_iff.mp h.1,
    fun h => ⟨returnsOwnSlot_iff.mpr h, waitsForOwn_of_ownSlot hports h outside⟩⟩

/-- The events of two listeners, on the ports 53 and 68. -/
def twoListeners : List ListenerEvent :=
  .recvStart 53 1000 512 :: List.replicate 130 .pass
    ++ .recvStart 68 2000 576 :: List.replicate 131 .pass

/-- A third listener, on port 80, beside these two. -/
theorem udpRecv_waits_twoListeners :
    ∃ u : UdpState, Run listenerStep (emptyListeners fun _ => 0) twoListeners ⟨u, none⟩
      ∧ isOpen u 53 = false ∧ isOpen u 68 = false ∧ ReturnsOwnSlot u 80 3000 64
      ∧ WaitsForOwn (fun _ => ⟨0, 0, 0, 0, false⟩) u 80 3000 64 := by
  have hread : (twoListeners.foldlM listenerStep (emptyListeners fun _ => 0)).map
      (fun t => (t.call, isOpen t.udp 53, isOpen t.udp 68, isOpen t.udp 80,
        (t.udp.openPorts 5).isValid)) = some (none, false, false, true, false) := by
    decide +kernel
  obtain ⟨⟨u, call⟩, hrun, hfacts⟩ := exists_run_of_map hread
  simp only [Prod.mk.injEq] at hfacts
  obtain ⟨rfl, hdns, hdhcp, hfree, hentry⟩ := hfacts
  have hown : OwnSlot u 80 3000 := .inl ⟨hfree, 5, by decide, hentry⟩
  exact ⟨u, hrun, hdns, hdhcp, (udpRecv_waits_iff hrun _ 80 3000 64).mpr hown⟩

/-- A datagram from port 7 for port 53, with two bytes. -/
def datagram53 : List UInt8 := writeU16 7 ++ writeU16 53 ++ writeU16 10 ++ writeU16 0 ++ [1, 2]

/-- A third caller, on port 68 again, waits for the listener on port 53, and returns with the
datagram of that. -/
theorem not_udpRecv_waits :
    ∃ (before : List ListenerEvent) (u : UdpState),
      Run listenerStep (emptyListeners fun _ => 0) before ⟨u, none⟩
        ∧ ¬ ReturnsOwnSlot u 68 3000 576
        ∧ ∀ outside, ¬ WaitsForOwn outside u 68 3000 576 := by
  have hread : (twoListeners.foldlM listenerStep (emptyListeners fun _ => 0)).map
      (fun t => (t.call, (t.udp.openPorts 0).destPort, isOpen t.udp 68,
        ((udpParsePacket t.udp datagram53).openPorts 0).isValid))
      = some (none, 53, false, false) := by
    decide +kernel
  obtain ⟨⟨u, call⟩, hrun, hfacts⟩ := exists_run_of_map hread
  obtain ⟨rfl, hport, hopen, hcompleted⟩ : _ ∧ _ ∧ _ ∧ _ := by
    simpa only [Prod.mk.injEq] using hfacts
  have hstart : udpRecvStart u 68 3000 576 = (0, u) := by
    rw [udpRecvStart, hopen]
    rfl
  refine ⟨twoListeners, u, hrun, fun h => ?_, fun outside h => ?_⟩
  · rcases returnsOwnSlot_iff.mp h with ⟨hfree, -⟩ | hlisten
    · rw [hopen] at hfree
      cases hfree
    · have hown := hlisten.port
      rw [hport] at hown
      cases hown
  · rw [WaitsForOwn, hstart] at h
    obtain ⟨pre, packet, post, w, hes, -, hfor, -⟩ := h [.datagram datagram53]
      ⟨udpParsePacket u datagram53, none⟩ ((udpParsePacket u datagram53).openPorts 0).sourcePort
      (run_cons_iff.mpr ⟨_, rfl, Run.nil⟩) (if_neg (by
        rw [show portEntry outside (udpParsePacket u datagram53) 0
          = (udpParsePacket u datagram53).openPorts 0 from rfl, hcompleted]
        exact Bool.false_ne_true))
    have hmem : ListenerEvent.datagram packet ∈ [ListenerEvent.datagram datagram53] := by
      rw [hes]
      simp
    obtain rfl := ListenerEvent.datagram.inj (List.mem_singleton.mp hmem)
    exact absurd hfor (by decide)

end CustomLinuxOs
