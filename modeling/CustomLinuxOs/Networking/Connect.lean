import CustomLinuxOs.Foundations.KeyTable
import CustomLinuxOs.Networking.Resolve
import CustomLinuxOs.Networking.SegmentRoundTrip

/-!
`tcp_connect` of `tcp.c`, with what arrives while it waits.

A call waits twice: in `dns_query` for the answer, and for the handshake.  What happens in these
waits is the environment's choice and stands in `ConnectEnv`.

* `NetEvent`, `netRun`: segments, timers that send an acknowledgement, and ticks.
* `tcpSourcePort`: the search for a port; `tcpSourcePort_free` says that it ends with one.
* `tcpConnect`: `none` where the call still waits; its result keeps the events that passed.
* `SameAt`, `netStep_sameAt`: what an event does to a connection depends on this and the clock.
-/

namespace CustomLinuxOs

/-! ### What arrives -/

/-- What happens to the network state from outside of a call. -/
inductive NetEvent where
  | segment (packet : List UInt8) (len : UInt32)
  | ack (idx : ℕ)
  | tick

section Events

variable (reply : Ip → List (Mac × Ip))

/-- One event. -/
def netStep (s : Net) : NetEvent → Net
  | .segment packet len => tcpParsePacket reply s packet len
  | .ack idx => tcpAck reply s idx
  | .tick => { s with counter := s.counter + 1 }

/-- Events in order. -/
def netRun (s : Net) (events : List NetEvent) : Net := events.foldl (netStep reply) s

end Events

/-! ### The call -/

/-- The search for a source port: `port` is passed over while a valid connection has it.  The
first argument bounds the passes. -/
def tcpSourcePortFrom : ℕ → Net → UInt16 → UInt16
  | 0, _, port => port
  | n + 1, s, port =>
      if (List.range NUM_CONNECTIONS).any fun i =>
          (s.connections i).isValid && (s.connections i).sourcePort == port then
        tcpSourcePortFrom n s (port + 1)
      else port

/-- The source port `tcp_connect` takes. -/
def tcpSourcePort (s : Net) : UInt16 := tcpSourcePortFrom (NUM_CONNECTIONS + 1) s 0x8000

/-- The slot `tcp_connect` takes. -/
def tcpFreeSlot (s : Net) : Option ℕ :=
  (List.range NUM_CONNECTIONS).find? fun i => !(s.connections i).isValid

/-- The network state with the two variables of the resolver. -/
structure Host where
  net : Net
  dnsIp : Ip
  xidBase : UInt16

/-- What the environment does during a call: before the connection is set up, the answer in the
buffer of `dns_query` at its end, and from the SYN on. -/
structure ConnectEnv where
  resolving : List NetEvent
  answer : List UInt8
  handshake : List NetEvent

/-- What a call that has returned leaves: its value, with `none` for `-1`, the state, and the
events that have passed. -/
structure ConnectResult where
  value : Option ℕ
  host : Host
  events : List NetEvent

section Connect

variable (reply : Ip → List (Mac × Ip))

/-- The variables of a new connection, from `connection->rx_readable = 0` on. -/
def tcpReset (conn : Connection) : Connection :=
  { conn with
    rxReadable := 0, rxRead := 0, txAckd := 0, txSendable := 0, waitTime := 10, mss := 1460,
    windowScale := 0, isOpen := false, isClosed := false, wait := 0 }

/-- `tcp_connect` from the reset on: the SYN, and the wait for the handshake. -/
def tcpHandshake (s : Net) (i : ℕ) (events : List NetEvent) : Option (Option ℕ × Net) :=
  let s := s.setConnection i (tcpReset (s.connections i))
  let s := netRun reply (tcpWrite reply s i TCP_SYN 0).2 events
  let conn := s.connections i
  if conn.isValid && !conn.isOpen then none
  else some (if conn.isValid then some i else none, s)

/-- The first part of `dns_query`: the question is sent. -/
def dnsQuery (h : Host) (name : List UInt8) : Host :=
  let xid := h.xidBase
  let message := dnsRequest name xid
  { h with
    net := (udpSendPacket reply h.net h.dnsIp DNS_PORT (PORT_OFFSET + xid) message
      message.length.toUInt16).2
    xidBase := xid + 1 }

/-- Writing the address of a connection through the pointer to it. -/
def setDestIp (s : Net) (i : ℕ) (ip : Ip) : Net :=
  s.setConnection i { s.connections i with destIp := ip }

/-- `tcp_connect`. -/
def tcpConnect (h : Host) (domain : List UInt8) (port : UInt16) (env : ConnectEnv) :
    Option ConnectResult :=
  let sourcePort := tcpSourcePort h.net
  match tcpFreeSlot h.net with
  | none => some { value := none, host := h, events := [] }
  | some i =>
      let conn := { h.net.connections i with
        isValid := true, destPort := port, sourcePort := sourcePort }
      let parsed := parseIp domain conn.destIp
      let s := h.net.setConnection i { conn with destIp := parsed.2 }
      let finish (h : Host) := (tcpHandshake reply h.net i env.handshake).map fun r =>
        { value := r.1, host := { h with net := r.2 }, events := env.resolving ++ env.handshake }
      if parsed.1 then
        let s := netRun reply s env.resolving
        finish { h with net := s }
      else
        let asked := dnsQuery reply { h with net := s } domain
        let s := netRun reply asked.net env.resolving
        match dnsParse env.answer h.xidBase with
        | none => some { value := none, host := { asked with net := s }, events := env.resolving }
        | some ip => finish { asked with net := setDestIp s i ip }

end Connect

/-! ### The source port -/

/-- A connection is in use, as the tests of `tcp_connect` and `tcp_parse_packet` see it. -/
def Net.isValid (s : Net) (i : ℕ) : Bool := (s.connections i).isValid

/-- The port of a connection. -/
def Net.sourcePort (s : Net) (i : ℕ) : UInt16 := (s.connections i).sourcePort

/-- The search ends with a port that no valid connection has, or all ports it has tried are
taken. -/
lemma tcpSourcePortFrom_cases (n : ℕ) (s : Net) (port : UInt16) :
    FreeBefore s.isValid s.sourcePort (tcpSourcePortFrom n s port) NUM_CONNECTIONS
      ∨ PassedOver NUM_CONNECTIONS s.sourcePort (fun k => port + k.toUInt16) n := by
  induction n generalizing port with
  | zero => exact .inr (passedOver_zero _ _ _)
  | succ n ih =>
      rw [tcpSourcePortFrom]
      split
      · rename_i hany
        obtain ⟨i, hi, hused⟩ := List.any_eq_true.mp hany
        rw [Bool.and_eq_true, beq_iff_eq] at hused
        refine (ih (port + 1)).imp_right fun hall k hk => ?_
        cases k with
        | zero => exact ⟨i, List.mem_range.mp hi, by rw [Net.sourcePort, hused.2]; simp⟩
        | succ k =>
            obtain ⟨j, hj, hport⟩ := hall k (by omega)
            refine ⟨j, hj, ?_⟩
            change s.sourcePort j = port + 1 + k.toUInt16 at hport
            rw [hport, UInt16.add_assoc, UInt16.add_comm 1]
            simp
      · rename_i hany
        refine .inl fun i hi hvalid heq => hany ?_
        rw [Net.isValid] at hvalid
        rw [Net.sourcePort] at heq
        rw [List.any_eq_true]
        exact ⟨i, List.mem_range.mpr hi, by simp [hvalid, heq]⟩

/-- The ports that the search can try are different numbers. -/
lemma sourcePort_injOn :
    Set.InjOn (fun k : ℕ => (0x8000 : UInt16) + k.toUInt16) (Set.Iio (NUM_CONNECTIONS + 1)) := by
  have hsmall {m : ℕ} (hm : m < NUM_CONNECTIONS + 1) :
      ((0x8000 : UInt16) + m.toUInt16).toNat = 0x8000 + m := by
    have h8 : NUM_CONNECTIONS = 8 := rfl
    rw [UInt16.toNat_add, Nat.toUInt16_eq, UInt16.toNat_ofNat']
    simp
    omega
  intro k hk l hl hports
  have hnat := congrArg UInt16.toNat hports
  rw [hsmall hk, hsmall hl] at hnat
  omega

/-- **The port of a new connection** is on no valid connection: nine ports are tried, and there are
eight connections. -/
theorem tcpSourcePort_free (s : Net) :
    FreeBefore s.isValid s.sourcePort (tcpSourcePort s) NUM_CONNECTIONS := by
  rcases tcpSourcePortFrom_cases (NUM_CONNECTIONS + 1) s 0x8000 with hfree | hall
  · exact hfree
  · have := hall.le sourcePort_injOn
    omega

/-! ### The clock -/

@[simp] lemma arpAddCache_counter (s : Net) (mac : Mac) (ip : Ip) :
    (arpAddCache s mac ip).counter = s.counter := by
  rw [arpAddCache]
  split <;> rfl

@[simp] lemma arpGet_counter (reply : Ip → List (Mac × Ip)) (s : Net) (ip : Ip) :
    (arpGet reply s ip).2.counter = s.counter := by
  have hpackets : ∀ (packets : List (Mac × Ip)) (t : Net),
      (packets.foldl (fun s p => arpAddCache s p.1 p.2) t).counter = t.counter := by
    intro packets
    induction packets with
    | nil => intro t; rfl
    | cons p packets ih => intro t; rw [List.foldl_cons, ih, arpAddCache_counter]
  rw [arpGet]
  split
  · rfl
  · rw [hpackets]
    rfl

@[simp] lemma ipWritePacket_counter (reply : Ip → List (Mac × Ip)) (s : Net) (dest : Ip)
    (protocol : UInt8) (payload : List UInt8) :
    (ipWritePacket reply s dest protocol payload).2.counter = s.counter := by
  obtain ⟨_, h⟩ := ipWritePacket_eq reply s dest protocol payload
  rw [h, arpGet_counter]

@[simp] lemma tcpWrite_counter (reply : Ip → List (Mac × Ip)) (s : Net) (idx : ℕ)
    (flags len : UInt32) : (tcpWrite reply s idx flags len).2.counter = s.counter := by
  rw [tcpWrite]
  split <;> exact ipWritePacket_counter reply s _ _ _

/-- A datagram that is sent touches neither connections nor the clock. -/
lemma udpSendPacket_rest (reply : Ip → List (Mac × Ip)) (s : Net) (dest : Ip)
    (destPort sourcePort : UInt16) (data : List UInt8) (len : UInt16) :
    (udpSendPacket reply s dest destPort sourcePort data len).2.connections = s.connections
      ∧ (udpSendPacket reply s dest destPort sourcePort data len).2.counter = s.counter := by
  rw [udpSendPacket]
  split <;> exact ⟨ipWritePacket_connections reply s _ _ _, ipWritePacket_counter reply s _ _ _⟩

@[simp] lemma tcpDelayAck_counter (s : Net) (i : ℕ) : (tcpDelayAck s i).counter = s.counter := by
  rw [tcpDelayAck]
  split <;> rfl

lemma tcpHandleFlags_counter (s : Net) (i : ℕ) (h : TcpHeader) :
    (tcpHandleFlags s i h).counter = s.counter :=
  tcpHandleFlags_keeps (P := fun t => t.counter = s.counter) h rfl (fun _ _ ht => ht)
    (fun t ht => (tcpDelayAck_counter t i).trans ht)

lemma tcpPayload_counter (reply : Ip → List (Mac × Ip)) (s : Net) (i : ℕ) (h : TcpHeader)
    (packet : List UInt8) (len : UInt32) :
    (tcpPayload reply s i h packet len).counter = s.counter := by
  simp only [tcpPayload, tcpPush, tcpData, tcpSetWindow]
  split_ifs <;> simp only [tcpWrite_counter, tcpDelayAck_counter, Net.setConnection]

@[simp] lemma tcpInput_counter (reply : Ip → List (Mac × Ip)) (s : Net) (i : ℕ) (h : TcpHeader)
    (packet : List UInt8) (len : UInt32) :
    (tcpInput reply s i h packet len).counter = s.counter := by
  simp only [tcpInput]
  split_ifs <;> simp only [tcpPayload_counter, Net.setConnection, tcpHandleFlags_counter]

@[simp] lemma tcpAck_counter (reply : Ip → List (Mac × Ip)) (s : Net) (i : ℕ) :
    (tcpAck reply s i).counter = s.counter := by
  simp only [tcpAck]
  split
  · exact tcpWrite_counter reply _ _ _ _
  · rfl

/-! ### One connection in two states -/

/-- The connection `i` and the clock are the same in both states. -/
structure SameAt (i : ℕ) (s t : Net) : Prop where
  counter : s.counter = t.counter
  conn : s.connections i = t.connections i

namespace SameAt

variable {reply : Ip → List (Mac × Ip)} {i : ℕ} {s t : Net}

lemma setConnection (h : SameAt i s t) (conn : Connection) :
    SameAt i (s.setConnection i conn) (t.setConnection i conn) :=
  ⟨h.counter, by rw [setConnection_self, setConnection_self]⟩

lemma write (h : SameAt i s t) (flags len : UInt32) :
    SameAt i (tcpWrite reply s i flags len).2 (tcpWrite reply t i flags len).2 :=
  ⟨by simp [h.counter], by simp [h.conn]⟩

lemma ack (h : SameAt i s t) : SameAt i (tcpAck reply s i) (tcpAck reply t i) := by
  simp only [tcpAck, h.conn]
  split
  · exact (h.setConnection _).write _ _
  · exact h

lemma push (h : SameAt i s t) : SameAt i (tcpPush reply s i) (tcpPush reply t i) :=
  ⟨by simp [tcpPush, h.counter], by simp [h.conn]⟩

lemma delayAck (h : SameAt i s t) : SameAt i (tcpDelayAck s i) (tcpDelayAck t i) := by
  simp only [tcpDelayAck, h.conn]
  split
  · refine ⟨h.counter, ?_⟩
    rw [setConnection_self, setConnection_self]
    simp only [rtcRegisterHandler, rtcWait, h.counter]
  · exact h

lemma handleFlags (h : SameAt i s t) (header : TcpHeader) :
    SameAt i (tcpHandleFlags s i header) (tcpHandleFlags t i header) := by
  have hack : SameAt i (tcpHandleAck s i header) (tcpHandleAck t i header) := by
    simp only [tcpHandleAck, h.conn]
    split
    · exact h.setConnection _
    · exact h
  have hfin : SameAt i (tcpHandleFin (tcpHandleAck s i header) i header)
      (tcpHandleFin (tcpHandleAck t i header) i header) := by
    simp only [tcpHandleFin, hack.conn]
    split
    · have hdelay := (hack.setConnection { (tcpHandleAck t i header).connections i with
        rxReadable := ((tcpHandleAck t i header).connections i).rxReadable + 1 }).delayAck
      rw [hdelay.conn]
      exact hdelay.setConnection _
    · exact hack
  simp only [tcpHandleFlags]
  set s₂ := tcpHandleFin (tcpHandleAck s i header) i header
  set t₂ := tcpHandleFin (tcpHandleAck t i header) i header
  have hsyn : SameAt i (tcpHandleSyn s₂ i header) (tcpHandleSyn t₂ i header) := by
    simp only [tcpHandleSyn, hfin.conn]
    split
    · have hdelay := (hfin.setConnection { t₂.connections i with
        rxRead := header.seq + 1, rxReadable := header.seq + 1
        txSendable := (t₂.connections i).txAckd }).delayAck
      rw [hdelay.conn]
      exact hdelay.setConnection _
    · exact hfin
  simp only [tcpHandleRst, hsyn.conn]
  split
  · exact hsyn.setConnection _
  · exact hsyn

lemma payload (h : SameAt i s t) (header : TcpHeader) (packet : List UInt8) (len : UInt32) :
    SameAt i (tcpPayload reply s i header packet len) (tcpPayload reply t i header packet len) := by
  have hwindow : SameAt i (tcpSetWindow s i header) (tcpSetWindow t i header) := by
    simp only [tcpSetWindow, h.conn]
    exact h.setConnection _
  have hdata : SameAt i (tcpData (tcpSetWindow s i header) i header packet len)
      (tcpData (tcpSetWindow t i header) i header packet len) := by
    simp only [tcpData, hwindow.conn]
    split
    · exact (hwindow.setConnection _).delayAck
    · exact hwindow
  simp only [tcpPayload, hdata.conn]
  split
  · exact hdata.push
  · exact hdata

/-- **A segment** does the same to a connection in both states. -/
lemma input (h : SameAt i s t) (header : TcpHeader) (packet : List UInt8) (len : UInt32) :
    SameAt i (tcpInput reply s i header packet len) (tcpInput reply t i header packet len) := by
  have hflags := h.handleFlags header
  simp only [tcpInput, hflags.conn]
  split
  · split
    · exact (hflags.setConnection _).payload _ _ _
    · exact hflags.setConnection _
  · exact hflags.payload _ _ _

end SameAt

lemma tcpAck_of_ne (reply : Ip → List (Mac × Ip)) (s : Net) {i k : ℕ} (hk : k ≠ i) :
    (tcpAck reply s i).connections k = s.connections k := by
  simp only [tcpAck]
  split
  · rw [tcpWrite_connections, setConnection_of_ne _ _ hk]
  · rfl

/-- An acknowledgement clears `wait`. -/
lemma tcpAck_frame (reply : Ip → List (Mac × Ip)) (s : Net) (i : ℕ) :
    ∃ w, (tcpAck reply s i).connections i = { s.connections i with wait := w } := by
  simp only [tcpAck]
  split
  · exact ⟨0, by rw [tcpWrite_connections, setConnection_self]⟩
  · exact ⟨_, rfl⟩

end CustomLinuxOs
