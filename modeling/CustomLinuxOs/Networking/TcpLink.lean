import CustomLinuxOs.Networking.Connect
import CustomLinuxOs.Networking.ConnectionFrames
import CustomLinuxOs.Networking.TcpReceive

/-!
A connection between two hosts that both run this code, over a network that may lose, repeat and
reorder frames.

* `Endpoint`, `EndEvent`, `endStep`: one host with what its program has sent and received; a frame
  that is delivered goes through the whole stack.
* `hostsStep`: both hosts.  A frame that one has sent can be delivered to the other at any later
  time, and any number of times.
* `Orderly`: the condition on a step.  A segment does not begin before and end after the bytes
  received so far, an acknowledgement is less than a ring old, and the stream does not come to the
  wrap of its numbers.
* `LinkSegment`, `EndInv`: the invariant of one end, and what it says of each frame on the wire.
* `tcpLink_faithful`: in orderly runs each program reads what the other has written.
-/

namespace CustomLinuxOs

/-! ### Two hosts -/

/-- The ends of a connection. -/
inductive Side where
  | near
  | far
  deriving DecidableEq

/-- The end across. -/
def Side.other : Side → Side
  | near => far
  | far => near

@[simp] lemma Side.other_other (p : Side) : p.other.other = p := by cases p <;> rfl

@[simp] lemma Side.other_ne (p : Side) : p.other ≠ p := by cases p <;> decide

lemma Side.eq_or_eq_other (p q : Side) : q = p ∨ q = p.other := by
  cases p <;> cases q <;> decide

/-- A host, the bytes its program has sent through the connection, and those that it has received
from there. -/
structure Endpoint where
  stack : NetStack
  accepted : List UInt8
  returned : List UInt8

/-- The connection of a host. -/
def Endpoint.conn (t : Endpoint) (idx : ℕ) : Connection := t.stack.net.connections idx

/-- The same with another network state. -/
def Endpoint.withNet (t : Endpoint) (s : Net) : Endpoint :=
  { t with stack := { t.stack with net := s } }

/-- What happens at one end: calls, the timer of a delayed acknowledgement, and the frame with
number `k` of those that the other end has sent. -/
inductive EndEvent where
  | send (waited : Bool) (data : List UInt8) (len : UInt32)
  | recv (len : UInt32)
  | timer
  | deliver (k : ℕ)

/-- One event at an end, with the frames that the other end has sent. -/
def endStep (reply : Ip → List (Mac × Ip)) (idx : ℕ) (wire : List (List UInt8)) (t : Endpoint) :
    EndEvent → Option Endpoint
  | .send waited data len =>
      (tcpSendFrom reply idx waited t.stack.net data len).map fun r =>
        { t.withNet r.2 with accepted := t.accepted ++ bytesAt data r.1.toNat }
  | .recv len =>
      (tcpRecv reply t.stack.net idx len).map fun r =>
        { t.withNet r.2 with returned := t.returned ++ r.1 }
  | .timer => some (t.withNet (tcpAck reply t.stack.net idx))
  | .deliver k => wire[k]?.map fun frame => { t with stack := parsePacket reply t.stack frame }

/-- One event of the two hosts. -/
def hostsStep (reply : Side → Ip → List (Mac × Ip)) (idx : Side → ℕ) (l : Side → Endpoint)
    (e : Side × EndEvent) : Option (Side → Endpoint) :=
  (endStep (reply e.1) (idx e.1) (l e.1.other).stack.net.sent (l e.1) e.2).map
    (Function.update l e.1)

/-- The connection is established: either end has processed the SYN of the other, whose first
numbers are `iss`, and nothing has been sent since. -/
structure Established (idx : Side → ℕ) (iss : Side → UInt32) (l : Side → Endpoint) : Prop where
  syn : ∀ p, AfterSyn (l p).stack.net (idx p) (iss p.other)
  handshake : ∀ p, AfterHandshake (l p).stack.net (idx p) (iss p + 1)
  ports : ∀ p, ((l p).conn (idx p)).destPort = ((l p.other).conn (idx p.other)).sourcePort
  quiet : ∀ p, (l p).stack.net.sent = []
  accepted : ∀ p, (l p).accepted = []
  returned : ∀ p, (l p).returned = []

/-- The condition on a frame that is delivered: its segment does not begin before and end after
the bytes received so far, and the bytes that it does not acknowledge fit into the ring. -/
def DeliveredInOrder (idx : ℕ) (own peer : UInt32) (t : Endpoint) (frame : List UInt8) : Prop :=
  let n := ((frameSegment frame).1.seq - (peer + 1)).toNat
  let r := received peer (t.conn idx)
  (r ≤ n ∨ n + (frameSegment frame).2.length ≤ r)
    ∧ t.accepted.length ≤ ((frameSegment frame).1.ack - (own + 1)).toNat + BUFFER_SIZE

instance (idx : ℕ) (own peer : UInt32) (t : Endpoint) (frame : List UInt8) :
    Decidable (DeliveredInOrder idx own peer t frame) :=
  inferInstanceAs (Decidable (_ ∧ _))

/-- The condition on an event at one end. -/
def EndOrderly (idx : ℕ) (own peer : UInt32) (wire : List (List UInt8)) (t : Endpoint) :
    EndEvent → Prop
  | .send _ _ len => own.toNat + 1 + t.accepted.length + len.toNat ≤ 2 ^ 32
  | .deliver k => ∀ frame ∈ wire[k]?, frameType frame = ETHERTYPE_IP4 →
      DeliveredInOrder idx own peer t frame
  | _ => True

instance (idx : ℕ) (own peer : UInt32) (wire : List (List UInt8)) (t : Endpoint) :
    ∀ e, Decidable (EndOrderly idx own peer wire t e)
  | .send _ _ _ => inferInstanceAs (Decidable (_ ≤ _))
  | .recv _ => inferInstanceAs (Decidable True)
  | .timer => inferInstanceAs (Decidable True)
  | .deliver _ => inferInstanceAs (Decidable (∀ frame ∈ _, _ → _))

/-- The condition on a step. -/
def Orderly (idx : Side → ℕ) (iss : Side → UInt32) (l : Side → Endpoint) (e : Side × EndEvent) :
    Prop :=
  EndOrderly (idx e.1) (iss e.1) (iss e.1.other) (l e.1.other).stack.net.sent (l e.1) e.2

instance (idx : Side → ℕ) (iss : Side → UInt32) (l : Side → Endpoint) (e : Side × EndEvent) :
    Decidable (Orderly idx iss l e) :=
  inferInstanceAs (Decidable (EndOrderly _ _ _ _ _ _))

/-! ### What is on the wire -/

/-- The segment in a frame carries the bytes of `accepted` from `n` on and acknowledges `r` bytes
of the other stream. -/
structure LinkSegment (ports : UInt16 × UInt16) (own peer : UInt32) (accepted : List UInt8)
    (n r : ℕ) (frame : List UInt8) : Prop where
  parsed : ∀ reply t, parsePacket reply t frame
    = { t with
        net := tcpParsePacket reply t.net (frame.drop IP_HEADER_OFFSET)
          (20 + (frameSegment frame).2.length).toUInt32 }
  bound : n + (frameSegment frame).2.length ≤ accepted.length
  small : (frameSegment frame).2.length ≤ BUFFER_SIZE
  data : (frameSegment frame).2 = (accepted.drop n).take (frameSegment frame).2.length
  sourcePort : (frameSegment frame).1.sourcePort = ports.1
  destPort : (frameSegment frame).1.destPort = ports.2
  seq : (frameSegment frame).1.seq = own + 1 + n.toUInt32
  ack : (frameSegment frame).1.ack = peer + 1 + r.toUInt32
  dataOffset : (frameSegment frame).1.flags.dataOffset = 5
  fin : (frameSegment frame).1.flags.fin = false
  syn : (frameSegment frame).1.flags.syn = false
  rst : (frameSegment frame).1.flags.rst = false
  acks : (frameSegment frame).1.flags.ack = true

namespace LinkSegment

variable {ports : UInt16 × UInt16} {own peer : UInt32} {accepted accepted' : List UInt8} {n r : ℕ}
  {frame : List UInt8}

lemma mono (h : LinkSegment ports own peer accepted n r frame) (hle : accepted <+: accepted') :
    LinkSegment ports own peer accepted' n r frame := by
  obtain ⟨rest, rfl⟩ := hle
  have hbound := h.bound
  have hlen : (frameSegment frame).2.length ≤ (accepted.drop n).length := by
    rw [List.length_drop]
    omega
  refine { h with bound := ?_, data := ?_ }
  · rw [List.length_append]
    omega
  · rw [List.drop_append_of_le_length (by omega), List.take_append_of_le_length hlen]
    exact h.data

/-- At a connection with the ports across, it is a segment of the stream. -/
lemma carries (h : LinkSegment ports own peer accepted n r frame) {conn : Connection}
    (hsource : conn.sourcePort = ports.2) (hdest : conn.destPort = ports.1) :
    Carries conn own accepted n (n + (frameSegment frame).2.length) false
      (frame.drop IP_HEADER_OFFSET) (20 + (frameSegment frame).2.length).toUInt32 := by
  have hsmall := h.small
  rw [BUFFER_SIZE] at hsmall
  have hoffset : (readTcpHeader (frame.drop IP_HEADER_OFFSET)).1.flags.dataOffset = 5 :=
    h.dataOffset
  refine ⟨by omega, h.bound, h.destPort.trans hsource.symm, h.sourcePort.trans hdest.symm, h.seq,
    h.syn, h.fin, h.rst, ?_, ?_, ?_⟩
  · rw [hoffset]
  · rw [hoffset, toNat_toUInt32, Nat.add_sub_cancel_left]
    exact Nat.mod_eq_of_lt (by omega)
  · rw [payloadOf, hoffset, Nat.add_sub_cancel_left, show 4 * 5 - TCP_HEADER_LENGTH = 0 from rfl,
      List.drop_zero, ← frameSegment, bytesAt_eq_take le_rfl, List.take_length]
    exact h.data

end LinkSegment

/-- A frame of a connection that has `a` bytes acknowledged and `r` received. -/
lemma OwnFrame.linkSegment {conn : Connection} {frame : List UInt8} {own peer : UInt32}
    {accepted : List UInt8} {a q r : ℕ} (h : OwnFrame conn frame)
    (hat : TxAt (own + 1) conn.txSide a accepted) (hrx : RxAt (peer + 1) conn q r) :
    LinkSegment (conn.sourcePort, conn.destPort) own peer accepted a r frame := by
  obtain ⟨flags, len, hflags, hlen, hframe⟩ := h
  have hflight : (conn.txSendable - conn.txAckd).toNat = accepted.length - a :=
    hat.counters.inFlight
  have hbound := hat.counters.bound
  have hlt := UInt32.le_iff_toNat_le.mp hlen
  have hlength : (frameSegment frame).2.length = len.toNat := by
    rw [hframe.segment]
    simp [tcpSegmentData]
  have hring : FromRing conn.txSide frame := by
    refine ⟨by rw [hframe.segment]; rfl, len.toNat, hlt, ?_⟩
    rw [hframe.segment]
    exact tcpSegmentData_eq conn len
  have hback := hat.fromRing hring
  have hle := hat.counters.le
  have hparsed := hframe.parsed
  rw [← hlength] at hparsed
  have hheader : (frameSegment frame).1 = tcpHeaderOf conn flags := by rw [hframe.segment]
  refine ⟨hparsed, by omega, by omega, hback.2, ?_, ?_, hback.1, ?_, ?_, ?_, ?_, ?_, ?_⟩
  · rw [hheader, tcpHeaderOf]
  · rw [hheader, tcpHeaderOf]
  · rw [hheader, tcpHeaderOf]
    exact hrx.readable
  · rw [hheader, tcpHeaderOf, hflags.syn]
    rfl
  · rw [hheader, tcpHeaderOf, hflags.fin]
    rfl
  · rw [hheader, tcpHeaderOf, hflags.syn]
    rfl
  · rw [hheader, tcpHeaderOf, hflags.rst]
    rfl
  · rw [hheader, tcpHeaderOf]
    exact bne_iff_ne.mpr hflags.ack

/-! ### The bytes in the ring -/

/-- The ring has the bytes accepted last, as many as it has slots: from there it could be sent
again, whatever is acknowledged. -/
def Held (base : UInt32) (v : TxSide) (accepted : List UInt8) : Prop :=
  ∀ a ≤ accepted.length, accepted.length ≤ a + BUFFER_SIZE →
    TxAt base { v with txAckd := base + a.toUInt32 } a accepted

namespace Held

variable {base : UInt32} {v : TxSide} {accepted : List UInt8} {a : ℕ}

lemma txAt (h : Held base v accepted) (ha : a ≤ accepted.length)
    (hbound : accepted.length ≤ a + BUFFER_SIZE) (hackd : v.txAckd = base + a.toUInt32) :
    TxAt base v a accepted := by
  have hat := h a ha hbound
  rwa [← hackd] at hat

/-- **Accepting bytes** that fit: the oldest ones are overwritten, and those are not needed. -/
lemma accept (h : Held base v accepted) (ha : a ≤ accepted.length)
    (hbound : accepted.length ≤ a + BUFFER_SIZE) (hackd : v.txAckd = base + a.toUInt32)
    (data : List UInt8) {m : ℕ}
    (hm : m ≤ (v.txAckd + BUFFER_SIZE.toUInt32 - v.txSendable).toNat) :
    Held base (v.accept data m) (accepted ++ bytesAt data m) := by
  rw [(h.txAt ha hbound hackd).counters.space] at hm
  intro b hb hb'
  rw [List.length_append, bytesAt_length] at hb hb'
  rcases Nat.le_total b accepted.length with hle | hle
  · have hold := h b hle (by omega)
    refine hold.accept data ?_
    rw [hold.counters.space]
    omega
  · have hold := h accepted.length le_rfl (by omega)
    refine (hold.accept data ?_).acknowledge hle ?_
    · rw [hold.counters.space]
      omega
    · rw [List.length_append, bytesAt_length]
      exact hb

end Held

/-! ### One end -/

/-- What holds at an end: what it has received is a first part of what the other end has accepted;
it is told of no more bytes than the other end has received; and so is each segment that it has
sent. -/
structure EndInv (idx : ℕ) (ports : UInt16 × UInt16) (own peer : UInt32)
    (peerAccepted : List UInt8) (peerReceived : ℕ) (t : Endpoint) : Prop extends
    Receiving idx ports peer peerAccepted.length (t.stack.net, t.returned) where
  stream : delivered idx (t.stack.net, t.returned) <+: peerAccepted
  held : Held (own + 1) (t.conn idx).txSide t.accepted
  acked : ∃ a ≤ peerReceived, t.accepted.length ≤ a + BUFFER_SIZE
    ∧ (t.conn idx).txAckd = own + 1 + a.toUInt32
  noWrap : own.toNat + 1 + t.accepted.length ≤ 2 ^ 32
  frames : ∀ frame ∈ t.stack.net.sent, frameType frame = ETHERTYPE_IP4 →
    ∃ n r, r ≤ received peer (t.conn idx) ∧ LinkSegment ports own peer t.accepted n r frame

namespace EndInv

variable {idx : ℕ} {ports : UInt16 × UInt16} {own peer : UInt32} {PA : List UInt8} {PR : ℕ}
  {t u : Endpoint}

/-- The other end may accept and receive more. -/
lemma mono (h : EndInv idx ports own peer PA PR t) {PA' : List UInt8} {PR' : ℕ}
    (hPA : PA <+: PA') (hPR : PR ≤ PR') : EndInv idx ports own peer PA' PR' t := by
  obtain ⟨a, ha, hbound, hackd⟩ := h.acked
  exact
    { h with
      received_le := h.received_le.trans hPA.length_le
      stream := h.stream.trans hPA
      acked := ⟨a, ha.trans hPR, hbound, hackd⟩ }

lemma received_eq_length (h : EndInv idx ports own peer PA PR t) :
    (delivered idx (t.stack.net, t.returned)).length = received peer (t.conn idx) :=
  h.toReceiving.delivered_length

/-- **What a step has to show**: receive side and transmit side, and that no frames but its own went
out. -/
lemma of_step (h : EndInv idx ports own peer PA PR t)
    (hrx : Receiving idx ports peer PA.length (u.stack.net, u.returned))
    (hstream : delivered idx (u.stack.net, u.returned) <+: PA)
    (hgrow : received peer (t.conn idx) ≤ received peer (u.conn idx))
    (haccepted : t.accepted <+: u.accepted)
    (hheld : Held (own + 1) (u.conn idx).txSide u.accepted) {a : ℕ}
    (ha : a ≤ PR) (hPR : PR ≤ t.accepted.length)
    (hbound : u.accepted.length ≤ a + BUFFER_SIZE)
    (hackd : (u.conn idx).txAckd = own + 1 + a.toUInt32)
    (hwrap : own.toNat + 1 + u.accepted.length ≤ 2 ^ 32)
    (hframes : ((u.conn idx).txSendable - (u.conn idx).txAckd).toNat ≤ BUFFER_SIZE →
      OwnFrames idx t.stack.net u.stack.net) : EndInv idx ports own peer PA PR u := by
  have hat : TxAt (own + 1) (u.conn idx).txSide a u.accepted :=
    hheld.txAt (ha.trans (hPR.trans haccepted.length_le)) hbound hackd
  have hflight : ((u.conn idx).txSendable - (u.conn idx).txAckd).toNat = u.accepted.length - a :=
    hat.counters.inFlight
  obtain ⟨frames, hsent, hown⟩ := hframes (by omega)
  refine { hrx with
    stream := hstream
    held := hheld
    acked := ⟨a, ha, hbound, hackd⟩
    noWrap := hwrap
    frames := fun f hf htype => ?_ }
  rw [hsent] at hf
  rcases List.mem_append.mp hf with hf | hf
  · obtain ⟨n, r, hr, hseg⟩ := h.frames f hf htype
    exact ⟨n, r, hr.trans hgrow, hseg.mono haccepted⟩
  · have hseg := (hown f hf htype).linkSegment hat hrx.rxAt
    have hports : ((u.stack.net.connections idx).sourcePort,
        (u.stack.net.connections idx).destPort) = ports :=
      Prod.ext hrx.sourcePort hrx.destPort
    rw [hports] at hseg
    exact ⟨a, _, le_rfl, hseg⟩

end EndInv

/-- The receive side decides what is received and delivered. -/
lemma Receiving.congr {idx : ℕ} {ports : UInt16 × UInt16} {peer : UInt32} {L : ℕ} {s s' : Net}
    {bytes : List UInt8} (h : Receiving idx ports peer L (s, bytes))
    (hside : (s'.connections idx).rxSide = (s.connections idx).rxSide)
    (hother : ∀ k ≠ idx, s'.connections k = s.connections k) :
    Receiving idx ports peer L (s', bytes)
      ∧ received peer (s'.connections idx) = received peer (s.connections idx)
      ∧ delivered idx (s', bytes) = delivered idx (s, bytes) := by
  have hrec : received peer (s'.connections idx) = received peer (s.connections idx) :=
    congrArg (fun v : RxSide => (v.rxReadable - (peer + 1)).toNat) hside
  refine ⟨⟨?_, ?_, ?_⟩, hrec, ?_⟩
  · exact h.toRxOpen.of_rest (congrArg RxSide.isValid hside) (congrArg RxSide.isClosed hside)
      (SamePorts.of_rxSide hside) hother
  · rw [hrec]
    exact h.received_le
  · rw [hrec]
    exact h.rxAt.congr hside.symm
  · rw [delivered, delivered, rxPending_congr hside]

/-- `tcp_recv` on an open connection moves `rx_read`, and does nothing else. -/
lemma tcpRecv_open {reply : Ip → List (Mac × Ip)} {s s' : Net} {idx : ℕ} {len : UInt32}
    {bytes : List UInt8} (hvalid : (s.connections idx).isValid = true)
    (hclosed : (s.connections idx).isClosed = false)
    (h : tcpRecv reply s idx len = some (bytes, s')) :
    ∃ q, s' = s.setConnection idx { s.connections idx with rxRead := q } := by
  simp only [tcpRecv, hvalid, Bool.not_true, Bool.false_eq_true, if_false] at h
  split at h
  · cases h
  · obtain ⟨-, rfl⟩ := Prod.mk.inj (Option.some.inj h)
    rw [tcpRecvClose, setConnection_self, rxTake]
    simp only [hclosed, Bool.false_and, Bool.false_eq_true, if_false]
    exact ⟨_, rfl⟩

/-! ### One step -/

/-- What an end has accepted and received never gets less. -/
structure EndGrows (idx : ℕ) (peer : UInt32) (t u : Endpoint) : Prop where
  accepted : t.accepted <+: u.accepted
  received : received peer (t.conn idx) ≤ received peer (u.conn idx)

section Steps

variable {reply : Ip → List (Mac × Ip)} {idx : ℕ} {ports : UInt16 × UInt16} {own peer : UInt32}
  {PA : List UInt8} {PR : ℕ} {t u : Endpoint} {wire : List (List UInt8)}

lemma endInv_send (h : EndInv idx ports own peer PA PR t) (hPR : PR ≤ t.accepted.length)
    {waited : Bool} {data : List UInt8} {len : UInt32}
    (hfit : own.toNat + 1 + t.accepted.length + len.toNat ≤ 2 ^ 32)
    (hu : endStep reply idx wire t (.send waited data len) = some u) :
    EndInv idx ports own peer PA PR u ∧ EndGrows idx peer t u := by
  obtain ⟨⟨m, s'⟩, hsend, rfl⟩ := Option.map_eq_some_iff.mp hu
  obtain ⟨haccepts, hm, hspace⟩ := tcpSendFrom_spec hsend
  obtain ⟨hrx, hrec, hdel⟩ := h.toReceiving.congr haccepts.rxSide haccepts.others
  obtain ⟨a, ha, hbound, hackd⟩ := h.acked
  have hheld := h.held.accept (ha.trans hPR) hbound hackd data hspace
  have hfree := (h.held.txAt (ha.trans hPR) hbound hackd).counters.space
  have htx : (s'.connections idx).txSide = (t.conn idx).txSide.accept data m.toNat :=
    haccepts.txSide
  have hgrows : EndGrows idx peer t
      { t.withNet s' with accepted := t.accepted ++ bytesAt data m.toNat } :=
    ⟨List.prefix_append _ _, hrec.ge⟩
  refine ⟨h.of_step hrx ?_ hgrows.received hgrows.accepted ?_ ha hPR ?_ ?_ ?_ ?_, hgrows⟩
  · show delivered idx (s', t.returned) <+: PA
    rw [hdel]
    exact h.stream
  · exact htx ▸ hheld
  · show (t.accepted ++ bytesAt data m.toNat).length ≤ a + BUFFER_SIZE
    rw [List.length_append, bytesAt_length]
    change m.toNat ≤ ((t.conn idx).txSide.txAckd + BUFFER_SIZE.toUInt32
      - (t.conn idx).txSide.txSendable).toNat at hspace
    omega
  · exact (congrArg TxSide.txAckd htx).trans hackd
  · show own.toNat + 1 + (t.accepted ++ bytesAt data m.toNat).length ≤ 2 ^ 32
    rw [List.length_append, bytesAt_length]
    omega
  · exact fun hflight => (tcpSendFrom_pushes hsend).ownFrames hflight

lemma endInv_recv (h : EndInv idx ports own peer PA PR t) (hPR : PR ≤ t.accepted.length)
    {len : UInt32} (hu : endStep reply idx wire t (.recv len) = some u) :
    EndInv idx ports own peer PA PR u ∧ EndGrows idx peer t u := by
  obtain ⟨⟨bytes, s'⟩, hrecv, rfl⟩ := Option.map_eq_some_iff.mp hu
  have hstep : rxStep reply idx (t.stack.net, t.returned) (.recv len)
      = some (s', t.returned ++ bytes) := by
    rw [rxStep, hrecv]
    rfl
  obtain ⟨hopen, hat⟩ := recv_open h.toRxOpen h.rxAt hstep
  have hdel := (recv_delivered h.valid hstep).1
  obtain ⟨q, rfl⟩ := tcpRecv_open h.valid h.notClosed hrecv
  have hconn : (t.stack.net.setConnection idx
      { t.stack.net.connections idx with rxRead := q }).connections idx
        = { t.conn idx with rxRead := q } := setConnection_self _ _ _
  obtain ⟨a, ha, hbound, hackd⟩ := h.acked
  have hwrap := h.noWrap
  have hPA := h.received_le
  have hlt : received peer (t.conn idx) < 2 ^ 32 := by
    rw [received]
    exact UInt32.toNat_lt _
  have hrec := received_eq hat hlt
  have hrx : Receiving idx ports peer PA.length (t.stack.net.setConnection idx
      { t.stack.net.connections idx with rxRead := q }, t.returned ++ bytes) :=
    ⟨hopen, hrec ▸ hPA, hrec.symm ▸ hat⟩
  refine ⟨h.of_step hrx ?_ ?_ (List.prefix_refl _) ?_ ha hPR hbound ?_ hwrap ?_,
    List.prefix_refl _, hrec.ge⟩
  · exact hdel.symm ▸ h.stream
  · exact hrec.ge
  · show Held (own + 1) ((t.stack.net.setConnection idx
      { t.stack.net.connections idx with rxRead := q }).connections idx).txSide t.accepted
    rw [hconn]
    exact h.held
  · show ((t.stack.net.setConnection idx
      { t.stack.net.connections idx with rxRead := q }).connections idx).txAckd = _
    rw [hconn]
    exact hackd
  · exact fun _ => Emits.of_eq rfl

lemma endInv_timer (h : EndInv idx ports own peer PA PR t) (hPR : PR ≤ t.accepted.length)
    (hu : endStep reply idx wire t .timer = some u) :
    EndInv idx ports own peer PA PR u ∧ EndGrows idx peer t u := by
  cases hu
  obtain ⟨w, hw⟩ := tcpAck_frame reply t.stack.net idx
  have hside : ((tcpAck reply t.stack.net idx).connections idx).rxSide
      = (t.stack.net.connections idx).rxSide := by rw [hw]; rfl
  obtain ⟨hrx, hrec, hdel⟩ := h.toReceiving.congr hside fun k hk => tcpAck_of_ne reply _ hk
  obtain ⟨a, ha, hbound, hackd⟩ := h.acked
  refine ⟨h.of_step hrx ?_ hrec.ge (List.prefix_refl _) ?_ ha hPR hbound ?_ h.noWrap ?_,
    List.prefix_refl _, hrec.ge⟩
  · show delivered idx (tcpAck reply t.stack.net idx, t.returned) <+: PA
    rw [hdel]
    exact h.stream
  · show Held (own + 1) ((tcpAck reply t.stack.net idx).connections idx).txSide t.accepted
    rw [hw]
    exact h.held
  · show ((tcpAck reply t.stack.net idx).connections idx).txAckd = _
    rw [hw]
    exact hackd
  · exact fun _ => tcpAck_ownFrames reply t.stack.net idx

variable (reply) in
/-- **A segment on the receive side**: an end that is in order gets what comes next, or nothing. -/
lemma receive_segment (h : EndInv idx ports own peer PA PR t)
    (hPA : peer.toNat + 1 + PA.length ≤ 2 ^ 32) {frame : List UInt8} {n r : ℕ}
    (hseg : LinkSegment (ports.2, ports.1) peer own PA n r frame)
    (horder : received peer (t.conn idx) ≤ n
      ∨ n + (frameSegment frame).2.length ≤ received peer (t.conn idx)) :
    let s' := tcpParsePacket reply t.stack.net (frame.drop IP_HEADER_OFFSET)
      (20 + (frameSegment frame).2.length).toUInt32
    Receiving idx ports peer PA.length (s', t.returned)
      ∧ delivered idx (s', t.returned) <+: PA
      ∧ received peer (t.conn idx) ≤ received peer (s'.connections idx) := by
  intro s'
  have hcarries := hseg.carries h.sourcePort h.destPort
  rcases Nat.eq_zero_or_pos (frameSegment frame).2.length with hm | hm
  · -- without data nothing is stored
    obtain ⟨hside, hother⟩ := segment_rxSide reply h.toRxOpen hcarries
    have hnone : storedLength (frame.drop IP_HEADER_OFFSET)
        (20 + (frameSegment frame).2.length).toUInt32 (t.conn idx) = 0 := by
      have hle := storedLength_le (frame.drop IP_HEADER_OFFSET)
        (20 + (frameSegment frame).2.length).toUInt32 (t.conn idx)
      have hlength := hcarries.payloadLength
      omega
    rw [countFin, if_neg Bool.false_ne_true] at hside
    change _ = (rxStore (bytesAt _ (storedLength _ _ (t.conn idx))) _).rxSide at hside
    rw [hnone] at hside
    obtain ⟨hrx, hrec, hdel⟩ := h.toReceiving.congr hside hother
    exact ⟨hrx, hdel ▸ h.stream, hrec.ge⟩
  · have hstep : rxStep reply idx (t.stack.net, t.returned)
        (.segment (frame.drop IP_HEADER_OFFSET) (20 + (frameSegment frame).2.length).toUInt32)
          = some (s', t.returned) := rfl
    obtain ⟨hbound, hrx, hdel⟩ := segment_step h.toReceiving hPA
      (by omega : n < n + (frameSegment frame).2.length) hcarries hstep
    refine ⟨hrx, ?_, ?_⟩
    · have htake : delivered idx (t.stack.net, t.returned)
          = PA.take (received peer (t.conn idx)) := by
        rw [List.prefix_iff_eq_take.mp h.stream, h.received_eq_length]
      rw [hdel, htake, take_append_prefix_iff hbound]
      intro i hi
      split at hi
      · rename_i hnext
        have hn : n = received peer (t.conn idx) := by
          have hr : n ≤ received peer (t.conn idx) := hnext.2.1
          have hlt : received peer (t.conn idx) < n + (frameSegment frame).2.length := hnext.2.2
          omega
        rw [hn]
      · omega
    · calc received peer (t.conn idx)
          = (delivered idx (t.stack.net, t.returned)).length := h.received_eq_length.symm
        _ ≤ (delivered idx (s', t.returned)).length := by
            rw [hdel, List.length_append]
            exact Nat.le_add_right _ _
        _ = received peer (s'.connections idx) := hrx.delivered_length

/-- **A segment of the other end.** -/
lemma endInv_segment (h : EndInv idx ports own peer PA PR t) (hPR : PR ≤ t.accepted.length)
    (hPA : peer.toNat + 1 + PA.length ≤ 2 ^ 32) {frame : List UInt8} {n r : ℕ} (hr : r ≤ PR)
    (hseg : LinkSegment (ports.2, ports.1) peer own PA n r frame)
    (horder : DeliveredInOrder idx own peer t frame) :
    EndInv idx ports own peer PA PR { t with stack := parsePacket reply t.stack frame }
      ∧ EndGrows idx peer t { t with stack := parsePacket reply t.stack frame } := by
  have hn : ((frameSegment frame).1.seq - (peer + 1)).toNat = n := by
    have hbound := hseg.bound
    rw [hseg.seq, toNat_sub_add _ (by omega)]
  have hwrap := h.noWrap
  have hack : ((frameSegment frame).1.ack - (own + 1)).toNat = r := by
    rw [hseg.ack, toNat_sub_add _ (by omega)]
  simp only [DeliveredInOrder, hn, hack] at horder
  obtain ⟨hrx, hstream, hgrow⟩ := receive_segment reply h hPA hseg horder.1
  have hcarries := hseg.carries h.sourcePort h.destPort
  have hfind := h.owns _ hcarries.destPort hcarries.sourcePort
  have hparse := (parse_found reply hfind hseg.syn hseg.rst
    (20 + (frameSegment frame).2.length).toUInt32).1
  have htx := (tcpInput_txSide reply t.stack.net idx _ (frameSegment frame).2
    (20 + (frameSegment frame).2.length).toUInt32 hseg.syn).1
  rw [TxSide.handleAck, if_pos hseg.acks, hseg.ack] at htx
  rw [hseg.parsed]
  refine ⟨h.of_step hrx hstream hgrow (List.prefix_refl _) ?_ hr hPR horder.2 ?_ hwrap ?_,
    List.prefix_refl _, hgrow⟩
  · show Held (own + 1) ((tcpParsePacket reply t.stack.net _ _).connections idx).txSide t.accepted
    rw [hparse]
    exact fun b hb hb' => htx ▸ h.held b hb hb'
  · show ((tcpParsePacket reply t.stack.net _ _).connections idx).txSide.txAckd = _
    rw [hparse]
    exact congrArg TxSide.txAckd htx
  · intro hflight
    have hpushes := tcpInput_pushes reply t.stack.net idx (frameSegment frame).1
      (frameSegment frame).2 (20 + (frameSegment frame).2.length).toUInt32
    change PushesFrom reply idx t.stack.net (tcpInput reply t.stack.net idx
      (readTcpHeader (frame.drop IP_HEADER_OFFSET)).1
      (readTcpHeader (frame.drop IP_HEADER_OFFSET)).2 _) at hpushes
    rw [← hparse] at hpushes
    exact hpushes.ownFrames hflight

/-- **A frame that is delivered.** -/
lemma endInv_deliver (h : EndInv idx ports own peer PA PR t) (hPR : PR ≤ t.accepted.length)
    (hPA : peer.toNat + 1 + PA.length ≤ 2 ^ 32)
    (hwire : ∀ frame ∈ wire, frameType frame = ETHERTYPE_IP4 →
      ∃ n r, r ≤ PR ∧ LinkSegment (ports.2, ports.1) peer own PA n r frame) {k : ℕ}
    (horderly : EndOrderly idx own peer wire t (.deliver k))
    (hu : endStep reply idx wire t (.deliver k) = some u) :
    EndInv idx ports own peer PA PR u ∧ EndGrows idx peer t u := by
  obtain ⟨frame, hframe, rfl⟩ := Option.map_eq_some_iff.mp hu
  by_cases htype : frameType frame = ETHERTYPE_IP4
  · obtain ⟨n, r, hr, hseg⟩ := hwire frame (List.mem_of_getElem? hframe) htype
    exact endInv_segment h hPR hPA hr hseg (horderly frame hframe htype)
  · have hconn := (parsePacket_of_not_ip reply t.stack htype fun _ => True).1
    have hside : ((parsePacket reply t.stack frame).net.connections idx).rxSide
        = (t.stack.net.connections idx).rxSide := by rw [hconn]
    obtain ⟨hrx, hrec, hdel⟩ := h.toReceiving.congr hside fun k _ => congrFun hconn k
    obtain ⟨a, ha, hbound, hackd⟩ := h.acked
    refine ⟨h.of_step hrx ?_ hrec.ge (List.prefix_refl _) ?_ ha hPR hbound ?_ h.noWrap ?_,
      List.prefix_refl _, hrec.ge⟩
    · show delivered idx ((parsePacket reply t.stack frame).net, t.returned) <+: PA
      rw [hdel]
      exact h.stream
    · show Held (own + 1) ((parsePacket reply t.stack frame).net.connections idx).txSide t.accepted
      rw [hconn]
      exact h.held
    · show ((parsePacket reply t.stack frame).net.connections idx).txAckd = _
      rw [hconn]
      exact hackd
    · exact fun _ => (parsePacket_of_not_ip reply t.stack htype _).2

/-- **One event at an end.** -/
theorem endInv_step (h : EndInv idx ports own peer PA PR t) (hPR : PR ≤ t.accepted.length)
    (hPA : peer.toNat + 1 + PA.length ≤ 2 ^ 32)
    (hwire : ∀ frame ∈ wire, frameType frame = ETHERTYPE_IP4 →
      ∃ n r, r ≤ PR ∧ LinkSegment (ports.2, ports.1) peer own PA n r frame) {e : EndEvent}
    (horderly : EndOrderly idx own peer wire t e) (hu : endStep reply idx wire t e = some u) :
    EndInv idx ports own peer PA PR u ∧ EndGrows idx peer t u := by
  cases e with
  | send waited data len => exact endInv_send h hPR horderly hu
  | recv len => exact endInv_recv h hPR hu
  | timer => exact endInv_timer h hPR hu
  | deliver k => exact endInv_deliver h hPR hPA hwire horderly hu

end Steps

/-! ### The two ends together -/

/-- What a program reads is what the other one has written: the bytes returned so far, and with
them those of the next call, are a first part of the bytes accepted at the other end.  Of its own
stream, what is acknowledged is received, what is received is accepted, and the ring holds all that
is not acknowledged. -/
structure Faithful (reply : Side → Ip → List (Mac × Ip)) (idx : Side → ℕ) (iss : Side → UInt32)
    (l : Side → Endpoint) (p : Side) : Prop where
  returned : (l p).returned <+: (l p.other).accepted
  next : ∀ len u, hostsStep reply idx l (p, .recv len) = some u →
    (u p).returned <+: (l p.other).accepted
  counters : ∃ a r, a ≤ r ∧ r ≤ (l p).accepted.length
    ∧ (l p).accepted.length ≤ a + BUFFER_SIZE
    ∧ ((l p).conn (idx p)).txAckd = iss p + 1 + a.toUInt32
    ∧ ((l p.other).conn (idx p.other)).rxReadable = iss p + 1 + r.toUInt32

/-- The invariant at both ends; `port` are their source ports. -/
def LinkInv (idx : Side → ℕ) (port : Side → UInt16) (iss : Side → UInt32) (l : Side → Endpoint) :
    Prop :=
  ∀ p, EndInv (idx p) (port p, port p.other) (iss p) (iss p.other) (l p.other).accepted
    (received (iss p) ((l p.other).conn (idx p.other))) (l p)

section Link

variable {reply : Side → Ip → List (Mac × Ip)} {idx : Side → ℕ} {port : Side → UInt16}
  {iss : Side → UInt32} {l : Side → Endpoint}

/-- At the end across the roles are exchanged. -/
lemma LinkInv.across (h : LinkInv idx port iss l) (p : Side) :
    EndInv (idx p.other) (port p.other, port p) (iss p.other) (iss p) (l p).accepted
      (received (iss p.other) ((l p).conn (idx p))) (l p.other) := by
  have hother := h p.other
  rwa [p.other_other] at hother

/-- No more is received than accepted. -/
lemma LinkInv.received_le (h : LinkInv idx port iss l) (p : Side) :
    received (iss p) ((l p.other).conn (idx p.other)) ≤ (l p).accepted.length :=
  (h.across p).toReceiving.received_le

/-- **One step of the link.** -/
theorem linkInv_step {l' : Side → Endpoint} {e : Side × EndEvent} (h : LinkInv idx port iss l)
    (horderly : Orderly idx iss l e) (hu : hostsStep reply idx l e = some l') :
    LinkInv idx port iss l' := by
  obtain ⟨p, e⟩ := e
  obtain ⟨u, hstep, rfl⟩ := Option.map_eq_some_iff.mp hu
  obtain ⟨hinv, hgrows⟩ := endInv_step (h p) (h.received_le p) (h.across p).noWrap
    (h.across p).frames horderly hstep
  have hself : Function.update l p u p = u := Function.update_self _ _ _
  have hacross : Function.update l p u p.other = l p.other :=
    Function.update_of_ne p.other_ne _ _
  intro q
  rcases p.eq_or_eq_other q with rfl | rfl
  · rw [hself, hacross]
    exact hinv
  · rw [p.other_other, hself, hacross]
    exact (h.across p).mono hgrows.accepted hgrows.received

lemma Established.linkInv (h : Established idx iss l) :
    LinkInv idx (fun p => ((l p).conn (idx p)).sourcePort) iss l := by
  intro p
  have hsyn := h.syn p
  have hhandshake := h.handshake p
  have hrec : received (iss p.other) ((l p).conn (idx p)) = 0 :=
    received_eq hsyn.rxAt (by omega)
  have hrx : Receiving (idx p) (((l p).conn (idx p)).sourcePort, ((l p).conn (idx p)).destPort)
      (iss p.other) (l p.other).accepted.length ((l p).stack.net, (l p).returned) := by
    rw [h.returned p]
    exact hsyn.rxOpen.receiving (Nat.zero_le _) (by rw [h.accepted]; decide) hsyn.rxAt
  have hnil : delivered (idx p) ((l p).stack.net, (l p).returned) = [] :=
    List.eq_nil_of_length_eq_zero (hrx.delivered_length.trans hrec)
  rw [h.ports p] at hrx
  refine { hrx with
    stream := ?_, held := ?_, acked := ⟨0, Nat.zero_le _, ?_, ?_⟩, noWrap := ?_, frames := ?_ }
  · rw [hnil]
    exact List.nil_prefix
  · intro a ha _
    rw [h.accepted p] at ha ⊢
    obtain rfl : a = 0 := Nat.le_zero.mp ha
    refine ⟨⟨rfl, ?_, le_rfl, Nat.zero_le _⟩, rfl⟩
    exact hhandshake.sendable.trans (UInt32.add_zero _).symm
  · rw [h.accepted p]
    exact Nat.zero_le _
  · exact hhandshake.ackd.trans (UInt32.add_zero _).symm
  · have := (iss p).toNat_lt
    rw [h.accepted p, List.length_nil]
    omega
  · intro frame hframe
    rw [h.quiet p] at hframe
    cases hframe

lemma LinkInv.faithful (h : LinkInv idx port iss l) (p : Side) : Faithful reply idx iss l p := by
  have hreads : ReadsPrefix (reply p) (idx p) (l p.other).accepted
      ((l p).stack.net, (l p).returned) :=
    (readsPrefix_iff (h p).toReceiving).mpr (h p).stream
  obtain ⟨a, ha, hbound, hackd⟩ := (h p).acked
  refine ⟨hreads.1, fun len u hu => ?_,
    a, _, ha, h.received_le p, hbound, hackd, (h.across p).toReceiving.rxAt.readable⟩
  obtain ⟨v, hv, rfl⟩ := Option.map_eq_some_iff.mp hu
  obtain ⟨⟨bytes, s'⟩, hrecv, rfl⟩ := Option.map_eq_some_iff.mp hv
  rw [Function.update_self]
  refine hreads.2 len (s', (l p).returned ++ bytes) ?_
  rw [rxStep, hrecv]
  rfl

end Link

/-- **A connection is a pair of streams.**  From the handshake on let the programs of both hosts
call `tcp_send` and `tcp_recv`, let the timers send acknowledgements, and let the network deliver
the frames that were sent, late, repeatedly, out of order or not at all.  As long as the
deliveries are orderly, in every state what either program has read, and what its next call reads,
is a first part of what the other one has written, and no byte is acknowledged that has not
arrived. -/
theorem tcpLink_faithful (reply : Side → Ip → List (Mac × Ip)) {idx : Side → ℕ}
    {iss : Side → UInt32} {l : Side → Endpoint} {es : List (Side × EndEvent)}
    (hstart : Established idx iss l)
    (horderly : EveryStep (hostsStep reply idx) l es (Orderly idx iss)) :
    EveryState (hostsStep reply idx) l es fun l' => ∀ p, Faithful reply idx iss l' p := by
  have hall := horderly.everyState hstart.linkInv fun _ _ _ h hC hu => linkInv_step h hC hu
  intro pre post l' hes hl' p
  exact (hall pre post l' hes hl').faithful p

/-! ### An exchange -/

/-- The first numbers of the two hosts. -/
def exchangeIss : Side → UInt32
  | .near => 0
  | .far => 100

/-- The source ports of the two hosts. -/
def exchangePort : Side → UInt16
  | .near => 0x8000
  | .far => 80

/-- Two hosts after their handshake, with each other in the cache. -/
def exchangeStart (p : Side) : Endpoint where
  stack :=
    { net := { Net.boot.setConnection 0
        { Connection.zero with
          isValid := true, isOpen := true, sourcePort := exchangePort p
          destPort := exchangePort p.other, rxRead := exchangeIss p.other + 1
          rxReadable := exchangeIss p.other + 1, txAckd := exchangeIss p + 1
          txSendable := exchangeIss p + 1, mss := 1460, windowSize := 2048 } with
        arpCacheLen := 1 }
      udp := oneListener.udp }
  accepted := []
  returned := []

/-- Both send; the first segment arrives twice, the answer acknowledges it and brings the rest of
the data along. -/
def exchangeEvents : List (Side × EndEvent) :=
  [(.near, .send false [1, 2] 2), (.near, .send false [3] 1), (.far, .deliver 0),
    (.far, .deliver 0), (.far, .send false [9] 1), (.near, .deliver 0), (.far, .deliver 1),
    (.far, .timer), (.far, .recv 3), (.near, .recv 5)]

lemma exchangeStart_established : Established (fun _ => 0) exchangeIss exchangeStart where
  syn p :=
    { valid := rfl
      notClosed := rfl
      read := rfl
      readable := rfl
      owns := by
        intro h hd hs
        have hfirst : ((exchangeStart p).stack.net.connections 0).isValid = true := rfl
        rw [findConnection, show NUM_CONNECTIONS = 7 + 1 from rfl, List.range_succ_eq_map,
          List.find?_cons_of_pos (by simp [hd, hs, hfirst])] }
  handshake _ := ⟨rfl, rfl, rfl, rfl⟩
  ports _ := rfl
  quiet _ := rfl
  accepted _ := rfl
  returned _ := rfl

/-- In this run both programs get all of the data. -/
theorem tcpLink_faithful_exchange :
    ∃ z, Run (hostsStep (fun _ _ => []) fun _ => 0) exchangeStart exchangeEvents z
      ∧ ((z .far).returned, (z .near).returned) = ([1, 2, 3], [9])
      ∧ EveryState (hostsStep (fun _ _ => []) fun _ => 0) exchangeStart exchangeEvents fun l' =>
          ∀ p, Faithful (fun _ _ => []) (fun _ => 0) exchangeIss l' p := by
  have hread : (exchangeEvents.foldlM
      (guarded (hostsStep (fun _ _ => []) fun _ => 0) (Orderly (fun _ => 0) exchangeIss))
      exchangeStart).map (fun z => ((z .far).returned, (z .near).returned))
      = some ([1, 2, 3], [9]) := by decide +kernel
  obtain ⟨z, hrun, hz⟩ := exists_run_of_map hread
  obtain ⟨hrun, hsteps⟩ := hrun.of_guarded
  exact ⟨z, hrun, hz, tcpLink_faithful _ exchangeStart_established hsteps⟩

end CustomLinuxOs
