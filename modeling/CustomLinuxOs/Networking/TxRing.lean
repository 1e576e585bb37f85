import CustomLinuxOs.Networking.Frames
import CustomLinuxOs.Networking.RxRing

/-!
The transmit ring of a connection: `tcp_send` of `tcp.c`, and what it and `tcp_push` do with
the ring.

* `txFill`, `tcpSend`: a call that finds the ring full waits; `tcpSendRest` is the call from
  its waiting loop on.
* `TxSide`: the part of a connection the transmit ring is made of.
* `TxCounters base v a n`: counted from `base`, `a` bytes are acknowledged and `n` are
  accepted, and they are at most a ring apart.  `TxAt` adds that the ring holds the bytes
  between.
* `tcpSend_spec`: a call accepts a first part of its data, no longer than the free space.
* `tcpInput_txSide`: a segment moves `tx_ackd` to its acknowledgement and
  leaves the rest; what it sends starts there.
-/

namespace CustomLinuxOs

/-! ### Sending -/

/-- The copying loop of `tcp_send`: the first `len` bytes of the data, into the slots behind
`tx_sendable`. -/
def txFill (txSendable : UInt32) (txBuffer : ℕ → UInt8) (data : List UInt8) (len : ℕ) :
    ℕ → UInt8 :=
  (List.range len).foldl
    (fun buf i => Function.update buf
      ((txSendable + i.toUInt32 + 1).toNat % BUFFER_SIZE) (data.getD i 0))
    txBuffer

/-- How many bytes of `len` a call of `tcp_send` takes: what the ring has room for, and no more
than the segment size and the window of the peer. -/
def txLength (conn : Connection) (len : UInt32) : UInt32 :=
  let i := conn.txAckd + BUFFER_SIZE.toUInt32 - conn.txSendable
  let len := if i < len then i else len
  let len := if conn.mss < len then conn.mss else len
  if conn.windowSize < len then conn.windowSize else len

section Send

variable (reply : Ip → List (Mac × Ip))

/-- `tcp_send` from its waiting loop on: the number of bytes it accepts, or `none` while it
waits for space. -/
def tcpSendRest (s : Net) (idx : ℕ) (data : List UInt8) (len : UInt32) : Option (UInt32 × Net) :=
  let conn := s.connections idx
  if conn.isValid && conn.txAckd + BUFFER_SIZE.toUInt32 == conn.txSendable then none
  else if !conn.isValid then some (0, s)
  else
    let len := txLength conn len
    let shouldSend := conn.txAckd == conn.txSendable
    let s := s.setConnection idx
      { conn with
        txBuffer := txFill conn.txSendable conn.txBuffer data len.toNat
        txSendable := conn.txSendable + len }
    some (len, if shouldSend then tcpPush reply s idx else s)

/-- `tcp_send`. -/
def tcpSend (s : Net) (idx : ℕ) (data : List UInt8) (len : UInt32) : Option (UInt32 × Net) :=
  if (s.connections idx).isClosed then some (0, s) else tcpSendRest reply s idx data len

end Send

/-! ### The transmit side -/

/-- The part of a connection the transmit ring is made of. -/
structure TxSide where
  txAckd : UInt32
  txSendable : UInt32
  txBuffer : ℕ → UInt8

/-- The transmit side of a connection. -/
def Connection.txSide (conn : Connection) : TxSide where
  txAckd := conn.txAckd
  txSendable := conn.txSendable
  txBuffer := conn.txBuffer

/-- A frame with a stretch of the ring: its segment starts at `tx_ackd` and carries the bytes
from there on, none of them beyond `tx_sendable`. -/
def FromRing (v : TxSide) (frame : List UInt8) : Prop :=
  (frameSegment frame).1.seq = v.txAckd
    ∧ ∃ m ≤ (v.txSendable - v.txAckd).toNat,
        (frameSegment frame).2 = ringSlice BUFFER_SIZE v.txBuffer (v.txAckd.toNat + 1) m

lemma tcpSegmentData_eq (conn : Connection) (len : UInt32) :
    tcpSegmentData conn len
      = ringSlice BUFFER_SIZE conn.txBuffer (conn.txAckd.toNat + 1) len.toNat :=
  List.map_congr_left fun i _ => by rw [slot_add]

lemma uint32_min_le (a b : UInt32) : min a b ≤ a := by
  change (if a ≤ b then a else b) ≤ a
  split
  · exact UInt32.le_refl a
  · rename_i hle
    exact UInt32.le_of_lt (UInt32.not_le.mp hle)

/-- What `tcp_push` sends is a stretch of the ring. -/
lemma tcpPush_emits (reply : Ip → List (Mac × Ip)) (s : Net) (idx : ℕ) :
    Emits s (tcpPush reply s idx) (FromRing (s.connections idx).txSide) := by
  refine (tcpWrite_emits reply s idx _ (by decide)).mono fun f hf => ?_
  refine ⟨hf.1, _, UInt32.le_iff_toNat_le.mp ?_, hf.2.trans (tcpSegmentData_eq _ _)⟩
  exact uint32_min_le _ _

/-! ### A segment on the transmit side -/

@[simp] lemma setConnection_sent (s : Net) (i : ℕ) (conn : Connection) :
    (s.setConnection i conn).sent = s.sent := rfl

@[simp] lemma tcpDelayAck_sent (s : Net) (i : ℕ) : (tcpDelayAck s i).sent = s.sent := by
  rw [tcpDelayAck]
  split <;> rfl

@[simp] lemma tcpDelayAck_txSide (s : Net) (i : ℕ) :
    ((tcpDelayAck s i).connections i).txSide = (s.connections i).txSide := by
  rw [tcpDelayAck]
  split
  · rw [setConnection_self]; rfl
  · rfl

lemma rxLoop_txSide (seq : UInt32) (n : ℕ) (j : UInt32) (packet : List UInt8)
    (conn : Connection) : (rxLoop seq n j packet conn).txSide = conn.txSide := by
  induction n generalizing j packet conn with
  | zero => rfl
  | succ n ih =>
      rw [rxLoop]
      split_ifs
      · exact ih _ _ _
      · rfl
      · rw [ih]; rfl
      · rfl

@[simp] lemma tcpSetWindow_txSide (s : Net) (i : ℕ) (h : TcpHeader) :
    ((tcpSetWindow s i h).connections i).txSide = (s.connections i).txSide := by
  rw [tcpSetWindow, setConnection_self]; rfl

lemma tcpData_sent (s : Net) (i : ℕ) (h : TcpHeader) (packet : List UInt8) (len : UInt32) :
    (tcpData s i h packet len).sent = s.sent := by
  simp only [tcpData]
  split
  · rw [tcpDelayAck_sent, setConnection_sent]
  · rfl

lemma tcpData_txSide (s : Net) (i : ℕ) (h : TcpHeader) (packet : List UInt8) (len : UInt32) :
    ((tcpData s i h packet len).connections i).txSide = (s.connections i).txSide := by
  simp only [tcpData]
  split
  · rw [tcpDelayAck_txSide, setConnection_self, rxLoop_txSide]
  · rfl

/-- What an acknowledgement does to the transmit side. -/
def TxSide.handleAck (v : TxSide) (h : TcpHeader) : TxSide :=
  if h.flags.ack then { v with txAckd := h.ack } else v

lemma tcpHandleFlags_sent (s : Net) (i : ℕ) (h : TcpHeader) :
    (tcpHandleFlags s i h).sent = s.sent :=
  tcpHandleFlags_keeps (P := fun t => t.sent = s.sent) h rfl (fun _ _ ht => ht)
    (fun t ht => (tcpDelayAck_sent t i).trans ht)

/-- Of the flags without SYN, only an acknowledgement reaches the transmit side. -/
lemma tcpHandleFlags_txSide (s : Net) (i : ℕ) (h : TcpHeader) (hsyn : h.flags.syn = false) :
    ((tcpHandleFlags s i h).connections i).txSide
      = (s.connections i).txSide.handleAck h := by
  have hack : ((tcpHandleAck s i h).connections i).txSide
      = (s.connections i).txSide.handleAck h := by
    rw [tcpHandleAck, TxSide.handleAck]
    split
    · rw [setConnection_self]; rfl
    · rfl
  have hfin : ∀ s : Net, ((tcpHandleFin s i h).connections i).txSide
      = (s.connections i).txSide := by
    intro s
    simp only [tcpHandleFin]
    split
    · have hdelay := tcpDelayAck_txSide (s.setConnection i
        { s.connections i with rxReadable := (s.connections i).rxReadable + 1 }) i
      rw [setConnection_self] at hdelay
      rw [setConnection_self]
      exact hdelay
    · rfl
  have hrst : ∀ s : Net, ((tcpHandleRst s i h).connections i).txSide
      = (s.connections i).txSide := by
    intro s
    rw [tcpHandleRst]
    split
    · rw [setConnection_self]; rfl
    · rfl
  simp only [tcpHandleFlags, tcpHandleSyn, hsyn, Bool.false_eq_true, if_false]
  rw [hrst, hfin, hack]

/-- A segment is handled without a frame going out, except perhaps for a push at the end. -/
lemma tcpInput_push (reply : Ip → List (Mac × Ip)) (s : Net) (i : ℕ) (h : TcpHeader)
    (packet : List UInt8) (len : UInt32) :
    ∃ s₁ : Net, s₁.sent = s.sent
      ∧ (s₁.connections i).txSide = ((tcpHandleFlags s i h).connections i).txSide
      ∧ (tcpInput reply s i h packet len = s₁
        ∨ tcpInput reply s i h packet len = tcpPush reply s₁ i) := by
  have hpayload : ∀ (s : Net) (packet : List UInt8), ∃ s₁ : Net, s₁.sent = s.sent
      ∧ (s₁.connections i).txSide = (s.connections i).txSide
      ∧ (tcpPayload reply s i h packet len = s₁
        ∨ tcpPayload reply s i h packet len = tcpPush reply s₁ i) := by
    intro s packet
    refine ⟨tcpData (tcpSetWindow s i h) i h packet len, ?_, ?_, ?_⟩
    · rw [tcpData_sent]; rfl
    · rw [tcpData_txSide, tcpSetWindow_txSide]
    · simp only [tcpPayload]
      split
      · exact Or.inr rfl
      · exact Or.inl rfl
  have hflags := tcpHandleFlags_sent s i h
  simp only [tcpInput]
  set s' := tcpHandleFlags s i h
  split
  · set o := tcpOptions (packet.length + 1) packet (s'.connections i).mss
      (s'.connections i).windowScale
    have hside : ((s'.setConnection i
        { s'.connections i with mss := o.1, windowScale := o.2.1 }).connections i).txSide
          = (s'.connections i).txSide := by
      rw [setConnection_self]; rfl
    split
    · obtain ⟨s₁, h1, h2, h3⟩ := hpayload (s'.setConnection i
        { s'.connections i with mss := o.1, windowScale := o.2.1 })
        (packet.drop (4 * h.flags.dataOffset - TCP_HEADER_LENGTH))
      exact ⟨s₁, h1.trans hflags, h2.trans hside, h3⟩
    · exact ⟨s'.setConnection i { s'.connections i with mss := o.1, windowScale := o.2.1 },
        hflags, hside, Or.inl rfl⟩
  · obtain ⟨s₁, h1, h2, h3⟩ := hpayload s' packet
    exact ⟨s₁, h1.trans hflags, h2, h3⟩

/-- **The transmit side of a segment** without SYN, and what it sends. -/
theorem tcpInput_txSide (reply : Ip → List (Mac × Ip)) (s : Net) (i : ℕ) (h : TcpHeader)
    (packet : List UInt8) (len : UInt32) (hsyn : h.flags.syn = false) :
    ((tcpInput reply s i h packet len).connections i).txSide
        = (s.connections i).txSide.handleAck h
      ∧ Emits s (tcpInput reply s i h packet len)
        (FromRing ((s.connections i).txSide.handleAck h)) := by
  obtain ⟨s₁, hsent, hside, hpush⟩ := tcpInput_push reply s i h packet len
  rw [tcpHandleFlags_txSide s i h hsyn] at hside
  cases hpush with
  | inl hpush =>
      rw [hpush]
      exact ⟨hside, Emits.of_eq hsent⟩
  | inr hpush =>
      rw [hpush, tcpPush_connections]
      have hemit := tcpPush_emits reply s₁ i
      rw [hside] at hemit
      exact ⟨hside, (Emits.of_eq hsent).trans hemit⟩

/-! ### Where a connection stands in the stream it sends -/

/-- Counted from the sequence number `base`, `a` bytes are acknowledged and `n` are accepted, and
these are at most a ring apart. -/
structure TxCounters (base : UInt32) (v : TxSide) (a n : ℕ) : Prop where
  ackd : v.txAckd = base + a.toUInt32
  sendable : v.txSendable = base + n.toUInt32
  le : a ≤ n
  bound : n ≤ a + BUFFER_SIZE

namespace TxCounters

variable {base : UInt32} {v : TxSide} {a n : ℕ}

lemma sendable_eq (h : TxCounters base v a n) : v.txSendable = v.txAckd + (n - a).toUInt32 := by
  have hadd : n.toUInt32 = a.toUInt32 + (n - a).toUInt32 := by
    rw [← toUInt32_add, Nat.add_sub_cancel' h.le]
  rw [h.sendable, h.ackd, hadd, UInt32.add_assoc]

lemma inFlight (h : TxCounters base v a n) : (v.txSendable - v.txAckd).toNat = n - a := by
  have hbound := h.bound
  rw [BUFFER_SIZE] at hbound
  rw [h.sendable_eq, toNat_sub_add _ (by omega)]

/-- The space `tcp_send` computes is what the ring has left. -/
lemma space (h : TxCounters base v a n) :
    (v.txAckd + BUFFER_SIZE.toUInt32 - v.txSendable).toNat = a + BUFFER_SIZE - n := by
  have hle := h.le
  have hbound := h.bound
  have hsplit : BUFFER_SIZE.toUInt32 = (n - a).toUInt32 + (a + BUFFER_SIZE - n).toUInt32 := by
    rw [← toUInt32_add]
    congr 1
    omega
  rw [h.sendable_eq, hsplit,
    show v.txAckd + ((n - a).toUInt32 + (a + BUFFER_SIZE - n).toUInt32)
        - (v.txAckd + (n - a).toUInt32) = (a + BUFFER_SIZE - n).toUInt32 by grind,
    toNat_toUInt32]
  rw [BUFFER_SIZE] at hbound ⊢
  omega

end TxCounters

lemma txLength_le (conn : Connection) (len : UInt32) :
    (txLength conn len).toNat ≤ len.toNat
      ∧ (txLength conn len).toNat
        ≤ (conn.txAckd + BUFFER_SIZE.toUInt32 - conn.txSendable).toNat := by
  simp only [txLength, UInt32.lt_iff_toNat_lt]
  split_ifs <;> omega

/-- What a call that accepts `m` bytes does to the transmit side. -/
def TxSide.accept (v : TxSide) (data : List UInt8) (m : ℕ) : TxSide :=
  { v with
    txSendable := v.txSendable + m.toUInt32
    txBuffer := txFill v.txSendable v.txBuffer data m }

/-- From `s` to `s'` connection `idx` takes the first `m` bytes of the data into its ring and
sends no more than a segment from there. -/
structure Accepts (idx : ℕ) (data : List UInt8) (m : ℕ) (s s' : Net) : Prop where
  txSide : (s'.connections idx).txSide = (s.connections idx).txSide.accept data m
  rxSide : (s'.connections idx).rxSide = (s.connections idx).rxSide
  others : ∀ k ≠ idx, s'.connections k = s.connections k
  emits : Emits s s' (FromRing (s'.connections idx).txSide)

lemma Accepts.refl (idx : ℕ) (data : List UInt8) (s : Net) : Accepts idx data 0 s s where
  txSide := by simp [TxSide.accept, txFill]
  rxSide := rfl
  others := fun _ _ => rfl
  emits := Emits.of_eq rfl

/-- **`tcp_send`** from its waiting loop on: it accepts a first part of the data. -/
theorem tcpSendRest_spec {reply : Ip → List (Mac × Ip)} {s s' : Net} {idx : ℕ}
    {data : List UInt8} {len m : UInt32}
    (h : tcpSendRest reply s idx data len = some (m, s')) :
    Accepts idx data m.toNat s s' ∧ m.toNat ≤ len.toNat
      ∧ m.toNat ≤ ((s.connections idx).txAckd + BUFFER_SIZE.toUInt32
          - (s.connections idx).txSendable).toNat := by
  have hle := txLength_le (s.connections idx) len
  simp only [tcpSendRest] at h
  split at h
  · cases h
  · split at h
    · obtain ⟨rfl, rfl⟩ := Prod.mk.inj (Option.some.inj h)
      exact ⟨Accepts.refl idx data s, Nat.zero_le _, Nat.zero_le _⟩
    · obtain ⟨rfl, hs'⟩ := Prod.mk.inj (Option.some.inj h)
      set m := txLength (s.connections idx) len
      set s₁ := s.setConnection idx
        { s.connections idx with
          txBuffer := txFill (s.connections idx).txSendable (s.connections idx).txBuffer data
            m.toNat
          txSendable := (s.connections idx).txSendable + m } with hs₁
      have hconn : s'.connections = s₁.connections ∧ Emits s s'
          (FromRing (s₁.connections idx).txSide) := by
        rw [← hs']
        split
        · exact ⟨tcpPush_connections reply s₁ idx,
            (Emits.of_eq rfl).trans (tcpPush_emits reply s₁ idx)⟩
        · exact ⟨rfl, Emits.of_eq rfl⟩
      refine ⟨⟨?_, ?_, fun k hk => ?_, ?_⟩, hle⟩
      · rw [hconn.1, hs₁, setConnection_self, TxSide.accept]
        simp [Connection.txSide]
      · rw [hconn.1, hs₁, setConnection_self]
        rfl
      · rw [hconn.1, hs₁, setConnection_of_ne _ _ hk]
      · rw [hconn.1]
        exact hconn.2

/-- The same holds of a call that does not wait. -/
lemma tcpSend_spec {reply : Ip → List (Mac × Ip)} {s s' : Net} {idx : ℕ}
    {data : List UInt8} {len m : UInt32} (h : tcpSend reply s idx data len = some (m, s')) :
    Accepts idx data m.toNat s s' ∧ m.toNat ≤ len.toNat
      ∧ m.toNat ≤ ((s.connections idx).txAckd + BUFFER_SIZE.toUInt32
          - (s.connections idx).txSendable).toNat := by
  rw [tcpSend] at h
  split at h
  · obtain ⟨rfl, rfl⟩ := Prod.mk.inj (Option.some.inj h)
    exact ⟨Accepts.refl idx data s, Nat.zero_le _, Nat.zero_le _⟩
  · exact tcpSendRest_spec h

/-! ### The bytes in the ring -/

/-- The copying loop puts the data behind what is in the ring, as long as it fits. -/
lemma ringSlice_txFill (Q : UInt32) (buf : ℕ → UInt8) (data : List UInt8) (d m : ℕ)
    (h : d + m ≤ BUFFER_SIZE) :
    ringSlice BUFFER_SIZE (txFill (Q + d.toUInt32) buf data m) (Q.toNat + 1) (d + m)
      = ringSlice BUFFER_SIZE buf (Q.toNat + 1) d ++ bytesAt data m := by
  induction m with
  | zero => simp [txFill, bytesAt]
  | succ m ih =>
      have hslot : (Q + d.toUInt32 + m.toUInt32 + 1).toNat % BUFFER_SIZE
          = (Q.toNat + 1 + (d + m)) % BUFFER_SIZE := by
        rw [UInt32.add_assoc Q, ← toUInt32_add, slot_add]
      have hfill : txFill (Q + d.toUInt32) buf data (m + 1)
          = Function.update (txFill (Q + d.toUInt32) buf data m)
              ((Q.toNat + 1 + (d + m)) % BUFFER_SIZE) (data.getD m 0) := by
        rw [txFill, List.range_succ, List.foldl_concat, hslot]
        rfl
      have hbytes : bytesAt data (m + 1) = bytesAt data m ++ [data.getD m 0] := by
        rw [bytesAt, List.range_succ, List.map_append, List.map_singleton]
        rfl
      calc ringSlice BUFFER_SIZE (txFill (Q + d.toUInt32) buf data (m + 1)) (Q.toNat + 1)
            (d + (m + 1))
          = ringSlice BUFFER_SIZE (txFill (Q + d.toUInt32) buf data m) (Q.toNat + 1) (d + m)
              ++ [data.getD m 0] := by rw [hfill]; exact ringSlice_push _ _ (by omega)
        _ = ringSlice BUFFER_SIZE buf (Q.toNat + 1) d ++ bytesAt data m ++ [data.getD m 0] := by
              rw [ih (by omega)]
        _ = ringSlice BUFFER_SIZE buf (Q.toNat + 1) d ++ bytesAt data (m + 1) := by
              rw [hbytes, List.append_assoc]

/-- Counted from `base`, the bytes `accepted` are accepted and the first `a` of them are
acknowledged; the ring holds the others. -/
structure TxAt (base : UInt32) (v : TxSide) (a : ℕ) (accepted : List UInt8) : Prop where
  counters : TxCounters base v a accepted.length
  ring : ringSlice BUFFER_SIZE v.txBuffer (v.txAckd.toNat + 1) (accepted.length - a)
    = accepted.drop a

/-- Accepting bytes that fit keeps the counters a ring apart. -/
lemma TxCounters.accept {base : UInt32} {v : TxSide} {a n : ℕ} (h : TxCounters base v a n)
    (data : List UInt8) {m : ℕ}
    (hm : m ≤ (v.txAckd + BUFFER_SIZE.toUInt32 - v.txSendable).toNat) :
    TxCounters base (v.accept data m) a (n + m) := by
  rw [h.space] at hm
  have hle := h.le
  have hbound := h.bound
  refine ⟨h.ackd, ?_, by omega, by omega⟩
  calc (v.accept data m).txSendable = v.txSendable + m.toUInt32 := rfl
    _ = base + (n + m).toUInt32 := by rw [h.sendable, toUInt32_add, UInt32.add_assoc]

namespace TxAt

variable {base : UInt32} {v : TxSide} {a : ℕ} {accepted : List UInt8}

/-- **Accepting bytes** that fit puts them behind those that wait in the ring. -/
theorem accept (h : TxAt base v a accepted) (data : List UInt8) {m : ℕ}
    (hm : m ≤ (v.txAckd + BUFFER_SIZE.toUInt32 - v.txSendable).toNat) :
    TxAt base (v.accept data m) a (accepted ++ bytesAt data m) := by
  have hcounters := h.counters.accept data hm
  have hle := h.counters.le
  have hbound := hcounters.bound
  rw [h.counters.space] at hm
  refine ⟨by simpa using hcounters, ?_⟩
  have hlen : (accepted ++ bytesAt data m).length - a = accepted.length - a + m := by
    simp
    omega
  calc ringSlice BUFFER_SIZE (v.accept data m).txBuffer ((v.accept data m).txAckd.toNat + 1)
        ((accepted ++ bytesAt data m).length - a)
      = ringSlice BUFFER_SIZE
          (txFill (v.txAckd + (accepted.length - a).toUInt32) v.txBuffer data m)
          (v.txAckd.toNat + 1) (accepted.length - a + m) := by
        rw [hlen, ← h.counters.sendable_eq]; rfl
    _ = ringSlice BUFFER_SIZE v.txBuffer (v.txAckd.toNat + 1) (accepted.length - a)
          ++ bytesAt data m := ringSlice_txFill _ _ _ _ _ (by omega)
    _ = (accepted ++ bytesAt data m).drop a := by
        rw [h.ring, List.drop_append_of_le_length hle]

/-- **An acknowledgement** between `tx_ackd` and `tx_sendable` drops the bytes before it. -/
theorem acknowledge (h : TxAt base v a accepted) {p : ℕ} (hap : a ≤ p)
    (hp : p ≤ accepted.length) :
    TxAt base { v with txAckd := base + p.toUInt32 } p accepted := by
  have hbound := h.counters.bound
  refine ⟨⟨rfl, h.counters.sendable, hp, by omega⟩, ?_⟩
  have hsplit : accepted.length - a = (p - a) + (accepted.length - p) := by omega
  have hring := h.ring
  rw [hsplit, ringSlice_add] at hring
  have hdrop := congrArg (List.drop (p - a)) hring
  rw [List.drop_left' (ringSlice_length _ _ _ _), List.drop_drop,
    Nat.add_sub_cancel' hap] at hdrop
  rw [← hdrop]
  refine ringSlice_congr _ _ ?_
  have hp' : base + p.toUInt32 = v.txAckd + (p - a).toUInt32 := by
    rw [h.counters.ackd, UInt32.add_assoc, ← toUInt32_add, Nat.add_sub_cancel' hap]
  rw [hp', Nat.ModEq, UInt32.toNat_add, toNat_toUInt32, BUFFER_SIZE]
  omega

/-- What goes out is a stretch of the accepted bytes, under the number of its first one. -/
lemma fromRing (h : TxAt base v a accepted) {frame : List UInt8} (hf : FromRing v frame) :
    (frameSegment frame).1.seq = base + a.toUInt32
      ∧ (frameSegment frame).2 = (accepted.drop a).take (frameSegment frame).2.length := by
  obtain ⟨hseq, m, hm, hdata⟩ := hf
  refine ⟨hseq.trans h.counters.ackd, ?_⟩
  rw [h.counters.inFlight] at hm
  have hsplit : accepted.length - a = m + (accepted.length - a - m) := by omega
  rw [hdata, ringSlice_length, ← h.ring, hsplit, ringSlice_add,
    List.take_left' (ringSlice_length _ _ _ _)]

end TxAt

end CustomLinuxOs
