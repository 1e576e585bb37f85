import CustomLinuxOs.Foundations.Run
import CustomLinuxOs.Networking.RxRing

/-!
The receive side of one connection as a system that takes steps.

* `RxEvent`, `rxStep`: a segment arrives, or the reader calls `tcp_recv`; the state keeps all
  bytes returned so far.
* `AfterSyn`: the connection once the peer's SYN is processed.
* `Carries`: an intact segment with a stretch of the peer's stream `D`, with or without FIN.
* `RxOpen`: the connection is open under its ports, and segments with these ports reach it.
* `afterFin`, `storedLength`: a FIN counts as one more readable byte, and of the payload so many
  bytes are stored.  `parse_found` says that this is all a segment does to the receive side.
* `segment_rxSide`, `recv_delivered`: what the two events do on an open connection.
* `SolePort`, `FromPeer`, `parse_rxSide`: a segment without SYN and RST to a connection that has
  its port for itself.
-/

namespace CustomLinuxOs

/-! ### Events -/

/-- What happens on the receive side of a connection. -/
inductive RxEvent where
  | segment (packet : List UInt8) (len : UInt32)
  | recv (len : UInt32)

/-- One event: `tcp_parse_packet` on a segment, or `tcp_recv` once data is available.  The
second component of the state collects the bytes `tcp_recv` has returned. -/
def rxStep (reply : Ip → List (Mac × Ip)) (idx : ℕ) :
    Net × List UInt8 → RxEvent → Option (Net × List UInt8)
  | t, .segment packet len => some (tcpParsePacket reply t.1 packet len, t.2)
  | t, .recv len => (tcpRecv reply t.1 idx len).map fun r => (r.2, t.2 ++ r.1)

/-- Segments with the ports of connection `idx` are found to belong to it. -/
def Owns (s : Net) (idx : ℕ) : Prop :=
  ∀ h : TcpHeader, h.destPort = (s.connections idx).sourcePort →
    h.sourcePort = (s.connections idx).destPort → findConnection s h = some idx

/-- The SYN with sequence number `s0` has been processed on connection `idx`. -/
structure AfterSyn (s : Net) (idx : ℕ) (s0 : UInt32) : Prop where
  valid : (s.connections idx).isValid = true
  notClosed : (s.connections idx).isClosed = false
  read : (s.connections idx).rxRead = s0 + 1
  readable : (s.connections idx).rxReadable = s0 + 1
  owns : Owns s idx

/-- An intact segment to the connection `conn` that carries the bytes `a ≤ i < b` of `D`, the
first of them under the sequence number `s0 + 1 + a`. -/
structure Carries (conn : Connection) (s0 : UInt32) (D : List UInt8) (a b : ℕ) (fin : Bool)
    (packet : List UInt8) (len : UInt32) : Prop where
  le : a ≤ b
  bound : b ≤ D.length
  destPort : (readTcpHeader packet).1.destPort = conn.sourcePort
  sourcePort : (readTcpHeader packet).1.sourcePort = conn.destPort
  seq : (readTcpHeader packet).1.seq = s0 + 1 + a.toUInt32
  syn : (readTcpHeader packet).1.flags.syn = false
  fin : (readTcpHeader packet).1.flags.fin = fin
  rst : (readTcpHeader packet).1.flags.rst = false
  header : 5 ≤ (readTcpHeader packet).1.flags.dataOffset
  len : len.toNat = (readTcpHeader packet).1.flags.dataOffset * 4 + (b - a)
  payload : bytesAt (payloadOf (readTcpHeader packet).1 (readTcpHeader packet).2) (b - a)
    = (D.drop a).take (b - a)

/-- Two views of a connection under the same ports. -/
def SamePorts (c d : Connection) : Prop := c.sourcePort = d.sourcePort ∧ c.destPort = d.destPort

namespace SamePorts

variable {c d e : Connection}

lemma symm (h : SamePorts c d) : SamePorts d c := ⟨h.1.symm, h.2.symm⟩

lemma trans (h : SamePorts c d) (h' : SamePorts d e) : SamePorts c e :=
  ⟨h.1.trans h'.1, h.2.trans h'.2⟩

lemma of_rxSide (h : c.rxSide = d.rxSide) : SamePorts c d :=
  ⟨congrArg RxSide.sourcePort h, congrArg RxSide.destPort h⟩

end SamePorts

/-- The payload of the segment is reached: it has no options, or its option loop ends. -/
def payloadReached (packet : List UInt8) : Bool :=
  optionsComplete (readTcpHeader packet).1 (readTcpHeader packet).2

/-- The payload of the segment, as the data loop reads it. -/
def segmentPayload (packet : List UInt8) : List UInt8 :=
  payloadOf (readTcpHeader packet).1 (readTcpHeader packet).2

lemma dataOffset_lt (packet : List UInt8) :
    (readTcpHeader packet).1.flags.dataOffset < 16 := by
  have key : ∀ b : UInt8, (b >>> 4).toNat < 16 := by
    intro b
    have hb := b.toNat_lt
    rw [UInt8.toNat_shiftRight, show (4 : UInt8).toNat % 8 = 4 from rfl,
      Nat.shiftRight_eq_div_pow, show 2 ^ 4 = 16 from rfl]
    omega
  exact key _

namespace Carries

variable {c d : Connection} {s0 : UInt32} {D : List UInt8} {a b : ℕ} {fin : Bool}
  {packet : List UInt8} {len : UInt32}

lemma payloadLength (h : Carries c s0 D a b fin packet len) :
    payloadLength (readTcpHeader packet).1 len = b - a := by
  have hoff := dataOffset_lt packet
  rw [CustomLinuxOs.payloadLength, toNat_toUInt32, Nat.mod_eq_of_lt (by omega), h.len]
  omega

lemma length_lt (h : Carries c s0 D a b fin packet len) : b - a + 20 < 2 ^ 32 := by
  have hlen := h.len
  have hheader := h.header
  have := len.toNat_lt
  omega

lemma congr (h : Carries c s0 D a b fin packet len) (hports : SamePorts c d) :
    Carries d s0 D a b fin packet len :=
  { h with
    destPort := h.destPort.trans hports.1
    sourcePort := h.sourcePort.trans hports.2 }

/-- The first bytes of the payload are bytes of the stream. -/
lemma bytesAt_payload (h : Carries c s0 D a b fin packet len) {m : ℕ} (hm : m ≤ b - a) :
    bytesAt (segmentPayload packet) m = (D.drop a).take m := by
  rw [← bytesAt_take hm, segmentPayload, h.payload, List.take_take, Nat.min_eq_left hm]

end Carries

/-! ### Open connections -/

/-- Which connection a segment is for depends on the receive sides alone. -/
lemma findConnection_congr {s s' : Net} (h : TcpHeader)
    (hall : ∀ k, (s'.connections k).rxSide = (s.connections k).rxSide ∨
      (s'.connections k).isValid = (s.connections k).isValid
        ∧ (s'.connections k).sourcePort = (s.connections k).sourcePort
        ∧ (s'.connections k).destPort = (s.connections k).destPort) :
    findConnection s' h = findConnection s h := by
  rw [findConnection, findConnection]
  congr 1
  funext k
  rcases hall k with hk | ⟨h1, h2, h3⟩
  · rw [show (s'.connections k).isValid = (s.connections k).isValid from
        congrArg RxSide.isValid hk,
      show (s'.connections k).sourcePort = (s.connections k).sourcePort from
        congrArg RxSide.sourcePort hk,
      show (s'.connections k).destPort = (s.connections k).destPort from
        congrArg RxSide.destPort hk]
  · rw [h1, h2, h3]

/-- Connection `idx` is valid under its ports, the peer has not closed it, and segments with these
ports reach it. -/
structure RxOpen (idx : ℕ) (ports : UInt16 × UInt16) (s : Net) : Prop where
  valid : (s.connections idx).isValid = true
  notClosed : (s.connections idx).isClosed = false
  sourcePort : (s.connections idx).sourcePort = ports.1
  destPort : (s.connections idx).destPort = ports.2
  owns : Owns s idx

lemma AfterSyn.rxOpen {s : Net} {idx : ℕ} {s0 : UInt32} (h : AfterSyn s idx s0) :
    RxOpen idx ((s.connections idx).sourcePort, (s.connections idx).destPort) s :=
  ⟨h.valid, h.notClosed, rfl, rfl, h.owns⟩

lemma AfterSyn.rxAt {s : Net} {idx : ℕ} {s0 : UInt32} (h : AfterSyn s idx s0) :
    RxAt (s0 + 1) (s.connections idx) 0 0 :=
  ⟨by simp [h.read], by simp [h.readable], le_rfl, by simp [BUFFER_SIZE]⟩

/-- Nothing is readable yet. -/
lemma AfterSyn.distance {s : Net} {idx : ℕ} {s0 : UInt32} (h : AfterSyn s idx s0) :
    ((s.connections idx).rxReadable - (s.connections idx).rxRead).toNat = 0 := by
  rw [h.readable, h.read, UInt32.sub_self, UInt32.toNat_zero]

lemma AfterSyn.pending {s : Net} {idx : ℕ} {s0 : UInt32} (h : AfterSyn s idx s0) :
    rxPending (s.connections idx) = [] :=
  List.eq_nil_of_length_eq_zero (by rw [rxPending, ringSlice_length, h.distance])

namespace RxOpen

variable {idx : ℕ} {ports : UInt16 × UInt16} {s s' : Net}

/-- A connection stays open when the counters and the ring change, and nothing else. -/
lemma of_rest (h : RxOpen idx ports s)
    (hvalid : (s'.connections idx).isValid = (s.connections idx).isValid)
    (hclosed : (s'.connections idx).isClosed = (s.connections idx).isClosed)
    (hports : SamePorts (s'.connections idx) (s.connections idx))
    (hother : ∀ k ≠ idx, s'.connections k = s.connections k) : RxOpen idx ports s' := by
  refine ⟨hvalid.trans h.valid, hclosed.trans h.notClosed, hports.1.trans h.sourcePort,
    hports.2.trans h.destPort, ?_⟩
  intro hd h1 h2
  rw [findConnection_congr hd (s := s) fun k => ?_]
  · exact h.owns hd (h1.trans hports.1) (h2.trans hports.2)
  · by_cases hk : k = idx
    · subst hk
      exact Or.inr ⟨hvalid, hports⟩
    · exact Or.inl (congrArg Connection.rxSide (hother k hk))

end RxOpen

/-! ### What a segment stores -/

/-- What the flag handling does to an open connection: a FIN counts as one more readable byte. -/
def countFin (fin : Bool) (conn : Connection) : Connection :=
  if fin then { conn with rxReadable := conn.rxReadable + 1, isClosed := true } else conn

/-- The connection as the data loop of a segment finds it. -/
def afterFin (packet : List UInt8) (conn : Connection) : Connection :=
  countFin ((readTcpHeader packet).1.flags.fin && !conn.isClosed) conn

/-- How many bytes a segment puts into the ring. -/
def storedLength (packet : List UInt8) (len : UInt32) (conn : Connection) : ℕ :=
  let seq := (readTcpHeader packet).1.seq
  let n := payloadLength (readTcpHeader packet).1 len
  if payloadReached packet ∧ seq ≤ conn.rxReadable ∧ (conn.rxReadable - seq).toNat < n then
    rxRoom conn.rxRead conn.rxReadable (n - (conn.rxReadable - seq).toNat)
  else 0

/-- The test keeps a slot free while one is free. -/
lemma storedLength_room (packet : List UInt8) (len : UInt32) {conn : Connection} {d : ℕ}
    (hd : d < BUFFER_SIZE) (hR : conn.rxReadable = conn.rxRead + d.toUInt32) :
    d + storedLength packet len conn < BUFFER_SIZE := by
  simp only [storedLength]
  split
  · rw [hR, rxRoom_eq _ hd]
    split <;> omega
  · exact hd

/-- With no slot free a byte is stored only at the last number. -/
lemma storedLength_full (packet : List UInt8) (len : UInt32) {conn : Connection}
    (hR : conn.rxReadable = conn.rxRead + BUFFER_SIZE.toUInt32) :
    0 < storedLength packet len conn ↔ conn.rxReadable = 0xFFFFFFFF ∧ payloadReached packet = true
      ∧ (0xFFFFFFFF - (readTcpHeader packet).1.seq).toNat
        < payloadLength (readTcpHeader packet).1 len := by
  simp only [storedLength]
  constructor
  · intro h
    split at h
    · rename_i hreach
      obtain ⟨k, hk⟩ := Nat.exists_eq_succ_of_ne_zero (Nat.sub_ne_zero_of_lt hreach.2.2)
      rw [hk, Nat.succ_eq_add_one, rxRoom_full hR] at h
      rw [h] at hreach
      exact ⟨h, hreach.1, hreach.2.2⟩
    · exact absurd h (lt_irrefl 0)
  · rintro ⟨hlast, hreached, hn⟩
    have hle : (readTcpHeader packet).1.seq ≤ conn.rxReadable := by
      rw [hlast, UInt32.le_iff_toNat_le]
      exact Nat.le_of_lt_succ (readTcpHeader packet).1.seq.toNat_lt
    rw [← hlast] at hn
    rw [if_pos ⟨hreached, hle, hn⟩]
    obtain ⟨k, hk⟩ := Nat.exists_eq_succ_of_ne_zero (Nat.sub_ne_zero_of_lt hn)
    rw [hk, Nat.succ_eq_add_one, rxRoom_full hR]
    exact hlast

/-- What is stored begins where the next byte lies in the payload. -/
lemma storedLength_add_le (packet : List UInt8) (len : UInt32) {conn : Connection}
    (h : 0 < storedLength packet len conn) :
    storedLength packet len conn + (conn.rxReadable - (readTcpHeader packet).1.seq).toNat
      ≤ payloadLength (readTcpHeader packet).1 len := by
  simp only [storedLength] at h ⊢
  split at h
  · rename_i hreach
    have hle := rxRoom_le conn.rxRead conn.rxReadable (payloadLength (readTcpHeader packet).1 len
      - (conn.rxReadable - (readTcpHeader packet).1.seq).toNat)
    rw [if_pos hreach]
    omega
  · exact absurd h (lt_irrefl 0)

lemma storedLength_le (packet : List UInt8) (len : UInt32) (conn : Connection) :
    storedLength packet len conn ≤ payloadLength (readTcpHeader packet).1 len := by
  rcases Nat.eq_zero_or_pos (storedLength packet len conn) with h | h
  · rw [h]
    exact Nat.zero_le _
  · exact (Nat.le_add_right _ _).trans (storedLength_add_le packet len h)

lemma payloadLength_lt {packet : List UInt8} (len : UInt32)
    (hheader : 5 ≤ (readTcpHeader packet).1.flags.dataOffset) :
    payloadLength (readTcpHeader packet).1 len + 20 < 2 ^ 32 := by
  have hoff := dataOffset_lt packet
  have hlen := len.toNat_lt
  rw [payloadLength, toNat_toUInt32, Nat.mod_eq_of_lt (by omega)]
  omega

/-- What `rxStore` leaves alone. -/
lemma stored_rest {c d : Connection} {bytes : List UInt8}
    (h : c.rxSide = (rxStore bytes d).rxSide) :
    c.isValid = d.isValid ∧ c.isClosed = d.isClosed ∧ SamePorts c d := by
  obtain ⟨hvalid, hclosed, hports⟩ := rxStore_rest bytes d
  exact ⟨(congrArg RxSide.isValid h).trans hvalid, (congrArg RxSide.isClosed h).trans hclosed,
    (SamePorts.of_rxSide h).trans hports⟩

/-- **A segment found to be for connection `idx`**, without SYN and RST: the flags are handled, and
then the first `storedLength` bytes of the payload are stored. -/
theorem parse_found (reply : Ip → List (Mac × Ip)) {s : Net} {idx : ℕ} {packet : List UInt8}
    (hfind : findConnection s (readTcpHeader packet).1 = some idx)
    (hsyn : (readTcpHeader packet).1.flags.syn = false)
    (hrst : (readTcpHeader packet).1.flags.rst = false) (len : UInt32) :
    tcpParsePacket reply s packet len
        = tcpInput reply s idx (readTcpHeader packet).1 (readTcpHeader packet).2 len
      ∧ ((tcpParsePacket reply s packet len).connections idx).rxSide
        = (rxStore (bytesAt (segmentPayload packet)
            (storedLength packet len (afterFin packet (s.connections idx))))
          (afterFin packet (s.connections idx))).rxSide
      ∧ ∀ k ≠ idx, (tcpParsePacket reply s packet len).connections k = s.connections k := by
  set h := (readTcpHeader packet).1 with hh
  set p := (readTcpHeader packet).2 with hp
  set conn := afterFin packet (s.connections idx) with hconn
  have hparse : tcpParsePacket reply s packet len = tcpInput reply s idx h p len := by
    simp only [tcpParsePacket, ← hh, hfind, ← hp]
  have hflags : ((tcpHandleFlags s idx h).connections idx).rxSide = conn.rxSide := by
    rw [tcpHandleFlags_rxSide _ _ _ hsyn hrst, hconn, afterFin, countFin]
    split <;> rfl
  refine ⟨hparse, ?_, fun k hk => ?_⟩
  · rw [hparse, tcpInput_rxSide reply s idx h p len hflags, rxLoop_eq, storedLength, payloadReached,
      segmentPayload, ← hh, ← hp]
    split_ifs with h1 h2 h3 h3 h3
    · rfl
    · exact absurd ⟨h1, h2⟩ h3
    · exact absurd h3.2 h2
    · rfl
    · exact absurd h3.1 h1
    · rfl
  · rw [hparse, tcpInput_of_ne reply s h p len hk]

lemma RxOpen.of_stored {idx : ℕ} {ports : UInt16 × UInt16} {s s' : Net} {bytes : List UInt8}
    (h : RxOpen idx ports s)
    (hside : (s'.connections idx).rxSide = (rxStore bytes (s.connections idx)).rxSide)
    (hother : ∀ k ≠ idx, s'.connections k = s.connections k) : RxOpen idx ports s' := by
  obtain ⟨hvalid, hclosed, hports⟩ := stored_rest hside
  exact h.of_rest hvalid hclosed hports hother

/-! ### What the events do -/

/-- The bytes given to the reader followed by those waiting for it. -/
def delivered (idx : ℕ) (t : Net × List UInt8) : List UInt8 :=
  t.2 ++ rxPending (t.1.connections idx)

section Steps

variable {reply : Ip → List (Mac × Ip)} {idx : ℕ} {ports : UInt16 × UInt16} {s0 : UInt32}
  {D : List UInt8} {s : Net} {t u : Net × List UInt8}

variable (reply) in
/-- A segment of the stream on the receive side of an open connection. -/
theorem segment_rxSide (hopen : RxOpen idx ports s) {a b : ℕ} {fin : Bool}
    {packet : List UInt8} {len : UInt32}
    (hseg : Carries (s.connections idx) s0 D a b fin packet len) :
    ((tcpParsePacket reply s packet len).connections idx).rxSide
        = (rxStore (bytesAt (segmentPayload packet)
            (storedLength packet len (countFin fin (s.connections idx))))
          (countFin fin (s.connections idx))).rxSide
      ∧ ∀ k ≠ idx, (tcpParsePacket reply s packet len).connections k = s.connections k := by
  have hfind := hopen.owns _ hseg.destPort hseg.sourcePort
  have hfin : afterFin packet (s.connections idx) = countFin fin (s.connections idx) := by
    rw [afterFin, hseg.fin, hopen.notClosed, Bool.not_false, Bool.and_true]
  rw [← hfin]
  exact (parse_found reply hfind hseg.syn hseg.rst len).2

/-- **A call of `tcp_recv`** moves bytes from the ring to the reader. -/
theorem recv_delivered (hvalid : (t.1.connections idx).isValid = true) {len : UInt32}
    (hu : rxStep reply idx t (.recv len) = some u) :
    delivered idx u = delivered idx t
      ∧ u.2 = t.2 ++ (rxPending (t.1.connections idx)).take len.toNat := by
  rw [rxStep, Option.map_eq_some_iff] at hu
  obtain ⟨⟨bytes, s'⟩, hrecv, rfl⟩ := hu
  obtain ⟨hbytes, -, -⟩ := tcpRecv_spec hvalid hrecv
  refine ⟨?_, by rw [hbytes]⟩
  rw [delivered, delivered, List.append_assoc, rxPending_recv hvalid hrecv]

/-- A call on an open connection leaves it open and takes what it returns off the ring. -/
lemma recv_open (hopen : RxOpen idx ports t.1) {base : UInt32} {r : ℕ}
    (hat : RxAt base (t.1.connections idx) t.2.length r) {len : UInt32}
    (hu : rxStep reply idx t (.recv len) = some u) :
    RxOpen idx ports u.1 ∧ RxAt base (u.1.connections idx) u.2.length r := by
  rw [rxStep, Option.map_eq_some_iff] at hu
  obtain ⟨⟨bytes, s'⟩, hrecv, rfl⟩ := hu
  obtain ⟨-, hside, hother⟩ := tcpRecv_spec hopen.valid hrecv
  have hlen : bytes.length ≤ r - t.2.length := by
    have := hat.pending_length
    rw [← rxPending_recv hopen.valid hrecv, List.length_append] at this
    omega
  have hle := hat.le
  have hlt := hat.lt
  constructor
  · refine hopen.of_rest ?_ (congrArg RxSide.isClosed hside)
      ⟨congrArg RxSide.sourcePort hside, congrArg RxSide.destPort hside⟩ hother
    rw [show (s'.connections idx).isValid = _ from congrArg RxSide.isValid hside, hopen.valid,
      hopen.notClosed]
    rfl
  · refine ⟨?_, ?_, ?_, ?_⟩
    · rw [show (s'.connections idx).rxRead = _ from congrArg RxSide.rxRead hside,
        List.length_append, toUInt32_add, ← UInt32.add_assoc, ← hat.read]
    · rw [show (s'.connections idx).rxReadable = _ from congrArg RxSide.rxReadable hside]
      exact hat.readable
    · show (t.2 ++ bytes).length ≤ r
      rw [List.length_append]
      omega
    · show r - (t.2 ++ bytes).length < BUFFER_SIZE
      rw [List.length_append]
      omega

end Steps

/-! ### Segments by their ports -/

/-- No other valid connection has the source port of `idx`; `tcp_connect` takes a free one. -/
structure SolePort (s : Net) (idx : ℕ) : Prop where
  lt : idx < NUM_CONNECTIONS
  sole : ∀ k < NUM_CONNECTIONS, (s.connections k).isValid = true →
    (s.connections k).sourcePort = (s.connections idx).sourcePort → k = idx

/-- A segment to the connection `conn`, without SYN and RST. -/
structure FromPeer (conn : Connection) (packet : List UInt8) : Prop where
  destPort : (readTcpHeader packet).1.destPort = conn.sourcePort
  sourcePort : (readTcpHeader packet).1.sourcePort = conn.destPort
  syn : (readTcpHeader packet).1.flags.syn = false
  rst : (readTcpHeader packet).1.flags.rst = false

lemma FromPeer.congr {c d : Connection} {packet : List UInt8} (h : FromPeer c packet)
    (hports : SamePorts c d) : FromPeer d packet :=
  { h with
    destPort := h.destPort.trans hports.1
    sourcePort := h.sourcePort.trans hports.2 }

namespace SolePort

variable {s s' : Net} {idx : ℕ}

/-- A segment is for the connection as long as that is valid, and for none afterwards. -/
lemma find (h : SolePort s idx) {packet : List UInt8}
    (hpeer : FromPeer (s.connections idx) packet) :
    findConnection s (readTcpHeader packet).1
      = if (s.connections idx).isValid then some idx else none := by
  cases hf : findConnection s (readTcpHeader packet).1 with
  | none =>
      have hall := List.find?_eq_none.mp hf idx (List.mem_range.mpr h.lt)
      rw [hpeer.destPort, hpeer.sourcePort, beq_self_eq_true, beq_self_eq_true,
        Bool.and_true, Bool.and_true] at hall
      rw [if_neg hall]
  | some k =>
      have hk := List.mem_range.mp (List.mem_of_find?_eq_some hf)
      have hmatch := List.find?_some hf
      simp only [Bool.and_eq_true, beq_iff_eq] at hmatch
      obtain rfl := h.sole k hk hmatch.1.1 (hmatch.1.2.trans hpeer.destPort)
      rw [if_pos hmatch.1.1]

/-- Once the connection is gone a segment of its peer does nothing. -/
lemma ignored (h : SolePort s idx) (hvalid : (s.connections idx).isValid = false)
    {packet : List UInt8} (hpeer : FromPeer (s.connections idx) packet)
    (reply : Ip → List (Mac × Ip)) (len : UInt32) : tcpParsePacket reply s packet len = s := by
  have hfind := h.find hpeer
  rw [hvalid, if_neg Bool.false_ne_true] at hfind
  simp only [tcpParsePacket, hfind]

lemma of_rest (h : SolePort s idx)
    (hport : (s'.connections idx).sourcePort = (s.connections idx).sourcePort)
    (hother : ∀ k ≠ idx, s'.connections k = s.connections k) : SolePort s' idx := by
  refine ⟨h.lt, fun k hk hvalid hkport => ?_⟩
  by_contra hne
  rw [hother k hne, hport] at hkport
  rw [hother k hne] at hvalid
  exact hne (h.sole k hk hvalid hkport)

end SolePort

/-- A segment to a valid connection. -/
theorem parse_rxSide (reply : Ip → List (Mac × Ip)) {s : Net} {idx : ℕ} (hsole : SolePort s idx)
    (hvalid : (s.connections idx).isValid = true) {packet : List UInt8}
    (hpeer : FromPeer (s.connections idx) packet) (len : UInt32) :
    tcpParsePacket reply s packet len
        = tcpInput reply s idx (readTcpHeader packet).1 (readTcpHeader packet).2 len
      ∧ ((tcpParsePacket reply s packet len).connections idx).rxSide
        = (rxStore (bytesAt (segmentPayload packet)
            (storedLength packet len (afterFin packet (s.connections idx))))
          (afterFin packet (s.connections idx))).rxSide
      ∧ ∀ k ≠ idx, (tcpParsePacket reply s packet len).connections k = s.connections k := by
  have hfind : findConnection s (readTcpHeader packet).1 = some idx := by
    rw [hsole.find hpeer, if_pos hvalid]
  exact parse_found reply hfind hpeer.syn hpeer.rst len

/-- The connection is valid, under the ports of `c`, and has its port for itself. -/
structure Reached (idx : ℕ) (c : Connection) (s : Net) : Prop where
  valid : (s.connections idx).isValid = true
  ports : SamePorts c (s.connections idx)
  sole : SolePort s idx

/-- Such a segment leaves the connection valid and under its ports. -/
lemma parse_rest (reply : Ip → List (Mac × Ip)) {s : Net} {idx : ℕ} (hsole : SolePort s idx)
    (hvalid : (s.connections idx).isValid = true) {packet : List UInt8}
    (hpeer : FromPeer (s.connections idx) packet) (len : UInt32) :
    ((tcpParsePacket reply s packet len).connections idx).isValid = true
      ∧ SamePorts ((tcpParsePacket reply s packet len).connections idx) (s.connections idx)
      ∧ SolePort (tcpParsePacket reply s packet len) idx := by
  have hfin : (afterFin packet (s.connections idx)).isValid = (s.connections idx).isValid
      ∧ SamePorts (afterFin packet (s.connections idx)) (s.connections idx) := by
    rw [afterFin, countFin]
    split <;> exact ⟨rfl, rfl, rfl⟩
  obtain ⟨-, hside, hother⟩ := parse_rxSide reply hsole hvalid hpeer len
  obtain ⟨hv, -, hports⟩ := stored_rest hside
  have hsame := hports.trans hfin.2
  exact ⟨hv.trans (hfin.1.trans hvalid), hsame, hsole.of_rest hsame.1 hother⟩

/-! ### A small connection -/

/-- A connection just after the peer's SYN with sequence number `0`. -/
def afterSynNet : Net :=
  Net.boot.setConnection 0
    { Connection.zero with
      isValid := true, isOpen := true, sourcePort := 0x8000, destPort := 80,
      rxRead := 1, rxReadable := 1 }

/-- A segment without options from port 80. -/
def segmentOf (seq : UInt32) (flags : UInt8) (payload : List UInt8) : List UInt8 :=
  writeU16 80 ++ writeU16 0x8000 ++ writeU32 seq ++ writeU32 0 ++ [0x50, flags]
    ++ writeU16 2048 ++ writeU16 0 ++ writeU16 0 ++ payload

lemma afterSynNet_afterSyn : AfterSyn afterSynNet 0 0 where
  valid := rfl
  notClosed := rfl
  read := rfl
  readable := rfl
  owns := by
    intro h hd hs
    have hfirst : (afterSynNet.connections 0).isValid = true := rfl
    rw [findConnection, show NUM_CONNECTIONS = 7 + 1 from rfl, List.range_succ_eq_map,
      List.find?_cons_of_pos (by simp [hd, hs, hfirst])]

/-- The same connection after a SYN with any sequence number. -/
def afterSynNetAt (s0 : UInt32) : Net :=
  Net.boot.setConnection 0
    { Connection.zero with
      isValid := true, isOpen := true, sourcePort := 0x8000, destPort := 80,
      rxRead := s0 + 1, rxReadable := s0 + 1 }

lemma afterSynNetAt_solePort (s0 : UInt32) : SolePort (afterSynNetAt s0) 0 := by
  refine ⟨by decide, fun k _ hvalid _ => ?_⟩
  by_contra hk
  rw [show (afterSynNetAt s0).connections k = Connection.zero from
    Function.update_of_ne hk _ _] at hvalid
  cases hvalid

lemma afterSynNetAt_afterSyn (s0 : UInt32) : AfterSyn (afterSynNetAt s0) 0 s0 where
  valid := rfl
  notClosed := rfl
  read := rfl
  readable := rfl
  owns := by
    intro h hd hs
    have hfirst : ((afterSynNetAt s0).connections 0).isValid = true := rfl
    rw [findConnection, show NUM_CONNECTIONS = 7 + 1 from rfl, List.range_succ_eq_map,
      List.find?_cons_of_pos (by simp [hd, hs, hfirst])]

end CustomLinuxOs
