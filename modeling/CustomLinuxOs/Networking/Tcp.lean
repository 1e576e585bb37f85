import CustomLinuxOs.Networking.Host

/-!
`tcp.c`: segments out (`tcpWrite`, `tcpAck`, `tcpPush`), segments in (`tcpParsePacket`) and the
reader (`tcpRecv`).

* `TcpHeader`, `readTcpHeader`: the fixed header as `tcp_parse_packet` reads it.
* `tcpHandleFlags`: acknowledgement, FIN, SYN and RST, in the order of the source.
* `tcpOptions`: the option loop; its last component says whether it ran to the end or left
  the function.
* `rxLoop`: the data loop, which skips, stores or stops at each byte.
* `tcpRecv`: `none` where the source keeps spinning.

The last section says what the parts leave alone, and puts them together for the receive
side of a segment in `tcpInput_rxSide`.
-/

namespace CustomLinuxOs

/-! ### Flags -/

def TCP_FIN : UInt32 := 1
def TCP_SYN : UInt32 := 2
def TCP_RST : UInt32 := 4
def TCP_PSH : UInt32 := 8
def TCP_ACK : UInt32 := 16

/-- The fields of `flags_t` the code uses. -/
structure TcpFlags where
  dataOffset : ℕ
  fin : Bool
  syn : Bool
  rst : Bool
  psh : Bool
  ack : Bool
  deriving DecidableEq, Repr

/-- The layout of `flags_t`: the data offset is the high half of the first byte, the flags
are the low bits of the second. -/
def TcpFlags.ofBytes (v : Vector UInt8 2) : TcpFlags where
  dataOffset := (v[0] >>> 4).toNat
  fin := v[1] &&& 1 != 0
  syn := v[1] &&& 2 != 0
  rst := v[1] &&& 4 != 0
  psh := v[1] &&& 8 != 0
  ack := v[1] &&& 16 != 0

/-! ### Sending -/

section Send

variable (reply : Ip → List (Mac × Ip))

/-- The segment `tcp_write` builds, before its checksum. -/
def tcpSegment (conn : Connection) (flags len : UInt32) : List UInt8 :=
  let syn := flags &&& TCP_SYN != 0
  let dataOffset : UInt8 := if syn then 7 else 5
  writeU16 conn.sourcePort ++ writeU16 conn.destPort
    ++ writeU32 conn.txAckd ++ writeU32 conn.rxReadable
    ++ [dataOffset <<< 4, (flags &&& 0x1f).toUInt8]
    ++ writeU16 (BUFFER_SIZE.toUInt32 - (conn.rxReadable - conn.rxRead)).toUInt16
    ++ writeU16 0 ++ writeU16 0
    ++ (if syn then
        writeU8 2 ++ writeU8 4 ++ writeU16 conn.mss.toUInt16
          ++ writeU8 3 ++ writeU8 3 ++ writeU8 0 ++ writeU8 0
      else [])
    ++ (List.range len.toNat).map fun i =>
        conn.txBuffer ((conn.txAckd + i.toUInt32 + 1).toNat % BUFFER_SIZE)

/-- The pseudo header `tcp_write` puts before the segment for its checksum. -/
def tcpPseudoHeader (s : Net) (conn : Connection) (segmentLength : ℕ) : List UInt8 :=
  s.ourIp.toList ++ conn.destIp.toList ++ writeU8 0 ++ writeU8 IPTYPE_TCP
    ++ writeU16 segmentLength.toUInt16

/-- `tcp_write`: the size of the frame it sent, `0` for none. -/
def tcpWrite (s : Net) (idx : ℕ) (flags len : UInt32) : UInt32 × Net :=
  let conn := s.connections idx
  let segment := tcpSegment conn flags len
  let pseudo := tcpPseudoHeader s conn segment.length
  let segment := overwrite segment 16
    (writeU16 (checksum (pseudo ++ segment) (12 + segment.length)))
  let frame := ipWritePacket reply s conn.destIp IPTYPE_TCP segment
  match frame.1 with
  | none => (0, frame.2)
  | some packet => (packet.length.toUInt32, sendPacket frame.2 packet)

/-- `tcp_ack`, run by the timer that was registered for it. -/
def tcpAck (s : Net) (idx : ℕ) : Net :=
  let conn := s.connections idx
  if conn.isValid then
    (tcpWrite reply (s.setConnection idx { conn with wait := 0 }) idx TCP_ACK 0).2
  else s

/-- `tcp_push`. -/
def tcpPush (s : Net) (idx : ℕ) : Net :=
  let conn := s.connections idx
  (tcpWrite reply s idx (TCP_PSH ||| TCP_ACK)
    (min (conn.txSendable - conn.txAckd) (min conn.mss conn.windowSize))).2

end Send

/-! ### Receiving -/

/-- The fixed header of a segment. -/
structure TcpHeader where
  sourcePort : UInt16
  destPort : UInt16
  seq : UInt32
  ack : UInt32
  flags : TcpFlags
  windowSize : UInt16
  deriving DecidableEq, Repr

/-- The reads at the top of `tcp_parse_packet`; checksum and urgent pointer are not used. -/
def readTcpHeader (packet : List UInt8) : TcpHeader × List UInt8 :=
  let sourcePort := readU16 packet
  let destPort := readU16 sourcePort.2
  let seq := readU32 destPort.2
  let ack := readU32 seq.2
  let flags := readN 2 ack.2
  let windowSize := readU16 flags.2
  let chksum := readU16 windowSize.2
  let urgPointer := readU16 chksum.2
  ({ sourcePort := sourcePort.1, destPort := destPort.1, seq := seq.1, ack := ack.1,
     flags := TcpFlags.ofBytes flags.1, windowSize := windowSize.1 }, urgPointer.2)

/-- The first valid connection with the ports of the segment. -/
def findConnection (s : Net) (h : TcpHeader) : Option ℕ :=
  (List.range NUM_CONNECTIONS).find? fun i =>
    (s.connections i).isValid && (s.connections i).sourcePort == h.destPort
      && (s.connections i).destPort == h.sourcePort

/-- `if (connection->wait == 0) connection->wait = rtc_register_handler(&tcp_ack, i, 100)`. -/
def tcpDelayAck (s : Net) (i : ℕ) : Net :=
  let conn := s.connections i
  if conn.wait = 0 then
    let t := rtcRegisterHandler s .tcpAck i.toUInt32 100
    t.2.setConnection i { conn with wait := t.1 }
  else s

/-- `if (flags.ack)` of `tcp_parse_packet`. -/
def tcpHandleAck (s : Net) (i : ℕ) (h : TcpHeader) : Net :=
  if h.flags.ack then
    s.setConnection i { s.connections i with gotAck := true, txAckd := h.ack }
  else s

/-- `if (flags.fin)` of `tcp_parse_packet`: the first FIN counts as one more readable byte. -/
def tcpHandleFin (s : Net) (i : ℕ) (h : TcpHeader) : Net :=
  let conn := s.connections i
  if h.flags.fin && !conn.isClosed then
    let s := tcpDelayAck (s.setConnection i { conn with rxReadable := conn.rxReadable + 1 }) i
    s.setConnection i { s.connections i with isClosed := true }
  else s

/-- `if (flags.syn)` of `tcp_parse_packet`. -/
def tcpHandleSyn (s : Net) (i : ℕ) (h : TcpHeader) : Net :=
  let conn := s.connections i
  if h.flags.syn then
    let s := tcpDelayAck (s.setConnection i
      { conn with rxRead := h.seq + 1, rxReadable := h.seq + 1, txSendable := conn.txAckd }) i
    s.setConnection i { s.connections i with isOpen := true }
  else s

/-- `if (flags.rst)` of `tcp_parse_packet`. -/
def tcpHandleRst (s : Net) (i : ℕ) (h : TcpHeader) : Net :=
  if h.flags.rst then s.setConnection i { s.connections i with isValid := false } else s

/-- The flag handling of `tcp_parse_packet`, in the order of the source. -/
def tcpHandleFlags (s : Net) (i : ℕ) (h : TcpHeader) : Net :=
  let s := tcpHandleAck s i h
  let s := tcpHandleFin s i h
  let s := tcpHandleSyn s i h
  tcpHandleRst s i h

/-- The option loop.  It gives the new `mss` and `window_scale` and whether the function goes
on after it; a malformed option leaves the function at once.  The first argument bounds the
passes: each takes at least one byte. -/
def tcpOptions : ℕ → List UInt8 → UInt32 → UInt8 → UInt32 × UInt8 × Bool
  | 0, _, mss, scale => (mss, scale, true)
  | n + 1, options, mss, scale =>
      let kind := readU8 options
      if kind.1 = 0 then (mss, scale, true)
      else if kind.1 = 1 then tcpOptions n kind.2 mss scale
      else if kind.1 = 2 then
        let j := readU8 kind.2
        if j.1 = 4 then
          let j := readU16 j.2
          tcpOptions n j.2 (if j.1.toUInt32 < mss then j.1.toUInt32 else mss) scale
        else (mss, scale, false)
      else if kind.1 = 3 then
        let j := readU8 kind.2
        if j.1 = 3 then
          let j := readU8 j.2
          tcpOptions n j.2 mss j.1
        else (mss, scale, false)
      else
        let j := readU8 kind.2
        tcpOptions n (j.2.drop j.1.toNat) mss scale

/-- The data loop, from the byte `j` on with `n` bytes to go: a byte before `rx_readable` is
skipped, one after it ends the loop, and the one that is next is stored if the ring has
room.  Only a stored byte moves the packet pointer. -/
def rxLoop (seq : UInt32) : ℕ → UInt32 → List UInt8 → Connection → Connection
  | 0, _, _, conn => conn
  | n + 1, j, packet, conn =>
      if seq + j < conn.rxReadable then rxLoop seq n (j + 1) packet conn
      else if seq + j > conn.rxReadable then conn
      else if conn.rxReadable + 1 < conn.rxRead + BUFFER_SIZE.toUInt32 then
        let b := readU8 packet
        rxLoop seq n (j + 1) b.2
          { conn with
            rxReadable := conn.rxReadable + 1
            rxBuffer := Function.update conn.rxBuffer
              ((conn.rxReadable + 1).toNat % BUFFER_SIZE) b.1 }
      else conn

section Receive

variable (reply : Ip → List (Mac × Ip))

/-- The send window of the peer, scaled as it asked for. -/
def tcpSetWindow (s : Net) (i : ℕ) (h : TcpHeader) : Net :=
  let conn := s.connections i
  s.setConnection i
    { conn with windowSize := h.windowSize.toUInt32 <<< conn.windowScale.toUInt32 }

/-- The data of a segment: the data loop, and an acknowledgement to follow. -/
def tcpData (s : Net) (i : ℕ) (h : TcpHeader) (packet : List UInt8) (len : UInt32) : Net :=
  let headerLength := (h.flags.dataOffset * 4).toUInt32
  if headerLength < len then
    tcpDelayAck (s.setConnection i
      (rxLoop h.seq (len - headerLength).toNat 0 packet (s.connections i))) i
  else s

/-- The part of `tcp_parse_packet` after the options: window, data and what can be sent. -/
def tcpPayload (s : Net) (i : ℕ) (h : TcpHeader) (packet : List UInt8) (len : UInt32) : Net :=
  let s := tcpData (tcpSetWindow s i h) i h packet len
  if (s.connections i).txSendable > (s.connections i).txAckd then tcpPush reply s i else s

/-- `tcp_parse_packet` for the connection the segment belongs to. -/
def tcpInput (s : Net) (i : ℕ) (h : TcpHeader) (packet : List UInt8) (len : UInt32) : Net :=
  let s := tcpHandleFlags s i h
  if h.flags.dataOffset * 4 > TCP_HEADER_LENGTH then
    let conn := s.connections i
    let o := tcpOptions (packet.length + 1) packet conn.mss conn.windowScale
    let s := s.setConnection i { conn with mss := o.1, windowScale := o.2.1 }
    if o.2.2 then
      tcpPayload reply s i h (packet.drop (4 * h.flags.dataOffset - TCP_HEADER_LENGTH)) len
    else s
  else tcpPayload reply s i h packet len

/-- `tcp_parse_packet`. -/
def tcpParsePacket (s : Net) (packet : List UInt8) (len : UInt32) : Net :=
  let h := readTcpHeader packet
  match findConnection s h.1 with
  | none => s
  | some i => tcpInput reply s i h.1 h.2 len

/-- The bytes `tcp_recv` copies out, and the connection it leaves. -/
def rxTake (conn : Connection) (readTo : ℕ) : List UInt8 × Connection :=
  ((List.range readTo).map fun i =>
      conn.rxBuffer ((conn.rxRead + i.toUInt32 + 1).toNat % BUFFER_SIZE),
    { conn with rxRead := conn.rxRead + readTo.toUInt32 })

/-- The end of `tcp_recv`: a closed connection that is read to the end is answered with a FIN
and given up. -/
def tcpRecvClose (s : Net) (idx : ℕ) : Net :=
  let conn := s.connections idx
  if conn.isClosed && conn.rxRead == conn.rxReadable then
    let s := (tcpWrite reply s idx (TCP_FIN ||| TCP_ACK) 0).2
    s.setConnection idx { s.connections idx with isValid := false }
  else s

/-- `tcp_recv`: the bytes it returns, or `none` while it spins for data. -/
def tcpRecv (s : Net) (idx : ℕ) (len : UInt32) : Option (List UInt8 × Net) :=
  let conn := s.connections idx
  if !conn.isValid then some ([], s)
  else if conn.rxReadable = conn.rxRead then none
  else
    let readTo := if conn.rxReadable - conn.rxRead < len then conn.rxReadable - conn.rxRead
      else len
    let taken := rxTake conn readTo.toNat
    some (taken.1, tcpRecvClose reply (s.setConnection idx taken.2) idx)

end Receive

/-! ### What the parts leave alone -/

@[simp] lemma setConnection_self (s : Net) (i : ℕ) (conn : Connection) :
    (s.setConnection i conn).connections i = conn := by
  simp [Net.setConnection]

lemma setConnection_of_ne (s : Net) {i k : ℕ} (conn : Connection) (h : k ≠ i) :
    (s.setConnection i conn).connections k = s.connections k := by
  simp [Net.setConnection, h]

@[simp] lemma tcpWrite_connections (reply : Ip → List (Mac × Ip)) (s : Net) (idx : ℕ)
    (flags len : UInt32) :
    (tcpWrite reply s idx flags len).2.connections = s.connections := by
  rw [tcpWrite]
  split
  · exact ipWritePacket_connections reply s _ _ _
  · exact ipWritePacket_connections reply s _ _ _

@[simp] lemma tcpPush_connections (reply : Ip → List (Mac × Ip)) (s : Net) (idx : ℕ) :
    (tcpPush reply s idx).connections = s.connections :=
  tcpWrite_connections reply s idx _ _

/-- The part of a connection the receive side reads, with the ports it is found by. -/
structure RxSide where
  isValid : Bool
  isClosed : Bool
  rxRead : UInt32
  rxReadable : UInt32
  rxBuffer : ℕ → UInt8
  sourcePort : UInt16
  destPort : UInt16

/-- The receive side of a connection. -/
def Connection.rxSide (conn : Connection) : RxSide where
  isValid := conn.isValid
  isClosed := conn.isClosed
  rxRead := conn.rxRead
  rxReadable := conn.rxReadable
  rxBuffer := conn.rxBuffer
  sourcePort := conn.sourcePort
  destPort := conn.destPort

lemma tcpDelayAck_of_ne (s : Net) {i k : ℕ} (h : k ≠ i) :
    (tcpDelayAck s i).connections k = s.connections k := by
  rw [tcpDelayAck]
  split
  · rw [setConnection_of_ne _ _ h, rtcRegisterHandler_connections]
  · rfl

@[simp] lemma tcpDelayAck_rxSide (s : Net) (i : ℕ) :
    ((tcpDelayAck s i).connections i).rxSide = (s.connections i).rxSide := by
  rw [tcpDelayAck]
  split
  · rw [setConnection_self]; rfl
  · rfl

/-- The data loop reads nothing but the receive side. -/
lemma rxLoop_rxSide_congr (seq : UInt32) (n : ℕ) (j : UInt32) (packet : List UInt8)
    {c d : Connection} (h : c.rxSide = d.rxSide) :
    (rxLoop seq n j packet c).rxSide = (rxLoop seq n j packet d).rxSide := by
  induction n generalizing j packet c d with
  | zero => exact h
  | succ n ih =>
      have hR : c.rxReadable = d.rxReadable := congrArg RxSide.rxReadable h
      have hQ : c.rxRead = d.rxRead := congrArg RxSide.rxRead h
      have hB : c.rxBuffer = d.rxBuffer := congrArg RxSide.rxBuffer h
      rw [rxLoop, rxLoop, hR, hQ, hB]
      split_ifs
      · exact ih _ _ h
      · exact h
      · refine ih _ _ ?_
        have hv : c.isValid = d.isValid := congrArg RxSide.isValid h
        have hc : c.isClosed = d.isClosed := congrArg RxSide.isClosed h
        have hs : c.sourcePort = d.sourcePort := congrArg RxSide.sourcePort h
        have hd : c.destPort = d.destPort := congrArg RxSide.destPort h
        simp [Connection.rxSide, hv, hc, hs, hd]
      · exact h

/-- Whether the option loop runs to its end does not depend on the connection. -/
lemma tcpOptions_complete_congr (n : ℕ) (options : List UInt8) (m m' : UInt32) (k k' : UInt8) :
    (tcpOptions n options m k).2.2 = (tcpOptions n options m' k').2.2 := by
  induction n generalizing options m m' k k' with
  | zero => rfl
  | succ n ih =>
      simp only [tcpOptions]
      split_ifs <;> first | rfl | exact ih _ _ _ _ _

/-- The payload of the segment is reached: it has no options, or its option loop ends. -/
def optionsComplete (h : TcpHeader) (packet : List UInt8) : Bool :=
  h.flags.dataOffset * 4 ≤ TCP_HEADER_LENGTH
    || (tcpOptions (packet.length + 1) packet 0 0).2.2

/-- The memory after the options, where the payload begins. -/
def payloadOf (h : TcpHeader) (packet : List UInt8) : List UInt8 :=
  packet.drop (4 * h.flags.dataOffset - TCP_HEADER_LENGTH)

lemma tcpSetWindow_of_ne (s : Net) {i k : ℕ} (h : TcpHeader) (hk : k ≠ i) :
    (tcpSetWindow s i h).connections k = s.connections k :=
  setConnection_of_ne s _ hk

@[simp] lemma tcpSetWindow_rxSide (s : Net) (i : ℕ) (h : TcpHeader) :
    ((tcpSetWindow s i h).connections i).rxSide = (s.connections i).rxSide := by
  rw [tcpSetWindow, setConnection_self]
  rfl

lemma tcpData_of_ne (s : Net) {i k : ℕ} (h : TcpHeader) (packet : List UInt8) (len : UInt32)
    (hk : k ≠ i) : (tcpData s i h packet len).connections k = s.connections k := by
  simp only [tcpData]
  split
  · rw [tcpDelayAck_of_ne _ hk, setConnection_of_ne _ _ hk]
  · rfl

/-- The bytes of payload a segment announces. -/
def payloadLength (h : TcpHeader) (len : UInt32) : ℕ :=
  len.toNat - (h.flags.dataOffset * 4).toUInt32.toNat

lemma tcpData_rxSide (s : Net) (i : ℕ) (h : TcpHeader) (packet : List UInt8) (len : UInt32) :
    ((tcpData s i h packet len).connections i).rxSide
      = (rxLoop h.seq (payloadLength h len) 0 packet (s.connections i)).rxSide := by
  simp only [tcpData]
  split
  · rename_i hlen
    rw [tcpDelayAck_rxSide, setConnection_self, payloadLength,
      UInt32.toNat_sub_of_le _ _ (UInt32.le_of_lt hlen)]
  · rename_i hlen
    have hle : len.toNat ≤ (h.flags.dataOffset * 4).toUInt32.toNat :=
      UInt32.le_iff_toNat_le.mp (UInt32.not_lt.mp hlen)
    rw [payloadLength, Nat.sub_eq_zero_of_le hle, rxLoop]

lemma tcpPayload_of_ne (reply : Ip → List (Mac × Ip)) (s : Net) {i k : ℕ} (h : TcpHeader)
    (packet : List UInt8) (len : UInt32) (hk : k ≠ i) :
    (tcpPayload reply s i h packet len).connections k = s.connections k := by
  simp only [tcpPayload]
  split
  · rw [tcpPush_connections, tcpData_of_ne _ _ _ _ hk, tcpSetWindow_of_ne _ _ hk]
  · rw [tcpData_of_ne _ _ _ _ hk, tcpSetWindow_of_ne _ _ hk]

lemma tcpPayload_rxSide (reply : Ip → List (Mac × Ip)) (s : Net) (i : ℕ) (h : TcpHeader)
    (packet : List UInt8) (len : UInt32) :
    ((tcpPayload reply s i h packet len).connections i).rxSide
      = (rxLoop h.seq (payloadLength h len) 0 packet (s.connections i)).rxSide := by
  have hdata : ((tcpData (tcpSetWindow s i h) i h packet len).connections i).rxSide
      = (rxLoop h.seq (payloadLength h len) 0 packet (s.connections i)).rxSide := by
    rw [tcpData_rxSide]
    exact rxLoop_rxSide_congr _ _ _ _ (tcpSetWindow_rxSide s i h)
  simp only [tcpPayload]
  split
  · rw [tcpPush_connections, hdata]
  · exact hdata

lemma tcpHandleAck_rxSide (s : Net) (i : ℕ) (h : TcpHeader) :
    ((tcpHandleAck s i h).connections i).rxSide = (s.connections i).rxSide := by
  rw [tcpHandleAck]
  split
  · rw [setConnection_self]; rfl
  · rfl

lemma tcpHandleFin_rxSide (s : Net) (i : ℕ) (h : TcpHeader) :
    ((tcpHandleFin s i h).connections i).rxSide
      = if h.flags.fin && !(s.connections i).isClosed then
          { (s.connections i).rxSide with
            rxReadable := (s.connections i).rxReadable + 1, isClosed := true }
        else (s.connections i).rxSide := by
  simp only [tcpHandleFin]
  split
  · have hdelay := tcpDelayAck_rxSide (s.setConnection i
      { s.connections i with rxReadable := (s.connections i).rxReadable + 1 }) i
    rw [setConnection_self] at hdelay
    rw [setConnection_self]
    exact congrArg (fun v : RxSide => { v with isClosed := true }) hdelay
  · rfl

/-- **The flag handling** keeps what an assignment to its connection and a delayed acknowledgement
keep. -/
lemma tcpHandleFlags_keeps {P : Net → Prop} {s : Net} {i : ℕ} (h : TcpHeader) (hs : P s)
    (hset : ∀ t conn, P t → P (t.setConnection i conn))
    (hdelay : ∀ t, P t → P (tcpDelayAck t i)) : P (tcpHandleFlags s i h) := by
  have hack : P (tcpHandleAck s i h) := by
    rw [tcpHandleAck]
    split
    · exact hset _ _ hs
    · exact hs
  have hfin : ∀ t, P t → P (tcpHandleFin t i h) := by
    intro t ht
    simp only [tcpHandleFin]
    split
    · exact hset _ _ (hdelay _ (hset _ _ ht))
    · exact ht
  have hsyn : ∀ t, P t → P (tcpHandleSyn t i h) := by
    intro t ht
    simp only [tcpHandleSyn]
    split
    · exact hset _ _ (hdelay _ (hset _ _ ht))
    · exact ht
  have hrst : ∀ t, P t → P (tcpHandleRst t i h) := by
    intro t ht
    rw [tcpHandleRst]
    split
    · exact hset _ _ ht
    · exact ht
  exact hrst _ (hsyn _ (hfin _ hack))

/-- The flag handling touches its own connection only. -/
lemma tcpHandleFlags_of_ne (s : Net) {i k : ℕ} (h : TcpHeader) (hk : k ≠ i) :
    (tcpHandleFlags s i h).connections k = s.connections k :=
  tcpHandleFlags_keeps (P := fun t => t.connections k = s.connections k) h rfl
    (fun t conn ht => (setConnection_of_ne t conn hk).trans ht)
    (fun t ht => (tcpDelayAck_of_ne t hk).trans ht)

/-- Of a segment without SYN and RST, the flag handling counts a first FIN as one more
readable byte and leaves the rest of the receive side alone. -/
lemma tcpHandleFlags_rxSide (s : Net) (i : ℕ) (h : TcpHeader) (hsyn : h.flags.syn = false)
    (hrst : h.flags.rst = false) :
    ((tcpHandleFlags s i h).connections i).rxSide
      = if h.flags.fin && !(s.connections i).isClosed then
          { (s.connections i).rxSide with
            rxReadable := (s.connections i).rxReadable + 1, isClosed := true }
        else (s.connections i).rxSide := by
  have hack := tcpHandleAck_rxSide s i h
  have hclosed : ((tcpHandleAck s i h).connections i).isClosed = (s.connections i).isClosed :=
    congrArg RxSide.isClosed hack
  have hreadable : ((tcpHandleAck s i h).connections i).rxReadable
      = (s.connections i).rxReadable := congrArg RxSide.rxReadable hack
  simp only [tcpHandleFlags, tcpHandleSyn, tcpHandleRst, hsyn, hrst, Bool.false_eq_true,
    if_false]
  rw [tcpHandleFin_rxSide, hclosed, hreadable, hack]

lemma tcpInput_of_ne (reply : Ip → List (Mac × Ip)) (s : Net) {i k : ℕ} (h : TcpHeader)
    (packet : List UInt8) (len : UInt32) (hk : k ≠ i) :
    (tcpInput reply s i h packet len).connections k = s.connections k := by
  simp only [tcpInput]
  split_ifs <;>
    simp only [tcpPayload_of_ne _ _ _ _ _ hk, setConnection_of_ne _ _ hk,
      tcpHandleFlags_of_ne _ _ hk]

/-- **The receive side of a segment** without SYN and RST: the flags first, then, when the
payload is reached, the data loop. -/
theorem tcpInput_rxSide (reply : Ip → List (Mac × Ip)) (s : Net) (i : ℕ) (h : TcpHeader)
    (packet : List UInt8) (len : UInt32) {conn : Connection}
    (hconn : ((tcpHandleFlags s i h).connections i).rxSide = conn.rxSide) :
    ((tcpInput reply s i h packet len).connections i).rxSide
      = if optionsComplete h packet then
          (rxLoop h.seq (payloadLength h len) 0 (payloadOf h packet) conn).rxSide
        else conn.rxSide := by
  by_cases hopt : h.flags.dataOffset * 4 > TCP_HEADER_LENGTH
  · have hdone : optionsComplete h packet
        = (tcpOptions (packet.length + 1) packet 0 0).2.2 := by
      rw [optionsComplete, decide_eq_false (by omega), Bool.false_or]
    simp only [tcpInput, if_pos hopt, hdone]
    rw [tcpOptions_complete_congr _ packet _ 0 _ 0]
    split
    · rw [tcpPayload_rxSide]
      refine rxLoop_rxSide_congr _ _ _ _ ?_
      rw [setConnection_self, ← hconn]
      rfl
    · rw [setConnection_self, ← hconn]
      rfl
  · have hdone : optionsComplete h packet = true := by
      rw [optionsComplete, decide_eq_true (by omega), Bool.true_or]
    have hdrop : payloadOf h packet = packet := by
      rw [payloadOf, show 4 * h.flags.dataOffset - TCP_HEADER_LENGTH = 0 by omega, List.drop_zero]
    simp only [tcpInput, if_neg hopt, hdone, if_true, hdrop]
    rw [tcpPayload_rxSide]
    exact rxLoop_rxSide_congr _ _ _ _ hconn

lemma tcpRecvClose_of_ne (reply : Ip → List (Mac × Ip)) (s : Net) {idx k : ℕ} (hk : k ≠ idx) :
    (tcpRecvClose reply s idx).connections k = s.connections k := by
  simp only [tcpRecvClose]
  split
  · rw [setConnection_of_ne _ _ hk, tcpWrite_connections]
  · rfl

/-- Closing is all that the end of `tcp_recv` does to the receive side. -/
lemma tcpRecvClose_rxSide (reply : Ip → List (Mac × Ip)) (s : Net) (idx : ℕ) :
    ((tcpRecvClose reply s idx).connections idx).rxSide
      = { (s.connections idx).rxSide with
          isValid := (s.connections idx).isValid
            && !((s.connections idx).isClosed
              && (s.connections idx).rxRead == (s.connections idx).rxReadable) } := by
  simp only [tcpRecvClose]
  split
  · rename_i h
    rw [setConnection_self, tcpWrite_connections, h]
    simp [Connection.rxSide]
  · rename_i h
    rw [Bool.not_eq_true] at h
    rw [h]
    simp [Connection.rxSide]

/-! ### What a segment can change -/

/-- A delayed acknowledgement is noted in `wait`. -/
lemma tcpDelayAck_frame (s : Net) (i : ℕ) :
    ∃ w, (tcpDelayAck s i).connections i = { s.connections i with wait := w } := by
  rw [tcpDelayAck]
  split
  · exact ⟨_, setConnection_self _ _ _⟩
  · exact ⟨_, rfl⟩

/-- The data loop moves what is readable. -/
lemma rxLoop_frame (seq : UInt32) (n : ℕ) (j : UInt32) (packet : List UInt8)
    (conn : Connection) :
    ∃ r b, rxLoop seq n j packet conn = { conn with rxReadable := r, rxBuffer := b } := by
  induction n generalizing j packet conn with
  | zero => exact ⟨_, _, rfl⟩
  | succ n ih =>
      rw [rxLoop]
      split_ifs
      · exact ih _ _ _
      · exact ⟨_, _, rfl⟩
      · exact ih _ _ _
      · exact ⟨_, _, rfl⟩

lemma tcpData_frame (s : Net) (i : ℕ) (h : TcpHeader) (packet : List UInt8) (len : UInt32) :
    ∃ r b w, (tcpData s i h packet len).connections i
      = { s.connections i with rxReadable := r, rxBuffer := b, wait := w } := by
  simp only [tcpData]
  split
  · obtain ⟨r, b, hloop⟩ := rxLoop_frame h.seq
      (len - (h.flags.dataOffset * 4).toUInt32).toNat 0 packet (s.connections i)
    obtain ⟨w, hdelay⟩ := tcpDelayAck_frame (s.setConnection i (rxLoop h.seq
      (len - (h.flags.dataOffset * 4).toUInt32).toNat 0 packet (s.connections i))) i
    rw [setConnection_self, hloop] at hdelay
    exact ⟨r, b, w, hloop ▸ hdelay⟩
  · exact ⟨_, _, _, rfl⟩

/-- The part after the options changes the window and the receive side. -/
lemma tcpPayload_frame (reply : Ip → List (Mac × Ip)) (s : Net) (i : ℕ) (h : TcpHeader)
    (packet : List UInt8) (len : UInt32) :
    ∃ window r b w, (tcpPayload reply s i h packet len).connections i
      = { s.connections i with
          windowSize := window, rxReadable := r, rxBuffer := b, wait := w } := by
  have hpush : (tcpPayload reply s i h packet len).connections i
      = (tcpData (tcpSetWindow s i h) i h packet len).connections i := by
    simp only [tcpPayload]
    split
    · rw [tcpPush_connections]
    · rfl
  obtain ⟨r, b, w, hdata⟩ := tcpData_frame (tcpSetWindow s i h) i h packet len
  rw [hpush, hdata, tcpSetWindow, setConnection_self]
  exact ⟨_, r, b, w, rfl⟩

/-- The flags change counters and states, and of all flags only RST takes the connection down. -/
lemma tcpHandleFlags_frame (s : Net) (i : ℕ) (h : TcpHeader) :
    ∃ o c q r a t w g, (tcpHandleFlags s i h).connections i
      = { s.connections i with
          isValid := (s.connections i).isValid && !h.flags.rst, isOpen := o, isClosed := c,
          rxRead := q, rxReadable := r, txAckd := a, txSendable := t, wait := w, gotAck := g } := by
  obtain ⟨a, g, hack⟩ : ∃ a g, (tcpHandleAck s i h).connections i
      = { s.connections i with txAckd := a, gotAck := g } := by
    rw [tcpHandleAck]
    split
    · exact ⟨_, _, setConnection_self _ _ _⟩
    · exact ⟨_, _, rfl⟩
  obtain ⟨c, r, w, hfin⟩ : ∃ c r w, (tcpHandleFin (tcpHandleAck s i h) i h).connections i
      = { (tcpHandleAck s i h).connections i with isClosed := c, rxReadable := r, wait := w } := by
    simp only [tcpHandleFin]
    split
    · obtain ⟨w, hdelay⟩ := tcpDelayAck_frame ((tcpHandleAck s i h).setConnection i
        { (tcpHandleAck s i h).connections i with
          rxReadable := ((tcpHandleAck s i h).connections i).rxReadable + 1 }) i
      rw [setConnection_self, hdelay, setConnection_self]
      exact ⟨_, _, _, rfl⟩
    · exact ⟨_, _, _, rfl⟩
  set s₂ := tcpHandleFin (tcpHandleAck s i h) i h with hs₂
  obtain ⟨o, q, r', t, w', hsyn⟩ : ∃ o q r' t w', (tcpHandleSyn s₂ i h).connections i
      = { s₂.connections i with
          isOpen := o, rxRead := q, rxReadable := r', txSendable := t, wait := w' } := by
    simp only [tcpHandleSyn]
    split
    · obtain ⟨w, hdelay⟩ := tcpDelayAck_frame (s₂.setConnection i
        { s₂.connections i with
          rxRead := h.seq + 1, rxReadable := h.seq + 1
          txSendable := (s₂.connections i).txAckd }) i
      rw [setConnection_self, hdelay, setConnection_self]
      exact ⟨_, _, _, _, _, rfl⟩
    · exact ⟨_, _, _, _, _, rfl⟩
  have hall : (tcpHandleFlags s i h).connections i
      = { (tcpHandleSyn s₂ i h).connections i with
          isValid := ((tcpHandleSyn s₂ i h).connections i).isValid && !h.flags.rst } := by
    simp only [tcpHandleFlags, ← hs₂, tcpHandleRst]
    cases h.flags.rst <;> simp
  rw [hall, hsyn, hfin, hack]
  exact ⟨_, _, _, _, _, _, _, _, rfl⟩

/-- **What a segment leaves**: ports, address and the sent bytes stay; RST takes the connection
down; and the segment size does not grow if the options do not make it. -/
lemma tcpInput_frame (reply : Ip → List (Mac × Ip)) (s : Net) (i : ℕ) (h : TcpHeader)
    (packet : List UInt8) (len : UInt32) :
    ((tcpInput reply s i h packet len).connections i).isValid
        = ((s.connections i).isValid && !h.flags.rst)
      ∧ ((tcpInput reply s i h packet len).connections i).sourcePort = (s.connections i).sourcePort
      ∧ ((tcpInput reply s i h packet len).connections i).destPort = (s.connections i).destPort
      ∧ ((tcpInput reply s i h packet len).connections i).destIp = (s.connections i).destIp
      ∧ (((tcpInput reply s i h packet len).connections i).mss = (s.connections i).mss
        ∨ ((tcpInput reply s i h packet len).connections i).mss
          = (tcpOptions (packet.length + 1) packet (s.connections i).mss
            (s.connections i).windowScale).1) := by
  obtain ⟨_, _, _, _, _, _, _, _, hflags⟩ := tcpHandleFlags_frame s i h
  simp only [tcpInput]
  split
  · split
    · obtain ⟨_, _, _, _, hpayload⟩ := tcpPayload_frame reply
        ((tcpHandleFlags s i h).setConnection i
          { (tcpHandleFlags s i h).connections i with
            mss := (tcpOptions (packet.length + 1) packet ((tcpHandleFlags s i h).connections i).mss
              ((tcpHandleFlags s i h).connections i).windowScale).1
            windowScale := (tcpOptions (packet.length + 1) packet
              ((tcpHandleFlags s i h).connections i).mss
              ((tcpHandleFlags s i h).connections i).windowScale).2.1 }) i h
        (packet.drop (4 * h.flags.dataOffset - TCP_HEADER_LENGTH)) len
      rw [hpayload, setConnection_self, hflags]
      exact ⟨rfl, rfl, rfl, rfl, .inr rfl⟩
    · rw [setConnection_self, hflags]
      exact ⟨rfl, rfl, rfl, rfl, .inr rfl⟩
  · obtain ⟨_, _, _, _, hpayload⟩ := tcpPayload_frame reply (tcpHandleFlags s i h) i h packet len
    rw [hpayload, hflags]
    exact ⟨rfl, rfl, rfl, rfl, .inl rfl⟩

end CustomLinuxOs
