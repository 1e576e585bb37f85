import CustomLinuxOs.Devices.TransmitRing
import CustomLinuxOs.Networking.Demultiplex
import CustomLinuxOs.Networking.TcpTransmit

/-!
How long the frames of `tcp_write` are, over all runs of the TCP code.

* `TcpHostEvent`, `tcpHostStep`: the steps of `tcp_connect`, what arrives, `tcp_recv` and
  `tcp_send`.
* `NetCall`, `stepCalls`: the calls that send, each with the state it is made in, and the list of
  those of a step.
* `SendsBy`: nothing is sent but by the calls of a list; `tcpHostStep_sendsBy`: this list is that of
  the step.
* `tcpFrameLength`, `WriteFits`: what a call of `tcp_write` puts into its buffer, and when it fits.
* `MssInRange.step`, `MssInRange.fits`: the segment size of a connection is at most 1460, and so
  every call fits.
* `tcpFrames_fit`: this is so in all runs.
-/

namespace CustomLinuxOs

/-! ### The system -/

/-- What can happen: a step of the connections, or a call of `tcp_send`, from its waiting loop on
if it has waited. -/
inductive TcpHostEvent where
  | tcp (e : TcpEvent)
  | send (waited : Bool) (idx : ℕ) (data : List UInt8) (len : UInt32)

/-- One step; a call of `tcp_send` takes effect when it returns. -/
def tcpHostStep (reply : Ip → List (Mac × Ip)) (t : TcpSystem) : TcpHostEvent → Option TcpSystem
  | .tcp e => tcpStep reply t e
  | .send waited idx data len =>
      (tcpSendFrom reply idx waited t.net data len).map fun r => t.withNet r.2

/-! ### Calls that send -/

/-- A call of `tcp_write` or of `udp_send_packet`, with the state it is made in. -/
inductive NetCall where
  | tcpWrite (s : Net) (idx : ℕ) (flags len : UInt32)
  | udpSendPacket (s : Net) (dest : Ip) (destPort sourcePort : UInt16) (data : List UInt8)
      (len : UInt16)

namespace NetCall

/-- The state the call is made in. -/
def before : NetCall → Net
  | tcpWrite s _ _ _ => s
  | udpSendPacket s _ _ _ _ _ => s

/-- The state it leaves. -/
def after (reply : Ip → List (Mac × Ip)) : NetCall → Net
  | tcpWrite s idx flags len => (CustomLinuxOs.tcpWrite reply s idx flags len).2
  | udpSendPacket s dest destPort sourcePort data len =>
      (CustomLinuxOs.udpSendPacket reply s dest destPort sourcePort data len).2

end NetCall

/-- The call of `tcp_push`. -/
def pushCall (s : Net) (idx : ℕ) : NetCall :=
  let conn := s.connections idx
  .tcpWrite s idx (TCP_PSH ||| TCP_ACK)
    (min (conn.txSendable - conn.txAckd) (min conn.mss conn.windowSize))

/-- The call of `tcp_ack`. -/
def ackCalls (s : Net) (idx : ℕ) : List NetCall :=
  let conn := s.connections idx
  if conn.isValid then [.tcpWrite (s.setConnection idx { conn with wait := 0 }) idx TCP_ACK 0]
  else []

/-- The calls of `tcp_parse_packet` from the window on. -/
def payloadCalls (s : Net) (i : ℕ) (h : TcpHeader) (packet : List UInt8) (len : UInt32) :
    List NetCall :=
  let s := tcpData (tcpSetWindow s i h) i h packet len
  if (s.connections i).txSendable > (s.connections i).txAckd then [pushCall s i] else []

/-- The calls of `tcp_parse_packet` for the connection the segment belongs to. -/
def inputCalls (s : Net) (i : ℕ) (h : TcpHeader) (packet : List UInt8) (len : UInt32) :
    List NetCall :=
  let s := tcpHandleFlags s i h
  if h.flags.dataOffset * 4 > TCP_HEADER_LENGTH then
    let conn := s.connections i
    let o := tcpOptions (packet.length + 1) packet conn.mss conn.windowScale
    let s := s.setConnection i { conn with mss := o.1, windowScale := o.2.1 }
    if o.2.2 then payloadCalls s i h (packet.drop (4 * h.flags.dataOffset - TCP_HEADER_LENGTH)) len
    else []
  else payloadCalls s i h packet len

/-- The calls of `tcp_parse_packet`. -/
def segmentCalls (s : Net) (packet : List UInt8) (len : UInt32) : List NetCall :=
  let h := readTcpHeader packet
  match findConnection s h.1 with
  | none => []
  | some i => inputCalls s i h.1 h.2 len

/-- The call at the end of `tcp_recv`. -/
def closeCalls (s : Net) (idx : ℕ) : List NetCall :=
  let conn := s.connections idx
  if conn.isClosed && conn.rxRead == conn.rxReadable then [.tcpWrite s idx (TCP_FIN ||| TCP_ACK) 0]
  else []

/-- The calls of `tcp_recv`. -/
def recvCalls (s : Net) (idx : ℕ) (len : UInt32) : List NetCall :=
  let conn := s.connections idx
  if !conn.isValid || conn.rxReadable = conn.rxRead then []
  else
    let readTo := if conn.rxReadable - conn.rxRead < len then conn.rxReadable - conn.rxRead
      else len
    closeCalls (s.setConnection idx (rxTake conn readTo.toNat).2) idx

/-- The calls of `tcp_send` behind its first test. -/
def sendRestCalls (s : Net) (idx : ℕ) (data : List UInt8) (len : UInt32) : List NetCall :=
  let conn := s.connections idx
  if !conn.isValid then []
  else
    let len := txLength conn len
    let s' := s.setConnection idx
      { conn with
        txBuffer := txFill conn.txSendable conn.txBuffer data len.toNat
        txSendable := conn.txSendable + len }
    if conn.txAckd == conn.txSendable then [pushCall s' idx] else []

/-- The calls of a step. -/
def stepCalls (t : TcpSystem) : TcpHostEvent → List NetCall
  | .send waited idx data len =>
      if !waited && (t.net.connections idx).isClosed then [] else sendRestCalls t.net idx data len
  | .tcp (.net (.segment packet len)) => segmentCalls t.net packet len
  | .tcp (.net (.ack idx)) => ackCalls t.net idx
  | .tcp (.recv idx len) => recvCalls t.net idx len
  | .tcp (.ask call) =>
      let message := dnsRequest call.domain t.host.xidBase
      [.udpSendPacket t.net t.host.dnsIp DNS_PORT (PORT_OFFSET + t.host.xidBase) message
        message.length.toUInt16]
  | .tcp (.syn call) =>
      [.tcpWrite (t.net.setConnection call.slot (tcpReset (t.net.connections call.slot))) call.slot
        TCP_SYN 0]
  | _ => []

/-- From the one state to the other nothing is sent but by these calls, in order. -/
inductive SendsBy (reply : Ip → List (Mac × Ip)) : List NetCall → Net → Net → Prop
  | quiet {s s' : Net} (h : s'.sent = s.sent) : SendsBy reply [] s s'
  | call (c : NetCall) : SendsBy reply [c] c.before (c.after reply)
  | trans {cs cs' : List NetCall} {s s' s'' : Net} (h : SendsBy reply cs s s')
      (h' : SendsBy reply cs' s' s'') : SendsBy reply (cs ++ cs') s s''

section Sent

variable {reply : Ip → List (Mac × Ip)} {s s' : Net}

/-- One call, with changes around it that send nothing. -/
lemma SendsBy.of_call (c : NetCall) (hbefore : c.before.sent = s.sent)
    (hafter : s'.sent = (c.after reply).sent) : SendsBy reply [c] s s' := by
  have hcall : SendsBy reply ([] ++ ([c] ++ [])) s s' :=
    (SendsBy.quiet hbefore).trans ((SendsBy.call c).trans (.quiet hafter))
  rwa [List.nil_append, List.append_nil] at hcall

/-- **What `tcp_ack` sends.** -/
lemma tcpAck_sendsBy (s : Net) (idx : ℕ) :
    SendsBy reply (ackCalls s idx) s (tcpAck reply s idx) := by
  simp only [tcpAck, ackCalls]
  split
  · exact .of_call _ rfl rfl
  · exact .quiet rfl

lemma tcpPayload_sendsBy (s : Net) (i : ℕ) (h : TcpHeader) (packet : List UInt8) (len : UInt32) :
    SendsBy reply (payloadCalls s i h packet len) s (tcpPayload reply s i h packet len) := by
  have hdata : (tcpData (tcpSetWindow s i h) i h packet len).sent = s.sent := by
    rw [tcpData_sent]
    rfl
  simp only [tcpPayload, payloadCalls]
  split
  · exact .of_call (pushCall _ i) hdata rfl
  · exact .quiet hdata

lemma tcpInput_sendsBy (s : Net) (i : ℕ) (h : TcpHeader) (packet : List UInt8) (len : UInt32) :
    SendsBy reply (inputCalls s i h packet len) s (tcpInput reply s i h packet len) := by
  have hflags : SendsBy reply [] s (tcpHandleFlags s i h) := .quiet (tcpHandleFlags_sent s i h)
  simp only [tcpInput, inputCalls]
  split
  · have hoptions (conn : Connection) :
        SendsBy reply [] s ((tcpHandleFlags s i h).setConnection i conn) :=
      hflags.trans (.quiet rfl)
    split
    · exact (hoptions _).trans (tcpPayload_sendsBy _ i h _ len)
    · exact hoptions _
  · exact hflags.trans (tcpPayload_sendsBy _ i h packet len)

/-- **What `tcp_parse_packet` sends.** -/
lemma tcpParsePacket_sendsBy (s : Net) (packet : List UInt8) (len : UInt32) :
    SendsBy reply (segmentCalls s packet len) s (tcpParsePacket reply s packet len) := by
  simp only [tcpParsePacket, segmentCalls]
  cases findConnection s (readTcpHeader packet).1 with
  | none => exact .quiet rfl
  | some i => exact tcpInput_sendsBy s i _ _ len

lemma tcpRecvClose_sendsBy (s : Net) (idx : ℕ) :
    SendsBy reply (closeCalls s idx) s (tcpRecvClose reply s idx) := by
  simp only [tcpRecvClose, closeCalls]
  split
  · exact .of_call (.tcpWrite s idx (TCP_FIN ||| TCP_ACK) 0) rfl rfl
  · exact .quiet rfl

/-- **What `tcp_recv` sends.** -/
lemma tcpRecv_sendsBy {idx : ℕ} {len : UInt32} {bytes : List UInt8}
    (hr : tcpRecv reply s idx len = some (bytes, s')) :
    SendsBy reply (recvCalls s idx len) s s' := by
  simp only [tcpRecv] at hr
  rw [recvCalls]
  split at hr
  · rename_i hvalid
    obtain ⟨-, rfl⟩ := Prod.mk.inj (Option.some.inj hr)
    rw [if_pos (by rw [hvalid]; rfl)]
    exact .quiet rfl
  · split at hr
    · cases hr
    · rename_i hvalid hmore
      obtain ⟨-, rfl⟩ := Prod.mk.inj (Option.some.inj hr)
      rw [if_neg (by simp only [hvalid, hmore]; decide)]
      have htake (conn : Connection) : SendsBy reply [] s (s.setConnection idx conn) := .quiet rfl
      exact (htake _).trans (tcpRecvClose_sendsBy _ idx)

lemma tcpSendRest_sendsBy {idx : ℕ} {data : List UInt8} {len m : UInt32}
    (hr : tcpSendRest reply s idx data len = some (m, s')) :
    SendsBy reply (sendRestCalls s idx data len) s s' := by
  simp only [tcpSendRest] at hr
  rw [sendRestCalls]
  split at hr
  · cases hr
  · split at hr
    · rename_i hvalid
      obtain ⟨-, rfl⟩ := Prod.mk.inj (Option.some.inj hr)
      rw [if_pos hvalid]
      exact .quiet rfl
    · rename_i hvalid
      obtain ⟨-, rfl⟩ := Prod.mk.inj (Option.some.inj hr)
      rw [if_neg hvalid]
      simp only
      split
      · exact .of_call (pushCall _ idx) rfl rfl
      · exact .quiet rfl

/-- **What `tcp_send` sends.** -/
lemma tcpSendFrom_sendsBy {t : TcpSystem} {waited : Bool} {idx : ℕ} {data : List UInt8}
    {len m : UInt32} (hr : tcpSendFrom reply idx waited t.net data len = some (m, s')) :
    SendsBy reply (stepCalls t (.send waited idx data len)) t.net s' := by
  rw [tcpSendFrom] at hr
  rw [stepCalls]
  cases waited with
  | true => exact tcpSendRest_sendsBy hr
  | false =>
      simp only [Bool.false_eq_true, if_false, tcpSend] at hr
      simp only [Bool.not_false, Bool.true_and]
      split at hr
      · rename_i hclosed
        obtain ⟨-, rfl⟩ := Prod.mk.inj (Option.some.inj hr)
        rw [if_pos hclosed]
        exact .quiet rfl
      · rename_i hclosed
        rw [if_neg hclosed]
        exact tcpSendRest_sendsBy hr

/-- **A step** sends by its calls. -/
lemma tcpHostStep_sendsBy {t u : TcpSystem} {e : TcpHostEvent}
    (hu : tcpHostStep reply t e = some u) : SendsBy reply (stepCalls t e) t.net u.net := by
  cases e with
  | send waited idx data len =>
      obtain ⟨⟨m, s'⟩, hsend, rfl⟩ := Option.map_eq_some_iff.mp hu
      exact tcpSendFrom_sendsBy hsend
  | tcp e =>
      cases e with
      | net e =>
          obtain rfl := Option.some.inj hu
          cases e with
          | segment packet len => exact tcpParsePacket_sendsBy t.net packet len
          | ack idx => exact tcpAck_sendsBy t.net idx
          | tick => exact .quiet rfl
      | recv idx len =>
          obtain ⟨⟨bytes, s'⟩, hrecv, rfl⟩ := Option.map_eq_some_iff.mp hu
          exact tcpRecv_sendsBy hrecv
      | connect domain port =>
          obtain ⟨-, hu⟩ := Option.ite_none_right_eq_some.mp hu
          obtain rfl := Option.some.inj hu
          exact .quiet rfl
      | look =>
          obtain ⟨q, hq, hu⟩ := Option.bind_eq_some_iff.mp hu
          obtain ⟨-, hu⟩ := Option.ite_none_right_eq_some.mp hu
          obtain rfl := Option.some.inj hu
          exact .quiet rfl
      | take =>
          obtain ⟨q, hq, hu⟩ := Option.bind_eq_some_iff.mp hu
          obtain ⟨-, hu⟩ := Option.ite_none_left_eq_some.mp hu
          obtain rfl := Option.some.inj hu
          rw [tcpTake]
          split
          · exact .quiet rfl
          · exact .quiet rfl
      | ask call =>
          obtain ⟨-, hu⟩ := Option.ite_none_right_eq_some.mp hu
          obtain rfl := Option.some.inj hu
          exact .call (.udpSendPacket t.net _ _ _ _ _)
      | answer call ip =>
          obtain ⟨-, hu⟩ := Option.ite_none_right_eq_some.mp hu
          obtain rfl := Option.some.inj hu
          exact .quiet rfl
      | giveUp call =>
          obtain ⟨-, hu⟩ := Option.ite_none_right_eq_some.mp hu
          obtain rfl := Option.some.inj hu
          exact .quiet rfl
      | syn call =>
          obtain ⟨-, hu⟩ := Option.ite_none_right_eq_some.mp hu
          obtain rfl := Option.some.inj hu
          exact .of_call (.tcpWrite _ call.slot TCP_SYN 0) rfl rfl

end Sent

/-! ### Calls of `tcp_write` -/

section Writes

variable (reply : Ip → List (Mac × Ip))

/-- What a call of `tcp_write` uses of its buffer: the headers of the frame, and the segment with
its options and data. -/
def tcpFrameLength (s : Net) (idx : ℕ) (flags len : UInt32) : ℕ :=
  IP_HEADER_OFFSET + (tcpWritten s idx flags len).length

/-- A call of `tcp_write` stays in its buffer, and its frame, if the next hop is found, has that
length and is taken by `e1000_send_packet`. -/
structure WriteFits (s : Net) (idx : ℕ) (flags len : UInt32) : Prop where
  buffer : tcpFrameLength s idx flags len ≤ 1518
  frame : Emits s (tcpWrite reply s idx flags len).2 fun f =>
    f.length = tcpFrameLength s idx flags len
  size : (tcpWrite reply s idx flags len).1 = 0
    ∨ (tcpWrite reply s idx flags len).1.toNat = tcpFrameLength s idx flags len
  accepted : ∀ (d : E1000) (packet : UInt32),
    (e1000SendPacket d packet (tcpWrite reply s idx flags len).1).calls = d.calls + 1

/-- A call that is one of `tcp_write` fits. -/
def NetCall.Fits : NetCall → Prop
  | .tcpWrite s idx flags len => WriteFits reply s idx flags len
  | .udpSendPacket .. => True

end Writes

section Sizes

variable {reply : Ip → List (Mac × Ip)} {s : Net}

lemma ipFrame_length (s : Net) (mac : Mac) {header payload : List UInt8}
    (hheader : header.length = 20) :
    (ethernetWritePacket s mac ETHERTYPE_IP4 (header ++ payload)).length
      = IP_HEADER_OFFSET + payload.length := by
  rw [ethernetWritePacket]
  simp [hheader, writeU16, writeU8, IP_HEADER_OFFSET, ETHERNET_HEADER_LENGTH, IP_HEADER_LENGTH]
  omega

/-- Without SYN there are 54 bytes in front of the data. -/
lemma tcpFrameLength_data (s : Net) (idx : ℕ) {flags : UInt32} (len : UInt32)
    (hsyn : flags &&& TCP_SYN = 0) : tcpFrameLength s idx flags len = 54 + len.toNat := by
  rw [tcpFrameLength, tcpWritten_length, tcpHeaderOf]
  simp [hsyn, IP_HEADER_OFFSET, ETHERNET_HEADER_LENGTH, IP_HEADER_LENGTH]
  omega

/-- With SYN there are eight bytes of options more. -/
lemma tcpFrameLength_syn (s : Net) (idx : ℕ) (len : UInt32) :
    tcpFrameLength s idx TCP_SYN len = 62 + len.toNat := by
  rw [tcpFrameLength, tcpWritten_length, tcpHeaderOf]
  simp [TCP_SYN, IP_HEADER_OFFSET, ETHERNET_HEADER_LENGTH, IP_HEADER_LENGTH]
  omega

/-- **A call of `tcp_write`** that stays in its buffer. -/
lemma writeFits_of_le (reply : Ip → List (Mac × Ip)) {idx : ℕ} {flags len : UInt32}
    (h : tcpFrameLength s idx flags len ≤ 1518) : WriteFits reply s idx flags len := by
  have hget := arpGet_emits reply s (nextHop s (s.connections idx).destIp)
  obtain ⟨chksum, hwrite⟩ := tcpWrite_eq reply s idx flags len
  cases hmac : (arpGet reply s (nextHop s (s.connections idx).destIp)).1 with
  | none =>
      simp only [hmac] at hwrite
      refine ⟨h, ?_, .inl (by rw [hwrite]), fun d packet => by rw [hwrite]; rfl⟩
      rw [hwrite]
      exact hget _
  | some mac =>
      simp only [hmac] at hwrite
      have hlength : (ethernetWritePacket s mac ETHERTYPE_IP4
          (ipHeader s (s.connections idx).destIp IPTYPE_TCP
            (tcpWritten s idx flags len).length chksum ++ tcpWritten s idx flags len)).length
          = tcpFrameLength s idx flags len := ipFrame_length s mac (ipHeader_length _ _ _ _ _)
      have hsize : (tcpWrite reply s idx flags len).1.toNat
          = tcpFrameLength s idx flags len := by
        rw [hwrite, hlength]
        exact Nat.mod_eq_of_lt (by omega)
      refine ⟨h, ?_, .inr hsize, fun d packet => ?_⟩
      · rw [hwrite]
        exact (hget _).send hlength
      · have hle : ¬ (tcpWrite reply s idx flags len).1 > 1518 := by
          rw [gt_iff_lt, UInt32.lt_iff_toNat_lt, hsize]
          exact Nat.not_lt.mpr h
        rw [e1000SendPacket, if_neg hle]

/-- An acknowledgement, without data. -/
lemma writeFits_empty (reply : Ip → List (Mac × Ip)) (s : Net) (idx : ℕ) {flags : UInt32}
    (hsyn : flags &&& TCP_SYN = 0) : WriteFits reply s idx flags 0 :=
  writeFits_of_le reply (by rw [tcpFrameLength_data s idx 0 hsyn]; decide)

/-- The SYN. -/
lemma writeFits_syn (reply : Ip → List (Mac × Ip)) (s : Net) (idx : ℕ) :
    WriteFits reply s idx TCP_SYN 0 :=
  writeFits_of_le reply (by rw [tcpFrameLength_syn]; decide)

/-- The second bound of a minimum. -/
lemma uint32_min_le_right (a b : UInt32) : min a b ≤ b := by
  change (if a ≤ b then a else b) ≤ b
  split
  · assumption
  · exact UInt32.le_refl b

/-- **A push** of a connection with a segment size in range. -/
lemma MssInRange.push (h : MssInRange s) (reply : Ip → List (Mac × Ip)) (idx : ℕ) :
    (pushCall s idx).Fits reply := by
  have hmin : min ((s.connections idx).txSendable - (s.connections idx).txAckd)
      (min (s.connections idx).mss (s.connections idx).windowSize) ≤ 1460 :=
    UInt32.le_trans (uint32_min_le_right _ _) (UInt32.le_trans (uint32_min_le _ _) (h idx))
  have hlimit := UInt32.le_iff_toNat_le.mp hmin
  refine writeFits_of_le reply ?_
  rw [tcpFrameLength_data s idx _ (by decide)]
  rw [show (1460 : UInt32).toNat = 1460 from rfl] at hlimit
  omega

/-! ### The segment size, and what follows for the calls -/

lemma MssInRange.of_connections {s' : Net} (h : MssInRange s)
    (hconn : s'.connections = s.connections) : MssInRange s' := by
  intro k
  rw [hconn]
  exact h k

lemma MssInRange.setConnection (h : MssInRange s) (i : ℕ) {conn : Connection}
    (hmss : conn.mss ≤ 1460) : MssInRange (s.setConnection i conn) := by
  intro k
  by_cases hk : k = i
  · subst hk
    rw [setConnection_self]
    exact hmss
  · rw [setConnection_of_ne _ _ hk]
    exact h k

/-- A segment, a timer and a tick leave it in range. -/
lemma MssInRange.netStep (h : MssInRange s) (reply : Ip → List (Mac × Ip)) (e : NetEvent) :
    MssInRange (netStep reply s e) := by
  cases e with
  | tick => exact h
  | ack idx =>
      simp only [CustomLinuxOs.netStep, tcpAck]
      split
      · have hmarked : MssInRange (s.setConnection idx { s.connections idx with wait := 0 }) :=
          h.setConnection idx (h idx)
        exact hmarked.of_connections (tcpWrite_connections _ _ _ _ _)
      · exact h
  | segment packet len => exact h.parsePacket reply packet len

/-- `tcp_recv` does. -/
lemma MssInRange.recv (h : MssInRange s) {idx : ℕ} {len : UInt32} {bytes : List UInt8} {s' : Net}
    (hr : tcpRecv reply s idx len = some (bytes, s')) : MssInRange s' := by
  simp only [tcpRecv] at hr
  split at hr
  · obtain ⟨-, rfl⟩ := Prod.mk.inj (Option.some.inj hr)
    exact h
  · split at hr
    · cases hr
    · obtain ⟨-, rfl⟩ := Prod.mk.inj (Option.some.inj hr)
      set taken := s.setConnection idx (rxTake (s.connections idx) _).2 with htaken
      have hread : MssInRange taken := h.setConnection idx (h idx)
      simp only [tcpRecvClose]
      split
      · have hsent : MssInRange (tcpWrite reply taken idx (TCP_FIN ||| TCP_ACK) 0).2 :=
          hread.of_connections (tcpWrite_connections _ _ _ _ _)
        exact hsent.setConnection idx (hsent idx)
      · exact hread

/-- And so does `tcp_send`. -/
lemma MssInRange.sendRest (h : MssInRange s) {idx : ℕ} {data : List UInt8} {len m : UInt32}
    {s' : Net} (hr : tcpSendRest reply s idx data len = some (m, s')) : MssInRange s' := by
  simp only [tcpSendRest] at hr
  split at hr
  · cases hr
  · split at hr
    · obtain ⟨-, rfl⟩ := Prod.mk.inj (Option.some.inj hr)
      exact h
    · obtain ⟨-, rfl⟩ := Prod.mk.inj (Option.some.inj hr)
      set filled := s.setConnection idx _ with hfilled
      have hfill : MssInRange filled := h.setConnection idx (h idx)
      split
      · exact hfill.of_connections (tcpPush_connections reply filled idx)
      · exact hfill

lemma MssInRange.sendFrom (h : MssInRange s) {waited : Bool} {idx : ℕ} {data : List UInt8}
    {len m : UInt32} {s' : Net} (hr : tcpSendFrom reply idx waited s data len = some (m, s')) :
    MssInRange s' := by
  rw [tcpSendFrom] at hr
  split at hr
  · exact h.sendRest hr
  · rw [tcpSend] at hr
    split at hr
    · obtain ⟨-, rfl⟩ := Prod.mk.inj (Option.some.inj hr)
      exact h
    · exact h.sendRest hr

/-- **Every step** leaves the segment sizes in range. -/
lemma MssInRange.step {t u : TcpSystem} (h : MssInRange t.net) {e : TcpHostEvent}
    (hu : tcpHostStep reply t e = some u) : MssInRange u.net := by
  cases e with
  | send waited idx data len =>
      obtain ⟨⟨m, s'⟩, hsend, rfl⟩ := Option.map_eq_some_iff.mp hu
      exact h.sendFrom hsend
  | tcp e =>
      cases e with
      | net e =>
          obtain rfl := Option.some.inj hu
          exact h.netStep reply e
      | recv idx len =>
          obtain ⟨⟨bytes, s'⟩, hrecv, rfl⟩ := Option.map_eq_some_iff.mp hu
          exact h.recv hrecv
      | connect domain port =>
          obtain ⟨-, hu⟩ := Option.ite_none_right_eq_some.mp hu
          obtain rfl := Option.some.inj hu
          exact h
      | look =>
          obtain ⟨q, hq, hu⟩ := Option.bind_eq_some_iff.mp hu
          obtain ⟨-, hu⟩ := Option.ite_none_right_eq_some.mp hu
          obtain rfl := Option.some.inj hu
          exact h
      | take =>
          obtain ⟨q, hq, hu⟩ := Option.bind_eq_some_iff.mp hu
          obtain ⟨-, hu⟩ := Option.ite_none_left_eq_some.mp hu
          obtain rfl := Option.some.inj hu
          rw [tcpTake]
          split
          · exact h
          · rename_i i _
            exact h.setConnection i (h i)
      | ask call =>
          obtain ⟨-, hu⟩ := Option.ite_none_right_eq_some.mp hu
          obtain rfl := Option.some.inj hu
          exact h.of_connections (udpSendPacket_rest reply _ _ _ _ _ _).1
      | answer call ip =>
          obtain ⟨-, hu⟩ := Option.ite_none_right_eq_some.mp hu
          obtain rfl := Option.some.inj hu
          exact h.setConnection call.slot (h call.slot)
      | giveUp call =>
          obtain ⟨-, hu⟩ := Option.ite_none_right_eq_some.mp hu
          obtain rfl := Option.some.inj hu
          exact h
      | syn call =>
          obtain ⟨-, hu⟩ := Option.ite_none_right_eq_some.mp hu
          obtain rfl := Option.some.inj hu
          have hreset : MssInRange (t.net.setConnection call.slot
              (tcpReset (t.net.connections call.slot))) :=
            h.setConnection call.slot (UInt32.le_refl 1460)
          exact hreset.of_connections (tcpWrite_connections _ _ _ _ _)

/-- The push for a segment is made with the connections that the segment leaves. -/
lemma MssInRange.payload {i : ℕ} {h : TcpHeader} {packet : List UInt8} {len : UInt32}
    (hmss : MssInRange (tcpPayload reply s i h packet len)) :
    ∀ c ∈ payloadCalls s i h packet len, c.Fits reply := by
  simp only [tcpPayload] at hmss
  simp only [payloadCalls]
  split at hmss
  · rename_i hmore
    rw [if_pos hmore]
    have hbefore := hmss.of_connections (tcpPush_connections reply _ i).symm
    exact List.forall_mem_singleton.mpr (hbefore.push reply i)
  · rename_i hmore
    rw [if_neg hmore]
    exact List.forall_mem_nil _

lemma MssInRange.input {i : ℕ} {h : TcpHeader} {packet : List UInt8} {len : UInt32}
    (hmss : MssInRange (tcpInput reply s i h packet len)) :
    ∀ c ∈ inputCalls s i h packet len, c.Fits reply := by
  simp only [tcpInput] at hmss
  simp only [inputCalls]
  split at hmss
  · rename_i hlong
    rw [if_pos hlong]
    split at hmss
    · rename_i hwell
      rw [if_pos hwell]
      exact hmss.payload
    · rename_i hwell
      rw [if_neg hwell]
      exact List.forall_mem_nil _
  · rename_i hlong
    rw [if_neg hlong]
    exact hmss.payload

/-- The calls for a segment. -/
lemma MssInRange.segment (h : MssInRange s) (reply : Ip → List (Mac × Ip)) (packet : List UInt8)
    (len : UInt32) : ∀ c ∈ segmentCalls s packet len, c.Fits reply := by
  have hmss := h.parsePacket reply packet len
  simp only [tcpParsePacket] at hmss
  simp only [segmentCalls]
  cases hfind : findConnection s (readTcpHeader packet).1 with
  | none => exact List.forall_mem_nil _
  | some i =>
      simp only [hfind] at hmss
      exact hmss.input

/-- The calls of `tcp_send`. -/
lemma MssInRange.sendCalls (h : MssInRange s) (reply : Ip → List (Mac × Ip)) (idx : ℕ)
    (data : List UInt8) (len : UInt32) : ∀ c ∈ sendRestCalls s idx data len, c.Fits reply := by
  simp only [sendRestCalls]
  split
  · exact List.forall_mem_nil _
  · set filled := s.setConnection idx _ with hfilled
    have hfill : MssInRange filled := h.setConnection idx (h idx)
    split
    · exact List.forall_mem_singleton.mpr (hfill.push reply idx)
    · exact List.forall_mem_nil _

/-- The call at the end of `tcp_recv`. -/
lemma closeCalls_fits (reply : Ip → List (Mac × Ip)) (s : Net) (idx : ℕ) :
    ∀ c ∈ closeCalls s idx, c.Fits reply := by
  simp only [closeCalls]
  split
  · exact List.forall_mem_singleton.mpr
      (writeFits_empty reply s idx (show (TCP_FIN ||| TCP_ACK) &&& TCP_SYN = 0 by decide))
  · exact List.forall_mem_nil _

/-- **Every call fits**, one case for each kind of step. -/
lemma MssInRange.fits {t : TcpSystem} (h : MssInRange t.net) (reply : Ip → List (Mac × Ip))
    (e : TcpHostEvent) : ∀ c ∈ stepCalls t e, c.Fits reply := by
  cases e with
  | send waited idx data len =>
      rw [stepCalls]
      split
      · exact List.forall_mem_nil _
      · exact h.sendCalls reply idx data len
  | tcp e =>
      cases e with
      | net e =>
          cases e with
          | segment packet len => exact h.segment reply packet len
          | ack idx =>
              simp only [stepCalls, ackCalls]
              split
              · exact List.forall_mem_singleton.mpr (writeFits_empty reply _ idx (by decide))
              · exact List.forall_mem_nil _
          | tick => exact List.forall_mem_nil _
      | recv idx len =>
          simp only [stepCalls, recvCalls]
          split
          · exact List.forall_mem_nil _
          · exact closeCalls_fits reply _ idx
      | ask call => exact List.forall_mem_singleton.mpr trivial
      | syn call => exact List.forall_mem_singleton.mpr (writeFits_syn reply _ call.slot)
      | connect domain port => exact List.forall_mem_nil _
      | look => exact List.forall_mem_nil _
      | take => exact List.forall_mem_nil _
      | answer call ip => exact List.forall_mem_nil _
      | giveUp call => exact List.forall_mem_nil _

/-! ### The frames -/

/-- The protocol of the IP packet in a frame. -/
def frameProtocol (frame : List UInt8) : UInt8 :=
  (readU8 (frame.drop (ETHERNET_HEADER_LENGTH + 9))).1

lemma frameProtocol_ipFrame (s s' : Net) (mac : Mac) (dest : Ip) (protocol : UInt8) (n : ℕ)
    (chksum : UInt16) (payload : List UInt8) :
    frameProtocol (ethernetWritePacket s mac ETHERTYPE_IP4
      (ipHeader s' dest protocol n chksum ++ payload)) = protocol := by
  have hdrop : (ethernetWritePacket s mac ETHERTYPE_IP4
      (ipHeader s' dest protocol n chksum ++ payload)).drop ETHERNET_HEADER_LENGTH
      = ipHeader s' dest protocol n chksum ++ payload :=
    List.drop_left' (by simp [writeU16, writeU8, ETHERNET_HEADER_LENGTH])
  rw [frameProtocol, ← List.drop_drop, hdrop]
  rfl

/-- A frame that carries a segment is no longer than an Ethernet frame may be. -/
def SegmentFrameFits (frame : List UInt8) : Prop :=
  frameProtocol frame = IPTYPE_TCP → frame.length ≤ 1518

/-- What UDP sends carries no segment. -/
lemma udpSendPacket_emits (reply : Ip → List (Mac × Ip)) (s : Net) (dest : Ip)
    (destPort sourcePort : UInt16) (data : List UInt8) (len : UInt16) :
    Emits s (udpSendPacket reply s dest destPort sourcePort data len).2 SegmentFrameFits := by
  have hget := arpGet_emits reply s (nextHop s dest)
  obtain ⟨chksum, hframe⟩ := ipWritePacket_eq reply s dest IPTYPE_UDP
    (udpDatagram destPort sourcePort data len)
  simp only [udpSendPacket]
  rw [hframe]
  cases (arpGet reply s (nextHop s dest)).1 with
  | none => exact hget _
  | some mac =>
      refine (hget _).send fun hprotocol => ?_
      rw [frameProtocol_ipFrame] at hprotocol
      exact absurd hprotocol (by decide)

/-- **The frames** of calls that fit. -/
lemma SendsBy.emits {cs : List NetCall} {s' : Net} (h : SendsBy reply cs s s')
    (hfits : ∀ c ∈ cs, c.Fits reply) : Emits s s' SegmentFrameFits := by
  induction h with
  | quiet hsent => exact Emits.of_eq hsent
  | call c =>
      cases c with
      | tcpWrite s idx flags len =>
          have hwrite : WriteFits reply s idx flags len := hfits _ List.mem_cons_self
          exact hwrite.frame.mono fun f hf _ => hf.trans_le hwrite.buffer
      | udpSendPacket s dest destPort sourcePort data len =>
          exact udpSendPacket_emits reply s dest destPort sourcePort data len
  | trans _ _ ih ih' =>
      exact (ih fun c hc => hfits c (List.mem_append_left _ hc)).trans
        (ih' fun c hc => hfits c (List.mem_append_right _ hc))

end Sizes

/-- **TCP frames fit.**  From zeroed connections, let calls of `tcp_connect`, `tcp_send` and
`tcp_recv`, segments and timers come in any order.  In every step from every state that is reached,
all calls of `tcp_write` stay in their buffers of 1518 bytes and `e1000_send_packet` takes their
frames; nothing is sent but by the calls of the step; and no frame with a segment is longer than
1518 bytes. -/
theorem tcpFrames_fit (reply : Ip → List (Mac × Ip)) {h : Host}
    (hzero : ∀ k, h.net.connections k = Connection.zero) {es : List TcpHostEvent} {t : TcpSystem}
    (hrun : Run (tcpHostStep reply) { host := h, search := none, calls := [] } es t)
    {e : TcpHostEvent} {u : TcpSystem} (hu : tcpHostStep reply t e = some u) :
    (∀ c ∈ stepCalls t e, c.Fits reply) ∧ SendsBy reply (stepCalls t e) t.net u.net
      ∧ Emits t.net u.net SegmentFrameFits := by
  have hstart : MssInRange h.net := by
    intro k
    rw [hzero k]
    exact UInt32.zero_le
  have hmss : MssInRange t.net :=
    hrun.invariant (P := fun t => MssInRange t.net) hstart fun _ _ _ hs hstep => hs.step hstep
  have hfits := hmss.fits reply e
  have hsends := tcpHostStep_sendsBy hu
  exact ⟨hfits, hsends, hsends.emits hfits⟩

/-- Every address has an answer. -/
def oneMac (ip : Ip) : List (Mac × Ip) := [(Vector.replicate 6 2, ip)]

/-- A handshake: a call takes the first connection and sends its SYN, which is answered. -/
def handshakeEvents : List TcpHostEvent :=
  TcpHostEvent.tcp (.connect [120] 80) :: List.replicate 8 (.tcp .look)
    ++ [.tcp .take, .tcp (.answer ⟨0, [120]⟩ #v[10, 0, 0, 2]), .tcp (.syn ⟨0, [120]⟩),
      .tcp (.net (.segment [0, 80, 0x80, 0, 0, 0, 0, 9, 0, 0, 0, 1, 0x50, 0x12, 4, 0, 0, 0, 0, 0]
        20))]

/-- The theorem applies to a call of `tcp_send` on the connection, which pushes three bytes. -/
theorem tcpFrames_fit_data :
    ∃ t u, Run (tcpHostStep oneMac)
        { host := ⟨Net.boot, #v[8, 8, 8, 8], 0⟩, search := none, calls := [] } handshakeEvents t
      ∧ tcpHostStep oneMac t (.send false 0 [104, 105, 10] 3) = some u
      ∧ ((stepCalls t (.send false 0 [104, 105, 10] 3)).length, u.net.sent.getLast?.map List.length)
        = (1, some 57)
      ∧ (∀ c ∈ stepCalls t (.send false 0 [104, 105, 10] 3), c.Fits oneMac)
      ∧ SendsBy oneMac (stepCalls t (.send false 0 [104, 105, 10] 3)) t.net u.net := by
  have hread : (handshakeEvents.foldlM (tcpHostStep oneMac)
      { host := ⟨Net.boot, #v[8, 8, 8, 8], 0⟩, search := none, calls := [] }).bind
      (fun t => (tcpHostStep oneMac t (.send false 0 [104, 105, 10] 3)).map
        fun u => ((stepCalls t (.send false 0 [104, 105, 10] 3)).length,
          u.net.sent.getLast?.map List.length)) = some (1, some 57) := by decide +kernel
  obtain ⟨t, u, hrun, hu, hsent⟩ := exists_run_step_of_bind hread
  obtain ⟨hfits, hsends, -⟩ := tcpFrames_fit oneMac (fun _ => rfl) hrun hu
  exact ⟨t, u, hrun, hu, hsent, hfits, hsends⟩

end CustomLinuxOs
