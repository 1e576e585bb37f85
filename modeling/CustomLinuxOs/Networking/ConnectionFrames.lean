import CustomLinuxOs.Networking.IpIsolation
import CustomLinuxOs.Networking.SegmentRoundTrip
import CustomLinuxOs.Networking.TcpTransmit

/-!
The frames that a connection sends, as the stack of the host they come to handles them.

* `FrameOf conn flags len frame`: the frame holds a segment of `conn`, and a stack that gets it
  runs `tcp_parse_packet` on this segment and on nothing else.
* `OwnFrames idx s s'`: between `s` and `s'` only acknowledgements and pushes of connection `idx`
  were sent, as it is in `s'`.
* `tcpPush_ownFrames`, `tcpAck_ownFrames`, `tcpSendFrom_pushes`, `tcpInput_pushes`: this is
  all that an open connection sends.
* `parsePacket_of_not_ip`: a frame without an IP packet leaves all connections alone.
-/

namespace CustomLinuxOs

/-! ### A frame with a segment -/

/-- The frame holds the segment that `tcp_write` makes of the connection, and the stack hands it to
`tcp_parse_packet` with its length. -/
structure FrameOf (conn : Connection) (flags len : UInt32) (frame : List UInt8) : Prop where
  parsed : ∀ reply t, parsePacket reply t frame
    = { t with
        net := tcpParsePacket reply t.net (frame.drop IP_HEADER_OFFSET) (20 + len.toNat).toUInt32 }
  segment : frameSegment frame = (tcpHeaderOf conn flags, tcpSegmentData conn len)

/-- The length of a segment survives the length field of its packet. -/
lemma ipLength_roundTrip {n : ℕ} (h : IP_HEADER_LENGTH + n < 2 ^ 16) :
    (IP_HEADER_LENGTH + n).toUInt16.toUInt32 - IP_HEADER_LENGTH.toUInt32 = n.toUInt32 := by
  have hfield : (IP_HEADER_LENGTH + n).toUInt16.toUInt32 = (IP_HEADER_LENGTH + n).toUInt32 := by
    rw [← UInt32.toNat_inj, UInt16.toNat_toUInt32, toNat_toUInt16 h, toNat_toUInt32]
    exact (Nat.mod_eq_of_lt (by omega)).symm
  rw [hfield, toUInt32_add]
  grind

/-- A frame around a segment goes to `tcp_parse_packet`. -/
lemma parsePacket_tcpFrame (reply : Ip → List (Mac × Ip)) (t : NetStack) (s : Net) (mac : Mac)
    (dest : Ip) (chksum : UInt16) {segment : List UInt8}
    (h : IP_HEADER_LENGTH + segment.length < 2 ^ 16) :
    parsePacket reply t (ethernetWritePacket s mac ETHERTYPE_IP4
        (ipHeader s dest IPTYPE_TCP segment.length chksum ++ segment))
      = { t with net := tcpParsePacket reply t.net segment segment.length.toUInt32 } := by
  have hframe := ethernetParsePacket_frame reply t s mac ETHERTYPE_IP4
    (ipHeader s dest IPTYPE_TCP segment.length chksum ++ segment) []
  rw [List.append_nil, List.append_nil, if_pos rfl] at hframe
  rw [parsePacket, hframe, ipParsePacket_header, if_neg (by decide), if_pos rfl,
    ipLength_roundTrip h]

/-- **The frame of `tcp_write`** without SYN. -/
theorem tcpWrite_frameOf (reply : Ip → List (Mac × Ip)) (s : Net) (idx : ℕ) {flags len : UInt32}
    (hsyn : flags &&& TCP_SYN = 0) (hlen : len.toNat ≤ BUFFER_SIZE) :
    Emits s (tcpWrite reply s idx flags len).2 (FrameOf (s.connections idx) flags len) := by
  obtain ⟨chksum, hwrite⟩ := tcpWrite_eq reply s idx flags len
  have hget := arpGet_emits reply s (nextHop s (s.connections idx).destIp)
    (FrameOf (s.connections idx) flags len)
  rw [hwrite]
  cases (arpGet reply s (nextHop s (s.connections idx).destIp)).1 with
  | none => exact hget
  | some mac =>
      have hbne : (flags &&& TCP_SYN != 0) = false := by rw [hsyn]; rfl
      have hlength : (tcpWritten s idx flags len).length = 20 + len.toNat := by
        rw [tcpWritten_length, tcpHeaderOf, hbne]
        rfl
      have hdrop := @drop_ipFrame s mac _ (tcpWritten s idx flags len)
        (ipHeader_length s (s.connections idx).destIp IPTYPE_TCP
          (tcpWritten s idx flags len).length chksum)
      refine hget.send ⟨fun reply t => ?_, ?_⟩
      · rw [hdrop, parsePacket_tcpFrame, hlength]
        rw [hlength, IP_HEADER_LENGTH]
        rw [BUFFER_SIZE] at hlen
        omega
      · obtain ⟨c, hsegment⟩ := tcpWritten_eq s idx flags len
        rw [frameSegment, hdrop, hsegment, readTcpHeader_tcpFields, tcpRest, hbne]
        rfl

/-! ### What an open connection sends -/

/-- An acknowledgement, perhaps with data, and nothing else. -/
structure PlainFlags (flags : UInt32) : Prop where
  syn : flags &&& TCP_SYN = 0
  fin : flags &&& TCP_FIN = 0
  rst : flags &&& TCP_RST = 0
  ack : flags &&& TCP_ACK ≠ 0

lemma plainFlags_ack : PlainFlags TCP_ACK := by constructor <;> decide

lemma plainFlags_push : PlainFlags (TCP_PSH ||| TCP_ACK) := by constructor <;> decide

/-- A frame of the connection with no more than what it has in flight. -/
def OwnFrame (conn : Connection) (frame : List UInt8) : Prop :=
  ∃ flags len, PlainFlags flags ∧ len ≤ conn.txSendable - conn.txAckd
    ∧ FrameOf conn flags len frame

/-- Between `s` and `s'` connection `idx` sends plain segments, as it is in `s'`, and no other IP
packet goes out. -/
def OwnFrames (idx : ℕ) (s s' : Net) : Prop := Emits s s' (OwnFrame (s'.connections idx))

section Sending

variable (reply : Ip → List (Mac × Ip))

/-- A push of a connection that has no more than a ring in flight. -/
lemma tcpPush_ownFrames (s : Net) (idx : ℕ)
    (hflight : ((s.connections idx).txSendable - (s.connections idx).txAckd).toNat
      ≤ BUFFER_SIZE) : OwnFrames idx s (tcpPush reply s idx) := by
  have hle := uint32_min_le ((s.connections idx).txSendable - (s.connections idx).txAckd)
    (min (s.connections idx).mss (s.connections idx).windowSize)
  rw [OwnFrames, tcpPush_connections]
  refine (tcpWrite_frameOf reply s idx plainFlags_push.syn
    ((UInt32.le_iff_toNat_le.mp hle).trans hflight)).mono fun f hf => ?_
  exact ⟨_, _, plainFlags_push, hle, hf⟩

/-- The acknowledgement that the timer sends. -/
lemma tcpAck_ownFrames (s : Net) (idx : ℕ) : OwnFrames idx s (tcpAck reply s idx) := by
  simp only [tcpAck]
  split
  · rw [OwnFrames, tcpWrite_connections]
    refine (Emits.of_eq rfl).trans ((tcpWrite_frameOf reply _ idx plainFlags_ack.syn
      (Nat.zero_le _)).mono fun f hf => ?_)
    exact ⟨_, 0, plainFlags_ack, UInt32.le_iff_toNat_le.mpr (Nat.zero_le _), hf⟩
  · exact Emits.of_eq rfl

/-- From `s` to `s'` the state changes without a frame, and then a push may follow. -/
def PushesFrom (idx : ℕ) (s s' : Net) : Prop :=
  ∃ s₁ : Net, s₁.sent = s.sent ∧ (s' = s₁ ∨ s' = tcpPush reply s₁ idx)

variable {reply}

lemma PushesFrom.ownFrames {s s' : Net} {idx : ℕ} (h : PushesFrom reply idx s s')
    (hflight : ((s'.connections idx).txSendable - (s'.connections idx).txAckd).toNat
      ≤ BUFFER_SIZE) : OwnFrames idx s s' := by
  obtain ⟨s₁, hsent, rfl | rfl⟩ := h
  · exact Emits.of_eq hsent
  · rw [tcpPush_connections] at hflight
    exact (Emits.of_eq hsent).trans (tcpPush_ownFrames reply s₁ idx hflight)

lemma PushesFrom.of_ite {s s₁ s' : Net} {idx : ℕ} {c : Bool}
    (h : (if c then tcpPush reply s₁ idx else s₁) = s') (hsent : s₁.sent = s.sent) :
    PushesFrom reply idx s s' := by
  refine ⟨s₁, hsent, ?_⟩
  cases c with
  | true => exact .inr h.symm
  | false => exact .inl h.symm

/-- A call of `tcp_send`. -/
lemma tcpSendFrom_pushes {waited : Bool} {s s' : Net} {idx : ℕ} {data : List UInt8}
    {len m : UInt32} (h : tcpSendFrom reply idx waited s data len = some (m, s')) :
    PushesFrom reply idx s s' := by
  have hrest : ∀ {s s' : Net}, tcpSendRest reply s idx data len = some (m, s') →
      PushesFrom reply idx s s' := by
    intro s s' h
    simp only [tcpSendRest] at h
    split at h
    · cases h
    · split at h
      · cases h
        exact ⟨s, rfl, .inl rfl⟩
      · obtain ⟨-, hs'⟩ := Prod.mk.inj (Option.some.inj h)
        exact PushesFrom.of_ite hs' rfl
  rw [tcpSendFrom] at h
  cases waited with
  | true => exact hrest h
  | false =>
      rw [if_neg Bool.false_ne_true, tcpSend] at h
      split at h
      · cases h
        exact ⟨s, rfl, .inl rfl⟩
      · exact hrest h

variable (reply)

/-- A segment. -/
lemma tcpInput_pushes (s : Net) (i : ℕ) (h : TcpHeader) (packet : List UInt8) (len : UInt32) :
    PushesFrom reply i s (tcpInput reply s i h packet len) := by
  obtain ⟨s₁, hsent, -, hpush⟩ := tcpInput_push reply s i h packet len
  exact ⟨s₁, hsent, hpush⟩

/-! ### Frames without an IP packet -/

/-- A frame without an IP packet: connections stay, and what goes out has none either. -/
lemma parsePacket_of_not_ip (t : NetStack) {frame : List UInt8}
    (h : frameType frame ≠ ETHERTYPE_IP4) (F : List UInt8 → Prop) :
    (parsePacket reply t frame).net.connections = t.net.connections
      ∧ Emits t.net (parsePacket reply t frame).net F := by
  have hread (n : ℕ) (p : List UInt8) : (readN n p).2 = p.drop n := rfl
  rw [frameType] at h
  simp only [parsePacket, ethernetParsePacket, hread, List.drop_drop, Nat.reduceAdd, h, if_false]
  split
  · simp only [arpParsePacket]
    split_ifs
    · exact ⟨rfl, Emits.of_eq rfl⟩
    · exact ⟨rfl, Emits.of_eq rfl⟩
    · exact ⟨rfl, Emits.of_eq rfl⟩
    · exact ⟨rfl, Emits.of_eq rfl⟩
    · rw [arpAddCache_connections, arpSendPacket_connections]
      refine ⟨rfl, _, (arpAddCache_rest _ _ _).1, fun f hf htype => ?_⟩
      rw [List.mem_singleton.mp hf, frameType_ethernetWritePacket] at htype
      exact absurd htype (by decide)
    · rw [arpAddCache_connections]
      exact ⟨rfl, Emits.of_eq (arpAddCache_rest _ _ _).1⟩
  · exact ⟨rfl, Emits.of_eq rfl⟩

end Sending

end CustomLinuxOs
