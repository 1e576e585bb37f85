import CustomLinuxOs.Networking.Tcp

/-!
What goes out on the wire: the frames a lookup, an IP packet and a TCP segment leave in `sent`.

* `frameType`: the type field of a frame, and `Emits s s' F`: between `s` and `s'` frames were
  sent, and those with an IP packet in them are `F`.
* `ipHeader`, `ipWritePacket_eq`: the frame `ip_write_packet` builds, field by field.
* `frameSegment`, `tcpWrite_emits`: the segment in a frame, as `tcp_parse_packet` reads it.
-/

namespace CustomLinuxOs

/-- `ETHERNET_HEADER_LENGTH`. -/
def ETHERNET_HEADER_LENGTH : ℕ := 14

/-- `IP_HEADER_OFFSET`, where the payload of an IP packet begins in its frame. -/
def IP_HEADER_OFFSET : ℕ := ETHERNET_HEADER_LENGTH + IP_HEADER_LENGTH

/-! ### Frames that are sent -/

/-- The type field of a frame. -/
def frameType (frame : List UInt8) : UInt16 := (readU16 (frame.drop 12)).1

@[simp] lemma frameType_ethernetWritePacket (s : Net) (dest : Mac) (type : UInt16)
    (payload : List UInt8) : frameType (ethernetWritePacket s dest type payload) = type := by
  have hlen : (dest.toList ++ s.ourMac.toList).length = 12 := by simp
  rw [frameType, ethernetWritePacket, List.append_assoc _ (writeU16 type),
    List.drop_left' hlen, readU16_writeU16]

/-- Between `s` and `s'` some frames were sent, and `F` holds of those that carry an IP
packet. -/
def Emits (s s' : Net) (F : List UInt8 → Prop) : Prop :=
  ∃ frames, s'.sent = s.sent ++ frames ∧ ∀ f ∈ frames, frameType f = ETHERTYPE_IP4 → F f

namespace Emits

variable {s s' s'' : Net} {F G : List UInt8 → Prop}

lemma of_eq (h : s'.sent = s.sent) : Emits s s' F :=
  ⟨[], by simp [h], by simp⟩

lemma trans (h : Emits s s' F) (h' : Emits s' s'' F) : Emits s s'' F := by
  obtain ⟨fs, hfs, hF⟩ := h
  obtain ⟨gs, hgs, hG⟩ := h'
  refine ⟨fs ++ gs, by rw [hgs, hfs, List.append_assoc], fun f hf => ?_⟩
  cases List.mem_append.mp hf with
  | inl hf => exact hF f hf
  | inr hf => exact hG f hf

lemma mono (h : Emits s s' F) (hFG : ∀ f, F f → G f) : Emits s s' G := by
  obtain ⟨fs, hfs, hF⟩ := h
  exact ⟨fs, hfs, fun f hf htype => hFG f (hF f hf htype)⟩

/-- One more frame. -/
lemma send (h : Emits s s' F) {frame : List UInt8} (hF : F frame) :
    Emits s (sendPacket s' frame) F :=
  h.trans ⟨[frame], rfl, fun f hf _ => by rw [List.mem_singleton.mp hf]; exact hF⟩

end Emits

/-! ### A lookup -/

/-- The parts of the state a lookup has no business with. -/
lemma arpAddCache_rest (s : Net) (mac : Mac) (ip : Ip) :
    (arpAddCache s mac ip).sent = s.sent ∧ (arpAddCache s mac ip).ourMac = s.ourMac
      ∧ (arpAddCache s mac ip).ourIp = s.ourIp := by
  rw [arpAddCache]
  split <;> exact ⟨rfl, rfl, rfl⟩

lemma foldl_arpAddCache_rest (packets : List (Mac × Ip)) (s : Net) :
    (packets.foldl (fun s p => arpAddCache s p.1 p.2) s).sent = s.sent
      ∧ (packets.foldl (fun s p => arpAddCache s p.1 p.2) s).ourMac = s.ourMac
      ∧ (packets.foldl (fun s p => arpAddCache s p.1 p.2) s).ourIp = s.ourIp := by
  induction packets generalizing s with
  | nil => exact ⟨rfl, rfl, rfl⟩
  | cons p packets ih =>
      obtain ⟨h1, h2, h3⟩ := ih (arpAddCache s p.1 p.2)
      obtain ⟨g1, g2, g3⟩ := arpAddCache_rest s p.1 p.2
      exact ⟨h1.trans g1, h2.trans g2, h3.trans g3⟩

section Send

variable (reply : Ip → List (Mac × Ip))

lemma arpGet_rest (s : Net) (ip : Ip) :
    (arpGet reply s ip).2.ourMac = s.ourMac ∧ (arpGet reply s ip).2.ourIp = s.ourIp := by
  rw [arpGet]
  split
  · exact ⟨rfl, rfl⟩
  · exact (foldl_arpAddCache_rest _ _).2

/-- A lookup sends at most a request, and that is no IP packet. -/
lemma arpGet_emits (s : Net) (ip : Ip) (F : List UInt8 → Prop) :
    Emits s (arpGet reply s ip).2 F := by
  rw [arpGet]
  split
  · exact Emits.of_eq rfl
  · refine ⟨_, (foldl_arpAddCache_rest _ _).1, fun f hf htype => ?_⟩
    rw [List.mem_singleton.mp hf, frameType_ethernetWritePacket] at htype
    exact absurd htype (by decide)

/-! ### IP packets -/

/-- The header of `ip_write_packet` with the checksum in place. -/
def ipHeader (s : Net) (dest : Ip) (protocol : UInt8) (length : ℕ) (chksum : UInt16) :
    List UInt8 :=
  writeU8 0x45 ++ writeU8 0 ++ writeU16 (IP_HEADER_LENGTH + length).toUInt16 ++ writeU16 0
    ++ writeU16 0 ++ writeU8 64 ++ writeU8 protocol ++ writeU16 chksum ++ s.ourIp.toList
    ++ dest.toList

@[simp] lemma ipHeader_length (s : Net) (dest : Ip) (protocol : UInt8) (length : ℕ)
    (chksum : UInt16) : (ipHeader s dest protocol length chksum).length = 20 := by
  simp [ipHeader, writeU8, writeU16]

/-- The checksum goes over the zero it was computed with. -/
lemma overwrite_ipHeader (s : Net) (dest : Ip) (protocol : UInt8) (length : ℕ)
    (chksum : UInt16) :
    overwrite (ipHeader s dest protocol length 0) 10 (writeU16 chksum)
      = ipHeader s dest protocol length chksum := by
  have happ : ∀ c, ipHeader s dest protocol length c
      = (writeU8 0x45 ++ writeU8 0 ++ writeU16 (IP_HEADER_LENGTH + length).toUInt16
          ++ writeU16 0 ++ writeU16 0 ++ writeU8 64 ++ writeU8 protocol) ++ writeU16 c
        ++ (s.ourIp.toList ++ dest.toList) := by
    intro c
    rw [ipHeader, List.append_assoc _ s.ourIp.toList]
  rw [happ, happ]
  exact overwrite_append _ (by simp [writeU8, writeU16]) (by simp [writeU8, writeU16])

lemma ipHeader_congr {s s' : Net} (h : s'.ourIp = s.ourIp) (dest : Ip) (protocol : UInt8)
    (length : ℕ) (chksum : UInt16) :
    ipHeader s' dest protocol length chksum = ipHeader s dest protocol length chksum := by
  rw [ipHeader, ipHeader, h]

/-- The next hop of `ip_write_packet`. -/
def nextHop (s : Net) (dest : Ip) : Ip := if checkSubnet s dest then dest else s.gatewayIp

/-- **The frame of `ip_write_packet`**, when the next hop is found. -/
theorem ipWritePacket_eq (s : Net) (dest : Ip) (protocol : UInt8) (payload : List UInt8) :
    ∃ chksum, ipWritePacket reply s dest protocol payload
      = ((arpGet reply s (nextHop s dest)).1.map fun mac =>
          ethernetWritePacket s mac ETHERTYPE_IP4
            (ipHeader s dest protocol payload.length chksum ++ payload),
        (arpGet reply s (nextHop s dest)).2) := by
  have hhop : (if checkSubnet s dest then arpGet reply s dest
      else arpGet reply s s.gatewayIp) = arpGet reply s (nextHop s dest) := by
    rw [nextHop]
    split <;> rfl
  obtain ⟨hmac, hip⟩ := arpGet_rest reply s (nextHop s dest)
  set s' := (arpGet reply s (nextHop s dest)).2 with hs'
  set chksum := checksum (ipHeader s' dest protocol payload.length 0) IP_HEADER_LENGTH with hchk
  have hheader : overwrite (ipHeader s' dest protocol payload.length 0) 10 (writeU16 chksum)
      = ipHeader s dest protocol payload.length chksum := by
    rw [overwrite_ipHeader, ipHeader_congr hip]
  refine ⟨chksum, ?_⟩
  simp only [ipWritePacket, hhop]
  cases h : (arpGet reply s (nextHop s dest)).1 with
  | none => rfl
  | some mac =>
      rw [Option.map_some, ← hheader, ethernetWritePacket, ← hmac]
      rfl

end Send

/-! ### TCP segments -/

/-- The segment in a frame, as `tcp_parse_packet` reads it: its header, and its payload when it
has no options. -/
def frameSegment (frame : List UInt8) : TcpHeader × List UInt8 :=
  readTcpHeader (frame.drop IP_HEADER_OFFSET)

lemma drop_ipFrame (s : Net) (mac : Mac) {header payload : List UInt8}
    (hheader : header.length = 20) :
    (ethernetWritePacket s mac ETHERTYPE_IP4 (header ++ payload)).drop IP_HEADER_OFFSET
      = payload := by
  rw [ethernetWritePacket, ← List.append_assoc]
  refine List.drop_left' ?_
  simp [hheader, writeU16, writeU8, IP_HEADER_OFFSET, ETHERNET_HEADER_LENGTH, IP_HEADER_LENGTH]

/-- The data of the segment `tcp_write` builds. -/
def tcpSegmentData (conn : Connection) (len : UInt32) : List UInt8 :=
  (List.range len.toNat).map fun i =>
    conn.txBuffer ((conn.txAckd + i.toUInt32 + 1).toNat % BUFFER_SIZE)

/-- The fields of a segment without options, up to its checksum. -/
def tcpSegmentFields (conn : Connection) (flags : UInt32) : List UInt8 :=
  writeU16 conn.sourcePort ++ writeU16 conn.destPort ++ writeU32 conn.txAckd
    ++ writeU32 conn.rxReadable ++ [(5 : UInt8) <<< 4, (flags &&& 0x1f).toUInt8]
    ++ writeU16 (BUFFER_SIZE.toUInt32 - (conn.rxReadable - conn.rxRead)).toUInt16

/-- The header of a segment without options, with the checksum in place. -/
def tcpSegmentHeader (conn : Connection) (flags : UInt32) (chksum : UInt16) : List UInt8 :=
  tcpSegmentFields conn flags ++ writeU16 chksum ++ writeU16 0

/-- The segment `tcp_write` builds, when it is no SYN. -/
lemma tcpSegment_eq (conn : Connection) {flags : UInt32} (len : UInt32)
    (hsyn : flags &&& TCP_SYN = 0) :
    tcpSegment conn flags len = tcpSegmentHeader conn flags 0 ++ tcpSegmentData conn len := by
  simp [tcpSegment, tcpSegmentHeader, tcpSegmentFields, tcpSegmentData, hsyn]

lemma overwrite_tcpSegment (conn : Connection) {flags : UInt32} (len : UInt32)
    (hsyn : flags &&& TCP_SYN = 0) (chksum : UInt16) :
    overwrite (tcpSegment conn flags len) 16 (writeU16 chksum)
      = tcpSegmentHeader conn flags chksum ++ tcpSegmentData conn len := by
  have hfields : (tcpSegmentFields conn flags).length = 16 := by
    simp [tcpSegmentFields, writeU8, writeU16, writeU32]
  rw [tcpSegment_eq conn len hsyn, tcpSegmentHeader, tcpSegmentHeader,
    List.append_assoc _ (writeU16 0) (tcpSegmentData conn len),
    List.append_assoc _ (writeU16 0) (tcpSegmentData conn len)]
  exact overwrite_append _ hfields (by simp [writeU8, writeU16])

/-- What `tcp_write` writes is read back. -/
lemma readTcpHeader_tcpSegment (conn : Connection) (flags : UInt32) (chksum : UInt16)
    (data : List UInt8) :
    (readTcpHeader (tcpSegmentHeader conn flags chksum ++ data)).1.seq = conn.txAckd
      ∧ (readTcpHeader (tcpSegmentHeader conn flags chksum ++ data)).2 = data := by
  have hflags : ∀ (a b : UInt8) (rest : List UInt8), (readN 2 ([a, b] ++ rest)).2 = rest :=
    fun a b rest => rfl
  simp only [tcpSegmentHeader, tcpSegmentFields, List.append_assoc, readTcpHeader, readU16_writeU16,
    readU32_writeU32, hflags, and_self]

section Write

variable (reply : Ip → List (Mac × Ip))

/-- **The frame of `tcp_write`** without SYN: the segment starts at `tx_ackd` and carries the
bytes of the transmit ring from there on. -/
theorem tcpWrite_emits (s : Net) (idx : ℕ) {flags : UInt32} (len : UInt32)
    (hsyn : flags &&& TCP_SYN = 0) :
    Emits s (tcpWrite reply s idx flags len).2 fun f =>
      (frameSegment f).1.seq = (s.connections idx).txAckd
        ∧ (frameSegment f).2 = tcpSegmentData (s.connections idx) len := by
  have hget := arpGet_emits reply s (nextHop s (s.connections idx).destIp)
  simp only [tcpWrite]
  set chksum := checksum _ _
  rw [overwrite_tcpSegment _ _ hsyn]
  obtain ⟨c, hframe⟩ := ipWritePacket_eq reply s (s.connections idx).destIp IPTYPE_TCP
    (tcpSegmentHeader (s.connections idx) flags chksum
      ++ tcpSegmentData (s.connections idx) len)
  rw [hframe]
  cases (arpGet reply s (nextHop s (s.connections idx).destIp)).1 with
  | none => exact hget _
  | some mac =>
      refine (hget _).send ?_
      rw [frameSegment, drop_ipFrame _ _ (ipHeader_length _ _ _ _ _)]
      exact readTcpHeader_tcpSegment _ _ _ _

end Write

end CustomLinuxOs
