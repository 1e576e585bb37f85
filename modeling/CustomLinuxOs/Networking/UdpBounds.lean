import CustomLinuxOs.Foundations.Memory
import CustomLinuxOs.Networking.DatagramBounds
import CustomLinuxOs.Networking.UdpListeners

/-!
Which bytes of a received frame go into the buffer of a UDP listener: positions in the IP datagram.

The length of the payload is the length field of the UDP header less 8, in 16 bits, and the total
length of the datagram is not looked at.

* `copiedPositions`: the positions for a frame; `parsePacket_memory` says that these bytes are all
  that it puts into memory.
* `CopiesPayload`: they are the payload of the datagram, as far as the listener has room for it.
* `udpCopies_iff`: exactly when the length field is possible, or nothing is copied.
-/

namespace CustomLinuxOs

/-! ### The positions for a frame -/

/-- The frame carries a packet that goes to `udp_parse_packet`. -/
def ReachesUdp (frame : List UInt8) : Prop :=
  (readU8 (frame.drop 14)).1 = 0x45 ∧ ¬ MoreFragments frame
    ∧ (readU8 (frame.drop 23)).1 = IPTYPE_UDP

instance (frame : List UInt8) : Decidable (ReachesUdp frame) :=
  inferInstanceAs (Decidable (_ ∧ ¬ (_ ≠ _) ∧ _))

/-- The length field of the UDP header in a frame. -/
def udpLength (frame : List UInt8) : UInt16 := (readU16 (frame.drop 38)).1

/-- The listener for the datagram in a frame, the first one on its port. -/
def listenerOf (u : UdpState) (frame : List UInt8) : Option ℕ :=
  (List.range NUM_PORTS).find? fun i =>
    (u.openPorts i).isValid && (u.openPorts i).destPort == udpDestPort (frame.drop 34)

/-- The positions in the datagram of the bytes that a frame puts into the buffer of its listener. -/
def copiedPositions (d : Datagram) (frame : List UInt8) : List ℕ :=
  let len := udpLength frame - UDP_HEADER_LENGTH.toUInt16
  List.range' (IP_HEADER_LENGTH + UDP_HEADER_LENGTH) (if d.n < len then d.n else len).toNat

/-- A copy of a stretch of a packet. -/
lemma memcpyTo_eq_copyTo (memory : ℕ → UInt8) (dest : ℕ) (packet : List UInt8) (p len : ℕ) :
    memcpyTo memory dest (packet.drop p) len
      = copyTo memory dest ((List.range' p len).map fun k => packet.getD k 0) := by
  have hbytes : (List.range' p len).map (fun k => packet.getD k 0)
      = (List.range len).map fun k => packet.getD (p + k) 0 := by
    rw [List.range'_eq_map_range, List.map_map]
    rfl
  rw [hbytes, copyTo_range]
  funext a
  rw [memcpyTo]
  refine if_congr Iff.rfl ?_ rfl
  rw [List.getD_eq_getElem?_getD, List.getElem?_drop, ← List.getD_eq_getElem?_getD]

/-- **What a frame copies.**  The listener for it gets the bytes of the datagram at the copied
positions, and nothing else in memory changes. -/
theorem parsePacket_memory (reply : Ip → List (Mac × Ip)) (s : NetStack) {frame : List UInt8}
    (htype : frameType frame = ETHERTYPE_IP4) (hudp : ReachesUdp frame) {i : ℕ}
    (hi : listenerOf s.udp frame = some i) :
    (parsePacket reply s frame).udp.memory
      = copyTo s.udp.memory (s.udp.openPorts i).data
          ((copiedPositions (s.udp.openPorts i) frame).map fun p => (frame.drop 14).getD p 0) := by
  have hicmp : (readU8 (frame.drop 23)).1 ≠ IPTYPE_ICMP := by
    rw [hudp.2.2]
    decide
  have htcp : (readU8 (frame.drop 23)).1 ≠ IPTYPE_TCP := by
    rw [hudp.2.2]
    decide
  have hmore : ¬ ipFragmentField frame &&& ((1 : UInt16) <<< 13) ≠ 0 := hudp.2.1
  have hopen : isOpen s.udp (udpDestPort (frame.drop 34)) = false := by
    have hmatch := List.find?_some hi
    rw [Bool.and_eq_true, beq_iff_eq] at hmatch
    exact (isOpen_eq_false_iff _ _).mpr
      ⟨i, List.mem_range.mp (List.mem_of_find?_eq_some hi), hmatch.1, hmatch.2⟩
  rw [parsePacket_of_ip reply s htype, if_neg (not_not.mpr hudp.1), if_neg hmore, if_neg hicmp,
    if_neg htcp, if_pos hudp.2.2]
  simp only [listenerOf, udpDestPort, List.drop_drop, Nat.reduceAdd] at hopen hi
  simp only [udpParsePacket, readU16_snd, hopen, Bool.false_eq_true, if_false, udpDeliver, hi,
    List.drop_drop, Nat.reduceAdd]
  rw [copiedPositions, ← memcpyTo_eq_copyTo, List.drop_drop]
  rfl

/-! ### Only the payload -/

/-- The copied bytes are the payload of the datagram: at most as many as the listener asks for, all
inside the datagram, and none if its length field is not possible. -/
structure CopiesPayload (d : Datagram) (frame : List UInt8) : Prop where
  capacity : (copiedPositions d frame).length ≤ d.n.toNat
  inside : ∀ p ∈ copiedPositions d frame, p < (ipTotalLength frame).toNat
  count : (copiedPositions d frame).length
    = if 8 ≤ (udpLength frame).toNat ∧ (udpLength frame).toNat + 20 ≤ (ipTotalLength frame).toNat
      then min d.n.toNat ((udpLength frame).toNat - 8) else 0

/-- The length field leaves room for the header and ends in the datagram, or nothing is copied in
any case. -/
def PossibleLength (d : Datagram) (frame : List UInt8) : Prop :=
  (8 ≤ (udpLength frame).toNat ∧ (udpLength frame).toNat + 20 ≤ (ipTotalLength frame).toNat)
    ∨ d.n = 0 ∨ udpLength frame = 8

/-- How many bytes are copied: the difference wraps below 8. -/
lemma copiedPositions_length (d : Datagram) (frame : List UInt8) :
    (copiedPositions d frame).length
      = min d.n.toNat (((udpLength frame).toNat + (2 ^ 16 - 8)) % 2 ^ 16) := by
  have hlen : (udpLength frame - UDP_HEADER_LENGTH.toUInt16).toNat
      = ((udpLength frame).toNat + (2 ^ 16 - 8)) % 2 ^ 16 := by
    rw [UInt16.toNat_sub, show (UDP_HEADER_LENGTH.toUInt16).toNat = 8 from rfl, Nat.add_comm]
  rw [copiedPositions, List.length_range', ← hlen]
  simp only [UInt16.lt_iff_toNat_lt]
  split <;> omega

lemma mem_copiedPositions {d : Datagram} {frame : List UInt8} {p : ℕ} :
    p ∈ copiedPositions d frame ↔ 28 ≤ p ∧ p < 28 + (copiedPositions d frame).length := by
  rw [copiedPositions, List.length_range', List.mem_range'_1]
  rfl

lemma copiesPayload_iff (d : Datagram) (frame : List UInt8) :
    CopiesPayload d frame ↔ PossibleLength d frame := by
  have hlength := copiedPositions_length d frame
  have hlt := (udpLength frame).toNat_lt
  have hzero : d.n = 0 ↔ d.n.toNat = 0 := UInt16.toNat_inj.symm
  have height : udpLength frame = 8 ↔ (udpLength frame).toNat = 8 := UInt16.toNat_inj.symm
  rw [PossibleLength, hzero, height]
  constructor
  · rintro ⟨-, -, hcount⟩
    rw [hlength] at hcount
    split at hcount
    · exact .inl ‹_›
    · omega
  · intro h
    have hcount : (copiedPositions d frame).length
        = if 8 ≤ (udpLength frame).toNat
            ∧ (udpLength frame).toNat + 20 ≤ (ipTotalLength frame).toNat
          then min d.n.toNat ((udpLength frame).toNat - 8) else 0 := by
      rw [hlength]
      split <;> omega
    refine ⟨by rw [hlength]; exact min_le_left _ _, fun p hp => ?_, hcount⟩
    obtain ⟨hstart, hend⟩ := mem_copiedPositions.mp hp
    rw [hcount] at hend
    split at hend <;> omega

/-- **A datagram and its listener.**  Of a frame that goes to UDP and has a listener, the bytes of
the datagram at the copied positions are all that is written to memory; and they are the payload of
the datagram, at most as much as the listener asks for, exactly if the length field of the UDP
header is at least 8 and ends in the datagram, or is 8, or the listener asks for nothing. -/
theorem udpCopies_iff (reply : Ip → List (Mac × Ip)) {s : NetStack} {frame : List UInt8}
    (htype : frameType frame = ETHERTYPE_IP4) (hudp : ReachesUdp frame) {i : ℕ}
    (hi : listenerOf s.udp frame = some i) :
    (parsePacket reply s frame).udp.memory
        = copyTo s.udp.memory (s.udp.openPorts i).data
            ((copiedPositions (s.udp.openPorts i) frame).map fun p => (frame.drop 14).getD p 0)
      ∧ (CopiesPayload (s.udp.openPorts i) frame ↔ PossibleLength (s.udp.openPorts i) frame) :=
  ⟨parsePacket_memory reply s htype hudp hi, copiesPayload_iff _ _⟩

/-- A datagram for port 68 with three bytes of data. -/
def dataFrame : List UInt8 :=
  ethernetWritePacket Net.boot broadcastMac ETHERTYPE_IP4
    (ipHeader Net.boot Net.boot.ourIp IPTYPE_UDP 11 0 ++ udpDatagram 68 4000 [1, 2, 3] 3)

lemma dataFrame_reaches : frameType dataFrame = ETHERTYPE_IP4 ∧ ReachesUdp dataFrame
    ∧ listenerOf oneListener.udp dataFrame = some 5
    ∧ (copiedPositions (oneListener.udp.openPorts 5) dataFrame).map
        (fun p => (dataFrame.drop 14).getD p 0) = [1, 2] := by
  decide +kernel

/-- The listener gets the two bytes that it asks for. -/
theorem udpCopies_twoBytes :
    (parsePacket (fun _ => []) oneListener dataFrame).udp.memory
        = copyTo oneListener.udp.memory 100 [1, 2]
      ∧ CopiesPayload (oneListener.udp.openPorts 5) dataFrame := by
  obtain ⟨htype, hudp, hi, hbytes⟩ := dataFrame_reaches
  obtain ⟨hmemory, hpayload⟩ := udpCopies_iff (fun _ => []) htype hudp hi
  rw [hbytes] at hmemory
  exact ⟨hmemory, hpayload.mpr (.inl (by decide +kernel))⟩

/-- A datagram for port 68, of 28 bytes, with a length field of its own. -/
def shortFrame (length : UInt16) : List UInt8 :=
  ethernetWritePacket Net.boot broadcastMac ETHERTYPE_IP4
    (ipHeader Net.boot Net.boot.ourIp IPTYPE_UDP 8 0
      ++ (writeU16 4000 ++ writeU16 68 ++ writeU16 length ++ writeU16 0))

/-- A length field of 4: the two bytes that the listener asks for come from behind the datagram. -/
theorem not_copiesPayload :
    ¬ ∀ (s : NetStack) (frame : List UInt8) (i : ℕ), frameType frame = ETHERTYPE_IP4 →
      ReachesUdp frame → listenerOf s.udp frame = some i →
        CopiesPayload (s.udp.openPorts i) frame := by
  intro h
  have hreaches : frameType (shortFrame 4) = ETHERTYPE_IP4 ∧ ReachesUdp (shortFrame 4)
      ∧ listenerOf oneListener.udp (shortFrame 4) = some 5 := by decide +kernel
  have hcopies := h oneListener (shortFrame 4) 5 hreaches.1 hreaches.2.1 hreaches.2.2
  have hpositions : copiedPositions (oneListener.udp.openPorts 5) (shortFrame 4) = [28, 29]
      ∧ (ipTotalLength (shortFrame 4)).toNat = 28 := by decide +kernel
  have hinside := hcopies.inside 28 (by rw [hpositions.1]; exact List.mem_cons_self)
  omega

end CustomLinuxOs
