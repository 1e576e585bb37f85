import CustomLinuxOs.Networking.Arp
import CustomLinuxOs.Networking.UdpRoundTrip

/-!
Which IP packets are kept from TCP and UDP: the tests of `ip_parse_packet`.

* `ipFragmentField`, `ipDest`, `MoreFragments`, `FragmentOffset`: the fields of a received frame
  the tests are, or could be, about.
* `parsePacket_of_ip`: the way of an IPv4 frame, with the fields it depends on.
* `parsePacket_isolation`: a packet of which more fragments follow does nothing at all; the
  destination address is never looked at.
-/

namespace CustomLinuxOs

/-! ### The fields of an IPv4 frame -/

/-- The length of the payload. -/
def ipPayloadLength (frame : List UInt8) : UInt32 :=
  (readU16 (frame.drop 16)).1.toUInt32 - IP_HEADER_LENGTH.toUInt32

/-- The flags and the offset of the fragment. -/
def ipFragmentField (frame : List UInt8) : UInt16 := (readU16 (frame.drop 20)).1

/-- The destination address. -/
def ipDest (frame : List UInt8) : Ip := (readN 4 (frame.drop 30)).1

/-- More fragments follow the packet in the frame. -/
def MoreFragments (frame : List UInt8) : Prop :=
  ipFragmentField frame &&& ((1 : UInt16) <<< 13) ≠ 0

/-- The packet in the frame is a later fragment. -/
def FragmentOffset (frame : List UInt8) : Prop := ipFragmentField frame &&& 0x1fff ≠ 0

/-- **The way of an IPv4 frame.**  Four fields decide it: version and header length, the
fragment field, the protocol and the total length. -/
lemma parsePacket_of_ip (reply : Ip → List (Mac × Ip)) (s : NetStack) {frame : List UInt8}
    (h : frameType frame = ETHERTYPE_IP4) :
    parsePacket reply s frame
      = if (readU8 (frame.drop 14)).1 ≠ 0x45 then s
        else if ipFragmentField frame &&& ((1 : UInt16) <<< 13) ≠ 0 then s
        else if (readU8 (frame.drop 23)).1 = IPTYPE_ICMP then s
        else if (readU8 (frame.drop 23)).1 = IPTYPE_TCP then
          { s with net := tcpParsePacket reply s.net (frame.drop 34) (ipPayloadLength frame) }
        else if (readU8 (frame.drop 23)).1 = IPTYPE_UDP then
          { s with udp := udpParsePacket s.udp (frame.drop 34) }
        else s := by
  have hread (n : ℕ) (p : List UInt8) : (readN n p).2 = p.drop n := rfl
  rw [frameType] at h
  simp only [parsePacket, ethernetParsePacket, ipParsePacket, ipFragmentField, readU16_snd,
    readU8_snd, ipPayloadLength, hread, List.drop_drop, Nat.reduceAdd, h, if_true]
  rfl

/-- A read within the first bytes does not see what follows them. -/
lemma readU8_drop_append {header : List UInt8} {k : ℕ} (hk : k < header.length)
    (rest : List UInt8) : (readU8 ((header ++ rest).drop k)).1 = (readU8 (header.drop k)).1 := by
  rw [readU8_eq, readU8_eq, List.getD_eq_getElem?_getD, List.getD_eq_getElem?_getD,
    List.getElem?_drop, List.getElem?_drop, Nat.add_zero, List.getElem?_append_left hk]

lemma readU16_drop_append {header : List UInt8} {k : ℕ} (hk : k + 1 < header.length)
    (rest : List UInt8) : (readU16 ((header ++ rest).drop k)).1 = (readU16 (header.drop k)).1 := by
  have hhigh := readU8_drop_append (by omega : k < header.length) rest
  have hlow := readU8_drop_append hk rest
  simp only [readU16, readU8_snd, List.drop_drop, hhigh, hlow]

/-- **Isolation of IP input.**  An IPv4 frame whose more-fragments bit is set changes nothing, on
whatever connection or listener.  The destination address decides nothing: frames that differ in
it only are handled alike. -/
theorem parsePacket_isolation (reply : Ip → List (Mac × Ip)) (s : NetStack) :
    (∀ frame, frameType frame = ETHERTYPE_IP4 → MoreFragments frame →
        parsePacket reply s frame = s)
      ∧ ∀ (header : List UInt8) (dest dest' : Ip) (payload : List UInt8), header.length = 30 →
        frameType header = ETHERTYPE_IP4 →
        parsePacket reply s (header ++ (dest.toList ++ payload))
          = parsePacket reply s (header ++ (dest'.toList ++ payload)) := by
  refine ⟨fun frame htype hmore => ?_, fun header dest dest' payload hlen htype => ?_⟩
  · rw [parsePacket_of_ip reply s htype]
    split
    · rfl
    · exact if_pos hmore
  · have htail (d : Ip) : (header ++ (d.toList ++ payload)).drop 34 = payload := by
      rw [← List.append_assoc]
      exact List.drop_left' (by simp [hlen])
    have hframe (d : Ip) : frameType (header ++ (d.toList ++ payload)) = ETHERTYPE_IP4 := by
      rw [frameType, readU16_drop_append (by omega)]
      exact htype
    rw [parsePacket_of_ip reply s (hframe dest), parsePacket_of_ip reply s (hframe dest')]
    simp only [ipFragmentField, ipPayloadLength, htail,
      readU8_drop_append (by omega : 14 < header.length),
      readU8_drop_append (by omega : 23 < header.length),
      readU16_drop_append (by omega : 20 + 1 < header.length),
      readU16_drop_append (by omega : 16 + 1 < header.length)]

/-! ### A datagram for another host -/

/-- The frame carries a packet that is not for this host: it is a fragment, or the host has an
address and the packet goes neither there nor to all. -/
def NotForUs (s : NetStack) (frame : List UInt8) : Prop :=
  (MoreFragments frame ∨ FragmentOffset frame)
    ∨ (s.net.ourIp ≠ Vector.replicate 4 0 ∧ ipDest frame ≠ s.net.ourIp ∧ ipDest frame ≠ broadcastIp)

/-- A host at `10.0.2.15` with a listener on port 68. -/
def configuredHost : NetStack :=
  { oneListener with net := { Net.boot with ourIp := #v[10, 0, 2, 15] } }

/-- A datagram for port 68 of `10.0.2.99`. -/
def foreignFrame : List UInt8 :=
  ethernetWritePacket Net.boot broadcastMac ETHERTYPE_IP4
    (ipHeader Net.boot #v[10, 0, 2, 99] IPTYPE_UDP 11 0 ++ udpDatagram 68 4000 [1, 2, 3] 3)

/-- It completes the listener. -/
theorem parsePacket_foreign :
    ¬ ∀ (reply : Ip → List (Mac × Ip)) s frame, frameType frame = ETHERTYPE_IP4 →
      NotForUs s frame → (parsePacket reply s frame).net.connections = s.net.connections
        ∧ (parsePacket reply s frame).udp = s.udp := by
  intro h
  have hnot : NotForUs configuredHost foreignFrame :=
    .inr ⟨by decide, by decide +kernel, by decide +kernel⟩
  have htype : frameType foreignFrame = ETHERTYPE_IP4 := frameType_ethernetWritePacket _ _ _ _
  have hkept := (h (fun _ => []) configuredHost foreignFrame htype hnot).2
  have hdone : ((parsePacket (fun _ => []) configuredHost foreignFrame).udp.openPorts 5).isValid
      = false := by decide +kernel
  rw [hkept] at hdone
  cases hdone

end CustomLinuxOs
