import CustomLinuxOs.Networking.Frames
import CustomLinuxOs.Networking.RxRing
import CustomLinuxOs.Networking.Udp

/-!
A datagram through the whole stack: `udp_send_packet` on one side, `parse_packet` on the other.

* `ethernetParsePacket_frame`, `ipParsePacket_header`, `udpDatagram_reads`: each parser takes off
  what its encoder has put in front.
* `Completes`: a listener gets the datagram, and nothing else changes.
* `udpParsePacket_heard`, `udpParsePacket_unheard`: what a datagram does to the table.
* `udp_roundTrip`: the listener on the port completes; without one nothing changes.
-/

namespace CustomLinuxOs

section Layers

variable (reply : Ip → List (Mac × Ip))

/-- `ethernet_parse_packet` on a frame of `ethernet_write_packet`. -/
lemma ethernetParsePacket_frame (t : NetStack) (s : Net) (mac : Mac) (type : UInt16)
    (payload after : List UInt8) :
    ethernetParsePacket reply t (ethernetWritePacket s mac type payload ++ after)
      = if type = ETHERTYPE_IP4 then ipParsePacket reply t (payload ++ after)
        else if type = ETHERTYPE_ARP then { t with net := arpParsePacket t.net (payload ++ after) }
        else t := by
  simp only [ethernetParsePacket, ethernetWritePacket, List.append_assoc, readN_toList,
    readU16_writeU16]

/-- `ip_parse_packet` on a header of `ip_write_packet`: the protocol decides. -/
lemma ipParsePacket_header (t : NetStack) (s : Net) (dest : Ip) (protocol : UInt8) (length : ℕ)
    (chksum : UInt16) (payload : List UInt8) :
    ipParsePacket reply t (ipHeader s dest protocol length chksum ++ payload)
      = if protocol = IPTYPE_ICMP then t
        else if protocol = IPTYPE_TCP then
          let len := (IP_HEADER_LENGTH + length).toUInt16.toUInt32 - IP_HEADER_LENGTH.toUInt32
          { t with net := tcpParsePacket reply t.net payload len }
        else if protocol = IPTYPE_UDP then { t with udp := udpParsePacket t.udp payload }
        else t := by
  have hfrag : ¬ ((0 : UInt16) &&& ((1 : UInt16) <<< 13) ≠ 0) := by decide
  have hvihl : ¬ ((0x45 : UInt8) ≠ 0x45) := fun h => h rfl
  simp only [ipParsePacket, ipHeader, List.append_assoc, readU8_writeU8, readU16_writeU16,
    readN_toList, if_neg hfrag, if_neg hvihl]

end Layers

lemma toNat_toUInt16 {n : ℕ} (h : n < 2 ^ 16) : n.toUInt16.toNat = n := by
  rw [Nat.toUInt16_eq, UInt16.toNat_ofNat', Nat.mod_eq_of_lt h]

/-! ### A datagram -/

/-- From `u` to `u'` listener `i` completes with a payload from a port: its entry has the source
port and is free again, its buffer has the first bytes of the payload, as many as it holds, and
all other entries and bytes of memory are as before. -/
structure Completes (i : ℕ) (sourcePort : UInt16) (payload : List UInt8) (u u' : UdpState) :
    Prop where
  entry : u'.openPorts i = { u.openPorts i with sourcePort := sourcePort, isValid := false }
  others : ∀ j ≠ i, u'.openPorts j = u.openPorts j
  received : ∀ k < min (u.openPorts i).n.toNat payload.length,
    u'.memory ((u.openPorts i).data + k) = payload.getD k 0
  untouched : ∀ a, (a < (u.openPorts i).data
      ∨ (u.openPorts i).data + min (u.openPorts i).n.toNat payload.length ≤ a) →
    u'.memory a = u.memory a

/-- The source port of a datagram. -/
def udpSourcePort (packet : List UInt8) : UInt16 := (readU16 packet).1

/-- The destination port of a datagram. -/
def udpDestPort (packet : List UInt8) : UInt16 := (readU16 (packet.drop 2)).1

/-- The payload of a datagram, as long as its length field says. -/
def udpPayload (packet : List UInt8) : List UInt8 :=
  bytesAt (packet.drop 8)
    ((readU16 (packet.drop 4)).1 - UDP_HEADER_LENGTH.toUInt16).toNat

lemma bytesAt_getD {packet : List UInt8} {n k : ℕ} (hk : k < n) :
    (bytesAt packet n).getD k 0 = packet.getD k 0 := by
  simp [bytesAt, List.getD_eq_getElem?_getD, hk]

/-- A datagram for a port without a listener is ignored. -/
lemma udpParsePacket_unheard {u : UdpState} {packet : List UInt8}
    (hnone : ∀ i < NUM_PORTS, (u.openPorts i).isValid = true →
      (u.openPorts i).destPort ≠ udpDestPort packet) : udpParsePacket u packet = u := by
  have hopen : isOpen u (udpDestPort packet) = true := by
    rw [← Bool.not_eq_false, isOpen_eq_false_iff]
    rintro ⟨i, hi, hvalid, heq⟩
    exact hnone i hi hvalid heq
  rw [udpDestPort] at hopen
  simp only [udpParsePacket, readU16_snd, hopen, if_true]

/-- The listener on the port of a datagram completes. -/
lemma udpParsePacket_heard {u : UdpState} (hports : DistinctPorts u) {i : ℕ} (hi : i < NUM_PORTS)
    (hvalid : (u.openPorts i).isValid = true) {packet : List UInt8}
    (hport : (u.openPorts i).destPort = udpDestPort packet) :
    Completes i (udpSourcePort packet) (udpPayload packet) u (udpParsePacket u packet) := by
  have hopen : isOpen u (udpDestPort packet) = false :=
    (isOpen_eq_false_iff _ _).mpr ⟨i, hi, hvalid, hport⟩
  set len := (readU16 (packet.drop 4)).1 - UDP_HEADER_LENGTH.toUInt16 with hlen
  have hpayload : udpPayload packet = bytesAt (packet.drop 8) len.toNat := rfl
  have hmin : (if (u.openPorts i).n < len then (u.openPorts i).n else len).toNat
      = min (u.openPorts i).n.toNat (udpPayload packet).length := by
    rw [hpayload, bytesAt_length]
    split
    · rename_i h
      rw [UInt16.lt_iff_toNat_lt] at h
      omega
    · rename_i h
      rw [UInt16.lt_iff_toNat_lt] at h
      omega
  have hparse : udpParsePacket u packet
      = udpDeliver u (udpSourcePort packet) (u.openPorts i).destPort len (packet.drop 8) := by
    rw [hport]
    rw [udpDestPort] at hopen
    simp only [udpParsePacket, readU16_snd, hopen, Bool.false_eq_true, if_false, List.drop_drop]
    rfl
  rw [hparse, udpDeliver, hports.find hi hvalid]
  refine ⟨Function.update_self _ _ _, fun j hj => Function.update_of_ne hj _ _,
    fun k hk => ?_, fun a ha => ?_⟩
  · have hin : (u.openPorts i).data ≤ (u.openPorts i).data + k
        ∧ (u.openPorts i).data + k < (u.openPorts i).data
          + min (u.openPorts i).n.toNat (udpPayload packet).length := by omega
    simp only [memcpyTo, hmin, if_pos hin, Nat.add_sub_cancel_left]
    rw [hpayload, bytesAt_length] at hk
    rw [hpayload, bytesAt_getD (by omega)]
  · simp only [memcpyTo, hmin]
    exact if_neg (by omega)

/-! ### The round trip -/

/-- What is read of a datagram of `udp_send_packet`, with whatever follows it. -/
lemma udpDatagram_reads (destPort sourcePort : UInt16) (payload after : List UInt8)
    (hlen : payload.length ≤ 1476) :
    let packet := udpDatagram destPort sourcePort payload payload.length.toUInt16 ++ after
    udpDestPort packet = destPort ∧ udpSourcePort packet = sourcePort
      ∧ udpPayload packet = payload := by
  have hn : payload.length.toUInt16.toNat = payload.length := toNat_toUInt16 (by omega)
  have hdata : (List.range payload.length.toUInt16.toNat).map (fun i => payload.getD i 0)
      = payload := by
    rw [hn]
    exact (bytesAt_eq_take le_rfl).trans List.take_length
  have hfield : payload.length.toUInt16 + UDP_HEADER_LENGTH.toUInt16
      - UDP_HEADER_LENGTH.toUInt16 = payload.length.toUInt16 := by grind
  have hdrop (d : UInt16) (rest : List UInt8) : (writeU16 d ++ rest).drop 2 = rest := rfl
  intro packet
  have hpacket : packet = writeU16 sourcePort ++ (writeU16 destPort
      ++ (writeU16 (payload.length.toUInt16 + UDP_HEADER_LENGTH.toUInt16)
        ++ (writeU16 0 ++ (payload ++ after)))) := by
    simp only [packet, udpDatagram, hdata, List.append_assoc]
  have hfour : packet.drop 4 = writeU16 (payload.length.toUInt16 + UDP_HEADER_LENGTH.toUInt16)
      ++ (writeU16 0 ++ (payload ++ after)) := by
    rw [hpacket, show (4 : ℕ) = 2 + 2 from rfl, ← List.drop_drop, hdrop, hdrop]
  have height : packet.drop 8 = payload ++ after := by
    rw [show (8 : ℕ) = 4 + (2 + 2) from rfl, ← List.drop_drop, hfour, ← List.drop_drop, hdrop,
      hdrop]
  refine ⟨?_, ?_, ?_⟩
  · rw [udpDestPort, hpacket, hdrop, readU16_writeU16]
  · rw [udpSourcePort, hpacket, readU16_writeU16]
  · rw [udpPayload, hfour, readU16_writeU16, hfield, hn, height,
      bytesAt_eq_take (by simp), List.take_left]

/-- **A datagram through the stack.**  When the next hop is found, `udp_send_packet` sends one
frame, which fits its buffer.  Handed to `parse_packet`, with whatever follows it in memory, it
completes the listener that waits on the destination port, and no other; when none waits there,
nothing changes. -/
theorem udp_roundTrip (reply reply' : Ip → List (Mac × Ip)) {s : Net} {dest : Ip} {mac : Mac}
    (harp : (arpGet reply s (nextHop s dest)).1 = some mac) (destPort sourcePort : UInt16)
    {payload : List UInt8} (hlen : payload.length ≤ 1476) {t : NetStack}
    (hports : DistinctPorts t.udp) (after : List UInt8) :
    ∃ frame, (udpSendPacket reply s dest destPort sourcePort payload
          payload.length.toUInt16).2.sent = (arpGet reply s (nextHop s dest)).2.sent ++ [frame]
      ∧ frame.length ≤ 1518
      ∧ (parsePacket reply' t (frame ++ after)).net = t.net
      ∧ (∀ i < NUM_PORTS, (t.udp.openPorts i).isValid = true →
        (t.udp.openPorts i).destPort = destPort →
          Completes i sourcePort payload t.udp (parsePacket reply' t (frame ++ after)).udp)
      ∧ ((∀ i < NUM_PORTS, (t.udp.openPorts i).isValid = true →
        (t.udp.openPorts i).destPort ≠ destPort) →
          (parsePacket reply' t (frame ++ after)).udp = t.udp) := by
  set datagram := udpDatagram destPort sourcePort payload payload.length.toUInt16
    with hdatagram
  obtain ⟨chksum, hframe⟩ := ipWritePacket_eq reply s dest IPTYPE_UDP datagram
  set frame := ethernetWritePacket s mac ETHERTYPE_IP4
    (ipHeader s dest IPTYPE_UDP datagram.length chksum ++ datagram) with hf
  have hparse : parsePacket reply' t (frame ++ after)
      = { t with udp := udpParsePacket t.udp (datagram ++ after) } := by
    rw [parsePacket, hf, ethernetParsePacket_frame, if_pos rfl, List.append_assoc,
      ipParsePacket_header, if_neg (by decide), if_neg (by decide), if_pos rfl]
  obtain ⟨hdest, hsource, hpayload⟩ := udpDatagram_reads destPort sourcePort payload after hlen
  rw [← hdatagram] at hdest hsource hpayload
  refine ⟨frame, ?_, ?_, ?_, ?_, ?_⟩
  · rw [udpSendPacket, ← hdatagram, hframe, harp]
    rfl
  · have hn : payload.length.toUInt16.toNat = payload.length := toNat_toUInt16 (by omega)
    simp [hf, hdatagram, ethernetWritePacket, udpDatagram, writeU16, writeU8, hn]
    omega
  · rw [hparse]
  · intro i hi hvalid hport
    rw [hparse]
    have hcomplete := udpParsePacket_heard hports hi hvalid (hport.trans hdest.symm)
    rwa [hsource, hpayload] at hcomplete
  · intro hnone
    rw [hparse]
    refine udpParsePacket_unheard ?_
    rwa [hdest]

/-! ### A small datagram -/

/-- A sender with its gateway in the cache. -/
def senderNet : Net := { Net.boot with arpCacheLen := 1 }

/-- A receiver with one listener, on port 68 and for two bytes. -/
def oneListener : NetStack where
  net := Net.boot
  udp :=
    { openPorts := Function.update
        (fun _ => { data := 0, sourcePort := 0, destPort := 0, n := 0, isValid := false }) 5
        { data := 100, sourcePort := 0, destPort := 68, n := 2, isValid := true }
      memory := fun _ => 0 }

lemma oneListener_valid {i : ℕ} (h : (oneListener.udp.openPorts i).isValid = true) : i = 5 := by
  by_contra hi
  rw [oneListener] at h
  simp only [Function.update_of_ne hi] at h
  cases h

/-- Three bytes to a listener for two. -/
theorem udp_roundTrip_listener :
    ∃ frame, (udpSendPacket (fun _ => []) senderNet #v[10, 0, 2, 3] 68 4000 [1, 2, 3] 3).2.sent
        = [frame]
      ∧ Completes 5 4000 [1, 2, 3] oneListener.udp
        (parsePacket (fun _ => []) oneListener (frame ++ [])).udp := by
  have hports : DistinctPorts oneListener.udp := by
    intro i _ j _ hi hj _
    rw [oneListener_valid hi, oneListener_valid hj]
  have harp : (arpGet (fun _ => []) senderNet (nextHop senderNet #v[10, 0, 2, 3])).1
      = some (Vector.replicate 6 0) := rfl
  have hlen : ([1, 2, 3] : List UInt8).length ≤ 1476 := by decide
  obtain ⟨frame, hsent, -, -, hcomplete, -⟩ :=
    udp_roundTrip (fun _ => []) (fun _ => []) harp 68 4000 hlen hports []
  exact ⟨frame, hsent, hcomplete 5 (by decide) rfl rfl⟩

end CustomLinuxOs
