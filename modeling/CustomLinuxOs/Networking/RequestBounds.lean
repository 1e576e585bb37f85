import CustomLinuxOs.Devices.TransmitRing
import CustomLinuxOs.Networking.DnsNames
import CustomLinuxOs.Networking.FrameSizes

/-!
What `udp_send_packet` writes to its buffer of 1518 bytes, and `dns_request` to its packet of 512.

All three layers write into the one buffer, from the back to the front: the datagram, the header of
IP and then its checksum, the header of Ethernet.  A frame that is too long is refused by
`e1000_send_packet`, when it has been written.

* `udpSendStores`: the stores into the frame buffer; `udpSendPacket_buffer` says that they leave the
  frame that is sent.
* `dnsRequestStores`: the stores into the packet; `applyStores_dnsRequestStores` says that they
  leave the message.
* `UdpFits`, `DnsFits`: the stores are inside, and what is too long is refused.
* `requests_fit_iff`: up to 1476 bytes of data, and up to 494 bytes of a name.
-/

namespace CustomLinuxOs

/-! ### The stores into a frame -/

/-- The size of the frame buffer of `udp_send_packet`. -/
def FRAME_SIZE : ℕ := 1518

/-- `DNS_LENGTH`. -/
def DNS_LENGTH : ℕ := 512

/-- The stores of `ip_write_packet`, once the next hop is found: the header, the checksum in it, and
what `ethernet_write_packet` puts in front. -/
def ipStores (s : Net) (destMac : Mac) (dest : Ip) (protocol : UInt8) (payloadLength : ℕ) :
    List (ℕ × UInt8) :=
  let header := ipHeader s dest protocol payloadLength 0
  storesFrom ETHERNET_HEADER_LENGTH header
    ++ storesFrom (ETHERNET_HEADER_LENGTH + 10) (writeU16 (checksum header IP_HEADER_LENGTH))
    ++ storesFrom 0 (destMac.toList ++ s.ourMac.toList ++ writeU16 ETHERTYPE_IP4)

section Send

variable (reply : Ip → List (Mac × Ip)) (s : Net) (dest : Ip) (destPort sourcePort : UInt16)
  (data : List UInt8) (len : UInt16)

/-- The stores of `udp_send_packet` into its buffer, in their order: the datagram first. -/
def udpSendStores : List (ℕ × UInt8) :=
  storesFrom IP_HEADER_OFFSET (udpDatagram destPort sourcePort data len)
    ++ match arpGet reply s (nextHop s dest) with
      | (none, _) => []
      | (some destMac, s') =>
          ipStores s' destMac dest IPTYPE_UDP (UDP_HEADER_LENGTH + len.toNat)

lemma udpDatagram_length :
    (udpDatagram destPort sourcePort data len).length = UDP_HEADER_LENGTH + len.toNat := by
  simp [udpDatagram, writeU16, writeU8, UDP_HEADER_LENGTH]
  omega

/-- The stores of the lower layers go around the payload. -/
lemma applyStores_ipStores (mem : ℕ → UInt8) (destMac : Mac) (protocol : UInt8)
    (payload : List UInt8) :
    applyStores (copyTo mem IP_HEADER_OFFSET payload)
        (ipStores s destMac dest protocol payload.length)
      = copyTo mem 0 (ethernetWritePacket s destMac ETHERTYPE_IP4
          (overwrite (ipHeader s dest protocol payload.length 0) 10
              (writeU16 (checksum (ipHeader s dest protocol payload.length 0) IP_HEADER_LENGTH))
            ++ payload)) := by
  set header := ipHeader s dest protocol payload.length 0 with hheader
  set patch := writeU16 (checksum header IP_HEADER_LENGTH) with hpatch
  set front := destMac.toList ++ s.ourMac.toList ++ writeU16 ETHERTYPE_IP4 with hfront
  have hheaderLength : header.length = 20 := ipHeader_length _ _ _ _ _
  have hpatchLength : patch.length = 2 := rfl
  have hfrontLength : front.length = 14 := by simp [hfront, writeU16, writeU8]
  have hover : (overwrite header 10 patch).length = 20 := by
    rw [hpatch, hheader, overwrite_ipHeader, ipHeader_length]
  have hchecksum : copyTo (copyTo (copyTo mem 34 payload) 14 header) (14 + 10) patch
      = copyTo mem 14 (overwrite header 10 patch ++ payload) := by
    rw [copyTo_patch _ _ (by rw [hheaderLength, hpatchLength]; omega), ← overwrite,
      ← copyTo_append_left, hover]
  calc applyStores (copyTo mem IP_HEADER_OFFSET payload)
        (ipStores s destMac dest protocol payload.length)
      = copyTo (copyTo (copyTo (copyTo mem 34 payload) 14 header) (14 + 10) patch) 0 front := by
        rw [ipStores, applyStores_append, applyStores_append, applyStores_storesFrom,
          applyStores_storesFrom, applyStores_storesFrom]
        rfl
    _ = copyTo (copyTo mem (0 + front.length) (overwrite header 10 patch ++ payload)) 0 front := by
        rw [hchecksum, hfrontLength]
    _ = copyTo mem 0 (front ++ (overwrite header 10 patch ++ payload)) :=
        copyTo_append_left _ _ _ _

/-- **The frame in the buffer.**  When the next hop is found, the stores leave the frame that is
sent. -/
theorem udpSendPacket_buffer (mem : ℕ → UInt8) {destMac : Mac}
    (hmac : (arpGet reply s (nextHop s dest)).1 = some destMac) :
    ∃ frame, frame.length = IP_HEADER_OFFSET + (UDP_HEADER_LENGTH + len.toNat)
      ∧ applyStores mem (udpSendStores reply s dest destPort sourcePort data len)
          = copyTo mem 0 frame
      ∧ udpSendPacket reply s dest destPort sourcePort data len
          = (frame.length.toUInt32, sendPacket (arpGet reply s (nextHop s dest)).2 frame) := by
  have hhop : (if checkSubnet s dest then arpGet reply s dest
      else arpGet reply s s.gatewayIp) = arpGet reply s (nextHop s dest) := by
    rw [nextHop]
    split <;> rfl
  set s' := (arpGet reply s (nextHop s dest)).2 with hs'
  set datagram := udpDatagram destPort sourcePort data len with hdatagram
  have hlength : datagram.length = UDP_HEADER_LENGTH + len.toNat := udpDatagram_length _ _ _ _
  have hget : arpGet reply s (nextHop s dest) = (some destMac, s') := Prod.ext hmac rfl
  refine ⟨ethernetWritePacket s' destMac ETHERTYPE_IP4
    (overwrite (ipHeader s' dest IPTYPE_UDP datagram.length 0) 10
        (writeU16 (checksum (ipHeader s' dest IPTYPE_UDP datagram.length 0) IP_HEADER_LENGTH))
      ++ datagram), ?_, ?_, ?_⟩
  · rw [overwrite_ipHeader, ipFrame_length _ _ (ipHeader_length _ _ _ _ _), hlength]
  · rw [udpSendStores, hget, applyStores_append, applyStores_storesFrom, ← hdatagram, ← hlength]
    exact applyStores_ipStores s' dest mem destMac IPTYPE_UDP datagram
  · rw [udpSendPacket, ipWritePacket, hhop, hget]
    rfl

/-- What `udp_send_packet` returns. -/
lemma udpSendPacket_size :
    (udpSendPacket reply s dest destPort sourcePort data len).1 = 0
      ∨ (udpSendPacket reply s dest destPort sourcePort data len).1.toNat = 42 + len.toNat := by
  cases hmac : (arpGet reply s (nextHop s dest)).1 with
  | none =>
      obtain ⟨chksum, hwrite⟩ := ipWritePacket_eq reply s dest IPTYPE_UDP
        (udpDatagram destPort sourcePort data len)
      left
      rw [udpSendPacket, hwrite, hmac]
      rfl
  | some destMac =>
      obtain ⟨frame, hlength, -, hsend⟩ := udpSendPacket_buffer reply s dest destPort sourcePort
        data len (fun _ => 0) hmac
      have hlen := len.toNat_lt
      have hsize : frame.length = 42 + len.toNat := by
        rw [hlength, IP_HEADER_OFFSET, ETHERNET_HEADER_LENGTH, IP_HEADER_LENGTH,
          UDP_HEADER_LENGTH]
        omega
      right
      rw [hsend, hsize]
      exact Nat.mod_eq_of_lt (by omega)

/-- A frame that is longer than the buffer is refused. -/
lemma udpSendPacket_refused (hlong : FRAME_SIZE < 42 + len.toNat) :
    (udpSendPacket reply s dest destPort sourcePort data len).1 = 0
      ∨ ∀ (d : E1000) (packet : UInt32), e1000SendPacket d packet
          (udpSendPacket reply s dest destPort sourcePort data len).1 = d := by
  refine (udpSendPacket_size reply s dest destPort sourcePort data len).imp_right
    fun hsize d packet => ?_
  have hgt : (udpSendPacket reply s dest destPort sourcePort data len).1 > 1518 := by
    rw [gt_iff_lt, UInt32.lt_iff_toNat_lt, hsize]
    exact hlong
  rw [e1000SendPacket, if_pos hgt]

/-- The addresses in the frame buffer: the last one is that of the last byte of the data. -/
lemma udpSendStores_lt_iff {n : ℕ} (hn : IP_HEADER_OFFSET ≤ n) :
    (∀ st ∈ udpSendStores reply s dest destPort sourcePort data len, st.1 < n)
      ↔ 42 + len.toNat ≤ n := by
  have hn34 : 34 ≤ n := hn
  have hne : udpDatagram destPort sourcePort data len ≠ [] := by
    intro h
    have hlength := udpDatagram_length destPort sourcePort data len
    rw [h, List.length_nil, UDP_HEADER_LENGTH] at hlength
    omega
  have hdatagram : (∀ st ∈ storesFrom IP_HEADER_OFFSET
      (udpDatagram destPort sourcePort data len), st.1 < n) ↔ 42 + len.toNat ≤ n := by
    rw [forall_storesFrom_lt_of_ne_nil hne, udpDatagram_length, ← Nat.add_assoc]
    rfl
  have hheaders : ∀ (s' : Net) (destMac : Mac) (l : ℕ),
      ∀ st ∈ ipStores s' destMac dest IPTYPE_UDP l, st.1 < n := by
    intro s' destMac l
    rw [ipStores]
    simp only [List.forall_mem_append]
    refine ⟨⟨?_, ?_⟩, ?_⟩
    · refine (forall_storesFrom_lt_of_ne_nil (List.ne_nil_of_length_pos ?_)).mpr ?_
      · rw [ipHeader_length]; omega
      · rw [ipHeader_length]; exact hn34
    · exact (forall_storesFrom_lt_of_ne_nil (by simp [writeU16, writeU8])).mpr
        (show 14 + 10 + 2 ≤ n by omega)
    · refine (forall_storesFrom_lt_of_ne_nil (List.ne_nil_of_length_pos ?_)).mpr ?_
      · simp [writeU16, writeU8]
      · simp [writeU16, writeU8]; omega
  rw [udpSendStores, List.forall_mem_append, hdatagram, and_iff_left_iff_imp]
  intro _
  split
  · exact List.forall_mem_nil _
  · exact hheaders _ _ _

/-- What `udp_send_packet` writes is inside its buffer, and the card does not get a frame that is
too long. -/
structure UdpFits : Prop where
  inside : ∀ st ∈ udpSendStores reply s dest destPort sourcePort data len, st.1 < FRAME_SIZE
  refused : FRAME_SIZE < 42 + len.toNat →
    (udpSendPacket reply s dest destPort sourcePort data len).1 = 0
      ∨ ∀ (d : E1000) (packet : UInt32), e1000SendPacket d packet
          (udpSendPacket reply s dest destPort sourcePort data len).1 = d

/-- **A datagram fits** up to 1476 bytes of data. -/
lemma udpFits_iff :
    UdpFits reply s dest destPort sourcePort data len ↔ len.toNat ≤ 1476 := by
  have hinside := udpSendStores_lt_iff reply s dest destPort sourcePort data len
    (n := FRAME_SIZE) (by decide)
  have hsize : 42 + len.toNat ≤ FRAME_SIZE ↔ len.toNat ≤ 1476 := by
    rw [FRAME_SIZE]
    omega
  rw [← hsize, ← hinside]
  exact ⟨fun h => h.inside,
    fun h => ⟨h, udpSendPacket_refused reply s dest destPort sourcePort data len⟩⟩

end Send

/-! ### The stores into a request -/

/-- The first twelve bytes of a request. -/
def dnsRequestHeader (xid : UInt16) : List UInt8 :=
  writeU16 xid ++ writeU16 (DNS_QUERY ||| DNS_RECURSIVE) ++ writeU16 1 ++ writeU16 0 ++ writeU16 0
    ++ writeU16 0

/-- The stores of `dns_request` into its packet, in their order. -/
def dnsRequestStores (name : List UInt8) (xid : UInt16) : List (ℕ × UInt8) :=
  let written := writeNameLoop name 0 0
  storesFrom 0 (dnsRequestHeader xid) ++ shiftStores 12 written.1
    ++ storesFrom (12 + written.2) (writeU16 TYPE_A ++ writeU16 CLASS_IN)

lemma dnsRequest_length (name : List UInt8) (xid : UInt16) :
    (dnsRequest name xid).length = name.length + 18 := by
  simp [dnsRequest, writeName_length, writeU16, writeU8]

/-- **The message in the packet**, whatever the name is. -/
theorem applyStores_dnsRequestStores (mem : ℕ → UInt8) (name : List UInt8) (xid : UInt16) :
    applyStores mem (dnsRequestStores name xid) = copyTo mem 0 (dnsRequest name xid) := by
  have hname : ∀ m, applyStores m (writeNameLoop name 0 0).1 = copyTo m 0 (writeName name []) :=
    fun _ => applyStores_writeNameLoop name rfl fun k hk => absurd hk (Nat.not_lt_zero k)
  have hpointer : 12 + (writeNameLoop name 0 0).2
      = 0 + (dnsRequestHeader xid ++ writeName name []).length := by
    rw [writeNameLoop_snd, List.length_append, writeName_length]
    simp [dnsRequestHeader, writeU16, writeU8]
  calc applyStores mem (dnsRequestStores name xid)
      = copyTo (copyTo (copyTo mem 0 (dnsRequestHeader xid)) (0 + (dnsRequestHeader xid).length)
          (writeName name [])) (12 + (writeNameLoop name 0 0).2)
          (writeU16 TYPE_A ++ writeU16 CLASS_IN) := by
        rw [dnsRequestStores, applyStores_append, applyStores_append, applyStores_storesFrom,
          applyStores_storesFrom, applyStores_shiftStores_eq_copyTo hname]
        rfl
    _ = copyTo mem 0 (dnsRequestHeader xid ++ writeName name []
          ++ (writeU16 TYPE_A ++ writeU16 CLASS_IN)) := by
        rw [copyTo_append, hpointer, copyTo_append]
    _ = copyTo mem 0 (dnsRequest name xid) := by
        rw [dnsRequest, ← List.append_assoc]
        rfl

/-- The addresses of the stores of `write_name`: the last one is that of the zero byte. -/
lemma writeNameLoop_lt_iff (name : List UInt8) {i j n : ℕ} (hji : j ≤ i) :
    (∀ st ∈ (writeNameLoop name i j).1, st.1 < n) ↔ i + name.length + 2 ≤ n := by
  induction name generalizing i j with
  | nil =>
      rw [writeNameLoop, List.forall_mem_cons, List.forall_mem_singleton, List.length_nil]
      omega
  | cons c name ih =>
      rw [writeNameLoop, List.length_cons]
      split
      · rw [List.forall_mem_cons, ih le_rfl]
        omega
      · rw [List.forall_mem_cons, ih (by omega)]
        omega

lemma dnsRequestStores_lt_iff (name : List UInt8) (xid : UInt16) {n : ℕ} :
    (∀ st ∈ dnsRequestStores name xid, st.1 < n) ↔ name.length + 18 ≤ n := by
  have hheader : (∀ st ∈ storesFrom 0 (dnsRequestHeader xid), st.1 < n) ↔ 12 ≤ n :=
    forall_storesFrom_lt_of_ne_nil (by simp [dnsRequestHeader, writeU16, writeU8])
  have hname : (∀ st ∈ shiftStores 12 (writeNameLoop name 0 0).1, st.1 < n)
      ↔ 12 + (name.length + 2) ≤ n := by
    have hshift : ∀ a, 12 + a < n ↔ a < n - 12 := fun a => by omega
    rw [forall_shiftStores_lt]
    simp only [hshift]
    rw [writeNameLoop_lt_iff name le_rfl]
    omega
  have hend : (∀ st ∈ storesFrom (12 + (writeNameLoop name 0 0).2)
      (writeU16 TYPE_A ++ writeU16 CLASS_IN), st.1 < n) ↔ 12 + (name.length + 2) + 4 ≤ n := by
    rw [forall_storesFrom_lt_of_ne_nil (by simp [writeU16, writeU8]), writeNameLoop_snd,
      Nat.zero_add]
    rfl
  rw [dnsRequestStores, List.forall_mem_append, List.forall_mem_append, hheader, hname, hend]
  omega

/-! ### Requests that fit -/

section Requests

variable (reply : Ip → List (Mac × Ip))

/-- A request for a name stays in its packet, and the frame with it in its buffer; a name that is
too long for the packet is refused. -/
structure DnsFits (h : Host) (name : List UInt8) : Prop where
  inside : ∀ st ∈ dnsRequestStores name h.xidBase, st.1 < DNS_LENGTH
  frame : UdpFits reply h.net h.dnsIp DNS_PORT (PORT_OFFSET + h.xidBase) (dnsRequest name h.xidBase)
    (dnsRequest name h.xidBase).length.toUInt16
  refused : DNS_LENGTH < (dnsRequest name h.xidBase).length → dnsRequestStores name h.xidBase = []

/-- **A request fits** up to 494 bytes of a name. -/
lemma dnsFits_iff (h : Host) (name : List UInt8) :
    DnsFits reply h name ↔ name.length ≤ 494 := by
  have hinside := dnsRequestStores_lt_iff name h.xidBase (n := DNS_LENGTH)
  have hlength := dnsRequest_length name h.xidBase
  have hsize : name.length + 18 ≤ DNS_LENGTH ↔ name.length ≤ 494 := by
    rw [DNS_LENGTH]
    omega
  rw [← hsize]
  constructor
  · exact fun hfits => hinside.mp hfits.inside
  · intro hname
    have hmod : ((dnsRequest name h.xidBase).length.toUInt16).toNat = name.length + 18 := by
      rw [hlength]
      exact Nat.mod_eq_of_lt (Nat.lt_of_le_of_lt hname (by decide))
    refine ⟨hinside.mpr hname, (udpFits_iff _ _ _ _ _ _ _).mpr ?_, fun hlong => ?_⟩
    · rw [hmod]
      exact Nat.le_trans hname (by decide)
    · rw [hlength] at hlong
      exact absurd hname (Nat.not_le.mpr hlong)

/-- **Datagrams and requests.**  A datagram stays in the frame buffer exactly if it has at most 1476
bytes of data, and a request in its packet and its frame exactly if the name has at most 494 bytes:
nothing is refused before it has been written. -/
theorem requests_fit_iff :
    (∀ (s : Net) (dest : Ip) (destPort sourcePort : UInt16) (data : List UInt8) (len : UInt16),
        UdpFits reply s dest destPort sourcePort data len ↔ len.toNat ≤ 1476)
      ∧ ∀ (h : Host) (name : List UInt8), DnsFits reply h name ↔ name.length ≤ 494 :=
  ⟨udpFits_iff reply, dnsFits_iff reply⟩

end Requests

/-- One byte more than fits, and a name of 495 bytes. -/
theorem not_requests_fit :
    (¬ ∀ (reply : Ip → List (Mac × Ip)) (s : Net) (dest : Ip) (destPort sourcePort : UInt16)
        (data : List UInt8) (len : UInt16), UdpFits reply s dest destPort sourcePort data len)
      ∧ ¬ ∀ (reply : Ip → List (Mac × Ip)) (h : Host) (name : List UInt8), 0 ∉ name →
        DnsFits reply h name := by
  constructor
  · intro h
    have hfits := h (fun _ => []) Net.boot #v[10, 0, 2, 2] DNS_PORT PORT_OFFSET [] 1477
    exact absurd ((udpFits_iff _ _ _ _ _ _ _).mp hfits) (by decide)
  · intro h
    have hplain : (0 : UInt8) ∉ List.replicate 495 97 :=
      fun hmem => absurd (List.eq_of_mem_replicate hmem) (by decide)
    have hfits := h (fun _ => []) ⟨Net.boot, #v[10, 0, 2, 3], 0x1234⟩ _ hplain
    have hname := (dnsFits_iff _ _ _).mp hfits
    rw [List.length_replicate] at hname
    omega

end CustomLinuxOs
