import CustomLinuxOs.Networking.Tcp

/-!
`udp.c` and the way of a received frame: `parse_packet` of `networking.c`, `ethernet.c`,
`arp.c`, `ip.c`.

* `Datagram`, `UdpState`: the table of listeners, and the memory their buffers lie in.
* `udpSendPacket`: a datagram out.
* `addListener`, `udpRecvStart`: a listener is entered unless the port has one.
* `udpDeliver`, `udpParsePacket`: a datagram in; the first listener on its port gets it.
* `NetStack`, `parsePacket`: the layers of a received frame, down to the protocol it is for.
-/

namespace CustomLinuxOs

/-! ### Listeners -/

def UDP_HEADER_LENGTH : ℕ := 8
def IPTYPE_ICMP : UInt8 := 1
def IPTYPE_UDP : UInt8 := 17

/-- `NUM_PORTS`. -/
def NUM_PORTS : ℕ := 128

/-- `datagram_t`; `data` is the address of the buffer. -/
structure Datagram where
  data : ℕ
  /-- from perspective of sender -/
  sourcePort : UInt16
  /-- the port that is listened on -/
  destPort : UInt16
  n : UInt16
  isValid : Bool
  deriving DecidableEq, Repr

/-- The listeners and the memory with their buffers. -/
structure UdpState where
  openPorts : ℕ → Datagram
  memory : ℕ → UInt8

/-- `memcpy` from a packet pointer to an address. -/
def memcpyTo (memory : ℕ → UInt8) (dest : ℕ) (packet : List UInt8) (len : ℕ) : ℕ → UInt8 :=
  fun a => if dest ≤ a ∧ a < dest + len then packet.getD (a - dest) 0 else memory a

/-- `is_open`: it gives `0` when a listener has the port. -/
def isOpen (u : UdpState) (port : UInt16) : Bool :=
  !(List.range NUM_PORTS).any fun i =>
    (u.openPorts i).isValid && (u.openPorts i).destPort == port

/-- `add_listener`: the first free entry, `-1` when there is none. -/
def addListener (u : UdpState) (port : UInt16) (data : ℕ) (n : UInt16) : ℤ × UdpState :=
  match (List.range NUM_PORTS).find? fun i => !(u.openPorts i).isValid with
  | some i =>
      (i, { u with
        openPorts := Function.update u.openPorts i
          { u.openPorts i with data := data, destPort := port, n := n, isValid := true } })
  | none => (-1, u)

/-- `udp_recv_start`. -/
def udpRecvStart (u : UdpState) (port : UInt16) (data : ℕ) (n : UInt16) : ℤ × UdpState :=
  if !isOpen u port then (0, u) else addListener u port data n

/-- The loop of `udp_parse_packet`: the first listener on the port gets the source port and as
much of the `len` bytes as it asked for, and is taken off the table. -/
def udpDeliver (u : UdpState) (sourcePort destPort len : UInt16) (packet : List UInt8) :
    UdpState :=
  match (List.range NUM_PORTS).find? fun i =>
      (u.openPorts i).isValid && (u.openPorts i).destPort == destPort with
  | some i =>
      let d := u.openPorts i
      let len := if d.n < len then d.n else len
      { openPorts := Function.update u.openPorts i
          { d with sourcePort := sourcePort, isValid := false }
        memory := memcpyTo u.memory d.data packet len.toNat }
  | none => u

/-- `udp_parse_packet`. -/
def udpParsePacket (u : UdpState) (packet : List UInt8) : UdpState :=
  let sourcePort := readU16 packet
  let destPort := readU16 sourcePort.2
  if isOpen u destPort.1 then u
  else
    let length := readU16 destPort.2
    let len := length.1 - UDP_HEADER_LENGTH.toUInt16
    let chksum := readU16 length.2
    udpDeliver u sourcePort.1 destPort.1 len chksum.2

/-! ### Sending -/

section Send

variable (reply : Ip → List (Mac × Ip))

/-- The datagram `udp_send_packet` builds; its checksum stays `0`. -/
def udpDatagram (destPort sourcePort : UInt16) (data : List UInt8) (len : UInt16) : List UInt8 :=
  writeU16 sourcePort ++ writeU16 destPort ++ writeU16 (len + UDP_HEADER_LENGTH.toUInt16)
    ++ writeU16 0 ++ (List.range len.toNat).map fun i => data.getD i 0

/-- `udp_send_packet`: the size of the frame it sent, `0` for none. -/
def udpSendPacket (s : Net) (dest : Ip) (destPort sourcePort : UInt16) (data : List UInt8)
    (len : UInt16) : UInt32 × Net :=
  let frame := ipWritePacket reply s dest IPTYPE_UDP (udpDatagram destPort sourcePort data len)
  match frame.1 with
  | none => (0, frame.2)
  | some packet => (packet.length.toUInt32, sendPacket frame.2 packet)

/-! ### Receiving -/

/-- The state a received frame is handled in. -/
structure NetStack where
  net : Net
  udp : UdpState

/-- `arp_parse_packet`: a request is answered, and the sender goes into the cache. -/
def arpParsePacket (s : Net) (packet : List UInt8) : Net :=
  let htype := readU16 packet
  if htype.1 ≠ ARP_ETHERNET then s
  else
    let ptype := readU16 htype.2
    if ptype.1 ≠ ETHERTYPE_IP4 then s
    else
      let hlen := readU8 ptype.2
      if hlen.1 ≠ 6 then s
      else
        let plen := readU8 hlen.2
        if plen.1 ≠ 4 then s
        else
          let oper := readU16 plen.2
          let sha : Mac × List UInt8 := readN 6 oper.2
          let spa : Ip × List UInt8 := readN 4 sha.2
          let s := if oper.1 = ARP_REQUEST then arpSendPacket s ARP_RESPONSE sha.1 spa.1 else s
          arpAddCache s sha.1 spa.1

/-- `ip_parse_packet`: options and fragments are not dealt with. -/
def ipParsePacket (s : NetStack) (packet : List UInt8) : NetStack :=
  let vihl := readU8 packet
  if vihl.1 ≠ 0x45 then s
  else
    let tos := readU8 vihl.2
    let tlen := readU16 tos.2
    let id := readU16 tlen.2
    let frag := readU16 id.2
    if frag.1 &&& ((1 : UInt16) <<< 13) ≠ 0 then s
    else
      let ttl := readU8 frag.2
      let protocol := readU8 ttl.2
      let chksum := readU16 protocol.2
      let source : Ip × List UInt8 := readN 4 chksum.2
      let dest : Ip × List UInt8 := readN 4 source.2
      if protocol.1 = IPTYPE_ICMP then s
      else if protocol.1 = IPTYPE_TCP then
        let len := tlen.1.toUInt32 - IP_HEADER_LENGTH.toUInt32
        { s with net := tcpParsePacket reply s.net dest.2 len }
      else if protocol.1 = IPTYPE_UDP then { s with udp := udpParsePacket s.udp dest.2 }
      else s

/-- `ethernet_parse_packet`. -/
def ethernetParsePacket (s : NetStack) (packet : List UInt8) : NetStack :=
  let dest : Mac × List UInt8 := readN 6 packet
  let src : Mac × List UInt8 := readN 6 dest.2
  let type := readU16 src.2
  if type.1 = ETHERTYPE_IP4 then ipParsePacket reply s type.2
  else if type.1 = ETHERTYPE_ARP then { s with net := arpParsePacket s.net type.2 }
  else s

/-- `parse_packet`. -/
def parsePacket (s : NetStack) (packet : List UInt8) : NetStack :=
  ethernetParsePacket reply s packet

end Send

/-! ### The table of listeners -/

/-- The valid listeners among the entries have different ports. -/
def DistinctPorts (u : UdpState) : Prop :=
  ∀ i < NUM_PORTS, ∀ j < NUM_PORTS, (u.openPorts i).isValid = true →
    (u.openPorts j).isValid = true → (u.openPorts i).destPort = (u.openPorts j).destPort → i = j

lemma isOpen_eq_false_iff (u : UdpState) (port : UInt16) :
    isOpen u port = false
      ↔ ∃ i < NUM_PORTS, (u.openPorts i).isValid = true ∧ (u.openPorts i).destPort = port := by
  simp [isOpen]

/-- With distinct ports the search for a listener finds the one there is. -/
lemma DistinctPorts.find {u : UdpState} (h : DistinctPorts u) {i : ℕ} (hi : i < NUM_PORTS)
    (hvalid : (u.openPorts i).isValid = true) :
    (List.range NUM_PORTS).find? (fun j =>
        (u.openPorts j).isValid && (u.openPorts j).destPort == (u.openPorts i).destPort)
      = some i := by
  cases hf : (List.range NUM_PORTS).find? (fun j =>
      (u.openPorts j).isValid && (u.openPorts j).destPort == (u.openPorts i).destPort) with
  | none =>
      have hall := List.find?_eq_none.mp hf i (List.mem_range.mpr hi)
      simp [hvalid] at hall
  | some j =>
      have hj := List.mem_range.mp (List.mem_of_find?_eq_some hf)
      have hmatch := List.find?_some hf
      simp only [Bool.and_eq_true, beq_iff_eq] at hmatch
      rw [h j hj i hi hmatch.1 hvalid hmatch.2]

/-- An entry that is free, or that listens on a port no other has, leaves the ports distinct. -/
lemma DistinctPorts.update {u u' : UdpState} (h : DistinctPorts u) {k : ℕ} {d : Datagram}
    (hfree : d.isValid = true → ∀ j < NUM_PORTS, (u.openPorts j).isValid = true →
      (u.openPorts j).destPort ≠ d.destPort)
    (hu' : u'.openPorts = Function.update u.openPorts k d) : DistinctPorts u' := by
  intro i hi j hj hvi hvj heq
  rw [hu'] at hvi hvj heq
  rcases eq_or_ne i k with rfl | hik
  · rcases eq_or_ne j i with rfl | hji
    · rfl
    · simp only [Function.update_self, Function.update_of_ne hji] at hvi hvj heq
      exact absurd heq.symm (hfree hvi j hj hvj)
  · rcases eq_or_ne j k with rfl | hjk
    · simp only [Function.update_self, Function.update_of_ne hik] at hvi hvj heq
      exact absurd heq (hfree hvj i hi hvi)
    · simp only [Function.update_of_ne hik, Function.update_of_ne hjk] at hvi hvj heq
      exact h i hi j hj hvi hvj heq

/-- **A new listener** comes on a port without one, so ports stay distinct. -/
theorem udpRecvStart_distinctPorts {u : UdpState} (h : DistinctPorts u) (port : UInt16)
    (data : ℕ) (n : UInt16) : DistinctPorts (udpRecvStart u port data n).2 := by
  rw [udpRecvStart]
  cases hopen : isOpen u port with
  | false => exact h
  | true =>
      have hfree : ∀ i < NUM_PORTS, (u.openPorts i).isValid = true →
          (u.openPorts i).destPort ≠ port := by
        intro i hi hvalid heq
        have := (isOpen_eq_false_iff u port).mpr ⟨i, hi, hvalid, heq⟩
        rw [hopen] at this
        cases this
      rw [Bool.not_true, if_neg Bool.false_ne_true, addListener]
      split
      · exact h.update (fun _ => hfree) rfl
      · exact h

/-- A listener that is taken off the table leaves the ports distinct. -/
lemma udpParsePacket_distinctPorts {u : UdpState} (h : DistinctPorts u) (packet : List UInt8) :
    DistinctPorts (udpParsePacket u packet) := by
  simp only [udpParsePacket, udpDeliver]
  split
  · exact h
  · split
    · exact h.update (fun hvalid => by cases hvalid) rfl
    · exact h

end CustomLinuxOs
