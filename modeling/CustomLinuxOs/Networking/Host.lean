import CustomLinuxOs.Networking.Wire

/-!
The networking state of the kernel and the layers below TCP: the ARP cache of `arp.c`, the
frames of `ethernet.c`, the IP header of `ip.c`, and the timers of `rtc.c` that TCP registers.

* `Connection`, `Handler`, `Net`: the global variables the network code works on.  `sent` is
  the list of the frames given to `send_packet`, newest last.
* `arpGet`: a lookup that misses sends a request and spins for a second.  Which ARP packets
  are accepted during that second is the environment's choice, `reply`.
* `ipWritePacket`: header, next hop and Ethernet frame around a payload.
-/

namespace CustomLinuxOs

/-! ### Constants of `networking.h` and `tcp.c` -/

/-- `BUFFER_SIZE`, the slots of either ring of a connection. -/
def BUFFER_SIZE : ℕ := 2048

/-- `NUM_CONNECTIONS`. -/
def NUM_CONNECTIONS : ℕ := 8

/-- `ARP_CACHE_SIZE`. -/
def ARP_CACHE_SIZE : ℕ := 8

def ETHERTYPE_IP4 : UInt16 := 0x0800
def ETHERTYPE_ARP : UInt16 := 0x0806
def ARP_ETHERNET : UInt16 := 0x01
def ARP_REQUEST : UInt16 := 1
def ARP_RESPONSE : UInt16 := 2
def IP_HEADER_LENGTH : ℕ := 20
def TCP_HEADER_LENGTH : ℕ := 20
def IPTYPE_TCP : UInt8 := 6

/-- `broadcast_mac`. -/
def broadcastMac : Mac := #v[0xff, 0xff, 0xff, 0xff, 0xff, 0xff]

/-! ### State -/

/-- `connection_t`.  The two rings are functions on slot numbers. -/
structure Connection where
  isValid : Bool
  isOpen : Bool
  isClosed : Bool
  /-- what we've read up to -/
  rxRead : UInt32
  /-- what we've received up to (ack number) -/
  rxReadable : UInt32
  /-- latest acked send position (sequence number) -/
  txAckd : UInt32
  /-- amount we can send up to (possibly in flight) -/
  txSendable : UInt32
  waitTime : UInt32
  mss : UInt32
  windowSize : UInt32
  wait : UInt32
  gotAck : Bool
  sourcePort : UInt16
  destPort : UInt16
  windowScale : UInt8
  destIp : Ip
  rxBuffer : ℕ → UInt8
  txBuffer : ℕ → UInt8

/-- A connection as it lies in zeroed memory. -/
def Connection.zero : Connection where
  isValid := false
  isOpen := false
  isClosed := false
  rxRead := 0
  rxReadable := 0
  txAckd := 0
  txSendable := 0
  waitTime := 0
  mss := 0
  windowSize := 0
  wait := 0
  gotAck := false
  sourcePort := 0
  destPort := 0
  windowScale := 0
  destIp := Vector.replicate 4 0
  rxBuffer := fun _ => 0
  txBuffer := fun _ => 0

/-- The functions that are registered with `rtc_register_handler`. -/
inductive HandlerFunction where
  | tcpAck
  deriving DecidableEq, Repr

/-- `handler_t` of `rtc.c`. -/
structure Handler where
  function : HandlerFunction
  time : UInt32
  arg : UInt32
  deriving DecidableEq, Repr

/-- `arp_cache_entry_t`. -/
structure ArpCacheEntry where
  mac : Mac
  ip : Ip

/-- The global variables of the network code. -/
structure Net where
  ourMac : Mac
  ourIp : Ip
  gatewayIp : Ip
  subnetMask : Ip
  arpCache : ℕ → ArpCacheEntry
  arpCacheLen : ℕ
  arpCacheCounter : ℕ
  connections : ℕ → Connection
  /-- the tick counter of `rtc.c` -/
  counter : UInt32
  /-- the first `num_handlers` entries of `handlers` -/
  handlers : List Handler
  /-- the frames given to `send_packet` -/
  sent : List (List UInt8)

/-- The networking state at power-on: all variables zeroed or as initialised in
`networking.c`. -/
def Net.boot : Net where
  ourMac := Vector.replicate 6 0
  ourIp := Vector.replicate 4 0
  gatewayIp := Vector.replicate 4 0
  subnetMask := Vector.replicate 4 255
  arpCache := fun _ => ⟨Vector.replicate 6 0, Vector.replicate 4 0⟩
  arpCacheLen := 0
  arpCacheCounter := 0
  connections := fun _ => Connection.zero
  counter := 0
  handlers := []
  sent := []

/-- `send_packet`. -/
def sendPacket (s : Net) (packet : List UInt8) : Net :=
  { s with sent := s.sent ++ [packet] }

/-- Writing through a pointer to one connection. -/
def Net.setConnection (s : Net) (idx : ℕ) (conn : Connection) : Net :=
  { s with connections := Function.update s.connections idx conn }

/-! ### Timers -/

/-- `rtc_wait`, with `OS_RTC_MAX` ticks a second. -/
def rtcWait (s : Net) (durationMs : UInt32) : UInt32 :=
  s.counter + (durationMs * 1024) / 1000

/-- `rtc_register_handler`: the new entry and its time. -/
def rtcRegisterHandler (s : Net) (function : HandlerFunction) (arg wait : UInt32) :
    UInt32 × Net :=
  let t := rtcWait s wait
  (t, { s with handlers := s.handlers ++ [{ function := function, time := t, arg := arg }] })

/-! ### Ethernet and ARP -/

/-- The frame `ethernet_write_packet` leaves in the buffer: its header before the payload. -/
def ethernetWritePacket (s : Net) (dest : Mac) (type : UInt16) (payload : List UInt8) :
    List UInt8 :=
  dest.toList ++ s.ourMac.toList ++ writeU16 type ++ payload

/-- `arp_send_packet`.  The operation it is given is not used: every packet is written as a
request. -/
def arpSendPacket (s : Net) (_operation : UInt16) (tha : Mac) (tpa : Ip) : Net :=
  let payload := writeU16 ARP_ETHERNET ++ writeU16 ETHERTYPE_IP4 ++ writeU8 6 ++ writeU8 4
    ++ writeU16 ARP_REQUEST ++ s.ourMac.toList ++ s.ourIp.toList ++ tha.toList ++ tpa.toList
  sendPacket s (ethernetWritePacket s tha ETHERTYPE_ARP payload)

/-- `arp_add_cache`: a known MAC gets the new address, an unknown one takes the slot at the
counter. -/
def arpAddCache (s : Net) (mac : Mac) (ip : Ip) : Net :=
  match (List.range s.arpCacheLen).find? fun i => decide ((s.arpCache i).mac = mac) with
  | some i => { s with arpCache := Function.update s.arpCache i { s.arpCache i with ip := ip } }
  | none =>
      let counter := s.arpCacheCounter + 1
      { s with
        arpCache := Function.update s.arpCache s.arpCacheCounter ⟨mac, ip⟩
        arpCacheLen := if s.arpCacheLen < ARP_CACHE_SIZE then s.arpCacheLen + 1
          else s.arpCacheLen
        arpCacheCounter := if counter = ARP_CACHE_SIZE then 0 else counter }

/-- `arp_try_cache`: the first entry with the address. -/
def arpTryCache (s : Net) (ip : Ip) : Option Mac :=
  ((List.range s.arpCacheLen).find? fun i => decide ((s.arpCache i).ip = ip)).map
    fun i => (s.arpCache i).mac

section Send

-- the ARP packets that arrive and are accepted while a lookup of an address spins
variable (reply : Ip → List (Mac × Ip))

/-- `arp_get`: on a miss a request goes out, and the cache is tried again on what arrives
within the second. -/
def arpGet (s : Net) (ip : Ip) : Option Mac × Net :=
  match arpTryCache s ip with
  | some mac => (some mac, s)
  | none =>
      let s := arpSendPacket s ARP_REQUEST broadcastMac ip
      let s := (reply ip).foldl (fun s p => arpAddCache s p.1 p.2) s
      (arpTryCache s ip, s)

/-- `check_subnet`. -/
def checkSubnet (s : Net) (ip : Ip) : Bool :=
  (List.finRange 4).all fun i =>
    decide (ip[i] &&& s.subnetMask[i] = s.gatewayIp[i] &&& s.subnetMask[i])

/-- `ip_write_packet`: the frame around a payload, or `none` when the next hop stays
unknown.  The checksum is written over the zero it was computed with. -/
def ipWritePacket (s : Net) (dest : Ip) (protocol : UInt8) (payload : List UInt8) :
    Option (List UInt8) × Net :=
  let hop := if checkSubnet s dest then arpGet reply s dest else arpGet reply s s.gatewayIp
  let s := hop.2
  match hop.1 with
  | none => (none, s)
  | some destMac =>
      let header := writeU8 0x45 ++ writeU8 0
        ++ writeU16 (IP_HEADER_LENGTH + payload.length).toUInt16 ++ writeU16 0 ++ writeU16 0
        ++ writeU8 64 ++ writeU8 protocol ++ writeU16 0 ++ s.ourIp.toList ++ dest.toList
      let header := overwrite header 10 (writeU16 (checksum header IP_HEADER_LENGTH))
      (some (ethernetWritePacket s destMac ETHERTYPE_IP4 (header ++ payload)), s)

end Send

/-! ### What the lower layers leave alone -/

@[simp] lemma sendPacket_connections (s : Net) (packet : List UInt8) :
    (sendPacket s packet).connections = s.connections := rfl

@[simp] lemma arpSendPacket_connections (s : Net) (op : UInt16) (tha : Mac) (tpa : Ip) :
    (arpSendPacket s op tha tpa).connections = s.connections := rfl

@[simp] lemma arpAddCache_connections (s : Net) (mac : Mac) (ip : Ip) :
    (arpAddCache s mac ip).connections = s.connections := by
  rw [arpAddCache]
  split <;> rfl

@[simp] lemma arpGet_connections (reply : Ip → List (Mac × Ip)) (s : Net) (ip : Ip) :
    (arpGet reply s ip).2.connections = s.connections := by
  have key : ∀ (l : List (Mac × Ip)) (s : Net),
      (l.foldl (fun s p => arpAddCache s p.1 p.2) s).connections = s.connections := by
    intro l
    induction l with
    | nil => intro s; rfl
    | cons p l ih => intro s; rw [List.foldl_cons, ih, arpAddCache_connections]
  rw [arpGet]
  split
  · rfl
  · rw [key, arpSendPacket_connections]

@[simp] lemma ipWritePacket_connections (reply : Ip → List (Mac × Ip)) (s : Net) (dest : Ip)
    (protocol : UInt8) (payload : List UInt8) :
    (ipWritePacket reply s dest protocol payload).2.connections = s.connections := by
  have hhop : (if checkSubnet s dest then arpGet reply s dest
      else arpGet reply s s.gatewayIp).2.connections = s.connections := by
    split <;> exact arpGet_connections reply s _
  rw [ipWritePacket]
  split <;> exact hhop

@[simp] lemma rtcRegisterHandler_connections (s : Net) (function : HandlerFunction)
    (arg wait : UInt32) :
    (rtcRegisterHandler s function arg wait).2.connections = s.connections := rfl

end CustomLinuxOs
