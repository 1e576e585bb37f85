import CustomLinuxOs.Networking.IpIsolation
import CustomLinuxOs.Networking.RxStep

/-!
Where the bytes come from that a received frame puts into a ring: positions in the IP datagram.

The length of the payload is found by two subtractions of fields that nobody has checked.

* `rxPositions`: the data loop, with the position of every byte that it stores;
  `rxLoop_positions` says that it is the loop of `rxLoop`.
* `storedPositions`: the positions for a frame; `parsePacket_rxBuffer` says that these bytes are
  all that it puts into any ring.
* `StoresInside`: they all lie behind the TCP header and in the datagram.
* `RoomInDatagram`: the fields of the frame and the counters of the connection let no other byte
  in.  `parsePacket_storesInside_iff` says that this is exactly when it holds.
* `roomInDatagram_of_possible`: it is so when the two fields are possible ones.
-/

namespace CustomLinuxOs

/-! ### The data loop and its positions -/

/-- The data loop, with its pointer at position `p`: the positions of the bytes it stores. -/
def rxPositions (seq read : UInt32) : ℕ → UInt32 → ℕ → UInt32 → List ℕ
  | 0, _, _, _ => []
  | n + 1, j, p, readable =>
      if seq + j < readable then rxPositions seq read n (j + 1) p readable
      else if seq + j > readable then []
      else if readable + 1 < read + BUFFER_SIZE.toUInt32 then
        p :: rxPositions seq read n (j + 1) (p + 1) (readable + 1)
      else []

/-- **The data loop** stores the bytes at these positions, in their order. -/
lemma rxLoop_positions (seq : UInt32) (bytes : List UInt8) (n : ℕ) (j : UInt32) (p : ℕ)
    (conn : Connection) :
    rxLoop seq n j (bytes.drop p) conn
      = rxStore ((rxPositions seq conn.rxRead n j p conn.rxReadable).map fun i => bytes.getD i 0)
          conn := by
  induction n generalizing j p conn with
  | zero => rfl
  | succ n ih =>
      have hbyte : (readU8 (bytes.drop p)).1 = bytes.getD p 0 := by
        rw [readU8_eq, List.getD_eq_getElem?_getD, List.getElem?_drop, Nat.add_zero,
          List.getD_eq_getElem?_getD]
      have hnext : (readU8 (bytes.drop p)).2 = bytes.drop (p + 1) := by
        rw [readU8_eq, List.drop_drop]
      simp only [rxLoop, rxPositions, hbyte, hnext]
      split_ifs
      · exact ih _ _ _
      · rfl
      · exact ih _ _ _
      · rfl

/-- They follow one another. -/
lemma rxPositions_range (seq read : UInt32) (n : ℕ) (j : UInt32) (p : ℕ) (readable : UInt32) :
    ∃ k ≤ n, rxPositions seq read n j p readable = List.range' p k := by
  induction n generalizing j p readable with
  | zero => exact ⟨0, le_rfl, rfl⟩
  | succ n ih =>
      rw [rxPositions]
      split_ifs
      · obtain ⟨k, hk, h⟩ := ih (j + 1) p readable
        exact ⟨k, by omega, h⟩
      · exact ⟨0, Nat.zero_le _, rfl⟩
      · obtain ⟨k, hk, h⟩ := ih (j + 1) (p + 1) (readable + 1)
        exact ⟨k + 1, by omega, by rw [h]; rfl⟩
      · exact ⟨0, Nat.zero_le _, rfl⟩

/-- **The positions**, in closed form: as many as `rxLoop` stores bytes. -/
lemma rxPositions_eq (seq read : UInt32) {n : ℕ} (hn : n < 2 ^ 32) (p : ℕ) (readable : UInt32) :
    rxPositions seq read n 0 p readable
      = List.range' p (if seq ≤ readable then
          rxRoom read readable (n - (readable - seq).toNat) else 0) := by
  obtain ⟨k, hk, hrange⟩ := rxPositions_range seq read n 0 p readable
  set conn : Connection := { Connection.zero with rxRead := read, rxReadable := readable }
    with hconn
  have hloop : rxLoop seq n 0 [] conn
      = rxStore ((List.range' p k).map fun i => ([] : List UInt8).getD i 0) conn := by
    have hstore := rxLoop_positions seq [] n 0 p conn
    rw [List.drop_nil] at hstore
    rw [← hrange]
    exact hstore
  have hcount : ∀ m ≤ n, (rxLoop seq n 0 [] conn).rxReadable = readable + m.toUInt32 → k = m := by
    intro m hm hreadable
    rw [hloop, rxStore_rxReadable, List.length_map, List.length_range'] at hreadable
    have hsame : k.toUInt32 = m.toUInt32 := (UInt32.add_right_inj readable).mp hreadable
    have htoNat := congrArg UInt32.toNat hsame
    rwa [toNat_toUInt32, toNat_toUInt32, Nat.mod_eq_of_lt (by omega),
      Nat.mod_eq_of_lt (by omega)] at htoNat
  rw [hrange]
  refine congrArg (List.range' p) (hcount _ ?_ ?_)
  · split
    · exact (rxRoom_le _ _ _).trans (Nat.sub_le _ _)
    · exact Nat.zero_le _
  · rw [rxLoop_eq]
    by_cases hle : seq ≤ readable
    · rw [if_pos hle]
      by_cases hreach : (readable - seq).toNat < n
      · rw [if_pos ⟨hle, hreach⟩, rxStore_rxReadable, bytesAt_length]
      · rw [if_neg fun h => hreach h.2, Nat.sub_eq_zero_of_le (Nat.not_lt.mp hreach), rxRoom]
        exact (UInt32.add_zero _).symm
    · rw [if_neg hle, if_neg fun h => hle h.1]
      exact (UInt32.add_zero _).symm

/-! ### The counters behind the flags -/

/-- `rx_read` once the flags of a segment are handled. -/
def readAfterFlags (h : TcpHeader) (conn : Connection) : UInt32 :=
  if h.flags.syn then h.seq + 1 else conn.rxRead

/-- `rx_readable` once the flags of a segment are handled. -/
def readableAfterFlags (h : TcpHeader) (conn : Connection) : UInt32 :=
  if h.flags.syn then h.seq + 1
  else if h.flags.fin && !conn.isClosed then conn.rxReadable + 1
  else conn.rxReadable

/-- The flags move the two counters, and leave the bytes of the ring alone. -/
lemma tcpHandleFlags_counters (s : Net) (i : ℕ) (h : TcpHeader) :
    ((tcpHandleFlags s i h).connections i).rxRead = readAfterFlags h (s.connections i)
      ∧ ((tcpHandleFlags s i h).connections i).rxReadable
        = readableAfterFlags h (s.connections i)
      ∧ ((tcpHandleFlags s i h).connections i).rxBuffer = (s.connections i).rxBuffer := by
  have hack := tcpHandleAck_rxSide s i h
  have hfin := tcpHandleFin_rxSide (tcpHandleAck s i h) i h
  have hclosed : ((tcpHandleAck s i h).connections i).isClosed = (s.connections i).isClosed :=
    congrArg RxSide.isClosed hack
  have hreadable : ((tcpHandleAck s i h).connections i).rxReadable
      = (s.connections i).rxReadable := congrArg RxSide.rxReadable hack
  rw [hclosed, hreadable, hack] at hfin
  set t := tcpHandleFin (tcpHandleAck s i h) i h with ht
  have hrst : ((tcpHandleFlags s i h).connections i).rxRead
        = ((tcpHandleSyn t i h).connections i).rxRead
      ∧ ((tcpHandleFlags s i h).connections i).rxReadable
        = ((tcpHandleSyn t i h).connections i).rxReadable
      ∧ ((tcpHandleFlags s i h).connections i).rxBuffer
        = ((tcpHandleSyn t i h).connections i).rxBuffer := by
    simp only [tcpHandleFlags, tcpHandleRst, ← ht]
    split
    · rw [setConnection_self]
      exact ⟨rfl, rfl, rfl⟩
    · exact ⟨rfl, rfl, rfl⟩
  have hread : (t.connections i).rxRead = (s.connections i).rxRead := by
    rw [show (t.connections i).rxRead = _ from congrArg RxSide.rxRead hfin]
    split <;> rfl
  have hring : (t.connections i).rxBuffer = (s.connections i).rxBuffer := by
    rw [show (t.connections i).rxBuffer = _ from congrArg RxSide.rxBuffer hfin]
    split <;> rfl
  rw [hrst.1, hrst.2.1, hrst.2.2]
  by_cases hsyn : h.flags.syn
  · obtain ⟨w, hdelay⟩ := tcpDelayAck_frame (t.setConnection i { t.connections i with
      rxRead := h.seq + 1, rxReadable := h.seq + 1, txSendable := (t.connections i).txAckd }) i
    rw [setConnection_self] at hdelay
    simp only [tcpHandleSyn, hsyn, if_true, setConnection_self, hdelay, readAfterFlags,
      readableAfterFlags, true_and]
    exact hring
  · simp only [tcpHandleSyn, hsyn, Bool.false_eq_true, if_false, readAfterFlags,
      readableAfterFlags]
    refine ⟨hread, ?_, hring⟩
    rw [show (t.connections i).rxReadable = _ from congrArg RxSide.rxReadable hfin]
    split <;> rfl

/-! ### The positions for a frame -/

/-- The frame carries a packet that goes to `tcp_parse_packet`. -/
def ReachesTcp (frame : List UInt8) : Prop :=
  (readU8 (frame.drop 14)).1 = 0x45 ∧ ¬ MoreFragments frame
    ∧ (readU8 (frame.drop 23)).1 = IPTYPE_TCP

instance (frame : List UInt8) : Decidable (ReachesTcp frame) :=
  inferInstanceAs (Decidable (_ ∧ ¬ (_ ≠ _) ∧ _))

/-- The fixed TCP header in a frame. -/
def frameHeader (frame : List UInt8) : TcpHeader := (readTcpHeader (frame.drop 34)).1

/-- The total length of the datagram in a frame. -/
def ipTotalLength (frame : List UInt8) : UInt16 := (readU16 (frame.drop 16)).1

/-- The segment in the frame belongs to connection `i`, and its data is reached. -/
def DataReaches (s : Net) (frame : List UInt8) (i : ℕ) : Prop :=
  ReachesTcp frame ∧ findConnection s (frameHeader frame) = some i
    ∧ payloadReached (frame.drop 34) = true

instance (s : Net) (frame : List UInt8) (i : ℕ) : Decidable (DataReaches s frame i) :=
  inferInstanceAs (Decidable (_ ∧ _ ∧ _))

/-- Where the TCP header of a frame ends, as a position in the datagram. -/
def dataStart (frame : List UInt8) : ℕ :=
  IP_HEADER_LENGTH + max TCP_HEADER_LENGTH (4 * (frameHeader frame).flags.dataOffset)

/-- The positions in the datagram of the bytes that a frame puts into the ring of connection `i`,
in their order. -/
def storedPositions (s : Net) (frame : List UInt8) (i : ℕ) : List ℕ :=
  let h := frameHeader frame
  if DataReaches s frame i then
    rxPositions h.seq (readAfterFlags h (s.connections i)) (payloadLength h (ipPayloadLength frame))
      0 (dataStart frame) (readableAfterFlags h (s.connections i))
  else []

/-- The counter behind which a frame stores its first byte. -/
def storedBehind (s : Net) (frame : List UInt8) (i : ℕ) : UInt32 :=
  if DataReaches s frame i then readableAfterFlags (frameHeader frame) (s.connections i)
  else (s.connections i).rxReadable

/-- The ring after storing bytes depends on the ring and on where it is filled. -/
lemma rxStore_rxBuffer_congr (bytes : List UInt8) {c d : Connection}
    (hring : c.rxBuffer = d.rxBuffer) (hreadable : c.rxReadable = d.rxReadable) :
    (rxStore bytes c).rxBuffer = (rxStore bytes d).rxBuffer := by
  induction bytes generalizing c d with
  | nil => exact hring
  | cons b bytes ih =>
      rw [rxStore, rxStore, hring, hreadable]
      exact ih rfl rfl

/-- The payload pointer of `tcp_parse_packet`, in the datagram. -/
lemma payloadOf_frame (frame : List UInt8) :
    payloadOf (frameHeader frame) (readTcpHeader (frame.drop 34)).2
      = (frame.drop 14).drop (dataStart frame) := by
  have hrest : (readTcpHeader (frame.drop 34)).2 = frame.drop 54 := by
    simp only [readTcpHeader, readU16_snd, readU32, readN, List.drop_drop,
      Nat.reduceAdd]
  have hip : IP_HEADER_LENGTH = 20 := rfl
  have htcp : TCP_HEADER_LENGTH = 20 := rfl
  rw [payloadOf, hrest, List.drop_drop, List.drop_drop, dataStart]
  exact congrArg (List.drop · frame) (by omega)

/-- A frame that carries a segment hands it to `tcp_parse_packet`. -/
lemma parsePacket_of_reachesTcp (reply : Ip → List (Mac × Ip)) (s : NetStack)
    {frame : List UInt8} (htype : frameType frame = ETHERTYPE_IP4) (htcp : ReachesTcp frame) :
    (parsePacket reply s frame).net
      = tcpParsePacket reply s.net (frame.drop 34) (ipPayloadLength frame) := by
  have hicmp : (readU8 (frame.drop 23)).1 ≠ IPTYPE_ICMP := by
    rw [htcp.2.2]
    decide
  have hmore : ¬ ipFragmentField frame &&& ((1 : UInt16) <<< 13) ≠ 0 := htcp.2.1
  rw [parsePacket_of_ip reply s htype, if_neg (not_not.mpr htcp.1), if_neg hmore, if_neg hicmp,
    if_pos htcp.2.2]

/-- Other frames leave the network state alone. -/
lemma parsePacket_of_not_reachesTcp (reply : Ip → List (Mac × Ip)) (s : NetStack)
    {frame : List UInt8} (htype : frameType frame = ETHERTYPE_IP4) (htcp : ¬ ReachesTcp frame) :
    (parsePacket reply s frame).net = s.net := by
  rw [parsePacket_of_ip reply s htype]
  split_ifs with h1 h2 h3 h4
  · rfl
  · rfl
  · rfl
  · exact absurd ⟨not_not.mp h1, h2, h4⟩ htcp
  · rfl
  · rfl

/-- **What a frame stores.**  After an IPv4 frame each ring holds, from where it was filled, the
bytes of the datagram at the stored positions, and is else as it was. -/
theorem parsePacket_rxBuffer (reply : Ip → List (Mac × Ip)) (s : NetStack) {frame : List UInt8}
    (htype : frameType frame = ETHERTYPE_IP4) (i : ℕ) :
    ((parsePacket reply s frame).net.connections i).rxBuffer
      = (rxStore ((storedPositions s.net frame i).map fun p => (frame.drop 14).getD p 0)
          { s.net.connections i with rxReadable := storedBehind s.net frame i }).rxBuffer := by
  set h := frameHeader frame with hh
  set p := (readTcpHeader (frame.drop 34)).2 with hp
  have hnone : ∀ net : Net, (net.connections i).rxBuffer = (s.net.connections i).rxBuffer →
      ¬ DataReaches s.net frame i → (net.connections i).rxBuffer
        = (rxStore ((storedPositions s.net frame i).map fun p => (frame.drop 14).getD p 0)
          { s.net.connections i with rxReadable := storedBehind s.net frame i }).rxBuffer := by
    intro net hsame hreach
    rw [hsame]
    simp only [storedPositions, if_neg hreach, List.map_nil, rxStore]
  by_cases htcp : ReachesTcp frame
  · have hparse := parsePacket_of_reachesTcp reply s htype htcp
    by_cases hfind : findConnection s.net h = some i
    · have hinput : tcpParsePacket reply s.net (frame.drop 34) (ipPayloadLength frame)
          = tcpInput reply s.net i h p (ipPayloadLength frame) := by
        simp only [tcpParsePacket, ← hp]
        rw [show (readTcpHeader (frame.drop 34)).1 = h from rfl, hfind]
      obtain ⟨hread, hreadable, hring⟩ := tcpHandleFlags_counters s.net i h
      have hside := tcpInput_rxSide reply s.net i h p (ipPayloadLength frame) rfl
      have hbuffer : ((tcpInput reply s.net i h p (ipPayloadLength frame)).connections i).rxBuffer
          = _ := congrArg RxSide.rxBuffer hside
      rw [hparse, hinput]
      by_cases hoptions : optionsComplete h p
      · have hreach : DataReaches s.net frame i := ⟨htcp, hfind, hoptions⟩
        rw [hbuffer, if_pos hoptions, hh, hp, payloadOf_frame, rxLoop_positions, ← hh, hread,
          hreadable]
        simp only [storedPositions, storedBehind, if_pos hreach]
        exact rxStore_rxBuffer_congr _ hring hreadable
      · refine hnone _ ?_ fun hreach => hoptions hreach.2.2
        rw [hbuffer, if_neg hoptions]
        exact hring
    · refine hnone _ ?_ fun hreach => hfind hreach.2.1
      rw [hparse]
      simp only [tcpParsePacket, show (readTcpHeader (frame.drop 34)).1 = h from rfl]
      cases hother : findConnection s.net h with
      | none => rfl
      | some k =>
          have hne : i ≠ k := fun heq => hfind (heq ▸ hother)
          rw [tcpInput_of_ne reply s.net h p _ hne]
  · refine hnone _ ?_ fun hreach => htcp hreach.1
    rw [parsePacket_of_not_reachesTcp reply s htype htcp]

/-! ### Inside the datagram -/

/-- What a frame puts into the rings comes from between the end of the TCP header and the end of
the datagram; a datagram too short for its headers puts nothing there. -/
structure StoresInside (s : Net) (frame : List UInt8) : Prop where
  inside : ∀ i, ∀ p ∈ storedPositions s frame i,
    dataStart frame ≤ p ∧ p < (ipTotalLength frame).toNat
  short : (ipTotalLength frame).toNat < dataStart frame → ∀ i, storedPositions s frame i = []

/-- As many bytes as the frame announces behind `rx_readable`, or as the ring has room for, fit
between the end of the TCP header and the end of the datagram. -/
def RoomInDatagram (s : Net) (frame : List UInt8) : Prop :=
  ∀ i, DataReaches s frame i →
    let h := frameHeader frame
    let read := readAfterFlags h (s.connections i)
    let readable := readableAfterFlags h (s.connections i)
    h.seq ≤ readable →
      min (payloadLength h (ipPayloadLength frame) - (readable - h.seq).toNat)
          ((read + BUFFER_SIZE.toUInt32).toNat - (readable + 1).toNat)
        ≤ (ipTotalLength frame).toNat - dataStart frame

lemma payloadLength_lt_size (h : TcpHeader) (len : UInt32) : payloadLength h len < 2 ^ 32 :=
  (Nat.sub_le _ _).trans_lt len.toNat_lt

/-- The positions for a frame that reaches its data, in closed form. -/
lemma storedPositions_eq {s : Net} {frame : List UInt8} {i : ℕ} (hreach : DataReaches s frame i) :
    storedPositions s frame i
      = List.range' (dataStart frame)
          (if (frameHeader frame).seq
              ≤ readableAfterFlags (frameHeader frame) (s.connections i) then
            min (payloadLength (frameHeader frame) (ipPayloadLength frame)
                - (readableAfterFlags (frameHeader frame) (s.connections i)
                  - (frameHeader frame).seq).toNat)
              ((readAfterFlags (frameHeader frame) (s.connections i)
                  + BUFFER_SIZE.toUInt32).toNat
                - (readableAfterFlags (frameHeader frame) (s.connections i) + 1).toNat)
          else 0) := by
  simp only [storedPositions, if_pos hreach]
  rw [rxPositions_eq _ _ (payloadLength_lt_size _ _), rxRoom_eq_min]

/-- Consecutive positions lie below a limit when there are few enough. -/
lemma range_inside_iff (start count limit : ℕ) :
    (∀ p ∈ List.range' start count, start ≤ p ∧ p < limit) ↔ count ≤ limit - start := by
  constructor
  · intro h
    by_cases hcount : count = 0
    · omega
    · have hlast := h (start + (count - 1)) (List.mem_range'_1.mpr (by omega))
      omega
  · intro h p hp
    have hmem := List.mem_range'_1.mp hp
    omega

/-- **Input stays inside the datagram** exactly when the frame announces, and the ring takes, no
more than fits there. -/
lemma storesInside_iff (s : Net) (frame : List UInt8) :
    StoresInside s frame ↔ RoomInDatagram s frame := by
  constructor
  · intro hinside i hreach h read readable hle
    have hpositions := hinside.inside i
    rw [storedPositions_eq hreach, if_pos hle, range_inside_iff] at hpositions
    exact hpositions
  · intro hroom
    have hinside : ∀ i, ∀ p ∈ storedPositions s frame i,
        dataStart frame ≤ p ∧ p < (ipTotalLength frame).toNat := by
      intro i
      by_cases hreach : DataReaches s frame i
      · rw [storedPositions_eq hreach, range_inside_iff]
        split
        · rename_i hle
          exact hroom i hreach hle
        · exact Nat.zero_le _
      · simp only [storedPositions, if_neg hreach]
        exact fun p hp => absurd hp List.not_mem_nil
    refine ⟨hinside, fun hshort i => List.eq_nil_iff_forall_not_mem.mpr fun p hp => ?_⟩
    have := hinside i p hp
    omega

/-- A total length that covers the IP header and a data offset that covers the TCP header are
enough. -/
lemma roomInDatagram_of_possible (s : Net) {frame : List UInt8}
    (htotal : IP_HEADER_LENGTH ≤ (ipTotalLength frame).toNat)
    (hoffset : 5 ≤ (frameHeader frame).flags.dataOffset) : RoomInDatagram s frame := by
  intro i _ h read readable _
  have hip : IP_HEADER_LENGTH = 20 := rfl
  have htcp : TCP_HEADER_LENGTH = 20 := rfl
  have hlt : h.flags.dataOffset < 16 := dataOffset_lt (frame.drop 34)
  have hge : 5 ≤ h.flags.dataOffset := hoffset
  have hoff : (h.flags.dataOffset * 4).toUInt32.toNat = h.flags.dataOffset * 4 := by
    rw [toNat_toUInt32]
    exact Nat.mod_eq_of_lt (by omega)
  have hlen : (ipPayloadLength frame).toNat = (ipTotalLength frame).toNat - 20 := by
    have hle : IP_HEADER_LENGTH.toUInt32 ≤ (ipTotalLength frame).toUInt32 := by
      rw [UInt32.le_iff_toNat_le, UInt16.toNat_toUInt32]
      exact htotal
    rw [show ipPayloadLength frame = (ipTotalLength frame).toUInt32 - IP_HEADER_LENGTH.toUInt32
      from rfl, UInt32.toNat_sub_of_le _ _ hle, UInt16.toNat_toUInt32]
    rfl
  have hstart : dataStart frame = 20 + 4 * h.flags.dataOffset := by
    rw [dataStart, show (frameHeader frame).flags.dataOffset = h.flags.dataOffset from rfl]
    omega
  have hpayload : payloadLength h (ipPayloadLength frame)
      = (ipTotalLength frame).toNat - dataStart frame := by
    rw [payloadLength, hoff, hlen, hstart]
    omega
  rw [← hpayload]
  exact (Nat.min_le_left _ _).trans (Nat.sub_le _ _)

/-- **TCP input and its datagram.**  The rings after an IPv4 frame hold the bytes at the stored
positions, and these stay inside the datagram exactly when there is room for them. -/
theorem parsePacket_storesInside_iff (reply : Ip → List (Mac × Ip)) (s : NetStack)
    {frame : List UInt8} (htype : frameType frame = ETHERTYPE_IP4) :
    (∀ i, ((parsePacket reply s frame).net.connections i).rxBuffer
        = (rxStore ((storedPositions s.net frame i).map fun p => (frame.drop 14).getD p 0)
            { s.net.connections i with rxReadable := storedBehind s.net frame i }).rxBuffer)
      ∧ (StoresInside s.net frame ↔ RoomInDatagram s.net frame) :=
  ⟨parsePacket_rxBuffer reply s htype, storesInside_iff s.net frame⟩

/-- A host with one connection that has just been opened. -/
def connectedHost : NetStack := { oneListener with net := afterSynNet }

/-- A frame with a segment of `size` bytes for that connection, as its headers say, and a data
offset of `offset`. -/
def segmentFrame (size : ℕ) (offset : UInt8) (payload : List UInt8) : List UInt8 :=
  ethernetWritePacket Net.boot broadcastMac ETHERTYPE_IP4
    (ipHeader Net.boot configuredHost.net.ourIp IPTYPE_TCP size 0
      ++ writeU16 80 ++ writeU16 0x8000 ++ writeU32 1 ++ writeU32 0 ++ [offset <<< 4, 0x10]
      ++ writeU16 2048 ++ writeU16 0 ++ writeU16 0 ++ payload)

/-- Three bytes behind a header without options. -/
theorem parsePacket_storesInside_iff_three :
    frameType (segmentFrame 23 5 [7, 8, 9]) = ETHERTYPE_IP4
      ∧ (StoresInside connectedHost.net (segmentFrame 23 5 [7, 8, 9])
        ↔ RoomInDatagram connectedHost.net (segmentFrame 23 5 [7, 8, 9])) :=
  ⟨frameType_ethernetWritePacket _ _ _ _,
    (parsePacket_storesInside_iff (fun _ => []) connectedHost
      (frameType_ethernetWritePacket _ _ _ _)).2⟩

/-- A datagram of 24 bytes with a data offset of zero: four bytes from behind it are stored. -/
theorem not_storesInside_short :
    ¬ ∀ (s : NetStack) (frame : List UInt8), frameType frame = ETHERTYPE_IP4 →
      StoresInside s.net frame := by
  intro h
  have hinside := h connectedHost (segmentFrame 4 0 [7, 8, 9, 10])
    (frameType_ethernetWritePacket _ _ _ _)
  have hshort := hinside.short (by decide +kernel) 0
  have hstored : storedPositions connectedHost.net (segmentFrame 4 0 [7, 8, 9, 10]) 0
      = [40, 41, 42, 43] := by decide +kernel
  rw [hstored] at hshort
  cases hshort

end CustomLinuxOs
