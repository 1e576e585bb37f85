import Mathlib.Data.Nat.Bitwise
import CustomLinuxOs.Networking.Frames

/-!
A segment from `tcp_write` to `tcp_parse_packet`: what is encoded is decoded, for all flags.

* `tcpOptionsLoop`: the option loop with the pointer it leaves; `tcpOptionsLoop_fst` says that
  it is the loop of `tcpOptions`.
* `tcpFields`, `overwrite_tcpFields`: the segment, with or without options, up to its checksum.
* `ReadsAs`: the header, the options and the payload a reader finds.
* `tcpWrite_roundTrip`: this is what it finds in the frame that is sent.
-/

namespace CustomLinuxOs

/-! ### The option loop and its pointer -/

/-- The option loop of `tcp_parse_packet` with the pointer `options` at its end. -/
def tcpOptionsLoop : ℕ → List UInt8 → UInt32 → UInt8 → (UInt32 × UInt8 × Bool) × List UInt8
  | 0, options, mss, scale => ((mss, scale, true), options)
  | n + 1, options, mss, scale =>
      let kind := readU8 options
      if kind.1 = 0 then ((mss, scale, true), kind.2)
      else if kind.1 = 1 then tcpOptionsLoop n kind.2 mss scale
      else if kind.1 = 2 then
        let j := readU8 kind.2
        if j.1 = 4 then
          let j := readU16 j.2
          tcpOptionsLoop n j.2 (if j.1.toUInt32 < mss then j.1.toUInt32 else mss) scale
        else ((mss, scale, false), j.2)
      else if kind.1 = 3 then
        let j := readU8 kind.2
        if j.1 = 3 then
          let j := readU8 j.2
          tcpOptionsLoop n j.2 mss j.1
        else ((mss, scale, false), j.2)
      else
        let j := readU8 kind.2
        tcpOptionsLoop n (j.2.drop j.1.toNat) mss scale

lemma tcpOptionsLoop_fst (n : ℕ) (options : List UInt8) (mss : UInt32) (scale : UInt8) :
    (tcpOptionsLoop n options mss scale).1 = tcpOptions n options mss scale := by
  induction n generalizing options mss scale with
  | zero => rfl
  | succ n ih =>
      simp only [tcpOptionsLoop, tcpOptions]
      split_ifs <;> first | rfl | exact ih _ _ _

/-- Options only lower the segment size. -/
lemma tcpOptions_mss_le (n : ℕ) (options : List UInt8) (mss : UInt32) (scale : UInt8) :
    (tcpOptions n options mss scale).1 ≤ mss := by
  induction n generalizing options mss scale with
  | zero => exact UInt32.le_refl mss
  | succ n ih =>
      simp only [tcpOptions]
      split_ifs with _ _ _ _ hlt
      · exact UInt32.le_refl mss
      · exact ih _ _ _
      · exact UInt32.le_trans (ih _ _ _) (UInt32.le_of_lt hlt)
      · exact ih _ _ _
      · exact UInt32.le_refl mss
      · exact ih _ _ _
      · exact UInt32.le_refl mss
      · exact ih _ _ _

/-- The options `tcp_write` puts in a SYN. -/
def tcpSynOptions (conn : Connection) : List UInt8 :=
  writeU8 2 ++ writeU8 4 ++ writeU16 conn.mss.toUInt16 ++ writeU8 3 ++ writeU8 3 ++ writeU8 0
    ++ writeU8 0

/-- The option loop takes all of them and no byte of what follows. -/
lemma tcpOptionsLoop_synOptions (conn : Connection) (rest : List UInt8) (mss : UInt32)
    (scale : UInt8) :
    tcpOptionsLoop ((tcpSynOptions conn ++ rest).length + 1) (tcpSynOptions conn ++ rest) mss scale
      = ((if conn.mss.toUInt16.toUInt32 < mss then conn.mss.toUInt16.toUInt32 else mss, 0, true),
        rest) := by
  have hfuel : (tcpSynOptions conn ++ rest).length + 1 = rest.length + 6 + 1 + 1 + 1 := by
    simp [tcpSynOptions, writeU8, writeU16]
  have hmss : ¬ (2 : UInt8) = 0 ∧ ¬ (2 : UInt8) = 1 := by decide
  have hscale : ¬ (3 : UInt8) = 0 ∧ ¬ (3 : UInt8) = 1 ∧ ¬ (3 : UInt8) = 2 := by decide
  rw [hfuel, tcpSynOptions, tcpOptionsLoop]
  simp only [List.append_assoc, readU8_writeU8, readU16_writeU16, hmss, if_true, if_false]
  rw [tcpOptionsLoop]
  simp only [readU8_writeU8, hscale, if_true, if_false]
  rw [tcpOptionsLoop]
  simp only [readU8_writeU8, if_true]

/-! ### The segment -/

/-- The fields of a segment up to its checksum. -/
def tcpFields (conn : Connection) (flags : UInt32) : List UInt8 :=
  writeU16 conn.sourcePort ++ writeU16 conn.destPort ++ writeU32 conn.txAckd
    ++ writeU32 conn.rxReadable
    ++ [(if flags &&& TCP_SYN != 0 then (7 : UInt8) else 5) <<< 4, (flags &&& 0x1f).toUInt8]
    ++ writeU16 (BUFFER_SIZE.toUInt32 - (conn.rxReadable - conn.rxRead)).toUInt16

/-- The options and the data of a segment. -/
def tcpRest (conn : Connection) (flags len : UInt32) : List UInt8 :=
  (if flags &&& TCP_SYN != 0 then tcpSynOptions conn else []) ++ tcpSegmentData conn len

lemma tcpFields_length (conn : Connection) (flags : UInt32) :
    (tcpFields conn flags).length = 16 := by
  simp [tcpFields, writeU8, writeU16, writeU32]

/-- The segment before its checksum is written. -/
lemma tcpSegment_tcpFields (conn : Connection) (flags len : UInt32) :
    tcpSegment conn flags len
      = tcpFields conn flags ++ writeU16 0 ++ (writeU16 0 ++ tcpRest conn flags len) := by
  simp only [tcpSegment, tcpFields, tcpRest, tcpSynOptions, tcpSegmentData, List.append_assoc]

/-- The segment with its checksum. -/
lemma overwrite_tcpFields (conn : Connection) (flags len : UInt32) (chksum : UInt16) :
    overwrite (tcpSegment conn flags len) 16 (writeU16 chksum)
      = tcpFields conn flags ++ writeU16 chksum ++ writeU16 0 ++ tcpRest conn flags len := by
  rw [tcpSegment_tcpFields, List.append_assoc _ (writeU16 0) (tcpRest conn flags len)]
  exact overwrite_append _ (tcpFields_length conn flags) (by simp [writeU8, writeU16])

/-- The header `tcp_write` means to send. -/
def tcpHeaderOf (conn : Connection) (flags : UInt32) : TcpHeader where
  sourcePort := conn.sourcePort
  destPort := conn.destPort
  seq := conn.txAckd
  ack := conn.rxReadable
  flags :=
    { dataOffset := if flags &&& TCP_SYN != 0 then 7 else 5
      fin := flags &&& TCP_FIN != 0
      syn := flags &&& TCP_SYN != 0
      rst := flags &&& TCP_RST != 0
      psh := flags &&& TCP_PSH != 0
      ack := flags &&& TCP_ACK != 0 }
  windowSize := (BUFFER_SIZE.toUInt32 - (conn.rxReadable - conn.rxRead)).toUInt16

/-- A flag in the byte it is sent in. -/
lemma flag_toUInt8 (flags : UInt32) {k : ℕ} (hk : k < 5) {m : UInt32} {b : UInt8}
    (hm : m.toNat = 2 ^ k) (hb : b.toNat = 2 ^ k) :
    ((flags &&& 0x1f).toUInt8 &&& b != 0) = (flags &&& m != 0) := by
  have hlow : (flags &&& 0x1f).toUInt8.toNat = flags.toNat % 32 := by
    have hand : (flags &&& 0x1f).toNat = flags.toNat % 32 := by
      rw [UInt32.toNat_and]
      exact Nat.and_two_pow_sub_one_eq_mod flags.toNat 5
    rw [UInt32.toNat_toUInt8, hand]
    omega
  have hbit : (flags.toNat % 32).testBit k = flags.toNat.testBit k := by
    rw [show (32 : ℕ) = 2 ^ 5 from rfl, Nat.testBit_mod_two_pow]
    simp [hk]
  have hbyte : ((flags &&& 0x1f).toUInt8 &&& b).toNat = (flags &&& m).toNat := by
    rw [UInt8.toNat_and, UInt32.toNat_and, hlow, hm, hb, Nat.and_two_pow, Nat.and_two_pow, hbit]
  rw [bne, bne, Bool.not_inj_iff, Bool.eq_iff_iff, beq_iff_eq, beq_iff_eq, ← UInt8.toNat_inj,
    ← UInt32.toNat_inj, hbyte]
  rfl

/-- `tcp_parse_packet` reads the fields that were written. -/
lemma readTcpHeader_tcpFields (conn : Connection) (flags : UInt32) (chksum : UInt16)
    (rest : List UInt8) :
    readTcpHeader (tcpFields conn flags ++ writeU16 chksum ++ writeU16 0 ++ rest)
      = (tcpHeaderOf conn flags, rest) := by
  set offset : UInt8 := if flags &&& TCP_SYN != 0 then 7 else 5 with hoffset
  have hread : ∀ tail : List UInt8,
      readN 2 ([offset <<< 4, (flags &&& 0x1f).toUInt8] ++ tail)
        = (#v[offset <<< 4, (flags &&& 0x1f).toUInt8], tail) :=
    fun tail => readN_toList #v[offset <<< 4, (flags &&& 0x1f).toUInt8] tail
  have hdata : ((offset <<< 4) >>> 4).toNat = if flags &&& TCP_SYN != 0 then 7 else 5 := by
    rw [hoffset]
    split <;> rfl
  have hflags : TcpFlags.ofBytes #v[offset <<< 4, (flags &&& 0x1f).toUInt8]
      = (tcpHeaderOf conn flags).flags := by
    rw [TcpFlags.ofBytes, tcpHeaderOf]
    simp only [TcpFlags.mk.injEq]
    exact ⟨hdata, flag_toUInt8 flags (by decide : 0 < 5) rfl rfl,
      flag_toUInt8 flags (by decide : 1 < 5) rfl rfl,
      flag_toUInt8 flags (by decide : 2 < 5) rfl rfl,
      flag_toUInt8 flags (by decide : 3 < 5) rfl rfl,
      flag_toUInt8 flags (by decide : 4 < 5) rfl rfl⟩
  simp only [tcpFields, List.append_assoc, readTcpHeader, readU16_writeU16, readU32_writeU32,
    ← hoffset, hread, hflags]
  rfl

/-! ### The round trip -/

/-- What `tcp_parse_packet` finds in a segment with `after` behind it in memory: the header that
was meant; in a SYN, options that end at the eighth byte and give the segment size of the sender,
as far as it fits its field, and no scaling; and at the data offset the data, and nothing else. -/
structure ReadsAs (conn : Connection) (flags len : UInt32) (packet after : List UInt8) :
    Prop where
  header : (readTcpHeader packet).1 = tcpHeaderOf conn flags
  options : flags &&& TCP_SYN ≠ 0 → ∀ mss scale,
    tcpOptionsLoop ((readTcpHeader packet).2.length + 1) (readTcpHeader packet).2 mss scale
      = ((if conn.mss.toUInt16.toUInt32 < mss then conn.mss.toUInt16.toUInt32 else mss, 0, true),
        (readTcpHeader packet).2.drop 8)
  payload : packet.drop (4 * (tcpHeaderOf conn flags).flags.dataOffset)
    = tcpSegmentData conn len ++ after

lemma readsAs_tcpFields (conn : Connection) (flags len : UInt32) (chksum : UInt16)
    (after : List UInt8) :
    ReadsAs conn flags len (tcpFields conn flags ++ writeU16 chksum ++ writeU16 0
      ++ tcpRest conn flags len ++ after) after := by
  have hread := readTcpHeader_tcpFields conn flags chksum (tcpRest conn flags len ++ after)
  rw [← List.append_assoc] at hread
  have hfixed : (tcpFields conn flags ++ writeU16 chksum ++ writeU16 0).length = 20 := by
    simp [tcpFields, writeU8, writeU16, writeU32]
  refine ⟨by rw [hread], fun hsyn mss scale => ?_, ?_⟩
  · have hbne : (flags &&& TCP_SYN != 0) = true := bne_iff_ne.mpr hsyn
    have height : (tcpSynOptions conn).length = 8 := by simp [tcpSynOptions, writeU8, writeU16]
    rw [hread, tcpRest, hbne, if_pos rfl, List.append_assoc, tcpOptionsLoop_synOptions,
      List.drop_left' height]
  · cases hsyn : flags &&& TCP_SYN != 0 with
    | false =>
        rw [tcpHeaderOf, tcpRest, hsyn]
        simp only [Bool.false_eq_true, if_false, List.nil_append]
        rw [List.append_assoc, List.drop_left' hfixed]
    | true =>
        have hlen : (tcpFields conn flags ++ writeU16 chksum ++ writeU16 0
            ++ tcpSynOptions conn).length = 28 := by
          rw [List.length_append, hfixed]
          simp [tcpSynOptions, writeU8, writeU16]
        rw [tcpHeaderOf, tcpRest, hsyn]
        simp only [if_true]
        rw [← List.append_assoc, List.append_assoc _ (tcpSegmentData conn len),
          List.drop_left' hlen]

/-- The segment `tcp_write` hands to `ip_write_packet`. -/
def tcpWritten (s : Net) (idx : ℕ) (flags len : UInt32) : List UInt8 :=
  let conn := s.connections idx
  let segment := tcpSegment conn flags len
  let pseudo := tcpPseudoHeader s conn segment.length
  overwrite segment 16 (writeU16 (checksum (pseudo ++ segment) (12 + segment.length)))

lemma tcpWritten_eq (s : Net) (idx : ℕ) (flags len : UInt32) :
    ∃ chksum, tcpWritten s idx flags len = tcpFields (s.connections idx) flags ++ writeU16 chksum
      ++ writeU16 0 ++ tcpRest (s.connections idx) flags len :=
  ⟨_, overwrite_tcpFields _ _ _ _⟩

lemma tcpWritten_length (s : Net) (idx : ℕ) (flags len : UInt32) :
    (tcpWritten s idx flags len).length
      = 4 * (tcpHeaderOf (s.connections idx) flags).flags.dataOffset + len.toNat := by
  obtain ⟨chksum, h⟩ := tcpWritten_eq s idx flags len
  rw [h, tcpHeaderOf]
  cases hsyn : flags &&& TCP_SYN != 0 <;>
    simp [tcpFields, tcpRest, tcpSynOptions, tcpSegmentData, hsyn, writeU8, writeU16, writeU32] <;>
    omega

/-- The frame `tcp_write` sends, when the next hop is found. -/
lemma tcpWrite_eq (reply : Ip → List (Mac × Ip)) (s : Net) (idx : ℕ) (flags len : UInt32) :
    ∃ chksum, tcpWrite reply s idx flags len
      = match (arpGet reply s (nextHop s (s.connections idx).destIp)).1 with
        | none => (0, (arpGet reply s (nextHop s (s.connections idx).destIp)).2)
        | some mac =>
            let frame := ethernetWritePacket s mac ETHERTYPE_IP4
              (ipHeader s (s.connections idx).destIp IPTYPE_TCP
                (tcpWritten s idx flags len).length chksum ++ tcpWritten s idx flags len)
            (frame.length.toUInt32,
              sendPacket (arpGet reply s (nextHop s (s.connections idx).destIp)).2 frame) := by
  obtain ⟨chksum, hframe⟩ := ipWritePacket_eq reply s (s.connections idx).destIp IPTYPE_TCP
    (tcpWritten s idx flags len)
  refine ⟨chksum, ?_⟩
  rw [tcpWritten] at hframe
  simp only [tcpWrite]
  rw [hframe]
  cases (arpGet reply s (nextHop s (s.connections idx).destIp)).1 with
  | none => rfl
  | some mac => rfl

/-- **A segment is read as it was written.**  For every connection, all flags and every length,
what `tcp_write` has written reads as it was meant, with whatever follows it in memory; it ends
with its data, and it is what the frame carries behind its Ethernet and IP headers.  A segment
size of at most 1460, which is all that `tcp_connect` and the option loop ever set, fits the
option. -/
theorem tcpWrite_roundTrip (reply : Ip → List (Mac × Ip)) (s : Net) (idx : ℕ)
    (flags len : UInt32) :
    (∀ after, ReadsAs (s.connections idx) flags len (tcpWritten s idx flags len ++ after) after)
      ∧ (tcpWritten s idx flags len).length
        = 4 * (tcpHeaderOf (s.connections idx) flags).flags.dataOffset + len.toNat
      ∧ ((s.connections idx).mss ≤ 1460 →
        (s.connections idx).mss.toUInt16.toUInt32 = (s.connections idx).mss)
      ∧ ∀ mac, (arpGet reply s (nextHop s (s.connections idx).destIp)).1 = some mac →
        ∃ frame, (tcpWrite reply s idx flags len).2.sent
            = (arpGet reply s (nextHop s (s.connections idx).destIp)).2.sent ++ [frame]
          ∧ frame.drop IP_HEADER_OFFSET = tcpWritten s idx flags len := by
  refine ⟨fun after => ?_, tcpWritten_length s idx flags len, fun hmss => ?_, fun mac hmac => ?_⟩
  · obtain ⟨chksum, h⟩ := tcpWritten_eq s idx flags len
    rw [h]
    exact readsAs_tcpFields _ _ _ _ _
  · have hle : (s.connections idx).mss.toNat ≤ 1460 := UInt32.le_iff_toNat_le.mp hmss
    rw [← UInt32.toNat_inj, UInt16.toNat_toUInt32, UInt32.toNat_toUInt16]
    exact Nat.mod_eq_of_lt (by omega)
  · obtain ⟨chksum, h⟩ := tcpWrite_eq reply s idx flags len
    rw [h, hmac]
    exact ⟨_, rfl, drop_ipFrame _ _ (ipHeader_length _ _ _ _ _)⟩

/-! ### The segment size of a connection -/

/-- No connection has a segment size over 1460. -/
def MssInRange (s : Net) : Prop := ∀ k, (s.connections k).mss ≤ 1460

/-- A segment does not raise the segment size of any connection. -/
lemma tcpParsePacket_mss_le (reply : Ip → List (Mac × Ip)) (s : Net) (packet : List UInt8)
    (len : UInt32) (k : ℕ) :
    ((tcpParsePacket reply s packet len).connections k).mss ≤ (s.connections k).mss := by
  simp only [tcpParsePacket]
  split
  · exact UInt32.le_refl _
  · rename_i i _
    rcases eq_or_ne k i with rfl | hk
    · obtain ⟨-, -, -, -, hmss | hmss⟩ := tcpInput_frame reply s k (readTcpHeader packet).1
        (readTcpHeader packet).2 len
      · rw [hmss]
        exact UInt32.le_refl _
      · rw [hmss]
        exact tcpOptions_mss_le _ _ _ _
    · rw [tcpInput_of_ne _ _ _ _ _ hk]
      exact UInt32.le_refl _

lemma MssInRange.parsePacket {s : Net} (h : MssInRange s) (reply : Ip → List (Mac × Ip))
    (packet : List UInt8) (len : UInt32) : MssInRange (tcpParsePacket reply s packet len) :=
  fun k => UInt32.le_trans (tcpParsePacket_mss_le reply s packet len k) (h k)

end CustomLinuxOs
