import CustomLinuxOs.Foundations.OnesComplement
import CustomLinuxOs.Networking.SegmentRoundTrip

/-!
The law of the Internet checksum for `checksum` of `ip.c`.

* `checksumSum`, `foldPass`: the 32-bit sum that `checksum` folds, and one pass of its loop.
* `checksumSum_toNat`, `foldPass_toNat`: neither overflows on up to 65547 bytes.
* `checksum_toNat`: the value is the complement of the one's-complement residue of the words.
* `SumsToOnes`: the check of a receiver, which does not use `checksum`.
* `checksum_law`: with the checksum written into a field that was zero, the bytes sum up to `0`.
* `tcpWrite_passes`: so do the header and the segment in every frame that is sent.
-/

namespace CustomLinuxOs

/-! ### The sum and the folding -/

/-- The sum in `checksum` when its folding loop starts. -/
def checksumSum (packet : List UInt8) (len : ℕ) : UInt32 :=
  let words := sumWords (len / 2) packet 0
  if len % 2 = 1 then words.1 + ((readU8 words.2).1.toUInt32 <<< 8) else words.1

/-- The body of the folding loop. -/
def foldPass (sum : UInt32) : UInt32 := (sum &&& (0xffff : UInt32)) + (sum >>> 16)

lemma checksum_eq (packet : List UInt8) (len : ℕ) :
    checksum packet len = ~~~ (foldCarries (checksumSum packet len)).toUInt16 := rfl

lemma toNat_shiftRight_16 (sum : UInt32) : (sum >>> 16).toNat = sum.toNat / 65536 := by
  rw [UInt32.toNat_shiftRight]
  simp [Nat.shiftRight_eq_div_pow]

/-- A pass does not overflow: it adds the carry to the low half. -/
lemma foldPass_toNat (sum : UInt32) : (foldPass sum).toNat = endAround 65536 sum.toNat := by
  have hand : (sum &&& (0xffff : UInt32)).toNat = sum.toNat % 65536 := by
    rw [UInt32.toNat_and]
    exact Nat.and_two_pow_sub_one_eq_mod sum.toNat 16
  have hlt := sum.toNat_lt
  rw [foldPass, UInt32.toNat_add, hand, toNat_shiftRight_16, Nat.mod_eq_of_lt (by omega),
    endAround]

/-- After two passes no carry is left, whatever the sum was. -/
lemma foldPass_foldPass (sum : UInt32) : foldPass (foldPass sum) >>> 16 = 0 := by
  have hlt : (foldPass (foldPass sum)).toNat < 65536 := by
    rw [foldPass_toNat, foldPass_toNat]
    exact endAround_endAround_lt sum.toNat_lt
  rw [← UInt32.toNat_inj, toNat_shiftRight_16, Nat.div_eq_of_lt hlt]
  rfl

/-- **The folding loop** ends in the residue of the sum. -/
lemma foldCarries_toNat (sum : UInt32) :
    (foldCarries sum).toNat = onesResidue 65536 sum.toNat := by
  induction sum using foldCarries.induct with
  | case1 sum hdone =>
      have hlt : sum.toNat / 65536 = 0 := by
        rw [← toNat_shiftRight_16, hdone]
        rfl
      rw [foldCarries, dif_pos hdone, onesResidue_of_lt (by omega)]
  | case2 sum hcarry ih =>
      rw [foldCarries, dif_neg hcarry, ih]
      rw [show (sum &&& (0xffff : UInt32)) + (sum >>> 16) = foldPass sum from rfl,
        foldPass_toNat, onesResidue_endAround (by decide)]

/-- The summing loop, for a sum that fits 32 bits. -/
lemma sumWords_spec (n : ℕ) (packet : List UInt8) (sum : UInt32) (hn : 2 * n ≤ packet.length)
    (hsum : sum.toNat + wordSum (packet.take (2 * n)) < 2 ^ 32) :
    (sumWords n packet sum).1.toNat = sum.toNat + wordSum (packet.take (2 * n))
      ∧ (sumWords n packet sum).2 = packet.drop (2 * n) := by
  induction n generalizing packet sum with
  | zero => exact ⟨rfl, rfl⟩
  | succ n ih =>
      match packet, hn with
      | [], hn | [_], hn =>
          simp only [List.length_nil, List.length_singleton] at hn
          omega
      | h :: l :: rest, hn =>
          have hrest : 2 * n ≤ rest.length := by
            simp only [List.length_cons] at hn
            omega
          have htake : wordSum ((h :: l :: rest).take (2 * (n + 1)))
              = h.toNat * 256 + l.toNat + wordSum (rest.take (2 * n)) := rfl
          rw [htake, ← Nat.add_assoc] at hsum
          have hlt : sum.toNat + (h.toNat * 256 + l.toNat) < 2 ^ 32 :=
            (Nat.le_add_right _ _).trans_lt hsum
          have hadd : (sum + (readU16 (h :: l :: rest)).1.toUInt32).toNat
              = sum.toNat + (h.toNat * 256 + l.toNat) := by
            rw [UInt32.toNat_add, UInt16.toNat_toUInt32, readU16_cons]
            exact Nat.mod_eq_of_lt hlt
          obtain ⟨hvalue, hpointer⟩ := ih rest (sum + (readU16 (h :: l :: rest)).1.toUInt32)
            hrest (by rwa [hadd])
          have hnext : (readU16 (h :: l :: rest)).2 = rest := readU16_snd _
          rw [sumWords, hnext]
          exact ⟨by rw [hvalue, hadd, htake, Nat.add_assoc], hpointer⟩

/-- **The sum does not overflow** on up to 65547 bytes. -/
lemma checksumSum_toNat {packet : List UInt8} {len : ℕ} (hlen : len ≤ packet.length)
    (hmax : len ≤ 65547) : (checksumSum packet len).toNat = wordSum (packet.take len) := by
  have hbound := wordSum_le (packet.take len)
  rw [List.length_take_of_le hlen] at hbound
  have hfit : wordSum (packet.take len) < 2 ^ 32 := by omega
  have hsplit := List.take_add (l := packet) (i := 2 * (len / 2)) (j := len % 2)
  rw [Nat.div_add_mod] at hsplit
  have heven : (packet.take (2 * (len / 2))).length = 2 * (len / 2) :=
    List.length_take_of_le (by omega)
  rw [hsplit, wordSum_append _ heven] at hfit ⊢
  obtain ⟨hvalue, hpointer⟩ := sumWords_spec (len / 2) packet 0 (by omega)
    (by rw [UInt32.toNat_zero]; exact (Nat.zero_add _).trans_lt
          ((Nat.le_add_right _ _).trans_lt hfit))
  rw [UInt32.toNat_zero, Nat.zero_add] at hvalue
  simp only [checksumSum, hpointer]
  rcases Nat.mod_two_eq_zero_or_one len with h | h
  · rw [h, if_neg (by decide), hvalue]
    rfl
  · have hlast : ∃ b rest, packet.drop (2 * (len / 2)) = b :: rest :=
      List.exists_cons_of_ne_nil (List.drop_eq_nil_iff.not.mpr (by omega))
    obtain ⟨b, rest, hdrop⟩ := hlast
    have hshift : (b.toUInt32 <<< 8).toNat = b.toNat * 256 := by
      have hb := b.toNat_lt
      rw [UInt32.toNat_shiftLeft, UInt8.toNat_toUInt32, Nat.shiftLeft_eq,
        show (8 : UInt32).toNat % 32 = 8 from rfl]
      exact Nat.mod_eq_of_lt (by omega)
    have hword : wordSum ((b :: rest).take 1) = b.toNat * 256 := rfl
    rw [h, hdrop, hword] at hfit ⊢
    rw [if_pos rfl, readU8_cons, UInt32.toNat_add, hvalue, hshift, Nat.mod_eq_of_lt hfit]

/-- **`checksum`** is the complement of the residue of the words. -/
lemma checksum_toNat {packet : List UInt8} {len : ℕ} (hlen : len ≤ packet.length)
    (hmax : len ≤ 65547) :
    (checksum packet len).toNat = 65535 - onesResidue 65536 (wordSum (packet.take len)) := by
  have hlt := onesResidue_lt (B := 65536) (by decide) (wordSum (packet.take len))
  rw [checksum_eq, UInt16.toNat_not, UInt32.toNat_toUInt16, foldCarries_toNat,
    checksumSum_toNat hlen hmax, Nat.mod_eq_of_lt hlt]
  rfl

/-- The check of a receiver: the one's-complement sum of the bytes is all ones. -/
def SumsToOnes (bytes : List UInt8) : Prop := onesResidue 65536 (wordSum bytes) = 65535

/-- `checksum` is `0` on bytes that pass, and on no others. -/
lemma checksum_eq_zero_iff {packet : List UInt8} {len : ℕ} (hlen : len ≤ packet.length)
    (hmax : len ≤ 65547) : checksum packet len = 0 ↔ SumsToOnes (packet.take len) := by
  have hlt := onesResidue_lt (B := 65536) (by decide) (wordSum (packet.take len))
  rw [← UInt16.toNat_inj, checksum_toNat hlen hmax, UInt16.toNat_zero, SumsToOnes]
  omega

/-- The folding loop takes at most two passes. -/
lemma foldCarries_passes (sum : UInt32) : ∃ k ≤ 2, foldCarries sum = foldPass^[k] sum := by
  have hstop : ∀ x : UInt32, x >>> 16 = 0 → foldCarries x = x := by
    intro x hx
    rw [foldCarries, dif_pos hx]
  have hpass : ∀ x : UInt32, x >>> 16 ≠ 0 → foldCarries x = foldCarries (foldPass x) := by
    intro x hx
    rw [foldCarries, dif_neg hx, foldPass]
  by_cases h0 : sum >>> 16 = 0
  · exact ⟨0, by omega, hstop sum h0⟩
  · by_cases h1 : foldPass sum >>> 16 = 0
    · exact ⟨1, by omega, (hpass sum h0).trans (hstop _ h1)⟩
    · exact ⟨2, le_rfl, (hpass sum h0).trans
        ((hpass _ h1).trans (hstop _ (foldPass_foldPass sum)))⟩

/-! ### The law -/

/-- The word of two bytes as it is written. -/
lemma wordSum_writeU16 (d : UInt16) : wordSum (writeU16 d) = d.toNat := by
  have hread := readU16_cons ((d >>> 8) &&& 0xFF).toUInt8 (d &&& 0xFF).toUInt8 []
  have hwrite := congrArg (fun r => r.1.toNat) (readU16_writeU16 d [])
  have hpair : ∀ h l : UInt8, wordSum [h, l] = h.toNat * 256 + l.toNat := by
    intro h l
    rw [wordSum, wordSum, Nat.add_zero]
  rw [List.append_nil] at hwrite
  exact (hpair _ _).trans (hread.symm.trans hwrite)

/-- A field at an even offset, between `a` and `c`, filled with the checksum of the bytes in which
it was zero. -/
lemma checksum_fill {n : ℕ} {a : List UInt8} (ha : a.length = 2 * n) (c : List UInt8) (len : ℕ)
    (hlen : a.length + 2 + c.length = len) (hmax : len ≤ 65547) :
    checksum (a ++ writeU16 (checksum (a ++ writeU16 0 ++ c) len) ++ c) len = 0 := by
  have hfull : ∀ d : UInt16, (a ++ writeU16 d ++ c).length = len := by
    intro d
    rw [List.length_append, List.length_append, ← hlen]
    rfl
  have hsum : ∀ d : UInt16,
      wordSum ((a ++ writeU16 d ++ c).take len) = wordSum a + wordSum c + d.toNat := by
    intro d
    have htwo : (a ++ writeU16 d).length = 2 * (n + 1) := by
      rw [List.length_append, ha]
      rfl
    rw [List.take_of_length_le (hfull d).le, wordSum_append _ htwo, wordSum_append _ ha,
      wordSum_writeU16]
    omega
  set cs := checksum (a ++ writeU16 0 ++ c) len with hcs
  have hvalue : cs.toNat = 65535 - onesResidue 65536 (wordSum a + wordSum c) := by
    rw [hcs, checksum_toNat (hfull 0).ge hmax, hsum 0]
    rfl
  rw [← UInt16.toNat_inj, checksum_toNat (hfull cs).ge hmax, hsum cs, hvalue,
    onesResidue_add_compl (by decide)]
  rfl

/-- Only the first `len` bytes count. -/
lemma checksum_append {packet : List UInt8} (after : List UInt8) {len : ℕ}
    (hlen : packet.length = len) (hmax : len ≤ 65547) :
    checksum (packet ++ after) len = checksum packet len := by
  have hle : len ≤ (packet ++ after).length := by
    rw [List.length_append]
    omega
  rw [← UInt16.toNat_inj, checksum_toNat hle hmax, checksum_toNat hlen.ge hmax,
    List.take_append_of_le_length hlen.ge]

/-- What the law says of `bytes` with a field at offset `p`: the sum is the sum of the words, no
pass of the folding loop overflows and two of them are enough, and with the checksum written into
the field the bytes pass the check of a receiver, and have checksum `0`. -/
structure ChecksumLaw (bytes : List UInt8) (p : ℕ) : Prop where
  sum : (checksumSum bytes bytes.length).toNat = wordSum bytes
  folding : ∀ k, (foldPass^[k] (checksumSum bytes bytes.length)).toNat
    = (endAround 65536)^[k] (wordSum bytes)
  terminates : ∃ k ≤ 2,
    foldCarries (checksumSum bytes bytes.length) = foldPass^[k] (checksumSum bytes bytes.length)
  passes : SumsToOnes (overwrite bytes p (writeU16 (checksum bytes bytes.length)))
  verifies : checksum (overwrite bytes p (writeU16 (checksum bytes bytes.length))) bytes.length = 0

lemma checksumLaw_of_zero {bytes : List UInt8} {p : ℕ} (hlen : bytes.length ≤ 65547)
    (hp : p % 2 = 0) (hzero : (bytes.drop p).take 2 = [0, 0]) : ChecksumLaw bytes p := by
  have hsum : (checksumSum bytes bytes.length).toNat = wordSum bytes := by
    rw [checksumSum_toNat le_rfl hlen, List.take_length]
  have hpass : ∀ k, (foldPass^[k] (checksumSum bytes bytes.length)).toNat
      = (endAround 65536)^[k] (wordSum bytes) := by
    intro k
    induction k with
    | zero => exact hsum
    | succ k ih =>
        rw [Function.iterate_succ_apply', Function.iterate_succ_apply', foldPass_toNat, ih]
  have htwo := congrArg List.length hzero
  rw [List.length_take, List.length_drop, List.length_cons, List.length_singleton] at htwo
  have hle : p ≤ bytes.length := by omega
  have hbytes : bytes = bytes.take p ++ writeU16 0 ++ bytes.drop (p + 2) := by
    have hfield : writeU16 0 = (bytes.drop p).take 2 := hzero.symm
    rw [hfield, List.append_assoc, ← List.drop_drop, List.take_append_drop,
      List.take_append_drop]
  have hfront : (bytes.take p).length = 2 * (p / 2) := by
    rw [List.length_take_of_le hle]
    omega
  have hover : overwrite bytes p (writeU16 (checksum bytes bytes.length))
      = bytes.take p ++ writeU16 (checksum bytes bytes.length) ++ bytes.drop (p + 2) := rfl
  have hfill := checksum_fill hfront (bytes.drop (p + 2)) bytes.length
    (by rw [List.length_take_of_le hle, List.length_drop]; omega) hlen
  rw [← hbytes, ← hover] at hfill
  have hlength : (overwrite bytes p (writeU16 (checksum bytes bytes.length))).length
      = bytes.length := by
    have hfield : (writeU16 (checksum bytes bytes.length)).length = 2 := rfl
    rw [hover, List.length_append, List.length_append, List.length_take_of_le hle, hfield,
      List.length_drop]
    omega
  have hones := (checksum_eq_zero_iff hlength.ge hlen).mp hfill
  rw [List.take_of_length_le hlength.le] at hones
  exact ⟨hsum, hpass, foldCarries_passes _, hones, hfill⟩

/-! ### Headers and segments on the wire -/

/-- The IP header of a frame passes the check of a receiver. -/
def HeaderPasses (frame : List UInt8) : Prop :=
  SumsToOnes ((frame.drop ETHERNET_HEADER_LENGTH).take IP_HEADER_LENGTH)

/-- The pseudo header that a receiver of a frame puts together: the addresses and the protocol of
the IP header, and the total length less the header. -/
def receiverPseudoHeader (frame : List UInt8) : List UInt8 :=
  let header := frame.drop ETHERNET_HEADER_LENGTH
  (header.drop 12).take 8 ++ writeU8 0 ++ writeU8 (header.getD 9 0)
    ++ writeU16 ((readU16 (header.drop 2)).1 - IP_HEADER_LENGTH.toUInt16)

/-- The TCP segment of a frame passes the check of a receiver. -/
def SegmentPasses (frame : List UInt8) : Prop :=
  let segment := frame.drop IP_HEADER_OFFSET
  SumsToOnes (receiverPseudoHeader frame ++ segment)

section Frames

variable (reply : Ip → List (Mac × Ip)) (s : Net)

lemma drop_ethernetHeader (mac : Mac) (type : UInt16) (payload : List UInt8) :
    (ethernetWritePacket s mac type payload).drop ETHERNET_HEADER_LENGTH = payload :=
  List.drop_left' (by simp [writeU16, writeU8, ETHERNET_HEADER_LENGTH])

/-- **`ip_write_packet`** writes a header that passes. -/
lemma ipWritePacket_passes (dest : Ip) (protocol : UInt8) (payload frame : List UInt8)
    (h : (ipWritePacket reply s dest protocol payload).1 = some frame) : HeaderPasses frame := by
  simp only [ipWritePacket] at h
  generalize (if checkSubnet s dest then arpGet reply s dest
    else arpGet reply s s.gatewayIp) = hop at h
  cases hmac : hop.1 with
  | none => simp [hmac] at h
  | some mac =>
      simp only [hmac, Option.some.injEq] at h
      subst h
      rw [HeaderPasses, drop_ethernetHeader]
      set front := writeU8 0x45 ++ writeU8 0
        ++ writeU16 (IP_HEADER_LENGTH + payload.length).toUInt16 ++ writeU16 0 ++ writeU16 0
        ++ writeU8 64 ++ writeU8 protocol with hfront
      set back := hop.2.ourIp.toList ++ dest.toList with hback
      have hten : front.length = 10 := by simp [hfront, writeU8, writeU16]
      have hfill := checksum_fill (n := 5) hten back IP_HEADER_LENGTH
        (by simp [hfront, hback, writeU8, writeU16, IP_HEADER_LENGTH]) (by decide)
      have hover : overwrite (front ++ writeU16 0 ++ back) 10
          (writeU16 (checksum (front ++ writeU16 0 ++ back) IP_HEADER_LENGTH))
          = front ++ writeU16 (checksum (front ++ writeU16 0 ++ back) IP_HEADER_LENGTH) ++ back :=
        overwrite_append back hten rfl
      rw [List.append_assoc _ hop.2.ourIp.toList, hover]
      have hheader : (front ++ writeU16 (checksum (front ++ writeU16 0 ++ back) IP_HEADER_LENGTH)
          ++ back).length = IP_HEADER_LENGTH := by
        simp [hfront, hback, writeU8, writeU16, IP_HEADER_LENGTH]
      refine (checksum_eq_zero_iff ?_ (by decide)).mp ?_
      · rw [List.length_append, hheader]
        exact Nat.le_add_right _ _
      · rw [checksum_append _ hheader (by decide), hfill]

/-- In a frame of `tcp_write` a receiver finds the pseudo header of the sender. -/
lemma receiverPseudoHeader_eq (mac : Mac) (conn : Connection) (chksum : UInt16)
    (segment : List UInt8) :
    receiverPseudoHeader (ethernetWritePacket s mac ETHERTYPE_IP4
        (ipHeader s conn.destIp IPTYPE_TCP segment.length chksum ++ segment))
      = tcpPseudoHeader s conn segment.length := by
  set header := ipHeader s conn.destIp IPTYPE_TCP segment.length chksum ++ segment with hheader
  have haddresses : (header.drop 12).take 8 = s.ourIp.toList ++ conn.destIp.toList := by
    have hdrop : header.drop 12 = s.ourIp.toList ++ conn.destIp.toList ++ segment := by
      rw [hheader, ipHeader]
      simp only [List.append_assoc]
      rfl
    rw [hdrop]
    exact List.take_left' (by simp)
  have hprotocol : header.getD 9 0 = IPTYPE_TCP := rfl
  have hlength : (readU16 (header.drop 2)).1 - IP_HEADER_LENGTH.toUInt16
      = segment.length.toUInt16 := by
    have hdrop : header.drop 2 = writeU16 (IP_HEADER_LENGTH + segment.length).toUInt16
        ++ header.drop 4 := rfl
    have hadd : (IP_HEADER_LENGTH + segment.length).toUInt16
        = IP_HEADER_LENGTH.toUInt16 + segment.length.toUInt16 := UInt16.ofNat_add _ _
    rw [hdrop, readU16_writeU16, hadd, UInt16.add_comm]
    exact UInt16.add_sub_cancel _ _
  simp only [receiverPseudoHeader, drop_ethernetHeader, haddresses, hprotocol, hlength]
  rfl

/-- The segment that `tcp_write` hands on passes with its pseudo header. -/
lemma tcpWritten_passes (idx : ℕ) (flags len : UInt32)
    (hlen : (tcpWritten s idx flags len).length ≤ 65535) :
    let conn := s.connections idx
    let segment := tcpWritten s idx flags len
    SumsToOnes (tcpPseudoHeader s conn segment.length ++ segment) := by
  intro conn segment
  set pseudo := tcpPseudoHeader s conn (tcpSegment conn flags len).length with hpseudo
  set back := writeU16 0 ++ tcpRest conn flags len with hback
  have hzero : tcpSegment conn flags len = tcpFields conn flags ++ writeU16 0 ++ back :=
    tcpSegment_tcpFields conn flags len
  have hwritten : segment = tcpFields conn flags
      ++ writeU16 (checksum (pseudo ++ tcpSegment conn flags len)
        (12 + (tcpSegment conn flags len).length)) ++ back := by
    rw [hback, ← List.append_assoc]
    exact overwrite_tcpFields conn flags len _
  have hfilled : ∀ d, (tcpFields conn flags ++ writeU16 d ++ back).length = 18 + back.length := by
    intro d
    rw [List.length_append, List.length_append, tcpFields_length]
    rfl
  have hlength : segment.length = 18 + back.length := by rw [hwritten, hfilled]
  have hsame : (tcpSegment conn flags len).length = segment.length := by
    rw [hzero, hfilled, hlength]
  have hfront : (pseudo ++ tcpFields conn flags).length = 2 * 14 := by
    rw [List.length_append, tcpFields_length]
    simp [hpseudo, tcpPseudoHeader, writeU8, writeU16]
  have hle : segment.length ≤ 65535 := hlen
  have hfill := checksum_fill hfront back (12 + segment.length)
    (by rw [hfront, hlength]; omega) (by omega)
  have hbytes : ∀ d, pseudo ++ tcpFields conn flags ++ writeU16 d ++ back
      = pseudo ++ (tcpFields conn flags ++ writeU16 d ++ back) := by
    intro d
    simp only [List.append_assoc]
  rw [hbytes, hbytes, ← hzero, ← hsame, ← hwritten] at hfill
  rw [← hsame]
  have htotal : (pseudo ++ segment).length = 12 + (tcpSegment conn flags len).length := by
    have htwelve : pseudo.length = 12 := by
      simp [hpseudo, tcpPseudoHeader, writeU8, writeU16]
    rw [List.length_append, htwelve, hsame]
  have hones := (checksum_eq_zero_iff htotal.ge (by omega)).mp hfill
  rwa [List.take_of_length_le htotal.le] at hones

/-- **`tcp_write`** sends frames whose header and segment pass. -/
lemma tcpWrite_passes (idx : ℕ) (flags len : UInt32)
    (hlen : (tcpWritten s idx flags len).length ≤ 65535) :
    Emits s (tcpWrite reply s idx flags len).2 fun f => HeaderPasses f ∧ SegmentPasses f := by
  have hget := arpGet_emits reply s (nextHop s (s.connections idx).destIp)
  have hheader := ipWritePacket_passes reply s (s.connections idx).destIp IPTYPE_TCP
    (tcpWritten s idx flags len)
  obtain ⟨c, hframe⟩ := ipWritePacket_eq reply s (s.connections idx).destIp IPTYPE_TCP
    (tcpWritten s idx flags len)
  rw [hframe] at hheader
  rw [tcpWritten] at hframe
  simp only [tcpWrite]
  rw [hframe]
  cases hmac : (arpGet reply s (nextHop s (s.connections idx).destIp)).1 with
  | none => exact hget _
  | some mac =>
      rw [hmac, Option.map_some] at hheader
      refine (hget _).send ⟨hheader _ rfl, ?_⟩
      rw [SegmentPasses, drop_ipFrame _ _ (ipHeader_length _ _ _ _ _), receiverPseudoHeader_eq]
      exact tcpWritten_passes s idx flags len hlen

end Frames

/-- **The Internet checksum law.**  For all bytes, up to 65547 of them, with a zero field at an
even offset: `checksum` neither overflows nor folds forever, and with its value in the field the
bytes sum up to all ones, of which it returns `0`.  So every header of `ip_write_packet` passes, and
in the frames of `tcp_write` also every segment, of whatever length its 16-bit field can hold, with
its pseudo header. -/
theorem checksum_law :
    (∀ (bytes : List UInt8) (p : ℕ), bytes.length ≤ 65547 → p % 2 = 0 →
      (bytes.drop p).take 2 = [0, 0] → ChecksumLaw bytes p)
    ∧ (∀ (reply : Ip → List (Mac × Ip)) (s : Net) (dest : Ip) (protocol : UInt8)
      (payload frame : List UInt8),
      (ipWritePacket reply s dest protocol payload).1 = some frame → HeaderPasses frame)
    ∧ ∀ (reply : Ip → List (Mac × Ip)) (s : Net) (idx : ℕ) (flags len : UInt32),
      (tcpWritten s idx flags len).length ≤ 65535 →
      Emits s (tcpWrite reply s idx flags len).2 fun f => HeaderPasses f ∧ SegmentPasses f :=
  ⟨fun _ _ hlen hp hzero => checksumLaw_of_zero hlen hp hzero, ipWritePacket_passes,
    tcpWrite_passes⟩

/-- Three bytes, of which the first two are the field. -/
theorem checksum_law_odd :
    SumsToOnes (overwrite [0, 0, 7] 0 (writeU16 (checksum [0, 0, 7] 3)))
      ∧ checksum (overwrite [0, 0, 7] 0 (writeU16 (checksum [0, 0, 7] 3))) 3 = 0 := by
  have hlaw := checksum_law.1 [0, 0, 7] 0 (by decide) rfl rfl
  exact ⟨hlaw.passes, hlaw.verifies⟩

end CustomLinuxOs
