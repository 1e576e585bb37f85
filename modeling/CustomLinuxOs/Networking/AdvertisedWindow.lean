import CustomLinuxOs.Networking.RxCounters
import CustomLinuxOs.Networking.SegmentRoundTrip

/-!
The window that `tcp_write` announces, and what `tcp_parse_packet` then accepts.

The two are computed in different places, one as `BUFFER_SIZE` less what is readable, the other by
the test of the data loop, which keeps a slot free.

* `DataSegment`, `DataInOrder`: data segments that follow one another from `rx_readable` on.
* `AwayFromWrap`: neither side of the test of the data loop passes the last 32-bit number.
* `AcceptsAll`: all their bytes get into the ring.
* `segment_shortfall`, `ahead_ignored`: a segment that is not stored whole leaves a gap, and
  nothing behind a gap is stored.
* `window_accepts_iff`: bytes that the window covers are accepted exactly when they do not fill it
  and no segment is given up for its options.
-/

namespace CustomLinuxOs

/-! ### Segments in order -/

/-- A segment to the connection `c` with the given bytes, the first of them under the number
`seq`. -/
structure DataSegment (c : Connection) (seq : UInt32) (bytes packet : List UInt8) (len : UInt32) :
    Prop where
  peer : FromPeer c packet
  fin : (readTcpHeader packet).1.flags.fin = false
  seq : (readTcpHeader packet).1.seq = seq
  header : 5 ≤ (readTcpHeader packet).1.flags.dataOffset
  len : len.toNat = (readTcpHeader packet).1.flags.dataOffset * 4 + bytes.length
  payload : bytesAt (segmentPayload packet) bytes.length = bytes

/-- Data segments, as `tcp_parse_packet` gets them, each of which begins where the one before it
ends. -/
inductive DataInOrder (c : Connection) : UInt32 → List (List UInt8 × UInt32) → List UInt8 → Prop
  | nil (seq : UInt32) : DataInOrder c seq [] []
  | cons {seq : UInt32} {bytes packet : List UInt8} {len : UInt32}
      {segments : List (List UInt8 × UInt32)} {more : List UInt8} :
      DataSegment c seq bytes packet len →
      DataInOrder c (seq + bytes.length.toUInt32) segments more →
      DataInOrder c seq ((packet, len) :: segments) (bytes ++ more)

/-- The segments arrive one after another. -/
def parseAll (reply : Ip → List (Mac × Ip)) (s : Net) (segments : List (List UInt8 × UInt32)) :
    Net :=
  segments.foldl (fun s p => tcpParsePacket reply s p.1 p.2) s

/-- `rx_readable` advances by all bytes of the segments, and they wait behind those that were
readable. -/
def AcceptsAll (reply : Ip → List (Mac × Ip)) (idx : ℕ) (s : Net)
    (segments : List (List UInt8 × UInt32)) (bytes : List UInt8) : Prop :=
  ((parseAll reply s segments).connections idx).rxReadable
      = (s.connections idx).rxReadable + bytes.length.toUInt32
    ∧ rxPending ((parseAll reply s segments).connections idx)
      = rxPending (s.connections idx) ++ bytes

/-- No segment that carries data is given up for its options. -/
def DataReached (segments : List (List UInt8 × UInt32)) : Prop :=
  ∀ p ∈ segments, 0 < payloadLength (readTcpHeader p.1).1 p.2 → payloadReached p.1 = true

/-- Neither side of the test of the data loop passes the last number. -/
def AwayFromWrap (conn : Connection) : Prop := conn.rxRead.toNat + BUFFER_SIZE + 1 < 2 ^ 32

namespace DataSegment

variable {c d : Connection} {seq : UInt32} {bytes packet : List UInt8} {len : UInt32}

lemma payloadLength (h : DataSegment c seq bytes packet len) :
    payloadLength (readTcpHeader packet).1 len = bytes.length := by
  have hoff := dataOffset_lt packet
  rw [CustomLinuxOs.payloadLength, toNat_toUInt32, Nat.mod_eq_of_lt (by omega), h.len]
  omega

/-- A data segment leaves the counters to the data loop. -/
lemma afterFin (h : DataSegment c seq bytes packet len) (conn : Connection) :
    afterFin packet conn = conn := by
  rw [CustomLinuxOs.afterFin, h.fin]
  rfl

/-- The segment is the next one: the data loop stores what it has room for. -/
lemma storedLength_next (h : DataSegment c seq bytes packet len) {conn : Connection}
    (hseq : seq = conn.rxReadable) : storedLength packet len conn
      = if payloadReached packet then rxRoom conn.rxRead conn.rxReadable bytes.length else 0 := by
  simp only [storedLength, h.payloadLength, h.seq, hseq, UInt32.sub_self, UInt32.toNat_zero,
    Nat.sub_zero]
  by_cases hreached : payloadReached packet = true
  · rw [if_pos hreached]
    by_cases hpos : 0 < bytes.length
    · rw [if_pos ⟨hreached, UInt32.le_refl _, hpos⟩]
    · rw [if_neg fun hall => hpos hall.2.2, Nat.eq_zero_of_not_pos hpos, rxRoom]
  · rw [if_neg hreached, if_neg fun hall => hreached hall.1]

/-- The segment lies ahead: the data loop ends at once. -/
lemma storedLength_ahead (h : DataSegment c seq bytes packet len) {conn : Connection}
    (hseq : conn.rxReadable < seq) : storedLength packet len conn = 0 := by
  simp only [storedLength, h.seq]
  exact if_neg fun hall => UInt32.not_lt.mpr hall.2.1 hseq

lemma dataReached_cons (h : DataSegment c seq bytes packet len)
    (segments : List (List UInt8 × UInt32)) : DataReached ((packet, len) :: segments)
      ↔ (0 < bytes.length → payloadReached packet = true) ∧ DataReached segments := by
  rw [DataReached, List.forall_mem_cons, h.payloadLength]
  rfl

end DataSegment

/-! ### One segment -/

section Segment

variable {reply : Ip → List (Mac × Ip)} {idx : ℕ} {c : Connection} {s : Net} {seq : UInt32}
  {bytes packet : List UInt8} {len : UInt32}

/-- **A data segment** stores its first `storedLength` bytes. -/
lemma segment_stores (reply : Ip → List (Mac × Ip)) (hreached : Reached idx c s)
    (hseg : DataSegment c seq bytes packet len) :
    Reached idx c (tcpParsePacket reply s packet len)
      ∧ ((tcpParsePacket reply s packet len).connections idx).rxSide
        = (rxStore (bytes.take (storedLength packet len (s.connections idx)))
            (s.connections idx)).rxSide := by
  have hpeer := hseg.peer.congr hreached.ports
  obtain ⟨hvalid, hports, hsole⟩ := parse_rest reply hreached.sole hreached.valid hpeer len
  obtain ⟨-, hside, -⟩ := parse_rxSide reply hreached.sole hreached.valid hpeer len
  have hle := storedLength_le packet len (s.connections idx)
  rw [hseg.payloadLength] at hle
  refine ⟨⟨hvalid, hreached.ports.trans hports.symm, hsole⟩, ?_⟩
  rw [hside, hseg.afterFin, ← bytesAt_take hle, hseg.payload]

/-- Away from the wrap the data loop fills all slots but one. -/
lemma rxRoom_away {conn : Connection} (haway : AwayFromWrap conn) {d : ℕ} (hd : d ≤ BUFFER_SIZE)
    (hR : conn.rxReadable = conn.rxRead + d.toUInt32) (n : ℕ) :
    rxRoom conn.rxRead conn.rxReadable n = min n (BUFFER_SIZE - 1 - d) := by
  have hsize : BUFFER_SIZE = 2048 := rfl
  rw [AwayFromWrap] at haway
  have hlimit : (conn.rxRead + BUFFER_SIZE.toUInt32).toNat = conn.rxRead.toNat + 2048 := by
    rw [UInt32.toNat_add, toNat_bufferSize]
    exact Nat.mod_eq_of_lt (by omega)
  have hnext : (conn.rxReadable + 1).toNat = conn.rxRead.toNat + d + 1 := by
    rw [hR, UInt32.add_assoc, ← toUInt32_succ, UInt32.toNat_add, toNat_toUInt32]
    omega
  rw [rxRoom_eq_min, hlimit, hnext]
  omega

/-- A segment that the ring takes whole. -/
lemma segment_whole (reply : Ip → List (Mac × Ip)) (hreached : Reached idx c s)
    (hseg : DataSegment c seq bytes packet len)
    (hwhole : storedLength packet len (s.connections idx) = bytes.length) {d : ℕ}
    (hR : (s.connections idx).rxReadable = (s.connections idx).rxRead + d.toUInt32)
    (hfit : d + bytes.length ≤ BUFFER_SIZE) :
    ((tcpParsePacket reply s packet len).connections idx).rxRead = (s.connections idx).rxRead
      ∧ ((tcpParsePacket reply s packet len).connections idx).rxReadable
        = (s.connections idx).rxReadable + bytes.length.toUInt32
      ∧ rxPending ((tcpParsePacket reply s packet len).connections idx)
        = rxPending (s.connections idx) ++ bytes := by
  obtain ⟨-, hside⟩ := segment_stores reply hreached hseg
  rw [hwhole, List.take_length] at hside
  refine ⟨?_, ?_, ?_⟩
  · exact (congrArg RxSide.rxRead hside).trans (rxStore_rxRead _ _)
  · exact (congrArg RxSide.rxReadable hside).trans (rxStore_rxReadable _ _)
  · rw [rxPending_congr hside]
    exact rxPending_store bytes _ hfit hR

/-- A segment that is not stored whole leaves `rx_readable` before its end. -/
lemma segment_shortfall (reply : Ip → List (Mac × Ip)) (hreached : Reached idx c s)
    (hseg : DataSegment c seq bytes packet len) :
    ((tcpParsePacket reply s packet len).connections idx).rxReadable
      = (s.connections idx).rxReadable
        + (storedLength packet len (s.connections idx)).toUInt32 := by
  obtain ⟨-, hside⟩ := segment_stores reply hreached hseg
  have hle := storedLength_le packet len (s.connections idx)
  rw [hseg.payloadLength] at hle
  have hreadable := (congrArg RxSide.rxReadable hside).trans (rxStore_rxReadable _ _)
  rwa [List.length_take, Nat.min_eq_left hle] at hreadable

end Segment

/-! ### Segments one after another -/

section Segments

variable {idx : ℕ} {c : Connection} {s : Net}

/-- What lies ahead of `rx_readable` is not stored. -/
lemma ahead_ignored (reply : Ip → List (Mac × Ip)) {segments : List (List UInt8 × UInt32)}
    {seq : UInt32} {bytes : List UInt8} (hsegments : DataInOrder c seq segments bytes)
    (hreached : Reached idx c s) (hahead : (s.connections idx).rxReadable < seq)
    (hbound : seq.toNat + bytes.length < 2 ^ 32) :
    ((parseAll reply s segments).connections idx).rxReadable
      = (s.connections idx).rxReadable := by
  induction hsegments generalizing s with
  | nil seq => rfl
  | @cons seq bytes packet len segments more hseg hrest ih =>
      rw [List.length_append] at hbound
      have hsame := segment_shortfall reply hreached hseg
      rw [hseg.storedLength_ahead hahead] at hsame
      have hreadable : ((tcpParsePacket reply s packet len).connections idx).rxReadable
          = (s.connections idx).rxReadable := hsame.trans (UInt32.add_zero _)
      have hseq : (seq + bytes.length.toUInt32).toNat = seq.toNat + bytes.length := by
        rw [UInt32.toNat_add, toNat_toUInt32]
        omega
      have hnext : ((tcpParsePacket reply s packet len).connections idx).rxReadable
          < seq + bytes.length.toUInt32 := by
        rw [hreadable, UInt32.lt_iff_toNat_lt, hseq]
        have := UInt32.lt_iff_toNat_lt.mp hahead
        omega
      have hstay := ih (segment_stores reply hreached hseg).1 hnext (by omega)
      exact hstay.trans hreadable

/-- After a segment that is not stored whole the rest is lost. -/
lemma gap_not_acceptsAll (reply : Ip → List (Mac × Ip)) {segments : List (List UInt8 × UInt32)}
    {seq : UInt32} {bytes packet more : List UInt8} {len : UInt32}
    (hseg : DataSegment c seq bytes packet len)
    (hrest : DataInOrder c (seq + bytes.length.toUInt32) segments more)
    (hreached : Reached idx c s) (haway : AwayFromWrap (s.connections idx)) {d : ℕ}
    (hR : (s.connections idx).rxReadable = (s.connections idx).rxRead + d.toUInt32)
    (hseq : seq = (s.connections idx).rxReadable)
    (hfit : d + bytes.length + more.length ≤ BUFFER_SIZE)
    (hlt : storedLength packet len (s.connections idx) < bytes.length) :
    ¬ AcceptsAll reply idx s ((packet, len) :: segments) (bytes ++ more) := by
  have hsize : BUFFER_SIZE = 2048 := rfl
  rw [AwayFromWrap] at haway
  set m := storedLength packet len (s.connections idx) with hm
  set Q := (s.connections idx).rxRead with hQ
  have hcount : ∀ k ≤ BUFFER_SIZE, (Q + k.toUInt32).toNat = Q.toNat + k := by
    intro k hk
    rw [UInt32.toNat_add, toNat_toUInt32]
    omega
  have hgap : ((tcpParsePacket reply s packet len).connections idx).rxReadable
      = Q + (d + m).toUInt32 := by
    rw [segment_shortfall reply hreached hseg, ← hm, hR, UInt32.add_assoc, ← toUInt32_add]
  have hend : seq + bytes.length.toUInt32 = Q + (d + bytes.length).toUInt32 := by
    rw [hseq, hR, UInt32.add_assoc, ← toUInt32_add]
  rw [hend] at hrest
  have hahead : ((tcpParsePacket reply s packet len).connections idx).rxReadable
      < Q + (d + bytes.length).toUInt32 := by
    rw [hgap, UInt32.lt_iff_toNat_lt, hcount _ (by omega), hcount _ (by omega)]
    omega
  have hlast := ahead_ignored reply hrest (segment_stores reply hreached hseg).1 hahead
    (by rw [hcount _ (by omega)]; omega)
  rintro ⟨haccepted, -⟩
  have hsame : Q + (d + m).toUInt32 = Q + (d + (bytes.length + more.length)).toUInt32 := by
    rw [← hgap, ← hlast, toUInt32_add d, ← UInt32.add_assoc, ← hR, ← List.length_append]
    exact haccepted
  have htoNat := congrArg UInt32.toNat hsame
  rw [hcount _ (by omega), hcount _ (by omega)] at htoNat
  omega

/-- **Segments in order** that fit into the ring are accepted exactly when they leave a slot free
and their data is reached. -/
theorem acceptsAll_iff (reply : Ip → List (Mac × Ip)) {segments : List (List UInt8 × UInt32)}
    {seq : UInt32} {bytes : List UInt8} (hsegments : DataInOrder c seq segments bytes)
    (hreached : Reached idx c s) (haway : AwayFromWrap (s.connections idx)) {d : ℕ}
    (hR : (s.connections idx).rxReadable = (s.connections idx).rxRead + d.toUInt32)
    (hseq : seq = (s.connections idx).rxReadable) (hfit : d + bytes.length ≤ BUFFER_SIZE) :
    AcceptsAll reply idx s segments bytes
      ↔ DataReached segments ∧ (bytes = [] ∨ d + bytes.length < BUFFER_SIZE) := by
  have hsize : BUFFER_SIZE = 2048 := rfl
  induction hsegments generalizing s d with
  | nil seq =>
      have hempty : AcceptsAll reply idx s [] [] :=
        ⟨(UInt32.add_zero _).symm, (List.append_nil _).symm⟩
      exact iff_of_true hempty ⟨fun p hp => absurd hp List.not_mem_nil, Or.inl rfl⟩
  | @cons seq bytes packet len segments more hseg hrest ih =>
      rw [List.length_append] at hfit
      have hreach := (segment_stores reply hreached hseg).1
      have hstored := hseg.storedLength_next hseq
      rw [rxRoom_away haway (by omega) hR] at hstored
      have hdata := hseg.dataReached_cons segments
      by_cases hwhole : storedLength packet len (s.connections idx) = bytes.length
      · obtain ⟨hread, hreadable, hpending⟩ :=
          segment_whole reply hreached hseg hwhole hR (by omega)
        have hR' : ((tcpParsePacket reply s packet len).connections idx).rxReadable
            = ((tcpParsePacket reply s packet len).connections idx).rxRead
              + (d + bytes.length).toUInt32 := by
          rw [hreadable, hread, hR, UInt32.add_assoc, ← toUInt32_add]
        have haway' : AwayFromWrap ((tcpParsePacket reply s packet len).connections idx) := by
          rw [AwayFromWrap, hread]
          exact haway
        have hnext := ih hreach haway' hR' (by rw [hreadable, hseq]) (by omega)
        have hsplit : AcceptsAll reply idx s ((packet, len) :: segments) (bytes ++ more)
            ↔ AcceptsAll reply idx (tcpParsePacket reply s packet len) segments more := by
          rw [AcceptsAll, AcceptsAll, hreadable, hpending, List.length_append, toUInt32_add,
            ← UInt32.add_assoc, List.append_assoc]
          rfl
        refine hsplit.trans (hnext.trans ?_)
        have hroom : (0 < bytes.length → payloadReached packet = true)
            ∧ (bytes.length = 0 ∨ d + bytes.length < BUFFER_SIZE) := by
          rw [hwhole] at hstored
          split at hstored
          · rename_i hyes
            exact ⟨fun _ => hyes, by omega⟩
          · exact ⟨fun hpos => by omega, Or.inl hstored⟩
        rw [hdata, and_iff_right hroom.1, List.length_append, List.append_eq_nil_iff,
          ← List.length_eq_zero_iff, ← List.length_eq_zero_iff]
        have hcount := hroom.2
        exact and_congr_right fun _ => by omega
      · -- a gap: nothing behind it is stored
        have hlt : storedLength packet len (s.connections idx) < bytes.length := by
          have hle := storedLength_le packet len (s.connections idx)
          rw [hseg.payloadLength] at hle
          omega
        refine iff_of_false ?_ fun hcond => hwhole ?_
        · exact gap_not_acceptsAll reply hseg hrest hreached haway hR hseq (by omega) hlt
        · obtain ⟨hall, hroom⟩ := hcond
          rw [hdata] at hall
          rw [List.length_append, List.append_eq_nil_iff, ← List.length_eq_zero_iff,
            ← List.length_eq_zero_iff] at hroom
          rw [hstored, if_pos (hall.1 (by omega))]
          omega

end Segments

/-! ### Reachable states -/

/-- A ring that is away from the wrap is not overrun: `rx_readable` is not the last number. -/
lemma not_overruns_of_away {idx : ℕ} {t : Net × List UInt8} (e : RxEvent)
    (haway : AwayFromWrap (t.1.connections idx)) : ¬ Overruns idx t e := by
  cases e with
  | recv len => exact id
  | segment packet len =>
      rintro ⟨-, hfull, hlast, -⟩
      have hsize : BUFFER_SIZE = 2048 := rfl
      have hnum : (0xFFFFFFFF : UInt32).toNat = 2 ^ 32 - 1 := rfl
      rw [AwayFromWrap] at haway
      have hsum := eq_add_toNat_sub (t.1.connections idx).rxRead
        (afterFin packet (t.1.connections idx)).rxReadable
      rw [hfull] at hsum
      have htoNat := congrArg UInt32.toNat hsum
      rw [hlast, UInt32.toNat_add, toNat_bufferSize, hnum] at htoNat
      omega

/-- Nor is it in a run that stays away from the wrap. -/
lemma everyStep_not_overruns {reply : Ip → List (Mac × Ip)} {idx : ℕ} {t : Net × List UInt8}
    {es : List RxEvent}
    (haway : EveryState (ringStep reply idx) t es fun t => AwayFromWrap (t.1.connections idx)) :
    EveryStep (ringStep reply idx) t es fun t e => ¬ Overruns idx t e :=
  fun pre e post u hsplit hu => not_overruns_of_away e (haway pre (e :: post) u hsplit hu)

/-- What a run without overruns reaches. -/
lemma ringKept_of_run {reply : Ip → List (Mac × Ip)} {idx : ℕ} {s0 : UInt32} {s : Net}
    {es : List RxEvent} {t : Net × List UInt8} (hsyn : AfterSyn s idx s0)
    (hsole : SolePort s idx) (hes : ∀ e ∈ es, DataOrFin (s.connections idx) e)
    (hrun : Run (ringStep reply idx) (s, []) es t)
    (hover : EveryStep (ringStep reply idx) (s, []) es fun t e => ¬ Overruns idx t e) :
    RingKept idx (s.connections idx) t.1 ∧ RingSafe idx t := by
  have hsteps : EveryStep (ringStep reply idx) (s, []) es fun t e =>
      DataOrFin (s.connections idx) e ∧ ¬ Overruns idx t e := by
    intro pre e post u hsplit hu
    exact ⟨hes e (hsplit ▸ List.mem_append_right pre List.mem_cons_self),
      hover pre e post u hsplit hu⟩
  refine (hsteps.everyState (P := fun t => RingKept idx (s.connections idx) t.1
    ∧ RingSafe idx t) (hsyn.ringKept hsole) ?_).last hrun
  rintro u e v ⟨hkept, hsafe⟩ ⟨he, hnot⟩ hv
  have hsafe' := (ringStep_safe_iff hkept he hsafe hv).mpr hnot
  exact ⟨ringStep_kept hkept he hsafe hv hsafe', hsafe'⟩

/-- The window in numbers. -/
lemma rxWindow_toNat {conn : Connection} {d : ℕ} (hd : d ≤ BUFFER_SIZE)
    (hR : conn.rxReadable = conn.rxRead + d.toUInt32) :
    (rxWindow conn).toNat = BUFFER_SIZE - d := by
  have hsize : BUFFER_SIZE = 2048 := rfl
  have hdist := toNat_sub_add conn.rxRead (show d < 2 ^ 32 by omega)
  rw [← hR] at hdist
  have hle : conn.rxReadable - conn.rxRead ≤ BUFFER_SIZE.toUInt32 := by
    rw [UInt32.le_iff_toNat_le, toNat_bufferSize, hdist]
    exact hd
  rw [rxWindow, UInt32.toNat_toUInt16, UInt32.toNat_sub_of_le _ _ hle, toNat_bufferSize, hdist,
    hsize]
  exact Nat.mod_eq_of_lt (by omega)

/-- **The advertised window.**  Take any state of a connection after the peer's SYN, data and FIN
segments and calls of `tcp_recv`, away from the wrap of the counters.  Its window `W` goes into
each segment that `tcp_write` builds.  Data segments in order from `rx_readable` on, with at most
`W` bytes in all, are accepted exactly when their bytes are fewer than `W`, or none, and none of
them is given up for its options. -/
theorem window_accepts_iff (reply : Ip → List (Mac × Ip)) {idx : ℕ} {s0 : UInt32} {s : Net}
    {es : List RxEvent} {t : Net × List UInt8} (hsyn : AfterSyn s idx s0)
    (hsole : SolePort s idx) (hes : ∀ e ∈ es, DataOrFin (s.connections idx) e)
    (hrun : Run (ringStep reply idx) (s, []) es t)
    (hover : EveryStep (ringStep reply idx) (s, []) es fun t e => ¬ Overruns idx t e)
    (hvalid : (t.1.connections idx).isValid = true) (haway : AwayFromWrap (t.1.connections idx))
    {segments : List (List UInt8 × UInt32)} {bytes : List UInt8}
    (hsegments : DataInOrder (t.1.connections idx) (t.1.connections idx).rxReadable segments bytes)
    (hwindow : bytes.length ≤ (rxWindow (t.1.connections idx)).toNat) :
    (∀ flags len, (readTcpHeader (tcpWritten t.1 idx flags len)).1.windowSize
        = rxWindow (t.1.connections idx))
      ∧ (AcceptsAll reply idx t.1 segments bytes ↔ DataReached segments
        ∧ (bytes = [] ∨ bytes.length < (rxWindow (t.1.connections idx)).toNat)) := by
  obtain ⟨hkept, hdist, -, -⟩ := ringKept_of_run hsyn hsole hes hrun hover
  have hR := eq_add_toNat_sub (t.1.connections idx).rxRead (t.1.connections idx).rxReadable
  set d := ((t.1.connections idx).rxReadable - (t.1.connections idx).rxRead).toNat with hd
  have hreached : Reached idx (t.1.connections idx) t.1 := ⟨hvalid, ⟨rfl, rfl⟩, hkept.sole⟩
  rw [rxWindow_toNat hdist hR] at hwindow ⊢
  refine ⟨fun flags len => ?_, ?_⟩
  · obtain ⟨chksum, hwritten⟩ := tcpWritten_eq t.1 idx flags len
    rw [hwritten, readTcpHeader_tcpFields]
    rfl
  · rw [acceptsAll_iff reply hsegments hreached haway hR rfl (by omega)]
    exact and_congr_right fun _ => or_congr_right (by omega)

/-! ### A window that is filled -/

/-- Two segments of 1024 bytes. -/
def fullWindow : List (List UInt8 × UInt32) :=
  [(segmentOf 1 0x10 (List.replicate 1024 7), 1044),
    (segmentOf 1025 0x10 (List.replicate 1024 8), 1044)]

/-- Their bytes. -/
def fullWindowBytes : List UInt8 := List.replicate 1024 7 ++ List.replicate 1024 8

lemma segmentOf_flags (seq : UInt32) (bytes : List UInt8) :
    (readTcpHeader (segmentOf seq 0x10 bytes)).1.flags
      = { dataOffset := 5, fin := false, syn := false, rst := false, psh := false
          ack := true } := by
  change TcpFlags.ofBytes #v[0x50, 0x10] = _
  decide

lemma segmentOf_ports (seq : UInt32) (bytes : List UInt8) :
    (readTcpHeader (segmentOf seq 0x10 bytes)).1.destPort = (afterSynNet.connections 0).sourcePort
      ∧ (readTcpHeader (segmentOf seq 0x10 bytes)).1.sourcePort
        = (afterSynNet.connections 0).destPort := by
  have hports : (afterSynNet.connections 0).sourcePort = 0x8000
      ∧ (afterSynNet.connections 0).destPort = 80 := ⟨rfl, rfl⟩
  simp only [hports, segmentOf, List.append_assoc, readTcpHeader, readU16_writeU16, and_self]

lemma segmentOf_dataSegment (seq : UInt32) (bytes : List UInt8) {len : UInt32}
    (hlen : len.toNat = 20 + bytes.length)
    (hseq : (readTcpHeader (segmentOf seq 0x10 bytes)).1.seq = seq) :
    DataSegment (afterSynNet.connections 0) seq bytes (segmentOf seq 0x10 bytes) len := by
  have hflags := segmentOf_flags seq bytes
  have hports := segmentOf_ports seq bytes
  have hpayload : segmentPayload (segmentOf seq 0x10 bytes) = bytes := by
    rw [segmentPayload, payloadOf, hflags]
    rfl
  have hpeer : FromPeer (afterSynNet.connections 0) (segmentOf seq 0x10 bytes) :=
    ⟨hports.1, hports.2, by rw [hflags], by rw [hflags]⟩
  have hoffset : (readTcpHeader (segmentOf seq 0x10 bytes)).1.flags.dataOffset * 4 = 20 := by
    simp only [hflags]
  refine ⟨hpeer, by rw [hflags], hseq, by rw [hflags], ?_, ?_⟩
  · rw [hlen, hoffset]
  · rw [hpayload, bytesAt_eq_take le_rfl, List.take_length]

lemma fullWindow_inOrder :
    DataInOrder (afterSynNet.connections 0) 1 fullWindow fullWindowBytes := by
  have hlen : ∀ b : UInt8, (1044 : UInt32).toNat = 20 + (List.replicate 1024 b).length := by
    intro b
    rw [List.length_replicate]
    rfl
  have hfirst := segmentOf_dataSegment 1 (List.replicate 1024 7) (hlen 7) rfl
  have hsecond := segmentOf_dataSegment 1025 (List.replicate 1024 8) (hlen 8) rfl
  have hrest := DataInOrder.cons hsecond (DataInOrder.nil _)
  have hnext : (1 : UInt32) + (List.replicate 1024 (7 : UInt8)).length.toUInt32 = 1025 := by
    rw [List.length_replicate]
    rfl
  rw [List.append_nil, ← hnext] at hrest
  rw [fullWindow, fullWindowBytes, ← hnext]
  exact DataInOrder.cons hfirst hrest

lemma fullWindowBytes_length : fullWindowBytes.length = 2048 := by
  rw [fullWindowBytes, List.length_append, List.length_replicate, List.length_replicate]

lemma afterSynNet_solePort : SolePort afterSynNet 0 := afterSynNetAt_solePort 0

lemma afterSynNet_away : AwayFromWrap (afterSynNet.connections 0) := by
  rw [AwayFromWrap]
  decide

/-- The equivalence applies to them. -/
theorem window_accepts_iff_full :
    AcceptsAll (fun _ => []) 0 afterSynNet fullWindow fullWindowBytes ↔ DataReached fullWindow
      ∧ (fullWindowBytes = [] ∨ fullWindowBytes.length
        < (rxWindow (afterSynNet.connections 0)).toNat) :=
  (window_accepts_iff (fun _ => []) afterSynNet_afterSyn afterSynNet_solePort
    (fun e he => absurd he List.not_mem_nil) Run.nil
    (everyStep_not_overruns (everyState_nil.mpr afterSynNet_away)) rfl afterSynNet_away
    fullWindow_inOrder (by rw [fullWindowBytes_length]; decide)).2

/-- **A filled window**: two segments with as many bytes as the window of an empty ring announces
are not accepted. -/
theorem not_acceptsAll_fullWindow :
    ¬ ∀ (reply : Ip → List (Mac × Ip)) (idx : ℕ) (s : Net) (s0 : UInt32)
        (segments : List (List UInt8 × UInt32)) (bytes : List UInt8),
      AfterSyn s idx s0 → SolePort s idx → AwayFromWrap (s.connections idx) →
      DataInOrder (s.connections idx) (s.connections idx).rxReadable segments bytes →
      bytes.length ≤ (rxWindow (s.connections idx)).toNat →
        AcceptsAll reply idx s segments bytes := by
  intro h
  have haccepts := h (fun _ => []) 0 afterSynNet 0 fullWindow fullWindowBytes afterSynNet_afterSyn
    afterSynNet_solePort afterSynNet_away fullWindow_inOrder
    (by rw [fullWindowBytes_length]; decide)
  have hreached : Reached 0 (afterSynNet.connections 0) afterSynNet :=
    ⟨rfl, ⟨rfl, rfl⟩, afterSynNet_solePort⟩
  rw [acceptsAll_iff (fun _ => []) fullWindow_inOrder hreached afterSynNet_away (d := 0) rfl rfl
    (by rw [fullWindowBytes_length]; decide)] at haccepts
  obtain ⟨-, hempty | hroom⟩ := haccepts
  · have hzero := congrArg List.length hempty
    rw [fullWindowBytes_length] at hzero
    cases hzero
  · rw [fullWindowBytes_length] at hroom
    exact absurd hroom (by decide)

end CustomLinuxOs
