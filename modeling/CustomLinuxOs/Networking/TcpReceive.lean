import CustomLinuxOs.Networking.RxStep

/-!
The byte stream a reader gets from `tcp_recv` when segments arrive in any order.

The peer sends the stream `D`, its first byte under the sequence number after its SYN.  Segments
carrying stretches of `D` may come late, twice, and overlapping.

* `Genuine`: the segments and calls the peer and the reader can produce.
* `ReadsPrefix`: what has been returned, and what the next call of any length adds to it, is a
  prefix of `D`.
* `FitsNext`: a segment that begins before and ends after the bytes received so far.  The data
  loop skips the known bytes without moving its packet pointer, so it stores the *first* bytes
  of such a segment; the condition is that they happen to be the ones wanted.
* `tcpReceive_readsPrefix_iff`: the reader sees prefixes of `D` in all states of a run exactly
  when every step meets the condition.
-/

namespace CustomLinuxOs

/-- A segment with bytes of the stream `D`, or any call of `tcp_recv`. -/
def Genuine (conn : Connection) (s0 : UInt32) (D : List UInt8) : RxEvent → Prop
  | .segment packet len => ∃ a b, a < b ∧ Carries conn s0 D a b false packet len
  | .recv _ => True

/-- The bytes returned so far, and with them the bytes the next call returns, are a prefix
of `D`. -/
def ReadsPrefix (reply : Ip → List (Mac × Ip)) (idx : ℕ) (D : List UInt8)
    (t : Net × List UInt8) : Prop :=
  t.2 <+: D ∧ ∀ len u, rxStep reply idx t (.recv len) = some u → u.2 <+: D

/-- The bytes of the stream received so far, counted by the acknowledgement number. -/
def received (s0 : UInt32) (conn : Connection) : ℕ := (conn.rxReadable - (s0 + 1)).toNat

/-- The condition on a step: when a segment begins before and ends after the bytes received so
far, and its options let its payload be reached, its first bytes equal the next bytes of `D`,
as many of them as the ring has room for. -/
def FitsNext (idx : ℕ) (s0 : UInt32) (D : List UInt8) (t : Net × List UInt8) : RxEvent → Prop
  | .segment packet len =>
      let conn := t.1.connections idx
      ∀ a b, Carries conn s0 D a b false packet len → payloadReached packet = true →
        a < received s0 conn → received s0 conn < b →
        ∀ i < rxRoom conn.rxRead conn.rxReadable (b - received s0 conn),
          D[a + i]? = D[received s0 conn + i]?
  | .recv _ => True

/-! ### A segment at the data loop -/

/-- The segment says which stretch of the stream it carries. -/
lemma Carries.unique {conn : Connection} {s0 : UInt32} {D : List UInt8} {a b a' b' : ℕ}
    {fin fin' : Bool} {packet : List UInt8} {len : UInt32}
    (h : Carries conn s0 D a b fin packet len) (h' : Carries conn s0 D a' b' fin' packet len)
    (hD : s0.toNat + 1 + D.length ≤ 2 ^ 32) : a = a' ∧ b = b' := by
  have hb := h.bound
  have hb' := h'.bound
  have hab := h.le
  have hab' := h'.le
  have hseq : a.toUInt32 = a'.toUInt32 := (UInt32.add_right_inj _).mp (h.seq.symm.trans h'.seq)
  have ha : a = a' := by
    have := congrArg UInt32.toNat hseq
    rw [toNat_toUInt32, toNat_toUInt32] at this
    omega
  have hlen := h.len.symm.trans h'.len
  omega

/-- Where the stream's sequence numbers do not wrap, they count its bytes. -/
lemma toNat_stream {s0 : UInt32} {i : ℕ} (hi : s0.toNat + 1 + i < 2 ^ 32) :
    (s0 + 1 + i.toUInt32).toNat = s0.toNat + 1 + i := by
  rw [UInt32.toNat_add, UInt32.toNat_add, toNat_toUInt32, UInt32.toNat_one]
  omega

/-- The position after the last byte may be the wrap itself, and then reads `0`. -/
lemma toNat_stream_end {s0 : UInt32} {i : ℕ} (hi : s0.toNat + 1 + i = 2 ^ 32) :
    (s0 + 1 + i.toUInt32).toNat = 0 := by
  rw [UInt32.toNat_add, UInt32.toNat_add, toNat_toUInt32, UInt32.toNat_one]
  have := s0.toNat_lt
  omega

/-- **What a segment of the stream stores** with `r` bytes received: nothing unless its payload is
reached and contains the next byte, and otherwise what the ring has room for. -/
lemma Carries.storedLength_eq {conn : Connection} {s0 : UInt32} {D : List UInt8} {q r a b : ℕ}
    {packet : List UInt8} {len : UInt32} (hseg : Carries conn s0 D a b false packet len)
    (hat : RxAt (s0 + 1) conn q r) (hD : s0.toNat + 1 + D.length ≤ 2 ^ 32) (hr : r ≤ D.length)
    (hab : a < b) :
    storedLength packet len conn
      = if payloadReached packet = true ∧ a ≤ r ∧ r < b then
          rxRoom conn.rxRead conn.rxReadable (b - r)
        else 0 := by
  have hbound := hseg.bound
  have hseq : (readTcpHeader packet).1.seq.toNat = s0.toNat + 1 + a := by
    rw [hseg.seq, toNat_stream (by omega)]
  -- when all of the stream is received the counter may stand at `0`, before every byte
  have hR : s0.toNat + 1 + r = 2 ^ 32 ∧ conn.rxReadable.toNat = 0
      ∨ conn.rxReadable.toNat = s0.toNat + 1 + r := by
    rw [hat.readable]
    rcases Nat.lt_or_ge (s0.toNat + 1 + r) (2 ^ 32) with hlt | hge
    · exact Or.inr (toNat_stream hlt)
    · exact Or.inl ⟨by omega, toNat_stream_end (by omega)⟩
  have hsub : (readTcpHeader packet).1.seq ≤ conn.rxReadable →
      (conn.rxReadable - (readTcpHeader packet).1.seq).toNat
        = conn.rxReadable.toNat - (readTcpHeader packet).1.seq.toNat :=
    fun hle => UInt32.toNat_sub_of_le _ _ hle
  have hnext : (readTcpHeader packet).1.seq ≤ conn.rxReadable
      ∧ (conn.rxReadable - (readTcpHeader packet).1.seq).toNat < b - a ↔ a ≤ r ∧ r < b := by
    rw [UInt32.le_iff_toNat_le] at hsub ⊢
    omega
  simp only [storedLength, hseg.payloadLength, hnext]
  split
  · rename_i hreach
    have hdist := hsub (hnext.mpr hreach.2).1
    rw [show b - a - (conn.rxReadable - (readTcpHeader packet).1.seq).toNat = b - r by omega]
  · rfl

/-! ### Invariant and steps -/

/-- What holds on every run: the connection is open, and its counters say how much is returned and
received of a stream of `L` bytes. -/
structure Receiving (idx : ℕ) (ports : UInt16 × UInt16) (s0 : UInt32) (L : ℕ)
    (t : Net × List UInt8) : Prop extends RxOpen idx ports t.1 where
  received_le : received s0 (t.1.connections idx) ≤ L
  rxAt : RxAt (s0 + 1) (t.1.connections idx) t.2.length (received s0 (t.1.connections idx))

lemma received_eq {s0 : UInt32} {conn : Connection} {q r : ℕ} (h : RxAt (s0 + 1) conn q r)
    (hr : r < 2 ^ 32) : received s0 conn = r := by
  rw [received, h.readable, toNat_sub_add _ hr]

lemma Receiving.delivered_length {idx : ℕ} {ports : UInt16 × UInt16} {s0 : UInt32} {L : ℕ}
    {t : Net × List UInt8} (h : Receiving idx ports s0 L t) :
    (delivered idx t).length = received s0 (t.1.connections idx) := by
  rw [delivered, List.length_append, h.rxAt.pending_length]
  have := h.rxAt.le
  omega

/-- Counters that stand at `r` received bytes give the invariant. -/
lemma RxOpen.receiving {idx : ℕ} {ports : UInt16 × UInt16} {s0 : UInt32} {L r : ℕ}
    {t : Net × List UInt8} (h : RxOpen idx ports t.1) (hr : r ≤ L) (hL : L < 2 ^ 32)
    (hat : RxAt (s0 + 1) (t.1.connections idx) t.2.length r) : Receiving idx ports s0 L t := by
  have hrec := received_eq hat (by omega)
  exact ⟨h, hrec ▸ hr, hrec ▸ hat⟩

section Steps

variable {reply : Ip → List (Mac × Ip)} {idx : ℕ} {ports : UInt16 × UInt16} {s0 : UInt32}
  {D : List UInt8} {t u : Net × List UInt8}

/-- **A segment of the stream** stores a front part of its payload, of a length that is `0` when
the segment does not contain the next byte or its payload is not reached. -/
lemma segment_step (hI : Receiving idx ports s0 D.length t)
    (hD : s0.toNat + 1 + D.length ≤ 2 ^ 32) {a b : ℕ} {packet : List UInt8} {len : UInt32}
    (hab : a < b) (hseg : Carries (t.1.connections idx) s0 D a b false packet len)
    (hu : rxStep reply idx t (.segment packet len) = some u) :
    let conn := t.1.connections idx
    let r := received s0 conn
    let m := if payloadReached packet = true ∧ a ≤ r ∧ r < b then
        rxRoom conn.rxRead conn.rxReadable (b - r) else 0
    a + m ≤ D.length ∧ Receiving idx ports s0 D.length u
      ∧ delivered idx u = delivered idx t ++ (D.drop a).take m := by
  intro conn r m
  obtain rfl : (tcpParsePacket reply t.1 packet len, t.2) = u := Option.some.inj hu
  obtain ⟨hside, hother⟩ := segment_rxSide reply hI.toRxOpen hseg
  rw [countFin, if_neg Bool.false_ne_true,
    hseg.storedLength_eq hI.rxAt hD hI.received_le hab] at hside
  change _ = (rxStore (bytesAt (segmentPayload packet) m) conn).rxSide at hside
  have hroom : r - t.2.length + (bytesAt (segmentPayload packet) m).length < BUFFER_SIZE := by
    have := storedLength_room packet len hI.rxAt.lt hI.rxAt.readable_eq
    rw [hseg.storedLength_eq hI.rxAt hD hI.received_le hab] at this
    rw [bytesAt_length]
    exact this
  obtain ⟨hat, hpend⟩ := hI.rxAt.store hroom
  rw [bytesAt_length] at hat
  have hm : m ≤ b - r ∧ m ≤ b - a := by
    by_cases hc : payloadReached packet = true ∧ a ≤ r ∧ r < b
    · rw [show m = _ from if_pos hc]
      have := rxRoom_le conn.rxRead conn.rxReadable (b - r)
      omega
    · rw [show m = _ from if_neg hc]
      omega
  have hbound := hseg.bound
  have hrl : r ≤ D.length := hI.received_le
  have hrm : r + m ≤ D.length := by omega
  refine ⟨by omega, (hI.toRxOpen.of_stored hside hother).receiving hrm (by omega)
    (hat.congr hside.symm), ?_⟩
  rw [delivered, rxPending_congr hside, hpend, hseg.bytesAt_payload hm.2, ← List.append_assoc]
  rfl

/-- The events of the stream keep the invariant. -/
lemma keep_receiving {conn : Connection} {e : RxEvent} (hD : s0.toNat + 1 + D.length ≤ 2 ^ 32)
    (hports : SamePorts conn (t.1.connections idx)) (he : Genuine conn s0 D e)
    (hI : Receiving idx ports s0 D.length t) (hu : rxStep reply idx t e = some u) :
    Receiving idx ports s0 D.length u := by
  cases e with
  | recv len =>
      obtain ⟨hopen, hat⟩ := recv_open hI.toRxOpen hI.rxAt hu
      exact hopen.receiving hI.received_le (by omega) hat
  | segment packet len =>
      obtain ⟨a, b, hab, hseg⟩ := he
      exact (segment_step hI hD hab (hseg.congr hports) hu).2.1

/-- What the reader can get to see is what has been delivered. -/
lemma readsPrefix_iff (hI : Receiving idx ports s0 D.length t) :
    ReadsPrefix reply idx D t ↔ delivered idx t <+: D := by
  constructor
  · rintro ⟨hret, hnext⟩
    by_cases hready : (t.1.connections idx).rxReadable = (t.1.connections idx).rxRead
    · have hempty : rxPending (t.1.connections idx) = [] := by
        rw [rxPending, hready, UInt32.sub_self]
        rfl
      rw [delivered, hempty, List.append_nil]
      exact hret
    · obtain ⟨r, hr⟩ : ∃ r, tcpRecv reply t.1 idx 0xffffffff = some r := by
        simp [tcpRecv, hI.valid, hready]
      have hstep : rxStep reply idx t (.recv 0xffffffff) = some (r.2, t.2 ++ r.1) := by
        rw [rxStep, hr]
        rfl
      have hall := (recv_delivered hI.valid hstep).2
      rw [List.take_of_length_le] at hall
      · rw [delivered, ← hall]
        exact hnext _ _ hstep
      · rw [hI.rxAt.pending_length]
        have := hI.rxAt.lt
        have : BUFFER_SIZE ≤ (0xffffffff : UInt32).toNat := by decide
        omega
  · intro h
    refine ⟨(List.prefix_append _ _).trans h, fun len u hu => ?_⟩
    rw [(recv_delivered hI.valid hu).2]
    exact ((List.prefix_append_right_inj t.2).mpr (List.take_prefix _ _)).trans h

/-- Continuing a prefix of `D` by the bytes from `a` on keeps it a prefix exactly when these
are the bytes that come next. -/
lemma take_append_prefix_iff {r m a : ℕ} (ham : a + m ≤ D.length) :
    D.take r ++ (D.drop a).take m <+: D ↔ ∀ i < m, D[a + i]? = D[r + i]? := by
  have hsplit : D.take r ++ (D.drop a).take m <+: D ↔ (D.drop a).take m <+: D.drop r := by
    conv_lhs => rhs; rw [← List.take_append_drop r D]
    exact List.prefix_append_right_inj _
  have hlen : ((D.drop a).take m).length = m := by
    rw [List.length_take, List.length_drop]
    omega
  rw [hsplit, List.prefix_iff_eq_take, hlen]
  constructor
  · intro h i hi
    have hi' := congrArg (fun l : List UInt8 => l[i]?) h
    simpa only [List.getElem?_take_of_lt hi, List.getElem?_drop] using hi'
  · intro h
    refine List.ext_getElem? fun i => ?_
    by_cases hi : i < m
    · rw [List.getElem?_take_of_lt hi, List.getElem?_take_of_lt hi, List.getElem?_drop,
        List.getElem?_drop, h i hi]
    · rw [List.getElem?_take, if_neg hi, List.getElem?_take, if_neg hi]

/-- **One step of the stream**: what is delivered stays a prefix exactly when the step meets the
condition. -/
lemma delivered_step_iff {conn : Connection} {e : RxEvent}
    (hD : s0.toNat + 1 + D.length ≤ 2 ^ 32) (hports : SamePorts conn (t.1.connections idx))
    (he : Genuine conn s0 D e) (hI : Receiving idx ports s0 D.length t)
    (hP : delivered idx t <+: D) (hu : rxStep reply idx t e = some u) :
    delivered idx u <+: D ↔ FitsNext idx s0 D t e := by
  cases e with
  | recv len =>
      rw [(recv_delivered hI.valid hu).1]
      exact ⟨fun _ => trivial, fun _ => hP⟩
  | segment packet len =>
      obtain ⟨a, b, hab, hseg⟩ := he
      have hseg := hseg.congr hports
      obtain ⟨ham, -, hdel⟩ := segment_step hI hD hab hseg hu
      have htake : delivered idx t = D.take (received s0 (t.1.connections idx)) := by
        rw [List.prefix_iff_eq_take.mp hP, hI.delivered_length]
      rw [hdel, htake, take_append_prefix_iff ham]
      constructor
      · intro h a' b' hseg' hopt har hrb i hi
        obtain ⟨rfl, rfl⟩ := hseg.unique hseg' hD
        rw [if_pos ⟨hopt, har.le, hrb⟩] at h
        exact h i hi
      · intro h i hi
        split at hi
        · rename_i hc
          rcases Nat.eq_or_lt_of_le hc.2.1 with har | har
          · rw [har]
          · exact h a b hseg hc.1 har hc.2.2 i hi
        · omega

end Steps

/-! ### Runs -/

/-- **The reader of a TCP connection.**  After the peer's SYN, let segments of the stream `D`
come in any order, and let the reader call `tcp_recv` with any lengths.  In all states of the
run the bytes returned are a prefix of `D`, and stay one with the next call, exactly when
every segment that begins before and ends after the bytes received so far begins with the bytes
that are wanted next. -/
theorem tcpReceive_readsPrefix_iff (reply : Ip → List (Mac × Ip)) {idx : ℕ} {s0 : UInt32}
    {D : List UInt8} {s : Net} {es : List RxEvent} {z : Net × List UInt8}
    (hsyn : AfterSyn s idx s0) (hD : s0.toNat + 1 + D.length ≤ 2 ^ 32)
    (hes : ∀ e ∈ es, Genuine (s.connections idx) s0 D e)
    (hrun : Run (rxStep reply idx) (s, []) es z) :
    EveryState (rxStep reply idx) (s, []) es (ReadsPrefix reply idx D)
      ↔ EveryStep (rxStep reply idx) (s, []) es (FitsNext idx s0 D) := by
  have hI : Receiving idx ((s.connections idx).sourcePort, (s.connections idx).destPort) s0
      D.length (s, []) := hsyn.rxOpen.receiving (Nat.zero_le _) (by omega) hsyn.rxAt
  have hports : ∀ t, Receiving idx ((s.connections idx).sourcePort,
      (s.connections idx).destPort) s0 D.length t →
      SamePorts (s.connections idx) (t.1.connections idx) :=
    fun t ht => ⟨ht.sourcePort.symm, ht.destPort.symm⟩
  refine everyState_iff_everyStep (V := Genuine (s.connections idx) s0 D) hrun hes hI ?_ ?_ ?_
  · have hnil : delivered idx (s, []) = [] :=
      List.eq_nil_of_length_eq_zero (by rw [hI.delivered_length, received_eq hsyn.rxAt (by omega)])
    rw [readsPrefix_iff hI, hnil]
    exact List.nil_prefix
  · intro t e u he ht hP hu
    have hI' := keep_receiving hD (hports t ht) he ht hu
    rw [readsPrefix_iff hI']
    exact delivered_step_iff hD (hports t ht) he ht ((readsPrefix_iff ht).mp hP) hu
  · intro t e u he ht _ _ hu
    exact keep_receiving hD (hports t ht) he ht hu

/-! ### A run with overlapping segments -/

/-- The events of a reader that gets `[1, 2]`, then the same bytes again with the next one. -/
def overlapEvents : List RxEvent :=
  [.segment (segmentOf 1 0x10 [1, 2]) 22, .segment (segmentOf 1 0x10 [1, 2, 3]) 23, .recv 3]

lemma overlapEvents_genuine :
    ∀ e ∈ overlapEvents, Genuine (afterSynNet.connections 0) 0 [1, 2, 3] e := by
  intro e he
  simp only [overlapEvents, List.mem_cons, List.not_mem_nil, or_false] at he
  rcases he with rfl | rfl | rfl
  · exact ⟨0, 2, by decide, by constructor <;> decide +kernel⟩
  · exact ⟨0, 3, by decide, by constructor <;> decide +kernel⟩
  · trivial

lemma overlapEvents_run : ∃ z, Run (rxStep (fun _ => []) 0) (afterSynNet, []) overlapEvents z
    ∧ z.2 = [1, 2, 1] := by
  have hread : (overlapEvents.foldlM (rxStep (fun _ => []) 0) (afterSynNet, [])).map Prod.snd
      = some [1, 2, 1] := by decide +kernel
  exact exists_run_of_map hread

/-- The equivalence applies to this run. -/
theorem tcpReceive_readsPrefix_iff_overlap :
    EveryState (rxStep (fun _ => []) 0) (afterSynNet, []) overlapEvents
        (ReadsPrefix (fun _ => []) 0 [1, 2, 3])
      ↔ EveryStep (rxStep (fun _ => []) 0) (afterSynNet, []) overlapEvents
        (FitsNext 0 0 [1, 2, 3]) := by
  obtain ⟨z, hrun, -⟩ := overlapEvents_run
  exact tcpReceive_readsPrefix_iff _ afterSynNet_afterSyn (by simp) overlapEvents_genuine hrun

/-- **Overlap**: with the first two bytes received, a segment with the first three makes the
reader see the first byte again in place of the third. -/
theorem tcpReceive_overlap :
    AfterSyn afterSynNet 0 0
      ∧ (∀ e ∈ overlapEvents, Genuine (afterSynNet.connections 0) 0 [1, 2, 3] e)
      ∧ ∃ z, Run (rxStep (fun _ => []) 0) (afterSynNet, []) overlapEvents z
        ∧ z.2 = [1, 2, 1] ∧ ¬ z.2 <+: [1, 2, 3] := by
  obtain ⟨z, hrun, hz⟩ := overlapEvents_run
  refine ⟨afterSynNet_afterSyn, overlapEvents_genuine, z, hrun, hz, ?_⟩
  rw [hz]
  decide

end CustomLinuxOs
