import CustomLinuxOs.Networking.RxCounters

/-!
The same peer stream under two initial sequence numbers.

* `PairEvent`, `pairStep`: two runs of the receive side side by side.  A segment comes to both,
  to the second one with its sequence number shifted; `tcp_recv` is called on both.
* `Shifted`: the same segment under another number.
* `InStep`: both have returned the same bytes, and their counters differ by the shift.
* `Takes`: the two tests of the data loop on the next byte, as unsigned numbers.  Of these the
  second depends on where the counter wraps.
* `inStep_iff`: the runs stay in step exactly when both take, or neither does, whenever a
  segment reaches the next byte; `inStep_stalled` is a pair of which the second never takes it.
-/

namespace CustomLinuxOs

/-! ### Events -/

/-- A segment, with its copy for the second run, or a call of `tcp_recv`. -/
inductive PairEvent where
  | segment (packet packet' : List UInt8) (len : UInt32)
  | recv (len : UInt32)

/-- What the first run sees of an event. -/
def PairEvent.first : PairEvent → RxEvent
  | .segment packet _ len => .segment packet len
  | .recv len => .recv len

/-- What the second run sees of it. -/
def PairEvent.second : PairEvent → RxEvent
  | .segment _ packet' len => .segment packet' len
  | .recv len => .recv len

/-- A step of both runs. -/
def pairStep (reply : Ip → List (Mac × Ip)) (idx : ℕ)
    (t : (Net × List UInt8) × (Net × List UInt8)) (e : PairEvent) :
    Option ((Net × List UInt8) × (Net × List UInt8)) :=
  (rxStep reply idx t.1 e.first).bind fun u =>
    (rxStep reply idx t.2 e.second).map fun u' => (u, u')

/-- `packet'` is `packet` with its sequence number shifted by `δ`. -/
structure Shifted (δ : UInt32) (packet packet' : List UInt8) : Prop where
  header : (readTcpHeader packet').1
    = { (readTcpHeader packet).1 with seq := (readTcpHeader packet).1.seq + δ }
  rest : (readTcpHeader packet').2 = (readTcpHeader packet).2

/-- A data segment of the peer, shifted for the second run. -/
def DataPair (c : Connection) (δ : UInt32) : PairEvent → Prop
  | .segment packet packet' _ =>
      FromPeer c packet ∧ (readTcpHeader packet).1.flags.fin = false ∧ Shifted δ packet packet'
  | .recv _ => True

/-- Both runs have returned the same bytes, and the counters of the second are those of the first
plus `δ`. -/
def InStep (idx : ℕ) (δ : UInt32) (t : (Net × List UInt8) × (Net × List UInt8)) : Prop :=
  t.2.2 = t.1.2
    ∧ (t.2.1.connections idx).rxRead = (t.1.1.connections idx).rxRead + δ
    ∧ (t.2.1.connections idx).rxReadable = (t.1.1.connections idx).rxReadable + δ

/-- The tests of the data loop for the next byte of a segment: the segment does not begin after
it, and the ring has room. -/
def Takes (packet : List UInt8) (conn : Connection) : Prop :=
  (readTcpHeader packet).1.seq ≤ conn.rxReadable
    ∧ conn.rxReadable + 1 < conn.rxRead + BUFFER_SIZE.toUInt32

instance (packet : List UInt8) (conn : Connection) : Decidable (Takes packet conn) :=
  inferInstanceAs (Decidable (_ ∧ _))

/-- The payload of a segment is reached and contains the next byte. -/
def ReachesNext (packet : List UInt8) (len : UInt32) (conn : Connection) : Prop :=
  payloadReached packet = true
    ∧ (conn.rxReadable - (readTcpHeader packet).1.seq).toNat
      < payloadLength (readTcpHeader packet).1 len

instance (packet : List UInt8) (len : UInt32) (conn : Connection) :
    Decidable (ReachesNext packet len conn) :=
  inferInstanceAs (Decidable (_ ∧ _))

/-- When a segment contains the next byte, both runs take it or neither does. -/
def TakesAlike (idx : ℕ) (t : (Net × List UInt8) × (Net × List UInt8)) : PairEvent → Prop
  | .segment packet packet' len =>
      ReachesNext packet len (t.1.1.connections idx) →
        (Takes packet (t.1.1.connections idx) ↔ Takes packet' (t.2.1.connections idx))
  | .recv _ => True

/-! ### What a data segment stores -/

/-- **The bytes stored**: when the tests pass, all that the segment still has and the ring has
room for. -/
theorem storedLength_eq (packet : List UInt8) (len : UInt32) {conn : Connection} {d : ℕ}
    (hd : d < BUFFER_SIZE) (hR : conn.rxReadable = conn.rxRead + d.toUInt32) :
    storedLength packet len conn
      = if ReachesNext packet len conn ∧ Takes packet conn then
          min (payloadLength (readTcpHeader packet).1 len
            - (conn.rxReadable - (readTcpHeader packet).1.seq).toNat) (BUFFER_SIZE - 1 - d)
        else 0 := by
  have hroom := rxRoom_eq conn.rxRead hd (payloadLength (readTcpHeader packet).1 len
    - (conn.rxReadable - (readTcpHeader packet).1.seq).toNat)
  rw [← hR] at hroom
  simp only [storedLength]
  by_cases h : ReachesNext packet len conn ∧ Takes packet conn
  · rw [if_pos h, if_pos ⟨h.1.1, h.2.1, h.1.2⟩, hroom, if_pos h.2.2]
  · rw [if_neg h]
    split
    · rename_i hreach
      rw [hroom, if_neg fun htest => h ⟨⟨hreach.1, hreach.2.2⟩, hreach.2.1, htest⟩]
    · rfl

/-- The room is there when the test passes. -/
lemma Takes.lt {packet : List UInt8} {conn : Connection} {d : ℕ} (h : Takes packet conn)
    (hd : d < BUFFER_SIZE) (hR : conn.rxReadable = conn.rxRead + d.toUInt32) :
    d + 1 < BUFFER_SIZE := by
  rcases Nat.lt_or_ge (d + 1) BUFFER_SIZE with hlt | hge
  · exact hlt
  · have htest := h.2
    rw [hR, UInt32.add_assoc, ← toUInt32_succ, show d + 1 = BUFFER_SIZE by omega] at htest
    exact absurd htest (UInt32.lt_irrefl _)

/-! ### One step -/

/-- An open connection under the ports of `c`, with a slot free. -/
structure DataKept (idx : ℕ) (c : Connection) (s : Net) : Prop extends Reached idx c s where
  notClosed : (s.connections idx).isClosed = false
  notFull : ((s.connections idx).rxReadable - (s.connections idx).rxRead).toNat < BUFFER_SIZE

section One

variable {reply : Ip → List (Mac × Ip)} {idx : ℕ} {c : Connection} {s : Net}

variable (reply) in
/-- A data segment stores the first bytes of its payload and leaves a slot free. -/
lemma DataKept.segment (h : DataKept idx c s) {packet : List UInt8} (len : UInt32)
    (hpeer : FromPeer c packet) (hfin : (readTcpHeader packet).1.flags.fin = false) :
    DataKept idx c (tcpParsePacket reply s packet len)
      ∧ ((tcpParsePacket reply s packet len).connections idx).rxSide
        = (rxStore (bytesAt (segmentPayload packet)
            (storedLength packet len (s.connections idx))) (s.connections idx)).rxSide := by
  obtain ⟨-, hstores, -⟩ := parse_rxSide reply h.sole h.valid (hpeer.congr h.ports) len
  have hsame : afterFin packet (s.connections idx) = s.connections idx := by
    rw [afterFin, hfin, Bool.false_and, countFin, if_neg Bool.false_ne_true]
  rw [hsame] at hstores
  obtain ⟨hvalid, hports, hsole⟩ := parse_rest reply h.sole h.valid (hpeer.congr h.ports) len
  have hreadable := eq_add_toNat_sub (s.connections idx).rxRead (s.connections idx).rxReadable
  have hroom := storedLength_room packet len h.notFull hreadable
  refine ⟨⟨⟨hvalid, h.ports.trans hports.symm, hsole⟩, ?_, ?_⟩, hstores⟩
  · exact (congrArg RxSide.isClosed hstores).trans ((rxStore_rest _ _).2.1.trans h.notClosed)
  · rw [show ((tcpParsePacket reply s packet len).connections idx).rxReadable = _ from
        congrArg RxSide.rxReadable hstores,
      show ((tcpParsePacket reply s packet len).connections idx).rxRead = _ from
        congrArg RxSide.rxRead hstores]
    change ((rxStore _ _).rxReadable - (rxStore _ _).rxRead).toNat < _
    have hsize : BUFFER_SIZE = 2048 := rfl
    rw [rxStore_rxReadable, rxStore_rxRead, bytesAt_length, hreadable, UInt32.add_assoc,
      ← toUInt32_add, toNat_sub_add _ (by omega)]
    exact hroom

/-- A call of `tcp_recv` leaves the connection open and its slots free. -/
lemma DataKept.recv (h : DataKept idx c s) {len : UInt32} {bytes : List UInt8} {s' : Net}
    (hrecv : tcpRecv reply s idx len = some (bytes, s')) : DataKept idx c s' := by
  obtain ⟨-, hside, hother⟩ := tcpRecv_spec h.valid hrecv
  have hlen := tcpRecv_length h.valid hrecv
  have hfull := h.notFull
  refine ⟨⟨?_, ⟨?_, ?_⟩, ?_⟩, ?_, by omega⟩
  · rw [show (s'.connections idx).isValid = _ from congrArg RxSide.isValid hside, h.notClosed]
    rfl
  · exact h.ports.1.trans (congrArg RxSide.sourcePort hside).symm
  · exact h.ports.2.trans (congrArg RxSide.destPort hside).symm
  · exact h.sole.of_rest (congrArg RxSide.sourcePort hside) hother
  · exact (congrArg RxSide.isClosed hside).trans h.notClosed

end One

section Pair

variable {reply : Ip → List (Mac × Ip)} {idx : ℕ} {c : Connection} {δ : UInt32}
  {t u : (Net × List UInt8) × (Net × List UInt8)}

/-- Both connections are open, and the same bytes wait in their rings. -/
structure PairKept (idx : ℕ) (c : Connection) (t : (Net × List UInt8) × (Net × List UInt8)) :
    Prop where
  first : DataKept idx c t.1.1
  second : DataKept idx c t.2.1
  pending : rxPending (t.2.1.connections idx) = rxPending (t.1.1.connections idx)

namespace Shifted

variable {packet packet' : List UInt8} {conn conn' : Connection}

lemma flags (h : Shifted δ packet packet') :
    (readTcpHeader packet').1.flags = (readTcpHeader packet).1.flags := by
  rw [h.header]

lemma payloadLength (h : Shifted δ packet packet') (len : UInt32) :
    payloadLength (readTcpHeader packet').1 len = payloadLength (readTcpHeader packet).1 len := by
  rw [CustomLinuxOs.payloadLength, CustomLinuxOs.payloadLength, h.flags]

lemma segmentPayload (h : Shifted δ packet packet') :
    segmentPayload packet' = segmentPayload packet := by
  rw [CustomLinuxOs.segmentPayload, CustomLinuxOs.segmentPayload, payloadOf, payloadOf, h.flags,
    h.rest]

lemma payloadReached (h : Shifted δ packet packet') :
    payloadReached packet' = payloadReached packet := by
  rw [CustomLinuxOs.payloadReached, CustomLinuxOs.payloadReached, optionsComplete,
    optionsComplete, h.flags, h.rest]

/-- The next byte is as far into the one segment as into the other. -/
lemma dist (h : Shifted δ packet packet') (hR : conn'.rxReadable = conn.rxReadable + δ) :
    conn'.rxReadable - (readTcpHeader packet').1.seq
      = conn.rxReadable - (readTcpHeader packet).1.seq := by
  rw [h.header, hR]
  grind

lemma reachesNext_iff (h : Shifted δ packet packet') (len : UInt32)
    (hR : conn'.rxReadable = conn.rxReadable + δ) :
    ReachesNext packet' len conn' ↔ ReachesNext packet len conn := by
  rw [ReachesNext, ReachesNext, h.payloadReached, h.payloadLength, h.dist hR]

lemma fromPeer (h : Shifted δ packet packet') (hpeer : FromPeer c packet) :
    FromPeer c packet' := by
  obtain ⟨h1, h2, h3, h4⟩ := hpeer
  constructor <;> rw [h.header] <;> assumption

end Shifted

/-- With the counters in step, both runs store equally many bytes exactly when they take the next
one alike. -/
lemma storedLength_eq_iff (hkept : PairKept idx c t) (hin : InStep idx δ t)
    {packet packet' : List UInt8} (len : UInt32) (hshift : Shifted δ packet packet') :
    storedLength packet' len (t.2.1.connections idx)
        = storedLength packet len (t.1.1.connections idx)
      ↔ TakesAlike idx t (.segment packet packet' len) := by
  obtain ⟨-, hQ, hR⟩ := hin
  have hreach := hshift.reachesNext_iff len hR
  have hd := hkept.first.notFull
  have hd' := hkept.second.notFull
  have hfirst := eq_add_toNat_sub (t.1.1.connections idx).rxRead
    (t.1.1.connections idx).rxReadable
  have hsecond := eq_add_toNat_sub (t.2.1.connections idx).rxRead
    (t.2.1.connections idx).rxReadable
  have hsame : (t.2.1.connections idx).rxReadable - (t.2.1.connections idx).rxRead
      = (t.1.1.connections idx).rxReadable - (t.1.1.connections idx).rxRead := by
    rw [hQ, hR]
    grind
  -- what both store if they take the next byte
  set room := min (payloadLength (readTcpHeader packet).1 len
      - ((t.1.1.connections idx).rxReadable - (readTcpHeader packet).1.seq).toNat)
    (BUFFER_SIZE - 1
      - ((t.1.1.connections idx).rxReadable - (t.1.1.connections idx).rxRead).toNat) with hroom
  have hlen := storedLength_eq packet len hd hfirst
  have hlen' := storedLength_eq packet' len hd' hsecond
  rw [← hroom] at hlen
  rw [hsame, hshift.dist hR, hshift.payloadLength, ← hroom] at hlen'
  rw [hlen, hlen', TakesAlike]
  by_cases hA : ReachesNext packet len (t.1.1.connections idx)
  · have hA' := hreach.mpr hA
    have hpos : Takes packet (t.1.1.connections idx) ∨ Takes packet' (t.2.1.connections idx) →
        0 < room := by
      intro htakes
      have hspace : ((t.1.1.connections idx).rxReadable
          - (t.1.1.connections idx).rxRead).toNat + 1 < BUFFER_SIZE := by
        cases htakes with
        | inl h => exact h.lt hd hfirst
        | inr h => exact hsame ▸ h.lt hd' hsecond
      have := hA.2
      omega
    by_cases hB : Takes packet (t.1.1.connections idx)
    · by_cases hB' : Takes packet' (t.2.1.connections idx)
      · simp [hA, hA', hB, hB']
      · have := hpos (Or.inl hB)
        simp [hA, hA', hB, hB']
        omega
    · by_cases hB' : Takes packet' (t.2.1.connections idx)
      · have := hpos (Or.inr hB')
        simp [hA, hA', hB, hB']
        omega
      · simp [hA, hA', hB, hB']
  · have hA' : ¬ ReachesNext packet' len (t.2.1.connections idx) := fun h => hA (hreach.mp h)
    simp [hA, hA']

/-- **A segment** leaves the runs in step exactly when both take the next byte or neither does. -/
theorem segment_inStep_iff (hkept : PairKept idx c t) (hin : InStep idx δ t)
    {packet packet' : List UInt8} {len : UInt32}
    (he : DataPair c δ (.segment packet packet' len))
    (hu : pairStep reply idx t (.segment packet packet' len) = some u) :
    (InStep idx δ u ↔ TakesAlike idx t (.segment packet packet' len))
      ∧ (InStep idx δ u → PairKept idx c u) := by
  obtain ⟨hpeer, hfin, hshift⟩ := he
  have hfin' : (readTcpHeader packet').1.flags.fin = false := by rw [hshift.flags, hfin]
  obtain ⟨hfirst, hside⟩ := hkept.first.segment reply len hpeer hfin
  obtain ⟨hsecond, hside'⟩ :=
    hkept.second.segment reply len (hshift.fromPeer hpeer) hfin'
  have hiff := storedLength_eq_iff hkept hin len hshift
  have hroom := storedLength_room packet len hkept.first.notFull (eq_add_toNat_sub _ _)
  have hroom' := storedLength_room packet' len hkept.second.notFull (eq_add_toNat_sub _ _)
  cases hu
  set m := storedLength packet len (t.1.1.connections idx)
  set m' := storedLength packet' len (t.2.1.connections idx)
  set s₁ := tcpParsePacket reply t.1.1 packet len
  set s₂ := tcpParsePacket reply t.2.1 packet' len
  obtain ⟨hout, hQ, hR⟩ := hin
  have hread : (s₁.connections idx).rxRead = (t.1.1.connections idx).rxRead :=
    (congrArg RxSide.rxRead hside).trans (rxStore_rxRead _ _)
  have hread' : (s₂.connections idx).rxRead = (t.2.1.connections idx).rxRead :=
    (congrArg RxSide.rxRead hside').trans (rxStore_rxRead _ _)
  have hreadable : (s₁.connections idx).rxReadable
      = (t.1.1.connections idx).rxReadable + m.toUInt32 := by
    have h := (congrArg RxSide.rxReadable hside).trans (rxStore_rxReadable _ _)
    rwa [bytesAt_length] at h
  have hreadable' : (s₂.connections idx).rxReadable
      = (t.2.1.connections idx).rxReadable + m'.toUInt32 := by
    have h := (congrArg RxSide.rxReadable hside').trans (rxStore_rxReadable _ _)
    rwa [bytesAt_length] at h
  have hcount : InStep idx δ ((s₁, t.1.2), (s₂, t.2.2)) ↔ m' = m := by
    constructor
    · rintro ⟨-, -, h⟩
      rw [hreadable, hreadable', hR] at h
      have heq : m'.toUInt32 = m.toUInt32 := by grind
      have hnat := congrArg UInt32.toNat heq
      rw [toNat_toUInt32, toNat_toUInt32] at hnat
      have hsize : BUFFER_SIZE = 2048 := rfl
      omega
    · intro h
      refine ⟨hout, ?_, ?_⟩
      · rw [hread, hread', hQ]
      · rw [hreadable, hreadable', hR, h]
        grind
  refine ⟨hcount.trans hiff, fun hin' => ⟨hfirst, hsecond, ?_⟩⟩
  have hm := hcount.mp hin'
  have hstored := rxPending_store (bytesAt (segmentPayload packet) m) (t.1.1.connections idx)
    (by rw [bytesAt_length]; omega) (eq_add_toNat_sub _ _)
  have hstored' := rxPending_store (bytesAt (segmentPayload packet') m') (t.2.1.connections idx)
    (by rw [bytesAt_length]; omega) (eq_add_toNat_sub _ _)
  calc rxPending (s₂.connections idx)
      = rxPending (t.2.1.connections idx) ++ bytesAt (segmentPayload packet') m' :=
        (rxPending_congr hside').trans hstored'
    _ = rxPending (t.1.1.connections idx) ++ bytesAt (segmentPayload packet) m := by
        rw [hkept.pending, hshift.segmentPayload, hm]
    _ = rxPending (s₁.connections idx) := ((rxPending_congr hside).trans hstored).symm

/-- A call of `tcp_recv` on both returns the same bytes. -/
lemma recv_inStep (hkept : PairKept idx c t) (hin : InStep idx δ t) {len : UInt32}
    (hu : pairStep reply idx t (.recv len) = some u) :
    InStep idx δ u ∧ PairKept idx c u := by
  obtain ⟨u₁, h₁, hrest⟩ := Option.bind_eq_some_iff.mp hu
  obtain ⟨u₂, h₂, rfl⟩ := Option.map_eq_some_iff.mp hrest
  obtain ⟨⟨bytes, s₁⟩, hrecv, rfl⟩ := Option.map_eq_some_iff.mp h₁
  obtain ⟨⟨bytes', s₂⟩, hrecv', rfl⟩ := Option.map_eq_some_iff.mp h₂
  obtain ⟨hbytes, hside, -⟩ := tcpRecv_spec hkept.first.valid hrecv
  obtain ⟨hbytes', hside', -⟩ := tcpRecv_spec hkept.second.valid hrecv'
  have hsame : bytes' = bytes := by rw [hbytes, hbytes', hkept.pending]
  obtain ⟨hout, hQ, hR⟩ := hin
  refine ⟨⟨?_, ?_, ?_⟩, hkept.first.recv hrecv, hkept.second.recv hrecv', ?_⟩
  · exact congrArg₂ (· ++ ·) hout hsame
  · rw [show (s₂.connections idx).rxRead = _ from congrArg RxSide.rxRead hside',
      show (s₁.connections idx).rxRead = _ from congrArg RxSide.rxRead hside, hQ, hsame]
    grind
  · rw [show (s₂.connections idx).rxReadable = _ from congrArg RxSide.rxReadable hside',
      show (s₁.connections idx).rxReadable = _ from congrArg RxSide.rxReadable hside]
    exact hR
  · have hpend := rxPending_recv hkept.first.valid hrecv
    have hpend' := rxPending_recv hkept.second.valid hrecv'
    rw [hkept.pending, ← hpend, hsame] at hpend'
    exact List.append_cancel_left hpend'

end Pair

/-! ### Runs -/

/-- **Two initial sequence numbers.**  After SYNs with the numbers `s0` and `s0'`, let the same
data segments come to both connections, under numbers shifted by `s0' - s0`, and let the readers
make the same calls of `tcp_recv`.  In all states of the pair of runs the readers have got the
same bytes and the counters differ by `s0' - s0`, exactly when at each segment that contains
the next byte the tests of the data loop pass in both runs or fail in both. -/
theorem inStep_iff (reply : Ip → List (Mac × Ip)) {idx : ℕ} {s0 s0' : UInt32} {s s' : Net}
    {es : List PairEvent} {z : (Net × List UInt8) × (Net × List UInt8)}
    (hsyn : AfterSyn s idx s0) (hsyn' : AfterSyn s' idx s0') (hsole : SolePort s idx)
    (hsole' : SolePort s' idx) (hports : SamePorts (s.connections idx) (s'.connections idx))
    (hes : ∀ e ∈ es, DataPair (s.connections idx) (s0' - s0) e)
    (hrun : Run (pairStep reply idx) ((s, []), (s', [])) es z) :
    EveryState (pairStep reply idx) ((s, []), (s', [])) es (InStep idx (s0' - s0))
      ↔ EveryStep (pairStep reply idx) ((s, []), (s', [])) es (TakesAlike idx) := by
  have hstart : PairKept idx (s.connections idx) ((s, []), (s', [])) := by
    refine ⟨⟨⟨hsyn.valid, ⟨rfl, rfl⟩, hsole⟩, hsyn.notClosed, ?_⟩,
      ⟨⟨hsyn'.valid, hports, hsole'⟩, hsyn'.notClosed, ?_⟩, ?_⟩
    · rw [hsyn.distance]; decide
    · rw [hsyn'.distance]; decide
    · rw [hsyn.pending, hsyn'.pending]
  have hboth : ∀ t e u, DataPair (s.connections idx) (s0' - s0) e →
      PairKept idx (s.connections idx) t → InStep idx (s0' - s0) t →
      pairStep reply idx t e = some u →
      (InStep idx (s0' - s0) u ↔ TakesAlike idx t e)
        ∧ (InStep idx (s0' - s0) u → PairKept idx (s.connections idx) u) := by
    intro t e u he ht hin hu
    cases e with
    | segment packet packet' len => exact segment_inStep_iff ht hin he hu
    | recv len =>
        obtain ⟨hin', hkept'⟩ := recv_inStep ht hin hu
        exact ⟨⟨fun _ => trivial, fun _ => hin'⟩, fun _ => hkept'⟩
  refine everyState_iff_everyStep (V := DataPair (s.connections idx) (s0' - s0)) hrun hes hstart
    ⟨rfl, ?_, ?_⟩ ?_ ?_
  · rw [hsyn.read, hsyn'.read]
    grind
  · rw [hsyn.readable, hsyn'.readable]
    grind
  · exact fun t e u he ht hin hu => (hboth t e u he ht hin hu).1
  · exact fun t e u he ht hin hin' hu => (hboth t e u he ht hin hu).2 hin'

/-! ### A pair of runs that part -/

/-- One byte in order, after the SYN `0` and after a SYN a hundred numbers before the wrap. -/
def firstByte : PairEvent :=
  .segment (segmentOf 1 0x10 [7]) (segmentOf 0xFFFFFF9C 0x10 [7]) 21

lemma firstByte_dataPair :
    DataPair ((afterSynNetAt 0).connections 0) (0xFFFFFF9B - 0) firstByte :=
  ⟨by constructor <;> decide +kernel, by decide +kernel, by decide +kernel, by decide +kernel⟩

lemma firstByte_step : ∃ u, pairStep (fun _ => []) 0
    ((afterSynNetAt 0, []), (afterSynNetAt 0xFFFFFF9B, [])) firstByte = some u
      ∧ rxPending (u.1.1.connections 0) = [7] ∧ rxPending (u.2.1.connections 0) = [] := by
  have hread : (pairStep (fun _ => []) 0
      ((afterSynNetAt 0, []), (afterSynNetAt 0xFFFFFF9B, [])) firstByte).map
      (fun u => (rxPending (u.1.1.connections 0), rxPending (u.2.1.connections 0)))
      = some ([7], []) := by decide +kernel
  obtain ⟨u, hu, hfacts⟩ := Option.map_eq_some_iff.mp hread
  exact ⟨u, hu, Prod.mk.inj hfacts⟩

/-- The equivalence applies to this pair. -/
theorem inStep_iff_firstByte :
    EveryState (pairStep (fun _ => []) 0) ((afterSynNetAt 0, []), (afterSynNetAt 0xFFFFFF9B, []))
        [firstByte] (InStep 0 (0xFFFFFF9B - 0))
      ↔ EveryStep (pairStep (fun _ => []) 0)
        ((afterSynNetAt 0, []), (afterSynNetAt 0xFFFFFF9B, [])) [firstByte] (TakesAlike 0) := by
  obtain ⟨u, hu, -⟩ := firstByte_step
  refine inStep_iff _ (afterSynNetAt_afterSyn 0) (afterSynNetAt_afterSyn 0xFFFFFF9B)
    (afterSynNetAt_solePort _) (afterSynNetAt_solePort _) ⟨rfl, rfl⟩ ?_
    (run_cons_iff.mpr ⟨u, hu, Run.nil⟩)
  intro e he
  rw [List.mem_singleton.mp he]
  exact firstByte_dataPair

/-- **A stall before the wrap**: the first byte of the stream is taken after the SYN `0`, and not
after a SYN whose number is less than a ring before the wrap. -/
theorem inStep_stalled :
    AfterSyn (afterSynNetAt 0) 0 0 ∧ AfterSyn (afterSynNetAt 0xFFFFFF9B) 0 0xFFFFFF9B
      ∧ SolePort (afterSynNetAt 0) 0 ∧ SolePort (afterSynNetAt 0xFFFFFF9B) 0
      ∧ DataPair ((afterSynNetAt 0).connections 0) (0xFFFFFF9B - 0) firstByte
      ∧ ∃ u, pairStep (fun _ => []) 0
        ((afterSynNetAt 0, []), (afterSynNetAt 0xFFFFFF9B, [])) firstByte = some u
          ∧ rxPending (u.1.1.connections 0) = [7] ∧ rxPending (u.2.1.connections 0) = []
          ∧ ¬ InStep 0 (0xFFFFFF9B - 0) u := by
  obtain ⟨u, hu, h1, h2⟩ := firstByte_step
  refine ⟨afterSynNetAt_afterSyn _, afterSynNetAt_afterSyn _, afterSynNetAt_solePort _,
    afterSynNetAt_solePort _, firstByte_dataPair, u, hu, h1, h2, ?_⟩
  rintro ⟨-, hQ, hR⟩
  have hlen := congrArg List.length h1
  have hlen' := congrArg List.length h2
  rw [rxPending, ringSlice_length] at hlen hlen'
  have hsame : (u.2.1.connections 0).rxReadable - (u.2.1.connections 0).rxRead
      = (u.1.1.connections 0).rxReadable - (u.1.1.connections 0).rxRead := by
    rw [hQ, hR]
    grind
  rw [hsame, hlen] at hlen'
  cases hlen'

end CustomLinuxOs
