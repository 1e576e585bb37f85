import CustomLinuxOs.Networking.RxStep

/-!
The counters of the receive ring across the wrap of 32-bit numbers.

* `enteredBytes`, `ringStep`: segments and calls of `tcp_recv`; beside the network state a list
  of the bytes that have become readable and have not been returned.
* `RingSafe`: the counters are at most a ring apart, the window that is announced is no larger
  than the ring, and the ring still holds the bytes of the list.
* `Overruns`: the data loop reaches the next byte with the ring full, after a FIN, and
  `rx_readable` at the last 32-bit number.  There its test compares `0` with a large number.
* `ringSafe_iff`: a run is safe in all its states exactly when no segment overruns the ring;
  `ringSafe_overrun` is a run with such a segment.
-/

namespace CustomLinuxOs

/-! ### Events -/

/-- The bytes in the slots that have become readable from `s` to `s'`. -/
def enteredBytes (idx : ℕ) (s s' : Net) : List UInt8 :=
  ringSlice BUFFER_SIZE (s'.connections idx).rxBuffer ((s.connections idx).rxReadable.toNat + 1)
    ((s'.connections idx).rxReadable - (s.connections idx).rxReadable).toNat

/-- One event; the list grows by what becomes readable and shrinks by what is returned. -/
def ringStep (reply : Ip → List (Mac × Ip)) (idx : ℕ) :
    Net × List UInt8 → RxEvent → Option (Net × List UInt8)
  | t, .segment packet len =>
      let s := tcpParsePacket reply t.1 packet len
      some (s, t.2 ++ enteredBytes idx t.1 s)
  | t, .recv len => (tcpRecv reply t.1 idx len).map fun r => (r.2, t.2.drop r.1.length)

/-- The window `tcp_write` announces. -/
def rxWindow (conn : Connection) : UInt16 :=
  (BUFFER_SIZE.toUInt32 - (conn.rxReadable - conn.rxRead)).toUInt16

/-- At most `BUFFER_SIZE` bytes are readable, the window is no larger than that, and the bytes not
yet returned are in their slots. -/
def RingSafe (idx : ℕ) (t : Net × List UInt8) : Prop :=
  ((t.1.connections idx).rxReadable - (t.1.connections idx).rxRead).toNat ≤ BUFFER_SIZE
    ∧ (rxWindow (t.1.connections idx)).toNat ≤ BUFFER_SIZE
    ∧ rxPending (t.1.connections idx) = t.2

/-- The data loop gets to the next byte while the ring is full and `rx_readable` is the last
number. -/
def Overruns (idx : ℕ) (t : Net × List UInt8) : RxEvent → Prop
  | .segment packet len =>
      (t.1.connections idx).isValid = true
        ∧ ((afterFin packet (t.1.connections idx)).rxReadable
            - (t.1.connections idx).rxRead).toNat = BUFFER_SIZE
        ∧ (afterFin packet (t.1.connections idx)).rxReadable = 0xFFFFFFFF
        ∧ payloadReached packet = true
        ∧ (0xFFFFFFFF - (readTcpHeader packet).1.seq).toNat
            < payloadLength (readTcpHeader packet).1 len
  | .recv _ => False

/-- A data or FIN segment of the peer, with a header of its full length. -/
def DataOrFin (c : Connection) : RxEvent → Prop
  | .segment packet _ => FromPeer c packet ∧ 5 ≤ (readTcpHeader packet).1.flags.dataOffset
  | .recv _ => True

/-! ### What a segment brings -/

/-- A FIN moves `rx_readable` by one, once. -/
lemma afterFin_eq (packet : List UInt8) (conn : Connection) :
    ∃ f : ℕ, f ≤ 1 ∧ (afterFin packet conn).rxReadable = conn.rxReadable + f.toUInt32
      ∧ (afterFin packet conn).rxRead = conn.rxRead
      ∧ (afterFin packet conn).rxBuffer = conn.rxBuffer
      ∧ ((afterFin packet conn).isClosed = false → f = 0)
      ∧ (conn.isClosed = true → f = 0)
      ∧ (conn.isClosed = true → (afterFin packet conn).isClosed = true) := by
  rw [afterFin, countFin]
  split
  · rename_i hfin
    refine ⟨1, le_rfl, rfl, rfl, rfl, fun h => absurd h (by simp), fun h => ?_, fun _ => rfl⟩
    rw [h] at hfin
    simp at hfin
  · exact ⟨0, Nat.zero_le _, by simp, rfl, rfl, fun _ => rfl, fun _ => rfl, fun h => h⟩

/-- While everything fits into the ring, what was readable stays in its slots. -/
lemma rxPending_enter {c c₁ : Connection} {d f : ℕ} (bytes : List UInt8)
    (hR : c.rxReadable = c.rxRead + d.toUInt32)
    (hR₁ : c₁.rxReadable = c.rxReadable + f.toUInt32) (hQ₁ : c₁.rxRead = c.rxRead)
    (hB₁ : c₁.rxBuffer = c.rxBuffer) (hfit : d + f + bytes.length ≤ BUFFER_SIZE) :
    rxPending (rxStore bytes c₁) = rxPending c
      ++ ringSlice BUFFER_SIZE (rxStore bytes c₁).rxBuffer (c.rxReadable.toNat + 1)
        (f + bytes.length) := by
  have hsize : BUFFER_SIZE = 2048 := rfl
  have hd₁ : c₁.rxReadable = c₁.rxRead + (d + f).toUInt32 := by
    rw [hR₁, hR, hQ₁, UInt32.add_assoc, ← toUInt32_add]
  have hlen : ((rxStore bytes c₁).rxReadable - (rxStore bytes c₁).rxRead).toNat
      = d + (f + bytes.length) := by
    rw [rxStore_rxReadable, rxStore_rxRead, hd₁, UInt32.add_assoc, ← toUInt32_add,
      toNat_sub_add _ (by omega), Nat.add_assoc]
  have hall : rxPending (rxStore bytes c₁)
      = ringSlice BUFFER_SIZE (rxStore bytes c₁).rxBuffer (c.rxRead.toNat + 1)
          (d + (f + bytes.length)) := by
    rw [rxPending, hlen, rxStore_rxRead, hQ₁]
  have hold : ringSlice BUFFER_SIZE (rxStore bytes c₁).rxBuffer (c.rxRead.toNat + 1) d
      = rxPending c := by
    have hpend₁ : rxPending c₁ = ringSlice BUFFER_SIZE c.rxBuffer (c.rxRead.toNat + 1) (d + f) := by
      rw [rxPending, hd₁, toNat_sub_add _ (by omega), hQ₁, hB₁]
    have htake := congrArg (List.take d) (rxPending_store bytes c₁ hfit hd₁)
    rw [hall, ringSlice_add, List.take_left' (ringSlice_length _ _ _ _), hpend₁, ringSlice_add,
      List.append_assoc, List.take_left' (ringSlice_length _ _ _ _)] at htake
    rw [htake, rxPending, hR, toNat_sub_add _ (by omega)]
  rw [hall, ringSlice_add, hold]
  congr 1
  refine ringSlice_congr _ _ ?_
  rw [hR, Nat.ModEq, UInt32.toNat_add, toNat_toUInt32, BUFFER_SIZE]
  omega

/-- The window is what the readable bytes leave of the ring. -/
lemma rxWindow_le {conn : Connection}
    (h : (conn.rxReadable - conn.rxRead).toNat ≤ BUFFER_SIZE) :
    (rxWindow conn).toNat ≤ BUFFER_SIZE := by
  have hle : conn.rxReadable - conn.rxRead ≤ BUFFER_SIZE.toUInt32 := by
    rw [UInt32.le_iff_toNat_le, toNat_bufferSize]
    exact h
  rw [rxWindow, UInt32.toNat_toUInt16, UInt32.toNat_sub_of_le _ _ hle, toNat_bufferSize]
  exact (Nat.mod_le _ _).trans (Nat.sub_le _ _)

/-! ### One step -/

/-- The connection keeps its ports, has its own, and a slot stays free until it is closed. -/
structure RingKept (idx : ℕ) (c : Connection) (s : Net) : Prop where
  ports : SamePorts c (s.connections idx)
  sole : SolePort s idx
  notFull : (s.connections idx).isClosed = false →
    ((s.connections idx).rxReadable - (s.connections idx).rxRead).toNat < BUFFER_SIZE

section Steps

variable {reply : Ip → List (Mac × Ip)} {idx : ℕ} {c : Connection} {t u : Net × List UInt8}

/-- What a segment to a valid connection does, in numbers: `d` bytes are readable before, a FIN
counts for `f`, and `m` are stored. -/
structure Entering (idx : ℕ) (s s' : Net) (packet : List UInt8) (len : UInt32) (d f m : ℕ) :
    Prop where
  before : (s.connections idx).rxReadable = (s.connections idx).rxRead + d.toUInt32
  fin : (afterFin packet (s.connections idx)).rxReadable
    = (s.connections idx).rxRead + (d + f).toUInt32
  after : (s'.connections idx).rxReadable = (s.connections idx).rxRead + (d + f + m).toUInt32
  read : (s'.connections idx).rxRead = (s.connections idx).rxRead
  finOne : f ≤ 1
  stored : m = storedLength packet len (afterFin packet (s.connections idx))
  finRead : (afterFin packet (s.connections idx)).rxRead = (s.connections idx).rxRead
  pending : d + f + m ≤ BUFFER_SIZE → rxPending (s'.connections idx)
    = rxPending (s.connections idx) ++ enteredBytes idx s s'
  fits : d + f ≤ BUFFER_SIZE
  stillOpen : (s'.connections idx).isClosed = false → d + f < BUFFER_SIZE

variable (reply) in
lemma parse_entering (hkept : RingKept idx c t.1)
    (hvalid : (t.1.connections idx).isValid = true) {packet : List UInt8} {len : UInt32}
    (he : DataOrFin c (.segment packet len)) (hsafe : RingSafe idx t) :
    ∃ d f m, Entering idx t.1 (tcpParsePacket reply t.1 packet len) packet len d f m := by
  have hsize : BUFFER_SIZE = 2048 := rfl
  obtain ⟨-, hstores, -⟩ :=
    parse_rxSide reply hkept.sole hvalid (he.1.congr hkept.ports) len
  have hnotFull := hkept.notFull
  set conn := t.1.connections idx with hconn
  set c₁ := afterFin packet conn with hc₁
  set m := storedLength packet len c₁ with hm
  set conn' := (tcpParsePacket reply t.1 packet len).connections idx with hconn'
  obtain ⟨f, hf, hR₁, hQ₁, hB₁, hopen, hclosed, hstay⟩ := afterFin_eq packet conn
  rw [← hc₁] at hR₁ hQ₁ hB₁ hopen hstay
  set d := (conn.rxReadable - conn.rxRead).toNat with hd
  have hdle : d ≤ BUFFER_SIZE := hsafe.1
  have hR : conn.rxReadable = conn.rxRead + d.toUInt32 := eq_add_toNat_sub _ _
  have hfin : c₁.rxReadable = conn.rxRead + (d + f).toUInt32 := by
    rw [hR₁, hR, UInt32.add_assoc, ← toUInt32_add]
  have hread : conn'.rxRead = conn.rxRead := by
    rw [show conn'.rxRead = _ from congrArg RxSide.rxRead hstores]
    exact (rxStore_rxRead _ _).trans hQ₁
  have hafter : conn'.rxReadable = conn.rxRead + (d + f + m).toUInt32 := by
    rw [show conn'.rxReadable = _ from congrArg RxSide.rxReadable hstores]
    change (rxStore _ c₁).rxReadable = _
    rw [rxStore_rxReadable, bytesAt_length, hfin, UInt32.add_assoc, ← toUInt32_add]
  have hclosed' : conn'.isClosed = c₁.isClosed :=
    (congrArg RxSide.isClosed hstores).trans (rxStore_rest _ _).2.1
  have hfits : d + f ≤ BUFFER_SIZE := by
    cases hcl : conn.isClosed with
    | true => rw [hclosed hcl]; exact hdle
    | false =>
        have := hnotFull hcl
        omega
  refine ⟨d, f, m, hR, hfin, hafter, hread, hf, hm, hQ₁, fun hle => ?_, hfits, fun hop => ?_⟩
  · have hcount : (conn'.rxReadable - conn.rxReadable).toNat = f + m := by
      rw [hafter, hR, Nat.add_assoc, toUInt32_add d, ← UInt32.add_assoc,
        toNat_sub_add _ (by omega)]
    have hbuffer : conn'.rxBuffer
        = (rxStore (bytesAt (segmentPayload packet) m) c₁).rxBuffer :=
      congrArg RxSide.rxBuffer hstores
    rw [enteredBytes, ← hconn', ← hconn, hcount, hbuffer, rxPending_congr hstores,
      rxPending_enter _ hR hR₁ hQ₁ hB₁ (by rw [bytesAt_length]; exact hle), bytesAt_length]
  · rw [hclosed'] at hop
    have hcl : conn.isClosed = false := by
      cases hcl : conn.isClosed with
      | true => rw [hstay hcl] at hop; cases hop
      | false => rfl
    have := hnotFull hcl
    have := hopen hop
    omega

/-- **A segment** keeps the ring safe exactly when it does not overrun it. -/
theorem segment_safe_iff (hkept : RingKept idx c t.1)
    (hvalid : (t.1.connections idx).isValid = true) {packet : List UInt8} {len : UInt32}
    (he : DataOrFin c (.segment packet len)) (hsafe : RingSafe idx t)
    (hu : ringStep reply idx t (.segment packet len) = some u) :
    RingSafe idx u ↔ ¬ Overruns idx t (.segment packet len) := by
  have hsize : BUFFER_SIZE = 2048 := rfl
  obtain ⟨d, f, m, h⟩ := parse_entering reply hkept hvalid he hsafe
  cases hu
  have hcount : ∀ {k : ℕ}, k < 2 ^ 32 →
      ((t.1.connections idx).rxRead + k.toUInt32 - (t.1.connections idx).rxRead).toNat = k :=
    fun hk => toNat_sub_add _ hk
  have hover : Overruns idx t (.segment packet len) ↔ d + f = BUFFER_SIZE ∧ 0 < m := by
    have hfits := h.fits
    rw [Overruns, h.fin, hcount (by omega), h.stored]
    constructor
    · rintro ⟨-, hfull, hrest⟩
      refine ⟨hfull, (storedLength_full packet len ?_).mpr ?_⟩
      · rw [h.fin, h.finRead, hfull]
      · rw [h.fin]; exact hrest
    · rintro ⟨hfull, hm⟩
      have := (storedLength_full packet len (by rw [h.fin, h.finRead, hfull])).mp hm
      rw [h.fin] at this
      exact ⟨hvalid, hfull, this⟩
  have hstay : d + f + m ≤ BUFFER_SIZE →
      RingSafe idx (tcpParsePacket reply t.1 packet len,
        t.2 ++ enteredBytes idx t.1 (tcpParsePacket reply t.1 packet len)) := by
    intro hle
    have hd' : (((tcpParsePacket reply t.1 packet len).connections idx).rxReadable
        - ((tcpParsePacket reply t.1 packet len).connections idx).rxRead).toNat
          ≤ BUFFER_SIZE := by
      rw [h.after, h.read, hcount (by omega)]
      exact hle
    exact ⟨hd', rxWindow_le hd', (h.pending hle).trans (by rw [hsafe.2.2])⟩
  have hfits := h.fits
  rw [hover]
  rcases Nat.lt_or_ge (d + f) BUFFER_SIZE with hroom | hfull
  · have hm : d + f + m < BUFFER_SIZE := by
      rw [h.stored]
      exact storedLength_room packet len hroom (by rw [h.fin, h.finRead])
    exact ⟨fun _ hbad => by omega, fun _ => hstay (by omega)⟩
  · rcases Nat.eq_zero_or_pos m with hm | hm
    · exact ⟨fun _ hbad => by omega, fun _ => hstay (by omega)⟩
    · refine ⟨fun hbad => ?_, fun hn => absurd ⟨by omega, hm⟩ hn⟩
      exfalso
      have hone := h.finOne
      have hlarge : m + 20 < 2 ^ 32 := by
        have := storedLength_le packet len (afterFin packet (t.1.connections idx))
        have := payloadLength_lt len he.2
        have := h.stored
        omega
      -- the counters are less than a ring apart again, but the list has grown by all `m` bytes
      obtain ⟨hd', -, hlog⟩ := hbad
      have hlen := congrArg List.length hlog
      simp only [rxPending, enteredBytes, ringSlice_length, List.length_append] at hlen hd'
      have hold : t.2.length = d := by
        rw [← hsafe.2.2, rxPending, ringSlice_length, h.before, hcount (by omega)]
      have hnew : (((tcpParsePacket reply t.1 packet len).connections idx).rxReadable
          - ((tcpParsePacket reply t.1 packet len).connections idx).rxRead).toNat
            = (d + f + m) % 2 ^ 32 := by
        rw [h.after, h.read, UInt32.add_comm, UInt32.add_sub_cancel, toNat_toUInt32]
      have hgrown : (((tcpParsePacket reply t.1 packet len).connections idx).rxReadable
          - (t.1.connections idx).rxReadable).toNat = f + m := by
        rw [h.after, h.before, Nat.add_assoc, toUInt32_add d, ← UInt32.add_assoc,
          toNat_sub_add _ (by omega)]
      rw [hnew] at hd'
      rw [hnew, hold, hgrown] at hlen
      omega

/-- A call of `tcp_recv` takes the oldest bytes off the ring and off the list. -/
lemma recv_safe {len : UInt32} (hkept : RingKept idx c t.1) (hsafe : RingSafe idx t)
    (hu : ringStep reply idx t (.recv len) = some u) :
    RingSafe idx u ∧ RingKept idx c u.1 := by
  obtain ⟨⟨bytes, s'⟩, hrecv, rfl⟩ := Option.map_eq_some_iff.mp hu
  cases hvalid : (t.1.connections idx).isValid with
  | false =>
      simp only [tcpRecv, hvalid, Bool.not_false, if_true, Option.some.injEq,
        Prod.mk.injEq] at hrecv
      obtain ⟨rfl, rfl⟩ := hrecv
      exact ⟨hsafe, hkept⟩
  | true =>
      have hpend := rxPending_recv hvalid hrecv
      obtain ⟨-, hside, hother⟩ := tcpRecv_spec hvalid hrecv
      have hlen := tcpRecv_length hvalid hrecv
      have hle : ((s'.connections idx).rxReadable - (s'.connections idx).rxRead).toNat
          ≤ BUFFER_SIZE := by
        have := hsafe.1
        omega
      refine ⟨⟨hle, rxWindow_le hle, ?_⟩, ⟨?_, ?_, fun hopen => ?_⟩⟩
      · change rxPending (s'.connections idx) = t.2.drop bytes.length
        rw [← hsafe.2.2, ← hpend, List.drop_left]
      · exact ⟨hkept.ports.1.trans (congrArg RxSide.sourcePort hside).symm,
          hkept.ports.2.trans (congrArg RxSide.destPort hside).symm⟩
      · exact hkept.sole.of_rest (congrArg RxSide.sourcePort hside) hother
      · have := hkept.notFull ((congrArg RxSide.isClosed hside).symm.trans hopen)
        change ((s'.connections idx).rxReadable - (s'.connections idx).rxRead).toNat < _
        omega

/-- A segment that keeps the ring safe keeps the rest, and so does a call of `tcp_recv`. -/
lemma ringStep_kept {e : RxEvent} (hkept : RingKept idx c t.1) (he : DataOrFin c e)
    (hsafe : RingSafe idx t) (hu : ringStep reply idx t e = some u) (hsafe' : RingSafe idx u) :
    RingKept idx c u.1 := by
  cases e with
  | segment packet len =>
      cases hvalid : (t.1.connections idx).isValid with
      | false =>
          have hsame := hkept.sole.ignored hvalid (he.1.congr hkept.ports) reply len
          cases hu
          simp only [hsame]
          exact hkept
      | true =>
          obtain ⟨d, f, m, h⟩ := parse_entering reply hkept hvalid he hsafe
          obtain ⟨-, hports, hsole⟩ :=
            parse_rest reply hkept.sole hvalid (he.1.congr hkept.ports) len
          cases hu
          refine ⟨hkept.ports.trans hports.symm, hsole, fun hopen => ?_⟩
          have hroom := h.stillOpen hopen
          have hm := storedLength_room packet len hroom (by rw [h.fin, h.finRead])
          have hsize : BUFFER_SIZE = 2048 := rfl
          rw [h.after, h.read, toNat_sub_add _ (by rw [h.stored]; omega), h.stored]
          exact hm
  | recv len => exact (recv_safe hkept hsafe hu).2

/-- **One step** keeps the ring safe exactly when it does not overrun it. -/
theorem ringStep_safe_iff {e : RxEvent} (hkept : RingKept idx c t.1) (he : DataOrFin c e)
    (hsafe : RingSafe idx t) (hu : ringStep reply idx t e = some u) :
    RingSafe idx u ↔ ¬ Overruns idx t e := by
  cases e with
  | segment packet len =>
      cases hvalid : (t.1.connections idx).isValid with
      | false =>
          have hsame := hkept.sole.ignored hvalid (he.1.congr hkept.ports) reply len
          cases hu
          have hstay : RingSafe idx (tcpParsePacket reply t.1 packet len,
              t.2 ++ enteredBytes idx t.1 (tcpParsePacket reply t.1 packet len)) := by
            simpa [hsame, enteredBytes] using hsafe
          refine ⟨fun _ hover => ?_, fun _ => hstay⟩
          exact Bool.false_ne_true (hvalid.symm.trans hover.1)
      | true => exact segment_safe_iff hkept hvalid he hsafe hu
  | recv len => exact ⟨fun _ hover => hover, fun _ => (recv_safe hkept hsafe hu).1⟩

end Steps

/-! ### Runs -/

/-- A ring that the peer's SYN has emptied. -/
lemma AfterSyn.ringKept {s : Net} {idx : ℕ} {s0 : UInt32} (hsyn : AfterSyn s idx s0)
    (hsole : SolePort s idx) : RingKept idx (s.connections idx) s ∧ RingSafe idx (s, []) := by
  have hzero := hsyn.distance
  have hle : ((s.connections idx).rxReadable - (s.connections idx).rxRead).toNat
      ≤ BUFFER_SIZE := by
    rw [hzero]
    exact Nat.zero_le _
  refine ⟨⟨⟨rfl, rfl⟩, hsole, fun _ => ?_⟩, hle, rxWindow_le hle, hsyn.pending⟩
  rw [hzero]
  decide

/-- **The receive ring of a TCP connection.**  After the peer's SYN, with any sequence number, let
data and FIN segments with any numbers and lengths come, and let the reader call `tcp_recv`.  In
all states of the run at most `BUFFER_SIZE` bytes are readable, the announced window is no larger
than the ring, and every byte not yet returned is still in its slot, exactly when no segment
brings the next byte while the ring is full after a FIN and `rx_readable` is the last 32-bit
number. -/
theorem ringSafe_iff (reply : Ip → List (Mac × Ip)) {idx : ℕ} {s0 : UInt32} {s : Net}
    {es : List RxEvent} {z : Net × List UInt8} (hsyn : AfterSyn s idx s0)
    (hsole : SolePort s idx) (hes : ∀ e ∈ es, DataOrFin (s.connections idx) e)
    (hrun : Run (ringStep reply idx) (s, []) es z) :
    EveryState (ringStep reply idx) (s, []) es (RingSafe idx)
      ↔ EveryStep (ringStep reply idx) (s, []) es fun t e => ¬ Overruns idx t e := by
  obtain ⟨hkept, hsafe⟩ := hsyn.ringKept hsole
  refine everyState_iff_everyStep (V := DataOrFin (s.connections idx))
    (I := fun t => RingKept idx (s.connections idx) t.1) hrun hes hkept hsafe ?_ ?_
  · intro t e u he hkept hsafe hu
    exact ringStep_safe_iff hkept he hsafe hu
  · intro t e u he hkept hsafe hsafe' hu
    exact ringStep_kept hkept he hsafe hu hsafe'

/-! ### A run that overruns the ring -/

/-- A segment with `7` and 2046 zeros fills the ring but one slot, and a FIN takes that. -/
def fillEvents : List RxEvent :=
  [.segment (segmentOf 0xFFFFF7FF 0x10 [7]) 2067, .segment (segmentOf 0xFFFFFFFE 0x11 []) 20]

/-- One more byte under the last number. -/
def overrunEvent : RxEvent := .segment (segmentOf 0xFFFFFFFF 0x10 [1]) 21

lemma fillEvents_dataOrFin : ∀ e ∈ fillEvents ++ [overrunEvent],
    DataOrFin ((afterSynNetAt 0xFFFFF7FE).connections 0) e := by
  intro e he
  simp only [fillEvents, overrunEvent, List.mem_append, List.mem_cons, List.not_mem_nil,
    or_false] at he
  rcases he with (rfl | rfl) | rfl
  · exact ⟨by constructor <;> decide +kernel, by decide +kernel⟩
  · exact ⟨by constructor <;> decide +kernel, by decide +kernel⟩
  · exact ⟨by constructor <;> decide +kernel, by decide +kernel⟩

/-- The byte in the slot of the oldest one not yet returned. -/
def oldestByte (t : Net × List UInt8) : UInt8 :=
  (t.1.connections 0).rxBuffer (((t.1.connections 0).rxRead + 1).toNat % BUFFER_SIZE)

lemma fillEvents_run : ∃ t u, Run (ringStep (fun _ => []) 0) (afterSynNetAt 0xFFFFF7FE, [])
    fillEvents t ∧ ringStep (fun _ => []) 0 t overrunEvent = some u
      ∧ oldestByte t = 7 ∧ oldestByte u = 1
      ∧ (rxWindow (t.1.connections 0)).toNat = 0
      ∧ (rxWindow (u.1.connections 0)).toNat = 65535 := by
  have hread : (fillEvents.foldlM (ringStep (fun _ => []) 0) (afterSynNetAt 0xFFFFF7FE, [])).bind
      (fun t => (ringStep (fun _ => []) 0 t overrunEvent).map fun u =>
        (oldestByte t, oldestByte u, (rxWindow (t.1.connections 0)).toNat,
          (rxWindow (u.1.connections 0)).toNat)) = some (7, 1, 0, 65535) := by
    decide +kernel
  obtain ⟨t, u, ht, hu, hfacts⟩ := exists_run_step_of_bind hread
  simp only [Prod.mk.injEq] at hfacts
  exact ⟨t, u, ht, hu, hfacts⟩

/-- The equivalence applies to the run. -/
theorem ringSafe_iff_filled :
    EveryState (ringStep (fun _ => []) 0) (afterSynNetAt 0xFFFFF7FE, [])
        (fillEvents ++ [overrunEvent]) (RingSafe 0)
      ↔ EveryStep (ringStep (fun _ => []) 0) (afterSynNetAt 0xFFFFF7FE, [])
        (fillEvents ++ [overrunEvent]) fun t e => ¬ Overruns 0 t e := by
  obtain ⟨t, u, hrun, hu, -⟩ := fillEvents_run
  exact ringSafe_iff _ (afterSynNetAt_afterSyn _) (afterSynNetAt_solePort _)
    fillEvents_dataOrFin (hrun.snoc hu)

/-- **An overrun**: with 2047 bytes and a FIN in the ring and `rx_readable` at the last number,
one more byte goes over the oldest one, and a window of 65535 is announced. -/
theorem ringSafe_overrun :
    AfterSyn (afterSynNetAt 0xFFFFF7FE) 0 0xFFFFF7FE ∧ SolePort (afterSynNetAt 0xFFFFF7FE) 0
      ∧ (∀ e ∈ fillEvents ++ [overrunEvent],
        DataOrFin ((afterSynNetAt 0xFFFFF7FE).connections 0) e)
      ∧ ∃ t u, Run (ringStep (fun _ => []) 0) (afterSynNetAt 0xFFFFF7FE, []) fillEvents t
        ∧ ringStep (fun _ => []) 0 t overrunEvent = some u
        ∧ oldestByte t = 7 ∧ oldestByte u = 1
        ∧ (rxWindow (t.1.connections 0)).toNat = 0
        ∧ (rxWindow (u.1.connections 0)).toNat = 65535 :=
  ⟨afterSynNetAt_afterSyn _, afterSynNetAt_solePort _, fillEvents_dataOrFin, fillEvents_run⟩

end CustomLinuxOs
