import CustomLinuxOs.Networking.RxStep

/-!
What a reader gets of a stream `D` that is sent in order and ended by a FIN.

`tcp_parse_packet` handles the FIN before the data of its segment, by one more `rx_readable`.
The FIN so takes a place in the ring: the reader gets whatever byte lies there, and the data
of the FIN's own segment starts one place too late.

* `InOrder`: the segments of `D` one after the other, with calls of `tcp_recv` in between.
* `FinFits`: the condition on the FIN under which nothing of this shows.
* `finStored`: how many bytes of the FIN's segment are stored.
* `Sent`, `Draining`: the invariants before and after the FIN.
* `tcpEndOfStream_returns`: what has been returned when the connection closes is `D` exactly
  under that condition.
* `tcpEndOfStream_extra`: a FIN on its own after a stream that is all received gives one
  byte too many.
-/

namespace CustomLinuxOs

/-! ### Events -/

/-- The events of a peer that has sent the bytes of `D` before position `a`, in order and without
overlaps, and of a reader who calls `tcp_recv` in between. -/
inductive InOrder (conn : Connection) (s0 : UInt32) (D : List UInt8) : List RxEvent → ℕ → Prop
  | nil : InOrder conn s0 D [] 0
  | data {es : List RxEvent} {a b : ℕ} {packet : List UInt8} {len : UInt32} :
      InOrder conn s0 D es a → a < b → Carries conn s0 D a b false packet len →
      InOrder conn s0 D (es ++ [.segment packet len]) b
  | recv {es : List RxEvent} {a : ℕ} (len : UInt32) :
      InOrder conn s0 D es a → InOrder conn s0 D (es ++ [.recv len]) a

/-- How many bytes the data loop stores from a FIN segment with the bytes from `a` on, when `r`
bytes of `n` are received: none if it starts elsewhere than at the next byte or the one
after, none either if the FIN has wrapped the counter. -/
def finStored (conn : Connection) (a r n : ℕ) (packet : List UInt8) : ℕ :=
  if payloadReached packet = true ∧ (a = r + 1 ∨ a = r ∧ conn.rxReadable + 1 ≠ 0) then
    rxRoom conn.rxRead (conn.rxReadable + 1) (n - (r + 1))
  else 0

/-- The condition on the state `t` and a FIN segment with the bytes of `D` from `a` on.  At
least one byte is not received yet; the place the FIN takes in the ring holds that byte
already; the rest of `D` is stored behind it, and is what the segment begins with. -/
structure FinFits (idx : ℕ) (D : List UInt8) (a : ℕ) (t : Net × List UInt8)
    (packet : List UInt8) : Prop where
  missing : (delivered idx t).length < D.length
  next : a ≤ (delivered idx t).length + 1
  stored : finStored (t.1.connections idx) a (delivered idx t).length D.length packet
    = D.length - ((delivered idx t).length + 1)
  ring : (rxPending (t.1.connections idx)).length + 1
    + (D.length - ((delivered idx t).length + 1)) ≤ BUFFER_SIZE
  stale : D[(delivered idx t).length]? = some ((t.1.connections idx).rxBuffer
    (((t.1.connections idx).rxReadable + 1).toNat % BUFFER_SIZE))
  shifted : ∀ i < D.length - ((delivered idx t).length + 1),
    D[a + i]? = D[(delivered idx t).length + 1 + i]?

/-- The ring is full and the end of its room is the largest sequence number, so that with the FIN
the room test of the data loop passes although there is no room. -/
def AtRingEdge (conn : Connection) : Prop :=
  (rxPending conn).length + 1 = BUFFER_SIZE ∧ conn.rxReadable + 2 = 0

/-! ### Up to the FIN -/

/-- What holds before the FIN, with the bytes before position `a` sent: as long as no more
than one of these is missing, the bytes received are the first ones of `D`. -/
structure Sent (idx : ℕ) (ports : UInt16 × UInt16) (s0 : UInt32) (D : List UInt8) (a : ℕ)
    (t : Net × List UInt8) : Prop extends RxOpen idx ports t.1 where
  rxAt : RxAt (s0 + 1) (t.1.connections idx) t.2.length (delivered idx t).length
  le : (delivered idx t).length ≤ a
  bound : a ≤ D.length
  take : a ≤ (delivered idx t).length + 1 →
    delivered idx t = D.take (delivered idx t).length

section Steps

variable {reply : Ip → List (Mac × Ip)} {idx : ℕ} {ports : UInt16 × UInt16} {s0 : UInt32}
  {D : List UInt8} {a b : ℕ} {packet : List UInt8} {len : UInt32} {t u : Net × List UInt8}

/-- A data segment in order keeps the invariant. -/
lemma Sent.data (hI : Sent idx ports s0 D a t) (hab : a < b)
    (hseg : Carries (t.1.connections idx) s0 D a b false packet len)
    (hu : rxStep reply idx t (.segment packet len) = some u) : Sent idx ports s0 D b u := by
  obtain rfl : (tcpParsePacket reply t.1 packet len, t.2) = u := Option.some.inj hu
  obtain ⟨hside, hother⟩ := segment_rxSide reply hI.toRxOpen hseg
  rw [countFin, if_neg Bool.false_ne_true] at hside
  set conn := t.1.connections idx with hconn
  set r := (delivered idx t).length with hr
  set m := storedLength packet len conn with hm
  have hra : r ≤ a := hI.le
  have hbound := hseg.bound
  have hmle : m ≤ b - a := hseg.payloadLength ▸ storedLength_le packet len conn
  have hroom : r - t.2.length + (bytesAt (segmentPayload packet) m).length < BUFFER_SIZE := by
    rw [bytesAt_length]
    exact storedLength_room packet len hI.rxAt.lt hI.rxAt.readable_eq
  obtain ⟨hat, hpend⟩ := hI.rxAt.store hroom
  rw [bytesAt_length] at hat
  -- with a gap of one byte before the segment nothing of it is stored
  have hstart : b ≤ r + m + 1 → a = r := by
    intro hb
    by_contra hne
    have hpos : 0 < storedLength packet len conn := by omega
    have hdist := storedLength_add_le packet len hpos
    have hgap : conn.rxReadable - (readTcpHeader packet).1.seq = 0xFFFFFFFF := by
      rw [hseg.seq, hI.rxAt.readable, show a = r + 1 by omega, toUInt32_succ]
      grind
    have hlength := hseg.length_lt
    rw [hseg.payloadLength, hgap, show (0xFFFFFFFF : UInt32).toNat = 2 ^ 32 - 1 from rfl] at hdist
    omega
  have hdel : delivered idx (tcpParsePacket reply t.1 packet len, t.2)
      = delivered idx t ++ (D.drop a).take m := by
    rw [delivered, rxPending_congr hside, hpend, hseg.bytesAt_payload hmle, ← List.append_assoc]
    rfl
  have hlen : (delivered idx (tcpParsePacket reply t.1 packet len, t.2)).length = r + m := by
    rw [hdel, List.length_append, List.length_take, List.length_drop]
    omega
  refine ⟨hI.toRxOpen.of_stored hside hother, hlen ▸ hat.congr hside.symm, by omega, hbound,
    fun hb => ?_⟩
  rw [hlen] at hb ⊢
  have har : a = r := hstart hb
  rw [hdel, hI.take (by omega), ← hr, har, List.take_add]

/-- A call of `tcp_recv` keeps the invariant. -/
lemma Sent.recv (hI : Sent idx ports s0 D a t)
    (hu : rxStep reply idx t (.recv len) = some u) : Sent idx ports s0 D a u := by
  obtain ⟨hopen, hat⟩ := recv_open hI.toRxOpen hI.rxAt hu
  have hdel := (recv_delivered hI.valid hu).1
  exact ⟨hopen, by rw [hdel]; exact hat, by rw [hdel]; exact hI.le, hI.bound,
    by rw [hdel]; exact hI.take⟩

/-- **The invariant along a run in order.** -/
lemma Sent.of_run {s : Net} {es : List RxEvent} (hsyn : AfterSyn s idx s0)
    (hes : InOrder (s.connections idx) s0 D es a) (hrun : Run (rxStep reply idx) (s, []) es t) :
    Sent idx ((s.connections idx).sourcePort, (s.connections idx).destPort) s0 D a t := by
  induction hes generalizing t with
  | nil =>
      obtain rfl := run_nil_iff.mp hrun
      have hnil : delivered idx (s, []) = [] := hsyn.pending
      refine ⟨hsyn.rxOpen, ?_, ?_, Nat.zero_le _, fun _ => ?_⟩
      · rw [hnil]; exact hsyn.rxAt
      · rw [hnil]; exact le_rfl
      · rw [hnil]; rfl
  | @data es a b packet len _ hab hseg ih =>
      obtain ⟨v, hv, hstep⟩ := run_snoc_iff.mp hrun
      have hI := ih hv
      exact hI.data hab (hseg.congr ⟨hI.sourcePort.symm, hI.destPort.symm⟩) hstep
  | recv len _ ih =>
      obtain ⟨v, hv, hstep⟩ := run_snoc_iff.mp hrun
      exact (ih hv).recv hstep

/-! ### The FIN -/

/-- From the next byte or the one after, the FIN is one ahead or none.  Where the FIN wraps the
counter, the next byte lies beyond it. -/
lemma finSeq {conn : Connection} {base : UInt32} {r : ℕ}
    (hR : conn.rxReadable = base + r.toUInt32) (hra : r ≤ a) (har : a ≤ r + 1) :
    (conn.rxReadable + 1 - (base + a.toUInt32)).toNat = r + 1 - a
      ∧ (base + a.toUInt32 ≤ conn.rxReadable + 1
        ↔ a = r + 1 ∨ a = r ∧ conn.rxReadable + 1 ≠ 0) := by
  rcases Nat.eq_or_lt_of_le har with rfl | har
  · rw [toUInt32_succ, ← UInt32.add_assoc, ← hR, UInt32.sub_self, Nat.sub_self]
    exact ⟨rfl, iff_of_true (UInt32.le_refl _) (Or.inl rfl)⟩
  · obtain rfl : a = r := by omega
    rw [← hR, UInt32.add_comm, UInt32.add_sub_cancel, Nat.add_sub_cancel_left]
    refine ⟨rfl, ?_⟩
    have hlt := conn.rxReadable.toNat_lt
    rw [UInt32.le_iff_toNat_le, Ne, ← UInt32.toNat_inj, UInt32.toNat_add, UInt32.toNat_one,
      UInt32.toNat_zero]
    omega

/-- The data loop of the FIN segment, whose FIN is already counted. -/
lemma storedLength_fin (hI : Sent idx ports s0 D a t)
    (hseg : Carries (t.1.connections idx) s0 D a b true packet len)
    (har : a ≤ (delivered idx t).length + 1) :
    storedLength packet len (countFin true (t.1.connections idx))
      = finStored (t.1.connections idx) a (delivered idx t).length b packet := by
  set conn := t.1.connections idx with hconn
  set r := (delivered idx t).length with hr
  have hra : r ≤ a := hI.le
  have hR : conn.rxReadable = s0 + 1 + r.toUInt32 := hI.rxAt.readable
  obtain ⟨hdist, hbefore⟩ := finSeq hR hra har
  have hread : (countFin true conn).rxRead = conn.rxRead := rfl
  have hreadable : (countFin true conn).rxReadable = conn.rxReadable + 1 := rfl
  simp only [storedLength, hseg.payloadLength, hseg.seq, hread, hreadable, hdist, hbefore,
    finStored]
  rw [show b - a - (r + 1 - a) = b - (r + 1) by omega]
  by_cases hin : r + 1 - a < b - a
  · simp only [hin, and_true]
  · rw [if_neg fun h => hin h.2.2, show b - (r + 1) = 0 by omega, rxRoom, ite_self]

/-- Away from the edge, what is stored behind the FIN fits into the ring. -/
lemma finRoom_le {conn : Connection} {base : UInt32} {q r : ℕ} (hat : RxAt base conn q r)
    (hedge : ¬ AtRingEdge conn) (packet : List UInt8) (len : UInt32) :
    (rxPending conn).length + 1 + storedLength packet len (countFin true conn) ≤ BUFFER_SIZE := by
  have hlt := hat.lt
  have hlen := hat.pending_length
  have hR : (countFin true conn).rxReadable
      = (countFin true conn).rxRead + (r - q + 1).toUInt32 := by
    rw [toUInt32_succ, ← UInt32.add_assoc]
    exact congrArg (· + 1) hat.readable_eq
  rcases Nat.lt_or_ge (r - q + 1) BUFFER_SIZE with hroom | hfull
  · have := storedLength_room packet len hroom hR
    omega
  · have hd : r - q + 1 = BUFFER_SIZE := by omega
    rw [hd] at hR
    rcases Nat.eq_zero_or_pos (storedLength packet len (countFin true conn)) with h0 | hpos
    · omega
    · obtain ⟨hlast, -⟩ := (storedLength_full packet len hR).mp hpos
      change conn.rxReadable + 1 = 0xFFFFFFFF at hlast
      exact absurd ⟨by rw [hlen]; exact hd, by grind⟩ hedge

/-- The byte that lies where the FIN takes its place in the ring. -/
def staleByte (conn : Connection) : UInt8 :=
  conn.rxBuffer ((conn.rxReadable + 1).toNat % BUFFER_SIZE)

/-- **The FIN segment**: behind what is delivered come the stale byte and a front part of
the segment's data, as long as the ring is not overrun. -/
lemma Sent.fin (hI : Sent idx ports s0 D a t)
    (hseg : Carries (t.1.connections idx) s0 D a D.length true packet len)
    (hu : rxStep reply idx t (.segment packet len) = some u) :
    let conn := t.1.connections idx
    let r := (delivered idx t).length
    (u.1.connections idx).isValid = true ∧ (u.1.connections idx).isClosed = true
      ∧ ∃ m ≤ D.length - a, (a ≤ r + 1 → m = finStored conn a r D.length packet)
        ∧ (¬ AtRingEdge conn → (rxPending conn).length + 1 + m ≤ BUFFER_SIZE)
        ∧ ((rxPending conn).length + 1 + m ≤ BUFFER_SIZE →
          delivered idx u = delivered idx t ++ [staleByte conn] ++ (D.drop a).take m) := by
  intro conn r
  obtain rfl : (tcpParsePacket reply t.1 packet len, t.2) = u := Option.some.inj hu
  obtain ⟨hside, -⟩ := segment_rxSide reply hI.toRxOpen hseg
  set m := storedLength packet len (countFin true (t.1.connections idx)) with hmdef
  have hm : m ≤ D.length - a := hseg.payloadLength ▸ storedLength_le packet len _
  obtain ⟨hv, hc, -⟩ := stored_rest hside
  refine ⟨hv.trans hI.valid, hc, m, hm, fun har => storedLength_fin hI hseg har,
    fun hedge => finRoom_le hI.rxAt hedge packet len, fun hfit => ?_⟩
  · have hR : (conn.rxReadable - conn.rxRead).toNat = (rxPending conn).length := by
      rw [rxPending, ringSlice_length]
    have hread : conn.rxReadable + 1 = conn.rxRead + ((rxPending conn).length + 1).toUInt32 := by
      have heq := hI.rxAt.readable_eq
      rw [← hI.rxAt.pending_length] at heq
      rw [toUInt32_succ, ← UInt32.add_assoc, ← heq]
    have hphantom : rxPending (countFin true conn) = rxPending conn ++ [staleByte conn] := by
      have hd32 : (rxPending conn).length + 1 < 2 ^ 32 := by
        rw [BUFFER_SIZE] at hfit
        omega
      show ringSlice BUFFER_SIZE conn.rxBuffer (conn.rxRead.toNat + 1)
        (conn.rxReadable + 1 - conn.rxRead).toNat = _
      rw [hread, toNat_sub_add _ hd32, ringSlice_succ, ← slot_add, staleByte, hread,
        toUInt32_succ, ← UInt32.add_assoc, ← hR]
      rfl
    have hpend : rxPending (rxStore (bytesAt (segmentPayload packet) m) (countFin true conn))
        = rxPending conn ++ [staleByte conn] ++ bytesAt (segmentPayload packet) m := by
      rw [← hphantom]
      refine rxPending_store _ (countFin true conn) (d := (rxPending conn).length + 1) ?_ hread
      rw [bytesAt_length]
      exact hfit
    rw [delivered, rxPending_congr hside, hpend, hseg.bytesAt_payload hm]
    simp only [delivered, List.append_assoc]
    rfl

/-! ### After the FIN -/

/-- What holds after the FIN, when `W` is all that the ring still gives after what is
returned: it stays so until the connection is given up, and then `W` is returned. -/
structure Draining (idx : ℕ) (W : List UInt8) (t : Net × List UInt8) : Prop where
  waiting : (t.1.connections idx).isValid = true →
    (t.1.connections idx).isClosed = true ∧ delivered idx t = W
  done : (t.1.connections idx).isValid = false → t.2 = W

/-- A call of `tcp_recv` after the FIN. -/
lemma Draining.recv {W : List UInt8} (hI : Draining idx W t)
    (hu : rxStep reply idx t (.recv len) = some u) : Draining idx W u := by
  by_cases hvalid : (t.1.connections idx).isValid = true
  · obtain ⟨hclosed, hW⟩ := hI.waiting hvalid
    obtain ⟨hdel, -⟩ := recv_delivered hvalid hu
    rw [rxStep, Option.map_eq_some_iff] at hu
    obtain ⟨⟨bytes, s'⟩, hrecv, rfl⟩ := hu
    obtain ⟨-, hside, -⟩ := tcpRecv_spec hvalid hrecv
    refine ⟨fun _ => ⟨(congrArg RxSide.isClosed hside).trans hclosed, hdel.trans hW⟩,
      fun hgone => ?_⟩
    -- the connection is given up, so nothing is left in the ring
    have hend : (s'.connections idx).rxRead = (s'.connections idx).rxReadable := by
      have hv := (congrArg RxSide.isValid hside).symm.trans hgone
      rw [show (s'.connections idx).rxRead = _ from congrArg RxSide.rxRead hside,
        show (s'.connections idx).rxReadable = _ from congrArg RxSide.rxReadable hside]
      simpa [hclosed, Connection.rxSide] using hv
    have hempty : rxPending (s'.connections idx) = [] := by
      rw [rxPending, hend, UInt32.sub_self]
      rfl
    rw [← hW, ← hdel, delivered, hempty, List.append_nil]
  · rw [Bool.not_eq_true] at hvalid
    have hback : u = t := by
      simp only [rxStep, tcpRecv, hvalid, Bool.not_false, if_true, Option.map_some,
        List.append_nil] at hu
      exact (Option.some.inj hu).symm
    rw [hback]
    exact hI

/-- **Until the connection closes**: the calls after the FIN return what waits in the ring. -/
lemma Draining.of_run {W : List UInt8} {post : List RxEvent} {z : Net × List UInt8}
    (hpost : ∀ e ∈ post, ∃ len, e = .recv len) (hI : Draining idx W t)
    (hrun : Run (rxStep reply idx) t post z) : Draining idx W z := by
  induction hrun with
  | nil => exact hI
  | @snoc es e v z _ hstep ih =>
      obtain ⟨len, rfl⟩ := hpost e (by simp)
      exact (ih fun e he => hpost e (by simp [he])).recv hstep

/-- After a FIN, what is returned until the connection closes is what the ring gives then. -/
lemma returns_delivered {post : List RxEvent} {z : Net × List UInt8}
    (hvalid : (t.1.connections idx).isValid = true)
    (hcl : (t.1.connections idx).isClosed = true) (hpost : ∀ e ∈ post, ∃ len, e = .recv len)
    (hrun : Run (rxStep reply idx) t post z) (hclosed : (z.1.connections idx).isValid = false) :
    z.2 = delivered idx t := by
  have hdrain : Draining idx (delivered idx t) t :=
    ⟨fun _ => ⟨hcl, rfl⟩, fun h => absurd (hvalid.symm.trans h) (by simp)⟩
  exact (hdrain.of_run hpost hrun).done hclosed

end Steps

/-! ### Whole streams -/

section Whole

variable {reply : Ip → List (Mac × Ip)} {idx : ℕ} {s0 : UInt32} {D : List UInt8} {s : Net}
  {a : ℕ} {pre post : List RxEvent} {packet : List UInt8} {len : UInt32}
  {t z : Net × List UInt8}

/-- The stream with a stale byte in place of the one at `r`, and after it what begins at `a`, is
the stream itself exactly when the bytes agree. -/
lemma stale_append_eq_iff {r m : ℕ} {x : UInt8} (hr : r + 1 + m = D.length) :
    D.take r ++ [x] ++ (D.drop a).take m = D
      ↔ D[r]? = some x ∧ ∀ i < m, D[a + i]? = D[r + 1 + i]? := by
  have hsplit : D = D.take r ++ ([D[r]] ++ D.drop (r + 1)) := by
    rw [List.singleton_append, ← List.drop_eq_getElem_cons (by omega), List.take_append_drop]
  have hdrop : (D.drop (r + 1)).take m = D.drop (r + 1) :=
    List.take_of_length_le (by rw [List.length_drop]; omega)
  constructor
  · intro h
    have hget : ∀ i : ℕ, (D.take r ++ [x] ++ (D.drop a).take m)[i]? = D[i]? := fun i => by rw [h]
    have hlen : (D.take r ++ [x]).length = r + 1 := by
      rw [List.length_append, List.length_take]
      simp only [List.length_singleton]
      omega
    constructor
    · rw [← hget r, List.getElem?_append_left (by omega), List.getElem?_append_right]
      · rw [List.length_take, Nat.min_eq_left (by omega), Nat.sub_self]
        rfl
      · rw [List.length_take]; omega
    · intro i hi
      rw [← hget (r + 1 + i), List.getElem?_append_right (by omega), hlen,
        Nat.add_sub_cancel_left, List.getElem?_take_of_lt hi, List.getElem?_drop]
  · rintro ⟨hx, hshift⟩
    have hxr : D[r] = x := by
      rw [List.getElem?_eq_getElem (by omega)] at hx
      exact Option.some.inj hx
    have htail : (D.drop a).take m = D.drop (r + 1) := by
      rw [← hdrop]
      refine List.ext_getElem? fun i => ?_
      by_cases hi : i < m
      · rw [List.getElem?_take_of_lt hi, List.getElem?_take_of_lt hi, List.getElem?_drop,
          List.getElem?_drop, hshift i hi]
      · rw [List.getElem?_take, if_neg hi, List.getElem?_take, if_neg hi]
    conv_rhs => rw [hsplit, hxr]
    rw [htail, List.append_assoc]

/-- **The end of a TCP stream.**  Let `D` be sent in order after the peer's SYN, ended by a FIN
on its own or on the last data, and let the reader call `tcp_recv` with any lengths until the
connection closes.  If the FIN meets the condition, the bytes returned are `D`; and unless the
FIN arrives at the edge of the ring, they are `D` only if it does. -/
theorem tcpEndOfStream_returns (hsyn : AfterSyn s idx s0)
    (hpre : InOrder (s.connections idx) s0 D pre a)
    (hfin : Carries (s.connections idx) s0 D a D.length true packet len)
    (hpost : ∀ e ∈ post, ∃ len, e = .recv len) (ht : Run (rxStep reply idx) (s, []) pre t)
    (hz : Run (rxStep reply idx) t (.segment packet len :: post) z)
    (hclosed : (z.1.connections idx).isValid = false) :
    (FinFits idx D a t packet → z.2 = D)
      ∧ (¬ AtRingEdge (t.1.connections idx) → z.2 = D → FinFits idx D a t packet) := by
  have hI := Sent.of_run hsyn hpre ht
  obtain ⟨u, hu, hrun⟩ := run_cons_iff.mp hz
  obtain ⟨hvalid, hcl, m, hm, hstored, hroom, hdel⟩ :=
    hI.fin (hfin.congr ⟨hI.sourcePort.symm, hI.destPort.symm⟩) hu
  set r := (delivered idx t).length with hr
  have hbound := hI.bound
  rw [returns_delivered hvalid hcl hpost hrun hclosed]
  constructor
  · intro hfit
    have hr1 : r + 1 + m = D.length := by
      have := hfit.missing
      rw [hstored hfit.next, hfit.stored]
      omega
    have hring := hfit.ring
    rw [hdel (by omega), hI.take hfit.next, stale_append_eq_iff hr1]
    refine ⟨hfit.stale, fun i hi => hfit.shifted i (by omega)⟩
  · intro hedge hD
    have hfit := hroom hedge
    have hW := hdel hfit
    have hr1 : r + 1 + m = D.length := by
      have hlen := congrArg List.length hW
      rw [hD, List.length_append, List.length_append, List.length_take, List.length_drop] at hlen
      simp only [List.length_singleton] at hlen
      omega
    have hnext : a ≤ r + 1 := by omega
    rw [hD, hI.take hnext, eq_comm, stale_append_eq_iff hr1] at hW
    refine ⟨by omega, hnext, ?_, by omega, hW.1, fun i hi => hW.2 i (by omega)⟩
    rw [← hstored hnext]
    omega

/-- **One byte too many**: when all of `D` is received before a FIN of its own, the reader gets
the byte that lies in the FIN's place of the ring as well. -/
theorem tcpEndOfStream_extra (hsyn : AfterSyn s idx s0)
    (hpre : InOrder (s.connections idx) s0 D pre D.length)
    (hfin : Carries (s.connections idx) s0 D D.length D.length true packet len)
    (hpost : ∀ e ∈ post, ∃ len, e = .recv len) (ht : Run (rxStep reply idx) (s, []) pre t)
    (hall : (delivered idx t).length = D.length)
    (hz : Run (rxStep reply idx) t (.segment packet len :: post) z)
    (hclosed : (z.1.connections idx).isValid = false) :
    z.2 = D ++ [staleByte (t.1.connections idx)] := by
  have hI := Sent.of_run hsyn hpre ht
  obtain ⟨u, hu, hrun⟩ := run_cons_iff.mp hz
  obtain ⟨hvalid, hcl, m, hm, -, -, hdel⟩ :=
    hI.fin (hfin.congr ⟨hI.sourcePort.symm, hI.destPort.symm⟩) hu
  have hm0 : m = 0 := by omega
  have hlt := hI.rxAt.lt
  have hpend := hI.rxAt.pending_length
  rw [returns_delivered hvalid hcl hpost hrun hclosed, hdel (by omega), hI.take (by omega), hall,
    hm0, List.take_length, List.take_zero, List.append_nil]

end Whole

/-! ### A stream of one byte -/

lemma oneByte_inOrder :
    InOrder (afterSynNet.connections 0) 0 [1] [.segment (segmentOf 1 0x10 [1]) 21] 1 :=
  InOrder.data InOrder.nil Nat.zero_lt_one (by constructor <;> decide +kernel)

lemma oneByte_fin :
    Carries (afterSynNet.connections 0) 0 [1] 1 1 true (segmentOf 2 0x11 []) 20 := by
  constructor <;> decide +kernel

lemma oneByte_run : ∃ t z,
    Run (rxStep (fun _ => []) 0) (afterSynNet, []) [.segment (segmentOf 1 0x10 [1]) 21] t
      ∧ Run (rxStep (fun _ => []) 0) t [.segment (segmentOf 2 0x11 []) 20, .recv 8] z
      ∧ (z.1.connections 0).isValid = false ∧ z.2 = [1, 0] := by
  refine ⟨(tcpParsePacket (fun _ => []) afterSynNet (segmentOf 1 0x10 [1]) 21, []), ?_⟩
  have hend : ([RxEvent.segment (segmentOf 2 0x11 []) 20, .recv 8].foldlM
      (rxStep (fun _ => []) 0)
      (tcpParsePacket (fun _ => []) afterSynNet (segmentOf 1 0x10 [1]) 21, [])).map
        (fun z => ((z.1.connections 0).isValid, z.2)) = some (false, [1, 0]) := by
    decide +kernel
  obtain ⟨z, hz, hval⟩ := exists_run_of_map hend
  obtain ⟨hgone, hbytes⟩ := Prod.mk.inj hval
  exact ⟨z, run_iff_foldlM.mpr rfl, hz, hgone, hbytes⟩

/-- The theorem applies to this stream, whose FIN comes on its own. -/
theorem tcpEndOfStream_returns_oneByte : ∃ t z : Net × List UInt8,
    (FinFits 0 [1] 1 t (segmentOf 2 0x11 []) → z.2 = [1])
      ∧ (¬ AtRingEdge (t.1.connections 0) → z.2 = [1] →
        FinFits 0 [1] 1 t (segmentOf 2 0x11 [])) := by
  obtain ⟨t, z, ht, hz, hclosed, -⟩ := oneByte_run
  exact ⟨t, z, tcpEndOfStream_returns afterSynNet_afterSyn oneByte_inOrder oneByte_fin
    (by simp) ht hz hclosed⟩

/-- **The FIN as a byte**: of the stream `[1]` with a FIN of its own the reader gets `[1, 0]`. -/
theorem tcpEndOfStream_oneByte :
    AfterSyn afterSynNet 0 0
      ∧ InOrder (afterSynNet.connections 0) 0 [1] [.segment (segmentOf 1 0x10 [1]) 21] 1
      ∧ Carries (afterSynNet.connections 0) 0 [1] 1 1 true (segmentOf 2 0x11 []) 20
      ∧ ∃ t z,
        Run (rxStep (fun _ => []) 0) (afterSynNet, []) [.segment (segmentOf 1 0x10 [1]) 21] t
        ∧ Run (rxStep (fun _ => []) 0) t [.segment (segmentOf 2 0x11 []) 20, .recv 8] z
        ∧ (z.1.connections 0).isValid = false ∧ z.2 = [1, 0] ∧ z.2 ≠ [1] := by
  obtain ⟨t, z, ht, hz, hclosed, hbytes⟩ := oneByte_run
  refine ⟨afterSynNet_afterSyn, oneByte_inOrder, oneByte_fin, t, z, ht, hz, hclosed, hbytes, ?_⟩
  rw [hbytes]
  decide

end CustomLinuxOs
