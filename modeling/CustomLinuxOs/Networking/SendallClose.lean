import CustomLinuxOs.Foundations.FairRun
import CustomLinuxOs.Networking.Connect
import CustomLinuxOs.Networking.RxRing
import CustomLinuxOs.Networking.TcpTransmit

/-!
`tcp_sendall` when the peer closes.

The loop of `tcp_sendall` goes on while the connection is valid, and `tcp_send` takes nothing when
it is closed.  A call is taken apart here at each of its tests, so that a FIN may come between
them.

* `SendallState`, `sendallPass`, `sendallStep`: a call from its entry on, and all that may come in
  between; `sendallPass_send` says that its passes are those of `tcp_sendall`.
* `TakesRest`, `ReturnsFrom`: when the call gets out although the connection is closed.
* `stays_closed`: no event opens a closed connection.
* `sendall_returns_iff`: a call whose connection is closed returns in exactly these cases.
-/

namespace CustomLinuxOs

/-! ### The call -/

/-- Where a call of `tcp_sendall` is: before its test, at the condition of its loop, before the test
of `tcp_send`, in the waiting loop of `tcp_send`, or back at its caller. -/
inductive SendallPhase where
  | enter
  | loop
  | send
  | waiting
  | done (value : ℤ)
  deriving DecidableEq

/-- The network state, and the call with what it has sent. -/
structure SendallState where
  net : Net
  sent : UInt32
  phase : SendallPhase

/-- What may happen: the call goes on; segments, timers and ticks; and other callers of `tcp_recv`
and `tcp_send`, on this connection or another. -/
inductive SendallEvent where
  | pass
  | net (e : NetEvent)
  | recv (i : ℕ) (len : UInt32)
  | send (waited : Bool) (i : ℕ) (data : List UInt8) (len : UInt32)

section Call

variable (reply : Ip → List (Mac × Ip)) (idx : ℕ) (data : List UInt8) (len : UInt32)

/-- The call goes on to its next test. -/
def sendallPass (t : SendallState) : SendallState :=
  match t.phase with
  | .enter =>
      if (t.net.connections idx).isClosed then { t with phase := .done (-1) }
      else { t with sent := 0, phase := .loop }
  | .loop =>
      if (t.net.connections idx).isValid && decide (t.sent < len) then { t with phase := .send }
      else { t with phase := .done (if t.sent < len then -1 else 0) }
  | .send =>
      -- `tcp_send` returns 0
      if (t.net.connections idx).isClosed then { t with phase := .loop }
      else { t with phase := .waiting }
  | .waiting =>
      match tcpSendRest reply t.net idx (data.drop t.sent.toNat) (len - t.sent) with
      | none => t
      | some r => { net := r.2, sent := t.sent + r.1, phase := .loop }
  | .done _ => t

/-- One event; a call of `tcp_recv` or `tcp_send` of another caller takes effect when it returns. -/
def sendallStep (t : SendallState) : SendallEvent → Option SendallState
  | .pass => some (sendallPass reply idx data len t)
  | .net e => some { t with net := netStep reply t.net e }
  | .recv i n => (tcpRecv reply t.net i n).map fun r => { t with net := r.2 }
  | .send waited i bytes n =>
      (tcpSendFrom reply i waited t.net bytes n).map fun r => { t with net := r.2 }

end Call

/-- **The passes of a call of `tcp_send`** that returns. -/
lemma sendallPass_send {reply : Ip → List (Mac × Ip)} {idx : ℕ} {data : List UInt8}
    {len m : UInt32} {t : SendallState} {s' : Net} (hphase : t.phase = .send)
    (h : tcpSend reply t.net idx (data.drop t.sent.toNat) (len - t.sent) = some (m, s')) :
    ∃ k, (sendallPass reply idx data len)^[k] t
      = { net := s', sent := t.sent + m, phase := .loop } := by
  rw [tcpSend] at h
  split at h
  · rename_i hclosed
    obtain ⟨rfl, rfl⟩ := Prod.mk.inj (Option.some.inj h)
    refine ⟨1, ?_⟩
    simp only [Function.iterate_one, sendallPass, hphase, hclosed, if_true, UInt32.add_zero]
  · rename_i hopen
    refine ⟨2, ?_⟩
    have hfirst : sendallPass reply idx data len t = { t with phase := .waiting } := by
      simp only [sendallPass, hphase]
      exact if_neg hopen
    rw [Function.iterate_succ_apply, hfirst, Function.iterate_one]
    simp only [sendallPass, h]

/-- `tcp_sendall` is called. -/
def SendallState.start (s : Net) : SendallState where
  net := s
  sent := 0
  phase := .enter

section Returns

variable {reply : Ip → List (Mac × Ip)} {idx : ℕ} {data : List UInt8} {len : UInt32}

/-- The rest of the data has room in the ring, and is no longer than a segment or the window. -/
def TakesRest (idx : ℕ) (len : UInt32) (t : SendallState) : Prop :=
  let conn := t.net.connections idx
  len - t.sent ≤ conn.txAckd + BUFFER_SIZE.toUInt32 - conn.txSendable
    ∧ len - t.sent ≤ conn.mss ∧ len - t.sent ≤ conn.windowSize

/-- A run of the call that does not starve it. -/
abbrev SendallRun (reply : Ip → List (Mac × Ip)) (idx : ℕ) (data : List UInt8) (len : UInt32)
    (s : Net) :=
  FairRun (sendallStep reply idx data len) (· = .pass) (SendallState.start s)

/-- The connection is closed at place `n` of a run, and the call gets out all the same: it is not
past its own test, or has sent all, or waits in `tcp_send` until there is room for the rest. -/
def ReturnsFrom {s : Net} (r : SendallRun reply idx data len s) (n : ℕ) : Prop :=
  match (r.state n).phase with
  | .enter => len ≠ 0
  | .loop => (r.state n).sent = len
  | .send => False
  | .waiting => ∃ m, n ≤ m ∧ r.event m = .pass ∧ (r.state m).phase = .waiting
      ∧ TakesRest idx len (r.state m)
  | .done _ => True

/-- The call has returned, with 0 if all is sent and -1 otherwise. -/
def Returned (len : UInt32) (t : SendallState) : Prop :=
  t.phase = .done (if t.sent = len then 0 else -1)

end Returns

/-! ### A closed connection -/

/-- A FIN closes the connection, and no flag opens it. -/
lemma tcpHandleFlags_isClosed (s : Net) (i : ℕ) (h : TcpHeader) :
    ((tcpHandleFlags s i h).connections i).isClosed
      = ((s.connections i).isClosed || h.flags.fin) := by
  have hack : ((tcpHandleAck s i h).connections i).isClosed = (s.connections i).isClosed :=
    congrArg RxSide.isClosed (tcpHandleAck_rxSide s i h)
  have hfin : ((tcpHandleFin (tcpHandleAck s i h) i h).connections i).isClosed
      = ((s.connections i).isClosed || h.flags.fin) := by
    have hside := congrArg RxSide.isClosed (tcpHandleFin_rxSide (tcpHandleAck s i h) i h)
    rw [hack] at hside
    refine hside.trans ?_
    cases hf : h.flags.fin <;> cases hc : (s.connections i).isClosed <;>
      simp [Connection.rxSide, hack, hc]
  have hsyn : ((tcpHandleSyn (tcpHandleFin (tcpHandleAck s i h) i h) i h).connections i).isClosed
      = ((tcpHandleFin (tcpHandleAck s i h) i h).connections i).isClosed := by
    simp only [tcpHandleSyn]
    split
    · have hdelay := congrArg RxSide.isClosed (tcpDelayAck_rxSide
        ((tcpHandleFin (tcpHandleAck s i h) i h).setConnection i
          { (tcpHandleFin (tcpHandleAck s i h) i h).connections i with
            rxRead := h.seq + 1, rxReadable := h.seq + 1
            txSendable := ((tcpHandleFin (tcpHandleAck s i h) i h).connections i).txAckd }) i)
      rw [setConnection_self] at hdelay ⊢
      exact hdelay
    · rfl
  rw [← hfin, ← hsyn]
  simp only [tcpHandleFlags, tcpHandleRst]
  split
  · rw [setConnection_self]
  · rfl

lemma tcpInput_isClosed (reply : Ip → List (Mac × Ip)) (s : Net) (i : ℕ) (h : TcpHeader)
    (packet : List UInt8) (len : UInt32) :
    ((tcpInput reply s i h packet len).connections i).isClosed
      = ((s.connections i).isClosed || h.flags.fin) := by
  have hside := congrArg RxSide.isClosed (tcpInput_rxSide reply s i h packet len rfl)
  obtain ⟨r, b, hloop⟩ := rxLoop_frame h.seq (payloadLength h len) 0 (payloadOf h packet)
    ((tcpHandleFlags s i h).connections i)
  rw [← tcpHandleFlags_isClosed]
  refine hside.trans ?_
  split
  · rw [hloop]
    rfl
  · rfl

/-- A segment, a timer and a tick leave a closed connection closed. -/
lemma netStep_isClosed (reply : Ip → List (Mac × Ip)) {s : Net} {idx : ℕ} (e : NetEvent)
    (h : (s.connections idx).isClosed = true) :
    ((netStep reply s e).connections idx).isClosed = true := by
  cases e with
  | tick => exact h
  | ack i =>
      by_cases hi : idx = i
      · subst hi
        obtain ⟨w, hw⟩ := tcpAck_frame reply s idx
        rw [netStep, hw]
        exact h
      · rw [netStep, tcpAck_of_ne reply s hi]
        exact h
  | segment packet len =>
      simp only [netStep, tcpParsePacket]
      cases findConnection s (readTcpHeader packet).1 with
      | none => exact h
      | some i =>
          by_cases hi : idx = i
          · subst hi
            simp only [tcpInput_isClosed, h, Bool.true_or]
          · simp only [tcpInput_of_ne _ _ _ _ _ hi]
            exact h

lemma tcpRecv_isClosed {reply : Ip → List (Mac × Ip)} {s s' : Net} {i idx : ℕ} {len : UInt32}
    {bytes : List UInt8} (hr : tcpRecv reply s i len = some (bytes, s'))
    (h : (s.connections idx).isClosed = true) : (s'.connections idx).isClosed = true := by
  cases hvalid : (s.connections i).isValid with
  | false =>
      simp only [tcpRecv, hvalid, Bool.not_false, if_true, Option.some.injEq,
        Prod.mk.injEq] at hr
      rw [← hr.2]
      exact h
  | true =>
      obtain ⟨-, hside, hother⟩ := tcpRecv_spec hvalid hr
      by_cases hi : idx = i
      · subst hi
        exact (congrArg RxSide.isClosed hside).trans h
      · rw [hother idx hi]
        exact h

lemma accepts_isClosed {s s' : Net} {i idx m : ℕ} {data : List UInt8}
    (hs : Accepts i data m s s') (h : (s.connections idx).isClosed = true) :
    (s'.connections idx).isClosed = true := by
  by_cases hi : idx = i
  · subst hi
    exact (congrArg RxSide.isClosed hs.rxSide).trans h
  · rw [hs.others idx hi]
    exact h

section Runs

variable {reply : Ip → List (Mac × Ip)} {idx : ℕ} {data : List UInt8} {len : UInt32}

/-- **No event opens a closed connection.** -/
lemma stays_closed {t u : SendallState} {e : SendallEvent}
    (hu : sendallStep reply idx data len t e = some u)
    (h : (t.net.connections idx).isClosed = true) : (u.net.connections idx).isClosed = true := by
  cases e with
  | pass =>
      obtain rfl := Option.some.inj hu
      rw [sendallPass]
      split
      · split <;> exact h
      · split <;> exact h
      · split <;> exact h
      · cases hsend : tcpSendRest reply t.net idx (data.drop t.sent.toNat) (len - t.sent) with
        | none => exact h
        | some r => exact accepts_isClosed (tcpSendRest_spec hsend).1 h
      · exact h
  | net e =>
      obtain rfl := Option.some.inj hu
      exact netStep_isClosed reply e h
  | recv i n =>
      obtain ⟨⟨bytes, s'⟩, hr, rfl⟩ := Option.map_eq_some_iff.mp hu
      exact tcpRecv_isClosed hr h
  | send waited i bytes n =>
      obtain ⟨⟨m, s'⟩, hr, rfl⟩ := Option.map_eq_some_iff.mp hu
      exact accepts_isClosed (tcpSendFrom_spec hr).1 h

/-- Events from outside leave the call where it is. -/
lemma sendallStep_call {t u : SendallState} {e : SendallEvent}
    (hu : sendallStep reply idx data len t e = some u) (he : e ≠ .pass) :
    u.phase = t.phase ∧ u.sent = t.sent := by
  cases e with
  | pass => exact absurd rfl he
  | net e =>
      obtain rfl := Option.some.inj hu
      exact ⟨rfl, rfl⟩
  | recv i n =>
      obtain ⟨r, -, rfl⟩ := Option.map_eq_some_iff.mp hu
      exact ⟨rfl, rfl⟩
  | send waited i bytes n =>
      obtain ⟨r, -, rfl⟩ := Option.map_eq_some_iff.mp hu
      exact ⟨rfl, rfl⟩

/-! ### Where the call is -/

/-- What is sent, by the place of the call. -/
def SendallAt (len : UInt32) (t : SendallState) : Prop :=
  match t.phase with
  | .enter => t.sent = 0
  | .loop => t.sent ≤ len
  | .send => t.sent < len
  | .waiting => t.sent < len
  | .done _ => True

lemma txLength_eq_iff (conn : Connection) (n : UInt32) :
    txLength conn n = n ↔ n ≤ conn.txAckd + BUFFER_SIZE.toUInt32 - conn.txSendable
      ∧ n ≤ conn.mss ∧ n ≤ conn.windowSize := by
  simp only [txLength, UInt32.le_iff_toNat_le, UInt32.lt_iff_toNat_lt, ← UInt32.toNat_inj]
  split_ifs <;> omega

lemma sent_add_eq_iff {a n l : UInt32} : a + n = l ↔ n = l - a := by
  constructor
  · rintro rfl
    grind
  · rintro rfl
    grind

/-- **A pass of a call that waits**: it waits on, or takes as much as it can. -/
lemma sendallPass_waiting (reply : Ip → List (Mac × Ip)) (data : List UInt8) {t : SendallState}
    (hphase : t.phase = .waiting) (hvalid : (t.net.connections idx).isValid = true)
    (hsent : t.sent < len) :
    (sendallPass reply idx data len t = t ∧ ¬ TakesRest idx len t)
      ∨ ∃ s', sendallPass reply idx data len t = { t with
          net := s', phase := .loop,
          sent := t.sent + txLength (t.net.connections idx) (len - t.sent) } := by
  have hpass : sendallPass reply idx data len t
      = match tcpSendRest reply t.net idx (data.drop t.sent.toNat) (len - t.sent) with
        | none => t
        | some r => { net := r.2, sent := t.sent + r.1, phase := .loop } := by
    rw [sendallPass, hphase]
  rw [hpass]
  by_cases hfull : (t.net.connections idx).txAckd + BUFFER_SIZE.toUInt32
      = (t.net.connections idx).txSendable
  · refine .inl ⟨?_, fun h => ?_⟩
    · simp only [tcpSendRest, hvalid, hfull, beq_self_eq_true, Bool.and_self, if_true]
    · have hroom := h.1
      rw [hfull, UInt32.sub_self, UInt32.le_iff_toNat_le] at hroom
      have hle := UInt32.le_iff_toNat_le.mp (UInt32.le_of_lt hsent)
      have hlt := UInt32.lt_iff_toNat_lt.mp hsent
      rw [UInt32.toNat_sub_of_le _ _ (UInt32.le_of_lt hsent)] at hroom
      have hzero : (0 : UInt32).toNat = 0 := rfl
      omega
  · have hroom := beq_eq_false_iff_ne.mpr hfull
    simp only [tcpSendRest, hvalid, hroom, Bool.and_false, Bool.not_true, Bool.false_eq_true,
      if_false]
    exact .inr ⟨_, rfl⟩

/-- It has sent everything then exactly if it could take the rest. -/
lemma sent_eq_iff {t : SendallState} :
    t.sent + txLength (t.net.connections idx) (len - t.sent) = len ↔ TakesRest idx len t := by
  rw [sent_add_eq_iff, txLength_eq_iff]
  rfl

/-- It has not sent more than everything. -/
lemma sent_le {t : SendallState} (hsent : t.sent < len) :
    t.sent + txLength (t.net.connections idx) (len - t.sent) ≤ len := by
  have hle := (txLength_le (t.net.connections idx) (len - t.sent)).1
  have hlt := UInt32.lt_iff_toNat_lt.mp hsent
  have hlen := len.toNat_lt
  rw [UInt32.toNat_sub_of_le _ _ (UInt32.le_of_lt hsent)] at hle
  rw [UInt32.le_iff_toNat_le, UInt32.toNat_add]
  omega

/-- **Every event** keeps this. -/
lemma SendallAt.step {t u : SendallState} {e : SendallEvent} (h : SendallAt len t)
    (hvalid : (t.net.connections idx).isValid = true)
    (hu : sendallStep reply idx data len t e = some u) : SendallAt len u := by
  by_cases he : e = .pass
  · subst he
    obtain rfl := Option.some.inj hu
    rw [SendallAt] at h
    cases hphase : t.phase with
    | enter =>
        rw [sendallPass, hphase]
        simp only
        split
        · exact trivial
        · exact UInt32.zero_le
    | loop =>
        simp only [hphase] at h
        rw [sendallPass, hphase]
        simp only
        split
        · rename_i hgo
          rw [Bool.and_eq_true, decide_eq_true_eq] at hgo
          exact hgo.2
        · exact trivial
    | send =>
        simp only [hphase] at h
        rw [sendallPass, hphase]
        simp only
        split
        · exact UInt32.le_of_lt h
        · exact h
    | waiting =>
        simp only [hphase] at h
        rcases sendallPass_waiting reply data hphase hvalid h with ⟨hsame, -⟩ | ⟨s', hnext⟩
        · rw [hsame, SendallAt, hphase]
          exact h
        · rw [hnext]
          exact sent_le h
    | done v =>
        rw [sendallPass, hphase, SendallAt, hphase]
        trivial
  · obtain ⟨hphase, hsent⟩ := sendallStep_call hu he
    rw [SendallAt, hphase, hsent]
    exact h

/-! ### Calls that return -/

section Fair

variable {s : Net} (r : SendallRun reply idx data len s)

/-- Up to the next pass of the call nothing happens to it. -/
lemma next_pass {n : ℕ} {P : SendallPhase → UInt32 → Prop}
    (h : P (r.state n).phase (r.state n).sent) :
    ∃ m, n ≤ m ∧ r.event m = .pass ∧ P (r.state m).phase (r.state m).sent :=
  r.exists_turn (P := fun t => P t.phase t.sent) (fun m _ hturn hP => by
    obtain ⟨hphase, hsent⟩ := sendallStep_call (r.next m) hturn
    rwa [hphase, hsent]) h

lemma state_of_pass {m : ℕ} (h : r.event m = .pass) :
    r.state (m + 1) = sendallPass reply idx data len (r.state m) := by
  have hnext := r.next m
  rw [h] at hnext
  exact (Option.some.inj hnext).symm

/-- The connection stays closed. -/
lemma closed_from {n : ℕ} (hclosed : ((r.state n).net.connections idx).isClosed = true) {m : ℕ}
    (hm : n ≤ m) : ((r.state m).net.connections idx).isClosed = true :=
  r.keeps (P := fun t => (t.net.connections idx).isClosed = true)
    (fun k _ h => stays_closed (r.next k) h) hclosed hm

/-- All is sent. -/
lemma returned_of_loop {n : ℕ} (hphase : (r.state n).phase = .loop)
    (hsent : (r.state n).sent = len) : ∃ m, Returned len (r.state m) := by
  obtain ⟨m, -, hpass, hm, hall⟩ := next_pass r (P := fun p k => p = .loop ∧ k = len)
    ⟨hphase, hsent⟩
  refine ⟨m + 1, ?_⟩
  rw [state_of_pass r hpass, sendallPass, hm]
  simp only [hall, UInt32.lt_irrefl, decide_false, Bool.and_false, Bool.false_eq_true, if_false]
  rw [Returned, if_pos rfl]

/-- The call finds the connection closed at its entry. -/
lemma returned_of_enter {n : ℕ} (hphase : (r.state n).phase = .enter)
    (hsent : (r.state n).sent = 0) (hlen : len ≠ 0)
    (hclosed : ((r.state n).net.connections idx).isClosed = true) :
    ∃ m, Returned len (r.state m) := by
  obtain ⟨m, hle, hpass, hm, hzero⟩ := next_pass r (P := fun p k => p = .enter ∧ k = 0)
    ⟨hphase, hsent⟩
  refine ⟨m + 1, ?_⟩
  rw [state_of_pass r hpass, sendallPass, hm]
  simp only [closed_from r hclosed hle, if_true]
  rw [Returned, hzero, if_neg hlen.symm]

/-- The call waits and can take the rest. -/
lemma returned_of_waiting {m : ℕ} (hpass : r.event m = .pass)
    (hphase : (r.state m).phase = .waiting) (hsent : (r.state m).sent < len)
    (hvalid : ((r.state m).net.connections idx).isValid = true)
    (hrest : TakesRest idx len (r.state m)) : ∃ m, Returned len (r.state m) := by
  rcases sendallPass_waiting reply data hphase hvalid hsent with ⟨-, hnot⟩ | ⟨s', hnext⟩
  · exact absurd hrest hnot
  · rw [← state_of_pass r hpass] at hnext
    refine returned_of_loop r (n := m + 1) ?_ ?_
    · rw [hnext]
    · rw [hnext]
      exact sent_eq_iff.mpr hrest

/-! ### Calls that do not return -/

/-- The call goes round in its loop, with something left to send. -/
def Stuck (len : UInt32) (t : SendallState) : Prop :=
  (t.phase = .loop ∨ t.phase = .send) ∧ t.sent < len

lemma Stuck.not_returned {t : SendallState} (h : Stuck len t) : ¬ Returned len t := by
  intro hdone
  rcases h.1 with hphase | hphase
  · rw [Returned, hphase] at hdone
    cases hdone
  · rw [Returned, hphase] at hdone
    cases hdone

/-- **It goes on so**: `tcp_send` takes nothing, and the loop does not look at `is_closed`. -/
lemma Stuck.step {t u : SendallState} {e : SendallEvent} (h : Stuck len t)
    (hvalid : (t.net.connections idx).isValid = true)
    (hclosed : (t.net.connections idx).isClosed = true)
    (hu : sendallStep reply idx data len t e = some u) : Stuck len u := by
  by_cases he : e = .pass
  · subst he
    obtain rfl := Option.some.inj hu
    rcases h.1 with hphase | hphase
    · rw [sendallPass, hphase]
      simp only [hvalid, decide_eq_true h.2, Bool.and_self, if_true]
      exact ⟨.inr rfl, h.2⟩
    · rw [sendallPass, hphase]
      simp only [hclosed, if_true]
      exact ⟨.inl rfl, h.2⟩
  · obtain ⟨hphase, hsent⟩ := sendallStep_call hu he
    rw [Stuck, hphase, hsent]
    exact h

/-- A call that has returned stays so. -/
lemma done_step {t u : SendallState} {e : SendallEvent} {v : ℤ} (h : t.phase = .done v)
    (hu : sendallStep reply idx data len t e = some u) : u.phase = .done v := by
  by_cases he : e = .pass
  · subst he
    obtain rfl := Option.some.inj hu
    rw [sendallPass, h]
    exact h
  · rw [(sendallStep_call hu he).1, h]

/-- Nothing is to be sent, and the connection is closed at the entry: the value is -1. -/
lemma not_returned_of_enter {n : ℕ}
    (hclosed : ((r.state n).net.connections idx).isClosed = true)
    (hphase : (r.state n).phase = .enter) (hsent : (r.state n).sent = 0) (hlen : len = 0) {m : ℕ}
    (hm : n ≤ m) : ¬ Returned len (r.state m) := by
  have hkeep : ((r.state m).phase = .enter ∨ (r.state m).phase = .done (-1))
      ∧ (r.state m).sent = 0 := by
    refine r.keeps (P := fun t => (t.phase = .enter ∨ t.phase = .done (-1)) ∧ t.sent = 0)
      (fun k hk hP => ?_) ⟨.inl hphase, hsent⟩ hm
    by_cases hpass : r.event k = .pass
    · rw [state_of_pass r hpass]
      rcases hP.1 with henter | hdone
      · rw [sendallPass, henter]
        simp only [closed_from r hclosed hk, if_true]
        exact ⟨.inr trivial, hP.2⟩
      · rw [sendallPass, hdone]
        exact ⟨.inr hdone, hP.2⟩
    · obtain ⟨hp, hs⟩ := sendallStep_call (r.next k) hpass
      rw [hp, hs]
      exact hP
  intro hdone
  rw [Returned, hkeep.2, if_pos hlen.symm] at hdone
  rcases hkeep.1 with henter | hminus
  · rw [henter] at hdone
    cases hdone
  · rw [hminus] at hdone
    cases hdone

variable (hvalid : ∀ n, ((r.state n).net.connections idx).isValid = true)
include hvalid

lemma not_returned_of_stuck {n : ℕ}
    (hclosed : ((r.state n).net.connections idx).isClosed = true) (h : Stuck len (r.state n))
    {m : ℕ} (hm : n ≤ m) : ¬ Returned len (r.state m) :=
  Stuck.not_returned (r.keeps
    (fun k hk hstuck => hstuck.step (hvalid k) (closed_from r hclosed hk) (r.next k)) h hm)

/-- The call waits, and never finds room for the rest. -/
lemma not_returned_of_waiting {n : ℕ}
    (hclosed : ((r.state n).net.connections idx).isClosed = true)
    (hphase : (r.state n).phase = .waiting) (hsent : (r.state n).sent < len)
    (hnever : ∀ m, n ≤ m → r.event m = .pass → (r.state m).phase = .waiting →
      ¬ TakesRest idx len (r.state m)) {m : ℕ} (hm : n ≤ m) : ¬ Returned len (r.state m) := by
  have hkeep : ((r.state m).phase = .waiting ∧ (r.state m).sent < len)
      ∨ Stuck len (r.state m) := by
    refine r.keeps (P := fun t => (t.phase = .waiting ∧ t.sent < len) ∨ Stuck len t)
      (fun k hk hP => ?_) (.inl ⟨hphase, hsent⟩) hm
    rcases hP with ⟨hwait, hlt⟩ | hstuck
    · by_cases hpass : r.event k = .pass
      · rw [state_of_pass r hpass]
        rcases sendallPass_waiting reply data hwait (hvalid k) hlt with ⟨hsame, -⟩ | ⟨s', hnext⟩
        · rw [hsame]
          exact .inl ⟨hwait, hlt⟩
        · have hne := mt sent_eq_iff.mp (hnever k hk hpass hwait)
          rw [hnext]
          exact .inr ⟨.inl rfl, UInt32.lt_of_le_of_ne (sent_le hlt) hne⟩
      · obtain ⟨hp, hs⟩ := sendallStep_call (r.next k) hpass
        rw [hp, hs]
        exact .inl ⟨hwait, hlt⟩
    · exact .inr (hstuck.step (hvalid k) (closed_from r hclosed hk) (r.next k))
  rcases hkeep with ⟨hwait, -⟩ | hstuck
  · intro hdone
    rw [Returned, hwait] at hdone
    cases hdone
  · exact hstuck.not_returned

/-- **Where the call is**, all along. -/
lemma sendallAt (n : ℕ) : SendallAt len (r.state n) := by
  refine r.keeps (n := 0) (fun k _ h => h.step (hvalid k) (r.next k)) ?_ (Nat.zero_le n)
  rw [r.start]
  rfl

end Fair

end Runs

/-- **`tcp_sendall` and a FIN.**  In a run of a call, with segments, timers and other callers in
between, let the connection be closed at some place before the return, and stay valid.  Then the
call returns, with 0 if all is sent and -1 otherwise, exactly if it is before its own test and has
anything to send, or has sent all, or is in the waiting loop of `tcp_send` and there finds room for
the rest. -/
theorem sendall_returns_iff {reply : Ip → List (Mac × Ip)} {idx : ℕ} {data : List UInt8}
    {len : UInt32} {s : Net} (r : SendallRun reply idx data len s)
    (hvalid : ∀ n, ((r.state n).net.connections idx).isValid = true) {n : ℕ}
    (hclosed : ((r.state n).net.connections idx).isClosed = true)
    (hcall : ∀ v, (r.state n).phase ≠ .done v) :
    (∃ m, Returned len (r.state m)) ↔ ReturnsFrom r n := by
  have hat := sendallAt r hvalid n
  -- the call has not returned before the FIN
  have hlate : ∀ m, Returned len (r.state m) → n ≤ m := by
    intro m hdone
    by_contra hlt
    exact hcall _ (r.keeps (P := fun t => t.phase = _) (fun k _ h => done_step h (r.next k)) hdone
      (Nat.le_of_not_le hlt))
  rw [SendallAt] at hat
  rw [ReturnsFrom]
  cases hphase : (r.state n).phase with
  | enter =>
      simp only [hphase] at hat ⊢
      refine ⟨fun ⟨m, hdone⟩ hzero => ?_, fun hlen => returned_of_enter r hphase hat hlen hclosed⟩
      exact not_returned_of_enter r hclosed hphase hat hzero (hlate m hdone) hdone
  | loop =>
      simp only [hphase] at hat ⊢
      refine ⟨fun ⟨m, hdone⟩ => ?_, returned_of_loop r hphase⟩
      by_contra hne
      exact not_returned_of_stuck r hvalid hclosed
        ⟨.inl hphase, UInt32.lt_of_le_of_ne hat hne⟩ (hlate m hdone) hdone
  | send =>
      simp only [hphase] at hat ⊢
      refine ⟨fun ⟨m, hdone⟩ => ?_, False.elim⟩
      exact not_returned_of_stuck r hvalid hclosed ⟨.inr hphase, hat⟩ (hlate m hdone) hdone
  | waiting =>
      simp only [hphase] at hat ⊢
      refine ⟨fun ⟨m, hdone⟩ => ?_, fun ⟨m, hm, hpass, hwait, hrest⟩ => ?_⟩
      · by_contra hnever
        exact not_returned_of_waiting r hvalid hclosed hphase hat
          (fun k hk hpass hwait hrest => hnever ⟨k, hk, hpass, hwait, hrest⟩) (hlate m hdone) hdone
      · have hsent := sendallAt r hvalid m
        rw [SendallAt, hwait] at hsent
        exact returned_of_waiting r hpass hwait hsent (hvalid m) hrest
  | done v => exact absurd hphase (hcall v)

/-! ### A FIN after the first bytes -/

/-- A FIN of the peer, without data. -/
def finSegment : List UInt8 :=
  writeU16 80 ++ writeU16 0x8000 ++ writeU32 0 ++ writeU32 0 ++ [0x50, 0x01]
    ++ writeU16 2048 ++ writeU16 0 ++ writeU16 0

/-- A call that sends two bytes, which is all the window allows, and a FIN then. -/
def finRun (len : UInt32) : SendallRun (fun _ => []) 0 [1, 2, 3] len (afterHandshakeNet 0) :=
  FairRun.follow _ (fun n => if n = 4 then .net (.segment finSegment 20) else .pass)
    (fun t n => by split <;> rfl)
    fun n => ⟨n + 5, by omega, if_neg (by omega)⟩

lemma finRun_valid {len : UInt32} (hstart : ∀ n ≤ 5,
      (((finRun len).state n).net.connections 0).isValid = true)
    (hclosed : (((finRun len).state 5).net.connections 0).isClosed = true)
    (hphase : ((finRun len).state 5).phase ≠ .waiting) (n : ℕ) :
    (((finRun len).state n).net.connections 0).isValid = true := by
  rcases Nat.le_total n 5 with hn | hn
  · exact hstart n hn
  · -- from the FIN on the call changes nothing but its place
    refine ((finRun len).keeps (P := fun t => (t.net.connections 0).isValid = true
      ∧ t.phase ≠ .waiting) (fun k hk hP => ?_) ⟨hstart 5 le_rfl, hphase⟩ hn).1
    have hpass : (finRun len).event k = .pass := if_neg (by omega)
    have hshut := closed_from (finRun len) hclosed hk
    rw [state_of_pass _ hpass, sendallPass]
    cases hk : ((finRun len).state k).phase with
    | enter =>
        simp only [hshut, if_true]
        exact ⟨hP.1, by simp⟩
    | loop =>
        simp only
        split
        · exact ⟨hP.1, by simp⟩
        · exact ⟨hP.1, by simp⟩
    | send =>
        simp only [hshut, if_true]
        exact ⟨hP.1, by simp⟩
    | waiting => exact absurd hk hP.2
    | done v => exact ⟨hP.1, by rw [hk]; simp⟩

lemma finRun_three : (∀ n ≤ 5, (((finRun 3).state n).net.connections 0).isValid = true)
    ∧ (((finRun 3).state 5).net.connections 0).isClosed = true
    ∧ ((finRun 3).state 5).phase = .loop ∧ ((finRun 3).state 5).sent = 2 := by
  decide +kernel

lemma finRun_two : (∀ n ≤ 5, (((finRun 2).state n).net.connections 0).isValid = true)
    ∧ (((finRun 2).state 5).net.connections 0).isClosed = true
    ∧ ((finRun 2).state 5).phase = .loop ∧ ((finRun 2).state 5).sent = 2 := by
  decide +kernel

/-- Of two bytes nothing is left, and the call returns. -/
theorem sendall_returns_two : ∃ m, Returned 2 ((finRun 2).state m) := by
  obtain ⟨hstart, hclosed, hphase, hsent⟩ := finRun_two
  have hvalid := finRun_valid hstart hclosed (by rw [hphase]; decide)
  refine (sendall_returns_iff (finRun 2) hvalid hclosed fun v => by rw [hphase]; simp).mpr ?_
  rw [ReturnsFrom, hphase]
  exact hsent

/-- Of three bytes one is left, and the call does not return. -/
theorem not_sendall_returns :
    ¬ ∀ (reply : Ip → List (Mac × Ip)) (idx : ℕ) (data : List UInt8) (len : UInt32) (s : Net)
      (r : SendallRun reply idx data len s),
      (∀ n, ((r.state n).net.connections idx).isValid = true) →
      ∀ n, ((r.state n).net.connections idx).isClosed = true →
        (∀ v, (r.state n).phase ≠ .done v) → ∃ m, Returned len (r.state m) := by
  intro h
  obtain ⟨hstart, hclosed, hphase, hsent⟩ := finRun_three
  have hvalid := finRun_valid hstart hclosed (by rw [hphase]; decide)
  obtain ⟨m, hdone⟩ := h _ _ _ _ _ (finRun 3) hvalid 5 hclosed fun v => by rw [hphase]; simp
  rcases Nat.le_total m 5 with hm | hm
  · have hlate := (finRun 3).keeps (P := fun t => t.phase = _)
      (fun k _ hk => done_step hk ((finRun 3).next k)) hdone hm
    rw [hphase] at hlate
    cases hlate
  · exact not_returned_of_stuck (finRun 3) hvalid hclosed
      ⟨.inl hphase, by rw [hsent]; decide⟩ hm hdone

end CustomLinuxOs
