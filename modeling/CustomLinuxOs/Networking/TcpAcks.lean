import CustomLinuxOs.Networking.RxStep
import CustomLinuxOs.Networking.TcpTransmit

/-!
Acknowledgements that arrive out of order.

* `AckState`, `AckEvent`, `ackStep`: calls of `tcp_send` and acknowledgements of the peer.  The
  state keeps how many bytes are accepted and the highest position acknowledged so far.
* `AckSafe`: `tx_ackd` stands at the highest position acknowledged, and the accepted bytes
  behind it fit into the ring.
* `UpToDate`: an acknowledgement is as high as all before it, or its sequence number is that of
  the highest one.
* `ackSafe_iff`: a run is safe in all its states exactly when all its acknowledgements are up
  to date; `ackSafe_staleAck` is a run with a repeated one.
-/

namespace CustomLinuxOs

/-! ### Events -/

/-- The network state, the number of bytes accepted by `tcp_send`, and the highest position the
peer has acknowledged, counted from the first byte of data. -/
structure AckState where
  net : Net
  accepted : ℕ
  high : ℕ

/-- A call of `tcp_send`, or a segment that acknowledges the bytes before a position. -/
inductive AckEvent where
  | send (waited : Bool) (data : List UInt8) (len : UInt32)
  | ack (position : ℕ) (packet : List UInt8) (len : UInt32)

/-- One event.  The peer acknowledges no byte that has not been accepted for sending. -/
def ackStep (reply : Ip → List (Mac × Ip)) (idx : ℕ) : AckState → AckEvent → Option AckState
  | t, .send waited data len =>
      (tcpSendFrom reply idx waited t.net data len).map fun r =>
        { t with net := r.2, accepted := t.accepted + r.1.toNat }
  | t, .ack position packet len =>
      if position ≤ t.accepted then
        some { t with
          net := tcpParsePacket reply t.net packet len
          high := max t.high position }
      else none

/-- The state in which nothing is sent yet. -/
def AckState.start (s : Net) : AckState where
  net := s
  accepted := 0
  high := 0

/-- An acknowledgement is a segment of the peer with the sequence number of its position. -/
def Acknowledges (conn : Connection) (base : UInt32) : AckEvent → Prop
  | .send _ _ _ => True
  | .ack position packet _ =>
      FromPeer conn packet ∧ (readTcpHeader packet).1.flags.ack = true
        ∧ (readTcpHeader packet).1.ack = base + position.toUInt32

/-- `tx_ackd` stands at the highest position acknowledged so far, `tx_sendable` at the bytes
accepted, and the ring has a slot for each byte between them. -/
def AckSafe (idx : ℕ) (base : UInt32) (t : AckState) : Prop :=
  TxCounters base (t.net.connections idx).txSide t.high t.accepted

/-- The acknowledgement is as high as all before it, or has the number of the highest one. -/
def UpToDate (t : AckState) : AckEvent → Prop
  | .send _ _ _ => True
  | .ack position _ _ => t.high ≤ position ∨ position.toUInt32 = t.high.toUInt32

/-! ### One step -/

section Steps

variable {reply : Ip → List (Mac × Ip)} {idx : ℕ} {base : UInt32} {c : Connection}
  {t u : AckState}

lemma ackStep_reached {e : AckEvent} (ht : Reached idx c t.net) (he : Acknowledges c base e)
    (hu : ackStep reply idx t e = some u) : Reached idx c u.net := by
  cases e with
  | send waited data len =>
      obtain ⟨⟨m, s'⟩, hsend, rfl⟩ := Option.map_eq_some_iff.mp hu
      have haccepts := (tcpSendFrom_spec hsend).1
      have hports := SamePorts.of_rxSide haccepts.rxSide
      exact ⟨(congrArg RxSide.isValid haccepts.rxSide).trans ht.valid,
        ht.ports.trans hports.symm, ht.sole.of_rest hports.1 haccepts.others⟩
  | ack position packet len =>
      rw [ackStep] at hu
      split at hu
      · cases hu
        obtain ⟨hvalid, hports, hsole⟩ :=
          parse_rest reply ht.sole ht.valid (he.1.congr ht.ports) len
        exact ⟨hvalid, ht.ports.trans hports.symm, hsole⟩
      · cases hu

variable (reply) in
/-- The transmit side after an acknowledgement: `tx_ackd` is its number, whatever it was. -/
lemma ack_txSide {position : ℕ} {packet : List UInt8} {len : UInt32}
    (ht : Reached idx c t.net) (he : Acknowledges c base (.ack position packet len)) :
    ((tcpParsePacket reply t.net packet len).connections idx).txSide
      = { (t.net.connections idx).txSide with txAckd := base + position.toUInt32 } := by
  obtain ⟨hpeer, hflag, hack⟩ := he
  have hparse := (parse_rxSide reply ht.sole ht.valid (hpeer.congr ht.ports) len).1
  rw [hparse, (tcpInput_txSide reply _ _ _ _ _ hpeer.syn).1, TxSide.handleAck, if_pos hflag,
    hack]

/-- **One step** keeps the connection safe exactly when it is up to date. -/
theorem ackStep_safe_iff {e : AckEvent} (ht : Reached idx c t.net)
    (he : Acknowledges c base e) (hsafe : AckSafe idx base t)
    (hu : ackStep reply idx t e = some u) : AckSafe idx base u ↔ UpToDate t e := by
  cases e with
  | send waited data len =>
      obtain ⟨⟨m, s'⟩, hsend, rfl⟩ := Option.map_eq_some_iff.mp hu
      obtain ⟨haccepts, -, hm⟩ := tcpSendFrom_spec hsend
      have hnew : AckSafe idx base { t with net := s', accepted := t.accepted + m.toNat } := by
        rw [AckSafe, haccepts.txSide]
        exact hsafe.accept data hm
      exact ⟨fun _ => trivial, fun _ => hnew⟩
  | ack position packet len =>
      rw [ackStep] at hu
      split at hu
      · rename_i hpos
        cases hu
        have hside := ack_txSide reply ht he
        have hbound := hsafe.bound
        have hle := hsafe.le
        constructor
        · intro hnew
          have hackd := hnew.ackd
          rw [hside] at hackd
          have hsame : position.toUInt32 = (max t.high position).toUInt32 := by
            simp only at hackd
            grind
          rcases Nat.le_total t.high position with hge | hlt
          · exact Or.inl hge
          · rw [Nat.max_eq_left hlt] at hsame
            exact Or.inr hsame
        · intro hup
          have hsame : position.toUInt32 = (max t.high position).toUInt32 := by
            cases hup with
            | inl hge => rw [Nat.max_eq_right hge]
            | inr hnum =>
                rcases Nat.le_total t.high position with hge | hlt
                · rw [Nat.max_eq_right hge]
                · rw [Nat.max_eq_left hlt, hnum]
          refine ⟨?_, ?_, max_le hle hpos, ?_⟩
          · rw [hside, hsame]
          · rw [hside]
            exact hsafe.sendable
          · exact hbound.trans (Nat.add_le_add_right (le_max_left _ _) _)
      · cases hu

end Steps

/-! ### Runs -/

/-- **Acknowledgements of a TCP connection.**  After the handshake let calls of `tcp_send` and
acknowledgements of the peer come in any order, delayed and repeated ones among them.  In all
states of the run `tx_ackd` stands at the highest position acknowledged so far (so it never
goes back), `tx_sendable` stands at the bytes accepted, and there are no more bytes behind
`tx_ackd` than the ring has slots (so no call accepts more than the ring has free), exactly when
each acknowledgement is as high as all before it or has the number of the highest one. -/
theorem ackSafe_iff (reply : Ip → List (Mac × Ip)) {idx : ℕ} {base : UInt32} {s : Net}
    {es : List AckEvent} {z : AckState} (hstart : AfterHandshake s idx base)
    (hsole : SolePort s idx) (hes : ∀ e ∈ es, Acknowledges (s.connections idx) base e)
    (hrun : Run (ackStep reply idx) (AckState.start s) es z) :
    EveryState (ackStep reply idx) (AckState.start s) es (AckSafe idx base)
      ↔ EveryStep (ackStep reply idx) (AckState.start s) es UpToDate := by
  refine everyState_iff_everyStep (V := Acknowledges (s.connections idx) base)
    (I := fun t => Reached idx (s.connections idx) t.net) hrun hes
    ⟨hstart.valid, ⟨rfl, rfl⟩, hsole⟩ ?_ ?_ ?_
  · refine ⟨?_, ?_, le_rfl, Nat.zero_le _⟩
    · simp [AckState.start, Connection.txSide, hstart.ackd]
    · simp [AckState.start, Connection.txSide, hstart.sendable]
  · intro t e u he ht hsafe hu
    exact ackStep_safe_iff ht he hsafe hu
  · intro t e u he ht _ _ hu
    exact ackStep_reached ht he hu

/-! ### A run with a repeated acknowledgement -/

/-- Two bytes are sent and acknowledged. -/
def ackedEvents : List AckEvent := [.send false [7, 8] 2, .ack 2 (ackOf 3) 20]

/-- The acknowledgement of the handshake, once more. -/
def staleAck : AckEvent := .ack 0 (ackOf 1) 20

lemma afterHandshakeNet_solePort (base : UInt32) : SolePort (afterHandshakeNet base) 0 := by
  refine ⟨by decide, fun k _ hvalid _ => ?_⟩
  by_contra hk
  rw [show (afterHandshakeNet base).connections k = Connection.zero from
    Function.update_of_ne hk _ _] at hvalid
  cases hvalid

lemma ackedEvents_acknowledge :
    ∀ e ∈ ackedEvents ++ [staleAck],
      Acknowledges ((afterHandshakeNet 1).connections 0) 1 e := by
  intro e he
  simp only [ackedEvents, staleAck, List.mem_append, List.mem_cons, List.not_mem_nil,
    or_false] at he
  rcases he with (rfl | rfl) | rfl
  · trivial
  · exact ⟨by constructor <;> decide +kernel, by decide +kernel, by decide +kernel⟩
  · exact ⟨by constructor <;> decide +kernel, by decide +kernel, by decide +kernel⟩

lemma ackedEvents_run : ∃ t u, Run (ackStep (fun _ => []) 0)
    (AckState.start (afterHandshakeNet 1)) ackedEvents t
      ∧ ackStep (fun _ => []) 0 t staleAck = some u
      ∧ (t.net.connections 0).txAckd = 3 ∧ (u.net.connections 0).txAckd = 1 := by
  have hread : (ackedEvents.foldlM (ackStep (fun _ => []) 0)
      (AckState.start (afterHandshakeNet 1))).bind (fun t =>
        (ackStep (fun _ => []) 0 t staleAck).map fun u =>
          ((t.net.connections 0).txAckd, (u.net.connections 0).txAckd)) = some (3, 1) := by
    decide +kernel
  obtain ⟨t, u, ht, hu, hfacts⟩ := exists_run_step_of_bind hread
  exact ⟨t, u, ht, hu, Prod.mk.inj hfacts⟩

/-- The equivalence applies to the run. -/
theorem ackSafe_iff_repeated :
    EveryState (ackStep (fun _ => []) 0) (AckState.start (afterHandshakeNet 1))
        (ackedEvents ++ [staleAck]) (AckSafe 0 1)
      ↔ EveryStep (ackStep (fun _ => []) 0) (AckState.start (afterHandshakeNet 1))
        (ackedEvents ++ [staleAck]) UpToDate := by
  obtain ⟨t, u, hrun, hu, -⟩ := ackedEvents_run
  exact ackSafe_iff _ (afterHandshakeNet_afterHandshake 1) (afterHandshakeNet_solePort 1)
    ackedEvents_acknowledge (hrun.snoc hu)

/-- **A late acknowledgement**: after two bytes are sent and acknowledged, the first
acknowledgement once more takes `tx_ackd` back by two. -/
theorem ackSafe_staleAck :
    AfterHandshake (afterHandshakeNet 1) 0 1 ∧ SolePort (afterHandshakeNet 1) 0
      ∧ (∀ e ∈ ackedEvents ++ [staleAck],
        Acknowledges ((afterHandshakeNet 1).connections 0) 1 e)
      ∧ ∃ t u, Run (ackStep (fun _ => []) 0) (AckState.start (afterHandshakeNet 1)) ackedEvents t
        ∧ ackStep (fun _ => []) 0 t staleAck = some u
        ∧ (t.net.connections 0).txAckd = 3 ∧ (u.net.connections 0).txAckd = 1 :=
  ⟨afterHandshakeNet_afterHandshake 1, afterHandshakeNet_solePort 1, ackedEvents_acknowledge,
    ackedEvents_run⟩

end CustomLinuxOs
