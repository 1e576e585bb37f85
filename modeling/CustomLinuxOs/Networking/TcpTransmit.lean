import CustomLinuxOs.Foundations.Run
import CustomLinuxOs.Networking.TxRing

/-!
The transmit side of one connection as a system that takes steps, and what its segments carry.

* `SendallCall`, `TxState`, `TxEvent`, `txStep`: calls of `tcp_send`, the passes of the loops of
  `tcp_sendall` calls, and segments from the peer, in any order.  The state keeps all bytes
  accepted so far.
* `AckInRange`: a segment is no SYN and acknowledges nothing old and nothing unaccepted.
* `CarriesAccepted`: the segment in a frame is a stretch of the accepted bytes under its
  sequence number.
* `tcpTransmit_carriesAccepted`: this is so of all segments, and never are more bytes in flight
  than the ring has slots.
-/

namespace CustomLinuxOs

/-! ### Events -/

/-- The variables of a call of `tcp_sendall` that is in its loop. -/
structure SendallCall where
  data : List UInt8
  len : UInt32
  sent : UInt32

/-- The network state, the bytes accepted by `tcp_send` so far, and the calls of `tcp_sendall`
that are running, by their callers. -/
structure TxState where
  net : Net
  accepted : List UInt8
  calls : ℕ → Option SendallCall

/-- What happens on the transmit side of a connection.  A call that has `waited` for space is
past the test for a closed connection. -/
inductive TxEvent where
  | send (waited : Bool) (data : List UInt8) (len : UInt32)
  | sendall (caller : ℕ) (data : List UInt8) (len : UInt32)
  | pass (caller : ℕ) (waited : Bool)
  | segment (packet : List UInt8) (len : UInt32)

section Step

variable (reply : Ip → List (Mac × Ip)) (idx : ℕ)

/-- `tcp_send`, from its waiting loop on if it has waited. -/
def tcpSendFrom (waited : Bool) (s : Net) (data : List UInt8) (len : UInt32) :
    Option (UInt32 × Net) :=
  if waited then tcpSendRest reply s idx data len else tcpSend reply s idx data len

/-- One event.  `tcp_sendall` is entered unless the connection is closed; a pass of its loop is a
call of `tcp_send` on what is left, and the loop ends when the connection is gone or all is
sent. -/
def txStep : TxState → TxEvent → Option TxState
  | t, .send waited data len =>
      (tcpSendFrom reply idx waited t.net data len).map fun r =>
        { t with net := r.2, accepted := t.accepted ++ bytesAt data r.1.toNat }
  | t, .sendall caller data len =>
      if (t.net.connections idx).isClosed then some t
      else some { t with
        calls := Function.update t.calls caller (some { data := data, len := len, sent := 0 }) }
  | t, .pass caller waited =>
      match t.calls caller with
      | none => none
      | some call =>
          if (t.net.connections idx).isValid && decide (call.sent < call.len) then
            let data := call.data.drop call.sent.toNat
            (tcpSendFrom reply idx waited t.net data (call.len - call.sent)).map fun r =>
              { net := r.2
                accepted := t.accepted ++ bytesAt data r.1.toNat
                calls := Function.update t.calls caller
                  (some { call with sent := call.sent + r.1 }) }
          else some { t with calls := Function.update t.calls caller none }
  | t, .segment packet len => some { t with net := tcpParsePacket reply t.net packet len }

end Step

/-- The state in which nothing is sent yet. -/
def TxState.start (s : Net) : TxState where
  net := s
  accepted := []
  calls := fun _ => none

/-- The handshake of connection `idx` is done, and `base` is the number its data starts with. -/
structure AfterHandshake (s : Net) (idx : ℕ) (base : UInt32) : Prop where
  valid : (s.connections idx).isValid = true
  opened : (s.connections idx).isOpen = true
  ackd : (s.connections idx).txAckd = base
  sendable : (s.connections idx).txSendable = base

/-- A segment that is for some connection is for `idx`, is no SYN, and acknowledges a number from
`tx_ackd` to `tx_sendable`, if any. -/
def AckInRange (idx : ℕ) (t : TxState) : TxEvent → Prop
  | .segment packet _ =>
      ∀ i, findConnection t.net (readTcpHeader packet).1 = some i →
        i = idx ∧ (readTcpHeader packet).1.flags.syn = false
          ∧ ((readTcpHeader packet).1.flags.ack = true →
            ((readTcpHeader packet).1.ack - (t.net.connections idx).txAckd).toNat
              ≤ ((t.net.connections idx).txSendable - (t.net.connections idx).txAckd).toNat)
  | _ => True

/-- The segment in a frame begins with the accepted byte `n`, under the number `base + n`, and
carries the bytes that follow; there are at most a ring of them. -/
def CarriesAccepted (base : UInt32) (accepted frame : List UInt8) : Prop :=
  ∃ n ≤ accepted.length, accepted.length ≤ n + BUFFER_SIZE
    ∧ (frameSegment frame).1.seq = base + n.toUInt32
    ∧ (frameSegment frame).2 = (accepted.drop n).take (frameSegment frame).2.length

/-! ### One step -/

section Steps

variable {reply : Ip → List (Mac × Ip)} {idx : ℕ} {base : UInt32}

/-- Where the accepted bytes stand: some of them are acknowledged, the ring holds the others. -/
def Sending (idx : ℕ) (base : UInt32) (t : TxState) : Prop :=
  ∃ a, TxAt base (t.net.connections idx).txSide a t.accepted

lemma TxAt.carriesAccepted {v : TxSide} {a : ℕ} {accepted frame : List UInt8}
    (h : TxAt base v a accepted) (hf : FromRing v frame) :
    CarriesAccepted base accepted frame := by
  obtain ⟨hseq, hdata⟩ := h.fromRing hf
  exact ⟨a, h.counters.le, h.counters.bound, hseq, hdata⟩

/-- A call that gets through, whether it waited or not. -/
lemma tcpSendFrom_spec {waited : Bool} {s s' : Net} {data : List UInt8} {len m : UInt32}
    (h : tcpSendFrom reply idx waited s data len = some (m, s')) :
    Accepts idx data m.toNat s s' ∧ m.toNat ≤ len.toNat
      ∧ m.toNat ≤ ((s.connections idx).txAckd + BUFFER_SIZE.toUInt32
          - (s.connections idx).txSendable).toNat := by
  rw [tcpSendFrom] at h
  cases waited with
  | true => exact tcpSendRest_spec h
  | false => exact tcpSend_spec h

lemma tcpSendFrom_sending {waited : Bool} {t u : TxState} {data : List UInt8} {len m : UInt32}
    {s' : Net} (ht : Sending idx base t)
    (h : tcpSendFrom reply idx waited t.net data len = some (m, s'))
    (hnet : u.net = s') (haccepted : u.accepted = t.accepted ++ bytesAt data m.toNat) :
    Sending idx base u ∧ Emits t.net u.net (CarriesAccepted base u.accepted) := by
  obtain ⟨a, hat⟩ := ht
  obtain ⟨haccepts, -, hm⟩ := tcpSendFrom_spec h
  have hnew : TxAt base (u.net.connections idx).txSide a u.accepted := by
    rw [hnet, haccepted, haccepts.txSide]
    exact hat.accept data hm
  refine ⟨⟨a, hnew⟩, ?_⟩
  rw [hnet] at hnew ⊢
  exact haccepts.emits.mono fun f hf => hnew.carriesAccepted hf

/-- A segment with an acknowledgement in range. -/
lemma segment_sending {t : TxState} {packet : List UInt8} {len : UInt32}
    (ht : Sending idx base t) (hack : AckInRange idx t (.segment packet len)) :
    Sending idx base { t with net := tcpParsePacket reply t.net packet len }
      ∧ Emits t.net (tcpParsePacket reply t.net packet len) (CarriesAccepted base t.accepted) := by
  obtain ⟨a, hat⟩ := ht
  set h := (readTcpHeader packet).1 with hh
  simp only [AckInRange, ← hh] at hack
  simp only [tcpParsePacket, ← hh]
  cases hfind : findConnection t.net h with
  | none => exact ⟨⟨a, hat⟩, Emits.of_eq rfl⟩
  | some i =>
      obtain ⟨rfl, hsyn, hrange⟩ := hack i hfind
      obtain ⟨hside, hemits⟩ := tcpInput_txSide reply t.net i h (readTcpHeader packet).2 len hsyn
      have hnew : ∃ p, TxAt base ((t.net.connections i).txSide.handleAck h) p t.accepted := by
        rw [TxSide.handleAck]
        split
        · rename_i hflag
          have hle := hrange hflag
          have hflight : ((t.net.connections i).txSendable
              - (t.net.connections i).txAckd).toNat = t.accepted.length - a :=
            hat.counters.inFlight
          rw [hflight] at hle
          set d := (h.ack - (t.net.connections i).txAckd).toNat with hd
          have hacked : h.ack = base + (a + d).toUInt32 := by
            have hackd : (t.net.connections i).txAckd = base + a.toUInt32 := hat.counters.ackd
            have hd32 : d.toUInt32 = h.ack - (t.net.connections i).txAckd := by simp [hd]
            rw [toUInt32_add, hd32, hackd]
            grind
          have hale := hat.counters.le
          refine ⟨a + d, ?_⟩
          rw [hacked]
          exact hat.acknowledge (by omega) (by omega)
        · exact ⟨a, hat⟩
      obtain ⟨p, hp⟩ := hnew
      refine ⟨⟨p, ?_⟩, hemits.mono fun f hf => hp.carriesAccepted hf⟩
      rw [← hside] at hp
      exact hp

/-- **One step** keeps the accepted bytes in the ring until they are acknowledged, and what it
sends are stretches of them. -/
theorem txStep_sending {t u : TxState} {e : TxEvent} (ht : Sending idx base t)
    (hack : AckInRange idx t e) (hu : txStep reply idx t e = some u) :
    Sending idx base u ∧ Emits t.net u.net (CarriesAccepted base u.accepted) := by
  cases e with
  | send waited data len =>
      obtain ⟨⟨m, s'⟩, hsend, rfl⟩ := Option.map_eq_some_iff.mp hu
      exact tcpSendFrom_sending ht hsend rfl rfl
  | sendall caller data len =>
      rw [txStep] at hu
      split at hu
      · cases hu
        exact ⟨ht, Emits.of_eq rfl⟩
      · cases hu
        exact ⟨ht, Emits.of_eq rfl⟩
  | pass caller waited =>
      rw [txStep] at hu
      cases hcall : t.calls caller with
      | none => rw [hcall] at hu; cases hu
      | some call =>
          simp only [hcall] at hu
          split at hu
          · obtain ⟨⟨m, s'⟩, hsend, rfl⟩ := Option.map_eq_some_iff.mp hu
            exact tcpSendFrom_sending ht hsend rfl rfl
          · cases hu
            exact ⟨ht, Emits.of_eq rfl⟩
  | segment packet len =>
      cases hu
      exact segment_sending ht hack

end Steps

/-! ### Runs -/

lemma AfterHandshake.sending {s : Net} {idx : ℕ} {base : UInt32} (h : AfterHandshake s idx base) :
    Sending idx base (TxState.start s) := by
  refine ⟨0, ⟨?_, ?_, le_rfl, Nat.zero_le _⟩, rfl⟩
  · simp [TxState.start, Connection.txSide, h.ackd]
  · simp [TxState.start, Connection.txSide, h.sendable]

/-- **The segments of a TCP connection.**  After the handshake let calls of `tcp_send` and
`tcp_sendall` and segments of the peer come in any order, the acknowledgements in range.  In
every state of the run at most `BUFFER_SIZE` bytes are in flight, and what the next event sends
are stretches of the accepted bytes, each under the sequence number of its first byte. -/
theorem tcpTransmit_carriesAccepted (reply : Ip → List (Mac × Ip)) {idx : ℕ} {base : UInt32}
    {s : Net} {es : List TxEvent} (hstart : AfterHandshake s idx base)
    (hacks : EveryStep (txStep reply idx) (TxState.start s) es (AckInRange idx)) :
    EveryState (txStep reply idx) (TxState.start s) es fun t =>
      ((t.net.connections idx).txSendable - (t.net.connections idx).txAckd).toNat ≤ BUFFER_SIZE
        ∧ ∀ e u, AckInRange idx t e → txStep reply idx t e = some u →
          Emits t.net u.net (CarriesAccepted base u.accepted) := by
  have hall : EveryState (txStep reply idx) (TxState.start s) es (Sending idx base) :=
    hacks.everyState hstart.sending fun t e u ht hack hu => (txStep_sending ht hack hu).1
  intro pre post t hes ht
  have hsending := hall pre post t hes ht
  refine ⟨?_, fun e u hack hu => (txStep_sending hsending hack hu).2⟩
  obtain ⟨a, hat⟩ := hsending
  have hflight : ((t.net.connections idx).txSendable - (t.net.connections idx).txAckd).toNat
      = t.accepted.length - a := hat.counters.inFlight
  have hbound := hat.counters.bound
  rw [hflight]
  omega

/-! ### A small run -/

/-- A connection after its handshake whose next hop is in the cache; the peer's window is
small. -/
def afterHandshakeNet (base : UInt32) : Net :=
  { Net.boot.setConnection 0
      { Connection.zero with
        isValid := true, isOpen := true, sourcePort := 0x8000, destPort := 80,
        txAckd := base, txSendable := base, mss := 1460, windowSize := 2 } with
    arpCacheLen := 1 }

/-- An acknowledgement of the peer, without data. -/
def ackOf (ack : UInt32) : List UInt8 :=
  writeU16 80 ++ writeU16 0x8000 ++ writeU32 0 ++ writeU32 ack ++ [0x50, 0x10]
    ++ writeU16 2048 ++ writeU16 0 ++ writeU16 0

/-- Three bytes are offered and the first two accepted. -/
def firstPass : List TxEvent := [.sendall 0 [1, 2, 3] 3, .pass 0 false]

/-- The two are acknowledged with a wider window, and the last byte follows. -/
def sendEvents : List TxEvent := firstPass ++ [.segment (ackOf 1) 20, .pass 0 false]

lemma afterHandshakeNet_afterHandshake (base : UInt32) :
    AfterHandshake (afterHandshakeNet base) 0 base :=
  ⟨rfl, rfl, rfl, rfl⟩

/-- The acknowledgement finds both bytes in flight. -/
lemma sendEvents_ackInRange :
    EveryStep (txStep (fun _ => []) 0) (TxState.start (afterHandshakeNet 0xFFFFFFFF)) sendEvents
      (AckInRange 0) := by
  have hfound : (firstPass.foldlM (txStep (fun _ => []) 0)
      (TxState.start (afterHandshakeNet 0xFFFFFFFF))).map
      (fun t => (findConnection t.net (readTcpHeader (ackOf 1)).1,
        (t.net.connections 0).txAckd, (t.net.connections 0).txSendable))
      = some (some 0, 0xFFFFFFFF, 1) := by decide +kernel
  obtain ⟨t, ht, hfacts⟩ := exists_run_of_map hfound
  obtain ⟨t₁, h₁, hrest⟩ := run_cons_iff.mp ht
  obtain ⟨t₂, h₂, hnil⟩ := run_cons_iff.mp hrest
  obtain rfl := run_nil_iff.mp hnil
  obtain ⟨hfind, hackd, hsendable⟩ : _ ∧ _ ∧ _ := by simpa only [Prod.mk.injEq] using hfacts
  refine EveryStep.cons h₁ trivial (EveryStep.cons h₂ trivial (EveryStep.cons rfl ?_ ?_))
  · intro i hi
    rw [hfind] at hi
    cases hi
    rw [hackd, hsendable]
    exact ⟨rfl, by decide, fun _ => by decide⟩
  · intro pre e post t hes ht
    cases pre with
    | nil =>
        obtain ⟨rfl, -⟩ := List.cons.inj hes
        trivial
    | cons f pre => simp at hes

lemma sendEvents_run : ∃ z, Run (txStep (fun _ => []) 0)
    (TxState.start (afterHandshakeNet 0xFFFFFFFF)) sendEvents z ∧ z.accepted = [1, 2, 3] := by
  have hread : (sendEvents.foldlM (txStep (fun _ => []) 0)
      (TxState.start (afterHandshakeNet 0xFFFFFFFF))).map TxState.accepted = some [1, 2, 3] := by
    decide +kernel
  exact exists_run_of_map hread

/-- The theorem applies to this run, in which three bytes are accepted across the wrap. -/
theorem tcpTransmit_carriesAccepted_wrap :
    (∃ z, Run (txStep (fun _ => []) 0) (TxState.start (afterHandshakeNet 0xFFFFFFFF))
        sendEvents z ∧ z.accepted = [1, 2, 3])
    ∧ EveryState (txStep (fun _ => []) 0) (TxState.start (afterHandshakeNet 0xFFFFFFFF))
        sendEvents fun t =>
      ((t.net.connections 0).txSendable - (t.net.connections 0).txAckd).toNat ≤ BUFFER_SIZE
        ∧ ∀ e u, AckInRange 0 t e → txStep (fun _ => []) 0 t e = some u →
          Emits t.net u.net (CarriesAccepted 0xFFFFFFFF u.accepted) :=
  ⟨sendEvents_run,
    tcpTransmit_carriesAccepted _ (afterHandshakeNet_afterHandshake _) sendEvents_ackInRange⟩

end CustomLinuxOs
