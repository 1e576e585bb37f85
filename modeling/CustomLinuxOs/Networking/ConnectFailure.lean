import CustomLinuxOs.Foundations.Run
import CustomLinuxOs.Networking.Connect

/-!
What a failed `tcp_connect` leaves in the table of connections.

The slot is marked valid before the address is known, and the return after a failed lookup does
not give it back.

* `Similar`: two network states with the same clock and the same valid connections; events keep
  this (`Similar.netRun`).
* `Beside`: a state with a call in slot `i` and the state without it; events keep this, too.
* `NoTrace`: after the call the state is similar to the one after the same events without it.
* `CleanFailure`, `tcpConnect_noTrace_iff`: exactly when a call that fails leaves no trace.
* `tcpConnect_failures`: the same for any number of failed calls, with a slot left for the next.
-/

namespace CustomLinuxOs

/-! ### Similar states -/

/-- The clock and the valid connections are the same. -/
structure Similar (s t : Net) : Prop where
  counter : s.counter = t.counter
  valid : ∀ k, (s.connections k).isValid = (t.connections k).isValid
  conn : ∀ k, (t.connections k).isValid = true → s.connections k = t.connections k

namespace Similar

variable {s t u : Net}

lemma refl (s : Net) : Similar s s := ⟨rfl, fun _ => rfl, fun _ _ => rfl⟩

lemma symm (h : Similar s t) : Similar t s :=
  ⟨h.counter.symm, fun k => (h.valid k).symm, fun k hk => (h.conn k (h.valid k ▸ hk)).symm⟩

lemma trans (h : Similar s t) (h' : Similar t u) : Similar s u :=
  ⟨h.counter.trans h'.counter, fun k => (h.valid k).trans (h'.valid k),
    fun k hk => (h.conn k ((h'.valid k).trans hk)).trans (h'.conn k hk)⟩

/-- A segment is for the same connection in both. -/
lemma findConnection (h : Similar s t) (header : TcpHeader) :
    findConnection s header = findConnection t header := by
  have hmatch (k : ℕ) : ((s.connections k).isValid && (s.connections k).sourcePort
        == header.destPort && (s.connections k).destPort == header.sourcePort)
      = ((t.connections k).isValid && (t.connections k).sourcePort == header.destPort
        && (t.connections k).destPort == header.sourcePort) := by
    cases hk : (t.connections k).isValid with
    | true => rw [h.conn k hk, hk]
    | false => rw [h.valid k, hk]; rfl
  rw [CustomLinuxOs.findConnection, CustomLinuxOs.findConnection]
  simp only [hmatch]

/-- Changing one connection in the same way. -/
lemma of_sameAt {s' t' : Net} (h : Similar s t) {i : ℕ} (hi : SameAt i s' t')
    (hs : ∀ k ≠ i, s'.connections k = s.connections k)
    (ht : ∀ k ≠ i, t'.connections k = t.connections k) : Similar s' t' := by
  refine ⟨hi.counter, fun k => ?_, fun k hk => ?_⟩
  · rcases eq_or_ne k i with rfl | hki
    · rw [hi.conn]
    · rw [hs k hki, ht k hki, h.valid k]
  · rcases eq_or_ne k i with rfl | hki
    · exact hi.conn
    · rw [ht k hki] at hk
      rw [hs k hki, ht k hki, h.conn k hk]

/-- **One event** keeps states similar. -/
lemma netStep (h : Similar s t) (reply : Ip → List (Mac × Ip)) (e : NetEvent) :
    Similar (netStep reply s e) (netStep reply t e) := by
  cases e with
  | segment packet len =>
      simp only [CustomLinuxOs.netStep, tcpParsePacket, h.findConnection]
      cases hfind : CustomLinuxOs.findConnection t (readTcpHeader packet).1 with
      | none => exact h
      | some i =>
          have hmatch := List.find?_some hfind
          simp only [Bool.and_eq_true] at hmatch
          have hsame : SameAt i s t := ⟨h.counter, h.conn i hmatch.1.1⟩
          exact h.of_sameAt (hsame.input _ _ _) (fun k hk => tcpInput_of_ne _ _ _ _ _ hk)
            fun k hk => tcpInput_of_ne _ _ _ _ _ hk
  | ack idx =>
      simp only [CustomLinuxOs.netStep]
      cases hidx : (t.connections idx).isValid with
      | true =>
          have hsame : SameAt idx s t := ⟨h.counter, h.conn idx hidx⟩
          exact h.of_sameAt hsame.ack (fun k hk => tcpAck_of_ne _ _ hk)
            fun k hk => tcpAck_of_ne _ _ hk
      | false =>
          have hs : (s.connections idx).isValid = false := by rw [h.valid, hidx]
          simp only [tcpAck, hs, hidx, Bool.false_eq_true, if_false]
          exact h
  | tick => exact ⟨congrArg (· + 1) h.counter, h.valid, h.conn⟩

lemma netRun (h : Similar s t) (reply : Ip → List (Mac × Ip)) (events : List NetEvent) :
    Similar (netRun reply s events) (netRun reply t events) := by
  induction events generalizing s t with
  | nil => exact h
  | cons e events ih => exact ih (h.netStep reply e)

end Similar

/-! ### A call and its absence -/

/-- In `s` a call has marked slot `i` and given it its ports, of which the first is on no other
connection; otherwise `s` is similar to `t`, in which the slot is free. -/
structure Beside (i : ℕ) (sourcePort port : UInt16) (s t : Net) : Prop where
  counter : s.counter = t.counter
  valid : ∀ k ≠ i, (s.connections k).isValid = (t.connections k).isValid
  conn : ∀ k ≠ i, (t.connections k).isValid = true → s.connections k = t.connections k
  free : (t.connections i).isValid = false
  source : (s.connections i).sourcePort = sourcePort
  dest : (s.connections i).destPort = port
  unused : ∀ k < NUM_CONNECTIONS, (t.connections k).isValid = true →
    (t.connections k).sourcePort ≠ sourcePort

/-- The event is a reset from the peer of a connection with these ports. -/
def NetEvent.resets (sourcePort port : UInt16) : NetEvent → Bool
  | .segment packet _ =>
      (readTcpHeader packet).1.destPort == sourcePort
        && (readTcpHeader packet).1.sourcePort == port && (readTcpHeader packet).1.flags.rst
  | _ => false

namespace Beside

variable {i : ℕ} {sourcePort port : UInt16} {s t : Net}

lemma similar_iff (h : Beside i sourcePort port s t) :
    Similar s t ↔ (s.connections i).isValid = false := by
  constructor
  · intro hsim
    rw [hsim.valid, h.free]
  · intro hi
    refine ⟨h.counter, fun k => ?_, fun k hk => ?_⟩
    · rcases eq_or_ne k i with rfl | hki
      · rw [hi, h.free]
      · exact h.valid k hki
    · rcases eq_or_ne k i with rfl | hki
      · rw [h.free] at hk
        cases hk
      · exact h.conn k hki hk

/-- A change of the slot itself. -/
lemma of_slot (h : Beside i sourcePort port s t) {s' : Net} (hcounter : s'.counter = s.counter)
    (hs : ∀ k ≠ i, s'.connections k = s.connections k)
    (hsource : (s'.connections i).sourcePort = sourcePort)
    (hdest : (s'.connections i).destPort = port) : Beside i sourcePort port s' t :=
  { h with
    counter := hcounter.trans h.counter
    valid := fun k hk => by rw [hs k hk, h.valid k hk]
    conn := fun k hk hv => by rw [hs k hk, h.conn k hk hv]
    source := hsource
    dest := hdest }

lemma setConnection (h : Beside i sourcePort port s t) {conn : Connection}
    (hsource : conn.sourcePort = sourcePort) (hdest : conn.destPort = port) :
    Beside i sourcePort port (s.setConnection i conn) t :=
  h.of_slot rfl (fun _ hk => setConnection_of_ne _ _ hk) (by rw [setConnection_self, hsource])
    (by rw [setConnection_self, hdest])

lemma setDestIp (h : Beside i sourcePort port s t) (ip : Ip) :
    Beside i sourcePort port (setDestIp s i ip) t :=
  h.setConnection h.source h.dest

/-- Sending touches neither the connections nor the clock. -/
lemma of_eq (h : Beside i sourcePort port s t) {s' : Net} (hconn : s'.connections = s.connections)
    (hcounter : s'.counter = s.counter) : Beside i sourcePort port s' t :=
  h.of_slot hcounter (fun k _ => congrFun hconn k) (by rw [hconn, h.source]) (by rw [hconn, h.dest])

/-- The same change of another connection in both states. -/
lemma of_sameAt (h : Beside i sourcePort port s t) {s' t' : Net} {j : ℕ} (hj : j ≠ i)
    (hsame : SameAt j s' t') (hs : ∀ k ≠ j, s'.connections k = s.connections k)
    (ht : ∀ k ≠ j, t'.connections k = t.connections k)
    (hvalid : (t'.connections j).isValid = true → (t.connections j).isValid = true)
    (hsource : (t'.connections j).sourcePort = (t.connections j).sourcePort) :
    Beside i sourcePort port s' t' := by
  have hi := Ne.symm hj
  refine ⟨hsame.counter, fun k hk => ?_, fun k hk hv => ?_, by rw [ht i hi, h.free],
    by rw [hs i hi, h.source], by rw [hs i hi, h.dest], fun k hk hv => ?_⟩
  · rcases eq_or_ne k j with rfl | hkj
    · rw [hsame.conn]
    · rw [hs k hkj, ht k hkj, h.valid k hk]
  · rcases eq_or_ne k j with rfl | hkj
    · exact hsame.conn
    · rw [ht k hkj] at hv
      rw [hs k hkj, ht k hkj, h.conn k hk hv]
  · rcases eq_or_ne k j with rfl | hkj
    · rw [hsource]
      exact h.unused k hk (hvalid hv)
    · rw [ht k hkj] at hv ⊢
      exact h.unused k hk hv

/-- A segment for the ports of the call is for its slot, as long as that is valid; any other is for
the connection it would be for without the call. -/
lemma findConnection (h : Beside i sourcePort port s t) (hi : i < NUM_CONNECTIONS)
    (header : TcpHeader) :
    if (s.connections i).isValid && header.destPort == sourcePort && header.sourcePort == port then
      CustomLinuxOs.findConnection s header = some i
        ∧ CustomLinuxOs.findConnection t header = none
    else CustomLinuxOs.findConnection s header = CustomLinuxOs.findConnection t header := by
  have hother {k : ℕ} (hk : k ≠ i) : ((s.connections k).isValid
        && (s.connections k).sourcePort == header.destPort
        && (s.connections k).destPort == header.sourcePort)
      = ((t.connections k).isValid && (t.connections k).sourcePort == header.destPort
        && (t.connections k).destPort == header.sourcePort) := by
    cases hv : (t.connections k).isValid with
    | true => rw [h.conn k hk hv, hv]
    | false => rw [h.valid k hk, hv]; rfl
  split
  · rename_i hmatch
    simp only [Bool.and_eq_true, beq_iff_eq] at hmatch
    obtain ⟨⟨hvalid, hdest⟩, hsource⟩ := hmatch
    have hnone : ∀ k < NUM_CONNECTIONS, ((t.connections k).isValid
        && (t.connections k).sourcePort == header.destPort
        && (t.connections k).destPort == header.sourcePort) = false := by
      intro k hk
      cases hv : (t.connections k).isValid with
      | false => rfl
      | true =>
          have hne := h.unused k hk hv
          rw [← hdest] at hne
          simp [hne]
    refine ⟨?_, ?_⟩
    · rw [CustomLinuxOs.findConnection, List.find?_range_eq_some]
      refine ⟨by simp [hvalid, h.source, h.dest, hdest, hsource], List.mem_range.mpr hi,
        fun k hk => ?_⟩
      rw [hother (by omega), hnone k (by omega)]
      rfl
    · rw [CustomLinuxOs.findConnection, List.find?_eq_none]
      intro k hk
      rw [hnone k (List.mem_range.mp hk)]
      exact Bool.false_ne_true
  · rename_i hmatch
    have hall (k : ℕ) : ((s.connections k).isValid
          && (s.connections k).sourcePort == header.destPort
          && (s.connections k).destPort == header.sourcePort)
        = ((t.connections k).isValid && (t.connections k).sourcePort == header.destPort
          && (t.connections k).destPort == header.sourcePort) := by
      rcases eq_or_ne k i with rfl | hk
      · rw [h.free, Bool.false_and, Bool.false_and, ← Bool.not_eq_true]
        intro hs
        apply hmatch
        rw [h.source, h.dest] at hs
        simp only [Bool.and_eq_true, beq_iff_eq] at hs ⊢
        exact ⟨⟨hs.1.1, hs.1.2.symm⟩, hs.2.symm⟩
      · exact hother hk
    rw [CustomLinuxOs.findConnection, CustomLinuxOs.findConnection]
    simp only [hall]

/-- **One event** keeps a call beside its absence, and takes its slot down only by a reset. -/
lemma netStep (h : Beside i sourcePort port s t) (hi : i < NUM_CONNECTIONS)
    (reply : Ip → List (Mac × Ip)) (e : NetEvent) :
    Beside i sourcePort port (netStep reply s e) (netStep reply t e)
      ∧ ((CustomLinuxOs.netStep reply s e).connections i).isValid
        = ((s.connections i).isValid && !e.resets sourcePort port) := by
  cases e with
  | tick =>
      refine ⟨{ h with counter := congrArg (· + 1) h.counter }, ?_⟩
      exact (Bool.and_true _).symm
  | ack idx =>
      simp only [CustomLinuxOs.netStep, NetEvent.resets, Bool.not_false, Bool.and_true]
      rcases eq_or_ne idx i with rfl | hidx
      · obtain ⟨w, hw⟩ := tcpAck_frame reply s idx
        have ht : tcpAck reply t idx = t := by simp [tcpAck, h.free]
        rw [ht]
        refine ⟨h.of_slot (tcpAck_counter reply s idx) (fun k hk => tcpAck_of_ne _ _ hk) ?_ ?_, ?_⟩
        · rw [hw, h.source]
        · rw [hw, h.dest]
        · rw [hw]
      · rw [tcpAck_of_ne reply s (Ne.symm hidx)]
        refine ⟨?_, rfl⟩
        cases hv : (t.connections idx).isValid with
        | false =>
            have hs : (s.connections idx).isValid = false := by rw [h.valid idx hidx, hv]
            simp only [tcpAck, hs, hv, Bool.false_eq_true, if_false]
            exact h
        | true =>
            have hsame : SameAt idx s t := ⟨h.counter, h.conn idx hidx hv⟩
            obtain ⟨w, hw⟩ := tcpAck_frame reply t idx
            exact h.of_sameAt hidx hsame.ack (fun k hk => tcpAck_of_ne _ _ hk)
              (fun k hk => tcpAck_of_ne _ _ hk) (fun _ => hv) (by rw [hw])
  | segment packet len =>
      have hfind := h.findConnection hi (readTcpHeader packet).1
      simp only [CustomLinuxOs.netStep, tcpParsePacket, NetEvent.resets]
      split at hfind
      · rename_i hmatch
        simp only [Bool.and_eq_true] at hmatch
        obtain ⟨hvalid, hsource, hdest, -⟩ := tcpInput_frame reply s i (readTcpHeader packet).1
          (readTcpHeader packet).2 len
        rw [hfind.1, hfind.2]
        refine ⟨h.of_slot (tcpInput_counter _ _ _ _ _ _) (fun k hk => tcpInput_of_ne _ _ _ _ _ hk)
          (hsource.trans h.source) (hdest.trans h.dest), ?_⟩
        rw [hvalid, hmatch.1.2, hmatch.2, Bool.true_and, Bool.true_and]
      · rename_i hmatch
        have hreset : ((s.connections i).isValid
            && !((readTcpHeader packet).1.destPort == sourcePort
              && (readTcpHeader packet).1.sourcePort == port && (readTcpHeader packet).1.flags.rst))
            = (s.connections i).isValid := by
          cases hvalid : (s.connections i).isValid with
          | false => rfl
          | true =>
              rw [hvalid, Bool.true_and, Bool.not_eq_true] at hmatch
              rw [hmatch]
              rfl
        rw [hfind, hreset]
        cases hfound : CustomLinuxOs.findConnection t (readTcpHeader packet).1 with
        | none => exact ⟨h, rfl⟩
        | some j =>
            have hj := List.find?_some hfound
            simp only [Bool.and_eq_true] at hj
            have hne : j ≠ i := by
              rintro rfl
              rw [h.free] at hj
              exact Bool.false_ne_true hj.1.1
            have hsame : SameAt j s t := ⟨h.counter, h.conn j hne hj.1.1⟩
            obtain ⟨-, hsource, -⟩ := tcpInput_frame reply t j (readTcpHeader packet).1
              (readTcpHeader packet).2 len
            refine ⟨h.of_sameAt hne (hsame.input _ _ _) (fun k hk => tcpInput_of_ne _ _ _ _ _ hk)
              (fun k hk => tcpInput_of_ne _ _ _ _ _ hk) (fun _ => hj.1.1) hsource, ?_⟩
            simp only [tcpInput_of_ne _ _ _ _ _ (Ne.symm hne)]

lemma netRun (h : Beside i sourcePort port s t) (hi : i < NUM_CONNECTIONS)
    (reply : Ip → List (Mac × Ip)) (events : List NetEvent) :
    Beside i sourcePort port (netRun reply s events) (netRun reply t events)
      ∧ ((CustomLinuxOs.netRun reply s events).connections i).isValid
        = ((s.connections i).isValid && !events.any (NetEvent.resets sourcePort port)) := by
  induction events generalizing s t with
  | nil => exact ⟨h, by simp [CustomLinuxOs.netRun]⟩
  | cons e events ih =>
      obtain ⟨hstep, hvalid⟩ := h.netStep hi reply e
      obtain ⟨hrun, hrest⟩ := ih hstep
      refine ⟨hrun, ?_⟩
      rw [List.any_cons, Bool.not_or, ← Bool.and_assoc, ← hvalid]
      exact hrest

end Beside

/-! ### One call -/

/-- The return leaves the valid connections as they are after the same events without the call. -/
def NoTrace (reply : Ip → List (Mac × Ip)) (s : Net) (r : ConnectResult) : Prop :=
  Similar r.host.net (netRun reply s r.events)

/-- No slot is free, the address is known, or a reset has taken the slot down before the answer is
read. -/
def CleanFailure (h : Host) (domain : List UInt8) (port : UInt16) (env : ConnectEnv) : Prop :=
  tcpFreeSlot h.net = none
    ∨ (parseIp domain (Vector.replicate 4 0)).1 = true
    ∨ (dnsParse env.answer h.xidBase).isSome = true
    ∨ env.resolving.any (NetEvent.resets (tcpSourcePort h.net) port) = true

lemma netRun_append (reply : Ip → List (Mac × Ip)) (s : Net) (es fs : List NetEvent) :
    netRun reply s (es ++ fs) = netRun reply (netRun reply s es) fs :=
  List.foldl_append

section Call

variable {reply : Ip → List (Mac × Ip)} {i : ℕ} {sourcePort port : UInt16}

/-- The slot of a new call. -/
lemma tcpFreeSlot_spec {s : Net} (hi : tcpFreeSlot s = some i) :
    i < NUM_CONNECTIONS ∧ (s.connections i).isValid = false := by
  refine ⟨List.mem_range.mp (List.mem_of_find?_eq_some hi), ?_⟩
  have hfree := List.find?_some hi
  simpa using hfree

/-- Marking the slot. -/
lemma beside_marked {s : Net} (hi : tcpFreeSlot s = some i) {conn : Connection}
    (hsource : conn.sourcePort = tcpSourcePort s) (hdest : conn.destPort = port) :
    Beside i (tcpSourcePort s) port (s.setConnection i conn) s where
  counter := rfl
  valid k hk := by rw [setConnection_of_ne _ _ hk]
  conn k hk _ := setConnection_of_ne _ _ hk
  free := (tcpFreeSlot_spec hi).2
  source := by rw [setConnection_self, hsource]
  dest := by rw [setConnection_self, hdest]
  unused k hk hvalid := tcpSourcePort_free s k hk hvalid

/-- **A handshake that fails** leaves no trace: its slot is no longer valid. -/
lemma Beside.handshake {s t s' : Net} (h : Beside i sourcePort port s t) (hi : i < NUM_CONNECTIONS)
    {events : List NetEvent} (hfail : tcpHandshake reply s i events = some (none, s')) :
    Similar s' (CustomLinuxOs.netRun reply t events) := by
  have hreset : Beside i sourcePort port (s.setConnection i (tcpReset (s.connections i))) t :=
    h.setConnection h.source h.dest
  have hsyn := hreset.of_eq (tcpWrite_connections reply _ i TCP_SYN 0)
    (tcpWrite_counter reply _ i TCP_SYN 0)
  obtain ⟨hrun, -⟩ := hsyn.netRun hi reply events
  simp only [tcpHandshake] at hfail
  split at hfail
  · cases hfail
  · obtain ⟨hvalue, rfl⟩ := Prod.mk.inj (Option.some.inj hfail)
    rw [hrun.similar_iff]
    split at hvalue
    · cases hvalue
    · rename_i hvalid
      exact Bool.eq_false_iff.mpr hvalid

/-- What is left when the call ends with the handshake. -/
lemma noTrace_of_handshake {s t : Net} {h : Host} {es fs : List NetEvent} {r : ConnectResult}
    (hbeside : Beside i sourcePort port s (netRun reply t es)) (hi : i < NUM_CONNECTIONS)
    (hr : ((tcpHandshake reply s i fs).map fun q =>
      ({ value := q.1, host := { h with net := q.2 }, events := es ++ fs } : ConnectResult))
        = some r) (hfail : r.value = none) : NoTrace reply t r := by
  obtain ⟨⟨value, s'⟩, hq, rfl⟩ := Option.map_eq_some_iff.mp hr
  simp only at hfail
  rw [hfail] at hq
  rw [NoTrace, netRun_append]
  exact hbeside.handshake hi hq

end Call

/-- **A call that fails** leaves no trace exactly when the failure is clean. -/
theorem tcpConnect_noTrace_iff (reply : Ip → List (Mac × Ip)) (h : Host) (domain : List UInt8)
    (port : UInt16) (env : ConnectEnv) :
    (∀ r, tcpConnect reply h domain port env = some r → r.value = none → NoTrace reply h.net r)
      ↔ CleanFailure h domain port env := by
  rw [CleanFailure]
  simp only [tcpConnect]
  cases hslot : tcpFreeSlot h.net with
  | none =>
      refine iff_of_true (fun r hr _ => ?_) (.inl rfl)
      rw [← Option.some.inj hr]
      exact Similar.refl _
  | some i =>
      have hi := (tcpFreeSlot_spec hslot).1
      set conn := { h.net.connections i with
        isValid := true, destPort := port, sourcePort := tcpSourcePort h.net } with hconn
      set marked := h.net.setConnection i
        { conn with destIp := (parseIp domain conn.destIp).2 } with hmarked
      have hbeside : Beside i (tcpSourcePort h.net) port marked h.net :=
        beside_marked hslot rfl rfl
      have hvalid : (marked.connections i).isValid = true := by rw [hmarked, setConnection_self]
      simp only [reduceCtorEq, false_or]
      cases hquad : (parseIp domain conn.destIp).1 with
      | true =>
          -- a dotted quad
          rw [parseIp_congr domain _ conn.destIp, hquad]
          refine iff_of_true (fun r hr hfail => ?_) (.inl rfl)
          exact noTrace_of_handshake (hbeside.netRun hi reply env.resolving).1 hi hr hfail
      | false =>
          rw [parseIp_congr domain _ conn.destIp, hquad]
          have hsent := udpSendPacket_rest reply marked h.dnsIp DNS_PORT (PORT_OFFSET + h.xidBase)
            (dnsRequest domain h.xidBase) (dnsRequest domain h.xidBase).length.toUInt16
          have hasked := hbeside.of_eq hsent.1 hsent.2
          obtain ⟨hrun, hrest⟩ := hasked.netRun hi reply env.resolving
          simp only [Bool.false_eq_true, if_false, false_or]
          cases hanswer : dnsParse env.answer h.xidBase with
          | some ip =>
              refine iff_of_true (fun r hr hfail => ?_) (.inl rfl)
              exact noTrace_of_handshake (hrun.setDestIp ip) hi hr hfail
          | none =>
              -- the return after a failed lookup
              simp only [Option.isSome_none, Bool.false_eq_true, false_or]
              rw [hsent.1, hvalid, Bool.true_and] at hrest
              constructor
              · intro hall
                have htrace := hall _ rfl rfl
                have hdown := hrun.similar_iff.mp htrace
                rw [hrest] at hdown
                simpa using hdown
              · intro hreset r hr _
                rw [← Option.some.inj hr]
                rw [hreset] at hrest
                exact hrun.similar_iff.mpr hrest

/-! ### Any number of calls -/

/-- The host, and the network state after the same events without any of the calls. -/
structure Attempts where
  host : Host
  alone : Net

/-- Something that happens between the calls, or a call. -/
inductive ConnectEvent where
  | net (e : NetEvent)
  | call (domain : List UInt8) (port : UInt16) (env : ConnectEnv)

/-- A call that returns `-1`, or what happens in between. -/
def connectStep (reply : Ip → List (Mac × Ip)) (t : Attempts) : ConnectEvent → Option Attempts
  | .net e => some {
      host := { t.host with net := netStep reply t.host.net e }
      alone := netStep reply t.alone e }
  | .call domain port env =>
      match tcpConnect reply t.host domain port env with
      | some { value := none, host, events } =>
          some { host, alone := netRun reply t.alone events }
      | _ => none

/-- The calls have left no trace so far. -/
def Attempts.NoTrace (t : Attempts) : Prop := Similar t.host.net t.alone

/-- The condition, for a call. -/
def CleanStep (t : Attempts) : ConnectEvent → Prop
  | .net _ => True
  | .call domain port env => CleanFailure t.host domain port env

/-- A step that fails keeps the calls without trace exactly when it is clean. -/
lemma connectStep_noTrace_iff {reply : Ip → List (Mac × Ip)} {t u : Attempts} {e : ConnectEvent}
    (ht : t.NoTrace) (hu : connectStep reply t e = some u) : u.NoTrace ↔ CleanStep t e := by
  cases e with
  | net e =>
      obtain rfl := Option.some.inj hu
      exact iff_of_true (ht.netStep reply e) trivial
  | call domain port env =>
      simp only [connectStep] at hu
      split at hu
      · rename_i host events hcall
        obtain rfl := Option.some.inj hu
        have hiff := tcpConnect_noTrace_iff reply t.host domain port env
        rw [hcall] at hiff
        rw [CleanStep, ← hiff]
        have halone := ht.netRun reply events
        constructor
        · rintro h r hr -
          obtain rfl := Option.some.inj hr
          exact h.trans halone.symm
        · intro h
          exact (h _ rfl rfl).trans halone
      · cases hu

/-- Events take no slot. -/
lemma netStep_isFree {reply : Ip → List (Mac × Ip)} {s : Net} {k : ℕ} (e : NetEvent)
    (hk : (s.connections k).isValid = false) :
    ((netStep reply s e).connections k).isValid = false := by
  cases e with
  | tick => exact hk
  | ack idx =>
      rcases eq_or_ne k idx with rfl | hidx
      · obtain ⟨w, hw⟩ := tcpAck_frame reply s k
        rw [netStep, hw, hk]
      · rw [netStep, tcpAck_of_ne _ _ hidx, hk]
  | segment packet len =>
      simp only [netStep, tcpParsePacket]
      cases findConnection s (readTcpHeader packet).1 with
      | none => exact hk
      | some i =>
          rcases eq_or_ne k i with rfl | hki
          · obtain ⟨hvalid, -⟩ := tcpInput_frame reply s k (readTcpHeader packet).1
              (readTcpHeader packet).2 len
            simp only [hvalid, hk, Bool.false_and]
          · simp only [tcpInput_of_ne _ _ _ _ _ hki, hk]

lemma netRun_isFree {reply : Ip → List (Mac × Ip)} {s : Net} {k : ℕ} (events : List NetEvent)
    (hk : (s.connections k).isValid = false) :
    ((netRun reply s events).connections k).isValid = false := by
  induction events generalizing s with
  | nil => exact hk
  | cons e events ih => exact ih (netStep_isFree e hk)

/-- A slot that is free at first is free without the calls later. -/
lemma run_alone_isFree {reply : Ip → List (Mac × Ip)} {t u : Attempts} {es : List ConnectEvent}
    (hrun : Run (connectStep reply) t es u) {k : ℕ}
    (hk : (t.alone.connections k).isValid = false) :
    (u.alone.connections k).isValid = false := by
  refine Run.invariant (P := fun t => (t.alone.connections k).isValid = false) hrun hk
    fun t e u ht hu => ?_
  cases e with
  | net e =>
      obtain rfl := Option.some.inj hu
      exact netStep_isFree e ht
  | call domain port env =>
      simp only [connectStep] at hu
      split at hu
      · obtain rfl := Option.some.inj hu
        exact netRun_isFree _ ht
      · cases hu

/-- **Failed calls.**  A call that fails leaves no trace exactly when the failure is clean.  Any
number of calls that all fail leaves no trace at any time exactly when every failure is clean, and
then a slot that was free before them is still free for the next call. -/
theorem tcpConnect_failures (reply : Ip → List (Mac × Ip)) (h : Host) :
    (∀ domain port env,
      (∀ r, tcpConnect reply h domain port env = some r → r.value = none → NoTrace reply h.net r)
        ↔ CleanFailure h domain port env)
      ∧ ∀ es z, Run (connectStep reply) { host := h, alone := h.net } es z →
        (EveryState (connectStep reply) { host := h, alone := h.net } es Attempts.NoTrace
          ↔ EveryStep (connectStep reply) { host := h, alone := h.net } es CleanStep)
        ∧ (EveryStep (connectStep reply) { host := h, alone := h.net } es CleanStep →
            (tcpFreeSlot h.net).isSome = true → (tcpFreeSlot z.host.net).isSome = true) := by
  refine ⟨tcpConnect_noTrace_iff reply h, fun es z hrun => ?_⟩
  have hiff : EveryState (connectStep reply) { host := h, alone := h.net } es Attempts.NoTrace
      ↔ EveryStep (connectStep reply) { host := h, alone := h.net } es CleanStep :=
    everyState_iff_everyStep (V := fun _ => True) (I := fun _ => True) hrun (fun _ _ => trivial)
      trivial (Similar.refl _) (fun _ _ _ _ _ ht hu => connectStep_noTrace_iff ht hu)
      fun _ _ _ _ _ _ _ _ => trivial
  refine ⟨hiff, fun hclean hslot => ?_⟩
  have hlast := (hiff.mpr hclean).last hrun
  obtain ⟨i, hi⟩ := Option.isSome_iff_exists.mp hslot
  obtain ⟨hlt, hfree⟩ := tcpFreeSlot_spec hi
  have hstill := run_alone_isFree hrun (k := i) hfree
  rw [tcpFreeSlot, List.find?_isSome]
  refine ⟨i, List.mem_range.mpr hlt, ?_⟩
  rw [hlast.valid i, hstill]
  rfl

/-- A call with the name `x`, whose lookup is not answered. -/
def unanswered : ConnectEvent := .call [120] 80 { resolving := [], answer := [], handshake := [] }

/-- **The leak**: one call whose lookup fails keeps its slot, and eight of them leave none. -/
theorem tcpConnect_leak :
    (¬ ∀ (h : Host) (domain : List UInt8) (port : UInt16) (env : ConnectEnv) (r : ConnectResult),
        tcpConnect (fun _ => []) h domain port env = some r → r.value = none →
          NoTrace (fun _ => []) h.net r)
      ∧ ∃ z, Run (connectStep fun _ => [])
          { host := ⟨Net.boot, #v[8, 8, 8, 8], 0⟩, alone := Net.boot }
          (List.replicate 8 unanswered) z
        ∧ tcpFreeSlot Net.boot = some 0 ∧ tcpFreeSlot z.host.net = none := by
  constructor
  · intro h
    have hclean : CleanFailure ⟨Net.boot, #v[8, 8, 8, 8], 0⟩ [120] 80
        { resolving := [], answer := [], handshake := [] } :=
      (tcpConnect_noTrace_iff (fun _ => []) _ _ _ _).mp fun r => h _ _ _ _ r
    rcases hclean with hslot | hquad | hanswer | hreset
    · exact absurd hslot (by decide)
    · exact absurd hquad (by decide)
    · exact absurd hanswer (by decide)
    · exact absurd hreset (by decide)
  · have hread : ((List.replicate 8 unanswered).foldlM (connectStep fun _ => [])
        { host := ⟨Net.boot, #v[8, 8, 8, 8], 0⟩, alone := Net.boot }).map
          (fun z => tcpFreeSlot z.host.net) = some none := by decide +kernel
    obtain ⟨z, hz, hvalue⟩ := exists_run_of_map hread
    exact ⟨z, hz, by decide, hvalue⟩

end CustomLinuxOs
