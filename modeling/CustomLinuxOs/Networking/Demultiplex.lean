import CustomLinuxOs.Networking.ConnectFailure
import CustomLinuxOs.Networking.RxRing

/-!
Which connection a segment is for: the ports of the valid connections, over all runs.

A call of `tcp_connect` is taken apart here, so that segments, timers and readers come between the
passes of its loops and during its waits, and so that calls may wait at the same time.

* `PortSearch`, `PortSearch.look`: the search for a source port, one pass of its inner loop after
  the other.
* `TcpSystem`, `tcpStep`: a call from its search on, what arrives, and `tcp_recv`;
  `tcpConnect_leads` says that `tcpConnect` takes these steps.
* `Shrinks`: ports stay, and no connection becomes valid.  This is all that the other steps do.
* `Searching`, `PortsDistinct`: the invariant.
* `tcp_demultiplexing`: the ports of valid connections are different, each search ends, and a
  segment is for at most one connection.
-/

namespace CustomLinuxOs

/-! ### The steps of a call -/

/-- The first loops of `tcp_connect`: the port that is tried and the connection it is compared with
next, and in `looks` the passes so far. -/
structure PortSearch where
  domain : List UInt8
  port : UInt16
  sourcePort : UInt16
  i : ℕ
  looks : ℕ

/-- One pass of the inner loop; the way over `failed` begins the next port. -/
def PortSearch.look (s : Net) (q : PortSearch) : PortSearch :=
  if (s.connections q.i).isValid && (s.connections q.i).sourcePort == q.sourcePort then
    { q with sourcePort := q.sourcePort + 1, i := 0, looks := q.looks + 1 }
  else { q with i := q.i + 1, looks := q.looks + 1 }

/-- A call that has its connection and waits. -/
structure TcpCall where
  slot : ℕ
  domain : List UInt8
  deriving DecidableEq

/-- The host, the search that is going on, and the calls that have found a connection. -/
structure TcpSystem where
  host : Host
  search : Option PortSearch
  calls : List TcpCall

/-- What can happen. -/
inductive TcpEvent where
  | net (e : NetEvent)
  | recv (idx : ℕ) (len : UInt32)
  | connect (domain : List UInt8) (port : UInt16)
  | look
  | take
  | ask (call : TcpCall)
  | answer (call : TcpCall) (ip : Ip)
  | giveUp (call : TcpCall)
  | syn (call : TcpCall)

/-- The network state of the host. -/
def TcpSystem.net (t : TcpSystem) : Net := t.host.net

/-- The same with another network state. -/
def TcpSystem.withNet (t : TcpSystem) (s : Net) : TcpSystem :=
  { t with host := { t.host with net := s } }

/-- `tcp_connect` once its port is found: it takes the first connection that is free, or fails. -/
def tcpTake (t : TcpSystem) (q : PortSearch) : TcpSystem :=
  match tcpFreeSlot t.net with
  | none => { t with search := none }
  | some i =>
      let conn := { t.net.connections i with
        isValid := true, destPort := q.port, sourcePort := q.sourcePort }
      { t.withNet (t.net.setConnection i { conn with destIp := (parseIp q.domain conn.destIp).2 })
        with search := none, calls := { slot := i, domain := q.domain } :: t.calls }

/-- One step.  One call at a time is in its search. -/
def tcpStep (reply : Ip → List (Mac × Ip)) (t : TcpSystem) : TcpEvent → Option TcpSystem
  | .net e => some (t.withNet (netStep reply t.net e))
  | .recv idx len => (tcpRecv reply t.net idx len).map fun r => t.withNet r.2
  | .connect domain port =>
      if t.search.isNone then
        some { t with search := some { domain, port, sourcePort := 0x8000, i := 0, looks := 0 } }
      else none
  | .look => t.search.bind fun q =>
      if q.i < NUM_CONNECTIONS then some { t with search := some (q.look t.net) } else none
  | .take => t.search.bind fun q =>
      if q.i < NUM_CONNECTIONS then none else some (tcpTake t q)
  | .ask call =>
      if call ∈ t.calls then some { t with host := dnsQuery reply t.host call.domain } else none
  | .answer call ip =>
      if call ∈ t.calls then some (t.withNet (setDestIp t.net call.slot ip)) else none
  | .giveUp call =>
      if call ∈ t.calls then some { t with calls := t.calls.erase call } else none
  | .syn call =>
      if call ∈ t.calls then
        let s := t.net.setConnection call.slot (tcpReset (t.net.connections call.slot))
        some { t.withNet (tcpWrite reply s call.slot TCP_SYN 0).2 with
          calls := t.calls.erase call }
      else none

/-! ### What the steps do to ports -/

/-- Every connection keeps its port, and none becomes valid. -/
structure Shrinks (s s' : Net) : Prop where
  port : ∀ k, s'.sourcePort k = s.sourcePort k
  valid : ∀ k, s'.isValid k = true → s.isValid k = true

namespace Shrinks

variable {s s' : Net}

lemma of_connections (h : s'.connections = s.connections) : Shrinks s s' :=
  ⟨fun k => by rw [Net.sourcePort, h, Net.sourcePort],
    fun k hk => by rwa [Net.isValid, h] at hk⟩

/-- Only connection `i` is changed. -/
lemma of_one {i : ℕ} (hport : s'.sourcePort i = s.sourcePort i)
    (hvalid : s'.isValid i = true → s.isValid i = true)
    (hother : ∀ k ≠ i, s'.connections k = s.connections k) : Shrinks s s' := by
  refine ⟨fun k => ?_, fun k hk => ?_⟩
  · by_cases hki : k = i
    · rw [hki, hport]
    · rw [Net.sourcePort, hother k hki, Net.sourcePort]
  · by_cases hki : k = i
    · rw [hki] at hk ⊢
      exact hvalid hk
    · rwa [Net.isValid, hother k hki] at hk

lemma setConnection {i : ℕ} {conn : Connection} (hport : conn.sourcePort = s.sourcePort i)
    (hvalid : conn.isValid = true → s.isValid i = true) : Shrinks s (s.setConnection i conn) :=
  of_one (by rw [Net.sourcePort, setConnection_self, hport])
    (by rw [Net.isValid, setConnection_self]; exact hvalid)
    fun k hk => setConnection_of_ne s conn hk

lemma trans {s'' : Net} (h : Shrinks s s') (h' : Shrinks s' s'') : Shrinks s s'' :=
  ⟨fun k => (h'.port k).trans (h.port k), fun k hk => h.valid k (h'.valid k hk)⟩

/-- A segment, whatever its flags are, a timer and a tick. -/
lemma netStep (reply : Ip → List (Mac × Ip)) (s : Net) (e : NetEvent) :
    Shrinks s (netStep reply s e) := by
  cases e with
  | tick => exact of_connections rfl
  | ack idx =>
      obtain ⟨w, hw⟩ := tcpAck_frame reply s idx
      refine of_one (i := idx) ?_ ?_ fun k hk => tcpAck_of_ne reply s hk
      · rw [Net.sourcePort, CustomLinuxOs.netStep, hw, Net.sourcePort]
      · rw [Net.isValid, CustomLinuxOs.netStep, hw]
        exact id
  | segment packet len =>
      simp only [CustomLinuxOs.netStep, tcpParsePacket]
      cases findConnection s (readTcpHeader packet).1 with
      | none => exact of_connections rfl
      | some i =>
          obtain ⟨hvalid, hport, -⟩ := tcpInput_frame reply s i (readTcpHeader packet).1
            (readTcpHeader packet).2 len
          refine of_one (i := i) hport ?_ fun k hk => tcpInput_of_ne _ _ _ _ _ hk
          rw [Net.isValid, hvalid, Bool.and_eq_true]
          exact fun h => h.1

/-- A call of `tcp_recv`, which may close its connection. -/
lemma recv {reply : Ip → List (Mac × Ip)} {idx : ℕ} {len : UInt32} {bytes : List UInt8}
    (h : tcpRecv reply s idx len = some (bytes, s')) : Shrinks s s' := by
  cases hvalid : (s.connections idx).isValid with
  | false =>
      simp only [tcpRecv, hvalid, Bool.not_false, if_true, Option.some.injEq,
        Prod.mk.injEq] at h
      rw [← h.2]
      exact of_connections rfl
  | true =>
      obtain ⟨-, hside, hother⟩ := tcpRecv_spec hvalid h
      exact of_one (congrArg RxSide.sourcePort hside) (fun _ => hvalid) hother

end Shrinks

/-! ### The invariant -/

/-- The search has passed over ports of connections only, and no valid connection before its place
has the port that it tries. -/
structure Searching (s : Net) (q : PortSearch) : Prop where
  place : q.i ≤ NUM_CONNECTIONS
  free : FreeBefore s.isValid s.sourcePort q.sourcePort q.i
  passed : ∃ c : ℕ, q.sourcePort = 0x8000 + c.toUInt16
    ∧ PassedOver NUM_CONNECTIONS s.sourcePort (fun k => 0x8000 + k.toUInt16) c
    ∧ q.looks ≤ c * NUM_CONNECTIONS + q.i

/-- Valid connections have different ports, and a search is as it should be. -/
structure PortsDistinct (t : TcpSystem) : Prop where
  distinct : KeysDistinct NUM_CONNECTIONS t.net.isValid t.net.sourcePort
  searching : ∀ q, t.search = some q → Searching t.net q

namespace Searching

variable {s s' : Net} {q : PortSearch}

lemma start (s : Net) (domain : List UInt8) (port : UInt16) :
    Searching s { domain, port, sourcePort := 0x8000, i := 0, looks := 0 } where
  place := Nat.zero_le _
  free := fun j hj => absurd hj (Nat.not_lt_zero j)
  passed := ⟨0, rfl, passedOver_zero _ _ _, Nat.zero_le _⟩

lemma shrink (h : Searching s q) (hs : Shrinks s s') : Searching s' q := by
  obtain ⟨c, hport, hpassed, hlooks⟩ := h.passed
  exact ⟨h.place, h.free.release hs.valid hs.port, c, hport, hpassed.congr hs.port, hlooks⟩

/-- **One pass**: the place moves on, or the next port is tried because a connection has this
one. -/
lemma look (h : Searching s q) (hi : q.i < NUM_CONNECTIONS) : Searching s (q.look s) := by
  obtain ⟨c, hport, hpassed, hlooks⟩ := h.passed
  rw [PortSearch.look]
  split
  · rename_i hused
    rw [Bool.and_eq_true, beq_iff_eq] at hused
    refine ⟨Nat.zero_le _, fun j hj => absurd hj (Nat.not_lt_zero j), c + 1, ?_, ?_, ?_⟩
    · rw [hport, UInt16.add_assoc]
      simp
    · exact hpassed.succ hi (hused.2.trans hport)
    · rw [Nat.add_mul, Nat.one_mul]
      show q.looks + 1 ≤ c * NUM_CONNECTIONS + NUM_CONNECTIONS + 0
      omega
  · rename_i hother
    refine ⟨hi, fun j hj hvalid => ?_, c, hport, hpassed, ?_⟩
    · rcases Nat.lt_succ_iff_lt_or_eq.mp hj with hlt | rfl
      · exact h.free j hlt hvalid
      · intro heq
        rw [Net.isValid] at hvalid
        rw [Net.sourcePort] at heq
        exact hother (by rw [hvalid, heq, beq_self_eq_true]; rfl)
    · show q.looks + 1 ≤ c * NUM_CONNECTIONS + (q.i + 1)
      omega

/-- **The search is short**: it tries at most nine ports. -/
lemma looks_le (h : Searching s q) : q.looks ≤ NUM_CONNECTIONS * (NUM_CONNECTIONS + 1) := by
  obtain ⟨c, -, hpassed, hlooks⟩ := h.passed
  have hplace := h.place
  have hc := Nat.mul_le_mul_right NUM_CONNECTIONS (hpassed.le sourcePort_injOn)
  rw [Nat.mul_add, Nat.mul_one]
  omega

end Searching

namespace PortsDistinct

variable {t u : TcpSystem}

lemma shrink (h : PortsDistinct t) (hs : Shrinks t.net u.net) (hsearch : u.search = t.search) :
    PortsDistinct u :=
  ⟨h.distinct.release hs.valid hs.port,
    fun q hq => (h.searching q (hsearch.symm.trans hq)).shrink hs⟩

/-- **Taking a connection** under the port that the search has found. -/
lemma take (h : PortsDistinct t) {q : PortSearch} (hq : t.search = some q)
    (hdone : ¬ q.i < NUM_CONNECTIONS) : PortsDistinct (tcpTake t q) := by
  have hsearching := h.searching q hq
  have hfree : FreeBefore t.net.isValid t.net.sourcePort q.sourcePort NUM_CONNECTIONS := by
    have hplace : q.i = NUM_CONNECTIONS := Nat.le_antisymm hsearching.place (Nat.not_lt.mp hdone)
    rw [← hplace]
    exact hsearching.free
  rw [tcpTake]
  cases hslot : tcpFreeSlot t.net with
  | none => exact ⟨h.distinct, fun p hp => absurd hp (by simp)⟩
  | some i =>
      refine ⟨h.distinct.insert (i := i) hfree (fun j hj => ?_) (fun j hj => ?_) ?_,
        fun p hp => absurd hp (by simp)⟩
      · exact congrArg Connection.isValid (setConnection_of_ne _ _ hj)
      · exact congrArg Connection.sourcePort (setConnection_of_ne _ _ hj)
      · exact congrArg Connection.sourcePort (setConnection_self _ _ _)

/-- **Every step** keeps the ports of valid connections different. -/
theorem step (reply : Ip → List (Mac × Ip)) (h : PortsDistinct t) {e : TcpEvent}
    (hu : tcpStep reply t e = some u) : PortsDistinct u := by
  cases e with
  | net e =>
      obtain rfl := Option.some.inj hu
      exact h.shrink (Shrinks.netStep reply t.net e) rfl
  | recv idx len =>
      obtain ⟨⟨bytes, s'⟩, hrecv, rfl⟩ := Option.map_eq_some_iff.mp hu
      exact h.shrink (Shrinks.recv hrecv) rfl
  | connect domain port =>
      obtain ⟨-, hu⟩ := Option.ite_none_right_eq_some.mp hu
      obtain rfl := Option.some.inj hu
      refine ⟨h.distinct, fun q hq => ?_⟩
      obtain rfl := Option.some.inj hq
      exact Searching.start t.net domain port
  | look =>
      obtain ⟨q, hq, hu⟩ := Option.bind_eq_some_iff.mp hu
      obtain ⟨hi, hu⟩ := Option.ite_none_right_eq_some.mp hu
      obtain rfl := Option.some.inj hu
      refine ⟨h.distinct, fun p hp => ?_⟩
      obtain rfl := Option.some.inj hp
      exact (h.searching q hq).look hi
  | take =>
      obtain ⟨q, hq, hu⟩ := Option.bind_eq_some_iff.mp hu
      obtain ⟨hdone, hu⟩ := Option.ite_none_left_eq_some.mp hu
      obtain rfl := Option.some.inj hu
      exact h.take hq hdone
  | ask call =>
      obtain ⟨-, hu⟩ := Option.ite_none_right_eq_some.mp hu
      obtain rfl := Option.some.inj hu
      exact h.shrink (Shrinks.of_connections (udpSendPacket_rest reply _ _ _ _ _ _).1) rfl
  | answer call ip =>
      obtain ⟨-, hu⟩ := Option.ite_none_right_eq_some.mp hu
      obtain rfl := Option.some.inj hu
      exact h.shrink (Shrinks.setConnection rfl id) rfl
  | giveUp call =>
      obtain ⟨-, hu⟩ := Option.ite_none_right_eq_some.mp hu
      obtain rfl := Option.some.inj hu
      exact h.shrink (Shrinks.of_connections rfl) rfl
  | syn call =>
      obtain ⟨-, hu⟩ := Option.ite_none_right_eq_some.mp hu
      obtain rfl := Option.some.inj hu
      have hreset : Shrinks t.net (t.net.setConnection call.slot
          (tcpReset (t.net.connections call.slot))) := Shrinks.setConnection rfl id
      exact h.shrink (hreset.trans (Shrinks.of_connections (tcpWrite_connections _ _ _ _ _))) rfl

/-- Without valid connections there is nothing to show. -/
lemma start {h : Host} (hnone : ∀ k, (h.net.connections k).isValid = false) :
    PortsDistinct { host := h, search := none, calls := [] } where
  distinct := by
    intro i _ _ _ hi
    rw [Net.isValid, TcpSystem.net, hnone i] at hi
    cases hi
  searching := fun q hq => absurd hq (by simp)

end PortsDistinct

/-! ### Where a segment goes -/

/-- The segment has the ports of the connection, and that is valid. -/
def Connection.Matches (conn : Connection) (h : TcpHeader) : Prop :=
  conn.isValid = true ∧ conn.sourcePort = h.destPort ∧ conn.destPort = h.sourcePort

/-- The segment with this header is for one connection, the only valid one with its ports, or for
none. -/
structure Demultiplexed (reply : Ip → List (Mac × Ip)) (s : Net) (packet : List UInt8)
    (len : UInt32) : Prop where
  one : ∀ i < NUM_CONNECTIONS, (s.connections i).Matches (readTcpHeader packet).1 →
    tcpParsePacket reply s packet len
        = tcpInput reply s i (readTcpHeader packet).1 (readTcpHeader packet).2 len
      ∧ (∀ j < NUM_CONNECTIONS, (s.connections j).Matches (readTcpHeader packet).1 → j = i)
      ∧ ∀ k ≠ i, (tcpParsePacket reply s packet len).connections k = s.connections k
  ignored : (∀ i < NUM_CONNECTIONS, ¬ (s.connections i).Matches (readTcpHeader packet).1) →
    tcpParsePacket reply s packet len = s

lemma findConnection_matches {s : Net} {h : TcpHeader} {i : ℕ} :
    ((s.connections i).isValid && (s.connections i).sourcePort == h.destPort
      && (s.connections i).destPort == h.sourcePort) = true ↔ (s.connections i).Matches h := by
  rw [Bool.and_eq_true, Bool.and_eq_true, beq_iff_eq, beq_iff_eq, and_assoc, Connection.Matches]

/-- **A segment** where valid connections have different ports. -/
lemma demultiplexed_of_distinct (reply : Ip → List (Mac × Ip)) {s : Net}
    (h : KeysDistinct NUM_CONNECTIONS s.isValid s.sourcePort) (packet : List UInt8)
    (len : UInt32) : Demultiplexed reply s packet len := by
  set header := (readTcpHeader packet).1 with hheader
  constructor
  · intro i hi hmatch
    have hfind : findConnection s header = some i := by
      refine h.find_eq (k := header.destPort) (fun j hj => ?_) hi
        (findConnection_matches.mpr hmatch)
      have hmatch := findConnection_matches.mp hj
      exact ⟨hmatch.1, hmatch.2.1⟩
    have hparse : tcpParsePacket reply s packet len
        = tcpInput reply s i header (readTcpHeader packet).2 len := by
      simp only [tcpParsePacket, ← hheader, hfind]
    refine ⟨hparse, fun j hj hmatch' => ?_, fun k hk => ?_⟩
    · exact h j hj i hi hmatch'.1 hmatch.1 (hmatch'.2.1.trans hmatch.2.1.symm)
    · rw [hparse, tcpInput_of_ne _ _ _ _ _ hk]
  · intro hall
    have hfind : findConnection s header = none := by
      rw [findConnection, List.find?_eq_none]
      intro i hi hmatch
      exact hall i (List.mem_range.mp hi) (findConnection_matches.mp hmatch)
    simp only [tcpParsePacket, ← hheader, hfind]

/-- **Demultiplexing.**  From a host without connections, let calls of `tcp_connect` begin, go on
and fail, segments with any flags arrive, timers run and `tcp_recv` return, in any order.  In each
state that is reached, valid connections have different source ports; a search that is going on has
made at most 72 passes, and can make the next one or is done; and every segment is for one
connection, the only valid one with its ports, or for none. -/
theorem tcp_demultiplexing (reply : Ip → List (Mac × Ip)) {h : Host}
    (hnone : ∀ k, (h.net.connections k).isValid = false) {es : List TcpEvent} {t : TcpSystem}
    (hrun : Run (tcpStep reply) { host := h, search := none, calls := [] } es t) :
    (∀ i < NUM_CONNECTIONS, ∀ j < NUM_CONNECTIONS, (t.net.connections i).isValid = true →
        (t.net.connections j).isValid = true →
        (t.net.connections i).sourcePort = (t.net.connections j).sourcePort → i = j)
      ∧ (∀ q, t.search = some q → q.looks ≤ NUM_CONNECTIONS * (NUM_CONNECTIONS + 1)
        ∧ ((tcpStep reply t .look).isSome ∨ (tcpStep reply t .take).isSome))
      ∧ ∀ packet len, Demultiplexed reply t.net packet len := by
  have hinv : PortsDistinct t :=
    hrun.invariant (PortsDistinct.start hnone) fun _ _ _ hp hu => hp.step reply hu
  refine ⟨hinv.distinct, fun q hq => ⟨(hinv.searching q hq).looks_le, ?_⟩,
    demultiplexed_of_distinct reply hinv.distinct⟩
  simp only [tcpStep, hq, Option.bind_some]
  by_cases hi : q.i < NUM_CONNECTIONS
  · exact .inl (by rw [if_pos hi]; rfl)
  · exact .inr (by rw [if_neg hi]; rfl)

/-- The host after booting. -/
def bootSystem : TcpSystem := { host := ⟨Net.boot, #v[8, 8, 8, 8], 0⟩, search := none, calls := [] }

/-- A call that takes the first connection, and the first pass of another one. -/
def secondCall : List TcpEvent :=
  TcpEvent.connect [120] 80 :: (List.replicate 8 TcpEvent.look
    ++ [TcpEvent.take, TcpEvent.connect [121] 80, TcpEvent.look])

/-- The second search goes on to the next port. -/
theorem tcp_demultiplexing_secondCall :
    ∃ t, Run (tcpStep fun _ => []) bootSystem secondCall t
      ∧ t.search.map PortSearch.sourcePort = some 0x8001
      ∧ ∀ packet len, Demultiplexed (fun _ => []) t.net packet len := by
  have hread : (secondCall.foldlM (tcpStep fun _ => []) bootSystem).map
      (fun t => t.search.map PortSearch.sourcePort) = some (some 0x8001) := by decide +kernel
  obtain ⟨t, hrun, hport⟩ := exists_run_of_map hread
  exact ⟨t, hrun, hport, (tcp_demultiplexing (fun _ => []) (fun _ => rfl) hrun).2.2⟩

/-! ### Whole calls -/

/-- Some steps lead from one state to the other. -/
def Leads (reply : Ip → List (Mac × Ip)) (t u : TcpSystem) : Prop :=
  ∃ es, Run (tcpStep reply) t es u

namespace Leads

variable {reply : Ip → List (Mac × Ip)} {t u v : TcpSystem}

lemma refl (t : TcpSystem) : Leads reply t t := ⟨[], Run.nil⟩

lemma step (h : Leads reply t u) {e : TcpEvent} (hv : tcpStep reply u e = some v) :
    Leads reply t v := by
  obtain ⟨es, hrun⟩ := h
  exact ⟨es ++ [e], hrun.snoc hv⟩

lemma trans (h : Leads reply t u) (h' : Leads reply u v) : Leads reply t v := by
  obtain ⟨es, hes⟩ := h
  obtain ⟨fs, hfs⟩ := h'
  exact ⟨es ++ fs, run_append_iff.mpr ⟨u, hes, hfs⟩⟩

/-- What arrives during a wait. -/
lemma net (t : TcpSystem) (events : List NetEvent) :
    Leads reply t (t.withNet (netRun reply t.net events)) := by
  induction events generalizing t with
  | nil => exact refl t
  | cons e events ih =>
      have hfirst : Leads reply t (t.withNet (netStep reply t.net e)) :=
        (refl t).step (e := .net e) rfl
      exact hfirst.trans (ih _)

/-- One pass. -/
lemma lookStep (t : TcpSystem) {q : PortSearch} (hi : q.i < NUM_CONNECTIONS) :
    tcpStep reply { t with search := some q } .look
      = some { t with search := some (q.look t.net) } :=
  if_pos hi

/-- Passes over connections without the port. -/
lemma looks (reply : Ip → List (Mac × Ip)) (t : TcpSystem) (q : PortSearch) {n : ℕ}
    (hn : q.i + n ≤ NUM_CONNECTIONS)
    (hfree : FreeBefore t.net.isValid t.net.sourcePort q.sourcePort (q.i + n)) :
    Leads reply { t with search := some q }
      { t with search := some { q with i := q.i + n, looks := q.looks + n } } := by
  induction n with
  | zero => exact refl _
  | succ n ih =>
      refine (ih (by omega) fun j hj => hfree j (by omega)).step (e := .look) ?_
      rw [lookStep t (show q.i + n < NUM_CONNECTIONS by omega), PortSearch.look, if_neg]
      · rfl
      · intro hused
        rw [Bool.and_eq_true, beq_iff_eq] at hused
        exact hfree (q.i + n) (by omega) hused.1 hused.2

/-- The search goes on to the next port when a connection has this one. -/
lemma nextPort (reply : Ip → List (Mac × Ip)) (t : TcpSystem) {q : PortSearch} (hi : q.i = 0)
    (hused : ∃ j, j < NUM_CONNECTIONS ∧ t.net.isValid j = true
      ∧ t.net.sourcePort j = q.sourcePort) :
    ∃ k, Leads reply { t with search := some q }
      { t with search := some { q with sourcePort := q.sourcePort + 1, looks := k } } := by
  classical
  obtain ⟨hlt, hvalid, hport⟩ := Nat.find_spec hused
  have hbefore : FreeBefore t.net.isValid t.net.sourcePort q.sourcePort
      (q.i + Nat.find hused) := by
    intro j hj hv heq
    exact Nat.find_min hused (show j < Nat.find hused by omega) ⟨by omega, hv, heq⟩
  refine ⟨q.looks + Nat.find hused + 1,
    (looks reply t q (n := Nat.find hused) (by omega) hbefore).step (e := .look) ?_⟩
  rw [lookStep t (show q.i + Nat.find hused < NUM_CONNECTIONS by omega), PortSearch.look, if_pos]
  · rw [hi]
  · rw [Bool.and_eq_true, beq_iff_eq]
    rw [hi, Nat.zero_add]
    exact ⟨hvalid, hport⟩

/-- The search comes to the port that `tcpSourcePortFrom` gives. -/
lemma search (reply : Ip → List (Mac × Ip)) (t : TcpSystem) (n : ℕ) {q : PortSearch}
    (hi : q.i = 0) :
    ∃ k, Leads reply { t with search := some q } { t with search := some { q with
      sourcePort := tcpSourcePortFrom n t.net q.sourcePort, looks := k } } := by
  induction n generalizing q with
  | zero => exact ⟨q.looks, refl _⟩
  | succ n ih =>
      rw [tcpSourcePortFrom]
      split
      · rename_i hany
        obtain ⟨j, hj, hused⟩ := List.any_eq_true.mp hany
        rw [Bool.and_eq_true, beq_iff_eq] at hused
        obtain ⟨k, hnext⟩ := nextPort reply t hi
          ⟨j, List.mem_range.mp hj, hused.1, hused.2⟩
        obtain ⟨l, hrest⟩ := ih (q := { q with sourcePort := q.sourcePort + 1, looks := k }) hi
        exact ⟨l, hnext.trans hrest⟩
      · exact ⟨q.looks, refl _⟩

/-- The end of the search. -/
lemma takeStep (t : TcpSystem) {q : PortSearch} (hi : ¬ q.i < NUM_CONNECTIONS) :
    tcpStep reply { t with search := some q } .take = some (tcpTake t q) :=
  if_neg hi

/-- A call finds its port and takes its connection. -/
lemma take (reply : Ip → List (Mac × Ip)) {t : TcpSystem} (hidle : t.search = none)
    (domain : List UInt8) (port : UInt16) :
    ∃ k, Leads reply t (tcpTake t
      { domain, port, sourcePort := tcpSourcePort t.net, i := NUM_CONNECTIONS, looks := k }) := by
  set q : PortSearch := { domain, port, sourcePort := 0x8000, i := 0, looks := 0 } with hq
  have hbegin : Leads reply t { t with search := some q } := by
    refine (refl t).step (e := .connect domain port) ?_
    rw [tcpStep, hidle]
    rfl
  obtain ⟨k, hsearch⟩ := search reply t (NUM_CONNECTIONS + 1) (q := q) rfl
  set found : PortSearch := { q with sourcePort := tcpSourcePort t.net, looks := k } with hfound
  have hpass := looks reply t found (n := NUM_CONNECTIONS) (by rw [hfound, hq]; simp)
    (by rw [hfound, hq, Nat.zero_add]; exact tcpSourcePort_free t.net)
  have hplace : found.i + NUM_CONNECTIONS = NUM_CONNECTIONS := Nat.zero_add _
  rw [hplace] at hpass
  exact ⟨k + NUM_CONNECTIONS, (hbegin.trans (hsearch.trans hpass)).step
    (takeStep t (lt_irrefl NUM_CONNECTIONS))⟩

/-- From the reset on. -/
lemma handshake (h : Host) (calls : List TcpCall) (call : TcpCall) {events : List NetEvent}
    {value : Option ℕ} {s : Net}
    (hs : tcpHandshake reply h.net call.slot events = some (value, s)) :
    Leads reply { host := h, search := none, calls := call :: calls }
      { host := { h with net := s }, search := none, calls := calls } := by
  simp only [tcpHandshake] at hs
  split at hs
  · cases hs
  · obtain ⟨-, rfl⟩ := Prod.mk.inj (Option.some.inj hs)
    set sent := (tcpWrite reply (h.net.setConnection call.slot
      (tcpReset (h.net.connections call.slot))) call.slot TCP_SYN 0).2 with hsent
    have hsyn : tcpStep reply { host := h, search := none, calls := call :: calls } (.syn call)
        = some { host := { h with net := sent }, search := none, calls := calls } := by
      rw [tcpStep, if_pos List.mem_cons_self]
      simp only [List.erase_cons_head]
      rfl
    exact ((refl _).step hsyn).trans (net _ events)

end Leads

/-- **A call of `tcp_connect`** that returns takes these steps. -/
theorem tcpConnect_leads (reply : Ip → List (Mac × Ip)) {h : Host} {domain : List UInt8}
    {port : UInt16} {env : ConnectEnv} {r : ConnectResult}
    (hr : tcpConnect reply h domain port env = some r) (calls : List TcpCall) :
    Leads reply { host := h, search := none, calls := calls }
      { host := r.host, search := none, calls := calls } := by
  obtain ⟨k, htake⟩ := Leads.take reply (t := { host := h, search := none, calls := calls }) rfl
    domain port
  refine htake.trans ?_
  simp only [tcpConnect] at hr
  rw [tcpTake]
  simp only [TcpSystem.net]
  cases hslot : tcpFreeSlot h.net with
  | none =>
      rw [hslot] at hr
      rw [← Option.some.inj hr]
      exact Leads.refl _
  | some i =>
      rw [hslot] at hr
      set conn := { h.net.connections i with
        isValid := true, destPort := port, sourcePort := tcpSourcePort h.net } with hconn
      set marked := h.net.setConnection i
        { conn with destIp := (parseIp domain conn.destIp).2 } with hmarked
      set call : TcpCall := { slot := i, domain := domain } with hcall
      have hfinish : ∀ (g : Host) (es : List NetEvent),
          ((tcpHandshake reply g.net i env.handshake).map fun q =>
            ({ value := q.1, host := { g with net := q.2 }, events := es } : ConnectResult))
              = some r →
          Leads reply { host := g, search := none, calls := call :: calls }
            { host := r.host, search := none, calls := calls } := by
        intro g es hfin
        obtain ⟨⟨value, s⟩, hs, rfl⟩ := Option.map_eq_some_iff.mp hfin
        exact Leads.handshake g calls call hs
      have hwait : ∀ g : Host, Leads reply { host := g, search := none, calls := call :: calls }
          { host := { g with net := netRun reply g.net env.resolving }, search := none
            calls := call :: calls } := fun g => Leads.net _ env.resolving
      cases hquad : (parseIp domain (h.net.connections i).destIp).1 with
      | true =>
          simp only [hquad, if_true] at hr
          exact (hwait { h with net := marked }).trans (hfinish _ _ hr)
      | false =>
          simp only [hquad, Bool.false_eq_true, if_false] at hr
          set asked := dnsQuery reply { h with net := marked } domain with hasked
          set s := netRun reply asked.net env.resolving with hs
          have hask : tcpStep reply
              { host := { h with net := marked }, search := none, calls := call :: calls }
              (.ask call) = some { host := asked, search := none, calls := call :: calls } :=
            if_pos List.mem_cons_self
          refine (((Leads.refl _).step hask).trans (hwait asked)).trans ?_
          cases hanswer : dnsParse env.answer h.xidBase with
          | none =>
              rw [hanswer] at hr
              rw [← Option.some.inj hr]
              refine (Leads.refl _).step (e := .giveUp call) ?_
              rw [tcpStep, if_pos List.mem_cons_self]
              simp only [List.erase_cons_head]
              rfl
          | some ip =>
              rw [hanswer] at hr
              have hset : tcpStep reply
                  { host := { asked with net := s }, search := none, calls := call :: calls }
                  (.answer call ip)
                  = some { host := { asked with net := setDestIp s i ip }, search := none
                           calls := call :: calls } :=
                if_pos List.mem_cons_self
              exact ((Leads.refl _).step hset).trans
                (hfinish { asked with net := setDestIp s i ip } _ hr)

end CustomLinuxOs
