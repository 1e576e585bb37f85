import CustomLinuxOs.Devices.TimerTable
import CustomLinuxOs.Networking.Arp
import CustomLinuxOs.Networking.SegmentRoundTrip

/-!
`rtc_handler` of `rtc.c` while it holds all other interrupts off.

Nothing arrives while the handler runs and the tick counter stands still, so a lookup in
`arp_get` that has to wait waits in vain.

* `arpSpin`, `arpGetHeld`, `ipWritePacketHeld`, `tcpWriteHeld`, `tcpAckHeld`: the way from an
  expired timer to the frame, with fuel for the loop; `none` is a loop that is still running.
* `rtcHandlerLoop`, `rtcHandler`: the table of timers, from which an expired entry is removed by
  moving the last one into its place.
* `tcpAckHeld_eq`: where it returns, this is `tcpAck` without a reply to the request.
* `AckReturns`: the connection is gone, the next hop is in the cache, or the end of the second
  lies past the wrap of the counter.
* `rtcHandler_returns_iff`: the handler returns exactly when this is so of every expired entry.
* `handlerLoop_of_rtcHandlerLoop`: where it returns, it does what the handler does to a table of any
  callbacks; `rtcHandler_keeps`: so it leaves the entries that have not expired.
-/

namespace CustomLinuxOs

/-! ### The way of an acknowledgement -/

/-- `rtc_check`. -/
def rtcCheck (s : Net) (stop : UInt32) : Bool := stop > s.counter

/-- The waiting loop of `arp_get`, in which nothing changes. -/
def arpSpin : ℕ → Net → UInt32 → Ip → Option (Option Mac × Net)
  | 0, _, _, _ => none
  | n + 1, s, stop, ip =>
      if rtcCheck s stop then
        match arpTryCache s ip with
        | some mac => some (some mac, s)
        | none => arpSpin n s stop ip
      else some (none, s)

/-- `arp_get`. -/
def arpGetHeld (fuel : ℕ) (s : Net) (ip : Ip) : Option (Option Mac × Net) :=
  match arpTryCache s ip with
  | some mac => some (some mac, s)
  | none =>
      let s := arpSendPacket s ARP_REQUEST broadcastMac ip
      arpSpin fuel s (rtcWait s 1000) ip

/-- `ip_write_packet` after the lookup of the next hop. -/
def ipWriteRest (hop : Option Mac × Net) (dest : Ip) (protocol : UInt8) (payload : List UInt8) :
    Option (List UInt8) × Net :=
  let s := hop.2
  match hop.1 with
  | none => (none, s)
  | some destMac =>
      let header := writeU8 0x45 ++ writeU8 0
        ++ writeU16 (IP_HEADER_LENGTH + payload.length).toUInt16 ++ writeU16 0 ++ writeU16 0
        ++ writeU8 64 ++ writeU8 protocol ++ writeU16 0 ++ s.ourIp.toList ++ dest.toList
      let header := overwrite header 10 (writeU16 (checksum header IP_HEADER_LENGTH))
      (some (ethernetWritePacket s destMac ETHERTYPE_IP4 (header ++ payload)), s)

/-- The rest is that of `ipWritePacket`. -/
lemma ipWritePacket_eq_rest (reply : Ip → List (Mac × Ip)) (s : Net) (dest : Ip)
    (protocol : UInt8) (payload : List UInt8) :
    ipWritePacket reply s dest protocol payload
      = ipWriteRest (if checkSubnet s dest then arpGet reply s dest
          else arpGet reply s s.gatewayIp) dest protocol payload := rfl

/-- `ip_write_packet`. -/
def ipWritePacketHeld (fuel : ℕ) (s : Net) (dest : Ip) (protocol : UInt8)
    (payload : List UInt8) : Option (Option (List UInt8) × Net) :=
  (if checkSubnet s dest then arpGetHeld fuel s dest else arpGetHeld fuel s s.gatewayIp).map
    fun hop => ipWriteRest hop dest protocol payload

/-- `tcp_write`. -/
def tcpWriteHeld (fuel : ℕ) (s : Net) (idx : ℕ) (flags len : UInt32) : Option (UInt32 × Net) :=
  (ipWritePacketHeld fuel s (s.connections idx).destIp IPTYPE_TCP
      (tcpWritten s idx flags len)).map fun frame =>
    match frame.1 with
    | none => (0, frame.2)
    | some packet => (packet.length.toUInt32, sendPacket frame.2 packet)

/-- `tcp_ack`. -/
def tcpAckHeld (fuel : ℕ) (s : Net) (idx : ℕ) : Option Net :=
  let conn := s.connections idx
  if conn.isValid then
    (tcpWriteHeld fuel (s.setConnection idx { conn with wait := 0 }) idx TCP_ACK 0).map Prod.snd
  else some s

/-! ### The table of timers -/

/-- `handlers[i] = handlers[--num_handlers]`. -/
def removeHandler (handlers : List Handler) (i : ℕ) : List Handler :=
  match handlers.getLast? with
  | none => []
  | some last => (handlers.set i last).dropLast

/-- The loop of `rtc_handler`, at entry `i`: an expired entry is served and removed, and its place
is looked at again. -/
def rtcHandlerLoop : ℕ → ℕ → Net → Option Net
  | 0, _, _ => none
  | n + 1, i, s =>
      match s.handlers[i]? with
      | none => some s
      | some handler =>
          if handler.time < s.counter then
            match handler.function with
            | .tcpAck =>
                match tcpAckHeld n s handler.arg.toNat with
                | none => none
                | some s =>
                    rtcHandlerLoop n i { s with handlers := removeHandler s.handlers i }
          else rtcHandlerLoop n (i + 1) s

/-- `rtc_handler`. -/
def rtcHandler (fuel : ℕ) (s : Net) : Option Net :=
  rtcHandlerLoop fuel 0 { s with counter := s.counter + 1 }

/-! ### A lookup that waits -/

/-- A lookup returns: the address is in the cache, or the wait is over before it begins. -/
def LookupReturns (s : Net) (ip : Ip) : Prop :=
  (arpTryCache s ip).isSome = true ∨ rtcCheck s (rtcWait s 1000) = false

/-- The loop of a lookup that misses never ends while the counter stands before its stop. -/
lemma arpSpin_none {s : Net} {stop : UInt32} {ip : Ip} (hmiss : arpTryCache s ip = none)
    (hcheck : rtcCheck s stop = true) (n : ℕ) : arpSpin n s stop ip = none := by
  induction n with
  | zero => rfl
  | succ n ih => rw [arpSpin, if_pos hcheck, hmiss, ih]

lemma arpGetHeld_isSome {s : Net} {ip : Ip} (h : LookupReturns s ip) (n : ℕ) :
    (arpGetHeld (n + 1) s ip).isSome = true := by
  rw [arpGetHeld]
  cases hcache : arpTryCache s ip with
  | some mac => rfl
  | none =>
      have hcheck : rtcCheck s (rtcWait s 1000) = false := by
        rcases h with h | h
        · rw [hcache] at h
          cases h
        · exact h
      have hspin : rtcCheck (arpSendPacket s ARP_REQUEST broadcastMac ip)
          (rtcWait (arpSendPacket s ARP_REQUEST broadcastMac ip) 1000) = false := hcheck
      simp only [arpSpin, hspin, Bool.false_eq_true, if_false, Option.isSome_some]

lemma LookupReturns.of_isSome {s : Net} {ip : Ip} {n : ℕ}
    (h : (arpGetHeld n s ip).isSome = true) : LookupReturns s ip := by
  by_contra hnot
  rw [LookupReturns, not_or, Bool.not_eq_true, Bool.not_eq_false] at hnot
  obtain ⟨hmiss, hcheck⟩ := hnot
  rw [Option.isSome_eq_false_iff, Option.isNone_iff_eq_none] at hmiss
  have hspin : arpSpin n (arpSendPacket s ARP_REQUEST broadcastMac ip)
      (rtcWait (arpSendPacket s ARP_REQUEST broadcastMac ip) 1000) ip = none :=
    arpSpin_none (s := arpSendPacket s ARP_REQUEST broadcastMac ip) hmiss hcheck n
  rw [arpGetHeld, hmiss] at h
  simp only [hspin] at h
  cases h

/-- No ARP packet arrives. -/
def noReply : Ip → List (Mac × Ip) := fun _ => []

/-- A loop that ends has waited in vain. -/
lemma arpSpin_eq {s : Net} {stop : UInt32} {ip : Ip} {n : ℕ} {r : Option Mac × Net}
    (hmiss : arpTryCache s ip = none) (h : arpSpin n s stop ip = some r) : r = (none, s) := by
  induction n with
  | zero => cases h
  | succ n ih =>
      rw [arpSpin, hmiss] at h
      split at h
      · exact ih h
      · exact (Option.some.inj h).symm

/-- **A lookup that returns** is one without a reply. -/
lemma arpGetHeld_eq {n : ℕ} {s : Net} {ip : Ip} {r : Option Mac × Net}
    (h : arpGetHeld n s ip = some r) : r = arpGet noReply s ip := by
  rw [arpGetHeld] at h
  rw [arpGet]
  cases hcache : arpTryCache s ip with
  | some mac =>
      rw [hcache] at h
      exact (Option.some.inj h).symm
  | none =>
      have hmiss : arpTryCache (arpSendPacket s ARP_REQUEST broadcastMac ip) ip = none := hcache
      rw [hcache] at h
      rw [arpSpin_eq hmiss h]
      simp only [noReply, List.foldl_nil, hmiss]

/-- A lookup does no more than send. -/
lemma arpGetHeld_snd {s s' : Net} {ip : Ip} {n : ℕ} {mac : Option Mac}
    (h : arpGetHeld n s ip = some (mac, s')) : s' = { s with sent := s'.sent } := by
  have hs' : s' = (arpGet noReply s ip).2 := congrArg Prod.snd (arpGetHeld_eq h)
  rw [hs', arpGet]
  split <;> rfl

/-! ### An acknowledgement -/

/-- The acknowledgement for a connection is sent or given up. -/
def AckReturns (s : Net) (idx : ℕ) : Prop :=
  (s.connections idx).isValid = false
    ∨ LookupReturns s (nextHop s (s.connections idx).destIp)

lemma nextHop_eq (fuel : ℕ) (s : Net) (dest : Ip) :
    (if checkSubnet s dest then arpGetHeld fuel s dest else arpGetHeld fuel s s.gatewayIp)
      = arpGetHeld fuel s (nextHop s dest) := by
  rw [nextHop]
  split <;> rfl

lemma tcpWriteHeld_isSome (fuel : ℕ) (s : Net) (idx : ℕ) (flags len : UInt32) :
    (tcpWriteHeld fuel s idx flags len).isSome
      = (arpGetHeld fuel s (nextHop s (s.connections idx).destIp)).isSome := by
  rw [tcpWriteHeld, ipWritePacketHeld, nextHop_eq, Option.isSome_map, Option.isSome_map]

lemma tcpWriteHeld_snd {fuel idx : ℕ} {s : Net} {flags len : UInt32} {r : UInt32 × Net}
    (h : tcpWriteHeld fuel s idx flags len = some r) : r.2 = { s with sent := r.2.sent } := by
  rw [tcpWriteHeld, ipWritePacketHeld, nextHop_eq, Option.map_map, Option.map_eq_some_iff] at h
  obtain ⟨⟨mac, s'⟩, hhop, rfl⟩ := h
  have hs' := arpGetHeld_snd hhop
  cases mac with
  | none => exact hs'
  | some mac =>
      simp only [Function.comp_apply, ipWriteRest, sendPacket]
      rw [hs']

/-- A frame that is written while interrupts are off is the one of `ipWritePacket`. -/
lemma ipWritePacketHeld_eq {fuel : ℕ} {s : Net} {dest : Ip} {protocol : UInt8}
    {payload : List UInt8} {r : Option (List UInt8) × Net}
    (h : ipWritePacketHeld fuel s dest protocol payload = some r) :
    r = ipWritePacket noReply s dest protocol payload := by
  obtain ⟨hop, hhop, rfl⟩ := Option.map_eq_some_iff.mp h
  rw [ipWritePacket_eq_rest]
  by_cases hsubnet : checkSubnet s dest = true
  · rw [if_pos hsubnet] at hhop ⊢
    rw [arpGetHeld_eq hhop]
  · rw [if_neg hsubnet] at hhop ⊢
    rw [arpGetHeld_eq hhop]

/-- `tcp_write` from the frame on. -/
lemma tcpWrite_of_frame {reply : Ip → List (Mac × Ip)} {s : Net} {idx : ℕ} {flags len : UInt32}
    {frame : Option (List UInt8) × Net}
    (h : ipWritePacket reply s (s.connections idx).destIp IPTYPE_TCP (tcpWritten s idx flags len)
      = frame) :
    tcpWrite reply s idx flags len
      = match frame.1 with
        | none => (0, frame.2)
        | some packet => (packet.length.toUInt32, sendPacket frame.2 packet) := by
  subst h
  rfl

lemma tcpWriteHeld_eq {fuel idx : ℕ} {s : Net} {flags len : UInt32} {r : UInt32 × Net}
    (h : tcpWriteHeld fuel s idx flags len = some r) :
    r = tcpWrite noReply s idx flags len := by
  obtain ⟨frame, hframe, rfl⟩ := Option.map_eq_some_iff.mp h
  exact (tcpWrite_of_frame (ipWritePacketHeld_eq hframe).symm).symm

/-- **An acknowledgement that returns** is sent as by `tcpAck`, or given up as there. -/
lemma tcpAckHeld_eq {fuel idx : ℕ} {s s' : Net} (h : tcpAckHeld fuel s idx = some s') :
    s' = tcpAck noReply s idx := by
  simp only [tcpAckHeld] at h
  rw [tcpAck]
  split at h
  · rename_i hvalid
    obtain ⟨r, hr, rfl⟩ := Option.map_eq_some_iff.mp h
    rw [tcpWriteHeld_eq hr, if_pos hvalid]
  · rename_i hvalid
    rw [if_neg hvalid]
    exact (Option.some.inj h).symm

/-- The state `tcp_ack` writes from looks up as before. -/
lemma lookupReturns_setConnection (s : Net) (idx : ℕ) (conn : Connection) (ip : Ip) :
    LookupReturns (s.setConnection idx conn) ip ↔ LookupReturns s ip := Iff.rfl

lemma tcpAckHeld_isSome {s : Net} {idx : ℕ} (h : AckReturns s idx) (n : ℕ) :
    (tcpAckHeld (n + 1) s idx).isSome = true := by
  simp only [tcpAckHeld]
  split
  · rename_i hvalid
    have hlookup : LookupReturns s (nextHop s (s.connections idx).destIp) := by
      rcases h with h | h
      · rw [hvalid] at h
        cases h
      · exact h
    rw [Option.isSome_map, tcpWriteHeld_isSome, setConnection_self]
    exact arpGetHeld_isSome ((lookupReturns_setConnection s idx _ _).mpr hlookup) n
  · rfl

lemma AckReturns.of_some {s s' : Net} {idx n : ℕ} (h : tcpAckHeld n s idx = some s') :
    AckReturns s idx := by
  simp only [tcpAckHeld] at h
  split at h
  · have hsome := congrArg Option.isSome h
    rw [Option.isSome_map, tcpWriteHeld_isSome, setConnection_self] at hsome
    exact .inr ((lookupReturns_setConnection s idx _ _).mp (LookupReturns.of_isSome hsome))
  · rename_i hvalid
    exact .inl (Bool.not_eq_true _ ▸ hvalid)

/-- What an acknowledgement leaves for the other entries of the table. -/
lemma tcpAckHeld_keeps {s s' : Net} {idx n : ℕ} (h : tcpAckHeld n s idx = some s') :
    s'.handlers = s.handlers ∧ s'.counter = s.counter
      ∧ ∀ hs k, AckReturns { s' with handlers := hs } k ↔ AckReturns s k := by
  simp only [tcpAckHeld] at h
  split at h
  · obtain ⟨r, hr, rfl⟩ := Option.map_eq_some_iff.mp h
    rw [tcpWriteHeld_snd hr]
    refine ⟨rfl, rfl, fun hs k => ?_⟩
    have hconn : ((s.setConnection idx { s.connections idx with wait := 0 }).connections k).isValid
          = (s.connections k).isValid
        ∧ ((s.setConnection idx { s.connections idx with wait := 0 }).connections k).destIp
          = (s.connections k).destIp := by
      rcases eq_or_ne k idx with rfl | hk
      · rw [setConnection_self]
        exact ⟨rfl, rfl⟩
      · rw [setConnection_of_ne _ _ hk]
        exact ⟨rfl, rfl⟩
    simp only [AckReturns, hconn.1, hconn.2]
    exact Iff.rfl
  · cases h
    exact ⟨rfl, rfl, fun hs k => Iff.rfl⟩

/-! ### The handler -/

/-- The last entry goes to the place of the one that is removed. -/
lemma removeHandler_concat (front : List Handler) (last : Handler) (i : ℕ) :
    removeHandler (front ++ [last]) i = front.set i last := by
  have hset : (front ++ [last]).set i last = front.set i last ++ [last] := by
    rw [List.set_append]
    split
    · rfl
    · rename_i hge
      rw [List.set_eq_of_length_le (Nat.not_lt.mp hge)]
      cases i - front.length <;> rfl
  rw [removeHandler, List.getLast?_concat]
  simp only [hset, List.dropLast_concat]

/-- What is left behind a removed entry: the entries that were behind it, the last of them in its
place. -/
lemma removeHandler_drop {handlers : List Handler} {i : ℕ} (hi : i < handlers.length) :
    (removeHandler handlers i).length = handlers.length - 1
      ∧ ∀ h, h ∈ (removeHandler handlers i).drop i ↔ h ∈ handlers.drop (i + 1) := by
  obtain ⟨pre, h, suf, rfl, rfl⟩ : ∃ pre h suf, handlers = pre ++ h :: suf ∧ pre.length = i :=
    ⟨handlers.take i, handlers[i], handlers.drop (i + 1), by simp, by simp; omega⟩
  have hdrop : (pre ++ h :: suf).drop (pre.length + 1) = suf := by simp
  rw [hdrop]
  rcases List.eq_nil_or_concat suf with rfl | ⟨suf, x, rfl⟩
  · rw [removeHandler_concat, List.set_eq_of_length_le le_rfl]
    simp
  · have hlast : pre ++ h :: (suf ++ [x]) = (pre ++ h :: suf) ++ [x] := by
      rw [List.append_assoc, List.cons_append]
    rw [List.concat_eq_append, hlast, removeHandler_concat,
      List.set_append_right _ _ le_rfl, Nat.sub_self, List.set_cons_zero]
    refine ⟨by simp, fun g => ?_⟩
    rw [List.drop_left, List.mem_cons, List.mem_append, List.mem_singleton, or_comm]

lemma mem_drop_iff {handlers : List Handler} {i : ℕ} {handler : Handler}
    (h : handlers[i]? = some handler) (g : Handler) :
    g ∈ handlers.drop i ↔ g = handler ∨ g ∈ handlers.drop (i + 1) := by
  obtain ⟨hi, rfl⟩ := List.getElem?_eq_some_iff.mp h
  rw [List.drop_eq_getElem_cons hi, List.mem_cons]

/-- A loop that returns has served every expired entry from `i` on. -/
lemma rtcHandlerLoop_sound {n i : ℕ} {s z : Net} (h : rtcHandlerLoop n i s = some z) :
    ∀ g ∈ s.handlers.drop i, g.time < s.counter → AckReturns s g.arg.toNat := by
  induction n generalizing i s with
  | zero => cases h
  | succ n ih =>
      intro g hg hdue
      rw [rtcHandlerLoop] at h
      cases hentry : s.handlers[i]? with
      | none =>
          rw [List.drop_eq_nil_of_le (List.getElem?_eq_none_iff.mp hentry)] at hg
          cases hg
      | some handler =>
          obtain ⟨hi, -⟩ := List.getElem?_eq_some_iff.mp hentry
          simp only [hentry] at h
          split at h
          · rename_i hexpired
            cases hack : tcpAckHeld n s handler.arg.toNat with
            | none => simp [hack] at h
            | some s₁ =>
                simp only [hack] at h
                obtain ⟨hhandlers, hcounter, hkeep⟩ := tcpAckHeld_keeps hack
                rcases (mem_drop_iff hentry g).mp hg with rfl | hg
                · exact .of_some hack
                · refine (hkeep _ _).mp (ih h g ?_ (by rw [hcounter]; exact hdue))
                  rw [hhandlers]
                  exact ((removeHandler_drop hi).2 g).mpr hg
          · rename_i hfresh
            rcases (mem_drop_iff hentry g).mp hg with rfl | hg
            · exact absurd hdue hfresh
            · exact ih h g hg hdue

/-- With fuel for every entry from `i` on the loop returns, if every expired one does. -/
lemma rtcHandlerLoop_complete {k i : ℕ} {s : Net} (hlen : s.handlers.length ≤ i + k)
    (hall : ∀ g ∈ s.handlers.drop i, g.time < s.counter → AckReturns s g.arg.toNat) :
    (rtcHandlerLoop (k + 2) i s).isSome = true := by
  induction k generalizing i s with
  | zero =>
      rw [Nat.add_zero] at hlen
      rw [rtcHandlerLoop, List.getElem?_eq_none_iff.mpr hlen]
      rfl
  | succ k ih =>
      rw [rtcHandlerLoop]
      cases hentry : s.handlers[i]? with
      | none => rfl
      | some handler =>
          obtain ⟨hi, -⟩ := List.getElem?_eq_some_iff.mp hentry
          simp only
          split
          · rename_i hexpired
            have hreturns := hall handler ((mem_drop_iff hentry handler).mpr (.inl rfl)) hexpired
            obtain ⟨s₁, hack⟩ := Option.isSome_iff_exists.mp (tcpAckHeld_isSome hreturns (k + 1))
            obtain ⟨hhandlers, hcounter, hkeep⟩ := tcpAckHeld_keeps hack
            simp only [hack]
            refine ih ?_ fun g hg hdue => (hkeep _ _).mpr ?_
            · rw [hhandlers, (removeHandler_drop hi).1]
              omega
            · rw [hhandlers, (removeHandler_drop hi).2] at hg
              rw [hcounter] at hdue
              exact hall g ((mem_drop_iff hentry g).mpr (.inr hg)) hdue
          · refine ih (by omega) fun g hg hdue => ?_
            exact hall g ((mem_drop_iff hentry g).mpr (.inr hg)) hdue

/-- **The timer interrupt.**  With all interrupts held off the handler returns, for any table of
timers, connections and cache, exactly when for every entry that has expired the connection is
gone, the next hop is in the cache, or the second of the lookup wraps the counter. -/
theorem rtcHandler_returns_iff (s : Net) :
    (∃ fuel, (rtcHandler fuel s).isSome = true)
      ↔ ∀ h ∈ s.handlers, h.time < s.counter + 1 →
        AckReturns { s with counter := s.counter + 1 } h.arg.toNat := by
  constructor
  · rintro ⟨fuel, h⟩ handler hhandler hexpired
    obtain ⟨z, hz⟩ := Option.isSome_iff_exists.mp h
    exact rtcHandlerLoop_sound hz handler hhandler hexpired
  · intro hall
    exact ⟨s.handlers.length + 2, rtcHandlerLoop_complete (Nat.le_add_left _ _) hall⟩

/-! ### A next hop that is not in the cache -/

/-- A delayed acknowledgement has expired, and the cache is empty. -/
def expiredAck : Net :=
  { Net.boot.setConnection 0 { Connection.zero with isValid := true } with
    handlers := [{ function := .tcpAck, time := 0, arg := 0 }] }

/-- The handler spins for ever. -/
theorem rtcHandler_spins : ¬ ∀ s, ∃ fuel, (rtcHandler fuel s).isSome = true := by
  intro h
  have hreturns := (rtcHandler_returns_iff expiredAck).mp (h expiredAck)
    { function := .tcpAck, time := 0, arg := 0 } (List.mem_singleton_self _) (by decide)
  rcases hreturns with hvalid | hcache | hcheck
  · cases hvalid
  · cases hcache
  · exact absurd hcheck (by decide)

/-! ### The table of any callbacks -/

/-- `tcp_ack` as a callback; it registers nothing. -/
def ackCall : HandlerFunction → UInt32 → UInt32 → Net → Net × List (Registration HandlerFunction)
  | .tcpAck, arg, _, s => (tcpAck noReply s arg.toNat, [])

/-- The entry in a table of any callbacks. -/
def Handler.callback (h : Handler) : CallbackHandler HandlerFunction := ⟨h.function, h.time, h.arg⟩

/-- What the callbacks work on: all but the table and its counter. -/
def Net.untimed (s : Net) : Net := { s with counter := 0, handlers := [] }

/-- The table has the timers of `s`, and its callbacks work on the rest. -/
structure TableOf (s : Net) (t : HandlerTable HandlerFunction Net) : Prop where
  counter : t.counter = s.counter
  entries : t.entries = s.handlers.map Handler.callback
  world : t.world = s.untimed

/-- The table of `s`. -/
def Net.table (s : Net) : HandlerTable HandlerFunction Net where
  counter := s.counter
  handlers i := (s.handlers[i]?.getD ⟨.tcpAck, 0, 0⟩).callback
  numHandlers := s.handlers.length
  world := s.untimed

lemma tableOf_table (s : Net) : TableOf s s.table where
  counter := rfl
  entries := by
    refine List.ext_getElem (by simp [HandlerTable.entries, Net.table]) fun i hi _ => ?_
    have hlt : i < s.handlers.length := by simpa [HandlerTable.entries, Net.table] using hi
    simp only [HandlerTable.entries, Net.table, List.getElem_map, List.getElem_range,
      List.getElem?_eq_getElem hlt, Option.getD_some]
  world := rfl

section Untimed

variable (s : Net)

lemma arpGet_untimed (ip : Ip) : arpGet noReply s.untimed ip
    = ((arpGet noReply s ip).1, (arpGet noReply s ip).2.untimed) := by
  have hcache : arpTryCache s.untimed ip = arpTryCache s ip := rfl
  rw [arpGet, arpGet, hcache]
  split <;> rfl

lemma ipWritePacket_untimed (dest : Ip) (protocol : UInt8) (payload : List UInt8) :
    ipWritePacket noReply s.untimed dest protocol payload
      = ((ipWritePacket noReply s dest protocol payload).1,
        (ipWritePacket noReply s dest protocol payload).2.untimed) := by
  have hrest (hop : Option Mac × Net) : ipWriteRest (hop.1, hop.2.untimed) dest protocol payload
      = ((ipWriteRest hop dest protocol payload).1,
        (ipWriteRest hop dest protocol payload).2.untimed) := by
    obtain ⟨_ | mac, t⟩ := hop <;> rfl
  have hsubnet : checkSubnet s.untimed dest = checkSubnet s dest := rfl
  rw [ipWritePacket_eq_rest, ipWritePacket_eq_rest, hsubnet]
  split <;> rw [arpGet_untimed, hrest]
  rfl

lemma tcpWrite_untimed (idx : ℕ) (flags len : UInt32) :
    (tcpWrite noReply s.untimed idx flags len).2
      = (tcpWrite noReply s idx flags len).2.untimed := by
  have hwritten : tcpWritten s.untimed idx flags len = tcpWritten s idx flags len := rfl
  have hframe := ipWritePacket_untimed s (s.connections idx).destIp IPTYPE_TCP
    (tcpWritten s idx flags len)
  rw [tcpWrite_of_frame (hwritten ▸ hframe), tcpWrite_of_frame rfl]
  generalize ipWritePacket noReply s (s.connections idx).destIp IPTYPE_TCP
    (tcpWritten s idx flags len) = frame
  obtain ⟨_ | packet, t⟩ := frame <;> rfl

/-- An acknowledgement does not look at the timers. -/
lemma tcpAck_untimed (idx : ℕ) :
    tcpAck noReply s.untimed idx = (tcpAck noReply s idx).untimed := by
  have hconn : s.untimed.connections idx = s.connections idx := rfl
  rw [tcpAck, tcpAck, hconn]
  split
  · exact tcpWrite_untimed (s.setConnection idx { s.connections idx with wait := 0 }) idx TCP_ACK 0
  · rfl

end Untimed

namespace TableOf

variable {s s' z : Net} {t : HandlerTable HandlerFunction Net} {i : ℕ}

/-- Both tables have the same entries. -/
lemma getElem? (h : TableOf s t) (i : ℕ) :
    s.handlers[i]?.map Handler.callback
      = if i < t.numHandlers then some (t.handlers i) else none := by
  rw [← List.getElem?_map, ← h.entries, HandlerTable.entries, List.getElem?_map]
  split
  · rename_i hlt
    rw [List.getElem?_range hlt, Option.map_some]
  · rename_i hge
    rw [List.getElem?_eq_none (by simpa using hge), Option.map_none]

/-- A call, and the removal of its entry. -/
lemma served (h : TableOf s t) {handler : Handler} (hentry : s.handlers[i]? = some handler)
    {n : ℕ} (hack : tcpAckHeld n s handler.arg.toNat = some s') :
    TableOf { s' with handlers := removeHandler s'.handlers i }
      ((callHandler ackCall t handler.callback).2.remove i) := by
  obtain ⟨hhandlers, hcounter, -⟩ := tcpAckHeld_keeps hack
  have hcall : (callHandler ackCall t handler.callback).2
      = { t with world := tcpAck noReply t.world handler.arg.toNat } := by
    obtain ⟨⟨⟩, time, arg⟩ := handler
    rfl
  rw [hcall]
  refine ⟨h.counter.trans hcounter.symm, ?_, ?_⟩
  · rcases List.eq_nil_or_concat s.handlers with hnil | ⟨front, last, hs⟩
    · rw [hnil] at hentry
      cases hentry
    · rw [List.concat_eq_append] at hs
      have hentries := h.entries
      rw [hs, List.map_append, List.map_singleton] at hentries
      have hm : t.numHandlers = front.length + 1 := by
        simpa [HandlerTable.entries] using congrArg List.length hentries
      rw [HandlerTable.entries, hm, List.range_succ, List.map_append] at hentries
      obtain ⟨hfront, hlast⟩ := List.append_inj' hentries rfl
      rw [HandlerTable.entries_remove_eq (by exact hm), hhandlers, hs, removeHandler_concat,
        List.map_set, ← hfront]
      rw [List.map_singleton, List.singleton_inj] at hlast
      rw [← hlast]
  · calc tcpAck noReply t.world handler.arg.toNat
        = (tcpAck noReply s handler.arg.toNat).untimed := by rw [h.world, tcpAck_untimed]
      _ = s'.untimed := by rw [tcpAckHeld_eq hack]

end TableOf

/-- **The two loops.**  Where the loop of the interrupt returns, the loop over the table of any
callbacks does so with the same fuel, and leaves the same. -/
lemma handlerLoop_of_rtcHandlerLoop {n i : ℕ} {s z : Net} {t : HandlerTable HandlerFunction Net}
    (ht : TableOf s t) (h : rtcHandlerLoop n i s = some z) :
    ∃ calls u, handlerLoop ackCall n i t = some (calls, u) ∧ TableOf z u
      ∧ calls.flatMap HandlerCall.registered = [] := by
  induction n generalizing i s t with
  | zero => cases h
  | succ n ih =>
      have hget := ht.getElem? i
      rw [rtcHandlerLoop] at h
      cases hentry : s.handlers[i]? with
      | none =>
          rw [hentry, Option.map_none] at hget
          have hend : ¬ i < t.numHandlers := fun hlt => by
            rw [if_pos hlt] at hget
            cases hget
          simp only [hentry] at h
          cases h
          exact ⟨[], t, by rw [handlerLoop, if_neg hend], ht, rfl⟩
      | some handler =>
          rw [hentry, Option.map_some] at hget
          obtain ⟨hlt, hhandler⟩ : i < t.numHandlers ∧ t.handlers i = handler.callback := by
            split at hget
            · exact ⟨‹_›, (Option.some.inj hget).symm⟩
            · cases hget
          simp only [hentry] at h
          rw [handlerLoop, if_pos hlt, hhandler, ht.counter]
          have htime : handler.callback.time = handler.time := rfl
          rw [htime]
          split at h
          · rename_i hdue
            rw [if_pos hdue]
            cases hack : tcpAckHeld n s handler.arg.toNat with
            | none => simp [hack] at h
            | some s₁ =>
                simp only [hack] at h
                obtain ⟨calls, u, hloop, hu, hnone⟩ := ih (ht.served hentry hack) h
                refine ⟨(callHandler ackCall t handler.callback).1 :: calls, u,
                  by simp only [hloop, Option.map_some], hu, ?_⟩
                rw [List.flatMap_cons, hnone, List.append_nil]
                obtain ⟨⟨⟩, time, arg⟩ := handler
                rfl
          · rename_i hfresh
            rw [if_neg hfresh]
            exact ih ht h

/-- **What is left.**  Where the handler returns, the timers that have expired are gone, and the
others are still there. -/
theorem rtcHandler_keeps {fuel : ℕ} {s z : Net} (h : rtcHandler fuel s = some z) :
    z.counter = s.counter + 1
      ∧ z.handlers.Perm (s.handlers.filter fun h => ! decide (h.time < s.counter + 1)) := by
  set s₁ : Net := { s with counter := s.counter + 1 } with hs₁
  obtain ⟨calls, u, hloop, hu, hnone⟩ := handlerLoop_of_rtcHandlerLoop (tableOf_table s₁) h
  have hwrap : NoWrap ackCall s₁.table.counter := by
    rintro ⟨⟩ arg w r hr
    cases hr
  obtain ⟨calls', u', m, hall, hcounter, -, hrest⟩ :=
    handlerLoop_fires _ hwrap (List.nil_append s₁.table.entries).symm rfl
  have heq := (handlerLoop_mono hloop (Nat.le_max_left fuel m)).symm.trans
    (hall _ (Nat.le_max_right fuel m))
  obtain ⟨rfl, rfl⟩ := Prod.mk.inj (Option.some.inj heq)
  refine ⟨hu.counter.symm.trans hcounter, ?_⟩
  have hinj : Function.Injective Handler.callback := by
    rintro ⟨f, time, arg⟩ ⟨f', time', arg'⟩ heq
    cases heq
    rfl
  rw [hnone, List.append_nil, List.nil_append, hu.entries, (tableOf_table s₁).entries,
    List.filter_map] at hrest
  exact (List.map_perm_map_iff hinj).mp hrest

end CustomLinuxOs
