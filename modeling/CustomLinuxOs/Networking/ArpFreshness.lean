import CustomLinuxOs.Foundations.Run
import CustomLinuxOs.Networking.Arp

/-!
Whether the ARP cache answers with the latest packet of an address.

The cache is keyed by MAC when a packet comes in and searched by address, first slot first, when
it is asked.  When an address moves to another MAC, the entry of the old one stays, and the slots
decide which of the two is found.

* `latestMac`, `Fresh`: the latest sender with an address, and a cache that answers with it.
* `KeepsFresh`: no entry before the slot of the sender has its address, and an address that is
  taken off the slot has no other entry behind it.
* `fresh_arpAddCache_iff`: a packet keeps a fresh cache fresh exactly when it meets this.
* `arpCache_fresh_iff`: so in every run the cache is always fresh exactly when all packets do.
-/

namespace CustomLinuxOs

/-! ### The latest packet -/

/-- The MAC of the latest packet from an address. -/
def latestMac (history : List (Mac × Ip)) (ip : Ip) : Option Mac :=
  (history.reverse.find? fun p => decide (p.2 = ip)).map Prod.fst

lemma latestMac_snoc (history : List (Mac × Ip)) (mac : Mac) (ip x : Ip) :
    latestMac (history ++ [(mac, ip)]) x = if ip = x then some mac else latestMac history x := by
  rw [latestMac, List.reverse_append]
  by_cases h : ip = x
  · simp [h]
  · simp [h, latestMac]

/-- Every answer of the cache is the MAC of the latest packet from the address. -/
def Fresh (s : Net) (history : List (Mac × Ip)) : Prop :=
  ∀ ip mac, arpTryCache s ip = some mac → latestMac history ip = some mac

/-- No entry before the slot of the sender has its address.  When the slot is the first one with
another address, no entry behind it has that. -/
def KeepsFresh (s : Net) (mac : Mac) (ip : Ip) : Prop :=
  (∀ i < arpSlot s mac, (s.arpCache i).ip ≠ ip)
    ∧ ∀ old ≠ ip, FirstWith s old (arpSlot s mac) →
      ∀ j < s.arpCacheLen, arpSlot s mac < j → (s.arpCache j).ip ≠ old

section Packet

variable {s : Net} {history : List (Mac × Ip)} {mac : Mac} {ip : Ip}

lemma arpAddCache_of_ne {i : ℕ} (h : i ≠ arpSlot s mac) :
    (arpAddCache s mac ip).arpCache i = s.arpCache i := by
  rw [arpAddCache_arpCache, Function.update_of_ne h]

/-- After a packet that does not meet the condition some address has a stale answer. -/
lemma keepsFresh_of_fresh (hs : ArpCacheSound s) (hfresh : Fresh s history)
    (h : Fresh (arpAddCache s mac ip) (history ++ [(mac, ip)])) : KeepsFresh s mac ip := by
  have hslot := hs.slot_le mac
  have hlen := hs.arpAddCache_len mac ip
  -- an entry other than that of the packet that is found first belongs to the latest packet
  have found {x : Ip} {i : ℕ} (hi : i < s.arpCacheLen) (hne : i ≠ arpSlot s mac)
      (hx : (s.arpCache i).ip = x)
      (hfirst : ∀ j < i, ((arpAddCache s mac ip).arpCache j).ip ≠ x) :
      latestMac (history ++ [(mac, ip)]) x = some (s.arpCache i).mac := by
    have hsame : (arpAddCache s mac ip).arpCache i = s.arpCache i := arpAddCache_of_ne hne
    refine h x _ ((arpTryCache_eq_some_iff _ _ _).mpr ⟨i, ⟨by omega, ?_, hfirst⟩, ?_⟩)
    · rw [hsame, hx]
    · rw [hsame]
  refine ⟨fun i hi hip => ?_, fun old hold hfirst j hj hlt hip => ?_⟩
  · obtain ⟨k, hk, hfirst⟩ := exists_firstWith (by omega : i < s.arpCacheLen) hip
    have hlatest := found hfirst.used (by omega) hfirst.address fun m hm => by
      rw [arpAddCache_of_ne (by omega)]
      exact hfirst.first m hm
    rw [latestMac_snoc, if_pos rfl] at hlatest
    exact hs.mac_ne hfirst.used (by omega) (Option.some.inj hlatest).symm
  · classical
    have hex : ∃ k, arpSlot s mac < k ∧ (s.arpCache k).ip = old := ⟨j, hlt, hip⟩
    have hkj : Nat.find hex ≤ j := Nat.find_min' hex ⟨hlt, hip⟩
    obtain ⟨hk, hkip⟩ := Nat.find_spec hex
    have hlatest := found (by omega : Nat.find hex < s.arpCacheLen) (by omega) hkip fun m hm => by
      rcases Nat.lt_trichotomy m (arpSlot s mac) with hm' | rfl | hm'
      · rw [arpAddCache_of_ne (by omega)]
        exact hfirst.first m hm'
      · rw [arpAddCache_arpCache, Function.update_self]
        exact hold.symm
      · rw [arpAddCache_of_ne (by omega)]
        exact fun hmip => Nat.find_min hex hm ⟨hm', hmip⟩
    rw [latestMac_snoc, if_neg (Ne.symm hold)] at hlatest
    have hbefore := hfresh old _ ((arpTryCache_eq_some_iff _ _ _).mpr ⟨_, hfirst, rfl⟩)
    have hmac := Option.some.inj (hbefore.symm.trans hlatest)
    have heq := hs.distinct _ hfirst.used _ (by omega : Nat.find hex < s.arpCacheLen) hmac
    omega

/-- A packet that meets the condition keeps a fresh cache fresh. -/
lemma KeepsFresh.fresh (hs : ArpCacheSound s) (hfresh : Fresh s history)
    (h : KeepsFresh s mac ip) : Fresh (arpAddCache s mac ip) (history ++ [(mac, ip)]) := by
  intro x m hx
  obtain ⟨i, hfirst, rfl⟩ := (arpTryCache_eq_some_iff _ _ _).mp hx
  rw [latestMac_snoc]
  rcases eq_or_ne i (arpSlot s mac) with rfl | hne
  · -- the entry of the packet itself
    have haddress := hfirst.address
    rw [arpAddCache_arpCache, Function.update_self] at haddress
    rw [if_pos haddress, arpAddCache_arpCache, Function.update_self]
  · have hused := hs.of_lt_len hfirst.used hne
    have hsame : (arpAddCache s mac ip).arpCache i = s.arpCache i := arpAddCache_of_ne hne
    have haddress := hfirst.address
    rw [hsame] at haddress
    have hx : ip ≠ x := by
      rintro rfl
      rcases Nat.lt_or_gt_of_ne hne with hlt | hgt
      · exact h.1 i hlt haddress
      · have hskip := hfirst.first _ hgt
        rw [arpAddCache_arpCache, Function.update_self] at hskip
        exact hskip rfl
    -- the entries before it did not have the address before either
    have hold : FirstWith s x i := by
      refine ⟨hused, haddress, fun j hj hjx => ?_⟩
      have hskip (k : ℕ) (hk : k < i) (hks : k ≠ arpSlot s mac) : (s.arpCache k).ip ≠ x := by
        have hkx := hfirst.first k hk
        rwa [arpAddCache_of_ne hks] at hkx
      rcases eq_or_ne j (arpSlot s mac) with rfl | hjs
      · exact h.2 x (Ne.symm hx) ⟨by omega, hjx, fun k hk => hskip k (by omega) (by omega)⟩ i hused
          hj haddress
      · exact hskip j hj hjs hjx
    rw [if_neg hx, hsame]
    exact hfresh x _ ((arpTryCache_eq_some_iff _ _ _).mpr ⟨i, hold, rfl⟩)

/-- **One packet**: the condition is exact. -/
theorem fresh_arpAddCache_iff (hs : ArpCacheSound s) (hfresh : Fresh s history) :
    Fresh (arpAddCache s mac ip) (history ++ [(mac, ip)]) ↔ KeepsFresh s mac ip :=
  ⟨keepsFresh_of_fresh hs hfresh, KeepsFresh.fresh hs hfresh⟩

end Packet

/-! ### Runs -/

/-- The network state, with the senders of all packets accepted so far. -/
structure ArpState where
  net : Net
  history : List (Mac × Ip)

/-- The state after `arp_init`, whose two entries begin the history. -/
def ArpState.start (s : Net) : ArpState where
  net := arpInit { s with arpCacheLen := 0, arpCacheCounter := 0 }
  history := [(broadcastMac, broadcastIp), (broadcastMac, s.gatewayIp)]

/-- A packet comes in. -/
def arpStep (t : ArpState) (packet : List UInt8) : Option ArpState :=
  some { net := arpParsePacket t.net packet
         history := if arpAccepts packet then t.history ++ [arpSender packet] else t.history }

/-- The condition, for a packet that is accepted. -/
def PacketKeepsFresh (t : ArpState) (packet : List UInt8) : Prop :=
  arpAccepts packet = true → KeepsFresh t.net (arpSender packet).1 (arpSender packet).2

lemma ArpCacheSound.arpSendPacket {s : Net} (h : ArpCacheSound s) (op : UInt16) (tha : Mac)
    (tpa : Ip) : ArpCacheSound (arpSendPacket s op tha tpa) :=
  ⟨h.distinct, h.len_le, h.counter_lt, h.counter_eq⟩

/-- An answer that is sent has nothing to do with the cache. -/
lemma keepsFresh_arpSendPacket (s : Net) (op : UInt16) (tha : Mac) (tpa : Ip) (mac : Mac)
    (ip : Ip) : KeepsFresh (arpSendPacket s op tha tpa) mac ip ↔ KeepsFresh s mac ip := by
  have hfirst (x : Ip) (i : ℕ) :
      FirstWith (arpSendPacket s op tha tpa) x i ↔ FirstWith s x i :=
    ⟨fun h => ⟨h.used, h.address, h.first⟩, fun h => ⟨h.used, h.address, h.first⟩⟩
  simp only [KeepsFresh, hfirst]
  rfl

/-- **One step** keeps the cache sound, and fresh exactly under the condition. -/
lemma arpStep_fresh {t u : ArpState} {packet : List UInt8} (hs : ArpCacheSound t.net)
    (hfresh : Fresh t.net t.history) (hu : arpStep t packet = some u) :
    ArpCacheSound u.net ∧ (Fresh u.net u.history ↔ PacketKeepsFresh t packet) := by
  cases hu
  rw [PacketKeepsFresh, arpParsePacket_eq]
  cases haccept : arpAccepts packet with
  | false => exact ⟨hs, iff_of_true hfresh fun h => nomatch h⟩
  | true =>
      simp only [if_true, true_imp_iff]
      split
      · have hs' := hs.arpSendPacket ARP_RESPONSE (arpSender packet).1 (arpSender packet).2
        refine ⟨hs'.arpAddCache _ _, ?_⟩
        rw [← keepsFresh_arpSendPacket t.net ARP_RESPONSE (arpSender packet).1
          (arpSender packet).2]
        exact fresh_arpAddCache_iff hs' hfresh
      · exact ⟨hs.arpAddCache _ _, fresh_arpAddCache_iff hs hfresh⟩

/-- The cache after `arp_init` is sound and fresh: both packets go to the first slot. -/
lemma ArpState.start_fresh (s : Net) :
    ArpCacheSound (ArpState.start s).net
      ∧ Fresh (ArpState.start s).net (ArpState.start s).history := by
  set s₀ : Net := { s with arpCacheLen := 0, arpCacheCounter := 0 } with hs₀
  have hsound : ArpCacheSound s₀ := .of_empty rfl rfl
  have hempty : Fresh s₀ [] := by
    intro ip mac h
    cases h
  have hfirst : KeepsFresh s₀ broadcastMac broadcastIp :=
    ⟨fun i hi => absurd hi (Nat.not_lt_zero i), fun old _ h => absurd h.used (Nat.not_lt_zero _)⟩
  have hsound₁ := hsound.arpAddCache broadcastMac broadcastIp
  have hfresh₁ := hfirst.fresh hsound hempty
  have hlen : (arpAddCache s₀ broadcastMac broadcastIp).arpCacheLen = 1 :=
    hsound.arpAddCache_len broadcastMac broadcastIp
  have hmac : ((arpAddCache s₀ broadcastMac broadcastIp).arpCache 0).mac = broadcastMac := by
    rw [arpAddCache_arpCache]
    rfl
  have hslot : arpSlot (arpAddCache s₀ broadcastMac broadcastIp) broadcastMac = 0 := by
    rw [arpSlot, hlen]
    simp [hmac]
  have hsecond : KeepsFresh (arpAddCache s₀ broadcastMac broadcastIp) broadcastMac s.gatewayIp := by
    rw [KeepsFresh, hslot, hlen]
    exact ⟨fun i hi => absurd hi (Nat.not_lt_zero i), fun _ _ _ j hj hlt => by omega⟩
  exact ⟨hsound₁.arpAddCache broadcastMac s.gatewayIp, hsecond.fresh hsound₁ hfresh₁⟩

/-- **Freshness of the ARP cache.**  Let any packets come in after `arp_init`.  In all states of
the run every answer of the cache is the MAC of the latest packet from the address, exactly when
every accepted packet of the run meets the condition in the state it comes in: no entry before
the slot of its MAC has its address, and no entry behind that slot has the address it takes off
it. -/
theorem arpCache_fresh_iff (s : Net) (packets : List (List UInt8)) :
    EveryState arpStep (ArpState.start s) packets (fun t => Fresh t.net t.history)
      ↔ EveryStep arpStep (ArpState.start s) packets PacketKeepsFresh := by
  have hrun : ∃ z, Run arpStep (ArpState.start s) packets z := by
    induction packets using List.reverseRecOn with
    | nil => exact ⟨_, Run.nil⟩
    | append_singleton packets packet ih =>
        obtain ⟨t, ht⟩ := ih
        exact ⟨_, ht.snoc rfl⟩
  obtain ⟨z, hz⟩ := hrun
  obtain ⟨hsound, hfresh⟩ := ArpState.start_fresh s
  exact everyState_iff_everyStep (V := fun _ => True) (I := fun t => ArpCacheSound t.net) hz
    (fun _ _ => trivial) hsound hfresh
    (fun t packet u _ hs hf hu => (arpStep_fresh hs hf hu).2)
    fun t packet u _ hs hf _ hu => (arpStep_fresh hs hf hu).1

/-! ### An address that moves -/

/-- A reply from a MAC with an address. -/
def arpReplyPacket (mac : Mac) (ip : Ip) : List UInt8 :=
  writeU16 ARP_ETHERNET ++ writeU16 ETHERTYPE_IP4 ++ writeU8 6 ++ writeU8 4
    ++ writeU16 ARP_RESPONSE ++ mac.toList ++ ip.toList ++ List.replicate 10 0

/-- Two hosts with the address `10.0.2.3`, one after the other. -/
def movedAddress : List (List UInt8) :=
  [arpReplyPacket #v[2, 0, 0, 0, 0, 1] #v[10, 0, 2, 3],
    arpReplyPacket #v[2, 0, 0, 0, 0, 2] #v[10, 0, 2, 3]]

/-- The cache still answers with the first of them. -/
theorem arpCache_stale :
    ¬ ∀ packets, EveryState arpStep (ArpState.start Net.boot) packets
      fun t => Fresh t.net t.history := by
  intro h
  have hread : (movedAddress.foldlM arpStep (ArpState.start Net.boot)).map (fun t =>
      (arpTryCache t.net #v[10, 0, 2, 3], latestMac t.history #v[10, 0, 2, 3]))
      = some (some #v[2, 0, 0, 0, 0, 1], some #v[2, 0, 0, 0, 0, 2]) := by decide +kernel
  obtain ⟨z, hz, hvalue⟩ := exists_run_of_map hread
  obtain ⟨hcache, hlatest⟩ := Prod.mk.inj hvalue
  have hfresh := (h movedAddress).last hz _ _ hcache
  rw [hlatest] at hfresh
  exact absurd hfresh (by decide)

end CustomLinuxOs
