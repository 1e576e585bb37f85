import CustomLinuxOs.Networking.Udp

/-!
The ARP cache of `arp.c`: the entry a packet goes to, and the entry a lookup finds.

* `arpInit`, `arpAccepts`, `arpSender`, `arpParsePacket_eq`: what `arp_parse_packet` does with a
  packet of valid format.
* `arpSlot`, `arpAddCache_arpCache`: a known MAC keeps its slot, another takes the one at the
  counter.
* `ArpCacheSound`: no two entries have the same MAC, and the slots are filled in order.
* `arpTryCache_eq_some_iff`: a lookup gives the first entry with the address.
-/

namespace CustomLinuxOs

/-- `broadcast_ip`. -/
def broadcastIp : Ip := #v[255, 255, 255, 255]

/-- `arp_init`. -/
def arpInit (s : Net) : Net :=
  arpAddCache (arpAddCache s broadcastMac broadcastIp) broadcastMac s.gatewayIp

/-! ### Packets -/

/-- The format of the packet is the one `arp_parse_packet` goes on with. -/
def arpAccepts (packet : List UInt8) : Bool :=
  (readU16 packet).1 == ARP_ETHERNET && (readU16 (packet.drop 2)).1 == ETHERTYPE_IP4
    && (readU8 (packet.drop 4)).1 == 6 && (readU8 (packet.drop 5)).1 == 4

/-- The operation of a packet. -/
def arpOperation (packet : List UInt8) : UInt16 := (readU16 (packet.drop 6)).1

/-- The sender of a packet. -/
def arpSender (packet : List UInt8) : Mac × Ip :=
  ((readN 6 (packet.drop 8)).1, (readN 4 (packet.drop 14)).1)

/-- The target address of a packet. -/
def arpTarget (packet : List UInt8) : Ip := (readN 4 (packet.drop 24)).1

/-- **A received packet**: one of valid format goes into the cache, after the answer if it is a
request; no other packet does anything. -/
lemma arpParsePacket_eq (s : Net) (packet : List UInt8) :
    arpParsePacket s packet
      = if arpAccepts packet then
          arpAddCache
            (if arpOperation packet = ARP_REQUEST then
              arpSendPacket s ARP_RESPONSE (arpSender packet).1 (arpSender packet).2 else s)
            (arpSender packet).1 (arpSender packet).2
        else s := by
  have hread (n : ℕ) (p : List UInt8) : (readN n p).2 = p.drop n := rfl
  simp only [arpParsePacket, readU16_snd, readU8_snd, hread, List.drop_drop, Nat.reduceAdd,
    arpAccepts, arpOperation, arpSender, Bool.and_eq_true, beq_iff_eq]
  split_ifs <;> first | rfl | simp_all

/-! ### Slots -/

/-- The slot of the entry a MAC goes to. -/
def arpSlot (s : Net) (mac : Mac) : ℕ :=
  ((List.range s.arpCacheLen).find? fun i => decide ((s.arpCache i).mac = mac)).getD
    s.arpCacheCounter

/-- The entries that are in use have different MACs.  As long as there is room the counter points
behind them. -/
structure ArpCacheSound (s : Net) : Prop where
  distinct : ∀ i < s.arpCacheLen, ∀ j < s.arpCacheLen,
    (s.arpCache i).mac = (s.arpCache j).mac → i = j
  len_le : s.arpCacheLen ≤ ARP_CACHE_SIZE
  counter_lt : s.arpCacheCounter < ARP_CACHE_SIZE
  counter_eq : s.arpCacheLen < ARP_CACHE_SIZE → s.arpCacheCounter = s.arpCacheLen

/-- The slot of a MAC is in use by it, or it is the one at the counter and no entry has the
MAC. -/
lemma arpSlot_cases (s : Net) (mac : Mac) :
    (arpSlot s mac < s.arpCacheLen ∧ (s.arpCache (arpSlot s mac)).mac = mac)
      ∨ (arpSlot s mac = s.arpCacheCounter
        ∧ ∀ i < s.arpCacheLen, (s.arpCache i).mac ≠ mac) := by
  rw [arpSlot]
  cases h : (List.range s.arpCacheLen).find? fun i => decide ((s.arpCache i).mac = mac) with
  | none =>
      refine .inr ⟨rfl, fun i hi => ?_⟩
      have hall := List.find?_eq_none.mp h i (List.mem_range.mpr hi)
      simpa using hall
  | some i =>
      have hmac := List.find?_some h
      exact .inl ⟨List.mem_range.mp (List.mem_of_find?_eq_some h), by simpa using hmac⟩

/-- `arp_add_cache` writes the slot of the MAC. -/
lemma arpAddCache_arpCache (s : Net) (mac : Mac) (ip : Ip) :
    (arpAddCache s mac ip).arpCache = Function.update s.arpCache (arpSlot s mac) ⟨mac, ip⟩ := by
  rw [arpAddCache, arpSlot]
  cases h : (List.range s.arpCacheLen).find? fun i => decide ((s.arpCache i).mac = mac) with
  | none => rfl
  | some i =>
      have hmac := List.find?_some h
      obtain rfl : (s.arpCache i).mac = mac := by simpa using hmac
      rfl

namespace ArpCacheSound

variable {s : Net} (h : ArpCacheSound s)
include h

/-- Only the slot of a MAC may hold it. -/
lemma mac_ne {mac : Mac} {i : ℕ} (hi : i < s.arpCacheLen) (hne : i ≠ arpSlot s mac) :
    (s.arpCache i).mac ≠ mac := by
  rcases arpSlot_cases s mac with ⟨hslot, hmac⟩ | ⟨-, hnone⟩
  · intro heq
    exact hne (h.distinct i hi _ hslot (heq.trans hmac.symm))
  · exact hnone i hi

lemma slot_le (mac : Mac) : arpSlot s mac ≤ s.arpCacheLen := by
  rcases arpSlot_cases s mac with ⟨hslot, -⟩ | ⟨hslot, -⟩
  · exact Nat.le_of_lt hslot
  · rw [hslot]
    have hlt := h.counter_lt
    by_cases hroom : s.arpCacheLen < ARP_CACHE_SIZE
    · exact Nat.le_of_eq (h.counter_eq hroom)
    · omega

lemma slot_lt (mac : Mac) : arpSlot s mac < ARP_CACHE_SIZE := by
  have hle := h.len_le
  rcases arpSlot_cases s mac with ⟨hslot, -⟩ | ⟨hslot, -⟩
  · omega
  · rw [hslot]
    exact h.counter_lt

/-- The entries in use after a packet. -/
lemma arpAddCache_len (mac : Mac) (ip : Ip) :
    (arpAddCache s mac ip).arpCacheLen = max s.arpCacheLen (arpSlot s mac + 1) := by
  have hle := h.slot_le mac
  have hlt := h.slot_lt mac
  have hcounter := h.counter_lt
  have hroom := h.counter_eq
  rw [arpAddCache]
  rw [arpSlot] at hle hlt ⊢
  cases hfind : (List.range s.arpCacheLen).find? fun i => decide ((s.arpCache i).mac = mac) with
  | some i =>
      have hi := List.mem_range.mp (List.mem_of_find?_eq_some hfind)
      simp only [Option.getD_some]
      omega
  | none =>
      simp only [Option.getD_none]
      split_ifs <;> omega

/-- Every entry in use after a packet is that of the packet or was there before. -/
lemma of_lt_len {mac : Mac} {ip : Ip} {i : ℕ} (hi : i < (arpAddCache s mac ip).arpCacheLen)
    (hne : i ≠ arpSlot s mac) : i < s.arpCacheLen := by
  have hle := h.slot_le mac
  rw [h.arpAddCache_len] at hi
  omega

/-- **A packet** keeps the cache sound. -/
lemma arpAddCache (mac : Mac) (ip : Ip) : ArpCacheSound (arpAddCache s mac ip) := by
  have hslot := h.slot_le mac
  have hlt := h.slot_lt mac
  have hlen := h.len_le
  refine ⟨fun i hi j hj heq => ?_, ?_, ?_, ?_⟩
  · have hmac {k : ℕ} (hk : k < (CustomLinuxOs.arpAddCache s mac ip).arpCacheLen)
        (hne : k ≠ arpSlot s mac) : (s.arpCache k).mac ≠ mac := h.mac_ne (h.of_lt_len hk hne) hne
    rw [arpAddCache_arpCache] at heq
    by_cases hsi : i = arpSlot s mac
    · by_cases hsj : j = arpSlot s mac
      · rw [hsi, hsj]
      · rw [hsi, Function.update_self, Function.update_of_ne hsj] at heq
        exact absurd heq.symm (hmac hj hsj)
    · by_cases hsj : j = arpSlot s mac
      · rw [hsj, Function.update_self, Function.update_of_ne hsi] at heq
        exact absurd heq (hmac hi hsi)
      · rw [Function.update_of_ne hsi, Function.update_of_ne hsj] at heq
        exact h.distinct i (h.of_lt_len hi hsi) j (h.of_lt_len hj hsj) heq
  · rw [h.arpAddCache_len]
    omega
  · have hcounter := h.counter_lt
    rw [CustomLinuxOs.arpAddCache]
    split
    · exact hcounter
    · simp only
      split_ifs <;> omega
  · have hcounter := h.counter_lt
    have heq := h.counter_eq
    rw [CustomLinuxOs.arpAddCache]
    split
    · exact heq
    · simp only
      split_ifs <;> omega

end ArpCacheSound

lemma ArpCacheSound.of_empty {s : Net} (hlen : s.arpCacheLen = 0)
    (hcounter : s.arpCacheCounter = 0) : ArpCacheSound s where
  distinct i hi := by omega
  len_le := by omega
  counter_lt := by rw [hcounter]; decide
  counter_eq _ := by omega

/-! ### Lookups -/

/-- The first entry in use with an address. -/
structure FirstWith (s : Net) (ip : Ip) (i : ℕ) : Prop where
  used : i < s.arpCacheLen
  address : (s.arpCache i).ip = ip
  first : ∀ j < i, (s.arpCache j).ip ≠ ip

/-- **A lookup** gives the MAC of the first entry with the address. -/
lemma arpTryCache_eq_some_iff (s : Net) (ip : Ip) (mac : Mac) :
    arpTryCache s ip = some mac ↔ ∃ i, FirstWith s ip i ∧ (s.arpCache i).mac = mac := by
  rw [arpTryCache, Option.map_eq_some_iff]
  simp only [List.find?_range_eq_some, decide_eq_true_eq, List.mem_range, Bool.not_eq_true',
    decide_eq_false_iff_not]
  constructor
  · rintro ⟨i, ⟨hip, hused, hfirst⟩, hmac⟩
    exact ⟨i, ⟨hused, hip, hfirst⟩, hmac⟩
  · rintro ⟨i, h, hmac⟩
    exact ⟨i, ⟨h.address, h.used, h.first⟩, hmac⟩

/-- An address that some entry in use has is the address of a first one. -/
lemma exists_firstWith {s : Net} {ip : Ip} {i : ℕ} (hi : i < s.arpCacheLen)
    (hip : (s.arpCache i).ip = ip) : ∃ j ≤ i, FirstWith s ip j := by
  classical
  have hex : ∃ j, (s.arpCache j).ip = ip := ⟨i, hip⟩
  have hle : Nat.find hex ≤ i := Nat.find_min' hex hip
  exact ⟨Nat.find hex, hle, Nat.lt_of_le_of_lt hle hi, Nat.find_spec hex,
    fun j hj => Nat.find_min hex hj⟩

end CustomLinuxOs
