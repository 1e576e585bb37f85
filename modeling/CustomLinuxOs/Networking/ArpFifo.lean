import CustomLinuxOs.Foundations.FifoMap
import CustomLinuxOs.Networking.Arp

/-!
The ARP cache as a map with room for eight MACs.

* `arpEntries`, `arpQueue`: the slots of the cache, and its entries from the oldest on.
* `ArpCacheSound.ringMap`: a sound cache is a table that is filled in order and then overwritten in
  turn.
* `ArpCacheSound.arpQueue_arpAddCache`: `arp_add_cache` inserts into the map.
* `arpCache_fifo`: the cache after any sequence of calls.
-/

namespace CustomLinuxOs

/-- The entries in the slots of the cache. -/
def arpEntries (s : Net) (i : ℕ) : Mac × Ip := ((s.arpCache i).mac, (s.arpCache i).ip)

/-- The valid entries of the cache in the order in which their MACs came. -/
def arpQueue (s : Net) : List (Mac × Ip) :=
  ringQueue ARP_CACHE_SIZE (arpEntries s) s.arpCacheLen s.arpCacheCounter

namespace ArpCacheSound

variable {s : Net} (h : ArpCacheSound s)
include h

lemma ringMap : RingMap ARP_CACHE_SIZE (arpEntries s) s.arpCacheLen s.arpCacheCounter :=
  ⟨h.distinct, h.len_le, h.counter_lt, h.counter_eq⟩

/-- **`arp_add_cache`** inserts into the map. -/
lemma arpQueue_arpAddCache (mac : Mac) (ip : Ip) : arpQueue (CustomLinuxOs.arpAddCache s mac ip)
    = fifoInsert ARP_CACHE_SIZE (arpQueue s) mac ip := by
  rw [CustomLinuxOs.arpAddCache]
  cases hfind : (List.range s.arpCacheLen).find? fun i => decide ((s.arpCache i).mac = mac) with
  | some i =>
      have hi := List.mem_range.mp (List.mem_of_find?_eq_some hfind)
      have hmac := List.find?_some hfind
      obtain rfl : (s.arpCache i).mac = mac := by simpa using hmac
      have hentries : arpEntries { s with
            arpCache := Function.update s.arpCache i { s.arpCache i with ip := ip } }
          = Function.update (arpEntries s) i ((s.arpCache i).mac, ip) := by
        funext j
        simp only [arpEntries, Function.update_apply]
        split <;> rfl
      have hreplace := h.ringMap.replace hi ip
      rw [arpQueue, hentries]
      exact hreplace
  | none =>
      have hnone : ∀ i < s.arpCacheLen, (arpEntries s i).1 ≠ mac := by
        intro i hi
        have hall : ¬ (s.arpCache i).mac = mac := by
          simpa using List.find?_eq_none.mp hfind i (List.mem_range.mpr hi)
        exact hall
      have hentries (len counter : ℕ) : arpEntries { s with
            arpCache := Function.update s.arpCache s.arpCacheCounter ⟨mac, ip⟩
            arpCacheLen := len
            arpCacheCounter := counter }
          = Function.update (arpEntries s) s.arpCacheCounter (mac, ip) := by
        funext j
        simp only [arpEntries, Function.update_apply]
        split <;> rfl
      have hinsert := h.ringMap.insert hnone ip
      simp only [arpQueue, hentries]
      exact hinsert

end ArpCacheSound

/-- The cache after packets, and the map after them. -/
lemma arpQueue_foldl {s : Net} (h : ArpCacheSound s) (packets : List (Mac × Ip)) :
    ArpCacheSound (packets.foldl (fun s p => arpAddCache s p.1 p.2) s)
      ∧ arpQueue (packets.foldl (fun s p => arpAddCache s p.1 p.2) s)
        = packets.foldl (fun q p => fifoInsert ARP_CACHE_SIZE q p.1 p.2) (arpQueue s) := by
  induction packets generalizing s with
  | nil => exact ⟨h, rfl⟩
  | cons p packets ih =>
      have hnext := ih (h.arpAddCache p.1 p.2)
      rw [h.arpQueue_arpAddCache] at hnext
      exact hnext

/-- **The ARP cache**, after any sequence of calls of `arp_add_cache` from the empty one: its length
and counter are in range, its MACs are distinct, and its valid entries are those of the map with
room for eight keys after the same insertions, in which a new MAC evicts the one that came first. -/
theorem arpCache_fifo {s : Net} (hlen : s.arpCacheLen = 0) (hcounter : s.arpCacheCounter = 0)
    (packets : List (Mac × Ip)) :
    let z := packets.foldl (fun s p => arpAddCache s p.1 p.2) s
    z.arpCacheLen ≤ ARP_CACHE_SIZE ∧ z.arpCacheCounter < ARP_CACHE_SIZE
      ∧ (∀ i < z.arpCacheLen, ∀ j < z.arpCacheLen,
        (z.arpCache i).mac = (z.arpCache j).mac → i = j)
      ∧ (arpQueue z).length = z.arpCacheLen
      ∧ (∀ e, e ∈ arpQueue z ↔ ∃ i < z.arpCacheLen, arpEntries z i = e)
      ∧ arpQueue z = packets.foldl (fun q p => fifoInsert ARP_CACHE_SIZE q p.1 p.2) [] := by
  intro z
  obtain ⟨hsound, hqueue⟩ := arpQueue_foldl (ArpCacheSound.of_empty hlen hcounter) packets
  have hempty : arpQueue s = [] := by
    rw [arpQueue, hlen]
    rfl
  rw [hempty] at hqueue
  exact ⟨hsound.len_le, hsound.counter_lt, hsound.distinct, ringSlice_length _ _ _ _,
    fun e => hsound.ringMap.mem_ringQueue, hqueue⟩

/-- An address for each number, and one more. -/
def packetOf (n ip : UInt8) : Mac × Ip := (Vector.replicate 6 n, Vector.replicate 4 ip)

/-- Nine MACs, and a new address for one of them before the ninth. -/
def ninePackets : List (Mac × Ip) :=
  [packetOf 0 10, packetOf 1 11, packetOf 2 12, packetOf 3 13, packetOf 4 14, packetOf 5 15,
    packetOf 6 16, packetOf 7 17, packetOf 3 23, packetOf 8 18]

/-- The ninth evicts the first, and the one with the new address keeps its turn. -/
theorem arpCache_fifo_ninePackets :
    let z := ninePackets.foldl (fun s p => arpAddCache s p.1 p.2) Net.boot
    arpQueue z = [packetOf 1 11, packetOf 2 12, packetOf 3 23, packetOf 4 14, packetOf 5 15,
      packetOf 6 16, packetOf 7 17, packetOf 8 18] := by
  intro z
  obtain ⟨-, -, -, -, -, hqueue⟩ := arpCache_fifo (s := Net.boot) rfl rfl ninePackets
  exact hqueue.trans (by decide +kernel)

end CustomLinuxOs
