import CustomLinuxOs.Foundations.Ring

/-!
Maps with room for `N` keys, in which a new key takes the place of the oldest one, and the tables
that hold them.

* `fifoInsert`: insertion into such a map.  The entries are kept in the order in which their keys
  came.
* `RingMap`: a table of `N` slots that is filled in order and then overwritten in turn, with no key
  in two slots in use.
* `ringQueue`: the entries of a table, the oldest first; `RingMap.mem_ringQueue`.
* `RingMap.replace`, `RingMap.insert`: what happens to the table is an insertion into the map.
-/

namespace CustomLinuxOs

variable {α β : Type*}

/-- A key gets a value in a map with room for `N` keys.  A key that is there keeps its place, and a
new one is put last; if there is no room the first entry goes. -/
def fifoInsert [DecidableEq α] (N : ℕ) (q : List (α × β)) (k : α) (v : β) : List (α × β) :=
  if k ∈ q.map Prod.fst then q.map fun e => if e.1 = k then (k, v) else e
  else if q.length < N then q ++ [(k, v)]
  else q.tail ++ [(k, v)]

/-- The entries of a table of `N` slots, of which `len` are in use and `counter` is the next to be
written, the oldest first. -/
def ringQueue (N : ℕ) (buf : ℕ → α × β) (len counter : ℕ) : List (α × β) :=
  ringSlice N buf (counter + N - len) len

/-- The slots in use of a table have different keys.  As long as there is room the counter points
behind them. -/
structure RingMap (N : ℕ) (buf : ℕ → α × β) (len counter : ℕ) : Prop where
  distinct : ∀ i < len, ∀ j < len, (buf i).1 = (buf j).1 → i = j
  len_le : len ≤ N
  counter_lt : counter < N
  counter_eq : len < N → counter = len

namespace RingMap

variable {N len counter : ℕ} {buf : ℕ → α × β} (h : RingMap N buf len counter)
include h

/-- The slot of an entry: with room the entries are in the order of their slots, and otherwise they
begin at the counter. -/
lemma slot_eq {i : ℕ} (hi : i < len) : (counter + N - len + i) % N
    = if len < N then i else if counter + i < N then counter + i else counter + i - N := by
  have hlen := h.len_le
  have hcounter := h.counter_lt
  by_cases hroom : len < N
  · rw [if_pos hroom, h.counter_eq hroom, Nat.add_sub_cancel_left, Nat.add_mod_left,
      Nat.mod_eq_of_lt (by omega)]
  · obtain rfl : len = N := by omega
    rw [if_neg hroom, Nat.add_sub_cancel]
    by_cases hwrap : counter + i < len
    · rw [if_pos hwrap, Nat.mod_eq_of_lt hwrap]
    · rw [if_neg hwrap, Nat.mod_eq_sub_mod (by omega), Nat.mod_eq_of_lt (by omega)]

/-- The slots of the entries are the slots in use. -/
lemma exists_slot_iff {j : ℕ} : (∃ i < len, (counter + N - len + i) % N = j) ↔ j < len := by
  have hlen := h.len_le
  have hcounter := h.counter_lt
  constructor
  · rintro ⟨i, hi, rfl⟩
    rw [h.slot_eq hi]
    split_ifs <;> omega
  · intro hj
    by_cases hroom : len < N
    · exact ⟨j, hj, by rw [h.slot_eq hj, if_pos hroom]⟩
    · by_cases hwrap : counter ≤ j
      · refine ⟨j - counter, by omega, ?_⟩
        rw [h.slot_eq (by omega), if_neg hroom, if_pos (by omega)]
        omega
      · refine ⟨j + N - counter, by omega, ?_⟩
        rw [h.slot_eq (by omega), if_neg hroom, if_neg (by omega)]
        omega

/-- **The entries** are those of the slots in use. -/
lemma mem_ringQueue {e : α × β} : e ∈ ringQueue N buf len counter ↔ ∃ j < len, buf j = e := by
  rw [ringQueue, ringSlice, List.mem_map]
  constructor
  · rintro ⟨i, hi, rfl⟩
    exact ⟨_, h.exists_slot_iff.mp ⟨i, List.mem_range.mp hi, rfl⟩, rfl⟩
  · rintro ⟨j, hj, rfl⟩
    obtain ⟨i, hi, hslot⟩ := h.exists_slot_iff.mpr hj
    exact ⟨i, List.mem_range.mpr hi, by rw [hslot]⟩

lemma mem_keys {k : α} :
    k ∈ (ringQueue N buf len counter).map Prod.fst ↔ ∃ j < len, (buf j).1 = k := by
  simp only [List.mem_map, h.mem_ringQueue]
  constructor
  · rintro ⟨e, ⟨j, hj, rfl⟩, hk⟩
    exact ⟨j, hj, hk⟩
  · rintro ⟨j, hj, hk⟩
    exact ⟨buf j, ⟨j, hj, rfl⟩, hk⟩

variable [DecidableEq α]

/-- **A key that is there** gets a new value in its slot. -/
theorem replace {i : ℕ} (hi : i < len) (v : β) :
    ringQueue N (Function.update buf i ((buf i).1, v)) len counter
      = fifoInsert N (ringQueue N buf len counter) (buf i).1 v := by
  rw [fifoInsert, if_pos (h.mem_keys.mpr ⟨i, hi, rfl⟩), ringQueue, ringQueue, ringSlice, ringSlice,
    List.map_map]
  refine List.map_congr_left fun m hm => ?_
  have hslot := h.exists_slot_iff.mp ⟨m, List.mem_range.mp hm, rfl⟩
  rw [Function.comp_apply, Function.update_apply]
  by_cases heq : (counter + N - len + m) % N = i
  · rw [if_pos heq, heq, if_pos rfl]
  · rw [if_neg heq, if_neg fun hkey => heq (h.distinct _ hslot _ hi hkey)]

/-- **A new key** goes to the slot at the counter, where the oldest entry is if there is no
room. -/
theorem insert {k : α} (hk : ∀ i < len, (buf i).1 ≠ k) (v : β) :
    ringQueue N (Function.update buf counter (k, v)) (if len < N then len + 1 else len)
        (if counter + 1 = N then 0 else counter + 1)
      = fifoInsert N (ringQueue N buf len counter) k v := by
  have hlen := h.len_le
  have hcounter := h.counter_lt
  have hnew : ¬ k ∈ (ringQueue N buf len counter).map Prod.fst := by
    rw [h.mem_keys]
    rintro ⟨i, hi, hki⟩
    exact hk i hi hki
  have hstart (n : ℕ) (hn : n ≤ N) : (if counter + 1 = N then 0 else counter + 1) + N - n
      ≡ counter + 1 + N - n [MOD N] := by
    by_cases hwrap : counter + 1 = N
    · rw [if_pos hwrap, hwrap, Nat.zero_add, Nat.add_sub_assoc hn, Nat.ModEq, Nat.add_mod_left]
    · rw [if_neg hwrap]
  rw [fifoInsert, if_neg hnew, ringQueue, ringQueue, ringSlice_length]
  by_cases hroom : len < N
  · have hslot : counter = (counter + N - len + len) % N := by
      rw [Nat.sub_add_cancel (by omega), Nat.add_mod_right, Nat.mod_eq_of_lt hcounter]
    have hfirst : counter + 1 + N - (len + 1) = counter + N - len := by omega
    have hpush := ringSlice_push (p := counter + N - len) buf (k, v) hroom
    rw [← hslot] at hpush
    rw [if_pos hroom, if_pos hroom, ringSlice_congr _ _ (hstart _ hroom), hfirst]
    exact hpush
  · obtain rfl : len = N := by omega
    obtain ⟨n, rfl⟩ : ∃ n, len = n + 1 := ⟨len - 1, by omega⟩
    have hslot : counter = (counter + 1 + n) % (n + 1) := by
      rw [Nat.add_assoc, Nat.add_comm 1, Nat.add_mod_right, Nat.mod_eq_of_lt hcounter]
    have htail : (ringSlice (n + 1) buf counter (n + 1)).tail
        = ringSlice (n + 1) buf (counter + 1) n := by
      rw [Nat.add_comm n 1, ringSlice_add]
      rfl
    have hpush := ringSlice_push (p := counter + 1) buf (k, v) (Nat.lt_succ_self n)
    rw [← hslot] at hpush
    rw [if_neg hroom, if_neg hroom, ringSlice_congr _ _ (hstart _ le_rfl), Nat.add_sub_cancel,
      Nat.add_sub_cancel, htail]
    exact hpush

end RingMap

end CustomLinuxOs
