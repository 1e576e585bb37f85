import Mathlib.Data.List.GetD
import Mathlib.Tactic

/-!
Bytes in memory.

* `copyTo`: bytes written from an address on.
* `applyStores`, `storesFrom`: single stores, one after the other; `applyStores_storesFrom` ties
  them to `copyTo`, and `forall_storesFrom_lt` is the bound of their addresses.
* `shiftStores`: stores through a pointer into a buffer.
* `StringAt`: a string and its terminator.  There is at most one at an address.
-/

namespace CustomLinuxOs

/-! ### Writing -/

/-- Memory after `bytes` have been written from `dest` on. -/
def copyTo (mem : ℕ → UInt8) (dest : ℕ) (bytes : List UInt8) : ℕ → UInt8 :=
  fun a => if dest ≤ a ∧ a < dest + bytes.length then bytes.getD (a - dest) 0 else mem a

lemma copyTo_nil (mem : ℕ → UInt8) (dest : ℕ) : copyTo mem dest [] = mem :=
  funext fun _ => if_neg (by rw [List.length_nil]; omega)

lemma copyTo_singleton (mem : ℕ → UInt8) (dest : ℕ) (c : UInt8) :
    copyTo mem dest [c] = Function.update mem dest c := by
  funext a
  rw [copyTo, List.length_singleton]
  rcases eq_or_ne a dest with rfl | ha
  · rw [Function.update_self, if_pos (by omega), Nat.sub_self, List.getD_cons_zero]
  · rw [Function.update_of_ne ha, if_neg (by omega)]

/-- Writing two stretches one behind the other. -/
lemma copyTo_append (mem : ℕ → UInt8) (dest : ℕ) (xs ys : List UInt8) :
    copyTo (copyTo mem dest xs) (dest + xs.length) ys = copyTo mem dest (xs ++ ys) := by
  funext a
  simp only [copyTo, List.length_append]
  by_cases hys : dest + xs.length ≤ a ∧ a < dest + xs.length + ys.length
  · rw [if_pos hys, if_pos (by omega), List.getD_append_right _ _ _ _ (by omega),
      Nat.sub_sub]
  · rw [if_neg hys]
    by_cases hxs : dest ≤ a ∧ a < dest + xs.length
    · rw [if_pos hxs, if_pos (by omega), List.getD_append _ _ _ _ (by omega)]
    · rw [if_neg hxs, if_neg (by omega)]

/-- Writing two stretches, the second first. -/
lemma copyTo_append_left (mem : ℕ → UInt8) (dest : ℕ) (xs ys : List UInt8) :
    copyTo (copyTo mem (dest + xs.length) ys) dest xs = copyTo mem dest (xs ++ ys) := by
  rw [← copyTo_append]
  funext a
  simp only [copyTo]
  by_cases hxs : dest ≤ a ∧ a < dest + xs.length
  · rw [if_pos hxs, if_neg (by omega), if_pos hxs]
  · simp only [if_neg hxs]

/-- Writing over a stretch. -/
lemma copyTo_copyTo (mem : ℕ → UInt8) (dest : ℕ) {xs ys : List UInt8}
    (h : xs.length = ys.length) : copyTo (copyTo mem dest xs) dest ys = copyTo mem dest ys := by
  funext a
  simp only [copyTo, h]
  split <;> rfl

/-- Writing over a part of a stretch. -/
lemma copyTo_patch (mem : ℕ → UInt8) (dest : ℕ) {bytes patch : List UInt8} {k : ℕ}
    (hk : k + patch.length ≤ bytes.length) :
    copyTo (copyTo mem dest bytes) (dest + k) patch
      = copyTo mem dest (bytes.take k ++ patch ++ bytes.drop (k + patch.length)) := by
  set first := bytes.take k with hfirst
  set old := (bytes.drop k).take patch.length with hold
  set rest := bytes.drop (k + patch.length) with hrest
  have hbytes : bytes = first ++ (old ++ rest) := by
    rw [hold, hrest, ← List.drop_drop, List.take_append_drop, hfirst, List.take_append_drop]
  have hfirstLength : first.length = k := by
    rw [hfirst, List.length_take]
    omega
  have holdLength : old.length = patch.length := by
    rw [hold, List.length_take, List.length_drop]
    omega
  calc copyTo (copyTo mem dest bytes) (dest + k) patch
      = copyTo (copyTo (copyTo (copyTo mem dest first) (dest + k + old.length) rest)
          (dest + k) old) (dest + k) patch := by
        rw [copyTo_append_left, ← hfirstLength, copyTo_append, ← hbytes]
    _ = copyTo (copyTo (copyTo mem dest first) (dest + k + patch.length) rest)
          (dest + k) patch := by
        rw [copyTo_copyTo _ _ holdLength, holdLength]
    _ = copyTo mem dest (first ++ patch ++ rest) := by
        rw [copyTo_append_left, ← hfirstLength, copyTo_append, List.append_assoc]

/-- Writing the values of a function. -/
lemma copyTo_range (mem : ℕ → UInt8) (dest n : ℕ) (f : ℕ → UInt8) :
    copyTo mem dest ((List.range n).map f)
      = fun a => if dest ≤ a ∧ a < dest + n then f (a - dest) else mem a := by
  funext a
  simp only [copyTo, List.length_map, List.length_range]
  by_cases ha : dest ≤ a ∧ a < dest + n
  · rw [if_pos ha, if_pos ha, List.getD_eq_getElem _ _ (by simp; omega), List.getElem_map,
      List.getElem_range]
  · rw [if_neg ha, if_neg ha]

/-- Writing the next values of a function. -/
lemma copyTo_range_add (mem : ℕ → UInt8) (dest k m : ℕ) (f : ℕ → UInt8) :
    copyTo (copyTo mem dest ((List.range k).map f)) (dest + k)
        ((List.range m).map fun i => f (k + i))
      = copyTo mem dest ((List.range (k + m)).map f) := by
  have hlength : ((List.range k).map f).length = k := by
    rw [List.length_map, List.length_range]
  have hsplit : (List.range (k + m)).map f
      = (List.range k).map f ++ (List.range m).map fun i => f (k + i) := by
    rw [List.range_add, List.map_append, List.map_map]
    rfl
  rw [hsplit, ← copyTo_append, hlength]

/-- A byte before a stretch that is written already. -/
lemma copyTo_cons_of_written {mem : ℕ → UInt8} {dest : ℕ} {bytes : List UInt8} (c : UInt8)
    (h : ∀ k < bytes.length, mem (dest + 1 + k) = bytes.getD k 0) :
    copyTo mem dest (c :: bytes) = Function.update mem dest c := by
  funext a
  rw [copyTo, List.length_cons]
  rcases eq_or_ne a dest with rfl | ha
  · rw [Function.update_self, if_pos (by omega), Nat.sub_self, List.getD_cons_zero]
  · rw [Function.update_of_ne ha]
    split
    · have hk := h (a - dest - 1) (by omega)
      rw [show dest + 1 + (a - dest - 1) = a by omega] at hk
      obtain ⟨m, hm⟩ : ∃ m, a - dest = m + 1 := ⟨a - dest - 1, by omega⟩
      rw [hk, hm, List.getD_cons_succ, Nat.add_sub_cancel]
    · rfl

/-- What was at an address that is written over does not matter. -/
lemma copyTo_update (mem : ℕ → UInt8) {dest a : ℕ} {bytes : List UInt8} (c : UInt8)
    (ha : dest ≤ a ∧ a < dest + bytes.length) :
    copyTo (Function.update mem a c) dest bytes = copyTo mem dest bytes := by
  funext b
  simp only [copyTo]
  split
  · rfl
  · rename_i hb
    have hne : b ≠ a := by
      rintro rfl
      exact hb ha
    exact Function.update_of_ne hne _ _

lemma copyTo_of_lt (mem : ℕ → UInt8) (dest : ℕ) (bytes : List UInt8) {k : ℕ}
    (hk : k < bytes.length) : copyTo mem dest bytes (dest + k) = bytes.getD k 0 := by
  rw [copyTo, if_pos (by omega), Nat.add_sub_cancel_left]

/-! ### Single stores -/

/-- Memory after the stores of a list, in their order. -/
def applyStores (mem : ℕ → UInt8) (stores : List (ℕ × UInt8)) : ℕ → UInt8 :=
  stores.foldl (fun m s => Function.update m s.1 s.2) mem

/-- The stores of bytes to the addresses from `i` on. -/
def storesFrom : ℕ → List UInt8 → List (ℕ × UInt8)
  | _, [] => []
  | i, c :: bytes => (i, c) :: storesFrom (i + 1) bytes

lemma applyStores_storesFrom (mem : ℕ → UInt8) (i : ℕ) (bytes : List UInt8) :
    applyStores mem (storesFrom i bytes) = copyTo mem i bytes := by
  induction bytes generalizing mem i with
  | nil => exact (copyTo_nil mem i).symm
  | cons c bytes ih =>
      calc applyStores mem (storesFrom i (c :: bytes))
          = applyStores (Function.update mem i c) (storesFrom (i + 1) bytes) := rfl
        _ = copyTo (copyTo mem i [c]) (i + [c].length) bytes := by
            rw [ih, copyTo_singleton, List.length_singleton]
        _ = copyTo mem i (c :: bytes) := copyTo_append mem i [c] bytes

lemma storesFrom_append (i : ℕ) (xs ys : List UInt8) :
    storesFrom i (xs ++ ys) = storesFrom i xs ++ storesFrom (i + xs.length) ys := by
  induction xs generalizing i with
  | nil => rfl
  | cons c xs ih =>
      rw [List.cons_append, storesFrom, ih, storesFrom, List.cons_append, List.length_cons,
        Nat.add_assoc, Nat.add_comm 1]

lemma map_fst_storesFrom (i : ℕ) (bytes : List UInt8) :
    (storesFrom i bytes).map Prod.fst = List.range' i bytes.length := by
  induction bytes generalizing i with
  | nil => rfl
  | cons c bytes ih =>
      rw [storesFrom, List.map_cons, ih, List.length_cons, List.range'_succ]

/-- What holds of the addresses of the stores of bytes. -/
lemma forall_storesFrom {P : ℕ → Prop} (i : ℕ) (bytes : List UInt8) :
    (∀ s ∈ storesFrom i bytes, P s.1) ↔ ∀ k < bytes.length, P (i + k) := by
  rw [← List.forall_mem_map (f := Prod.fst) (P := P), map_fst_storesFrom]
  simp only [List.mem_range'_1]
  constructor
  · exact fun h k hk => h (i + k) ⟨Nat.le_add_right i k, Nat.add_lt_add_left hk i⟩
  · rintro h a ⟨hfirst, hlast⟩
    obtain ⟨k, rfl⟩ := Nat.exists_eq_add_of_le hfirst
    exact h k (by omega)

lemma applyStores_append (mem : ℕ → UInt8) (xs ys : List (ℕ × UInt8)) :
    applyStores mem (xs ++ ys) = applyStores (applyStores mem xs) ys :=
  List.foldl_append

/-- **The addresses** of the stores of a string with its terminator are below a bound just when the
terminator is. -/
lemma forall_storesFrom_lt {i n : ℕ} (bytes : List UInt8) (c : UInt8) :
    (∀ s ∈ storesFrom i (bytes ++ [c]), s.1 < n) ↔ i + bytes.length < n := by
  rw [forall_storesFrom (P := fun a => a < n), List.length_append, List.length_singleton]
  constructor
  · exact fun h => h bytes.length (Nat.lt_succ_self _)
  · exact fun h k hk => by omega

/-- The addresses of the stores of bytes. -/
lemma forall_storesFrom_lt_of_ne_nil {i n : ℕ} {bytes : List UInt8} (h : bytes ≠ []) :
    (∀ s ∈ storesFrom i bytes, s.1 < n) ↔ i + bytes.length ≤ n := by
  rw [← List.dropLast_append_getLast h, forall_storesFrom_lt, List.length_append,
    List.length_singleton]
  omega

/-! ### Stores through a pointer -/

/-- Stores through a pointer to the place `k` of a buffer. -/
def shiftStores (k : ℕ) (stores : List (ℕ × UInt8)) : List (ℕ × UInt8) :=
  stores.map fun s => (k + s.1, s.2)

lemma forall_shiftStores_lt {k n : ℕ} (stores : List (ℕ × UInt8)) :
    (∀ s ∈ shiftStores k stores, s.1 < n) ↔ ∀ s ∈ stores, k + s.1 < n := by
  rw [shiftStores, List.forall_mem_map]

/-- Memory as it is seen through the pointer. -/
lemma applyStores_shiftStores (mem : ℕ → UInt8) (k : ℕ) (stores : List (ℕ × UInt8)) (a : ℕ) :
    applyStores mem (shiftStores k stores) (k + a)
      = applyStores (fun b => mem (k + b)) stores a := by
  induction stores generalizing mem with
  | nil => rfl
  | cons s stores ih =>
      have hstore : (fun b => Function.update mem (k + s.1) s.2 (k + b))
          = Function.update (fun b => mem (k + b)) s.1 s.2 := by
        funext b
        simp only [Function.update_apply, Nat.add_left_cancel_iff]
      calc applyStores mem (shiftStores k (s :: stores)) (k + a)
          = applyStores (Function.update mem (k + s.1) s.2) (shiftStores k stores) (k + a) := rfl
        _ = applyStores (fun b => mem (k + b)) (s :: stores) a := by rw [ih, hstore]; rfl

/-- Nothing is stored before the pointer. -/
lemma applyStores_shiftStores_of_lt (mem : ℕ → UInt8) {k a : ℕ} (stores : List (ℕ × UInt8))
    (ha : a < k) : applyStores mem (shiftStores k stores) a = mem a := by
  induction stores generalizing mem with
  | nil => rfl
  | cons s stores ih =>
      calc applyStores mem (shiftStores k (s :: stores)) a
          = applyStores (Function.update mem (k + s.1) s.2) (shiftStores k stores) a := rfl
        _ = mem a := by rw [ih, Function.update_of_ne (by omega)]

/-- Stores that write bytes write them behind the pointer as well. -/
lemma applyStores_shiftStores_eq_copyTo {stores : List (ℕ × UInt8)} {j : ℕ} {bytes : List UInt8}
    (h : ∀ mem, applyStores mem stores = copyTo mem j bytes) (mem : ℕ → UInt8) (k : ℕ) :
    applyStores mem (shiftStores k stores) = copyTo mem (k + j) bytes := by
  funext a
  rcases Nat.lt_or_ge a k with ha | ha
  · rw [applyStores_shiftStores_of_lt mem stores ha, copyTo, if_neg (by omega)]
  · obtain ⟨b, rfl⟩ := Nat.exists_eq_add_of_le ha
    rw [applyStores_shiftStores, h, copyTo, copyTo]
    refine if_congr ?_ ?_ rfl
    · omega
    · rw [Nat.add_sub_add_left]

/-! ### Strings -/

/-- The string `l` lies at `a`, with a terminator behind it. -/
def StringAt (mem : ℕ → UInt8) (a : ℕ) (l : List UInt8) : Prop :=
  0 ∉ l ∧ ∀ k ≤ l.length, mem (a + k) = l.getD k 0

namespace StringAt

variable {mem : ℕ → UInt8} {a : ℕ} {l l' : List UInt8}

lemma nil_iff : StringAt mem a [] ↔ mem a = 0 := by
  simp [StringAt]

lemma cons_iff {c : UInt8} :
    StringAt mem a (c :: l) ↔ c ≠ 0 ∧ mem a = c ∧ StringAt mem (a + 1) l := by
  simp only [StringAt, List.mem_cons, not_or, List.length_cons]
  constructor
  · rintro ⟨⟨hc, hl⟩, hbytes⟩
    refine ⟨fun h => hc h.symm, hbytes 0 (Nat.zero_le _), hl, fun k hk => ?_⟩
    have := hbytes (k + 1) (by omega)
    rwa [← Nat.add_assoc, Nat.add_right_comm] at this
  · rintro ⟨hc, hhead, hl, hbytes⟩
    refine ⟨⟨fun h => hc h.symm, hl⟩, fun k hk => ?_⟩
    cases k with
    | zero => exact hhead
    | succ k =>
        have := hbytes k (by omega)
        rwa [Nat.add_right_comm] at this

/-- There is one string at an address. -/
lemma unique (h : StringAt mem a l) (h' : StringAt mem a l') : l = l' := by
  induction l generalizing a l' with
  | nil =>
      cases l' with
      | nil => rfl
      | cons c l' =>
          obtain ⟨hc, hhead, -⟩ := cons_iff.mp h'
          exact absurd (hhead.symm.trans (nil_iff.mp h)) hc
  | cons c l ih =>
      obtain ⟨hc, hhead, htail⟩ := cons_iff.mp h
      cases l' with
      | nil => exact absurd (hhead.symm.trans (nil_iff.mp h')) hc
      | cons c' l' =>
          obtain ⟨-, hhead', htail'⟩ := cons_iff.mp h'
          rw [← hhead, ← hhead', ih htail htail']

/-- The rest of a string. -/
lemma append_right {xs : List UInt8} (h : StringAt mem a (xs ++ l)) :
    StringAt mem (a + xs.length) l := by
  induction xs generalizing a with
  | nil => exact h
  | cons c xs ih =>
      have := ih (cons_iff.mp h).2.2
      rwa [Nat.add_assoc, Nat.add_comm 1] at this

/-- The same string seen from a pointer. -/
lemma shift (h : StringAt mem a l) : StringAt (fun i => mem (a + i)) 0 l := by
  refine ⟨h.1, fun k hk => ?_⟩
  rw [Nat.zero_add]
  exact h.2 k hk

end StringAt

/-- A string that has been written with its terminator. -/
lemma stringAt_copyTo {l : List UInt8} (hl : 0 ∉ l) (mem : ℕ → UInt8) (a : ℕ) :
    StringAt (copyTo mem a (l ++ [0])) a l := by
  refine ⟨hl, fun k hk => ?_⟩
  rw [copyTo_of_lt mem a _ (by rw [List.length_append, List.length_singleton]; omega)]
  rcases Nat.eq_or_lt_of_le hk with rfl | hlt
  · rw [List.getD_append_right _ _ _ _ le_rfl, Nat.sub_self, List.getD_eq_default _ _ le_rfl]
    rfl
  · rw [List.getD_append _ _ _ _ hlt]

end CustomLinuxOs
