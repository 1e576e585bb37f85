import Mathlib.Tactic

/-!
Bitmaps in machine words.

* `LowestSet`, `LowestClear`: the first bit that is set, and the first one that is clear.
* `and_neg_eq_twoPow`: `x & -x` is the lowest set bit of `x`; `and_neg_eq_self_iff`: when that is
  all of `x`.
* `log2Loop`, `trailingOnes`: finding the index of a single bit, and of the first clear one, by
  shifting.
* `getLsbD_or_twoPow`, `getLsbD_and_not_twoPow`, `getLsbD_xor_twoPow`: setting, clearing and
  flipping one bit.
-/

namespace CustomLinuxOs

variable {w : ℕ} {x : BitVec w} {i : ℕ}

/-- Bit `i` is the first one that is set. -/
structure LowestSet (x : BitVec w) (i : ℕ) : Prop where
  set : x.getLsbD i = true
  below : ∀ j < i, x.getLsbD j = false

/-- Bit `i` is the first one that is clear. -/
structure LowestClear (x : BitVec w) (i : ℕ) : Prop where
  clear : x.getLsbD i = false
  below : ∀ j < i, x.getLsbD j = true

/-- If some bit is set, there is a first one. -/
lemma exists_lowestSet (h : x.getLsbD i = true) : ∃ j ≤ i, LowestSet x j := by
  classical
  have hex : ∃ j, x.getLsbD j = true := ⟨i, h⟩
  refine ⟨Nat.find hex, Nat.find_le h, Nat.find_spec hex, fun j hj => ?_⟩
  exact Bool.eq_false_of_not_eq_true (Nat.find_min hex hj)

/-- If some bit is clear, there is a first one. -/
lemma exists_lowestClear (h : x.getLsbD i = false) : ∃ j ≤ i, LowestClear x j := by
  classical
  have hex : ∃ j, x.getLsbD j = false := ⟨i, h⟩
  refine ⟨Nat.find hex, Nat.find_le h, Nat.find_spec hex, fun j hj => ?_⟩
  exact Bool.eq_true_of_not_eq_false (Nat.find_min hex hj)

/-! ### The lowest set bit -/

/-- **Isolating the lowest set bit.** -/
theorem and_neg_eq_twoPow (h : LowestSet x i) : x &&& -x = BitVec.twoPow w i := by
  have hi : i < w := BitVec.lt_of_getLsbD h.set
  refine BitVec.eq_of_getLsbD_eq fun j hj => ?_
  rw [BitVec.getLsbD_and, BitVec.getLsbD_neg, BitVec.getLsbD_twoPow]
  rcases Nat.lt_trichotomy j i with hlt | rfl | hgt
  · -- below the lowest set bit `x` is clear
    rw [h.below j hlt, Bool.false_and]
    simp [hlt.ne']
  · -- at the lowest set bit there is no carry left
    have hnone : ¬ ∃ k < j, x.getLsbD k = true := by
      rintro ⟨k, hk, hset⟩
      rw [h.below k hk] at hset
      exact absurd hset (by decide)
    rw [h.set, decide_eq_false hnone]
    simp [hi]
  · -- above it `-x` is the complement
    have hsome : ∃ k < j, x.getLsbD k = true := ⟨i, hgt, h.set⟩
    rw [decide_eq_true hsome]
    simp [hj, hgt.ne]

/-- **The test for a single bit**: besides the powers of two only zero passes it. -/
theorem and_neg_eq_self_iff : x &&& -x = x ↔ x = 0 ∨ ∃ i < w, x = BitVec.twoPow w i := by
  constructor
  · intro h
    by_cases hzero : x = 0
    · exact Or.inl hzero
    · obtain ⟨j, hj⟩ : ∃ j, x.getLsbD j = true := by
        by_contra hnone
        refine hzero (BitVec.eq_of_getLsbD_eq fun j _ => ?_)
        rw [BitVec.ofNat_eq_ofNat, BitVec.getLsbD_zero]
        exact Bool.eq_false_of_not_eq_true fun hset => hnone ⟨j, hset⟩
      obtain ⟨i, -, hi⟩ := exists_lowestSet hj
      exact Or.inr ⟨i, BitVec.lt_of_getLsbD hi.set, h.symm.trans (and_neg_eq_twoPow hi)⟩
  · rintro (rfl | ⟨i, hi, rfl⟩)
    · simp
    · refine and_neg_eq_twoPow ⟨?_, fun j hj => ?_⟩
      · simp [hi]
      · simp [BitVec.getLsbD_twoPow, hj.ne']

/-- The index of a single bit, counted from `n` on, by halving at most `k` times. -/
def log2Loop : ℕ → BitVec w → ℕ → ℕ
  | 0, _, n => n
  | k + 1, bits, n => if bits > 1 then log2Loop k (bits >>> 1) (n + 1) else n

lemma toNat_twoPow_of_lt (hi : i < w) : (BitVec.twoPow w i).toNat = 2 ^ i := by
  rw [BitVec.toNat_twoPow]
  exact Nat.mod_eq_of_lt (Nat.pow_lt_pow_right (by decide) hi)

/-- **The loop** finds the index of a single bit. -/
lemma log2Loop_twoPow (k n : ℕ) (hi : i < w) (hk : i ≤ k) :
    log2Loop k (BitVec.twoPow w i) n = n + i := by
  have hone : (1 : BitVec w).toNat = 1 := by
    simp [Nat.mod_eq_of_lt (Nat.one_lt_two_pow (Nat.ne_of_gt (Nat.zero_lt_of_lt hi)))]
  induction i generalizing k n with
  | zero =>
      have hstop : ¬ BitVec.twoPow w 0 > 1 := by
        rw [gt_iff_lt, BitVec.lt_def, hone, toNat_twoPow_of_lt hi]
        exact lt_irrefl _
      cases k with
      | zero => rfl
      | succ k => rw [log2Loop, if_neg hstop, Nat.add_zero]
  | succ i ih =>
      obtain ⟨k, rfl⟩ := Nat.exists_eq_add_of_le' (Nat.lt_of_lt_of_le (Nat.succ_pos i) hk)
      have hgo : BitVec.twoPow w (i + 1) > 1 := by
        rw [gt_iff_lt, BitVec.lt_def, hone, toNat_twoPow_of_lt hi]
        exact Nat.one_lt_two_pow (Nat.succ_ne_zero i)
      have hhalf : BitVec.twoPow w (i + 1) >>> 1 = BitVec.twoPow w i := by
        refine BitVec.eq_of_toNat_eq ?_
        rw [BitVec.toNat_ushiftRight, toNat_twoPow_of_lt hi, toNat_twoPow_of_lt (by omega),
          Nat.shiftRight_eq_div_pow, Nat.pow_succ, pow_one, Nat.mul_div_cancel _ (by decide)]
      rw [log2Loop, if_pos hgo, hhalf, ih k (n + 1) (by omega) (by omega)]
      omega

/-! ### The lowest clear bit -/

/-- The number of set bits before the first clear one, counted from `n` on, by shifting at most
`k` times. -/
def trailingOnes : ℕ → BitVec w → ℕ → ℕ
  | 0, _, n => n
  | k + 1, bits, n => if bits &&& 1 ≠ 0 then trailingOnes k (bits >>> 1) (n + 1) else n

/-- The test of the lowest bit. -/
lemma and_one_ne_zero_iff : x &&& 1 ≠ 0 ↔ x.getLsbD 0 = true := by
  constructor
  · intro h
    by_contra hclear
    refine h (BitVec.eq_of_getLsbD_eq fun j hj => ?_)
    cases j with
    | zero => simp [Bool.eq_false_of_not_eq_true hclear]
    | succ j => simp [BitVec.getLsbD_one]
  · intro hset h
    have hw : 0 < w := BitVec.lt_of_getLsbD hset
    have hbit : (x &&& 1).getLsbD 0 = (0 : BitVec w).getLsbD 0 := by rw [h]
    rw [BitVec.getLsbD_and, hset] at hbit
    simp [hw] at hbit

/-- **The loop** finds the first clear bit. -/
lemma trailingOnes_eq (k n : ℕ) (hclear : LowestClear x (n + i)) (hk : i ≤ k) :
    trailingOnes k (x >>> n) n = n + i := by
  induction i generalizing k n with
  | zero =>
      have hstop : ¬ (x >>> n) &&& 1 ≠ 0 := by
        rw [and_one_ne_zero_iff, BitVec.getLsbD_ushiftRight]
        simpa using hclear.clear
      cases k with
      | zero => rfl
      | succ k => rw [trailingOnes, if_neg hstop, Nat.add_zero]
  | succ i ih =>
      obtain ⟨k, rfl⟩ := Nat.exists_eq_add_of_le' (Nat.lt_of_lt_of_le (Nat.succ_pos i) hk)
      have hgo : (x >>> n) &&& 1 ≠ 0 := by
        rw [and_one_ne_zero_iff, BitVec.getLsbD_ushiftRight]
        exact hclear.below n (by omega)
      have hshift : (x >>> n) >>> 1 = x >>> (n + 1) := by rw [← BitVec.shiftRight_add]
      have hnext : LowestClear x (n + 1 + i) := by
        rwa [Nat.add_assoc, Nat.add_comm 1 i]
      rw [trailingOnes, if_pos hgo, hshift, ih k (n + 1) hnext (by omega)]
      omega

/-! ### One bit changed -/

lemma getLsbD_or_twoPow (x : BitVec w) (i j : ℕ) (hj : j < w) :
    (x ||| BitVec.twoPow w i).getLsbD j = (decide (j = i) || x.getLsbD j) := by
  rw [BitVec.getLsbD_or, BitVec.getLsbD_twoPow, Bool.or_comm]
  by_cases h : j = i
  · simp [h, h ▸ hj]
  · simp [h, Ne.symm h]

lemma getLsbD_and_not_twoPow (x : BitVec w) (i j : ℕ) (hj : j < w) :
    (x &&& ~~~BitVec.twoPow w i).getLsbD j = (!decide (j = i) && x.getLsbD j) := by
  rw [BitVec.getLsbD_and, BitVec.getLsbD_not, BitVec.getLsbD_twoPow, Bool.and_comm]
  by_cases h : j = i
  · simp [h, h ▸ hj]
  · simp [h, Ne.symm h, hj]

lemma getLsbD_xor_twoPow (x : BitVec w) (i j : ℕ) (hj : j < w) :
    (x ^^^ BitVec.twoPow w i).getLsbD j = (x.getLsbD j ^^ decide (j = i)) := by
  rw [BitVec.getLsbD_xor, BitVec.getLsbD_twoPow]
  by_cases h : j = i
  · simp [h, h ▸ hj]
  · simp [h, Ne.symm h]

end CustomLinuxOs
