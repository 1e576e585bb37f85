import Mathlib.Tactic

/-!
One's-complement sums.

Adding with end-around carry in base `B` is adding modulo `B - 1`, with two names for zero: a sum
is `0` only if all its terms are, and otherwise a multiple of `B - 1` shows as `B - 1`.

* `endAround`: the carry is added back in once.
* `onesResidue`: the digit that is left when no carry is; `onesResidue_endAround` is the loop
  invariant of the folding, `endAround_endAround_lt` bounds its passes.
* `onesResidue_add_compl`: adding the complement of the residue makes the residue `B - 1`.
* `wordSum`: the sum of the words in a list of bytes, most significant byte first; an odd last
  byte is the high half of a word.
-/

namespace CustomLinuxOs

/-! ### End-around carry -/

section Carry

variable {B : ℕ}

/-- The carry is added to the low digit. -/
def endAround (B n : ℕ) : ℕ := n % B + n / B

/-- The digit that is left when all carries have been added back in. -/
def onesResidue (B n : ℕ) : ℕ := if n = 0 then 0 else (n - 1) % (B - 1) + 1

lemma endAround_eq_zero_iff (B n : ℕ) : endAround B n = 0 ↔ n = 0 := by
  rw [endAround, Nat.add_eq_zero_iff]
  refine ⟨fun h => ?_, fun h => by simp [h]⟩
  rw [← Nat.div_add_mod n B, h.1, h.2, Nat.mul_zero]

/-- Adding the carry back in keeps the value modulo `B - 1`. -/
lemma endAround_modEq (hB : 0 < B) (n : ℕ) : endAround B n ≡ n [MOD B - 1] := by
  have hone : B ≡ 1 [MOD B - 1] := by
    have h := Nat.add_modEq_left (n := B - 1) (a := 1)
    rwa [Nat.sub_add_cancel hB] at h
  calc endAround B n = n % B + 1 * (n / B) := by rw [endAround, Nat.one_mul]
    _ ≡ n % B + B * (n / B) [MOD B - 1] := (hone.symm.mul_right _).add_left _
    _ = n := Nat.mod_add_div n B

/-- Two passes leave no carry in a number of two digits. -/
lemma endAround_endAround_lt {n : ℕ} (hn : n < B * B) : endAround B (endAround B n) < B := by
  have hB : 0 < B := by
    rcases Nat.eq_zero_or_pos B with rfl | hB
    · omega
    · exact hB
  have hlow := Nat.mod_lt n hB
  have hhigh : n / B < B := Nat.div_lt_of_lt_mul hn
  have hsum : endAround B n < B + (B - 1) := by
    rw [endAround]
    omega
  rcases Nat.lt_or_ge (endAround B n) B with h | h
  · rwa [endAround, Nat.mod_eq_of_lt h, Nat.div_eq_of_lt h]
  · have hdiv : endAround B n / B = 1 := by
      rw [Nat.div_eq_iff hB]
      omega
    have hmod : endAround B n % B = endAround B n - B := by
      rw [Nat.mod_eq_sub_mod h, Nat.mod_eq_of_lt (by omega)]
    rw [endAround, hdiv, hmod]
    omega

/-- The residue depends on the class modulo `B - 1` and on which zero it is. -/
lemma onesResidue_congr {m n : ℕ} (hzero : m = 0 ↔ n = 0) (h : m ≡ n [MOD B - 1]) :
    onesResidue B m = onesResidue B n := by
  rcases Nat.eq_zero_or_pos n with hn | hn
  · rw [hn, hzero.mpr hn]
  · have hm : 0 < m := Nat.pos_of_ne_zero (mt hzero.mp hn.ne')
    have hpred : m - 1 ≡ n - 1 [MOD B - 1] := by
      refine Nat.ModEq.add_right_cancel' 1 ?_
      rwa [Nat.sub_add_cancel hm, Nat.sub_add_cancel hn]
    rw [onesResidue, onesResidue, if_neg hm.ne', if_neg hn.ne', hpred]

lemma onesResidue_endAround (hB : 0 < B) (n : ℕ) :
    onesResidue B (endAround B n) = onesResidue B n :=
  onesResidue_congr (endAround_eq_zero_iff B n) (endAround_modEq hB n)

/-- A single digit is its own residue. -/
lemma onesResidue_of_lt {n : ℕ} (h : n < B) : onesResidue B n = n := by
  rw [onesResidue]
  split
  · omega
  · rw [Nat.mod_eq_of_lt (by omega)]
    omega

lemma onesResidue_lt (hB : 1 < B) (n : ℕ) : onesResidue B n < B := by
  have := Nat.mod_lt (n - 1) (Nat.sub_pos_of_lt hB)
  rw [onesResidue]
  split <;> omega

/-- **The complement law**: with the complement of its residue added, a sum has residue
`B - 1`. -/
theorem onesResidue_add_compl (hB : 1 < B) (n : ℕ) :
    onesResidue B (n + (B - 1 - onesResidue B n)) = B - 1 := by
  rcases Nat.eq_zero_or_pos n with rfl | hn
  · rw [Nat.zero_add, onesResidue_of_lt (n := 0) (by omega), Nat.sub_zero,
      onesResidue_of_lt (by omega)]
  · have hmod := Nat.mod_lt (n - 1) (Nat.sub_pos_of_lt hB)
    have hsum : n + (B - 1 - onesResidue B n)
        = B - 1 + (B - 1) * ((n - 1) / (B - 1)) := by
      have := Nat.div_add_mod (n - 1) (B - 1)
      rw [onesResidue, if_neg hn.ne']
      omega
    have hcongr : n + (B - 1 - onesResidue B n) ≡ B - 1 [MOD B - 1] := by
      rw [hsum, Nat.ModEq, Nat.add_mul_mod_self_left]
    rw [onesResidue_congr (n := B - 1) (by omega) hcongr, onesResidue_of_lt (by omega)]

end Carry

/-! ### Sums of words -/

/-- The sum of the words in a list of bytes. -/
def wordSum : List UInt8 → ℕ
  | [] => 0
  | [h] => h.toNat * 256
  | h :: l :: rest => h.toNat * 256 + l.toNat + wordSum rest

/-- A list of whole words and what follows it. -/
lemma wordSum_append (n : ℕ) {a : List UInt8} (ha : a.length = 2 * n) (b : List UInt8) :
    wordSum (a ++ b) = wordSum a + wordSum b := by
  induction n generalizing a with
  | zero =>
      rw [List.length_eq_zero_iff.mp ha]
      exact (Nat.zero_add _).symm
  | succ n ih =>
      match a, ha with
      | h :: l :: rest, ha =>
          have hrest : rest.length = 2 * n := by
            simp only [List.length_cons] at ha
            omega
          rw [List.cons_append, List.cons_append, wordSum, wordSum, ih hrest]
          omega

/-- No word is over `65535`. -/
lemma wordSum_le (bytes : List UInt8) : wordSum bytes ≤ 65535 * ((bytes.length + 1) / 2) := by
  induction bytes using wordSum.induct with
  | case1 => exact Nat.zero_le _
  | case2 h =>
      have := h.toNat_lt
      rw [wordSum, List.length_singleton]
      omega
  | case3 h l rest ih =>
      have := h.toNat_lt
      have := l.toNat_lt
      rw [wordSum, List.length_cons, List.length_cons]
      omega

end CustomLinuxOs
