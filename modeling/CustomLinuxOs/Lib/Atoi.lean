import Mathlib.Data.List.TakeWhile
import Mathlib.Data.Nat.Digits.Defs

/-!
`atoi` of `lib.c`.

A string is the list of its bytes up to the zero byte.

* `atoi`: the number at the front of a string, and the count of its digits.
* `numeral`: the number that is meant.
* `atoi_eq`: `atoi` reads the digits at the front, and computes the number in an `int`.
-/

namespace CustomLinuxOs

/-- The loop of `atoi`: the number and the count of its digits. -/
def atoiLoop : List UInt8 → Int32 → ℕ → Int32 × ℕ
  | [], n, i => (n, i)
  | c :: s, n, i =>
      if 48 ≤ c ∧ c ≤ 57 then atoiLoop s (n * 10 + Int32.ofNat (c.toNat - 48)) (i + 1) else (n, i)

/-- `atoi`. -/
def atoi (s : List UInt8) : Int32 × ℕ := atoiLoop s 0 0

def isDigit (c : UInt8) : Bool := 48 ≤ c && c ≤ 57

/-- The number that a string of digits denotes. -/
def numeral (digits : List UInt8) : ℕ :=
  Nat.ofDigits 10 (digits.map fun c => c.toNat - 48).reverse

lemma isDigit_iff {c : UInt8} : isDigit c = true ↔ 48 ≤ c ∧ c ≤ 57 := by
  rw [isDigit, Bool.and_eq_true, decide_eq_true_iff, decide_eq_true_iff]

lemma numeral_eq_foldl (digits : List UInt8) :
    numeral digits = digits.foldl (fun n c => n * 10 + (c.toNat - 48)) 0 := by
  rw [numeral, Nat.ofDigits_eq_foldr, List.foldr_reverse, List.foldl_map]
  congr 1
  funext n c
  rw [Nat.cast_id, Nat.add_comm, Nat.mul_comm]

/-- **The loop of `atoi`** goes over the digits; the number is kept modulo `2^32`. -/
lemma atoiLoop_eq (s : List UInt8) (n i : ℕ) : atoiLoop s (Int32.ofNat n) i
    = (Int32.ofNat ((s.takeWhile isDigit).foldl (fun n c => n * 10 + (c.toNat - 48)) n),
      i + (s.takeWhile isDigit).length) := by
  induction s generalizing n i with
  | nil => rfl
  | cons c s ih =>
      rw [atoiLoop]
      by_cases hc : 48 ≤ c ∧ c ≤ 57
      · have hnext : Int32.ofNat n * 10 + Int32.ofNat (c.toNat - 48)
            = Int32.ofNat (n * 10 + (c.toNat - 48)) := by
          rw [Int32.ofNat_add, Int32.ofNat_mul]
          rfl
        rw [if_pos hc, List.takeWhile_cons_of_pos (isDigit_iff.mpr hc), hnext, ih, List.foldl_cons,
          List.length_cons, Nat.add_right_comm, Nat.add_assoc]
      · rw [if_neg hc, List.takeWhile_cons_of_neg fun htrue => hc (isDigit_iff.mp htrue)]
        rfl

lemma atoi_eq (s : List UInt8) : atoi s
    = (Int32.ofNat (numeral (s.takeWhile isDigit)), (s.takeWhile isDigit).length) := by
  have hzero : (0 : Int32) = Int32.ofNat 0 := rfl
  rw [atoi, hzero, atoiLoop_eq, numeral_eq_foldl, Nat.zero_add]

end CustomLinuxOs
