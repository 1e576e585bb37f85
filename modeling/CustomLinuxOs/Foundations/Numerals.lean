import Mathlib.Data.Nat.Digits.Lemmas

/-!
Numerals in a radix, as lists of digits with the most significant one first.

* `CanonicalNumeral r v ds`: the digits of `v` without a leading zero; zero has the digit `0`.
* `canonicalNumeral_iff`: there is one such list.
-/

namespace CustomLinuxOs

/-- The digits `ds`, the most significant one first, are the numeral of `v` in radix `r`. -/
structure CanonicalNumeral (r v : ℕ) (ds : List ℕ) : Prop where
  range : ∀ d ∈ ds, d < r
  value : Nat.ofDigits r ds.reverse = v
  ne_nil : ds ≠ []
  leading : ds.head? = some 0 → ds = [0]

/-- **The numeral** of a number. -/
theorem canonicalNumeral_iff {r v : ℕ} (hr : 1 < r) (ds : List ℕ) :
    CanonicalNumeral r v ds ↔ ds = if v = 0 then [0] else (r.digits v).reverse := by
  constructor
  · intro h
    by_cases hzero : ds = [0]
    · have hvalue := h.value
      rw [hzero, List.reverse_singleton, Nat.ofDigits_singleton] at hvalue
      rw [if_pos hvalue.symm, hzero]
    · have hlast : ∀ hne : ds.reverse ≠ [], ds.reverse.getLast hne ≠ 0 := by
        intro hne hlast
        rw [List.getLast_reverse] at hlast
        refine hzero (h.leading ?_)
        rw [List.head?_eq_some_head h.ne_nil, hlast]
      have hdigits := Nat.digits_ofDigits r hr ds.reverse
        (fun d hd => h.range d (List.mem_reverse.mp hd)) hlast
      rw [h.value] at hdigits
      have hpos : v ≠ 0 := by
        rintro rfl
        rw [Nat.digits_zero] at hdigits
        exact h.ne_nil (List.reverse_eq_nil_iff.mp hdigits.symm)
      rw [if_neg hpos, hdigits, List.reverse_reverse]
  · rintro rfl
    split_ifs with hzero
    · subst hzero
      exact ⟨fun d hd => by rw [List.mem_singleton.mp hd]; omega, by simp, by simp, fun _ => rfl⟩
    · have hne : r.digits v ≠ [] := Nat.digits_ne_nil_iff_ne_zero.mpr hzero
      refine ⟨fun d hd => Nat.digits_lt_base hr (List.mem_reverse.mp hd), ?_, ?_, fun hhead => ?_⟩
      · rw [List.reverse_reverse, Nat.ofDigits_digits]
      · exact fun hnil => hne (List.reverse_eq_nil_iff.mp hnil)
      · rw [List.head?_reverse, List.getLast?_eq_some_getLast hne] at hhead
        exact absurd (Option.some.inj hhead) (Nat.getLast_digit_ne_zero r hzero)

end CustomLinuxOs
