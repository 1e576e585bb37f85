import Mathlib.Tactic

/-!
Ring buffers addressed by free-running positions.

A ring of `N` slots is a function on slot numbers, and the element with position `p` is kept
in slot `p % N`.  Positions are never reduced, so the elements between a read position and a
write position are a stretch of consecutive positions, and the ring holds them all as long
as the stretch is no longer than `N`.

* `ringSlice N buf p n`: the `n` elements from position `p` on, in order.
* `ringSlice_add`: reading in two parts; `ringSlice_push`: writing at the end of the stretch.
-/

namespace CustomLinuxOs

variable {α : Type*}

/-- The `n` elements of a ring of `N` slots from position `p` on. -/
def ringSlice (N : ℕ) (buf : ℕ → α) (p n : ℕ) : List α :=
  (List.range n).map fun i => buf ((p + i) % N)

@[simp] lemma ringSlice_length (N : ℕ) (buf : ℕ → α) (p n : ℕ) :
    (ringSlice N buf p n).length = n := by simp [ringSlice]

@[simp] lemma ringSlice_zero (N : ℕ) (buf : ℕ → α) (p : ℕ) : ringSlice N buf p 0 = [] := rfl

lemma ringSlice_succ (N : ℕ) (buf : ℕ → α) (p n : ℕ) :
    ringSlice N buf p (n + 1) = ringSlice N buf p n ++ [buf ((p + n) % N)] := by
  simp [ringSlice, List.range_succ]

/-- Reading `m + n` elements is reading `m` and then `n` further ones. -/
lemma ringSlice_add (N : ℕ) (buf : ℕ → α) (p m n : ℕ) :
    ringSlice N buf p (m + n) = ringSlice N buf p m ++ ringSlice N buf (p + m) n := by
  induction n with
  | zero => simp
  | succ n ih => rw [← Nat.add_assoc, ringSlice_succ, ih, ringSlice_succ, List.append_assoc,
      Nat.add_assoc]

/-- Only the slot of a position matters. -/
lemma ringSlice_congr {N p q : ℕ} (buf : ℕ → α) (n : ℕ) (h : p ≡ q [MOD N]) :
    ringSlice N buf p n = ringSlice N buf q n := by
  refine List.map_congr_left fun i _ => ?_
  rw [show (p + i) % N = (q + i) % N from h.add_right i]

/-- Fewer than `N` apart, different positions have different slots. -/
lemma ring_slot_ne {N p i j : ℕ} (hij : i < j) (hj : j - i < N) : (p + i) % N ≠ (p + j) % N := by
  intro h
  have hdvd : N ∣ (p + j) - (p + i) := (Nat.modEq_iff_dvd' (by omega)).mp h
  have := Nat.le_of_dvd (by omega) hdvd
  omega

/-- A write outside the slots of a stretch leaves it alone. -/
lemma ringSlice_update_of_ne {N p n s : ℕ} (buf : ℕ → α) (x : α)
    (h : ∀ i < n, (p + i) % N ≠ s) :
    ringSlice N (Function.update buf s x) p n = ringSlice N buf p n := by
  refine List.map_congr_left fun i hi => ?_
  exact Function.update_of_ne (h i (List.mem_range.mp hi)) x buf

/-- **Writing at the end of a stretch** appends to it, as long as the ring has room. -/
theorem ringSlice_push {N p n : ℕ} (buf : ℕ → α) (x : α) (h : n < N) :
    ringSlice N (Function.update buf ((p + n) % N) x) p (n + 1) = ringSlice N buf p n ++ [x] := by
  rw [ringSlice_succ, Function.update_self, ringSlice_update_of_ne]
  intro i hi
  exact ring_slot_ne hi (by omega)

end CustomLinuxOs
