import Mathlib.Tactic

/-!
Bit fields of machine words, as a packed structure has them.

* `BitField`: some bits of a word, from a first one on.
* `BitField.get`, `BitField.set`: reading and storing them.
* `get_set_self`, `get_set_of_disjoint`: what is stored is read, and other fields stay.
* `set_set`, `set_comm`: storing twice, and storing in two fields.
* `setFields`, `get_setFields`: storing in one field after another, and reading one of them.
* `setFields_eq`: after storing in all fields nothing is left of what the word was.
-/

namespace CustomLinuxOs

/-- The bits `low`, ..., `low + width - 1`. -/
structure BitField where
  low : ℕ
  width : ℕ

namespace BitField

variable {w : ℕ} {f g : BitField} {x : BitVec w}

/-- The ones of a field. -/
def mask (w : ℕ) (f : BitField) : BitVec w := (BitVec.allOnes f.width).setWidth w <<< f.low

/-- Reading. -/
def get (f : BitField) (x : BitVec w) : ℕ := (x.extractLsb' f.low f.width).toNat

/-- Storing; bits of the value that do not fit are dropped. -/
def set (f : BitField) (v : ℕ) (x : BitVec w) : BitVec w :=
  (x &&& ~~~f.mask w) ||| ((BitVec.ofNat f.width v).setWidth w <<< f.low)

/-- No bit is in both fields. -/
def Disjoint (f g : BitField) : Prop := f.low + f.width ≤ g.low ∨ g.low + g.width ≤ f.low

instance (f g : BitField) : Decidable (f.Disjoint g) := by
  rw [Disjoint]
  exact inferInstance

lemma Disjoint.symm (h : f.Disjoint g) : g.Disjoint f := h.elim Or.inr Or.inl

/-- The bits after storing. -/
lemma getLsbD_set (f : BitField) (v : ℕ) (x : BitVec w) {i : ℕ} (hi : i < w) :
    (f.set v x).getLsbD i
      = if f.low ≤ i ∧ i < f.low + f.width then v.testBit (i - f.low) else x.getLsbD i := by
  have hwidth : i - f.low < w := lt_of_le_of_lt (Nat.sub_le i f.low) hi
  rw [set, mask, BitVec.getLsbD_or, BitVec.getLsbD_and, BitVec.getLsbD_not,
    BitVec.getLsbD_shiftLeft, BitVec.getLsbD_shiftLeft, BitVec.getLsbD_setWidth,
    BitVec.getLsbD_setWidth, BitVec.getLsbD_allOnes, BitVec.getLsbD_ofNat]
  by_cases hlow : i < f.low
  · simp [hlow, hi]
  · by_cases hin : i - f.low < f.width
    · have hfield : f.low ≤ i ∧ i < f.low + f.width := by omega
      simp [hi, hlow, hwidth, hin, hfield]
    · have hfield : ¬ (f.low ≤ i ∧ i < f.low + f.width) := by omega
      simp [hi, hlow, hin, hfield]

/-- **What is stored is read.** -/
theorem get_set_self (h : f.low + f.width ≤ w) (v : ℕ) : f.get (f.set v x) = v % 2 ^ f.width := by
  rw [get, ← BitVec.toNat_ofNat]
  refine congrArg BitVec.toNat (BitVec.eq_of_getLsbD_eq fun i hi => ?_)
  have hfield : f.low ≤ f.low + i ∧ f.low + i < f.low + f.width := by omega
  rw [BitVec.getLsbD_extractLsb', getLsbD_set f v x (by omega), if_pos hfield,
    Nat.add_sub_cancel_left, BitVec.getLsbD_ofNat]

/-- **Other fields stay.** -/
theorem get_set_of_disjoint (h : f.Disjoint g) (hg : g.low + g.width ≤ w) (v : ℕ) :
    g.get (f.set v x) = g.get x := by
  refine congrArg BitVec.toNat (BitVec.eq_of_getLsbD_eq fun i hi => ?_)
  have hout : ¬ (f.low ≤ g.low + i ∧ g.low + i < f.low + f.width) := by
    rcases h with h | h <;> omega
  rw [BitVec.getLsbD_extractLsb', BitVec.getLsbD_extractLsb', getLsbD_set f v x (by omega),
    if_neg hout]

/-- The second value is what counts. -/
theorem set_set (v v' : ℕ) : f.set v' (f.set v x) = f.set v' x := by
  refine BitVec.eq_of_getLsbD_eq fun i hi => ?_
  rw [getLsbD_set f v' _ hi, getLsbD_set f v' _ hi, getLsbD_set f v _ hi]
  split <;> rfl

/-- Bits that do not fit are dropped. -/
theorem set_mod (v : ℕ) : f.set (v % 2 ^ f.width) x = f.set v x := by
  have hvalue : BitVec.ofNat f.width (v % 2 ^ f.width) = BitVec.ofNat f.width v := by
    rw [← BitVec.toNat_inj, BitVec.toNat_ofNat, BitVec.toNat_ofNat, Nat.mod_mod]
  rw [set, set, hvalue]

/-- The order of two fields does not count. -/
theorem set_comm (h : f.Disjoint g) (v v' : ℕ) :
    g.set v' (f.set v x) = f.set v (g.set v' x) := by
  refine BitVec.eq_of_getLsbD_eq fun i hi => ?_
  rw [getLsbD_set g v' _ hi, getLsbD_set f v _ hi, getLsbD_set f v _ hi, getLsbD_set g v' _ hi]
  by_cases hf : f.low ≤ i ∧ i < f.low + f.width
  · have hg : ¬ (g.low ≤ i ∧ i < g.low + g.width) := by
      rcases h with h | h <;> omega
    rw [if_pos hf, if_neg hg, if_pos hf]
  · rw [if_neg hf, if_neg hf]

/-- A field as a number. -/
lemma get_eq (f : BitField) (x : BitVec w) : f.get x = x.toNat / 2 ^ f.low % 2 ^ f.width := by
  rw [get, BitVec.extractLsb'_toNat, Nat.shiftRight_eq_div_pow]

/-! ### All fields -/

/-- Storing in one field after another. -/
def setFields (l : List (BitField × ℕ)) (x : BitVec w) : BitVec w :=
  l.foldl (fun x p => p.1.set p.2 x) x

lemma get_setFields_of_disjoint {l : List (BitField × ℕ)} (h : ∀ g ∈ l.map Prod.fst, g.Disjoint f)
    (hf : f.low + f.width ≤ w) (x : BitVec w) : f.get (setFields l x) = f.get x := by
  induction l generalizing x with
  | nil => rfl
  | cons p l ih =>
      obtain ⟨hp, hl⟩ := List.forall_mem_cons.mp h
      calc f.get (setFields (p :: l) x) = f.get (setFields l (p.1.set p.2 x)) := rfl
        _ = f.get (p.1.set p.2 x) := ih hl _
        _ = f.get x := get_set_of_disjoint hp hf p.2

/-- **Reading one of the fields.** -/
theorem get_setFields {l : List (BitField × ℕ)} {v : ℕ}
    (hapart : (l.map Prod.fst).Pairwise Disjoint) (hmem : (f, v) ∈ l) (hf : f.low + f.width ≤ w)
    (x : BitVec w) : f.get (setFields l x) = v % 2 ^ f.width := by
  induction l generalizing x with
  | nil => cases hmem
  | cons p l ih =>
      obtain ⟨hp, hl⟩ := List.pairwise_cons.mp hapart
      rcases List.mem_cons.mp hmem with rfl | htail
      · calc f.get (setFields ((f, v) :: l) x) = f.get (setFields l (f.set v x)) := rfl
          _ = f.get (f.set v x) := get_setFields_of_disjoint (fun g hg => (hp g hg).symm) hf _
          _ = v % 2 ^ f.width := get_set_self hf v
      · exact ih hl htail _

/-- The bit is in a field of the list. -/
def Covered (fields : List BitField) (i : ℕ) : Prop :=
  ∃ f ∈ fields, f.low ≤ i ∧ i < f.low + f.width

instance (fields : List BitField) (i : ℕ) : Decidable (Covered fields i) := by
  rw [Covered]
  exact inferInstance

lemma getLsbD_setFields {l : List (BitField × ℕ)} {x y : BitVec w} {i : ℕ} (hi : i < w)
    (h : Covered (l.map Prod.fst) i ∨ x.getLsbD i = y.getLsbD i) :
    (setFields l x).getLsbD i = (setFields l y).getLsbD i := by
  induction l generalizing x y with
  | nil => exact h.resolve_left fun ⟨f, hf, _⟩ => absurd hf (by simp)
  | cons p l ih =>
      refine ih ?_
      by_cases hin : p.1.low ≤ i ∧ i < p.1.low + p.1.width
      · right
        rw [getLsbD_set _ _ _ hi, getLsbD_set _ _ _ hi, if_pos hin, if_pos hin]
      · rcases h with ⟨f, hf, hbounds⟩ | hsame
        · left
          rcases List.mem_cons.mp hf with rfl | hmem
          · exact absurd hbounds hin
          · exact ⟨f, hmem, hbounds⟩
        · right
          rw [getLsbD_set _ _ _ hi, getLsbD_set _ _ _ hi, if_neg hin, if_neg hin, hsame]

/-- **Storing in all fields** leaves nothing of the word. -/
theorem setFields_eq {l : List (BitField × ℕ)} (h : ∀ i < w, Covered (l.map Prod.fst) i)
    (x y : BitVec w) : setFields l x = setFields l y :=
  BitVec.eq_of_getLsbD_eq fun i hi => getLsbD_setFields hi (Or.inl (h i hi))

end BitField

end CustomLinuxOs
