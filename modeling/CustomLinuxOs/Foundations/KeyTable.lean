import Mathlib.Tactic

/-!
Tables whose live entries have different keys, and the search for a key that is free.

A table has the entries below `n`; `live` says which of them are in use, `key` gives their keys.

* `KeysDistinct`: no two live entries have the same key.  Entries may be released
  (`KeysDistinct.release`), and one may take a free key (`KeysDistinct.insert`); a lookup by key
  finds the only entry there is (`KeysDistinct.find_eq`).
* `FreeBefore`: no live entry before a place has the key.
* `PassedOver`: the first candidates of a search are keys of entries.  There are at most `n`
  such candidates (`PassedOver.le`).
-/

namespace CustomLinuxOs

variable {κ : Type*} {n : ℕ} {live live' : ℕ → Bool} {key key' : ℕ → κ}

/-- No two live entries have the same key. -/
def KeysDistinct (n : ℕ) (live : ℕ → Bool) (key : ℕ → κ) : Prop :=
  ∀ i < n, ∀ j < n, live i = true → live j = true → key i = key j → i = j

/-- No live entry before the place `m` has the key `k`. -/
def FreeBefore (live : ℕ → Bool) (key : ℕ → κ) (k : κ) (m : ℕ) : Prop :=
  ∀ j < m, live j = true → key j ≠ k

/-- The candidates before the one with number `c` are keys of entries, live or not. -/
def PassedOver (n : ℕ) (key : ℕ → κ) (candidate : ℕ → κ) (c : ℕ) : Prop :=
  ∀ b < c, ∃ j < n, key j = candidate b

/-! ### Releasing and inserting -/

/-- Entries that are released take no key from others. -/
lemma KeysDistinct.release (h : KeysDistinct n live key)
    (hlive : ∀ i, live' i = true → live i = true) (hkey : ∀ i, key' i = key i) :
    KeysDistinct n live' key' := by
  intro i hi j hj hli hlj heq
  rw [hkey, hkey] at heq
  exact h i hi j hj (hlive i hli) (hlive j hlj) heq

/-- What is free stays free. -/
lemma FreeBefore.release {k : κ} {m : ℕ} (h : FreeBefore live key k m)
    (hlive : ∀ i, live' i = true → live i = true) (hkey : ∀ i, key' i = key i) :
    FreeBefore live' key' k m := by
  intro j hj hl
  rw [hkey]
  exact h j hj (hlive j hl)

/-- **A new entry** under a key that is free. -/
lemma KeysDistinct.insert (h : KeysDistinct n live key) {k : κ} (hfree : FreeBefore live key k n)
    {i : ℕ} (hlive : ∀ j ≠ i, live' j = live j) (hkey : ∀ j ≠ i, key' j = key j)
    (hi : key' i = k) : KeysDistinct n live' key' := by
  have hother : ∀ j < n, j ≠ i → live' j = true → key' j ≠ k := by
    intro j hj hne hl
    rw [hkey j hne]
    exact hfree j hj (hlive j hne ▸ hl)
  intro a ha b hb hla hlb heq
  by_cases hai : a = i
  · by_contra hab
    have hbi : b ≠ i := fun hbi => hab (hai.trans hbi.symm)
    exact hother b hb hbi hlb (by rw [← heq, hai, hi])
  · by_cases hbi : b = i
    · exact absurd (by rw [heq, hbi, hi]) (hother a ha hai hla)
    · rw [hkey a hai, hkey b hbi] at heq
      exact h a ha b hb (hlive a hai ▸ hla) (hlive b hbi ▸ hlb) heq

/-- **A lookup by key** finds the only live entry that it can mean. -/
lemma KeysDistinct.find_eq (h : KeysDistinct n live key) {p : ℕ → Bool} {k : κ}
    (hp : ∀ j, p j = true → live j = true ∧ key j = k) {i : ℕ} (hi : i < n) (hpi : p i = true) :
    (List.range n).find? p = some i := by
  rw [List.find?_range_eq_some]
  refine ⟨hpi, List.mem_range.mpr hi, fun j hj => ?_⟩
  rw [Bool.not_eq_true']
  by_contra hpj
  rw [Bool.not_eq_false] at hpj
  obtain ⟨hli, hki⟩ := hp i hpi
  obtain ⟨hlj, hkj⟩ := hp j hpj
  have := h j (by omega) i hi hlj hli (hkj.trans hki.symm)
  omega

/-! ### The search -/

lemma passedOver_zero (n : ℕ) (key candidate : ℕ → κ) : PassedOver n key candidate 0 :=
  fun b hb => absurd hb (Nat.not_lt_zero b)

lemma PassedOver.succ {candidate : ℕ → κ} {c j : ℕ} (h : PassedOver n key candidate c)
    (hj : j < n) (hkey : key j = candidate c) : PassedOver n key candidate (c + 1) := by
  intro b hb
  rcases Nat.lt_succ_iff_lt_or_eq.mp hb with hlt | rfl
  · exact h b hlt
  · exact ⟨j, hj, hkey⟩

lemma PassedOver.congr {candidate : ℕ → κ} {c : ℕ} (h : PassedOver n key candidate c)
    (hkey : ∀ i, key' i = key i) : PassedOver n key' candidate c := by
  intro b hb
  obtain ⟨j, hj, heq⟩ := h b hb
  exact ⟨j, hj, (hkey j).trans heq⟩

/-- **The search ends**: different candidates are keys of different entries. -/
theorem PassedOver.le {candidate : ℕ → κ} {c : ℕ} (h : PassedOver n key candidate c)
    (hinj : Set.InjOn candidate (Set.Iio (n + 1))) : c ≤ n := by
  by_contra hgt
  have hall : ∀ b : Fin (n + 1), ∃ j < n, key j = candidate b := fun b => h b (by omega)
  choose f hf using hall
  obtain ⟨a, -, b, -, hne, heq⟩ := Finset.exists_ne_map_eq_of_card_lt_of_maps_to
    (s := Finset.univ) (t := Finset.range n) (f := f) (by simp)
    fun b _ => Finset.mem_coe.mpr (Finset.mem_range.mpr (hf b).1)
  have hsame : candidate a = candidate b := by rw [← (hf a).2, ← (hf b).2, heq]
  exact hne (Fin.ext (hinj a.isLt b.isLt hsame))

end CustomLinuxOs
