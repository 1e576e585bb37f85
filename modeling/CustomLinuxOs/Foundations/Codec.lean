import Mathlib.Algebra.BigOperators.Group.List.Basic
import Mathlib.Tactic

/-!
Values of a fixed size in a list, and reads that must not leave the list.

* `FixedCodec n read write`: values take `n` items, and reading and writing are inverse to each
  other.  Reading is total: what it gives on a list that is too short does not matter.
* `readIn`: the read fails when the list is too short for it; `FixedCodec.readIn_iff` says what it
  gives, and `FixedCodec.read_append` that then nothing behind the list has a part in it.
* `StaysIn`: a parser, beside the one that checks its reads, in the list and with anything behind
  it; `StaysIn.guard` takes off a test in front of the two, `StaysIn.of_reads` is for the rest.
-/

namespace CustomLinuxOs

variable {α β : Type*} {n : ℕ} {read : List β → α × List β} {write : α → List β}

/-- Values of `n` items. -/
structure FixedCodec (n : ℕ) (read : List β → α × List β) (write : α → List β) : Prop where
  read_write : ∀ v rest, read (write v ++ rest) = (v, rest)
  write_read : ∀ p, n ≤ p.length → write (read p).1 ++ (read p).2 = p
  write_length : ∀ v, (write v).length = n

/-- A read of `n` items that fails when they are not all there. -/
def readIn (n : ℕ) (read : List β → α × List β) (p : List β) : Option (α × List β) :=
  if n ≤ p.length then some (read p) else none

/-- Values that take at least one item each are not more than their items. -/
lemma length_le_flatMap (hpos : ∀ v, 0 < (write v).length) (l : List α) :
    l.length ≤ (l.flatMap write).length :=
  calc l.length
      = (l.map fun v => (write v).length).length := (List.length_map _).symm
    _ ≤ (l.map fun v => (write v).length).sum := List.length_le_sum_of_one_le _ fun k hk => by
        obtain ⟨v, -, rfl⟩ := List.mem_map.mp hk
        exact hpos v
    _ = (l.flatMap write).length := List.length_flatMap.symm

lemma readIn_of_le {p : List β} (h : n ≤ p.length) : readIn n read p = some (read p) := if_pos h

lemma readIn_drop (read : List β → α × List β) {p : List β} {j : ℕ} (h : j + n ≤ p.length) :
    readIn n read (p.drop j) = some (read (p.drop j)) :=
  readIn_of_le (by rw [List.length_drop]; omega)

namespace FixedCodec

lemma readIn_write (h : FixedCodec n read write) (v : α) (rest : List β) :
    readIn n read (write v ++ rest) = some (v, rest) := by
  rw [readIn_of_le (by rw [List.length_append, h.write_length]; omega), h.read_write]

/-- **A read inside the list** takes a value off it. -/
lemma readIn_iff (h : FixedCodec n read write) {p : List β} {r : α × List β} :
    readIn n read p = some r ↔ p = write r.1 ++ r.2 := by
  constructor
  · intro hread
    by_cases hn : n ≤ p.length
    · rw [readIn_of_le hn] at hread
      rw [← Option.some.inj hread, h.write_read p hn]
    · rw [readIn, if_neg hn] at hread
      cases hread
  · rintro rfl
    exact h.readIn_write r.1 r.2

/-- It gives the same with anything behind the list. -/
lemma read_append (h : FixedCodec n read write) {p : List β} {r : α × List β}
    (hread : readIn n read p = some r) (after : List β) :
    read (p ++ after) = (r.1, r.2 ++ after) := by
  rw [h.readIn_iff.mp hread, List.append_assoc, h.read_write]

/-- The same for a read further on in the list. -/
lemma read_drop_append (h : FixedCodec n read write) {p : List β} {j : ℕ}
    (hj : j + n ≤ p.length) (after : List β) :
    (read ((p ++ after).drop j)).1 = (read (p.drop j)).1 := by
  rw [List.drop_append_of_le_length (by omega), h.read_append (readIn_drop read hj)]

end FixedCodec

/-- A parser with checked reads succeeds exactly when the input is complete, and then its result
gives that of the parser without them, with anything behind the input. -/
structure StaysIn {γ : Type*} (checked : Option α) (complete : Prop) (run : List β → γ)
    (value : α → γ) : Prop where
  isSome_iff : checked.isSome ↔ complete
  run_eq : ∀ r, checked = some r → ∀ after, run after = value r

namespace StaysIn

variable {γ : Type*} {checked : Option α} {complete : Prop} {run : List β → γ} {value : α → γ}

lemma of_reads (hsome : ∀ r, checked = some r → complete)
    (hreads : complete → ∃ r, checked = some r ∧ ∀ after, run after = value r) :
    StaysIn checked complete run value := by
  refine ⟨⟨fun h => ?_, fun h => ?_⟩, fun r hr after => ?_⟩
  · obtain ⟨r, hr⟩ := Option.isSome_iff_exists.mp h
    exact hsome r hr
  · obtain ⟨r, hr, -⟩ := hreads h
    exact Option.isSome_iff_exists.mpr ⟨r, hr⟩
  · obtain ⟨r', hr', hafter⟩ := hreads (hsome r hr)
    rw [hafter, Option.some.inj (hr'.symm.trans hr)]

/-- A test that ends both parsers when it fails. -/
lemma guard {c p : Prop} [Decidable c] (hp : ¬ c ↔ p) (r : α)
    (h : StaysIn checked complete run value) :
    StaysIn (if c then some r else checked) (p → complete)
      (fun after => if c then value r else run after) value := by
  by_cases hc : c
  · simp only [if_pos hc]
    refine ⟨iff_of_true rfl fun hp' => absurd hc (hp.mpr hp'), fun r' hr' _ => ?_⟩
    rw [Option.some.inj hr']
  · simp only [if_neg hc]
    exact ⟨h.isSome_iff.trans ⟨fun hcomplete _ => hcomplete, fun hcomplete =>
      hcomplete (hp.mp hc)⟩, h.run_eq⟩

end StaysIn

end CustomLinuxOs
