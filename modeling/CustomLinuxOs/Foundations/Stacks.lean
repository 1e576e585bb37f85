import Mathlib.Tactic

/-!
Stacks of numbered items, one stack for each owner.

An item gets its number when it is pushed; the numbers are given out in order.  It stays on the
stack it has been pushed on until it is popped there or the whole stack is dropped.

* `Stacks`: the stacks, and what has been popped and dropped so far.  Every item given out is in
  one place.
* `push`, `pop`, `drop`: the operations.
-/

namespace CustomLinuxOs

/-- Stacks of items for the owners `ω`: none is in two places, and none has been lost. -/
structure Stacks (ω : Type*) where
  /-- the items of an owner, the last one first -/
  pending : ω → List ℕ
  popped : List ℕ
  dropped : List ℕ
  count : ℕ
  nodup : ∀ o, (pending o).Nodup
  apart : ∀ o o' c, c ∈ pending o → c ∈ pending o' → o = o'
  poppedNodup : popped.Nodup
  poppedApart : ∀ o, ∀ c ∈ pending o, c ∉ popped
  lt_count : ∀ o, ∀ c ∈ pending o, c < count
  popped_lt_count : ∀ c ∈ popped, c < count
  accounted : ∀ c < count, c ∈ popped ∨ (∃ o, c ∈ pending o) ∨ c ∈ dropped

namespace Stacks

variable {ω : Type*}

/-- No items. -/
def empty : Stacks ω where
  pending := fun _ => []
  popped := []
  dropped := []
  count := 0
  nodup := fun _ => List.nodup_nil
  apart := fun _ _ _ h => absurd h (by simp)
  poppedNodup := List.nodup_nil
  poppedApart := fun _ _ h => absurd h (by simp)
  lt_count := fun _ _ h => absurd h (by simp)
  popped_lt_count := fun _ h => absurd h (by simp)
  accounted := fun _ h => absurd h (by simp)

variable [DecidableEq ω] (s : Stacks ω) (o : ω)

/-- Items of a family of lists of which one is replaced. -/
lemma mem_update {pending : ω → List ℕ} {o o' : ω} {l : List ℕ} {c : ℕ} :
    c ∈ Function.update pending o l o' ↔ o' = o ∧ c ∈ l ∨ o' ≠ o ∧ c ∈ pending o' := by
  rcases eq_or_ne o' o with rfl | ho
  · simp
  · simp [ho]

/-- A new item on the stack of `o`. -/
def push : Stacks ω where
  pending := Function.update s.pending o (s.count :: s.pending o)
  popped := s.popped
  dropped := s.dropped
  count := s.count + 1
  nodup o' := by
    rcases eq_or_ne o' o with rfl | ho
    · rw [Function.update_self]
      exact List.nodup_cons.mpr ⟨fun h => lt_irrefl _ (s.lt_count o' _ h), s.nodup o'⟩
    · rw [Function.update_of_ne ho]
      exact s.nodup o'
  apart o₁ o₂ c h₁ h₂ := by
    have key {o' : ω} (h : c ∈ Function.update s.pending o (s.count :: s.pending o) o') :
        (o' = o ∧ c = s.count) ∨ c ∈ s.pending o' := by
      rcases mem_update.mp h with ⟨rfl, h⟩ | ⟨-, h⟩
      · exact (List.mem_cons.mp h).imp (fun hc => ⟨rfl, hc⟩) id
      · exact Or.inr h
    rcases key h₁ with ⟨ho₁, hc⟩ | h₁
    · rcases key h₂ with ⟨ho₂, -⟩ | h₂
      · exact ho₁.trans ho₂.symm
      · exact absurd hc (s.lt_count o₂ c h₂).ne
    · rcases key h₂ with ⟨-, hc⟩ | h₂'
      · exact absurd hc (s.lt_count o₁ c h₁).ne
      · exact s.apart o₁ o₂ c h₁ h₂'
  poppedNodup := s.poppedNodup
  poppedApart o' c h hpopped := by
    rcases mem_update.mp h with ⟨rfl, h⟩ | ⟨-, h⟩
    · rcases List.mem_cons.mp h with rfl | h
      · exact lt_irrefl _ (s.popped_lt_count _ hpopped)
      · exact s.poppedApart o' c h hpopped
    · exact s.poppedApart o' c h hpopped
  lt_count o' c h := by
    rcases mem_update.mp h with ⟨rfl, h⟩ | ⟨-, h⟩
    · rcases List.mem_cons.mp h with rfl | h
      · exact Nat.lt_succ_self _
      · exact (s.lt_count o' c h).trans (Nat.lt_succ_self _)
    · exact (s.lt_count o' c h).trans (Nat.lt_succ_self _)
  popped_lt_count c h := (s.popped_lt_count c h).trans (Nat.lt_succ_self _)
  accounted c hc := by
    rcases Nat.lt_succ_iff_lt_or_eq.mp hc with hc | rfl
    · refine (s.accounted c hc).imp id (Or.imp ?_ id)
      rintro ⟨o', h⟩
      refine ⟨o', mem_update.mpr ?_⟩
      rcases eq_or_ne o' o with rfl | ho
      · exact Or.inl ⟨rfl, List.mem_cons_of_mem _ h⟩
      · exact Or.inr ⟨ho, h⟩
    · exact Or.inr (Or.inl ⟨o, mem_update.mpr (Or.inl ⟨rfl, List.mem_cons_self⟩)⟩)

/-- What is left of a family of lists of which one is shortened. -/
lemma mem_of_mem_update {pending : ω → List ℕ} {o o' : ω} {l : List ℕ} {c : ℕ}
    (hl : l ⊆ pending o) (h : c ∈ Function.update pending o l o') : c ∈ pending o' := by
  rcases mem_update.mp h with ⟨rfl, h'⟩ | ⟨-, h'⟩
  · exact hl h'
  · exact h'

/-- The last item of the stack of `o` is taken off. -/
def pop : Stacks ω where
  pending := Function.update s.pending o (s.pending o).tail
  popped := (s.pending o).head?.toList ++ s.popped
  dropped := s.dropped
  count := s.count
  nodup o' := by
    rcases eq_or_ne o' o with rfl | ho
    · rw [Function.update_self]
      exact (s.nodup o').tail
    · rw [Function.update_of_ne ho]
      exact s.nodup o'
  apart o₁ o₂ c h₁ h₂ :=
    s.apart o₁ o₂ c (mem_of_mem_update (List.tail_subset _) h₁)
      (mem_of_mem_update (List.tail_subset _) h₂)
  poppedNodup := by
    cases h : s.pending o with
    | nil => exact s.poppedNodup
    | cons c l =>
        exact List.nodup_cons.mpr ⟨s.poppedApart o c (by simp [h]), s.poppedNodup⟩
  poppedApart o' c h hpopped := by
    have hc := mem_of_mem_update (List.tail_subset _) h
    rcases List.mem_append.mp hpopped with hhead | hpopped
    · -- an item that is still there is not the one that has been taken off
      have hhead' := Option.mem_toList.mp hhead
      have hmem := List.mem_of_mem_head? hhead'
      obtain rfl := s.apart o' o c hc hmem
      have hnodup := s.nodup o'
      rw [Function.update_self] at h
      cases hl : s.pending o' with
      | nil => simp [hl] at hmem
      | cons d l =>
          rw [hl] at hhead' hnodup h
          obtain rfl : d = c := Option.some.inj hhead'
          exact (List.nodup_cons.mp hnodup).1 h
    · exact s.poppedApart o' c hc hpopped
  lt_count o' c h := s.lt_count o' c (mem_of_mem_update (List.tail_subset _) h)
  popped_lt_count c h := by
    rcases List.mem_append.mp h with h | h
    · exact s.lt_count o c (List.mem_of_mem_head? (Option.mem_toList.mp h))
    · exact s.popped_lt_count c h
  accounted c hc := by
    rcases s.accounted c hc with h | ⟨o', h⟩ | h
    · exact Or.inl (List.mem_append_right _ h)
    · rcases eq_or_ne o' o with rfl | ho
      · cases hl : s.pending o' with
        | nil => simp [hl] at h
        | cons d l =>
            rw [hl] at h
            rcases List.mem_cons.mp h with rfl | h
            · exact Or.inl (by simp)
            · exact Or.inr (Or.inl ⟨o', by simpa using h⟩)
      · exact Or.inr (Or.inl ⟨o', mem_update.mpr (Or.inr ⟨ho, h⟩)⟩)
    · exact Or.inr (Or.inr h)

/-- The whole stack of `o` is given up. -/
def drop : Stacks ω where
  pending := Function.update s.pending o []
  popped := s.popped
  dropped := s.pending o ++ s.dropped
  count := s.count
  nodup o' := by
    rcases eq_or_ne o' o with rfl | ho
    · rw [Function.update_self]
      exact List.nodup_nil
    · rw [Function.update_of_ne ho]
      exact s.nodup o'
  apart o₁ o₂ c h₁ h₂ :=
    s.apart o₁ o₂ c (mem_of_mem_update (List.nil_subset _) h₁)
      (mem_of_mem_update (List.nil_subset _) h₂)
  poppedNodup := s.poppedNodup
  poppedApart o' c h := s.poppedApart o' c (mem_of_mem_update (List.nil_subset _) h)
  lt_count o' c h := s.lt_count o' c (mem_of_mem_update (List.nil_subset _) h)
  popped_lt_count := s.popped_lt_count
  accounted c hc := by
    rcases s.accounted c hc with h | ⟨o', h⟩ | h
    · exact Or.inl h
    · rcases eq_or_ne o' o with rfl | ho
      · exact Or.inr (Or.inr (List.mem_append_left _ h))
      · exact Or.inr (Or.inl ⟨o', mem_update.mpr (Or.inr ⟨ho, h⟩)⟩)
    · exact Or.inr (Or.inr (List.mem_append_right _ h))

@[simp] lemma push_pending_self : (s.push o).pending o = s.count :: s.pending o :=
  Function.update_self _ _ _

@[simp] lemma pop_pending_self : (s.pop o).pending o = (s.pending o).tail :=
  Function.update_self _ _ _

@[simp] lemma drop_pending_self : (s.drop o).pending o = [] := Function.update_self _ _ _

variable {s o} {o' : ω}

lemma push_pending_of_ne (h : o' ≠ o) : (s.push o).pending o' = s.pending o' :=
  Function.update_of_ne h _ _

lemma pop_pending_of_ne (h : o' ≠ o) : (s.pop o).pending o' = s.pending o' :=
  Function.update_of_ne h _ _

lemma drop_pending_of_ne (h : o' ≠ o) : (s.drop o).pending o' = s.pending o' :=
  Function.update_of_ne h _ _

end Stacks

end CustomLinuxOs
