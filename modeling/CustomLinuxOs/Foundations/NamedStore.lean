import Mathlib.Tactic
import CustomLinuxOs.Foundations.Refinement

/-!
What a store of files is for: names lead to files with contents, and descriptors to open files.

Names are taken up to a relation, since a name may be longer than what is compared of it.  A file
is known by a number of its own, which its contents and its place do not matter to.

* `NamedStore`, `StoreCall`, `storeStep`: the calls, each with what it may do.  Opening and
  creating may fail for reasons that the store does not know.
* `storeStep_keeps`: a call that does not write a file and does not remove its name leaves it
  alone.
-/

namespace CustomLinuxOs

/-- The files by their names, and the open files by their descriptors. -/
structure NamedStore (N I C : Type*) where
  files : N → Option (I × C)
  opens : ℕ → Option I

/-- The calls on a store. -/
inductive StoreCall (N C : Type*) where
  | open (x : N)
  | close (fd : ℕ)
  | create (x : N)
  | write (fd : ℕ) (c : C)
  | remove (x : N)

section Calls

variable {N I C : Type*} (same : N → N → Prop) (empty : C)

/-- Nothing is opened, or a descriptor that was closed is for the file with the name. -/
def Opens (a b : NamedStore N I C) (x : N) : Prop :=
  b.opens = a.opens ∨ ∃ fd f, b.files x = some f ∧ a.opens fd = none
    ∧ b.opens = Function.update a.opens fd (some f.1)

/-- A name that was not there is that of a new file without contents. -/
def Creates (a b : NamedStore N I C) (x : N) : Prop :=
  a.files x = none ∧ ∃ i, (∀ y f, a.files y = some f → f.1 ≠ i)
    ∧ (∀ y, same x y → b.files y = some (i, empty)) ∧ ∀ y, ¬ same x y → b.files y = a.files y

/-- The calls.  A name that is there is opened by `create`; a write replaces the contents. -/
def storeStep (a : NamedStore N I C) : StoreCall N C → NamedStore N I C → Prop
  | .open x, b => b.files = a.files ∧ Opens a b x
  | .close fd, b => b.files = a.files
      ∧ (b.opens = a.opens ∨ b.opens = Function.update a.opens fd none)
  | .create x, b => (b.files = a.files ∨ Creates same empty a b x) ∧ Opens a b x
  | .write fd c, b => b.opens = a.opens ∧ ∃ i, a.opens fd = some i
      ∧ (∀ y f, a.files y = some f → f.1 = i → b.files y = some (i, c))
      ∧ ∀ y, (∀ f, a.files y = some f → f.1 ≠ i) → b.files y = a.files y
  | .remove x, b => b.opens = a.opens ∧ (∀ y, same x y → b.files y = none)
      ∧ ∀ y, ¬ same x y → b.files y = a.files y

/-- The call does not write the file and does not remove the name. -/
def Spares (a : NamedStore N I C) (x : N) (i : I) : StoreCall N C → Prop
  | .write fd _ => a.opens fd ≠ some i
  | .remove y => ¬ same y x
  | _ => True

variable {same empty} {a b : NamedStore N I C} {call : StoreCall N C}

/-- **The frame of a call**: what it spares is as before. -/
theorem storeStep_keeps {x : N} {f : I × C} (h : storeStep same empty a call b)
    (hx : a.files x = some f) (hspares : Spares same a x f.1 call)
    (hequiv : ∀ y z, same y z → a.files y = a.files z) : b.files x = some f := by
  cases call with
  | «open» y => rw [h.1, hx]
  | close fd => rw [h.1, hx]
  | create y =>
      obtain ⟨hsame | ⟨hnone, i, -, -, hother⟩, -⟩ := h
      · rw [hsame, hx]
      · have hxy : ¬ same y x := by
          intro hyx
          rw [hequiv y x hyx, hx] at hnone
          cases hnone
        rw [hother x hxy, hx]
  | write fd c =>
      obtain ⟨-, i, hfd, -, hother⟩ := h
      rw [hother x fun g hg => ?_, hx]
      obtain rfl : f = g := Option.some.inj (hx.symm.trans hg)
      rintro rfl
      exact hspares hfd
  | remove y =>
      rw [h.2.2 x hspares, hx]

end Calls

end CustomLinuxOs
