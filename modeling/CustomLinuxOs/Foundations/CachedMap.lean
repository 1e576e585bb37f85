import Mathlib.Tactic

/-!
A cache in front of a partial map that changes.

* `Coherent`: what is cached is what the map has.
* `Coherent.fill`, `Coherent.evict`: caching a value of the map, and dropping some.
* `Coherent.flush`: the map changes, and all but the pinned values are dropped.
* `Coherent.extend`: the map gets more values, and nothing is dropped.
* `cachedLookup`: the cache first, and then the map.
-/

namespace CustomLinuxOs

variable {K V : Type*} {map map' : K → Option V} {cache cache' : List (K × V)}

/-- What is cached is what the map has. -/
def Coherent (map : K → Option V) (cache : List (K × V)) : Prop :=
  ∀ p ∈ cache, map p.1 = some p.2

namespace Coherent

lemma nil : Coherent map [] := List.forall_mem_nil _

lemma fill {k : K} {v : V} (h : Coherent map cache) (hv : map k = some v) :
    Coherent map ((k, v) :: cache) :=
  List.forall_mem_cons.mpr ⟨hv, h⟩

lemma evict (h : Coherent map cache) (hsub : cache' ⊆ cache) : Coherent map cache' :=
  fun p hp => h p (hsub hp)

/-- **Flushing.** -/
theorem flush {pinned : V → Bool} (h : Coherent map cache)
    (hkeeps : ∀ k v, map k = some v → pinned v = true → map' k = some v) :
    Coherent map' (cache.filter fun p => pinned p.2) := by
  intro p hp
  obtain ⟨hmem, hpinned⟩ := List.mem_filter.mp hp
  exact hkeeps p.1 p.2 (h p hmem) hpinned

/-- **Without flushing.** -/
theorem extend (h : Coherent map cache) (hkeeps : ∀ k v, map k = some v → map' k = some v) :
    Coherent map' cache :=
  fun p hp => hkeeps p.1 p.2 (h p hp)

end Coherent

variable [DecidableEq K]

/-- The value in the cache, or else that of the map. -/
def cachedLookup (map : K → Option V) (cache : List (K × V)) (k : K) : Option V :=
  (cache.lookup k).or (map k)

/-- **Looking up through a coherent cache** is looking up. -/
theorem cachedLookup_eq (h : Coherent map cache) (k : K) : cachedLookup map cache k = map k := by
  rw [cachedLookup]
  cases hk : cache.lookup k with
  | none => rfl
  | some v =>
      obtain ⟨l, l', hl, -⟩ := List.lookup_eq_some_iff.mp hk
      have hmem : (k, v) ∈ cache := by
        rw [hl]
        exact List.mem_append_right l List.mem_cons_self
      exact (h (k, v) hmem).symm

end CustomLinuxOs
