import Mathlib.Data.List.Infix

/-!
Extending a word by what all strings that start with it have in common.

* `Extends`, `LongestExtension`: a common extension, and the longest one.
* `LongestExtension.of_first`, `LongestExtension.cut`: a scan starts with the first string that
  fits, and one more string cuts the extension where it goes another way.
-/

namespace CustomLinuxOs

variable {α : Type*}

/-- Every name that starts with `word` goes on with `e`. -/
def Extends (names : List (List α)) (word e : List α) : Prop :=
  ∀ name ∈ names, word <+: name → word ++ e <+: name

/-- `e` is the longest string that every name which starts with `word` goes on with. -/
structure LongestExtension (names : List (List α)) (word e : List α) : Prop where
  fits : Extends names word e
  longest : ∀ e', Extends names word e' → e' <+: e

namespace LongestExtension

variable {names more : List (List α)} {name word e : List α}

/-- Only the names that start with the word count. -/
lemma congr (h : LongestExtension names word e)
    (hmem : ∀ name, word <+: name → (name ∈ names ↔ name ∈ more)) :
    LongestExtension more word e where
  fits name hname hword := h.fits name ((hmem name hword).mpr hname) hword
  longest e' he' := h.longest e' fun name hname hword => he' name ((hmem name hword).mp hname) hword

/-- **The first name that fits** is all that can be added. -/
lemma of_first (hbefore : ∀ name ∈ names, ¬ word <+: name) (e : List α) :
    LongestExtension (names ++ [word ++ e]) word e where
  fits name hname hword := by
    rcases List.mem_append.mp hname with hname | hname
    · exact absurd hword (hbefore name hname)
    · rw [List.mem_singleton.mp hname]
  longest e' he' := (List.prefix_append_right_inj word).mp
    (he' (word ++ e) (List.mem_append_right _ (List.mem_singleton_self _)) (List.prefix_append ..))

/-- **One more name** leaves what it has in common with the extension so far. -/
lemma cut (h : LongestExtension names word e) {j : ℕ} (hfits : word ++ e.take j <+: name)
    (hend : e.length ≤ j ∨ ¬ word ++ e.take (j + 1) <+: name) :
    LongestExtension (names ++ [name]) word (e.take j) := by
  refine ⟨fun name' hname' hword => ?_, fun e' he' => ?_⟩
  · rcases List.mem_append.mp hname' with hold | hnew
    · exact ((List.prefix_append_right_inj word).mpr (List.take_prefix j e)).trans
        (h.fits name' hold hword)
    · rwa [List.mem_singleton.mp hnew]
  · have hprefix : e' <+: e := h.longest e' fun name' hname' hword =>
      he' name' (List.mem_append_left _ hname') hword
    have hname : word ++ e' <+: name := he' name
      (List.mem_append_right _ (List.mem_singleton_self _)) ((List.prefix_append ..).trans hfits)
    rw [List.prefix_iff_eq_take.mp hprefix]
    refine List.take_prefix_take_left ?_
    rcases hend with hend | hend
    · exact hprefix.length_le.trans hend
    · by_contra hlong
      refine hend (((List.prefix_append_right_inj word).mpr ?_).trans hname)
      rw [List.prefix_iff_eq_take.mp hprefix]
      exact List.take_prefix_take_left (by omega)

/-- Where nothing is left to add, more names change nothing. -/
lemma append_nil (h : LongestExtension names word []) :
    LongestExtension (names ++ more) word [] where
  fits name _ hword := by rwa [List.append_nil]
  longest e' he' := h.longest e' fun name hname => he' name (List.mem_append_left _ hname)

end LongestExtension

end CustomLinuxOs
