import Mathlib.Data.List.Infix
import Mathlib.Tactic

/-!
A scan for a pattern that begins anew after an element that does not fit.

The scan keeps how much of the pattern it has matched.  An element that goes on with the pattern
counts; any other one is dropped and the matching begins again behind it, so that a match which
begins inside a failed attempt is not seen.

* `restartStep`, `scanned`: one element, and a word of them.
* `Misses`: words that are cut into failed attempts; `StopsAfter`: the pattern is matched at the end
  of a word and not before.  `stopsAfter_iff`: **the scan stops** after failed attempts and the
  pattern, and nowhere else.
* `FirstAt`: the first place of the pattern in a word.
* `heard`: a word whose last element is repeated without an end, which is what a reader with a
  stale buffer gets.
* `finds_iff`: when the scan of such a word stops, and at the first place of the pattern.
-/

namespace CustomLinuxOs

variable {α : Type*} {str S W v w : List α} {b c : α} {i k n q : ℕ}

/-! ### Failed attempts -/

/-- Failed attempts one after another: each has a front part of the pattern, and then an element
that does not go on with it. -/
inductive Misses (str : List α) : List α → Prop
  | nil : Misses str []
  | piece {v : List α} {i : ℕ} {c : α} :
      Misses str v → i < str.length → str[i]? ≠ some c → Misses str (v ++ str.take i ++ [c])

/-- The first place of the pattern in a word. -/
def FirstAt (str S : List α) (q : ℕ) : Prop :=
  str <+: S.drop q ∧ ∀ p < q, ¬ str <+: S.drop p

lemma exists_firstAt (h : str <+: S.drop n) : ∃ q, FirstAt str S q := by
  classical
  have hsome : ∃ q, str <+: S.drop q := ⟨n, h⟩
  exact ⟨Nat.find hsome, Nat.find_spec hsome, fun p hp => Nat.find_min hsome hp⟩

lemma FirstAt.unique {p : ℕ} (hp : FirstAt str S p) (hq : FirstAt str S q) : p = q := by
  by_contra hne
  rcases Nat.lt_or_gt_of_ne hne with hlt | hgt
  · exact hq.2 p hlt hp.1
  · exact hp.2 q hgt hq.1

/-- What stands before the place, and the pattern. -/
lemma FirstAt.take_add (h : FirstAt str S q) :
    S.take (q + str.length) = S.take q ++ str := by
  rw [List.take_add, ← List.prefix_iff_eq_take.mp h.1]

lemma FirstAt.le (h : FirstAt str S q) (hstr : str ≠ []) : q + str.length ≤ S.length := by
  have hlen := h.1.length_le
  have hpos := List.length_pos_iff.mpr hstr
  rw [List.length_drop] at hlen
  omega

/-! ### The scan -/

section Scan

variable [DecidableEq α]

/-- One element of the scan: how much is matched after it. -/
def restartStep (str : List α) (i : ℕ) (c : α) : ℕ :=
  if str[i]? = some c then i + 1 else 0

/-- How much is matched after a word. -/
def scanned (str w : List α) : ℕ := w.foldl (restartStep str) 0

/-- The pattern is not matched before the end of the word. -/
def Unstopped (str w : List α) : Prop := ∀ n < w.length, scanned str (w.take n) ≠ str.length

/-- The pattern is matched at the end of the word, and not before. -/
def StopsAfter (str w : List α) : Prop := Unstopped str w ∧ scanned str w = str.length

@[simp] lemma scanned_nil (str : List α) : scanned str [] = 0 := rfl

lemma scanned_snoc (str w : List α) (c : α) :
    scanned str (w ++ [c]) = restartStep str (scanned str w) c := by
  rw [scanned, List.foldl_append]
  rfl

lemma unstopped_nil (str : List α) : Unstopped str [] := fun _ h => absurd h (Nat.not_lt_zero _)

lemma unstopped_snoc_iff :
    Unstopped str (w ++ [c]) ↔ Unstopped str w ∧ scanned str w ≠ str.length := by
  have hbefore : ∀ n ≤ w.length, (w ++ [c]).take n = w.take n :=
    fun n hn => List.take_append_of_le_length hn
  have hlen : (w ++ [c]).length = w.length + 1 := by simp
  constructor
  · intro h
    constructor
    · intro n hn
      have hne := h n (by omega)
      rwa [hbefore n hn.le] at hne
    · have hne := h w.length (by omega)
      rwa [hbefore _ le_rfl, List.take_length] at hne
  · rintro ⟨h, hend⟩ n hn
    rcases Nat.lt_or_ge n w.length with hlt | hge
    · rw [hbefore n hlt.le]
      exact h n hlt
    · obtain rfl : n = w.length := by omega
      rwa [hbefore _ le_rfl, List.take_length]

/-- **Where the scan is**: behind failed attempts, with the front part of the pattern it has
matched. -/
lemma scanned_spec (h : Unstopped str w) :
    scanned str w ≤ str.length ∧ ∃ v, Misses str v ∧ w = v ++ str.take (scanned str w) := by
  induction w using List.reverseRecOn with
  | nil => exact ⟨Nat.zero_le _, [], Misses.nil, by simp⟩
  | append_singleton w c ih =>
      obtain ⟨hw, hend⟩ := unstopped_snoc_iff.mp h
      obtain ⟨hle, v, hv, hsplit⟩ := ih hw
      have hlt : scanned str w < str.length := Nat.lt_of_le_of_ne hle hend
      rw [scanned_snoc, restartStep]
      split
      · rename_i hfits
        refine ⟨hlt, v, hv, ?_⟩
        rw [List.take_add_one, hfits, Option.toList_some, ← List.append_assoc, ← hsplit]
      · rename_i hmiss
        refine ⟨Nat.zero_le _, w ++ [c], ?_, by simp⟩
        have hpiece := hv.piece hlt hmiss
        rwa [← hsplit] at hpiece

/-- A scan that begins goes through the pattern. -/
lemma scanned_take (hv : Unstopped str v) (hzero : scanned str v = 0) (hi : i ≤ str.length) :
    Unstopped str (v ++ str.take i) ∧ scanned str (v ++ str.take i) = i := by
  induction i with
  | zero => simpa using ⟨hv, hzero⟩
  | succ i ih =>
      obtain ⟨hun, hscan⟩ := ih (by omega)
      have hfits : str[i]? = some str[i] := List.getElem?_eq_getElem (by omega)
      rw [List.take_add_one, hfits, Option.toList_some, ← List.append_assoc]
      constructor
      · exact unstopped_snoc_iff.mpr ⟨hun, by rw [hscan]; omega⟩
      · rw [scanned_snoc, hscan, restartStep, if_pos hfits]

/-- After failed attempts nothing is matched, and the pattern has not been. -/
lemma Misses.scanned (h : Misses str v) : Unstopped str v ∧ scanned str v = 0 := by
  induction h with
  | nil => exact ⟨unstopped_nil str, rfl⟩
  | piece _ hi hmiss ih =>
      obtain ⟨hun, hscan⟩ := scanned_take ih.1 ih.2 hi.le
      constructor
      · exact unstopped_snoc_iff.mpr ⟨hun, by rw [hscan]; exact hi.ne⟩
      · rw [scanned_snoc, hscan, restartStep, if_neg hmiss]

/-- **The scan stops** after failed attempts and the pattern. -/
lemma stopsAfter_iff : StopsAfter str w ↔ ∃ v, Misses str v ∧ w = v ++ str := by
  constructor
  · rintro ⟨hun, hend⟩
    obtain ⟨-, v, hv, hsplit⟩ := scanned_spec hun
    rw [hend, List.take_length] at hsplit
    exact ⟨v, hv, hsplit⟩
  · rintro ⟨v, hv, rfl⟩
    have hpattern := scanned_take hv.scanned.1 hv.scanned.2 le_rfl
    rwa [List.take_length] at hpattern

/-- Before the first place of the pattern the scan does not stop. -/
lemma FirstAt.unstopped (h : FirstAt str S q) : Unstopped str (S.take q) := by
  have hall : ∀ n ≤ q, Unstopped str (S.take n) := by
    intro n
    induction n with
    | zero => exact fun _ => by simpa using unstopped_nil str
    | succ n ih =>
        intro hn
        rw [List.take_add_one]
        cases hc : S[n]? with
        | none => simpa using ih (by omega)
        | some c =>
            refine unstopped_snoc_iff.mpr ⟨ih (by omega), fun hend => ?_⟩
            obtain ⟨v, -, hsplit⟩ := stopsAfter_iff.mp ⟨ih (by omega), hend⟩
            have hlen : v.length ≤ n := by
              have := congrArg List.length hsplit
              rw [List.length_take, List.length_append] at this
              omega
            -- a stop would be an earlier place of the pattern
            refine h.2 v.length (by omega) ?_
            have hprefix : v ++ str <+: S := hsplit ▸ List.take_prefix n S
            obtain ⟨rest, rfl⟩ := hprefix
            rw [List.append_assoc, List.drop_left]
            exact List.prefix_append _ _
  exact hall q le_rfl

end Scan

/-! ### A word whose last element stays -/

/-- The first `k` elements a reader gets of a word, when the last one is repeated without an end;
`b` is what the reader has before. -/
def heard (W : List α) (b : α) (k : ℕ) : List α :=
  W.take k ++ List.replicate (k - W.length) (W.getLastD b)

lemma heard_length (W : List α) (b : α) (k : ℕ) : (heard W b k).length = k := by
  rw [heard, List.length_append, List.length_take, List.length_replicate]
  omega

lemma heard_of_le (b : α) (h : k ≤ W.length) : heard W b k = W.take k := by
  rw [heard, Nat.sub_eq_zero_of_le h, List.replicate_zero, List.append_nil]

/-- As long as the word goes on, its next element. -/
lemma heard_succ_of_lt (b : α) (h : k < W.length) :
    heard W b (k + 1) = heard W b k ++ [W[k]] := by
  rw [heard_of_le b h, heard_of_le b h.le, List.take_add_one, List.getElem?_eq_getElem h]
  rfl

/-- After it, the last element. -/
lemma heard_succ_of_le (b : α) (h : W.length ≤ k) :
    heard W b (k + 1) = heard W b k ++ [W.getLastD b] := by
  rw [heard, heard, List.take_of_length_le h, List.take_of_length_le (by omega),
    List.append_assoc, ← List.replicate_succ', Nat.succ_sub h]

/-- What the reader has in its buffer. -/
lemma heard_getLastD_of_le (b : α) (h : W.length ≤ k) :
    (heard W b k).getLastD b = W.getLastD b := by
  rw [heard, List.take_of_length_le h]
  cases hk : k - W.length with
  | zero => simp
  | succ m => simp [List.replicate_succ', ← List.append_assoc]

lemma heard_take (W : List α) (b : α) (h : n ≤ k) : (heard W b k).take n = heard W b n := by
  induction k, h using Nat.le_induction with
  | base => exact List.take_of_length_le (heard_length W b n).le
  | succ k hk ih =>
      have hlen := heard_length W b k
      rcases Nat.lt_or_ge k W.length with hlt | hge
      · rw [heard_succ_of_lt b hlt, List.take_append_of_le_length (by omega), ih]
      · rw [heard_succ_of_le b hge, List.take_append_of_le_length (by omega), ih]

/-- A pattern that is its own tail followed by one repeated element has no other elements. -/
lemma eq_of_shifted {u : List α} (h : v ++ str = u ++ str ++ List.replicate n c) (hn : 0 < n)
    (hi : i < str.length) : str[i]? = some c := by
  have hlen := congrArg List.length h
  simp only [List.length_append, List.length_replicate] at hlen
  induction hm : str.length - i using Nat.strong_induction_on generalizing i with
  | _ m ih =>
      have hat := congrArg (fun l : List α => l[v.length + i]?) h
      simp only [List.getElem?_append_right (Nat.le_add_right _ _), Nat.add_sub_cancel_left] at hat
      rw [hat]
      rcases Nat.lt_or_ge (i + n) str.length with hin | hout
      · rw [List.getElem?_append_left (by rw [List.length_append]; omega),
          List.getElem?_append_right (by omega), show v.length + i - u.length = i + n by omega]
        exact ih _ (by omega) hin rfl
      · rw [List.getElem?_append_right (by rw [List.length_append]; omega)]
        exact List.getElem?_replicate_of_lt (by rw [List.length_append]; omega)

/-! ### What the scan finds -/

section Finds

variable [DecidableEq α]

/-- It stops once. -/
lemma StopsAfter.unique (hk : StopsAfter str (heard W b k)) (hn : StopsAfter str (heard W b n)) :
    k = n := by
  have hnot : ∀ {k n : ℕ}, StopsAfter str (heard W b k) → StopsAfter str (heard W b n) →
      ¬ k < n := by
    intro k n hk hn hlt
    refine hn.1 k (by rwa [heard_length]) ?_
    rw [heard_take W b hlt.le]
    exact hk.2
  exact Nat.le_antisymm (Nat.le_of_not_lt (hnot hn hk)) (Nat.le_of_not_lt (hnot hk hn))

/-- A pattern of one repeated element is not missed. -/
lemma FirstAt.misses_of_const (h : FirstAt str S q) (hstr : str ≠ [])
    (hconst : ∀ i < str.length, str[i]? = some c) : Misses str (S.take q) := by
  obtain ⟨-, v, hv, hsplit⟩ := scanned_spec h.unstopped
  have hzero : scanned str (S.take q) = 0 := by
    cases q with
    | zero => simp
    | succ p =>
        have hp : p < S.length := by
          have := h.le hstr
          omega
        rw [List.take_add_one, List.getElem?_eq_getElem hp, Option.toList_some, scanned_snoc,
          restartStep, if_neg]
        intro hfits
        -- the element before would be a match one place earlier
        refine h.2 p (Nat.lt_succ_self p) ?_
        have hc : S[p] = c := by
          have hlt := (List.getElem?_eq_some_iff.mp hfits).1
          exact Option.some.inj (hfits.symm.trans (hconst _ hlt))
        have hrep : str = List.replicate str.length c := by
          refine List.ext_getElem? fun i => ?_
          rcases Nat.lt_or_ge i str.length with hi | hi
          · rw [hconst i hi, List.getElem?_replicate_of_lt hi]
          · rw [List.getElem?_eq_none hi, List.getElem?_eq_none (by simpa using hi)]
        obtain ⟨rest, hrest⟩ := h.1
        rw [List.drop_eq_getElem_cons hp, hc, ← hrest, ← List.cons_append]
        refine List.IsPrefix.trans ?_ (List.prefix_append _ _)
        rw [hrep, ← List.replicate_succ, List.replicate_succ']
        exact List.prefix_append _ _
  rw [hzero, List.take_zero, List.append_nil] at hsplit
  rwa [hsplit]

/-- **A scan that stops behind the first place** has begun there. -/
lemma FirstAt.misses (h : FirstAt str S q) (hstr : str ≠ [])
    (hstop : StopsAfter str (heard W b k)) (htake : W.take k = S.take (q + str.length)) :
    Misses str (S.take q) := by
  obtain ⟨v, hv, hsplit⟩ := stopsAfter_iff.mp hstop
  rw [h.take_add] at htake
  rcases Nat.lt_or_ge W.length k with hlong | hle
  · -- the word is at its end: the match is of its last element only
    rw [heard, htake] at hsplit
    exact h.misses_of_const hstr fun i hi => eq_of_shifted hsplit.symm (by omega) hi
  · rw [heard_of_le b hle, htake] at hsplit
    rwa [List.append_cancel_right hsplit]

/-- **What the scan finds.**  On a word that begins with `S` and whose last element is repeated, the
scan stops, and if the pattern is in `S` right behind the first place of it, exactly if what stands
before that place is failed attempts, or the pattern is not in `S` and is met all the same. -/
theorem finds_iff (hstr : str ≠ []) (hW : S <+: W) (b : α) :
    (∃ k, StopsAfter str (heard W b k)
        ∧ ∀ q, FirstAt str S q → W.take k = S.take (q + str.length))
      ↔ (∃ q, FirstAt str S q ∧ Misses str (S.take q))
        ∨ (∀ q, ¬ str <+: S.drop q)
          ∧ ∃ v, Misses str v ∧ heard W b (v.length + str.length) = v ++ str := by
  constructor
  · rintro ⟨k, hstop, hfirst⟩
    by_cases hsome : ∃ q, str <+: S.drop q
    · obtain ⟨n, hn⟩ := hsome
      obtain ⟨q, hq⟩ := exists_firstAt hn
      exact .inl ⟨q, hq, hq.misses hstr hstop (hfirst q hq)⟩
    · refine .inr ⟨fun q hq => hsome ⟨q, hq⟩, ?_⟩
      obtain ⟨v, hv, hsplit⟩ := stopsAfter_iff.mp hstop
      have hk : k = v.length + str.length := by
        rw [← heard_length W b k, hsplit, List.length_append]
      exact ⟨v, hv, hk ▸ hsplit⟩
  · rintro (⟨q, hq, hmiss⟩ | ⟨hnone, v, hv, hsplit⟩)
    · have hle := hq.le hstr
      have htake : W.take (q + str.length) = S.take (q + str.length) := by
        obtain ⟨rest, rfl⟩ := hW
        exact List.take_append_of_le_length hle
      have hheard : heard W b (q + str.length) = S.take q ++ str := by
        rw [heard_of_le b (hle.trans hW.length_le), htake, hq.take_add]
      refine ⟨q + str.length, stopsAfter_iff.mpr ⟨_, hmiss, hheard⟩, fun p hp => ?_⟩
      obtain rfl := hp.unique hq
      exact htake
    · exact ⟨_, stopsAfter_iff.mpr ⟨v, hv, hsplit⟩, fun q hq => absurd hq.1 (hnone q)⟩

end Finds

end CustomLinuxOs
