import CustomLinuxOs.Foundations.Memory
import CustomLinuxOs.Foundations.Numerals
import CustomLinuxOs.Lib.Atoi

/-!
Numbers and their numerals in `lib.c`: `itoa` and `strrev`, and `atoi` behind them.

* `itoaLoop`, `strlenFrom`, `strrevLoop`, `itoa`: the three loops, with fuel; `none` is a loop that
  is still running.
* `ItoaLeaves`: `itoa` ends, and what it leaves.
* `itoaLoop_eq`: the digits, the last one first.
* `strrevLoop_eq`: the swaps turn a stretch of memory round.
* `itoa_eq`: the string that `itoa` leaves.
* `atoi_numeral`: `atoi` reads it again.
* `itoa_roundTrip`: both.

A radix is at least two; with a smaller one the loop of `itoa` does not end, or divides by zero.
-/

namespace CustomLinuxOs

/-! ### The code -/

/-- `lookup` of `itoa`: the bytes of the digits and letters. -/
def lookup (i : ℕ) : UInt8 :=
  ("0123456789ABCDEFGHIJKLMNOPQRSTUVWXYZ".toList.map fun c => c.toNat.toUInt8).getD i 0

/-- The loop of `itoa`: memory, and `newbuf`. -/
def itoaLoop (radix : Int32) :
    ℕ → UInt32 → (ℕ → UInt8) → ℕ → Option ((ℕ → UInt8) × ℕ)
  | 0, _, _, _ => none
  | k + 1, newval, mem, newbuf =>
      if newval > 0 then
        itoaLoop radix k (newval / radix.toUInt32)
          (Function.update mem newbuf (lookup (newval % radix.toUInt32).toNat)) (newbuf + 1)
      else some (mem, newbuf)

/-- `strlen`, from `len` on. -/
def strlenFrom (mem : ℕ → UInt8) (s : ℕ) : ℕ → ℕ → Option ℕ
  | 0, _ => none
  | k + 1, len => if mem (s + len) ≠ 0 then strlenFrom mem s k (len + 1) else some len

/-- The loop of `strrev`.  It ends as soon as `beg` has reached `fin`, the variable `end`. -/
def strrevLoop (s : ℕ) : ℕ → ℕ → ℕ → (ℕ → UInt8) → Option (ℕ → UInt8)
  | 0, _, _, _ => none
  | k + 1, beg, fin, mem =>
      if beg < fin then
        let tmp := mem (s + fin)
        let mem := Function.update mem (s + fin) (mem (s + beg))
        strrevLoop s k (beg + 1) (fin - 1) (Function.update mem (s + beg) tmp)
      else some mem

/-- `strrev`.  For the empty string `end` is `-1` in the source and `0` here, and nothing is
swapped. -/
def strrev (fuel : ℕ) (mem : ℕ → UInt8) (s : ℕ) : Option (ℕ → UInt8) :=
  (strlenFrom mem s fuel 0).bind fun len => strrevLoop s fuel 0 (len - 1) mem

/-- `itoa`: memory after it. -/
def itoa (fuel : ℕ) (value : UInt32) (mem : ℕ → UInt8) (buf : ℕ) (radix : Int32) :
    Option (ℕ → UInt8) :=
  if value = 0 then some (Function.update (Function.update mem buf 48) (buf + 1) 0)
  else (itoaLoop radix fuel value mem buf).bind fun r =>
    strrev fuel (Function.update r.1 r.2 0) buf

/-- `itoa` ends, and leaves the string `l` in the buffer.  No loop runs more often than a number has
bits. -/
def ItoaLeaves (value : UInt32) (mem : ℕ → UInt8) (buf : ℕ) (radix : Int32) (l : List UInt8) :
    Prop :=
  ∃ mem', (∀ fuel ≥ 33, itoa fuel value mem buf radix = some mem') ∧ StringAt mem' buf l

/-! ### Turning a string round -/

/-- **The swaps** turn the bytes from `beg` to `fin` round. -/
lemma strrevLoop_eq (s : ℕ) {k beg fin : ℕ} (mem : ℕ → UInt8) (hk : fin + 1 < beg + 2 * k)
    (hbeg : beg ≤ fin + 1) : strrevLoop s k beg fin mem = some fun a =>
      if s + beg ≤ a ∧ a ≤ s + fin then mem (s + beg + (s + fin) - a) else mem a := by
  induction k generalizing beg fin mem with
  | zero => omega
  | succ k ih =>
      rw [strrevLoop]
      by_cases hswap : beg < fin
      · rw [if_pos hswap, ih _ (by omega) (by omega)]
        refine congrArg some (funext fun a => ?_)
        by_cases hinner : s + (beg + 1) ≤ a ∧ a ≤ s + (fin - 1)
        · have hmirror : s + (beg + 1) + (s + (fin - 1)) - a = s + beg + (s + fin) - a := by omega
          rw [if_pos hinner, if_pos (by omega), hmirror, Function.update_of_ne (by omega),
            Function.update_of_ne (by omega)]
        · rw [if_neg hinner]
          rcases eq_or_ne a (s + beg) with rfl | hfirst
          · rw [Function.update_self, if_pos (by omega), Nat.add_sub_cancel_left]
          · rw [Function.update_of_ne hfirst]
            rcases eq_or_ne a (s + fin) with rfl | hlast
            · rw [Function.update_self, if_pos (by omega), Nat.add_sub_cancel]
            · rw [Function.update_of_ne hlast, if_neg (by omega)]
      · rw [if_neg hswap]
        refine congrArg some (funext fun a => ?_)
        split
        · congr 1
          omega
        · rfl

lemma strlenFrom_eq {mem : ℕ → UInt8} {s : ℕ} {l : List UInt8} (hl : StringAt mem s l) {k len : ℕ}
    (hlen : len ≤ l.length) (hk : l.length < len + k) : strlenFrom mem s k len = some l.length := by
  induction k generalizing len with
  | zero => omega
  | succ k ih =>
      rw [strlenFrom, hl.2 len hlen]
      rcases Nat.eq_or_lt_of_le hlen with rfl | hlt
      · rw [List.getD_eq_default _ _ le_rfl, if_neg (by simp)]
      · have hne : l.getD len 0 ≠ 0 := by
          rw [List.getD_eq_getElem _ _ hlt]
          exact fun hzero => hl.1 (hzero ▸ List.getElem_mem hlt)
        rw [if_pos hne, ih hlt (by omega)]

/-- **`strrev`** turns a string round that has just been written. -/
lemma strrev_eq {l : List UInt8} (hl : 0 ∉ l) (hne : l ≠ []) (mem : ℕ → UInt8) (s : ℕ) {fuel : ℕ}
    (hfuel : l.length < fuel) :
    strrev fuel (copyTo mem s (l ++ [0])) s = some (copyTo mem s (l.reverse ++ [0])) := by
  have hpos := List.length_pos_iff.mpr hne
  have hlen := strlenFrom_eq (stringAt_copyTo hl mem s) (Nat.zero_le _)
    (by rwa [Nat.zero_add] : l.length < 0 + fuel)
  rw [strrev, hlen, Option.bind_some, strrevLoop_eq s _ (by omega) (by omega)]
  refine congrArg some (funext fun a => ?_)
  simp only [copyTo, List.length_append, List.length_reverse, List.length_singleton, Nat.add_zero]
  by_cases ha : s ≤ a ∧ a < s + l.length
  · have hmirror : s + (s + (l.length - 1)) - a - s = l.length - 1 - (a - s) := by omega
    rw [if_pos (by omega), if_pos (by omega), if_pos (by omega), hmirror,
      List.getD_append _ _ _ _ (by omega),
      List.getD_append _ _ _ _ (by rw [List.length_reverse]; omega),
      List.getD_eq_getElem _ _ (by omega),
      List.getD_eq_getElem _ _ (by rw [List.length_reverse]; omega), List.getElem_reverse]
  · by_cases hend : a = s + l.length
    · subst hend
      rw [if_neg (by omega), if_pos (by omega), if_pos (by omega), Nat.add_sub_cancel_left,
        List.getD_append_right _ _ _ _ le_rfl,
        List.getD_append_right _ _ _ _ (by rw [List.length_reverse]), List.length_reverse]
    · rw [if_neg (by omega), if_neg (by omega), if_neg (by omega)]

/-! ### The digits -/

/-- A radix that `itoa` has digits for. -/
lemma toNat_radix {r : ℕ} (hr : r ≤ 36) : (Int32.ofNat r).toUInt32.toNat = r := by
  rw [Int32.toUInt32_ofNat', UInt32.toNat_ofNat']
  exact Nat.mod_eq_of_lt (by omega)

lemma lookup_ne_zero {d : ℕ} (hd : d < 36) : lookup d ≠ 0 := by
  have h : ∀ i < 36, lookup i ≠ 0 := by decide
  exact h d hd

/-- **The loop of `itoa`** writes the digits, the last one first. -/
lemma itoaLoop_eq {r : ℕ} (hr : 2 ≤ r) (hr' : r ≤ 36) {k : ℕ} (v : UInt32) (mem : ℕ → UInt8)
    (newbuf : ℕ) (hk : v.toNat < 2 ^ k) :
    itoaLoop (Int32.ofNat r) (k + 1) v mem newbuf
      = some (copyTo mem newbuf ((r.digits v.toNat).map lookup),
          newbuf + (r.digits v.toNat).length) := by
  induction k generalizing v mem newbuf with
  | zero =>
      have hv : v.toNat = 0 := by omega
      have hzero : ¬ v > 0 := by
        rw [gt_iff_lt, UInt32.lt_iff_toNat_lt, hv]
        exact Nat.lt_irrefl 0
      rw [itoaLoop, if_neg hzero, hv, Nat.digits_zero, List.map_nil, copyTo_nil, List.length_nil,
        Nat.add_zero]
  | succ k ih =>
      by_cases hpos : v > 0
      · have hv : 0 < v.toNat := UInt32.lt_iff_toNat_lt.mp hpos
        have hdiv : (v / (Int32.ofNat r).toUInt32).toNat = v.toNat / r := by
          rw [UInt32.toNat_div, toNat_radix hr']
        have hmod : (v % (Int32.ofNat r).toUInt32).toNat = v.toNat % r := by
          rw [UInt32.toNat_mod, toNat_radix hr']
        have hless : v.toNat / r < 2 ^ k := by
          rw [Nat.div_lt_iff_lt_mul (by omega)]
          calc v.toNat < 2 ^ k * 2 := by rwa [← Nat.pow_succ]
            _ ≤ 2 ^ k * r := Nat.mul_le_mul_left _ hr
        rw [itoaLoop, if_pos hpos, ih _ _ _ (by rwa [hdiv]), hdiv, hmod,
          Nat.digits_def' (by omega) hv, List.map_cons, List.length_cons]
        refine congrArg some (Prod.ext ?_ ?_)
        · calc copyTo (Function.update mem newbuf (lookup (v.toNat % r))) (newbuf + 1)
                ((r.digits (v.toNat / r)).map lookup)
              = copyTo (copyTo mem newbuf [lookup (v.toNat % r)])
                  (newbuf + [lookup (v.toNat % r)].length)
                  ((r.digits (v.toNat / r)).map lookup) := by
                rw [copyTo_singleton, List.length_singleton]
            _ = copyTo mem newbuf (lookup (v.toNat % r) :: (r.digits (v.toNat / r)).map lookup) :=
                copyTo_append _ _ _ _
        · rw [Nat.add_assoc, Nat.add_comm 1]
      · have hv : v.toNat = 0 := by
          rw [gt_iff_lt, UInt32.lt_iff_toNat_lt] at hpos
          exact Nat.eq_zero_of_not_pos hpos
        rw [itoaLoop, if_neg hpos, hv, Nat.digits_zero, List.map_nil, copyTo_nil, List.length_nil,
          Nat.add_zero]

/-- A canonical numeral has no byte that ends a string. -/
lemma zero_notMem_lookup {r v : ℕ} (hr' : r ≤ 36) {ds : List ℕ} (hds : CanonicalNumeral r v ds) :
    0 ∉ ds.map lookup := by
  rintro hmem
  obtain ⟨d, hd, hd'⟩ := List.mem_map.mp hmem
  exact lookup_ne_zero (lt_of_lt_of_le (hds.range d hd) hr') hd'

/-- **The string** that `itoa` leaves. -/
lemma itoa_eq {r : ℕ} (hr : 2 ≤ r) (hr' : r ≤ 36) {v : UInt32} {ds : List ℕ}
    (hds : CanonicalNumeral r v.toNat ds) {fuel : ℕ} (hfuel : 33 ≤ fuel) (mem : ℕ → UInt8)
    (buf : ℕ) :
    itoa fuel v mem buf (Int32.ofNat r) = some (copyTo mem buf (ds.map lookup ++ [0])) := by
  have hcanonical := (canonicalNumeral_iff hr ds).mp hds
  obtain ⟨k, rfl⟩ : ∃ k, fuel = k + 1 := ⟨fuel - 1, by omega⟩
  have hk : v.toNat < 2 ^ k := by
    calc v.toNat < 2 ^ 32 := v.toNat_lt
      _ ≤ 2 ^ k := Nat.pow_le_pow_right (by omega) (by omega)
  by_cases hzero : v = 0
  · subst hzero
    rw [UInt32.toNat_zero, if_pos rfl] at hcanonical
    have hdigit : lookup 0 = 48 := rfl
    rw [itoa, if_pos rfl, hcanonical, List.map_singleton, hdigit, ← copyTo_append,
      copyTo_singleton, copyTo_singleton, List.length_singleton]
  · have hne : v.toNat ≠ 0 := fun h => hzero (UInt32.toNat_inj.mp h)
    rw [if_neg hne] at hcanonical
    set bytes := (r.digits v.toNat).map lookup with hbytes
    have hlength : bytes.length = (r.digits v.toNat).length := List.length_map _
    have hnonzero : 0 ∉ bytes := by
      have := zero_notMem_lookup hr' hds
      rwa [hcanonical, List.map_reverse, List.mem_reverse] at this
    have hnil : bytes ≠ [] := by
      rw [hbytes, ne_eq, List.map_eq_nil_iff]
      exact Nat.digits_ne_nil_iff_ne_zero.mpr hne
    have hshort : bytes.length < k + 1 := by
      rw [hlength]
      calc (r.digits v.toNat).length ≤ k := Nat.digits_length_le_iff hr _ |>.mpr
            (lt_of_lt_of_le hk (Nat.pow_le_pow_left hr k))
        _ < k + 1 := Nat.lt_succ_self k
    calc itoa (k + 1) v mem buf (Int32.ofNat r)
        = strrev (k + 1) (Function.update (copyTo mem buf bytes) (buf + bytes.length) 0) buf := by
          rw [itoa, if_neg hzero, itoaLoop_eq hr hr' v mem buf hk, Option.bind_some, hlength]
      _ = strrev (k + 1) (copyTo mem buf (bytes ++ [0])) buf := by
          rw [← copyTo_singleton, copyTo_append]
      _ = some (copyTo mem buf (bytes.reverse ++ [0])) := strrev_eq hnonzero hnil mem buf hshort
      _ = some (copyTo mem buf (ds.map lookup ++ [0])) := by
          rw [hcanonical, List.map_reverse]

/-! ### Reading it again -/

/-- The decimal digits are digits for `atoi`. -/
lemma lookup_decimal {d : ℕ} (hd : d < 10) :
    isDigit (lookup d) = true ∧ (lookup d).toNat - 48 = d := by
  have h : ∀ i < 10, isDigit (lookup i) = true ∧ (lookup i).toNat - 48 = i := by decide
  exact h d hd

/-- **`atoi`** of a decimal numeral with something behind it that is not a digit. -/
lemma atoi_numeral {v : ℕ} {ds : List ℕ} (hds : CanonicalNumeral 10 v ds) {rest : List UInt8}
    (hrest : ∀ c ∈ rest.head?, isDigit c = false) :
    atoi (ds.map lookup ++ rest) = (Int32.ofNat v, ds.length) := by
  have hall : ∀ c ∈ ds.map lookup, isDigit c = true := by
    intro c hc
    obtain ⟨d, hd, rfl⟩ := List.mem_map.mp hc
    exact (lookup_decimal (hds.range d hd)).1
  have htake : (ds.map lookup ++ rest).takeWhile isDigit = ds.map lookup := by
    rw [List.takeWhile_append_of_pos hall]
    cases rest with
    | nil => rw [List.takeWhile_nil, List.append_nil]
    | cons c rest =>
        rw [List.takeWhile_cons_of_neg (by rw [hrest c rfl]; exact Bool.false_ne_true),
          List.append_nil]
  have hvalues : (ds.map lookup).map (fun c => c.toNat - 48) = ds := by
    calc (ds.map lookup).map (fun c => c.toNat - 48)
        = ds.map fun d => (lookup d).toNat - 48 := List.map_map
      _ = ds.map id := List.map_congr_left fun d hd => (lookup_decimal (hds.range d hd)).2
      _ = ds := List.map_id ds
  rw [atoi_eq, htake, numeral, hvalues, hds.value, List.length_map]

/-! ### There and back -/

/-- `itoa` leaves the canonical numeral. -/
lemma itoaLeaves_numeral {r : ℕ} (hr : 2 ≤ r) (hr' : r ≤ 36) {v : UInt32} {ds : List ℕ}
    (hds : CanonicalNumeral r v.toNat ds) (mem : ℕ → UInt8) (buf : ℕ) :
    ItoaLeaves v mem buf (Int32.ofNat r) (ds.map lookup) :=
  ⟨_, fun _ hfuel => itoa_eq hr hr' hds hfuel mem buf,
    stringAt_copyTo (zero_notMem_lookup hr' hds) mem buf⟩

/-- There is one string that `itoa` leaves. -/
lemma ItoaLeaves.unique {v : UInt32} {mem : ℕ → UInt8} {buf : ℕ} {radix : Int32}
    {l l' : List UInt8} (h : ItoaLeaves v mem buf radix l) (h' : ItoaLeaves v mem buf radix l') :
    l = l' := by
  obtain ⟨mem₁, hmem₁, hl⟩ := h
  obtain ⟨mem₂, hmem₂, hl'⟩ := h'
  obtain rfl : mem₁ = mem₂ := Option.some.inj ((hmem₁ 33 le_rfl).symm.trans (hmem₂ 33 le_rfl))
  exact hl.unique hl'

/-- **Numbers and their numerals.**  In every radix that it has digits for, `itoa` leaves the
canonical numeral; and `atoi` reads the decimal one of a number in the range of an `int`, up to
anything that is not a digit. -/
theorem itoa_roundTrip (v : UInt32) (mem : ℕ → UInt8) (buf : ℕ) :
    (∀ r, 2 ≤ r → r ≤ 36 → ∃ ds, CanonicalNumeral r v.toNat ds
      ∧ ItoaLeaves v mem buf (Int32.ofNat r) (ds.map lookup))
    ∧ (v.toNat < 2 ^ 31 → ∀ l, ItoaLeaves v mem buf 10 l → ∀ rest : List UInt8,
      (∀ c ∈ rest.head?, isDigit c = false) →
        (atoi (l ++ rest)).1.toInt = v.toNat ∧ (atoi (l ++ rest)).2 = l.length) := by
  refine ⟨fun r hr hr' => ?_, fun hv l hl rest hrest => ?_⟩
  · obtain ⟨ds, hds⟩ : ∃ ds, CanonicalNumeral r v.toNat ds :=
      ⟨_, (canonicalNumeral_iff hr _).mpr rfl⟩
    exact ⟨ds, hds, itoaLeaves_numeral hr hr' hds mem buf⟩
  · obtain ⟨ds, hds⟩ : ∃ ds, CanonicalNumeral 10 v.toNat ds :=
      ⟨_, (canonicalNumeral_iff (by omega) _).mpr rfl⟩
    obtain rfl := hl.unique (itoaLeaves_numeral (by omega) (by omega) hds mem buf)
    rw [atoi_numeral hds hrest]
    refine ⟨Int32.toInt_ofNat_of_lt hv, ?_⟩
    rw [List.length_map]

/-- A numeral in radix sixteen, and a decimal one with a comma behind it. -/
theorem itoa_roundTrip_255 : ItoaLeaves 255 (fun _ => 0) 0 (Int32.ofNat 16) [70, 70]
    ∧ (∀ l, ItoaLeaves 255 (fun _ => 0) 0 10 l →
      (atoi (l ++ [44])).1.toInt = 255 ∧ (atoi (l ++ [44])).2 = l.length) := by
  obtain ⟨hleaves, hreads⟩ := itoa_roundTrip 255 (fun _ => 0) 0
  have hcomma : ∀ c ∈ [(44 : UInt8)].head?, isDigit c = false := by
    intro c hc
    rw [List.head?_cons, Option.mem_some_iff] at hc
    rw [← hc]
    rfl
  refine ⟨?_, fun l hl => hreads (by decide) l hl [44] hcomma⟩
  obtain ⟨ds, hds, h⟩ := hleaves 16 (by omega) (by omega)
  obtain rfl : ds = [15, 15] := by
    have hdigits : Nat.digits 16 255 = [15, 15] := by norm_num
    exact ((canonicalNumeral_iff (by omega) ds).mp hds).trans (congrArg List.reverse hdigits)
  exact h

end CustomLinuxOs
