import CustomLinuxOs.Lib.BlockCopy

/-!
`memmove` of `lib.c`, byte by byte, from the end that is safe.

* `movsb`, `memmove`: the instruction with its direction, and the function.
* `MovedDown`: the last bytes are in their places, and nothing else has changed.
* `MovedDown.movsb`: a step downwards.
* `memmove_eq`: regions that overlap in any way; the direction flag stays set behind a move
  downwards.
-/

namespace CustomLinuxOs

/-! ### The code -/

/-- `movsb`: a byte is copied, and both pointers go on, or back if the direction flag is set. -/
def movsb (down : Bool) (s : StringRegs) : StringRegs :=
  let mem := Function.update s.mem s.edi.toNat (s.mem s.esi.toNat)
  if down then ⟨s.edi - 1, s.esi - 1, mem⟩ else ⟨s.edi + 1, s.esi + 1, mem⟩

/-- `memmove`: memory after it, and the direction flag. -/
def memmove (mem : ℕ → UInt8) (dest src n : UInt32) : (ℕ → UInt8) × Bool :=
  if src ≥ dest then (((movsb false)^[n.toNat] ⟨dest, src, mem⟩).mem, false)
  else (((movsb true)^[n.toNat] ⟨dest + n - 1, src + n - 1, mem⟩).mem, true)

/-! ### Upwards -/

/-- The move upwards takes the steps of the copy. -/
lemma movsb_up {mem : ℕ → UInt8} {dest src n : UInt32} (hplace : dest ≤ src)
    (hdest : dest.toNat + n.toNat ≤ 2 ^ 32) (hsrc : src.toNat + n.toNat ≤ 2 ^ 32) :
    ((movsb false)^[n.toNat] ⟨dest, src, mem⟩).mem
      = copyTo mem dest.toNat ((List.range n.toNat).map fun i => mem (src.toNat + i)) := by
  have hstart : Copied mem dest src 0 ⟨dest, src, mem⟩ :=
    ⟨Written.zero ⟨dest, src, mem⟩ _, (UInt32.add_zero src).symm⟩
  have hstep : ∀ k s, k + 1 ≤ n.toNat → Copied mem dest src k s →
      Copied mem dest src (k + 1) (movsb false s) :=
    fun k s hk h => Copied.copyByte (Or.inr (Or.inr hplace)) hdest hsrc h hk
  have hall := iterate_inv hstep (j := n.toNat) (by omega) hstart
  rw [Nat.zero_add, Nat.mul_one] at hall
  exact hall.written.mem

/-! ### Downwards -/

/-- All but the first `m` of `n` bytes are in their places, and both pointers are at the byte that
is next. -/
structure MovedDown (mem : ℕ → UInt8) (dest src : UInt32) (n m : ℕ) (s : StringRegs) : Prop where
  edi : s.edi = dest + UInt32.ofNat m - 1
  esi : s.esi = src + UInt32.ofNat m - 1
  mem : s.mem = copyTo mem (dest.toNat + m)
    ((List.range (n - m)).map fun i => mem (src.toNat + m + i))

/-- A pointer that is one byte before the end of a stretch. -/
lemma add_ofNat_succ_sub_one (a : UInt32) (m : ℕ) :
    a + UInt32.ofNat (m + 1) - 1 = a + UInt32.ofNat m := by
  have hone : UInt32.ofNat 1 = 1 := rfl
  rw [UInt32.ofNat_add, ← UInt32.add_assoc, hone, UInt32.add_sub_cancel]

/-- **A step downwards**: what has been written lies behind the byte that is read. -/
lemma MovedDown.movsb {mem : ℕ → UInt8} {dest src : UInt32} {n m : ℕ} {s : StringRegs}
    (hplace : src.toNat < dest.toNat) (hdest : dest.toNat + n ≤ 2 ^ 32) (hm : m < n)
    (h : MovedDown mem dest src n (m + 1) s) : MovedDown mem dest src n m (movsb true s) := by
  have hedi : s.edi = dest + UInt32.ofNat m := h.edi.trans (add_ofNat_succ_sub_one dest m)
  have hesi : s.esi = src + UInt32.ofNat m := h.esi.trans (add_ofNat_succ_sub_one src m)
  have hto : s.edi.toNat = dest.toNat + m := by rw [hedi, toNat_add_ofNat (by omega)]
  have hfrom : s.esi.toNat = src.toNat + m := by rw [hesi, toNat_add_ofNat (by omega)]
  have hread : s.mem s.esi.toNat = mem (src.toNat + m) := by
    rw [h.mem, hfrom, copyTo, if_neg (by omega)]
  have hleft : n - m = n - (m + 1) + 1 := by omega
  have hbytes : (List.range (n - m)).map (fun i => mem (src.toNat + m + i))
      = [mem (src.toNat + m)]
        ++ (List.range (n - (m + 1))).map fun i => mem (src.toNat + (m + 1) + i) := by
    rw [hleft, List.range_succ_eq_map, List.map_cons, List.map_map, List.singleton_append]
    refine congrArg (_ :: ·) (List.map_congr_left fun i _ => ?_)
    exact congrArg mem (by rw [Nat.add_succ]; omega)
  refine ⟨congrArg (· - 1) hedi, congrArg (· - 1) hesi, ?_⟩
  calc (CustomLinuxOs.movsb true s).mem
      = Function.update s.mem s.edi.toNat (s.mem s.esi.toNat) := rfl
    _ = copyTo (copyTo mem (dest.toNat + m + [mem (src.toNat + m)].length)
          ((List.range (n - (m + 1))).map fun i => mem (src.toNat + (m + 1) + i)))
          (dest.toNat + m) [mem (src.toNat + m)] := by
        rw [hread, hto, h.mem, ← copyTo_singleton]
        rfl
    _ = copyTo mem (dest.toNat + m)
          ((List.range (n - m)).map fun i => mem (src.toNat + m + i)) := by
        rw [copyTo_append_left, hbytes]

lemma movsb_down {mem : ℕ → UInt8} {dest src n : UInt32} (hplace : src.toNat < dest.toNat)
    (hdest : dest.toNat + n.toNat ≤ 2 ^ 32) :
    ((movsb true)^[n.toNat] ⟨dest + n - 1, src + n - 1, mem⟩).mem
      = copyTo mem dest.toNat ((List.range n.toNat).map fun i => mem (src.toNat + i)) := by
  have hstart : MovedDown mem dest src n.toNat (n.toNat - 0) ⟨dest + n - 1, src + n - 1, mem⟩ := by
    refine ⟨?_, ?_, ?_⟩
    · rw [Nat.sub_zero, UInt32.ofNat_toNat]
    · rw [Nat.sub_zero, UInt32.ofNat_toNat]
    · rw [Nat.sub_zero, Nat.sub_self, List.range_zero, List.map_nil, copyTo_nil]
  have hstep : ∀ k s, k + 1 ≤ n.toNat → MovedDown mem dest src n.toNat (n.toNat - k) s →
      MovedDown mem dest src n.toNat (n.toNat - (k + 1)) (movsb true s) := by
    intro k s hk h
    obtain ⟨m, hm⟩ : ∃ m, n.toNat - k = m + 1 := ⟨n.toNat - k - 1, by omega⟩
    have hnext : n.toNat - (k + 1) = m := by omega
    rw [hm] at h
    rw [hnext]
    exact h.movsb hplace hdest (by omega)
  have hall := iterate_inv hstep (j := n.toNat) (by omega) hstart
  have hmem := hall.mem
  rw [Nat.zero_add, Nat.mul_one, Nat.sub_self, Nat.sub_zero] at hmem
  exact hmem

/-! ### The move -/

/-- **`memmove`** stores the bytes that the source had at first, however the regions overlap, where
they do not wrap around; and it leaves the direction flag set just when the source lies before the
destination. -/
theorem memmove_eq (mem : ℕ → UInt8) (dest src n : UInt32)
    (hdest : dest.toNat + n.toNat ≤ 2 ^ 32) (hsrc : src.toNat + n.toNat ≤ 2 ^ 32) :
    memmove mem dest src n
      = (applyStores mem
          (storesFrom dest.toNat ((List.range n.toNat).map fun i => mem (src.toNat + i))),
        decide (src < dest)) := by
  rw [memmove, applyStores_storesFrom]
  by_cases hplace : src ≥ dest
  · rw [if_pos hplace, movsb_up hplace hdest hsrc, decide_eq_false (UInt32.not_lt.mpr hplace)]
  · have hless : src < dest := UInt32.not_le.mp hplace
    rw [if_neg hplace, movsb_down (UInt32.lt_iff_toNat_lt.mp hless) hdest, decide_eq_true hless]

/-- Five bytes, moved two bytes up onto themselves. -/
theorem memmove_eq_five :
    memmove Nat.toUInt8 12 10 5
      = (applyStores Nat.toUInt8 (storesFrom 12 [10, 11, 12, 13, 14]), true) :=
  memmove_eq Nat.toUInt8 12 10 5 (by decide) (by decide)

end CustomLinuxOs
