import CustomLinuxOs.Foundations.BlockLoop
import CustomLinuxOs.Foundations.Memory

/-!
`memcpy` and `memset` of `lib.c`, which work in dwords as soon as the destination is aligned.

* `StringRegs`, `storel`: the registers of the string instructions, and a dword stored.
* `memcpy`, `memset`: the three loops of the assembly.
* `Written`: the first bytes are in their places, and nothing else has changed.
* `Written.byteStep`, `Written.dwordStep`: both kinds of step, for the copy and for the fill.
* `memcpy_memset_eq`: they do what the loops over single bytes do.
-/

namespace CustomLinuxOs

/-! ### The code -/

/-- The pointers of the string instructions, and memory. -/
structure StringRegs where
  edi : UInt32
  esi : UInt32
  mem : ℕ → UInt8

/-- A dword stored at `a`, its lowest byte first. -/
def storel (mem : ℕ → UInt8) (a : UInt32) (byte : ℕ → UInt8) : ℕ → UInt8 :=
  applyStores mem ((List.range 4).map fun i => ((a + UInt32.ofNat i).toNat, byte i))

/-- `testl $0x3, %edi`. -/
def Aligned (s : StringRegs) : Prop := s.edi &&& 3 = 0

instance : DecidablePred Aligned := fun s => inferInstanceAs (Decidable (s.edi &&& 3 = 0))

/-- The body of the byte loops of `memcpy`: `movb` through `al`, and both pointers go on. -/
def copyByte (s : StringRegs) : StringRegs :=
  ⟨s.edi + 1, s.esi + 1, Function.update s.mem s.edi.toNat (s.mem s.esi.toNat)⟩

/-- `movsl`: the dword is read before it is stored. -/
def movsl (s : StringRegs) : StringRegs :=
  ⟨s.edi + 4, s.esi + 4, storel s.mem s.edi fun i => s.mem (s.esi + UInt32.ofNat i).toNat⟩

/-- `memcpy`: memory after it.  What is left in `ecx` behind `.memcpy_top` goes into `shrl $2` for
`rep movsl`, and into `andl $0x3` for `.memcpy_bottom`; both are zero if it jumps to
`.memcpy_done` at once. -/
def memcpy (mem : ℕ → UInt8) (dest src n : UInt32) : ℕ → UInt8 :=
  (blockLoop 4 Aligned copyByte movsl n.toNat ⟨dest, src, mem⟩).mem

/-- The body of the byte loops of `memset`. -/
def fillByte (eax : UInt32) (s : StringRegs) : StringRegs :=
  ⟨s.edi + 1, s.esi, Function.update s.mem s.edi.toNat eax.toUInt8⟩

/-- `stosl`. -/
def stosl (eax : UInt32) (s : StringRegs) : StringRegs :=
  ⟨s.edi + 4, s.esi, storel s.mem s.edi fun i => (eax >>> UInt32.ofNat (8 * i)).toUInt8⟩

/-- What `memset` puts into `eax`. -/
def fillWord (c : Int32) : UInt32 :=
  let c := c &&& 0xFF
  (c <<< 24 ||| c <<< 16 ||| c <<< 8 ||| c).toUInt32

/-- `memset`: memory after it.  The loops are those of `memcpy`; `esi` is not used. -/
def memset (mem : ℕ → UInt8) (s : UInt32) (c : Int32) (n : UInt32) : ℕ → UInt8 :=
  (blockLoop 4 Aligned (fillByte (fillWord c)) (stosl (fillWord c)) n.toNat ⟨s, 0, mem⟩).mem

/-! ### Bytes and dwords -/

lemma toNat_add_ofNat {a : UInt32} {k : ℕ} (h : a.toNat + k < 2 ^ 32) :
    (a + UInt32.ofNat k).toNat = a.toNat + k := by
  rw [UInt32.toNat_add, UInt32.toNat_ofNat_of_lt' (by rw [UInt32.size]; omega)]
  exact Nat.mod_eq_of_lt h

/-- A dword that does not wrap around is four bytes. -/
lemma storel_eq (mem : ℕ → UInt8) {a : UInt32} (byte : ℕ → UInt8) (h : a.toNat + 4 ≤ 2 ^ 32) :
    storel mem a byte = copyTo mem a.toNat ((List.range 4).map byte) := by
  have hstores : ((List.range 4).map fun i => ((a + UInt32.ofNat i).toNat, byte i))
      = storesFrom a.toNat ((List.range 4).map byte) := by
    calc ((List.range 4).map fun i => ((a + UInt32.ofNat i).toNat, byte i))
        = (List.range 4).map fun i => (a.toNat + i, byte i) := by
          refine List.map_congr_left fun i hi => ?_
          rw [toNat_add_ofNat (by have := List.mem_range.mp hi; omega)]
      _ = storesFrom a.toNat ((List.range 4).map byte) := rfl
  rw [storel, hstores, applyStores_storesFrom]

/-- Every byte of the word is the low byte. -/
lemma fillWord_byte (c : Int32) {i : ℕ} (hi : i < 4) :
    (fillWord c >>> UInt32.ofNat (8 * i)).toUInt8 = c.toUInt32.toUInt8 := by
  apply UInt8.toBitVec_inj.mp
  apply BitVec.eq_of_getElem_eq
  intro j hj
  interval_cases i <;> interval_cases j <;> simp [fillWord]

/-! ### What both kinds of step keep up -/

/-- The first `k` of the bytes `byte` are stored from `dest` on. -/
structure Written (mem : ℕ → UInt8) (dest : UInt32) (byte : ℕ → UInt8) (k : ℕ) (s : StringRegs) :
    Prop where
  edi : s.edi = dest + UInt32.ofNat k
  mem : s.mem = copyTo mem dest.toNat ((List.range k).map byte)

section Steps

variable {mem : ℕ → UInt8} {dest : UInt32} {byte : ℕ → UInt8} {k : ℕ} {s s' : StringRegs}

lemma Written.zero (s : StringRegs) (byte : ℕ → UInt8) : Written s.mem s.edi byte 0 s :=
  ⟨(UInt32.add_zero s.edi).symm, (copyTo_nil s.mem s.edi.toNat).symm⟩

lemma Written.step (h : Written mem dest byte k s) {m : ℕ} (hlt : dest.toNat + k < 2 ^ 32)
    (hedi : s'.edi = s.edi + UInt32.ofNat m)
    (hmem : s'.mem = copyTo s.mem s.edi.toNat ((List.range m).map fun i => byte (k + i))) :
    Written mem dest byte (k + m) s' := by
  refine ⟨?_, ?_⟩
  · rw [hedi, h.edi, UInt32.ofNat_add, UInt32.add_assoc]
  · rw [hmem, h.mem, h.edi, toNat_add_ofNat hlt, copyTo_range_add]

/-- **A byte step**: it stores the next byte. -/
lemma Written.byteStep (h : Written mem dest byte k s) (hlt : dest.toNat + k < 2 ^ 32)
    (hedi : s'.edi = s.edi + 1)
    (hmem : s'.mem = Function.update s.mem s.edi.toNat (byte k)) :
    Written mem dest byte (k + 1) s' :=
  h.step hlt hedi (hmem.trans (copyTo_singleton _ _ _).symm)

/-- **A dword step**: it stores the next four bytes. -/
lemma Written.dwordStep (h : Written mem dest byte k s) (s' : StringRegs)
    (hlt : dest.toNat + (k + 4) ≤ 2 ^ 32) (hedi : s'.edi = s.edi + 4) {dword : ℕ → UInt8}
    (hmem : s'.mem = storel s.mem s.edi dword) (hdword : ∀ i < 4, dword i = byte (k + i)) :
    Written mem dest byte (k + 4) s' := by
  have hspace : s.edi.toNat + 4 ≤ 2 ^ 32 := by
    rw [h.edi, toNat_add_ofNat (by omega)]
    omega
  refine h.step (by omega) hedi ?_
  rw [hmem, storel_eq _ _ hspace]
  exact congrArg _ (List.map_congr_left fun i hi => hdword i (List.mem_range.mp hi))

end Steps

/-! ### Copying -/

/-- The copy: both pointers are `k` bytes further, and the bytes are those that the source had at
first. -/
structure Copied (mem : ℕ → UInt8) (dest src : UInt32) (k : ℕ) (s : StringRegs) : Prop where
  written : Written mem dest (fun i => mem (src.toNat + i)) k s
  esi : s.esi = src + UInt32.ofNat k

section Copy

variable {mem : ℕ → UInt8} {dest src n : UInt32} {k : ℕ} {s : StringRegs}
  (hplace : dest.toNat + n.toNat ≤ src.toNat ∨ src.toNat + n.toNat ≤ dest.toNat ∨ dest ≤ src)
  (hdest : dest.toNat + n.toNat ≤ 2 ^ 32) (hsrc : src.toNat + n.toNat ≤ 2 ^ 32)

include hplace hsrc

/-- The bytes that have not been copied yet are as they were: what has been written lies before
them, or apart from the source. -/
lemma Copied.unread (h : Copied mem dest src k s) {i : ℕ} (hi : k + i < n.toNat) :
    s.mem (s.esi + UInt32.ofNat i).toNat = mem (src.toNat + (k + i)) := by
  have hesi : (s.esi + UInt32.ofNat i).toNat = src.toNat + (k + i) := by
    rw [h.esi, UInt32.add_assoc, ← UInt32.ofNat_add, toNat_add_ofNat (by omega)]
  rw [hesi, h.written.mem, copyTo, if_neg]
  rw [List.length_map, List.length_range]
  rw [UInt32.le_iff_toNat_le] at hplace
  omega

include hdest

lemma Copied.copyByte (h : Copied mem dest src k s) (hk : k < n.toNat) :
    Copied mem dest src (k + 1) (copyByte s) := by
  have hread : s.mem s.esi.toNat = mem (src.toNat + k) := by
    calc s.mem s.esi.toNat = s.mem (s.esi + UInt32.ofNat 0).toNat := by
          exact congrArg (fun a : UInt32 => s.mem a.toNat) (UInt32.add_zero s.esi).symm
      _ = mem (src.toNat + k) := h.unread hplace hsrc hk
  refine ⟨h.written.byteStep (by omega) rfl ?_, ?_⟩
  · exact congrArg (Function.update s.mem s.edi.toNat) hread
  · calc s.esi + 1 = src + UInt32.ofNat k + UInt32.ofNat 1 := by rw [h.esi]; rfl
      _ = src + UInt32.ofNat (k + 1) := by rw [UInt32.ofNat_add, UInt32.add_assoc]

lemma Copied.movsl (h : Copied mem dest src k s) (hk : k + 4 ≤ n.toNat) :
    Copied mem dest src (k + 4) (movsl s) := by
  refine ⟨?_, ?_⟩
  · exact h.written.dwordStep (CustomLinuxOs.movsl s) (by omega) rfl rfl fun i hi =>
      h.unread hplace hsrc (by omega)
  · calc s.esi + 4 = src + UInt32.ofNat k + UInt32.ofNat 4 := by rw [h.esi]; rfl
      _ = src + UInt32.ofNat (k + 4) := by rw [UInt32.ofNat_add, UInt32.add_assoc]

/-- **The copy.** -/
lemma memcpy_eq : memcpy mem dest src n
    = copyTo mem dest.toNat ((List.range n.toNat).map fun i => mem (src.toNat + i)) := by
  have hstart : Copied mem dest src 0 ⟨dest, src, mem⟩ :=
    ⟨Written.zero ⟨dest, src, mem⟩ _, (UInt32.add_zero src).symm⟩
  have hall := blockLoop_inv Aligned (fun k s hk h => Copied.copyByte hplace hdest hsrc h hk)
    (fun k s hk h => Copied.movsl hplace hdest hsrc h hk) hstart
  exact hall.written.mem

end Copy

/-! ### Filling -/

section Fill

variable {mem : ℕ → UInt8} {dest : UInt32} {c : Int32} {k n : ℕ} {s : StringRegs}

lemma Written.fillByte (h : Written mem dest (fun _ => c.toUInt32.toUInt8) k s)
    (hdest : dest.toNat + n ≤ 2 ^ 32) (hk : k < n) :
    Written mem dest (fun _ => c.toUInt32.toUInt8) (k + 1) (fillByte (fillWord c) s) :=
  h.byteStep (by omega) rfl
    (congrArg (Function.update s.mem s.edi.toNat) (fillWord_byte c (i := 0) (by omega)))

lemma Written.stosl (h : Written mem dest (fun _ => c.toUInt32.toUInt8) k s)
    (hdest : dest.toNat + n ≤ 2 ^ 32) (hk : k + 4 ≤ n) :
    Written mem dest (fun _ => c.toUInt32.toUInt8) (k + 4) (stosl (fillWord c) s) :=
  h.dwordStep (CustomLinuxOs.stosl (fillWord c) s) (by omega) rfl rfl fun _ hi =>
    fillWord_byte c hi

end Fill

/-- **The fill.** -/
lemma memset_eq (mem : ℕ → UInt8) {s n : UInt32} (c : Int32) (hs : s.toNat + n.toNat ≤ 2 ^ 32) :
    memset mem s c n = copyTo mem s.toNat (List.replicate n.toNat c.toUInt32.toUInt8) := by
  have hall := blockLoop_inv Aligned
    (fun k t hk h => Written.fillByte h hs hk) (fun k t hk h => Written.stosl h hs hk)
    (Written.zero ⟨s, 0, mem⟩ fun _ => c.toUInt32.toUInt8)
  rw [memset, hall.mem, List.map_const', List.length_range]

/-- **Both**, where the regions do not wrap around: `memcpy` stores the bytes that the source had
at first, if the regions are disjoint or it copies downwards, and `memset` stores the low byte
everywhere. -/
theorem memcpy_memset_eq (mem : ℕ → UInt8) (dest n : UInt32)
    (hdest : dest.toNat + n.toNat ≤ 2 ^ 32) :
    (∀ src : UInt32, src.toNat + n.toNat ≤ 2 ^ 32 →
      (dest.toNat + n.toNat ≤ src.toNat ∨ src.toNat + n.toNat ≤ dest.toNat ∨ dest ≤ src) →
        memcpy mem dest src n = applyStores mem
          (storesFrom dest.toNat ((List.range n.toNat).map fun i => mem (src.toNat + i))))
    ∧ ∀ c : Int32, memset mem dest c n = applyStores mem
        (storesFrom dest.toNat (List.replicate n.toNat c.toUInt32.toUInt8)) := by
  refine ⟨fun src hsrc hplace => ?_, fun c => ?_⟩
  · rw [memcpy_eq hplace hdest hsrc, applyStores_storesFrom]
  · rw [memset_eq mem c hdest, applyStores_storesFrom]

/-- Seven bytes, copied three bytes down onto themselves and filled: one byte, a dword, two
bytes. -/
theorem memcpy_memset_eq_seven :
    memcpy Nat.toUInt8 7 10 7
        = applyStores Nat.toUInt8 (storesFrom 7 [10, 11, 12, 13, 14, 15, 16])
      ∧ memset Nat.toUInt8 7 (-1) 7
        = applyStores Nat.toUInt8 (storesFrom 7 [255, 255, 255, 255, 255, 255, 255]) := by
  obtain ⟨hcopy, hfill⟩ := memcpy_memset_eq Nat.toUInt8 7 7 (by decide)
  exact ⟨hcopy 10 (by decide) (by decide), hfill (-1)⟩

end CustomLinuxOs
