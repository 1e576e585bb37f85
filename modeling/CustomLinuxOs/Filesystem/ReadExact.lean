import CustomLinuxOs.Foundations.Memory
import CustomLinuxOs.Filesystem.FileOperations

/-!
What `read_data` leaves in memory and returns, for every offset and every 32-bit length.

* `InodeCopy`: the copy of the inode on the kernel stack, from which each pass of the loop loads a
  block number before it looks whether there is such a block.
* `readInto`: `read_data` with the memory that `buf` points to and the counter it returns, or a page
  fault.  `readInto_eq` ties it to the list of bytes of `readData`, for offsets whose block number
  is mapped; `readInto_far` is the fault for all others.
* `ReadsExactly`: the bytes of the file from the offset on, as many as are asked for and there,
  and nothing else.
* `ReadCondition`, `readsExactly_iff`: when that is so.  The last block of a file of whole blocks
  is never read, a length close to `2 ^ 32` makes the test in the last block overflow, and an offset
  far behind the end of the file is a page fault.

The buffer lies outside of the image.
-/

namespace CustomLinuxOs

/-! ### `read_data` in memory -/

/-- Memory, `buf` and `num_bytes_read` in the loop of `read_data`. -/
structure ReadState where
  mem : ℕ → UInt8
  buf : ℕ
  numBytesRead : UInt32

/-- `memcpy` of `n` bytes at `offset` of a block to `buf`, which are counted. -/
def ReadState.copy (fs : Fs) (block : ℕ) (offset n : UInt32) (s : ReadState) : ReadState :=
  { s with
    mem := fun a =>
      if s.buf ≤ a ∧ a < s.buf + n.toNat then fs.data block (offset.toNat + (a - s.buf))
      else s.mem a
    numBytesRead := s.numBytesRead + n }

/-- Where the copy of the inode lies on the kernel stack: `reach` words from `data_blocks` on are
in the page of the kernel, which ends at 8 MB.  The copy is aligned to 4 KB, and there is more of
the stack behind it.  The pages that follow are not mapped. -/
structure InodeCopy where
  reach : ℕ
  room : NUM_DATA_BLOCK_ADDR < reach

/-- The loop of `read_data`, as in `readDataLoop`, with the block number that each pass loads
first. -/
def readIntoLoop (c : InodeCopy) (fs : Fs) (node : Inode) (lastMax : UInt32) (numBlocks : ℕ) :
    ℕ → ℕ → UInt32 → UInt32 → ReadState → Option ReadState
  | 0, _, _, _, _ => none
  | k + 1, blockNum, offset, length, s =>
      -- `inode_block.data_blocks[block_num]`
      if c.reach ≤ blockNum then none
      else
        let block := (node.dataBlocks blockNum).toNat
        if blockNum ≥ numBlocks ∨ (blockNum + 1 = numBlocks ∧ offset ≥ lastMax) then some s
        else if blockNum + 1 = numBlocks ∧ offset + length ≥ lastMax then
          some (s.copy fs block offset (lastMax - offset))
        else if length < 4096 - offset then some (s.copy fs block offset length)
        else
          let t := s.copy fs block offset (4096 - offset)
          readIntoLoop c fs node lastMax numBlocks k (blockNum + 1) 0 (length - (4096 - offset))
            { t with buf := t.buf + (4096 - offset).toNat }

/-- `read_data`: what it returns, and memory after it; or a page fault. -/
def readInto (c : InodeCopy) (fs : Fs) (inode : ℕ) (mem : ℕ → UInt8) (buf : ℕ)
    (offset length : UInt32) : Option (Int32 × (ℕ → UInt8)) :=
  let node := fs.inodes inode
  let numBlocks := numBlocks node.length.toNat
  (readIntoLoop c fs node (node.length % 4096) numBlocks (numBlocks + 1)
    (offset.toNat / BLOCK_SIZE) (offset % 4096) length ⟨mem, buf, 0⟩).map fun s =>
      (s.numBytesRead.toInt32, s.mem)

/-- One `memcpy` of the loop, as bytes written from `buf` on. -/
lemma ReadState.copy_eq (fs : Fs) (block : ℕ) (offset n : UInt32) (s : ReadState) :
    let bytes := (List.range n.toNat).map fun i => fs.data block (offset.toNat + i)
    s.copy fs block offset n
      = ⟨copyTo s.mem s.buf bytes, s.buf, s.numBytesRead + bytes.length.toUInt32⟩ := by
  intro bytes
  have hlen : bytes.length = n.toNat := by simp [bytes]
  have hmem : (s.copy fs block offset n).mem = copyTo s.mem s.buf bytes :=
    (copyTo_range s.mem s.buf n.toNat fun i => fs.data block (offset.toNat + i)).symm
  have hcount : bytes.length.toUInt32 = n := by
    rw [hlen]
    exact UInt32.ofNat_toNat
  rw [← hmem, hcount]
  rfl

/-- **The loop in memory** writes and counts the bytes of `readDataLoop`, if its first block number
is mapped; all others are those of blocks of the file. -/
lemma readIntoLoop_eq (c : InodeCopy) (fs : Fs) (node : Inode) (lastMax : UInt32)
    {numBlocks k b : ℕ} (offset length : UInt32) (s : ReadState)
    (hblocks : numBlocks ≤ NUM_DATA_BLOCK_ADDR) (hb : b < c.reach) (hk : 0 < k)
    (hpasses : numBlocks < b + k) :
    let bytes := readDataLoop fs node lastMax numBlocks k b offset length
    ∃ t, readIntoLoop c fs node lastMax numBlocks k b offset length s = some t
      ∧ t.mem = copyTo s.mem s.buf bytes
      ∧ t.numBytesRead = s.numBytesRead + bytes.length.toUInt32 := by
  induction k generalizing b offset length s with
  | zero => exact absurd hk (lt_irrefl 0)
  | succ k ih =>
      simp only [readIntoLoop, readDataLoop, ReadState.copy_eq, if_neg (not_le.mpr hb)]
      by_cases hdone : b ≥ numBlocks ∨ (b + 1 = numBlocks ∧ offset ≥ lastMax)
      · simp only [if_pos hdone]
        exact ⟨s, rfl, (copyTo_nil _ _).symm, (UInt32.add_zero _).symm⟩
      · simp only [if_neg hdone]
        by_cases hlast : b + 1 = numBlocks ∧ offset + length ≥ lastMax
        · simp only [if_pos hlast]
          exact ⟨_, rfl, rfl, rfl⟩
        · simp only [if_neg hlast]
          by_cases hfill : length < 4096 - offset
          · simp only [if_pos hfill]
            exact ⟨_, rfl, rfl, rfl⟩
          · simp only [if_neg hfill]
            set bytes := (List.range (4096 - offset).toNat).map fun i =>
              fs.data (node.dataBlocks b).toNat (offset.toNat + i) with hbytes
            have hlen : (4096 - offset).toNat = bytes.length := by simp [bytes]
            set s' : ReadState := ⟨copyTo s.mem s.buf bytes, s.buf + (4096 - offset).toNat,
              s.numBytesRead + bytes.length.toUInt32⟩ with hs'
            have hnext : b + 1 ≤ numBlocks := by
              have := not_le.mp fun h => hdone (Or.inl h)
              omega
            obtain ⟨t, ht, hmem, hcount⟩ := ih 0 (length - (4096 - offset)) s'
              ((hnext.trans hblocks).trans_lt c.room) (by omega) (by omega)
            refine ⟨t, ht, ?_, ?_⟩
            · rw [hmem, ← copyTo_append, hs', hlen]
            · rw [hcount, List.length_append, hs', UInt32.add_assoc]
              exact congrArg _ (UInt32.ofNat_add _ _).symm

/-- The blocks of a file that an inode has numbers for. -/
lemma numBlocks_le {n : ℕ} (h : n ≤ NUM_DATA_BLOCK_ADDR * BLOCK_SIZE) :
    numBlocks n ≤ NUM_DATA_BLOCK_ADDR := by
  rw [NUM_DATA_BLOCK_ADDR, BLOCK_SIZE] at *
  rw [numBlocks, BLOCK_SIZE]
  split <;> omega

/-- `read_data` writes the bytes of `readData` from `buf` on and returns their number, if the block
number of the offset is mapped. -/
theorem readInto_eq (c : InodeCopy) (fs : Fs) (inode : ℕ) (mem : ℕ → UInt8) (buf : ℕ)
    (offset length : UInt32)
    (hL : (fs.inodes inode).length.toNat ≤ NUM_DATA_BLOCK_ADDR * BLOCK_SIZE)
    (hreach : offset.toNat / BLOCK_SIZE < c.reach) :
    readInto c fs inode mem buf offset length
      = some ((readData fs inode offset length).length.toUInt32.toInt32,
        copyTo mem buf (readData fs inode offset length)) := by
  obtain ⟨t, ht, hmem, hcount⟩ := readIntoLoop_eq c fs (fs.inodes inode)
    ((fs.inodes inode).length % 4096) (offset % 4096) length ⟨mem, buf, 0⟩
    (numBlocks_le hL) hreach (Nat.succ_pos _) ((Nat.lt_succ_self _).trans_le (Nat.le_add_left _ _))
  rw [UInt32.zero_add] at hcount
  rw [readInto, ht, Option.map_some, hcount, hmem]
  rfl

/-- Behind the page of the kernel the load is a page fault. -/
lemma readInto_far (c : InodeCopy) (fs : Fs) (inode : ℕ) (mem : ℕ → UInt8) (buf : ℕ)
    (offset length : UInt32) (hfar : c.reach ≤ offset.toNat / BLOCK_SIZE) :
    readInto c fs inode mem buf offset length = none := by
  rw [readInto, readIntoLoop, if_pos hfar, Option.map_none]

/-! ### When `read_data` is exact -/

section Exact

variable (c : InodeCopy) (fs : Fs) (inode : ℕ) (mem : ℕ → UInt8) (buf : ℕ)
  (offset length : UInt32)

/-- `read_data` returns how many of the `length` bytes from `offset` on the file has, copies
these to `buf`, and writes nothing else. -/
def ReadsExactly : Prop :=
  let node := fs.inodes inode
  let n := min length.toNat (node.length.toNat - offset.toNat)
  ∃ r, readInto c fs inode mem buf offset length = some r ∧ r.1.toInt = n
    ∧ r.2 = fun a =>
      if buf ≤ a ∧ a < buf + n then fs.fileByte node (offset.toNat + (a - buf)) else mem a

/-- What the length `L` of a file, an offset and a length must be for `read_data` to be exact.
In a file of whole blocks the last block is out of reach.  In another one, the test in the last
block must not overflow. -/
def ReadCondition (L offset length : ℕ) : Prop :=
  if L % BLOCK_SIZE = 0 then length = 0 ∨ offset + length ≤ L - BLOCK_SIZE ∨ L ≤ offset
  else ¬(L - L % BLOCK_SIZE ≤ offset ∧ offset < L ∧ 2 ^ 32 ≤ offset % BLOCK_SIZE + length)

instance (L offset length : ℕ) : Decidable (ReadCondition L offset length) :=
  inferInstanceAs (Decidable (ite _ _ _))

/-- The sum of the offset in the last block and the length overflows. -/
def SumOverflows (L offset length : ℕ) : Prop :=
  offset / BLOCK_SIZE + 1 = numBlocks L ∧ offset % BLOCK_SIZE < L % BLOCK_SIZE
    ∧ 2 ^ 32 ≤ offset % BLOCK_SIZE + length

/-- An overflow in terms of the length of the file: the offset is in a last block that is not
full. -/
lemma sumOverflows_iff (L o n : ℕ) :
    SumOverflows L o n ↔ L % BLOCK_SIZE ≠ 0 ∧ L - L % BLOCK_SIZE ≤ o ∧ o < L
      ∧ 2 ^ 32 ≤ o % BLOCK_SIZE + n := by
  rw [SumOverflows, ← and_assoc, ← and_assoc, ← and_assoc]
  refine and_congr_left fun _ => ?_
  rw [numBlocks, BLOCK_SIZE]
  by_cases h : L % 4096 = 0
  · omega
  · rw [if_neg h]
    omega

/-- Without overflow, the end that `read_data` takes the file to have decides. -/
lemma readCondition_iff {L o n : ℕ} (h : ¬SumOverflows L o n) :
    min n (readableEnd L - o) = min n (L - o) ↔ ReadCondition L o n := by
  rw [sumOverflows_iff] at h
  rw [ReadCondition, readableEnd]
  by_cases hmod : L % BLOCK_SIZE = 0
  · have hle : L = 0 ∨ BLOCK_SIZE ≤ L := by
      rw [BLOCK_SIZE] at *
      omega
    have hpos : 0 < BLOCK_SIZE := by decide
    rw [if_pos hmod, if_pos hmod]
    omega
  · rw [if_neg hmod, if_neg hmod]
    exact iff_of_true rfl fun hover => h ⟨hmod, hover⟩

lemma toInt32_toInt {n : ℕ} (h : n < 2 ^ 31) : n.toUInt32.toInt32.toInt = n := by
  have hn : n.toUInt32.toNat = n := Nat.mod_eq_of_lt (by omega)
  have hbits : n.toUInt32.toInt32.toInt = n.toUInt32.toBitVec.toInt := rfl
  rw [hbits, BitVec.toInt_eq_toNat_of_lt (by rw [UInt32.toNat_toBitVec, hn]; omega),
    UInt32.toNat_toBitVec, hn]

/-- A stretch of the file is the right one if its length is. -/
lemma readsExactly_iff_length {m : ℕ} (hm : m < 2 ^ 31)
    (hL : (fs.inodes inode).length.toNat ≤ NUM_DATA_BLOCK_ADDR * BLOCK_SIZE)
    (hreach : offset.toNat / BLOCK_SIZE < c.reach)
    (h : readData fs inode offset length = fs.fileSlice (fs.inodes inode) offset.toNat m) :
    ReadsExactly c fs inode mem buf offset length
      ↔ m = min length.toNat ((fs.inodes inode).length.toNat - offset.toNat) := by
  rw [ReadsExactly, readInto_eq c fs inode mem buf offset length hL hreach, h,
    Fs.fileSlice_length]
  constructor
  · rintro ⟨r, hr, hcount, -⟩
    rw [← Option.some.inj hr, toInt32_toInt hm] at hcount
    exact Int.ofNat.inj hcount
  · intro hm'
    refine ⟨_, rfl, (toInt32_toInt hm).trans (congrArg Nat.cast hm'), ?_⟩
    rw [hm']
    exact copyTo_range mem buf _ _

/-- In the last block the sum of offset and length overflows: the whole rest of the block is
read, beyond the end of the file. -/
lemma readData_of_overflow
    (h : SumOverflows (fs.inodes inode).length.toNat offset.toNat length.toNat) :
    readData fs inode offset length
      = fs.fileSlice (fs.inodes inode) offset.toNat (BLOCK_SIZE - offset.toNat % BLOCK_SIZE) := by
  obtain ⟨hb, ho, hsum⟩ := h
  rw [readData]
  generalize fs.inodes inode = node at hb ho ⊢
  generalize hL : node.length.toNat = L at hb ho ⊢
  have hsize : BLOCK_SIZE = 4096 := rfl
  have hmod : L % BLOCK_SIZE < BLOCK_SIZE := Nat.mod_lt _ (by decide)
  have hlen := UInt32.toNat_lt length
  have hoff : (offset % 4096).toNat = offset.toNat % BLOCK_SIZE := UInt32.toNat_mod _ _
  have hlast : (node.length % 4096).toNat = L % BLOCK_SIZE := by
    rw [UInt32.toNat_mod, hL]
    rfl
  have hroom : (4096 - offset % 4096).toNat = BLOCK_SIZE - offset.toNat % BLOCK_SIZE := by
    rw [UInt32.toNat_sub_of_le _ _ (UInt32.le_iff_toNat_le.mpr (by rw [hoff]; exact
      (ho.trans hmod).le)), hoff]
    rfl
  have hwrap : (offset % 4096 + length).toNat
      = offset.toNat % BLOCK_SIZE + length.toNat - 2 ^ 32 := by
    rw [UInt32.toNat_add, hoff]
    omega
  -- past the only pass the count of blocks ends the loop
  have hdone : ∀ k offset' length',
      readDataLoop fs node (node.length % 4096) (numBlocks L) k (offset.toNat / BLOCK_SIZE + 1)
        offset' length' = [] := by
    intro k offset' length'
    cases k with
    | zero => rfl
    | succ k => rw [readDataLoop]; exact if_pos (Or.inl hb.ge)
  have hslice := block_eq_fileSlice fs node (b := offset.toNat / BLOCK_SIZE)
    (o := offset.toNat % BLOCK_SIZE) (n := BLOCK_SIZE - offset.toNat % BLOCK_SIZE) (by omega)
  rw [Nat.div_add_mod] at hslice
  rw [readDataLoop, hdone, List.append_nil]
  simp only [ge_iff_le, UInt32.le_iff_toNat_le, UInt32.lt_iff_toNat_lt, hoff, hlast, hwrap, hroom]
  rw [if_neg (by omega), if_neg (by omega), if_neg (by omega)]
  exact hslice

/-- **`read_data` is exact** on the condition and on no other inputs, for the offsets whose block
number is mapped; for no other ones it comes back. -/
theorem readsExactly_iff
    (hL : (fs.inodes inode).length.toNat ≤ NUM_DATA_BLOCK_ADDR * BLOCK_SIZE) :
    ReadsExactly c fs inode mem buf offset length
      ↔ ReadCondition (fs.inodes inode).length.toNat offset.toNat length.toNat
        ∧ offset.toNat / BLOCK_SIZE < c.reach := by
  have hmax : NUM_DATA_BLOCK_ADDR * BLOCK_SIZE + BLOCK_SIZE < 2 ^ 31 := by decide
  rcases Nat.lt_or_ge (offset.toNat / BLOCK_SIZE) c.reach with hreach | hfar
  · rw [and_iff_left hreach]
    by_cases hover : SumOverflows (fs.inodes inode).length.toNat offset.toNat length.toNat
    · rw [readsExactly_iff_length c fs inode mem buf offset length (by omega) hL hreach
        (readData_of_overflow fs inode offset length hover)]
      obtain ⟨hmod, hlo, hhi, hsum⟩ := (sumOverflows_iff _ _ _).mp hover
      refine iff_of_false ?_ ?_
      · rw [BLOCK_SIZE] at *
        omega
      · rw [ReadCondition, if_neg hmod, not_not]
        exact ⟨hlo, hhi, hsum⟩
    · have hread := readData_eq_of_fit fs inode offset length fun hb ho => by
        by_contra hsum
        exact hover ⟨hb, ho, by omega⟩
      have hend := readableEnd_le (fs.inodes inode).length.toNat
      rw [readsExactly_iff_length c fs inode mem buf offset length (by omega) hL hreach hread]
      exact readCondition_iff hover
  · refine iff_of_false ?_ fun h => absurd h.2 (not_lt.mpr hfar)
    rintro ⟨r, hr, -⟩
    rw [readInto_far c fs inode mem buf offset length hfar] at hr
    cases hr

end Exact

/-- A copy 8 KB before the end of the page. -/
def stackCopy : InodeCopy := ⟨2047, by decide⟩

/-- The end of a file of five bytes, and more, in one of several blocks. -/
theorem readsExactly_iff_oneFile :
    ReadsExactly stackCopy (oneFile 5000) 1 (fun _ => 0) 0 4090 2000
      ↔ ReadCondition 5000 4090 2000 ∧ 0 < 2047 :=
  readsExactly_iff stackCopy (oneFile 5000) 1 (fun _ => 0) 0 4090 2000 (by decide)

/-- A file of one whole block reads as empty: `read_data` returns `0` for its first byte.  And one
that starts 8 MB behind the start of a file ends the kernel. -/
theorem not_readsExactly_wholeBlock :
    ¬ReadsExactly stackCopy (oneFile 4096) 1 (fun _ => 0) 0 0 1
      ∧ ¬ReadsExactly stackCopy (oneFile 5) 1 (fun _ => 0) 0 0x800000 1 := by
  constructor
  · rintro ⟨r, hr, hret, -⟩
    have hzero : (readInto stackCopy (oneFile 4096) 1 (fun _ => 0) 0 0 1).map (fun r => r.1.toInt)
        = some 0 := by decide
    rw [hr, Option.map_some, hret] at hzero
    revert hzero
    decide
  · rintro ⟨r, hr, -⟩
    rw [readInto_far _ _ _ _ _ _ _ (by decide)] at hr
    cases hr

end CustomLinuxOs
