import CustomLinuxOs.Filesystem.Image

/-!
`file_operations.c`: reading and writing the data of regular files.

* `readDataLoop`, `readData`: `read_data`, with the 32-bit arithmetic of the source.
* `readableEnd`: where `read_data` takes the end of a file to be.  The last block of a file
  whose length is a multiple of the block size counts as empty.
* `readData_eq`: `read_data` reads a stretch of the file up to there.
* `fileRead`, `fileWrite`: the operations on descriptors.
* `writeLoop_spec`, `fileWrite_eq`: the blocks `file_write` gives to a file are all the same one,
  and only the last piece of the buffer is copied to it, if the loop comes so far at all.
-/

namespace CustomLinuxOs

/-! ### Reading -/

/-- The loop of `read_data`, from `offset` in block `blockNum` on with `length` bytes to read.
`lastMax` is `LAST_BLOCK_MAX_OFFSET`.  The first argument bounds the passes; each but the last
takes a block.

The source loads the block number before it compares `blockNum`.  This is a page fault for offsets
far behind the largest file, and of no consequence for those up to `1023 * 4096`, where the position
of a descriptor stays.  The loop with the load is `readIntoLoop`, and `readInto_eq` says that it
gives these bytes wherever the load is mapped. -/
def readDataLoop (fs : Fs) (node : Inode) (lastMax : UInt32) (numBlocks : ℕ) :
    ℕ → ℕ → UInt32 → UInt32 → List UInt8
  | 0, _, _, _ => []
  | k + 1, blockNum, offset, length =>
      let copy (n : UInt32) : List UInt8 := (List.range n.toNat).map fun i =>
        fs.data (node.dataBlocks blockNum).toNat (offset.toNat + i)
      if blockNum ≥ numBlocks ∨ (blockNum + 1 = numBlocks ∧ offset ≥ lastMax) then []
      else if blockNum + 1 = numBlocks ∧ offset + length ≥ lastMax then copy (lastMax - offset)
      else if length < 4096 - offset then copy length
      else
        copy (4096 - offset)
          ++ readDataLoop fs node lastMax numBlocks k (blockNum + 1) 0 (length - (4096 - offset))

/-- `NUM_BLOCKS` of `read_data`, for a file of length `n`. -/
def numBlocks (n : ℕ) : ℕ := n / BLOCK_SIZE + if n % BLOCK_SIZE = 0 then 0 else 1

/-- `read_data`: the bytes it writes to `buf`; their number is what it returns. -/
def readData (fs : Fs) (inode : ℕ) (offset length : UInt32) : List UInt8 :=
  let node := fs.inodes inode
  let lastMax := node.length % 4096
  let numBlocks := numBlocks node.length.toNat
  readDataLoop fs node lastMax numBlocks (numBlocks + 1) (offset.toNat / BLOCK_SIZE)
    (offset % 4096) length

/-- `file_read`: the bytes it returns, and the descriptor table after it. -/
def fileRead (fs : Fs) (fds : FdTable) (fd : ℕ) (nbytes : UInt32) : List UInt8 × FdTable :=
  let bytes := readData fs (fds fd).inodeNum.toNat (fds fd).filePos nbytes
  (bytes, Function.update fds fd
    { fds fd with filePos := (fds fd).filePos + bytes.length.toUInt32 })

/-- The end of a file of length `n` for `read_data`. -/
def readableEnd (n : ℕ) : ℕ := if n % BLOCK_SIZE = 0 then n - BLOCK_SIZE else n

lemma readableEnd_le (n : ℕ) : readableEnd n ≤ n := by
  rw [readableEnd]
  split <;> omega

/-- A stretch of one block is a stretch of the file. -/
lemma block_eq_fileSlice (fs : Fs) (node : Inode) {b o n : ℕ} (h : o + n ≤ BLOCK_SIZE) :
    ((List.range n).map fun i => fs.data (node.dataBlocks b).toNat (o + i))
      = fs.fileSlice node (BLOCK_SIZE * b + o) n := by
  refine List.map_congr_left fun i hi => ?_
  have hin := List.mem_range.mp hi
  rw [BLOCK_SIZE] at h
  rw [Fs.fileByte, show (BLOCK_SIZE * b + o + i) / BLOCK_SIZE = b by rw [BLOCK_SIZE]; omega,
    show (BLOCK_SIZE * b + o + i) % BLOCK_SIZE = o + i by rw [BLOCK_SIZE]; omega]

/-- The number of blocks and the end, for whole blocks and with a rest. -/
lemma numBlocks_cases (n : ℕ) :
    (n % BLOCK_SIZE = 0 ∧ BLOCK_SIZE * numBlocks n = n ∧ readableEnd n = n - BLOCK_SIZE)
      ∨ (n % BLOCK_SIZE ≠ 0 ∧ BLOCK_SIZE * numBlocks n + n % BLOCK_SIZE = n + BLOCK_SIZE
        ∧ readableEnd n = n) := by
  rw [readableEnd, numBlocks, BLOCK_SIZE]
  by_cases h : n % 4096 = 0
  · exact Or.inl ⟨h, by rw [if_pos h]; omega, if_pos h⟩
  · exact Or.inr ⟨h, by rw [if_neg h]; omega, if_neg h⟩

lemma numBlocks_pos {n : ℕ} (h : 0 < n) : 0 < numBlocks n := by
  rw [numBlocks, BLOCK_SIZE]
  split <;> omega

/-- A block before the last one lies in the file. -/
lemma block_le_readableEnd {L b : ℕ} (hb : b + 1 < numBlocks L) :
    BLOCK_SIZE * b + BLOCK_SIZE ≤ readableEnd L := by
  have hmod : L % BLOCK_SIZE < BLOCK_SIZE := Nat.mod_lt _ (by decide)
  have hcases := numBlocks_cases L
  simp only [BLOCK_SIZE] at hmod hcases ⊢
  omega

/-- The last block ends with the rest of the file. -/
lemma readableEnd_last {L b : ℕ} (hb : b + 1 = numBlocks L) (h : L % BLOCK_SIZE ≠ 0) :
    readableEnd L = BLOCK_SIZE * b + L % BLOCK_SIZE := by
  rcases numBlocks_cases L with ⟨h0, -, -⟩ | ⟨-, hcount, hend⟩
  · exact absurd h0 h
  · rw [← hb, Nat.mul_succ] at hcount
    omega

/-- No block is left when the count is reached, or the end of the last one. -/
lemma readableEnd_le_of_done {L b o : ℕ}
    (h : numBlocks L ≤ b ∨ b + 1 = numBlocks L ∧ L % BLOCK_SIZE ≤ o) :
    readableEnd L ≤ BLOCK_SIZE * b + o := by
  have hmod : L % BLOCK_SIZE < BLOCK_SIZE := Nat.mod_lt _ (by decide)
  have hcases := numBlocks_cases L
  simp only [BLOCK_SIZE] at h hmod hcases ⊢
  omega

/-- **The loop of `read_data`** reads from its position up to the end it takes the file to
have, but not more than it is asked for. -/
lemma readDataLoop_eq (fs : Fs) (node : Inode) (k b : ℕ) (offset length lastMax : UInt32) {L : ℕ}
    (hlast : lastMax.toNat = L % BLOCK_SIZE) (hk : numBlocks L < b + k)
    (ho : offset.toNat < BLOCK_SIZE)
    (hfit : b + 1 = numBlocks L → offset.toNat < L % BLOCK_SIZE →
      offset.toNat + length.toNat < 2 ^ 32) :
    readDataLoop fs node lastMax (numBlocks L) k b offset length
      = fs.fileSlice node (BLOCK_SIZE * b + offset.toNat)
          (min length.toNat (readableEnd L - (BLOCK_SIZE * b + offset.toNat))) := by
  have hmod : L % BLOCK_SIZE < BLOCK_SIZE := Nat.mod_lt _ (by decide)
  have hsize : BLOCK_SIZE = 4096 := rfl
  induction k generalizing b offset length with
  | zero =>
      have hend := readableEnd_le_of_done (L := L) (b := b) (o := offset.toNat) (Or.inl (by omega))
      rw [readDataLoop, Nat.sub_eq_zero_of_le hend, Nat.min_zero]
      rfl
  | succ k ih =>
      have hroom : (4096 - offset).toNat = BLOCK_SIZE - offset.toNat :=
        UInt32.toNat_sub_of_le _ _ (UInt32.le_iff_toNat_le.mpr ho.le)
      simp only [readDataLoop, ge_iff_le, UInt32.le_iff_toNat_le, UInt32.lt_iff_toNat_lt,
        hroom, hlast]
      -- the four exits of the loop, in the order of the source
      by_cases hdone : numBlocks L ≤ b ∨ b + 1 = numBlocks L ∧ L % BLOCK_SIZE ≤ offset.toNat
      · rw [if_pos hdone, Nat.sub_eq_zero_of_le (readableEnd_le_of_done hdone), Nat.min_zero]
        rfl
      · have hsum : (b + 1 = numBlocks L ∧ L % BLOCK_SIZE ≤ (offset + length).toNat)
            ↔ (b + 1 = numBlocks L ∧ L % BLOCK_SIZE ≤ offset.toNat + length.toNat) := by
          refine and_congr_right fun hb => ?_
          rw [UInt32.toNat_add, Nat.mod_eq_of_lt (hfit hb (by omega))]
        rw [if_neg hdone]
        by_cases hlastBlock : b + 1 = numBlocks L
            ∧ L % BLOCK_SIZE ≤ offset.toNat + length.toNat
        · have hend := readableEnd_last hlastBlock.1 (by omega)
          have hrest : (lastMax - offset).toNat = L % BLOCK_SIZE - offset.toNat := by
            rw [UInt32.toNat_sub_of_le _ _ (UInt32.le_iff_toNat_le.mpr (by omega)), hlast]
          have hmin : min length.toNat (readableEnd L - (BLOCK_SIZE * b + offset.toNat))
              = L % BLOCK_SIZE - offset.toNat := by
            rw [hend, Nat.add_sub_add_left, Nat.min_eq_right (by omega)]
          rw [if_pos (hsum.mpr hlastBlock), hrest, hmin]
          exact block_eq_fileSlice fs node (by omega)
        · rw [if_neg (mt hsum.mp hlastBlock)]
          by_cases hfill : length.toNat < BLOCK_SIZE - offset.toNat
          · have hle : BLOCK_SIZE * b + offset.toNat + length.toNat ≤ readableEnd L := by
              rcases Nat.eq_or_lt_of_le (show b + 1 ≤ numBlocks L by omega) with hb | hb
              · have := readableEnd_last hb (by omega)
                omega
              · have := block_le_readableEnd hb
                omega
            rw [if_pos hfill, Nat.min_eq_left (by omega)]
            exact block_eq_fileSlice fs node (by omega)
          · have hleft : (length - (4096 - offset)).toNat
                = length.toNat - (BLOCK_SIZE - offset.toNat) := by
              rw [UInt32.toNat_sub_of_le _ _ (UInt32.le_iff_toNat_le.mpr (by omega)), hroom]
            have hnext : BLOCK_SIZE * (b + 1) + (0 : UInt32).toNat
                = BLOCK_SIZE * b + offset.toNat + (BLOCK_SIZE - offset.toNat) := by
              rw [UInt32.toNat_zero, Nat.mul_succ]
              omega
            have hle := block_le_readableEnd (L := L) (b := b) (by omega)
            have hmin : min length.toNat (readableEnd L - (BLOCK_SIZE * b + offset.toNat))
                = (BLOCK_SIZE - offset.toNat) + min (length.toNat - (BLOCK_SIZE - offset.toNat))
                  (readableEnd L
                    - (BLOCK_SIZE * b + offset.toNat + (BLOCK_SIZE - offset.toNat))) := by
              omega
            have hfit' : (0 : UInt32).toNat + (length - (4096 - offset)).toNat < 2 ^ 32 := by
              rw [UInt32.toNat_zero, Nat.zero_add]
              exact UInt32.toNat_lt _
            rw [if_neg hfill, ih (b + 1) 0 _ (by omega) (by rw [UInt32.toNat_zero]; omega)
              (fun _ _ => hfit'), hleft, hnext, hmin, Fs.fileSlice_add]
            exact congrArg (· ++ _) (block_eq_fileSlice fs node (by omega))

/-- **`read_data`** reads from `offset` up to the end it takes the file to have, but not more
than it is asked for, if in the last block the two do not add up to `2 ^ 32`. -/
theorem readData_eq_of_fit (fs : Fs) (inode : ℕ) (offset length : UInt32)
    (hfit : offset.toNat / BLOCK_SIZE + 1 = numBlocks (fs.inodes inode).length.toNat →
      offset.toNat % BLOCK_SIZE < (fs.inodes inode).length.toNat % BLOCK_SIZE →
      offset.toNat % BLOCK_SIZE + length.toNat < 2 ^ 32) :
    readData fs inode offset length
      = fs.fileSlice (fs.inodes inode) offset.toNat
          (min length.toNat (readableEnd (fs.inodes inode).length.toNat - offset.toNat)) := by
  have hoff : (offset % 4096).toNat = offset.toNat % BLOCK_SIZE := by
    rw [UInt32.toNat_mod]
    rfl
  have hpos : BLOCK_SIZE * (offset.toNat / BLOCK_SIZE) + (offset % 4096).toNat = offset.toNat := by
    rw [hoff, Nat.div_add_mod]
  have hlast : ((fs.inodes inode).length % 4096).toNat
      = (fs.inodes inode).length.toNat % BLOCK_SIZE := by
    rw [UInt32.toNat_mod]
    rfl
  have hlt : (offset % 4096).toNat < BLOCK_SIZE := by
    rw [hoff]
    exact Nat.mod_lt _ (by decide)
  rw [readData, readDataLoop_eq _ _ _ _ _ _ _ hlast
    ((Nat.lt_succ_self _).trans_le (Nat.le_add_left _ _)) hlt (by rwa [hoff]), hpos]

/-- `read_data` for a length that is far from `2 ^ 32`. -/
theorem readData_eq (fs : Fs) (inode : ℕ) (offset length : UInt32)
    (hlen : length.toNat + BLOCK_SIZE ≤ 2 ^ 32) :
    readData fs inode offset length
      = fs.fileSlice (fs.inodes inode) offset.toNat
          (min length.toNat (readableEnd (fs.inodes inode).length.toNat - offset.toNat)) := by
  refine readData_eq_of_fit fs inode offset length fun _ _ => ?_
  have hmod : offset.toNat % BLOCK_SIZE < BLOCK_SIZE := Nat.mod_lt _ (by decide)
  omega

/-! ### Writing -/

/-- Clearing the bitmap entries of the first `count` blocks of an inode. -/
def releaseBlocks (node : Inode) (count : ℕ) (bitmap : ℕ → UInt8) : ℕ → UInt8 :=
  (List.range count).foldl (fun b i => Function.update b (node.dataBlocks i).toNat 0) bitmap

/-- The search of `file_write` for a block that is not in use. -/
def freeBlock (bitmap : ℕ → UInt8) : ℕ :=
  ((List.range' 15 (NUM_DATA_BLOCK_ADDR - 15)).find? fun j => bitmap j = 0).getD
    NUM_DATA_BLOCK_ADDR

/-- Changing one inode. -/
def Fs.modifyInode (fs : Fs) (ino : ℕ) (f : Inode → Inode) : Fs :=
  { fs with inodes := Function.update fs.inodes ino (f (fs.inodes ino)) }

/-- `memcpy` of the first `n` bytes of `buf` to the start of a data block. -/
def Fs.copyToBlock (fs : Fs) (block : ℕ) (buf : List UInt8) (n : ℕ) : Fs :=
  { fs with
    data := Function.update fs.data block fun o =>
      if o < n then buf.getD o 0 else fs.data block o }

/-- The second loop of `file_write`, from block `i` of the file on with `remaining` bytes to go
and at most so many passes. -/
def writeLoop (ino : ℕ) : ℕ → ℕ → List UInt8 → UInt32 → Fs → Fs
  | 0, _, _, _, fs => fs
  | k + 1, i, buf, remaining, fs =>
      let j := freeBlock fs.dataBlockBitmap
      let fs := fs.modifyInode ino fun node =>
        { node with dataBlocks := Function.update node.dataBlocks i j.toUInt32 }
      if remaining ≤ 4096 then
        fs.copyToBlock ((fs.inodes ino).dataBlocks i).toNat buf remaining.toNat
      else writeLoop ino k (i + 1) (buf.drop BLOCK_SIZE) (remaining - 4096) fs

/-- `data_block_count` of `file_write`: it is set only for a file that is not empty, and otherwise
has the value `stale` that lies on the stack. -/
def dataBlockCount (node : Inode) (stale : UInt32) : UInt32 :=
  if node.length ≠ 0 then node.length / 4096 + 1 else stale

/-- The bitmap after the first part of `file_write`. -/
def bitmapReleased (fs : Fs) (node : Inode) : ℕ → UInt8 :=
  if node.length ≠ 0 then releaseBlocks node (node.length / 4096 + 1).toNat fs.dataBlockBitmap
  else fs.dataBlockBitmap

/-- `file_write`, with the value it returns. -/
def fileWrite (fs : Fs) (fds : FdTable) (fd : ℕ) (buf : List UInt8) (nbytes : UInt32)
    (stale : UInt32) : ℤ × Fs :=
  let ino := (fds fd).inodeNum.toNat
  let node := fs.inodes ino
  let fs := { fs with dataBlockBitmap := bitmapReleased fs node }
  let fs := fs.modifyInode ino fun node => { node with length := nbytes }
  (0, writeLoop ino (dataBlockCount node stale).toNat 0 buf nbytes fs)

lemma freeBlock_le (bitmap : ℕ → UInt8) : freeBlock bitmap ≤ NUM_DATA_BLOCK_ADDR := by
  rw [freeBlock]
  cases h : (List.range' 15 (NUM_DATA_BLOCK_ADDR - 15)).find? fun j => bitmap j = 0 with
  | none => exact le_rfl
  | some j =>
      have hj := List.mem_range'_1.mp (List.mem_of_find?_eq_some h)
      rw [NUM_DATA_BLOCK_ADDR] at *
      simp only [Option.getD_some]
      omega

/-- The block that is found, if one is, is not in use. -/
lemma bitmap_freeBlock {bitmap : ℕ → UInt8} (h : freeBlock bitmap < NUM_DATA_BLOCK_ADDR) :
    bitmap (freeBlock bitmap) = 0 := by
  rw [freeBlock] at h ⊢
  cases hj : (List.range' 15 (NUM_DATA_BLOCK_ADDR - 15)).find? fun j => bitmap j = 0 with
  | none =>
      rw [hj] at h
      exact absurd h (lt_irrefl _)
  | some j =>
      have hzero := List.find?_some hj
      exact of_decide_eq_true hzero

lemma freeBlock_toUInt32 (bitmap : ℕ → UInt8) :
    (freeBlock bitmap).toUInt32.toNat = freeBlock bitmap := by
  have hle := freeBlock_le bitmap
  rw [NUM_DATA_BLOCK_ADDR] at hle
  exact Nat.mod_eq_of_lt (by omega)

/-- The passes the second loop of `file_write` takes for `n` bytes if it is let. -/
def passesFor (n : ℕ) : ℕ := (n - 1) / BLOCK_SIZE + 1

lemma passesFor_of_gt {n : ℕ} (h : BLOCK_SIZE < n) :
    passesFor n = passesFor (n - BLOCK_SIZE) + 1 := by
  rw [passesFor, passesFor, BLOCK_SIZE] at *
  omega

/-- Giving the number `x` to the block `i`, and then to the `n` blocks after it. -/
lemma update_blocks (blocks : ℕ → UInt32) (i n : ℕ) (x : UInt32) :
    (fun b => if i + 1 ≤ b ∧ b < i + 1 + n then x else Function.update blocks i x b)
      = fun b => if i ≤ b ∧ b < i + (n + 1) then x else blocks b := by
  funext b
  rcases eq_or_ne b i with rfl | hb
  · rw [if_neg (by omega), if_pos (by omega), Function.update_self]
  · rw [Function.update_of_ne hb]
    exact if_congr (by omega) rfl rfl

/-- **The second loop of `file_write`**: its passes all find the same free block `j`, and only
the one that completes the file copies anything to it. -/
theorem writeLoop_spec (ino k i : ℕ) (buf : List UInt8) (remaining : UInt32) (fs : Fs) :
    let j := freeBlock fs.dataBlockBitmap
    let p := passesFor remaining.toNat
    writeLoop ino k i buf remaining fs =
      { fs with
        inodes := Function.update fs.inodes ino
          { fs.inodes ino with
            dataBlocks := fun b =>
              if i ≤ b ∧ b < i + min k p then j.toUInt32 else (fs.inodes ino).dataBlocks b }
        data :=
          if p ≤ k then
            Function.update fs.data j fun o =>
              if o < remaining.toNat - BLOCK_SIZE * (p - 1) then
                buf.getD (BLOCK_SIZE * (p - 1) + o) 0
              else fs.data j o
          else fs.data } := by
  intro j p
  induction k generalizing i buf remaining fs with
  | zero =>
      have hsame : (fun b => if i ≤ b ∧ b < i + min 0 p then j.toUInt32
          else (fs.inodes ino).dataBlocks b) = (fs.inodes ino).dataBlocks := by
        funext b
        rw [if_neg (by omega)]
      have hp : ¬ p ≤ 0 := Nat.not_succ_le_zero _
      rw [hsame, if_neg hp]
      exact congrArg (fun inodes => ({ fs with inodes := inodes } : Fs))
        (Function.update_eq_self ino fs.inodes).symm
  | succ k ih =>
      have hj : (j.toUInt32).toNat = j := freeBlock_toUInt32 _
      by_cases hlast : remaining ≤ 4096
      · have hn : remaining.toNat ≤ 4096 := UInt32.le_iff_toNat_le.mp hlast
        have hp : p = 1 := by
          simp only [p, passesFor, BLOCK_SIZE]
          omega
        rw [writeLoop, if_pos hlast]
        refine congrArg₂ (fun inodes data => ({ fs with inodes := inodes, data := data } : Fs))
          ?_ ?_
        · refine congrArg (Function.update fs.inodes ino) ?_
          refine congrArg (fun blocks => ({ fs.inodes ino with dataBlocks := blocks } : Inode)) ?_
          rw [hp, Nat.min_eq_right (Nat.le_add_left 1 k), ← update_blocks]
          funext b
          rw [if_neg (by omega)]
        · rw [if_pos (by omega), hp]
          simp only [Fs.modifyInode, Function.update_self, Nat.sub_self, Nat.mul_zero,
            Nat.sub_zero, Nat.zero_add]
          rw [show (freeBlock fs.dataBlockBitmap).toUInt32.toNat = j from hj]
      · have hn : 4096 < remaining.toNat := by
          rw [UInt32.le_iff_toNat_le] at hlast
          exact Nat.lt_of_not_le hlast
        have hrest : (remaining - 4096).toNat = remaining.toNat - BLOCK_SIZE :=
          UInt32.toNat_sub_of_le _ _ (UInt32.le_iff_toNat_le.mpr hn.le)
        have hp : p = passesFor (remaining.toNat - BLOCK_SIZE) + 1 := passesFor_of_gt hn
        rw [writeLoop, if_neg hlast]
        simp only
        rw [ih, hrest]
        set q := passesFor (remaining.toNat - BLOCK_SIZE)
        have hq : 1 ≤ q := Nat.le_add_left _ _
        refine congrArg₂ (fun inodes data => ({ fs with inodes := inodes, data := data } : Fs))
          ?_ ?_
        · simp only [Fs.modifyInode, Function.update_self, Function.update_idem]
          refine congrArg (Function.update fs.inodes ino) ?_
          refine congrArg (fun blocks => ({ fs.inodes ino with dataBlocks := blocks } : Inode)) ?_
          rw [hp, Nat.add_min_add_right]
          exact update_blocks _ _ _ _
        · have hshift : BLOCK_SIZE * (p - 1) = BLOCK_SIZE * (q - 1) + BLOCK_SIZE := by
            rw [hp, Nat.add_sub_cancel, ← Nat.mul_succ, Nat.succ_eq_add_one,
              Nat.sub_add_cancel hq]
          by_cases hk : p ≤ k + 1
          · rw [if_pos hk, if_pos (by omega), hshift]
            refine congrArg (Function.update fs.data j) (funext fun o => ?_)
            rw [show remaining.toNat - (BLOCK_SIZE * (q - 1) + BLOCK_SIZE)
                = remaining.toNat - BLOCK_SIZE - BLOCK_SIZE * (q - 1) by omega,
              show BLOCK_SIZE * (q - 1) + BLOCK_SIZE + o
                = BLOCK_SIZE + (BLOCK_SIZE * (q - 1) + o) by omega]
            simp only [List.getD_eq_getElem?_getD, List.getElem?_drop]
            rfl
          · rw [if_neg hk, if_neg (by omega)]
            rfl

section Write

variable (fs : Fs) (fds : FdTable) (fd : ℕ) (buf : List UInt8) (nbytes stale : UInt32)

/-- The block `file_write` finds, after it has released the old ones. -/
def writtenBlock : ℕ := freeBlock (bitmapReleased fs (fs.inodes (fds fd).inodeNum.toNat))

/-- The number of passes the second loop of `file_write` is let. -/
def passesLet : ℕ := (dataBlockCount (fs.inodes (fds fd).inodeNum.toNat) stale).toNat

/-- **`file_write`**, in closed form. -/
lemma fileWrite_eq :
    let ino := (fds fd).inodeNum.toNat
    let node := fs.inodes ino
    let j := writtenBlock fs fds fd
    let k := passesLet fs fds fd stale
    let p := passesFor nbytes.toNat
    (fileWrite fs fds fd buf nbytes stale).2 =
      { fs with
        dataBlockBitmap := bitmapReleased fs node
        inodes := Function.update fs.inodes ino
          { length := nbytes
            dataBlocks := fun b => if b < min k p then j.toUInt32 else node.dataBlocks b }
        data :=
          if p ≤ k then
            Function.update fs.data j fun o =>
              if o < nbytes.toNat - BLOCK_SIZE * (p - 1) then
                buf.getD (BLOCK_SIZE * (p - 1) + o) 0
              else fs.data j o
          else fs.data } := by
  intro ino node j k p
  rw [fileWrite]
  simp only [writeLoop_spec, Fs.modifyInode, Function.update_self, Function.update_idem,
    Nat.zero_le, true_and, Nat.zero_add]
  rfl

end Write

end CustomLinuxOs
