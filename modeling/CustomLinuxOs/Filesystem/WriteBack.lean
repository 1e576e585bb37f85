import Mathlib.Data.List.GetD
import CustomLinuxOs.Filesystem.FileOperations

/-!
Writing a file with `file_write` and reading it back with `read_data`.

* `WritesBack`: the file has the length of the buffer, and reads as the buffer.
* `OldBytesAgree`: what `file_write` does not copy lies in the blocks already.
* `fileWrite_writesBack_iff`: exactly when a file that has been written reads as the buffer.
-/

namespace CustomLinuxOs

/-- After `file_write` of the whole buffer the file has its length, and `read_data` of that many
bytes yields the buffer. -/
def WritesBack (fs : Fs) (fds : FdTable) (fd : ℕ) (buf : List UInt8) (stale : UInt32) : Prop :=
  let fs' := (fileWrite fs fds fd buf buf.length.toUInt32 stale).2
  let ino := (fds fd).inodeNum.toNat
  (fs'.inodes ino).length.toNat = buf.length ∧ readData fs' ino 0 buf.length.toUInt32 = buf

/-- Byte `i` of a file with a last block that is not full, after `file_write`.  If the loop has come
to the last piece of the buffer, that piece lies at the start of block `j`, which is all blocks of
the file; otherwise nothing has been copied, and the file has its old blocks behind those that it
has been given. -/
def byteWritten (fs : Fs) (fds : FdTable) (fd : ℕ) (buf : List UInt8) (stale : UInt32) (i : ℕ) :
    UInt8 :=
  let node := fs.inodes (fds fd).inodeNum.toNat
  let j := writtenBlock fs fds fd
  let k := passesLet fs fds fd stale
  let last := buf.length % BLOCK_SIZE
  if passesFor buf.length ≤ k then
    if i % BLOCK_SIZE < last then buf.getD (buf.length - last + i % BLOCK_SIZE) 0
    else fs.data j (i % BLOCK_SIZE)
  else
    fs.data (if i / BLOCK_SIZE < k then j else (node.dataBlocks (i / BLOCK_SIZE)).toNat)
      (i % BLOCK_SIZE)

/-- What `file_write` does not copy is there already. -/
def OldBytesAgree (fs : Fs) (fds : FdTable) (fd : ℕ) (buf : List UInt8) (stale : UInt32) : Prop :=
  ∀ i < buf.length, buf.getD i 0 = byteWritten fs fds fd buf stale i

/-- `file_write` stores the buffer: it is empty, or its last block is not full, and it fits a
single block and the loop is let run, or what is not copied is there already. -/
def StoresBuffer (fs : Fs) (fds : FdTable) (fd : ℕ) (buf : List UInt8) (stale : UInt32) : Prop :=
  buf = [] ∨ buf.length % BLOCK_SIZE ≠ 0
    ∧ (buf.length < BLOCK_SIZE ∧ 1 ≤ passesLet fs fds fd stale
      ∨ OldBytesAgree fs fds fd buf stale)

section ReadBack

variable {fs : Fs} {fds : FdTable} {fd : ℕ} {buf : List UInt8} {stale : UInt32}

/-- A buffer of one piece is copied as a whole. -/
lemma oldBytesAgree_of_onePiece (hlen : buf.length < BLOCK_SIZE)
    (hlet : 1 ≤ passesLet fs fds fd stale) : OldBytesAgree fs fds fd buf stale := by
  intro i hi
  have hlast : buf.length % BLOCK_SIZE = buf.length := Nat.mod_eq_of_lt hlen
  have hmod : i % BLOCK_SIZE = i := Nat.mod_eq_of_lt (hi.trans hlen)
  have hone : passesFor buf.length = 1 := by
    rw [passesFor, Nat.div_eq_of_lt ((Nat.sub_le _ _).trans_lt hlen)]
  simp only [byteWritten, hone, if_pos hlet, hmod, hlast, if_pos hi, Nat.sub_self, Nat.zero_add]

/-- The number of passes is that of the pieces, and the last one has the rest. -/
lemma passesFor_spec {n : ℕ} (h : n % BLOCK_SIZE ≠ 0) :
    BLOCK_SIZE * (passesFor n - 1) = n - n % BLOCK_SIZE
      ∧ ∀ i < n, i / BLOCK_SIZE < passesFor n := by
  rw [passesFor, BLOCK_SIZE] at *
  refine ⟨by omega, fun i hi => by omega⟩

/-- The bytes of a file that has been written, as far as it has blocks that are not full. -/
lemma fileByte_fileWrite {nbytes : UInt32} (hn : nbytes.toNat = buf.length)
    (hlast : buf.length % BLOCK_SIZE ≠ 0) {i : ℕ} (hi : i < buf.length) :
    let fs' := (fileWrite fs fds fd buf nbytes stale).2
    fs'.fileByte (fs'.inodes (fds fd).inodeNum.toNat) i = byteWritten fs fds fd buf stale i := by
  intro fs'
  obtain ⟨hstart, hpieces⟩ := passesFor_spec hlast
  have hblock := hpieces i hi
  have hj : (writtenBlock fs fds fd).toUInt32.toNat = writtenBlock fs fds fd :=
    freeBlock_toUInt32 _
  have hrest : buf.length - (buf.length - buf.length % BLOCK_SIZE) = buf.length % BLOCK_SIZE :=
    Nat.sub_sub_self (Nat.mod_le _ _)
  rw [Fs.fileByte, byteWritten]
  simp only [fs', fileWrite_eq, Function.update_self, hn, hstart, hrest]
  by_cases hcopied : passesFor buf.length ≤ passesLet fs fds fd stale
  · -- all blocks of the file are the one the last piece has been copied to
    rw [if_pos hcopied, if_pos hcopied, Nat.min_eq_right hcopied, if_pos hblock, hj,
      Function.update_self]
  · -- nothing has been copied
    rw [if_neg hcopied, if_neg hcopied, Nat.min_eq_left (Nat.le_of_not_le hcopied)]
    by_cases hnew : i / BLOCK_SIZE < passesLet fs fds fd stale
    · rw [if_pos hnew, if_pos hnew, hj]
    · rw [if_neg hnew, if_neg hnew]

/-- A list is what a function lists, entry by entry. -/
lemma map_range_eq_iff (f : ℕ → UInt8) :
    (List.range buf.length).map f = buf ↔ ∀ i < buf.length, buf.getD i 0 = f i := by
  constructor
  · intro h i hi
    rw [List.getD_eq_getElem _ _ hi, List.getElem_of_eq h.symm hi, List.getElem_map,
      List.getElem_range]
  · intro h
    refine List.ext_getElem (by simp) fun i _ hi => ?_
    rw [List.getElem_map, List.getElem_range, ← h i hi, List.getD_eq_getElem _ _ hi]

lemma toUInt32_length (hn : buf.length ≤ NUM_DATA_BLOCK_ADDR * BLOCK_SIZE) :
    buf.length.toUInt32.toNat = buf.length := by
  rw [NUM_DATA_BLOCK_ADDR, BLOCK_SIZE] at hn
  exact Nat.mod_eq_of_lt (by omega)

/-- What `read_data` reads after `file_write`: the file up to the last block that is not full. -/
lemma readData_fileWrite (hn : buf.length ≤ NUM_DATA_BLOCK_ADDR * BLOCK_SIZE) :
    let fs' := (fileWrite fs fds fd buf buf.length.toUInt32 stale).2
    let node := fs'.inodes (fds fd).inodeNum.toNat
    node.length.toNat = buf.length
      ∧ readData fs' (fds fd).inodeNum.toNat 0 buf.length.toUInt32
        = fs'.fileSlice node 0 (readableEnd buf.length) := by
  intro fs' node
  have hnb := toUInt32_length hn
  have hlength : node.length.toNat = buf.length := by
    simp only [node, fs', fileWrite_eq, Function.update_self, hnb]
  have hsmall : buf.length.toUInt32.toNat + BLOCK_SIZE ≤ 2 ^ 32 := by
    rw [hnb]
    rw [NUM_DATA_BLOCK_ADDR, BLOCK_SIZE] at *
    omega
  refine ⟨hlength, ?_⟩
  calc readData fs' (fds fd).inodeNum.toNat 0 buf.length.toUInt32
      = fs'.fileSlice node 0
          (min buf.length.toUInt32.toNat
            (readableEnd node.length.toNat - (0 : UInt32).toNat)) := readData_eq _ _ _ _ hsmall
    _ = fs'.fileSlice node 0 (readableEnd buf.length) := by
        rw [hlength, hnb, UInt32.toNat_zero, Nat.sub_zero, Nat.min_eq_right (readableEnd_le _)]

/-- **Written, then read.**  `file_write` of a buffer of at most `1023` blocks makes the file read
as the buffer exactly when it stores it. -/
theorem fileWrite_writesBack_iff (hn : buf.length ≤ NUM_DATA_BLOCK_ADDR * BLOCK_SIZE) :
    WritesBack fs fds fd buf stale ↔ StoresBuffer fs fds fd buf stale := by
  obtain ⟨hlength, hread⟩ := @readData_fileWrite fs fds fd buf stale hn
  rw [WritesBack, hread, and_iff_right hlength, StoresBuffer]
  by_cases hfull : buf.length % BLOCK_SIZE = 0
  · -- the last block reads as empty
    have hend : readableEnd buf.length = buf.length - BLOCK_SIZE := if_pos hfull
    constructor
    · intro h
      have hlen := congrArg List.length h
      rw [Fs.fileSlice_length, hend] at hlen
      refine Or.inl (List.eq_nil_of_length_eq_zero ?_)
      rw [BLOCK_SIZE] at hlen
      omega
    · rintro (rfl | ⟨h, -⟩)
      · rfl
      · exact absurd hfull h
  · have hend : readableEnd buf.length = buf.length := if_neg hfull
    have hne : buf ≠ [] := by
      rintro rfl
      exact hfull rfl
    rw [hend, Fs.fileSlice, map_range_eq_iff]
    simp only [Nat.zero_add]
    have hbytes {i : ℕ} := @fileByte_fileWrite fs fds fd buf stale _ (toUInt32_length hn) hfull i
    constructor
    · exact fun h => Or.inr ⟨hfull, Or.inr fun i hi => (h i hi).trans (hbytes hi)⟩
    · rintro (h | ⟨-, h⟩)
      · exact absurd h hne
      · have hagree : OldBytesAgree fs fds fd buf stale :=
          h.elim (fun h => oldBytesAgree_of_onePiece h.1 h.2) id
        exact fun i hi => (hagree i hi).trans (hbytes hi).symm

end ReadBack

/-- Two bytes written to a file of one byte read back. -/
theorem fileWrite_writesBack_iff_twoBytes :
    WritesBack (oneFile 1) (fun _ => ⟨some .regular, 1, 0, 0⟩) 2 [1, 2] 0 :=
  (fileWrite_writesBack_iff (by decide)).mpr
    (Or.inr ⟨by decide, Or.inl ⟨by decide, by decide⟩⟩)

/-- A whole block written to an open file of one byte, with all blocks free, does not read
back. -/
theorem fileWrite_wholeBlock :
    let fds : FdTable := fun _ => ⟨some .regular, 1, 0, 0⟩
    let buf := List.replicate BLOCK_SIZE 1
    (fds 2).fopsTable = some .regular ∧ (∀ b, (oneFile 1).dataBlockBitmap b = 0)
      ∧ buf.length ≤ NUM_DATA_BLOCK_ADDR * BLOCK_SIZE
      ∧ ¬ WritesBack (oneFile 1) fds 2 buf 0 := by
  intro fds buf
  have hlen : buf.length = BLOCK_SIZE := List.length_replicate
  have hn : buf.length ≤ NUM_DATA_BLOCK_ADDR * BLOCK_SIZE := by
    rw [hlen]
    decide
  refine ⟨rfl, fun _ => rfl, hn, fun h => ?_⟩
  have hread := congrArg List.length ((readData_fileWrite hn).2.symm.trans h.2)
  rw [Fs.fileSlice_length, hlen] at hread
  exact absurd hread (by decide)

end CustomLinuxOs
