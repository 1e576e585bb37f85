import Mathlib.Tactic

/-!
The data of the filesystem (`filesystem_structs.h`, `filesystem.h`, `filesystem_driver.c`) and
the descriptor table.

* `Dentry`, `Inode`, `Fs`: the boot block, which is the only directory, the inodes, the data
  blocks and the bitmap of data blocks in use.
* `createBitmaps`, `filesystemInit`: loading an image.
* `Fd`, `FdTable`: open files.

The arrays are functions on indices.  What lies behind the end of an array in memory is not
modelled: its cells stand for themselves.
-/

namespace CustomLinuxOs

def NUM_DATA_BLOCK_ADDR : ℕ := 1023
def MAX_FILENAME_LENGTH : ℕ := 32
def DENTRY_SIZE : ℕ := 64
def MAX_FILES : ℕ := 63
def MAX_OPEN_FILES : ℕ := 8
def FILE_TYPE_RTC : UInt32 := 0
def FILE_TYPE_DIR : UInt32 := 1
def FILE_TYPE_REGULAR : UInt32 := 2

/-- `BLOCK_SIZE`, which is `FOUR_KB`. -/
def BLOCK_SIZE : ℕ := 4096

/-- `dentry_t`. -/
structure Dentry where
  filename : ℕ → UInt8
  fileType : UInt32
  inodeNum : UInt32
  reserved : ℕ → UInt8

/-- `inode_t`. -/
structure Inode where
  length : UInt32
  dataBlocks : ℕ → UInt32

/-- The filesystem: `root`, what `inode_base` and `data_base` point to, and
`data_block_bitmap`. -/
structure Fs where
  numDirEntries : UInt32
  dentries : ℕ → Dentry
  inodes : ℕ → Inode
  /-- the data blocks, by block number and offset -/
  data : ℕ → ℕ → UInt8
  dataBlockBitmap : ℕ → UInt8

/-- `check_valid_file_type`. -/
def checkValidFileType (fileType : UInt32) : Bool :=
  fileType == FILE_TYPE_RTC || fileType == FILE_TYPE_DIR || fileType == FILE_TYPE_REGULAR

/-- An entry with a name, for a regular file. -/
def Dentry.regular (d : Dentry) : Prop := d.filename 0 ≠ 0 ∧ d.fileType = FILE_TYPE_REGULAR

instance (d : Dentry) : Decidable d.regular := inferInstanceAs (Decidable (_ ∧ _))

/-! ### Loading an image -/

/-- The loop over the blocks of a file in `create_bitmaps`: the whole ones are marked. -/
def markBlocks (node : Inode) (bitmap : ℕ → UInt8) : ℕ → UInt8 :=
  (List.range (node.length.toNat / BLOCK_SIZE)).foldl
    (fun b j => Function.update b (node.dataBlocks j).toNat 0xFF) bitmap

/-- `create_bitmaps`; the bitmap of inodes, which no code reads, is left out. -/
def createBitmaps (fs : Fs) : Fs :=
  { fs with
    dataBlockBitmap := (List.range fs.numDirEntries.toNat).foldl
      (fun b i => markBlocks (fs.inodes (fs.dentries i).inodeNum.toNat) b) fs.dataBlockBitmap }

/-- `filesystem_init`: the boot block, inodes and data blocks are those of the image, and the
bitmap is made from zeroed memory. -/
def filesystemInit (image : Fs) : Fs :=
  createBitmaps { image with dataBlockBitmap := fun _ => 0 }

/-! ### Open files -/

/-- The tables of file operations. -/
inductive FileOps where
  | tty
  | regular
  | dir
  | rtc
  deriving DecidableEq, Repr

/-- `fd_t`. -/
structure Fd where
  fopsTable : Option FileOps
  inodeNum : UInt32
  filePos : UInt32
  flags : UInt32
  deriving DecidableEq, Repr

/-- A descriptor table. -/
abbrev FdTable := ℕ → Fd

/-- A closed descriptor in zeroed memory. -/
def Fd.zero : Fd := ⟨none, 0, 0, 0⟩

/-! ### Files -/

/-- Byte `p` of the data of an inode. -/
def Fs.fileByte (fs : Fs) (node : Inode) (p : ℕ) : UInt8 :=
  fs.data (node.dataBlocks (p / BLOCK_SIZE)).toNat (p % BLOCK_SIZE)

/-- The bytes `p ≤ i < p + n` of the data of an inode. -/
def Fs.fileSlice (fs : Fs) (node : Inode) (p n : ℕ) : List UInt8 :=
  (List.range n).map fun i => fs.fileByte node (p + i)

/-- The contents of a file. -/
def Fs.contents (fs : Fs) (node : Inode) : List UInt8 := fs.fileSlice node 0 node.length.toNat

@[simp] lemma Fs.fileSlice_length (fs : Fs) (node : Inode) (p n : ℕ) :
    (fs.fileSlice node p n).length = n := by simp [Fs.fileSlice]

lemma Fs.fileSlice_add (fs : Fs) (node : Inode) (p m n : ℕ) :
    fs.fileSlice node p (m + n) = fs.fileSlice node p m ++ fs.fileSlice node (p + m) n := by
  rw [fileSlice, List.range_add, List.map_append, List.map_map]
  congr 1
  refine List.map_congr_left fun i _ => ?_
  rw [Function.comp_apply, Nat.add_assoc]

lemma Fs.fileSlice_take (fs : Fs) (node : Inode) (p : ℕ) {m n : ℕ} (h : m ≤ n) :
    (fs.fileSlice node p n).take m = fs.fileSlice node p m := by
  rw [fileSlice, ← List.map_take, List.take_range, Nat.min_eq_left h, fileSlice]

/-- The front of a file is a prefix of its contents. -/
lemma Fs.fileSlice_prefix (fs : Fs) (node : Inode) {n : ℕ} (h : n ≤ node.length.toNat) :
    fs.fileSlice node 0 n <+: fs.contents node := by
  rw [← fileSlice_take fs node 0 h]
  exact List.take_prefix _ _

/-! ### Small images -/

/-- A filesystem with one file `a`, of `n` bytes. -/
def oneFile (n : UInt32) : Fs where
  numDirEntries := 1
  dentries i :=
    { filename := fun k => if i = 0 ∧ k = 0 then 97 else 0
      fileType := if i = 0 then FILE_TYPE_REGULAR else 3
      inodeNum := 1
      reserved := fun _ => 0 }
  inodes ino := ⟨if ino = 1 then n else 0, fun _ => 15⟩
  data _ _ := 7
  dataBlockBitmap _ := 0

/-- A filesystem without files. -/
def noFiles : Fs where
  numDirEntries := 0
  dentries _ := ⟨fun _ => 0, 0, 0, fun _ => 0⟩
  inodes _ := ⟨0, fun _ => 0⟩
  data _ _ := 0
  dataBlockBitmap _ := 0

end CustomLinuxOs
