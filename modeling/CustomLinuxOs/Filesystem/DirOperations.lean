import CustomLinuxOs.Filesystem.FileOperations

/-!
`dir_operations.c` and the system calls on names and descriptors: `open`, `close`, `creat`,
`unlink`.

* `CString`: the strings a user program passes.
* `readDentryByName`, `readDentryByIndex`: looking up an entry of the boot block.
* `newDentry`: a new entry, with the first inode of `1` to `29` that has length zero, or else
  inode `30`.
* `removeDentry`: releases the blocks of a file and moves the last entry to its place; `none` where
  the source reads on behind the boot block.
* `openCall`, `closeCall`, `creat`, `unlink`: the system calls, with the value they return.
-/

namespace CustomLinuxOs

/-! ### Strings -/

/-- A string without its terminator. -/
def CString := { l : List UInt8 // 0 ∉ l }

/-- The bytes of a string in memory, the terminator and what the list does not hold as `0`. -/
def CString.byte (s : CString) (i : ℕ) : UInt8 := s.val.getD i 0

/-- `strlen`. -/
def CString.length (s : CString) : ℕ := s.val.length

/-- The names `a` and `b`. -/
def nameA : CString := ⟨[97], by decide⟩
def nameB : CString := ⟨[98], by decide⟩

lemma CString.byte_eq_zero_iff (s : CString) : s.byte 0 = 0 ↔ s.length = 0 := by
  rcases s with ⟨l, hl⟩
  cases l with
  | nil => simp [byte, length]
  | cons b l =>
      have hb : b ≠ 0 := fun h => hl (by simp [h])
      simp [byte, length, hb]

/-- `strncmp`, with `n` bytes from position `i` on to compare. -/
def strncmp (s1 s2 : ℕ → UInt8) : ℕ → ℕ → ℤ
  | 0, _ => 0
  | n + 1, i =>
      if s1 i ≠ s2 i ∨ s1 i = 0 then (s1 i).toInt8.toInt - (s2 i).toInt8.toInt
      else strncmp s1 s2 n (i + 1)

/-! ### Directory entries -/

/-- The index `read_dentry_by_name` stops at. -/
def findDentry (fs : Fs) (fname : CString) : Option ℕ :=
  (List.range MAX_FILES).find? fun i =>
    checkValidFileType (fs.dentries i).fileType
      && strncmp fname.byte (fs.dentries i).filename 32 0 == 0

/-- `read_dentry_by_name`. -/
def readDentryByName (fs : Fs) (fname : CString) : Option Dentry :=
  if fname.byte 0 = 0 then none else (findDentry fs fname).map fs.dentries

/-- Whether `read_dentry_by_index` finds an entry. -/
def dentryAt (fs : Fs) (index : ℕ) : Bool :=
  checkValidFileType (fs.dentries index).fileType && (fs.dentries index).filename 0 != 0

/-- `read_dentry_by_index`. -/
def readDentryByIndex (fs : Fs) (index : ℕ) : Option Dentry :=
  if dentryAt fs index then some (fs.dentries index) else none

/-- One byte of a little-endian word. -/
def setByte32 (v : UInt32) (k : ℕ) (b : UInt8) : UInt32 :=
  (v &&& ~~~((0xff : UInt32) <<< (8 * k).toUInt32)) ||| (b.toUInt32 <<< (8 * k).toUInt32)

/-- Writing byte `k` of an entry. -/
def Dentry.setByte (d : Dentry) (k : ℕ) (b : UInt8) : Dentry :=
  if k < 32 then { d with filename := Function.update d.filename k b }
  else if k < 36 then { d with fileType := setByte32 d.fileType (k - 32) b }
  else if k < 40 then { d with inodeNum := setByte32 d.inodeNum (k - 36) b }
  else { d with reserved := Function.update d.reserved (k - 40) b }

/-- The bytes `bytes` at byte `p` of entry `i` and on; a long string runs on into the entries that
follow. -/
def writeDentry (i : ℕ) : ℕ → List UInt8 → (ℕ → Dentry) → ℕ → Dentry
  | _, [], dentries => dentries
  | p, b :: bytes, dentries =>
      let k := i + p / DENTRY_SIZE
      writeDentry i (p + 1) bytes
        (Function.update dentries k ((dentries k).setByte (p % DENTRY_SIZE) b))

/-- `strcpy(&root.dentries[i].filename, fname)`. -/
def strcpyDentry (dentries : ℕ → Dentry) (i : ℕ) (fname : CString) : ℕ → Dentry :=
  writeDentry i 0 (fname.val ++ [0]) dentries

/-- The search of `new_dentry` for a free inode. -/
def freeInode (fs : Fs) : ℕ :=
  ((List.range' 1 29).find? fun j => (fs.inodes j).length = 0).getD 30

/-- The first entry without a name. -/
def freeSlot (fs : Fs) : Option ℕ :=
  (List.range MAX_FILES).find? fun i => (fs.dentries i).filename 0 = 0

/-- `new_dentry`. -/
def newDentry (fs : Fs) (fname : CString) : Fs :=
  match freeSlot fs with
  | none => fs
  | some i =>
      let dentries := strcpyDentry fs.dentries i fname
      { fs with
        dentries := Function.update dentries i
          { dentries i with
            fileType := FILE_TYPE_REGULAR, inodeNum := (freeInode fs).toUInt32 } }

/-- An entry without name, type and inode. -/
def Dentry.clear (d : Dentry) : Dentry :=
  { d with
    filename := fun k => if k < 32 then 0 else d.filename k
    fileType := 0
    inodeNum := 0 }

/-- The scan of `remove_dentry` for the first index from `j` on without an entry, with `k` entries
of the boot block left. -/
def scanDentries (fs : Fs) : ℕ → ℕ → Option ℕ
  | 0, _ => none
  | k + 1, j => if dentryAt fs j then scanDentries fs k (j + 1) else some j

/-- The first half of `remove_dentry`: the blocks and the length of the file, and its entry. -/
def clearFile (fs : Fs) (i : ℕ) : Fs :=
  let ino := (fs.dentries i).inodeNum.toNat
  let node := fs.inodes ino
  { fs with
    dataBlockBitmap :=
      releaseBlocks node (node.length.toNat / BLOCK_SIZE + 1) fs.dataBlockBitmap
    inodes := Function.update fs.inodes ino { node with length := 0 }
    dentries := Function.update fs.dentries i (fs.dentries i).clear }

/-- The second half of `remove_dentry`: entry `j` moves to index `i`. -/
def moveDentry (fs : Fs) (i j : ℕ) : Fs :=
  let dentries := Function.update fs.dentries i (fs.dentries j)
  { fs with dentries := Function.update dentries j (dentries j).clear }

/-- The index `remove_dentry` stops at; it does not look at the type. -/
def namedDentry (fs : Fs) (fname : CString) : Option ℕ :=
  (List.range MAX_FILES).find? fun i => strncmp fname.byte (fs.dentries i).filename 32 0 == 0

/-- `remove_dentry`. -/
def removeDentry (fs : Fs) (fname : CString) : Option Fs :=
  match namedDentry fs fname with
  | none => none
  | some i =>
      let fs := clearFile fs i
      (scanDentries fs (MAX_FILES - (i + 1)) (i + 1)).map fun j => moveDentry fs i (j - 1)

/-! ### System calls -/

/-- `SYSCALL_ERROR`. -/
def SYSCALL_ERROR : ℤ := -1

def OS_DEFAULT_RATE : UInt32 := 32

/-- The first closed descriptor `open` may use. -/
def freeFd (fds : FdTable) : Option ℕ :=
  (List.range' 2 (MAX_OPEN_FILES - 2)).find? fun fd => (fds fd).fopsTable = none

/-- The descriptor `open` sets up for an entry; `counter` is the clock that `rtc_open` starts
from. -/
def openFd (counter : UInt32) (d : Dentry) : Option Fd :=
  if d.fileType = FILE_TYPE_REGULAR then some ⟨some .regular, d.inodeNum, 0, 0⟩
  else if d.fileType = FILE_TYPE_DIR then some ⟨some .dir, d.inodeNum, 0, 0⟩
  else if d.fileType = FILE_TYPE_RTC then
    some ⟨some .rtc, d.inodeNum, counter, 0 ||| OS_DEFAULT_RATE⟩
  else none

/-- `open`. -/
def openCall (counter : UInt32) (fs : Fs) (fds : FdTable) (filename : CString) : ℤ × FdTable :=
  match readDentryByName fs filename, freeFd fds with
  | some d, some fd =>
      match openFd counter d with
      | some e => (fd, Function.update fds fd e)
      | none => (-1, Function.update fds fd { fds fd with
          inodeNum := d.inodeNum, filePos := 0, flags := 0 })
  | _, _ => (SYSCALL_ERROR, fds)

/-- `close`; the `close` operations of the four tables do nothing. -/
def closeCall (fds : FdTable) (fd : ℤ) : ℤ × FdTable :=
  if fd < 0 ∨ fd > 7 then (SYSCALL_ERROR, fds)
  else if fd = 0 ∨ fd = 1 then (SYSCALL_ERROR, fds)
  else if (fds fd.toNat).fopsTable = none then (SYSCALL_ERROR, fds)
  else (0, Function.update fds fd.toNat { fds fd.toNat with fopsTable := none })

/-- `creat`. -/
def creat (counter : UInt32) (fs : Fs) (fds : FdTable) (filename : CString) :
    ℤ × Fs × FdTable :=
  if (readDentryByName fs filename).isSome then
    let r := openCall counter fs fds filename
    (r.1, fs, r.2)
  else
    let fs := newDentry fs filename
    let r := openCall counter fs fds filename
    (r.1, fs, r.2)

/-- `unlink`. -/
def unlink (fs : Fs) (filename : CString) : Option (ℤ × Fs) :=
  if (readDentryByName fs filename).isSome then (removeDentry fs filename).map fun fs => (0, fs)
  else some (-1, fs)

end CustomLinuxOs
