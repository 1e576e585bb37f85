import CustomLinuxOs.Filesystem.DirOperations

/-!
The files of the directory, under the calls that change it.

* `Fs.live`: the indices of the entries of regular files.
* `newDentry_cases`: a name of fewer than `64` bytes goes to one entry, which had no name.
* `removeDentry_cases`: one file is cleared, and all entries that are live then were live before,
  all but one of them at the same index.
* `releaseBlocks_apply`: the bitmap after blocks have been released.
* `FsEvent`, `fsStep`: the calls as the steps of a system.
-/

namespace CustomLinuxOs

/-- The entry at an index is that of a regular file. -/
def Fs.live (fs : Fs) (i : ℕ) : Prop := i < MAX_FILES ∧ (fs.dentries i).regular

/-- The inode number at an index. -/
def Fs.ino (fs : Fs) (i : ℕ) : ℕ := (fs.dentries i).inodeNum.toNat

/-! ### A new name -/

/-- Bytes that stay within an entry leave the others alone. -/
lemma writeDentry_of_ne (i p : ℕ) (bytes : List UInt8) (dentries : ℕ → Dentry)
    (hlen : p + bytes.length ≤ DENTRY_SIZE) {k : ℕ} (hk : k ≠ i) :
    writeDentry i p bytes dentries k = dentries k := by
  induction bytes generalizing p dentries with
  | nil => rfl
  | cons b bytes ih =>
      rw [List.length_cons] at hlen
      have hp : p / DENTRY_SIZE = 0 := Nat.div_eq_of_lt (by omega)
      simp only [writeDentry, hp, Nat.add_zero]
      rw [ih (p + 1) _ (by omega), Function.update_of_ne hk]

lemma Dentry.setByte_filename (d : Dentry) (q : ℕ) (b : UInt8) {k : ℕ} (hk : k < 32) :
    (d.setByte q b).filename k = if k = q then b else d.filename k := by
  rw [setByte]
  split_ifs with hq h1 h2 h3
  · rw [h1]
    exact Function.update_self _ _ _
  · exact Function.update_of_ne h1 _ _
  all_goals first | omega | rfl

/-- The name of an entry after bytes have been written to it. -/
lemma writeDentry_filename (i p : ℕ) (bytes : List UInt8) (dentries : ℕ → Dentry)
    (hlen : p + bytes.length ≤ DENTRY_SIZE) {k : ℕ} (hk : k < 32) :
    (writeDentry i p bytes dentries i).filename k
      = if p ≤ k ∧ k < p + bytes.length then bytes.getD (k - p) 0
        else (dentries i).filename k := by
  induction bytes generalizing p dentries with
  | nil => rw [if_neg (by rw [List.length_nil]; omega), writeDentry]
  | cons b bytes ih =>
      rw [List.length_cons] at hlen ⊢
      have hdiv : p / DENTRY_SIZE = 0 := Nat.div_eq_of_lt (by omega)
      have hmod : p % DENTRY_SIZE = p := Nat.mod_eq_of_lt (by omega)
      simp only [writeDentry, hdiv, hmod, Nat.add_zero]
      rw [ih (p + 1) _ (by omega), Function.update_self, Dentry.setByte_filename _ _ _ hk]
      rcases Nat.lt_trichotomy k p with hlt | rfl | hgt
      · rw [if_neg (by omega), if_neg (by omega), if_neg (by omega)]
      · rw [if_neg (by omega), if_pos rfl, if_pos (by omega), Nat.sub_self, List.getD_cons_zero]
      · have hsub : k - p = k - (p + 1) + 1 := by omega
        by_cases hin : k < p + 1 + bytes.length
        · rw [if_pos (by omega), if_pos (by omega), hsub, List.getD_cons_succ]
        · rw [if_neg (by omega), if_neg (by omega), if_neg (by omega)]

/-- The name an entry gets starts with the first byte of the string. -/
lemma strcpyDentry_filename_zero (dentries : ℕ → Dentry) (i : ℕ) {fname : CString}
    (hlen : fname.length < DENTRY_SIZE) :
    (strcpyDentry dentries i fname i).filename 0 = fname.byte 0 := by
  have hbytes : (fname.val ++ [0]).length = fname.length + 1 := by
    rw [List.length_append, List.length_singleton, CString.length]
  rw [strcpyDentry, writeDentry_filename _ _ _ _ (by omega) (by decide), if_pos (by omega),
    Nat.sub_self, CString.byte]
  cases fname.val <;> rfl

lemma freeInode_le (fs : Fs) : freeInode fs ≤ 30 := by
  rw [freeInode]
  cases h : (List.range' 1 29).find? fun j => (fs.inodes j).length = 0 with
  | none => exact le_rfl
  | some j =>
      have hj := List.mem_range'_1.mp (List.mem_of_find?_eq_some h)
      rw [Option.getD_some]
      omega

lemma freeInode_toUInt32 (fs : Fs) : (freeInode fs).toUInt32.toNat = freeInode fs := by
  have hle := freeInode_le fs
  exact Nat.mod_eq_of_lt (by omega)

lemma freeSlot_spec {fs : Fs} {i : ℕ} (h : freeSlot fs = some i) :
    i < MAX_FILES ∧ (fs.dentries i).filename 0 = 0 := by
  rw [freeSlot] at h
  have hname := List.find?_some h
  exact ⟨List.mem_range.mp (List.mem_of_find?_eq_some h), by simpa using hname⟩

/-- **`new_dentry`** does nothing, or it fills one entry that had no name. -/
lemma newDentry_cases (fs : Fs) {fname : CString} (hlen : fname.length < DENTRY_SIZE) :
    (freeSlot fs = none ∧ newDentry fs fname = fs)
      ∨ ∃ (i : ℕ) (d : Dentry), freeSlot fs = some i
        ∧ newDentry fs fname = { fs with dentries := Function.update fs.dentries i d }
        ∧ d.filename 0 = fname.byte 0 ∧ d.fileType = FILE_TYPE_REGULAR
        ∧ d.inodeNum.toNat = freeInode fs := by
  rw [newDentry]
  cases h : freeSlot fs with
  | none => exact Or.inl ⟨rfl, rfl⟩
  | some i =>
      refine Or.inr ⟨i, { strcpyDentry fs.dentries i fname i with
        fileType := FILE_TYPE_REGULAR, inodeNum := (freeInode fs).toUInt32 }, rfl, ?_,
        strcpyDentry_filename_zero fs.dentries i hlen, rfl, freeInode_toUInt32 fs⟩
      refine congrArg (fun dentries => ({ fs with dentries := dentries } : Fs)) (funext fun k => ?_)
      by_cases hk : k = i
      · rw [hk, Function.update_self, Function.update_self]
      · rw [Function.update_of_ne hk, Function.update_of_ne hk]
        have hbytes : 0 + (fname.val ++ [0]).length ≤ DENTRY_SIZE := by
          rw [CString.length] at hlen
          rw [List.length_append, List.length_singleton, Nat.zero_add]
          exact hlen
        exact writeDentry_of_ne i 0 _ _ hbytes hk

/-! ### A name removed -/

lemma Dentry.clear_not_regular (d : Dentry) : ¬ d.clear.regular := fun h => h.1 rfl

lemma clearFile_inodes (fs : Fs) (i : ℕ) :
    (clearFile fs i).inodes
      = Function.update fs.inodes (fs.ino i) { fs.inodes (fs.ino i) with length := 0 } := rfl

/-- The scan ends within the boot block. -/
lemma scanDentries_bounds {fs : Fs} {k j r : ℕ} (h : scanDentries fs k j = some r) :
    j ≤ r ∧ r < j + k := by
  induction k generalizing j with
  | zero => exact absurd h (by simp [scanDentries])
  | succ k ih =>
      rw [scanDentries] at h
      split at h
      · have := ih h
        omega
      · obtain rfl := Option.some.inj h
        omega

/-- The index an entry had before entry `j` was moved to index `i`. -/
def movedFrom (i j k : ℕ) : ℕ := if k = i then j else k

/-- The entries after one has been moved. -/
lemma moveDentry_dentries {fs : Fs} {i j k : ℕ} (hkj : k ≠ j) :
    (moveDentry (clearFile fs i) i j).dentries k = fs.dentries (movedFrom i j k) := by
  rw [moveDentry, clearFile, movedFrom]
  simp only [Function.update_of_ne hkj]
  by_cases hki : k = i
  · have hji : j ≠ i := fun h => hkj (hki.trans h.symm)
    rw [if_pos hki, hki, Function.update_self, Function.update_of_ne hji]
  · rw [if_neg hki, Function.update_of_ne hki, Function.update_of_ne hki]

/-- What is live after an entry has been moved. -/
lemma live_moveDentry (fs : Fs) (i j k : ℕ)
    (hk : (moveDentry (clearFile fs i) i j).live k) :
    k ≠ j ∧ (moveDentry (clearFile fs i) i j).dentries k = fs.dentries (movedFrom i j k) := by
  have hkj : k ≠ j := by
    rintro rfl
    have hreg := hk.2
    rw [moveDentry] at hreg
    simp only [Function.update_self] at hreg
    exact Dentry.clear_not_regular _ hreg
  exact ⟨hkj, moveDentry_dentries hkj⟩

/-- **`remove_dentry`** clears the file it finds and its entry.  What is live then was live
before, at the same index or, for the entry that has been moved, at index `j`. -/
lemma removeDentry_cases {fs fs' : Fs} {fname : CString} (h : removeDentry fs fname = some fs') :
    ∃ i j, namedDentry fs fname = some i
      ∧ (fs'.inodes = (clearFile fs i).inodes ∧ fs'.data = fs.data
        ∧ fs'.dataBlockBitmap = (clearFile fs i).dataBlockBitmap)
      ∧ (∀ k, fs'.live k → fs.live (movedFrom i j k) ∧ movedFrom i j k ≠ i
        ∧ fs'.dentries k = fs.dentries (movedFrom i j k))
      ∧ ∀ k l, fs'.live k → fs'.live l → movedFrom i j k = movedFrom i j l → k = l := by
  rw [removeDentry] at h
  cases hi : namedDentry fs fname with
  | none =>
      rw [hi] at h
      exact absurd h (by simp)
  | some i =>
      rw [hi] at h
      obtain ⟨r, hr, rfl⟩ := Option.map_eq_some_iff.mp h
      have hmoved := live_moveDentry fs i (r - 1)
      refine ⟨i, r - 1, rfl, ⟨rfl, rfl, rfl⟩, fun k hk => ?_, fun k l hk hl hkl => ?_⟩
      · obtain ⟨hkj, hdentry⟩ := hmoved k hk
        have hki : movedFrom i (r - 1) k ≠ i := by
          rw [movedFrom]
          split <;> omega
        refine ⟨⟨?_, hdentry ▸ hk.2⟩, hki, hdentry⟩
        have hbounds := scanDentries_bounds hr
        have hkMax := hk.1
        rw [movedFrom]
        split <;> omega
      · have hkj := (hmoved k hk).1
        have hlj := (hmoved l hl).1
        rw [movedFrom, movedFrom] at hkl
        split at hkl <;> split at hkl <;> omega

/-! ### Blocks released -/

/-- A block is among the first `count` of an inode. -/
def Inode.hasBlock (node : Inode) (count b : ℕ) : Prop :=
  ∃ k < count, (node.dataBlocks k).toNat = b

/-- The bitmap after blocks have been released. -/
lemma releaseBlocks_apply (node : Inode) (count : ℕ) (bitmap : ℕ → UInt8) (b : ℕ) :
    (node.hasBlock count b → releaseBlocks node count bitmap b = 0)
      ∧ (¬ node.hasBlock count b → releaseBlocks node count bitmap b = bitmap b) := by
  induction count with
  | zero =>
      refine ⟨fun ⟨k, hk, _⟩ => absurd hk (Nat.not_lt_zero k), fun _ => rfl⟩
  | succ count ih =>
      have hstep : releaseBlocks node (count + 1) bitmap
          = Function.update (releaseBlocks node count bitmap) (node.dataBlocks count).toNat 0 := by
        rw [releaseBlocks, List.range_succ, List.foldl_append]
        rfl
      rw [hstep]
      by_cases hb : b = (node.dataBlocks count).toNat
      · rw [hb, Function.update_self]
        exact ⟨fun _ => rfl, fun h => absurd ⟨count, Nat.lt_succ_self count, rfl⟩ h⟩
      · rw [Function.update_of_ne hb]
        constructor
        · rintro ⟨k, hk, hkb⟩
          have hne : k ≠ count := fun h => hb (h ▸ hkb).symm
          exact ih.1 ⟨k, by omega, hkb⟩
        · intro h
          exact ih.2 fun ⟨k, hk, hkb⟩ => h ⟨k, by omega, hkb⟩

/-! ### The calls -/

/-- A system call on files.  `counter` is the clock at an `open`, and `stale` the value of
`data_block_count` before `file_write` sets it. -/
inductive FsEvent where
  | open (counter : UInt32) (filename : CString)
  | close (fd : ℤ)
  | creat (counter : UInt32) (filename : CString)
  | write (fd : ℕ) (buf : List UInt8) (stale : UInt32)
  | unlink (filename : CString)

/-- The filesystem, and the open files of a process. -/
structure Mounted where
  fs : Fs
  fds : FdTable

/-- One call; `file_write` is for open regular files. -/
def fsStep (s : Mounted) : FsEvent → Option Mounted
  | .open counter filename => some { s with fds := (openCall counter s.fs s.fds filename).2 }
  | .close fd => some { s with fds := (closeCall s.fds fd).2 }
  | .creat counter filename =>
      let r := creat counter s.fs s.fds filename
      some ⟨r.2.1, r.2.2⟩
  | .write fd buf stale =>
      if fd < MAX_OPEN_FILES ∧ (s.fds fd).fopsTable = some .regular ∧ buf.length < 2 ^ 32 then
        some { s with fs := (fileWrite s.fs s.fds fd buf buf.length.toUInt32 stale).2 }
      else none
  | .unlink filename => (unlink s.fs filename).map fun r => { s with fs := r.2 }

/-- The inode a call writes or removes. -/
def FsEvent.target (s : Mounted) : FsEvent → Option ℕ
  | .write fd _ _ => some (s.fds fd).inodeNum.toNat
  | .unlink filename => (namedDentry s.fs filename).map s.fs.ino
  | _ => none

/-- The names a program passes to `creat` are shorter than an entry. -/
def FsEvent.ShortName : FsEvent → Prop
  | .creat _ filename => filename.length < DENTRY_SIZE
  | _ => True

/-- `creat` makes a new entry for this name. -/
def Fs.MakesEntry (fs : Fs) (filename : CString) : Prop :=
  readDentryByName fs filename = none ∧ filename.length ≠ 0 ∧ freeSlot fs ≠ none

/-- `creat` changes entries only. -/
lemma creat_frame (counter : UInt32) (fs : Fs) (fds : FdTable) (filename : CString) :
    ∃ dentries, (creat counter fs fds filename).2.1 = { fs with dentries := dentries } := by
  rw [creat]
  split
  · exact ⟨fs.dentries, rfl⟩
  · rw [newDentry]
    cases freeSlot fs with
    | none => exact ⟨fs.dentries, rfl⟩
    | some i => exact ⟨_, rfl⟩

/-- **`creat`** leaves the directory alone, or it fills one entry without a name.  A name that does
not fit an entry runs on into others. -/
lemma creat_cases (counter : UInt32) (fs : Fs) (fds : FdTable) {filename : CString}
    (hlen : fs.MakesEntry filename → filename.length < DENTRY_SIZE) :
    (¬ fs.MakesEntry filename ∧ ∃ dentries,
        (creat counter fs fds filename).2.1 = { fs with dentries := dentries }
        ∧ ∀ k, (dentries k).regular → dentries k = fs.dentries k)
      ∨ fs.MakesEntry filename ∧ ∃ (i : ℕ) (d : Dentry), i < MAX_FILES
        ∧ (fs.dentries i).filename 0 = 0
        ∧ (creat counter fs fds filename).2.1
          = { fs with dentries := Function.update fs.dentries i d }
        ∧ d.regular ∧ d.inodeNum.toNat = freeInode fs := by
  rw [creat]
  cases hname : readDentryByName fs filename with
  | some d =>
      refine Or.inl ⟨fun h => ?_, fs.dentries, rfl, fun _ _ => rfl⟩
      rw [Fs.MakesEntry, hname] at h
      exact absurd h.1 (by simp)
  | none =>
      by_cases hempty : filename.length = 0
      · -- the entry stays without a name
        refine Or.inl ⟨fun h => h.2.1 hempty, ?_⟩
        have hshort : filename.length < DENTRY_SIZE := by
          rw [hempty]
          decide
        rcases newDentry_cases fs hshort with ⟨-, heq⟩ | ⟨i, d, -, heq, hfirst, -, -⟩
        · exact ⟨fs.dentries, heq, fun _ _ => rfl⟩
        · refine ⟨_, heq, fun k hk => ?_⟩
          by_cases hki : k = i
          · rw [hki, Function.update_self] at hk
            exact absurd (hfirst.trans ((CString.byte_eq_zero_iff filename).mpr hempty)) hk.1
          · exact Function.update_of_ne hki _ _
      · cases hslot : freeSlot fs with
        | none =>
            have heq : newDentry fs filename = fs := by rw [newDentry, hslot]
            exact Or.inl ⟨fun h => h.2.2 hslot, fs.dentries, heq, fun _ _ => rfl⟩
        | some i =>
            have hmakes : fs.MakesEntry filename := ⟨hname, hempty, by rw [hslot]; simp⟩
            have hi := freeSlot_spec hslot
            rcases newDentry_cases fs (hlen hmakes) with
              ⟨hnone, -⟩ | ⟨i', d, hi', heq, hfirst, htype, hino⟩
            · rw [hnone] at hslot
              exact absurd hslot (by simp)
            · obtain rfl : i = i' := Option.some.inj (hslot.symm.trans hi')
              refine Or.inr ⟨hmakes, i, d, hi.1, hi.2, heq, ⟨?_, htype⟩, hino⟩
              rw [hfirst]
              exact fun h => hempty ((CString.byte_eq_zero_iff filename).mp h)

/-- A call of `file_write`, taken apart. -/
lemma fsStep_write {s u : Mounted} {fd : ℕ} {buf : List UInt8} {stale : UInt32}
    (h : fsStep s (.write fd buf stale) = some u) :
    (fd < MAX_OPEN_FILES ∧ (s.fds fd).fopsTable = some .regular ∧ buf.length < 2 ^ 32)
      ∧ u = { s with fs := (fileWrite s.fs s.fds fd buf buf.length.toUInt32 stale).2 } := by
  obtain ⟨hopen, hu⟩ := Option.ite_none_right_eq_some.mp h
  exact ⟨hopen, (Option.some.inj hu).symm⟩

/-- **`unlink`** fails, or it removes an entry. -/
lemma unlink_cases {fs : Fs} {filename : CString} {r : ℤ × Fs} (h : unlink fs filename = some r) :
    (readDentryByName fs filename = none ∧ r.2 = fs)
      ∨ (readDentryByName fs filename).isSome ∧ removeDentry fs filename = some r.2 := by
  rw [unlink] at h
  cases hname : readDentryByName fs filename with
  | none =>
      rw [hname] at h
      obtain rfl := Option.some.inj h
      exact Or.inl ⟨rfl, rfl⟩
  | some d =>
      rw [hname] at h
      obtain ⟨fs', hfs, rfl⟩ := Option.map_eq_some_iff.mp h
      exact Or.inr ⟨rfl, hfs⟩

end CustomLinuxOs
