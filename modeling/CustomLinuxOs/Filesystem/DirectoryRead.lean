import CustomLinuxOs.Filesystem.Readers
import CustomLinuxOs.Filesystem.Row

/-!
Reading the directory: `directory_read`, which lists the names of the boot block.

* `directoryRead`, `readCall`: one read, and the system call.  `num_inodes` of the boot block, at
  which the listing ends, is a parameter.
* `readMany_eq`: what a number of reads returns.
* `directory_listing_iff`: all names are returned exactly when `num_inodes` is not less than their
  number, and the listing does not go on behind the last of them.
-/

namespace CustomLinuxOs

/-- The value `strlcpy` returns; it does not write a terminator. -/
def strlcpy (src : ℕ → UInt8) (n : ℕ) : ℕ :=
  ((List.range n).takeWhile fun i => src i ≠ 0).length

/-- `directory_read`, for `nbytes` not negative: the value it returns, the bytes it leaves in
`buf`, and the descriptors. -/
def directoryRead (numInodes : UInt32) (fs : Fs) (fds : FdTable) (fd nbytes : ℕ) :
    ℤ × List UInt8 × FdTable :=
  if (fds fd).filePos = numInodes then (-1, [], fds)
  else
    let nbytes := if nbytes > MAX_FILENAME_LENGTH then MAX_FILENAME_LENGTH else nbytes
    let filename := (fs.dentries (fds fd).filePos.toNat).filename
    (strlcpy filename nbytes, (List.range nbytes).map filename,
      Function.update fds fd { fds fd with filePos := (fds fd).filePos + 1 })

/-- `read`: the value it returns, the bytes it leaves in `buf`, and the descriptors; `none` for the
terminal and the clock, whose `read` waits. -/
def readCall (numInodes : UInt32) (fs : Fs) (fds : FdTable) (fd : ℤ) (nbytes : ℕ) :
    Option (ℤ × List UInt8 × FdTable) :=
  if fd < 0 ∨ fd > 7 then some (SYSCALL_ERROR, [], fds)
  else
    match (fds fd.toNat).fopsTable with
    | none => some (SYSCALL_ERROR, [], fds)
    | some .dir => some (directoryRead numInodes fs fds fd.toNat nbytes)
    | some .regular =>
        let r := fileRead fs fds fd.toNat nbytes.toUInt32
        some (r.1.length, r.1, r.2)
    | some _ => none

/-- Calls of `read` one after the other, with these sizes of the buffer: what they return. -/
def readMany (numInodes : UInt32) (fs : Fs) (fd : ℤ) :
    List ℕ → FdTable → Option (List (ℤ × List UInt8))
  | [], _ => some []
  | nbytes :: sizes, fds =>
      (readCall numInodes fs fds fd nbytes).bind fun r =>
        (readMany numInodes fs fd sizes r.2.2).map ((r.1, r.2.1) :: ·)

/-- The result of a read that returns the name of an entry. -/
def Dentry.listed (d : Dentry) : ℤ × List UInt8 :=
  (strlcpy d.filename MAX_FILENAME_LENGTH, (List.range MAX_FILENAME_LENGTH).map d.filename)

/-- The reads return the names of the first `n` entries, one each, and then a result that is not
positive. -/
def ListsAll (numInodes : UInt32) (fs : Fs) (fds : FdTable) (fd : ℤ) (n : ℕ) : Prop :=
  ∀ sizes : List ℕ, sizes.length = n + 1 → (∀ nbytes ∈ sizes, MAX_FILENAME_LENGTH ≤ nbytes) →
    ∃ last, readMany numInodes fs fd sizes fds = some ((fs.entries n).map Dentry.listed ++ [last])
      ∧ last.1 ≤ 0

/-- `"."`. -/
def dotName : CString := ⟨[46], by decide⟩

/-- `open` has returned a descriptor for the directory. -/
def OpenedDirectory (r : ℤ × FdTable) : Prop :=
  0 ≤ r.1 ∧ (r.2 r.1.toNat).fopsTable = some .dir

/-! ### One read -/

/-- **`strlcpy`** finds the terminator, or the end of the buffer. -/
lemma strlcpy_spec (src : ℕ → UInt8) (n : ℕ) : strlcpy src n ≤ n
    ∧ (∀ i < strlcpy src n, src i ≠ 0) ∧ (strlcpy src n < n → src (strlcpy src n) = 0) := by
  induction n generalizing src with
  | zero => exact ⟨le_rfl, fun i hi => absurd hi (Nat.not_lt_zero i), fun h => absurd h (by simp)⟩
  | succ n ih =>
      have hrange : List.range (n + 1) = 0 :: (List.range n).map Nat.succ := List.range_succ_eq_map
      by_cases h0 : src 0 = 0
      · have hzero : strlcpy src (n + 1) = 0 := by
          rw [strlcpy, hrange, List.takeWhile_cons_of_neg (by simpa using h0), List.length_nil]
        rw [hzero]
        exact ⟨Nat.zero_le _, fun i hi => absurd hi (Nat.not_lt_zero i), fun _ => h0⟩
      · have hnext : strlcpy src (n + 1) = strlcpy (fun i => src (i + 1)) n + 1 := by
          rw [strlcpy, hrange, List.takeWhile_cons_of_pos (by simpa using h0), List.length_cons,
            List.takeWhile_map, List.length_map]
          rfl
        obtain ⟨hle, hbefore, hend⟩ := ih fun i => src (i + 1)
        rw [hnext]
        refine ⟨by omega, fun i hi => ?_, fun hlt => hend (by omega)⟩
        cases i with
        | zero => exact h0
        | succ i => exact hbefore i (by omega)

lemma strlcpy_eq_zero_iff (src : ℕ → UInt8) : strlcpy src MAX_FILENAME_LENGTH = 0 ↔ src 0 = 0 := by
  obtain ⟨-, hbefore, hend⟩ := strlcpy_spec src MAX_FILENAME_LENGTH
  constructor
  · intro hzero
    rw [hzero] at hend
    exact hend (by decide)
  · intro h0
    by_contra hne
    exact hbefore 0 (Nat.pos_of_ne_zero hne) h0

/-- A descriptor that `open` returns for the directory: it may be read, and stands at the start. -/
lemma openedDirectory_spec {counter : UInt32} {fs : Fs} {fds : FdTable} {filename : CString}
    (h : OpenedDirectory (openCall counter fs fds filename)) :
    2 ≤ (openCall counter fs fds filename).1 ∧ (openCall counter fs fds filename).1 ≤ 7
      ∧ ∃ ino, (openCall counter fs fds filename).2 (openCall counter fs fds filename).1.toNat
        = ⟨some .dir, ino, 0, 0⟩ := by
  obtain ⟨hfd, hdir⟩ := h
  rw [openCall] at hfd hdir ⊢
  cases hd : readDentryByName fs filename with
  | none =>
      rw [hd] at hfd
      exact absurd hfd (by simp [SYSCALL_ERROR])
  | some d =>
      cases hfree : freeFd fds with
      | none =>
          rw [hd, hfree] at hfd
          exact absurd hfd (by simp [SYSCALL_ERROR])
      | some fd =>
          have hrange := List.mem_range'_1.mp (List.mem_of_find?_eq_some hfree)
          rw [MAX_OPEN_FILES] at hrange
          obtain ⟨e, he, -⟩ := openFd_of_found counter hd
          simp only [hd, hfree, he, Int.toNat_natCast, Function.update_self] at hdir ⊢
          refine ⟨by omega, by omega, d.inodeNum, ?_⟩
          rw [openFd] at he
          split_ifs at he
          all_goals
            obtain rfl := Option.some.inj he
            first | rfl | cases hdir

/-- A descriptor for the directory, at position `p`. -/
def DirectoryAt (fds : FdTable) (fd : ℤ) (p : ℕ) : Prop :=
  0 ≤ fd ∧ fd ≤ 7 ∧ (fds fd.toNat).fopsTable = some .dir ∧ (fds fd.toNat).filePos.toNat = p

/-- What a read at position `p` returns. -/
def resultAt (numInodes : UInt32) (fs : Fs) (p : ℕ) : ℤ × List UInt8 :=
  if p = numInodes.toNat then (-1, []) else (fs.dentries p).listed

section Reads

variable {numInodes : UInt32} {fs : Fs} {fds : FdTable} {fd : ℤ} {p : ℕ}

variable (fs) in
/-- **One read** of a whole name: the position goes on by one, up to `num_inodes`. -/
lemma readCall_eq (h : DirectoryAt fds fd p) (hp : p ≤ numInodes.toNat) {nbytes : ℕ}
    (hn : MAX_FILENAME_LENGTH ≤ nbytes) :
    ∃ fds', readCall numInodes fs fds fd nbytes
        = some ((resultAt numInodes fs p).1, (resultAt numInodes fs p).2, fds')
      ∧ DirectoryAt fds' fd (min (p + 1) numInodes.toNat) := by
  obtain ⟨h0, h7, hdir, hpos⟩ := h
  have hcall : readCall numInodes fs fds fd nbytes
      = some (directoryRead numInodes fs fds fd.toNat nbytes) := by
    rw [readCall, if_neg (by omega)]
    simp only [hdir]
  rw [hcall, directoryRead, resultAt]
  by_cases hend : p = numInodes.toNat
  · rw [if_pos (UInt32.toNat_inj.mp (hpos.trans hend)), if_pos hend]
    refine ⟨fds, rfl, h0, h7, hdir, ?_⟩
    rw [hpos, Nat.min_eq_right (by omega), hend]
  · have hne : ¬ (fds fd.toNat).filePos = numInodes := fun heq => hend (by rw [← hpos, heq])
    have hsize : (if nbytes > MAX_FILENAME_LENGTH then MAX_FILENAME_LENGTH else nbytes)
        = MAX_FILENAME_LENGTH := by
      split <;> omega
    have hlt := numInodes.toNat_lt
    rw [if_neg hne, if_neg hend]
    simp only [hsize, hpos]
    refine ⟨_, rfl, h0, h7, ?_, ?_⟩
    · rw [Function.update_self]
      exact hdir
    · have hone : (1 : UInt32).toNat = 1 := rfl
      rw [Function.update_self, Nat.min_eq_left (by omega), UInt32.toNat_add, hpos, hone]
      exact Nat.mod_eq_of_lt (by omega)

/-- **Reads one after the other** from position `p` on; at `num_inodes` they stay. -/
lemma readMany_eq (h : DirectoryAt fds fd p) (hp : p ≤ numInodes.toNat) {sizes : List ℕ}
    (hsizes : ∀ nbytes ∈ sizes, MAX_FILENAME_LENGTH ≤ nbytes) :
    readMany numInodes fs fd sizes fds
      = some ((List.range' p sizes.length).map fun i =>
          resultAt numInodes fs (min i numInodes.toNat)) := by
  have key : ∀ sizes : List ℕ, (∀ nbytes ∈ sizes, MAX_FILENAME_LENGTH ≤ nbytes) →
      ∀ fds i, DirectoryAt fds fd (min i numInodes.toNat) →
        readMany numInodes fs fd sizes fds
          = some ((List.range' i sizes.length).map fun i =>
              resultAt numInodes fs (min i numInodes.toNat)) := by
    intro sizes
    induction sizes with
    | nil => exact fun _ _ _ _ => rfl
    | cons nbytes sizes ih =>
        intro hsizes fds i hat
        obtain ⟨fds', hcall, hat'⟩ := readCall_eq fs hat (Nat.min_le_right _ _)
          (hsizes nbytes (List.mem_cons_self ..))
        have hnext : min (min i numInodes.toNat + 1) numInodes.toNat
            = min (i + 1) numInodes.toNat := by omega
        rw [hnext] at hat'
        rw [readMany, hcall, Option.bind_some,
          ih (fun b hb => hsizes b (List.mem_cons_of_mem _ hb)) fds' (i + 1) hat']
        rfl
  refine key sizes hsizes fds p ?_
  rwa [Nat.min_eq_left hp]

end Reads

/-! ### The listing -/

/-- What the reads return, against the first `n` entries. -/
lemma resultAt_entries_iff (numInodes : UInt32) (fs : Fs) (n : ℕ) :
    (∃ last, ((List.range (n + 1)).map fun i => resultAt numInodes fs (min i numInodes.toNat))
        = (fs.entries n).map Dentry.listed ++ [last] ∧ last.1 ≤ 0)
      ↔ n ≤ numInodes.toNat
        ∧ (numInodes.toNat = n ∨ (fs.dentries n).filename 0 = 0) := by
  rw [List.range_succ, List.map_append, List.map_singleton]
  have hentries : (fs.entries n).map Dentry.listed
      = (List.range n).map fun i => (fs.dentries i).listed := by
    rw [Fs.entries, List.map_map]
    rfl
  constructor
  · rintro ⟨last, heq, hlast⟩
    obtain ⟨hnames, hend⟩ := List.append_inj' heq rfl
    rw [hentries, List.map_inj_left] at hnames
    have hle : n ≤ numInodes.toNat := by
      by_contra hlt
      have hcut := hnames numInodes.toNat (List.mem_range.mpr (by omega))
      rw [Nat.min_self, resultAt, if_pos rfl] at hcut
      have hvalue : (-1 : ℤ) = (strlcpy (fs.dentries numInodes.toNat).filename
          MAX_FILENAME_LENGTH : ℤ) := congrArg Prod.fst hcut
      omega
    refine ⟨hle, or_iff_not_imp_left.mpr fun hne => ?_⟩
    obtain rfl := (List.cons.inj hend).1
    rw [Nat.min_eq_left hle, resultAt, if_neg fun h => hne h.symm, Dentry.listed] at hlast
    exact (strlcpy_eq_zero_iff _).mp (by omega)
  · rintro ⟨hle, hend⟩
    refine ⟨resultAt numInodes fs (min n numInodes.toNat), ?_, ?_⟩
    · rw [hentries]
      refine congrArg (· ++ _) (List.map_congr_left fun i hi => ?_)
      rw [List.mem_range] at hi
      rw [Nat.min_eq_left (by omega), resultAt, if_neg (by omega)]
    · rw [Nat.min_eq_left hle, resultAt]
      split
      · simp
      · rename_i hne
        have hname := hend.resolve_left fun h => hne h.symm
        rw [Dentry.listed, (strlcpy_eq_zero_iff _).mpr hname]
        exact le_rfl

/-- The listing that starts with an `open` returns the first `n` names. -/
lemma listsAll_iff {numInodes counter : UInt32} {fs : Fs} {fds : FdTable} {n : ℕ}
    (hopened : OpenedDirectory (openCall counter fs fds dotName)) :
    ListsAll numInodes fs (openCall counter fs fds dotName).2
        (openCall counter fs fds dotName).1 n
      ↔ n ≤ numInodes.toNat ∧ (numInodes.toNat = n ∨ (fs.dentries n).filename 0 = 0) := by
  obtain ⟨h2, h7, ino, hfd⟩ := openedDirectory_spec hopened
  have hat : DirectoryAt (openCall counter fs fds dotName).2
      (openCall counter fs fds dotName).1 0 := by
    refine ⟨by omega, h7, ?_, ?_⟩
    all_goals rw [hfd]
    rfl
  rw [← resultAt_entries_iff]
  constructor
  · intro h
    have hsizes : ∀ nbytes ∈ List.replicate (n + 1) MAX_FILENAME_LENGTH,
        MAX_FILENAME_LENGTH ≤ nbytes := fun b hb => (List.eq_of_mem_replicate hb).ge
    obtain ⟨last, hread, hlast⟩ := h _ List.length_replicate hsizes
    rw [readMany_eq hat (Nat.zero_le _) hsizes, List.length_replicate,
      ← List.range_eq_range'] at hread
    exact ⟨last, Option.some.inj hread, hlast⟩
  · rintro ⟨last, heq, hlast⟩ sizes hlen hsizes
    refine ⟨last, ?_, hlast⟩
    rw [readMany_eq hat (Nat.zero_le _) hsizes, hlen, ← List.range_eq_range', heq]

/-- **The listing of the directory** is complete exactly when `num_inodes` does not cut it off and
it ends behind the last name: by `num_inodes`, or by an entry without a name.  Behind a full boot
block that is what the memory there holds.  The directories that `creat` and `unlink` leave are of
the kind the listing is for. -/
theorem directory_listing_iff (numInodes : UInt32) :
    (∀ (counter : UInt32) (fs : Fs) (fds : FdTable) (n : ℕ),
      OpenedDirectory (openCall counter fs fds dotName) →
      (ListsAll numInodes fs (openCall counter fs fds dotName).2
          (openCall counter fs fds dotName).1 n
        ↔ n ≤ numInodes.toNat ∧ (numInodes.toNat = n ∨ (fs.dentries n).filename 0 = 0)))
    ∧ ∀ (s z : Mounted) (es : List FsEvent) (n : ℕ), s.fs.Row n → Run fsStep s es z →
      EveryStep fsStep s es FitsEntry → ∃ m, z.fs.Row m :=
  ⟨fun _ _ _ _ hopened => listsAll_iff hopened,
    fun _ _ _ n hrow hrun hfits => row_of_run ⟨n, hrow⟩ hrun hfits⟩

/-- A directory with an entry for itself, and a file `a`. -/
def dotAndFile : Fs where
  numDirEntries := 2
  dentries i :=
    { filename := fun k => if k = 0 then if i = 0 then 46 else if i = 1 then 97 else 0 else 0
      fileType := if i = 0 then FILE_TYPE_DIR else FILE_TYPE_REGULAR
      inodeNum := if i = 1 then 1 else 0
      reserved := fun _ => 0 }
  inodes _ := ⟨0, fun _ => 0⟩
  data _ _ := 0
  dataBlockBitmap _ := 0

lemma dotAndFile_row : dotAndFile.Row 2 := by
  refine ⟨by decide, by decide, fun i hi _ => ?_⟩
  have h0 : i ≠ 0 := by omega
  have h1 : i ≠ 1 := by omega
  simp [dotAndFile, h0, h1]

lemma dotAndFile_opened :
    OpenedDirectory (openCall 0 dotAndFile (fun _ => Fd.zero) dotName) :=
  ⟨by decide +kernel, by decide +kernel⟩

/-- With two inodes both names are listed; and the directory is of the kind that calls leave, here
one `unlink`. -/
theorem directory_listing_iff_dotAndFile :
    ListsAll 2 dotAndFile (openCall 0 dotAndFile (fun _ => Fd.zero) dotName).2
        (openCall 0 dotAndFile (fun _ => Fd.zero) dotName).1 2
      ∧ ∃ z, Run fsStep ⟨dotAndFile, fun _ => Fd.zero⟩ [.unlink nameA] z ∧ ∃ m, z.fs.Row m := by
  have hsome : ([FsEvent.unlink nameA].foldlM fsStep
      ⟨dotAndFile, fun _ => Fd.zero⟩).isSome := by decide +kernel
  obtain ⟨z, hrun⟩ := exists_run_of_isSome hsome
  refine ⟨?_, z, hrun, (directory_listing_iff 2).2 _ z _ 2 dotAndFile_row hrun
    (everyStep_singleton.mpr trivial)⟩
  exact ((directory_listing_iff 2).1 0 dotAndFile _ 2 dotAndFile_opened).mpr
    ⟨le_rfl, Or.inl rfl⟩

/-- With one inode the file is missing from the listing. -/
theorem listing_cutOff : dotAndFile.Row 2
    ∧ OpenedDirectory (openCall 0 dotAndFile (fun _ => Fd.zero) dotName)
    ∧ ¬ ListsAll 1 dotAndFile (openCall 0 dotAndFile (fun _ => Fd.zero) dotName).2
      (openCall 0 dotAndFile (fun _ => Fd.zero) dotName).1 2 := by
  refine ⟨dotAndFile_row, dotAndFile_opened, ?_⟩
  rw [listsAll_iff dotAndFile_opened]
  exact fun h => absurd h.1 (by decide)

end CustomLinuxOs
