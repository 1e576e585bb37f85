import CustomLinuxOs.Foundations.Run
import CustomLinuxOs.Filesystem.DirOperations

/-!
Reading files through the descriptors of one process.

* `ReadEvent`, `readStep`: opening, closing and reading; the state keeps what each descriptor
  has returned since it was opened.
* `InSequence`: every open file has been read from its start on, up to its position.
* `readers_independent`: in all states of a run the files are read in sequence, and no call moves
  the position of a descriptor that it is not for.
-/

namespace CustomLinuxOs

/-- A system call on files; `counter` is the clock at an `open`. -/
inductive ReadEvent where
  | open (counter : UInt32) (filename : CString)
  | close (fd : ℤ)
  | read (fd : ℕ) (nbytes : UInt32)

/-- A descriptor table, and the bytes `file_read` has returned on each descriptor since its
`open`. -/
structure Readers where
  fds : FdTable
  log : ℕ → List UInt8

/-- One call; `file_read` is for open regular files. -/
def readStep (fs : Fs) (t : Readers) : ReadEvent → Option Readers
  | .open counter filename =>
      let r := openCall counter fs t.fds filename
      some ⟨r.2, if r.1 < 0 then t.log else Function.update t.log r.1.toNat []⟩
  | .close fd => some { t with fds := (closeCall t.fds fd).2 }
  | .read fd nbytes =>
      if fd < MAX_OPEN_FILES ∧ (t.fds fd).fopsTable = some .regular then
        let r := fileRead fs t.fds fd nbytes
        some ⟨r.2, Function.update t.log fd (t.log fd ++ r.1)⟩
      else none

/-- The descriptor a call is for; an `open` is for the one it returns. -/
def ReadEvent.target (fs : Fs) (t : Readers) : ReadEvent → ℤ
  | .open counter filename => (openCall counter fs t.fds filename).1
  | .close fd => fd
  | .read fd _ => fd

/-- The number of bytes asked for is not negative. -/
def ReadEvent.Sized : ReadEvent → Prop
  | .read _ nbytes => nbytes.toNat < 2 ^ 31
  | _ => True

/-- What each open regular file has returned is a prefix of its contents, and its position is the
length of that prefix. -/
def InSequence (fs : Fs) (t : Readers) : Prop :=
  ∀ fd, (t.fds fd).fopsTable = some .regular →
    t.log fd <+: fs.contents (fs.inodes (t.fds fd).inodeNum.toNat)
      ∧ (t.fds fd).filePos.toNat = (t.log fd).length

/-- The call leaves the positions of all other descriptors alone. -/
def KeepsOthers (fs : Fs) (t : Readers) (e : ReadEvent) : Prop :=
  ∀ u, readStep fs t e = some u → ∀ k : ℕ, (k : ℤ) ≠ e.target fs t →
    (u.fds k).filePos = (t.fds k).filePos

/-! ### Steps -/

/-- An entry that is found is of a known type, so `open` can set up a descriptor for it; its
position starts at `0` for a regular file. -/
lemma openFd_of_found {fs : Fs} {filename : CString} {d : Dentry} (counter : UInt32)
    (h : readDentryByName fs filename = some d) :
    ∃ e, openFd counter d = some e ∧ (e.fopsTable = some .regular → e.filePos = 0) := by
  have hvalid : checkValidFileType d.fileType = true := by
    rw [readDentryByName] at h
    split at h
    · exact absurd h (by simp)
    · obtain ⟨i, hi, rfl⟩ := Option.map_eq_some_iff.mp h
      rw [findDentry] at hi
      have hmatch := List.find?_some hi
      exact (Bool.and_eq_true_iff.mp hmatch).1
  simp only [checkValidFileType, Bool.or_eq_true, beq_iff_eq] at hvalid
  rw [openFd]
  by_cases hreg : d.fileType = FILE_TYPE_REGULAR
  · exact ⟨_, if_pos hreg, fun _ => rfl⟩
  · rw [if_neg hreg]
    by_cases hdir : d.fileType = FILE_TYPE_DIR
    · exact ⟨_, if_pos hdir, fun h => by simp at h⟩
    · rw [if_neg hdir, if_pos (by tauto)]
      exact ⟨_, rfl, fun h => by simp at h⟩

/-- **`open`** changes nothing, or it sets up one closed descriptor and returns it. -/
lemma openCall_cases (counter : UInt32) (fs : Fs) (fds : FdTable) (filename : CString) :
    openCall counter fs fds filename = (SYSCALL_ERROR, fds)
      ∨ ∃ (fd : ℕ) (e : Fd),
        openCall counter fs fds filename = ((fd : ℤ), Function.update fds fd e)
        ∧ (e.fopsTable = some .regular → e.filePos = 0) := by
  rw [openCall]
  cases hd : readDentryByName fs filename with
  | none => exact Or.inl rfl
  | some d =>
      cases hfd : freeFd fds with
      | none => exact Or.inl rfl
      | some fd =>
          obtain ⟨e, he, hpos⟩ := openFd_of_found counter hd
          refine Or.inr ⟨fd, e, ?_, hpos⟩
          simp only [he]

/-- `close` changes at most its descriptor, which is closed then, and keeps all positions. -/
lemma closeCall_cases (fds : FdTable) (fd : ℤ) :
    (closeCall fds fd).2 = fds
      ∨ (closeCall fds fd).2
        = Function.update fds fd.toNat { fds fd.toNat with fopsTable := none } := by
  rw [closeCall]
  split_ifs
  · exact Or.inl rfl
  · exact Or.inl rfl
  · exact Or.inl rfl
  · exact Or.inr rfl

section Steps

variable {fs : Fs} {t u : Readers}

/-- A descriptor table that differs from one read in sequence at one descriptor only. -/
lemma InSequence.update (h : InSequence fs t) {fd : ℕ} {e : Fd} {l : List UInt8}
    (he : e.fopsTable = some .regular →
      l <+: fs.contents (fs.inodes e.inodeNum.toNat) ∧ e.filePos.toNat = l.length) :
    InSequence fs ⟨Function.update t.fds fd e, Function.update t.log fd l⟩ := by
  intro k hk
  by_cases hkf : k = fd
  · subst hkf
    simp only [Function.update_self] at hk ⊢
    exact he hk
  · simp only [Function.update_of_ne hkf] at hk ⊢
    exact h k hk

/-- **`file_read`** takes up the file where the descriptor left it. -/
lemma fileRead_inSequence {fd : ℕ} {nbytes : UInt32} (h : InSequence fs t)
    (hreg : (t.fds fd).fopsTable = some .regular) (hn : nbytes.toNat < 2 ^ 31) :
    InSequence fs ⟨(fileRead fs t.fds fd nbytes).2,
      Function.update t.log fd (t.log fd ++ (fileRead fs t.fds fd nbytes).1)⟩ := by
  refine h.update fun _ => ?_
  obtain ⟨hpre, hpos⟩ := h fd hreg
  set node := fs.inodes (t.fds fd).inodeNum.toNat with hnode
  set pos := (t.fds fd).filePos.toNat with hposdef
  set m := min nbytes.toNat (readableEnd node.length.toNat - pos) with hm
  have hbytes : (fileRead fs t.fds fd nbytes).1 = fs.fileSlice node pos m :=
    readData_eq fs _ _ nbytes (by rw [BLOCK_SIZE]; omega)
  have hlen : pos ≤ node.length.toNat := by
    have := hpre.length_le
    rw [Fs.contents, Fs.fileSlice_length] at this
    omega
  have hend : pos + m ≤ node.length.toNat := by
    have := readableEnd_le node.length.toNat
    omega
  have hlog : t.log fd = fs.fileSlice node 0 pos := by
    rw [List.prefix_iff_eq_take.mp hpre, ← hpos]
    exact Fs.fileSlice_take fs node 0 hlen
  constructor
  · rw [hbytes, hlog]
    have happ := Fs.fileSlice_add fs node 0 pos m
    rw [Nat.zero_add] at happ
    rw [← happ]
    exact Fs.fileSlice_prefix fs node hend
  · have hlt := node.length.toNat_lt
    calc ((t.fds fd).filePos
          + (readData fs (t.fds fd).inodeNum.toNat (t.fds fd).filePos nbytes).length.toUInt32).toNat
        = (pos + m % 2 ^ 32) % 2 ^ 32 := by
          rw [UInt32.toNat_add, show readData fs _ (t.fds fd).filePos nbytes = _ from hbytes,
            Fs.fileSlice_length]
          rfl
      _ = pos + m := by omega
      _ = (t.log fd ++ (fileRead fs t.fds fd nbytes).1).length := by
          rw [List.length_append, hbytes, Fs.fileSlice_length, ← hpos]

/-- **A call** keeps the files read in sequence. -/
lemma readStep_inSequence {e : ReadEvent} (h : InSequence fs t) (he : e.Sized)
    (hu : readStep fs t e = some u) : InSequence fs u := by
  cases e with
  | «open» counter filename =>
      obtain rfl := Option.some.inj hu
      rcases openCall_cases counter fs t.fds filename with hopen | ⟨fd, e, hopen, hpos⟩
      · rw [hopen]
        exact h
      · rw [hopen, if_neg (by simp), Int.toNat_natCast]
        refine h.update fun hreg => ⟨List.nil_prefix, ?_⟩
        rw [hpos hreg]
        rfl
  | close fd =>
      obtain rfl := Option.some.inj hu
      rcases closeCall_cases t.fds fd with hclose | hclose
      · rw [hclose]
        exact h
      · intro k hk
        rw [hclose] at hk ⊢
        by_cases hkf : k = fd.toNat
        · simp [hkf] at hk
        · simp only [Function.update_of_ne hkf] at hk ⊢
          exact h k hk
  | read fd nbytes =>
      rw [readStep] at hu
      split at hu
      · rename_i hopen
        obtain rfl := Option.some.inj hu
        exact fileRead_inSequence h hopen.2 he
      · exact absurd hu (by simp)

/-- **No interference**: a call is for one descriptor. -/
lemma readStep_keepsOthers (e : ReadEvent) : KeepsOthers fs t e := by
  intro u hu k hk
  cases e with
  | «open» counter filename =>
      obtain rfl := Option.some.inj hu
      rw [ReadEvent.target] at hk
      rcases openCall_cases counter fs t.fds filename with hopen | ⟨fd, e, hopen, -⟩
      · rw [hopen]
      · rw [hopen] at hk ⊢
        exact congrArg Fd.filePos (Function.update_of_ne (by simpa using hk) _ _)
  | close fd =>
      obtain rfl := Option.some.inj hu
      rcases closeCall_cases t.fds fd with hclose | hclose
      · rw [hclose]
      · rw [hclose]
        by_cases hkf : k = fd.toNat
        · simp only [hkf, Function.update_self]
        · exact congrArg Fd.filePos (Function.update_of_ne hkf _ _)
  | read fd nbytes =>
      rw [readStep] at hu
      split at hu
      · obtain rfl := Option.some.inj hu
        refine congrArg Fd.filePos (Function.update_of_ne ?_ _ _)
        rw [ReadEvent.target] at hk
        simpa using hk
      · exact absurd hu (by simp)

end Steps

/-! ### Runs -/

/-- **Independent readers.**  Let a process without open files open, close and read files, with
counts that are not negative, in any order.  In all states, what each descriptor has returned
since its `open` is a prefix of its file, with the position at its end; and no call moves the
position of another descriptor. -/
theorem readers_independent {fs : Fs} {t z : Readers} {es : List ReadEvent}
    (hnone : ∀ fd, (t.fds fd).fopsTable ≠ some .regular) (hes : ∀ e ∈ es, e.Sized)
    (hrun : Run (readStep fs) t es z) :
    EveryState (readStep fs) t es (InSequence fs)
      ∧ EveryStep (readStep fs) t es (KeepsOthers fs) := by
  refine ⟨?_, fun _ e _ _ _ _ => readStep_keepsOthers e⟩
  have hstart : InSequence fs t := fun fd hreg => absurd hreg (hnone fd)
  refine (everyState_iff_everyStep (V := ReadEvent.Sized) (I := fun _ => True)
    (C := fun _ _ => True) hrun hes trivial hstart ?_ ?_).mpr fun _ _ _ _ _ _ => trivial
  · exact fun t e u he _ ht hu => ⟨fun _ => trivial, fun _ => readStep_inSequence ht he hu⟩
  · exact fun _ _ _ _ _ _ _ _ => trivial

/-- The file is opened twice, and read through both descriptors in turn. -/
def twoReaders : List ReadEvent :=
  [.open 0 nameA, .open 0 nameA, .read 2 5, .read 3 1, .close 2]

theorem readers_independent_twoReaders :
    ∃ z, Run (readStep (oneFile 1)) ⟨fun _ => Fd.zero, fun _ => []⟩ twoReaders z
      ∧ EveryState (readStep (oneFile 1)) ⟨fun _ => Fd.zero, fun _ => []⟩ twoReaders
        (InSequence (oneFile 1))
      ∧ EveryStep (readStep (oneFile 1)) ⟨fun _ => Fd.zero, fun _ => []⟩ twoReaders
        (KeepsOthers (oneFile 1)) := by
  have hsome : (twoReaders.foldlM (readStep (oneFile 1))
      ⟨fun _ => Fd.zero, fun _ => []⟩).isSome := by decide +kernel
  obtain ⟨z, hrun⟩ := exists_run_of_isSome hsome
  refine ⟨z, hrun, readers_independent (fun _ h => absurd h (by simp [Fd.zero])) ?_ hrun⟩
  simp [twoReaders, ReadEvent.Sized]

end CustomLinuxOs
