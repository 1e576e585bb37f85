import CustomLinuxOs.Devices.Rtc
import CustomLinuxOs.Filesystem.DirectoryRead
import CustomLinuxOs.Filesystem.InodeOwnership
import CustomLinuxOs.Programs.MvSafety

/-!
`ece391ls.c` and `ece391cat.c`: programs that read and write to the terminal.

* `Program`: a running program, and the system calls it makes.
* `dirLoop`, `forNames`: the loop over the names of the directory, with what is done for each; it
  is the same in `ece391ls.c` and `ece391grep.c`.
* `forNames_eq`: what the loop comes to, up to where `num_inodes` cuts it off.
* `ls`, `ls_lists`: the names of the directory, each on a line.
* `cat`, `cat_prints`: what can be read of a file, in pieces of `1024` bytes.
-/

namespace CustomLinuxOs

/-! ### A running program -/

/-- The descriptors of a program, and what it has written to the terminal. -/
structure Program where
  fds : FdTable
  out : List UInt8

/-- A text of a program, without its terminator. -/
def programText (text : String) : List UInt8 := text.toList.map fun c => c.toNat.toUInt8

namespace Program

/-- A program as `push_pcb` sets it up. -/
def start : Program := ⟨setupFdtable fun _ => Fd.zero, []⟩

/-- `ece391_open`. -/
def openFile (counter : UInt32) (fs : Fs) (p : Program) (filename : CString) : ℤ × Program :=
  let r := openCall counter fs p.fds filename
  (r.1, { p with fds := r.2 })

/-- `ece391_read`: the value it returns and the bytes it leaves in the buffer.  For the clock this
is its return, after the wait; `none` for the terminal. -/
def readFile (numInodes : UInt32) (fs : Fs) (p : Program) (fd : ℤ) (nbytes : ℕ) :
    Option (ℤ × List UInt8 × Program) :=
  if 0 ≤ fd ∧ fd ≤ 7 ∧ (p.fds fd.toNat).fopsTable = some .rtc then
    let r := rtcRead p.fds fd.toNat
    some (0, [], { p with fds := rtcReadDone r.1 r.2 })
  else
    (readCall numInodes fs p.fds fd nbytes).map fun r => (r.1, r.2.1, { p with fds := r.2.2 })

/-- `ece391_write`, to the terminal; `none` for a descriptor of another kind, to which the programs
here do not write. -/
def write (p : Program) (fd : ℤ) (buf : List UInt8) : Option (ℤ × Program) :=
  if fd < 0 ∨ fd > 7 then some (SYSCALL_ERROR, p)
  else
    match (p.fds fd.toNat).fopsTable with
    | none => some (SYSCALL_ERROR, p)
    | some .tty =>
        if fd = 0 then some (-1, p) else some (buf.length, { p with out := p.out ++ buf })
    | some _ => none

/-- `ece391_fdputs` to descriptor `1`. -/
def puts (p : Program) (text : List UInt8) : Option Program := (p.write 1 text).map Prod.snd

end Program

/-! ### The names of the directory -/

/-- `SBUFSIZE`. -/
def SBUFSIZE : ℕ := 33

/-- What the programs say when they cannot read on. -/
def dirReadFailed : List UInt8 := programText "directory entry read failed\n"

/-- The loop over the directory, from its `i`-th pass on; `body` gets the bytes that were read.  The
first number bounds the passes. -/
def dirLoop (numInodes : UInt32) (fs : Fs) (fd : ℤ)
    (body : ℕ → List UInt8 → Program → Option (ℤ × Program)) :
    ℕ → ℕ → Program → Option (ℤ × Program)
  | 0, _, _ => none
  | k + 1, i, p =>
      (p.readFile numInodes fs fd (SBUFSIZE - 1)).bind fun r =>
        if r.1 = 0 then some (0, r.2.2)
        else if r.1 = -1 then (r.2.2.puts dirReadFailed).map fun p => (3, p)
        else
          (body i (r.2.1.take r.1.toNat) r.2.2).bind fun b =>
            if b.1 ≠ 0 then some (3, b.2) else dirLoop numInodes fs fd body k (i + 1) b.2

/-- Opening the directory, and the loop. -/
def forNames (passes : ℕ) (counter numInodes : UInt32) (fs : Fs)
    (body : ℕ → List UInt8 → Program → Option (ℤ × Program)) (p : Program) :
    Option (ℤ × Program) :=
  let opened := p.openFile counter fs dotName
  if opened.1 = -1 then
    (opened.2.puts (programText "directory open failed\n")).map fun p => (2, p)
  else dirLoop numInodes fs opened.1 body passes 0 opened.2

/-- What is done in `main` of `ece391ls.c` for a name. -/
def lsName (_ : ℕ) (name : List UInt8) (p : Program) : Option (ℤ × Program) :=
  (p.write 1 (name ++ [NEWLINE])).map fun r => (if r.1 = -1 then 3 else 0, r.2)

/-- `main` of `ece391ls.c`, with the value it returns. -/
def ls (passes : ℕ) (counter numInodes : UInt32) (fs : Fs) (p : Program) : Option (ℤ × Program) :=
  forNames passes counter numInodes fs lsName p

/-! ### Showing a file -/

/-- The loop of `main` of `ece391cat.c`. -/
def catLoop (numInodes : UInt32) (fs : Fs) (fd : ℤ) : ℕ → Program → Option (ℤ × Program)
  | 0, _ => none
  | k + 1, p =>
      (p.readFile numInodes fs fd 1024).bind fun r =>
        if r.1 = 0 then some (0, r.2.2)
        else if r.1 = -1 then
          (r.2.2.puts (programText "file read failed\n")).map fun p => (3, p)
        else
          (r.2.2.write 1 (r.2.1.take r.1.toNat)).bind fun w =>
            if w.1 = -1 then some (3, w.2) else catLoop numInodes fs fd k w.2

/-- `main` of `ece391cat.c`, with the value it returns. -/
def cat (passes : ℕ) (counter numInodes : UInt32) (fs : Fs) (command : CString) (p : Program) :
    Option (ℤ × Program) :=
  match getargs command with
  | none => (p.puts (programText "could not read arguments\n")).map fun p => (3, p)
  | some args =>
      let opened := p.openFile counter fs args
      if opened.1 = -1 then
        (opened.2.puts (programText "file not found\n")).map fun p => (2, p)
      else catLoop numInodes fs opened.1 passes opened.2

/-! ### The calls -/

section Calls

variable {numInodes : UInt32} {fs : Fs} {p : Program} {fds : FdTable} {fd : ℤ}

/-- Writing to the terminal. -/
lemma write_terminal (hout : (p.fds 1).fopsTable = some .tty) (buf : List UInt8) :
    p.write 1 buf = some ((buf.length : ℤ), { p with out := p.out ++ buf }) := by
  rw [Program.write, if_neg (by decide)]
  simp only [Int.toNat_one, hout]
  rfl

lemma puts_terminal (hout : (p.fds 1).fopsTable = some .tty) (text : List UInt8) :
    p.puts text = some { p with out := p.out ++ text } := by
  rw [Program.puts, write_terminal hout, Option.map_some]

/-- **`read`** leaves the other descriptors alone. -/
lemma readCall_frame {nbytes : ℕ} {r : ℤ × List UInt8 × FdTable}
    (h : readCall numInodes fs fds fd nbytes = some r) {k : ℕ} (hk : k ≠ fd.toNat) :
    r.2.2 k = fds k := by
  rw [readCall] at h
  split at h
  · obtain rfl := Option.some.inj h
    rfl
  · split at h
    · obtain rfl := Option.some.inj h
      rfl
    · obtain rfl := Option.some.inj h
      rw [directoryRead]
      split
      · rfl
      · exact Function.update_of_ne hk _ _
    · obtain rfl := Option.some.inj h
      exact Function.update_of_ne hk _ _
    · cases h

lemma readFile_of_ne_rtc (h : (p.fds fd.toNat).fopsTable ≠ some .rtc) (nbytes : ℕ) :
    p.readFile numInodes fs fd nbytes = (readCall numInodes fs p.fds fd nbytes).map fun r =>
      (r.1, r.2.1, { p with fds := r.2.2 }) :=
  if_neg fun hrtc => h hrtc.2.2

/-- A descriptor for a regular file, at a position. -/
structure ReadsAt (fds : FdTable) (fd ino q : ℕ) : Prop where
  regular : (fds fd).fopsTable = some .regular
  ino : (fds fd).inodeNum.toNat = ino
  pos : (fds fd).filePos.toNat = q

/-- The positions in a file do not reach `2 ^ 32`. -/
lemma readable_length (fs : Fs) (ino : ℕ) : (fs.readable ino).length < 2 ^ 32 := by
  rw [Fs.readable, Fs.fileSlice_length]
  exact (readableEnd_le _).trans_lt (UInt32.toNat_lt _)

/-- What has been read of a text, and what is left of it. -/
lemma take_append_drop_length (l : List UInt8) (q nbytes : ℕ) :
    (l.drop q).take nbytes ++ l.drop (q + ((l.drop q).take nbytes).length) = l.drop q := by
  set bytes := (l.drop q).take nbytes with hbytes
  have htake : bytes = (l.drop q).take bytes.length := by
    rw [hbytes, List.length_take, ← List.take_eq_take_min]
  conv_rhs => rw [← List.take_append_drop bytes.length (l.drop q)]
  rw [List.drop_drop, ← htake]

variable (numInodes) in
/-- **One read** of a regular file. -/
lemma readFile_regular {fd ino q nbytes : ℕ} (h : ReadsAt p.fds fd ino q) (hfd : fd < 8)
    (hq : q ≤ (fs.readable ino).length) (hn : nbytes ≤ 1024) :
    let bytes := ((fs.readable ino).drop q).take nbytes
    ∃ fds', p.readFile numInodes fs fd nbytes
        = some ((bytes.length : ℤ), bytes, ⟨fds', p.out⟩)
      ∧ ReadsAt fds' fd ino (q + bytes.length) ∧ ∀ k ≠ fd, fds' k = p.fds k := by
  intro bytes
  have hn' : nbytes.toUInt32.toNat = nbytes := Nat.mod_eq_of_lt (by omega)
  have hlt := readable_length fs ino
  have hend : (fs.readable ino).length = readableEnd (fs.inodes ino).length.toNat := by
    rw [Fs.readable, Fs.fileSlice_length]
  have hbytes : readData fs (p.fds fd).inodeNum.toNat (p.fds fd).filePos nbytes.toUInt32
      = bytes := by
    rw [readData_eq _ _ _ _ (by rw [hn', BLOCK_SIZE]; omega), h.ino, h.pos, hn', ← hend]
    set left := (fs.readable ino).length - q with hleft
    have hsplit : fs.readable ino
        = fs.fileSlice (fs.inodes ino) 0 q ++ fs.fileSlice (fs.inodes ino) q left := by
      have hadd := fs.fileSlice_add (fs.inodes ino) 0 q left
      rw [Nat.zero_add, show q + left = readableEnd (fs.inodes ino).length.toNat by omega] at hadd
      exact hadd
    have hdrop : (fs.readable ino).drop q = fs.fileSlice (fs.inodes ino) q left := by
      conv_lhs => rw [hsplit]
      exact List.drop_left' (Fs.fileSlice_length _ _ _ _)
    have htake : bytes = (fs.fileSlice (fs.inodes ino) q left).take nbytes := by
      rw [← hdrop]
    rw [htake]
    rcases Nat.le_total nbytes left with hle | hle
    · rw [Nat.min_eq_left hle, Fs.fileSlice_take _ _ _ hle]
    · rw [Nat.min_eq_right hle, List.take_of_length_le]
      rwa [Fs.fileSlice_length]
  have hlen : bytes.length ≤ (fs.readable ino).length - q := by
    rw [List.length_take, List.length_drop]
    exact Nat.min_le_right _ _
  have hrange : ¬ ((fd : ℤ) < 0 ∨ (fd : ℤ) > 7) := by omega
  have hnotRtc : (p.fds (fd : ℤ).toNat).fopsTable ≠ some .rtc := by
    rw [Int.toNat_natCast, h.regular]
    simp
  have hsmall : bytes.length.toUInt32.toNat = bytes.length := Nat.mod_eq_of_lt (by omega)
  refine ⟨Function.update p.fds fd
    { p.fds fd with filePos := (p.fds fd).filePos + bytes.length.toUInt32 }, ?_, ?_, ?_⟩
  · rw [readFile_of_ne_rtc hnotRtc, readCall, if_neg hrange]
    simp only [Int.toNat_natCast, h.regular, fileRead, hbytes]
    rfl
  · refine ⟨?_, ?_, ?_⟩
    · rw [Function.update_self]
      exact h.regular
    · rw [Function.update_self]
      exact h.ino
    · rw [Function.update_self, UInt32.toNat_add, h.pos, hsmall]
      exact Nat.mod_eq_of_lt (by omega)
  · exact fun k hk => Function.update_of_ne hk _ _

end Calls

/-! ### The loop over the directory -/

/-- The name of an entry, as `read` returns it. -/
def Dentry.readName (d : Dentry) : List UInt8 := d.listed.2.take d.listed.1.toNat

/-- The descriptors of a program that reads the directory and is about to read entry `i`. -/
structure ListsAt (fds : FdTable) (i : ℕ) : Prop where
  stdout : (fds 1).fopsTable = some .tty
  dir : DirectoryAt fds 2 i
  closed : ∀ k, 3 ≤ k → k < 8 → (fds k).fopsTable = none

/-- How the loop ends: with a complaint, where `num_inodes` cuts the listing off. -/
def dirEnd (cut : Prop) [Decidable cut] : ℤ × List UInt8 :=
  if cut then (3, dirReadFailed) else (0, [])

section Loop

variable {numInodes : UInt32} {fs : Fs} {p : Program} {i m : ℕ}
  {body : ℕ → List UInt8 → Program → Option (ℤ × Program)} {f : ℕ → List UInt8}

/-- **One read** of the directory. -/
lemma readFile_listsAt (fs : Fs) (h : ListsAt p.fds i) (hi : i ≤ numInodes.toNat) :
    ∃ fds', p.readFile numInodes fs 2 (SBUFSIZE - 1)
        = some ((resultAt numInodes fs i).1, (resultAt numInodes fs i).2, ⟨fds', p.out⟩)
      ∧ ListsAt fds' (min (i + 1) numInodes.toNat) := by
  have hsize : MAX_FILENAME_LENGTH ≤ SBUFSIZE - 1 := le_rfl
  have hnotRtc : (p.fds (2 : ℤ).toNat).fopsTable ≠ some .rtc := by
    rw [h.dir.2.2.1]
    simp
  obtain ⟨fds', hcall, hat⟩ := readCall_eq fs h.dir hi hsize
  have hframe {k : ℕ} (hk : k ≠ 2) : fds' k = p.fds k := readCall_frame hcall hk
  refine ⟨fds', ?_, ?_, hat, fun k hlow hhigh => ?_⟩
  · rw [readFile_of_ne_rtc hnotRtc, hcall, Option.map_some]
  · rw [hframe (by decide)]
    exact h.stdout
  · rw [hframe (by omega)]
    exact h.closed k hlow hhigh

/-- **The loop**, when each name makes the program write `f i`: it stops at the end of the row or
where `num_inodes` cuts it off. -/
lemma dirLoop_eq (hm : m ≤ numInodes.toNat)
    (hnames : ∀ i < m, i < numInodes.toNat ∧ (fs.dentries i).filename 0 ≠ 0)
    (hend : m = numInodes.toNat ∨ (fs.dentries m).filename 0 = 0)
    (hbody : ∀ i < m, ∀ p : Program, ListsAt p.fds (i + 1) →
      ∃ fds', body i (fs.dentries i).readName p = some (0, ⟨fds', p.out ++ f i⟩)
        ∧ ListsAt fds' (i + 1)) {d k : ℕ} (hd : i + d = m) (hk : d < k)
    (hp : ListsAt p.fds i) : ∃ fds', dirLoop numInodes fs 2 body k i p
      = some ((dirEnd (m = numInodes.toNat)).1, ⟨fds', p.out ++ (List.range' i d).flatMap f
          ++ (dirEnd (m = numInodes.toNat)).2⟩) := by
  induction d generalizing i k p with
  | zero =>
      obtain ⟨k, rfl⟩ := Nat.exists_eq_succ_of_ne_zero (by omega : k ≠ 0)
      obtain rfl : i = m := by omega
      obtain ⟨fds', hread, hat⟩ := readFile_listsAt fs hp hm
      rw [dirLoop, hread, Option.bind_some, resultAt, dirEnd, List.range'_zero, List.flatMap_nil,
        List.append_nil]
      by_cases hcut : i = numInodes.toNat
      · rw [if_pos hcut, if_pos hcut]
        simp only [puts_terminal (p := ⟨fds', p.out⟩) hat.stdout, Option.map_some]
        exact ⟨fds', rfl⟩
      · have hzero : (fs.dentries i).listed.1 = 0 := by
          rw [Dentry.listed, (strlcpy_eq_zero_iff _).mpr (hend.resolve_left hcut)]
          rfl
        rw [if_neg hcut, if_neg hcut, if_pos hzero]
        exact ⟨fds', by rw [List.append_nil]⟩
  | succ d ih =>
      obtain ⟨k, rfl⟩ := Nat.exists_eq_succ_of_ne_zero (by omega : k ≠ 0)
      obtain ⟨hlt, hname⟩ := hnames i (by omega)
      obtain ⟨fds₁, hread, hat⟩ := readFile_listsAt fs hp hlt.le
      rw [Nat.min_eq_left (by omega)] at hat
      obtain ⟨fds₂, hdone, hat'⟩ := hbody i (by omega) ⟨fds₁, p.out⟩ hat
      obtain ⟨fds₃, hrest⟩ := ih (k := k) (p := ⟨fds₂, p.out ++ f i⟩) (by omega) (by omega) hat'
      have hpos : (fs.dentries i).listed.1 ≠ 0 := by
        rw [Dentry.listed]
        exact Int.natCast_ne_zero.mpr fun h => hname ((strlcpy_eq_zero_iff _).mp h)
      have hnot : (fs.dentries i).listed.1 ≠ -1 := by
        rw [Dentry.listed]
        exact fun h => absurd h (by omega)
      refine ⟨fds₃, ?_⟩
      rw [dirLoop, hread, Option.bind_some, resultAt, if_neg hlt.ne, if_neg hpos, if_neg hnot,
        ← Dentry.readName, hdone, Option.bind_some, if_neg (by simp), hrest, List.range'_succ,
        List.flatMap_cons]
      simp only [List.append_assoc]

/-- The directory has an entry for itself. -/
def HasDot (fs : Fs) : Prop :=
  ∃ d, readDentryByName fs dotName = some d ∧ d.fileType = FILE_TYPE_DIR

/-- A program starts with descriptors for the terminal only. -/
lemma start_closed {k : ℕ} (hk : 2 ≤ k) : (Program.start.fds k).fopsTable = none := by
  have hone : k ≠ 1 := by omega
  have hzero : k ≠ 0 := by omega
  simp only [Program.start, setupFdtable, Function.update_of_ne hone, Function.update_of_ne hzero]
  rfl

/-- Opening the directory at the start of a program. -/
lemma openFile_dot (counter : UInt32) (hdot : HasDot fs) : ∃ fds,
    Program.start.openFile counter fs dotName = (2, ⟨fds, []⟩) ∧ ListsAt fds 0 := by
  obtain ⟨d, hd, htype⟩ := hdot
  have hfree : freeFd Program.start.fds = some 2 := rfl
  refine ⟨Function.update Program.start.fds 2 ⟨some .dir, d.inodeNum, 0, 0⟩, ?_, ?_⟩
  · simp only [Program.openFile, openCall, hd, hfree, openFd, htype, if_true]
    rfl
  · refine ⟨rfl, ⟨by decide, by decide, ?_, ?_⟩, fun k hlow hhigh => ?_⟩
    · rw [show (2 : ℤ).toNat = 2 from rfl, Function.update_self]
    · rw [show (2 : ℤ).toNat = 2 from rfl, Function.update_self]
      rfl
    · rw [Function.update_of_ne (by omega)]
      exact start_closed (by omega)

/-- **The loop over a row of names**, from the start of a program. -/
theorem forNames_eq {n passes : ℕ} (counter : UInt32) (hdot : HasDot fs) (hrow : fs.Row n)
    (hroom : n < MAX_FILES) (hpasses : n < passes)
    (hbody : ∀ i < n, ∀ p : Program, ListsAt p.fds (i + 1) →
      ∃ fds', body i (fs.dentries i).readName p = some (0, ⟨fds', p.out ++ f i⟩)
        ∧ ListsAt fds' (i + 1)) :
    ∃ fds', forNames passes counter numInodes fs body Program.start
      = some ((dirEnd (numInodes.toNat ≤ n)).1,
        ⟨fds', (List.range (min n numInodes.toNat)).flatMap f
          ++ (dirEnd (numInodes.toNat ≤ n)).2⟩) := by
  obtain ⟨fds, hopen, hat⟩ := openFile_dot counter hdot
  set m := min n numInodes.toNat with hmin
  have hend : m = numInodes.toNat ∨ (fs.dentries m).filename 0 = 0 := by
    rcases Nat.le_total numInodes.toNat n with hle | hle
    · exact Or.inl (Nat.min_eq_right hle)
    · refine Or.inr ?_
      rw [hmin, Nat.min_eq_left hle]
      exact hrow.rest n le_rfl hroom
  have hcut : dirEnd (m = numInodes.toNat) = dirEnd (numInodes.toNat ≤ n) :=
    if_congr (by omega) rfl rfl
  have hnames : ∀ i < m, i < numInodes.toNat ∧ (fs.dentries i).filename 0 ≠ 0 := fun i hi =>
    ⟨by omega, (dentryAt_eq_true_iff.mp (hrow.valid i (by omega))).2⟩
  obtain ⟨fds', hloop⟩ := dirLoop_eq (p := ⟨fds, []⟩) (i := 0) (k := passes)
    (Nat.min_le_right n numInodes.toNat) hnames hend (fun i hi => hbody i (by omega))
    (Nat.zero_add m) (by omega) hat
  rw [← hmin, hcut, List.nil_append, ← List.range_eq_range'] at hloop
  refine ⟨fds', ?_⟩
  rw [forNames, hopen, if_neg (by simp)]
  exact hloop

end Loop

/-! ### What the programs print -/

section Print

variable {fs : Fs} {p : Program}

/-- **`ls`** prints the names of the directory in their order, each on a line, and the message that
it cannot read on if `num_inodes` is not more than their number. -/
theorem ls_lists {n passes : ℕ} (counter numInodes : UInt32) (hdot : HasDot fs) (hrow : fs.Row n)
    (hroom : n < MAX_FILES) (hpasses : n < passes) :
    ∃ fds, ls passes counter numInodes fs Program.start
      = some ((dirEnd (numInodes.toNat ≤ n)).1,
        ⟨fds, ((fs.entries n).take numInodes.toNat).flatMap (fun d => d.readName ++ [NEWLINE])
          ++ (dirEnd (numInodes.toNat ≤ n)).2⟩) := by
  have hbody : ∀ i < n, ∀ p : Program, ListsAt p.fds (i + 1) →
      ∃ fds', lsName i (fs.dentries i).readName p
          = some (0, ⟨fds', p.out ++ ((fs.dentries i).readName ++ [NEWLINE])⟩)
        ∧ ListsAt fds' (i + 1) := by
    intro i _ p hp
    refine ⟨p.fds, ?_, hp⟩
    rw [lsName, write_terminal hp.stdout, Option.map_some, if_neg (by omega)]
  have hnames : ((fs.entries n).take numInodes.toNat).flatMap (fun d => d.readName ++ [NEWLINE])
      = (List.range (min n numInodes.toNat)).flatMap
          fun i => (fs.dentries i).readName ++ [NEWLINE] := by
    rw [Fs.entries, ← List.map_take, List.take_range, List.flatMap_map, Nat.min_comm]
  rw [hnames]
  exact forNames_eq counter hdot hrow hroom hpasses hbody

/-- **The loop of `cat`** prints the rest of the file. -/
lemma catLoop_eq (numInodes : UInt32) {k fd ino q : ℕ} (hfd : 2 ≤ fd) (hfd' : fd < 8)
    (hout : (p.fds 1).fopsTable = some .tty) (hat : ReadsAt p.fds fd ino q)
    (hq : q ≤ (fs.readable ino).length) (hk : (fs.readable ino).length - q < k) :
    ∃ fds, catLoop numInodes fs fd k p
      = some (0, ⟨fds, p.out ++ (fs.readable ino).drop q⟩) := by
  induction k generalizing p q with
  | zero => omega
  | succ k ih =>
      obtain ⟨fds, hread, hat', hframe⟩ :=
        readFile_regular numInodes hat hfd' hq le_rfl
      set bytes := ((fs.readable ino).drop q).take 1024 with hbytes
      have hlen : bytes.length = min 1024 ((fs.readable ino).length - q) := by
        rw [hbytes, List.length_take, List.length_drop]
      rw [catLoop, hread, Option.bind_some]
      by_cases hend : bytes.length = 0
      · have hrest : (fs.readable ino).drop q = [] := List.drop_eq_nil_of_le (by omega)
        rw [if_pos (by rw [hend]; rfl), hrest, List.append_nil]
        exact ⟨fds, rfl⟩
      · have hout' : (fds 1).fopsTable = some .tty := by
          rw [hframe 1 (by omega)]
          exact hout
        have hwrite := write_terminal (p := ⟨fds, p.out⟩) hout' bytes
        obtain ⟨fds', hloop⟩ := ih (p := ⟨fds, p.out ++ bytes⟩) hout' hat' (by omega) (by omega)
        have hsplit : bytes ++ (fs.readable ino).drop (q + bytes.length)
            = (fs.readable ino).drop q := take_append_drop_length _ q 1024
        refine ⟨fds', ?_⟩
        rw [if_neg (by omega), if_neg (by omega), Int.toNat_natCast, List.take_length, hwrite,
          Option.bind_some, if_neg (by omega), hloop, List.append_assoc, hsplit]

/-- **`cat`** prints what can be read of a file. -/
theorem cat_prints {passes : ℕ} (counter numInodes : UInt32) {command args : CString} {d : Dentry}
    (hargs : getargs command = some args) (hd : readDentryByName fs args = some d)
    (hreg : d.fileType = FILE_TYPE_REGULAR)
    (hpasses : (fs.readable d.inodeNum.toNat).length < passes) :
    ∃ fds, cat passes counter numInodes fs command Program.start
      = some (0, ⟨fds, fs.readable d.inodeNum.toNat⟩) := by
  have hfree : freeFd Program.start.fds = some 2 := rfl
  set fds := Function.update Program.start.fds 2 ⟨some .regular, d.inodeNum, 0, 0⟩ with hfds
  have hopen : Program.start.openFile counter fs args = (2, ⟨fds, []⟩) := by
    rw [Program.openFile, openCall_regular counter hd hreg hfree]
    rfl
  have hself : fds 2 = ⟨some .regular, d.inodeNum, 0, 0⟩ := Function.update_self _ _ _
  have hat : ReadsAt fds 2 d.inodeNum.toNat 0 := by
    refine ⟨?_, ?_, ?_⟩
    all_goals rw [hself]
    rfl
  have hout : (fds 1).fopsTable = some .tty := rfl
  obtain ⟨fds', hloop⟩ := catLoop_eq numInodes (p := ⟨fds, []⟩) (k := passes)
    le_rfl (by decide) hout hat (Nat.zero_le _) (by omega)
  rw [List.drop_zero, List.nil_append] at hloop
  refine ⟨fds', ?_⟩
  rw [cat, hargs]
  simp only [hopen]
  rw [if_neg (by decide)]
  exact hloop

end Print

/-- `"cat a"`. -/
def catCommand : CString := ⟨[99, 97, 116, 32, 97], by decide⟩

/-- The five bytes of a file `a`. -/
theorem cat_prints_oneFile : ∃ fds, cat 6 0 0 (oneFile 5) catCommand Program.start
    = some (0, ⟨fds, [7, 7, 7, 7, 7]⟩) := by
  have hfound : readDentryByName (oneFile 5) nameA = some ((oneFile 5).dentries 0) := by
    rw [readDentryByName, if_neg (by decide), show findDentry (oneFile 5) nameA = some 0 by
      decide +kernel]
    rfl
  have hargs : getargs catCommand = some nameA := rfl
  exact cat_prints 0 0 hargs hfound rfl (by decide)

/-- A directory of two names, behind which `num_inodes` does not cut off the listing. -/
theorem ls_lists_dotAndFile : ∃ fds, ls 3 0 5 dotAndFile Program.start
    = some (0, ⟨fds, [46, NEWLINE, 97, NEWLINE]⟩) := by
  have hdot : HasDot dotAndFile := by
    refine ⟨dotAndFile.dentries 0, ?_, rfl⟩
    rw [readDentryByName, if_neg (by decide), show findDentry dotAndFile dotName = some 0 by
      decide +kernel]
    rfl
  exact ls_lists 0 5 hdot dotAndFile_row (by decide) (by decide)

end CustomLinuxOs
