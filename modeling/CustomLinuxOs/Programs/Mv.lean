import CustomLinuxOs.Filesystem.Names
import CustomLinuxOs.Filesystem.WriteBack
import CustomLinuxOs.Terminal.Display

/-!
`ece391mv.c`, with what it uses of `ece391support.c` and the system calls it makes.

* `getargs`, `mvFrom`, `mvTo`: the two names, out of the command.
* `writeCall`, `fdputs`: writing a string, whose end is the first terminator in memory.
* `mvLoop`, `mv`: the program.  `MvEnv` holds what it finds in memory and at the clock.
* `mvLoop_mvPasses`: the loop ends as long as there is a terminator behind the buffer.
* `mvLoop_onePass`: a file of one piece is written by one call.
* `mvLoop_invariant`: what each read and each write keeps, the loop keeps.
-/

namespace CustomLinuxOs

/-! ### The arguments -/

/-- A string made of bytes of another one. -/
def CString.piece (s : CString) (l : List UInt8) (h : l ⊆ s.val) : CString :=
  ⟨l, fun hzero => s.prop (h hzero)⟩

/-- `getargs`, with the command of the current process; `none` when it returns `-1`.  A command has
at most `MAX_TERMINAL_BUF_SIZE` bytes, so the buffers of the program hold what it copies. -/
def getargs (command : CString) : Option CString :=
  let args := (command.val.dropWhile (· != SPACE)).dropWhile (· == SPACE)
  if args = [] then none
  else some (command.piece args
    ((List.dropWhile_suffix _).trans (List.dropWhile_suffix _)).subset)

/-- `from`. -/
def mvFrom (args : CString) : CString :=
  args.piece (args.val.takeWhile (· != SPACE)) (List.takeWhile_subset _)

/-- `to`.  The loop that is to pass over the spaces takes no step, since no byte is a space and a
terminator at once; so one byte is passed over. -/
def mvTo (args : CString) : CString :=
  args.piece (args.val.drop ((mvFrom args).length + 1)) (List.drop_subset _ _)

/-! ### System calls -/

/-- `write`.  Of its effects only those on files are modelled; a directory has none, and the clock
keeps its new rate in a field of the descriptor that is not read here. -/
def writeCall (s : Mounted) (fd : ℤ) (buf : List UInt8) (stale : UInt32) : Mounted :=
  if fd < 0 ∨ fd > 7 then s
  else
    match (s.fds fd.toNat).fopsTable with
    | some .regular =>
        { s with fs := (fileWrite s.fs s.fds fd.toNat buf buf.length.toUInt32 stale).2 }
    | _ => s

/-- `ece391_fdputs`, for the string at the start of `mem`; `none` when there is no terminator up to
the end of the stack. -/
def fdputs (s : Mounted) (fd : ℤ) (mem : List UInt8) (stale : UInt32) : Option Mounted :=
  if 0 ∈ mem then some (writeCall s fd (mem.takeWhile (· != 0)) stale) else none

/-! ### The program -/

/-- What the program finds: the clock at its calls of `open` and `creat`, the stack from `buf` on,
and the values of `data_block_count` before `file_write` sets it, call by call. -/
structure MvEnv where
  openClock : UInt32
  creatClock : UInt32
  stack : List UInt8
  stale : ℕ → UInt32

/-- The size of `buf`. -/
def MV_BUFSIZE : ℕ := 6000

/-- A text of the program, with its terminator. -/
def cText (text : String) : List UInt8 := text.toList.map (fun c => c.toNat.toUInt8) ++ [0]

/-- The loop of `main`, from its `i`-th pass on; `mem` is the stack from `buf` on.  The first
argument bounds the passes. -/
def mvLoop (stale : ℕ → UInt32) (fdFrom : ℕ) (fdTo : ℤ) :
    ℕ → ℕ → Mounted → List UInt8 → Option Mounted
  | 0, _, _, _ => none
  | k + 1, i, s, mem =>
      let r := fileRead s.fs s.fds fdFrom MV_BUFSIZE.toUInt32
      let s := { s with fds := r.2 }
      if r.1 = [] then some s
      else
        let mem := r.1 ++ mem.drop r.1.length
        (fdputs s fdTo mem (stale i)).bind fun s => mvLoop stale fdFrom fdTo k (i + 1) s mem

/-- More passes than the loop takes: each reads a byte of the source, which is never longer than it
was, or than what lies on the stack. -/
def mvPasses (env : MvEnv) (s : Mounted) (fdFrom : ℕ) : ℕ :=
  (s.fs.inodes (s.fds fdFrom).inodeNum.toNat).length.toNat + env.stack.length + MV_BUFSIZE + 1

/-- `main`, with the value it returns.  `none` where it leaves its arrays; a source that is a
directory or the clock, which is no sequence of bytes, is not modelled. -/
def mv (env : MvEnv) (s : Mounted) (command : CString) : Option (ℤ × Mounted) :=
  match getargs command with
  | none =>
      (fdputs s 1 (cText "could not read argument\n") (env.stale 0)).map fun s => (3, s)
  | some args =>
      let opened := openCall env.openClock s.fs s.fds (mvFrom args)
      let s := { s with fds := opened.2 }
      if opened.1 = -1 then
        (fdputs s 1 (cText "file not found\n") (env.stale 0)).map fun s => (2, s)
      else if (s.fds opened.1.toNat).fopsTable ≠ some .regular then none
      else
        let created := creat env.creatClock s.fs s.fds (mvTo args)
        let s : Mounted := ⟨created.2.1, created.2.2⟩
        (mvLoop env.stale opened.1.toNat created.1 (mvPasses env s opened.1.toNat) 0 s
          env.stack).bind fun s =>
            (unlink s.fs (mvFrom args)).map fun r => (0, { s with fs := r.2 })

/-! ### The loop -/

/-- A descriptor is open for a regular file. -/
def OpenOn (fds : FdTable) (fd ino : ℕ) : Prop :=
  (fds fd).fopsTable = some .regular ∧ (fds fd).inodeNum.toNat = ino

/-- What `write` leaves alone. -/
lemma writeCall_frame (s : Mounted) (fd : ℤ) (buf : List UInt8) (stale : UInt32) :
    (writeCall s fd buf stale).fds = s.fds
      ∧ (writeCall s fd buf stale).fs.dentries = s.fs.dentries := by
  rw [writeCall]
  split
  · exact ⟨rfl, rfl⟩
  · split
    · exact ⟨rfl, by rw [fileWrite_eq]⟩
    · exact ⟨rfl, rfl⟩

/-- `write` to an open file. -/
lemma writeCall_of_openOn {s : Mounted} {fd ino : ℕ} (h : OpenOn s.fds fd ino) (hfd : fd < 8)
    (buf : List UInt8) (stale : UInt32) : writeCall s fd buf stale
      = { s with fs := (fileWrite s.fs s.fds fd buf buf.length.toUInt32 stale).2 } := by
  have hrange : ¬ ((fd : ℤ) < 0 ∨ (fd : ℤ) > 7) := by omega
  rw [writeCall, if_neg hrange]
  simp only [Int.toNat_natCast, h.1]

/-- Inodes after `file_write`. -/
lemma fileWrite_inodes (fs : Fs) {fds : FdTable} {fd ino : ℕ} (h : OpenOn fds fd ino)
    (buf : List UInt8) (nbytes stale : UInt32) :
    ((fileWrite fs fds fd buf nbytes stale).2.inodes ino).length = nbytes
      ∧ ∀ m ≠ ino, (fileWrite fs fds fd buf nbytes stale).2.inodes m = fs.inodes m := by
  rw [fileWrite_eq]
  simp only [h.2]
  refine ⟨?_, fun m hm => Function.update_of_ne hm _ _⟩
  rw [Function.update_self]

/-- **`file_write`** depends on the descriptor only through its inode. -/
lemma fileWrite_congr {fs : Fs} {fds fds' : FdTable} {fd fd' : ℕ}
    (h : (fds fd).inodeNum = (fds' fd').inodeNum) (buf : List UInt8) (nbytes stale : UInt32) :
    (fileWrite fs fds fd buf nbytes stale).2 = (fileWrite fs fds' fd' buf nbytes stale).2 := by
  simp only [fileWrite, h]

section Read

variable {fs : Fs} {fds : FdTable} {fd : ℕ}

/-- What `file_read` reads. -/
lemma fileRead_bytes (fs : Fs) (fds : FdTable) (fd : ℕ) :
    let node := fs.inodes (fds fd).inodeNum.toNat
    (fileRead fs fds fd MV_BUFSIZE.toUInt32).1 = fs.fileSlice node (fds fd).filePos.toNat
      (min MV_BUFSIZE (readableEnd node.length.toNat - (fds fd).filePos.toNat)) :=
  readData_eq fs _ _ _ (by decide)

lemma fileRead_length_le (fs : Fs) (fds : FdTable) (fd : ℕ) :
    (fileRead fs fds fd MV_BUFSIZE.toUInt32).1.length ≤ MV_BUFSIZE := by
  rw [fileRead_bytes, Fs.fileSlice_length]
  exact Nat.min_le_left _ _

/-- Reading moves one position and leaves all files open. -/
lemma OpenOn.fileRead {fd' ino : ℕ} (h : OpenOn fds fd' ino) (nbytes : UInt32) :
    OpenOn (CustomLinuxOs.fileRead fs fds fd nbytes).2 fd' ino := by
  rw [CustomLinuxOs.fileRead, OpenOn]
  rcases eq_or_ne fd' fd with rfl | hne
  · simp only [Function.update_self]
    exact h
  · simp only [Function.update_of_ne hne]
    exact h

/-- The position after a read. -/
lemma filePos_fileRead (fs : Fs) (fds : FdTable) (fd : ℕ) (h : (fds fd).filePos.toNat
      ≤ readableEnd (fs.inodes (fds fd).inodeNum.toNat).length.toNat) :
    ((fileRead fs fds fd MV_BUFSIZE.toUInt32).2 fd).filePos.toNat
      = (fds fd).filePos.toNat + (fileRead fs fds fd MV_BUFSIZE.toUInt32).1.length := by
  have hlen : (fileRead fs fds fd MV_BUFSIZE.toUInt32).1.length
      ≤ readableEnd (fs.inodes (fds fd).inodeNum.toNat).length.toNat - (fds fd).filePos.toNat := by
    rw [fileRead_bytes, Fs.fileSlice_length]
    exact Nat.min_le_right _ _
  have hend := readableEnd_le (fs.inodes (fds fd).inodeNum.toNat).length.toNat
  have hlt := (fs.inodes (fds fd).inodeNum.toNat).length.toNat_lt
  set len := (fileRead fs fds fd MV_BUFSIZE.toUInt32).1.length
  have hpos : ((fileRead fs fds fd MV_BUFSIZE.toUInt32).2 fd).filePos
      = (fds fd).filePos + len.toUInt32 := by
    rw [fileRead]
    simp only [Function.update_self]
    rfl
  have hsmall : len.toUInt32.toNat = len := Nat.mod_eq_of_lt (by omega)
  rw [hpos, UInt32.toNat_add, hsmall, Nat.mod_eq_of_lt (by omega)]

end Read

section Loop

variable {stale : ℕ → UInt32} {fdFrom : ℕ} {fdTo : ℤ} {s z : Mounted} {mem : List UInt8}

/-- A terminator at byte `n` ends the string there at the latest. -/
lemma takeWhile_length_le {l : List UInt8} {n : ℕ} (h : l[n]? = some 0) :
    (l.takeWhile (· != 0)).length ≤ n := by
  by_contra hgt
  have hlt : n < (l.takeWhile (· != 0)).length := Nat.lt_of_not_le hgt
  have hget : (l.takeWhile (· != 0))[n] = 0 := by
    rw [(List.takeWhile_prefix _).getElem hlt]
    exact (List.getElem?_eq_some_iff.mp h).2
  have hne := List.all_eq_true.mp List.all_takeWhile _ (List.getElem_mem hlt)
  rw [hget] at hne
  cases hne

/-- Reading into the buffer leaves the byte behind it alone. -/
lemma behind_buffer (mem : List UInt8) {bytes : List UInt8} (hlen : bytes.length ≤ MV_BUFSIZE) :
    (bytes ++ mem.drop bytes.length)[MV_BUFSIZE]? = mem[MV_BUFSIZE]? := by
  rw [List.getElem?_append_right hlen, List.getElem?_drop, Nat.add_sub_cancel' hlen]

/-- **The invariant rule of the loop**, when the byte behind the buffer is a terminator. -/
theorem mvLoop_invariant {P : Mounted → Prop} {k i : ℕ} (hmem : mem[MV_BUFSIZE]? = some 0)
    (hread : ∀ s, P s → P { s with fds := (fileRead s.fs s.fds fdFrom MV_BUFSIZE.toUInt32).2 })
    (hwrite : ∀ s text stale, P s → text.length ≤ MV_BUFSIZE → P (writeCall s fdTo text stale))
    (hs : P s) (hz : mvLoop stale fdFrom fdTo k i s mem = some z) : P z := by
  induction k generalizing i s mem with
  | zero => cases hz
  | succ k ih =>
      rw [mvLoop] at hz
      simp only at hz
      split at hz
      · obtain rfl := Option.some.inj hz
        exact hread s hs
      · obtain ⟨t, ht, hz⟩ := Option.bind_eq_some_iff.mp hz
        have hbehind := behind_buffer mem (fileRead_length_le s.fs s.fds fdFrom)
        rw [hmem] at hbehind
        rw [fdputs, if_pos (List.mem_of_getElem? hbehind)] at ht
        obtain rfl := Option.some.inj ht
        exact ih hbehind (hwrite _ _ _ (hread s hs) (takeWhile_length_le hbehind)) hz

/-- The length of a file after `write`. -/
lemma writeCall_length (s : Mounted) (fd : ℤ) (buf : List UInt8) (stale : UInt32) (ino : ℕ) :
    ((writeCall s fd buf stale).fs.inodes ino).length = (s.fs.inodes ino).length
      ∨ ((writeCall s fd buf stale).fs.inodes ino).length = buf.length.toUInt32 := by
  rw [writeCall]
  split
  · exact Or.inl rfl
  · split
    · rename_i hopen
      obtain ⟨hwritten, hothers⟩ := fileWrite_inodes s.fs ⟨hopen, rfl⟩ buf
        buf.length.toUInt32 stale
      rcases eq_or_ne ino (s.fds fd.toNat).inodeNum.toNat with rfl | hne
      · exact Or.inr hwritten
      · exact Or.inl (congrArg Inode.length (hothers ino hne))
    · exact Or.inl rfl

/-- The loop ends when there is a terminator behind the buffer: each pass but the last reads on,
and no file gets longer than what lies on the stack. -/
lemma mvLoop_terminates {a k i bound : ℕ} (hfrom : OpenOn s.fds fdFrom a)
    (hfile : (s.fs.inodes a).length.toNat ≤ bound) (hstack : mem.length ≤ bound)
    (hzero : 0 ∈ mem.drop MV_BUFSIZE) (hpos : (s.fds fdFrom).filePos.toNat ≤ bound)
    (hk : bound < (s.fds fdFrom).filePos.toNat + k) :
    ∃ z, mvLoop stale fdFrom fdTo k i s mem = some z := by
  induction k generalizing i s mem with
  | zero => omega
  | succ k ih =>
      rw [mvLoop]
      simp only
      split
      · exact ⟨_, rfl⟩
      · rename_i hne
        have hlen := fileRead_length_le s.fs s.fds fdFrom
        have hread : (fileRead s.fs s.fds fdFrom MV_BUFSIZE.toUInt32).1.length
            ≤ readableEnd (s.fs.inodes a).length.toNat - (s.fds fdFrom).filePos.toNat := by
          rw [fileRead_bytes, Fs.fileSlice_length, hfrom.2]
          exact Nat.min_le_right _ _
        have hone := List.length_pos_of_ne_nil hne
        have hend := readableEnd_le (s.fs.inodes a).length.toNat
        have hmoved := filePos_fileRead s.fs s.fds fdFrom (by rw [hfrom.2]; omega)
        have hopen : OpenOn (fileRead s.fs s.fds fdFrom MV_BUFSIZE.toUInt32).2 fdFrom a :=
          hfrom.fileRead _
        set bytes := (fileRead s.fs s.fds fdFrom MV_BUFSIZE.toUInt32).1
        have hlong : MV_BUFSIZE < mem.length := by
          by_contra hshort
          rw [List.drop_eq_nil_of_le (Nat.le_of_not_lt hshort)] at hzero
          cases hzero
        have hzero' : 0 ∈ (bytes ++ mem.drop bytes.length).drop MV_BUFSIZE := by
          rw [List.drop_append, List.drop_eq_nil_of_le hlen, List.nil_append, List.drop_drop,
            Nat.add_sub_cancel' hlen]
          exact hzero
        have hmem : (bytes ++ mem.drop bytes.length).length = mem.length := by
          rw [List.length_append, List.length_drop]
          omega
        rw [fdputs, if_pos (List.mem_of_mem_drop hzero'), Option.bind_some]
        set text := (bytes ++ mem.drop bytes.length).takeWhile (· != 0)
        have htext : text.length ≤ mem.length :=
          (List.takeWhile_prefix _).length_le.trans hmem.le
        obtain ⟨hfds, -⟩ := writeCall_frame
          { s with fds := (fileRead s.fs s.fds fdFrom MV_BUFSIZE.toUInt32).2 } fdTo text (stale i)
        refine ih ?_ ?_ (hmem.le.trans hstack) hzero' ?_ ?_
        · rw [hfds]
          exact hopen
        · rcases writeCall_length
            { s with fds := (fileRead s.fs s.fds fdFrom MV_BUFSIZE.toUInt32).2 } fdTo text
            (stale i) a with hsame | hnew
          · rw [hsame]
            exact hfile
          · rw [hnew]
            exact (Nat.mod_le _ _).trans (htext.trans hstack)
        · rw [hfds]
          simp only
          omega
        · rw [hfds]
          simp only
          omega

/-- **`mvPasses` is enough** for the loop of `mv`. -/
theorem mvLoop_mvPasses {env : MvEnv} {a : ℕ} (hfrom : OpenOn s.fds fdFrom a)
    (hpos : (s.fds fdFrom).filePos = 0) (hzero : 0 ∈ env.stack.drop MV_BUFSIZE) :
    ∃ z, mvLoop env.stale fdFrom fdTo (mvPasses env s fdFrom) 0 s env.stack = some z := by
  have hstart : (s.fds fdFrom).filePos.toNat = 0 := by rw [hpos]; rfl
  have hfile : (s.fs.inodes a).length.toNat ≤ (s.fs.inodes a).length.toNat + env.stack.length :=
    Nat.le_add_right _ _
  refine mvLoop_terminates hfrom hfile (Nat.le_add_left _ _) hzero ?_ ?_
  · rw [hstart]
    exact Nat.zero_le _
  · rw [mvPasses, hstart, hfrom.2]
    omega

/-- A source without bytes to read: nothing is written. -/
lemma mvLoop_empty (stale : ℕ → UInt32) (fdTo : ℤ) (mem : List UInt8) (k i : ℕ) {a : ℕ}
    (hfrom : OpenOn s.fds fdFrom a)
    (hempty : readableEnd (s.fs.inodes a).length.toNat = 0) :
    ∃ fds, mvLoop stale fdFrom fdTo (k + 1) i s mem = some ⟨s.fs, fds⟩ := by
  have hnone : (fileRead s.fs s.fds fdFrom MV_BUFSIZE.toUInt32).1 = [] := by
    rw [fileRead_bytes, hfrom.2, hempty, Nat.zero_sub, Nat.min_zero]
    rfl
  rw [mvLoop]
  simp only [hnone, if_true]
  exact ⟨_, rfl⟩

/-- **A source of one piece** is written by one call, up to the first terminator. -/
lemma mvLoop_onePass (stale : ℕ → UInt32) (k i : ℕ) {a ino fd : ℕ} {bytes text : List UInt8}
    (hfrom : OpenOn s.fds fdFrom a)
    (hpos : (s.fds fdFrom).filePos = 0) (hto : OpenOn s.fds fd ino) (hfd : fd < 8)
    (hbytes : s.fs.contents (s.fs.inodes a) = bytes) (hlen : bytes.length ≤ MV_BUFSIZE)
    (hrest : bytes.length % BLOCK_SIZE ≠ 0)
    (hzero : 0 ∈ bytes ++ mem.drop bytes.length)
    (htext : (bytes ++ mem.drop bytes.length).takeWhile (· != 0) = text)
    (hsame : a = ino → text.length.toUInt32.toNat = bytes.length) :
    ∃ fds, mvLoop stale fdFrom fd (k + 2) i s mem
      = some ⟨(fileWrite s.fs s.fds fd text text.length.toUInt32 (stale i)).2, fds⟩ := by
  have hlength : (s.fs.inodes a).length.toNat = bytes.length := by
    rw [← hbytes, Fs.contents, Fs.fileSlice_length]
  have hend : readableEnd bytes.length = bytes.length := if_neg hrest
  have hstart : (s.fds fdFrom).filePos.toNat = 0 := by rw [hpos]; rfl
  have hread : (fileRead s.fs s.fds fdFrom MV_BUFSIZE.toUInt32).1 = bytes := by
    rw [fileRead_bytes, hfrom.2, hstart, hlength, hend, Nat.sub_zero, Nat.min_eq_right hlen,
      ← hlength]
    exact hbytes
  have hne : bytes ≠ [] := by
    rintro rfl
    exact hrest rfl
  have hmoved := filePos_fileRead s.fs s.fds fdFrom (by omega)
  rw [hread, hstart, Nat.zero_add] at hmoved
  set fds := (fileRead s.fs s.fds fdFrom MV_BUFSIZE.toUInt32).2 with hfds
  have hto' : OpenOn fds fd ino := hto.fileRead _
  have hfrom' : OpenOn fds fdFrom a := hfrom.fileRead _
  have hnum : (fds fd).inodeNum = (s.fds fd).inodeNum :=
    UInt32.toNat_inj.mp (hto'.2.trans hto.2.symm)
  rw [mvLoop]
  simp only [hread, if_neg hne, fdputs, if_pos hzero, htext, Option.bind_some, ← hfds]
  rw [writeCall_of_openOn (s := ⟨s.fs, fds⟩) hto' hfd]
  simp only [fileWrite_congr hnum]
  -- the second pass finds the end of the file
  obtain ⟨hwritten, hothers⟩ := fileWrite_inodes s.fs hto text text.length.toUInt32 (stale i)
  set fs := (fileWrite s.fs s.fds fd text text.length.toUInt32 (stale i)).2
  have hlength' : (fs.inodes a).length.toNat = bytes.length := by
    rcases eq_or_ne a ino with rfl | hother
    · rw [hwritten, hsame rfl]
    · rw [hothers a hother, hlength]
  have hnone : (fileRead fs fds fdFrom MV_BUFSIZE.toUInt32).1 = [] := by
    rw [fileRead_bytes, hfrom'.2, hmoved, hlength', hend, Nat.sub_self, Nat.min_zero]
    rfl
  rw [mvLoop]
  simp only [hnone, if_true]
  exact ⟨_, rfl⟩

end Loop

end CustomLinuxOs
