import CustomLinuxOs.Filesystem.DirectoryRead
import CustomLinuxOs.Terminal.History

/-!
Tab completion with the descriptors it opens, reads and closes: `tab_complete` and `tty_ls` run on
the descriptor table of the process that a key interrupts.

* `Files`: the directory, `root.num_inodes` and the clock.
* `readName`: one `read` of the loops; their passes are bounded by a number, and `none` says that
  this was too small or that a `read` waits.
* `outcome`, `ttyLsIn`, `tabCompleteIn`, `sendKeyIn`: the functions, on a terminal and a descriptor
  table.
* `outcome_row`: on a directory that is a row they see the names of its entries, and decide what
  `completion` does.
-/

namespace CustomLinuxOs

/-- What completion finds besides the terminal and the descriptors. -/
structure Files where
  fs : Fs
  numInodes : UInt32
  /-- the clock, at an `open` -/
  counter : UInt32

/-- `open((uint8_t*)".")`. -/
def openDot (w : Files) (fds : FdTable) : ℤ × FdTable := openCall w.counter w.fs fds dotName

/-- `read(fd, test, MAX_FILENAME_LENGTH) > 0`, with the buffer and the descriptors after it. -/
def readName (w : Files) (fd : ℤ) (test : ℕ → UInt8) (fds : FdTable) :
    Option (Bool × (ℕ → UInt8) × FdTable) :=
  (readCall w.numInodes w.fs fds fd MAX_FILENAME_LENGTH).map fun r =>
    (decide (0 < r.1), fun i => r.2.1.getD i (test i), r.2.2)

/-- The first loop of `tab_complete`, with `k` reads to go: the first name that fits. -/
def firstMatch (w : Files) (fd : ℤ) (word : ℕ → UInt8) (n : ℕ) :
    ℕ → (ℕ → UInt8) → FdTable → Option (Option (ℕ → UInt8) × FdTable)
  | 0, _, _ => none
  | k + 1, test, fds =>
      (readName w fd test fds).bind fun r =>
        if ¬ r.1 then some (none, r.2.2)
        else if nameMatches word n r.2.1 then some (some r.2.1, r.2.2)
        else firstMatch w fd word n k r.2.1 r.2.2

/-- The second loop: how far the names that fit agree with the first one, or `none` when they
differ at position `n`. -/
def agreeNames (w : Files) (fd : ℤ) (filename : ℕ → UInt8) (n : ℕ) :
    ℕ → ℕ → (ℕ → UInt8) → FdTable → Option (Option ℕ × FdTable)
  | 0, _, _, _ => none
  | k + 1, m, test, fds =>
      (readName w fd test fds).bind fun r =>
        if ¬ r.1 then some (some m, r.2.2)
        else if nameMatches filename n r.2.1 then
          match (List.range' n (m - n)).find? fun i => r.2.1 i ≠ filename i with
          | none => agreeNames w fd filename n k m r.2.1 r.2.2
          | some i =>
              if i = n then some (none, r.2.2)
              else agreeNames w fd filename n k i r.2.1 r.2.2
        else agreeNames w fd filename n k m r.2.1 r.2.2

/-- What `tab_complete` decides to do, and the descriptors then. -/
inductive Outcome where
  /-- the last word is longer than a name -/
  | tooLong
  /-- nothing fits -/
  | noMatch (fds : FdTable)
  /-- several names fit, and there is nothing to add -/
  | ambiguous (filename : ℕ → UInt8) (n : ℕ) (fds : FdTable)
  /-- these bytes are to be added; the directory is still open -/
  | add (bytes : List UInt8) (fd : ℤ) (fds : FdTable)

/-- `tab_complete` up to the place where it changes the terminal. -/
def outcome (w : Files) (k : ℕ) (s : Tty) (fds : FdTable) : Option Outcome :=
  let start := getLast s
  let n := s.bufferSize.toNat - start
  if n > MAX_FILENAME_LENGTH then some .tooLong
  else
    let word (i : ℕ) : UInt8 := if i < n then s.input (start + i) else 0
    let fd := (openDot w fds).1
    (firstMatch w fd word n k (fun _ => 0) (openDot w fds).2).bind fun r =>
      match r.1 with
      | none => some (.noMatch (closeCall r.2 fd).2)
      | some first =>
          let more := ((List.range' n (MAX_FILENAME_LENGTH - n)).takeWhile fun i =>
            first i ≠ 0).length
          let filename (i : ℕ) : UInt8 := if n ≤ i ∧ i < n + more then first i else word i
          (agreeNames w fd filename n k (n + more) first r.2).map fun q =>
            match q.1 with
            | none => .ambiguous filename n (closeCall q.2 fd).2
            | some m => .add ((List.range' n (m - n)).map filename) fd q.2

/-- The names that a loop of `tty_ls` reads, and the buffer and the descriptors after it. -/
def readNames (w : Files) (fd : ℤ) :
    ℕ → (ℕ → UInt8) → FdTable → Option (Listing × (ℕ → UInt8) × FdTable)
  | 0, _, _ => none
  | k + 1, test, fds =>
      (readName w fd test fds).bind fun r =>
        if ¬ r.1 then some ([], r.2.1, r.2.2)
        else (readNames w fd k r.2.1 r.2.2).map fun q => (r.2.1 :: q.1, q.2)

/-- The width of the columns of `tty_ls`. -/
def lsWidth (names : Listing) (filename : ℕ → UInt8) (n : ℕ) : ℕ :=
  ((names.filter (nameMatches filename n)).map nameLength).foldl max 0 + 2

/-- The bytes `tty_ls` prints, with columns of width `m`. -/
def lsColumns (m : ℕ) (names : Listing) (filename : ℕ → UInt8) (n : ℕ) : List UInt8 :=
  let c := ((List.range' 2 38).find? fun c => NUM_COLS ≤ m * c + m).getD 2
  let row (i : ℕ) : List UInt8 := if i % c = 0 then [NEWLINE] else []
  ((names.filter (nameMatches filename n)).zipIdx.flatMap fun p => row p.2 ++ lsEntry m p.1)
    ++ [NEWLINE]

/-- `tty_ls`: it opens the directory twice. -/
def ttyLsIn (w : Files) (k : ℕ) (filename : ℕ → UInt8) (n : ℕ) (s : Tty) (fds : FdTable) :
    Option (Tty × FdTable) :=
  if shellMapped s then
    let fd := (openDot w fds).1
    (readNames w fd k (fun _ => 0) (openDot w fds).2).bind fun r =>
      let fds := (closeCall r.2.2 fd).2
      (readNames w (openDot w fds).1 k r.2.1 (openDot w fds).2).map fun q =>
        let bytes := lsColumns (lsWidth r.1 filename n) q.1 filename n
        let inShell := checkShell s
        let d := bytes.foldl (fun d c => (ttyPutcNocursor false d c).2) s.display
        let d := if inShell then ttyPutBytes d prompt else d
        (rewrite { s with display := d }, q.2.2)
  else none

/-- `tab_complete`, which sends characters by `send`. -/
def tabCompleteIn (w : Files) (k : ℕ) (send : Tty × FdTable → UInt8 → Option (Tty × FdTable))
    (s : Tty) (fds : FdTable) : Option (Tty × FdTable) :=
  (outcome w k s fds).bind fun
    | .tooLong => some (s, fds)
    | .noMatch fds => some ({ s with tabLs := false }, fds)
    | .ambiguous filename n fds =>
        if s.tabLs then
          (ttyLsIn w k filename n s fds).map fun r => ({ r.1 with tabLs := true }, r.2)
        else some ({ s with tabLs := true }, fds)
    | .add bytes fd fds =>
        (bytes.foldlM send (s, fds)).map fun r =>
          ({ r.1 with tabLs := false }, (closeCall r.2 fd).2)

/-- `tty_sendchar`, with the depth of calls that are open at most. -/
def sendKeyIn (w : Files) (k : ℕ) : ℕ → Tty × FdTable → UInt8 → Option (Tty × FdTable)
  | 0, _, _ => none
  | depth + 1, t, c =>
      if c = TAB then tabCompleteIn w k (sendKeyIn w k depth) t.1 t.2
      else if c = 0x0c ∧ ¬ shellMapped t.1 then none
      else some (ttySendchar id t.1 c, t.2)

/-! ### The names of a directory -/

/-- The buffer after a name has been read; its last byte stays `0`. -/
def Dentry.buffer (d : Dentry) : ℕ → UInt8 :=
  fun i => if i < MAX_FILENAME_LENGTH then d.filename i else 0

/-- A buffer for names is empty behind its `32` bytes. -/
def NameBuffer (test : ℕ → UInt8) : Prop := ∀ i, MAX_FILENAME_LENGTH ≤ i → test i = 0

section Directory

variable {w : Files} {fds : FdTable} {fd : ℤ} {test : ℕ → UInt8} {n p : ℕ}

/-- **One read** in a directory of `n` entries: the next name, or the end. -/
lemma readName_row (hrow : w.fs.Row n) (hn : n < MAX_FILES) (hinodes : n ≤ w.numInodes.toNat)
    (h : DirectoryAt fds fd p) (hp : p ≤ n) (htest : NameBuffer test) :
    (p < n ∧ ∃ fds', readName w fd test fds = some (true, (w.fs.dentries p).buffer, fds')
        ∧ DirectoryAt fds' fd (p + 1))
      ∨ p = n ∧ ∃ test' fds', readName w fd test fds = some (false, test', fds')
        ∧ NameBuffer test' := by
  obtain ⟨fds', hcall, hat⟩ := readCall_eq w.fs h (hp.trans hinodes) (le_refl _)
  rw [readName, hcall, Option.map_some]
  rcases Nat.lt_or_eq_of_le hp with hlt | rfl
  · have hresult : resultAt w.numInodes w.fs p = (w.fs.dentries p).listed :=
      if_neg (by omega)
    have hpos : 0 < (w.fs.dentries p).listed.1 := by
      refine Int.natCast_pos.mpr (Nat.pos_of_ne_zero fun hzero => ?_)
      exact (dentryAt_eq_true_iff.mp (hrow.valid p hlt)).2 ((strlcpy_eq_zero_iff _).mp hzero)
    have hbuffer : (fun i => (w.fs.dentries p).listed.2.getD i (test i))
        = (w.fs.dentries p).buffer := by
      funext i
      rw [Dentry.listed, Dentry.buffer]
      rcases Nat.lt_or_ge i MAX_FILENAME_LENGTH with hi | hi
      · rw [if_pos hi, List.getD_eq_getElem _ _ (by simpa using hi)]
        simp
      · rw [if_neg (by omega), List.getD_eq_default _ _ (by simpa using hi)]
        exact htest i hi
    refine Or.inl ⟨hlt, fds', ?_, by rwa [Nat.min_eq_left (by omega)] at hat⟩
    simp only [hresult, hbuffer, decide_eq_true hpos]
  · have hend : ¬ 0 < (resultAt w.numInodes w.fs p).1 := by
      rw [resultAt]
      split
      · decide
      · rw [Dentry.listed, (strlcpy_eq_zero_iff _).mpr (hrow.rest p le_rfl hn)]
        exact lt_irrefl _
    have hlength : (resultAt w.numInodes w.fs p).2.length ≤ MAX_FILENAME_LENGTH := by
      rw [resultAt]
      split
      · exact Nat.zero_le _
      · exact (List.length_map _).trans_le List.length_range.le
    rw [decide_eq_false hend]
    refine Or.inr ⟨rfl, _, fds', rfl, fun i hi => ?_⟩
    rw [List.getD_eq_default _ _ (hlength.trans hi)]
    exact htest i hi

/-- The names from entry `p` on. -/
def namesFrom (fs : Fs) (p n : ℕ) : Listing :=
  (List.range' p (n - p)).map fun i => (fs.dentries i).buffer

lemma namesFrom_cons (fs : Fs) (hp : p < n) :
    namesFrom fs p n = (fs.dentries p).buffer :: namesFrom fs (p + 1) n := by
  have hlen : n - p = n - (p + 1) + 1 := by omega
  rw [namesFrom, hlen, List.range'_succ, List.map_cons]
  rfl

lemma namesFrom_self (fs : Fs) (n : ℕ) : namesFrom fs n n = [] := by
  rw [namesFrom, Nat.sub_self]
  rfl

lemma buffer_nameBuffer (d : Dentry) : NameBuffer d.buffer := fun _ hi => if_neg (by omega)

/-- **The first loop** finds the first name that fits, and stands behind it. -/
lemma firstMatch_row (hrow : w.fs.Row n) (hn : n < MAX_FILES) (hinodes : n ≤ w.numInodes.toNat)
    (h : DirectoryAt fds fd p) (hp : p ≤ n) (htest : NameBuffer test) (word : ℕ → UInt8)
    (len : ℕ) {k : ℕ} (hk : n < p + k) :
    ((namesFrom w.fs p n).dropWhile (fun test => ! nameMatches word len test) = []
        ∧ ∃ fds', firstMatch w fd word len k test fds = some (none, fds'))
      ∨ ∃ p' first fds', (namesFrom w.fs p n).dropWhile (fun test => ! nameMatches word len test)
          = first :: namesFrom w.fs p' n
        ∧ p' ≤ n ∧ n < p' + k ∧ NameBuffer first ∧ DirectoryAt fds' fd p'
        ∧ firstMatch w fd word len k test fds = some (some first, fds') := by
  induction k generalizing p test fds with
  | zero => omega
  | succ k ih =>
      rw [firstMatch]
      rcases readName_row hrow hn hinodes h hp htest with
        ⟨hlt, fds', hread, hat⟩ | ⟨rfl, test', fds', hread, htest'⟩
      · rw [hread, Option.bind_some, namesFrom_cons w.fs hlt, if_neg (by simp)]
        by_cases hfits : nameMatches word len (w.fs.dentries p).buffer = true
        · rw [if_pos hfits, List.dropWhile_cons_of_neg (by simpa using hfits)]
          exact Or.inr ⟨p + 1, _, fds', rfl, hlt, by omega, buffer_nameBuffer _, hat, rfl⟩
        · rw [if_neg hfits, List.dropWhile_cons_of_pos (by simpa using hfits)]
          rcases ih hat hlt (buffer_nameBuffer _) (by omega) with hnone | ⟨p', first, fds'', hrest⟩
          · exact Or.inl hnone
          · obtain ⟨hdrop, hp', hk', hfirst, hat', hfound⟩ := hrest
            exact Or.inr ⟨p', first, fds'', hdrop, hp', by omega, hfirst, hat', hfound⟩
      · rw [hread, Option.bind_some, namesFrom_self, if_pos (by simp)]
        exact Or.inl ⟨rfl, fds', rfl⟩

/-- **The second loop** compares the names that are left. -/
lemma agreeNames_row (hrow : w.fs.Row n) (hn : n < MAX_FILES) (hinodes : n ≤ w.numInodes.toNat)
    (h : DirectoryAt fds fd p) (hp : p ≤ n) (htest : NameBuffer test) (filename : ℕ → UInt8)
    (len m : ℕ) {k : ℕ} (hk : n < p + k) :
    ∃ fds', agreeNames w fd filename len k m test fds
      = some (agreeLoop filename len (namesFrom w.fs p n) m, fds') := by
  induction k generalizing p test fds m with
  | zero => omega
  | succ k ih =>
      rw [agreeNames]
      rcases readName_row hrow hn hinodes h hp htest with
        ⟨hlt, fds', hread, hat⟩ | ⟨rfl, test', fds', hread, htest'⟩
      · have hrest (m : ℕ) := ih hat hlt (buffer_nameBuffer (w.fs.dentries p)) m (by omega)
        rw [hread, Option.bind_some, namesFrom_cons w.fs hlt, if_neg (by simp), agreeLoop]
        by_cases hfits : nameMatches filename len (w.fs.dentries p).buffer = true
        · rw [if_pos hfits, if_pos hfits]
          simp only
          cases (List.range' len (m - len)).find? fun i =>
              (w.fs.dentries p).buffer i ≠ filename i with
          | none => exact hrest m
          | some i =>
              simp only
              split
              · exact ⟨fds', rfl⟩
              · exact hrest i
        · rw [if_neg hfits, if_neg hfits]
          exact hrest m
      · rw [hread, Option.bind_some, namesFrom_self, if_pos (by simp)]
        exact ⟨fds', rfl⟩

/-- **Reading all names** comes to an end. -/
lemma readNames_row (hrow : w.fs.Row n) (hn : n < MAX_FILES) (hinodes : n ≤ w.numInodes.toNat)
    (h : DirectoryAt fds fd p) (hp : p ≤ n) (htest : NameBuffer test) {k : ℕ} (hk : n < p + k) :
    ∃ names test' fds', readNames w fd k test fds = some (names, test', fds')
      ∧ NameBuffer test' := by
  induction k generalizing p test fds with
  | zero => omega
  | succ k ih =>
      rw [readNames]
      rcases readName_row hrow hn hinodes h hp htest with
        ⟨hlt, fds', hread, hat⟩ | ⟨rfl, test', fds', hread, htest'⟩
      · obtain ⟨names, test', fds'', hrest, htest'⟩ := ih hat hlt (buffer_nameBuffer _) (by omega)
        rw [hread, Option.bind_some, if_neg (by simp), hrest]
        exact ⟨_, test', fds'', rfl, htest'⟩
      · rw [hread, Option.bind_some, if_pos (by simp)]
        exact ⟨[], test', fds', rfl, htest'⟩

end Directory

/-! ### Opening the directory -/

section Open

variable {w : Files} {n k : ℕ}

/-- The directory has an entry for itself. -/
def Files.HasDot (w : Files) : Prop :=
  ∃ d, readDentryByName w.fs dotName = some d ∧ d.fileType = FILE_TYPE_DIR

/-- **`open(".")`** returns a descriptor for the directory when one is free. -/
lemma openDot_spec (hdot : w.HasDot) (fds : FdTable) :
    (∃ fd, freeFd fds = some fd ∧ OpenedDirectory (openDot w fds))
      ∨ freeFd fds = none ∧ openDot w fds = (SYSCALL_ERROR, fds) := by
  obtain ⟨d, hd, htype⟩ := hdot
  rw [openDot, openCall, hd]
  cases hfree : freeFd fds with
  | none => exact Or.inr ⟨rfl, rfl⟩
  | some fd =>
      have hopen : openFd w.counter d = some ⟨some .dir, d.inodeNum, 0, 0⟩ := by
        rw [openFd, htype]
        rfl
      simp only [hopen]
      refine Or.inl ⟨fd, rfl, Int.natCast_nonneg fd, ?_⟩
      simp only [Int.toNat_natCast, Function.update_self]

lemma directoryAt_openDot {fds : FdTable} (h : OpenedDirectory (openDot w fds)) :
    DirectoryAt (openDot w fds).2 (openDot w fds).1 0 := by
  obtain ⟨h2, h7, ino, hfd⟩ := openedDirectory_spec h
  refine ⟨?_, h7, ?_, ?_⟩
  · exact (by decide : (0 : ℤ) ≤ 2).trans h2
  all_goals rw [openDot, hfd]
  rfl

/-- A read from no descriptor ends the loop. -/
lemma readName_error (test : ℕ → UInt8) (fds : FdTable) :
    readName w SYSCALL_ERROR test fds = some (false, test, fds) := by
  rw [readName, readCall, if_pos (Or.inl (by decide))]
  rfl

/-- **A loop of `tty_ls`** comes to an end, whether or not the directory could be opened. -/
lemma readNames_openDot (hrow : w.fs.Row n) (hn : n < MAX_FILES) (hinodes : n ≤ w.numInodes.toNat)
    (hdot : w.HasDot) (hk : n < k) {test : ℕ → UInt8} (htest : NameBuffer test) (fds : FdTable) :
    ∃ names test' fds', readNames w (openDot w fds).1 k test (openDot w fds).2
      = some (names, test', fds') ∧ NameBuffer test' := by
  rcases openDot_spec hdot fds with ⟨fd, -, hopened⟩ | ⟨-, herror⟩
  · exact readNames_row hrow hn hinodes (directoryAt_openDot hopened) (Nat.zero_le n) htest
      (by omega)
  · cases k with
    | zero => omega
    | succ k =>
        rw [herror, readNames, readName_error, Option.bind_some, if_pos (by simp)]
        exact ⟨[], test, fds, rfl, htest⟩

/-- **`tty_ls`** returns where `check_shell` can read. -/
lemma ttyLsIn_isSome (hrow : w.fs.Row n) (hn : n < MAX_FILES) (hinodes : n ≤ w.numInodes.toNat)
    (hdot : w.HasDot) (hk : n < k) (filename : ℕ → UInt8) (m : ℕ) {s : Tty}
    (hmapped : shellMapped s = true) (fds : FdTable) :
    (ttyLsIn w k filename m s fds).isSome = true := by
  have hzero : NameBuffer fun _ => 0 := fun _ _ => rfl
  obtain ⟨names, test, fds', hfirst, htest⟩ := readNames_openDot hrow hn hinodes hdot hk hzero fds
  obtain ⟨names', test', fds'', hsecond, -⟩ :=
    readNames_openDot hrow hn hinodes hdot hk htest (closeCall fds' (openDot w fds).1).2
  rw [ttyLsIn, if_pos hmapped]
  simp only [hfirst, Option.bind_some, hsecond]
  rfl

/-- What an outcome decides to do. -/
def Outcome.completion : Outcome → Option Completion
  | .tooLong => none
  | .noMatch _ => some .noMatch
  | .ambiguous filename n _ => some (.ambiguous filename n)
  | .add bytes _ _ => some (.add bytes)

/-- **On a directory that is a row** `tab_complete` sees the names of the entries. -/
lemma outcome_row (hrow : w.fs.Row n) (hn : n < MAX_FILES) (hinodes : n ≤ w.numInodes.toNat)
    {fds : FdTable} (hopened : OpenedDirectory (openDot w fds)) (hk : n < k) (s : Tty) :
    ∃ o, outcome w k s fds = some o ∧ o.completion = completion (namesFrom w.fs 0 n) s := by
  simp only [outcome, completion]
  split
  · exact ⟨_, rfl, rfl⟩
  · have hzero : NameBuffer fun _ => 0 := fun _ _ => rfl
    rcases firstMatch_row hrow hn hinodes (directoryAt_openDot hopened) (Nat.zero_le n) hzero
        (fun i => if i < s.bufferSize.toNat - getLast s then s.input (getLast s + i) else 0)
        (s.bufferSize.toNat - getLast s) (k := k) (by omega) with
      ⟨hnone, fds', hread⟩ | ⟨p, first, fds', hfound, hp, hkp, hfirst, hat, hread⟩
    · rw [hread, hnone]
      exact ⟨_, rfl, rfl⟩
    · rw [hread, hfound]
      have hagree (filename : ℕ → UInt8) (len m : ℕ) :=
        agreeNames_row hrow hn hinodes hat hp hfirst filename len m hkp
      choose fds'' hagree using hagree
      simp only [Option.bind_some, hagree, Option.map_some]
      generalize agreeLoop _ _ _ _ = r
      cases r with
      | none => exact ⟨_, rfl, rfl⟩
      | some m => exact ⟨_, rfl, rfl⟩

end Open

end CustomLinuxOs
