import CustomLinuxOs.Filesystem.DirectoryRead

/-!
The indices into `root.dentries`, of which there are `MAX_FILES`.

* `DirEvent`, `dirStep`: the calls on files together with reads of the directory.
* `dirIndices`: the indices a call uses, in the order of the source.  The scan of `remove_dentry`
  is followed to the first index behind the boot block.
* `StaysInBlock`, `FitsBlock`: no index lies behind the boot block and `creat` changes one entry
  only; and when that is so.
* `staysInBlock_iff`: along a run.
-/

namespace CustomLinuxOs

/-- A call on files, or a `read` of the directory. -/
inductive DirEvent where
  | call (e : FsEvent)
  | read (fd : ℤ) (nbytes : ℕ)

/-- One call. -/
def dirStep (numInodes : UInt32) (s : Mounted) : DirEvent → Option Mounted
  | .call e => fsStep s e
  | .read fd nbytes =>
      (readCall numInodes s.fs s.fds fd nbytes).map fun r => { s with fds := r.2.2 }

/-! ### The indices of a call -/

/-- A loop over the entries up to the one that is found. -/
def indicesUpTo (found : Option ℕ) : List ℕ :=
  List.range (match found with
    | some i => i + 1
    | none => MAX_FILES)

/-- The indices of `read_dentry_by_name`. -/
def findIndices (fs : Fs) (fname : CString) : List ℕ :=
  if fname.byte 0 = 0 then [] else indicesUpTo (findDentry fs fname)

/-- The indices of the scan in `remove_dentry`, from `j` on with `k` entries left. -/
def scanIndices (fs : Fs) : ℕ → ℕ → List ℕ
  | 0, j => [j]
  | k + 1, j => j :: if dentryAt fs j then scanIndices fs k (j + 1) else []

/-- The indices of `remove_dentry`; without a match its scan starts behind the boot block. -/
def removeIndices (fs : Fs) (fname : CString) : List ℕ :=
  indicesUpTo (namedDentry fs fname) ++
    match namedDentry fs fname with
    | some i => scanIndices (clearFile fs i) (MAX_FILES - (i + 1)) (i + 1)
    | none => [MAX_FILES + 1, MAX_FILES]

/-- The descriptor is one for the directory. -/
def IsDirectory (fds : FdTable) (fd : ℤ) : Prop :=
  0 ≤ fd ∧ fd ≤ 7 ∧ (fds fd.toNat).fopsTable = some .dir

instance (fds : FdTable) (fd : ℤ) : Decidable (IsDirectory fds fd) :=
  inferInstanceAs (Decidable (_ ∧ _ ∧ _))

/-- The indices a call uses. -/
def dirIndices (numInodes : UInt32) (s : Mounted) : DirEvent → List ℕ
  | .call (.open _ filename) => findIndices s.fs filename
  | .call (.creat _ filename) =>
      findIndices s.fs filename ++
        if (readDentryByName s.fs filename).isSome then findIndices s.fs filename
        else indicesUpTo (freeSlot s.fs) ++ findIndices (newDentry s.fs filename) filename
  | .call (.unlink filename) =>
      findIndices s.fs filename ++
        if (readDentryByName s.fs filename).isSome then removeIndices s.fs filename else []
  | .call _ => []
  | .read fd _ =>
      if IsDirectory s.fds fd ∧ (s.fds fd.toNat).filePos ≠ numInodes then
        [(s.fds fd.toNat).filePos.toNat]
      else []

/-- All indices of the call are those of entries, and `creat` changes no entry but the one it
fills. -/
def StaysInBlock (numInodes : UInt32) (s : Mounted) (e : DirEvent) : Prop :=
  (∀ k ∈ dirIndices numInodes s e, k < MAX_FILES)
    ∧ ∀ counter filename, e = .call (.creat counter filename) → ∀ k, freeSlot s.fs ≠ some k →
      (creat counter s.fs s.fds filename).2.1.dentries k = s.fs.dentries k

/-- A new name fits an entry, `unlink` of a name that is present leaves out a full directory, and
the directory is read at the position of an entry or at its end. -/
def FitsBlock (numInodes : UInt32) (s : Mounted) : DirEvent → Prop
  | .call (.unlink filename) =>
      (readDentryByName s.fs filename).isSome → freeSlot s.fs ≠ none
  | .call e => FitsEntry s e
  | .read fd _ =>
      IsDirectory s.fds fd → (s.fds fd.toNat).filePos.toNat < MAX_FILES
        ∨ (s.fds fd.toNat).filePos = numInodes

/-! ### Single calls -/

lemma indicesUpTo_lt {found : Option ℕ} (h : ∀ i ∈ found, i < MAX_FILES) :
    ∀ k ∈ indicesUpTo found, k < MAX_FILES := by
  intro k hk
  have hlt := List.mem_range.mp hk
  cases found with
  | none => exact hlt
  | some i => exact lt_of_lt_of_le hlt (h i rfl)

lemma findIndices_lt (fs : Fs) (fname : CString) : ∀ k ∈ findIndices fs fname, k < MAX_FILES := by
  rw [findIndices]
  split
  · exact fun k hk => absurd hk List.not_mem_nil
  · exact indicesUpTo_lt fun i hi => (findDentry_eq_some_iff.mp hi).1

/-- The scan stays in the boot block when there is a place for it to end. -/
lemma scanIndices_lt_iff (fs : Fs) {k j : ℕ} : (∀ m ∈ scanIndices fs k j, m < j + k)
    ↔ ∃ r, j ≤ r ∧ r < j + k ∧ dentryAt fs r = false := by
  induction k generalizing j with
  | zero =>
      refine iff_of_false (fun h => ?_) fun ⟨r, hj, hr, _⟩ => by omega
      have := h j (List.mem_singleton_self j)
      omega
  | succ k ih =>
      rw [scanIndices]
      by_cases hvalid : dentryAt fs j = true
      · have hshift : j + (k + 1) = j + 1 + k := by omega
        rw [if_pos hvalid, List.forall_mem_cons, hshift, ih]
        constructor
        · rintro ⟨-, r, hj, hr, hend⟩
          exact ⟨r, by omega, hr, hend⟩
        · rintro ⟨r, hj, hr, hend⟩
          have hne : j ≠ r := by
            rintro rfl
            rw [hend] at hvalid
            cases hvalid
          exact ⟨by omega, r, by omega, hr, hend⟩
      · rw [if_neg hvalid, List.forall_mem_singleton]
        exact iff_of_true (by omega) ⟨j, le_rfl, by omega, Bool.not_eq_true _ ▸ hvalid⟩

/-- **`remove_dentry`** of an entry that is found stays in the boot block exactly when the scan
behind that entry does. -/
lemma removeIndices_lt_iff {fs : Fs} {fname : CString} {i : ℕ}
    (hi : namedDentry fs fname = some i) :
    (∀ k ∈ removeIndices fs fname, k < MAX_FILES) ↔ fs.EndsBehind i := by
  have hlt := (namedDentry_eq_some_iff.mp hi).1
  have hupTo : ∀ k ∈ indicesUpTo (some i), k < MAX_FILES :=
    indicesUpTo_lt fun m hm => Option.some.inj hm ▸ hlt
  have hbound : MAX_FILES = i + 1 + (MAX_FILES - (i + 1)) := by omega
  have hscan := scanIndices_lt_iff (clearFile fs i) (k := MAX_FILES - (i + 1)) (j := i + 1)
  rw [← hbound] at hscan
  simp only [removeIndices, hi]
  rw [List.forall_mem_append, and_iff_right hupTo, hscan, Fs.EndsBehind]
  constructor
  · rintro ⟨r, hr, hlt, hend⟩
    rw [dentryAt_clearFile (by omega)] at hend
    exact ⟨r, hr, hlt, hend⟩
  · rintro ⟨r, hr, hlt, hend⟩
    rw [← dentryAt_clearFile (i := i) (by omega)] at hend
    exact ⟨r, hr, hlt, hend⟩

lemma Fs.Row.freeSlot_ne_none_iff {fs : Fs} {n : ℕ} (h : fs.Row n) :
    freeSlot fs ≠ none ↔ n < MAX_FILES := by
  rw [h.freeSlot_eq]
  split <;> simp_all

/-- **The indices of a call** lie in the boot block exactly when the call fits this, except for
the length of names, which the indices do not depend on. -/
lemma dirIndices_lt_iff (numInodes : UInt32) {s : Mounted} {n : ℕ} (hrow : s.fs.Row n)
    {e : DirEvent} (hname : ∀ counter filename, e ≠ .call (.creat counter filename)) :
    (∀ k ∈ dirIndices numInodes s e, k < MAX_FILES) ↔ FitsBlock numInodes s e := by
  have hnil : ∀ k ∈ ([] : List ℕ), k < MAX_FILES := fun k hk => absurd hk List.not_mem_nil
  cases e with
  | call e =>
      cases e with
      | «open» counter filename => exact iff_of_true (findIndices_lt _ _) trivial
      | close fd => exact iff_of_true hnil trivial
      | creat counter filename => exact absurd rfl (hname counter filename)
      | write fd buf stale => exact iff_of_true hnil trivial
      | unlink filename =>
          rw [dirIndices, FitsBlock, List.forall_mem_append, and_iff_right (findIndices_lt _ _)]
          cases hfound : readDentryByName s.fs filename with
          | none =>
              rw [if_neg (by simp)]
              exact iff_of_true hnil fun h => absurd h (by simp)
          | some d =>
              obtain ⟨hne, i, hi, -⟩ := readDentryByName_eq_some_iff.mp hfound
              obtain ⟨hlt, hanswers, -⟩ := findDentry_eq_some_iff.mp hi
              have hin := hrow.lt_of_named hne hlt hanswers.2
              rw [if_pos (by simp), removeIndices_lt_iff ((hrow.namedDentry_eq hne).trans hi),
                hrow.endsBehind_iff hin, hrow.freeSlot_ne_none_iff]
              simp
  | read fd nbytes =>
      rw [dirIndices, FitsBlock]
      by_cases hdir : IsDirectory s.fds fd
      · by_cases hend : (s.fds fd.toNat).filePos = numInodes
        · rw [if_neg fun h => h.2 hend]
          exact iff_of_true hnil fun _ => Or.inr hend
        · rw [if_pos ⟨hdir, hend⟩, List.forall_mem_singleton]
          exact ⟨fun h _ => Or.inl h, fun h => (h hdir).resolve_right hend⟩
      · rw [if_neg fun h => hdir h.1]
        exact iff_of_true hnil fun h => absurd h hdir

/-- **`creat`** with a name that fits changes the one entry that it fills. -/
lemma creat_dentries_of_ne (counter : UInt32) (fds : FdTable) {fs : Fs} {filename : CString}
    (hlen : fs.MakesEntry filename → filename.length < DENTRY_SIZE) {k : ℕ}
    (hk : freeSlot fs ≠ some k) :
    (creat counter fs fds filename).2.1.dentries k = fs.dentries k := by
  rcases creat_newDentry counter fds hlen with heq | ⟨hshort, heq⟩
  · rw [heq]
  · rw [heq]
    rcases newDentry_cases fs hshort with ⟨-, hsame⟩ | ⟨i, d, hslot, hnew, -⟩
    · rw [hsame]
    · have hki : k ≠ i := fun h => hk (h ▸ hslot)
      rw [hnew]
      exact Function.update_of_ne hki _ _

/-- **A call** that fits the boot block stays in it. -/
lemma staysInBlock_of_row {numInodes : UInt32} {s : Mounted} {n : ℕ} (hrow : s.fs.Row n)
    {e : DirEvent} (h : FitsBlock numInodes s e) : StaysInBlock numInodes s e := by
  by_cases hcreat : ∃ counter filename, e = .call (.creat counter filename)
  · obtain ⟨counter, filename, rfl⟩ := hcreat
    refine ⟨?_, fun counter' filename' heq k hk => ?_⟩
    · have hfind := findIndices_lt s.fs filename
      have hslot : ∀ k ∈ indicesUpTo (freeSlot s.fs), k < MAX_FILES :=
        indicesUpTo_lt fun i hi => (freeSlot_spec hi).1
      rw [dirIndices, List.forall_mem_append]
      refine ⟨hfind, ?_⟩
      split
      · exact hfind
      · rw [List.forall_mem_append]
        exact ⟨hslot, findIndices_lt _ filename⟩
    · obtain ⟨rfl, rfl⟩ := FsEvent.creat.inj (DirEvent.call.inj heq)
      exact creat_dentries_of_ne counter s.fds h hk
  · have hname : ∀ counter filename, e ≠ .call (.creat counter filename) :=
      fun counter filename heq => hcreat ⟨counter, filename, heq⟩
    exact ⟨(dirIndices_lt_iff numInodes hrow hname).mpr h,
      fun counter filename heq => absurd heq (hname counter filename)⟩

/-! ### Runs -/

/-- A new name fits an entry. -/
def NamesFit (s : Mounted) : DirEvent → Prop
  | .call e => FitsEntry s e
  | .read _ _ => True

lemma FitsBlock.namesFit {numInodes : UInt32} {s : Mounted} {e : DirEvent}
    (h : FitsBlock numInodes s e) : NamesFit s e := by
  cases e with
  | call e =>
      cases e with
      | unlink filename => trivial
      | _ => exact h
  | read fd nbytes => trivial

lemma dirStep_row {numInodes : UInt32} {s s' : Mounted} {e : DirEvent} (hs : ∃ n, s.fs.Row n)
    (hfits : NamesFit s e) (h : dirStep numInodes s e = some s') : ∃ n, s'.fs.Row n := by
  cases e with
  | call e => exact fsStep_row hs hfits h
  | read fd nbytes =>
      obtain ⟨r, -, rfl⟩ := Option.map_eq_some_iff.mp h
      exact hs

/-- In a run of calls whose names fit the directory is a row before each call. -/
lemma everyStep_row {numInodes : UInt32} {s : Mounted} {n : ℕ} (hrow : s.fs.Row n)
    {es : List DirEvent} (h : EveryStep (dirStep numInodes) s es NamesFit) :
    EveryStep (dirStep numInodes) s es fun t _ => ∃ m, t.fs.Row m := by
  have hall := h.everyState (P := fun t => ∃ m, t.fs.Row m) ⟨n, hrow⟩
    fun _ _ _ hrow hfit hstep => dirStep_row hrow hfit hstep
  exact fun pre e post t hes ht => hall pre (e :: post) t hes ht

/-- **The accesses to the directory**, in a run from a directory that is a row: they stay in the
boot block when all calls fit this; and where the names fit, only then. -/
theorem staysInBlock_iff (numInodes : UInt32) {s : Mounted} {n : ℕ} (hrow : s.fs.Row n)
    (es : List DirEvent) :
    (EveryStep (dirStep numInodes) s es (FitsBlock numInodes) →
      EveryStep (dirStep numInodes) s es (StaysInBlock numInodes))
    ∧ (EveryStep (dirStep numInodes) s es NamesFit →
      EveryStep (dirStep numInodes) s es (StaysInBlock numInodes) →
      EveryStep (dirStep numInodes) s es (FitsBlock numInodes)) := by
  constructor
  · intro h pre e post t hes ht
    have hnames : EveryStep (dirStep numInodes) s es NamesFit :=
      fun pre e post t hes ht => (h pre e post t hes ht).namesFit
    obtain ⟨m, hm⟩ := everyStep_row hrow hnames pre e post t hes ht
    exact staysInBlock_of_row hm (h pre e post t hes ht)
  · intro hnames h pre e post t hes ht
    obtain ⟨m, hm⟩ := everyStep_row hrow hnames pre e post t hes ht
    by_cases hcreat : ∃ counter filename, e = .call (.creat counter filename)
    · obtain ⟨counter, filename, rfl⟩ := hcreat
      exact hnames pre _ post t hes ht
    · have hname : ∀ counter filename, e ≠ .call (.creat counter filename) :=
        fun counter filename heq => hcreat ⟨counter, filename, heq⟩
      exact (dirIndices_lt_iff numInodes hm hname).mp (h pre e post t hes ht).1

/-- A file is removed with all indices in the boot block. -/
theorem staysInBlock_iff_oneFile : (oneFile 5).Row 1
    ∧ EveryStep (dirStep 2) ⟨oneFile 5, fun _ => Fd.zero⟩ [.call (.unlink nameA)]
      (StaysInBlock 2) := by
  have hroom := (oneFile_row 5).freeSlot_ne_none_iff.mpr (by decide)
  refine ⟨oneFile_row 5, (staysInBlock_iff 2 (oneFile_row 5) _).1 ?_⟩
  exact everyStep_singleton.mpr fun _ => hroom

/-- A directory in which all entries are taken, by files with names of one byte. -/
def fullDirectory : Fs where
  numDirEntries := 63
  dentries i :=
    { filename := fun k => if k = 0 then (i + 1).toUInt8 else 0
      fileType := FILE_TYPE_REGULAR
      inodeNum := 1
      reserved := fun _ => 0 }
  inodes _ := ⟨0, fun _ => 0⟩
  data _ _ := 0
  dataBlockBitmap _ := 0

/-- When a file is removed from a full directory the scan runs on behind the boot block. -/
theorem unlink_fullDirectory : fullDirectory.Row MAX_FILES
    ∧ ¬ EveryStep (dirStep 64) ⟨fullDirectory, fun _ => Fd.zero⟩
      [.call (.unlink ⟨[1], by decide⟩)] (StaysInBlock 64) := by
  refine ⟨⟨le_rfl, by decide +kernel, fun i hi hlt => absurd hlt (by omega)⟩, fun h => ?_⟩
  have hstay := (everyStep_singleton.mp h).1
  exact absurd (hstay MAX_FILES (by decide +kernel)) (lt_irrefl _)

end CustomLinuxOs
