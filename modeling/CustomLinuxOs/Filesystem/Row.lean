import CustomLinuxOs.Foundations.Run
import CustomLinuxOs.Filesystem.Names

/-!
The entries of the directory stand in a row: those with a name and a valid type come first, and
behind them no entry has a name.

* `Fs.Row`, `Fs.entries`, `Fs.DistinctNames`: such a directory, its entries and that no two of
  them have one name.
* `Fs.Row.freeSlot_eq`, `Fs.Row.namedDentry_eq`, `Fs.Row.endsBehind_iff`: what the searches find
  in a row.
* `unlink_removes_one`: `unlink` takes out one entry and leaves the others.
* `Fs.Row.newDentry`, `row_of_run`: the calls leave a row, as long as the names they make entries
  for fit these.
-/

namespace CustomLinuxOs

/-- The first `n` entries have a name and a valid type, and the others have no name. -/
structure Fs.Row (fs : Fs) (n : ℕ) : Prop where
  le : n ≤ MAX_FILES
  valid : ∀ i < n, dentryAt fs i = true
  rest : ∀ i, n ≤ i → i < MAX_FILES → (fs.dentries i).filename 0 = 0

/-- The first `n` entries. -/
def Fs.entries (fs : Fs) (n : ℕ) : List Dentry := (List.range n).map fs.dentries

/-- No two of the first `n` entries have the same name. -/
def Fs.DistinctNames (fs : Fs) (n : ℕ) : Prop :=
  ∀ i < n, ∀ j < n, SameName (fs.dentries i).filename (fs.dentries j).filename → i = j

lemma dentryAt_eq_true_iff {fs : Fs} {i : ℕ} : dentryAt fs i = true
    ↔ checkValidFileType (fs.dentries i).fileType = true ∧ (fs.dentries i).filename 0 ≠ 0 := by
  rw [dentryAt, Bool.and_eq_true, bne_iff_ne]

namespace Fs.Row

variable {fs : Fs} {n : ℕ}

lemma invalid (h : fs.Row n) {i : ℕ} (hn : n ≤ i) (hi : i < MAX_FILES) :
    dentryAt fs i = false := by
  rw [← Bool.not_eq_true, dentryAt_eq_true_iff]
  exact fun hvalid => hvalid.2 (h.rest i hn hi)

/-- There is only one place where the row can end. -/
lemma unique (h : fs.Row n) {m : ℕ} (hm : fs.Row m) : n = m := by
  have key {n m : ℕ} (h : fs.Row n) (hm : fs.Row m) : m ≤ n := by
    by_contra hlt
    have hfalse := h.invalid le_rfl (by have := hm.le; omega)
    rw [hm.valid n (by omega)] at hfalse
    cases hfalse
  exact le_antisymm (key hm h) (key h hm)

/-- The place for a new entry is behind the row. -/
lemma freeSlot_eq (h : fs.Row n) : freeSlot fs = if n < MAX_FILES then some n else none := by
  split
  · rename_i hlt
    rw [freeSlot, List.find?_range_eq_some]
    refine ⟨by simpa using h.rest n le_rfl hlt, List.mem_range.mpr hlt, fun i hi => ?_⟩
    simpa using (dentryAt_eq_true_iff.mp (h.valid i hi)).2
  · rw [freeSlot, List.find?_range_eq_none]
    intro i hi
    simpa using (dentryAt_eq_true_iff.mp (h.valid i (by omega))).2

/-- The scan behind an entry of the row ends in the boot block exactly when the row leaves room
there. -/
lemma endsBehind_iff (h : fs.Row n) {i : ℕ} (hi : i < n) : fs.EndsBehind i ↔ n < MAX_FILES := by
  constructor
  · rintro ⟨r, hir, hr, hend⟩
    by_contra hfull
    rw [h.valid r (by omega)] at hend
    cases hend
  · exact fun hlt => ⟨n, hi, hlt, h.invalid le_rfl hlt⟩

section Names

variable {fname : CString} {i : ℕ}

/-- What has a name that is not empty stands in the row. -/
lemma lt_of_named (h : fs.Row n) (hne : fname.length ≠ 0) (hi : i < MAX_FILES)
    (hnamed : fs.named fname i) : i < n := by
  by_contra hlt
  have hhead := hnamed.head
  rw [h.rest i (by omega) hi] at hhead
  exact hne (fname.byte_eq_zero_iff.mp hhead)

lemma length_ne_zero (h : fs.Row n) (hi : i < n) (hnamed : fs.named fname i) :
    fname.length ≠ 0 := by
  intro hempty
  have hhead := hnamed.head
  rw [fname.byte_eq_zero_iff.mpr hempty] at hhead
  exact (dentryAt_eq_true_iff.mp (h.valid i hi)).2 hhead.symm

/-- In the row the type makes no difference to the lookups. -/
lemma answers_iff (h : fs.Row n) (hne : fname.length ≠ 0) (hi : i < MAX_FILES) :
    fs.answers fname i ↔ fs.named fname i := by
  refine ⟨fun hanswers => hanswers.2, fun hnamed => ⟨?_, hnamed⟩⟩
  exact (dentryAt_eq_true_iff.mp (h.valid i (h.lt_of_named hne hi hnamed))).1

lemma namedDentry_eq (h : fs.Row n) (hne : fname.length ≠ 0) :
    namedDentry fs fname = findDentry fs fname := by
  refine Option.ext fun i => ?_
  rw [namedDentry_eq_some_iff, findDentry_eq_some_iff]
  constructor
  · rintro ⟨hi, hnamed, hfirst⟩
    exact ⟨hi, (h.answers_iff hne hi).mpr hnamed, fun k hk hanswers => hfirst k hk hanswers.2⟩
  · rintro ⟨hi, hanswers, hfirst⟩
    refine ⟨hi, hanswers.2, fun k hk hnamed => hfirst k hk ?_⟩
    exact (h.answers_iff hne (by omega)).mpr hnamed

/-- With distinct names the lookup finds the entry that has the name. -/
lemma findDentry_eq (h : fs.Row n) (hdistinct : fs.DistinctNames n) (hi : i < n)
    (hnamed : fs.named fname i) : findDentry fs fname = some i := by
  have hne := h.length_ne_zero hi hnamed
  have hle := h.le
  rw [findDentry_eq_some_iff]
  refine ⟨by omega, (h.answers_iff hne (by omega)).mpr hnamed, fun k hk hanswers => ?_⟩
  have hsame : k = i := hdistinct k (by omega) i hi (hanswers.2.symm.trans hnamed)
  omega

/-- A name that no entry of the row has is not found. -/
lemma findDentry_eq_none (h : fs.Row n) (hne : fname.length ≠ 0)
    (habsent : ∀ i < n, ¬ fs.named fname i) : findDentry fs fname = none := by
  rw [findDentry_eq_none_iff]
  exact fun k hk hanswers => habsent k (h.lt_of_named hne hk hanswers.2) hanswers.2

/-- With distinct names only one entry answers to a name. -/
lemma answers_unique (h : fs.Row n) (hne : fname.length ≠ 0) (hdistinct : fs.DistinctNames n)
    {k l : ℕ} (hk : k < MAX_FILES) (hl : l < MAX_FILES) (hanswers : fs.answers fname k)
    (hanswers' : fs.answers fname l) : k = l := by
  refine hdistinct k (h.lt_of_named hne hk hanswers.2) l (h.lt_of_named hne hl hanswers'.2) ?_
  exact hanswers.2.symm.trans hanswers'.2

end Names

end Fs.Row

/-! ### A name removed -/

section Removed

variable {fs : Fs} {n i : ℕ} {fname : CString}

/-- **`remove_dentry`** of the entry at index `i` moves the last entry of the row there. -/
lemma Fs.Row.removeDentry_eq (h : fs.Row n) (hi : i < n) (hroom : n < MAX_FILES)
    (hnamed : namedDentry fs fname = some i) :
    removeDentry fs fname = some (moveDentry (clearFile fs i) i (n - 1)) := by
  have hscan : scanDentries (clearFile fs i) (MAX_FILES - (i + 1)) (i + 1) = some n := by
    rw [scanDentries_eq_some_iff, dentryAt_clearFile (by omega)]
    refine ⟨by omega, by omega, h.invalid le_rfl hroom, fun m hm hmn => ?_⟩
    rw [dentryAt_clearFile (by omega)]
    exact h.valid m hmn
  rw [removeDentry, hnamed]
  simp only [hscan, Option.map_some]

/-- The entry behind the row after a removal has no name. -/
lemma moveDentry_last (fs : Fs) (i j : ℕ) :
    ((moveDentry (clearFile fs i) i j).dentries j).filename 0 = 0 := by
  rw [moveDentry]
  simp only [Function.update_self]
  rfl

/-- **A row is left**, with one entry less. -/
lemma Fs.Row.moveDentry (h : fs.Row n) (hi : i < n) :
    (moveDentry (clearFile fs i) i (n - 1)).Row (n - 1) := by
  have hle := h.le
  refine ⟨by omega, fun k hk => ?_, fun k hk hlt => ?_⟩
  · have hmoved : movedFrom i (n - 1) k < n := by
      rw [movedFrom]
      split <;> omega
    rw [dentryAt, moveDentry_dentries (by omega)]
    exact h.valid _ hmoved
  · rcases Nat.eq_or_lt_of_le hk with rfl | hlast
    · exact moveDentry_last fs i (n - 1)
    · have hstay : movedFrom i (n - 1) k = k := by
        rw [movedFrom, if_neg (by omega)]
      rw [moveDentry_dentries (by omega), hstay]
      exact h.rest k (by omega) hlt

/-- The indices of a row: the one that is given up, and those the others come from. -/
lemma range_perm_movedFrom (hi : i < n) :
    (List.range n).Perm (i :: (List.range (n - 1)).map (movedFrom i (n - 1))) := by
  have hinj : ∀ k ∈ List.range (n - 1), ∀ l ∈ List.range (n - 1),
      movedFrom i (n - 1) k = movedFrom i (n - 1) l → k = l := by
    intro k hk l hl hkl
    rw [List.mem_range] at hk hl
    rw [movedFrom, movedFrom] at hkl
    split at hkl <;> split at hkl <;> omega
  have hnodup : (i :: (List.range (n - 1)).map (movedFrom i (n - 1))).Nodup := by
    refine List.nodup_cons.mpr ⟨fun hmem => ?_, List.nodup_range.map_on hinj⟩
    obtain ⟨k, hk, hmoved⟩ := List.mem_map.mp hmem
    rw [List.mem_range] at hk
    rw [movedFrom] at hmoved
    split at hmoved <;> omega
  refine (List.perm_ext_iff_of_nodup List.nodup_range hnodup).mpr fun a => ?_
  rw [List.mem_range, List.mem_cons, List.mem_map]
  constructor
  · intro ha
    by_cases hai : a = i
    · exact Or.inl hai
    · refine Or.inr ⟨if a = n - 1 then i else a, ?_, ?_⟩
      · rw [List.mem_range]
        split <;> omega
      · rw [movedFrom]
        split_ifs <;> omega
  · rintro (rfl | ⟨k, hk, rfl⟩)
    · exact hi
    · rw [List.mem_range] at hk
      rw [movedFrom]
      split <;> omega

/-- **The entries** before a removal: the one that is removed, and those there are after it. -/
lemma entries_perm_moveDentry (hi : i < n) : (fs.entries n).Perm
    (fs.dentries i :: (moveDentry (clearFile fs i) i (n - 1)).entries (n - 1)) := by
  have hmap : (moveDentry (clearFile fs i) i (n - 1)).entries (n - 1)
      = ((List.range (n - 1)).map (movedFrom i (n - 1))).map fs.dentries := by
    rw [Fs.entries, List.map_map]
    refine List.map_congr_left fun k hk => ?_
    rw [List.mem_range] at hk
    exact moveDentry_dentries (by omega)
  rw [hmap, ← List.map_cons, Fs.entries]
  exact (range_perm_movedFrom hi).map fs.dentries

/-- **Lookups** of names that are not removed. -/
lemma Fs.Row.readDentryByName_moveDentry (h : fs.Row n) (hdistinct : fs.DistinctNames n)
    (hi : i < n) {other : CString} (hother : ¬ fs.named other i) :
    readDentryByName (CustomLinuxOs.moveDentry (clearFile fs i) i (n - 1)) other
      = readDentryByName fs other := by
  have hle := h.le
  by_cases hempty : other.byte 0 = 0
  · rw [readDentryByName, if_pos hempty, readDentryByName, if_pos hempty]
  · have hne : other.length ≠ 0 := fun h0 => hempty (other.byte_eq_zero_iff.mpr h0)
    rw [readDentryByName, if_neg hempty, readDentryByName, if_neg hempty]
    cases hfind : findDentry fs other with
    | none =>
        rw [findDentry_eq_none_iff] at hfind
        have hnone : findDentry (CustomLinuxOs.moveDentry (clearFile fs i) i (n - 1)) other
            = none := by
          rw [findDentry_eq_none_iff]
          intro k hk hanswers
          obtain ⟨-, hbefore⟩ := (answers_moved hne k).mp hanswers
          refine hfind _ ?_ hbefore
          rw [movedFrom]
          split <;> omega
        rw [hnone]
        rfl
    | some t =>
        have hti : t ≠ i := by
          rintro rfl
          exact hother (findDentry_eq_some_iff.mp hfind).2.1.2
        obtain ⟨hlt, hanswers, -⟩ := findDentry_eq_some_iff.mp hfind
        obtain ⟨t', ht', hsame⟩ := findDentry_moved (i := i) (j := n - 1) hne (by omega)
          (by omega) hfind hti fun _ htj hlast =>
            htj.ne (h.answers_unique hne hdistinct hlt (by omega) hanswers hlast)
        rw [ht', Option.map_some, Option.map_some, hsame]

/-- The name that is removed is not found any more. -/
lemma Fs.Row.readDentryByName_removed (h : fs.Row n) (hdistinct : fs.DistinctNames n)
    (hi : i < n) (hnamed : fs.named fname i) :
    readDentryByName (CustomLinuxOs.moveDentry (clearFile fs i) i (n - 1)) fname = none := by
  have hne := h.length_ne_zero hi hnamed
  rw [readDentryByName_eq_none_iff hne]
  refine (h.moveDentry hi).findDentry_eq_none hne fun k hk hsame => ?_
  rw [Fs.named, moveDentry_dentries (by omega)] at hsame
  have hmoved : movedFrom i (n - 1) k < n := by
    rw [movedFrom]
    split <;> omega
  have heq := hdistinct _ hmoved i hi (hsame.symm.trans hnamed)
  rw [movedFrom] at heq
  split at heq <;> omega

end Removed

/-- **`unlink`** of a name that is present takes its entry out, of which `remove_dentry` sets the
length to `0`, and leaves the others; for an absent name it fails. -/
theorem unlink_removes_one {fs : Fs} {n : ℕ} (hrow : fs.Row n) (hroom : n < MAX_FILES)
    (hdistinct : fs.DistinctNames n) (fname : CString) :
    (∀ i < n, fs.named fname i → ∃ fs', unlink fs fname = some (0, fs') ∧ fs'.Row (n - 1)
      ∧ (fs.entries n).Perm (fs.dentries i :: fs'.entries (n - 1))
      ∧ (fs'.inodes (fs.ino i)).length = 0
      ∧ readDentryByName fs' fname = none
      ∧ ∀ other : CString, ¬ SameName fname.byte other.byte →
        readDentryByName fs' other = readDentryByName fs other)
    ∧ ((∀ i < n, ¬ fs.named fname i) → unlink fs fname = some (-1, fs)) := by
  constructor
  · intro i hi hnamed
    have hne := hrow.length_ne_zero hi hnamed
    have hfind := hrow.findDentry_eq hdistinct hi hnamed
    have hpresent : readDentryByName fs fname = some (fs.dentries i) :=
      readDentryByName_eq_some_iff.mpr ⟨hne, i, hfind, rfl⟩
    have hremove := hrow.removeDentry_eq hi hroom ((hrow.namedDentry_eq hne).trans hfind)
    refine ⟨moveDentry (clearFile fs i) i (n - 1), ?_, hrow.moveDentry hi,
      entries_perm_moveDentry hi, ?_, hrow.readDentryByName_removed hdistinct hi hnamed,
      fun other hother => ?_⟩
    · rw [unlink, hpresent, hremove]
      rfl
    · exact congrArg Inode.length (Function.update_self (fs.ino i) _ fs.inodes)
    · refine hrow.readDentryByName_moveDentry hdistinct hi fun hsame => ?_
      exact hother (hnamed.trans hsame.symm)
  · intro habsent
    have hnone : readDentryByName fs fname = none := by
      by_cases hne : fname.length = 0
      · rw [readDentryByName, if_pos (fname.byte_eq_zero_iff.mpr hne)]
      · rw [readDentryByName_eq_none_iff hne]
        exact hrow.findDentry_eq_none hne habsent
    rw [unlink, hnone]
    rfl

/-- The directory of `oneFile` is a row of one entry, which is named `a`. -/
lemma oneFile_row (n : UInt32) : (oneFile n).Row 1 := by
  refine ⟨by decide, fun i hi => ?_, fun i hi _ => ?_⟩
  · obtain rfl : i = 0 := by omega
    exact dentryAt_eq_true_iff.mpr ⟨rfl, by simp [oneFile]⟩
  · have hi0 : i ≠ 0 := by omega
    simp [oneFile, hi0]

lemma oneFile_named (n : UInt32) : (oneFile n).named nameA 0 := by
  rw [Fs.named, ← sameName_iff, beq_iff_eq, strncmp_eq_zero_iff]
  intro k _ _
  rcases Nat.eq_zero_or_pos k with rfl | hk
  · rfl
  · have hk0 : k ≠ 0 := by omega
    simp [oneFile, nameA, CString.byte, hk0]

/-- A directory with the files `a`, `b` and `c`. -/
def threeFiles : Fs where
  numDirEntries := 3
  dentries i :=
    { filename := fun k => if i < 3 ∧ k = 0 then 97 + i.toUInt8 else 0
      fileType := if i < 3 then FILE_TYPE_REGULAR else 3
      inodeNum := 1 + i.toUInt32
      reserved := fun _ => 0 }
  inodes _ := ⟨5, fun _ => 15⟩
  data _ _ := 7
  dataBlockBitmap _ := 0

lemma threeFiles_row : threeFiles.Row 3 := by
  refine ⟨by decide, by decide, fun i hi _ => ?_⟩
  simp [threeFiles, not_lt.mpr hi]

lemma threeFiles_distinct : threeFiles.DistinctNames 3 := by
  have hnames : ∀ i < 3, ∀ j < 3, (strncmp (threeFiles.dentries i).filename
      (threeFiles.dentries j).filename 32 0 == 0) = true → i = j := by
    decide
  exact fun i hi j hj h => hnames i hi j hj ((sameName_iff _ _).mpr h)

/-- Of three files the one in the middle is removed, and the others are found as before; a name that
there is not is refused. -/
theorem unlink_removes_one_threeFiles :
    (∃ fs', unlink threeFiles nameB = some (0, fs') ∧ fs'.Row 2
      ∧ (threeFiles.entries 3).Perm (threeFiles.dentries 1 :: fs'.entries 2)
      ∧ (fs'.inodes 2).length = 0
      ∧ readDentryByName fs' nameB = none
      ∧ readDentryByName fs' ⟨[99], by decide⟩ = some (threeFiles.dentries 2))
    ∧ unlink threeFiles ⟨[100], by decide⟩ = some (-1, threeFiles) := by
  have hremoves := unlink_removes_one threeFiles_row (by decide) threeFiles_distinct
  have hnamed : threeFiles.named nameB 1 := (sameName_iff _ _).mp (by decide)
  have hother : ¬ SameName nameB.byte (CString.byte ⟨[99], by decide⟩) := by
    rw [← sameName_iff]
    decide
  have habsent : ∀ i < 3, ¬ (strncmp (CString.byte ⟨[100], by decide⟩)
      (threeFiles.dentries i).filename 32 0 == 0) = true := by
    decide
  obtain ⟨fs', hunlink, hrow, hperm, hlength, hnone, hothers⟩ :=
    (hremoves nameB).1 1 (by decide) hnamed
  have hfound : readDentryByName threeFiles ⟨[99], by decide⟩ = some (threeFiles.dentries 2) :=
    readDentryByName_eq_some_iff.mpr ⟨by decide, 2, by decide, rfl⟩
  refine ⟨⟨fs', hunlink, hrow, hperm, hlength, hnone, (hothers _ hother).trans hfound⟩, ?_⟩
  exact (hremoves ⟨[100], by decide⟩).2 fun i hi h => habsent i hi ((sameName_iff _ _).mpr h)

/-! ### Rows in a run -/

namespace Fs.Row

variable {fs : Fs} {n : ℕ}

/-- **`new_dentry`** of a name that fits an entry leaves a row. -/
lemma newDentry (h : fs.Row n) {fname : CString} (hlen : fname.length < DENTRY_SIZE) :
    ∃ m, (CustomLinuxOs.newDentry fs fname).Row m := by
  have hle := h.le
  rcases newDentry_cases fs hlen with ⟨-, heq⟩ | ⟨i, d, hslot, heq, hfirst, htype, -⟩
  · exact ⟨n, heq.symm ▸ h⟩
  · rw [h.freeSlot_eq] at hslot
    obtain ⟨hlt, rfl⟩ : n < MAX_FILES ∧ n = i := by simpa using hslot
    have hother {k : ℕ} (hk : k ≠ n) :
        (CustomLinuxOs.newDentry fs fname).dentries k = fs.dentries k := by
      rw [heq]
      exact Function.update_of_ne hk _ _
    have hself : (CustomLinuxOs.newDentry fs fname).dentries n = d := by
      rw [heq]
      exact Function.update_self _ _ _
    by_cases hempty : fname.byte 0 = 0
    · refine ⟨n, hle, fun k hk => ?_, fun k hk hkMax => ?_⟩
      · rw [dentryAt, hother (by omega)]
        exact h.valid k hk
      · rcases Nat.eq_or_lt_of_le hk with rfl | hnk
        · rw [hself, hfirst, hempty]
        · rw [hother (by omega)]
          exact h.rest k hk hkMax
    · refine ⟨n + 1, hlt, fun k hk => ?_, fun k hk hkMax => ?_⟩
      · rcases Nat.lt_succ_iff_lt_or_eq.mp hk with hkn | rfl
        · rw [dentryAt, hother (by omega)]
          exact h.valid k hkn
        · rw [dentryAt_eq_true_iff, hself, htype, hfirst]
          exact ⟨rfl, hempty⟩
      · rw [hother (by omega)]
        exact h.rest k (by omega) hkMax

/-- `unlink` leaves a row. -/
lemma unlink (h : fs.Row n) {fname : CString} {r : ℤ × Fs}
    (hr : CustomLinuxOs.unlink fs fname = some r) : ∃ m, r.2.Row m := by
  rcases unlink_cases hr with ⟨-, heq⟩ | ⟨hsome, hremove⟩
  · exact ⟨n, heq ▸ h⟩
  · obtain ⟨d, hd⟩ := Option.isSome_iff_exists.mp hsome
    obtain ⟨hne, -⟩ := readDentryByName_eq_some_iff.mp hd
    obtain ⟨i, j, hi, hruns, -⟩ := CustomLinuxOs.removeDentry_eq hremove
    obtain ⟨hlt, hnamed, -⟩ := namedDentry_eq_some_iff.mp hi
    have hin := h.lt_of_named hne hlt hnamed
    rw [h.removeDentry_eq hin ((h.endsBehind_iff hin).mp hruns.endsBehind) hi] at hremove
    rw [← Option.some.inj hremove]
    exact ⟨n - 1, h.moveDentry hin⟩

end Fs.Row

/-- A name that `creat` makes an entry for fits this. -/
def FitsEntry (s : Mounted) : FsEvent → Prop
  | .creat _ filename => s.fs.MakesEntry filename → filename.length < DENTRY_SIZE
  | _ => True

/-- What `creat` makes of the filesystem: nothing, or it calls `new_dentry` with a name that fits,
or to no effect. -/
lemma creat_newDentry (counter : UInt32) (fds : FdTable) {fs : Fs} {filename : CString}
    (hlen : fs.MakesEntry filename → filename.length < DENTRY_SIZE) :
    (creat counter fs fds filename).2.1 = fs
      ∨ filename.length < DENTRY_SIZE
        ∧ (creat counter fs fds filename).2.1 = newDentry fs filename := by
  rw [creat]
  cases hname : readDentryByName fs filename with
  | some d => exact Or.inl rfl
  | none =>
      rw [if_neg (by simp)]
      cases hslot : freeSlot fs with
      | none => exact Or.inl (by simp only [newDentry, hslot])
      | some i =>
          by_cases hempty : filename.length = 0
          · exact Or.inr ⟨hempty ▸ by decide, rfl⟩
          · exact Or.inr ⟨hlen ⟨hname, hempty, by simp [hslot]⟩, rfl⟩

/-- **A call** whose name fits leaves a row. -/
lemma fsStep_row {s s' : Mounted} {e : FsEvent} (hs : ∃ n, s.fs.Row n) (hfits : FitsEntry s e)
    (h : fsStep s e = some s') : ∃ n, s'.fs.Row n := by
  obtain ⟨n, hrow⟩ := hs
  cases e with
  | «open» counter filename =>
      obtain rfl := Option.some.inj h
      exact ⟨n, hrow⟩
  | close fd =>
      obtain rfl := Option.some.inj h
      exact ⟨n, hrow⟩
  | creat counter filename =>
      obtain rfl := Option.some.inj h
      rcases creat_newDentry counter s.fds hfits with heq | ⟨hlen, heq⟩
      · exact ⟨n, heq.symm ▸ hrow⟩
      · rw [heq]
        exact hrow.newDentry hlen
  | write fd buf stale =>
      obtain ⟨-, rfl⟩ := fsStep_write h
      have heq := fileWrite_eq s.fs s.fds fd buf buf.length.toUInt32 stale
      exact ⟨n, hrow.le, heq ▸ hrow.valid, heq ▸ hrow.rest⟩
  | unlink filename =>
      obtain ⟨r, hr, rfl⟩ := Option.map_eq_some_iff.mp h
      exact hrow.unlink hr

/-- **A run** of calls whose names fit leaves a row. -/
lemma row_of_run {s z : Mounted} {es : List FsEvent} (hs : ∃ n, s.fs.Row n)
    (hrun : Run fsStep s es z) (hfits : EveryStep fsStep s es FitsEntry) : ∃ n, z.fs.Row n :=
  (hfits.everyState (P := fun t => ∃ n, t.fs.Row n) hs fun _ _ _ hrow hfit hstep =>
    fsStep_row hrow hfit hstep).last hrun

end CustomLinuxOs
