import CustomLinuxOs.Filesystem.Readers
import CustomLinuxOs.Filesystem.Names

/-!
What `creat` leaves behind when it fails.  It makes the entry before it calls `open`, which may
find that there is no descriptor, and it makes one for the empty name too, which `open` refuses.

* `findDentry_newDentry`: a new name is found in the entry that was free, however long it is.
* `FailsCleanly`, `EntryOpens`: a failure changes nothing; and when that is so.
* `failsCleanly_iff`: the one exactly when the other.
-/

namespace CustomLinuxOs

/-- A `creat` that returns `-1` leaves the filesystem and the descriptors as they were. -/
def FailsCleanly (counter : UInt32) (fs : Fs) (fds : FdTable) (filename : CString) : Prop :=
  (creat counter fs fds filename).1 = SYSCALL_ERROR →
    (creat counter fs fds filename).2 = (fs, fds)

/-- An entry that is made for a name can be opened at once; for the empty name, the entry is as
`new_dentry` leaves it already. -/
def EntryOpens (fs : Fs) (fds : FdTable) (filename : CString) : Prop :=
  readDentryByName fs filename = none → ∀ i, freeSlot fs = some i →
    (filename.length ≠ 0 → freeFd fds ≠ none)
    ∧ (filename.length = 0 → (fs.dentries i).fileType = FILE_TYPE_REGULAR
      ∧ (fs.dentries i).inodeNum = (freeInode fs).toUInt32)

section NewName

variable {fs : Fs} {fname : CString} {i : ℕ}

variable (fname) in
/-- The entry for a new name. -/
lemma newDentry_self (hslot : freeSlot fs = some i) :
    (newDentry fs fname).dentries i = { strcpyDentry fs.dentries i fname i with
      fileType := FILE_TYPE_REGULAR, inodeNum := (freeInode fs).toUInt32 } := by
  rw [newDentry, hslot]
  exact Function.update_self _ _ _

lemma newDentry_before (hslot : freeSlot fs = some i) {k : ℕ} (hk : k < i) :
    (newDentry fs fname).dentries k = fs.dentries k := by
  rw [newDentry, hslot]
  simp only [Function.update_of_ne hk.ne]
  exact strcpyDentry_before fs.dentries fname hk

/-- **A new name** is found in the entry that it was written to. -/
lemma findDentry_newDentry (hnone : findDentry fs fname = none) (hslot : freeSlot fs = some i) :
    findDentry (newDentry fs fname) fname = some i := by
  have hi := (freeSlot_spec hslot).1
  rw [findDentry_eq_some_iff]
  refine ⟨hi, ?_, fun k hk => ?_⟩
  · rw [Fs.answers, Fs.named, newDentry_self fname hslot]
    exact ⟨rfl, sameName_strcpyDentry fs.dentries i fname⟩
  · rw [Fs.answers, Fs.named, newDentry_before hslot hk]
    exact findDentry_eq_none_iff.mp hnone k (by omega)

/-- The entry that is free has another name then. -/
lemma newDentry_ne (hne : fname.length ≠ 0) (hslot : freeSlot fs = some i) :
    newDentry fs fname ≠ fs := by
  intro heq
  have hhead := (sameName_strcpyDentry fs.dentries i fname).head
  have hname : (strcpyDentry fs.dentries i fname i).filename
      = ((newDentry fs fname).dentries i).filename := by rw [newDentry_self fname hslot]
  rw [hname, heq, (freeSlot_spec hslot).2] at hhead
  exact hne (fname.byte_eq_zero_iff.mp hhead)

/-- **The empty name** changes the type and the inode of the entry that is free. -/
lemma newDentry_empty_eq_iff (hempty : fname.length = 0) (hslot : freeSlot fs = some i) :
    newDentry fs fname = fs ↔ (fs.dentries i).fileType = FILE_TYPE_REGULAR
      ∧ (fs.dentries i).inodeNum = (freeInode fs).toUInt32 := by
  have hnil : fname.val = [] := List.length_eq_zero_iff.mp hempty
  have hwrite : strcpyDentry fs.dentries i fname = fs.dentries := by
    have hkeep : (fs.dentries i).setByte 0 0 = fs.dentries i := by
      have hname : Function.update (fs.dentries i).filename 0 0 = (fs.dentries i).filename :=
        Function.update_eq_self_iff.mpr (freeSlot_spec hslot).2.symm
      rw [Dentry.setByte, if_pos (by decide), hname]
    rw [strcpyDentry, hnil, List.nil_append]
    simp only [writeDentry, Nat.zero_div, Nat.add_zero, Nat.zero_mod, hkeep,
      Function.update_eq_self]
  have hnew : newDentry fs fname = { fs with
      dentries := Function.update fs.dentries i { fs.dentries i with
        fileType := FILE_TYPE_REGULAR, inodeNum := (freeInode fs).toUInt32 } } := by
    rw [newDentry, hslot]
    simp only [hwrite]
  constructor
  · intro heq
    have hself := newDentry_self fname hslot
    rw [heq] at hself
    rw [hself]
    exact ⟨rfl, rfl⟩
  · rintro ⟨htype, hino⟩
    have hsame : Function.update fs.dentries i { fs.dentries i with
        fileType := FILE_TYPE_REGULAR, inodeNum := (freeInode fs).toUInt32 } = fs.dentries := by
      rw [← htype, ← hino]
      exact Function.update_eq_self i fs.dentries
    rw [hnew, hsame]

end NewName

/-! ### `creat` -/

section Creat

variable {counter : UInt32} {fs : Fs} {fds : FdTable} {filename : CString}

variable (counter fds) in
/-- An `open` that fails for an entry that is found lacks a descriptor; it changes nothing. -/
lemma openCall_found {d : Dentry} (hd : readDentryByName fs filename = some d) :
    (freeFd fds = none ∧ openCall counter fs fds filename = (SYSCALL_ERROR, fds))
      ∨ freeFd fds ≠ none ∧ (openCall counter fs fds filename).1 ≠ SYSCALL_ERROR := by
  cases hfd : freeFd fds with
  | none => exact Or.inl ⟨rfl, by simp only [openCall, hd, hfd]⟩
  | some fd =>
      obtain ⟨e, he, -⟩ := openFd_of_found counter hd
      refine Or.inr ⟨Option.some_ne_none fd, ?_⟩
      simp only [openCall, hd, hfd, he, SYSCALL_ERROR]
      omega

/-- **A failed `creat`** changes nothing exactly when it makes no entry that cannot be opened. -/
theorem failsCleanly_iff (counter : UInt32) (fs : Fs) (fds : FdTable) (filename : CString) :
    FailsCleanly counter fs fds filename ↔ EntryOpens fs fds filename := by
  cases hname : readDentryByName fs filename with
  | some d =>
      have hcreat : creat counter fs fds filename = ((openCall counter fs fds filename).1, fs,
          (openCall counter fs fds filename).2) := by
        rw [creat, if_pos (by rw [hname]; rfl)]
      refine iff_of_true ?_ fun hnone => absurd (hname.symm.trans hnone) (by simp)
      rw [FailsCleanly, hcreat]
      intro hfail
      rcases openCall_found counter fds hname with ⟨-, heq⟩ | ⟨-, hne⟩
      · rw [heq]
      · exact absurd hfail hne
  | none =>
      have hcreat : creat counter fs fds filename
          = ((openCall counter (newDentry fs filename) fds filename).1, newDentry fs filename,
            (openCall counter (newDentry fs filename) fds filename).2) := by
        rw [creat, if_neg (by rw [hname]; simp)]
      rw [FailsCleanly, EntryOpens, hcreat, forall_prop_of_true hname]
      cases hslot : freeSlot fs with
      | none =>
          have hsame : newDentry fs filename = fs := by rw [newDentry, hslot]
          refine iff_of_true (fun _ => ?_) fun i hi => absurd hi (by simp)
          simp only [hsame, openCall, hname]
      | some i =>
          simp only [Option.some.injEq, forall_eq']
          by_cases hempty : filename.length = 0
          · have hbyte := filename.byte_eq_zero_iff.mpr hempty
            have hopen : openCall counter (newDentry fs filename) fds filename
                = (SYSCALL_ERROR, fds) := by
              simp only [openCall, readDentryByName, if_pos hbyte]
            rw [hopen, forall_prop_of_true rfl, Prod.mk.injEq, and_iff_left rfl,
              newDentry_empty_eq_iff hempty hslot]
            exact ⟨fun h => ⟨fun hne => absurd hempty hne, fun _ => h⟩, fun h => h.2 hempty⟩
          · have hfound : readDentryByName (newDentry fs filename) filename
                = some ((newDentry fs filename).dentries i) := by
              have hnone := (readDentryByName_eq_none_iff hempty).mp hname
              exact readDentryByName_eq_some_iff.mpr
                ⟨hempty, i, findDentry_newDentry hnone hslot, rfl⟩
            rcases openCall_found counter fds hfound with
              ⟨hfull, heq⟩ | ⟨hfree, hne⟩
            · refine iff_of_false (fun h => ?_) fun h => h.1 hempty hfull
              rw [heq] at h
              exact newDentry_ne hempty hslot (Prod.mk.inj (h rfl)).1
            · exact iff_of_true (fun hfail => absurd hfail hne)
                ⟨fun _ => hfree, fun h => absurd h hempty⟩

/-- Without a descriptor left `creat` fails, and the new name stays in the directory. -/
theorem creat_noDescriptor :
    (creat 0 noFiles (fun _ => ⟨some .regular, 0, 0, 0⟩) nameA).1 = SYSCALL_ERROR
      ∧ ((creat 0 noFiles (fun _ => ⟨some .regular, 0, 0, 0⟩) nameA).2.1.dentries 0).filename 0
        ≠ (noFiles.dentries 0).filename 0
      ∧ ¬ FailsCleanly 0 noFiles (fun _ => ⟨some .regular, 0, 0, 0⟩) nameA := by
  have hfail : (creat 0 noFiles (fun _ => ⟨some .regular, 0, 0, 0⟩) nameA).1
      = SYSCALL_ERROR := by decide +kernel
  have hname : ((creat 0 noFiles (fun _ => ⟨some .regular, 0, 0, 0⟩) nameA).2.1.dentries
      0).filename 0 ≠ (noFiles.dentries 0).filename 0 := by decide +kernel
  refine ⟨hfail, hname, fun h => ?_⟩
  rw [h hfail] at hname
  exact hname rfl

end Creat

end CustomLinuxOs
