import Mathlib.Data.List.GetD
import CustomLinuxOs.Filesystem.Directory

/-!
Names in the directory: what the lookups find, before and after a change.

* `SameName`: two names agree in the bytes `strncmp` compares, which is an equivalence.
* `findDentry_eq_some_iff`, `namedDentry_eq_some_iff`: what the two lookups stop at.
* `sameName_strcpyDentry`, `newDentry_eq`: a new entry has its name, however long that is.
* `removeDentry_eq`: what `remove_dentry` leaves, when its scan ends in the boot block.
* `findDentry_moved`: another name is found as before.
-/

namespace CustomLinuxOs

/-! ### Equal names -/

/-- Two names agree in their first `32` bytes, up to a terminator. -/
def SameName (s1 s2 : ℕ → UInt8) : Prop := ∀ k < 32, (∀ l < k, s1 l ≠ 0) → s1 k = s2 k

lemma toInt8_sub_eq_zero_iff (a b : UInt8) : a.toInt8.toInt - b.toInt8.toInt = 0 ↔ a = b := by
  rw [sub_eq_zero, Int8.toInt_inj]
  exact ⟨fun h => congrArg Int8.toUInt8 h, fun h => h ▸ rfl⟩

/-- **`strncmp`** yields `0` for strings that agree up to a terminator. -/
lemma strncmp_eq_zero_iff (s1 s2 : ℕ → UInt8) (n i : ℕ) : strncmp s1 s2 n i = 0
    ↔ ∀ k < n, (∀ l < k, s1 (i + l) ≠ 0) → s1 (i + k) = s2 (i + k) := by
  induction n generalizing i with
  | zero => exact iff_of_true rfl fun k hk => absurd hk (Nat.not_lt_zero k)
  | succ n ih =>
      rw [strncmp]
      split
      · rename_i hstop
        rw [toInt8_sub_eq_zero_iff]
        constructor
        · intro hsame k _ hbefore
          cases k with
          | zero => exact hsame
          | succ k =>
              have hend := hstop.resolve_left (not_not.mpr hsame)
              exact absurd hend (hbefore 0 (Nat.succ_pos k))
        · intro hall
          exact hall 0 (Nat.succ_pos n) fun l hl => absurd hl (Nat.not_lt_zero l)
      · rename_i hgo
        obtain ⟨hsame, hne⟩ := not_or.mp hgo
        rw [ih]
        constructor
        · intro hall k hk hbefore
          cases k with
          | zero => exact not_not.mp hsame
          | succ k =>
              have hrest := hall k (by omega) fun l hl => by
                have := hbefore (l + 1) (by omega)
                rwa [Nat.add_assoc, Nat.add_comm 1 l]
              rwa [Nat.add_assoc, Nat.add_comm 1 k] at hrest
        · intro hall k hk hbefore
          have hrest := hall (k + 1) (by omega) fun l hl => by
            cases l with
            | zero => exact hne
            | succ l =>
                have := hbefore l (by omega)
                rwa [Nat.add_assoc, Nat.add_comm 1 l] at this
          rwa [Nat.add_assoc, Nat.add_comm 1 k]

/-- The comparison of the lookups. -/
lemma sameName_iff (s1 s2 : ℕ → UInt8) : (strncmp s1 s2 32 0 == 0) = true ↔ SameName s1 s2 := by
  rw [beq_iff_eq, strncmp_eq_zero_iff, SameName]
  simp only [Nat.zero_add]

namespace SameName

variable {s1 s2 s3 : ℕ → UInt8}

lemma refl (s : ℕ → UInt8) : SameName s s := fun _ _ _ => rfl

/-- As far as the names go they end at the same place. -/
lemma before (h : SameName s1 s2) {k : ℕ} (hk : k ≤ 32) :
    (∀ l < k, s1 l ≠ 0) ↔ ∀ l < k, s2 l ≠ 0 := by
  induction k with
  | zero =>
      exact ⟨fun _ l hl => absurd hl (Nat.not_lt_zero l),
        fun _ l hl => absurd hl (Nat.not_lt_zero l)⟩
  | succ k ih =>
      have hih := ih (by omega)
      constructor
      · intro h1 l hl
        rcases Nat.lt_succ_iff_lt_or_eq.mp hl with hlt | rfl
        · exact hih.mp (fun m hm => h1 m (by omega)) l hlt
        · rw [← h l (by omega) fun m hm => h1 m (by omega)]
          exact h1 l (by omega)
      · intro h2 l hl
        have h1 := hih.mpr fun m hm => h2 m (by omega)
        rcases Nat.lt_succ_iff_lt_or_eq.mp hl with hlt | rfl
        · exact h1 l hlt
        · rw [h l (by omega) h1]
          exact h2 l (by omega)

lemma symm (h : SameName s1 s2) : SameName s2 s1 := fun k hk h2 =>
  (h k hk ((h.before hk.le).mpr h2)).symm

lemma trans (h : SameName s1 s2) (h' : SameName s2 s3) : SameName s1 s3 := fun k hk h1 =>
  (h k hk h1).trans (h' k hk ((h.before hk.le).mp h1))

/-- The first byte of a name. -/
lemma head (h : SameName s1 s2) : s1 0 = s2 0 :=
  h 0 (by decide) fun l hl => absurd hl (Nat.not_lt_zero l)

end SameName

/-! ### Lookups -/

/-- The entry at an index has the name. -/
def Fs.named (fs : Fs) (fname : CString) (k : ℕ) : Prop :=
  SameName fname.byte (fs.dentries k).filename

/-- `read_dentry_by_name` takes an entry for one with the name. -/
def Fs.answers (fs : Fs) (fname : CString) (k : ℕ) : Prop :=
  checkValidFileType (fs.dentries k).fileType = true ∧ fs.named fname k

lemma findDentry_eq_some_iff {fs : Fs} {fname : CString} {i : ℕ} :
    findDentry fs fname = some i
      ↔ i < MAX_FILES ∧ fs.answers fname i ∧ ∀ k < i, ¬ fs.answers fname k := by
  simp only [findDentry, List.find?_range_eq_some, Bool.and_eq_true, sameName_iff, List.mem_range,
    Fs.answers, Fs.named, Bool.not_eq_true', ← Bool.not_eq_true]
  tauto

lemma findDentry_eq_none_iff {fs : Fs} {fname : CString} :
    findDentry fs fname = none ↔ ∀ k < MAX_FILES, ¬ fs.answers fname k := by
  simp only [findDentry, List.find?_range_eq_none, Bool.not_eq_true', ← Bool.not_eq_true,
    Bool.and_eq_true, sameName_iff, Fs.answers, Fs.named]

lemma namedDentry_eq_some_iff {fs : Fs} {fname : CString} {i : ℕ} :
    namedDentry fs fname = some i
      ↔ i < MAX_FILES ∧ fs.named fname i ∧ ∀ k < i, ¬ fs.named fname k := by
  simp only [namedDentry, List.find?_range_eq_some, sameName_iff, List.mem_range, Fs.named,
    Bool.not_eq_true', ← Bool.not_eq_true]
  tauto

lemma readDentryByName_eq_some_iff {fs : Fs} {fname : CString} {d : Dentry} :
    readDentryByName fs fname = some d
      ↔ fname.length ≠ 0 ∧ ∃ i, findDentry fs fname = some i ∧ fs.dentries i = d := by
  rw [readDentryByName]
  split
  · rename_i hempty
    exact iff_of_false (Option.some_ne_none d).symm fun h =>
      h.1 (fname.byte_eq_zero_iff.mp hempty)
  · rename_i hne
    rw [Option.map_eq_some_iff, and_iff_right fun h => hne (fname.byte_eq_zero_iff.mpr h)]

lemma readDentryByName_eq_none_iff {fs : Fs} {fname : CString} (hne : fname.length ≠ 0) :
    readDentryByName fs fname = none ↔ findDentry fs fname = none := by
  rw [readDentryByName, if_neg fun h => hne (fname.byte_eq_zero_iff.mp h), Option.map_eq_none_iff]

/-! ### A new name -/

lemma writeDentry_append (i p : ℕ) (bytes rest : List UInt8) (dentries : ℕ → Dentry) :
    writeDentry i p (bytes ++ rest) dentries
      = writeDentry i (p + bytes.length) rest (writeDentry i p bytes dentries) := by
  induction bytes generalizing p dentries with
  | nil => rfl
  | cons b bytes ih =>
      rw [List.cons_append, List.length_cons, ← Nat.add_assoc, Nat.add_right_comm]
      simp only [writeDentry]
      exact ih (p + 1) _

/-- What runs on behind an entry leaves this one and those before it alone. -/
lemma writeDentry_behind (i p : ℕ) (bytes : List UInt8) (dentries : ℕ → Dentry)
    (hp : DENTRY_SIZE ≤ p) {k : ℕ} (hk : k ≤ i) :
    writeDentry i p bytes dentries k = dentries k := by
  induction bytes generalizing p dentries with
  | nil => rfl
  | cons b bytes ih =>
      have hnext : 0 < p / DENTRY_SIZE := Nat.div_pos hp (by decide)
      simp only [writeDentry]
      rw [ih (p + 1) _ (by omega), Function.update_of_ne (by omega)]

/-- The entries up to the one a name is written to: only the first `64` bytes matter. -/
lemma strcpyDentry_take (dentries : ℕ → Dentry) (i : ℕ) (fname : CString) {k : ℕ} (hk : k ≤ i) :
    strcpyDentry dentries i fname k
      = writeDentry i 0 ((fname.val ++ [0]).take DENTRY_SIZE) dentries k := by
  rw [strcpyDentry]
  conv_lhs => rw [← List.take_append_drop DENTRY_SIZE (fname.val ++ [0])]
  rw [writeDentry_append, Nat.zero_add]
  by_cases hlen : (fname.val ++ [0]).length ≤ DENTRY_SIZE
  · rw [List.drop_eq_nil_of_le hlen, writeDentry]
  · rw [writeDentry_behind _ _ _ _ (by rw [List.length_take]; omega) hk]

lemma strcpyDentry_before (dentries : ℕ → Dentry) {i k : ℕ} (fname : CString) (hk : k < i) :
    strcpyDentry dentries i fname k = dentries k := by
  have hlen : 0 + ((fname.val ++ [0]).take DENTRY_SIZE).length ≤ DENTRY_SIZE := by
    rw [List.length_take]
    omega
  rw [strcpyDentry_take dentries i fname hk.le,
    writeDentry_of_ne i 0 _ dentries hlen (by omega)]

/-- **The name** of an entry after `strcpy`, of a string of any length. -/
lemma sameName_strcpyDentry (dentries : ℕ → Dentry) (i : ℕ) (fname : CString) :
    SameName fname.byte (strcpyDentry dentries i fname i).filename := by
  intro k hk hbefore
  have hlen : 0 + ((fname.val ++ [0]).take DENTRY_SIZE).length ≤ DENTRY_SIZE := by
    rw [List.length_take]
    omega
  have hend : k ≤ fname.val.length := by
    by_contra hgt
    refine hbefore fname.val.length (by omega) ?_
    rw [CString.byte, List.getD_eq_default _ _ le_rfl]
  have hkSize : k < DENTRY_SIZE := lt_of_lt_of_le hk (by decide)
  have hin : k < ((fname.val ++ [0]).take DENTRY_SIZE).length := by
    rw [List.length_take, List.length_append, List.length_singleton]
    omega
  rw [strcpyDentry_take dentries i fname le_rfl, writeDentry_filename _ _ _ _ hlen hk,
    if_pos ⟨Nat.zero_le k, by omega⟩, Nat.sub_zero, CString.byte, List.getD_eq_getElem?_getD,
    List.getD_eq_getElem?_getD, List.getElem?_take_of_lt hkSize]
  rcases Nat.lt_or_eq_of_le hend with hlt | rfl
  · rw [List.getElem?_append_left hlt]
  · rw [List.getElem?_append_right le_rfl, Nat.sub_self, List.getElem?_eq_none le_rfl]
    rfl

/-- **`new_dentry`** of a name that fits an entry, when there is a place for it. -/
lemma newDentry_eq {fs : Fs} {fname : CString} {i : ℕ} (hslot : freeSlot fs = some i)
    (hlen : fname.length < DENTRY_SIZE) :
    ∃ d, newDentry fs fname = { fs with dentries := Function.update fs.dentries i d }
      ∧ SameName fname.byte d.filename ∧ d.fileType = FILE_TYPE_REGULAR
      ∧ d.inodeNum.toNat = freeInode fs := by
  rcases newDentry_cases fs hlen with ⟨hnone, -⟩ | ⟨i', d, hi', heq, -, htype, hino⟩
  · rw [hnone] at hslot
    cases hslot
  · obtain rfl : i = i' := Option.some.inj (hslot.symm.trans hi')
    refine ⟨d, heq, ?_, htype, hino⟩
    have hd : d = (newDentry fs fname).dentries i := by
      rw [heq]
      exact (Function.update_self i d fs.dentries).symm
    rw [hd, newDentry, hslot]
    simp only [Function.update_self]
    exact sameName_strcpyDentry fs.dentries i fname

/-! ### After a removal -/

lemma scanDentries_eq_some_iff {fs : Fs} {k j r : ℕ} : scanDentries fs k j = some r
    ↔ j ≤ r ∧ r < j + k ∧ dentryAt fs r = false ∧ ∀ m, j ≤ m → m < r → dentryAt fs m = true := by
  induction k generalizing j with
  | zero => exact iff_of_false (Option.some_ne_none r).symm fun h => by omega
  | succ k ih =>
      rw [scanDentries]
      split
      · rename_i hvalid
        rw [ih]
        constructor
        · rintro ⟨hj, hr, hend, hall⟩
          refine ⟨by omega, by omega, hend, fun m hm hmr => ?_⟩
          rcases Nat.eq_or_lt_of_le hm with rfl | hlt
          · exact hvalid
          · exact hall m hlt hmr
        · rintro ⟨hj, hr, hend, hall⟩
          have hne : j ≠ r := by
            rintro rfl
            rw [hend] at hvalid
            cases hvalid
          exact ⟨by omega, by omega, hend, fun m hm hmr => hall m (by omega) hmr⟩
      · rename_i hinvalid
        rw [Bool.not_eq_true] at hinvalid
        constructor
        · intro h
          obtain rfl := Option.some.inj h
          exact ⟨le_rfl, by omega, hinvalid, fun m hm hmr => by omega⟩
        · rintro ⟨hj, -, -, hall⟩
          rcases Nat.eq_or_lt_of_le hj with rfl | hlt
          · rfl
          · rw [hall j le_rfl hlt] at hinvalid
            cases hinvalid

/-- The entries behind the one that is cleared. -/
lemma dentryAt_clearFile {fs : Fs} {i k : ℕ} (hk : k ≠ i) :
    dentryAt (clearFile fs i) k = dentryAt fs k := by
  simp only [dentryAt, clearFile, Function.update_of_ne hk]

/-- The scan ends in the boot block. -/
def Fs.EndsBehind (fs : Fs) (i : ℕ) : Prop := ∃ r, i < r ∧ r < MAX_FILES ∧ dentryAt fs r = false

/-- The entries behind index `i` are valid up to `j`, the last of their row. -/
def Fs.RunsTo (fs : Fs) (i j : ℕ) : Prop :=
  i ≤ j ∧ j + 1 < MAX_FILES ∧ dentryAt fs (j + 1) = false
    ∧ ∀ m, i < m → m ≤ j → dentryAt fs m = true

lemma Fs.RunsTo.endsBehind {fs : Fs} {i j : ℕ} (h : fs.RunsTo i j) : fs.EndsBehind i :=
  ⟨j + 1, Nat.lt_succ_of_le h.1, h.2.1, h.2.2.1⟩

/-- **`remove_dentry`** takes the last entry of the row behind the one it has found to its
place. -/
lemma removeDentry_eq {fs fs' : Fs} {fname : CString} (h : removeDentry fs fname = some fs') :
    ∃ i j, namedDentry fs fname = some i ∧ fs.RunsTo i j
      ∧ fs' = moveDentry (clearFile fs i) i j := by
  rw [removeDentry] at h
  cases hi : namedDentry fs fname with
  | none =>
      rw [hi] at h
      cases h
  | some i =>
      rw [hi] at h
      obtain ⟨r, hr, rfl⟩ := Option.map_eq_some_iff.mp h
      obtain ⟨hir, hend, hlast, hall⟩ := scanDentries_eq_some_iff.mp hr
      rw [dentryAt_clearFile (by omega)] at hlast
      have hlt := (namedDentry_eq_some_iff.mp hi).1
      obtain ⟨j, rfl⟩ : ∃ j, r = j + 1 := ⟨r - 1, by omega⟩
      refine ⟨i, j, rfl, ⟨by omega, by omega, hlast, fun m hm hmj => ?_⟩, rfl⟩
      rw [← dentryAt_clearFile (by omega : m ≠ i)]
      exact hall m (by omega) (by omega)

/-- It stays in the boot block when the scan does. -/
lemma removeDentry_isSome {fs : Fs} {fname : CString} {i : ℕ} (hi : namedDentry fs fname = some i)
    (hend : fs.EndsBehind i) : ∃ fs', removeDentry fs fname = some fs' := by
  classical
  have hex : ∃ r, i < r ∧ dentryAt fs r = false := by
    obtain ⟨r, hr, -, hlast⟩ := hend
    exact ⟨r, hr, hlast⟩
  obtain ⟨r, hr, hlt, hlast⟩ := hend
  have hle : Nat.find hex ≤ r := Nat.find_min' hex ⟨hr, hlast⟩
  obtain ⟨hgt, hfirst⟩ := Nat.find_spec hex
  have hscan : scanDentries (clearFile fs i) (MAX_FILES - (i + 1)) (i + 1)
      = some (Nat.find hex) := by
    rw [scanDentries_eq_some_iff, dentryAt_clearFile (by omega)]
    refine ⟨by omega, by omega, hfirst, fun m hm hmr => ?_⟩
    rw [dentryAt_clearFile (by omega), ← Bool.not_eq_false]
    exact fun hinvalid => Nat.find_min hex hmr ⟨by omega, hinvalid⟩
  rw [removeDentry, hi]
  simp only [hscan, Option.map_some]
  exact ⟨_, rfl⟩

section Moved

variable {fs : Fs} {fname : CString} {i j : ℕ}

/-- What answers to a name after a removal did so before, at its old index. -/
lemma answers_moved (hname : fname.length ≠ 0) (k : ℕ) :
    (moveDentry (clearFile fs i) i j).answers fname k
      ↔ k ≠ j ∧ fs.answers fname (movedFrom i j k) := by
  by_cases hkj : k = j
  · refine iff_of_false (fun h => ?_) fun h => h.1 hkj
    have hhead := h.2.head
    rw [hkj, moveDentry] at hhead
    simp only [Function.update_self] at hhead
    exact hname (fname.byte_eq_zero_iff.mp hhead)
  · rw [and_iff_right hkj, Fs.answers, Fs.named, moveDentry_dentries hkj]
    rfl

/-- The entry that is found for a name stays the first with that name when the last entry of the row
behind `i` is moved to `i`. -/
def Fs.StaysFirst (fs : Fs) (fname : CString) (i : ℕ) : Prop :=
  ∀ t j, findDentry fs fname = some t → i < t → t < j → fs.RunsTo i j → ¬ fs.answers fname j

/-- **Another name** is found with its old entry. -/
lemma findDentry_moved (hname : fname.length ≠ 0) (hij : i ≤ j) (hj : j < MAX_FILES) {t : ℕ}
    (ht : findDentry fs fname = some t) (hti : t ≠ i)
    (hstays : i < t → t < j → ¬ fs.answers fname j) :
    ∃ t', findDentry (moveDentry (clearFile fs i) i j) fname = some t'
      ∧ (moveDentry (clearFile fs i) i j).dentries t' = fs.dentries t := by
  obtain ⟨hlt, hanswers, hfirst⟩ := findDentry_eq_some_iff.mp ht
  have hback : (if t = j then i else t) ≠ j ∧ movedFrom i j (if t = j then i else t) = t := by
    rw [movedFrom]
    split_ifs <;> omega
  refine ⟨if t = j then i else t, findDentry_eq_some_iff.mpr ⟨?_, ?_, fun k hk h => ?_⟩, ?_⟩
  · split <;> omega
  · rw [answers_moved hname, hback.2]
    exact ⟨hback.1, hanswers⟩
  · -- an earlier entry with the name has been one before, or is the one that was moved
    obtain ⟨hkj, hbefore⟩ := (answers_moved hname k).mp h
    have hle : t ≤ movedFrom i j k := by
      by_contra hlt'
      exact hfirst _ (by omega) hbefore
    rw [movedFrom] at hbefore hle
    split at hbefore
    · rename_i hki
      rw [if_pos hki] at hle
      split at hk
      · omega
      · exact hstays (by omega) (by omega) hbefore
    · rename_i hki
      rw [if_neg hki] at hle
      split at hk <;> omega
  · rw [moveDentry_dentries hback.1, hback.2]

end Moved

end CustomLinuxOs
