import CustomLinuxOs.Foundations.NamedStore
import CustomLinuxOs.Filesystem.InodeOwnership
import CustomLinuxOs.Filesystem.Row
import CustomLinuxOs.Filesystem.WriteBack

/-!
The filesystem as a store of files: `open`, `close`, `creat`, `file_write` and `unlink` over the
boot block, the inodes and the block bitmap do what is said of the calls on a `NamedStore`.

* `Fs.lookup`, `Mounted.store`: the files under their names, with what can be read of them, and
  the open files; `lookup_eq_some_iff` reads this off the directory.
* `StoreInv`: the entries stand in a row, under different names and with different inodes.
* `SoundCall`: a new name fits its entry and gets an empty inode of no other file, a buffer is
  stored, in a block of no other file, and what is removed is a regular file.
* `creat_refines`, `write_refines`, `unlink_refines`: the single calls.
* `filesystem_refines`: runs; `writtenFile_reads`: a file that is written is read back later.
-/

namespace CustomLinuxOs

/-! ### The store -/

/-- The regular file with a name: its inode and what can be read of it. -/
def Fs.lookup (fs : Fs) (name : CString) : Option (ℕ × List UInt8) :=
  (readDentryByName fs name).bind fun d =>
    if d.fileType = FILE_TYPE_REGULAR then
      some (d.inodeNum.toNat, fs.readable d.inodeNum.toNat)
    else none

/-- The files under their names, and the files that descriptors are open for. -/
def Mounted.store (s : Mounted) : NamedStore CString ℕ (List UInt8) where
  files := s.fs.lookup
  opens fd :=
    if (s.fds fd).fopsTable = some .regular then some (s.fds fd).inodeNum.toNat else none

/-- What a call is for the store. -/
def FsEvent.call : FsEvent → StoreCall CString (List UInt8)
  | .open _ name => .open name
  | .close fd => .close fd.toNat
  | .creat _ name => .create name
  | .write fd buf _ => .write fd buf
  | .unlink name => .remove name

/-- Two strings are one name. -/
def OneFileName (x y : CString) : Prop := SameName x.byte y.byte

/-- The entries stand in a row of `n`, no two of them have one name, and no two files one inode. -/
structure StoreInv (fs : Fs) (n : ℕ) : Prop where
  row : fs.Row n
  names : fs.DistinctNames n
  inodes : fs.DistinctInodes

/-- The condition on a call. -/
def SoundCall (s : Mounted) : FsEvent → Prop
  | .creat _ name => s.fs.MakesEntry name →
      name.length < DENTRY_SIZE ∧ (∀ i, s.fs.live i → s.fs.ino i ≠ freeInode s.fs)
        ∧ (s.fs.inodes (freeInode s.fs)).length = 0
  | .write fd buf stale =>
      buf.length ≤ NUM_DATA_BLOCK_ADDR * BLOCK_SIZE ∧ StoresBuffer s.fs s.fds fd buf stale
        ∧ CopiesToOwn s (.write fd buf stale)
  | .unlink name => ∀ d, readDentryByName s.fs name = some d → d.fileType = FILE_TYPE_REGULAR
  | _ => True

/-! ### Lookups -/

section Lookup

variable {fs fs' : Fs} {n : ℕ}

/-- **A lookup** finds the regular file whose entry has the name. -/
lemma lookup_eq_some_iff (hrow : fs.Row n) (hnames : fs.DistinctNames n) {name : CString}
    {f : ℕ × List UInt8} : fs.lookup name = some f
      ↔ ∃ k < n, fs.named name k ∧ (fs.dentries k).fileType = FILE_TYPE_REGULAR
        ∧ f = (fs.ino k, fs.readable (fs.ino k)) := by
  rw [Fs.lookup, Option.bind_eq_some_iff]
  constructor
  · rintro ⟨d, hd, hf⟩
    obtain ⟨hne, k, hfind, rfl⟩ := readDentryByName_eq_some_iff.mp hd
    obtain ⟨hk, hanswers, -⟩ := findDentry_eq_some_iff.mp hfind
    obtain ⟨htype, hf⟩ := Option.ite_none_right_eq_some.mp hf
    exact ⟨k, hrow.lt_of_named hne hk hanswers.2, hanswers.2, htype, (Option.some.inj hf).symm⟩
  · rintro ⟨k, hk, hnamed, htype, rfl⟩
    refine ⟨fs.dentries k, readDentryByName_eq_some_iff.mpr
      ⟨hrow.length_ne_zero hk hnamed, k, hrow.findDentry_eq hnames hk hnamed, rfl⟩, ?_⟩
    exact if_pos htype

/-- The files are those of the row: where the entries and what can be read of them are the same, so
are all lookups. -/
lemma lookup_congr (h : StoreInv fs n) (h' : StoreInv fs' n)
    (hdentries : ∀ k < n, fs'.dentries k = fs.dentries k)
    (hreadable : ∀ k < n, (fs.dentries k).fileType = FILE_TYPE_REGULAR →
      fs'.readable (fs.ino k) = fs.readable (fs.ino k)) : fs'.lookup = fs.lookup := by
  funext name
  refine Option.ext fun f => ?_
  rw [lookup_eq_some_iff h'.row h'.names, lookup_eq_some_iff h.row h.names]
  refine exists_congr fun k => and_congr_right fun hk => ?_
  rw [Fs.named, Fs.named, Fs.ino, hdentries k hk]
  refine and_congr_right fun _ => and_congr_right fun htype => ?_
  rw [← Fs.ino, hreadable k hk htype]

/-- A lookup sees only what makes two strings one name. -/
lemma lookup_oneFileName (h : StoreInv fs n) {x y : CString} (hxy : OneFileName x y) :
    fs.lookup x = fs.lookup y := by
  refine Option.ext fun f => ?_
  rw [lookup_eq_some_iff h.row h.names, lookup_eq_some_iff h.row h.names]
  refine exists_congr fun k => and_congr_right fun _ => and_congr_left fun _ => ?_
  exact ⟨fun hx => hxy.symm.trans hx, fun hy => hxy.trans hy⟩

lemma live_of_regular (h : StoreInv fs n) {k : ℕ} (hk : k < n)
    (htype : (fs.dentries k).fileType = FILE_TYPE_REGULAR) : fs.live k :=
  ⟨lt_of_lt_of_le hk h.row.le, (dentryAt_eq_true_iff.mp (h.row.valid k hk)).2, htype⟩

/-- An empty file reads as empty. -/
lemma readable_of_length_zero {ino : ℕ} (h : (fs.inodes ino).length = 0) :
    fs.readable ino = [] := by
  rw [Fs.readable, h]
  rfl

/-- **What `read_data` reads** from the start of a file. -/
lemma readData_lookup (h : StoreInv fs n) {name : CString} {i : ℕ} {c : List UInt8}
    (hname : fs.lookup name = some (i, c)) {length : UInt32}
    (hlen : length.toNat + BLOCK_SIZE ≤ 2 ^ 32) :
    readData fs i 0 length = c.take length.toNat := by
  obtain ⟨k, -, -, -, hf⟩ := (lookup_eq_some_iff h.row h.names).mp hname
  obtain ⟨rfl, rfl⟩ := Prod.mk.inj hf
  rw [readData_eq _ _ _ _ hlen, Fs.readable, UInt32.toNat_zero, Nat.sub_zero]
  rcases Nat.le_total length.toNat (readableEnd (fs.inodes (fs.ino k)).length.toNat) with hle | hle
  · rw [Nat.min_eq_left hle, Fs.fileSlice_take _ _ _ hle]
  · rw [Nat.min_eq_right hle, List.take_of_length_le]
    rw [Fs.fileSlice_length]
    exact hle

end Lookup

/-! ### Descriptors -/

/-- **`open`** leaves the descriptors alone, or it gives a closed one to the file. -/
lemma openCall_opens (counter : UInt32) (fs : Fs) (fds : FdTable) (name : CString)
    (a : NamedStore CString ℕ (List UInt8)) (ha : a.opens = (Mounted.mk fs fds).store.opens) :
    Opens a (Mounted.mk fs (openCall counter fs fds name).2).store name := by
  have hkeep {fd : ℕ} {e : Fd} (hclosed : (fds fd).fopsTable = none)
      (he : e.fopsTable ≠ some .regular) :
      (Mounted.mk fs (Function.update fds fd e)).store.opens = a.opens := by
    rw [ha]
    funext k
    by_cases hk : k = fd
    · subst hk
      simp only [Mounted.store, Function.update_self, if_neg he]
      rw [if_neg (by simp [hclosed])]
    · simp only [Mounted.store, Function.update_of_ne hk]
  rw [openCall]
  cases hd : readDentryByName fs name with
  | none => exact .inl ha.symm
  | some d =>
      cases hfd : freeFd fds with
      | none => exact .inl ha.symm
      | some fd =>
          have hclosed : (fds fd).fopsTable = none := by
            have hfound := List.find?_some hfd
            exact of_decide_eq_true hfound
          simp only [openFd]
          by_cases hreg : d.fileType = FILE_TYPE_REGULAR
          · refine .inr ⟨fd, (d.inodeNum.toNat, fs.readable d.inodeNum.toNat), ?_, ?_, ?_⟩
            · show fs.lookup name = _
              rw [Fs.lookup, hd, Option.bind_some, if_pos hreg]
            · rw [ha]
              exact if_neg (by simp [hclosed])
            · rw [if_pos hreg, ha]
              funext k
              by_cases hk : k = fd
              · subst hk
                simp only [Mounted.store, Function.update_self, if_true]
              · simp only [Mounted.store, Function.update_of_ne hk]
          · refine .inl ?_
            rw [if_neg hreg]
            split_ifs
            · exact hkeep hclosed (by simp)
            · exact hkeep hclosed (by simp)
            · exact hkeep hclosed (by simp [hclosed])

/-- **`close`** leaves the descriptors alone, or it closes the one that is meant. -/
lemma closeCall_opens (fs : Fs) (fds : FdTable) (fd : ℤ) :
    (Mounted.mk fs (closeCall fds fd).2).store.opens = (Mounted.mk fs fds).store.opens
      ∨ (Mounted.mk fs (closeCall fds fd).2).store.opens
        = Function.update (Mounted.mk fs fds).store.opens fd.toNat none := by
  rw [closeCall]
  split_ifs
  · exact .inl rfl
  · exact .inl rfl
  · exact .inl rfl
  · refine .inr (funext fun k => ?_)
    by_cases hk : k = fd.toNat
    · subst hk
      simp only [Mounted.store, Function.update_self, reduceCtorEq, if_false]
    · simp only [Mounted.store, Function.update_of_ne hk]

/-! ### `creat` -/

section Creat

variable {fs : Fs} {n : ℕ} {name : CString}

/-- The row with a new entry behind it. -/
lemma storeInv_newDentry (h : StoreInv fs n) (hn : n < MAX_FILES) {d : Dentry}
    (hnone : readDentryByName fs name = none) (hne : name.length ≠ 0)
    (hname : SameName name.byte d.filename) (htype : d.fileType = FILE_TYPE_REGULAR)
    (hfresh : ∀ k, fs.live k → fs.ino k ≠ d.inodeNum.toNat) :
    StoreInv { fs with dentries := Function.update fs.dentries n d } (n + 1) := by
  set fs' : Fs := { fs with dentries := Function.update fs.dentries n d } with hfs'
  have hself : fs'.dentries n = d := Function.update_self _ _ _
  have hother {k : ℕ} (hk : k ≠ n) : fs'.dentries k = fs.dentries k := Function.update_of_ne hk _ _
  have hhead : d.filename 0 ≠ 0 := by
    rw [← hname.head]
    exact fun h0 => hne (name.byte_eq_zero_iff.mp h0)
  have habsent : ∀ k < n, ¬ SameName d.filename (fs.dentries k).filename := by
    intro k hk hsame
    have hfind := h.row.findDentry_eq h.names hk (hname.trans hsame)
    rw [(readDentryByName_eq_none_iff hne).mp hnone] at hfind
    cases hfind
  refine ⟨⟨hn, fun k hk => ?_, fun k hk hkMax => ?_⟩, fun k hk l hl hsame => ?_, ?_⟩
  · rcases Nat.lt_succ_iff_lt_or_eq.mp hk with hkn | rfl
    · rw [dentryAt, hother hkn.ne]
      exact h.row.valid k hkn
    · rw [dentryAt_eq_true_iff, hself, htype]
      exact ⟨rfl, hhead⟩
  · rw [hother (by omega)]
    exact h.row.rest k (by omega) hkMax
  · rcases Nat.lt_succ_iff_lt_or_eq.mp hk with hkn | rfl
    · rcases Nat.lt_succ_iff_lt_or_eq.mp hl with hln | rfl
      · rw [hother hkn.ne, hother hln.ne] at hsame
        exact h.names k hkn l hln hsame
      · rw [hother hkn.ne, hself] at hsame
        exact absurd hsame.symm (habsent k hkn)
    · rcases Nat.lt_succ_iff_lt_or_eq.mp hl with hln | rfl
      · rw [hother hln.ne, hself] at hsame
        exact absurd hsame (habsent l hln)
      · rfl
  · exact (distinctInodes_update h.inodes hn (h.row.rest n le_rfl hn) ⟨hhead, htype⟩).mpr hfresh

/-- **The store after a new entry**: its name leads to the file, the others to where they led. -/
lemma lookup_newDentry (h : StoreInv fs n) {d : Dentry}
    (h' : StoreInv { fs with dentries := Function.update fs.dentries n d } (n + 1))
    (hname : SameName name.byte d.filename) (htype : d.fileType = FILE_TYPE_REGULAR)
    (x : CString) :
    (OneFileName name x → ({ fs with dentries := Function.update fs.dentries n d } : Fs).lookup x
        = some (d.inodeNum.toNat, fs.readable d.inodeNum.toNat))
      ∧ (¬ OneFileName name x →
        ({ fs with dentries := Function.update fs.dentries n d } : Fs).lookup x
          = fs.lookup x) := by
  set fs' : Fs := { fs with dentries := Function.update fs.dentries n d } with hfs'
  have hself : fs'.dentries n = d := Function.update_self _ _ _
  have hother {k : ℕ} (hk : k < n) : fs'.dentries k = fs.dentries k :=
    Function.update_of_ne (by omega) _ _
  constructor
  · intro hx
    refine (lookup_eq_some_iff h'.row h'.names).mpr ⟨n, Nat.lt_succ_self n, ?_, ?_, ?_⟩
    · rw [Fs.named, hself]
      exact hx.symm.trans hname
    · rw [hself, htype]
    · rw [Fs.ino, hself]
      rfl
  · intro hx
    refine Option.ext fun f => ?_
    rw [lookup_eq_some_iff h'.row h'.names, lookup_eq_some_iff h.row h.names]
    constructor
    · rintro ⟨k, hk, hnamed, hktype, hf⟩
      rcases Nat.lt_succ_iff_lt_or_eq.mp hk with hkn | rfl
      · rw [Fs.named, hother hkn] at hnamed
        rw [hother hkn] at hktype
        rw [Fs.ino, hother hkn] at hf
        exact ⟨k, hkn, hnamed, hktype, hf⟩
      · rw [Fs.named, hself] at hnamed
        exact absurd (hname.trans hnamed.symm) hx
    · rintro ⟨k, hk, hnamed, hktype, hf⟩
      refine ⟨k, by omega, ?_, ?_, ?_⟩
      · rw [Fs.named, hother hk]
        exact hnamed
      · rw [hother hk]
        exact hktype
      · rw [Fs.ino, hother hk]
        exact hf

/-- An entry without a name behind the row makes no difference. -/
lemma lookup_emptyName (h : StoreInv fs n) (hempty : name.length = 0) :
    StoreInv (newDentry fs name) n ∧ (newDentry fs name).lookup = fs.lookup := by
  have hshort : name.length < DENTRY_SIZE := by
    rw [hempty]
    decide
  rcases newDentry_cases fs hshort with ⟨-, heq⟩ | ⟨i, d, hslot, heq, hfirst, -⟩
  · rw [heq]
    exact ⟨h, rfl⟩
  · rw [h.row.freeSlot_eq] at hslot
    obtain ⟨-, rfl⟩ : n < MAX_FILES ∧ n = i := by simpa using hslot
    rw [name.byte_eq_zero_iff.mpr hempty] at hfirst
    rw [heq]
    set fs' : Fs := { fs with dentries := Function.update fs.dentries n d } with hfs'
    have hself : fs'.dentries n = d := Function.update_self _ _ _
    have hother {k : ℕ} (hk : k ≠ n) : fs'.dentries k = fs.dentries k :=
      Function.update_of_ne hk _ _
    have hinv : StoreInv fs' n := by
      refine ⟨⟨h.row.le, fun k hk => ?_, fun k hk hkMax => ?_⟩, fun k hk l hl hsame => ?_, ?_⟩
      · rw [dentryAt, hother hk.ne]
        exact h.row.valid k hk
      · rcases eq_or_ne k n with rfl | hkn
        · rw [hself, hfirst]
        · rw [hother hkn]
          exact h.row.rest k hk hkMax
      · rw [hother hk.ne, hother hl.ne] at hsame
        exact h.names k hk l hl hsame
      · refine h.inodes.of_origin id (fun k hk => ?_) fun k l _ _ h => h
        have hkn : k ≠ n := by
          rintro rfl
          exact hk.2.1 (by rw [hself, hfirst])
        exact ⟨⟨hk.1, hother hkn ▸ hk.2⟩, hother hkn⟩
    exact ⟨hinv, lookup_congr h hinv (fun k hk => hother hk.ne) fun _ _ _ => rfl⟩

/-- **`creat`** opens a file, and makes it when it is not there. -/
theorem creat_refines {s : Mounted} {counter : UInt32} (h : StoreInv s.fs n)
    (hsound : SoundCall s (.creat counter name)) :
    let r := creat counter s.fs s.fds name
    (∃ m, StoreInv r.2.1 m)
      ∧ storeStep OneFileName [] s.store (.create name) (Mounted.mk r.2.1 r.2.2).store := by
  intro r
  have hcreat : ∀ fs', (creat counter s.fs s.fds name).2
      = (fs', (openCall counter fs' s.fds name).2) →
      Opens s.store (Mounted.mk r.2.1 r.2.2).store name ∧ r.2.1 = fs' := by
    intro fs' heq
    simp only [r, heq]
    exact ⟨openCall_opens counter fs' s.fds name s.store rfl, trivial⟩
  by_cases hfound : (readDentryByName s.fs name).isSome = true
  · obtain ⟨hopens, hfs⟩ := hcreat s.fs (by rw [creat, if_pos hfound])
    exact ⟨⟨n, hfs ▸ h⟩, .inl (congrArg Fs.lookup hfs), hopens⟩
  · obtain ⟨hopens, hfs⟩ := hcreat (newDentry s.fs name) (by rw [creat, if_neg hfound])
    have hnone : readDentryByName s.fs name = none := Option.not_isSome_iff_eq_none.mp hfound
    by_cases hempty : name.length = 0
    · obtain ⟨hinv, hlookup⟩ := lookup_emptyName h hempty
      exact ⟨⟨n, hfs ▸ hinv⟩, .inl ((congrArg Fs.lookup hfs).trans hlookup), hopens⟩
    · cases hslot : freeSlot s.fs with
      | none =>
          have hsame : newDentry s.fs name = s.fs := by rw [newDentry, hslot]
          rw [hsame] at hfs
          exact ⟨⟨n, hfs ▸ h⟩, .inl (congrArg Fs.lookup hfs), hopens⟩
      | some i =>
          obtain ⟨hlen, hfresh, hzero⟩ := hsound ⟨hnone, hempty, by rw [hslot]; simp⟩
          obtain ⟨d, heq, hname, htype, hino⟩ := newDentry_eq hslot hlen
          rw [h.row.freeSlot_eq] at hslot
          obtain ⟨hn, rfl⟩ : n < MAX_FILES ∧ n = i := by simpa using hslot
          rw [heq] at hfs
          rw [← hino] at hfresh hzero
          have hinv := storeInv_newDentry h hn hnone hempty hname htype hfresh
          have hlookup := lookup_newDentry h hinv hname htype
          rw [readable_of_length_zero hzero] at hlookup
          refine ⟨⟨n + 1, hfs ▸ hinv⟩, .inr ⟨?_, d.inodeNum.toNat, fun y f hy => ?_,
            fun y hy => ?_, fun y hy => ?_⟩, hopens⟩
          · show s.fs.lookup name = none
            rw [Fs.lookup, hnone, Option.bind_none]
          · obtain ⟨k, hk, -, hktype, rfl⟩ := (lookup_eq_some_iff h.row h.names).mp hy
            exact hfresh k (live_of_regular h hk hktype)
          · exact (congrFun (congrArg Fs.lookup hfs) y).trans ((hlookup y).1 hy)
          · exact (congrFun (congrArg Fs.lookup hfs) y).trans ((hlookup y).2 hy)

end Creat

/-! ### `file_write` and `unlink` -/

section Calls

variable {s u : Mounted} {n : ℕ}

/-- **`file_write`** replaces the contents of the file that the descriptor is open for. -/
theorem write_refines {fd : ℕ} {buf : List UInt8} {stale : UInt32} (h : StoreInv s.fs n)
    (hsound : SoundCall s (.write fd buf stale)) (hu : fsStep s (.write fd buf stale) = some u) :
    (∃ m, StoreInv u.fs m) ∧ storeStep OneFileName [] s.store (.write fd buf) u.store := by
  obtain ⟨hlen, hstores, hcopies⟩ := hsound
  have hinodes := (fsStep_distinctInodes_iff (e := .write fd buf stale) h.inodes
    (.inr trivial) hu).mpr trivial
  have hothers := (fsStep_keepsOtherFiles_iff hu).mpr hcopies u hu
  obtain ⟨⟨-, hopen, -⟩, rfl⟩ := fsStep_write hu
  set fs' := (fileWrite s.fs s.fds fd buf buf.length.toUInt32 stale).2 with hfs'
  have hdentries : fs'.dentries = s.fs.dentries := by rw [hfs', fileWrite_eq]
  have hrow : fs'.Row n := by
    refine ⟨h.row.le, fun k hk => ?_, fun k hk hkMax => ?_⟩
    · rw [dentryAt, hdentries]
      exact h.row.valid k hk
    · rw [hdentries]
      exact h.row.rest k hk hkMax
  have hnames : fs'.DistinctNames n := by
    intro k hk l hl hsame
    rw [hdentries] at hsame
    exact h.names k hk l hl hsame
  have hwritten : fs'.readable (s.fds fd).inodeNum.toNat = buf := by
    obtain ⟨hlength, hread⟩ := @readData_fileWrite s.fs s.fds fd buf stale hlen
    rw [Fs.readable, hlength, ← hread]
    exact ((fileWrite_writesBack_iff hlen).mpr hstores).2
  -- the entries are the same ones before and after
  have hlookup {y : CString} {f : ℕ × List UInt8} : fs'.lookup y = some f
      ↔ ∃ k < n, s.fs.named y k ∧ (s.fs.dentries k).fileType = FILE_TYPE_REGULAR
        ∧ f = (s.fs.ino k, fs'.readable (s.fs.ino k)) := by
    rw [lookup_eq_some_iff hrow hnames]
    simp only [Fs.named, Fs.ino, hdentries]
  refine ⟨⟨n, hrow, hnames, hinodes⟩, rfl, (s.fds fd).inodeNum.toNat, if_pos hopen,
    fun y f hy hf => ?_, fun y hy => Option.ext fun f => ?_⟩
  · obtain ⟨k, hk, hnamed, htype, rfl⟩ := (lookup_eq_some_iff h.row h.names).mp hy
    refine hlookup.mpr ⟨k, hk, hnamed, htype, ?_⟩
    rw [show s.fs.ino k = (s.fds fd).inodeNum.toNat from hf, hwritten]
  · have hkeep {k : ℕ} (hk : k < n) (hnamed : s.fs.named y k)
        (htype : (s.fs.dentries k).fileType = FILE_TYPE_REGULAR) :
        fs'.readable (s.fs.ino k) = s.fs.readable (s.fs.ino k) := by
      have hne := hy (s.fs.ino k, s.fs.readable (s.fs.ino k))
        ((lookup_eq_some_iff h.row h.names).mpr ⟨k, hk, hnamed, htype, rfl⟩)
      refine (hothers k (live_of_regular h hk htype) ?_).2
      exact fun htarget => hne (Option.some.inj htarget).symm
    show fs'.lookup y = some f ↔ s.fs.lookup y = some f
    rw [hlookup, lookup_eq_some_iff h.row h.names]
    constructor
    · rintro ⟨k, hk, hnamed, htype, hf⟩
      exact ⟨k, hk, hnamed, htype, hf.trans (by rw [hkeep hk hnamed htype])⟩
    · rintro ⟨k, hk, hnamed, htype, hf⟩
      exact ⟨k, hk, hnamed, htype, hf.trans (by rw [hkeep hk hnamed htype])⟩

/-- **`unlink`** takes the name of a regular file away. -/
theorem unlink_refines {name : CString} (h : StoreInv s.fs n)
    (hsound : SoundCall s (.unlink name)) (hu : fsStep s (.unlink name) = some u) :
    (∃ m, StoreInv u.fs m) ∧ storeStep OneFileName [] s.store (.remove name) u.store := by
  have hinodes := (fsStep_distinctInodes_iff (e := .unlink name) h.inodes
    (.inr trivial) hu).mpr trivial
  have hothers := (fsStep_keepsOtherFiles_iff hu).mpr trivial u hu
  obtain ⟨r, hr, rfl⟩ := Option.map_eq_some_iff.mp hu
  rcases unlink_cases hr with ⟨hnone, heq⟩ | ⟨hsome, hremove⟩
  · refine ⟨⟨n, heq.symm ▸ h⟩, rfl, fun x hx => ?_, fun x _ => ?_⟩
    · show r.2.lookup x = none
      rw [heq, ← lookup_oneFileName h hx, Fs.lookup, hnone, Option.bind_none]
    · exact congrFun (congrArg Fs.lookup heq) x
  · obtain ⟨d, hd⟩ := Option.isSome_iff_exists.mp hsome
    obtain ⟨hne, i, hfind, rfl⟩ := readDentryByName_eq_some_iff.mp hd
    have htype := hsound _ hd
    obtain ⟨hlt, hanswers, -⟩ := findDentry_eq_some_iff.mp hfind
    have hi := h.row.lt_of_named hne hlt hanswers.2
    have hnamed := (h.row.namedDentry_eq hne).trans hfind
    obtain ⟨i', j, hi', hruns, -⟩ := removeDentry_eq hremove
    obtain rfl : i = i' := Option.some.inj (hnamed.symm.trans hi')
    have hroom := (h.row.endsBehind_iff hi).mp hruns.endsBehind
    rw [h.row.removeDentry_eq hi hroom hnamed] at hremove
    have hfs : moveDentry (clearFile s.fs i) i (n - 1) = r.2 := Option.some.inj hremove
    have hle := h.row.le
    have hnames : r.2.DistinctNames (n - 1) := by
      intro k hk l hl hsame
      rw [← hfs, moveDentry_dentries (by omega), moveDentry_dentries (by omega)] at hsame
      have heq := h.names _ (by rw [movedFrom]; split <;> omega) _
        (by rw [movedFrom]; split <;> omega) hsame
      rw [movedFrom, movedFrom] at heq
      split at heq <;> split at heq <;> omega
    refine ⟨⟨n - 1, hfs ▸ h.row.moveDentry hi, hnames, hinodes⟩, rfl, fun x hx => ?_,
      fun x hx => ?_⟩
    · show r.2.lookup x = none
      have hxi : s.fs.named x i := hx.symm.trans hanswers.2
      rw [Fs.lookup, ← hfs, h.row.readDentryByName_removed h.names hi hxi, Option.bind_none]
    · have hxi : ¬ s.fs.named x i := fun hnamed => hx (hanswers.2.trans hnamed.symm)
      have hread : readDentryByName r.2 x = readDentryByName s.fs x :=
        hfs ▸ h.row.readDentryByName_moveDentry h.names hi hxi
      show r.2.lookup x = s.fs.lookup x
      rw [Fs.lookup, Fs.lookup, hread]
      cases hdx : readDentryByName s.fs x with
      | none => rfl
      | some d =>
          obtain ⟨hnex, k, hfindk, rfl⟩ := readDentryByName_eq_some_iff.mp hdx
          obtain ⟨hkMax, hkanswers, -⟩ := findDentry_eq_some_iff.mp hfindk
          have hk := h.row.lt_of_named hnex hkMax hkanswers.2
          rw [Option.bind_some, Option.bind_some]
          by_cases hreg : (s.fs.dentries k).fileType = FILE_TYPE_REGULAR
          · rw [if_pos hreg, if_pos hreg]
            have hkeep := (hothers k (live_of_regular h hk hreg) fun htarget => ?_).2
            · rw [← Fs.ino, hkeep]
            · rw [FsEvent.target, hnamed, Option.map_some] at htarget
              have hik := h.inodes i k (live_of_regular h hi htype) (live_of_regular h hk hreg)
                (Option.some.inj htarget)
              exact hxi (hik ▸ hkanswers.2)
          · rw [if_neg hreg, if_neg hreg]

end Calls

/-! ### Runs -/

/-- **One call** keeps the invariant and is a call on the store. -/
theorem fsStep_refines {s u : Mounted} {e : FsEvent} (h : ∃ n, StoreInv s.fs n)
    (hsound : SoundCall s e) (hu : fsStep s e = some u) :
    (∃ n, StoreInv u.fs n) ∧ storeStep OneFileName [] s.store e.call u.store := by
  obtain ⟨n, h⟩ := h
  cases e with
  | «open» counter name =>
      obtain rfl := Option.some.inj hu
      exact ⟨⟨n, h⟩, rfl, openCall_opens counter s.fs s.fds name s.store rfl⟩
  | close fd =>
      obtain rfl := Option.some.inj hu
      exact ⟨⟨n, h⟩, rfl, closeCall_opens s.fs s.fds fd⟩
  | creat counter name =>
      obtain rfl := Option.some.inj hu
      exact creat_refines h hsound
  | write fd buf stale => exact write_refines h hsound hu
  | unlink name => exact unlink_refines h hsound hu

/-- **The filesystem is a store of files.**  Let the entries of the directory stand in a row, under
different names and with different inodes.  Any run of sound calls does to names, files and
descriptors what the calls of a store may do, and in all its states the bytes that `read_data`
yields from the start of a file are those of the store. -/
theorem filesystem_refines {s z : Mounted} {es : List FsEvent} {n : ℕ} (h : StoreInv s.fs n)
    (hrun : Run fsStep s es z) (hsound : EveryStep fsStep s es SoundCall) :
    Trace (storeStep OneFileName []) s.store (es.map FsEvent.call) z.store
      ∧ EveryState fsStep s es fun t => ∀ name i c, t.store.files name = some (i, c) →
        ∀ length : UInt32, length.toNat + BLOCK_SIZE ≤ 2 ^ 32 →
          readData t.fs i 0 length = c.take length.toNat := by
  obtain ⟨htrace, hall⟩ := hrun.refines hsound ⟨n, h⟩ fun _ _ _ ht he hu =>
    fsStep_refines ht he hu
  refine ⟨htrace, fun pre post t hes ht name i c hname length hlen => ?_⟩
  obtain ⟨m, hm⟩ := hall pre post t hes ht
  exact readData_lookup hm hname hlen

/-- **What is written is read back later**, by whoever finds the file by its name, as long as no
call writes the file or removes its name. -/
theorem writtenFile_reads {s w z : Mounted} {es : List FsEvent} {n fd i : ℕ} {buf c : List UInt8}
    {stale : UInt32} {name : CString} (h : StoreInv s.fs n)
    (hopen : s.store.opens fd = some i) (hname : s.store.files name = some (i, c))
    (hwrite : SoundCall s (.write fd buf stale)) (hw : fsStep s (.write fd buf stale) = some w)
    (hrun : Run fsStep w es z)
    (hsound : EveryStep fsStep w es fun t e =>
      SoundCall t e ∧ Spares OneFileName t.store name i e.call) :
    z.store.files name = some (i, buf)
      ∧ ∀ length : UInt32, length.toNat + BLOCK_SIZE ≤ 2 ^ 32 →
        readData z.fs i 0 length = buf.take length.toNat := by
  obtain ⟨hinv, -, i', hi', hreplaced, -⟩ := write_refines h hwrite hw
  obtain rfl : i = i' := Option.some.inj (hopen.symm.trans hi')
  have hall : EveryState fsStep w es fun t => (∃ m, StoreInv t.fs m)
      ∧ t.store.files name = some (i, buf) := by
    refine hsound.everyState ⟨hinv, hreplaced name _ hname rfl⟩ fun t e u ht he hu => ?_
    obtain ⟨hinv', hstep⟩ := fsStep_refines ht.1 he.1 hu
    obtain ⟨m, hm⟩ := ht.1
    exact ⟨hinv', storeStep_keeps hstep ht.2 he.2 fun _ _ hsame => lookup_oneFileName hm hsame⟩
  obtain ⟨⟨m, hm⟩, hfile⟩ := hall.last hrun
  exact ⟨hfile, fun _ hlen => readData_lookup hm hfile hlen⟩

/-! ### One file -/

/-- The image with the file `a`, which is open. -/
def oneFileOpen : Mounted := ⟨oneFile 5, fun _ => ⟨some .regular, 1, 0, 0⟩⟩

lemma oneFile_live {n : UInt32} {i : ℕ} (h : (oneFile n).live i) : i = 0 := by
  by_contra hi
  exact h.2.1 (by simp [oneFile, hi])

lemma oneFile_storeInv (n : UInt32) : StoreInv (oneFile n) 1 where
  row := oneFile_row n
  names := fun i hi j hj _ => by omega
  inodes := fun i j hi hj _ => (oneFile_live hi).trans (oneFile_live hj).symm

/-- Two bytes fit one block, which is no block of another file. -/
lemma oneFileOpen_sound : SoundCall oneFileOpen (.write 2 [1, 2] 0) := by
  refine ⟨by decide, .inr ⟨by decide, .inl ⟨by decide, by decide⟩⟩, ?_⟩
  intro _ i hi hne
  rw [oneFile_live hi] at hne
  exact absurd rfl hne

/-- The file is written once. -/
theorem filesystem_refines_oneFile : ∃ z, Run fsStep oneFileOpen [.write 2 [1, 2] 0] z
    ∧ Trace (storeStep OneFileName []) oneFileOpen.store [.write 2 [1, 2]] z.store := by
  have hsome : ([FsEvent.write 2 [1, 2] 0].foldlM fsStep oneFileOpen).isSome := rfl
  obtain ⟨z, hrun⟩ := exists_run_of_isSome hsome
  exact ⟨z, hrun, (filesystem_refines (oneFile_storeInv 5) hrun
    (everyStep_singleton.mpr oneFileOpen_sound)).1⟩

/-- It is written, closed, opened again and read. -/
theorem writtenFile_reads_oneFile : ∃ w z, fsStep oneFileOpen (.write 2 [1, 2] 0) = some w
    ∧ Run fsStep w [.close 2, .open 0 nameA] z ∧ readData z.fs 1 0 100 = [1, 2] := by
  have hname : oneFileOpen.store.files nameA = some (1, (oneFile 5).readable 1) :=
    (lookup_eq_some_iff (oneFile_row 5) (oneFile_storeInv 5).names).mpr
      ⟨0, by decide, oneFile_named 5, rfl, rfl⟩
  obtain ⟨w, hw⟩ : ∃ w, fsStep oneFileOpen (.write 2 [1, 2] 0) = some w := ⟨_, rfl⟩
  obtain ⟨z, hrun⟩ : ∃ z, Run fsStep w [.close 2, .open 0 nameA] z :=
    ⟨_, run_cons_iff.mpr ⟨_, rfl, run_cons_iff.mpr ⟨_, rfl, Run.nil⟩⟩⟩
  have hsound : EveryStep fsStep w [.close 2, .open 0 nameA] fun t e =>
      SoundCall t e ∧ Spares OneFileName t.store nameA 1 e.call :=
    EveryStep.cons rfl ⟨trivial, trivial⟩ (everyStep_singleton.mpr ⟨trivial, trivial⟩)
  have hread := (writtenFile_reads (oneFile_storeInv 5) rfl hname oneFileOpen_sound hw hrun
    hsound).2 100 (by decide)
  exact ⟨w, z, hw, hrun, hread⟩

end CustomLinuxOs
