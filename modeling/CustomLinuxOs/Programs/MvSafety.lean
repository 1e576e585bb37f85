import CustomLinuxOs.Programs.Mv
import CustomLinuxOs.Process.Kernel

/-!
Whether `mv` keeps the data of the file it moves.

The program takes one space off the command, whatever there are, does not look at the descriptor it
gets from `creat`, writes the buffer as a string, and removes the source in the end.

* `NamesFiles`, `Fs.holds`, `KeepsData`: the command, the contents of a file, and the property.
* `CanMove`: one space, a target that can be opened, contents that are stored as one string, and a
  directory entry that can be removed.
* `MvCondition.keepsData`: then the target gets the bytes.
* `OrdinaryMove`, `condition_of_keepsData`: a new target, and what is common on the stack and in the
  directory; then nothing less will do.
* `mv_keepsData`: both together.
-/

namespace CustomLinuxOs

/-! ### The property -/

/-- The arguments of the command are a source, some spaces and a target. -/
structure NamesFiles (command source target : CString) (spaces : ℕ) : Prop where
  args : (getargs command).map (fun args => args.val)
    = some (source.val ++ (List.replicate spaces SPACE ++ target.val))
  separated : 0 < spaces
  source_length : source.length ≠ 0
  source_word : SPACE ∉ source.val
  target_length : target.length ≠ 0
  target_head : target.byte 0 ≠ SPACE

/-- The name is that of a regular file with these contents. -/
def Fs.holds (fs : Fs) (fname : CString) (bytes : List UInt8) : Prop :=
  ∃ d, readDentryByName fs fname = some d ∧ d.fileType = FILE_TYPE_REGULAR
    ∧ fs.contents (fs.inodes d.inodeNum.toNat) = bytes

/-- The program ends, with the bytes in the target if it returns `0`, and else in the source. -/
def KeepsData (env : MvEnv) (s : Mounted) (command source target : CString)
    (bytes : List UInt8) : Prop :=
  ∃ r, mv env s command = some r ∧ (r.1 = 0 → r.2.fs.holds target bytes)
    ∧ (¬ r.2.fs.holds target bytes → r.2.fs.holds source bytes)

/-! ### The condition -/

/-- The inode of the descriptor that `creat` opens for a regular file. -/
def Fs.targetInode (fs : Fs) (target : CString) : Option ℕ :=
  match readDentryByName fs target with
  | some d => if d.fileType = FILE_TYPE_REGULAR then some d.inodeNum.toNat else none
  | none =>
      if (freeSlot fs).isSome ∧ target.length < DENTRY_SIZE then some (freeInode fs) else none

/-- The bytes are one string that the buffer holds, and `file_write` stores it. -/
structure CopiesWhole (env : MvEnv) (fs : Fs) (ino : ℕ) (bytes : List UInt8) : Prop where
  nonempty : bytes ≠ []
  small : bytes.length ≤ MV_BUFSIZE
  noTerminator : 0 ∉ bytes
  terminated : env.stack[bytes.length]? = some 0
  stores : ∀ fds fd, OpenOn fds fd ino → StoresBuffer fs fds fd bytes (env.stale 0)

/-- There are two closed descriptors. -/
def TwoClosed (fds : FdTable) : Prop :=
  ∃ fd fd', freeFd fds = some fd ∧ fd < fd' ∧ fd' < MAX_OPEN_FILES ∧ (fds fd').fopsTable = none

/-- What `mv` needs to move a file with the bytes to the inode `ino`, and to remove entry `i`. -/
structure CanMove (env : MvEnv) (s : Mounted) (source target : CString) (spaces : ℕ)
    (bytes : List UInt8) (ino i : ℕ) : Prop where
  oneSpace : spaces = 1
  opens : s.fs.targetInode target = some ino
  removed : namedDentry s.fs source = some i
  first : s.fs.StaysFirst target i
  another : findDentry s.fs target ≠ some i
  ends : ∃ r, i < r ∧ r < MAX_FILES ∧ dentryAt s.fs r = false
    ∧ (readDentryByName s.fs target = none → freeSlot s.fs ≠ some r)
  copies : (bytes = [] ∧ (s.fs.inodes ino).length = 0)
    ∨ (ino ≠ s.fs.ino i ∧ TwoClosed s.fds ∧ CopiesWhole env s.fs ino bytes)

/-- The condition: no descriptor is left for the source, or the file can be moved. -/
def MvCondition (env : MvEnv) (s : Mounted) (source target : CString) (spaces : ℕ)
    (bytes : List UInt8) : Prop :=
  (freeFd s.fds = none ∧ (s.fds 1).fopsTable = some .tty)
    ∨ ((freeFd s.fds).isSome = true ∧ ∃ ino i, CanMove env s source target spaces bytes ino i)

/-! ### Descriptors -/

lemma freeFd_eq_some_iff {fds : FdTable} {fd : ℕ} : freeFd fds = some fd
    ↔ (fds fd).fopsTable = none ∧ 2 ≤ fd ∧ fd < MAX_OPEN_FILES
      ∧ ∀ k, 2 ≤ k → k < fd → (fds k).fopsTable ≠ none := by
  have h8 : MAX_OPEN_FILES = 8 := rfl
  simp only [freeFd, List.find?_range'_eq_some, decide_eq_true_eq, List.mem_range'_1,
    Bool.not_eq_true', decide_eq_false_iff_not]
  constructor
  · rintro ⟨hclosed, hrange, hfirst⟩
    exact ⟨hclosed, by omega, by omega, hfirst⟩
  · rintro ⟨hclosed, hlow, hhigh, hfirst⟩
    exact ⟨hclosed, by omega, hfirst⟩

lemma freeFd_eq_none_iff {fds : FdTable} : freeFd fds = none
    ↔ ∀ k, 2 ≤ k → k < MAX_OPEN_FILES → (fds k).fopsTable ≠ none := by
  have h8 : MAX_OPEN_FILES = 8 := rfl
  simp only [freeFd, List.find?_eq_none, decide_eq_true_eq, List.mem_range'_1]
  constructor
  · intro h k hlow hhigh
    exact h k (by omega)
  · intro h k hrange
    exact h k (by omega) (by omega)

/-- A second descriptor, when the first one is open. -/
lemma freeFd_update_isSome_iff {fds : FdTable} {fd : ℕ} {e : Fd} (hfd : freeFd fds = some fd)
    (he : e.fopsTable ≠ none) :
    (freeFd (Function.update fds fd e)).isSome = true ↔ TwoClosed fds := by
  obtain ⟨-, hlow, -, hfirst⟩ := freeFd_eq_some_iff.mp hfd
  constructor
  · intro h
    obtain ⟨fd', hfd'⟩ := Option.isSome_iff_exists.mp h
    obtain ⟨hclosed, hlow', hhigh, -⟩ := freeFd_eq_some_iff.mp hfd'
    have hne : fd' ≠ fd := by
      rintro rfl
      rw [Function.update_self] at hclosed
      exact he hclosed
    rw [Function.update_of_ne hne] at hclosed
    refine ⟨fd, fd', hfd, ?_, hhigh, hclosed⟩
    by_contra hge
    exact hfirst fd' hlow' (by omega) hclosed
  · rintro ⟨fd₁, fd', hfd₁, hlt, hhigh, hclosed⟩
    obtain rfl := Option.some.inj (hfd.symm.trans hfd₁)
    rw [← Option.ne_none_iff_isSome, Ne, freeFd_eq_none_iff]
    intro h
    have hopen := h fd' (by omega) hhigh
    rw [Function.update_of_ne (by omega)] at hopen
    exact hopen hclosed

/-- `open` of a regular file. -/
lemma openCall_regular (counter : UInt32) {fs : Fs} {fds : FdTable} {fname : CString} {d : Dentry}
    {fd : ℕ} (hd : readDentryByName fs fname = some d) (hreg : d.fileType = FILE_TYPE_REGULAR)
    (hfd : freeFd fds = some fd) : openCall counter fs fds fname
      = ((fd : ℤ), Function.update fds fd ⟨some .regular, d.inodeNum, 0, 0⟩) := by
  simp only [openCall, hd, hfd, openFd, hreg, if_true]

/-- `open` leaves open descriptors alone. -/
lemma openCall_keeps {counter : UInt32} {fs : Fs} {fds : FdTable} {fname : CString} {k : ℕ}
    (hk : (fds k).fopsTable ≠ none) : (openCall counter fs fds fname).2 k = fds k := by
  rw [openCall]
  cases readDentryByName fs fname with
  | none => rfl
  | some d =>
      cases hfd : freeFd fds with
      | none => rfl
      | some fd =>
          have hne : k ≠ fd := by
            rintro rfl
            exact hk (freeFd_eq_some_iff.mp hfd).1
          simp only
          cases openFd counter d with
          | none => exact Function.update_of_ne hne _ _
          | some e => exact Function.update_of_ne hne _ _

/-- The descriptors of the loop: the first one for the source, the next one for the target. -/
lemma openOn_both {fds : FdTable} {fd fd' : ℕ} {num : UInt32} (num' : UInt32)
    (hself : fds fd = ⟨some .regular, num, 0, 0⟩) (hfd' : freeFd fds = some fd') :
    let fds₂ := Function.update fds fd' ⟨some .regular, num', 0, 0⟩
    OpenOn fds₂ fd num.toNat ∧ (fds₂ fd).filePos = 0 ∧ OpenOn fds₂ fd' num'.toNat ∧ fd' < 8 := by
  intro fds₂
  obtain ⟨hclosed, -, hfd8, -⟩ := freeFd_eq_some_iff.mp hfd'
  have hne : fd ≠ fd' := by
    rintro rfl
    rw [hself] at hclosed
    cases hclosed
  have hfrom : fds₂ fd = ⟨some .regular, num, 0, 0⟩ :=
    (Function.update_of_ne hne _ _).trans hself
  have hto : fds₂ fd' = ⟨some .regular, num', 0, 0⟩ := Function.update_self _ _ _
  rw [OpenOn, OpenOn, hfrom, hto]
  exact ⟨⟨rfl, rfl⟩, rfl, ⟨rfl, rfl⟩, hfd8⟩

/-! ### The names -/

/-- The program takes the target with all spaces but one. -/
lemma NamesFiles.split {command source target : CString} {spaces : ℕ}
    (h : NamesFiles command source target spaces) :
    ∃ args, getargs command = some args ∧ mvFrom args = source
      ∧ (mvTo args).val = List.replicate (spaces - 1) SPACE ++ target.val := by
  obtain ⟨args, hargs, hval⟩ := Option.map_eq_some_iff.mp h.args
  obtain ⟨n, hn⟩ : ∃ n, spaces = n + 1 := ⟨spaces - 1, by have := h.separated; omega⟩
  have hword : ∀ b ∈ source.val, (b != SPACE) = true := fun b hb =>
    bne_iff_ne.mpr fun heq => h.source_word (heq ▸ hb)
  have hfrom : (mvFrom args).val = source.val := by
    calc (mvFrom args).val = args.val.takeWhile (· != SPACE) := rfl
      _ = source.val := by
        rw [hval, List.takeWhile_append_of_pos hword, hn, List.replicate_succ, List.cons_append,
          List.takeWhile_cons_of_neg (by simp), List.append_nil]
  refine ⟨args, hargs, Subtype.ext hfrom, ?_⟩
  calc (mvTo args).val = args.val.drop ((mvFrom args).val.length + 1) := rfl
    _ = List.replicate (spaces - 1) SPACE ++ target.val := by
      rw [hval, hfrom, ← List.drop_drop, List.drop_left, hn, List.replicate_succ, List.cons_append,
        List.drop_one, List.tail_cons, Nat.add_sub_cancel]

/-- With one space this is the target. -/
lemma NamesFiles.split_one {command source target : CString}
    (h : NamesFiles command source target 1) :
    ∃ args, getargs command = some args ∧ mvFrom args = source ∧ mvTo args = target := by
  obtain ⟨args, hargs, hfrom, hto⟩ := h.split
  exact ⟨args, hargs, hfrom, Subtype.ext hto⟩

/-- A file with the name of the target is one for the program only if there is one space. -/
lemma NamesFiles.oneSpace {command source target : CString} {spaces : ℕ}
    (h : NamesFiles command source target spaces) {args : CString}
    (hto : (mvTo args).val = List.replicate (spaces - 1) SPACE ++ target.val)
    (hsame : SameName target.byte (mvTo args).byte) : spaces = 1 := by
  obtain ⟨n, rfl⟩ : ∃ n, spaces = n + 1 := ⟨spaces - 1, by have := h.separated; omega⟩
  cases n with
  | zero => rfl
  | succ n =>
      -- what is left of the spaces would be part of the name
      refine absurd (hsame.head.trans ?_) h.target_head
      rw [CString.byte, hto, Nat.add_sub_cancel, List.replicate_succ, List.cons_append,
        List.getD_cons_zero]

/-! ### The directory -/

/-- Where the directory stands when the source is removed: the target is found at `t` and will be
found with this entry, and the source is at `i`, with an end of the row behind it. -/
structure ReadyToUnlink (fs : Fs) (source target : CString) (i t : ℕ) : Prop where
  found : findDentry fs target = some t
  regular : (fs.dentries t).fileType = FILE_TYPE_REGULAR
  first : fs.StaysFirst target i
  another : t ≠ i
  exists_source : (findDentry fs source).isSome = true
  removed : namedDentry fs source = some i
  ends : fs.EndsBehind i

lemma ReadyToUnlink.congr {fs fs' : Fs} {source target : CString} {i t : ℕ}
    (h : ReadyToUnlink fs source target i t) (hsame : fs'.dentries = fs.dentries) :
    ReadyToUnlink fs' source target i t := by
  obtain ⟨hfound, hregular, hfirst, hanother, hsource, hremoved, hends⟩ := h
  refine ⟨?_, ?_, ?_, hanother, ?_, ?_, ?_⟩
  · rwa [findDentry, hsame]
  · rwa [hsame]
  · simp only [Fs.StaysFirst, Fs.RunsTo, Fs.answers, Fs.named, findDentry, dentryAt, hsame]
    exact hfirst
  · rwa [findDentry, hsame]
  · rwa [namedDentry, hsame]
  · simp only [Fs.EndsBehind, dentryAt, hsame]
    exact hends

/-- **The end of `mv`**: the target keeps its inode, and the bytes in it unless they are the
source's. -/
lemma ReadyToUnlink.unlink {fs : Fs} {source target : CString} {i t : ℕ} {bytes : List UInt8}
    (h : ReadyToUnlink fs source target i t) (hsource : source.length ≠ 0)
    (htarget : target.length ≠ 0) (hbytes : fs.contents (fs.inodes (fs.ino t)) = bytes)
    (hino : fs.ino t ≠ fs.ino i ∨ bytes = []) :
    ∃ r, CustomLinuxOs.unlink fs source = some r ∧ r.2.holds target bytes := by
  obtain ⟨fs', hfs'⟩ := removeDentry_isSome h.removed h.ends
  have hsome : (readDentryByName fs source).isSome = true := by
    rw [readDentryByName, if_neg fun h0 => hsource (source.byte_eq_zero_iff.mp h0),
      Option.isSome_map]
    exact h.exists_source
  refine ⟨(0, fs'), by rw [CustomLinuxOs.unlink, if_pos hsome, hfs', Option.map_some], ?_⟩
  obtain ⟨i', j, hi', hruns, rfl⟩ := removeDentry_eq hfs'
  obtain rfl := Option.some.inj (h.removed.symm.trans hi')
  have hj := hruns.2.1
  obtain ⟨t', ht', hdentry⟩ := findDentry_moved htarget hruns.1 (by omega) h.found h.another
    fun hit htj => h.first t j h.found hit htj hruns
  refine ⟨fs.dentries t, readDentryByName_eq_some_iff.mpr ⟨htarget, t', ht', hdentry⟩, h.regular,
    ?_⟩
  have hinodes : (moveDentry (clearFile fs i) i j).inodes
      = Function.update fs.inodes (fs.ino i) { fs.inodes (fs.ino i) with length := 0 } := rfl
  rw [hinodes]
  change Fs.contents _ (Function.update fs.inodes (fs.ino i) _ (fs.ino t)) = bytes
  rcases eq_or_ne (fs.ino t) (fs.ino i) with heq | hne
  · -- an empty source may share its inode
    have hnil := hino.resolve_left (not_not.mpr heq)
    rw [heq, Function.update_self, hnil]
    rfl
  · rw [Function.update_of_ne hne, ← hbytes]
    rfl

section NewEntry

variable {fs : Fs} {source target : CString} {slot : ℕ} {d : Dentry}

/-- The directory with a new entry. -/
def Fs.withEntry (fs : Fs) (slot : ℕ) (d : Dentry) : Fs :=
  { fs with dentries := Function.update fs.dentries slot d }

/-- An entry with a name is in another place than a new one. -/
lemma Fs.named.ne_slot {k : ℕ} (h : fs.named source k) (hlength : source.length ≠ 0)
    (hfree : freeSlot fs = some slot) : k ≠ slot := by
  rintro rfl
  have hhead := h.head
  rw [(freeSlot_spec hfree).2, source.byte_eq_zero_iff] at hhead
  exact hlength hhead

/-- A new name is that of the new entry only. -/
lemma answers_withEntry (hname : SameName target.byte d.filename)
    (htype : d.fileType = FILE_TYPE_REGULAR) (hnone : findDentry fs target = none) {k : ℕ}
    (hk : k < MAX_FILES) : (fs.withEntry slot d).answers target k ↔ k = slot := by
  rcases eq_or_ne k slot with rfl | hne
  · refine iff_of_true ?_ rfl
    simp only [Fs.answers, Fs.named, Fs.withEntry, Function.update_self, htype]
    exact ⟨rfl, hname⟩
  · refine iff_of_false (fun hans => ?_) hne
    simp only [Fs.answers, Fs.named, Fs.withEntry, Function.update_of_ne hne] at hans
    exact findDentry_eq_none_iff.mp hnone k hk hans

/-- It is found there. -/
lemma findDentry_withEntry (hname : SameName target.byte d.filename)
    (htype : d.fileType = FILE_TYPE_REGULAR) (hnone : findDentry fs target = none)
    (hfree : freeSlot fs = some slot) : findDentry (fs.withEntry slot d) target = some slot := by
  have hslotMax := (freeSlot_spec hfree).1
  rw [findDentry_eq_some_iff]
  refine ⟨hslotMax, (answers_withEntry hname htype hnone hslotMax).mpr rfl, fun k hk hk' => ?_⟩
  have heq := (answers_withEntry hname htype hnone (hk.trans hslotMax)).mp hk'
  omega

/-- A file with another name is found as before. -/
lemma namedDentry_withEntry (hname : SameName target.byte d.filename)
    (hnone : findDentry fs target = none) (hsource : (findDentry fs source).isSome = true)
    (hlength : source.length ≠ 0) (hfree : freeSlot fs = some slot) {i : ℕ}
    (hi : namedDentry fs source = some i) :
    namedDentry (fs.withEntry slot d) source = some i
      ∧ (findDentry (fs.withEntry slot d) source).isSome = true := by
  obtain ⟨q, hq⟩ := Option.isSome_iff_exists.mp hsource
  obtain ⟨hqMax, hqans, -⟩ := findDentry_eq_some_iff.mp hq
  obtain ⟨hiMax, hnamed, hfirst⟩ := namedDentry_eq_some_iff.mp hi
  constructor
  · rw [namedDentry_eq_some_iff]
    refine ⟨hiMax, ?_, fun k hk hk' => ?_⟩
    · simpa only [Fs.named, Fs.withEntry, Function.update_of_ne (hnamed.ne_slot hlength hfree)]
        using hnamed
    · rcases eq_or_ne k slot with rfl | hne
      · -- the source would have the name of the target
        simp only [Fs.named, Fs.withEntry, Function.update_self] at hk'
        exact findDentry_eq_none_iff.mp hnone q hqMax
          ⟨hqans.1, (hname.trans hk'.symm).trans hqans.2⟩
      · simp only [Fs.named, Fs.withEntry, Function.update_of_ne hne] at hk'
        exact hfirst k hk hk'
  · rw [← Option.ne_none_iff_isSome, Ne, findDentry_eq_none_iff]
    intro hall
    refine hall q hqMax ?_
    simpa only [Fs.answers, Fs.named, Fs.withEntry,
      Function.update_of_ne (hqans.2.ne_slot hlength hfree)] using hqans

/-- A new entry leaves the directory ready. -/
lemma readyToUnlink_withEntry (hname : SameName target.byte d.filename)
    (htype : d.fileType = FILE_TYPE_REGULAR) (hnone : findDentry fs target = none)
    (hsource : (findDentry fs source).isSome = true) (hlength : source.length ≠ 0)
    (hfree : freeSlot fs = some slot) {i r : ℕ} (hi : namedDentry fs source = some i)
    (hr : i < r) (hrMax : r < MAX_FILES) (hlast : dentryAt fs r = false) (hrslot : r ≠ slot) :
    ReadyToUnlink (fs.withEntry slot d) source target i slot := by
  have hans {k : ℕ} (hk : k < MAX_FILES) : (fs.withEntry slot d).answers target k ↔ k = slot :=
    answers_withEntry hname htype hnone hk
  obtain ⟨hremoved, hexists⟩ := namedDentry_withEntry hname hnone hsource hlength hfree hi
  have hfound := findDentry_withEntry hname htype hnone hfree
  refine ⟨hfound, ?_, fun t j ht _ htj hruns hj => ?_, ?_, hexists, hremoved, r, hr, hrMax, ?_⟩
  · simp only [Fs.withEntry, Function.update_self, htype]
  · obtain rfl := Option.some.inj (hfound.symm.trans ht)
    have hjMax := hruns.2.1
    exact htj.ne' ((hans (by omega)).mp hj)
  · exact ((namedDentry_eq_some_iff.mp hi).2.1.ne_slot hlength hfree).symm
  · simpa only [dentryAt, Fs.withEntry, Function.update_of_ne hrslot] using hlast

end NewEntry

/-- `creat` of a target that can be opened leaves the directory ready. -/
lemma CanMove.ready {env : MvEnv} {s : Mounted} {source target : CString} {spaces : ℕ}
    {bytes : List UInt8} {ino i : ℕ} (h : CanMove env s source target spaces bytes ino i)
    (hsource : (findDentry s.fs source).isSome = true) (hsource_length : source.length ≠ 0)
    (htarget_length : target.length ≠ 0) (counter : UInt32) (fds : FdTable) :
    ∃ dentries t, creat counter s.fs fds target
        = ((openCall counter { s.fs with dentries := dentries } fds target).1,
          { s.fs with dentries := dentries },
          (openCall counter { s.fs with dentries := dentries } fds target).2)
      ∧ ReadyToUnlink { s.fs with dentries := dentries } source target i t
      ∧ (dentries t).inodeNum.toNat = ino ∧ (dentries i).inodeNum.toNat = s.fs.ino i := by
  obtain ⟨r, hr, hrMax, hlast, hslot⟩ := h.ends
  have hopens := h.opens
  rw [creat]
  cases hd : readDentryByName s.fs target with
  | some d =>
      -- a target that exists
      simp only [Fs.targetInode, hd] at hopens
      rw [if_pos (by rfl)]
      split at hopens
      · rename_i hreg
        obtain ⟨-, t, ht, rfl⟩ := readDentryByName_eq_some_iff.mp hd
        refine ⟨s.fs.dentries, t, rfl,
          ⟨ht, hreg, h.first, ?_, hsource, h.removed, r, hr, hrMax, hlast⟩, Option.some.inj hopens,
          rfl⟩
        rintro rfl
        exact h.another ht
      · cases hopens
  | none =>
      -- a new one
      simp only [Fs.targetInode, hd] at hopens
      rw [if_neg (by simp)]
      split at hopens
      · rename_i hnew
        obtain ⟨slot, hfree⟩ := Option.isSome_iff_exists.mp hnew.1
        obtain ⟨d, hnewDentry, hname, htype, hnum⟩ := newDentry_eq hfree hnew.2
        have hnone := (readDentryByName_eq_none_iff htarget_length).mp hd
        have hislot :=
          (namedDentry_eq_some_iff.mp h.removed).2.1.ne_slot hsource_length hfree
        refine ⟨Function.update s.fs.dentries slot d, slot, by rw [hnewDentry], ?_, ?_, ?_⟩
        · refine readyToUnlink_withEntry hname htype hnone hsource hsource_length hfree h.removed hr
            hrMax hlast ?_
          rintro rfl
          exact hslot hd hfree
        · rw [Function.update_self, hnum]
          exact Option.some.inj hopens
        · rw [Function.update_of_ne hislot]
          rfl
      · cases hopens

/-! ### The bytes -/

/-- A file that does not end with a block, after it has been written. -/
lemma contents_fileWrite_iff {fs : Fs} {fds : FdTable} {fd ino : ℕ} {bytes : List UInt8}
    {stale : UInt32} (h : OpenOn fds fd ino) (hlen : bytes.length ≤ MV_BUFSIZE)
    (hrest : bytes.length % BLOCK_SIZE ≠ 0) :
    let fs' := (fileWrite fs fds fd bytes bytes.length.toUInt32 stale).2
    fs'.contents (fs'.inodes ino) = bytes ↔ StoresBuffer fs fds fd bytes stale := by
  intro fs'
  have hn : bytes.length ≤ NUM_DATA_BLOCK_ADDR * BLOCK_SIZE := hlen.trans (by decide)
  obtain ⟨hlength, hread⟩ := @readData_fileWrite fs fds fd bytes stale hn
  rw [h.2] at hlength hread
  have hend : readableEnd bytes.length = bytes.length := if_neg hrest
  have hcontents : fs'.contents (fs'.inodes ino) = readData fs' ino 0 bytes.length.toUInt32 := by
    rw [hread, hend, Fs.contents, hlength]
  rw [← fileWrite_writesBack_iff hn, WritesBack, h.2, hcontents]
  exact ⟨fun hbytes => ⟨hlength, hbytes⟩, fun hback => hback.2⟩

lemma fileWrite_dentries (fs : Fs) (fds : FdTable) (fd : ℕ) (buf : List UInt8)
    (nbytes stale : UInt32) :
    (fileWrite fs fds fd buf nbytes stale).2.dentries = fs.dentries := by rw [fileWrite_eq]

/-- What follows the bytes in the buffer ends them. -/
lemma CopiesWhole.text {env : MvEnv} {fs : Fs} {ino : ℕ} {bytes : List UInt8}
    (h : CopiesWhole env fs ino bytes) :
    0 ∈ bytes ++ env.stack.drop bytes.length
      ∧ (bytes ++ env.stack.drop bytes.length).takeWhile (· != 0) = bytes := by
  obtain ⟨hlt, hzero⟩ := List.getElem?_eq_some_iff.mp h.terminated
  have hdrop : env.stack.drop bytes.length = 0 :: env.stack.drop (bytes.length + 1) := by
    rw [List.drop_eq_getElem_cons hlt, hzero]
  have hall : ∀ b ∈ bytes, (b != 0) = true := fun b hb =>
    bne_iff_ne.mpr fun heq => h.noTerminator (heq ▸ hb)
  rw [hdrop]
  refine ⟨List.mem_append_right _ List.mem_cons_self, ?_⟩
  rw [List.takeWhile_append_of_pos hall, List.takeWhile_cons_of_neg (by simp), List.append_nil]

/-! ### The condition is enough -/

section Program

variable {env : MvEnv} {s : Mounted} {command source target : CString} {spaces : ℕ} {d : Dentry}
  {bytes : List UInt8}

/-- **`mv`** of a source that can be opened. -/
lemma mv_eq (env : MvEnv) {args : CString} (hargs : getargs command = some args)
    (hfrom : mvFrom args = source) (hd : readDentryByName s.fs source = some d)
    (hreg : d.fileType = FILE_TYPE_REGULAR) {fd : ℕ} (hfd : freeFd s.fds = some fd) :
    let created := creat env.creatClock s.fs
      (Function.update s.fds fd ⟨some .regular, d.inodeNum, 0, 0⟩) (mvTo args)
    mv env s command = (mvLoop env.stale fd created.1 (mvPasses env ⟨created.2.1, created.2.2⟩ fd) 0
      ⟨created.2.1, created.2.2⟩ env.stack).bind fun z =>
        (unlink z.fs source).map fun r => (0, { z with fs := r.2 }) := by
  intro created
  have hne : ¬ (fd : ℤ) = -1 := by omega
  simp only [mv, hargs, hfrom, openCall_regular _ hd hreg hfd, if_neg hne, Int.toNat_natCast,
    Function.update_self, ne_eq, not_true_eq_false, if_false]
  rfl

/-- Without a descriptor for the source it returns `2`, with a message on the terminal. -/
lemma mv_of_noDescriptor {args : CString} (hargs : getargs command = some args)
    (hfrom : mvFrom args = source) (hfd : freeFd s.fds = none)
    (hterminal : (s.fds 1).fopsTable = some .tty) : mv env s command = some (2, s) := by
  have hfail : openCall env.openClock s.fs s.fds source = (SYSCALL_ERROR, s.fds) := by
    rw [openCall, hfd]
    cases readDentryByName s.fs source <;> rfl
  have hzero : (0 : UInt8) ∈ cText "file not found\n" := List.mem_append_right _ (by simp)
  have hwrite (buf : List UInt8) (stale : UInt32) : writeCall s 1 buf stale = s := by
    rw [writeCall, if_neg (by decide)]
    simp only [Int.toNat_one, hterminal]
  simp only [mv, hargs, hfrom, hfail, fdputs, if_pos hzero, hwrite, Option.map_some]
  rfl

section Copy

variable {fs : Fs} {fds fds₁ : FdTable} {fd ino : ℕ} {e : Dentry}

/-- What the loop has to leave: the directory as it is, and the bytes in the inode `ino`. -/
def LoopCopies (env : MvEnv) (fs : Fs) (fds : FdTable) (fd : ℕ) (target : CString) (ino : ℕ)
    (bytes : List UInt8) : Prop :=
  let opened := openCall env.creatClock fs fds target
  ∃ z, mvLoop env.stale fd opened.1 (mvPasses env ⟨fs, opened.2⟩ fd) 0 ⟨fs, opened.2⟩ env.stack
      = some z
    ∧ z.fs.dentries = fs.dentries ∧ z.fs.contents (z.fs.inodes ino) = bytes

/-- From an empty source there is nothing to copy. -/
lemma loopCopies_nil (hself : fds fd = ⟨some .regular, d.inodeNum, 0, 0⟩)
    (hbytes : fs.contents (fs.inodes d.inodeNum.toNat) = [])
    (hempty : (fs.inodes ino).length = 0) : LoopCopies env fs fds fd target ino [] := by
  set opened := openCall env.creatClock fs fds target
  have hlength : (fs.inodes d.inodeNum.toNat).length.toNat = 0 := by
    have hzero := congrArg List.length hbytes
    rwa [Fs.contents, Fs.fileSlice_length, List.length_nil] at hzero
  have hopen : OpenOn opened.2 fd d.inodeNum.toNat := by
    rw [OpenOn, openCall_keeps (by rw [hself]; simp), hself]
    exact ⟨rfl, rfl⟩
  have hreadable : readableEnd (fs.inodes d.inodeNum.toNat).length.toNat = 0 := by
    rw [hlength]
    rfl
  obtain ⟨fds', hloop⟩ := mvLoop_empty env.stale opened.1 env.stack
    (mvPasses env ⟨fs, opened.2⟩ fd - 1) 0 (s := ⟨fs, opened.2⟩) hopen hreadable
  refine ⟨_, hloop, rfl, ?_⟩
  rw [Fs.contents]
  simp only [hempty]
  rfl

/-- One string is copied through a descriptor of its own. -/
lemma loopCopies_string (hfd : freeFd fds = some fd)
    (hfds₁ : fds₁ = Function.update fds fd ⟨some .regular, d.inodeNum, 0, 0⟩)
    (hbytes : fs.contents (fs.inodes d.inodeNum.toNat) = bytes)
    (hfound : readDentryByName fs target = some e) (htype : e.fileType = FILE_TYPE_REGULAR)
    (hino : e.inodeNum.toNat = ino) (htwo : TwoClosed fds)
    (hcopy : CopiesWhole env fs ino bytes) : LoopCopies env fs fds₁ fd target ino bytes := by
  have hself : fds₁ fd = ⟨some .regular, d.inodeNum, 0, 0⟩ := by
    rw [hfds₁, Function.update_self]
  have hopened : (freeFd fds₁).isSome = true := by
    rw [hfds₁, freeFd_update_isSome_iff hfd (by simp)]
    exact htwo
  obtain ⟨fd', hfd'⟩ := Option.isSome_iff_exists.mp hopened
  rw [LoopCopies, openCall_regular env.creatClock hfound htype hfd']
  obtain ⟨hfrom, hpos, hto, hfd8⟩ := openOn_both e.inodeNum hself hfd'
  rw [hino] at hto
  set fds₂ := Function.update fds₁ fd' ⟨some .regular, e.inodeNum, 0, 0⟩
  have hstores := hcopy.stores fds₂ fd' hto
  have hrest : bytes.length % BLOCK_SIZE ≠ 0 := (hstores.resolve_left hcopy.nonempty).1
  obtain ⟨hzero, htext⟩ := hcopy.text
  have hsmall : bytes.length.toUInt32.toNat = bytes.length :=
    toUInt32_length (hcopy.small.trans (by decide))
  have hpasses : mvPasses env ⟨fs, fds₂⟩ fd = mvPasses env ⟨fs, fds₂⟩ fd - 2 + 2 := by
    rw [mvPasses, MV_BUFSIZE]
    omega
  obtain ⟨fds', hloop⟩ := mvLoop_onePass env.stale (mvPasses env ⟨fs, fds₂⟩ fd - 2) 0
    (s := ⟨fs, fds₂⟩) hfrom hpos hto hfd8 hbytes hcopy.small hrest hzero htext fun _ => hsmall
  rw [← hpasses] at hloop
  exact ⟨_, hloop, fileWrite_dentries _ _ _ _ _ _,
    (contents_fileWrite_iff hto hcopy.small hrest).mpr hstores⟩

end Copy

/-- **The condition is enough.** -/
theorem MvCondition.keepsData (hnames : NamesFiles command source target spaces)
    (hd : readDentryByName s.fs source = some d) (hreg : d.fileType = FILE_TYPE_REGULAR)
    (hbytes : s.fs.contents (s.fs.inodes d.inodeNum.toNat) = bytes)
    (h : MvCondition env s source target spaces bytes) :
    KeepsData env s command source target bytes := by
  rcases h with ⟨hfd, hterminal⟩ | ⟨hfd, ino, i, hmove⟩
  · -- the source stays
    obtain ⟨args, hargs, hfrom, -⟩ := hnames.split
    exact ⟨(2, s), mv_of_noDescriptor hargs hfrom hfd hterminal, fun h0 => by simp at h0,
      fun _ => ⟨d, hd, hreg, hbytes⟩⟩
  · obtain rfl := hmove.oneSpace
    obtain ⟨args, hargs, hfrom, hto⟩ := hnames.split_one
    obtain ⟨fd, hfd⟩ := Option.isSome_iff_exists.mp hfd
    obtain ⟨-, q, hq, -⟩ := readDentryByName_eq_some_iff.mp hd
    have hmv := mv_eq env hargs hfrom hd hreg hfd
    rw [hto] at hmv
    set fds := Function.update s.fds fd ⟨some .regular, d.inodeNum, 0, 0⟩ with hfds
    obtain ⟨dentries, t, hcreat, hready, hino, hinoi⟩ :=
      hmove.ready (by rw [hq]; rfl) hnames.source_length hnames.target_length env.creatClock fds
    rw [hcreat] at hmv
    have hfound : readDentryByName { s.fs with dentries := dentries } target = some (dentries t) :=
      readDentryByName_eq_some_iff.mpr ⟨hnames.target_length, t, hready.found, rfl⟩
    -- the loop copies the bytes, and only an empty source may share the inode of the target
    have hcopies : LoopCopies env { s.fs with dentries := dentries } fds fd target ino bytes
        ∧ (ino ≠ s.fs.ino i ∨ bytes = []) := by
      rcases hmove.copies with ⟨rfl, hempty⟩ | ⟨hother, htwo, hcopy⟩
      · exact ⟨loopCopies_nil (Function.update_self _ _ _) hbytes hempty, Or.inr rfl⟩
      · exact ⟨loopCopies_string hfd hfds hbytes hfound hready.regular hino htwo
          ⟨hcopy.nonempty, hcopy.small, hcopy.noTerminator, hcopy.terminated, hcopy.stores⟩,
          Or.inl hother⟩
    obtain ⟨⟨z, hloop, hdentries, hz⟩, hother⟩ := hcopies
    have hzt : z.fs.ino t = ino := by rw [Fs.ino, hdentries, hino]
    have hzi : z.fs.ino i = s.fs.ino i := by rw [Fs.ino, hdentries, hinoi]
    have hlast : ReadyToUnlink z.fs source target i t := hready.congr hdentries
    obtain ⟨r, hr, hholds⟩ := hlast.unlink hnames.source_length hnames.target_length
      (by rw [hzt, hz]) (by rw [hzt, hzi]; exact hother)
    refine ⟨(0, { z with fs := r.2 }), ?_, fun _ => hholds, fun hnot => absurd hholds hnot⟩
    rw [hmv, hloop, Option.bind_some, hr, Option.map_some]

end Program

/-! ### What the program leaves -/

/-- A file that is there after the source has been removed was there before. -/
lemma unlink_holds {fs : Fs} {source target : CString} {r : ℤ × Fs} {bytes : List UInt8}
    (htarget : target.length ≠ 0) (hr : unlink fs source = some r) (h : r.2.holds target bytes) :
    ∃ t < MAX_FILES, fs.answers target t
      ∧ (bytes = [] ∨ fs.contents (fs.inodes (fs.ino t)) = bytes) := by
  obtain ⟨d, hd, -, hbytes⟩ := h
  obtain ⟨-, k, hk, rfl⟩ := readDentryByName_eq_some_iff.mp hd
  obtain ⟨hkMax, hans, -⟩ := findDentry_eq_some_iff.mp hk
  rcases unlink_cases hr with ⟨-, hsame⟩ | ⟨-, hremove⟩
  · rw [hsame] at hans hbytes
    exact ⟨k, hkMax, hans, Or.inr hbytes⟩
  · obtain ⟨i, j, -, hruns, hmoved⟩ := removeDentry_eq hremove
    have hj := hruns.2.1
    rw [hmoved, answers_moved htarget] at hans
    refine ⟨movedFrom i j k, ?_, hans.2, ?_⟩
    · rw [movedFrom]
      split <;> omega
    · rw [hmoved, moveDentry_dentries hans.1] at hbytes
      change Fs.contents _ (Function.update fs.inodes (fs.ino i) _ (fs.ino (movedFrom i j k)))
        = bytes at hbytes
      rcases eq_or_ne (fs.ino (movedFrom i j k)) (fs.ino i) with heq | hne
      · rw [heq, Function.update_self] at hbytes
        exact Or.inl hbytes.symm
      · rw [Function.update_of_ne hne] at hbytes
        exact Or.inr hbytes

/-- The scan has ended in the boot block. -/
lemma unlink_endsBehind {fs : Fs} {source : CString} {r : ℤ × Fs} {i : ℕ}
    (hsource : source.length ≠ 0) (hfound : (findDentry fs source).isSome = true)
    (hi : namedDentry fs source = some i) (hr : unlink fs source = some r) : fs.EndsBehind i := by
  rcases unlink_cases hr with ⟨hnone, -⟩ | ⟨-, hremove⟩
  · rw [(readDentryByName_eq_none_iff hsource).mp hnone] at hfound
    cases hfound
  · obtain ⟨i', j, hi', hruns, -⟩ := removeDentry_eq hremove
    rw [Option.some.inj (hi.symm.trans hi')]
    exact hruns.endsBehind

/-- A name that is found after `creat`, but not before, is the one of the new entry. -/
lemma creat_answers {counter : UInt32} {fs : Fs} {fds : FdTable} {fname target : CString} {t : ℕ}
    (hnew : findDentry fs target = none) (hlen : fname.length < DENTRY_SIZE) (ht : t < MAX_FILES)
    (hans : (creat counter fs fds fname).2.1.answers target t) :
    ∃ d, freeSlot fs = some t ∧ SameName target.byte fname.byte
      ∧ creat counter fs fds fname = ((openCall counter (fs.withEntry t d) fds fname).1,
        fs.withEntry t d, (openCall counter (fs.withEntry t d) fds fname).2)
      ∧ SameName fname.byte d.filename ∧ d.fileType = FILE_TYPE_REGULAR
      ∧ d.inodeNum.toNat = freeInode fs := by
  rw [findDentry_eq_none_iff] at hnew
  rw [creat] at hans ⊢
  split at hans
  · exact absurd hans (hnew t ht)
  · rename_i hnone
    rw [if_neg hnone]
    cases hfree : freeSlot fs with
    | none =>
        have hsame : newDentry fs fname = fs := by rw [newDentry, hfree]
        simp only [hsame] at hans
        exact absurd hans (hnew t ht)
    | some slot =>
        obtain ⟨d, hentry, hname, htype, hnum⟩ := newDentry_eq hfree hlen
        simp only [hentry] at hans
        rcases eq_or_ne t slot with rfl | hne
        · simp only [Fs.answers, Fs.named, Function.update_self] at hans
          refine ⟨d, rfl, hans.2.trans hname.symm, ?_, hname, htype, hnum⟩
          rw [hentry]
          rfl
        · simp only [Fs.answers, Fs.named, Function.update_of_ne hne] at hans
          exact absurd hans (hnew t ht)

/-- A free inode has no bytes. -/
lemma freeInode_length {fs : Fs} (h : freeInode fs < 30) :
    (fs.inodes (freeInode fs)).length = 0 := by
  rw [freeInode] at h ⊢
  cases hj : (List.range' 1 29).find? fun j => (fs.inodes j).length = 0 with
  | none =>
      rw [hj] at h
      exact absurd h (lt_irrefl _)
  | some j =>
      have hzero := List.find?_some hj
      exact of_decide_eq_true hzero

/-- What is stored in a file depends on its inode only. -/
lemma StoresBuffer.congr {fs : Fs} {fds fds' : FdTable} {fd fd' : ℕ} {buf : List UInt8}
    {stale : UInt32} (h : StoresBuffer fs fds fd buf stale)
    (hsame : (fds' fd').inodeNum.toNat = (fds fd).inodeNum.toNat) :
    StoresBuffer fs fds' fd' buf stale := by
  simp only [StoresBuffer, OldBytesAgree, byteWritten, writtenBlock, passesLet, hsame] at h ⊢
  exact h

/-- A string that has the length of the bytes at its start is these bytes, and what follows ends
it. -/
lemma string_eq {bytes rest text : List UInt8} (hzero : 0 ∈ bytes ++ rest)
    (htext : (bytes ++ rest).takeWhile (· != 0) = text) (hlen : text.length = bytes.length) :
    text = bytes ∧ 0 ∉ bytes ∧ rest[0]? = some 0 := by
  have hprefix : text <+: bytes ++ rest := htext ▸ List.takeWhile_prefix _
  have hsame : text = bytes :=
    (List.prefix_of_prefix_length_le hprefix (List.prefix_append bytes rest) hlen.le).eq_of_length
      hlen
  have hall : ∀ b ∈ bytes, (b != 0) = true := by
    rw [← hsame, ← htext]
    exact List.all_eq_true.mp List.all_takeWhile
  have hnone : 0 ∉ bytes := fun h0 => by
    have := hall 0 h0
    simp at this
  refine ⟨hsame, hnone, ?_⟩
  rw [List.takeWhile_append_of_pos hall, hsame, List.append_right_eq_self] at htext
  cases rest with
  | nil =>
      rw [List.append_nil] at hzero
      exact absurd hzero hnone
  | cons b rest =>
      by_cases hb : b = 0
      · rw [hb, List.getElem?_cons_zero]
      · rw [List.takeWhile_cons_of_pos (by simpa using hb)] at htext
        cases htext

/-! ### Nothing less will do -/

/-- What is common: the terminal is where it belongs, the byte behind the buffer is a terminator,
the target is new and its name fits an entry, an inode is free, and removing goes by the entry of
the source. -/
structure OrdinaryMove (env : MvEnv) (s : Mounted) (source target : CString) (spaces : ℕ) :
    Prop where
  terminal : (s.fds 1).fopsTable = some .tty
  behind : env.stack[MV_BUFSIZE]? = some 0
  new : findDentry s.fs target = none
  fits : spaces + target.length ≤ DENTRY_SIZE
  inode : freeInode s.fs < 30
  entry : namedDentry s.fs source = findDentry s.fs source

section Loop

variable {stale : ℕ → UInt32} {fdFrom : ℕ} {fdTo : ℤ} {s z : Mounted} {mem : List UInt8} {k i : ℕ}

/-- The loop leaves the directory alone. -/
lemma mvLoop_dentries (hmem : mem[MV_BUFSIZE]? = some 0)
    (hz : mvLoop stale fdFrom fdTo k i s mem = some z) : z.fs.dentries = s.fs.dentries :=
  mvLoop_invariant (P := fun t => t.fs.dentries = s.fs.dentries) hmem (fun _ h => h)
    (fun t text stale h _ => ((writeCall_frame t fdTo text stale).2).trans h) rfl hz

/-- Without a descriptor for the target it writes nothing. -/
lemma mvLoop_noTarget (hmem : mem[MV_BUFSIZE]? = some 0)
    (hz : mvLoop stale fdFrom (-1) k i s mem = some z) : z.fs = s.fs :=
  mvLoop_invariant (P := fun t => t.fs = s.fs) hmem (fun _ h => h)
    (fun t text stale h _ => by rw [writeCall, if_pos (by decide), h]) rfl hz

/-- The target never gets longer than the buffer. -/
lemma mvLoop_length_le {fd ino : ℕ} (hto : OpenOn s.fds fd ino) (hfd : fd < 8)
    (hmem : mem[MV_BUFSIZE]? = some 0) (hlen : (s.fs.inodes ino).length.toNat ≤ MV_BUFSIZE)
    (hz : mvLoop stale fdFrom fd k i s mem = some z) :
    (z.fs.inodes ino).length.toNat ≤ MV_BUFSIZE := by
  have hinv := mvLoop_invariant
    (P := fun t => OpenOn t.fds fd ino ∧ (t.fs.inodes ino).length.toNat ≤ MV_BUFSIZE) hmem
    (fun t h => ⟨h.1.fileRead _, h.2⟩) (fun t text stale h htext => ?_) ⟨hto, hlen⟩ hz
  · exact hinv.2
  · rw [writeCall_of_openOn h.1 hfd]
    refine ⟨h.1, ?_⟩
    simp only [(fileWrite_inodes t.fs h.1 text text.length.toUInt32 stale).1]
    exact (Nat.mod_le _ _).trans htext

end Loop

section Program

variable {env : MvEnv} {s : Mounted} {command source target : CString} {spaces : ℕ} {d : Dentry}
  {bytes : List UInt8}

/-- The bytes that the loop leaves in a new target are those of the source only if they are one
string that is stored. -/
lemma copiesWhole_of_contents {fs : Fs} {fds : FdTable} {fd fd' a ino n : ℕ} {z : Mounted}
    (hfrom : OpenOn fds fd a) (hpos : (fds fd).filePos = 0) (hto : OpenOn fds fd' ino)
    (hfd' : fd' < 8) (hmem : env.stack[MV_BUFSIZE]? = some 0) (hother : a ≠ ino)
    (hbytes : fs.contents (fs.inodes a) = bytes) (hne : bytes ≠ [])
    (hempty : (fs.inodes ino).length = 0) (hn : 2 ≤ n)
    (hz : mvLoop env.stale fd fd' n 0 ⟨fs, fds⟩ env.stack = some z)
    (hcontents : z.fs.contents (z.fs.inodes ino) = bytes) : CopiesWhole env fs ino bytes := by
  have hlength {t : Fs} {m : ℕ} (ht : t.contents (t.inodes m) = bytes) :
      (t.inodes m).length.toNat = bytes.length := by
    rw [← ht, Fs.contents, Fs.fileSlice_length]
  have hpositive := List.length_pos_of_ne_nil hne
  have hsmall : bytes.length ≤ MV_BUFSIZE := by
    rw [← hlength hcontents]
    exact mvLoop_length_le hto hfd' hmem (by simp [hempty]) hz
  obtain ⟨k, rfl⟩ : ∃ k, n = k + 2 := ⟨n - 2, by omega⟩
  have hrest : bytes.length % BLOCK_SIZE ≠ 0 := by
    -- a whole block reads as empty, so the target would stay empty
    intro hwhole
    have hblock : bytes.length = BLOCK_SIZE := by
      rw [BLOCK_SIZE, MV_BUFSIZE] at *
      omega
    have hread : readableEnd (fs.inodes a).length.toNat = 0 := by
      rw [hlength hbytes, hblock]
      rfl
    obtain ⟨fds', hloop⟩ := mvLoop_empty env.stale fd' env.stack (k + 1) 0
      (s := ⟨fs, fds⟩) hfrom hread
    obtain rfl := Option.some.inj (hloop.symm.trans hz)
    have hzero := hlength hcontents
    simp only [hempty] at hzero
    exact absurd hzero.symm (by simpa using hpositive.ne')
  have hzero : 0 ∈ bytes ++ env.stack.drop bytes.length :=
    List.mem_of_getElem? ((behind_buffer env.stack hsmall).trans hmem)
  obtain ⟨fds', hloop⟩ := mvLoop_onePass env.stale k 0 (s := ⟨fs, fds⟩) hfrom hpos hto hfd' hbytes
    hsmall hrest hzero rfl fun h => absurd h hother
  obtain rfl := Option.some.inj (hloop.symm.trans hz)
  set text := (bytes ++ env.stack.drop bytes.length).takeWhile (· != 0) with htext
  have hshort : text.length ≤ MV_BUFSIZE :=
    takeWhile_length_le ((behind_buffer env.stack hsmall).trans hmem)
  have hwritten := (fileWrite_inodes fs hto text text.length.toUInt32 (env.stale 0)).1
  have htextLength : text.length = bytes.length := by
    rw [← hlength hcontents]
    simp only [hwritten]
    exact (toUInt32_length (hshort.trans (by decide))).symm
  obtain ⟨hsame, hnone, hend⟩ := string_eq hzero htext.symm htextLength
  rw [hsame] at hcontents
  refine ⟨hne, hsmall, hnone, ?_, fun fds₂ fd₂ hopen => ?_⟩
  · rwa [List.getElem?_drop, Nat.add_zero] at hend
  · exact ((contents_fileWrite_iff hto hsmall hrest).mp hcontents).congr
      (hopen.2.trans hto.2.symm)

/-- The scan behind the source ends in the boot block, and not at the new entry. -/
lemma ends_of_unlink {fs z : Fs} {t i : ℕ} {e : Dentry} {q : ℤ × Fs}
    (hname : SameName target.byte e.filename) (htype : e.fileType = FILE_TYPE_REGULAR)
    (hnew : findDentry fs target = none) (hsource : (findDentry fs source).isSome = true)
    (hlength : source.length ≠ 0) (htarget : target.length ≠ 0) (hfree : freeSlot fs = some t)
    (hi : namedDentry fs source = some i) (hz : z.dentries = (fs.withEntry t e).dentries)
    (hq : unlink z source = some q) :
    ∃ r, i < r ∧ r < MAX_FILES ∧ dentryAt fs r = false ∧ t ≠ r := by
  obtain ⟨hremoved, hexists⟩ := namedDentry_withEntry hname hnew hsource hlength hfree hi
  have hremoved' : namedDentry z source = some i := by rwa [namedDentry, hz]
  obtain ⟨r, hr, hrMax, hlast⟩ : z.EndsBehind i :=
    unlink_endsBehind hlength (by rwa [findDentry, hz]) hremoved' hq
  rw [dentryAt, hz] at hlast
  have hne : t ≠ r := by
    rintro rfl
    have hhead : e.filename 0 ≠ 0 := by
      rw [← hname.head, Ne, target.byte_eq_zero_iff]
      exact htarget
    simp only [Fs.withEntry, Function.update_self, htype, Bool.and_eq_false_iff,
      bne_eq_false_iff_eq] at hlast
    exact hlast.elim (fun h => by cases h) hhead
  refine ⟨r, hr, hrMax, ?_, hne⟩
  simpa only [dentryAt, Fs.withEntry, Function.update_of_ne hne.symm] using hlast

/-- A new target gets the bytes of a source that has any only through a descriptor of its own. -/
lemma copies_of_contents {fs : Fs} {fds : FdTable} {fd ino n : ℕ} {e : Dentry} {z : Mounted}
    (hfd : freeFd fds = some fd) (hfound : readDentryByName fs target = some e)
    (htype : e.fileType = FILE_TYPE_REGULAR) (hino : e.inodeNum.toNat = ino)
    (hmem : env.stack[MV_BUFSIZE]? = some 0) (hother : d.inodeNum.toNat ≠ ino)
    (hbytes : fs.contents (fs.inodes d.inodeNum.toNat) = bytes) (hne : bytes ≠ [])
    (hempty : (fs.inodes ino).length = 0) (hn : 2 ≤ n)
    {fds₁ : FdTable} (hfds₁ : fds₁ = Function.update fds fd ⟨some .regular, d.inodeNum, 0, 0⟩)
    (hz : mvLoop env.stale fd (openCall env.creatClock fs fds₁ target).1 n 0
      ⟨fs, (openCall env.creatClock fs fds₁ target).2⟩ env.stack = some z)
    (hcontents : z.fs.contents (z.fs.inodes ino) = bytes) :
    TwoClosed fds ∧ CopiesWhole env fs ino bytes := by
  have hself : fds₁ fd = ⟨some .regular, d.inodeNum, 0, 0⟩ := by
    rw [hfds₁, Function.update_self]
  cases hfd' : freeFd fds₁ with
  | none =>
      -- nothing is written
      have hfail : openCall env.creatClock fs fds₁ target = (-1, fds₁) := by
        rw [openCall, hfound, hfd']
        rfl
      simp only [hfail] at hz
      rw [mvLoop_noTarget hmem hz, Fs.contents, hempty] at hcontents
      exact absurd hcontents.symm hne
  | some fd' =>
      have htwo : TwoClosed fds := by
        rw [← freeFd_update_isSome_iff hfd (e := ⟨some .regular, d.inodeNum, 0, 0⟩) (by simp),
          ← hfds₁, hfd']
        rfl
      refine ⟨htwo, ?_⟩
      simp only [openCall_regular env.creatClock hfound htype hfd'] at hz
      obtain ⟨hfrom, hpos, hto, hfd8⟩ := openOn_both e.inodeNum hself hfd'
      rw [hino] at hto
      exact copiesWhole_of_contents hfrom hpos hto hfd8 hmem hother hbytes hne hempty hn hz
        hcontents

/-- **Nothing less will do**, for an ordinary move. -/
theorem condition_of_keepsData (hnames : NamesFiles command source target spaces)
    (hd : readDentryByName s.fs source = some d) (hreg : d.fileType = FILE_TYPE_REGULAR)
    (hbytes : s.fs.contents (s.fs.inodes d.inodeNum.toNat) = bytes)
    (hordinary : OrdinaryMove env s source target spaces)
    (h : KeepsData env s command source target bytes) :
    MvCondition env s source target spaces bytes := by
  cases hfd : freeFd s.fds with
  | none => exact Or.inl ⟨hfd, hordinary.terminal⟩
  | some fd =>
      refine Or.inr ⟨by rw [hfd]; rfl, freeInode s.fs, ?_⟩
      obtain ⟨args, hargs, hfrom, hto⟩ := hnames.split
      obtain ⟨-, i, hi, hentry⟩ := readDentryByName_eq_some_iff.mp hd
      have hremoved : namedDentry s.fs source = some i := hordinary.entry.trans hi
      have hsource : (findDentry s.fs source).isSome = true := by rw [hi]; rfl
      have htolen : (mvTo args).length < DENTRY_SIZE := by
        have hfits := hordinary.fits
        have hsep := hnames.separated
        rw [CString.length] at hfits ⊢
        rw [hto, List.length_append, List.length_replicate]
        omega
      obtain ⟨r, hr, hmoved, -⟩ := h
      rw [mv_eq env hargs hfrom hd hreg hfd] at hr
      set fds := Function.update s.fds fd ⟨some .regular, d.inodeNum, 0, 0⟩ with hfds
      obtain ⟨z, hloop, hr⟩ := Option.bind_eq_some_iff.mp hr
      obtain ⟨q, hq, rfl⟩ := Option.map_eq_some_iff.mp hr
      obtain ⟨t, ht, hans, hcontents⟩ := unlink_holds hnames.target_length hq (hmoved rfl)
      have hdentries := mvLoop_dentries hordinary.behind hloop
      have hansCreat : (creat env.creatClock s.fs fds (mvTo args)).2.1.answers target t := by
        simp only [Fs.answers, Fs.named, hdentries] at hans ⊢
        exact hans
      obtain ⟨e, hfree, hsame, hcreat, hname, htype, hnum⟩ :=
        creat_answers hordinary.new htolen ht hansCreat
      rw [hcreat] at hloop hdentries
      obtain rfl := hnames.oneSpace hto hsame
      obtain rfl : mvTo args = target := Subtype.ext hto
      have hnew := hordinary.new
      obtain ⟨r, hr, hrMax, hlast, hrt⟩ := ends_of_unlink hname htype hnew hsource
        hnames.source_length hnames.target_length hfree hremoved hdentries hq
      have hnone := (readDentryByName_eq_none_iff hnames.target_length).mpr hnew
      refine ⟨i, rfl, ?_, hremoved, fun k _ hk => ?_, ?_, ⟨r, hr, hrMax, hlast, fun _ => ?_⟩, ?_⟩
      · simp only [Fs.targetInode, hnone, hfree]
        exact if_pos ⟨rfl, htolen⟩
      · exact absurd (hnew.symm.trans hk) (Option.some_ne_none k).symm
      · rw [hnew]
        exact (Option.some_ne_none i).symm
      · rw [hfree]
        exact fun h => hrt (Option.some.inj h)
      · by_cases hnil : bytes = []
        · exact Or.inl ⟨hnil, freeInode_length hordinary.inode⟩
        · right
          have hzt : z.fs.ino t = freeInode s.fs := by
            rw [Fs.ino, hdentries, ← hnum]
            simp only [Fs.withEntry, Function.update_self]
          have hempty := freeInode_length hordinary.inode
          have hother : d.inodeNum.toNat ≠ freeInode s.fs := by
            intro heq
            rw [heq, Fs.contents, hempty] at hbytes
            exact hnil hbytes.symm
          have hfound : readDentryByName (s.fs.withEntry t e) (mvTo args) = some e :=
            readDentryByName_eq_some_iff.mpr ⟨hnames.target_length, t,
              findDentry_withEntry hname htype hnew hfree, Function.update_self _ _ _⟩
          have hbytes' : (s.fs.withEntry t e).contents
              ((s.fs.withEntry t e).inodes d.inodeNum.toNat) = bytes := hbytes
          obtain ⟨htwo, hcopy⟩ := copies_of_contents hfd hfound htype hnum hordinary.behind hother
            hbytes' hnil hempty (by simp only [mvPasses, MV_BUFSIZE]; omega) hfds hloop
            (by rw [← hzt]; exact hcontents.resolve_left hnil)
          refine ⟨?_, htwo, hcopy.nonempty, hcopy.small, hcopy.noTerminator, hcopy.terminated,
            hcopy.stores⟩
          rw [Fs.ino, hentry]
          exact hother.symm

/-- **When `mv` keeps the data.**  The condition is enough for any move of a regular file, and an
ordinary move keeps the data only if it holds. -/
theorem mv_keepsData (hnames : NamesFiles command source target spaces)
    (hd : readDentryByName s.fs source = some d) (hreg : d.fileType = FILE_TYPE_REGULAR)
    (hbytes : s.fs.contents (s.fs.inodes d.inodeNum.toNat) = bytes) :
    (MvCondition env s source target spaces bytes
        → KeepsData env s command source target bytes)
      ∧ (OrdinaryMove env s source target spaces
        → (KeepsData env s command source target bytes
          ↔ MvCondition env s source target spaces bytes)) :=
  ⟨fun h => h.keepsData hnames hd hreg hbytes, fun hordinary =>
    ⟨condition_of_keepsData hnames hd hreg hbytes hordinary,
      fun h => h.keepsData hnames hd hreg hbytes⟩⟩

end Program

/-! ### Two runs -/

/-- `mv a b`. -/
def mvAB : CString := ⟨[109, 118, 32, 97, 32, 98], by decide⟩

/-- Zeros on the stack, and one in `data_block_count`. -/
def zeroedEnv : MvEnv := ⟨0, 0, List.replicate (MV_BUFSIZE + 1) 0, fun _ => 1⟩

/-- A program that has just been started, with a filesystem. -/
def started (fs : Fs) : Mounted := ⟨fs, setupFdtable fun _ => Fd.zero⟩

lemma mvAB_names : NamesFiles mvAB nameA nameB 1 :=
  ⟨rfl, by decide, by decide, by decide, by decide, by decide⟩

lemma zeroedEnv_stack {n : ℕ} (hn : n ≤ MV_BUFSIZE) : zeroedEnv.stack[n]? = some 0 := by
  rw [zeroedEnv, List.getElem?_replicate, if_pos (Nat.lt_succ_of_le hn)]

/-- A file of one byte is moved. -/
theorem mv_keepsData_oneByte :
    KeepsData zeroedEnv (started (oneFile 1)) mvAB nameA nameB [7]
      ∧ MvCondition zeroedEnv (started (oneFile 1)) nameA nameB 1 [7] := by
  have hnew : findDentry (oneFile 1) nameB = none := by decide +kernel
  have hordinary : OrdinaryMove zeroedEnv (started (oneFile 1)) nameA nameB 1 :=
    ⟨rfl, zeroedEnv_stack le_rfl, hnew, by decide, by decide +kernel, by decide +kernel⟩
  have hstores (fds : FdTable) (fd : ℕ) (hopen : OpenOn fds fd 2) :
      StoresBuffer (oneFile 1) fds fd [7] (zeroedEnv.stale 0) := by
    refine Or.inr ⟨by decide, Or.inl ⟨by decide, ?_⟩⟩
    rw [passesLet, hopen.2]
    decide
  have hmove : CanMove zeroedEnv (started (oneFile 1)) nameA nameB 1 [7] 2 0 := by
    refine ⟨rfl, by decide +kernel, by decide +kernel, fun k _ hk => ?_, ?_,
      ⟨2, by decide, by decide, by decide, fun _ => by decide +kernel⟩, Or.inr ⟨by decide, ?_, ?_⟩⟩
    · exact absurd (hnew.symm.trans hk) (Option.some_ne_none k).symm
    · exact fun h => Option.some_ne_none 0 (h.symm.trans hnew)
    · exact ⟨2, 3, by decide +kernel, by decide, by decide, rfl⟩
    · exact ⟨by decide, by decide, by decide, zeroedEnv_stack (by decide), hstores⟩
  have hcondition : MvCondition zeroedEnv (started (oneFile 1)) nameA nameB 1 [7] :=
    Or.inr ⟨by decide +kernel, 2, 0, hmove⟩
  have hsource : readDentryByName (started (oneFile 1)).fs nameA = some ((oneFile 1).dentries 0) :=
    readDentryByName_eq_some_iff.mpr ⟨by decide, 0, by decide +kernel, rfl⟩
  have hkeeps : KeepsData zeroedEnv (started (oneFile 1)) mvAB nameA nameB [7] :=
    (mv_keepsData mvAB_names hsource rfl rfl).1 hcondition
  exact ⟨hkeeps, ((mv_keepsData mvAB_names hsource rfl rfl).2 hordinary).mp hkeeps⟩

/-- A file of one terminator is lost: `mv a b` returns `0`, and then `b` is empty and there is no
`a`. -/
theorem mv_losesData :
    let s : Mounted := started { oneFile 1 with data := fun _ _ => 0 }
    NamesFiles mvAB nameA nameB 1 ∧ s.fs.holds nameA [0]
      ∧ ¬ KeepsData zeroedEnv s mvAB nameA nameB [0] := by
  intro s
  have hsource : s.fs.holds nameA [0] :=
    ⟨s.fs.dentries 0, readDentryByName_eq_some_iff.mpr ⟨by decide, 0, by decide +kernel, rfl⟩, rfl,
      rfl⟩
  refine ⟨mvAB_names, hsource, ?_⟩
  rintro ⟨r, hr, htarget, -⟩
  have hrun : (mv zeroedEnv s mvAB).map (fun r =>
      (r.1, (readDentryByName r.2.fs nameB).map fun d =>
        r.2.fs.contents (r.2.fs.inodes d.inodeNum.toNat))) = some (0, some []) := by
    decide +kernel
  rw [hr, Option.map_some, Option.some.injEq, Prod.mk.injEq] at hrun
  obtain ⟨d, hd, -, hbytes⟩ := htarget hrun.1
  have hempty := hrun.2
  rw [hd, Option.map_some, hbytes] at hempty
  cases hempty

end CustomLinuxOs
