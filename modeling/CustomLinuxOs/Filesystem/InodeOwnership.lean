import CustomLinuxOs.Foundations.Run
import CustomLinuxOs.Filesystem.Directory

/-!
The inodes of the files in the directory.

* `Fs.DistinctInodes`: no two files have the same inode.
* `KeepsOtherFiles`: a call leaves the length and what can be read of all other files alone.
* `FreshInode`: `creat` finds an inode of no other file, and the name fits its entry.
* `CopiesToOwn`: `file_write` copies to no block of another file, or what lies there already.
* `inodeOwnership_iff`: exactly when the files of a run stay apart.
-/

namespace CustomLinuxOs

/-- No two files of the directory have the same inode. -/
def Fs.DistinctInodes (fs : Fs) : Prop :=
  ∀ i j, fs.live i → fs.live j → fs.ino i = fs.ino j → i = j

/-- What `read_data` can read of an inode. -/
def Fs.readable (fs : Fs) (ino : ℕ) : List UInt8 :=
  fs.fileSlice (fs.inodes ino) 0 (readableEnd (fs.inodes ino).length.toNat)

/-- The call keeps the length of the other files of the directory and what can be read of them. -/
def KeepsOtherFiles (s : Mounted) (e : FsEvent) : Prop :=
  ∀ u, fsStep s e = some u → ∀ i, s.fs.live i → e.target s ≠ some (s.fs.ino i) →
    (u.fs.inodes (s.fs.ino i)).length = (s.fs.inodes (s.fs.ino i)).length
      ∧ u.fs.readable (s.fs.ino i) = s.fs.readable (s.fs.ino i)

/-- A new name fits its entry, and the inode `creat` takes for it is that of no file. -/
def FreshInode (s : Mounted) : FsEvent → Prop
  | .creat _ filename => s.fs.MakesEntry filename →
      filename.length < DENTRY_SIZE ∧ ∀ i, s.fs.live i → s.fs.ino i ≠ freeInode s.fs
  | _ => True

/-- The block `file_write` copies to is none of another file, or the bytes lie there already. -/
def CopiesToOwn (s : Mounted) : FsEvent → Prop
  | .write fd buf stale =>
      let p := passesFor buf.length
      p ≤ passesLet s.fs s.fds fd stale → ∀ i, s.fs.live i →
        s.fs.ino i ≠ (s.fds fd).inodeNum.toNat →
        let node := s.fs.inodes (s.fs.ino i)
        ∀ q < readableEnd node.length.toNat,
          (node.dataBlocks (q / BLOCK_SIZE)).toNat = writtenBlock s.fs s.fds fd →
          q % BLOCK_SIZE < buf.length - BLOCK_SIZE * (p - 1) →
            buf.getD (BLOCK_SIZE * (p - 1) + q % BLOCK_SIZE) 0 = s.fs.fileByte node q
  | _ => True

/-! ### Distinct inodes -/

/-- A directory whose files were all there before, each once, has distinct inodes. -/
lemma Fs.DistinctInodes.of_origin {fs fs' : Fs} (h : fs.DistinctInodes) (f : ℕ → ℕ)
    (hlive : ∀ k, fs'.live k → fs.live (f k) ∧ fs'.dentries k = fs.dentries (f k))
    (hinj : ∀ k l, fs'.live k → fs'.live l → f k = f l → k = l) : fs'.DistinctInodes := by
  intro k l hk hl hino
  obtain ⟨hfk, hdk⟩ := hlive k hk
  obtain ⟨hfl, hdl⟩ := hlive l hl
  rw [Fs.ino, Fs.ino, hdk, hdl] at hino
  exact hinj k l hk hl (h _ _ hfk hfl hino)

/-- One entry more: its inode is to be that of no other file. -/
lemma distinctInodes_update {fs : Fs} {i : ℕ} {d : Dentry} (h : fs.DistinctInodes)
    (hi : i < MAX_FILES) (hname : (fs.dentries i).filename 0 = 0) (hd : d.regular) :
    ({ fs with dentries := Function.update fs.dentries i d } : Fs).DistinctInodes
      ↔ ∀ k, fs.live k → fs.ino k ≠ d.inodeNum.toNat := by
  set fs' : Fs := { fs with dentries := Function.update fs.dentries i d } with hfs'
  have hself : fs'.dentries i = d := Function.update_self _ _ _
  have hother {k : ℕ} (hk : k ≠ i) : fs'.dentries k = fs.dentries k := Function.update_of_ne hk _ _
  have hlivei : fs'.live i := ⟨hi, hself.symm ▸ hd⟩
  have hne {k : ℕ} (hk : fs.live k) : k ≠ i := by
    rintro rfl
    exact hk.2.1 hname
  constructor
  · intro h' k hk hino
    have hk' : fs'.live k := ⟨hk.1, (hother (hne hk)).symm ▸ hk.2⟩
    refine hne hk (h' k i hk' hlivei ?_)
    rw [Fs.ino, Fs.ino, hother (hne hk), hself]
    exact hino
  · intro hfresh k l hk hl hino
    rw [Fs.ino, Fs.ino] at hino
    by_cases hki : k = i
    · by_cases hli : l = i
      · exact hki.trans hli.symm
      · rw [hki, hself, hother hli] at hino
        exact absurd hino.symm (hfresh l ⟨hl.1, hother hli ▸ hl.2⟩)
    · by_cases hli : l = i
      · rw [hli, hself, hother hki] at hino
        exact absurd hino (hfresh k ⟨hk.1, hother hki ▸ hk.2⟩)
      · rw [hother hki, hother hli] at hino
        exact h k l ⟨hk.1, hother hki ▸ hk.2⟩ ⟨hl.1, hother hli ▸ hl.2⟩ hino

section Steps

variable {s u : Mounted}

/-- **A call** keeps the inodes distinct exactly when `creat` finds a fresh one. -/
lemma fsStep_distinctInodes_iff {e : FsEvent} (hs : s.fs.DistinctInodes)
    (hshort : e.ShortName ∨ FreshInode s e) (hu : fsStep s e = some u) :
    u.fs.DistinctInodes ↔ FreshInode s e := by
  cases e with
  | «open» counter filename =>
      obtain rfl := Option.some.inj hu
      exact iff_of_true hs trivial
  | close fd =>
      obtain rfl := Option.some.inj hu
      exact iff_of_true hs trivial
  | creat counter filename =>
      obtain rfl := Option.some.inj hu
      have hlen (h : s.fs.MakesEntry filename) : filename.length < DENTRY_SIZE :=
        hshort.elim id fun hfresh => (hfresh h).1
      rcases creat_cases counter s.fs s.fds hlen with
        ⟨hnot, dentries, heq, hsame⟩ | ⟨hmakes, i, d, hi, hname, heq, hreg, hino⟩
      · refine iff_of_true ?_ fun h => absurd h hnot
        simp only [heq]
        refine hs.of_origin id (fun k hk => ?_) fun k l _ _ h => h
        have hdentry := hsame k hk.2
        exact ⟨⟨hk.1, hdentry ▸ hk.2⟩, hdentry⟩
      · simp only [heq]
        rw [distinctInodes_update hs hi hname hreg, hino]
        exact ⟨fun h _ => ⟨hlen hmakes, h⟩, fun h => (h hmakes).2⟩
  | write fd buf stale =>
      obtain ⟨-, rfl⟩ := fsStep_write hu
      refine iff_of_true ?_ trivial
      simp only [fileWrite_eq]
      exact hs
  | unlink filename =>
      obtain ⟨r, hr, rfl⟩ := Option.map_eq_some_iff.mp hu
      refine iff_of_true ?_ trivial
      rcases unlink_cases hr with ⟨-, heq⟩ | ⟨-, heq⟩
      · simp only [heq]
        exact hs
      · obtain ⟨i, j, -, -, horigin, hinj⟩ := removeDentry_cases heq
        exact hs.of_origin (movedFrom i j)
          (fun k hk => ⟨(horigin k hk).1, (horigin k hk).2.2⟩) hinj

/-! ### Other files -/

/-- What can be read of an inode that `file_write` does not change. -/
lemma readable_fileWrite_iff (fs : Fs) (fds : FdTable) (fd : ℕ) (buf : List UInt8)
    {nbytes : UInt32} (stale : UInt32) (hn : nbytes.toNat = buf.length) {ino : ℕ}
    (hino : ino ≠ (fds fd).inodeNum.toNat) :
    let p := passesFor buf.length
    let node := fs.inodes ino
    (fileWrite fs fds fd buf nbytes stale).2.readable ino = fs.readable ino
      ↔ (p ≤ passesLet fs fds fd stale → ∀ q < readableEnd node.length.toNat,
        (node.dataBlocks (q / BLOCK_SIZE)).toNat = writtenBlock fs fds fd →
          q % BLOCK_SIZE < buf.length - BLOCK_SIZE * (p - 1) →
            buf.getD (BLOCK_SIZE * (p - 1) + q % BLOCK_SIZE) 0 = fs.fileByte node q) := by
  intro p node
  simp only [fileWrite_eq, Fs.readable, Function.update_of_ne hino, Fs.fileSlice, hn,
    List.map_inj_left, List.mem_range, Nat.zero_add, Fs.fileByte]
  by_cases hcopied : passesFor buf.length ≤ passesLet fs fds fd stale
  · simp only [p, hcopied, if_true, true_imp_iff]
    refine forall₂_congr fun q _ => ?_
    by_cases hblock : (node.dataBlocks (q / BLOCK_SIZE)).toNat = writtenBlock fs fds fd
    · rw [show (fs.inodes ino).dataBlocks = node.dataBlocks from rfl, hblock,
        Function.update_self]
      by_cases hq : q % BLOCK_SIZE < buf.length - BLOCK_SIZE * (passesFor buf.length - 1)
      · simp [hq]
      · simp [hq]
    · rw [Function.update_of_ne hblock]
      exact iff_of_true rfl fun h => absurd h hblock
  · simp only [p, hcopied, if_false, false_imp_iff]
    exact iff_of_true (fun _ _ => trivial) trivial

/-- **A call** leaves the other files alone exactly when `file_write` copies to a block of its
own. -/
lemma fsStep_keepsOtherFiles_iff {e : FsEvent} (hu : fsStep s e = some u) :
    KeepsOtherFiles s e ↔ CopiesToOwn s e := by
  have hkeeps : KeepsOtherFiles s e ↔ ∀ i, s.fs.live i → e.target s ≠ some (s.fs.ino i) →
      (u.fs.inodes (s.fs.ino i)).length = (s.fs.inodes (s.fs.ino i)).length
        ∧ u.fs.readable (s.fs.ino i) = s.fs.readable (s.fs.ino i) := by
    constructor
    · exact fun h => h u hu
    · intro h v hv
      obtain rfl : u = v := Option.some.inj (hu.symm.trans hv)
      exact h
  rw [hkeeps]
  cases e with
  | «open» counter filename =>
      obtain rfl := Option.some.inj hu
      exact iff_of_true (fun _ _ _ => ⟨rfl, rfl⟩) trivial
  | close fd =>
      obtain rfl := Option.some.inj hu
      exact iff_of_true (fun _ _ _ => ⟨rfl, rfl⟩) trivial
  | creat counter filename =>
      obtain rfl := Option.some.inj hu
      obtain ⟨dentries, heq⟩ := creat_frame counter s.fs s.fds filename
      refine iff_of_true (fun i _ _ => ?_) trivial
      rw [heq]
      exact ⟨rfl, rfl⟩
  | write fd buf stale =>
      obtain ⟨hopen, rfl⟩ := fsStep_write hu
      have hn : buf.length.toUInt32.toNat = buf.length := Nat.mod_eq_of_lt hopen.2.2
      simp only [FsEvent.target, ne_eq, Option.some.injEq, CopiesToOwn]
      constructor
      · intro h hcopied i hi hino
        have hread := (h i hi (Ne.symm hino)).2
        exact (readable_fileWrite_iff s.fs s.fds fd buf stale hn hino).mp hread hcopied
      · intro h i hi hino
        have hino' : s.fs.ino i ≠ (s.fds fd).inodeNum.toNat := Ne.symm hino
        refine ⟨?_, (readable_fileWrite_iff s.fs s.fds fd buf stale hn hino').mpr
          fun hcopied => h hcopied i hi hino'⟩
        simp only [fileWrite_eq, Function.update_of_ne hino']
  | unlink filename =>
      obtain ⟨r, hr, rfl⟩ := Option.map_eq_some_iff.mp hu
      refine iff_of_true (fun k _ htarget => ?_) trivial
      rcases unlink_cases hr with ⟨-, heq⟩ | ⟨-, heq⟩
      · rw [heq]
        exact ⟨rfl, rfl⟩
      · obtain ⟨i, j, hi, ⟨hinodes, hdata, -⟩, -, -⟩ := removeDentry_cases heq
        have hne : s.fs.ino k ≠ s.fs.ino i := by
          rw [FsEvent.target, hi] at htarget
          exact fun h => htarget (congrArg some h.symm)
        have hnode : r.2.inodes (s.fs.ino k) = s.fs.inodes (s.fs.ino k) := by
          rw [hinodes]
          exact Function.update_of_ne hne _ _
        simp only [Fs.readable, Fs.fileSlice, Fs.fileByte, hnode, hdata]
        exact ⟨trivial, trivial⟩

end Steps

/-- **Inode ownership.**  Take a directory whose files have distinct inodes, and any run of calls.
If every new name fits its entry and gets the inode of no other file, and `file_write` copies to
no block of another file, then the files have distinct inodes in all states, and no call changes
the length of another file or what can be read of it.  When all names fit, only then. -/
theorem inodeOwnership_iff {s z : Mounted} {es : List FsEvent} (hs : s.fs.DistinctInodes)
    (hrun : Run fsStep s es z) :
    (EveryStep fsStep s es FreshInode ∧ EveryStep fsStep s es CopiesToOwn →
      EveryState fsStep s es (fun t => t.fs.DistinctInodes)
        ∧ EveryStep fsStep s es KeepsOtherFiles)
    ∧ ((∀ e ∈ es, e.ShortName) →
      EveryState fsStep s es (fun t => t.fs.DistinctInodes)
        ∧ EveryStep fsStep s es KeepsOtherFiles →
      EveryStep fsStep s es FreshInode ∧ EveryStep fsStep s es CopiesToOwn) := by
  have hothers : EveryStep fsStep s es KeepsOtherFiles ↔ EveryStep fsStep s es CopiesToOwn :=
    everyStep_congr hrun fun _ _ _ hu => fsStep_keepsOtherFiles_iff hu
  constructor
  · rintro ⟨hfresh, hcopies⟩
    refine ⟨hfresh.everyState hs fun t e u ht he hu => ?_, hothers.mpr hcopies⟩
    exact (fsStep_distinctInodes_iff ht (Or.inr he) hu).mpr he
  · rintro hshort ⟨hdistinct, hkeeps⟩
    refine ⟨?_, hothers.mp hkeeps⟩
    refine (everyState_iff_everyStep (V := FsEvent.ShortName) (I := fun _ => True) hrun hshort
      trivial hs ?_ fun _ _ _ _ _ _ _ _ => trivial).mp hdistinct
    exact fun t e u he _ ht hu => fsStep_distinctInodes_iff ht (Or.inl he) hu

/-- Two files are made in an empty directory. -/
def creatTwo : List FsEvent := [.creat 0 nameA, .creat 0 nameB]

lemma noFiles_distinctInodes : noFiles.DistinctInodes := fun _ _ hi => absurd rfl hi.2.1

/-- The run of `creatTwo` is one to which the result applies. -/
theorem inodeOwnership_iff_creatTwo :
    ∃ z, Run fsStep ⟨noFiles, fun _ => Fd.zero⟩ creatTwo z
      ∧ (EveryState fsStep ⟨noFiles, fun _ => Fd.zero⟩ creatTwo (fun t => t.fs.DistinctInodes)
        ∧ EveryStep fsStep ⟨noFiles, fun _ => Fd.zero⟩ creatTwo KeepsOtherFiles →
      EveryStep fsStep ⟨noFiles, fun _ => Fd.zero⟩ creatTwo FreshInode
        ∧ EveryStep fsStep ⟨noFiles, fun _ => Fd.zero⟩ creatTwo CopiesToOwn) := by
  have hsome : (creatTwo.foldlM fsStep ⟨noFiles, fun _ => Fd.zero⟩).isSome := by decide +kernel
  obtain ⟨z, hrun⟩ := exists_run_of_isSome hsome
  refine ⟨z, hrun, (inodeOwnership_iff noFiles_distinctInodes hrun).2 ?_⟩
  have hshort : 1 < DENTRY_SIZE := by decide
  intro e he
  simp only [creatTwo, List.mem_cons, List.not_mem_nil, or_false] at he
  rcases he with rfl | rfl
  · exact hshort
  · exact hshort

/-- Both files get inode `1`, whose length is still zero when the second one is made. -/
theorem creatTwo_shareInode :
    noFiles.DistinctInodes ∧ ∃ z, Run fsStep ⟨noFiles, fun _ => Fd.zero⟩ creatTwo z
      ∧ ¬ z.fs.DistinctInodes := by
  refine ⟨noFiles_distinctInodes, ?_⟩
  have hshare : (creatTwo.foldlM fsStep ⟨noFiles, fun _ => Fd.zero⟩).any (fun z =>
      decide ((z.fs.dentries 0).regular ∧ (z.fs.dentries 1).regular
        ∧ z.fs.ino 0 = z.fs.ino 1)) = true := by decide +kernel
  obtain ⟨z, hz, hshared⟩ := (Option.any_eq_true _ _).mp hshare
  obtain ⟨h0, h1, hino⟩ := of_decide_eq_true hshared
  refine ⟨z, run_iff_foldlM.mpr hz, fun h => ?_⟩
  exact absurd (h 0 1 ⟨by decide, h0⟩ ⟨by decide, h1⟩ hino) (by decide)

end CustomLinuxOs
