import CustomLinuxOs.Foundations.Run
import CustomLinuxOs.Filesystem.Directory

/-!
The data blocks of the files in the directory.

* `Fs.OwnsBlocks`: no block is twice in a file or in two files, and the blocks of files are marked
  in the bitmap.
* `ClearsOwn`: a call clears no mark of a block of another file.
* `filesystemInit_ownsBlocks_iff`: after `filesystem_init` of a well-formed image all blocks are
  marked exactly when no file has a last block that is not full.
* `ReleasesOwn`: what a call is to meet to keep the blocks of the files apart and marked.
* `blockOwnership`: runs whose calls all meet it.
* `fileWrite_breaksOwnership`: writing anything to a file of the directory does not.
-/

namespace CustomLinuxOs

/-- The file at index `i` has block `b`. -/
def Fs.fileHasBlock (fs : Fs) (i b : ℕ) : Prop :=
  let node := fs.inodes (fs.ino i)
  node.hasBlock (numBlocks node.length.toNat) b

/-- No block is twice in the file at an index. -/
def Fs.BlocksDistinct (fs : Fs) (i : ℕ) : Prop :=
  let node := fs.inodes (fs.ino i)
  ∀ a < numBlocks node.length.toNat, ∀ b < numBlocks node.length.toNat,
    node.dataBlocks a = node.dataBlocks b → a = b

/-- Each block of a file belongs to it alone, and is marked as in use. -/
structure Fs.OwnsBlocks (fs : Fs) : Prop where
  within : ∀ i, fs.live i → fs.BlocksDistinct i
  across : ∀ i j, fs.live i → fs.live j → i ≠ j → ∀ b, fs.fileHasBlock i b → ¬ fs.fileHasBlock j b
  marked : ∀ i, fs.live i → ∀ b, fs.fileHasBlock i b → fs.dataBlockBitmap b ≠ 0

/-- An image in which each block in use belongs to one file, and the entries of files are counted.
An entry that is not that of a regular file may have the inode of one. -/
structure Fs.WellFormed (image : Fs) : Prop where
  within : ∀ i, image.live i → image.BlocksDistinct i
  across : ∀ i, image.live i → ∀ k < image.numDirEntries.toNat, k ≠ i →
    image.live k ∨ image.ino k ≠ image.ino i →
    ∀ b, image.fileHasBlock i b → ¬ image.fileHasBlock k b
  listed : ∀ i, image.live i → i < image.numDirEntries.toNat

/-- No file has a last block that is not full. -/
def Fs.WholeBlocks (fs : Fs) : Prop :=
  ∀ i, fs.live i → (fs.inodes (fs.ino i)).length.toNat % BLOCK_SIZE = 0

/-! ### The image -/

/-- The marks of one file. -/
lemma markBlocks_ne_zero_iff (node : Inode) (bitmap : ℕ → UInt8) (b : ℕ) :
    markBlocks node bitmap b ≠ 0
      ↔ node.hasBlock (node.length.toNat / BLOCK_SIZE) b ∨ bitmap b ≠ 0 := by
  rw [markBlocks]
  generalize node.length.toNat / BLOCK_SIZE = count
  induction count with
  | zero =>
      constructor
      · exact Or.inr
      · rintro (⟨k, hk, -⟩ | h)
        · exact absurd hk (Nat.not_lt_zero k)
        · exact h
  | succ count ih =>
      rw [List.range_succ, List.foldl_append, List.foldl_cons, List.foldl_nil]
      by_cases hb : b = (node.dataBlocks count).toNat
      · rw [hb, Function.update_self]
        exact iff_of_true (by decide) (Or.inl ⟨count, Nat.lt_succ_self count, rfl⟩)
      · rw [Function.update_of_ne hb, ih]
        refine or_congr ⟨fun ⟨k, hk, hkb⟩ => ⟨k, Nat.lt_succ_of_lt hk, hkb⟩, ?_⟩ Iff.rfl
        rintro ⟨k, hk, hkb⟩
        have hne : k ≠ count := fun h => hb (h ▸ hkb).symm
        exact ⟨k, by omega, hkb⟩

/-- The marks of `filesystem_init`: the whole blocks of the entries that are counted. -/
lemma filesystemInit_ne_zero_iff (image : Fs) (b : ℕ) :
    (filesystemInit image).dataBlockBitmap b ≠ 0
      ↔ ∃ i < image.numDirEntries.toNat, let node := image.inodes (image.ino i)
          node.hasBlock (node.length.toNat / BLOCK_SIZE) b := by
  have hmarks (n : ℕ) : (List.range n).foldl (fun bitmap i =>
        markBlocks (image.inodes (image.ino i)) bitmap) (fun _ => 0) b ≠ 0
      ↔ ∃ i < n, let node := image.inodes (image.ino i)
          node.hasBlock (node.length.toNat / BLOCK_SIZE) b := by
    induction n with
    | zero => simp
    | succ n ih =>
        rw [List.range_succ, List.foldl_append, List.foldl_cons, List.foldl_nil,
          markBlocks_ne_zero_iff, ih]
        constructor
        · rintro (h | ⟨i, hi, h⟩)
          · exact ⟨n, Nat.lt_succ_self n, h⟩
          · exact ⟨i, Nat.lt_succ_of_lt hi, h⟩
        · rintro ⟨i, hi, h⟩
          rcases Nat.lt_succ_iff_lt_or_eq.mp hi with hin | rfl
          · exact Or.inr ⟨i, hin, h⟩
          · exact Or.inl h
  exact hmarks image.numDirEntries.toNat

/-- **`filesystem_init`** marks all blocks of the files exactly when none has a last block that is
not full. -/
theorem filesystemInit_ownsBlocks_iff {image : Fs} (hw : image.WellFormed) :
    (filesystemInit image).OwnsBlocks ↔ image.WholeBlocks := by
  have hblocks (n : ℕ) := numBlocks_cases n
  have hsize : BLOCK_SIZE = 4096 := rfl
  constructor
  · intro h i hi
    by_contra hrest
    set node := image.inodes (image.ino i) with hnode
    set n := node.length.toNat with hn
    have hcount : numBlocks n = n / BLOCK_SIZE + 1 := by rw [numBlocks, if_neg hrest]
    -- the last block of the file is not marked
    have hlast : image.fileHasBlock i (node.dataBlocks (n / BLOCK_SIZE)).toNat :=
      ⟨n / BLOCK_SIZE, by rw [← hnode, ← hn, hcount]; exact Nat.lt_succ_self _, rfl⟩
    obtain ⟨k, hk, a, ha, hab⟩ :=
      (filesystemInit_ne_zero_iff image _).mp (h.marked i hi _ hlast)
    have hle (m : ℕ) : m / BLOCK_SIZE ≤ numBlocks m := Nat.le_add_right _ _
    by_cases hki : image.ino k = image.ino i
    · rw [hki] at ha hab
      have heq := hw.within i hi a (ha.trans_le (hle _)) (n / BLOCK_SIZE)
        (by rw [← hnode, ← hn, hcount]; exact Nat.lt_succ_self _) (UInt32.toNat_inj.mp hab)
      exact absurd ha (by rw [← hnode, ← hn, heq]; exact lt_irrefl _)
    · exact hw.across i hi k hk (fun h => hki (congrArg image.ino h)) (Or.inr hki) _ hlast
        ⟨a, ha.trans_le (hle _), hab⟩
  · intro hwhole
    refine ⟨hw.within, fun i j hi hj hij => ?_, fun i hi b hb => ?_⟩
    · exact hw.across i hi j (hw.listed j hj) (Ne.symm hij) (Or.inl hj)
    · obtain ⟨a, ha, hab⟩ := hb
      have hcount : numBlocks (image.inodes (image.ino i)).length.toNat
          = (image.inodes (image.ino i)).length.toNat / BLOCK_SIZE := by
        rw [numBlocks, if_pos (hwhole i hi), Nat.add_zero]
      exact (filesystemInit_ne_zero_iff image b).mpr
        ⟨i, hw.listed i hi, a, hcount ▸ ha, hab⟩

/-! ### The calls -/

/-- The blocks a call releases. -/
def FsEvent.releases (s : Mounted) (b : ℕ) : FsEvent → Prop
  | .write fd _ _ =>
      let node := s.fs.inodes (s.fds fd).inodeNum.toNat
      node.length ≠ 0 ∧ node.hasBlock (node.length.toNat / BLOCK_SIZE + 1) b
  | .unlink filename =>
      (readDentryByName s.fs filename).isSome ∧ ∃ i, namedDentry s.fs filename = some i ∧
        let node := s.fs.inodes (s.fs.ino i)
        node.hasBlock (node.length.toNat / BLOCK_SIZE + 1) b
  | _ => False

/-- A call clears no mark of a block of another file. -/
def ClearsOwn (s : Mounted) (e : FsEvent) : Prop :=
  ∀ u, fsStep s e = some u → ∀ i, s.fs.live i → e.target s ≠ some (s.fs.ino i) →
    ∀ b, s.fs.fileHasBlock i b → s.fs.dataBlockBitmap b ≠ 0 → u.fs.dataBlockBitmap b ≠ 0

/-- The blocks a call releases are those of no other file. -/
def ReleasesOwn (s : Mounted) (e : FsEvent) : Prop :=
  ∀ i, s.fs.live i → e.target s ≠ some (s.fs.ino i) → ∀ b, s.fs.fileHasBlock i b →
    ¬ e.releases s b

/-- A call gives no blocks to a file of the directory: a new name fits its entry, and its inode
has length zero, and what `file_write` writes to is empty afterwards or has no name. -/
def GivesNoBlocks (s : Mounted) : FsEvent → Prop
  | .creat _ filename => s.fs.MakesEntry filename →
      filename.length < DENTRY_SIZE ∧ (s.fs.inodes (freeInode s.fs)).length = 0
  | .write fd buf _ => buf = [] ∨ ∀ i, s.fs.live i → s.fs.ino i ≠ (s.fds fd).inodeNum.toNat
  | _ => True

/-- `file_write` gives a free block to a file of the directory. -/
def GivesFreeBlock (s : Mounted) : FsEvent → Prop
  | .write fd buf stale =>
      buf ≠ [] ∧ (∃ i, s.fs.live i ∧ s.fs.ino i = (s.fds fd).inodeNum.toNat)
        ∧ 1 ≤ passesLet s.fs s.fds fd stale ∧ writtenBlock s.fs s.fds fd < NUM_DATA_BLOCK_ADDR
  | _ => False

section Steps

variable {s u : Mounted}

/-- The bitmap after a call. -/
lemma fsStep_bitmap {e : FsEvent} (hu : fsStep s e = some u) (b : ℕ) :
    (e.releases s b → u.fs.dataBlockBitmap b = 0)
      ∧ (¬ e.releases s b → u.fs.dataBlockBitmap b = s.fs.dataBlockBitmap b) := by
  cases e with
  | «open» counter filename =>
      obtain rfl := Option.some.inj hu
      exact ⟨False.elim, fun _ => rfl⟩
  | close fd =>
      obtain rfl := Option.some.inj hu
      exact ⟨False.elim, fun _ => rfl⟩
  | creat counter filename =>
      obtain rfl := Option.some.inj hu
      obtain ⟨dentries, heq⟩ := creat_frame counter s.fs s.fds filename
      rw [heq]
      exact ⟨False.elim, fun _ => rfl⟩
  | write fd buf stale =>
      obtain ⟨-, rfl⟩ := fsStep_write hu
      simp only [fileWrite_eq, FsEvent.releases, bitmapReleased]
      set node := s.fs.inodes (s.fds fd).inodeNum.toNat with hnode
      have hcount : (node.length / 4096 + 1).toNat = node.length.toNat / BLOCK_SIZE + 1 := by
        have hlt := node.length.toNat_lt
        rw [UInt32.toNat_add, UInt32.toNat_div, BLOCK_SIZE]
        exact Nat.mod_eq_of_lt (by simp; omega)
      by_cases hempty : node.length = 0
      · rw [if_neg (not_not.mpr hempty)]
        exact ⟨fun h => absurd hempty h.1, fun _ => rfl⟩
      · rw [if_pos hempty, hcount]
        have hrelease := releaseBlocks_apply node (node.length.toNat / BLOCK_SIZE + 1)
          s.fs.dataBlockBitmap b
        exact ⟨fun h => hrelease.1 h.2, fun h => hrelease.2 fun hb => h ⟨hempty, hb⟩⟩
  | unlink filename =>
      obtain ⟨r, hr, rfl⟩ := Option.map_eq_some_iff.mp hu
      rcases unlink_cases hr with ⟨hnone, heq⟩ | ⟨hsome, heq⟩
      · rw [heq]
        refine ⟨fun h => ?_, fun _ => rfl⟩
        rw [FsEvent.releases, hnone] at h
        exact absurd h.1 (by simp)
      · obtain ⟨i, j, hi, ⟨-, -, hbitmap⟩, -, -⟩ := removeDentry_cases heq
        have hrelease := releaseBlocks_apply (s.fs.inodes (s.fs.ino i))
          ((s.fs.inodes (s.fs.ino i)).length.toNat / BLOCK_SIZE + 1) s.fs.dataBlockBitmap b
        simp only [hbitmap]
        constructor
        · rintro ⟨-, i', hi', hb⟩
          obtain rfl : i = i' := Option.some.inj (hi.symm.trans hi')
          exact hrelease.1 hb
        · exact fun h => hrelease.2 fun hb => h ⟨hsome, i, hi, hb⟩

/-- **A call** clears no mark of another file exactly when it releases no block of one. -/
lemma clearsOwn_iff {e : FsEvent} (hs : s.fs.OwnsBlocks) (hu : fsStep s e = some u) :
    ClearsOwn s e ↔ ReleasesOwn s e := by
  constructor
  · intro h i hi htarget b hb hrelease
    exact h u hu i hi htarget b hb (hs.marked i hi b hb) ((fsStep_bitmap hu b).1 hrelease)
  · intro h v hv i hi htarget b hb hmark
    rw [(fsStep_bitmap hv b).2 (h i hi htarget b hb)]
    exact hmark

/-- Files without blocks, and files that have kept their blocks, own them. -/
lemma Fs.OwnsBlocks.of_origin {fs fs' : Fs} (h : fs.OwnsBlocks) (f : ℕ → ℕ)
    (hlive : ∀ k, fs'.live k → (fs'.inodes (fs'.ino k)).length = 0
      ∨ fs.live (f k) ∧ fs'.inodes (fs'.ino k) = fs.inodes (fs.ino (f k))
        ∧ ∀ b, fs.fileHasBlock (f k) b → fs'.dataBlockBitmap b = fs.dataBlockBitmap b)
    (hinj : ∀ k l, fs'.live k → fs'.live l → f k = f l → k = l) : fs'.OwnsBlocks := by
  have hnone {k b : ℕ} (hk : (fs'.inodes (fs'.ino k)).length = 0) : ¬ fs'.fileHasBlock k b := by
    rintro ⟨a, ha, -⟩
    rw [hk] at ha
    exact Nat.not_lt_zero a ha
  refine ⟨fun k hk => ?_, fun k l hk hl hkl b hb hb' => ?_, fun k hk b hb => ?_⟩
  · rcases hlive k hk with hempty | ⟨hfk, hnode, -⟩
    · intro a ha
      rw [hempty] at ha
      exact absurd ha (Nat.not_lt_zero a)
    · rw [Fs.BlocksDistinct, hnode]
      exact h.within _ hfk
  · rcases hlive k hk with hempty | ⟨hfk, hnode, -⟩
    · exact hnone hempty hb
    · rcases hlive l hl with hempty | ⟨hfl, hnode', -⟩
      · exact hnone hempty hb'
      · rw [Fs.fileHasBlock, hnode] at hb
        rw [Fs.fileHasBlock, hnode'] at hb'
        exact h.across _ _ hfk hfl (fun hf => hkl (hinj k l hk hl hf)) b hb hb'
  · rcases hlive k hk with hempty | ⟨hfk, hnode, hmark⟩
    · exact absurd hb (hnone hempty)
    · rw [Fs.fileHasBlock, hnode] at hb
      rw [hmark b hb]
      exact h.marked _ hfk b hb

/-- **A call** that releases blocks of its own and gives none keeps the ownership of blocks. -/
lemma fsStep_ownsBlocks {e : FsEvent} (hs : s.fs.OwnsBlocks) (hrelease : ReleasesOwn s e)
    (hgive : GivesNoBlocks s e) (hu : fsStep s e = some u) : u.fs.OwnsBlocks := by
  have hmark {i : ℕ} (hi : s.fs.live i) (htarget : e.target s ≠ some (s.fs.ino i)) (b : ℕ)
      (hb : s.fs.fileHasBlock i b) : u.fs.dataBlockBitmap b = s.fs.dataBlockBitmap b :=
    (fsStep_bitmap hu b).2 (hrelease i hi htarget b hb)
  cases e with
  | «open» counter filename =>
      obtain rfl := Option.some.inj hu
      exact hs
  | close fd =>
      obtain rfl := Option.some.inj hu
      exact hs
  | creat counter filename =>
      obtain rfl := Option.some.inj hu
      rcases creat_cases counter s.fs s.fds fun h => (hgive h).1 with
        ⟨-, dentries, heq, hsame⟩ | ⟨hmakes, i, d, -, -, heq, -, hino⟩
      · simp only [heq]
        refine hs.of_origin id (fun k hk => Or.inr ?_) fun k l _ _ h => h
        have hdentry := hsame k hk.2
        refine ⟨⟨hk.1, hdentry ▸ hk.2⟩, ?_, fun _ _ => rfl⟩
        simp only [Fs.ino, hdentry, id_eq]
      · simp only [heq]
        refine hs.of_origin id (fun k hk => ?_) fun k l _ _ h => h
        by_cases hki : k = i
        · -- the new name
          have hempty := (hgive hmakes).2
          rw [← hino] at hempty
          simp only [Fs.ino, hki, Function.update_self]
          exact Or.inl hempty
        · have hdentry : Function.update s.fs.dentries i d k = s.fs.dentries k :=
            Function.update_of_ne hki _ _
          refine Or.inr ⟨⟨hk.1, hdentry ▸ hk.2⟩, ?_, fun _ _ => rfl⟩
          simp only [Fs.ino, hdentry, id_eq]
  | write fd buf stale =>
      obtain ⟨-, rfl⟩ := fsStep_write hu
      have hino (k : ℕ) : (fileWrite s.fs s.fds fd buf buf.length.toUInt32 stale).2.ino k
          = s.fs.ino k := by
        simp only [fileWrite_eq]
        rfl
      have hlive {k : ℕ} (hk : (fileWrite s.fs s.fds fd buf buf.length.toUInt32 stale).2.live k) :
          s.fs.live k := by
        simp only [fileWrite_eq] at hk
        exact hk
      refine hs.of_origin id (fun k hk => ?_) fun k l _ _ h => h
      rw [hino]
      by_cases hk' : s.fs.ino k = (s.fds fd).inodeNum.toNat
      · -- the file that is written is empty
        rcases hgive with rfl | hunnamed
        · left
          simp only [fileWrite_eq, hk', Function.update_self]
          rfl
        · exact absurd hk' (hunnamed k (hlive hk))
      · refine Or.inr ⟨hlive hk, ?_, hmark (hlive hk) ?_⟩
        · simp only [fileWrite_eq, Function.update_of_ne hk', id_eq]
        · exact fun h => hk' (Option.some.inj h).symm
  | unlink filename =>
      obtain ⟨r, hr, rfl⟩ := Option.map_eq_some_iff.mp hu
      rcases unlink_cases hr with ⟨-, heq⟩ | ⟨-, heq⟩
      · simp only [heq]
        exact hs
      · obtain ⟨i, j, hi, ⟨hinodes, -, -⟩, horigin, hinj⟩ := removeDentry_cases heq
        refine hs.of_origin (movedFrom i j) (fun k hk => ?_) hinj
        obtain ⟨hlive, -, hdentry⟩ := horigin k hk
        have hino : r.2.ino k = s.fs.ino (movedFrom i j k) := by rw [Fs.ino, Fs.ino, hdentry]
        simp only [hino, hinodes]
        by_cases hk' : s.fs.ino (movedFrom i j k) = s.fs.ino i
        · left
          rw [clearFile_inodes, hk', Function.update_self]
        · refine Or.inr ⟨hlive, Function.update_of_ne hk' _ _, hmark hlive ?_⟩
          rw [FsEvent.target, hi]
          exact fun h => hk' (Option.some.inj h).symm

/-- **Writing** anything to a file of the directory gives it a block that is not marked. -/
lemma fileWrite_breaksOwnership {e : FsEvent} (hgive : GivesFreeBlock s e)
    (hu : fsStep s e = some u) : ¬ u.fs.OwnsBlocks := by
  cases e with
  | write fd buf stale =>
      obtain ⟨hopen, rfl⟩ := fsStep_write hu
      obtain ⟨hne, ⟨i, hi, hino⟩, hlet, hfree⟩ := hgive
      have hn : buf.length.toUInt32.toNat = buf.length := Nat.mod_eq_of_lt hopen.2.2
      have hblocks : 0 < numBlocks buf.length := numBlocks_pos (List.length_pos_of_ne_nil hne)
      have hj : (writtenBlock s.fs s.fds fd).toUInt32.toNat = writtenBlock s.fs s.fds fd :=
        freeBlock_toUInt32 _
      have hmin : 0 < min (passesLet s.fs s.fds fd stale) (passesFor buf.length) :=
        lt_min hlet (Nat.succ_pos _)
      simp only [fileWrite_eq, hn]
      intro h
      refine h.marked i hi (writtenBlock s.fs s.fds fd) ⟨0, ?_, ?_⟩ (bitmap_freeBlock hfree)
      · rw [← hino]
        simp only [Fs.ino, Function.update_self, hn]
        exact hblocks
      · rw [← hino]
        simp only [Fs.ino, Function.update_self, if_pos hmin]
        exact hj
  | _ => exact hgive.elim

end Steps

/-! ### Runs -/

/-- **Block ownership.**  Load a well-formed image without last blocks that are not full.  If no
call of a run releases a block of another file or gives blocks to a file of the directory, each
block of a file belongs to it alone and is marked in all states, and no call clears a mark of
another file.  Without the first two conditions this fails, and it fails when `file_write` gives
a free block to a file of the directory. -/
theorem blockOwnership {image : Fs} {fds : FdTable} {es : List FsEvent} {z : Mounted}
    (hw : image.WellFormed) (hrun : Run fsStep ⟨filesystemInit image, fds⟩ es z) :
    (image.WholeBlocks ∧ EveryStep fsStep ⟨filesystemInit image, fds⟩ es ReleasesOwn
        ∧ EveryStep fsStep ⟨filesystemInit image, fds⟩ es GivesNoBlocks →
      EveryState fsStep ⟨filesystemInit image, fds⟩ es (fun t => t.fs.OwnsBlocks)
        ∧ EveryStep fsStep ⟨filesystemInit image, fds⟩ es ClearsOwn)
    ∧ (EveryState fsStep ⟨filesystemInit image, fds⟩ es (fun t => t.fs.OwnsBlocks)
        ∧ EveryStep fsStep ⟨filesystemInit image, fds⟩ es ClearsOwn →
      image.WholeBlocks ∧ EveryStep fsStep ⟨filesystemInit image, fds⟩ es ReleasesOwn
        ∧ EveryStep fsStep ⟨filesystemInit image, fds⟩ es fun t e => ¬ GivesFreeBlock t e) := by
  constructor
  · rintro ⟨hwhole, hrelease, hgive⟩
    have hinit := (filesystemInit_ownsBlocks_iff hw).mpr hwhole
    have hboth : EveryStep fsStep ⟨filesystemInit image, fds⟩ es
        fun t e => ReleasesOwn t e ∧ GivesNoBlocks t e :=
      fun pre e post t hes ht => ⟨hrelease pre e post t hes ht, hgive pre e post t hes ht⟩
    have howns := hboth.everyState hinit fun t e u ht he hu => fsStep_ownsBlocks ht he.1 he.2 hu
    refine ⟨howns, fun pre e post t hes ht => ?_⟩
    obtain ⟨u, hu⟩ := Run.enabled (hes ▸ hrun) ht
    exact (clearsOwn_iff (howns pre (e :: post) t hes ht) hu).mpr (hrelease pre e post t hes ht)
  · rintro ⟨howns, hclears⟩
    refine ⟨(filesystemInit_ownsBlocks_iff hw).mp (howns [] es _ rfl Run.nil), ?_, ?_⟩
    · intro pre e post t hes ht
      obtain ⟨u, hu⟩ := Run.enabled (hes ▸ hrun) ht
      exact (clearsOwn_iff (howns pre (e :: post) t hes ht) hu).mp (hclears pre e post t hes ht)
    · intro pre e post t hes ht hgive
      obtain ⟨u, hu⟩ := Run.enabled (hes ▸ hrun) ht
      have hu' := howns (pre ++ [e]) post u (by rw [hes, List.append_assoc]; rfl) (ht.snoc hu)
      exact fileWrite_breaksOwnership hgive hu hu'

/-- The image with one file of at most one block is well-formed. -/
lemma oneFile_wellFormed {n : UInt32} (hn : n.toNat ≤ BLOCK_SIZE) : (oneFile n).WellFormed := by
  have hlive {i : ℕ} (hi : (oneFile n).live i) : i = 0 := by
    by_contra hne
    have hreg := hi.2.2
    simp [oneFile, hne, FILE_TYPE_REGULAR] at hreg
  have hblocks : numBlocks n.toNat ≤ 1 := by
    rw [numBlocks, BLOCK_SIZE] at *
    split <;> omega
  refine ⟨fun i _ a ha b hb _ => ?_, fun i hi k hk hki _ => ?_, fun i hi => ?_⟩
  · have ha' : a < 1 := Nat.lt_of_lt_of_le ha hblocks
    have hb' : b < 1 := Nat.lt_of_lt_of_le hb hblocks
    omega
  · have hk' : k < 1 := hk
    rw [hlive hi] at hki
    omega
  · rw [hlive hi]
    exact Nat.one_pos

/-- A second file is made on the image with one file of one block. -/
theorem blockOwnership_creat :
    let s : Mounted := ⟨filesystemInit (oneFile 4096), fun _ => Fd.zero⟩
    let es := [FsEvent.creat 0 nameB]
    ∃ z, Run fsStep s es z ∧ EveryState fsStep s es (fun t => t.fs.OwnsBlocks)
      ∧ EveryStep fsStep s es ClearsOwn := by
  intro s es
  obtain ⟨z, hrun⟩ := exists_run_of_isSome (show (es.foldlM fsStep s).isSome = true from rfl)
  have hlast {C : Mounted → FsEvent → Prop} (h : C s (.creat 0 nameB)) :
      EveryStep fsStep s es C :=
    (everyStep_snoc (e := FsEvent.creat 0 nameB) Run.nil).mpr ⟨everyStep_nil, h⟩
  refine ⟨z, hrun, (blockOwnership (oneFile_wellFormed le_rfl) hrun).1 ⟨?_, hlast ?_, hlast ?_⟩⟩
  · intro i _
    simp [oneFile, Fs.ino, BLOCK_SIZE]
  · exact fun _ _ _ _ _ h => h
  · exact fun _ => by decide

/-- The only block of a file of one byte is not marked by `filesystem_init`. -/
theorem filesystemInit_oneByte :
    (oneFile 1).WellFormed ∧ ¬ (filesystemInit (oneFile 1)).OwnsBlocks := by
  refine ⟨oneFile_wellFormed (by decide), fun h => ?_⟩
  exact h.marked 0 ⟨by decide, by decide⟩ 15 ⟨0, by decide, rfl⟩ (by decide)

end CustomLinuxOs
