import CustomLinuxOs.Foundations.BitField
import CustomLinuxOs.Foundations.CachedMap
import CustomLinuxOs.Foundations.Run
import CustomLinuxOs.Process.Loader

/-!
`paging.c`: the page directory and the two page tables, and how the processor reads them.

* `Pde`, `Pte`, `VirtualAddr`: the fields of the entries and of an address.
* `Paging`, `Paging.pagingInit`, `PagingCall.run`: the tables and the functions that change them,
  each with whether it flushes the TLB.
* `Paging.lookup`, `getPhysicalAddr`: the walk of the processor, and that of the source;
  `getPhysicalAddr_eq`: where they differ.
* `Layout`: the abstract model, a map from virtual to physical pages given by what can change.
* `Lays`, `PagingCall.run_lays`: the tables have a layout, and the functions change it as told.
* `storeAll_pagingInit`: the loader's stores against the tables that `paging_init` leaves.
* `Mmu`, `mmuStep`: the functions and the processor, which caches what it likes.
* `paging_faithful`: no access goes by an outdated entry.
-/

namespace CustomLinuxOs

/-! ### Entries -/

namespace Pde

def present : BitField := ⟨0, 1⟩
def readWritePerm : BitField := ⟨1, 1⟩
def userSuper : BitField := ⟨2, 1⟩
def pageWriteThrough : BitField := ⟨3, 1⟩
def pageCacheDisabled : BitField := ⟨4, 1⟩
def accessed : BitField := ⟨5, 1⟩
def zero : BitField := ⟨6, 1⟩
def dirty : BitField := ⟨6, 1⟩
def pageSize : BitField := ⟨7, 1⟩
def global : BitField := ⟨8, 1⟩
def avail : BitField := ⟨9, 3⟩
def pageTableBaseAddr : BitField := ⟨12, 20⟩
def pageAttrTableIdx : BitField := ⟨12, 1⟩
def reserved : BitField := ⟨13, 9⟩
def pageBaseAddr : BitField := ⟨22, 10⟩

/-- The fields of an entry for a page of 4 MB, as they are set one after another. -/
def fourMbFields (base isGlobal user : ℕ) : List (BitField × ℕ) :=
  [(pageBaseAddr, base), (reserved, 0), (pageAttrTableIdx, 0), (avail, 0), (global, isGlobal),
    (pageSize, 1), (dirty, 0), (accessed, 0), (pageCacheDisabled, 0), (pageWriteThrough, 0),
    (userSuper, user), (readWritePerm, 1), (present, 1)]

/-- The fields of an entry for a page table. -/
def tableFields (base user write : ℕ) : List (BitField × ℕ) :=
  [(pageTableBaseAddr, base), (avail, 0), (global, 0), (pageSize, 0), (zero, 0), (accessed, 0),
    (pageCacheDisabled, 0), (pageWriteThrough, 0), (userSuper, user), (readWritePerm, write),
    (present, 1)]

end Pde

namespace Pte

def present : BitField := ⟨0, 1⟩
def readWritePerm : BitField := ⟨1, 1⟩
def userSuper : BitField := ⟨2, 1⟩
def pageWriteThrough : BitField := ⟨3, 1⟩
def pageCacheDisabled : BitField := ⟨4, 1⟩
def accessed : BitField := ⟨5, 1⟩
def dirty : BitField := ⟨6, 1⟩
def pageAttrTableIdx : BitField := ⟨7, 1⟩
def global : BitField := ⟨8, 1⟩
def avail : BitField := ⟨9, 3⟩
def pageBaseAddr : BitField := ⟨12, 20⟩

/-- The fields of an entry for video memory. -/
def videoFields (base user isPresent : ℕ) : List (BitField × ℕ) :=
  [(pageBaseAddr, base), (avail, 0), (global, 0), (pageAttrTableIdx, 0), (dirty, 0), (accessed, 0),
    (pageCacheDisabled, 1), (pageWriteThrough, 0), (userSuper, user), (readWritePerm, 1),
    (present, isPresent)]

end Pte

namespace VirtualAddr

def offsetFourMb : BitField := ⟨0, 22⟩
def pageDirEntry : BitField := ⟨22, 10⟩
def offsetFourKb : BitField := ⟨0, 12⟩
def pageTableEntry : BitField := ⟨12, 10⟩

end VirtualAddr

/-! ### The tables -/

def VIDMAP_PAGE_TABLE_INDEX : ℕ := 0
def FOUR_KB : ℕ := 0x1000

/-- `VIDEO_MEM_PAGE_INDEX`, a page and an index at once. -/
def VIDEO_PAGE : ℕ := VIDEO_MEM_PAGE_INDEX.toNat

/-- The globals.  The bits for accessed and dirty pages, which the processor sets and nothing reads,
are not modelled. -/
structure Paging where
  pageDirectory : ℕ → BitVec 32
  pageTable0 : ℕ → BitVec 32
  pageTableVidmap : ℕ → BitVec 32
  numVidmaps : ℤ

/-- The physical pages of the two tables, in the 4 MB of the kernel, and what the other pages of
memory hold. -/
structure TablePlaces where
  pageTable0 : ℕ
  pageTableVidmap : ℕ
  elsewhere : ℕ → ℕ → BitVec 32
  distinct : pageTable0 ≠ pageTableVidmap
  kernel0 : pageTable0 < 2048
  kernelVidmap : pageTableVidmap < 2048

/-- Setting fields of an entry. -/
def setEntry (table : ℕ → BitVec 32) (i : ℕ) (fields : List (BitField × ℕ)) : ℕ → BitVec 32 :=
  Function.update table i (BitField.setFields fields (table i))

lemma setEntry_of_ne {i j : ℕ} (h : i ≠ j) (table : ℕ → BitVec 32)
    (fields : List (BitField × ℕ)) : setEntry table j fields i = table i :=
  Function.update_of_ne h _ _

lemma setEntry_apply (table : ℕ → BitVec 32) (i j : ℕ) (fields : List (BitField × ℕ)) :
    setEntry table j fields i = if i = j then BitField.setFields fields (table j) else table i :=
  Function.update_apply _ _ _ _

/-- `paging_init`. -/
def Paging.pagingInit (places : TablePlaces) : Paging where
  pageDirectory :=
    setEntry (setEntry (setEntry (setEntry (fun _ => 0)
      KERNEL_MEM_PAGE_INDEX (Pde.fourMbFields 1 1 0))
      RESERVED_MEM_PAGE_INDEX (Pde.tableFields places.pageTable0 0 0))
      USER_MEM_PAGE_INDEX (Pde.fourMbFields 2 0 1))
      VIDMAP_MEM_PAGE_INDEX (Pde.tableFields places.pageTableVidmap 1 1)
  pageTable0 := setEntry (fun _ => 0) VIDEO_PAGE (Pte.videoFields VIDEO_PAGE 0 1)
  pageTableVidmap := setEntry (fun _ => 0) VIDMAP_PAGE_TABLE_INDEX (Pte.videoFields VIDEO_PAGE 1 0)
  numVidmaps := 0

/-! ### The functions -/

/-- The calls that change the tables. -/
inductive PagingCall where
  | bruteAddPage (addr : BitVec 32)
  | setUserPage (pageNum : ℕ)
  | enableVidmap
  | disableVidmap
  | mapVideoToVideo
  | mapVidmapToVideo
  | mapVideoToBackup (n : ℕ)
  | mapVidmapToBackup (n : ℕ)
  deriving DecidableEq

/-- The first of the pages that screens are kept in. -/
def BACKUP_PAGE : ℕ := 0x2000

namespace Paging

variable (p : Paging)

/-- `page_table0[VIDEO_MEM_PAGE_INDEX].page_base_addr = n`. -/
def setVideo (n : ℕ) : Paging :=
  { p with pageTable0 := setEntry p.pageTable0 VIDEO_PAGE [(Pte.pageBaseAddr, n)] }

/-- `page_table_vidmap[VIDMAP_PAGE_TABLE_INDEX].page_base_addr = n`. -/
def setVidmap (n : ℕ) : Paging :=
  { p with
    pageTableVidmap := setEntry p.pageTableVidmap VIDMAP_PAGE_TABLE_INDEX [(Pte.pageBaseAddr, n)] }

/-- `page_table_vidmap[VIDMAP_PAGE_TABLE_INDEX].present = n`. -/
def setVidmapPresent (n : ℕ) : Paging :=
  { p with
    pageTableVidmap := setEntry p.pageTableVidmap VIDMAP_PAGE_TABLE_INDEX [(Pte.present, n)] }

/-- `brute_add_page`. -/
def bruteAddPage (addr : BitVec 32) : Paging :=
  let idx := addr.toNat / FOUR_MB
  { p with pageDirectory := setEntry p.pageDirectory idx (Pde.fourMbFields idx 1 0) }

/-- `set_user_page`. -/
def setUserPage (pageNum : ℕ) : Paging :=
  { p with
    pageDirectory := setEntry p.pageDirectory USER_MEM_PAGE_INDEX [(Pde.pageBaseAddr, pageNum)] }

/-- `enable_vidmap`, and whether it flushes the TLB. -/
def enableVidmap : Paging × Bool :=
  if p.numVidmaps = 0 then ({ p.setVidmapPresent 1 with numVidmaps := p.numVidmaps + 1 }, true)
  else ({ p with numVidmaps := p.numVidmaps + 1 }, false)

/-- `disable_vidmap`, and whether it flushes the TLB. -/
def disableVidmap : Paging × Bool :=
  if p.numVidmaps - 1 = 0 then
    ({ p.setVidmapPresent 0 with numVidmaps := p.numVidmaps - 1 }, true)
  else ({ p with numVidmaps := p.numVidmaps - 1 }, false)

end Paging

/-- The function of a call, and whether it flushes the TLB. -/
def PagingCall.run (p : Paging) : PagingCall → Paging × Bool
  | .bruteAddPage addr => (p.bruteAddPage addr, true)
  | .setUserPage pageNum => (p.setUserPage pageNum, true)
  | .enableVidmap => p.enableVidmap
  | .disableVidmap => p.disableVidmap
  | .mapVideoToVideo => (p.setVideo VIDEO_PAGE, true)
  | .mapVidmapToVideo => (p.setVidmap VIDEO_PAGE, true)
  | .mapVideoToBackup n => (p.setVideo (BACKUP_PAGE + n), true)
  | .mapVidmapToBackup n => (p.setVidmap (BACKUP_PAGE + n), true)

/-! ### Translation -/

/-- What the processor finds for a page, and keeps in its TLB. -/
structure Translation where
  /-- the physical page -/
  frame : ℕ
  user : Bool
  write : Bool
  /-- kept when the TLB is flushed -/
  isGlobal : Bool
  deriving DecidableEq, Repr

/-- An access in user mode or in the kernel, for reading or for writing. -/
structure Access where
  user : Bool
  write : Bool

/-- The kernel may do anything, since write protection for it is not turned on. -/
def Translation.allows (t : Translation) (a : Access) : Bool :=
  !a.user || (t.user && (!a.write || t.write))

/-- The address for an offset in a page. -/
def Translation.address (t : Translation) (va : BitVec 32) : ℕ :=
  t.frame * FOUR_KB + VirtualAddr.offsetFourKb.get va

/-- The access to an address, given what there is for its page; `none` is a page fault. -/
def resolve (found : Option Translation) (a : Access) (va : BitVec 32) : Option ℕ :=
  (found.filter (·.allows a)).map (·.address va)

/-- The number of a virtual page. -/
abbrev VirtualPage : Type := Fin (2 ^ 20)

/-- The virtual page of an address. -/
def pageOf (va : BitVec 32) : VirtualPage :=
  ⟨va.toNat / FOUR_KB, Nat.div_lt_of_lt_mul va.isLt⟩

/-- A bit of an entry. -/
def flag (f : BitField) (e : BitVec 32) : Bool := f.get e != 0

section Walk

variable (places : TablePlaces) (p : Paging)

/-- The entries in a physical page. -/
def Paging.tableAt (n : ℕ) : ℕ → BitVec 32 :=
  if n = places.pageTable0 then p.pageTable0
  else if n = places.pageTableVidmap then p.pageTableVidmap
  else places.elsewhere n

/-- The walk of the processor. -/
def Paging.lookup (page : ℕ) : Option Translation :=
  let pde := p.pageDirectory (page / 1024)
  if flag Pde.present pde then
    if flag Pde.pageSize pde then
      some ⟨Pde.pageBaseAddr.get pde * 1024 + page % 1024, flag Pde.userSuper pde,
        flag Pde.readWritePerm pde, flag Pde.global pde⟩
    else
      let pte := p.tableAt places (Pde.pageTableBaseAddr.get pde) (page % 1024)
      if flag Pte.present pte then
        some ⟨Pte.pageBaseAddr.get pte, flag Pde.userSuper pde && flag Pte.userSuper pte,
          flag Pde.readWritePerm pde && flag Pte.readWritePerm pte, flag Pte.global pte⟩
      else none
  else none

/-- `get_physical_addr`; `none` where it raises a page fault. -/
def getPhysicalAddr (virtualAddr : BitVec 32) : Option ℕ :=
  let pde := p.pageDirectory (VirtualAddr.pageDirEntry.get virtualAddr)
  if flag Pde.present pde then
    if flag Pde.pageSize pde then
      some (Pde.pageBaseAddr.get pde * FOUR_MB + VirtualAddr.offsetFourMb.get virtualAddr)
    else if Pde.pageTableBaseAddr.get pde ≠ places.pageTable0 then none
    else
      let pte := p.pageTable0 (VirtualAddr.pageTableEntry.get virtualAddr)
      if flag Pte.present pte then
        some (Pte.pageBaseAddr.get pte * FOUR_KB + VirtualAddr.offsetFourKb.get virtualAddr)
      else none
  else none

end Walk

/-! ### The abstract map -/

/-- What can change in the map. -/
structure Layout where
  /-- the block of 4 MB that user memory is mapped to -/
  userBlock : ℕ
  /-- the page that video memory is mapped to for the kernel -/
  video : ℕ
  /-- the page that it is mapped to for programs -/
  vidmap : ℕ
  /-- how often programs have asked for it -/
  vidmaps : ℕ
  /-- the blocks of 4 MB with registers of devices -/
  devices : List ℕ

/-- The map. -/
def Layout.map (l : Layout) (page : ℕ) : Option Translation :=
  if page = VIDEO_PAGE then some ⟨l.video, false, false, false⟩
  else if page = VIDMAP_MEM_PAGE_INDEX * 1024 then
    if l.vidmaps = 0 then none else some ⟨l.vidmap, true, true, false⟩
  else if page / 1024 = USER_MEM_PAGE_INDEX then
    some ⟨l.userBlock * 1024 + page % 1024, true, true, false⟩
  else if page / 1024 = KERNEL_MEM_PAGE_INDEX ∨ page / 1024 ∈ l.devices then
    some ⟨page, false, true, true⟩
  else none

/-- The blocks that `paging_init` uses. -/
def reservedBlocks : List ℕ :=
  [RESERVED_MEM_PAGE_INDEX, KERNEL_MEM_PAGE_INDEX, VIDMAP_MEM_PAGE_INDEX, USER_MEM_PAGE_INDEX]

/-- The map at first. -/
def Layout.init : Layout := ⟨2, VIDEO_PAGE, VIDEO_PAGE, 0, []⟩

/-- What a call does to the map. -/
def Layout.after (l : Layout) : PagingCall → Layout
  | .bruteAddPage addr => { l with devices := addr.toNat / FOUR_MB :: l.devices }
  | .setUserPage pageNum => { l with userBlock := pageNum % 1024 }
  | .enableVidmap => { l with vidmaps := l.vidmaps + 1 }
  | .disableVidmap => { l with vidmaps := l.vidmaps - 1 }
  | .mapVideoToVideo => { l with video := VIDEO_PAGE }
  | .mapVidmapToVideo => { l with vidmap := VIDEO_PAGE }
  | .mapVideoToBackup n => { l with video := BACKUP_PAGE + n }
  | .mapVidmapToBackup n => { l with vidmap := BACKUP_PAGE + n }

/-- What the callers see to: devices do not lie where the kernel and the programs do, screens are
those that there are, and the mapping for programs is given up by those who have it only. -/
def PagingCall.Sound (l : Layout) : PagingCall → Prop
  | .bruteAddPage addr => addr.toNat / FOUR_MB ∉ reservedBlocks
  | .disableVidmap => 0 < l.vidmaps
  | .mapVideoToBackup n => n < MAX_SCREENS
  | .mapVidmapToBackup n => n < MAX_SCREENS
  | _ => True

instance (l : Layout) : (c : PagingCall) → Decidable (c.Sound l)
  | .bruteAddPage addr => inferInstanceAs (Decidable (addr.toNat / FOUR_MB ∉ reservedBlocks))
  | .setUserPage _ => inferInstanceAs (Decidable True)
  | .enableVidmap => inferInstanceAs (Decidable True)
  | .disableVidmap => inferInstanceAs (Decidable (0 < l.vidmaps))
  | .mapVideoToVideo => inferInstanceAs (Decidable True)
  | .mapVidmapToVideo => inferInstanceAs (Decidable True)
  | .mapVideoToBackup n => inferInstanceAs (Decidable (n < MAX_SCREENS))
  | .mapVidmapToBackup n => inferInstanceAs (Decidable (n < MAX_SCREENS))

/-! ### The tables have a layout -/

/-- The entry of the directory for user memory. -/
def userPde (block : ℕ) : BitVec 32 :=
  Pde.pageBaseAddr.set block (BitField.setFields (Pde.fourMbFields 2 0 1) 0)

/-- The entry for video memory. -/
def videoPte (frame : ℕ) : BitVec 32 :=
  Pte.pageBaseAddr.set frame (BitField.setFields (Pte.videoFields VIDEO_PAGE 0 1) 0)

/-- The entry for video memory that programs use. -/
def vidmapPte (frame isPresent : ℕ) : BitVec 32 :=
  Pte.pageBaseAddr.set frame
    (Pte.present.set isPresent (BitField.setFields (Pte.videoFields VIDEO_PAGE 1 0) 0))

/-- The tables have the entries of a layout. -/
structure Paging.Lays (places : TablePlaces) (p : Paging) (l : Layout) : Prop where
  kernel : p.pageDirectory KERNEL_MEM_PAGE_INDEX = BitField.setFields (Pde.fourMbFields 1 1 0) 0
  reserved : p.pageDirectory RESERVED_MEM_PAGE_INDEX
    = BitField.setFields (Pde.tableFields places.pageTable0 0 0) 0
  vidmapDir : p.pageDirectory VIDMAP_MEM_PAGE_INDEX
    = BitField.setFields (Pde.tableFields places.pageTableVidmap 1 1) 0
  user : p.pageDirectory USER_MEM_PAGE_INDEX = userPde l.userBlock
  devices : ∀ i, i ∉ reservedBlocks → p.pageDirectory i
    = if i ∈ l.devices then BitField.setFields (Pde.fourMbFields i 1 0) 0 else 0
  video : ∀ i, p.pageTable0 i = if i = VIDEO_PAGE then videoPte l.video else 0
  vidmap : ∀ i, p.pageTableVidmap i
    = if i = VIDMAP_PAGE_TABLE_INDEX then vidmapPte l.vidmap (if l.vidmaps = 0 then 0 else 1) else 0
  numVidmaps : p.numVidmaps = l.vidmaps
  userFits : l.userBlock < 1024
  videoFits : l.video < 2 ^ 20
  vidmapFits : l.vidmap < 2 ^ 20
  devicesApart : ∀ i ∈ l.devices, i ∉ reservedBlocks

/-! ### Fields of the entries -/

section Fields

variable {f : BitField} {v : ℕ}

lemma get_fourMb {base isGlobal user : ℕ} (hmem : (f, v) ∈ Pde.fourMbFields base isGlobal user)
    (hf : f.low + f.width ≤ 32) (x : BitVec 32) :
    f.get (BitField.setFields (Pde.fourMbFields base isGlobal user) x) = v % 2 ^ f.width := by
  refine BitField.get_setFields ?_ hmem hf x
  change ((Pde.fourMbFields 0 0 0).map Prod.fst).Pairwise BitField.Disjoint
  decide

lemma get_tablePde {base user write : ℕ} (hmem : (f, v) ∈ Pde.tableFields base user write)
    (hf : f.low + f.width ≤ 32) (x : BitVec 32) :
    f.get (BitField.setFields (Pde.tableFields base user write) x) = v % 2 ^ f.width := by
  refine BitField.get_setFields ?_ hmem hf x
  change ((Pde.tableFields 0 0 0).map Prod.fst).Pairwise BitField.Disjoint
  decide

/-- All fields of an entry for a page of 4 MB are set. -/
lemma setFields_fourMb (base isGlobal user : ℕ) (x : BitVec 32) :
    BitField.setFields (Pde.fourMbFields base isGlobal user) x
      = BitField.setFields (Pde.fourMbFields base isGlobal user) 0 := by
  refine BitField.setFields_eq ?_ x 0
  change ∀ i < 32, BitField.Covered ((Pde.fourMbFields 0 0 0).map Prod.fst) i
  decide

end Fields

/-- What the processor finds in an entry for a page of 4 MB. -/
lemma fourMb_flags (base isGlobal user : ℕ) :
    let e := BitField.setFields (Pde.fourMbFields base isGlobal user) (0 : BitVec 32)
    flag Pde.present e = true ∧ flag Pde.pageSize e = true ∧ Pde.pageBaseAddr.get e = base % 1024
      ∧ flag Pde.readWritePerm e = true ∧ flag Pde.userSuper e = (user % 2 != 0)
      ∧ flag Pde.global e = (isGlobal % 2 != 0) := by
  refine ⟨?_, ?_, ?_, ?_, ?_, ?_⟩
  · rw [flag, get_fourMb (v := 1) (by simp [Pde.fourMbFields]) (by decide)]
    rfl
  · rw [flag, get_fourMb (v := 1) (by simp [Pde.fourMbFields]) (by decide)]
    rfl
  · rw [get_fourMb (v := base) (by simp [Pde.fourMbFields]) (by decide)]
    rfl
  · rw [flag, get_fourMb (v := 1) (by simp [Pde.fourMbFields]) (by decide)]
    rfl
  · rw [flag, get_fourMb (v := user) (by simp [Pde.fourMbFields]) (by decide)]
    rfl
  · rw [flag, get_fourMb (v := isGlobal) (by simp [Pde.fourMbFields]) (by decide)]
    rfl

/-- What the processor finds in an entry for a page table. -/
lemma tablePde_flags (base user write : ℕ) :
    let e := BitField.setFields (Pde.tableFields base user write) (0 : BitVec 32)
    flag Pde.present e = true ∧ flag Pde.pageSize e = false
      ∧ Pde.pageTableBaseAddr.get e = base % 2 ^ 20
      ∧ flag Pde.readWritePerm e = (write % 2 != 0) ∧ flag Pde.userSuper e = (user % 2 != 0) := by
  refine ⟨?_, ?_, ?_, ?_, ?_⟩
  · rw [flag, get_tablePde (v := 1) (by simp [Pde.tableFields]) (by decide)]
    rfl
  · rw [flag, get_tablePde (v := 0) (by simp [Pde.tableFields]) (by decide)]
    rfl
  · rw [get_tablePde (v := base) (by simp [Pde.tableFields]) (by decide)]
    rfl
  · rw [flag, get_tablePde (v := write) (by simp [Pde.tableFields]) (by decide)]
    rfl
  · rw [flag, get_tablePde (v := user) (by simp [Pde.tableFields]) (by decide)]
    rfl

/-- A bit of an entry whose base has been set. -/
lemma flag_set {f g : BitField} (h : f.Disjoint g) (hg : g.low + g.width ≤ 32) (v : ℕ)
    (e : BitVec 32) : flag g (f.set v e) = flag g e := by
  rw [flag, flag, BitField.get_set_of_disjoint h hg]

/-- What the processor finds in the entry for user memory. -/
lemma userPde_flags (block : ℕ) :
    flag Pde.present (userPde block) = true ∧ flag Pde.pageSize (userPde block) = true
      ∧ Pde.pageBaseAddr.get (userPde block) = block % 1024
      ∧ flag Pde.readWritePerm (userPde block) = true ∧ flag Pde.userSuper (userPde block) = true
      ∧ flag Pde.global (userPde block) = false := by
  obtain ⟨hpresent, hsize, -, hwrite, huser, hglobal⟩ := fourMb_flags 2 0 1
  refine ⟨?_, ?_, BitField.get_set_self (by decide) block, ?_, ?_, ?_⟩
  all_goals rw [userPde, flag_set (by decide) (by decide)]
  · exact hpresent
  · exact hsize
  · exact hwrite
  · exact huser
  · exact hglobal

/-- What it finds in the entry for video memory. -/
lemma videoPte_flags (frame : ℕ) :
    flag Pte.present (videoPte frame) = true
      ∧ Pte.pageBaseAddr.get (videoPte frame) = frame % 2 ^ 20
      ∧ flag Pte.global (videoPte frame) = false := by
  refine ⟨?_, BitField.get_set_self (by decide) frame, ?_⟩
  all_goals rw [videoPte, flag_set (by decide) (by decide)]
  · decide
  · decide

/-- What it finds in the entry that programs use. -/
lemma vidmapPte_flags (frame isPresent : ℕ) :
    flag Pte.present (vidmapPte frame isPresent) = (isPresent % 2 != 0)
      ∧ Pte.pageBaseAddr.get (vidmapPte frame isPresent) = frame % 2 ^ 20
      ∧ flag Pte.userSuper (vidmapPte frame isPresent) = true
      ∧ flag Pte.readWritePerm (vidmapPte frame isPresent) = true
      ∧ flag Pte.global (vidmapPte frame isPresent) = false := by
  refine ⟨?_, BitField.get_set_self (by decide) frame, ?_, ?_, ?_⟩
  all_goals rw [vidmapPte, flag_set (by decide) (by decide)]
  · rw [flag, BitField.get_set_self (by decide)]
    rfl
  all_goals rw [flag_set (by decide) (by decide)]
  · decide
  · decide
  · decide

/-! ### The walk -/

section Walk

variable {places : TablePlaces} {p : Paging} {l : Layout}

/-- The tables that the directory points to. -/
lemma tableAt_pageTable0 : p.tableAt places (places.pageTable0 % 2 ^ 20) = p.pageTable0 := by
  have hfits := places.kernel0
  rw [Nat.mod_eq_of_lt (by omega), Paging.tableAt, if_pos rfl]

lemma tableAt_pageTableVidmap :
    p.tableAt places (places.pageTableVidmap % 2 ^ 20) = p.pageTableVidmap := by
  have hfits := places.kernelVidmap
  rw [Nat.mod_eq_of_lt (by omega), Paging.tableAt, if_neg places.distinct.symm, if_pos rfl]

/-- The first 4 MB: video memory only. -/
lemma Paging.Lays.lookup_reserved (h : p.Lays places l) {page : ℕ}
    (hdir : page / 1024 = RESERVED_MEM_PAGE_INDEX) : p.lookup places page
      = if page = VIDEO_PAGE then some ⟨l.video, false, false, false⟩ else none := by
  obtain ⟨hpresent, hsize, hbase, hwrite, huser⟩ := tablePde_flags places.pageTable0 0 0
  obtain ⟨hpresent', hbase', hglobal'⟩ := videoPte_flags l.video
  have hindex : page % 1024 = page := by
    rw [RESERVED_MEM_PAGE_INDEX] at hdir
    omega
  rw [Paging.lookup, hdir, h.reserved]
  simp only [hpresent, hsize, hbase, hwrite, huser, tableAt_pageTable0, hindex, h.video, if_true,
    Bool.false_eq_true, if_false]
  by_cases hpage : page = VIDEO_PAGE
  · simp only [hpage, if_true, hpresent', hbase', hglobal', Nat.mod_eq_of_lt h.videoFits]
    rfl
  · simp only [hpage, if_false]
    rfl

/-- The 4 MB with video memory for programs. -/
lemma Paging.Lays.lookup_vidmap (h : p.Lays places l) {page : ℕ}
    (hdir : page / 1024 = VIDMAP_MEM_PAGE_INDEX) : p.lookup places page
      = if page % 1024 = VIDMAP_PAGE_TABLE_INDEX ∧ l.vidmaps ≠ 0 then
          some ⟨l.vidmap, true, true, false⟩
        else none := by
  obtain ⟨hpresent, hsize, hbase, hwrite, huser⟩ := tablePde_flags places.pageTableVidmap 1 1
  obtain ⟨hpresent', hbase', huser', hwrite', hglobal'⟩ :=
    vidmapPte_flags l.vidmap (if l.vidmaps = 0 then 0 else 1)
  rw [Paging.lookup, hdir, h.vidmapDir]
  simp only [hpresent, hsize, hbase, hwrite, huser, tableAt_pageTableVidmap, h.vidmap, if_true,
    Bool.false_eq_true, if_false]
  by_cases hpage : page % 1024 = VIDMAP_PAGE_TABLE_INDEX
  · simp only [hpage, if_true, hpresent', hbase', huser', hwrite', hglobal',
      Nat.mod_eq_of_lt h.vidmapFits]
    by_cases hnone : l.vidmaps = 0
    · simp only [hnone, if_true]
      rfl
    · simp [hnone]
  · simp only [hpage, if_false, false_and]
    rfl

/-- A page of 4 MB. -/
lemma lookup_fourMb {page base isGlobal user : ℕ} (hpde : p.pageDirectory (page / 1024)
      = BitField.setFields (Pde.fourMbFields base isGlobal user) 0) : p.lookup places page
      = some ⟨base % 1024 * 1024 + page % 1024, user % 2 != 0, true, isGlobal % 2 != 0⟩ := by
  obtain ⟨hpresent, hsize, hbase, hwrite, huser, hglobal⟩ := fourMb_flags base isGlobal user
  rw [Paging.lookup, hpde]
  simp only [hpresent, hsize, hbase, hwrite, huser, hglobal, if_true]

/-- User memory. -/
lemma Paging.Lays.lookup_user (h : p.Lays places l) {page : ℕ}
    (hdir : page / 1024 = USER_MEM_PAGE_INDEX) : p.lookup places page
      = some ⟨l.userBlock * 1024 + page % 1024, true, true, false⟩ := by
  obtain ⟨hpresent, hsize, hbase, hwrite, huser, hglobal⟩ := userPde_flags l.userBlock
  rw [Paging.lookup, hdir, h.user]
  simp only [hpresent, hsize, hbase, hwrite, huser, hglobal, if_true, Nat.mod_eq_of_lt h.userFits]

/-- The other blocks are those of devices. -/
lemma Paging.Lays.lookup_device (h : p.Lays places l) {page : ℕ} (hpage : page < 2 ^ 20)
    (hdir : page / 1024 ∉ reservedBlocks) : p.lookup places page
      = if page / 1024 ∈ l.devices then some ⟨page, false, true, true⟩ else none := by
  have hpde := h.devices _ hdir
  by_cases hdevice : page / 1024 ∈ l.devices
  · rw [if_pos hdevice] at hpde
    rw [if_pos hdevice, lookup_fourMb hpde, Nat.mod_eq_of_lt (by omega : page / 1024 < 1024),
      Nat.div_add_mod' page 1024]
    rfl
  · rw [if_neg hdevice] at hpde
    rw [if_neg hdevice, Paging.lookup, hpde]
    rfl

/-- **The walk of the processor** finds what the abstract map has. -/
theorem Paging.Lays.lookup_eq (h : p.Lays places l) {page : ℕ} (hpage : page < 2 ^ 20) :
    p.lookup places page = l.map page := by
  have hvideo : VIDEO_PAGE = 184 := rfl
  have hvidmap : VIDMAP_PAGE_TABLE_INDEX = 0 := rfl
  by_cases hin : page / 1024 ∈ reservedBlocks
  · have hdevice : page / 1024 ∉ l.devices := fun hmem => h.devicesApart _ hmem hin
    rw [reservedBlocks] at hin
    simp only [List.mem_cons, List.not_mem_nil, or_false] at hin
    rcases hin with hdir | hdir | hdir | hdir
    · have hblock : page / 1024 = 0 := hdir
      have hnoUser : page / 1024 ≠ USER_MEM_PAGE_INDEX := by rw [hblock]; decide
      have hnoKernel : page / 1024 ≠ KERNEL_MEM_PAGE_INDEX := by rw [hblock]; decide
      have hnoVidmap : page ≠ VIDMAP_MEM_PAGE_INDEX * 1024 := by rw [VIDMAP_MEM_PAGE_INDEX]; omega
      rw [h.lookup_reserved hdir, Layout.map, if_neg hnoVidmap, if_neg hnoUser,
        if_neg (not_or.mpr ⟨hnoKernel, hdevice⟩)]
    · have hblock : page / 1024 = 1 := hdir
      have hnoVideo : page ≠ VIDEO_PAGE := by omega
      have hnoVidmap : page ≠ VIDMAP_MEM_PAGE_INDEX * 1024 := by rw [VIDMAP_MEM_PAGE_INDEX]; omega
      have hnoUser : page / 1024 ≠ USER_MEM_PAGE_INDEX := by rw [hblock]; decide
      have hframe : 1 % 1024 * 1024 + page % 1024 = page := by omega
      rw [lookup_fourMb (hdir ▸ h.kernel), Layout.map, if_neg hnoVideo, if_neg hnoVidmap,
        if_neg hnoUser, if_pos (Or.inl hdir), hframe]
      rfl
    · have hblock : page / 1024 = 16 := hdir
      have hnoVideo : page ≠ VIDEO_PAGE := by omega
      have hnoUser : page / 1024 ≠ USER_MEM_PAGE_INDEX := by rw [hblock]; decide
      have hnoKernel : page / 1024 ≠ KERNEL_MEM_PAGE_INDEX := by rw [hblock]; decide
      rw [h.lookup_vidmap hdir, Layout.map, if_neg hnoVideo]
      by_cases hfirst : page = VIDMAP_MEM_PAGE_INDEX * 1024
      · have hindex : page % 1024 = VIDMAP_PAGE_TABLE_INDEX := by
          rw [hfirst, Nat.mul_mod_left, hvidmap]
        rw [if_pos hfirst]
        by_cases hnone : l.vidmaps = 0
        · rw [if_pos hnone, if_neg fun hand => hand.2 hnone]
        · rw [if_neg hnone, if_pos ⟨hindex, hnone⟩]
      · have hindex : page % 1024 ≠ VIDMAP_PAGE_TABLE_INDEX := by
          rw [VIDMAP_MEM_PAGE_INDEX] at hfirst
          omega
        rw [if_neg hfirst, if_neg fun hand => hindex hand.1, if_neg hnoUser,
          if_neg (not_or.mpr ⟨hnoKernel, hdevice⟩)]
    · have hblock : page / 1024 = 32 := hdir
      have hnoVideo : page ≠ VIDEO_PAGE := by omega
      have hnoVidmap : page ≠ VIDMAP_MEM_PAGE_INDEX * 1024 := by rw [VIDMAP_MEM_PAGE_INDEX]; omega
      rw [h.lookup_user hdir, Layout.map, if_neg hnoVideo, if_neg hnoVidmap, if_pos hdir]
  · have hother (i : ℕ) (hi : i ∈ reservedBlocks) : page / 1024 ≠ i := fun heq => hin (heq ▸ hi)
    have hnoVideo : page ≠ VIDEO_PAGE := fun heq =>
      hother RESERVED_MEM_PAGE_INDEX (by decide) (by rw [heq]; decide)
    have hnoVidmap : page ≠ VIDMAP_MEM_PAGE_INDEX * 1024 := fun heq =>
      hother VIDMAP_MEM_PAGE_INDEX (by decide) (by rw [heq]; decide)
    rw [h.lookup_device hpage hin, Layout.map, if_neg hnoVideo, if_neg hnoVidmap,
      if_neg (hother USER_MEM_PAGE_INDEX (by decide))]
    simp only [hother KERNEL_MEM_PAGE_INDEX (by decide), false_or]

end Walk

/-! ### The functions on the map -/

section Calls

variable {places : TablePlaces} {p : Paging} {l : Layout}

/-- **`paging_init`.** -/
theorem lays_pagingInit (places : TablePlaces) :
    (Paging.pagingInit places).Lays places Layout.init where
  kernel := rfl
  reserved := rfl
  vidmapDir := rfl
  user := by
    change BitField.setFields (Pde.fourMbFields 2 0 1) 0 = userPde 2
    decide
  devices i hi := by
    simp only [reservedBlocks, List.mem_cons, List.not_mem_nil, or_false, not_or] at hi
    obtain ⟨hreserved, hkernel, hvidmap, huser⟩ := hi
    simp only [Paging.pagingInit, setEntry_of_ne hvidmap, setEntry_of_ne huser,
      setEntry_of_ne hreserved, setEntry_of_ne hkernel]
    rfl
  video i := by
    simp only [Paging.pagingInit, setEntry_apply]
    split
    · decide
    · rfl
  vidmap i := by
    simp only [Paging.pagingInit, setEntry_apply]
    split
    · decide
    · rfl
  numVidmaps := rfl
  userFits := by decide
  videoFits := by decide
  vidmapFits := by decide
  devicesApart := List.forall_mem_nil _

/-- The entries that are present are those that the loader counts on. -/
lemma present_pagingInit (places : TablePlaces) (idx : ℕ) :
    flag Pde.present ((Paging.pagingInit places).pageDirectory idx) = pagingInit idx := by
  have h := lays_pagingInit places
  by_cases hin : idx ∈ reservedBlocks
  · have hpresent : pagingInit idx = true := by
      revert idx
      decide
    rw [hpresent]
    simp only [reservedBlocks, List.mem_cons, List.not_mem_nil, or_false] at hin
    rcases hin with rfl | rfl | rfl | rfl
    · rw [h.reserved, (tablePde_flags _ _ _).1]
    · rw [h.kernel, (fourMb_flags _ _ _).1]
    · rw [h.vidmapDir, (tablePde_flags _ _ _).1]
    · rw [h.user, (userPde_flags _).1]
  · have hentry : (Paging.pagingInit places).pageDirectory idx = 0 := h.devices idx hin
    rw [hentry]
    simp only [reservedBlocks, List.mem_cons, List.not_mem_nil, or_false, not_or] at hin
    simp only [pagingInit, beq_eq_false_iff_ne.mpr hin.1, beq_eq_false_iff_ne.mpr hin.2.1,
      beq_eq_false_iff_ne.mpr hin.2.2.1, beq_eq_false_iff_ne.mpr hin.2.2.2]
    decide

/-- **The stores of the loader** go through if `paging_init` has left a present entry for each of
them. -/
theorem storeAll_pagingInit (places : TablePlaces) (mem : ℕ → UInt8) (stores : List (ℕ × UInt8)) :
    storeAll mem stores
      = if ∀ s ∈ stores,
            flag Pde.present ((Paging.pagingInit places).pageDirectory (s.1 / FOUR_MB)) = true then
          some (applyStores mem stores)
        else none := by
  simp only [present_pagingInit]
  exact storeAll_eq mem stores

/-- Another page for video memory. -/
lemma Paging.Lays.setVideo (h : p.Lays places l) {n : ℕ} (hn : n < 2 ^ 20) :
    (p.setVideo n).Lays places { l with video := n } :=
  { h with
    videoFits := hn
    video := fun i => by
      simp only [Paging.setVideo, setEntry_apply, h.video, if_true]
      split
      · exact BitField.set_set _ _
      · rfl }

/-- Another page for programs. -/
lemma Paging.Lays.setVidmap (h : p.Lays places l) {n : ℕ} (hn : n < 2 ^ 20) :
    (p.setVidmap n).Lays places { l with vidmap := n } :=
  { h with
    vidmapFits := hn
    vidmap := fun i => by
      simp only [Paging.setVidmap, setEntry_apply, h.vidmap, if_true]
      split
      · exact BitField.set_set _ _
      · rfl }

/-- The mapping for programs is turned on or off. -/
lemma Paging.Lays.setVidmapPresent (h : p.Lays places l) {n m : ℕ} {k : ℤ} (hk : k = m)
    (hn : n = if m = 0 then 0 else 1) :
    ({ p.setVidmapPresent n with numVidmaps := k } : Paging).Lays places { l with vidmaps := m } :=
  { h with
    numVidmaps := hk
    vidmap := fun i => by
      simp only [Paging.setVidmapPresent, setEntry_apply, h.vidmap, if_true, ← hn]
      split
      · change Pte.present.set n (vidmapPte l.vidmap _) = vidmapPte l.vidmap n
        rw [vidmapPte, vidmapPte, BitField.set_comm (by decide), BitField.set_set]
      · rfl }

/-- It is counted who has asked for it. -/
lemma Paging.Lays.setNumVidmaps (h : p.Lays places l) {m : ℕ} {k : ℤ} (hk : k = m)
    (hm : m = 0 ↔ l.vidmaps = 0) :
    ({ p with numVidmaps := k } : Paging).Lays places { l with vidmaps := m } :=
  { h with
    numVidmaps := hk
    vidmap := fun i => by
      rw [h.vidmap]
      simp only [hm] }

lemma Paging.setUserPage_of_ne {i : ℕ} (hi : i ≠ USER_MEM_PAGE_INDEX) (p : Paging) (n : ℕ) :
    (p.setUserPage n).pageDirectory i = p.pageDirectory i := setEntry_of_ne hi _ _

/-- Another block for user memory. -/
lemma Paging.Lays.setUserPage (h : p.Lays places l) (n : ℕ) :
    (p.setUserPage n).Lays places { l with userBlock := n % 1024 } where
  kernel := (Paging.setUserPage_of_ne (by decide) _ _).trans h.kernel
  reserved := (Paging.setUserPage_of_ne (by decide) _ _).trans h.reserved
  vidmapDir := (Paging.setUserPage_of_ne (by decide) _ _).trans h.vidmapDir
  user := by
    simp only [Paging.setUserPage, setEntry_apply, if_true, h.user]
    exact (BitField.set_set _ _).trans (BitField.set_mod n).symm
  devices i hi := by
    have hne : i ≠ USER_MEM_PAGE_INDEX := by
      rintro rfl
      exact hi (by decide)
    exact (Paging.setUserPage_of_ne hne _ _).trans (h.devices i hi)
  video := h.video
  vidmap := h.vidmap
  numVidmaps := h.numVidmaps
  userFits := Nat.mod_lt _ (by decide)
  videoFits := h.videoFits
  vidmapFits := h.vidmapFits
  devicesApart := h.devicesApart

/-- A block for a device. -/
lemma Paging.Lays.bruteAddPage (h : p.Lays places l) {addr : BitVec 32}
    (haddr : addr.toNat / FOUR_MB ∉ reservedBlocks) :
    (p.bruteAddPage addr).Lays places { l with devices := addr.toNat / FOUR_MB :: l.devices } := by
  have hapart (i : ℕ) (hi : i ∈ reservedBlocks) : i ≠ addr.toNat / FOUR_MB :=
    fun heq => haddr (heq ▸ hi)
  refine { h with
    kernel := (setEntry_of_ne (hapart _ (by decide)) _ _).trans h.kernel
    reserved := (setEntry_of_ne (hapart _ (by decide)) _ _).trans h.reserved
    vidmapDir := (setEntry_of_ne (hapart _ (by decide)) _ _).trans h.vidmapDir
    user := (setEntry_of_ne (hapart _ (by decide)) _ _).trans h.user
    devices := fun i hi => ?_
    devicesApart := List.forall_mem_cons.mpr ⟨haddr, h.devicesApart⟩ }
  simp only [Paging.bruteAddPage, setEntry_apply, List.mem_cons]
  by_cases heq : i = addr.toNat / FOUR_MB
  · rw [if_pos heq, if_pos (Or.inl heq), setFields_fourMb, heq]
  · rw [if_neg heq, h.devices i hi]
    simp only [heq, false_or]

/-- **The functions** do to the tables what the calls do to the map. -/
theorem PagingCall.run_lays {c : PagingCall} (h : p.Lays places l) (hc : c.Sound l) :
    (c.run p).1.Lays places (l.after c) := by
  cases c with
  | bruteAddPage addr => exact h.bruteAddPage hc
  | setUserPage pageNum => exact h.setUserPage pageNum
  | enableVidmap =>
      rw [PagingCall.run, Paging.enableVidmap, h.numVidmaps]
      split
      · exact h.setVidmapPresent (by push_cast; rfl) (if_neg (Nat.succ_ne_zero _)).symm
      · exact h.setNumVidmaps (by push_cast; rfl) (by omega)
  | disableVidmap =>
      have hpos : 0 < l.vidmaps := hc
      rw [PagingCall.run, Paging.disableVidmap, h.numVidmaps]
      split
      · have hlast : l.vidmaps - 1 = 0 := by omega
        exact h.setVidmapPresent (by omega) (if_pos hlast).symm
      · exact h.setNumVidmaps (by omega) (by omega)
  | mapVideoToVideo => exact h.setVideo (by decide)
  | mapVidmapToVideo => exact h.setVidmap (by decide)
  | mapVideoToBackup n =>
      have hn : (n : ℤ) < 3 := hc
      exact h.setVideo (by rw [BACKUP_PAGE]; omega)
  | mapVidmapToBackup n =>
      have hn : (n : ℤ) < 3 := hc
      exact h.setVidmap (by rw [BACKUP_PAGE]; omega)

end Calls

/-! ### The walk of the source -/

section SoftwareWalk

variable {places : TablePlaces} {p : Paging} {l : Layout}

/-- Reading in the kernel. -/
def kernelRead : Access := ⟨false, false⟩

/-- An address in its page, and in its block of 4 MB. -/
lemma address_split (va : BitVec 32) :
    VirtualAddr.pageDirEntry.get va = (pageOf va).val / 1024
      ∧ VirtualAddr.pageTableEntry.get va = (pageOf va).val % 1024
      ∧ VirtualAddr.offsetFourMb.get va
        = (pageOf va).val % 1024 * FOUR_KB + VirtualAddr.offsetFourKb.get va := by
  have hva := va.isLt
  simp only [BitField.get_eq, VirtualAddr.pageDirEntry, VirtualAddr.pageTableEntry,
    VirtualAddr.offsetFourMb, VirtualAddr.offsetFourKb, pageOf, FOUR_KB]
  omega

/-- The entry is for a page table other than `page_table0`. -/
def OtherTable (places : TablePlaces) (pde : BitVec 32) : Prop :=
  flag Pde.present pde = true ∧ flag Pde.pageSize pde = false
    ∧ Pde.pageTableBaseAddr.get pde ≠ places.pageTable0

instance (places : TablePlaces) (pde : BitVec 32) : Decidable (OtherTable places pde) :=
  inferInstanceAs (Decidable (_ ∧ _ ∧ _))

/-- The two walks differ in such entries. -/
lemma getPhysicalAddr_walk (places : TablePlaces) (p : Paging) (va : BitVec 32) :
    getPhysicalAddr places p va
      = if OtherTable places (p.pageDirectory (VirtualAddr.pageDirEntry.get va)) then none
        else resolve (p.lookup places (pageOf va)) kernelRead va := by
  obtain ⟨hdir, hindex, hoffset⟩ := address_split va
  rw [getPhysicalAddr, Paging.lookup, ← hdir, ← hindex]
  generalize p.pageDirectory (VirtualAddr.pageDirEntry.get va) = pde
  by_cases hpresent : flag Pde.present pde = true
  · by_cases hsize : flag Pde.pageSize pde = true
    · have hsame : ¬ OtherTable places pde := fun hother => by
        rw [hother.2.1] at hsize
        cases hsize
      have haddress : Pde.pageBaseAddr.get pde * FOUR_MB + VirtualAddr.offsetFourMb.get va
          = (Pde.pageBaseAddr.get pde * 1024 + VirtualAddr.pageTableEntry.get va) * FOUR_KB
            + VirtualAddr.offsetFourKb.get va := by
        rw [hoffset, hindex, FOUR_MB, FOUR_KB]
        ring
      simp only [hpresent, hsize, hsame, if_true, if_false]
      exact congrArg some haddress
    · have hsize' := Bool.eq_false_of_not_eq_true hsize
      by_cases hbase : Pde.pageTableBaseAddr.get pde = places.pageTable0
      · have hsame : ¬ OtherTable places pde := fun hother => hother.2.2 hbase
        have htable : p.tableAt places places.pageTable0 = p.pageTable0 := by
          rw [Paging.tableAt, if_pos rfl]
        simp only [hpresent, hsize', hsame, hbase, htable, if_true, if_false, Bool.false_eq_true,
          ne_eq, not_true_eq_false]
        split <;> rfl
      · have hother : OtherTable places pde := ⟨hpresent, hsize', hbase⟩
        simp only [hpresent, hsize', hother, hbase, if_true, if_false, Bool.false_eq_true, ne_eq,
          not_false_eq_true]
  · have hsame : ¬ OtherTable places pde := fun hother => hpresent hother.1
    simp only [hpresent, hsame, if_false]
    rfl

/-- There is one such entry. -/
lemma Paging.Lays.otherTable_iff (h : p.Lays places l) (i : ℕ) :
    OtherTable places (p.pageDirectory i) ↔ i = VIDMAP_MEM_PAGE_INDEX := by
  have hfits := places.kernel0
  have hfits' := places.kernelVidmap
  constructor
  · rintro ⟨hpresent, hsize, hbase⟩
    by_contra hne
    by_cases hin : i ∈ reservedBlocks
    · simp only [reservedBlocks, List.mem_cons, List.not_mem_nil, or_false] at hin
      rcases hin with rfl | rfl | rfl | rfl
      · rw [h.reserved, (tablePde_flags _ _ _).2.2.1, Nat.mod_eq_of_lt (by omega)] at hbase
        exact hbase rfl
      · rw [h.kernel, (fourMb_flags _ _ _).2.1] at hsize
        cases hsize
      · exact hne rfl
      · rw [h.user, (userPde_flags _).2.1] at hsize
        cases hsize
    · have hpde := h.devices i hin
      split at hpde
      · rw [hpde, (fourMb_flags _ _ _).2.1] at hsize
        cases hsize
      · rw [hpde] at hpresent
        exact absurd hpresent (by decide)
  · rintro rfl
    obtain ⟨hpresent, hsize, hbase, -, -⟩ := tablePde_flags places.pageTableVidmap 1 1
    rw [h.vidmapDir]
    refine ⟨hpresent, hsize, ?_⟩
    rw [hbase, Nat.mod_eq_of_lt (by omega)]
    exact places.distinct.symm

/-- **`get_physical_addr`** is the walk of the processor for the kernel, but for the block of 4 MB
with video memory for programs, where it raises a page fault. -/
theorem getPhysicalAddr_eq (h : p.Lays places l) (va : BitVec 32) : getPhysicalAddr places p va
      = if VirtualAddr.pageDirEntry.get va = VIDMAP_MEM_PAGE_INDEX then none
        else resolve (l.map (pageOf va)) kernelRead va := by
  rw [getPhysicalAddr_walk, ← h.lookup_eq (pageOf va).isLt]
  simp only [h.otherTable_iff]

end SoftwareWalk

/-! ### The processor -/

/-- The tables and the TLB, which may hold a page more than once. -/
structure Mmu where
  paging : Paging
  tlb : List (VirtualPage × Translation)

/-- What changes them. -/
inductive MmuEvent where
  | call (c : PagingCall)
  /-- the processor puts a page into the TLB, wanted or not -/
  | fill (page : VirtualPage)
  /-- it drops all entries but those of some pages -/
  | evict (keep : VirtualPage → Bool)

/-- One event. -/
def mmuStep (places : TablePlaces) (s : Mmu) : MmuEvent → Option Mmu
  | .call c =>
      let r := c.run s.paging
      some ⟨r.1, if r.2 then s.tlb.filter fun entry => entry.2.isGlobal else s.tlb⟩
  | .fill page =>
      (s.paging.lookup places page).map fun t => { s with tlb := (page, t) :: s.tlb }
  | .evict keep => some { s with tlb := s.tlb.filter fun entry => keep entry.1 }

/-- What an access leads to: the processor looks into the TLB, and then into the tables. -/
def Mmu.access (places : TablePlaces) (s : Mmu) (a : Access) (va : BitVec 32) : Option ℕ :=
  resolve (cachedLookup (fun page : VirtualPage => s.paging.lookup places page) s.tlb (pageOf va))
    a va

/-- The map after an event, if its call is sound. -/
def layoutStep (l : Layout) : MmuEvent → Option Layout
  | .call c => if c.Sound l then some (l.after c) else none
  | _ => some l

section Mmu

variable {places : TablePlaces} {s u : Mmu} {l m : Layout}

/-- What is left when the TLB is flushed is never changed. -/
lemma Layout.map_global {c : PagingCall} {page : ℕ} {t : Translation} (h : l.map page = some t)
    (ht : t.isGlobal = true) : (l.after c).map page = some t := by
  have hgrows (i : ℕ) (hi : i ∈ l.devices) : i ∈ (l.after c).devices := by
    cases c <;> first | exact hi | exact List.mem_cons_of_mem _ hi
  rw [Layout.map] at h ⊢
  by_cases hvideo : page = VIDEO_PAGE
  · rw [if_pos hvideo] at h
    cases h
    cases ht
  · by_cases hvidmap : page = VIDMAP_MEM_PAGE_INDEX * 1024
    · rw [if_neg hvideo, if_pos hvidmap] at h
      split at h
      · cases h
      · cases h
        cases ht
    · by_cases huser : page / 1024 = USER_MEM_PAGE_INDEX
      · rw [if_neg hvideo, if_neg hvidmap, if_pos huser] at h
        cases h
        cases ht
      · rw [if_neg hvideo, if_neg hvidmap, if_neg huser] at h ⊢
        split at h
        · rename_i hblock
          rw [if_pos (hblock.imp_right (hgrows _)), h]
        · cases h

/-- One program more or less with video memory, where there are others. -/
lemma Layout.map_vidmaps {n : ℕ} (hn : n ≠ 0) (hl : l.vidmaps ≠ 0) :
    ({ l with vidmaps := n } : Layout).map = l.map := by
  funext page
  rw [Layout.map, Layout.map, if_neg hn, if_neg hl]

/-- Calls that do not flush the TLB do not change the map. -/
lemma Layout.map_noFlush {p : Paging} {c : PagingCall} (h : p.Lays places l) (hc : c.Sound l)
    (hflush : (c.run p).2 = false) : (l.after c).map = l.map := by
  cases c with
  | enableVidmap =>
      rw [PagingCall.run, Paging.enableVidmap, h.numVidmaps] at hflush
      split at hflush
      · cases hflush
      · exact Layout.map_vidmaps (Nat.succ_ne_zero _) (by omega)
  | disableVidmap =>
      have hpos : 0 < l.vidmaps := hc
      rw [PagingCall.run, Paging.disableVidmap, h.numVidmaps] at hflush
      split at hflush
      · cases hflush
      · exact Layout.map_vidmaps (by omega) (by omega)
  | bruteAddPage addr => cases hflush
  | setUserPage pageNum => cases hflush
  | mapVideoToVideo => cases hflush
  | mapVidmapToVideo => cases hflush
  | mapVideoToBackup n => cases hflush
  | mapVidmapToBackup n => cases hflush

/-- The tables have the layout, and what is in the TLB is in the map. -/
structure Mmu.Maps (places : TablePlaces) (s : Mmu) (l : Layout) : Prop where
  lays : s.paging.Lays places l
  coherent : Coherent (fun page : VirtualPage => l.map page) s.tlb

/-- **One event.** -/
theorem Mmu.Maps.step {e : MmuEvent} (h : s.Maps places l) (hm : layoutStep l e = some m)
    (hu : mmuStep places s e = some u) : u.Maps places m := by
  cases e with
  | call c =>
      obtain ⟨hc, hm⟩ := Option.ite_none_right_eq_some.mp hm
      obtain rfl := Option.some.inj hm
      obtain rfl := Option.some.inj hu
      refine ⟨PagingCall.run_lays h.lays hc, ?_⟩
      dsimp only
      split
      · exact h.coherent.flush fun page t ht hglobal => Layout.map_global ht hglobal
      · rename_i hflush
        exact h.coherent.extend fun page t ht => by
          rwa [Layout.map_noFlush h.lays hc (Bool.eq_false_of_not_eq_true hflush)]
  | fill page =>
      obtain rfl := Option.some.inj hm
      obtain ⟨t, ht, rfl⟩ := Option.map_eq_some_iff.mp hu
      rw [h.lays.lookup_eq page.isLt] at ht
      exact ⟨h.lays, h.coherent.fill ht⟩
  | evict keep =>
      obtain rfl := Option.some.inj hm
      obtain rfl := Option.some.inj hu
      exact ⟨h.lays, h.coherent.evict (List.filter_subset_self _)⟩

/-- All of a run. -/
theorem Mmu.Maps.run {es : List MmuEvent} (h : s.Maps places l) (hl : Run layoutStep l es m)
    (hs : Run (mmuStep places) s es u) : u.Maps places m := by
  induction hs generalizing m with
  | nil =>
      rw [run_nil_iff.mp hl]
      exact h
  | snoc _ hu ih =>
      obtain ⟨m', hprefix, hm⟩ := run_snoc_iff.mp hl
      exact (ih hprefix).step hm hu

/-- The processor with an empty TLB, after `paging_init`. -/
def Mmu.boot (places : TablePlaces) : Mmu := ⟨Paging.pagingInit places, []⟩

lemma mmuBoot_maps (places : TablePlaces) : (Mmu.boot places).Maps places Layout.init :=
  ⟨lays_pagingInit places, Coherent.nil⟩

/-- An access goes where the map says. -/
lemma Mmu.Maps.access_eq (h : s.Maps places l) (a : Access) (va : BitVec 32) :
    s.access places a va = resolve (l.map (pageOf va)) a va := by
  have hlookup : (fun page : VirtualPage => s.paging.lookup places page)
      = fun page : VirtualPage => l.map page :=
    funext fun page => h.lays.lookup_eq page.isLt
  rw [Mmu.access, hlookup, cachedLookup_eq h.coherent]

/-- **No access goes by an outdated entry.**  Let the functions be called soundly and in any order,
and let the processor put pages into its TLB and drop entries from it at any time.  Then each access
goes where the map says that the calls describe, and so does `get_physical_addr`, but for the 4 MB
with video memory for programs. -/
theorem paging_faithful {es : List MmuEvent} (hl : Run layoutStep Layout.init es l)
    (hs : Run (mmuStep places) (Mmu.boot places) es s) (va : BitVec 32) :
    (∀ a, s.access places a va = resolve (l.map (pageOf va)) a va)
      ∧ getPhysicalAddr places s.paging va
        = if VirtualAddr.pageDirEntry.get va = VIDMAP_MEM_PAGE_INDEX then none
          else resolve (l.map (pageOf va)) kernelRead va :=
  have hmaps := (mmuBoot_maps places).run hl hs
  ⟨fun a => hmaps.access_eq a va, getPhysicalAddr_eq hmaps.lays va⟩

/-- The tables in the first two pages of the kernel. -/
def firstPlaces : TablePlaces := ⟨1024, 1025, fun _ _ => 0, by decide, by decide, by decide⟩

/-- User memory is moved while a page of it is cached, and video memory while it is not. -/
def movedPages : List MmuEvent :=
  [.call (.setUserPage 3), .fill (pageOf 0x8048000), .fill (pageOf 0x400000), .call .enableVidmap,
    .call (.setUserPage 5), .call (.mapVidmapToBackup 2), .fill (pageOf 0x4000000),
    .evict fun page => page != pageOf 0x400000]

/-- User memory is found where it has been moved to. -/
theorem paging_faithful_movedPages : ∃ l s, Run layoutStep Layout.init movedPages l
    ∧ Run (mmuStep firstPlaces) (Mmu.boot firstPlaces) movedPages s
    ∧ s.access firstPlaces ⟨true, true⟩ 0x8048010 = some 0x1448010 := by
  have hmmu : (movedPages.foldlM (mmuStep firstPlaces) (Mmu.boot firstPlaces)).isSome = true := by
    decide +kernel
  have hvalue : (movedPages.foldlM layoutStep Layout.init).map
      (fun l => resolve (l.map (pageOf 0x8048010)) ⟨true, true⟩ 0x8048010)
        = some (some 0x1448010) := by decide +kernel
  obtain ⟨s, hs⟩ := exists_run_of_isSome hmmu
  obtain ⟨l, hl, hfound⟩ := exists_run_of_map hvalue
  exact ⟨l, s, hl, hs, ((paging_faithful hl hs 0x8048010).1 ⟨true, true⟩).trans hfound⟩

end Mmu

end CustomLinuxOs
