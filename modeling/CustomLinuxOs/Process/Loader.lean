import CustomLinuxOs.Filesystem.ReadExact
import CustomLinuxOs.Process.Kernel

/-!
`load_program` of `loader.c`, store by store, in user memory as it is mapped.

* `loadStores`, `loadProgramStores`: the loop, and the stores it makes.
* `pagingInit`, `storeAll`: the page directory, and stores through it; one to an address that is
  not mapped is a page fault.
* `Loads`, `LoadsLikeRead`: `load_program` ends, and leaves what one call of `read_data` gives.
* `loadStores_eq`: the chunks put together are the file up to the end that `read_data` sees.
* `loadProgram_view`: the same for `load_program` in the model of the kernel.
* `loadsLikeRead_iff`: the user page has room for the file behind `PROGRAM_START`, or it does not.
  `load_program` does not look at the length.

The image lies outside of user memory, so that stores do not change what is read.
-/

namespace CustomLinuxOs

/-! ### The code -/

/-- The loop of `load_program`, from byte `i` of the file on, with its stores; `none` is a loop
that is still running. -/
def loadStores (fs : Fs) (inode : ℕ) : ℕ → UInt32 → Option (List (ℕ × UInt8))
  | 0, _ => none
  | fuel + 1, i =>
      let buf := readData fs inode i 128
      if buf = [] then some []
      else (loadStores fs inode fuel (i + buf.length.toUInt32)).map fun stores =>
        storesFrom (PROGRAM_START + i.toNat) buf ++ stores

/-- `load_program`: what it returns, and its stores. -/
def loadProgramStores (fuel : ℕ) (fs : Fs) (filename : CString) :
    Option (ℤ × List (ℕ × UInt8)) :=
  match readDentryByName fs filename with
  | some d =>
      if isExecutableFile fs filename then
        (loadStores fs d.inodeNum.toNat fuel 0).map fun stores => (0, stores)
      else some (-1, [])
  | none => some (-1, [])

def RESERVED_MEM_PAGE_INDEX : ℕ := 0
def KERNEL_MEM_PAGE_INDEX : ℕ := 1
def VIDMAP_MEM_PAGE_INDEX : ℕ := 16

/-- `paging_init`: the entries of the page directory that are present.  `brute_add_page` adds those
of the registers of the network card, which lie elsewhere. -/
def pagingInit (idx : ℕ) : Bool :=
  idx == RESERVED_MEM_PAGE_INDEX || idx == KERNEL_MEM_PAGE_INDEX || idx == USER_MEM_PAGE_INDEX
    || idx == VIDMAP_MEM_PAGE_INDEX

/-- Stores one after the other.  The first one to a page that is not present is a page fault, whose
handler ends in `die`. -/
def storeAll (mem : ℕ → UInt8) : List (ℕ × UInt8) → Option (ℕ → UInt8)
  | [] => some mem
  | (a, c) :: stores =>
      if pagingInit (a / FOUR_MB) then storeAll (Function.update mem a c) stores else none

/-! ### What is meant -/

/-- `load_program` comes to its end, and these are the stores it asks for on its way. -/
def Loads (fs : Fs) (filename : CString) (stores : List (ℕ × UInt8)) : Prop :=
  ∃ n, ∀ fuel ≥ n, loadProgramStores fuel fs filename = some (0, stores)

/-- `load_program` ends, and user memory has the bytes from `PROGRAM_START` on that one call
`read_data(inode, 0, buf, 2^31 - 1)` leaves in `buf`, as many as that returns, and has not changed
elsewhere; wherever `buf` and the copy of the inode are. -/
def LoadsLikeRead (fs : Fs) (filename : CString) (inode : ℕ) (mem : ℕ → UInt8) : Prop :=
  ∃ stores mem', Loads fs filename stores ∧ storeAll mem stores = some mem'
    ∧ ∀ c buf, ∃ r, readInto c fs inode mem buf 0 0x7fffffff = some r
      ∧ (∀ i < r.1.toInt.toNat, mem' (PROGRAM_START + i) = r.2 (buf + i))
      ∧ ∀ a, ¬ (PROGRAM_START ≤ a ∧ a < PROGRAM_START + r.1.toInt.toNat) → mem' a = mem a

/-! ### The chunks -/

section Chunks

variable {fs : Fs} {inode : ℕ}

/-- **The loop** goes over the file in chunks, up to the end that `read_data` sees. -/
lemma loadStores_eq {L : ℕ} (hL : (fs.inodes inode).length.toNat = L) (hlen : L ≤ 1023 * 4096)
    (fuel : ℕ) (i : UInt32) (hi : i.toNat ≤ readableEnd L)
    (hfuel : readableEnd L < i.toNat + fuel) :
    loadStores fs inode fuel i = some (storesFrom (PROGRAM_START + i.toNat)
      (fs.fileSlice (fs.inodes inode) i.toNat (readableEnd L - i.toNat))) := by
  induction fuel generalizing i with
  | zero => omega
  | succ fuel ih =>
      have hend := readableEnd_le L
      have hread := readData_eq fs inode i 128 (by decide)
      rw [hL] at hread
      set m := min (128 : UInt32).toNat (readableEnd L - i.toNat) with hm
      have hsmall : m ≤ 128 := Nat.min_le_left _ _
      rw [loadStores, hread]
      rcases Nat.eq_or_lt_of_le hi with hdone | hmore
      · have hnil : fs.fileSlice (fs.inodes inode) i.toNat m = [] := by
          rw [← List.length_eq_zero_iff, Fs.fileSlice_length]
          omega
        rw [if_pos hnil, ← hdone, Nat.sub_self]
        rfl
      · have hone : 1 ≤ m := by
          rw [hm, Nat.le_min]
          exact ⟨by decide, by omega⟩
        have hne : fs.fileSlice (fs.inodes inode) i.toNat m ≠ [] := by
          rw [← List.length_pos_iff, Fs.fileSlice_length]
          exact hone
        have hle : i.toNat + m ≤ readableEnd L := by omega
        have hnext : (i + m.toUInt32).toNat = i.toNat + m := by
          rw [UInt32.toNat_add, UInt32.toNat_ofNat_of_lt' (by rw [UInt32.size]; omega)]
          exact Nat.mod_eq_of_lt (by omega)
        have hrest : readableEnd L - i.toNat = m + (readableEnd L - (i.toNat + m)) := by omega
        rw [if_neg hne, Fs.fileSlice_length, ih _ (by rwa [hnext]) (by rw [hnext]; omega),
          Option.map_some, hnext, hrest, Fs.fileSlice_add, storesFrom_append,
          Fs.fileSlice_length, Nat.add_assoc]

/-- One call for all of the file. -/
lemma readData_whole {L : ℕ} (hL : (fs.inodes inode).length.toNat = L) (hlen : L ≤ 1023 * 4096) :
    readData fs inode 0 0x7fffffff
      = fs.fileSlice (fs.inodes inode) 0 (readableEnd L) := by
  have hend := readableEnd_le L
  have hmax : (0x7fffffff : UInt32).toNat = 2147483647 := rfl
  rw [readData_eq fs inode 0 _ (by decide), hL, hmax, UInt32.toNat_zero, Nat.sub_zero,
    Nat.min_eq_right (by omega)]

lemma length_readData_whole (hlen : (fs.inodes inode).length.toNat ≤ 1023 * 4096) :
    (readData fs inode 0 0x7fffffff).length = readableEnd (fs.inodes inode).length.toNat := by
  rw [readData_whole rfl hlen, Fs.fileSlice_length]

end Chunks

/-- Executable files are not empty, and their header lies before the end that `read_data` sees. -/
lemma four_le_readableEnd {fs : Fs} {filename : CString} {d : Dentry}
    (hd : readDentryByName fs filename = some d) (hexec : isExecutableFile fs filename = true) :
    4 ≤ readableEnd (fs.inodes d.inodeNum.toNat).length.toNat := by
  rw [isExecutableFile, hd] at hexec
  have hheader := (Bool.and_eq_true_iff.mp (Bool.and_eq_true_iff.mp hexec).2).2
  have hlength := congrArg List.length (beq_iff_eq.mp hheader)
  have hfour : (4 : UInt32).toNat = 4 := rfl
  rw [readData_eq _ _ _ _ (by decide), Fs.fileSlice_length, hfour, UInt32.toNat_zero,
    Nat.sub_zero] at hlength
  exact min_eq_left_iff.mp hlength

/-- **`load_program`** ends, and stores what one call of `read_data` gives. -/
lemma loads_whole {fs : Fs} {filename : CString} {d : Dentry}
    (hd : readDentryByName fs filename = some d) (hexec : isExecutableFile fs filename = true)
    (hlen : (fs.inodes d.inodeNum.toNat).length.toNat ≤ 1023 * 4096) :
    Loads fs filename
      (storesFrom PROGRAM_START (readData fs d.inodeNum.toNat 0 0x7fffffff)) := by
  refine ⟨readableEnd (fs.inodes d.inodeNum.toNat).length.toNat + 1, fun fuel hfuel => ?_⟩
  have hloop := loadStores_eq rfl hlen fuel 0 (Nat.zero_le _)
    (by rw [UInt32.toNat_zero]; omega)
  rw [loadProgramStores, hd]
  simp only [hexec, if_true]
  rw [hloop, readData_whole rfl hlen]
  rfl

lemma Loads.unique {fs : Fs} {filename : CString} {stores stores' : List (ℕ × UInt8)}
    (h : Loads fs filename stores) (h' : Loads fs filename stores') : stores = stores' := by
  obtain ⟨n, hn⟩ := h
  obtain ⟨n', hn'⟩ := h'
  have heq := (hn (max n n') (Nat.le_max_left _ _)).symm.trans (hn' _ (Nat.le_max_right _ _))
  exact (Prod.mk.inj (Option.some.inj heq)).2

/-! ### The user page -/

/-- Behind the user page no page is present. -/
lemma pagingInit_iff {a : ℕ} (hfirst : PROGRAM_START ≤ a) (hlast : a < FOUR_MB * 34) :
    pagingInit (a / FOUR_MB) = true ↔ a < FOUR_MB * (USER_MEM_PAGE_INDEX + 1) := by
  rw [PROGRAM_START] at hfirst
  rw [FOUR_MB] at hlast ⊢
  have hpage : a / 0x400000 = 32 ∨ a / 0x400000 = 33 := by omega
  rw [USER_MEM_PAGE_INDEX]
  rcases hpage with hpage | hpage
  · rw [hpage]
    exact ⟨fun _ => by omega, fun _ => rfl⟩
  · rw [hpage]
    exact ⟨fun h => absurd h Bool.false_ne_true, fun _ => by omega⟩

/-- Stores take place if all of them go to pages that are present. -/
lemma storeAll_eq (mem : ℕ → UInt8) (stores : List (ℕ × UInt8)) : storeAll mem stores
    = if ∀ s ∈ stores, pagingInit (s.1 / FOUR_MB) = true then some (applyStores mem stores)
      else none := by
  induction stores generalizing mem with
  | nil => simp [storeAll, applyStores]
  | cons s stores ih =>
      rw [storeAll]
      by_cases hpresent : pagingInit (s.1 / FOUR_MB) = true
      · rw [if_pos hpresent, ih]
        simp only [List.forall_mem_cons, hpresent, true_and]
        rfl
      · rw [if_neg hpresent, if_neg fun hall => hpresent (hall s List.mem_cons_self)]

/-- **The stores of a stretch** of memory: it ends in the user page, or there is a page fault. -/
lemma storeAll_program (mem : ℕ → UInt8) (bytes : List UInt8) (hlen : bytes.length ≤ 1023 * 4096) :
    storeAll mem (storesFrom PROGRAM_START bytes)
      = if PROGRAM_START + bytes.length ≤ FOUR_MB * (USER_MEM_PAGE_INDEX + 1) then
          some (copyTo mem PROGRAM_START bytes)
        else none := by
  have hpages : (∀ s ∈ storesFrom PROGRAM_START bytes, pagingInit (s.1 / FOUR_MB) = true)
      ↔ PROGRAM_START + bytes.length ≤ FOUR_MB * (USER_MEM_PAGE_INDEX + 1) := by
    rw [forall_storesFrom (P := fun a => pagingInit (a / FOUR_MB) = true)]
    have hpage : ∀ k < bytes.length, pagingInit ((PROGRAM_START + k) / FOUR_MB) = true
        ↔ PROGRAM_START + k < FOUR_MB * (USER_MEM_PAGE_INDEX + 1) := fun k hk =>
      pagingInit_iff (Nat.le_add_right _ _) (by rw [PROGRAM_START, FOUR_MB]; omega)
    constructor
    · intro h
      rw [PROGRAM_START, FOUR_MB, USER_MEM_PAGE_INDEX] at *
      rcases Nat.eq_zero_or_pos bytes.length with hnil | hpos
      · omega
      · have hlast := (hpage (bytes.length - 1) (by omega)).mp (h _ (by omega))
        omega
    · exact fun h k hk => (hpage k hk).mpr (by omega)
  rw [storeAll_eq, applyStores_storesFrom]
  exact if_congr hpages rfl rfl

/-- Files whose bytes fit behind `PROGRAM_START`.  The last block of a file of whole blocks is not
read. -/
lemma program_fits_iff (L : ℕ) :
    PROGRAM_START + readableEnd L ≤ FOUR_MB * (USER_MEM_PAGE_INDEX + 1)
      ↔ L ≤ 952 * BLOCK_SIZE ∨ L = 953 * BLOCK_SIZE := by
  rw [PROGRAM_START, FOUR_MB, USER_MEM_PAGE_INDEX, readableEnd, BLOCK_SIZE]
  split <;> omega

/-- What one call of `read_data` leaves and returns. -/
lemma readInto_whole {fs : Fs} {inode : ℕ} (hlen : (fs.inodes inode).length.toNat ≤ 1023 * 4096)
    (c : InodeCopy) (mem : ℕ → UInt8) (buf : ℕ) :
    ∃ r, readInto c fs inode mem buf 0 0x7fffffff = some r
      ∧ r.1.toInt.toNat = readableEnd (fs.inodes inode).length.toNat
      ∧ r.2 = copyTo mem buf (readData fs inode 0 0x7fffffff) := by
  have hend := readableEnd_le (fs.inodes inode).length.toNat
  have hreach : (0 : UInt32).toNat / BLOCK_SIZE < c.reach := (Nat.zero_le _).trans_lt c.room
  refine ⟨_, readInto_eq c fs inode mem buf 0 _ hlen hreach, ?_, rfl⟩
  rw [length_readData_whole hlen, toInt32_toInt (by omega), Int.toNat_natCast]

/-! ### The kernel -/

section View

/-- User memory at the addresses where it is mapped. -/
def userView (k : Kernel) (a : ℕ) : UInt8 :=
  k.userMemory k.userPage (a - FOUR_MB * USER_MEM_PAGE_INDEX)

variable {fs : Fs} {inode block : ℕ}

/-- Storing to the block that is mapped. -/
lemma storeUser_view (mem : ℕ → ℕ → UInt8) {offset : ℕ} (bytes : List UInt8) (h : 0 < offset) :
    (fun a => storeUser mem block offset bytes block (a - FOUR_MB * USER_MEM_PAGE_INDEX))
      = copyTo (fun a => mem block (a - FOUR_MB * USER_MEM_PAGE_INDEX))
        (FOUR_MB * USER_MEM_PAGE_INDEX + offset) bytes := by
  funext a
  rw [storeUser, Function.update_self, copyTo]
  refine if_congr ?_ ?_ rfl
  · omega
  · rw [Nat.sub_sub]

/-- The loop of the kernel's `load_program` makes these stores. -/
lemma loadLoop_view {fuel : ℕ} {i : UInt32} {stores : List (ℕ × UInt8)}
    (h : loadStores fs inode fuel i = some stores) (mem : ℕ → ℕ → UInt8) :
    (fun a => loadLoop fs inode block fuel i mem block (a - FOUR_MB * USER_MEM_PAGE_INDEX))
      = applyStores (fun a => mem block (a - FOUR_MB * USER_MEM_PAGE_INDEX)) stores := by
  induction fuel generalizing i stores mem with
  | zero => cases h
  | succ fuel ih =>
      rw [loadStores] at h
      simp only [loadLoop]
      by_cases hnil : readData fs inode i 128 = []
      · rw [if_pos hnil] at h
        rw [if_pos hnil, ← Option.some.inj h]
        rfl
      · rw [if_neg hnil, Option.map_eq_some_iff] at h
        obtain ⟨rest, hrest, rfl⟩ := h
        have hstart : FOUR_MB * USER_MEM_PAGE_INDEX
            + (PROGRAM_START - FOUR_MB * USER_MEM_PAGE_INDEX + i.toNat)
            = PROGRAM_START + i.toNat := by
          rw [PROGRAM_START, FOUR_MB, USER_MEM_PAGE_INDEX]
          omega
        rw [if_neg hnil, ih hrest, storeUser_view _ _ (Nat.add_pos_left (by decide) _), hstart,
          applyStores_append, applyStores_storesFrom]

/-- **`load_program` of the kernel** leaves the same bytes. -/
theorem loadProgram_view {k : Kernel} {filename : CString} {d : Dentry}
    (hd : readDentryByName k.fs filename = some d)
    (hexec : isExecutableFile k.fs filename = true)
    (hlen : (k.fs.inodes d.inodeNum.toNat).length.toNat ≤ 1023 * 4096) :
    (loadProgram k filename).1 = true
      ∧ userView (loadProgram k filename).2
        = copyTo (userView k) PROGRAM_START (readData k.fs d.inodeNum.toNat 0 0x7fffffff) := by
  have hend := readableEnd_le (k.fs.inodes d.inodeNum.toNat).length.toNat
  have hloop := loadStores_eq rfl hlen ((k.fs.inodes d.inodeNum.toNat).length.toNat + 1) 0
    (Nat.zero_le _)
    (by rw [UInt32.toNat_zero]; omega)
  rw [loadProgram, hd]
  simp only [hexec, if_true, true_and]
  refine (loadLoop_view hloop k.userMemory).trans ?_
  rw [applyStores_storesFrom, readData_whole rfl hlen]
  rfl

end View

/-! ### The loader and one read -/

/-- **The loader** does what one big read does just when the bytes fit. -/
lemma loadsLikeRead_iff_fits {fs : Fs} {filename : CString} {d : Dentry}
    (hd : readDentryByName fs filename = some d) (hexec : isExecutableFile fs filename = true)
    (hlen : (fs.inodes d.inodeNum.toNat).length.toNat ≤ 1023 * 4096) (mem : ℕ → UInt8) :
    LoadsLikeRead fs filename d.inodeNum.toNat mem
      ↔ PROGRAM_START + readableEnd (fs.inodes d.inodeNum.toNat).length.toNat
        ≤ FOUR_MB * (USER_MEM_PAGE_INDEX + 1) := by
  set E := readableEnd (fs.inodes d.inodeNum.toNat).length.toNat with hE
  set bytes := readData fs d.inodeNum.toNat 0 0x7fffffff with hbytes
  have hlength : bytes.length = E := length_readData_whole hlen
  have hloads := loads_whole hd hexec hlen
  have hstore := storeAll_program mem bytes
    (by rw [hlength]; exact (readableEnd_le _).trans hlen)
  rw [hlength] at hstore
  constructor
  · rintro ⟨stores, mem', hstores, hmem, -⟩
    rw [hstores.unique hloads, hstore] at hmem
    by_contra hlarge
    rw [if_neg hlarge] at hmem
    cases hmem
  · intro hfits
    rw [if_pos hfits] at hstore
    refine ⟨_, _, hloads, hstore, fun c buf => ?_⟩
    obtain ⟨r, hr, hcount, hmem⟩ := readInto_whole hlen c mem buf
    refine ⟨r, hr, ?_⟩
    rw [hcount, hmem]
    refine ⟨fun i hi => ?_, fun a ha => ?_⟩
    · have hi' : i < bytes.length := by rwa [hlength]
      rw [copyTo_of_lt _ _ _ hi', copyTo_of_lt _ _ _ hi']
    · rw [copyTo, if_neg (by rwa [hlength])]

/-- **The loader and one big read** agree on every executable file that fits into the user page
behind `PROGRAM_START`, and on no other one: there `load_program` ends in a page fault. -/
theorem loadsLikeRead_iff {fs : Fs} {filename : CString} {d : Dentry}
    (hd : readDentryByName fs filename = some d) (hexec : isExecutableFile fs filename = true)
    (hlen : (fs.inodes d.inodeNum.toNat).length.toNat ≤ 1023 * 4096) (mem : ℕ → UInt8) :
    LoadsLikeRead fs filename d.inodeNum.toNat mem
      ↔ (fs.inodes d.inodeNum.toNat).length.toNat ≤ 952 * BLOCK_SIZE
        ∨ (fs.inodes d.inodeNum.toNat).length.toNat = 953 * BLOCK_SIZE :=
  (loadsLikeRead_iff_fits hd hexec hlen mem).trans (program_fits_iff _)

/-- `shellImage` with a file of `n` bytes. -/
def programImage (n : UInt32) : Fs :=
  { shellImage with inodes := fun ino => ⟨if ino = 1 then n else 0, fun _ => 0⟩ }

lemma readDentryByName_programImage (n : UInt32) :
    readDentryByName (programImage n) shellName = some ((programImage n).dentries 0) := rfl

/-- A program of two blocks and forty chunks, which is loaded. -/
theorem loadsLikeRead_iff_shell : LoadsLikeRead (programImage 5000) shellName 1 fun _ => 0 :=
  (loadsLikeRead_iff (readDentryByName_programImage 5000) (by decide) (by decide)
    fun _ => 0).mpr (Or.inl (by decide))

/-- A program of one byte more than there is room for. -/
theorem not_loadsLikeRead_large :
    ¬ LoadsLikeRead (programImage 3899393) shellName 1 fun _ => 0 := by
  intro h
  have hfits := (loadsLikeRead_iff_fits (readDentryByName_programImage 3899393) (by decide)
    (by decide) _).mp h
  exact absurd hfits (by decide)

end CustomLinuxOs
