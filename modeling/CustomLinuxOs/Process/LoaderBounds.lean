import CustomLinuxOs.Process.Loader

/-!
The addresses that `load_program` stores to, and those that `get_start` loads the entry point from.

* `startAddresses`, `LoadedInPage`: the stores stay in the user page, and the entry point is among
  them.
* `getStart_eq`, `getStart_loadProgram`: `get_start` loads from these addresses, and finds the bytes
  24 to 27 of the file if it has them.
* `loadedInPage_iff`: the lengths for which that is so.  `is_executable_file` asks for the first
  four bytes only, and an inode has room for more than the page.
-/

namespace CustomLinuxOs

/-- The addresses that `get_start` loads from. -/
def startAddresses : List ℕ := (List.range 4).map fun i => PROGRAM_START + 24 + i

/-- The stores lie between 128 MB and 132 MB, and the entry point is loaded. -/
structure LoadedInPage (stores : List (ℕ × UInt8)) : Prop where
  page : ∀ s ∈ stores, FOUR_MB * USER_MEM_PAGE_INDEX ≤ s.1
    ∧ s.1 < FOUR_MB * (USER_MEM_PAGE_INDEX + 1)
  start : ∀ a ∈ startAddresses, a ∈ stores.map Prod.fst

/-! ### The entry point -/

/-- A word in memory. -/
def wordAt (mem : ℕ → UInt8) (a : ℕ) : UInt32 :=
  (mem a).toUInt32 ||| (mem (a + 1)).toUInt32 <<< 8 ||| (mem (a + 2)).toUInt32 <<< 16
    ||| (mem (a + 3)).toUInt32 <<< 24

/-- `get_start` in memory as it is mapped. -/
lemma getStart_eq (k : Kernel) : getStart k = wordAt (userView k) (PROGRAM_START + 24) := rfl

/-- **The entry point** of a file that has one. -/
theorem getStart_loadProgram {k : Kernel} {filename : CString} {d : Dentry}
    (hd : readDentryByName k.fs filename = some d)
    (hexec : isExecutableFile k.fs filename = true)
    (hlen : (k.fs.inodes d.inodeNum.toNat).length.toNat ≤ 1023 * 4096)
    (hstart : 28 ≤ readableEnd (k.fs.inodes d.inodeNum.toNat).length.toNat) :
    getStart (loadProgram k filename).2
      = wordAt (k.fs.fileByte (k.fs.inodes d.inodeNum.toNat)) 24 := by
  have hbyte : ∀ i < 4, userView (loadProgram k filename).2 (PROGRAM_START + 24 + i)
      = k.fs.fileByte (k.fs.inodes d.inodeNum.toNat) (24 + i) := by
    intro i hi
    rw [(loadProgram_view hd hexec hlen).2, Nat.add_assoc, readData_whole rfl hlen,
      copyTo_of_lt _ _ _ (by rw [Fs.fileSlice_length]; omega),
      List.getD_eq_getElem _ _ (by rw [Fs.fileSlice_length]; omega)]
    simp only [Fs.fileSlice, List.getElem_map, List.getElem_range, Nat.zero_add]
  rw [getStart_eq, wordAt, wordAt, ← hbyte 1 (by omega), ← hbyte 2 (by omega),
    ← hbyte 3 (by omega), ← Nat.add_zero 24, ← hbyte 0 (by omega)]

/-! ### Bounds -/

/-- The stores of a program that is not empty. -/
lemma loadedInPage_storesFrom {bytes : List UInt8} (hpos : 0 < bytes.length) :
    LoadedInPage (storesFrom PROGRAM_START bytes)
      ↔ 28 ≤ bytes.length
        ∧ PROGRAM_START + bytes.length ≤ FOUR_MB * (USER_MEM_PAGE_INDEX + 1) := by
  have hfirst : FOUR_MB * USER_MEM_PAGE_INDEX ≤ PROGRAM_START := by decide
  have hstart : ∀ a, a ∈ (storesFrom PROGRAM_START bytes).map Prod.fst
      ↔ PROGRAM_START ≤ a ∧ a < PROGRAM_START + bytes.length := by
    intro a
    rw [map_fst_storesFrom, List.mem_range'_1]
  constructor
  · rintro ⟨hpage, hentry⟩
    rw [forall_storesFrom (P := fun a => FOUR_MB * USER_MEM_PAGE_INDEX ≤ a
      ∧ a < FOUR_MB * (USER_MEM_PAGE_INDEX + 1))] at hpage
    have hlast := (hpage (bytes.length - 1) (by omega)).2
    have hword := (hstart _).mp (hentry (PROGRAM_START + 24 + 3)
      (List.mem_map.mpr ⟨3, List.mem_range.mpr (by omega), rfl⟩))
    omega
  · rintro ⟨hlong, hfits⟩
    refine ⟨?_, fun a ha => ?_⟩
    · rw [forall_storesFrom (P := fun a => FOUR_MB * USER_MEM_PAGE_INDEX ≤ a
        ∧ a < FOUR_MB * (USER_MEM_PAGE_INDEX + 1))]
      exact fun k hk => ⟨by omega, by omega⟩
    · obtain ⟨i, hi, rfl⟩ := List.mem_map.mp ha
      have := List.mem_range.mp hi
      exact (hstart _).mpr ⟨by omega, by omega⟩

/-- **The stores of `load_program`** lie in the page and reach the entry point just when the file
fits and has one. -/
lemma loadedInPage_iff_readableEnd {fs : Fs} {filename : CString} {d : Dentry}
    (hd : readDentryByName fs filename = some d) (hexec : isExecutableFile fs filename = true)
    (hlen : (fs.inodes d.inodeNum.toNat).length.toNat ≤ 1023 * 4096) :
    (∃ stores, Loads fs filename stores ∧ LoadedInPage stores)
      ↔ 28 ≤ readableEnd (fs.inodes d.inodeNum.toNat).length.toNat
        ∧ PROGRAM_START + readableEnd (fs.inodes d.inodeNum.toNat).length.toNat
          ≤ FOUR_MB * (USER_MEM_PAGE_INDEX + 1) := by
  have hloads := loads_whole hd hexec hlen
  have hheader := four_le_readableEnd hd hexec
  have hlength := length_readData_whole hlen
  rw [← hlength, ← loadedInPage_storesFrom (by omega)]
  constructor
  · rintro ⟨stores, hstores, h⟩
    rwa [hstores.unique hloads] at h
  · exact fun h => ⟨_, hloads, h⟩

/-- **The loader stays in the user page**, and loads an entry point, for the executable files that
are neither shorter than 28 bytes nor larger than the page behind `PROGRAM_START`. -/
theorem loadedInPage_iff {fs : Fs} {filename : CString} {d : Dentry}
    (hd : readDentryByName fs filename = some d) (hexec : isExecutableFile fs filename = true)
    (hlen : (fs.inodes d.inodeNum.toNat).length.toNat ≤ 1023 * 4096) :
    (∃ stores, Loads fs filename stores ∧ LoadedInPage stores)
      ↔ 28 ≤ (fs.inodes d.inodeNum.toNat).length.toNat
        ∧ ((fs.inodes d.inodeNum.toNat).length.toNat ≤ 952 * BLOCK_SIZE
          ∨ (fs.inodes d.inodeNum.toNat).length.toNat = 953 * BLOCK_SIZE) := by
  have hheader := four_le_readableEnd hd hexec
  have hentry : 28 ≤ readableEnd (fs.inodes d.inodeNum.toNat).length.toNat
      ↔ 28 ≤ (fs.inodes d.inodeNum.toNat).length.toNat := by
    rw [readableEnd, BLOCK_SIZE] at hheader ⊢
    split at hheader <;> split <;> omega
  rw [loadedInPage_iff_readableEnd hd hexec hlen, program_fits_iff, hentry]

/-- A program of 28 bytes. -/
theorem loadedInPage_iff_28 :
    ∃ stores, Loads (programImage 28) shellName stores ∧ LoadedInPage stores :=
  (loadedInPage_iff (readDentryByName_programImage 28) (by decide) (by decide)).mpr
    ⟨by decide, Or.inl (by decide)⟩

/-- A program that is its header has no entry point, and one of a byte too many leaves the page. -/
theorem not_loadedInPage_header_large :
    (¬ ∃ stores, Loads (programImage 4) shellName stores ∧ LoadedInPage stores)
      ∧ ¬ ∃ stores, Loads (programImage 3899393) shellName stores ∧ LoadedInPage stores := by
  refine ⟨fun h => ?_, fun h => ?_⟩
  · have hentry := ((loadedInPage_iff_readableEnd (readDentryByName_programImage 4) (by decide)
      (by decide)).mp h).1
    exact absurd hentry (by decide)
  · have hfits := ((loadedInPage_iff_readableEnd (readDentryByName_programImage 3899393)
      (by decide) (by decide)).mp h).2
    exact absurd hfits (by decide)

end CustomLinuxOs
