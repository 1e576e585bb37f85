import CustomLinuxOs.Process.Kernel

/-!
What the kernel keeps about processes, and what its functions do to it.

* `Sessions`: the abstract model.  Each terminal has a stack of processes, the one that runs on
  top of those that wait for it; one terminal is active.  `launch`, `exit` and `select` are its
  operations.
* `Represents`: a kernel state represents such stacks by the pointers between PCBs, the two
  bitmaps and the state of the hardware.
* `Launched`: what is left when a program has been started.
* `execute_cases`, `switchProcess_cases`: a call fails and changes nothing of this, or it launches
  a process or selects a terminal.
* `Represents.launch`, `Represents.exit`, `Represents.select`: the kernel refines the operations.
-/

namespace CustomLinuxOs

/-! ### The abstract model -/

/-- The processes of each terminal, innermost first, each process in a slot of its own. -/
structure Sessions where
  stack : ℕ → List ℕ
  active : ℕ
  nodup : ∀ t, (stack t).Nodup
  apart : ∀ t u n, n ∈ stack t → n ∈ stack u → t = u

namespace Sessions

variable {s : Sessions} {n m : ℕ}

/-- There is a process in the slot. -/
def live (s : Sessions) (n : ℕ) : Prop := ∃ t, n ∈ s.stack t

/-- A process is started on the active terminal. -/
def launch (s : Sessions) (n : ℕ) (h : ¬ s.live n) : Sessions where
  stack := Function.update s.stack s.active (n :: s.stack s.active)
  active := s.active
  nodup t := by
    by_cases ht : t = s.active
    · rw [ht, Function.update_self]
      exact List.nodup_cons.mpr ⟨fun hn => h ⟨s.active, hn⟩, s.nodup s.active⟩
    · rw [Function.update_of_ne ht]
      exact s.nodup t
  apart t u m hmt hmu := by
    have key {v : ℕ} (hv : m ∈ Function.update s.stack s.active (n :: s.stack s.active) v) :
        (m = n ∧ v = s.active) ∨ m ∈ s.stack v := by
      by_cases hva : v = s.active
      · rw [hva, Function.update_self] at hv
        rcases List.mem_cons.mp hv with rfl | hv
        · exact Or.inl ⟨rfl, hva⟩
        · exact Or.inr (hva ▸ hv)
      · rw [Function.update_of_ne hva] at hv
        exact Or.inr hv
    rcases key hmt with ⟨rfl, rfl⟩ | ht
    · rcases key hmu with ⟨-, rfl⟩ | hu
      · rfl
      · exact absurd ⟨u, hu⟩ h
    · rcases key hmu with ⟨rfl, rfl⟩ | hu
      · exact absurd ⟨t, ht⟩ h
      · exact s.apart t u m ht hu

/-- The process that runs on the active terminal ends. -/
def exit (s : Sessions) : Sessions where
  stack := Function.update s.stack s.active (s.stack s.active).tail
  active := s.active
  nodup t := by
    by_cases ht : t = s.active
    · rw [ht, Function.update_self]
      exact (s.nodup s.active).tail
    · rw [Function.update_of_ne ht]
      exact s.nodup t
  apart t u m hmt hmu := by
    have key {v : ℕ} (hv : m ∈ Function.update s.stack s.active (s.stack s.active).tail v) :
        m ∈ s.stack v := by
      by_cases hva : v = s.active
      · rw [hva, Function.update_self] at hv
        rw [hva]
        exact List.mem_of_mem_tail hv
      · rwa [Function.update_of_ne hva] at hv
    exact s.apart t u m (key hmt) (key hmu)

/-- Another terminal becomes the active one. -/
def select (s : Sessions) (t : ℕ) : Sessions := { s with active := t }

/-- No processes. -/
def none : Sessions := ⟨fun _ => [], 0, fun _ => List.nodup_nil, fun _ _ _ h => absurd h (by simp)⟩

lemma stack_launch (h : ¬ s.live n) :
    (s.launch n h).stack = Function.update s.stack s.active (n :: s.stack s.active) := rfl

lemma stack_exit :
    s.exit.stack = Function.update s.stack s.active (s.stack s.active).tail := rfl

lemma live_launch (h : ¬ s.live n) : (s.launch n h).live m ↔ m = n ∨ s.live m := by
  constructor
  · rintro ⟨t, ht⟩
    rw [stack_launch] at ht
    by_cases hta : t = s.active
    · rw [hta, Function.update_self] at ht
      exact (List.mem_cons.mp ht).imp id fun hm => ⟨s.active, hm⟩
    · rw [Function.update_of_ne hta] at ht
      exact Or.inr ⟨t, ht⟩
  · rintro (rfl | ⟨t, ht⟩)
    · exact ⟨s.active, by rw [stack_launch, Function.update_self]; exact List.mem_cons_self⟩
    · refine ⟨t, ?_⟩
      rw [stack_launch]
      by_cases hta : t = s.active
      · rw [hta, Function.update_self]
        exact List.mem_cons_of_mem _ (hta ▸ ht)
      · rwa [Function.update_of_ne hta]

lemma live_exit {l : List ℕ} (h : s.stack s.active = n :: l) :
    s.exit.live m ↔ m ≠ n ∧ s.live m := by
  have hnodup := s.nodup s.active
  rw [h] at hnodup
  have hn : n ∈ s.stack s.active := by rw [h]; exact List.mem_cons_self
  constructor
  · rintro ⟨t, ht⟩
    rw [stack_exit] at ht
    by_cases hta : t = s.active
    · rw [hta, Function.update_self, h, List.tail_cons] at ht
      refine ⟨fun hmn => (List.nodup_cons.mp hnodup).1 (hmn ▸ ht), s.active, ?_⟩
      rw [h]
      exact List.mem_cons_of_mem n ht
    · rw [Function.update_of_ne hta] at ht
      exact ⟨fun hmn => hta (s.apart t s.active m ht (hmn ▸ hn)), t, ht⟩
  · rintro ⟨hmn, t, ht⟩
    refine ⟨t, ?_⟩
    rw [stack_exit]
    by_cases hta : t = s.active
    · rw [hta, Function.update_self, h, List.tail_cons]
      rw [hta, h] at ht
      exact (List.mem_cons.mp ht).resolve_left hmn
    · rwa [Function.update_of_ne hta]

end Sessions

/-! ### Representation -/

/-- The pointer to the first process of a stack. -/
def topPtr : List ℕ → PcbPtr
  | [] => .kernelMemEnd
  | n :: _ => .slot n

/-- The PCBs of a stack: each knows its slot and the process it has been started by. -/
def Ancestry (pcbs : ℕ → Pcb) : List ℕ → Prop
  | [] => True
  | n :: l => (pcbs n).parent = topPtr l ∧ (pcbs n).pcbNum = n ∧ Ancestry pcbs l

/-- A kernel state represents the processes of the terminals. -/
structure Represents (k : Kernel) (s : Sessions) : Prop where
  currentTask : k.currentTask = s.active
  currentTasks : ∀ t, (k.currentTasks t).slot? = (s.stack t).head?
  currentPcb : k.currentPcb.slot? = (s.stack s.active).head?
  ancestry : ∀ t, Ancestry k.pcbs (s.stack t)
  slots : ∀ n, s.live n → n < MAX_PROCESSES
  pcbBitmap : ∀ i < 32, k.pcbBitmap.getLsbD i = false ↔ s.live i
  blocks : ∀ n, s.live n →
    2 ≤ (k.pcbs n).userPhysicalMemBlockNum ∧ (k.pcbs n).userPhysicalMemBlockNum < 8
  blocksApart : ∀ m n, s.live m → s.live n →
    (k.pcbs m).userPhysicalMemBlockNum = (k.pcbs n).userPhysicalMemBlockNum → m = n
  userPages : ∀ b < 32, k.userPages.getLsbD b = true
    ↔ b < 2 ∨ ∃ n, s.live n ∧ (k.pcbs n).userPhysicalMemBlockNum = b
  hardware : ∀ n, k.currentPcb = .slot n → k.fdTable = .pcb (.slot n)
    ∧ k.userPage = (k.pcbs n).userPhysicalMemBlockNum ∧ k.esp0 = stackTop n

lemma Ancestry.congr {pcbs pcbs' : ℕ → Pcb} {l : List ℕ} (h : Ancestry pcbs l)
    (hsame : ∀ n ∈ l, (pcbs' n).parent = (pcbs n).parent ∧ (pcbs' n).pcbNum = (pcbs n).pcbNum) :
    Ancestry pcbs' l := by
  induction l with
  | nil => trivial
  | cons n l ih =>
      obtain ⟨hparent, hnum, hrest⟩ := h
      obtain ⟨hparent', hnum'⟩ := hsame n List.mem_cons_self
      exact ⟨hparent'.trans hparent, hnum'.trans hnum,
        ih hrest fun m hm => hsame m (List.mem_cons_of_mem n hm)⟩

lemma PcbPtr.slot?_eq_some {p : PcbPtr} {n : ℕ} : p.slot? = some n ↔ p = .slot n := by
  cases p with
  | null => simp [slot?]
  | kernelMemEnd => simp [slot?]
  | slot m => simp [slot?]

lemma slot?_topPtr (l : List ℕ) : (topPtr l).slot? = l.head? := by
  cases l with
  | nil => rfl
  | cons n l => rfl

/-- The state after booting represents no processes. -/
lemma Kernel.Booted.represents {k : Kernel} (h : k.Booted) : Represents k Sessions.none := by
  have hlive {n : ℕ} : ¬ Sessions.none.live n := fun ⟨_, hn⟩ => absurd hn (by simp [Sessions.none])
  refine ⟨h.currentTask, fun t => ?_, ?_, fun _ => trivial, fun n hn => absurd hn hlive,
    fun i hi => ?_, fun n hn => absurd hn hlive, fun m n hm => absurd hm hlive, fun b hb => ?_,
    fun n hn => ?_⟩
  · rw [h.currentTasks]
    rfl
  · rw [h.currentPcb]
    rfl
  · rw [h.pcbBitmap]
    refine iff_of_false ?_ hlive
    interval_cases i <;> decide
  · rw [h.userPages]
    have hbits : (0x3#32).getLsbD b = true ↔ b < 2 := by interval_cases b <;> decide
    rw [hbits]
    exact ⟨Or.inl, fun h => h.resolve_right fun ⟨n, hn, _⟩ => hlive hn⟩
  · rw [h.currentPcb] at hn
    exact absurd hn (by simp)

section Bitmaps

variable {k : Kernel} {s : Sessions}

/-- The processes use at most six blocks: block `8` at the latest is free, and an earlier one as
long as a slot is. -/
lemma Represents.freeBlock (h : Represents k s) :
    ∃ b, LowestClear k.userPages b ∧ 2 ≤ b ∧ b ≤ 8
      ∧ ∀ n < MAX_PROCESSES, ¬ s.live n → b < 8 := by
  have hclear : k.userPages.getLsbD 8 = false := by
    refine Bool.eq_false_of_not_eq_true fun hset => ?_
    rcases (h.userPages 8 (by decide)).mp hset with hlt | ⟨n, hn, hblock⟩
    · exact absurd hlt (by decide)
    · have := (h.blocks n hn).2
      omega
  obtain ⟨b, hb, hlow⟩ := exists_lowestClear hclear
  have htwo : 2 ≤ b := by
    by_contra hlt
    have hset := (h.userPages b (by omega)).mpr (Or.inl (by omega))
    rw [hlow.clear] at hset
    exact absurd hset (by decide)
  refine ⟨b, hlow, htwo, hb, fun n hn hfree => ?_⟩
  by_contra hge
  -- otherwise the six blocks 2 to 7 belong to processes in the other five slots
  classical
  have hall : Finset.Ico 2 8 ⊆ ((Finset.range MAX_PROCESSES).erase n).image
      fun m => (k.pcbs m).userPhysicalMemBlockNum := by
    intro c hc
    obtain ⟨hc2, hc8⟩ := Finset.mem_Ico.mp hc
    rcases (h.userPages c (by omega)).mp (hlow.below c (by omega)) with hlt | ⟨m, hm, hblock⟩
    · omega
    · refine Finset.mem_image.mpr ⟨m, Finset.mem_erase.mpr ⟨?_, ?_⟩, hblock⟩
      · rintro rfl
        exact hfree hm
      · exact Finset.mem_range.mpr (h.slots m hm)
  have hcard := (Finset.card_le_card hall).trans Finset.card_image_le
  rw [Finset.card_erase_of_mem (Finset.mem_range.mpr hn), Finset.card_range] at hcard
  exact absurd hcard (by decide)

/-- What `push_pcb` leaves, when it takes slot `n`. -/
def pushedPcb (k : Kernel) (n : ℕ) : Kernel :=
  let newPcb : Pcb :=
    { processFdTable := setupFdtable fun _ => Fd.zero
      pid := k.nextPid
      pcbNum := n
      parent :=
        if k.currentPcb ≠ .kernelMemEnd ∧ k.currentPcb ≠ .null then k.currentPcb
        else .kernelMemEnd
      child := .kernelMemEnd
      userPhysicalMemBlockNum := 0
      command := []
      context := 0 }
  let pcbs := Function.update k.pcbs n newPcb
  { k with
    pcbBitmap := k.pcbBitmap &&& ~~~BitVec.twoPow 32 n
    nextPid := k.nextPid + 1
    pcbs :=
      match k.currentPcb with
      | .slot m => Function.update pcbs m { pcbs m with child := .slot n }
      | _ => pcbs
    currentPcb := .slot n
    fdTable := .pcb (.slot n) }

/-- **`push_pcb`** takes the first free slot, if there is one. -/
lemma pushPcb_cases (hslots : ∀ n, s.live n → n < MAX_PROCESSES)
    (hbits : ∀ i < 32, k.pcbBitmap.getLsbD i = false ↔ s.live i) :
    pushPcb k = none ∨ ∃ n < MAX_PROCESSES, ¬ s.live n ∧ pushPcb k = some (pushedPcb k n) := by
  have hset {i : ℕ} (hi : i < 32) (hnot : ¬ s.live i) : k.pcbBitmap.getLsbD i = true :=
    Bool.eq_true_of_not_eq_false fun h => hnot ((hbits i hi).mp h)
  have hsix : ¬ s.live MAX_PROCESSES := fun h => lt_irrefl _ (hslots _ h)
  obtain ⟨n, hn, hlow⟩ := exists_lowestSet (hset (i := MAX_PROCESSES) (by decide) hsix)
  have hn32 : n < 32 := lt_of_le_of_lt hn (by decide)
  have hbound : (1#32 <<< MAX_PROCESSES).toNat = 2 ^ MAX_PROCESSES := by decide
  rw [pushPcb]
  simp only [and_neg_eq_twoPow hlow, log2Loop_twoPow 32 0 hn32 hn32.le, Nat.zero_add, ge_iff_le,
    BitVec.le_def, hbound, toNat_twoPow_of_lt hn32]
  rcases Nat.eq_or_lt_of_le hn with rfl | hlt
  · exact Or.inl (if_pos le_rfl)
  · have hlive : ¬ s.live n := fun h => by
      have hclear := (hbits n hn32).mpr h
      rw [hlow.set] at hclear
      exact absurd hclear (by decide)
    refine Or.inr ⟨n, hlt, hlive, if_neg ?_⟩
    exact Nat.not_le.mpr (Nat.pow_lt_pow_right (by decide) hlt)

end Bitmaps

/-! ### Starting a program -/

/-- What is left when a program has been started in slot `n` and block `b`. -/
structure Launched (k k' : Kernel) (n b : ℕ) : Prop where
  currentTask : k'.currentTask = k.currentTask
  currentTasks : k'.currentTasks = Function.update k.currentTasks k.currentTask (.slot n)
  currentPcb : k'.currentPcb = .slot n
  pcbBitmap : k'.pcbBitmap = k.pcbBitmap &&& ~~~BitVec.twoPow 32 n
  userPages : k'.userPages = k.userPages ||| BitVec.twoPow 32 b
  userPage : k'.userPage = b % 1024
  esp0 : k'.esp0 = stackTop n
  fdTable : k'.fdTable = .pcb (.slot n)
  parent : (k'.pcbs n).parent = topPtr k.currentPcb.slot?.toList
  pcbNum : (k'.pcbs n).pcbNum = n
  block : (k'.pcbs n).userPhysicalMemBlockNum = b
  context : (k'.pcbs n).context = k.contextCount
  others : ∀ m ≠ n, ∃ child, k'.pcbs m = { k.pcbs m with child := child }
  contexts : ∃ c, k'.contexts = Function.update k.contexts k.contextCount c
  contextCount : k'.contextCount = k.contextCount + 1
  globalContext : k'.globalContext = k.globalContext

/-- A slot and a block that are free, the block being the first one. -/
structure Free (k : Kernel) (s : Sessions) (n b : ℕ) : Prop where
  slot : n < MAX_PROCESSES
  notLive : ¬ s.live n
  block : LowestClear k.userPages b
  two_le : 2 ≤ b
  lt_eight : b < 8

lemma loadProgram_of_executable {k : Kernel} {filename : CString}
    (h : isExecutableFile k.fs filename) :
    ∃ mem, loadProgram k filename = (true, { k with userMemory := mem }) := by
  rw [loadProgram]
  cases hname : readDentryByName k.fs filename with
  | none =>
      rw [isExecutableFile, hname] at h
      exact absurd h (by simp)
  | some d => exact ⟨_, if_pos h⟩

/-- The page `add_user_page` takes. -/
lemma trailingOnes_userPages {k : Kernel} {b : ℕ} (hb : LowestClear k.userPages b) (hb8 : b ≤ 8) :
    trailingOnes 32 k.userPages 0 = b := by
  have hloop := trailingOnes_eq (x := k.userPages) (i := b) 32 0 (by rwa [Nat.zero_add]) (by omega)
  rwa [BitVec.ushiftRight_zero, Nat.zero_add] at hloop

/-- The two first steps of starting a program that can be loaded: no slot is free, or the first free
slot and block are taken. -/
lemma startProgram_cases {k : Kernel} {s : Sessions} {filename : CString}
    (hslots : ∀ n, s.live n → n < MAX_PROCESSES)
    (hbits : ∀ i < 32, k.pcbBitmap.getLsbD i = false ↔ s.live i)
    {b : ℕ} (hb : LowestClear k.userPages b) (hb8 : b ≤ 8)
    (hfree : ∀ n < MAX_PROCESSES, ¬ s.live n → b < 8) (htwo : 2 ≤ b)
    (h : isExecutableFile k.fs filename) :
    (startProgram k filename = (b, false, (addUserPage k).2))
      ∨ ∃ n mem, Free k s n b ∧ startProgram k filename
        = (b, true, { pushedPcb (addUserPage k).2 n with userMemory := mem }) := by
  have hpage : (addUserPage k).1 = b := trailingOnes_userPages hb hb8
  rw [startProgram]
  simp only [hpage]
  rcases pushPcb_cases (k := (addUserPage k).2) hslots hbits with hnone | ⟨n, hn, hlive, hsome⟩
  · rw [hnone]
    exact Or.inl rfl
  · rw [hsome]
    obtain ⟨mem, hmem⟩ :=
      loadProgram_of_executable (k := pushedPcb (addUserPage k).2 n) h
    exact Or.inr ⟨n, mem, ⟨hn, hlive, hb, htwo, hfree n hn hlive⟩, by simp only [hmem]⟩

/-- Taking the first free block and giving it back. -/
lemma freeUserPage_addUserPage {k : Kernel} {b : ℕ} (hb : LowestClear k.userPages b)
    (hb8 : b ≤ 8) :
    freeUserPage (addUserPage k).2 b = { k with userPage := b % 1024 } := by
  have hback : (k.userPages ||| BitVec.twoPow 32 b) ^^^ BitVec.twoPow 32 b = k.userPages := by
    refine BitVec.eq_of_getLsbD_eq fun i hi => ?_
    rw [getLsbD_xor_twoPow _ _ _ hi, getLsbD_or_twoPow _ _ _ hi]
    by_cases hib : i = b
    · rw [hib, hb.clear]
      simp
    · simp [hib]
  simp only [freeUserPage, addUserPage, setUserPage, trailingOnes_userPages hb hb8, hback]

/-- The parent of the PCB that is pushed. -/
lemma pushedPcb_self {k : Kernel} {n : ℕ} (hne : k.currentPcb ≠ .slot n) :
    ((pushedPcb k n).pcbs n).parent = topPtr k.currentPcb.slot?.toList
      ∧ ((pushedPcb k n).pcbs n).pcbNum = n := by
  rw [pushedPcb]
  cases hcurrent : k.currentPcb with
  | null => simp [PcbPtr.slot?, topPtr]
  | kernelMemEnd => simp [PcbPtr.slot?, topPtr]
  | slot m =>
      have hnm : n ≠ m := fun h => hne (h ▸ hcurrent)
      simp [PcbPtr.slot?, topPtr, Function.update_of_ne hnm]

/-- The other PCBs keep all but their child. -/
lemma pushedPcb_others {k : Kernel} {n m : ℕ} (hm : m ≠ n) :
    ∃ child, (pushedPcb k n).pcbs m = { k.pcbs m with child := child } := by
  rw [pushedPcb]
  cases hcurrent : k.currentPcb with
  | null => exact ⟨(k.pcbs m).child, by simp [Function.update_of_ne hm]⟩
  | kernelMemEnd => exact ⟨(k.pcbs m).child, by simp [Function.update_of_ne hm]⟩
  | slot q =>
      by_cases hmq : m = q
      · refine ⟨.slot n, ?_⟩
        subst hmq
        simp [Function.update_of_ne hm]
      · exact ⟨(k.pcbs m).child, by simp [Function.update_of_ne hm, Function.update_of_ne hmq]⟩

/-- What the two functions that start programs do with the PCB that has been pushed. -/
lemma launched_of_pushed {k k' : Kernel} {n b : ℕ} {mem : ℕ → ℕ → UInt8} {pcb : Pcb}
    {c : HwContext}
    (hk' : k' = { pushedPcb (addUserPage k).2 n with
      userMemory := mem
      pcbs := Function.update (pushedPcb (addUserPage k).2 n).pcbs n pcb
      esp0 := stackTop n
      contexts := Function.update k.contexts k.contextCount c
      contextCount := k.contextCount + 1
      currentTasks := Function.update k.currentTasks k.currentTask (.slot n) })
    (hb : trailingOnes 32 k.userPages 0 = b)
    (hparent : pcb.parent = topPtr k.currentPcb.slot?.toList)
    (hnum : pcb.pcbNum = n) (hblock : pcb.userPhysicalMemBlockNum = b)
    (hcontext : pcb.context = k.contextCount) : Launched k k' n b := by
  have hself : k'.pcbs n = pcb := by
    rw [hk']
    exact Function.update_self _ _ _
  have hpage : (addUserPage k).1 = b := hb
  constructor
  case parent => rw [hself, hparent]
  case pcbNum => rw [hself, hnum]
  case block => rw [hself, hblock]
  case context => rw [hself, hcontext]
  case others =>
    intro m hm
    obtain ⟨child, hchild⟩ := pushedPcb_others (k := (addUserPage k).2) hm
    refine ⟨child, ?_⟩
    rw [hk']
    exact (Function.update_of_ne hm _ _).trans hchild
  case contexts => exact ⟨c, by rw [hk']⟩
  case userPages =>
    rw [hk', ← hpage]
    rfl
  case userPage =>
    rw [hk', ← hpage]
    rfl
  all_goals
    subst hk'
    rfl

/-- **`execute`**, called by a process, fails and changes nothing, or it starts a program. -/
lemma execute_cases {k : Kernel} {s : Sessions} (h : Represents k s) {p : ℕ}
    (hp : k.currentPcb = .slot p) {command : CString} {stale : HwContext} {flags : UInt32}
    {r : ℤ × Kernel} (hr : execute k command stale flags = some r) :
    (r = (SYSCALL_ERROR, k)) ∨ r.1 = 0 ∧ ∃ n b, Free k s n b ∧ Launched k r.2 n b := by
  rw [execute] at hr
  cases hparse : parseCommand command with
  | none =>
      rw [hparse] at hr
      exact absurd hr (by simp)
  | some names =>
      rw [hparse] at hr
      simp only at hr
      split at hr
      · exact Or.inl (Option.some.inj hr).symm
      · rename_i hexec
        obtain ⟨b, hb, htwo, hb8, hfree⟩ := h.freeBlock
        have hlive : s.live p := by
          refine ⟨s.active, List.mem_of_mem_head? ?_⟩
          rw [← h.currentPcb, hp]
          rfl
        rcases startProgram_cases h.slots h.pcbBitmap hb hb8 hfree htwo (not_not.mp hexec) with
          hfail | ⟨n, mem, hn, hstart⟩
        · left
          rw [hfail] at hr
          have hcurrent : (addUserPage k).2.currentPcb = .slot p := hp
          simp only [hcurrent] at hr
          rw [← Option.some.inj hr]
          have hback := freeUserPage_addUserPage hb hb8
          have hpage : (k.pcbs p).userPhysicalMemBlockNum % 1024 = k.userPage := by
            have := (h.blocks p hlive).2
            rw [(h.hardware p hp).2.1, Nat.mod_eq_of_lt (by omega)]
          calc (SYSCALL_ERROR, freeUserPage (setUserPage (addUserPage k).2
                  (k.pcbs p).userPhysicalMemBlockNum) b)
              = (SYSCALL_ERROR, setUserPage (freeUserPage (addUserPage k).2 b)
                  (k.pcbs p).userPhysicalMemBlockNum) := rfl
            _ = (SYSCALL_ERROR, k) := by rw [hback, setUserPage, hpage]
        · right
          have hne : k.currentPcb ≠ .slot n := by
            rw [hp]
            rintro ⟨⟩
            exact hn.notLive hlive
          have hself := pushedPcb_self (k := (addUserPage k).2) hne
          have htask : k.currentTasks k.currentTask = .slot p := by
            rw [← PcbPtr.slot?_eq_some, h.currentTasks, h.currentTask, ← h.currentPcb, hp]
            rfl
          rw [hstart] at hr
          have hcurrent : (pushedPcb (addUserPage k).2 n).currentPcb = .slot n := rfl
          simp only [hcurrent, Kernel.modifyPcb, updateTss, setUpContext, Function.update_self,
            Function.update_idem, hself] at hr
          have hparent : (pushedPcb (addUserPage k).2 n).currentTasks
                (pushedPcb (addUserPage k).2 n).currentTask
              = topPtr (addUserPage k).2.currentPcb.slot?.toList := by
            calc k.currentTasks k.currentTask
                = topPtr (PcbPtr.slot p).slot?.toList := htask
              _ = topPtr k.currentPcb.slot?.toList := by rw [hp]
          rw [if_pos hparent] at hr
          obtain rfl := Option.some.inj hr
          exact ⟨rfl, n, b, hn,
            launched_of_pushed rfl (trailingOnes_userPages hb hb8) rfl rfl rfl rfl⟩

/-- Starting a shell fails, or it launches a process; no process is current then. -/
lemma startShell_cases {k : Kernel} {s : Sessions} (hslots : ∀ n, s.live n → n < MAX_PROCESSES)
    (hbits : ∀ i < 32, k.pcbBitmap.getLsbD i = false ↔ s.live i)
    {b : ℕ} (hb : LowestClear k.userPages b) (hb8 : b ≤ 8)
    (hfree : ∀ n < MAX_PROCESSES, ¬ s.live n → b < 8) (htwo : 2 ≤ b)
    (hcurrent : k.currentPcb.slot? = none) (stale : HwContext) (flags : UInt32) :
    let r := startShell k k.currentTask stale flags
    (∃ page, r = (SYSCALL_ERROR, { k with userPage := page }))
      ∨ r.1 = 0 ∧ ∃ n, Free k s n b ∧ Launched k r.2 n b := by
  intro r
  have hr : r = startShell k k.currentTask stale flags := rfl
  rw [startShell] at hr
  split at hr
  · exact Or.inl ⟨k.userPage, hr⟩
  · rename_i hexec
    rcases startProgram_cases hslots hbits hb hb8 hfree htwo (not_not.mp hexec) with
      hfail | ⟨n, mem, hn, hstart⟩
    · left
      rw [hfail] at hr
      have hback : r = (SYSCALL_ERROR, freeUserPage (addUserPage k).2 b) := hr
      exact ⟨b % 1024, by rw [hback, freeUserPage_addUserPage hb hb8]⟩
    · right
      have hne : k.currentPcb ≠ .slot n := by
        intro h
        rw [h] at hcurrent
        exact absurd hcurrent (by simp [PcbPtr.slot?])
      have hself := pushedPcb_self (k := (addUserPage k).2) hne
      rw [hstart] at hr
      have hpushed : (pushedPcb (addUserPage k).2 n).currentPcb = .slot n := rfl
      simp only [hpushed, Kernel.modifyPcb, updateTss, setUpContext, Function.update_self,
        Function.update_idem, hself] at hr
      rw [hr]
      exact ⟨rfl, n, hn, launched_of_pushed rfl (trailingOnes_userPages hb hb8) rfl rfl rfl rfl⟩

/-- What `switch_process` leaves before it looks at the process of the terminal. -/
def selectTask (k : Kernel) (t : ℕ) : Kernel :=
  { k with
    currentTask := t
    currentPcb := k.currentTasks t
    tty := changeProcessScreen k.tty t }

/-- **`switch_process`** to another terminal: it selects one with processes, or fails to start a
program there, or starts one. -/
lemma switchProcess_cases {k : Kernel} {s : Sessions} (h : Represents k s) {t : ℕ}
    (ht : k.currentTask ≠ t) (stale : HwContext) (flags : UInt32) :
    let r := switchProcess k t stale flags
    (∃ n, k.currentTasks t = .slot n ∧ r = (0, { selectTask k t with
        userPage := (k.pcbs n).userPhysicalMemBlockNum % 1024
        esp0 := stackTop (k.pcbs n).pcbNum
        fdTable := .pcb (.slot n) }))
      ∨ (k.currentTasks t).slot? = none ∧
        ((∃ page, r = (SYSCALL_ERROR, { selectTask k t with userPage := page }))
          ∨ r.1 = 0 ∧ ∃ n b, Free k s n b ∧ Launched (selectTask k t) r.2 n b) := by
  intro r
  have hr : r = switchProcess k t stale flags := rfl
  obtain ⟨b, hb, htwo, hb8, hfree⟩ := h.freeBlock
  have hshell (hnone : (k.currentTasks t).slot? = none)
      (heq : r = startShell (selectTask k t) t stale flags) :
      (∃ page, r = (SYSCALL_ERROR, { selectTask k t with userPage := page }))
        ∨ r.1 = 0 ∧ ∃ n b, Free k s n b ∧ Launched (selectTask k t) r.2 n b := by
    rw [heq]
    rcases startShell_cases (k := selectTask k t) h.slots h.pcbBitmap hb hb8 hfree htwo hnone
      stale flags with hfail | ⟨hzero, n, hn, hlaunched⟩
    · exact Or.inl hfail
    · exact Or.inr ⟨hzero, n, b, ⟨hn.slot, hn.notLive, hn.block, hn.two_le, hn.lt_eight⟩,
        hlaunched⟩
  rw [switchProcess, if_neg ht] at hr
  cases htask : k.currentTasks t with
  | slot n =>
      rw [htask] at hr
      refine Or.inl ⟨n, rfl, ?_⟩
      rw [hr, selectTask, htask]
      rfl
  | null =>
      have hnone : (k.currentTasks t).slot? = none := by rw [htask]; rfl
      rw [htask] at hr
      refine Or.inr ⟨rfl, hshell hnone ?_⟩
      rw [hr, selectTask, htask]
  | kernelMemEnd =>
      have hnone : (k.currentTasks t).slot? = none := by rw [htask]; rfl
      rw [htask] at hr
      refine Or.inr ⟨rfl, hshell hnone ?_⟩
      rw [hr, selectTask, htask]

/-! ### The kernel refines the operations -/

section Launch

variable {k k' : Kernel} {s : Sessions} {n b m : ℕ}

/-- A new process leaves the others their place and their block. -/
lemma Launched.other (hl : Launched k k' n b) (hfree : Free k s n b) (hm : s.live m) :
    (k'.pcbs m).parent = (k.pcbs m).parent ∧ (k'.pcbs m).pcbNum = (k.pcbs m).pcbNum
      ∧ (k'.pcbs m).userPhysicalMemBlockNum = (k.pcbs m).userPhysicalMemBlockNum := by
  obtain ⟨child, hchild⟩ := hl.others m fun hmn => hfree.notLive (hmn ▸ hm)
  rw [hchild]
  exact ⟨rfl, rfl, rfl⟩

/-- The blocks: the new one, and those there were. -/
lemma Launched.block_cases (hl : Launched k k' n b) (hfree : Free k s n b)
    (hm : (s.launch n hfree.notLive).live m) :
    (m = n ∧ (k'.pcbs m).userPhysicalMemBlockNum = b)
      ∨ s.live m ∧ (k'.pcbs m).userPhysicalMemBlockNum = (k.pcbs m).userPhysicalMemBlockNum := by
  rcases (Sessions.live_launch hfree.notLive).mp hm with rfl | hm
  · exact Or.inl ⟨rfl, hl.block⟩
  · exact Or.inr ⟨hm, (hl.other hfree hm).2.2⟩

/-- A free block is that of no process. -/
lemma Represents.block_ne (h : Represents k s) (hfree : Free k s n b) (hm : s.live m) :
    (k.pcbs m).userPhysicalMemBlockNum ≠ b := by
  intro hmb
  have hlt := hfree.lt_eight
  have hset := (h.userPages b (by omega)).mpr (Or.inr ⟨m, hm, hmb⟩)
  rw [hfree.block.clear] at hset
  exact absurd hset (by decide)

/-- After a launch, too, processes have blocks of their own. -/
lemma Represents.blocksApart_launch (h : Represents k s) (hfree : Free k s n b)
    (hl : Launched k k' n b) {l : ℕ} (hll : (s.launch n hfree.notLive).live l)
    (hlm : (s.launch n hfree.notLive).live m)
    (heq : (k'.pcbs l).userPhysicalMemBlockNum = (k'.pcbs m).userPhysicalMemBlockNum) : l = m := by
  rcases hl.block_cases hfree hll with ⟨hln, hlb⟩ | ⟨hlold, hlb⟩
  · rcases hl.block_cases hfree hlm with ⟨hmn, -⟩ | ⟨hmold, hmb⟩
    · exact hln.trans hmn.symm
    · rw [hlb, hmb] at heq
      exact absurd heq.symm (h.block_ne hfree hmold)
  · rcases hl.block_cases hfree hlm with ⟨-, hmb⟩ | ⟨hmold, hmb⟩
    · rw [hlb, hmb] at heq
      exact absurd heq (h.block_ne hfree hlold)
    · rw [hlb, hmb] at heq
      exact h.blocksApart l m hlold hmold heq

/-- The bitmap of blocks after a launch. -/
lemma Represents.userPages_launch (h : Represents k s) (hfree : Free k s n b)
    (hl : Launched k k' n b) {c : ℕ} (hc : c < 32) : k'.userPages.getLsbD c = true
      ↔ c < 2 ∨ ∃ m, (s.launch n hfree.notLive).live m
        ∧ (k'.pcbs m).userPhysicalMemBlockNum = c := by
  rw [hl.userPages, getLsbD_or_twoPow _ _ _ hc, Bool.or_eq_true, decide_eq_true_eq,
    h.userPages c hc]
  constructor
  · rintro (rfl | hlt | ⟨m, hm, hmc⟩)
    · exact Or.inr ⟨n, (Sessions.live_launch hfree.notLive).mpr (Or.inl rfl), hl.block⟩
    · exact Or.inl hlt
    · exact Or.inr ⟨m, (Sessions.live_launch hfree.notLive).mpr (Or.inr hm),
        (hl.other hfree hm).2.2.trans hmc⟩
  · rintro (hlt | ⟨m, hm, hmc⟩)
    · exact Or.inr (Or.inl hlt)
    · rcases hl.block_cases hfree hm with ⟨-, hmb⟩ | ⟨hm, hmb⟩
      · exact Or.inl (hmc.symm.trans hmb)
      · exact Or.inr (Or.inr ⟨m, hm, hmb.symm.trans hmc⟩)

end Launch

/-- **Starting a program** refines `launch`. -/
theorem Represents.launch {k k' : Kernel} {s : Sessions} (h : Represents k s) {n b : ℕ}
    (hfree : Free k s n b) (hl : Launched k k' n b) :
    Represents k' (s.launch n hfree.notLive) := by
  constructor
  case currentTask => exact hl.currentTask.trans h.currentTask
  case currentTasks =>
    intro t
    rw [hl.currentTasks, h.currentTask, Sessions.stack_launch]
    by_cases ht : t = s.active
    · rw [ht, Function.update_self, Function.update_self]
      rfl
    · rw [Function.update_of_ne ht, Function.update_of_ne ht]
      exact h.currentTasks t
  case currentPcb =>
    rw [hl.currentPcb, Sessions.stack_launch]
    simp [Sessions.launch, PcbPtr.slot?]
  case ancestry =>
    intro t
    have hold (u : ℕ) : Ancestry k'.pcbs (s.stack u) :=
      (h.ancestry u).congr fun m hm =>
        have hother := hl.other hfree ⟨u, hm⟩
        ⟨hother.1, hother.2.1⟩
    rw [Sessions.stack_launch]
    by_cases ht : t = s.active
    · rw [ht, Function.update_self]
      refine ⟨?_, hl.pcbNum, hold s.active⟩
      rw [hl.parent, h.currentPcb]
      cases s.stack s.active with
      | nil => rfl
      | cons p l => rfl
    · rw [Function.update_of_ne ht]
      exact hold t
  case slots =>
    intro m hm
    rcases (Sessions.live_launch hfree.notLive).mp hm with rfl | hm
    · exact hfree.slot
    · exact h.slots m hm
  case pcbBitmap =>
    intro i hi
    rw [hl.pcbBitmap, getLsbD_and_not_twoPow _ _ _ hi, Sessions.live_launch hfree.notLive,
      ← h.pcbBitmap i hi]
    by_cases hin : i = n
    · simp [hin]
    · simp [hin]
  case blocks =>
    intro m hm
    rcases hl.block_cases hfree hm with ⟨-, hmb⟩ | ⟨hm, hmb⟩
    · rw [hmb]
      exact ⟨hfree.two_le, hfree.lt_eight⟩
    · rw [hmb]
      exact h.blocks m hm
  case blocksApart => exact fun l m hll hlm heq => h.blocksApart_launch hfree hl hll hlm heq
  case userPages => exact fun c hc => h.userPages_launch hfree hl hc
  case hardware =>
    intro m hm
    obtain rfl : n = m := by
      rw [hl.currentPcb] at hm
      exact PcbPtr.slot.inj hm
    have hlt := hfree.lt_eight
    have hpage : b % 1024 = b := Nat.mod_eq_of_lt (by omega)
    exact ⟨hl.fdTable, by rw [hl.userPage, hpage, hl.block], hl.esp0⟩

/-- **Selecting** a terminal, with the hardware set for its process if there is one. -/
theorem Represents.select {k k' : Kernel} {s : Sessions} (h : Represents k s) {t : ℕ}
    (htask : k'.currentTask = t) (hpcb : k'.currentPcb = k.currentTasks t)
    (hpcbs : k'.pcbs = k.pcbs) (htasks : k'.currentTasks = k.currentTasks)
    (hbitmap : k'.pcbBitmap = k.pcbBitmap) (hpages : k'.userPages = k.userPages)
    (hhardware : ∀ n, k'.currentPcb = .slot n → k'.fdTable = .pcb (.slot n)
      ∧ k'.userPage = (k'.pcbs n).userPhysicalMemBlockNum ∧ k'.esp0 = stackTop n) :
    Represents k' (s.select t) where
  currentTask := htask
  currentTasks := by
    rw [htasks]
    exact h.currentTasks
  currentPcb := by
    rw [hpcb]
    exact h.currentTasks t
  ancestry := by
    rw [hpcbs]
    exact h.ancestry
  slots := h.slots
  pcbBitmap := by
    rw [hbitmap]
    exact h.pcbBitmap
  blocks := by
    rw [hpcbs]
    exact h.blocks
  blocksApart := by
    rw [hpcbs]
    exact h.blocksApart
  userPages := by
    rw [hpcbs, hpages]
    exact h.userPages
  hardware := hhardware

/-- What `halt` leaves, with the PCB of slot `n` on top of `l`. -/
structure Halted (k k' : Kernel) (n : ℕ) (l : List ℕ) (status : UInt8) : Prop where
  currentTask : k'.currentTask = k.currentTask
  currentTasks : k'.currentTasks = Function.update k.currentTasks k.currentTask (topPtr l)
  currentPcb : k'.currentPcb = topPtr l
  pcbBitmap : k'.pcbBitmap = k.pcbBitmap ||| BitVec.twoPow 32 n
  userPages :
    k'.userPages = k.userPages ^^^ BitVec.twoPow 32 (k.pcbs n).userPhysicalMemBlockNum
  pcbs : k'.pcbs = k.pcbs
  fdTable : k'.fdTable = .pcb (topPtr l)
  parent : ∀ p, topPtr l = .slot p →
    k'.userPage = (k.pcbs p).userPhysicalMemBlockNum % 1024 ∧ k'.esp0 = stackTop (k.pcbs p).pcbNum
      ∧ k'.contexts = (k.setEax (k.pcbs p).context status.toUInt32).contexts
  noParent : topPtr l = .kernelMemEnd → k'.contexts = k.contexts
  contextCount : k'.contextCount = k.contextCount
  globalContext : k'.globalContext = k.globalContext

/-- The process on the active terminal, and those that wait for it. -/
lemma Represents.stack_active {k : Kernel} {s : Sessions} (h : Represents k s) {n : ℕ}
    (hn : k.currentPcb = .slot n) : ∃ l, s.stack s.active = n :: l := by
  have hhead : (s.stack s.active).head? = some n := by
    rw [← h.currentPcb, hn]
    rfl
  obtain ⟨l, hl⟩ := List.head?_eq_some_iff.mp hhead
  exact ⟨l, hl⟩

/-- **`halt`**, called by a process, succeeds. -/
lemma halt_cases {k : Kernel} {s : Sessions} (h : Represents k s) {n : ℕ} {l : List ℕ}
    (hn : k.currentPcb = .slot n) (hl : s.stack s.active = n :: l) (status : UInt8) :
    ∃ k', halt k status = some (0, k') ∧ Halted k k' n l status := by
  have hancestry := h.ancestry s.active
  rw [hl] at hancestry
  obtain ⟨hparent, hnum, -⟩ := hancestry
  have htask : k.currentTasks k.currentTask = .slot n := by
    rw [← PcbPtr.slot?_eq_some, h.currentTasks, h.currentTask, hl]
    rfl
  rw [halt, hn]
  simp only
  cases l with
  | nil =>
      have hkme : (k.pcbs n).parent = .kernelMemEnd := hparent
      simp only [hkme, htask, if_true, freeUserPage, popPcb, hn, hnum]
      refine ⟨_, rfl, rfl, rfl, rfl, rfl, rfl, rfl, rfl, ?_, fun _ => rfl, rfl, rfl⟩
      exact fun p hp => absurd hp (by simp [topPtr])
  | cons p l =>
      have hslot : (k.pcbs n).parent = .slot p := hparent
      simp only [hslot, htask, if_true, freeUserPage, popPcb, hn, hnum, setUserPage, updateTss,
        Kernel.setEax]
      refine ⟨_, rfl, rfl, rfl, rfl, rfl, rfl, rfl, rfl, ?_, ?_, rfl, rfl⟩
      · intro q hq
        obtain rfl : p = q := PcbPtr.slot.inj hq
        exact ⟨rfl, rfl, rfl⟩
      · exact fun hp => absurd hp (by simp [topPtr])

/-- **`halt`** refines `exit`. -/
theorem Represents.exit {k k' : Kernel} {s : Sessions} (h : Represents k s) {n : ℕ} {l : List ℕ}
    {status : UInt8} (hl : s.stack s.active = n :: l) (hh : Halted k k' n l status) :
    Represents k' s.exit := by
  have hlive : s.live n := ⟨s.active, by rw [hl]; exact List.mem_cons_self⟩
  have hold {m : ℕ} (hm : s.exit.live m) : s.live m := ((Sessions.live_exit hl).mp hm).2
  constructor
  case currentTask => exact hh.currentTask.trans h.currentTask
  case currentTasks =>
    intro t
    rw [hh.currentTasks, h.currentTask, Sessions.stack_exit, hl, List.tail_cons]
    by_cases ht : t = s.active
    · rw [ht, Function.update_self, Function.update_self, slot?_topPtr]
    · rw [Function.update_of_ne ht, Function.update_of_ne ht]
      exact h.currentTasks t
  case currentPcb =>
    have hself : Function.update s.stack s.active l s.exit.active = l :=
      Function.update_self s.active l s.stack
    rw [hh.currentPcb, Sessions.stack_exit, hl, List.tail_cons, slot?_topPtr, hself]
  case ancestry =>
    intro t
    rw [hh.pcbs, Sessions.stack_exit, hl, List.tail_cons]
    by_cases ht : t = s.active
    · rw [ht, Function.update_self]
      have hancestry := h.ancestry s.active
      rw [hl] at hancestry
      exact hancestry.2.2
    · rw [Function.update_of_ne ht]
      exact h.ancestry t
  case slots => exact fun m hm => h.slots m (hold hm)
  case pcbBitmap =>
    intro i hi
    rw [hh.pcbBitmap, getLsbD_or_twoPow _ _ _ hi, Sessions.live_exit hl, Bool.or_eq_false_iff,
      decide_eq_false_iff_not, h.pcbBitmap i hi]
  case blocks =>
    rw [hh.pcbs]
    exact fun m hm => h.blocks m (hold hm)
  case blocksApart =>
    rw [hh.pcbs]
    exact fun m q hm hq => h.blocksApart m q (hold hm) (hold hq)
  case userPages =>
    intro b hb
    rw [hh.userPages, hh.pcbs, getLsbD_xor_twoPow _ _ _ hb]
    by_cases hbn : b = (k.pcbs n).userPhysicalMemBlockNum
    · -- the block of the process that ends
      have hset := (h.userPages b hb).mpr (Or.inr ⟨n, hlive, hbn.symm⟩)
      have hrange := h.blocks n hlive
      rw [hset, decide_eq_true hbn]
      refine iff_of_false (by decide) ?_
      rintro (hlt | ⟨m, hm, hmb⟩)
      · omega
      · exact ((Sessions.live_exit hl).mp hm).1
          (h.blocksApart m n (hold hm) hlive (hmb.trans hbn))
    · rw [decide_eq_false hbn, Bool.xor_false, h.userPages b hb]
      refine or_congr_right ⟨?_, ?_⟩
      · rintro ⟨m, hm, hmb⟩
        refine ⟨m, (Sessions.live_exit hl).mpr ⟨?_, hm⟩, hmb⟩
        rintro rfl
        exact hbn hmb.symm
      · exact fun ⟨m, hm, hmb⟩ => ⟨m, hold hm, hmb⟩
  case hardware =>
    intro m hm
    rw [hh.currentPcb] at hm
    obtain ⟨hpage, hesp, -⟩ := hh.parent m hm
    cases l with
    | nil => exact absurd hm (by simp [topPtr])
    | cons p l =>
        obtain rfl : p = m := PcbPtr.slot.inj hm
        have hlivep : s.live p := ⟨s.active, by rw [hl]; simp⟩
        have hancestry := h.ancestry s.active
        rw [hl] at hancestry
        have hlt := (h.blocks p hlivep).2
        refine ⟨hh.fdTable, ?_, ?_⟩
        · rw [hpage, hh.pcbs, Nat.mod_eq_of_lt (by omega)]
        · rw [hesp, hancestry.2.2.2.1]

end CustomLinuxOs
