import CustomLinuxOs.Foundations.Run
import CustomLinuxOs.Process.Sessions

/-!
Slots and pages of processes, over whole runs.

* `Represents.congr`: what the other functions of the kernel leave alone.
* `kernelStep_refines`: every event selects a terminal, launches a process or ends one.
* `Accounts`: a kernel state with the slots of the processes that have been started and have not
  halted, in the order of their starts.
* `Exact`: slots, blocks and bitmaps are those of the live processes.
* `accounts_exact`: they are in all states of a run from boot.
-/

namespace CustomLinuxOs

/-- The events that start a process: `execute` and `switch_process` with the value `0`, the latter
to a terminal without processes. -/
def KernelEvent.launches (k : Kernel) : KernelEvent → Bool
  | .syscall context (.execute command stale flags) =>
      (trap k context (.execute command stale flags)).any fun r => r.1 == 0
  | .switchProcess taskId stale flags =>
      k.currentTask != taskId && (k.currentTasks taskId).slot?.isNone
        && (CustomLinuxOs.switchProcess k taskId stale flags).1 == 0
  | _ => false

/-- The events that end the current process. -/
def KernelEvent.halts : KernelEvent → Bool
  | .syscall _ (.halt _) => true
  | _ => false

/-- The terminal that is active after an event. -/
def KernelEvent.terminal (k : Kernel) : KernelEvent → ℕ
  | .switchProcess taskId _ _ => taskId
  | _ => k.currentTask

section Frame

variable {k k' : Kernel} {s : Sessions}

/-- Changing contexts, descriptors and children of PCBs keeps the representation. -/
lemma Represents.congr (h : Represents k s) (htask : k'.currentTask = k.currentTask)
    (htasks : k'.currentTasks = k.currentTasks) (hpcb : k'.currentPcb = k.currentPcb)
    (hbitmap : k'.pcbBitmap = k.pcbBitmap) (hpages : k'.userPages = k.userPages)
    (htable : k'.fdTable = k.fdTable) (hpage : k'.userPage = k.userPage) (hesp : k'.esp0 = k.esp0)
    (hpcbs : ∀ m, (k'.pcbs m).parent = (k.pcbs m).parent ∧ (k'.pcbs m).pcbNum = (k.pcbs m).pcbNum
      ∧ (k'.pcbs m).userPhysicalMemBlockNum = (k.pcbs m).userPhysicalMemBlockNum) :
    Represents k' s where
  currentTask := htask.trans h.currentTask
  currentTasks := by
    rw [htasks]
    exact h.currentTasks
  currentPcb := by
    rw [hpcb]
    exact h.currentPcb
  ancestry t := (h.ancestry t).congr fun m _ => ⟨(hpcbs m).1, (hpcbs m).2.1⟩
  slots := h.slots
  pcbBitmap := by
    rw [hbitmap]
    exact h.pcbBitmap
  blocks n hn := by
    rw [(hpcbs n).2.2]
    exact h.blocks n hn
  blocksApart m n hm hn heq := by
    rw [(hpcbs m).2.2, (hpcbs n).2.2] at heq
    exact h.blocksApart m n hm hn heq
  userPages b hb := by
    rw [hpages, h.userPages b hb]
    simp only [(hpcbs _).2.2]
  hardware n hn := by
    rw [hpcb] at hn
    rw [htable, hpage, hesp, (hpcbs n).2.2]
    exact h.hardware n hn

/-- Only the PCB of the current process has been touched, and there the context and the descriptors
only. -/
structure Quiet (k k' : Kernel) : Prop where
  currentTask : k'.currentTask = k.currentTask
  currentTasks : k'.currentTasks = k.currentTasks
  currentPcb : k'.currentPcb = k.currentPcb
  pcbBitmap : k'.pcbBitmap = k.pcbBitmap
  userPages : k'.userPages = k.userPages
  fdTable : k'.fdTable = k.fdTable
  userPage : k'.userPage = k.userPage
  esp0 : k'.esp0 = k.esp0
  contextCount : k.contextCount ≤ k'.contextCount
  others : ∀ m, k.currentPcb ≠ .slot m → k'.pcbs m = k.pcbs m
  current : ∀ m, ∃ fds context,
    k'.pcbs m = { k.pcbs m with processFdTable := fds, context := context }

lemma Quiet.refl (k : Kernel) : Quiet k k :=
  ⟨rfl, rfl, rfl, rfl, rfl, rfl, rfl, rfl, le_rfl, fun _ _ => rfl, fun _ => ⟨_, _, rfl⟩⟩

lemma Quiet.trans {k'' : Kernel} (h : Quiet k k') (h' : Quiet k' k'') : Quiet k k'' where
  currentTask := h'.currentTask.trans h.currentTask
  currentTasks := h'.currentTasks.trans h.currentTasks
  currentPcb := h'.currentPcb.trans h.currentPcb
  pcbBitmap := h'.pcbBitmap.trans h.pcbBitmap
  userPages := h'.userPages.trans h.userPages
  fdTable := h'.fdTable.trans h.fdTable
  userPage := h'.userPage.trans h.userPage
  esp0 := h'.esp0.trans h.esp0
  contextCount := h.contextCount.trans h'.contextCount
  others m hm := (h'.others m (by rwa [h.currentPcb])).trans (h.others m hm)
  current m := by
    obtain ⟨fds, context, hm⟩ := h.current m
    obtain ⟨fds', context', hm'⟩ := h'.current m
    exact ⟨fds', context', by rw [hm', hm]⟩

lemma Quiet.represents (hq : Quiet k k') (h : Represents k s) : Represents k' s := by
  refine h.congr hq.currentTask hq.currentTasks hq.currentPcb hq.pcbBitmap hq.userPages
    hq.fdTable hq.userPage hq.esp0 fun m => ?_
  obtain ⟨fds, context, hm⟩ := hq.current m
  rw [hm]
  exact ⟨rfl, rfl, rfl⟩

/-- Changing context and descriptors of the current process. -/
lemma quiet_modifyPcb {n : ℕ} (hn : k.currentPcb = .slot n) (fds : FdTable) (context : ℕ) :
    Quiet k (k.modifyPcb n fun pcb => { pcb with processFdTable := fds, context := context }) where
  currentTask := rfl
  currentTasks := rfl
  currentPcb := rfl
  pcbBitmap := rfl
  userPages := rfl
  fdTable := rfl
  userPage := rfl
  esp0 := rfl
  contextCount := le_rfl
  others m hm := Function.update_of_ne (fun h => hm (by rw [h, hn])) _ _
  current m := by
    by_cases hmn : m = n
    · refine ⟨fds, context, ?_⟩
      rw [hmn]
      exact Function.update_self _ _ _
    · exact ⟨_, _, Function.update_of_ne hmn _ _⟩

lemma quiet_setEax (k : Kernel) (c : ℕ) (v : UInt32) : Quiet k (k.setEax c v) :=
  ⟨rfl, rfl, rfl, rfl, rfl, rfl, rfl, rfl, le_rfl, fun _ _ => rfl, fun _ => ⟨_, _, rfl⟩⟩

/-- Entering an interrupt touches contexts only. -/
lemma irqEntry_quiet {c : HwContext} (h : irqEntry k c = some k') : Quiet k k' := by
  rw [irqEntry] at h
  cases hcurrent : k.currentPcb with
  | null =>
      rw [hcurrent] at h
      exact absurd h (by simp)
  | kernelMemEnd =>
      rw [hcurrent] at h
      obtain rfl := Option.some.inj h
      exact ⟨rfl, rfl, hcurrent.symm, rfl, rfl, rfl, rfl, rfl, Nat.le_succ _, fun _ _ => rfl,
        fun _ => ⟨_, _, rfl⟩⟩
  | slot n =>
      rw [hcurrent] at h
      obtain rfl := Option.some.inj h
      have hq := quiet_modifyPcb hcurrent (k.pcbs n).processFdTable k.contextCount
      exact ⟨hq.currentTask, hq.currentTasks, hq.currentPcb, hq.pcbBitmap, hq.userPages,
        hq.fdTable, hq.userPage, hq.esp0, Nat.le_succ _, hq.others, hq.current⟩

/-- Leaving an interrupt touches contexts only. -/
lemma irqExit_quiet (h : irqExit k = some k') : Quiet k k' := by
  obtain ⟨c, -, rfl⟩ := Option.map_eq_some_iff.mp h
  rw [swapContext]
  cases hcurrent : k.currentPcb with
  | null =>
      exact ⟨rfl, rfl, hcurrent.symm, rfl, rfl, rfl, rfl, rfl, le_rfl, fun _ _ => rfl,
        fun _ => ⟨_, _, rfl⟩⟩
  | kernelMemEnd =>
      exact ⟨rfl, rfl, hcurrent.symm, rfl, rfl, rfl, rfl, rfl, le_rfl, fun _ _ => rfl,
        fun _ => ⟨_, _, rfl⟩⟩
  | slot n => exact quiet_modifyPcb hcurrent (k.pcbs n).processFdTable (k.contexts c).parent

/-- A call on descriptors is on those of the current process. -/
lemma withFdTable_quiet {f : FdTable → ℤ × FdTable} {r : ℤ × Kernel} {n : ℕ}
    (hn : k.currentPcb = .slot n) (htable : k.fdTable = .pcb (.slot n))
    (h : withFdTable k f = some r) : Quiet k r.2 := by
  rw [withFdTable, htable] at h
  obtain rfl := Option.some.inj h
  exact quiet_modifyPcb hn (f (k.pcbs n).processFdTable).2 (k.pcbs n).context

end Frame

/-! ### Every event refines an operation -/

/-- What an event does to the processes of the terminals. -/
inductive SessionStep (k k' : Kernel) (s : Sessions) (e : KernelEvent) : Sessions → Prop
  | select : e.launches k = false → e.halts = false →
      SessionStep k k' s e (s.select (e.terminal k))
  | launch (n : ℕ) (h : ¬ (s.select (e.terminal k)).live n) : e.launches k = true →
      e.halts = false → k'.currentPcb = .slot n →
      SessionStep k k' s e ((s.select (e.terminal k)).launch n h)
  | exit (n : ℕ) (l : List ℕ) : e.launches k = false → e.halts = true → k.currentPcb = .slot n →
      s.stack s.active = n :: l → SessionStep k k' s e s.exit

/-- Processes keep their blocks, and those that are not current all of their PCB but the child.
Contexts are only added. -/
structure Kept (k k' : Kernel) (s : Sessions) : Prop where
  contextCount : k.contextCount ≤ k'.contextCount
  block : ∀ m, s.live m →
    (k'.pcbs m).userPhysicalMemBlockNum = (k.pcbs m).userPhysicalMemBlockNum
  waiting : ∀ m, s.live m → k.currentPcb ≠ .slot m →
    ∃ child, k'.pcbs m = { k.pcbs m with child := child }

section Refinement

variable {k k' k'' : Kernel} {s : Sessions} {e : KernelEvent}

/-- The terminal that is active already. -/
lemma Represents.select_currentTask (h : Represents k s) : s.select k.currentTask = s := by
  rw [h.currentTask]
  rfl

lemma Kept.of_pcbs (h : k'.pcbs = k.pcbs) (hcount : k.contextCount ≤ k'.contextCount) :
    Kept k k' s where
  contextCount := hcount
  block m _ := by rw [h]
  waiting m _ _ := ⟨_, by rw [h]⟩

lemma Quiet.kept (h : Quiet k k') : Kept k k' s where
  contextCount := h.contextCount
  block m _ := by
    obtain ⟨fds, context, hm⟩ := h.current m
    rw [hm]
  waiting m _ hcurrent := ⟨_, h.others m hcurrent⟩

lemma Launched.kept {n b : ℕ} (h : Launched k k' n b) (hn : ¬ s.live n) : Kept k k' s where
  contextCount := by
    rw [h.contextCount]
    exact Nat.le_succ _
  block m hm := by
    obtain ⟨child, hchild⟩ := h.others m (by rintro rfl; exact hn hm)
    rw [hchild]
  waiting m hm _ := h.others m (by rintro rfl; exact hn hm)

/-- First something quiet. -/
lemma Kept.of_quiet (hq : Quiet k k') (h : Kept k' k'' s) : Kept k k'' s where
  contextCount := hq.contextCount.trans h.contextCount
  block m hm := by
    obtain ⟨fds, context, hpcb⟩ := hq.current m
    rw [h.block m hm, hpcb]
  waiting m hm hcurrent := by
    obtain ⟨child, hchild⟩ := h.waiting m hm (by rwa [hq.currentPcb])
    exact ⟨child, by rw [hchild, hq.others m hcurrent]⟩

/-- **All a system call can do**: after the entry `k1` it leaves the processes as they are, or it
starts one in a free slot, or it ends the current one. -/
lemma trap_cases (h : Represents k s) {c : HwContext} {call : Syscall} {r : ℤ × Kernel}
    (hr : trap k c call = some r) : ∃ n k1, k.currentPcb = .slot n ∧ Quiet k k1
      ∧ (Quiet k1 r.2 ∧ (KernelEvent.syscall c call).launches k = false
          ∧ (KernelEvent.syscall c call).halts = false
        ∨ (∃ m b, Free k1 s m b ∧ Launched k1 r.2 m b
          ∧ (KernelEvent.syscall c call).launches k = true
          ∧ (KernelEvent.syscall c call).halts = false)
        ∨ ∃ status l, call = .halt status ∧ s.stack s.active = n :: l
          ∧ Halted k1 r.2 n l status) := by
  have hlaunches : ∀ command stale flags, call = .execute command stale flags →
      (KernelEvent.syscall c call).launches k = (r.1 == 0) := by
    rintro command stale flags rfl
    rw [KernelEvent.launches, hr, Option.any_some]
  rw [trap] at hr
  cases hn : k.currentPcb with
  | null =>
      rw [hn] at hr
      exact absurd hr (by simp)
  | kernelMemEnd =>
      rw [hn] at hr
      exact absurd hr (by simp)
  | slot n =>
      rw [hn] at hr
      obtain ⟨k1, hentry, hcall⟩ := Option.bind_eq_some_iff.mp hr
      have hq := irqEntry_quiet hentry
      have h1 := hq.represents h
      have hn1 : k1.currentPcb = .slot n := hq.currentPcb.trans hn
      refine ⟨n, k1, rfl, hq, ?_⟩
      cases call with
      | execute command stale flags =>
          have hzero := hlaunches _ _ _ rfl
          rcases execute_cases h1 hn1 hcall with rfl | ⟨hstarted, m, b, hfree, hlaunched⟩
          · exact .inl ⟨Quiet.refl k1, hzero, rfl⟩
          · refine .inr (.inl ⟨m, b, hfree, hlaunched, ?_, rfl⟩)
            rw [hzero, hstarted]
            rfl
      | halt status =>
          obtain ⟨l, hl⟩ := h.stack_active hn
          obtain ⟨k2, hhalt, hhalted⟩ := halt_cases h1 hn1 hl status
          rw [Syscall.run, hhalt] at hcall
          obtain rfl := Option.some.inj hcall
          exact .inr (.inr ⟨status, l, rfl, hl, hhalted⟩)
      | «open» counter filename =>
          rw [Syscall.run] at hcall
          exact .inl ⟨withFdTable_quiet hn1 (h1.hardware n hn1).1 hcall, rfl, rfl⟩
      | close fd =>
          rw [Syscall.run] at hcall
          exact .inl ⟨withFdTable_quiet hn1 (h1.hardware n hn1).1 hcall, rfl, rfl⟩

/-- A system call refines an operation. -/
lemma syscall_refines (h : Represents k s) {c : HwContext} {call : Syscall} {r : ℤ × Kernel}
    (hr : trap k c call = some r) : ∃ s', SessionStep k r.2 s (.syscall c call) s'
      ∧ Represents r.2 s' ∧ Kept k r.2 s := by
  have hself := h.select_currentTask
  obtain ⟨n, k1, hn, hq, hcases⟩ := trap_cases h hr
  have h1 := hq.represents h
  rcases hcases with ⟨hq2, hlaunches, hhalts⟩ | ⟨m, b, hfree, hlaunched, hlaunches, hhalts⟩ |
    ⟨status, l, rfl, hl, hhalted⟩
  · have h1' : Represents k1 (s.select k.currentTask) := by rwa [hself]
    exact ⟨_, .select hlaunches hhalts, hq2.represents h1', (hq.trans hq2).kept⟩
  · have hfree' : Free k1 (s.select k.currentTask) m b := by rwa [hself]
    have h1' : Represents k1 (s.select k.currentTask) := by rwa [hself]
    exact ⟨_, .launch m hfree'.notLive hlaunches hhalts hlaunched.currentPcb,
      h1'.launch hfree' hlaunched, (hlaunched.kept (s := s) hfree.notLive).of_quiet hq⟩
  · exact ⟨_, .exit n l rfl rfl hn hl, h1.exit hl hhalted,
      (Kept.of_pcbs hhalted.pcbs hhalted.contextCount.ge).of_quiet hq⟩

/-- A process knows its slot. -/
lemma Represents.pcbNum (h : Represents k s) {n : ℕ} (hn : s.live n) : (k.pcbs n).pcbNum = n := by
  obtain ⟨t, ht⟩ := hn
  have key {l : List ℕ} (hl : Ancestry k.pcbs l) (hmem : n ∈ l) : (k.pcbs n).pcbNum = n := by
    induction l with
    | nil => exact absurd hmem (by simp)
    | cons m l ih =>
        rcases List.mem_cons.mp hmem with rfl | hmem
        · exact hl.2.1
        · exact ih hl.2.2 hmem
  exact key (h.ancestry t) ht

/-- Going to a terminal with a process. -/
lemma Represents.select_process (h : Represents k s) {t n : ℕ} (hn : k.currentTasks t = .slot n) :
    Represents { selectTask k t with
      userPage := (k.pcbs n).userPhysicalMemBlockNum % 1024
      esp0 := stackTop (k.pcbs n).pcbNum
      fdTable := .pcb (.slot n) } (s.select t) := by
  have hhead : (s.stack t).head? = some n := by
    rw [← h.currentTasks, hn]
    rfl
  have hlive : s.live n := ⟨t, List.mem_of_mem_head? hhead⟩
  have hblock := (h.blocks n hlive).2
  refine h.select rfl rfl rfl rfl rfl rfl fun m hm => ?_
  obtain rfl : n = m := PcbPtr.slot.inj (hn.symm.trans hm)
  exact ⟨rfl, Nat.mod_eq_of_lt (by omega), congrArg stackTop (h.pcbNum hlive)⟩

/-- Going to a terminal without one. -/
lemma Represents.select_empty (h : Represents k s) {t : ℕ}
    (hnone : (k.currentTasks t).slot? = none) (page : ℕ) :
    Represents { selectTask k t with userPage := page } (s.select t) := by
  refine h.select rfl rfl rfl rfl rfl rfl fun m hm => ?_
  have hslot : (k.currentTasks t).slot? = some m := PcbPtr.slot?_eq_some.mpr hm
  exact absurd (hnone.symm.trans hslot) (by simp)

/-- `switch_process` refines an operation. -/
lemma switchProcess_refines (h : Represents k s) (t : ℕ) (stale : HwContext) (flags : UInt32) :
    ∃ s', SessionStep k (switchProcess k t stale flags).2 s (.switchProcess t stale flags) s'
      ∧ Represents (switchProcess k t stale flags).2 s'
      ∧ Kept k (switchProcess k t stale flags).2 s := by
  rcases eq_or_ne k.currentTask t with heq | hne
  · have hsame : switchProcess k t stale flags = (0, k) := by rw [switchProcess, if_pos heq]
    rw [hsame]
    refine ⟨_, .select ?_ rfl, ?_, Kept.of_pcbs rfl le_rfl⟩
    · simp [KernelEvent.launches, heq]
    · rw [KernelEvent.terminal, ← heq, h.select_currentTask]
      exact h
  · have hlaunches : (KernelEvent.switchProcess t stale flags).launches k
        = ((k.currentTasks t).slot?.isNone && (switchProcess k t stale flags).1 == 0) := by
      rw [KernelEvent.launches, bne_iff_ne.mpr hne, Bool.true_and]
    rcases switchProcess_cases h hne stale flags with
      ⟨n, hn, hr⟩ | ⟨hnone, ⟨page, hr⟩ | ⟨hzero, n, b, hfree, hlaunched⟩⟩
    · rw [hr] at hlaunches ⊢
      refine ⟨_, .select ?_ rfl, h.select_process hn, Kept.of_pcbs rfl le_rfl⟩
      rw [hlaunches, hn]
      rfl
    · rw [hr] at hlaunches ⊢
      refine ⟨_, .select ?_ rfl, h.select_empty hnone page, Kept.of_pcbs rfl le_rfl⟩
      rw [hlaunches, hnone]
      rfl
    · have hselect : Represents (selectTask k t) (s.select t) := h.select_empty hnone k.userPage
      have hfree' : Free (selectTask k t) (s.select t) n b :=
        ⟨hfree.slot, hfree.notLive, hfree.block, hfree.two_le, hfree.lt_eight⟩
      refine ⟨_, .launch n hfree'.notLive ?_ rfl hlaunched.currentPcb,
        hselect.launch hfree' hlaunched, ?_⟩
      · rw [hlaunches, hnone, hzero]
        rfl
      · have hkept := hlaunched.kept (s := s) hfree.notLive
        refine ⟨hkept.contextCount, hkept.block, fun m hm _ => hlaunched.others m ?_⟩
        rintro rfl
        exact hfree.notLive hm

/-- **Refinement**: every event of the kernel is an operation on the processes of the terminals. -/
theorem kernelStep_refines (h : Represents k s) (hstep : kernelStep k e = some k') :
    ∃ s', SessionStep k k' s e s' ∧ Represents k' s' ∧ Kept k k' s := by
  cases e with
  | irq context =>
      have hq := irqEntry_quiet hstep
      have hself : Represents k (s.select k.currentTask) := by rwa [h.select_currentTask]
      exact ⟨_, .select rfl rfl, hq.represents hself, hq.kept⟩
  | switchProcess t stale flags =>
      rw [kernelStep] at hstep
      split at hstep
      · obtain rfl := Option.some.inj hstep
        exact switchProcess_refines h t stale flags
      · exact absurd hstep (by simp)
  | syscall context call =>
      obtain ⟨r, hr, rfl⟩ := Option.map_eq_some_iff.mp hstep
      obtain ⟨s', hsession, hrep, hkept⟩ := syscall_refines h hr
      refine ⟨s', ?_, (quiet_setEax r.2 _ _).represents hrep, hkept.contextCount, hkept.block,
        hkept.waiting⟩
      cases hsession with
      | select h1 h2 => exact .select h1 h2
      | launch n hn h1 h2 h3 => exact .launch n hn h1 h2 h3
      | exit n l h1 h2 h3 h4 => exact .exit n l h1 h2 h3 h4
  | iret =>
      have hq := irqExit_quiet hstep
      have hself : Represents k (s.select k.currentTask) := by rwa [h.select_currentTask]
      exact ⟨_, .select rfl rfl, hq.represents hself, hq.kept⟩

end Refinement

/-! ### Accounts -/

/-- A kernel state and the slots of the live processes: those that have been started, the last one
first, and have not halted. -/
structure Accounts where
  kernel : Kernel
  live : List ℕ

/-- An event, written down in the accounts. -/
def accountStep (a : Accounts) (e : KernelEvent) : Option Accounts :=
  (kernelStep a.kernel e).map fun k =>
    { kernel := k
      live :=
        if e.launches a.kernel then k.currentPcb.slot?.toList ++ a.live
        else if e.halts then a.live.filter fun n => a.kernel.currentPcb ≠ .slot n
        else a.live }

/-- The bitmaps, PCBs and blocks are those of the live processes. -/
structure Exact (a : Accounts) : Prop where
  few : a.live.length ≤ MAX_PROCESSES
  slots : (a.live.map fun n => (a.kernel.pcbs n).pcbNum).Nodup
  pcbBitmap : ∀ i < 32, a.kernel.pcbBitmap.getLsbD i = false
    ↔ ∃ n ∈ a.live, (a.kernel.pcbs n).pcbNum = i
  blocks : (a.live.map fun n => (a.kernel.pcbs n).userPhysicalMemBlockNum).Nodup
  userPages : ∀ b < 32, a.kernel.userPages.getLsbD b = true
    ↔ b = 0 ∨ b = 1 ∨ ∃ n ∈ a.live, (a.kernel.pcbs n).userPhysicalMemBlockNum = b
  range : ∀ n ∈ a.live, 2 ≤ (a.kernel.pcbs n).userPhysicalMemBlockNum
    ∧ (a.kernel.pcbs n).userPhysicalMemBlockNum ≤ 7

/-- The accounts are those of the processes of the terminals. -/
def Accounts.Of (a : Accounts) (s : Sessions) : Prop :=
  Represents a.kernel s ∧ a.live.Nodup ∧ ∀ n, n ∈ a.live ↔ s.live n

/-- Accounts of processes of terminals are exact. -/
lemma Accounts.Of.exact {a : Accounts} {s : Sessions} (h : a.Of s) : Exact a := by
  obtain ⟨hrep, hnodup, hlive⟩ := h
  have hnum {n : ℕ} (hn : n ∈ a.live) : (a.kernel.pcbs n).pcbNum = n :=
    hrep.pcbNum ((hlive n).mp hn)
  refine ⟨?_, ?_, fun i hi => ?_, ?_, fun b hb => ?_, fun n hn => ?_⟩
  · calc a.live.length = a.live.toFinset.card := (List.toFinset_card_of_nodup hnodup).symm
      _ ≤ (Finset.range MAX_PROCESSES).card := by
        refine Finset.card_le_card fun n hn => Finset.mem_range.mpr ?_
        exact hrep.slots n ((hlive n).mp (List.mem_toFinset.mp hn))
      _ = MAX_PROCESSES := Finset.card_range _
  · rw [List.map_congr_left fun n hn => hnum hn, List.map_id']
    exact hnodup
  · rw [hrep.pcbBitmap i hi, ← hlive]
    refine ⟨fun hn => ⟨i, hn, hnum hn⟩, ?_⟩
    rintro ⟨n, hn, rfl⟩
    rwa [hnum hn]
  · refine hnodup.map_on fun m hm n hn => ?_
    exact hrep.blocksApart m n ((hlive m).mp hm) ((hlive n).mp hn)
  · rw [hrep.userPages b hb, ← or_assoc]
    refine or_congr (by omega) ?_
    simp only [hlive]
  · have := hrep.blocks n ((hlive n).mp hn)
    omega

/-- An event keeps the accounts right. -/
lemma Accounts.Of.step {a b : Accounts} {s : Sessions} {e : KernelEvent} (h : a.Of s)
    (hstep : accountStep a e = some b) : ∃ s', b.Of s' := by
  obtain ⟨k, hk, rfl⟩ := Option.map_eq_some_iff.mp hstep
  obtain ⟨hrep, hnodup, hlive⟩ := h
  obtain ⟨s', hsession, hrep', -⟩ := kernelStep_refines hrep hk
  refine ⟨s', hrep', ?_⟩
  cases hsession with
  | select hlaunch hhalt =>
      simp only [hlaunch, hhalt, Bool.false_eq_true, if_false]
      exact ⟨hnodup, hlive⟩
  | launch n hn hlaunch hhalt hcurrent =>
      simp only [hlaunch, if_true, hcurrent, PcbPtr.slot?, Option.toList_some,
        List.singleton_append]
      refine ⟨List.nodup_cons.mpr ⟨fun hmem => hn ((hlive n).mp hmem), hnodup⟩, fun m => ?_⟩
      rw [List.mem_cons, Sessions.live_launch, hlive]
      rfl
  | exit n l hlaunch hhalt hcurrent hstack =>
      simp only [hlaunch, hhalt, Bool.false_eq_true, if_false, if_true, hcurrent]
      refine ⟨hnodup.filter _, fun m => ?_⟩
      rw [List.mem_filter, Sessions.live_exit hstack, hlive, and_comm]
      refine and_congr_left fun _ => ?_
      rw [decide_eq_true_eq, Ne, PcbPtr.slot.injEq]
      exact ne_comm

/-- **Accounting**: in every state of a run from boot, at most six processes are live, in slots and
blocks of their own, and the two bitmaps are those of these slots and blocks. -/
theorem accounts_exact {boot : Kernel} (hboot : boot.Booted) {es : List KernelEvent} {a : Accounts}
    (hrun : Run accountStep ⟨boot, []⟩ es a) : Exact a := by
  have hstart : (⟨boot, []⟩ : Accounts).Of Sessions.none :=
    ⟨hboot.represents, List.nodup_nil, fun n => iff_of_false (by simp) fun ⟨_, hn⟩ => by
      simp [Sessions.none] at hn⟩
  obtain ⟨s, hs⟩ : ∃ s, a.Of s := by
    refine hrun.invariant (P := fun b => ∃ s, b.Of s) ⟨_, hstart⟩ ?_
    rintro b e c ⟨s, hs⟩ hstep
    exact hs.step hstep
  exact hs.exact

/-- A shell is started on terminal `1`, and starts another one. -/
def twoShells : List KernelEvent :=
  [.switchProcess 1 HwContext.zero 0, .syscall HwContext.zero (.execute shellName HwContext.zero 0)]

/-- The accounts are exact when two shells have been started. -/
theorem accounts_exact_twoShells :
    ∃ a, Run accountStep ⟨Kernel.boot shellImage, []⟩ twoShells a ∧ a.live = [1, 0] ∧ Exact a := by
  have hlive : (twoShells.foldlM accountStep ⟨Kernel.boot shellImage, []⟩).map Accounts.live
      = some [1, 0] := by
    decide +kernel
  obtain ⟨a, hrun, hval⟩ := exists_run_of_map hlive
  exact ⟨a, hrun, hval, accounts_exact (Kernel.boot_booted shellImage) hrun⟩

end CustomLinuxOs
