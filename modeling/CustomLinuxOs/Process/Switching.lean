import CustomLinuxOs.Process.Accounting

/-!
Whether a failed `switch_process` leaves everything as it was.

The task, its PCB and the screen are set before a shell is started for a terminal that has none, and
neither of the two failing returns takes this back.

* `SystemEvent`, `systemStep`: events of the kernel, between which the files, the terminal and the
  memory of processes change in any way.
* `CanSwitch`, `switchProcess_succeeds_iff`: exactly when a call succeeds.
* `Restores`, `SwitchAtomic`: a state like the one before the call, and a call that leaves it when
  it fails.
* `KeepsPcb`, `currentPcb_ne_null_iff`: exactly which steps leave a current PCB that is not `NULL`.
* `switchProcess_atomic`: the conditions over whole runs.
-/

namespace CustomLinuxOs

/-! ### Runs of the whole system -/

/-- An event of the kernel, or a change of what the scheduler does not keep. -/
inductive SystemEvent where
  | kernel (e : KernelEvent)
  | environment (fs : Fs) (tty : Tty) (userMemory : ℕ → ℕ → UInt8)

/-- One event. -/
def systemStep (k : Kernel) : SystemEvent → Option Kernel
  | .kernel e => kernelStep k e
  | .environment fs tty userMemory =>
      some { k with fs := fs, tty := tty, userMemory := userMemory }

/-- An event keeps a representation. -/
lemma systemStep_represents {k k' : Kernel} {e : SystemEvent} {s : Sessions} (h : Represents k s)
    (hstep : systemStep k e = some k') : ∃ s', Represents k' s' := by
  cases e with
  | kernel e =>
      obtain ⟨s', -, hrep, -⟩ := kernelStep_refines h hstep
      exact ⟨s', hrep⟩
  | environment fs tty userMemory =>
      obtain rfl := Option.some.inj hstep
      exact ⟨s, h.congr rfl rfl rfl rfl rfl rfl rfl rfl fun _ => ⟨rfl, rfl, rfl⟩⟩

lemma systemRun_represents {boot k : Kernel} (hboot : boot.Booted) {es : List SystemEvent}
    (hrun : Run systemStep boot es k) : ∃ s, Represents k s := by
  refine hrun.invariant (P := fun k => ∃ s, Represents k s) ⟨_, hboot.represents⟩ ?_
  rintro k e k' ⟨s, hs⟩ hstep
  exact systemStep_represents hs hstep

/-! ### When a switch succeeds -/

/-- The terminal is the current one, or it has a process, or a shell can be started for it. -/
def CanSwitch (k : Kernel) (t : ℕ) : Prop :=
  k.currentTask = t ∨ (k.currentTasks t).slot?.isSome = true
    ∨ isExecutableFile k.fs shellName = true
      ∧ ∃ n < MAX_PROCESSES, k.pcbBitmap.getLsbD n = true

/-- **A free slot** is what `push_pcb` needs. -/
lemma pushPcb_eq_none_iff {k : Kernel} {s : Sessions}
    (hslots : ∀ n, s.live n → n < MAX_PROCESSES)
    (hbits : ∀ i < 32, k.pcbBitmap.getLsbD i = false ↔ s.live i) :
    pushPcb k = none ↔ ∀ n < MAX_PROCESSES, k.pcbBitmap.getLsbD n = false := by
  have h32 {n : ℕ} (hn : n < MAX_PROCESSES) : n < 32 := hn.trans (by decide)
  constructor
  · intro hnone n hn
    by_contra hset
    rw [Bool.not_eq_false] at hset
    obtain ⟨m, hm, hlow⟩ := exists_lowestSet hset
    rw [pushPcb] at hnone
    have hbound : (1#32 <<< MAX_PROCESSES).toNat = 2 ^ MAX_PROCESSES := by decide
    have hlt : 2 ^ m < 2 ^ MAX_PROCESSES := Nat.pow_lt_pow_right (by decide) (by omega)
    simp only [and_neg_eq_twoPow hlow, ge_iff_le, BitVec.le_def, hbound,
      toNat_twoPow_of_lt (by have := h32 hn; omega : m < 32)] at hnone
    rw [if_neg (by omega)] at hnone
    cases hnone
  · intro hfull
    rcases pushPcb_cases hslots hbits with hnone | ⟨n, hn, hlive, -⟩
    · exact hnone
    · exact absurd ((hbits n (h32 hn)).mp (hfull n hn)) hlive

/-- Starting a shell succeeds when there is one and a slot for it. -/
lemma startShell_succeeds_iff {k : Kernel} {s : Sessions}
    (hslots : ∀ n, s.live n → n < MAX_PROCESSES)
    (hbits : ∀ i < 32, k.pcbBitmap.getLsbD i = false ↔ s.live i) (t : ℕ) (stale : HwContext)
    (flags : UInt32) :
    (startShell k t stale flags).1 = 0 ↔ isExecutableFile k.fs shellName = true
      ∧ ∃ n < MAX_PROCESSES, k.pcbBitmap.getLsbD n = true := by
  have hpush := pushPcb_eq_none_iff (k := (addUserPage k).2) hslots hbits
  have hfull : (∀ n < MAX_PROCESSES, (addUserPage k).2.pcbBitmap.getLsbD n = false)
      ↔ ¬ ∃ n < MAX_PROCESSES, k.pcbBitmap.getLsbD n = true := by
    push Not
    exact forall₂_congr fun n _ => (Bool.not_eq_true _).to_iff.symm
  rw [hfull] at hpush
  rw [startShell]
  by_cases hexec : isExecutableFile k.fs shellName = true
  · rw [if_neg (not_not.mpr hexec), startProgram]
    cases hslot : pushPcb (addUserPage k).2 with
    | none =>
        have hnone := hpush.mp hslot
        exact iff_of_false Int.noConfusion fun h => hnone h.2
    | some pushed =>
        have hfree : ∃ n < MAX_PROCESSES, k.pcbBitmap.getLsbD n = true := by
          by_contra hnone
          rw [hpush.mpr hnone] at hslot
          cases hslot
        refine iff_of_true ?_ ⟨hexec, hfree⟩
        rcases pushPcb_cases (k := (addUserPage k).2) hslots hbits with hnone | ⟨n, -, -, hsome⟩
        · rw [hnone] at hslot
          cases hslot
        · rw [hsome] at hslot
          obtain rfl := Option.some.inj hslot
          obtain ⟨mem, hmem⟩ :=
            loadProgram_of_executable (k := pushedPcb (addUserPage k).2 n) hexec
          simp only [hmem]
          rfl
  · rw [if_pos hexec]
    exact iff_of_false Int.noConfusion fun h => hexec h.1

/-- **A switch** succeeds exactly when it can. -/
theorem switchProcess_succeeds_iff {k : Kernel} {s : Sessions} (h : Represents k s) (t : ℕ)
    (stale : HwContext) (flags : UInt32) :
    (switchProcess k t stale flags).1 = 0 ↔ CanSwitch k t := by
  rw [switchProcess, CanSwitch]
  split
  · rename_i hcurrent
    exact iff_of_true rfl (.inl hcurrent)
  · rename_i hother
    have hshell := startShell_succeeds_iff (k := selectTask k t) h.slots h.pcbBitmap t stale flags
    simp only [hother, false_or]
    cases htask : k.currentTasks t with
    | slot n => exact iff_of_true rfl (.inl rfl)
    | null =>
        rw [selectTask, htask] at hshell
        simpa [PcbPtr.slot?] using hshell
    | kernelMemEnd =>
        rw [selectTask, htask] at hshell
        simpa [PcbPtr.slot?] using hshell

/-! ### Atomic switches -/

/-- What a failed call should leave alone. -/
structure Restores (k k' : Kernel) : Prop where
  currentTask : k'.currentTask = k.currentTask
  currentPcb : k'.currentPcb = k.currentPcb
  processScreen : k'.tty.display.processScreen = k.tty.display.processScreen
  fdTable : k'.fdTable = k.fdTable
  userPage : k'.userPage = k.userPage
  userPages : k'.userPages = k.userPages
  pcbBitmap : k'.pcbBitmap = k.pcbBitmap

/-- If the call fails, all is as before. -/
def SwitchAtomic (k : Kernel) (t : ℕ) (stale : HwContext) (flags : UInt32) : Prop :=
  (switchProcess k t stale flags).1 = SYSCALL_ERROR →
    Restores k (switchProcess k t stale flags).2

/-- A call that cannot switch fails with the other terminal selected. -/
lemma switchProcess_of_cannot {k : Kernel} {s : Sessions} (h : Represents k s) {t : ℕ}
    (hcannot : ¬ CanSwitch k t) (stale : HwContext) (flags : UInt32) :
    ∃ page, switchProcess k t stale flags
      = (SYSCALL_ERROR, { selectTask k t with userPage := page }) := by
  have hsucceeds := switchProcess_succeeds_iff h t stale flags
  have hother : k.currentTask ≠ t := fun heq => hcannot (.inl heq)
  rcases switchProcess_cases h hother stale flags with
    ⟨n, -, hr⟩ | ⟨-, hfail | ⟨hzero, -⟩⟩
  · exact absurd (hsucceeds.mp (by rw [hr])) hcannot
  · exact hfail
  · exact absurd (hsucceeds.mp hzero) hcannot

/-- **A switch** is atomic exactly when it can succeed. -/
theorem switchAtomic_iff {k : Kernel} {s : Sessions} (h : Represents k s) (t : ℕ)
    (stale : HwContext) (flags : UInt32) : SwitchAtomic k t stale flags ↔ CanSwitch k t := by
  constructor
  · intro hatomic
    by_contra hcannot
    obtain ⟨page, hr⟩ := switchProcess_of_cannot h hcannot stale flags
    rw [SwitchAtomic, hr] at hatomic
    exact hcannot (.inl (hatomic rfl).currentTask.symm)
  · intro hcan hfail
    rw [(switchProcess_succeeds_iff h t stale flags).mpr hcan] at hfail
    cases hfail

/-! ### The current PCB -/

/-- The step is no switch that fails on a terminal that has never been started. -/
def KeepsPcb (k : Kernel) : SystemEvent → Prop
  | .kernel (.switchProcess t _ _) => CanSwitch k t ∨ k.currentTasks t ≠ .null
  | _ => True

/-- A switch keeps the current PCB from being `NULL` unless it fails on a new terminal. -/
lemma switchProcess_ne_null_iff {k : Kernel} {s : Sessions} (h : Represents k s)
    (hne : k.currentPcb ≠ .null) (t : ℕ) (stale : HwContext) (flags : UInt32) :
    (switchProcess k t stale flags).2.currentPcb ≠ .null
      ↔ CanSwitch k t ∨ k.currentTasks t ≠ .null := by
  by_cases hcan : CanSwitch k t
  · refine iff_of_true ?_ (.inl hcan)
    rcases eq_or_ne k.currentTask t with hsame | hother
    · rw [switchProcess, if_pos hsame]
      exact hne
    · rcases switchProcess_cases h hother stale flags with
        ⟨n, hn, hr⟩ | ⟨-, ⟨page, hr⟩ | ⟨-, n, b, -, hlaunched⟩⟩
      · rw [hr]
        simp [selectTask, hn]
      · have hzero := (switchProcess_succeeds_iff h t stale flags).mpr hcan
        rw [hr] at hzero
        cases hzero
      · rw [hlaunched.currentPcb]
        exact PcbPtr.noConfusion
  · obtain ⟨page, hr⟩ := switchProcess_of_cannot h hcan stale flags
    rw [hr, selectTask]
    exact ⟨.inr, fun hor => hor.resolve_left hcan⟩

/-- A system call leaves the PCB of a process, or `KERNEL_MEM_END`. -/
lemma trap_ne_null {k : Kernel} {s : Sessions} (h : Represents k s) {context : HwContext}
    {call : Syscall} {r : ℤ × Kernel} (hr : trap k context call = some r) :
    r.2.currentPcb ≠ .null := by
  obtain ⟨n, k1, hn, hq, hcases⟩ := trap_cases h hr
  rcases hcases with ⟨hq2, -⟩ | ⟨m, b, -, hlaunched, -⟩ | ⟨status, l, -, -, hhalted⟩
  · rw [(hq.trans hq2).currentPcb, hn]
    exact PcbPtr.noConfusion
  · rw [hlaunched.currentPcb]
    exact PcbPtr.noConfusion
  · rw [hhalted.currentPcb]
    cases l with
    | nil => exact PcbPtr.noConfusion
    | cons p l => exact PcbPtr.noConfusion

/-- **One event** leaves a current PCB that is not `NULL` exactly when it meets the condition. -/
theorem currentPcb_ne_null_iff {k k' : Kernel} {s : Sessions} (h : Represents k s)
    (hne : k.currentPcb ≠ .null) {e : SystemEvent} (hstep : systemStep k e = some k') :
    k'.currentPcb ≠ .null ↔ KeepsPcb k e := by
  cases e with
  | environment fs tty userMemory =>
      obtain rfl := Option.some.inj hstep
      exact iff_of_true hne trivial
  | kernel e =>
      cases e with
      | irq context =>
          refine iff_of_true ?_ trivial
          rw [(irqEntry_quiet hstep).currentPcb]
          exact hne
      | iret =>
          refine iff_of_true ?_ trivial
          rw [(irqExit_quiet hstep).currentPcb]
          exact hne
      | switchProcess t stale flags =>
          rw [systemStep, kernelStep] at hstep
          split at hstep
          · obtain rfl := Option.some.inj hstep
            exact switchProcess_ne_null_iff h hne t stale flags
          · cases hstep
      | syscall context call =>
          refine iff_of_true ?_ trivial
          obtain ⟨r, hr, rfl⟩ := Option.map_eq_some_iff.mp hstep
          exact trap_ne_null h hr

/-! ### Whole runs -/

/-- **Atomic switches.**  In every state of a run from boot a switch to a terminal is atomic exactly
when it can succeed.  The current PCB is never `NULL` exactly when no switch of the run fails on a
terminal that has never been started. -/
theorem switchProcess_atomic {boot k : Kernel} (hboot : boot.Booted) {es : List SystemEvent}
    (hrun : Run systemStep boot es k) :
    (∀ t < MAX_ACTIVE_TASKS, ∀ stale flags, SwitchAtomic k t stale flags ↔ CanSwitch k t)
      ∧ (EveryState systemStep boot es (fun k => k.currentPcb ≠ .null)
        ↔ EveryStep systemStep boot es KeepsPcb) := by
  obtain ⟨s, hs⟩ := systemRun_represents hboot hrun
  refine ⟨fun t _ stale flags => switchAtomic_iff hs t stale flags, ?_⟩
  have hstart : boot.currentPcb ≠ .null := by
    rw [hboot.currentPcb]
    exact PcbPtr.noConfusion
  refine everyState_iff_everyStep (V := fun _ => True) (I := fun k => ∃ s, Represents k s) hrun
    (fun _ _ => trivial) ⟨_, hboot.represents⟩ hstart ?_ ?_
  · rintro k e k' - ⟨s, hs⟩ hne hstep
    exact currentPcb_ne_null_iff hs hne hstep
  · rintro k e k' - ⟨s, hs⟩ - - hstep
    exact systemStep_represents hs hstep

/-- A shell is started on terminal `1`, and five more in one another. -/
def sixShells : List SystemEvent :=
  .kernel (.switchProcess 1 HwContext.zero 0) :: List.replicate 5
    (.kernel (.syscall HwContext.zero (.execute shellName HwContext.zero 0)))

/-- The conditions for six shells on one terminal. -/
theorem switchProcess_atomic_sixShells : ∃ k, Run systemStep (Kernel.boot shellImage) sixShells k
    ∧ (∀ t < MAX_ACTIVE_TASKS, ∀ stale flags, SwitchAtomic k t stale flags ↔ CanSwitch k t)
    ∧ (EveryState systemStep (Kernel.boot shellImage) sixShells (fun k => k.currentPcb ≠ .null)
      ↔ EveryStep systemStep (Kernel.boot shellImage) sixShells KeepsPcb) := by
  have hsome : (sixShells.foldlM systemStep (Kernel.boot shellImage)).isSome = true := by
    decide +kernel
  obtain ⟨k, hrun⟩ := exists_run_of_isSome hsome
  exact ⟨k, hrun, switchProcess_atomic (Kernel.boot_booted shellImage) hrun⟩

/-- With six shells on terminal `1` a switch to terminal `2` fails, selects it all the same, and
leaves `NULL`, so that the next interrupt cannot be taken. -/
theorem switchProcess_leavesNull : ∃ k k', Run systemStep (Kernel.boot shellImage) sixShells k
    ∧ switchProcess k 2 HwContext.zero 0 = (SYSCALL_ERROR, k')
    ∧ ¬ Restores k k' ∧ k'.currentPcb = .null ∧ irqEntry k' HwContext.zero = none := by
  have hread : (sixShells.foldlM systemStep (Kernel.boot shellImage)).map (fun k =>
      ((switchProcess k 2 HwContext.zero 0).1, k.currentTask,
        (switchProcess k 2 HwContext.zero 0).2.currentTask,
        (switchProcess k 2 HwContext.zero 0).2.currentPcb))
      = some (SYSCALL_ERROR, 1, 2, .null) := by decide +kernel
  obtain ⟨k, hrun, hvalue⟩ := exists_run_of_map hread
  simp only [Prod.mk.injEq] at hvalue
  obtain ⟨hfail, hbefore, hafter, hnull⟩ := hvalue
  refine ⟨k, _, hrun, Prod.ext hfail rfl, fun h => ?_, hnull, ?_⟩
  · have hsame := h.currentTask
    rw [hbefore, hafter] at hsame
    cases hsame
  · rw [irqEntry, hnull]

end CustomLinuxOs
