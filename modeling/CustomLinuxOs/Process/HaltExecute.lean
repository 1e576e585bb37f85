import CustomLinuxOs.Process.Accounting

/-!
`halt` undoes `execute`.

* `WaitsFor`: a process that has started another one below which any number of others may be.
* `execute_waitsFor`: so it is after `execute`.
* `WaitsFor.step`: so it is until that one halts.
* `halt_undoes_execute`: then the first process is as it was before `execute`, but for the value
  the call returns.
-/

namespace CustomLinuxOs

/-- In the kernel state `k` the process in slot `p`, whose PCB is `pcb` up to the child, waits for
the one in slot `q`, which has the physical block `block`. -/
structure WaitsFor (k : Kernel) (s : Sessions) (p q : ℕ) (pcb : Pcb) (block : ℕ) : Prop where
  represents : Represents k s
  stack : ∃ t l rest, s.stack t = l ++ q :: p :: rest
  parent : ∃ child, k.pcbs p = { pcb with child := child }
  block : (k.pcbs q).userPhysicalMemBlockNum = block
  context : pcb.context < k.contextCount

/-- The PCB of the process that is interrupted. -/
lemma irqEntry_slot {k k' : Kernel} {c : HwContext} {n : ℕ} (hn : k.currentPcb = .slot n)
    (h : irqEntry k c = some k') : k'.pcbs n = { k.pcbs n with context := k.contextCount }
      ∧ k'.contextCount = k.contextCount + 1 := by
  rw [irqEntry, hn] at h
  obtain rfl := Option.some.inj h
  exact ⟨Function.update_self _ _ _, rfl⟩

/-- A system call that is carried out has been made by a process. -/
lemma trap_slot {k : Kernel} {c : HwContext} {call : Syscall} {r : ℤ × Kernel} {n : ℕ}
    (hn : k.currentPcb = .slot n) (hr : trap k c call = some r) :
    ∃ k1, irqEntry k c = some k1 ∧ call.run k1 = some r := by
  rw [trap, hn] at hr
  exact Option.bind_eq_some_iff.mp hr

section Waiting

variable {k k' : Kernel} {s : Sessions} {p q block : ℕ} {pcb : Pcb}

/-- A process that waits is not the current one. -/
lemma WaitsFor.not_current (h : WaitsFor k s p q pcb block) : k.currentPcb ≠ .slot p := by
  intro hp
  obtain ⟨t, l, rest, hstack⟩ := h.stack
  obtain ⟨l', hl'⟩ := h.represents.stack_active hp
  have hactive : t = s.active := by
    refine s.apart t s.active p ?_ ?_
    · simp [hstack]
    · simp [hl']
  have hnodup := s.nodup t
  rw [hactive] at hstack hnodup
  rw [hl'] at hstack hnodup
  cases l with
  | nil =>
      obtain ⟨rfl, rfl⟩ := List.cons.inj hstack
      exact (List.nodup_cons.mp hnodup).1 List.mem_cons_self
  | cons m l =>
      obtain ⟨-, rfl⟩ := List.cons.inj hstack
      exact (List.nodup_cons.mp hnodup).1 (by simp)

/-- The stack of the process that waits, when the one it waits for is current. -/
lemma WaitsFor.stack_of_current (h : WaitsFor k s p q pcb block) (hq : k.currentPcb = .slot q) :
    ∃ rest, s.stack s.active = q :: p :: rest := by
  obtain ⟨t, l, rest, hstack⟩ := h.stack
  obtain ⟨l', hl'⟩ := h.represents.stack_active hq
  have hactive : t = s.active := by
    refine s.apart t s.active q ?_ ?_
    · simp [hstack]
    · simp [hl']
  have hnodup := s.nodup t
  rw [hactive] at hstack hnodup
  rw [hstack] at hnodup
  cases l with
  | nil => exact ⟨rest, hstack⟩
  | cons m l =>
      rw [hl'] at hstack
      obtain ⟨rfl, -⟩ := List.cons.inj hstack
      exact absurd (List.mem_append_right l List.mem_cons_self) (List.nodup_cons.mp hnodup).1

/-- **Waiting** goes on until the process that is waited for halts. -/
lemma WaitsFor.step {e : KernelEvent} (h : WaitsFor k s p q pcb block)
    (hstep : kernelStep k e = some k') (hhalt : e.halts = true → k.currentPcb ≠ .slot q) :
    ∃ s', WaitsFor k' s' p q pcb block := by
  obtain ⟨s', hsession, hrep, hkept⟩ := kernelStep_refines h.represents hstep
  obtain ⟨t, l, rest, hstack⟩ := h.stack
  have hp : s.live p := ⟨t, by simp [hstack]⟩
  have hq : s.live q := ⟨t, by simp [hstack]⟩
  refine ⟨s', hrep, ?_, ?_, ?_, h.context.trans_le hkept.contextCount⟩
  · cases hsession with
    | select _ _ => exact ⟨t, l, rest, hstack⟩
    | launch n hn _ _ _ =>
        rw [Sessions.stack_launch]
        by_cases ht : t = (s.select (e.terminal k)).active
        · refine ⟨t, n :: l, rest, ?_⟩
          rw [← ht, Function.update_self, List.cons_append]
          exact congrArg _ hstack
        · refine ⟨t, l, rest, ?_⟩
          rw [Function.update_of_ne ht]
          exact hstack
    | exit n l' _ hhalts hcurrent hactive =>
        rw [Sessions.stack_exit]
        by_cases ht : t = s.active
        · rw [ht, hactive] at hstack
          cases l with
          | nil =>
              obtain ⟨rfl, -⟩ := List.cons.inj hstack
              exact absurd hcurrent (hhalt hhalts)
          | cons m l =>
              obtain ⟨-, hl'⟩ := List.cons.inj hstack
              refine ⟨t, l, rest, ?_⟩
              rw [ht, Function.update_self, hactive, List.tail_cons]
              exact hl'
        · exact ⟨t, l, rest, by rw [Function.update_of_ne ht, hstack]⟩
  · obtain ⟨child, hchild⟩ := h.parent
    obtain ⟨child', hchild'⟩ := hkept.waiting p hp h.not_current
    exact ⟨child', by rw [hchild', hchild]⟩
  · rw [hkept.block q hq, h.block]

end Waiting

/-- After `execute` the process that has called it waits for the one it has started; its PCB keeps
all but the child and the context. -/
lemma execute_waitsFor {k k' : Kernel} {s : Sessions} (h : Represents k s) {p q : ℕ}
    (hp : k.currentPcb = .slot p) {c stale : HwContext} {command : CString} {flags : UInt32}
    (hlaunch : (KernelEvent.syscall c (.execute command stale flags)).launches k = true)
    (hstep : kernelStep k (.syscall c (.execute command stale flags)) = some k')
    (hq : k'.currentPcb = .slot q) :
    ∃ s', WaitsFor k' s' p q { k.pcbs p with context := k.contextCount }
      (k'.pcbs q).userPhysicalMemBlockNum := by
  obtain ⟨r, hr, rfl⟩ := Option.map_eq_some_iff.mp hstep
  obtain ⟨k1, hentry, hcall⟩ := trap_slot hp hr
  obtain ⟨hpcb, hcount⟩ := irqEntry_slot hp hentry
  have hquiet := irqEntry_quiet hentry
  have h1 := hquiet.represents h
  have hp1 : k1.currentPcb = .slot p := hquiet.currentPcb.trans hp
  obtain ⟨l, hl⟩ := h.stack_active hp
  have hzero : r.1 = 0 := by
    rw [KernelEvent.launches, hr, Option.any_some] at hlaunch
    exact eq_of_beq hlaunch
  rcases execute_cases h1 hp1 hcall with hfail | ⟨-, n, b, hfree, hlaunched⟩
  · rw [hfail] at hzero
    exact absurd hzero (by decide : SYSCALL_ERROR ≠ 0)
  · obtain rfl : n = q := PcbPtr.slot.inj (hlaunched.currentPcb.symm.trans hq)
    have hlive : s.live p := ⟨s.active, by simp [hl]⟩
    obtain ⟨child, hchild⟩ := hlaunched.others p (by rintro rfl; exact hfree.notLive hlive)
    refine ⟨s.launch n hfree.notLive, (quiet_setEax r.2 _ _).represents (h1.launch hfree hlaunched),
      ⟨s.active, [], l, ?_⟩, ⟨child, hchild.trans (by rw [hpcb])⟩, rfl, ?_⟩
    · rw [Sessions.stack_launch, Function.update_self, hl]
      rfl
    · calc k.contextCount < k1.contextCount + 1 := by omega
        _ = r.2.contextCount := hlaunched.contextCount.symm

/-- The process in slot `p`, whose PCB is `pcb` up to the child, runs again after that in slot `q`
with the physical block `block` has ended with `status`. -/
structure Restored (k : Kernel) (p q : ℕ) (pcb : Pcb) (block : ℕ) (status : UInt8) : Prop where
  currentPcb : k.currentPcb = .slot p
  currentTasks : k.currentTasks k.currentTask = .slot p
  userPage : k.userPage = pcb.userPhysicalMemBlockNum
  esp0 : k.esp0 = stackTop p
  fdTable : k.fdTable = .pcb (.slot p)
  processFdTable : (k.pcbs p).processFdTable = pcb.processFdTable
  blockFree : k.userPages.getLsbD block = false
  slotFree : k.pcbBitmap.getLsbD q = true
  context : (k.pcbs p).context = pcb.context
  eax : (k.contexts pcb.context).eax = status.toUInt32

/-- **The end of waiting**: `halt` of the process that is waited for. -/
lemma WaitsFor.halt {k k' : Kernel} {s : Sessions} {p q block : ℕ} {pcb : Pcb}
    (h : WaitsFor k s p q pcb block) (hq : k.currentPcb = .slot q) {c : HwContext} {status : UInt8}
    (hhalt : kernelStep k (.syscall c (.halt status)) = some k') :
    Restored k' p q pcb block status := by
  obtain ⟨rest, hstack⟩ := h.stack_of_current hq
  obtain ⟨r, hr, rfl⟩ := Option.map_eq_some_iff.mp hhalt
  obtain ⟨k1, hentry, hcall⟩ := trap_slot hq hr
  have hquiet := irqEntry_quiet hentry
  have hrep := hquiet.represents h.represents
  obtain ⟨k2, hk2, hhalted⟩ := halt_cases hrep (hquiet.currentPcb.trans hq) hstack status
  have hrun : CustomLinuxOs.halt k1 status = some r := hcall
  rw [hk2] at hrun
  obtain rfl := Option.some.inj hrun
  have hexit := hrep.exit hstack hhalted
  have hlive : s.live q := ⟨s.active, by simp [hstack]⟩
  have hliveExit {m : ℕ} := Sessions.live_exit (s := s) (m := m) hstack
  -- the two PCBs
  obtain ⟨child, hchild⟩ := h.parent
  have hpcb : k2.pcbs p = { pcb with child := child } := by
    rw [hhalted.pcbs, hquiet.others p h.not_current, hchild]
  have hfds : (k2.pcbs p).processFdTable = pcb.processFdTable := by rw [hpcb]
  have hcontext : (k2.pcbs p).context = pcb.context := by rw [hpcb]
  have hblock : (k1.pcbs q).userPhysicalMemBlockNum = block := by
    obtain ⟨fds, context, hpcbq⟩ := hquiet.current q
    rw [hpcbq, ← h.block]
  have hcurrent : k2.currentPcb = .slot p := hhalted.currentPcb
  obtain ⟨htable, hpage, hesp⟩ := hexit.hardware p hcurrent
  constructor
  case currentPcb => exact hcurrent
  case currentTasks =>
    have hself : Function.update k1.currentTasks k1.currentTask (.slot p) k2.currentTask
        = .slot p := by rw [hhalted.currentTask, Function.update_self]
    exact (congrFun hhalted.currentTasks k2.currentTask).trans hself
  case userPage => exact hpage.trans (by rw [hpcb])
  case esp0 => exact hesp
  case fdTable => exact htable
  case processFdTable => exact hfds
  case blockFree =>
    -- it belonged to the process that has ended, so to no other one
    have hrange := h.represents.blocks q hlive
    rw [h.block] at hrange
    refine Bool.eq_false_of_not_eq_true fun hset => ?_
    rcases (hexit.userPages block (by omega)).mp hset with hlt | ⟨m, hm, hmblock⟩
    · omega
    · obtain ⟨hmq, hmlive⟩ := hliveExit.mp hm
      rw [hhalted.pcbs, ← hblock] at hmblock
      exact hmq (hrep.blocksApart m q hmlive hlive hmblock)
  case slotFree =>
    refine Bool.eq_true_of_not_eq_false fun hclear => ?_
    have hslot := (h.represents.slots q hlive).trans (by decide : MAX_PROCESSES < 32)
    exact (hliveExit.mp ((hexit.pcbBitmap q hslot).mp hclear)).1 rfl
  case context => exact hcontext
  case eax =>
    rw [hhalted.pcbs] at hcontext
    have heax : (k2.contexts pcb.context).eax = status.toUInt32 := by
      rw [(hhalted.parent p rfl).2.2, hcontext]
      simp only [Kernel.setEax, Function.update_self]
    -- the value `halt` returns goes to the context of the process that has ended
    exact (congrArg HwContext.eax (Function.update_of_ne h.context.ne _ _)).trans heax

/-- **`halt` undoes `execute`.**  In a run from boot the process in slot `p` starts one in slot `q`,
and after any events among which that one does not halt, it does.  Then the process in slot `p` is
the current one again, with its page, kernel stack and descriptors, slot and block of the other one
are free, and the value `execute` returns is the status. -/
theorem halt_undoes_execute {boot k k' k1 k2 : Kernel} (hboot : boot.Booted)
    {es : List KernelEvent} (hreach : Run kernelStep boot es k) {p : ℕ}
    (hp : k.currentPcb = .slot p) {c stale : HwContext} {command : CString} {flags : UInt32}
    (hlaunch : (KernelEvent.syscall c (.execute command stale flags)).launches k = true)
    (hexecute : kernelStep k (.syscall c (.execute command stale flags)) = some k') {q : ℕ}
    (hq : k'.currentPcb = .slot q) {between : List KernelEvent}
    (hrun : Run kernelStep k' between k1)
    (hbetween : EveryStep kernelStep k' between fun k e => e.halts = true → k.currentPcb ≠ .slot q)
    (hcurrent : k1.currentPcb = .slot q) {c' : HwContext} {status : UInt8}
    (hhalt : kernelStep k1 (.syscall c' (.halt status)) = some k2) :
    Restored k2 p q { k.pcbs p with context := k.contextCount }
      (k'.pcbs q).userPhysicalMemBlockNum status := by
  obtain ⟨s, hs⟩ : ∃ s, Represents k s := by
    refine hreach.invariant (P := fun k => ∃ s, Represents k s) ⟨_, hboot.represents⟩ ?_
    rintro t e u ⟨s, hs⟩ hstep
    obtain ⟨s', -, hs', -⟩ := kernelStep_refines hs hstep
    exact ⟨s', hs'⟩
  obtain ⟨s0, h0⟩ := execute_waitsFor hs hp hlaunch hexecute hq
  generalize ({ k.pcbs p with context := k.contextCount } : Pcb) = pcb at *
  generalize (k'.pcbs q).userPhysicalMemBlockNum = block at *
  have hevery : EveryState kernelStep k' between fun t => ∃ s, WaitsFor t s p q pcb block := by
    refine hbetween.everyState ⟨s0, h0⟩ ?_
    rintro t e u ⟨s, hs⟩ hhalts hstep
    exact hs.step hstep hhalts
  obtain ⟨s1, h1⟩ := hevery.last hrun
  exact h1.halt hcurrent hhalt

/-- The scheduler goes to terminal `2`, where it starts a shell, and back. -/
def detour : List KernelEvent :=
  [.switchProcess 2 HwContext.zero 0, .switchProcess 1 HwContext.zero 0]

/-- A shell in slot `0` starts one in slot `1`, which ends with the status `7` after a detour. -/
theorem halt_undoes_execute_detour :
    ∃ k k' k1 k2 : Kernel, k.currentPcb = .slot 0 ∧ k'.currentPcb = .slot 1 ∧ Run kernelStep k' detour k1
      ∧ Restored k2 0 1 { k.pcbs 0 with context := k.contextCount }
        (k'.pcbs 1).userPhysicalMemBlockNum 7 := by
  have hstates : ((kernelStep (Kernel.boot shellImage) (.switchProcess 1 HwContext.zero 0)).bind
      fun k => (kernelStep k (.syscall HwContext.zero (.execute shellName HwContext.zero 0))).bind
      fun k' => (detour.foldlM kernelStep k').bind
      fun k1 => (kernelStep k1 (.syscall HwContext.zero (.halt 7))).map
      fun _ => (k.currentPcb,
        (KernelEvent.syscall HwContext.zero (.execute shellName HwContext.zero 0)).launches k,
        k'.currentPcb, k1.currentPcb)) = some (.slot 0, true, .slot 1, .slot 1) := by
    decide +kernel
  obtain ⟨k, hk, hstates⟩ := Option.bind_eq_some_iff.mp hstates
  obtain ⟨k', hk', hstates⟩ := Option.bind_eq_some_iff.mp hstates
  obtain ⟨k1, hk1, hstates⟩ := Option.bind_eq_some_iff.mp hstates
  obtain ⟨k2, hk2, hstates⟩ := Option.map_eq_some_iff.mp hstates
  simp only [Prod.mk.injEq] at hstates
  obtain ⟨hp, hlaunch, hq, hcurrent⟩ := hstates
  have hrun := run_iff_foldlM.mpr hk1
  have hquiet : ∀ e ∈ detour, e.halts = false := by decide
  refine ⟨k, k', k1, k2, hp, hq, hrun, halt_undoes_execute (Kernel.boot_booted shellImage)
    (Run.nil.snoc hk) hp hlaunch hk' hq hrun ?_ hcurrent hk2⟩
  intro pre e post t hes _ hhalts
  rw [hquiet e (by simp [hes])] at hhalts
  exact absurd hhalts (by decide)

end CustomLinuxOs
