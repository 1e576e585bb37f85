import CustomLinuxOs.Foundations.Run
import CustomLinuxOs.Process.TaskScreens

/-!
The scheduler of `scheduling.c`, which runs on each tick of the clock after the handler of the
clock.

* `Scheduler`, `roundRobin`: the counter and the index, and a tick.
* `schedulerStep`: ticks, with system calls and interrupts between them; a record says how many
  ticks have found each task running.
* `share`: the ticks of a task out of the first `n`.
* `roundRobin_fair`: after `n` ticks the running task and the ticks of each task follow from `n`.
-/

namespace CustomLinuxOs

def MAX_QUEUE_SIZE : ℕ := 3
def RR_PERIOD : UInt32 := 10

/-- `rr_counter` and `curr_process_index`. -/
structure Scheduler where
  rrCounter : UInt32
  currProcessIndex : UInt8
  deriving DecidableEq, Repr

/-- `round_robin`. -/
def roundRobin (s : Scheduler) (k : Kernel) (stale : HwContext) (flags : UInt32) :
    Scheduler × Kernel :=
  if s.rrCounter ≠ RR_PERIOD then ({ s with rrCounter := s.rrCounter + 1 }, k)
  else
    let currProcessIndex := ((s.currProcessIndex.toNat + 1) % MAX_QUEUE_SIZE).toUInt8
    (⟨0, currProcessIndex⟩, (switchProcess k currProcessIndex.toNat stale flags).2)

/-- The kernel and the scheduler. -/
structure ScheduledKernel where
  kernel : Kernel
  scheduler : Scheduler
  /-- the ticks that have found a task running -/
  ticksOf : ℕ → ℕ

/-- Ticks, and what the kernel does between them.  Nobody else calls `switch_process`. -/
inductive SchedulerEvent where
  | tick (stale : HwContext) (flags : UInt32)
  | irq (context : HwContext)
  | syscall (context : HwContext) (call : Syscall)
  | iret

/-- One event. -/
def schedulerStep (s : ScheduledKernel) : SchedulerEvent → Option ScheduledKernel
  | .tick stale flags =>
      let r := roundRobin s.scheduler s.kernel stale flags
      some
        { kernel := r.2
          scheduler := r.1
          ticksOf := Function.update s.ticksOf s.kernel.currentTask
            (s.ticksOf s.kernel.currentTask + 1) }
  | .irq context => (kernelStep s.kernel (.irq context)).map fun k => { s with kernel := k }
  | .syscall context call =>
      (kernelStep s.kernel (.syscall context call)).map fun k => { s with kernel := k }
  | .iret => (kernelStep s.kernel .iret).map fun k => { s with kernel := k }

/-- The state that `entry` leaves. -/
def ScheduledKernel.start (k : Kernel) : ScheduledKernel := ⟨k, ⟨0, 0⟩, fun _ => 0⟩

/-- The event is a tick. -/
def SchedulerEvent.isTick : SchedulerEvent → Bool
  | .tick _ _ => true
  | _ => false

/-- The ticks between two switches. -/
def slice : ℕ := RR_PERIOD.toNat + 1

/-- The ticks that find task `t` running, out of the first `n`: whole rounds, and the part of its
slice that is over in the round that is on. -/
def share (n t : ℕ) : ℕ :=
  slice * (n / (MAX_ACTIVE_TASKS * slice))
    + min slice (n % (MAX_ACTIVE_TASKS * slice) - slice * t)

/-- After `n` ticks. -/
structure AfterTicks (n : ℕ) (s : ScheduledKernel) : Prop where
  counter : s.scheduler.rrCounter.toNat = n % slice
  index : s.scheduler.currProcessIndex.toNat = n / slice % MAX_ACTIVE_TASKS
  task : s.kernel.currentTask = n / slice % MAX_ACTIVE_TASKS
  ticks : ∀ t < MAX_ACTIVE_TASKS, s.ticksOf t = share n t

lemma share_succ {n t : ℕ} (ht : t < MAX_ACTIVE_TASKS) :
    share (n + 1) t = share n t + if t = n / slice % MAX_ACTIVE_TASKS then 1 else 0 := by
  have hslice : slice = 11 := rfl
  rw [MAX_ACTIVE_TASKS] at ht
  simp only [share, hslice, MAX_ACTIVE_TASKS]
  split <;> omega

/-- **A tick.** -/
lemma AfterTicks.tick {n : ℕ} {s u : ScheduledKernel} (h : AfterTicks n s) {stale : HwContext}
    {flags : UInt32} (hu : schedulerStep s (.tick stale flags) = some u) :
    AfterTicks (n + 1) u := by
  have hslice : slice = 11 := rfl
  have hcounter := h.counter
  have hindex := h.index
  have hticks (t : ℕ) (ht : t < MAX_ACTIVE_TASKS) : Function.update s.ticksOf s.kernel.currentTask
      (s.ticksOf s.kernel.currentTask + 1) t = share (n + 1) t := by
    rw [share_succ ht, ← h.task, Function.update_apply]
    split
    · rename_i heq
      rw [← heq, h.ticks t ht]
    · rw [h.ticks t ht, Nat.add_zero]
  obtain rfl := Option.some.inj hu
  rw [roundRobin]
  split
  · rename_i hne
    have hlt : s.scheduler.rrCounter.toNat ≠ 10 := fun heq => hne (UInt32.toNat_inj.mp heq)
    rw [hslice] at hcounter
    refine ⟨?_, ?_, ?_, hticks⟩
    · have hadd : (s.scheduler.rrCounter + 1).toNat = s.scheduler.rrCounter.toNat + 1 := by
        rw [UInt32.toNat_add, Nat.mod_eq_of_lt (by rw [UInt32.toNat_one]; omega)]
        rfl
      simp only [hadd, hslice]
      omega
    · simp only [hindex, hslice, MAX_ACTIVE_TASKS]
      omega
    · simp only [h.task, hslice, MAX_ACTIVE_TASKS]
      omega
  · rename_i heq
    have hperiod : s.scheduler.rrCounter.toNat = 10 := by
      rw [not_not.mp heq]
      rfl
    rw [hslice, hperiod] at hcounter
    have hnext : ((s.scheduler.currProcessIndex.toNat + 1) % MAX_QUEUE_SIZE).toUInt8.toNat
        = (n + 1) / slice % MAX_ACTIVE_TASKS := by
      rw [hindex, hslice, MAX_QUEUE_SIZE, MAX_ACTIVE_TASKS, Nat.toUInt8_eq, UInt8.toNat_ofNat']
      omega
    refine ⟨?_, hnext, ?_, hticks⟩
    · simp only [hslice]
      change 0 = _
      omega
    · exact ((switchProcess_screens s.kernel _ stale flags).1).trans hnext

/-- What comes between two ticks. -/
lemma AfterTicks.other {n : ℕ} {s u : ScheduledKernel} (h : AfterTicks n s) {e : SchedulerEvent}
    (he : e.isTick = false) (hu : schedulerStep s e = some u) : AfterTicks n u := by
  have hkernel {e : KernelEvent} (he : ∀ taskId stale flags, e ≠ .switchProcess taskId stale flags)
      (hu : (kernelStep s.kernel e).map (fun k => { s with kernel := k }) = some u) :
      AfterTicks n u := by
    obtain ⟨k, hk, rfl⟩ := Option.map_eq_some_iff.mp hu
    exact ⟨h.counter, h.index, (kernelStep_screens he hk).task.trans h.task, h.ticks⟩
  cases e with
  | tick stale flags => cases he
  | irq context => exact hkernel (fun _ _ _ => by simp) hu
  | syscall context call => exact hkernel (fun _ _ _ => by simp) hu
  | iret => exact hkernel (fun _ _ _ => by simp) hu

/-- **Round robin is fair.**  From boot, whatever the kernel does between the ticks of the clock:
after `n` ticks the running task is the one whose turn it is, and each of the three tasks has been
found running at its share of the ticks, eleven out of every thirty-three. -/
theorem roundRobin_fair {boot : Kernel} (hboot : boot.Booted) {es : List SchedulerEvent}
    {z : ScheduledKernel} (hrun : Run schedulerStep (ScheduledKernel.start boot) es z) :
    let n := es.countP SchedulerEvent.isTick
    z.kernel.currentTask = n / slice % MAX_ACTIVE_TASKS
      ∧ ∀ t < MAX_ACTIVE_TASKS, z.ticksOf t = share n t := by
  have hafter : AfterTicks (es.countP SchedulerEvent.isTick) z := by
    induction hrun with
    | nil =>
        refine ⟨rfl, rfl, hboot.currentTask, fun t ht => ?_⟩
        rw [MAX_ACTIVE_TASKS] at ht
        interval_cases t <;> rfl
    | @snoc es e s u _ hstep ih =>
        rw [List.countP_append, List.countP_singleton]
        cases e with
        | tick stale flags => exact ih.tick hstep
        | irq context => exact ih.other rfl hstep
        | syscall context call => exact ih.other rfl hstep
        | iret => exact ih.other rfl hstep
  exact ⟨hafter.task, hafter.ticks⟩

/-- One round: the scheduler is back at the first task. -/
theorem roundRobin_fair_round : ∃ z,
    Run schedulerStep (ScheduledKernel.start (Kernel.boot shellImage))
        (List.replicate 33 (.tick HwContext.zero 0)) z
      ∧ z.kernel.currentTask = 0 ∧ z.ticksOf 2 = 11 := by
  have hsome : ((List.replicate 33 (.tick HwContext.zero 0)).foldlM schedulerStep
      (ScheduledKernel.start (Kernel.boot shellImage))).isSome = true := rfl
  obtain ⟨z, hrun⟩ := exists_run_of_isSome hsome
  obtain ⟨htask, hticks⟩ := roundRobin_fair (Kernel.boot_booted shellImage) hrun
  exact ⟨z, hrun, htask, hticks 2 (by decide)⟩

end CustomLinuxOs
