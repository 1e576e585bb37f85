import CustomLinuxOs.Process.Kernel

/-!
The terminals and the current task in the kernel.

* `KeepsScreens`: both stay as they are.
* `kernelStep_screens`: so it is in system calls and interrupts.
* `switchProcess_screens`: a process switch changes the task and selects its screen.
-/

namespace CustomLinuxOs

/-- The terminals and the current task stay. -/
structure KeepsScreens (k k' : Kernel) : Prop where
  tty : k'.tty = k.tty
  task : k'.currentTask = k.currentTask

variable {k k' : Kernel}

lemma KeepsScreens.trans {k'' : Kernel} (h : KeepsScreens k k') (h' : KeepsScreens k' k'') :
    KeepsScreens k k'' := ⟨h'.tty.trans h.tty, h'.task.trans h.task⟩

lemma KeepsScreens.refl (k : Kernel) : KeepsScreens k k := ⟨rfl, rfl⟩

lemma setEax_screens (k : Kernel) (c : ℕ) (v : UInt32) : KeepsScreens k (k.setEax c v) :=
  ⟨rfl, rfl⟩

lemma updateTss_screens (k : Kernel) (n : ℕ) : KeepsScreens k (updateTss k n) := by
  rw [updateTss]
  exact ⟨rfl, rfl⟩

lemma pushPcb_screens (h : pushPcb k = some k') : KeepsScreens k k' := by
  rw [pushPcb] at h
  split at h
  · cases h
  · cases h
    exact ⟨rfl, rfl⟩

lemma loadProgram_screens (k : Kernel) (filename : CString) :
    KeepsScreens k (loadProgram k filename).2 := by
  rw [loadProgram]
  split
  · split <;> exact ⟨rfl, rfl⟩
  · exact ⟨rfl, rfl⟩

lemma startProgram_screens (k : Kernel) (filename : CString) :
    KeepsScreens k (startProgram k filename).2.2 := by
  have hadd : KeepsScreens k (addUserPage k).2 := ⟨rfl, rfl⟩
  rw [startProgram]
  cases hpush : pushPcb (addUserPage k).2 with
  | none => exact hadd
  | some k' => exact hadd.trans ((pushPcb_screens hpush).trans (loadProgram_screens k' filename))

lemma startShell_screens (k : Kernel) (taskId : ℕ) (stale : HwContext) (flags : UInt32) :
    KeepsScreens k (startShell k taskId stale flags).2 := by
  have hstart := startProgram_screens k shellName
  rw [startShell]
  split
  · exact ⟨rfl, rfl⟩
  · split
    · rename_i heq
      rw [heq] at hstart
      exact hstart.trans ⟨rfl, rfl⟩
    · rename_i heq
      rw [heq] at hstart
      split <;> exact hstart.trans ⟨rfl, rfl⟩

lemma execute_screens {command : CString} {stale : HwContext} {flags : UInt32} {r : ℤ × Kernel}
    (h : execute k command stale flags = some r) : KeepsScreens k r.2 := by
  rw [execute] at h
  split at h
  · cases h
  · rename_i filename saveCommand _
    have hstart := startProgram_screens k filename
    split at h
    · cases h
      exact ⟨rfl, rfl⟩
    · split at h
      · rename_i heq
        rw [heq] at hstart
        cases h
        split <;> exact hstart.trans ⟨rfl, rfl⟩
      · rename_i heq
        rw [heq] at hstart
        split at h
        · cases h
          dsimp only
          split <;> exact hstart.trans ⟨rfl, rfl⟩
        · cases h

lemma popPcb_screens (k : Kernel) : KeepsScreens k (popPcb k) := by
  rw [popPcb]
  split <;> exact ⟨rfl, rfl⟩

lemma halt_screens {status : UInt8} {r : ℤ × Kernel} (h : halt k status = some r) :
    KeepsScreens k r.2 := by
  rw [halt] at h
  split at h
  · rename_i n _
    extract_lets k₁ k₂ k₃ k₄ at h
    cases h
    have h₁ : KeepsScreens k k₁ := by
      simp only [k₁]
      split <;> exact ⟨rfl, rfl⟩
    have h₂ : KeepsScreens k₁ k₂ := by
      simp only [k₂]
      split <;> exact ⟨rfl, rfl⟩
    have hfree : KeepsScreens k₂ (freeUserPage k₂ (k₂.pcbs n).userPhysicalMemBlockNum) :=
      ⟨rfl, rfl⟩
    have h₃ : KeepsScreens k₂ k₃ := hfree.trans (popPcb_screens _)
    clear_value k₃
    have h₄ : KeepsScreens k₃ k₄ := by
      simp only [k₄]
      split
      · exact (updateTss_screens k₃ _).trans (setEax_screens _ _ _)
      · exact KeepsScreens.refl k₃
    exact (h₁.trans h₂).trans ((h₃.trans h₄).trans ⟨rfl, rfl⟩)
  · cases h

lemma irqEntry_screens {context : HwContext} (h : irqEntry k context = some k') :
    KeepsScreens k k' := by
  rw [irqEntry] at h
  split at h
  · cases h
  · cases h
    exact ⟨rfl, rfl⟩
  · cases h
    exact ⟨rfl, rfl⟩

lemma withFdTable_screens {f : FdTable → ℤ × FdTable} {r : ℤ × Kernel}
    (h : withFdTable k f = some r) : KeepsScreens k r.2 := by
  rw [withFdTable] at h
  split at h
  · cases h
    exact ⟨rfl, rfl⟩
  · cases h
    exact ⟨rfl, rfl⟩
  · cases h

lemma syscall_screens {call : Syscall} {r : ℤ × Kernel} (h : call.run k = some r) :
    KeepsScreens k r.2 := by
  cases call with
  | execute command stale flags => exact execute_screens h
  | halt status => exact halt_screens h
  | «open» counter filename =>
      rw [Syscall.run] at h
      exact withFdTable_screens h
  | close fd =>
      rw [Syscall.run] at h
      exact withFdTable_screens h

lemma irqExit_screens (h : irqExit k = some k') : KeepsScreens k k' := by
  obtain ⟨c, -, rfl⟩ := Option.map_eq_some_iff.mp h
  rw [swapContext]
  split <;> exact ⟨rfl, rfl⟩

/-- **System calls and interrupts** leave terminals and current task alone. -/
lemma kernelStep_screens {e : KernelEvent} (he : ∀ taskId stale flags,
    e ≠ .switchProcess taskId stale flags) (h : kernelStep k e = some k') : KeepsScreens k k' := by
  cases e with
  | irq context => exact irqEntry_screens h
  | iret => exact irqExit_screens h
  | syscall context call =>
      obtain ⟨r, hr, rfl⟩ := Option.map_eq_some_iff.mp h
      rw [trap] at hr
      split at hr
      · obtain ⟨k₁, hentry, hcall⟩ := Option.bind_eq_some_iff.mp hr
        have hkeeps := (irqEntry_screens hentry).trans (syscall_screens hcall)
        exact hkeeps.trans (setEax_screens _ _ _)
      · cases hr
  | switchProcess taskId stale flags => exact absurd rfl (he taskId stale flags)

/-- **A process switch** selects the screen of the process, unless that is selected already. -/
lemma switchProcess_screens (k : Kernel) (taskId : ℕ) (stale : HwContext) (flags : UInt32) :
    (switchProcess k taskId stale flags).2.currentTask = taskId
      ∧ (switchProcess k taskId stale flags).2.tty
        = if k.currentTask = taskId then k.tty else changeProcessScreen k.tty taskId := by
  rw [switchProcess]
  split
  · rename_i hsame
    exact ⟨hsame, rfl⟩
  · extract_lets selected
    split
    · exact ⟨rfl, rfl⟩
    · have hshell := startShell_screens selected taskId stale flags
      exact ⟨hshell.task, hshell.tty⟩

end CustomLinuxOs
