import CustomLinuxOs.Process.CommandLine
import CustomLinuxOs.Process.Switching

/-!
Whether a failed `execute` leaves everything as it was.

The two causes of the failing exit have done different amounts of work before.  The exit takes back
the page only, which is all there is to take back: `push_pcb` fails before it changes anything, and
`load_program` does not fail after it.

* `execute_isSome`: a command that fits its buffers is carried out or refused.
* `loadProgram_after_pushPcb`: an executable file is loaded into the process that was pushed.
* `execute_atomic`: in all states of a run from boot.
-/

namespace CustomLinuxOs

section Execute

variable {k k' : Kernel} {s : Sessions} {command : CString}

/-- A process that calls `execute` with a command that fits gets an answer. -/
lemma execute_isSome (h : Represents k s) (hfits : FitsBuffers command) (stale : HwContext)
    (flags : UInt32) : ∃ r, execute k command stale flags = some r := by
  obtain ⟨names, hparse⟩ : ∃ names, parseCommand command = some names := by
    have hname : (0 : UInt8) ∉ storedName command :=
      fun h => zero_notMem_firstWord command (List.mem_of_mem_take h)
    exact ⟨(⟨storedName command, hname⟩, ⟨commandText command, zero_notMem_commandText command⟩),
      (parseCommand_eq_some_iff command).mpr ⟨hfits, rfl, rfl⟩⟩
  simp only [execute, hparse]
  by_cases hexec : isExecutableFile k.fs names.1
  · obtain ⟨b, hb, htwo, hb8, hfree⟩ := h.freeBlock
    rw [if_neg (not_not.mpr hexec)]
    rcases startProgram_cases h.slots h.pcbBitmap hb hb8 hfree htwo hexec with
      hfail | ⟨n, mem, -, hstart⟩
    · simp only [hfail]
      exact ⟨_, rfl⟩
    · simp only [hstart]
      exact ⟨_, rfl⟩
  · rw [if_pos hexec]
    exact ⟨_, rfl⟩

/-- `push_pcb` does not touch the files. -/
lemma pushPcb_fs (h : pushPcb k = some k') : k'.fs = k.fs := by
  simp only [pushPcb] at h
  split at h
  · cases h
  · rw [← Option.some.inj h]

/-- **After `push_pcb`** the file that `execute` has found executable is loaded. -/
lemma loadProgram_after_pushPcb {filename : CString} (hexec : isExecutableFile k.fs filename)
    (hpush : pushPcb (addUserPage k).2 = some k') : (loadProgram k' filename).1 = true := by
  have hexec' : isExecutableFile k'.fs filename := by
    rw [pushPcb_fs hpush]
    exact hexec
  obtain ⟨mem, hmem⟩ := loadProgram_of_executable hexec'
  rw [hmem]

/-- **A failed `execute` is atomic.**  In every state of a run from boot with a current process, a
command that fits the buffers is answered.  If the answer is `-1`, nothing at all has changed; and
once `push_pcb` has succeeded `load_program` does not fail. -/
theorem execute_atomic {boot : Kernel} (hboot : boot.Booted) {es : List SystemEvent}
    (hrun : Run systemStep boot es k) {p : ℕ} (hp : k.currentPcb = .slot p)
    (hfits : FitsBuffers command) (stale : HwContext) (flags : UInt32) :
    ∃ r, execute k command stale flags = some r ∧ (r.1 = SYSCALL_ERROR → r.2 = k)
      ∧ ∀ filename saveCommand k', parseCommand command = some (filename, saveCommand) →
        isExecutableFile k.fs filename → pushPcb (addUserPage k).2 = some k' →
        (loadProgram k' filename).1 = true := by
  obtain ⟨s, hs⟩ := systemRun_represents hboot hrun
  obtain ⟨r, hr⟩ := execute_isSome hs hfits stale flags
  refine ⟨r, hr, fun hfail => ?_, fun filename _ k' _ hexec hpush =>
    loadProgram_after_pushPcb hexec hpush⟩
  rcases execute_cases hs hp hr with hsame | ⟨hzero, -⟩
  · rw [hsame]
  · rw [hfail] at hzero
    cases hzero

end Execute

/-- A seventh shell after six is refused, and nothing has changed. -/
theorem execute_atomic_sixShells : ∃ k, Run systemStep (Kernel.boot shellImage) sixShells k
    ∧ execute k shellName HwContext.zero 0 = some (SYSCALL_ERROR, k) := by
  have hread : (sixShells.foldlM systemStep (Kernel.boot shellImage)).map (fun k =>
      (k.currentPcb, (execute k shellName HwContext.zero 0).map Prod.fst))
      = some (.slot 5, some SYSCALL_ERROR) := by decide +kernel
  obtain ⟨k, hrun, hvalue⟩ := exists_run_of_map hread
  obtain ⟨hp, hfail⟩ := Prod.mk.inj hvalue
  have hfits : FitsBuffers shellName := ⟨.inr (by decide), by decide⟩
  obtain ⟨r, hr, hatomic, -⟩ := execute_atomic (Kernel.boot_booted shellImage) hrun hp hfits
    HwContext.zero 0
  rw [hr, Option.map_some, Option.some.injEq] at hfail
  exact ⟨k, hrun, hr.trans (congrArg some (Prod.ext hfail (hatomic hfail)))⟩

end CustomLinuxOs
