import CustomLinuxOs.Process.Kernel

/-!
The dispatch of system calls: `do_irq_main`, and `syscall_shim` with its table in assembly.

* `syscallTable`: the entries of `syscall_table`, `none` for a null pointer.
* `DispatchEnv`: what the functions that are called do.
* `doIrqMain`: with a jump that meets no function as an outcome of its own.
* `kernelStep_syscall`: for the calls of the process model, this is the step of a system call.
* `safeDispatch_iff`: the check in `do_irq_main` lets four numbers through that have no function.
-/

namespace CustomLinuxOs

/-! ### The table -/

/-- The functions with an address in `syscall_table`. -/
inductive SyscallFunction where
  | halt
  | execute
  | read
  | write
  | open
  | close
  | getargs
  | vidmap
  | creat
  | unlink
  deriving DecidableEq, Repr

/-- `syscall_table`.  The entries for `set_handler` and `sigreturn` are null. -/
def syscallTable : List (Option SyscallFunction) :=
  [none, some .halt, some .execute, some .read, some .write, some .open, some .close,
    some .getargs, some .vidmap, none, none, some .creat, some .unlink]

/-- Where the jump of `syscall_shim` goes. -/
inductive JumpTarget where
  | function (f : SyscallFunction)
  | null
  | outOfTable
  deriving DecidableEq, Repr

/-- `jmp *syscall_table(,%eax,4)`. -/
def jumpTarget (a : UInt32) : JumpTarget :=
  match syscallTable[a.toNat]? with
  | some (some f) => .function f
  | some none => .null
  | none => .outOfTable

/-! ### `do_irq_main` -/

/-- What the functions do that are called: on a system call, with its arguments, the value it
returns and the state it leaves. -/
structure DispatchEnv where
  syscall : SyscallFunction → UInt32 → UInt32 → UInt32 → Kernel → UInt32 × Kernel
  exceptionHandler : UInt32 → Kernel → Kernel
  doIrq : UInt32 → Kernel → Kernel

/-- How `do_irq_main` ends. -/
inductive DispatchResult where
  | returns (k : Kernel)
  | wildJump
  | noProcess

/-- `syscall_shim`: the value it returns, if it jumps to a function. -/
def syscallShim (env : DispatchEnv) (b c d a : UInt32) (k : Kernel) : Option (UInt32 × Kernel) :=
  match jumpTarget a with
  | .function f => some (env.syscall f b c d k)
  | _ => none

/-- `do_irq_main`, up to the context it returns. -/
def doIrqMain (env : DispatchEnv) (k : Kernel) (context : HwContext) : DispatchResult :=
  match irqEntry k context with
  | none => .noProcess
  | some k' =>
      if context.irqNum < 22 then .returns (env.exceptionHandler context.irqNum k')
      else if context.irqNum = 0x80 then
        if context.eax < 1 ∨ context.eax > 14 then .returns (k'.setEax k.contextCount (-1))
        else
          match syscallShim env context.ebx context.ecx context.edx context.eax k' with
          | some r => .returns (r.2.setEax k.contextCount r.1)
          | none => .wildJump
      else if 32 ≤ context.irqNum ∧ context.irqNum < 48 then
        .returns (env.doIrq (context.irqNum - 32) k')
      else .returns k'

/-- The function of a call of the process model. -/
def Syscall.function : Syscall → SyscallFunction
  | .execute _ _ _ => .execute
  | .halt _ => .halt
  | .open _ _ => .open
  | .close _ => .close

lemma irqEntry_isSome {k : Kernel} {p : ℕ} (hp : k.currentPcb = .slot p) (context : HwContext) :
    ∃ k', irqEntry k context = some k' := by
  rw [irqEntry, hp]
  exact ⟨_, rfl⟩

/-- An entry of the table has a function just for the numbers from 1 to 8, and for 11 and 12. -/
lemma jumpTarget_function_iff (a : UInt32) : (∃ f, jumpTarget a = .function f)
    ↔ 1 ≤ a.toNat ∧ a.toNat ≤ 12 ∧ a.toNat ≠ 9 ∧ a.toNat ≠ 10 := by
  rw [jumpTarget]
  generalize a.toNat = n
  rcases Nat.lt_or_ge n syscallTable.length with h | h
  · have hn : n < 13 := h
    interval_cases n <;> simp [syscallTable]
  · have hn : 13 ≤ n := h
    rw [List.getElem?_eq_none h]
    simp only [reduceCtorEq, exists_false, false_iff]
    omega

/-- The numbers that the check in `do_irq_main` refuses. -/
lemma refused_iff (a : UInt32) : a < 1 ∨ a > 14 ↔ a.toNat < 1 ∨ 14 < a.toNat :=
  or_congr UInt32.lt_iff_toNat_lt UInt32.lt_iff_toNat_lt

section Dispatch

variable (env : DispatchEnv) {k : Kernel} {context : HwContext}

/-- With a function in its entry, a number passes the check and the function is called. -/
lemma doIrqMain_function {k' : Kernel} {f : SyscallFunction}
    (hentry : irqEntry k context = some k') (hirq : context.irqNum = 0x80)
    (hf : jumpTarget context.eax = .function f) :
    doIrqMain env k context
      = .returns ((env.syscall f context.ebx context.ecx context.edx k').2.setEax k.contextCount
        (env.syscall f context.ebx context.ecx context.edx k').1) := by
  obtain ⟨hlow, hhigh, -⟩ := (jumpTarget_function_iff context.eax).mp ⟨f, hf⟩
  have hpass : ¬(context.eax < 1 ∨ context.eax > 14) := by
    rw [refused_iff]
    omega
  have hint : ¬ (0x80 : UInt32) < 22 := by decide
  simp only [doIrqMain, hentry, hirq, if_neg hint, if_true, if_neg hpass, syscallShim, hf]

/-- **A system call** of the process model is what `do_irq_main` makes of its number. -/
theorem kernelStep_syscall {p : ℕ} (hp : k.currentPcb = .slot p) (hirq : context.irqNum = 0x80)
    {call : Syscall} (hf : jumpTarget context.eax = .function call.function) {r : ℤ × Kernel}
    (hr : trap k context call = some r)
    (henv : ∀ k', irqEntry k context = some k' →
      env.syscall call.function context.ebx context.ecx context.edx k' = (UInt32.ofInt r.1, r.2)) :
    ∃ k', kernelStep k (.syscall context call) = some k'
      ∧ doIrqMain env k context = .returns k' := by
  obtain ⟨k', hentry⟩ := irqEntry_isSome hp context
  refine ⟨r.2.setEax k.contextCount (UInt32.ofInt r.1), ?_, ?_⟩
  · rw [kernelStep, hr]
    rfl
  · rw [doIrqMain_function env hentry hirq hf, henv k' hentry]

/-! ### Which numbers are safe -/

/-- The call stores `-1`, or it is carried out by a function of the table. -/
def SafeDispatch (env : DispatchEnv) (k : Kernel) (context : HwContext) : Prop :=
  ∃ k', irqEntry k context = some k'
    ∧ (doIrqMain env k context = .returns (k'.setEax k.contextCount (-1))
      ∨ ∃ f, jumpTarget context.eax = .function f
        ∧ syscallShim env context.ebx context.ecx context.edx context.eax k'
          = some (env.syscall f context.ebx context.ecx context.edx k')
        ∧ doIrqMain env k context
          = .returns ((env.syscall f context.ebx context.ecx context.edx k').2.setEax
            k.contextCount (env.syscall f context.ebx context.ecx context.edx k').1))

/-- **The dispatch of system calls** is safe for all numbers but 9, 10, 13 and 14. -/
theorem safeDispatch_iff {p : ℕ} (hp : k.currentPcb = .slot p) (hirq : context.irqNum = 0x80) :
    SafeDispatch env k context
      ↔ context.eax ≠ 9 ∧ context.eax ≠ 10 ∧ context.eax ≠ 13 ∧ context.eax ≠ 14 := by
  obtain ⟨k', hentry⟩ := irqEntry_isSome hp context
  have hint : ¬ (0x80 : UInt32) < 22 := by decide
  have hnumbers : (context.eax ≠ 9 ∧ context.eax ≠ 10 ∧ context.eax ≠ 13 ∧ context.eax ≠ 14)
      ↔ context.eax.toNat ≠ 9 ∧ context.eax.toNat ≠ 10 ∧ context.eax.toNat ≠ 13
        ∧ context.eax.toNat ≠ 14 := by
    simp only [ne_eq, ← UInt32.toNat_inj]
    rfl
  rw [hnumbers]
  by_cases hreject : context.eax < 1 ∨ context.eax > 14
  · refine iff_of_true ⟨k', hentry, Or.inl ?_⟩ ?_
    · simp only [doIrqMain, hentry, hirq, if_neg hint, if_true, if_pos hreject]
    · rw [refused_iff] at hreject
      omega
  · have hrange : 1 ≤ context.eax.toNat ∧ context.eax.toNat ≤ 14 := by
      rw [refused_iff] at hreject
      omega
    have htable := jumpTarget_function_iff context.eax
    constructor
    · rintro ⟨k1, hk1, hminus | ⟨f, hf, -⟩⟩
      · -- a jump that meets no function does not come back
        by_contra hbad
        have hnone : ∀ f, jumpTarget context.eax ≠ .function f := fun f hf => by
          have := htable.mp ⟨f, hf⟩
          omega
        have hshim : syscallShim env context.ebx context.ecx context.edx context.eax k' = none := by
          rw [syscallShim]
          cases htarget : jumpTarget context.eax with
          | function f => exact absurd htarget (hnone f)
          | null => rfl
          | outOfTable => rfl
        simp only [doIrqMain, hentry, hirq, if_neg hint, if_true, if_neg hreject, hshim] at hminus
        cases hminus
      · have := htable.mp ⟨f, hf⟩
        omega
    · intro hgood
      obtain ⟨f, hf⟩ := htable.mpr (by omega)
      refine ⟨k', hentry, Or.inr ⟨f, hf, ?_, doIrqMain_function env hentry hirq hf⟩⟩
      simp only [syscallShim, hf]

end Dispatch

/-- Functions that return `0` and leave the state as it is. -/
def DispatchEnv.idle : DispatchEnv := ⟨fun _ _ _ _ k => (0, k), fun _ k => k, fun _ k => k⟩

/-- The kernel while a process is in slot `0`. -/
def oneProcess : Kernel := { Kernel.boot noFiles with currentPcb := .slot 0 }

/-- The context of a system call with a number. -/
def callContext (number : UInt32) : HwContext :=
  { HwContext.zero with irqNum := 0x80, eax := number }

/-- The condition for `write`, whose number is 4. -/
theorem safeDispatch_iff_write : SafeDispatch DispatchEnv.idle oneProcess (callContext 4)
    ↔ (callContext 4).eax ≠ 9 ∧ (callContext 4).eax ≠ 10 ∧ (callContext 4).eax ≠ 13
      ∧ (callContext 4).eax ≠ 14 :=
  safeDispatch_iff DispatchEnv.idle (p := 0) rfl rfl

/-- For `set_handler`, whose number is 9, the kernel jumps to address `0`. -/
theorem not_safeDispatch_setHandler :
    ¬SafeDispatch DispatchEnv.idle oneProcess (callContext 9) := by
  rintro ⟨k', -, hminus | ⟨f, hf, -⟩⟩
  · have hwild : doIrqMain DispatchEnv.idle oneProcess (callContext 9) = .wildJump := rfl
    rw [hwild] at hminus
    cases hminus
  · have hnull : jumpTarget (callContext 9).eax = .null := rfl
    rw [hnull] at hf
    cases hf

end CustomLinuxOs
