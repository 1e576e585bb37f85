import CustomLinuxOs.Foundations.Stacks
import CustomLinuxOs.Process.Accounting

/-!
Saved contexts, over runs of interrupts that are taken and left and may be nested.

* `Machine`: a kernel state, whether a handler is running, and, beside them, the contexts that each
  process and the kernel itself have yet to resume.
* `Action`: what a handler does to the processes.
* `machineStep`: taking an interrupt, acting in a handler, leaving an interrupt.
* `Disciplined`: the chains of contexts in memory are those stacks, and no process that has to go on
  is without a context.
* `contexts_disciplined`: what is resumed is the top of the stack of the current process, no context
  is resumed twice and none is lost.
-/

namespace CustomLinuxOs

/-! ### The machine -/

/-- What the handler of an interrupt does to the processes. -/
inductive Action where
  | execute (command : CString) (stale : HwContext) (flags : UInt32)
  | halt (status : UInt8)
  | switchProcess (taskId : ℕ) (stale : HwContext) (flags : UInt32)

/-- The function of an action; the system calls are those of a process. -/
def Action.run (k : Kernel) : Action → Option (ℤ × Kernel)
  | .execute command stale flags =>
      if k.currentPcb.slot?.isSome then CustomLinuxOs.execute k command stale flags else none
  | .halt status => CustomLinuxOs.halt k status
  | .switchProcess taskId stale flags =>
      if taskId < MAX_ACTIVE_TASKS then
        some (CustomLinuxOs.switchProcess k taskId stale flags)
      else none

/-- A kernel state, whether a handler is running there, which contexts have been saved while a
handler was running, the contexts that have been resumed, the last one first, and those that have
been saved. -/
structure Machine where
  kernel : Kernel
  running : Bool
  nested : ℕ → Bool
  resumed : List ℕ
  saved : Stacks PcbPtr

/-- The machine after booting. -/
def Machine.start (boot : Kernel) : Machine :=
  { kernel := boot, running := false, nested := fun _ => false, resumed := [],
    saved := Stacks.empty }

/-- A process has been created: its initial context waits on its stack. -/
def Machine.create (m : Machine) (k : Kernel) : Machine :=
  { m with
    kernel := k
    nested := Function.update m.nested m.kernel.contextCount false
    saved := m.saved.push k.currentPcb }

/-- The machine after a successful action that leads to the kernel state `k`.  The contexts of a
process that halts are given up. -/
def Machine.afterAction (m : Machine) (k : Kernel) : Action → Machine
  | .execute _ _ _ => m.create k
  | .halt _ => { m with kernel := k, saved := m.saved.drop m.kernel.currentPcb }
  | .switchProcess taskId _ _ =>
      if m.kernel.currentTask ≠ taskId ∧ (m.kernel.currentTasks taskId).slot? = none then
        m.create k
      else { m with kernel := k }

/-- Taking an interrupt, an action of the running handler, and leaving an interrupt. -/
inductive MachineEvent where
  | enter (context : HwContext)
  | act (a : Action)
  | leave

/-- One event.  Only a successful action is one. -/
def machineStep (m : Machine) : MachineEvent → Option Machine
  | .enter context =>
      (irqEntry m.kernel context).map fun k =>
        { m with
          kernel := k
          running := true
          nested := Function.update m.nested m.kernel.contextCount m.running
          saved := m.saved.push m.kernel.currentPcb }
  | .act a =>
      if m.running then
        (a.run m.kernel).bind fun r => if r.1 = 0 then some (m.afterAction r.2 a) else none
      else none
  | .leave =>
      if m.running then
        (returnContext m.kernel).bind fun c => (irqExit m.kernel).map fun k =>
          { m with
            kernel := k
            running := m.nested c
            resumed := c :: m.resumed
            saved := m.saved.pop m.kernel.currentPcb }
      else none

/-! ### Chains of contexts -/

/-- The first context on the chain of a process, or of the kernel itself. -/
def chainHead (k : Kernel) : PcbPtr → ℕ
  | .null => 0
  | .kernelMemEnd => k.globalContext
  | .slot n => (k.pcbs n).context

lemma chainHead_modifyPcb (k : Kernel) (n : ℕ) (f : Pcb → Pcb) :
    chainHead (k.modifyPcb n f) (.slot n) = (f (k.pcbs n)).context :=
  congrArg Pcb.context (Function.update_self _ _ _)

/-- A chain that starts with these contexts. -/
def Linked (contexts : ℕ → HwContext) : ℕ → List ℕ → Prop
  | _, [] => True
  | head, c :: l => head = c ∧ Linked contexts (contexts c).parent l

lemma Linked.congr {contexts contexts' : ℕ → HwContext} {head : ℕ} {l : List ℕ}
    (h : Linked contexts head l) (hsame : ∀ c ∈ l, (contexts' c).parent = (contexts c).parent) :
    Linked contexts' head l := by
  induction l generalizing head with
  | nil => trivial
  | cons c l ih =>
      obtain ⟨hc, hl⟩ := h
      refine ⟨hc, ?_⟩
      rw [hsame c List.mem_cons_self]
      exact ih hl fun d hd => hsame d (List.mem_cons_of_mem c hd)

/-- What taking an interrupt does to the chains. -/
structure Entered (k k' : Kernel) : Prop where
  quiet : Quiet k k'
  contextCount : k'.contextCount = k.contextCount + 1
  contexts : ∃ context : HwContext, context.parent = chainHead k k.currentPcb
    ∧ k'.contexts = Function.update k.contexts k.contextCount context
  head : chainHead k' k.currentPcb = k.contextCount
  heads : ∀ o ≠ k.currentPcb, chainHead k' o = chainHead k o

lemma irqEntry_cases {k : Kernel} (hnull : k.currentPcb ≠ .null) (c : HwContext) :
    ∃ k', irqEntry k c = some k' ∧ Entered k k' := by
  cases hcurrent : k.currentPcb with
  | null => exact absurd hcurrent hnull
  | kernelMemEnd =>
      obtain ⟨k', hk'⟩ : ∃ k', irqEntry k c = some k' := by
        rw [irqEntry, hcurrent]
        exact ⟨_, rfl⟩
      have hquiet := irqEntry_quiet hk'
      refine ⟨k', hk', ?_⟩
      rw [irqEntry, hcurrent] at hk'
      obtain rfl := Option.some.inj hk'
      refine ⟨hquiet, rfl, ⟨_, (congrArg (chainHead k) hcurrent).symm, rfl⟩,
        congrArg (chainHead _) hcurrent, fun o ho => ?_⟩
      cases o with
      | null => rfl
      | kernelMemEnd => exact absurd hcurrent.symm ho
      | slot m => rfl
  | slot n =>
      obtain ⟨k', hk'⟩ : ∃ k', irqEntry k c = some k' := by
        rw [irqEntry, hcurrent]
        exact ⟨_, rfl⟩
      have hquiet := irqEntry_quiet hk'
      have hothers := hquiet.others
      refine ⟨k', hk', ?_⟩
      rw [irqEntry, hcurrent] at hk'
      obtain rfl := Option.some.inj hk'
      have hhead := chainHead_modifyPcb k n fun pcb => { pcb with context := k.contextCount }
      refine ⟨hquiet, rfl, ⟨_, (congrArg (chainHead k) hcurrent).symm, rfl⟩,
        (congrArg (chainHead _) hcurrent).trans hhead, fun o ho => ?_⟩
      cases o with
      | null => rfl
      | kernelMemEnd => rfl
      | slot m => exact congrArg Pcb.context (hothers m ho.symm)

/-- What leaving an interrupt does to the chains. -/
lemma irqExit_cases {k : Kernel} (hnull : k.currentPcb ≠ .null) :
    returnContext k = some (chainHead k k.currentPcb)
      ∧ ∃ k', irqExit k = some k' ∧ Quiet k k' ∧ k'.contexts = k.contexts
        ∧ k'.contextCount = k.contextCount
        ∧ chainHead k' k.currentPcb = (k.contexts (chainHead k k.currentPcb)).parent
        ∧ ∀ o ≠ k.currentPcb, chainHead k' o = chainHead k o := by
  have hreturn : returnContext k = some (chainHead k k.currentPcb) := by
    rw [returnContext]
    cases hcurrent : k.currentPcb with
    | null => exact absurd hcurrent hnull
    | kernelMemEnd => rfl
    | slot n => rfl
  have hexit : irqExit k = some (swapContext k (k.contexts (chainHead k k.currentPcb)).parent) := by
    rw [irqExit, hreturn]
    rfl
  have hquiet := irqExit_quiet hexit
  have hothers := hquiet.others
  refine ⟨hreturn, _, hexit, hquiet, ?_⟩
  generalize (k.contexts (chainHead k k.currentPcb)).parent = parent at hothers
  rw [swapContext] at hothers ⊢
  cases hcurrent : k.currentPcb with
  | null => exact absurd hcurrent hnull
  | kernelMemEnd =>
      refine ⟨rfl, rfl, rfl, fun o ho => ?_⟩
      cases o with
      | null => rfl
      | kernelMemEnd => exact absurd rfl ho
      | slot m => rfl
  | slot n =>
      rw [hcurrent] at hothers
      refine ⟨rfl, rfl, chainHead_modifyPcb k n _, fun o ho => ?_⟩
      cases o with
      | null => rfl
      | kernelMemEnd => rfl
      | slot m => exact congrArg Pcb.context (hothers m ho.symm)

/-! ### The invariant -/

/-- The kernel itself and the live processes own chains. -/
def Sessions.owner (s : Sessions) (o : PcbPtr) : Prop :=
  o = .kernelMemEnd ∨ ∃ n, o = .slot n ∧ s.live n

/-- The chains in memory are the stacks of saved contexts.  Who is not current has a context to
resume, and so has who is in a handler; below a context saved in a handler there is another one. -/
structure Disciplined (m : Machine) (s : Sessions) : Prop where
  represents : Represents m.kernel s
  notNull : m.kernel.currentPcb ≠ .null
  count : m.saved.count = m.kernel.contextCount
  resumed : m.resumed = m.saved.popped
  linked : ∀ o, Linked m.kernel.contexts (chainHead m.kernel o) (m.saved.pending o)
  owners : ∀ o, m.saved.pending o ≠ [] → s.owner o
  waiting : ∀ o, s.owner o → o ≠ m.kernel.currentPcb → m.saved.pending o ≠ []
  running : m.running = true → m.saved.pending m.kernel.currentPcb ≠ []
  bottom : ∀ o c, (m.saved.pending o).getLast? = some c → m.nested c = false

section Steps

variable {m m' : Machine} {s : Sessions}

/-- Items on the stacks are contexts that have been made. -/
lemma Disciplined.lt_contextCount (h : Disciplined m s) {o : PcbPtr} {c : ℕ}
    (hc : c ∈ m.saved.pending o) : c < m.kernel.contextCount := by
  rw [← h.count]
  exact m.saved.lt_count o c hc

/-- While a handler is running, everyone has a context to resume. -/
lemma Disciplined.pending_ne_nil (h : Disciplined m s) (hrunning : m.running = true) {o : PcbPtr}
    (ho : s.owner o) : m.saved.pending o ≠ [] := by
  rcases eq_or_ne o m.kernel.currentPcb with rfl | hne
  · exact h.running hrunning
  · exact h.waiting o ho hne

/-- A new context on the chain of `o`, with everything else as it was. -/
lemma Disciplined.linked_push (h : Disciplined m s) {k' : Kernel} {context : HwContext}
    {o : PcbPtr}
    (hcontexts : k'.contexts = Function.update m.kernel.contexts m.kernel.contextCount context)
    (hhead : chainHead k' o = m.kernel.contextCount)
    (hparent : Linked m.kernel.contexts context.parent (m.saved.pending o))
    (hheads : ∀ o' ≠ o, chainHead k' o' = chainHead m.kernel o') (o' : PcbPtr) :
    Linked k'.contexts (chainHead k' o') ((m.saved.push o).pending o') := by
  have hsame {o' : PcbPtr} : ∀ c ∈ m.saved.pending o',
      (k'.contexts c).parent = (m.kernel.contexts c).parent := by
    intro c hc
    rw [hcontexts, Function.update_of_ne (h.lt_contextCount hc).ne]
  rcases eq_or_ne o' o with rfl | hne
  · rw [Stacks.push_pending_self, hhead, h.count]
    refine ⟨rfl, ?_⟩
    rw [hcontexts, Function.update_self, ← hcontexts]
    exact hparent.congr hsame
  · rw [Stacks.push_pending_of_ne hne, hheads o' hne]
    exact (h.linked o').congr hsame

/-- The bottom contexts when one is pushed, with `nested` saying whether in a handler. -/
lemma Disciplined.bottom_push (h : Disciplined m s) {o : PcbPtr} {nested : Bool}
    (hnested : m.saved.pending o = [] → nested = false) (o' : PcbPtr) (c : ℕ)
    (hc : ((m.saved.push o).pending o').getLast? = some c) :
    Function.update m.nested m.kernel.contextCount nested c = false := by
  have hold {o' : PcbPtr} (hc : (m.saved.pending o').getLast? = some c) :
      Function.update m.nested m.kernel.contextCount nested c = false := by
    have hlt := h.lt_contextCount (List.mem_of_getLast? hc)
    rw [Function.update_of_ne hlt.ne]
    exact h.bottom o' c hc
  rcases eq_or_ne o' o with rfl | hne
  · rw [Stacks.push_pending_self, h.count] at hc
    cases hl : m.saved.pending o' with
    | nil =>
        rw [hl, List.getLast?_singleton] at hc
        obtain rfl := Option.some.inj hc
        rw [Function.update_self]
        exact hnested hl
    | cons d l =>
        rw [hl, List.getLast?_cons_cons, ← hl] at hc
        exact hold hc
  · rw [Stacks.push_pending_of_ne hne] at hc
    exact hold hc

/-- The current process, or the kernel itself, owns a chain. -/
lemma Disciplined.owner_current (h : Disciplined m s) : s.owner m.kernel.currentPcb := by
  cases hcurrent : m.kernel.currentPcb with
  | null => exact absurd hcurrent h.notNull
  | kernelMemEnd => exact Or.inl rfl
  | slot n =>
      obtain ⟨l, hl⟩ := h.represents.stack_active hcurrent
      exact Or.inr ⟨n, rfl, s.active, by simp [hl]⟩

/-- **Taking an interrupt** keeps the invariant. -/
lemma Disciplined.enter (h : Disciplined m s) {c : HwContext}
    (hstep : machineStep m (.enter c) = some m') : Disciplined m' s := by
  obtain ⟨k', hk', hentered⟩ := irqEntry_cases h.notNull c
  rw [machineStep, hk'] at hstep
  obtain rfl := Option.some.inj hstep
  obtain ⟨context, hparent, hcontexts⟩ := hentered.contexts
  have hcurrent := hentered.quiet.currentPcb
  constructor
  case represents => exact hentered.quiet.represents h.represents
  case notNull => exact hcurrent ▸ h.notNull
  case count => exact (congrArg Nat.succ h.count).trans hentered.contextCount.symm
  case resumed => exact h.resumed
  case linked =>
    refine h.linked_push hcontexts hentered.head ?_ hentered.heads
    rw [hparent]
    exact h.linked _
  case owners =>
    intro o ho
    rcases eq_or_ne o m.kernel.currentPcb with rfl | hne
    · exact h.owner_current
    · exact h.owners o (by rwa [Stacks.push_pending_of_ne hne] at ho)
  case waiting =>
    intro o ho hne
    simp only [hcurrent] at hne
    rw [Stacks.push_pending_of_ne hne]
    exact h.waiting o ho hne
  case running =>
    intro _
    simp [hcurrent]
  case bottom =>
    refine h.bottom_push fun hnil => ?_
    exact Bool.eq_false_of_not_eq_true fun hrunning => h.running hrunning hnil

/-- **Leaving an interrupt** is possible in a handler, resumes the top of the stack of the current
process, and keeps the invariant. -/
lemma Disciplined.leave (h : Disciplined m s) (hrunning : m.running = true) :
    ∃ c l m', m.saved.pending m.kernel.currentPcb = c :: l ∧ machineStep m .leave = some m'
      ∧ m'.resumed = c :: m.resumed ∧ Disciplined m' s := by
  obtain ⟨hreturn, k', hexit, hquiet, hcontexts, hcount, hhead, hheads⟩ := irqExit_cases h.notNull
  obtain ⟨c, l, hl⟩ := List.exists_cons_of_ne_nil (h.running hrunning)
  have hlinked := h.linked m.kernel.currentPcb
  rw [hl] at hlinked
  obtain ⟨hc, hlinked⟩ := hlinked
  have hcurrent := hquiet.currentPcb
  refine ⟨c, l, { m with
    kernel := k', running := m.nested c, resumed := c :: m.resumed,
    saved := m.saved.pop m.kernel.currentPcb }, hl, ?_, rfl, ?_⟩
  · rw [machineStep, if_pos hrunning, hreturn, hexit, hc]
    rfl
  constructor
  case represents => exact hquiet.represents h.represents
  case notNull => exact hcurrent ▸ h.notNull
  case count => exact h.count.trans hcount.symm
  case resumed =>
    have hpopped : (m.saved.pop m.kernel.currentPcb).popped = c :: m.saved.popped := by
      simp [Stacks.pop, hl]
    rw [hpopped, h.resumed]
  case linked =>
    intro o
    simp only [hcontexts]
    rcases eq_or_ne o m.kernel.currentPcb with rfl | hne
    · rw [Stacks.pop_pending_self, hl, hhead, hc]
      exact hlinked
    · rw [Stacks.pop_pending_of_ne hne, hheads o hne]
      exact h.linked o
  case owners =>
    intro o ho
    rcases eq_or_ne o m.kernel.currentPcb with rfl | hne
    · exact h.owner_current
    · exact h.owners o (by rwa [Stacks.pop_pending_of_ne hne] at ho)
  case waiting =>
    intro o ho hne
    simp only [hcurrent] at hne
    rw [Stacks.pop_pending_of_ne hne]
    exact h.waiting o ho hne
  case running =>
    -- a context saved in a handler is not the last one of its stack
    intro hnested hnil
    simp only [hcurrent, Stacks.pop_pending_self, hl, List.tail_cons] at hnil
    have hbottom := h.bottom m.kernel.currentPcb c (by rw [hl, hnil]; rfl)
    exact absurd (hbottom.symm.trans hnested) (by decide)
  case bottom =>
    intro o d hd
    rcases eq_or_ne o m.kernel.currentPcb with rfl | hne
    · rw [Stacks.pop_pending_self, hl, List.tail_cons] at hd
      refine h.bottom m.kernel.currentPcb d ?_
      rw [hl]
      cases l with
      | nil => exact absurd hd (by simp)
      | cons e l => rwa [List.getLast?_cons_cons]
    · rw [Stacks.pop_pending_of_ne hne] at hd
      exact h.bottom o d hd

/-- Starting a process keeps the invariant.  It is started from the kernel state `k`, which differs
from that of the machine in the terminal that is active. -/
lemma Disciplined.create (h : Disciplined m s) (hrunning : m.running = true) {k k' : Kernel}
    {t n b : ℕ} (hk : Represents k (s.select t)) (hpcbs : k.pcbs = m.kernel.pcbs)
    (hcontexts : k.contexts = m.kernel.contexts) (hcount : k.contextCount = m.kernel.contextCount)
    (hglobal : k.globalContext = m.kernel.globalContext) (hfree : Free k (s.select t) n b)
    (hl : Launched k k' n b) :
    Disciplined (m.create k') ((s.select t).launch n hfree.notLive) := by
  have hcurrent := hl.currentPcb
  have hnew : ¬ s.owner (.slot n) := by
    rintro (habsurd | ⟨l, hln, hlive⟩)
    · exact absurd habsurd (by simp)
    · exact hfree.notLive (PcbPtr.slot.inj hln ▸ hlive)
  have hnil : m.saved.pending (.slot n) = [] := by
    by_contra hne
    exact hnew (h.owners _ hne)
  have howner {o : PcbPtr} : ((s.select t).launch n hfree.notLive).owner o
      ↔ o = .slot n ∨ s.owner o := by
    constructor
    · rintro (rfl | ⟨l, rfl, hlive⟩)
      · exact Or.inr (Or.inl rfl)
      · rcases (Sessions.live_launch hfree.notLive).mp hlive with rfl | hlive
        · exact Or.inl rfl
        · exact Or.inr (Or.inr ⟨l, rfl, hlive⟩)
    · rintro (rfl | rfl | ⟨l, rfl, hlive⟩)
      · exact Or.inr ⟨n, rfl, (Sessions.live_launch hfree.notLive).mpr (Or.inl rfl)⟩
      · exact Or.inl rfl
      · exact Or.inr ⟨l, rfl, (Sessions.live_launch hfree.notLive).mpr (Or.inr hlive)⟩
  constructor
  case represents => exact hk.launch hfree hl
  case notNull =>
    rw [Machine.create, hcurrent]
    exact fun habsurd => absurd habsurd (by simp)
  case count => exact (congrArg Nat.succ (h.count.trans hcount.symm)).trans hl.contextCount.symm
  case resumed => exact h.resumed
  case linked =>
    obtain ⟨context, hcontext⟩ := hl.contexts
    rw [hcontexts, hcount] at hcontext
    simp only [Machine.create, hcurrent]
    refine h.linked_push hcontext (hl.context.trans hcount) ?_ fun o ho => ?_
    · rw [hnil]
      trivial
    · cases o with
      | null => rfl
      | kernelMemEnd => exact hl.globalContext.trans hglobal
      | slot l =>
          obtain ⟨child, hchild⟩ := hl.others l fun hln => ho (congrArg _ hln)
          rw [chainHead, hchild, hpcbs]
          rfl
  case owners =>
    intro o ho
    refine howner.mpr ?_
    rcases eq_or_ne o (.slot n) with rfl | hne
    · exact Or.inl rfl
    · simp only [Machine.create, hcurrent] at ho
      exact Or.inr (h.owners o (by rwa [Stacks.push_pending_of_ne hne] at ho))
  case waiting =>
    intro o ho hne
    simp only [Machine.create, hcurrent] at hne ⊢
    rw [Stacks.push_pending_of_ne hne]
    exact h.pending_ne_nil hrunning ((howner.mp ho).resolve_left hne)
  case running =>
    intro _
    simp [Machine.create]
  case bottom =>
    simp only [Machine.create]
    exact h.bottom_push fun _ => rfl

/-- The end of a process keeps the invariant. -/
lemma Disciplined.halt (h : Disciplined m s) (hrunning : m.running = true) {n : ℕ} {l : List ℕ}
    (hn : m.kernel.currentPcb = .slot n) (hl : s.stack s.active = n :: l) {k' : Kernel}
    {status : UInt8} (hh : Halted m.kernel k' n l status) :
    Disciplined (m.afterAction k' (.halt status)) s.exit := by
  have howner {o : PcbPtr} : s.exit.owner o ↔ o ≠ .slot n ∧ s.owner o := by
    constructor
    · rintro (rfl | ⟨p, rfl, hlive⟩)
      · exact ⟨by simp, Or.inl rfl⟩
      · obtain ⟨hpn, hlive⟩ := (Sessions.live_exit hl).mp hlive
        exact ⟨fun heq => hpn (PcbPtr.slot.inj heq), Or.inr ⟨p, rfl, hlive⟩⟩
    · rintro ⟨hne, rfl | ⟨p, rfl, hlive⟩⟩
      · exact Or.inl rfl
      · exact Or.inr ⟨p, rfl, (Sessions.live_exit hl).mpr ⟨fun heq => hne (heq ▸ rfl), hlive⟩⟩
  have hkeep {o : PcbPtr} (ho : s.exit.owner o) :
      ((m.saved.drop m.kernel.currentPcb).pending o) ≠ [] := by
    obtain ⟨hne, ho⟩ := howner.mp ho
    rw [Stacks.drop_pending_of_ne (by rwa [hn])]
    exact h.pending_ne_nil hrunning ho
  have hparents (c : ℕ) : (k'.contexts c).parent = (m.kernel.contexts c).parent := by
    cases l with
    | nil => rw [hh.noParent rfl]
    | cons p l =>
        rw [(hh.parent p rfl).2.2, Kernel.setEax]
        rcases eq_or_ne c (m.kernel.pcbs p).context with rfl | hne
        · simp only [Function.update_self]
        · simp only [Function.update_of_ne hne]
  have hrep := h.represents.exit hl hh
  have hcurrent : s.exit.owner k'.currentPcb := by
    rw [hh.currentPcb]
    cases l with
    | nil => exact Or.inl rfl
    | cons p l =>
        refine Or.inr ⟨p, rfl, s.active, ?_⟩
        rw [Sessions.stack_exit, Function.update_self, hl]
        exact List.mem_cons_self
  constructor
  case represents => exact hrep
  case notNull =>
    intro habsurd
    rcases hcurrent with hk | ⟨p, hp, -⟩
    · exact absurd (hk.symm.trans habsurd) (by decide)
    · exact absurd (hp.symm.trans habsurd) (by simp)
  case count => exact h.count.trans hh.contextCount.symm
  case resumed => exact h.resumed
  case linked =>
    intro o
    have hhead : chainHead k' o = chainHead m.kernel o := by
      cases o with
      | null => rfl
      | kernelMemEnd => exact hh.globalContext
      | slot p => exact congrArg (fun pcbs => (pcbs p).context) hh.pcbs
    simp only [Machine.afterAction, hhead]
    rcases eq_or_ne o m.kernel.currentPcb with rfl | hne
    · rw [Stacks.drop_pending_self]
      trivial
    · rw [Stacks.drop_pending_of_ne hne]
      exact (h.linked o).congr fun c _ => hparents c
  case owners =>
    intro o ho
    simp only [Machine.afterAction] at ho
    rcases eq_or_ne o m.kernel.currentPcb with rfl | hne
    · exact absurd (Stacks.drop_pending_self m.saved m.kernel.currentPcb) ho
    · rw [Stacks.drop_pending_of_ne hne] at ho
      exact howner.mpr ⟨by rwa [← hn], h.owners o ho⟩
  case waiting => exact fun o ho _ => hkeep ho
  case running => exact fun _ => hkeep hcurrent
  case bottom =>
    intro o c hc
    simp only [Machine.afterAction] at hc
    rcases eq_or_ne o m.kernel.currentPcb with rfl | hne
    · rw [Stacks.drop_pending_self] at hc
      exact absurd hc (by simp)
    · rw [Stacks.drop_pending_of_ne hne] at hc
      exact h.bottom o c hc

/-- Going to another process keeps the invariant. -/
lemma Disciplined.switch (h : Disciplined m s) (hrunning : m.running = true) {k' : Kernel}
    {t n : ℕ} (hk : Represents k' (s.select t)) (hcurrent : k'.currentPcb = .slot n)
    (hpcbs : k'.pcbs = m.kernel.pcbs) (hcontexts : k'.contexts = m.kernel.contexts)
    (hcount : k'.contextCount = m.kernel.contextCount)
    (hglobal : k'.globalContext = m.kernel.globalContext) :
    Disciplined { m with kernel := k' } (s.select t) := by
  have hhead (o : PcbPtr) : chainHead k' o = chainHead m.kernel o := by
    cases o with
    | null => rfl
    | kernelMemEnd => exact hglobal
    | slot p => exact congrArg (fun pcbs => (pcbs p).context) hpcbs
  have hlive : s.live n := by
    obtain ⟨l, hl⟩ := hk.stack_active hcurrent
    exact ⟨t, by rw [show s.stack t = n :: l from hl]; exact List.mem_cons_self⟩
  constructor
  case represents => exact hk
  case notNull => exact fun habsurd => absurd (hcurrent.symm.trans habsurd) (by simp)
  case count => exact h.count.trans hcount.symm
  case resumed => exact h.resumed
  case linked =>
    intro o
    simp only [hcontexts, hhead]
    exact h.linked o
  case owners => exact h.owners
  case waiting => exact fun o ho _ => h.pending_ne_nil hrunning ho
  case running =>
    intro _
    simp only [hcurrent]
    exact h.pending_ne_nil hrunning (Or.inr ⟨n, rfl, hlive⟩)
  case bottom => exact h.bottom

/-- **A successful action** keeps the invariant. -/
lemma Disciplined.act (h : Disciplined m s) {a : Action}
    (hstep : machineStep m (.act a) = some m') : ∃ s', Disciplined m' s' := by
  rw [machineStep] at hstep
  split at hstep
  · rename_i hrunning
    obtain ⟨r, hr, hsome⟩ := Option.bind_eq_some_iff.mp hstep
    split at hsome
    · rename_i hzero
      obtain rfl := Option.some.inj hsome
      have hself := h.represents.select_currentTask
      have hrep : Represents m.kernel (s.select m.kernel.currentTask) := by
        rw [hself]
        exact h.represents
      cases a with
      | execute command stale flags =>
          rw [Action.run] at hr
          split at hr
          · rename_i hslot
            obtain ⟨p, hp⟩ := Option.isSome_iff_exists.mp hslot
            rcases execute_cases hrep (PcbPtr.slot?_eq_some.mp hp) hr with
              hfail | ⟨-, n, b, hfree, hl⟩
            · rw [hfail] at hzero
              exact absurd hzero (by decide : SYSCALL_ERROR ≠ 0)
            · exact ⟨_, h.create hrunning hrep rfl rfl rfl rfl hfree hl⟩
          · exact absurd hr (by simp)
      | halt status =>
          rw [Action.run] at hr
          cases hn : m.kernel.currentPcb with
          | null => rw [CustomLinuxOs.halt, hn] at hr; exact absurd hr (by simp)
          | kernelMemEnd => rw [CustomLinuxOs.halt, hn] at hr; exact absurd hr (by simp)
          | slot n =>
              obtain ⟨l, hl⟩ := h.represents.stack_active hn
              obtain ⟨k', hk', hh⟩ := halt_cases h.represents hn hl status
              rw [hk'] at hr
              obtain rfl := Option.some.inj hr
              exact ⟨_, h.halt hrunning hn hl hh⟩
      | switchProcess t stale flags =>
          rw [Action.run] at hr
          split at hr
          · obtain rfl := Option.some.inj hr
            rw [Machine.afterAction]
            rcases eq_or_ne m.kernel.currentTask t with heq | hne
            · have hsame : switchProcess m.kernel t stale flags = (0, m.kernel) := by
                rw [switchProcess, if_pos heq]
              rw [if_neg fun hne => hne.1 heq, hsame]
              exact ⟨s, h⟩
            · rcases switchProcess_cases h.represents hne stale flags with
                ⟨n, hn, hr⟩ | ⟨hnone, ⟨page, hr⟩ | ⟨-, n, b, hfree, hl⟩⟩
              · rw [if_neg, hr]
                · exact ⟨_, h.switch hrunning (h.represents.select_process hn) hn rfl rfl rfl rfl⟩
                · rw [hn]
                  exact fun habsurd => absurd habsurd.2 (by simp [PcbPtr.slot?])
              · rw [hr] at hzero
                exact absurd hzero (by decide : SYSCALL_ERROR ≠ 0)
              · rw [if_pos ⟨hne, hnone⟩]
                have hselect : Represents (selectTask m.kernel t) (s.select t) :=
                  h.represents.select_empty hnone m.kernel.userPage
                have hfree' : Free (selectTask m.kernel t) (s.select t) n b :=
                  ⟨hfree.slot, hfree.notLive, hfree.block, hfree.two_le, hfree.lt_eight⟩
                exact ⟨_, h.create hrunning hselect rfl rfl rfl rfl hfree' hl⟩
          · exact absurd hr (by simp)
    · exact absurd hsome (by simp)
  · exact absurd hstep (by simp)

/-- Every event keeps the invariant. -/
lemma Disciplined.step (h : Disciplined m s) {e : MachineEvent}
    (hstep : machineStep m e = some m') : ∃ s', Disciplined m' s' := by
  cases e with
  | enter c => exact ⟨s, h.enter hstep⟩
  | act a => exact h.act hstep
  | leave =>
      have hrunning : m.running = true := by
        by_contra hnot
        rw [machineStep, if_neg hnot] at hstep
        exact absurd hstep (by simp)
      obtain ⟨c, l, m'', -, hm'', -, hdisciplined⟩ := h.leave hrunning
      rw [hm''] at hstep
      exact ⟨s, Option.some.inj hstep ▸ hdisciplined⟩

end Steps

/-- The machine is disciplined after booting. -/
lemma Kernel.Booted.disciplined {boot : Kernel} (h : boot.Booted) :
    Disciplined (Machine.start boot) Sessions.none where
  represents := h.represents
  notNull hnull := absurd (h.currentPcb.symm.trans hnull) (by decide)
  count := h.contextCount.symm
  resumed := rfl
  linked _ := trivial
  owners _ ho := absurd rfl ho
  waiting o ho hne := by
    rcases ho with rfl | ⟨n, -, t, ht⟩
    · exact absurd h.currentPcb.symm hne
    · exact absurd ht (by simp [Sessions.none])
  running hrunning := absurd hrunning (by simp [Machine.start])
  bottom _ _ _ := rfl

/-- The kernel, or the process in a slot that is taken. -/
def Kernel.alive (k : Kernel) (o : PcbPtr) : Prop :=
  o = .kernelMemEnd ∨ ∃ n < MAX_PROCESSES, o = .slot n ∧ k.pcbBitmap.getLsbD n = false

/-- **The discipline of saved contexts.**  In all states of a run from boot: no context has been
resumed twice; each one made has been resumed, or it waits on the stack of the kernel or of a live
process, or its process has halted; and a handler can return, and resumes then the context that has
been put last on the stack of the current process. -/
theorem contexts_disciplined {boot : Kernel} (hboot : boot.Booted) {es : List MachineEvent}
    {m : Machine} (hrun : Run machineStep (Machine.start boot) es m) :
    m.resumed.Nodup
      ∧ (∀ c < m.kernel.contextCount, c ∈ m.resumed
        ∨ (∃ o, m.kernel.alive o ∧ c ∈ m.saved.pending o) ∨ c ∈ m.saved.dropped)
      ∧ (m.running = true → ∃ c l m', m.saved.pending m.kernel.currentPcb = c :: l
        ∧ machineStep m .leave = some m' ∧ m'.resumed = c :: m.resumed) := by
  obtain ⟨s, hs⟩ : ∃ s, Disciplined m s := by
    refine hrun.invariant (P := fun m => ∃ s, Disciplined m s) ⟨_, hboot.disciplined⟩ ?_
    rintro t e u ⟨s, hs⟩ hstep
    exact hs.step hstep
  refine ⟨?_, fun c hc => ?_, fun hrunning => ?_⟩
  · rw [hs.resumed]
    exact m.saved.poppedNodup
  · rw [← hs.count] at hc
    rw [hs.resumed]
    refine (m.saved.accounted c hc).imp id (Or.imp ?_ id)
    rintro ⟨o, ho⟩
    refine ⟨o, (hs.owners o (List.ne_nil_of_mem ho)).imp id ?_, ho⟩
    rintro ⟨n, rfl, hlive⟩
    have hn := hs.represents.slots n hlive
    refine ⟨n, hn, rfl, (hs.represents.pcbBitmap n ?_).mpr hlive⟩
    exact hn.trans (by decide)
  · obtain ⟨c, l, m', hl, hm', hresumed, -⟩ := hs.leave hrunning
    exact ⟨c, l, m', hl, hm', hresumed⟩

/-- A shell is started in an interrupt, an interrupt is taken there and left, and the shell starts
another one. -/
def nestedRun : List MachineEvent :=
  [.enter HwContext.zero, .act (.switchProcess 1 HwContext.zero 0), .enter HwContext.zero, .leave,
    .leave, .enter HwContext.zero, .act (.execute shellName HwContext.zero 0)]

/-- After the run the first shell and the kernel wait, and the handler may return to the second
shell. -/
theorem contexts_disciplined_nestedRun :
    ∃ m, Run machineStep (Machine.start (Kernel.boot shellImage)) nestedRun m
      ∧ m.resumed = [1, 2] ∧ m.running = true ∧ m.saved.pending m.kernel.currentPcb = [4]
      ∧ m.resumed.Nodup ∧ ∃ m', machineStep m .leave = some m' ∧ m'.resumed = [4, 1, 2] := by
  have hstates : (nestedRun.foldlM machineStep (Machine.start (Kernel.boot shellImage))).map
      (fun m => (m.resumed, m.running, m.saved.pending m.kernel.currentPcb))
        = some ([1, 2], true, [4]) := by
    decide +kernel
  obtain ⟨m, hrun, hval⟩ := exists_run_of_map hstates
  simp only [Prod.mk.injEq] at hval
  obtain ⟨hresumed, hrunning, hpending⟩ := hval
  obtain ⟨hnodup, -, hleave⟩ := contexts_disciplined (Kernel.boot_booted shellImage) hrun
  obtain ⟨c, l, m', hl, hm', hresumed'⟩ := hleave hrunning
  rw [hpending] at hl
  obtain ⟨rfl, -⟩ := List.cons.inj hl
  exact ⟨m, hrun, hresumed, hrunning, hpending, hnodup, m', hm', by rw [hresumed', hresumed]⟩

end CustomLinuxOs
