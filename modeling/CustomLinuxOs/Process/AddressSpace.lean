import CustomLinuxOs.Process.Accounting
import CustomLinuxOs.Process.Paging
import CustomLinuxOs.Terminal.Console

/-!
The memory that programs reach: the kernel, the console and `paging.c` together.

* `ConsoleEvent.calls`: the calls of `paging.c` that the functions of the kernel make.
* `Kernel.layout`, `consoleStep_layout`: the fields of the tables that the kernel and the terminals
  keep are what these calls leave.
* `vidmap`: the system call.
* `Computer`, `computerStep`: kernel, console, tables and TLB; the processor may do to the TLB what
  it likes before, between and after the calls.
* `memory_isolated`: a program reaches its own block of memory and, once there is a vidmap, the
  screen of its own task, and no other memory.
-/

namespace CustomLinuxOs

/-! ### The calls that the kernel makes -/

/-- Those of `change_process_screen`, when `view` is viewed. -/
def processScreenCalls (view n : ℤ) : List PagingCall :=
  if n < 0 ∨ n ≥ MAX_SCREENS then []
  else if n = view then [.mapVideoToVideo, .mapVidmapToVideo]
  else [.mapVideoToBackup n.toNat, .mapVidmapToBackup n.toNat]

/-- Those of `change_view_screen`. -/
def viewScreenCalls (view process n : ℤ) : List PagingCall :=
  if n < 0 ∨ n ≥ MAX_SCREENS then []
  else if n = view then []
  else
    [.enableVidmap, .mapVideoToVideo, .mapVidmapToBackup view.toNat, .mapVidmapToBackup n.toNat,
      .disableVidmap] ++ processScreenCalls n process

/-- Those of what a scan code leads to, on the viewed screen. -/
def KeyCall.calls (view : ℤ) : KeyCall → List PagingCall
  | .switchViewScreen n => viewScreenCalls view view n
  | _ => []

/-- The block of the process that a pointer is to. -/
def blocksOf (k : Kernel) : PcbPtr → List ℕ
  | .slot n => [(k.pcbs n).userPhysicalMemBlockNum]
  | _ => []

/-- The pages that `execute` hands to `set_user_page`. -/
def executePages (k : Kernel) (command : CString) : List ℕ :=
  match parseCommand command with
  | none => []
  | some (filename, _) =>
      if ¬ isExecutableFile k.fs filename then []
      else
        match startProgram k filename with
        | (userMemoryBlock, false, k) => userMemoryBlock :: blocksOf k k.currentPcb
        | (userMemoryBlock, true, _) => [userMemoryBlock]

/-- Those of `halt`. -/
def haltPages (k : Kernel) : List ℕ :=
  match k.currentPcb with
  | .slot n => blocksOf k (k.pcbs n).parent
  | _ => []

/-- Those of a system call. -/
def Syscall.pages (k : Kernel) : Syscall → List ℕ
  | .execute command _ _ => executePages k command
  | .halt _ => haltPages k
  | _ => []

/-- Those of `switch_process`, when the task is not the current one. -/
def switchPages (k : Kernel) (taskId : ℕ) : List ℕ :=
  match k.currentTasks taskId with
  | .slot n => [(k.pcbs n).userPhysicalMemBlockNum]
  | _ => if isExecutableFile k.fs shellName then [(addUserPage k).1] else []

/-- The calls in an event of the kernel. -/
def KernelEvent.calls (k : Kernel) : KernelEvent → List PagingCall
  | .syscall context call =>
      match irqEntry k context with
      | some k => (call.pages k).map .setUserPage
      | none => []
  | .switchProcess taskId _ _ =>
      if k.currentTask = taskId then []
      else processScreenCalls k.tty.display.viewScreen taskId
        ++ (switchPages k taskId).map .setUserPage
  | _ => []

/-- The calls in an event of the console. -/
def ConsoleEvent.calls (c : Console) : ConsoleEvent → List PagingCall
  | .keyboard _ _ code next =>
      let view := c.kernel.tty.display.viewScreen
      let call := (c.keyboard.scan code next).2
      processScreenCalls view view ++ call.calls view
        ++ processScreenCalls (call.viewAfter view) c.kernel.currentTask
  | .kernel e => e.calls c.kernel
  | _ => []

/-! ### User memory -/

section Pages

variable {k k' : Kernel}

/-- The page after some calls of `set_user_page`. -/
def lastPage (page : ℕ) (pages : List ℕ) : ℕ := pages.foldl (fun _ n => n % 1024) page

lemma pushPcb_userPage (h : pushPcb k = some k') : k'.userPage = k.userPage := by
  rw [pushPcb] at h
  split at h
  · cases h
  · cases h
    rfl

lemma loadProgram_userPage (k : Kernel) (filename : CString) :
    (loadProgram k filename).2.userPage = k.userPage := by
  rw [loadProgram]
  split
  · split <;> rfl
  · rfl

/-- Starting a program maps the page that has been found for it. -/
lemma startProgram_userPage (k : Kernel) (filename : CString) :
    (startProgram k filename).1 = (addUserPage k).1
      ∧ (startProgram k filename).2.2.userPage = (startProgram k filename).1 % 1024 := by
  rw [startProgram]
  cases hpush : pushPcb (addUserPage k).2 with
  | none => exact ⟨rfl, rfl⟩
  | some k' =>
      refine ⟨rfl, ?_⟩
      calc (loadProgram k' filename).2.userPage = k'.userPage := loadProgram_userPage k' filename
        _ = (addUserPage k).2.userPage := pushPcb_userPage hpush

lemma execute_userPage {command : CString} {stale : HwContext} {flags : UInt32} {r : ℤ × Kernel}
    (h : execute k command stale flags = some r) :
    r.2.userPage = lastPage k.userPage (executePages k command) := by
  rw [execute] at h
  rw [executePages]
  cases hparse : parseCommand command with
  | none =>
      rw [hparse] at h
      cases h
  | some parsed =>
      obtain ⟨filename, saveCommand⟩ := parsed
      rw [hparse] at h
      dsimp only at h ⊢
      have hpage := (startProgram_userPage k filename).2
      by_cases hexec : isExecutableFile k.fs filename = true
      · rw [if_neg (not_not.mpr hexec)] at h ⊢
        rcases heq : startProgram k filename with ⟨b, _ | _, k'⟩
        · rw [heq] at hpage h
          cases h
          cases hcurrent : k'.currentPcb with
          | slot n => simp only [blocksOf, hcurrent]; rfl
          | null => simp only [blocksOf, hcurrent]; exact hpage
          | kernelMemEnd => simp only [blocksOf, hcurrent]; exact hpage
        · rw [heq] at hpage h
          dsimp only at h
          split at h
          · cases h
            dsimp only
            split <;> exact hpage
          · cases h
      · rw [if_pos hexec] at h ⊢
        cases h
        rfl

lemma popPcb_userPage (k : Kernel) : (popPcb k).userPage = k.userPage := by
  rw [popPcb]
  split <;> rfl

lemma halt_userPage {status : UInt8} {r : ℤ × Kernel} (h : halt k status = some r) :
    r.2.userPage = lastPage k.userPage (haltPages k) := by
  rw [halt] at h
  rw [haltPages]
  cases hcurrent : k.currentPcb with
  | slot n =>
      rw [hcurrent] at h
      dsimp -zeta only at h
      extract_lets k₁ k₂ k₃ k₄ at h
      cases h
      have h₁ : k₁.userPage = lastPage k.userPage (blocksOf k (k.pcbs n).parent) := by
        simp only [k₁]
        cases (k.pcbs n).parent <;> rfl
      have h₂ : k₂.userPage = k₁.userPage := by
        simp only [k₂]
        split <;> rfl
      have h₃ : k₃.userPage = k₂.userPage := popPcb_userPage _
      clear_value k₃ k₂ k₁
      have h₄ : k₄.userPage = k₃.userPage := by
        simp only [k₄]
        split
        · rw [Kernel.setEax, updateTss]
        · rfl
      clear_value k₄
      exact h₄.trans (h₃.trans (h₂.trans h₁))
  | null =>
      rw [hcurrent] at h
      cases h
  | kernelMemEnd =>
      rw [hcurrent] at h
      cases h

lemma withFdTable_userPage {f : FdTable → ℤ × FdTable} {r : ℤ × Kernel}
    (h : withFdTable k f = some r) : r.2.userPage = k.userPage := by
  rw [withFdTable] at h
  split at h <;> cases h <;> rfl

lemma syscall_userPage {call : Syscall} {r : ℤ × Kernel} (h : call.run k = some r) :
    r.2.userPage = lastPage k.userPage (call.pages k) := by
  cases call with
  | execute command stale flags => exact execute_userPage h
  | halt status => exact halt_userPage h
  | «open» counter filename =>
      rw [Syscall.run] at h
      exact withFdTable_userPage h
  | close fd =>
      rw [Syscall.run] at h
      exact withFdTable_userPage h

lemma startShell_userPage (k : Kernel) (taskId : ℕ) (stale : HwContext) (flags : UInt32) :
    (startShell k taskId stale flags).2.userPage = lastPage k.userPage
      (if isExecutableFile k.fs shellName then [(addUserPage k).1] else []) := by
  obtain ⟨hblock, hpage⟩ := startProgram_userPage k shellName
  rw [← hblock, startShell]
  by_cases hexec : isExecutableFile k.fs shellName = true
  · rw [if_neg (not_not.mpr hexec), if_pos hexec]
    split
    · rename_i b k' heq
      rw [heq] at hpage ⊢
      exact hpage
    · rename_i b k' heq
      rw [heq] at hpage ⊢
      split <;> exact hpage
  · rw [if_pos hexec, if_neg hexec]
    rfl

lemma switchProcess_userPage (k : Kernel) {taskId : ℕ} (hne : k.currentTask ≠ taskId)
    (stale : HwContext) (flags : UInt32) : (switchProcess k taskId stale flags).2.userPage
      = lastPage k.userPage (switchPages k taskId) := by
  rw [switchProcess, if_neg hne, switchPages]
  extract_lets selected
  cases htask : k.currentTasks taskId with
  | slot n =>
      have hselected : selected.currentPcb = .slot n := htask
      simp only [hselected]
      rfl
  | null =>
      have hselected : selected.currentPcb = .null := htask
      simp only [hselected]
      exact startShell_userPage selected taskId stale flags
  | kernelMemEnd =>
      have hselected : selected.currentPcb = .kernelMemEnd := htask
      simp only [hselected]
      exact startShell_userPage selected taskId stale flags

end Pages

/-! ### The tables that the kernel means -/

/-- What the kernel and the terminals keep of the tables. -/
def Kernel.layout (k : Kernel) (vidmaps : ℕ) (devices : List ℕ) : Layout where
  userBlock := k.userPage
  video := k.tty.display.videoPage.toNat
  vidmap := k.tty.display.vidmapPage.toNat
  vidmaps := vidmaps
  devices := devices

/-- Screen `n` is mapped, when `view` is viewed. -/
def Layout.onScreen (l : Layout) (view n : ℤ) : Layout :=
  { l with video := (screenPage view n).toNat, vidmap := (screenPage view n).toNat }

section Calls

variable {l m : Layout} {view process n : ℤ}

lemma layoutStep_call {c : PagingCall} (hc : c.Sound l) :
    layoutStep l (.call c) = some (l.after c) := if_pos hc

lemma setUserPage_run (l : Layout) (pages : List ℕ) :
    Run layoutStep l ((pages.map PagingCall.setUserPage).map .call)
      { l with userBlock := lastPage l.userBlock pages } := by
  induction pages generalizing l with
  | nil => exact Run.nil
  | cons page pages ih => exact run_cons_iff.mpr ⟨_, layoutStep_call trivial, ih _⟩

/-- **`change_process_screen`** maps the screen. -/
lemma processScreenCalls_run (hn : IsScreen n) (view : ℤ) (l : Layout) :
    Run layoutStep l ((processScreenCalls view n).map .call) (l.onScreen view n) := by
  obtain ⟨hzero, hlt⟩ := hn
  have hsound : ((n.toNat : ℕ) : ℤ) < MAX_SCREENS := by rwa [Int.toNat_of_nonneg hzero]
  have hbackup : BACKUP_PAGE + n.toNat = (backupPage n).toNat := by
    rw [BACKUP_PAGE, backupPage]
    omega
  rw [processScreenCalls, if_neg (by omega)]
  rcases eq_or_ne n view with hsame | hne
  · rw [if_pos hsame, Layout.onScreen, screenPage, if_pos hsame]
    exact run_cons_iff.mpr ⟨_, layoutStep_call trivial,
      run_cons_iff.mpr ⟨_, layoutStep_call trivial, Run.nil⟩⟩
  · rw [if_neg hne, Layout.onScreen, screenPage, if_neg hne, ← hbackup]
    exact run_cons_iff.mpr ⟨_, layoutStep_call hsound,
      run_cons_iff.mpr ⟨_, layoutStep_call hsound, Run.nil⟩⟩

/-- **`change_view_screen`** ends with the process screen mapped anew. -/
lemma viewScreenCalls_run (hn : IsScreen n) (hview : IsScreen view) (hprocess : IsScreen process)
    (l : Layout) : ∃ m, Run layoutStep l ((viewScreenCalls view process n).map .call) m
      ∧ ∀ v k, m.onScreen v k = l.onScreen v k := by
  have hsound {k : ℤ} (hk : IsScreen k) : ((k.toNat : ℕ) : ℤ) < MAX_SCREENS := by
    rw [Int.toNat_of_nonneg hk.1]
    exact hk.2
  have hrange : ¬ (n < 0 ∨ n ≥ MAX_SCREENS) := by
    obtain ⟨hzero, hlt⟩ := hn
    omega
  rw [viewScreenCalls, if_neg hrange]
  rcases eq_or_ne n view with hsame | hne
  · rw [if_pos hsame]
    exact ⟨l, Run.nil, fun _ _ => rfl⟩
  · rw [if_neg hne, List.map_append]
    have hcopy : Run layoutStep l ([.enableVidmap, .mapVideoToVideo, .mapVidmapToBackup view.toNat,
        .mapVidmapToBackup n.toNat, .disableVidmap].map MmuEvent.call)
        { l with video := VIDEO_PAGE, vidmap := BACKUP_PAGE + n.toNat } :=
      run_cons_iff.mpr ⟨_, layoutStep_call trivial, run_cons_iff.mpr ⟨_, layoutStep_call trivial,
        run_cons_iff.mpr ⟨_, layoutStep_call (hsound hview),
          run_cons_iff.mpr ⟨_, layoutStep_call (hsound hn),
            run_cons_iff.mpr ⟨_, layoutStep_call (Nat.succ_pos l.vidmaps), Run.nil⟩⟩⟩⟩⟩
    exact ⟨_, run_append_iff.mpr ⟨_, hcopy, processScreenCalls_run hprocess n _⟩, fun _ _ => rfl⟩

end Calls

section Layouts

variable {c u : Console} {a b : Attention}

/-- The screen of the current task is mapped. -/
lemma Attends.layout (hu : Attends u b) (vidmaps : ℕ) (devices : List ℕ) {page : ℕ}
    (hpage : u.kernel.userPage = page) : u.kernel.layout vidmaps devices
      = { (c.kernel.layout vidmaps devices).onScreen b.view b.task with userBlock := page } := by
  rw [Kernel.layout, Layout.onScreen, hu.mapped.video, hu.mapped.vidmap, hu.view, hu.process, hpage]
  rfl

/-- It stays mapped, when neither it nor the page of user memory changes. -/
lemma Attends.layout_eq (h : Attends c a) (hu : Attends u a)
    (hpage : u.kernel.userPage = c.kernel.userPage) (vidmaps : ℕ) (devices : List ℕ) :
    u.kernel.layout vidmaps devices = c.kernel.layout vidmaps devices :=
  (Attends.layout (c := c) hu vidmaps devices hpage).trans
    (Attends.layout (c := c) h vidmaps devices rfl).symm

/-- The keyboard interrupt. -/
lemma keyboard_layout {names : Listing} {depth : ℕ} {code next : UInt8} (h : Attends c a)
    (hu : Attends u (a.after (.keyboard names depth code next)))
    (hpage : u.kernel.userPage = c.kernel.userPage) (vidmaps : ℕ) (devices : List ℕ) :
    Run layoutStep (c.kernel.layout vidmaps devices)
      (((ConsoleEvent.keyboard names depth code next).calls c).map .call)
      (u.kernel.layout vidmaps devices) := by
  have hcall : (c.keyboard.scan code next).2 = callFor a.strokes (strokeOf (code, next)) := by
    rw [h.keyboard]
    exact scan_call _ code next
  have hview : IsScreen a.view := h.view ▸ h.mapped.view
  have htask : IsScreen a.task := h.process ▸ h.mapped.process
  set call := callFor a.strokes (strokeOf (code, next)) with hcalls
  set l := c.kernel.layout vidmaps devices with hl
  have hhandled : ∃ m, Run layoutStep (l.onScreen a.view a.view) ((call.calls a.view).map .call) m
      ∧ ∀ v k, m.onScreen v k = l.onScreen v k := by
    cases hkey : call with
    | switchViewScreen n =>
        exact viewScreenCalls_run (callFor_isScreen (hcalls ▸ hkey)) hview hview _
    | _ => exact ⟨_, Run.nil, fun _ _ => rfl⟩
  obtain ⟨m, hrun, hm⟩ := hhandled
  have hback := processScreenCalls_run htask (call.viewAfter a.view) m
  rw [ConsoleEvent.calls, hcall, h.view, h.task, List.map_append, List.map_append]
  have hfirst := processScreenCalls_run hview a.view l
  refine run_append_iff.mpr ⟨m, run_append_iff.mpr ⟨_, hfirst, hrun⟩, ?_⟩
  rw [hm] at hback
  rwa [Attends.layout (c := c) hu vidmaps devices hpage]

/-- Events of the kernel. -/
lemma kernel_layout {e : KernelEvent} (h : Attends c a) (hu : Attends u (a.after (.kernel e)))
    (hstep : kernelStep c.kernel e = some u.kernel) (vidmaps : ℕ) (devices : List ℕ) :
    Run layoutStep (c.kernel.layout vidmaps devices) ((e.calls c.kernel).map .call)
      (u.kernel.layout vidmaps devices) := by
  cases e with
  | irq context =>
      rw [h.layout_eq hu (irqEntry_quiet hstep).userPage]
      exact Run.nil
  | iret =>
      rw [h.layout_eq hu (irqExit_quiet hstep).userPage]
      exact Run.nil
  | syscall context call =>
      obtain ⟨r, hr, hk⟩ := Option.map_eq_some_iff.mp hstep
      rw [trap] at hr
      split at hr
      · obtain ⟨k₁, hentry, hcall⟩ := Option.bind_eq_some_iff.mp hr
        have hpage : u.kernel.userPage = lastPage c.kernel.userPage (call.pages k₁) := by
          rw [← hk, ← (irqEntry_quiet hentry).userPage]
          exact syscall_userPage hcall
        have hcalls : (KernelEvent.syscall context call).calls c.kernel
            = (call.pages k₁).map .setUserPage := by
          rw [KernelEvent.calls, hentry]
        rw [hcalls, Attends.layout (c := c) hu vidmaps devices hpage,
          Attends.layout (c := c) h vidmaps devices rfl]
        exact setUserPage_run _ _
      · cases hr
  | switchProcess taskId stale flags =>
      rw [kernelStep] at hstep
      split at hstep
      · rename_i hbound
        have hk := Option.some.inj hstep
        rcases eq_or_ne c.kernel.currentTask taskId with hsame | hne
        · have hafter : a.after (.kernel (.switchProcess taskId stale flags)) = a := by
            rw [Attention.after, ← hsame, h.task]
          rw [hafter] at hu
          rw [switchProcess, if_pos hsame] at hk
          rw [KernelEvent.calls, if_pos hsame,
            h.layout_eq hu (congrArg Kernel.userPage hk).symm]
          exact Run.nil
        · have hpage : u.kernel.userPage
              = lastPage c.kernel.userPage (switchPages c.kernel taskId) := by
            rw [← hk]
            exact switchProcess_userPage c.kernel hne stale flags
          rw [KernelEvent.calls, if_neg hne, h.view, List.map_append,
            Attends.layout (c := c) hu vidmaps devices hpage]
          exact run_append_iff.mpr ⟨_, processScreenCalls_run (isScreen_task hbound) a.view _,
            setUserPage_run _ _⟩
      · cases hstep

/-- **The calls in an event** leave the tables that the kernel means. -/
theorem consoleStep_layout {e : ConsoleEvent} (h : Attends c a) (hu : Attends u (a.after e))
    (hstep : consoleStep c e = some u) (vidmaps : ℕ) (devices : List ℕ) :
    Run layoutStep (c.kernel.layout vidmaps devices) ((e.calls c).map .call)
      (u.kernel.layout vidmaps devices) := by
  cases e with
  | keyboard names depth code next =>
      obtain ⟨r, -, rfl⟩ := Option.map_eq_some_iff.mp hstep
      exact keyboard_layout h hu rfl vidmaps devices
  | program o =>
      obtain ⟨s, -, rfl⟩ := Option.map_eq_some_iff.mp hstep
      rw [h.layout_eq hu rfl]
      exact Run.nil
  | kernel e =>
      obtain ⟨k, hk, rfl⟩ := Option.map_eq_some_iff.mp hstep
      exact kernel_layout h hu hk vidmaps devices
  | environment fs userMemory =>
      obtain rfl := Option.some.inj hstep
      exact Run.nil

end Layouts

/-! ### The computer -/

def VIDMAP_MEM_ADDR : ℕ := 0x4000000

/-- `is_in_user_mem`. -/
def isInUserMem (addr : UInt32) : Bool :=
  decide (USER_MEM_PAGE_INDEX * FOUR_MB ≤ addr.toNat)
    && decide (addr.toNat < (USER_MEM_PAGE_INDEX + 1) * FOUR_MB)

/-- `vidmap`, but for the tables; `none` where the pointer it stores reaches over the end of user
memory, which is a page fault. -/
def vidmap (k : Kernel) (screenStart : UInt32) : Option (ℤ × Kernel) :=
  if isInUserMem screenStart then
    let offset := screenStart.toNat - USER_MEM_PAGE_INDEX * FOUR_MB
    if offset + 4 ≤ FOUR_MB then
      -- the bytes of `VIDMAP_MEM_ADDR`, the lowest first
      some (0, { k with userMemory := storeUser k.userMemory k.userPage offset [0, 0, 0, 4] })
    else none
  else some (SYSCALL_ERROR, k)

/-- Kernel and keyboard, and what stands between them and memory. -/
structure Computer where
  console : Console
  mmu : Mmu

/-- What the software does. -/
inductive ComputerEvent where
  | console (e : ConsoleEvent)
  /-- the system call, between the entry and the exit that are events of the console -/
  | vidmap (screenStart : UInt32)
  /-- the registers of a device are mapped -/
  | device (addr : BitVec 32)

/-- The calls of an event. -/
def ComputerEvent.calls (c : Console) : ComputerEvent → List PagingCall
  | .console e => e.calls c
  | .vidmap screenStart => if isInUserMem screenStart then [.enableVidmap] else []
  | .device addr => [.bruteAddPage addr]

/-- What an event does to kernel and keyboard.  The registers of devices do not lie where there is
memory. -/
def ComputerEvent.run (c : Console) : ComputerEvent → Option Console
  | .console e => consoleStep c e
  | .vidmap screenStart =>
      (CustomLinuxOs.vidmap c.kernel screenStart).map fun r => { c with kernel := r.2 }
  | .device addr => if addr.toNat / FOUR_MB ∉ reservedBlocks then some c else none

/-- The call that is made. -/
def MmuEvent.call? : MmuEvent → Option PagingCall
  | .call c => some c
  | _ => none

/-- One event, with all that happens to the tables and the TLB meanwhile: the calls of the event in
their order, and anything the processor does. -/
def computerStep (places : TablePlaces) (s : Computer) (e : ComputerEvent × List MmuEvent) :
    Option Computer :=
  if e.2.filterMap MmuEvent.call? = e.1.calls s.console then
    (e.1.run s.console).bind fun c =>
      (e.2.foldlM (mmuStep places) s.mmu).map fun mmu => ⟨c, mmu⟩
  else none

/-- The computer after booting.  User memory is mapped to the block that `paging_init` names. -/
def Computer.boot (places : TablePlaces) (fs : Fs) (pages : ℤ → ℤ → UInt8) : Computer :=
  let c := Console.boot fs pages
  ⟨{ c with kernel := setUserPage c.kernel Layout.init.userBlock }, Mmu.boot places⟩

/-- Kernel, keyboard and tables fit together. -/
structure Computer.Good (places : TablePlaces) (s : Computer) : Prop where
  attends : ∃ a, Attends s.console a
  shows : ∃ ts : ℤ → Tty, ∀ k, IsScreen k → ShowsScreen s.console.kernel.tty k (ts k)
  represents : ∃ r, Represents s.console.kernel r
  maps : ∃ vidmaps devices, s.mmu.Maps places (s.console.kernel.layout vidmaps devices)

section Computer

variable {places : TablePlaces} {s u : Computer} {c : Console}

/-- What the processor does meanwhile does not change the layout. -/
lemma layout_during {l m : Layout} {es : List MmuEvent}
    (h : Run layoutStep l ((es.filterMap MmuEvent.call?).map .call) m) : Run layoutStep l es m := by
  induction es generalizing l with
  | nil => exact h
  | cons e es ih =>
      cases e with
      | call c =>
          obtain ⟨l', hl, hrest⟩ := run_cons_iff.mp h
          exact run_cons_iff.mpr ⟨l', hl, ih hrest⟩
      | fill page => exact run_cons_iff.mpr ⟨l, rfl, ih h⟩
      | evict keep => exact run_cons_iff.mpr ⟨l, rfl, ih h⟩

/-- The processes after an event of the console. -/
lemma consoleStep_represents {c u : Console} {e : ConsoleEvent} {r : Sessions}
    (h : Represents c.kernel r) (hu : consoleStep c e = some u) : ∃ r, Represents u.kernel r := by
  cases e with
  | keyboard names depth code next =>
      obtain ⟨t, -, rfl⟩ := Option.map_eq_some_iff.mp hu
      exact ⟨r, h.congr rfl rfl rfl rfl rfl rfl rfl rfl fun _ => ⟨rfl, rfl, rfl⟩⟩
  | program o =>
      obtain ⟨t, -, rfl⟩ := Option.map_eq_some_iff.mp hu
      exact ⟨r, h.congr rfl rfl rfl rfl rfl rfl rfl rfl fun _ => ⟨rfl, rfl, rfl⟩⟩
  | kernel e =>
      obtain ⟨k, hk, rfl⟩ := Option.map_eq_some_iff.mp hu
      obtain ⟨r', -, hr', -⟩ := kernelStep_refines h hk
      exact ⟨r', hr'⟩
  | environment fs userMemory =>
      obtain rfl := Option.some.inj hu
      exact ⟨r, h.congr rfl rfl rfl rfl rfl rfl rfl rfl fun _ => ⟨rfl, rfl, rfl⟩⟩

/-- What `vidmap` does to the kernel. -/
lemma vidmap_cases {k : Kernel} {screenStart : UInt32} {v : ℤ × Kernel}
    (h : vidmap k screenStart = some v) : isInUserMem screenStart = false ∧ v.2 = k
      ∨ isInUserMem screenStart = true ∧ ∃ mem, v.2 = { k with userMemory := mem } := by
  rw [vidmap] at h
  cases hin : isInUserMem screenStart with
  | true =>
      rw [hin, if_pos rfl] at h
      obtain ⟨-, h⟩ := Option.ite_none_right_eq_some.mp h
      cases h
      exact Or.inr ⟨rfl, _, rfl⟩
  | false =>
      rw [hin, if_neg Bool.false_ne_true] at h
      cases h
      exact Or.inl ⟨rfl, rfl⟩

/-- **One event** keeps them fitting. -/
theorem Computer.Good.step {e : ComputerEvent × List MmuEvent} (h : s.Good places)
    (hu : computerStep places s e = some u) : u.Good places := by
  obtain ⟨⟨a, ha⟩, ⟨ts, hts⟩, ⟨r, hr⟩, ⟨vidmaps, devices, hmaps⟩⟩ := h
  obtain ⟨hcalls, hu⟩ := Option.ite_none_right_eq_some.mp hu
  obtain ⟨c, hc, hu⟩ := Option.bind_eq_some_iff.mp hu
  obtain ⟨mmu, hmmu, rfl⟩ := Option.map_eq_some_iff.mp hu
  obtain ⟨e, during⟩ := e
  have hrun := run_iff_foldlM.mpr hmmu
  have hmoved {m : Layout} (hl : Run layoutStep (s.console.kernel.layout vidmaps devices)
      ((e.calls s.console).map .call) m) : mmu.Maps places m :=
    hmaps.run (layout_during (hcalls ▸ hl)) hrun
  cases e with
  | console e =>
      obtain ⟨hattends, hshows⟩ := consoleStep_shows ha hts hc
      have : Nonempty Tty := ⟨s.console.kernel.tty⟩
      choose! ts' _ hshows' using hshows
      exact ⟨⟨_, hattends⟩, ⟨ts', hshows'⟩, consoleStep_represents hr hc,
        ⟨vidmaps, devices, hmoved (consoleStep_layout ha hattends hc vidmaps devices)⟩⟩
  | vidmap screenStart =>
      obtain ⟨v, hv, rfl⟩ := Option.map_eq_some_iff.mp hc
      rcases vidmap_cases hv with ⟨hin, hsame⟩ | ⟨hin, mem, hsame⟩
      · rw [ComputerEvent.calls, hin, if_neg Bool.false_ne_true] at hmoved
        rw [hsame]
        exact ⟨⟨a, ha⟩, ⟨ts, hts⟩, ⟨r, hr⟩, ⟨vidmaps, devices, hmoved Run.nil⟩⟩
      · rw [ComputerEvent.calls, hin, if_pos rfl] at hmoved
        rw [hsame]
        exact ⟨⟨a, ha.congr rfl rfl rfl⟩, ⟨ts, hts⟩,
          ⟨r, hr.congr rfl rfl rfl rfl rfl rfl rfl rfl fun _ => ⟨rfl, rfl, rfl⟩⟩,
          ⟨vidmaps + 1, devices, hmoved (run_cons_iff.mpr ⟨_, layoutStep_call trivial, Run.nil⟩)⟩⟩
  | device addr =>
      obtain ⟨haddr, hc⟩ := Option.ite_none_right_eq_some.mp hc
      obtain rfl := Option.some.inj hc
      exact ⟨⟨a, ha⟩, ⟨ts, hts⟩, ⟨r, hr⟩, ⟨vidmaps, addr.toNat / FOUR_MB :: devices,
        hmoved (run_cons_iff.mpr ⟨_, layoutStep_call haddr, Run.nil⟩)⟩⟩

lemma computerBoot_good (places : TablePlaces) (fs : Fs) (pages : ℤ → ℤ → UInt8) :
    (Computer.boot places fs pages).Good places where
  attends := ⟨_, (consoleBoot_attends fs pages).congr rfl rfl rfl⟩
  shows := ⟨_, fun _ hk => bootTty_shows pages hk⟩
  represents := ⟨Sessions.none,
    Kernel.Booted.represents ⟨rfl, rfl, rfl, fun _ => rfl, rfl, rfl⟩⟩
  maps := ⟨0, [], mmuBoot_maps places⟩

/-! ### What programs reach -/

/-- The bytes of user memory. -/
def InUserMemory (va : BitVec 32) : Prop :=
  FOUR_MB * USER_MEM_PAGE_INDEX ≤ va.toNat ∧ va.toNat < FOUR_MB * (USER_MEM_PAGE_INDEX + 1)

instance (va : BitVec 32) : Decidable (InUserMemory va) := inferInstanceAs (Decidable (_ ∧ _))

/-- The bytes of the vidmap. -/
def InVidmap (va : BitVec 32) : Prop :=
  VIDMAP_MEM_ADDR ≤ va.toNat ∧ va.toNat < VIDMAP_MEM_ADDR + FOUR_KB

instance (va : BitVec 32) : Decidable (InVidmap va) := inferInstanceAs (Decidable (_ ∧ _))

lemma resolve_allowed {t : Translation} {a : Access} (h : t.allows a = true) (va : BitVec 32) :
    resolve (some t) a va = some (t.frame * FOUR_KB + va.toNat % FOUR_KB) := by
  have hoffset : VirtualAddr.offsetFourKb.get va = va.toNat % FOUR_KB := by
    rw [BitField.get_eq, VirtualAddr.offsetFourKb, pow_zero, Nat.div_one]
    rfl
  rw [resolve, Option.filter_some, h, if_pos rfl, Option.map_some, Translation.address, hoffset]

lemma resolve_denied {t : Translation} {a : Access} (h : t.allows a = false) (va : BitVec 32) :
    resolve (some t) a va = none := by
  rw [resolve, Option.filter_some, h]
  rfl

lemma inUserMemory_iff (va : BitVec 32) :
    InUserMemory va ↔ (pageOf va).val / 1024 = USER_MEM_PAGE_INDEX := by
  simp only [InUserMemory, pageOf, FOUR_MB, FOUR_KB, USER_MEM_PAGE_INDEX]
  omega

lemma inVidmap_iff (va : BitVec 32) :
    InVidmap va ↔ (pageOf va).val = VIDMAP_MEM_PAGE_INDEX * 1024 := by
  simp only [InVidmap, pageOf, FOUR_KB, VIDMAP_MEM_ADDR, VIDMAP_MEM_PAGE_INDEX]
  omega

/-- **Accesses of programs**, for any layout. -/
theorem resolve_user (l : Layout) {a : Access} (ha : a.user = true) (va : BitVec 32) :
    resolve (l.map (pageOf va)) a va
      = if InUserMemory va then
          some (l.userBlock * FOUR_MB + (va.toNat - FOUR_MB * USER_MEM_PAGE_INDEX))
        else if l.vidmaps ≠ 0 ∧ InVidmap va then
          some (l.vidmap * FOUR_KB + (va.toNat - VIDMAP_MEM_ADDR))
        else none := by
  have hkernel (frame : ℕ) (w g : Bool) : resolve (some ⟨frame, false, w, g⟩) a va = none :=
    resolve_denied (by rw [Translation.allows, ha]; rfl) va
  have huser (frame : ℕ) : resolve (some ⟨frame, true, true, false⟩) a va
      = some (frame * FOUR_KB + va.toNat % FOUR_KB) :=
    resolve_allowed (by rw [Translation.allows, ha]; cases a.write <;> rfl) va
  have hvideo : VIDEO_PAGE = 184 := rfl
  rw [Layout.map]
  by_cases hmemory : InUserMemory va
  · have hdir := (inUserMemory_iff va).mp hmemory
    have hnoVideo : (pageOf va).val ≠ VIDEO_PAGE := by rw [USER_MEM_PAGE_INDEX] at hdir; omega
    have hnoVidmap : (pageOf va).val ≠ VIDMAP_MEM_PAGE_INDEX * 1024 := by
      rw [USER_MEM_PAGE_INDEX] at hdir
      rw [VIDMAP_MEM_PAGE_INDEX]
      omega
    rw [if_neg hnoVideo, if_neg hnoVidmap, if_pos hdir, if_pos hmemory, huser]
    refine congrArg some ?_
    simp only [InUserMemory, pageOf, FOUR_MB, FOUR_KB, USER_MEM_PAGE_INDEX] at hmemory ⊢
    omega
  · have hdir := (inUserMemory_iff va).not.mp hmemory
    rw [if_neg hmemory]
    by_cases hpage : InVidmap va
    · have hvidmap := (inVidmap_iff va).mp hpage
      have hnoVideo : (pageOf va).val ≠ VIDEO_PAGE := by rw [hvidmap]; decide
      rw [if_neg hnoVideo, if_pos hvidmap]
      by_cases hnone : l.vidmaps = 0
      · rw [if_pos hnone, if_neg fun h => h.1 hnone]
        rfl
      · rw [if_neg hnone, if_pos ⟨hnone, hpage⟩, huser]
        refine congrArg some ?_
        simp only [InVidmap, FOUR_KB, VIDMAP_MEM_ADDR] at hpage ⊢
        omega
    · have hvidmap := (inVidmap_iff va).not.mp hpage
      have hnot : ¬ (l.vidmaps ≠ 0 ∧ InVidmap va) := fun h => hpage h.2
      rw [if_neg hvidmap, if_neg hdir, if_neg hnot]
      split
      · exact hkernel _ _ _
      · split
        · exact hkernel _ _ _
        · rfl

/-- The block of the process in a slot. -/
def Computer.block (s : Computer) (n : ℕ) : ℕ :=
  (s.console.kernel.pcbs n).userPhysicalMemBlockNum

/-- The slot is taken. -/
def Computer.Live (s : Computer) (n : ℕ) : Prop :=
  n < 32 ∧ s.console.kernel.pcbBitmap.getLsbD n = false

/-- The page with what the screen of a task shows. -/
def Computer.screen (s : Computer) (task : ℤ) : ℤ :=
  screenPage s.console.kernel.tty.display.viewScreen task

/-- A program in user mode reaches the byte. -/
def Computer.Reaches (places : TablePlaces) (s : Computer) (pa : ℕ) : Prop :=
  ∃ a va, a.user = true ∧ s.mmu.access places a va = some pa

/-- The byte is in a page that nobody but the running program and the screen of its task have. -/
structure Computer.Private (s : Computer) (n pa : ℕ) : Prop where
  kernel : pa / FOUR_MB ≠ KERNEL_MEM_PAGE_INDEX
  processes : ∀ m, s.Live m → m ≠ n → pa / FOUR_MB ≠ s.block m
  screens : ∀ j, IsScreen j → j ≠ s.console.kernel.currentTask →
    ((pa / FOUR_KB : ℕ) : ℤ) ≠ s.screen j

lemma screen_cases (s : Computer) (j : ℤ) : s.screen j = 184 ∨ s.screen j = 8192 + j := by
  rw [Computer.screen, screenPage, backupPage, VIDEO_MEM_PAGE_INDEX]
  split
  · exact Or.inl rfl
  · exact Or.inr rfl

/-- A byte of a block that programs are given. -/
lemma private_of_block {r : Sessions} {n o : ℕ} (hr : Represents s.console.kernel r)
    (hn : r.live n) (ho : o < FOUR_MB) : s.Private n (s.block n * FOUR_MB + o)
      ∧ (s.block n * FOUR_MB + o) / FOUR_MB = s.block n := by
  obtain ⟨htwo, height⟩ := hr.blocks n hn
  have hdiv : (s.block n * FOUR_MB + o) / FOUR_MB = s.block n := by
    rw [FOUR_MB] at ho ⊢
    omega
  have hlow : 2 ≤ s.block n := htwo
  have hhigh : s.block n < 8 := height
  refine ⟨⟨?_, fun m hm hne => ?_, fun j hj _ => ?_⟩, hdiv⟩
  · rw [hdiv, KERNEL_MEM_PAGE_INDEX]
    omega
  · have hm' : r.live m := (hr.pcbBitmap m hm.1).mp hm.2
    rw [hdiv]
    exact fun heq => hne (hr.blocksApart m n hm' hn heq.symm)
  · obtain ⟨hzero, hlt⟩ := hj
    rcases screen_cases s j with hscreen | hscreen <;> rw [hscreen] <;>
      rw [FOUR_MB] at ho <;> rw [FOUR_MB, FOUR_KB] <;> omega

/-- A byte of the screen of the current task. -/
lemma private_of_screen {r : Sessions} {n o : ℕ} (hr : Represents s.console.kernel r)
    (htask : IsScreen s.console.kernel.currentTask) (ho : o < FOUR_KB) :
    let frame := (s.screen s.console.kernel.currentTask).toNat
    s.Private n (frame * FOUR_KB + o)
      ∧ (((frame * FOUR_KB + o) / FOUR_KB : ℕ) : ℤ) = s.screen s.console.kernel.currentTask := by
  intro frame
  have hdiv : (frame * FOUR_KB + o) / FOUR_KB = frame := by
    rw [FOUR_KB] at ho ⊢
    omega
  have hbig : (frame * FOUR_KB + o) / FOUR_MB = frame / 1024 := by
    rw [FOUR_KB] at ho
    rw [FOUR_KB, FOUR_MB]
    omega
  have hframe : (frame : ℤ) = s.screen s.console.kernel.currentTask := by
    rw [Int.toNat_of_nonneg]
    obtain ⟨hzero, -⟩ := htask
    rcases screen_cases s s.console.kernel.currentTask with hscreen | hscreen <;>
      rw [hscreen] <;> omega
  have hblock : frame / 1024 = 0 ∨ frame / 1024 = 8 := by
    obtain ⟨hzero, hlt⟩ := htask
    rw [MAX_SCREENS] at hlt
    rcases screen_cases s s.console.kernel.currentTask with hscreen | hscreen <;>
      rw [hscreen] at hframe <;> omega
  refine ⟨⟨?_, fun m hm _ => ?_, fun j hj hne => ?_⟩, by rw [hdiv, hframe]⟩
  · rw [hbig, KERNEL_MEM_PAGE_INDEX]
    omega
  · obtain ⟨htwo, height⟩ := hr.blocks m ((hr.pcbBitmap m hm.1).mp hm.2)
    rw [hbig, Computer.block]
    omega
  · rw [hdiv, hframe]
    exact screenPage_injOn _ htask hj hne.symm

/-- **Programs are kept apart.**  From boot, let the console and the kernel do anything, let
programs ask for video memory and devices be mapped, and let the processor cache pages and drop them
at any time.  While the process in slot `n` is running, all of user memory is its own block.  Other
than that a program reaches, once there is a vidmap, the page with the screen of the current task;
and neither is memory of the kernel, of another process or of another screen. -/
theorem memory_isolated (places : TablePlaces) (fs : Fs) (pages : ℤ → ℤ → UInt8)
    {es : List (ComputerEvent × List MmuEvent)} {s : Computer}
    (hrun : Run (computerStep places) (Computer.boot places fs pages) es s) {n : ℕ}
    (hn : s.console.kernel.currentPcb = .slot n) :
    (∀ a va, a.user = true → InUserMemory va → s.mmu.access places a va
        = some (s.block n * FOUR_MB + (va.toNat - FOUR_MB * USER_MEM_PAGE_INDEX)))
      ∧ ∀ pa, s.Reaches places pa → s.Private n pa ∧
        (pa / FOUR_MB = s.block n ∨ s.mmu.paging.numVidmaps ≠ 0
          ∧ ((pa / FOUR_KB : ℕ) : ℤ) = s.screen s.console.kernel.currentTask) := by
  have hgood : s.Good places :=
    hrun.invariant (P := Computer.Good places) (computerBoot_good places fs pages)
      fun t e u ht hu => ht.step hu
  obtain ⟨⟨a, ha⟩, -, ⟨r, hr⟩, ⟨vidmaps, devices, hmaps⟩⟩ := hgood
  have hlive : r.live n := by
    have hhead := hr.currentPcb
    rw [hn] at hhead
    exact ⟨r.active, List.mem_of_mem_head? hhead.symm⟩
  have hblock := hr.blocks n hlive
  have hpage : s.console.kernel.userPage = s.block n := (hr.hardware n hn).2.1
  have hscreen : s.console.kernel.tty.display.vidmapPage
      = s.screen s.console.kernel.currentTask := by
    rw [ha.mapped.vidmap, ha.process, ← ha.task]
    rfl
  have haccess (a : Access) (va : BitVec 32) (huser : a.user = true) : s.mmu.access places a va
      = if InUserMemory va then
          some (s.block n * FOUR_MB + (va.toNat - FOUR_MB * USER_MEM_PAGE_INDEX))
        else if vidmaps ≠ 0 ∧ InVidmap va then
          some ((s.screen s.console.kernel.currentTask).toNat * FOUR_KB
            + (va.toNat - VIDMAP_MEM_ADDR))
        else none := by
    rw [hmaps.access_eq, resolve_user _ huser, ← hpage, ← hscreen]
    rfl
  refine ⟨fun a va huser hva => ?_, fun pa ⟨a, va, huser, hva⟩ => ?_⟩
  · rw [haccess a va huser, if_pos hva]
  · rw [haccess a va huser] at hva
    split at hva
    · rename_i hmemory
      obtain rfl := Option.some.inj hva
      have hoffset : va.toNat - FOUR_MB * USER_MEM_PAGE_INDEX < FOUR_MB := by
        obtain ⟨hlow, hhigh⟩ := hmemory
        rw [Nat.mul_succ] at hhigh
        omega
      obtain ⟨hprivate, hown⟩ := private_of_block hr hlive hoffset
      exact ⟨hprivate, Or.inl hown⟩
    · split at hva
      · rename_i hvidmap
        obtain rfl := Option.some.inj hva
        have htask : IsScreen s.console.kernel.currentTask := by
          rw [ha.task, ← ha.process]
          exact ha.mapped.process
        have hoffset : va.toNat - VIDMAP_MEM_ADDR < FOUR_KB := by
          obtain ⟨-, hlow, hhigh⟩ := hvidmap
          omega
        obtain ⟨hprivate, hown⟩ := private_of_screen (n := n) hr htask hoffset
        refine ⟨hprivate, Or.inr ⟨?_, hown⟩⟩
        rw [hmaps.lays.numVidmaps]
        exact Int.natCast_ne_zero.mpr hvidmap.1
      · cases hva

/-- The shell of the second terminal is started, while a page of user memory is cached, and asks
for video memory. -/
def shellWithVidmap : List (ComputerEvent × List MmuEvent) :=
  [(.console (.kernel (.switchProcess 1 HwContext.zero 0)),
      [.fill (pageOf 0x8048000), .call (.mapVideoToBackup 1), .call (.mapVidmapToBackup 1),
        .fill (pageOf 0x8048000), .call (.setUserPage 2), .fill (pageOf 0x8048000)]),
    (.vidmap 0x8049000, [.call .enableVidmap, .fill (pageOf 0x4000000)])]

/-- The shell reaches the screen of the second terminal, and this is not that of the first. -/
theorem memory_isolated_shell : ∃ s,
    Run (computerStep firstPlaces) (Computer.boot firstPlaces shellImage fun _ _ => 0)
      shellWithVidmap s
    ∧ s.Reaches firstPlaces 0x2001010 ∧ s.Private 0 0x2001010 := by
  have hvalue : (shellWithVidmap.foldlM (computerStep firstPlaces)
      (Computer.boot firstPlaces shellImage fun _ _ => 0)).map
      (fun s => (s.console.kernel.currentPcb,
        s.mmu.access firstPlaces ⟨true, true⟩ 0x4000010))
        = some (.slot 0, some 0x2001010) := by
    decide +kernel
  obtain ⟨s, hrun, hs⟩ := exists_run_of_map hvalue
  have hreaches : s.Reaches firstPlaces 0x2001010 :=
    ⟨⟨true, true⟩, 0x4000010, rfl, congrArg Prod.snd hs⟩
  exact ⟨s, hrun, hreaches,
    ((memory_isolated firstPlaces shellImage _ hrun (congrArg Prod.fst hs)).2 _ hreaches).1⟩

end Computer

end CustomLinuxOs
