import CustomLinuxOs.Terminal.Console
import CustomLinuxOs.Terminal.LogicalScreens

/-!
The console: one keyboard, three terminals, and the processes on them, with the screens in memory.

* `RawConsole`, `rawConsoleStep`: kernel, keyboard and terminals, with keyboard interrupts, process
  switches, system calls and what programs do to their terminals, in any order.
* `RawAttends`: the console goes the same way with separate arrays, and attends to what it is told.
* `console_multiplexed`: as long as no line is taken from an empty buffer, each terminal gets the
  keys that are typed while it is viewed and what its own programs do, and nothing else.
-/

namespace CustomLinuxOs

/-! ### The interrupt handler -/

/-- The call that a scan code leads to. -/
def KeyCall.runRaw (names : Listing) (depth : ℕ) (m : RawTty) : KeyCall → Option RawTty
  | .nothing => some m
  | .historyUp => m.historyUp
  | .historyDown => m.historyDown
  | .backspace => some m.ttyBackspace
  | .switchViewScreen n => m.changeViewScreen n
  | .sendchar c => RawTty.sendKey names depth m c

/-- `keyboard_handler`. -/
def RawTty.keyboardHandler (names : Listing) (depth currentTask : ℕ) (t : Keyboard × RawTty)
    (code next : UInt8) : Option (Keyboard × RawTty) :=
  (t.2.changeProcessScreen t.2.display.viewScreen).bind fun m =>
    let r := t.1.scan code next
    (r.2.runRaw names depth m).bind fun m =>
      (m.changeProcessScreen currentTask).map fun m => (r.1, m)

/-! ### The system -/

/-- The kernel, the keyboard driver and the terminals.  The kernel looks at no terminal, so that the
one in `kernel` does not matter. -/
structure RawConsole where
  kernel : Kernel
  keyboard : Keyboard
  tty : RawTty

/-- What an event of the kernel does to the screens: a process switch selects that of the process,
unless it is selected already. -/
def KernelEvent.switchScreen (currentTask : ℕ) (m : RawTty) : KernelEvent → Option RawTty
  | .switchProcess taskId _ _ =>
      if currentTask = taskId then some m else m.changeProcessScreen taskId
  | _ => some m

/-- One event. -/
def rawConsoleStep (c : RawConsole) : ConsoleEvent → Option RawConsole
  | .keyboard names depth code next =>
      (RawTty.keyboardHandler names depth c.kernel.currentTask (c.keyboard, c.tty) code next).map
        fun r => { c with keyboard := r.1, tty := r.2 }
  | .program o => (c.tty.run o).map fun m => { c with tty := m }
  | .kernel e =>
      (kernelStep c.kernel e).bind fun k =>
        (e.switchScreen c.kernel.currentTask c.tty).map fun m => { c with kernel := k, tty := m }
  | .environment fs userMemory =>
      some { c with kernel := { c.kernel with fs := fs, userMemory := userMemory } }

/-- The console after booting, with anything in video memory and in the backups of it. -/
def RawConsole.boot (fs : Fs) (pages : ℤ → ℤ → UInt8) : RawConsole :=
  ⟨Kernel.boot fs, Keyboard.boot, RawTty.init pages⟩

/-- A call of `tty_read` that takes a line finds the buffer not empty. -/
def ConsoleEvent.FindsLine (c : RawConsole) : ConsoleEvent → Prop
  | .program o => o.FindsLine c.tty
  | _ => True

instance (c : RawConsole) (e : ConsoleEvent) : Decidable (e.FindsLine c) :=
  match e with
  | .program o => inferInstanceAs (Decidable (o.FindsLine c.tty))
  | .keyboard .. | .kernel _ | .environment .. => isTrue trivial

/-! ### The handler on the screens -/

lemma KeyCall.runRaw_events {names : Listing} {depth : ℕ} {m m' : RawTty} {call : KeyCall}
    (h : call.runRaw names depth m = some m') :
    Run RawTty.screenStep m (call.events names depth) m' := by
  cases call with
  | nothing => exact run_nil_iff.mpr (Option.some.inj h).symm
  | historyUp => exact run_cons_iff.mpr ⟨m', h, Run.nil⟩
  | historyDown => exact run_cons_iff.mpr ⟨m', h, Run.nil⟩
  | backspace => exact run_cons_iff.mpr ⟨m', h, Run.nil⟩
  | switchViewScreen n => exact run_cons_iff.mpr ⟨m', h, Run.nil⟩
  | sendchar c => exact run_cons_iff.mpr ⟨m', h, Run.nil⟩

/-- No call of the handler reads a line. -/
lemma KeyCall.events_findsLine {names : Listing} {depth : ℕ} {call : KeyCall} {e : ScreenEvent}
    (he : e ∈ call.events names depth) (m : RawTty) : e.FindsLine m := by
  cases call with
  | nothing => exact absurd he List.not_mem_nil
  | _ =>
      obtain rfl := List.mem_singleton.mp he
      trivial

/-- **The interrupt handler**, as events on the screens. -/
lemma RawTty.keyboardHandler_run {names : Listing} {depth task : ℕ} {t t' : Keyboard × RawTty}
    {code next : UInt8} (h : RawTty.keyboardHandler names depth task t code next = some t') :
    t'.1 = (t.1.scan code next).1
      ∧ Run RawTty.screenStep t.2 (.process t.2.display.viewScreen
          :: ((t.1.scan code next).2.events names depth ++ [.process task])) t'.2 := by
  obtain ⟨m, hm, h⟩ := Option.bind_eq_some_iff.mp h
  obtain ⟨u, hu, h⟩ := Option.bind_eq_some_iff.mp h
  obtain ⟨v, hv, rfl⟩ := Option.map_eq_some_iff.mp h
  refine ⟨rfl, run_cons_iff.mpr ⟨m, hm, ?_⟩⟩
  exact run_append_iff.mpr ⟨u, KeyCall.runRaw_events hu, run_cons_iff.mpr ⟨v, hv, Run.nil⟩⟩

/-! ### Runs of the console -/

/-- With separate arrays the screens are as in `s`, and the console knows who is to get what. -/
structure RawAttends (c : RawConsole) (a : Attention) (s : Tty) : Prop where
  mapped : Mapped s
  simulates : Simulates s c.tty
  view : s.display.viewScreen = a.view
  process : s.processScreen = a.task
  task : c.kernel.currentTask = a.task
  keyboard : c.keyboard = Keyboard.ofHistory a.strokes

section Runs

variable {c u z : RawConsole} {a : Attention} {s : Tty} {ts : ℤ → Tty} {us : ℤ → RawTty}

/-- What does not concern the terminals. -/
lemma RawAttends.congr (h : RawAttends c a s) (htty : u.tty = c.tty)
    (htask : u.kernel.currentTask = c.kernel.currentTask) (hkeyboard : u.keyboard = c.keyboard) :
    RawAttends u a s :=
  ⟨h.mapped, htty.symm ▸ h.simulates, h.view, h.process, htask.trans h.task,
    hkeyboard.trans h.keyboard⟩

/-- **One event**: the console attends to what it is told, and each terminal gets its inputs. -/
lemma rawConsoleStep_shows {e : ConsoleEvent} (h : RawAttends c a s)
    (hts : ∀ k, IsScreen k → ShowsScreen s k (ts k) ∧ Simulates (ts k) (us k))
    (he : e.FindsLine c) (hu : rawConsoleStep c e = some u) :
    ∃ s', RawAttends u (a.after e) s' ∧ ∀ k, IsScreen k → ∃ t v,
      Run RawTty.run (us k) (a.inputs k e) v ∧ ShowsScreen s' k t ∧ Simulates t v := by
  have hshown (k : ℤ) (hk : IsScreen k) : ShowsScreen s k (ts k) := (hts k hk).1
  cases e with
  | keyboard names depth code next =>
      obtain ⟨⟨kbd, m⟩, hhandler, rfl⟩ := Option.map_eq_some_iff.mp hu
      obtain ⟨hkbd, hrun⟩ := RawTty.keyboardHandler_run hhandler
      have hcall : (c.keyboard.scan code next).2 = callFor a.strokes (strokeOf (code, next)) := by
        rw [h.keyboard]
        exact scan_call _ code next
      have hscreen : IsScreen a.task := h.process ▸ h.mapped.process
      rw [hcall, h.task, h.simulates.display, h.view] at hrun
      -- neither the call nor the switches around it read a line
      have hquiet : EveryStep RawTty.screenStep c.tty (.process a.view
          :: ((callFor a.strokes (strokeOf (code, next))).events names depth
            ++ [.process a.task])) ScreenEvent.FindsLine := by
        intro pre e post t hes _
        have hmem : e ∈ ScreenEvent.process a.view
            :: ((callFor a.strokes (strokeOf (code, next))).events names depth
              ++ [.process a.task]) := by
          rw [hes]
          simp
        rcases List.mem_cons.mp hmem with rfl | hmem
        · trivial
        · rcases List.mem_append.mp hmem with hmem | hmem
          · exact KeyCall.events_findsLine hmem t
          · obtain rfl := List.mem_singleton.mp hmem
            trivial
      obtain ⟨s', hrun', hmapped, hsim, hshows⟩ :=
        run_simulated h.mapped h.simulates hts hquiet hrun
      have hview := run_view h.mapped hshown hrun'
      rw [List.foldl_cons, List.foldl_append, KeyCall.view_events names depth
        fun n hn => callFor_isScreen hn] at hview
      refine ⟨s', ⟨hmapped, hsim, ?_, ?_, h.task, ?_⟩, fun k hk => ?_⟩
      · rw [h.view] at hview
        exact hview
      · rw [← List.cons_append] at hrun'
        obtain ⟨t, -, hlast⟩ := run_snoc_iff.mp hrun'
        obtain rfl := Option.some.inj hlast
        exact congrArg Tty.processScreen (changeProcessScreen_eq hscreen)
      · calc kbd = (c.keyboard.scan code next).1 := hkbd
          _ = ((Keyboard.ofHistory a.strokes).scan code next).1 := by rw [h.keyboard]
          _ = Keyboard.ofHistory (a.strokes ++ [strokeOf (code, next)]) := scan_ofHistory _ _ _
      · obtain ⟨t, v, hv, hshow⟩ := hshows k hk
        rw [KeyCall.opsFor_handler names depth _ k _ (h.view ▸ h.mapped.view)] at hv
        exact ⟨t, v, hv, hshow⟩
  | program o =>
      obtain ⟨m, hm, rfl⟩ := Option.map_eq_some_iff.mp hu
      obtain ⟨s', hs', hmapped, hprocess, hsim, hshows⟩ :=
        screenStep_simulated (e := .op o) h.mapped h.simulates hts he hm
      have hview := screenStep_view (e := .op o) h.mapped hshown hs'
      refine ⟨s', ⟨hmapped, hsim, hview.trans h.view, hprocess.trans h.process, h.task,
        h.keyboard⟩, fun k hk => ?_⟩
      obtain ⟨t, v, hv, hshow⟩ := hshows k hk
      rw [h.process] at hv
      exact ⟨t, v, hv, hshow⟩
  | kernel e =>
      obtain ⟨k', hk', hu⟩ := Option.bind_eq_some_iff.mp hu
      obtain ⟨m, hm, rfl⟩ := Option.map_eq_some_iff.mp hu
      have hother (htask : k'.currentTask = c.kernel.currentTask) (hsame : some c.tty = some m) :
          ∃ s', RawAttends { c with kernel := k', tty := m } a s' ∧ ∀ k, IsScreen k → ∃ t v,
            Run RawTty.run (us k) [] v ∧ ShowsScreen s' k t ∧ Simulates t v :=
        ⟨s, h.congr (Option.some.inj hsame).symm htask rfl,
          fun k hk => ⟨ts k, us k, Run.nil, hts k hk⟩⟩
      cases e with
      | switchProcess taskId stale flags =>
          rw [kernelStep] at hk'
          obtain ⟨hbound, hk'⟩ := Option.ite_none_right_eq_some.mp hk'
          obtain rfl := Option.some.inj hk'
          obtain ⟨htask, -⟩ := switchProcess_screens c.kernel taskId stale flags
          rw [KernelEvent.switchScreen] at hm
          split at hm
          · rename_i hsame
            have hafter : a.after (.kernel (.switchProcess taskId stale flags)) = a := by
              rw [Attention.after, ← hsame, h.task]
            rw [hafter]
            exact hother (htask.trans hsame.symm) hm
          · have hscreen := isScreen_task hbound
            obtain ⟨s', hs', hmapped, hprocess, hsim, hshows⟩ :=
              screenStep_simulated (e := .process taskId) h.mapped h.simulates hts trivial hm
            have hview := screenStep_view (e := .process taskId) h.mapped hshown hs'
            rw [processAfter, if_pos hscreen] at hprocess
            exact ⟨s', ⟨hmapped, hsim, hview.trans h.view, hprocess, htask, h.keyboard⟩, hshows⟩
      | irq context => exact hother (kernelStep_screens (fun _ _ _ => by simp) hk').task hm
      | iret => exact hother (kernelStep_screens (fun _ _ _ => by simp) hk').task hm
      | syscall context call =>
          exact hother (kernelStep_screens (fun _ _ _ => by simp) hk').task hm
  | environment fs userMemory =>
      obtain rfl := Option.some.inj hu
      exact ⟨s, h.congr rfl rfl rfl, fun k hk => ⟨ts k, us k, Run.nil, hts k hk⟩⟩

/-- All of a run. -/
lemma rawConsoleRun_shows {es : List ConsoleEvent} (h : RawAttends c a s)
    (hts : ∀ k, IsScreen k → ShowsScreen s k (ts k) ∧ Simulates (ts k) (us k))
    (hlines : EveryStep rawConsoleStep c es ConsoleEvent.FindsLine)
    (hrun : Run rawConsoleStep c es z) :
    ∃ a' s', RawAttends z a' s' ∧ ∀ k, IsScreen k → ∃ t v,
      Run RawTty.run (us k) (inputsOf k a es) v ∧ ShowsScreen s' k t ∧ Simulates t v := by
  induction es generalizing c a s ts us with
  | nil =>
      rw [run_nil_iff.mp hrun]
      exact ⟨a, s, h, fun k hk => ⟨ts k, us k, Run.nil, hts k hk⟩⟩
  | cons e es ih =>
      obtain ⟨v, hv, hrest⟩ := run_cons_iff.mp hrun
      obtain ⟨t, hattends, hshows⟩ := rawConsoleStep_shows h hts hlines.head hv
      have : Nonempty Tty := ⟨s⟩
      have : Nonempty RawTty := ⟨c.tty⟩
      choose! ts' us' hrun' hshows' using hshows
      obtain ⟨a', s', hlast, hall⟩ := ih hattends hshows' (hlines.tail hv) hrest
      refine ⟨a', s', hlast, fun k hk => ?_⟩
      obtain ⟨t', w, hw, hshow⟩ := hall k hk
      exact ⟨t', w, run_append_iff.mpr ⟨us' k, hrun' k hk, hw⟩, hshow⟩

end Runs

lemma rawConsoleBoot_attends (fs : Fs) (pages : ℤ → ℤ → UInt8) :
    RawAttends (RawConsole.boot fs pages) ⟨0, 0, []⟩ (bootTty pages) :=
  ⟨bootTty_mapped pages, init_simulates pages, rfl, rfl, rfl, rfl⟩

/-- **One keyboard for three terminals.**  From boot, let scan codes, process switches, system calls
and operations of the running program come in any order, and let no line be taken from an empty
buffer.  The screen that is worked on is that of the current task, and each logical screen is that
of a terminal of its own that has got the keys typed while it was viewed and the operations of the
programs of its own task, in their order. -/
theorem console_multiplexed (fs : Fs) (pages : ℤ → ℤ → UInt8) {es : List ConsoleEvent}
    {z : RawConsole} (hrun : Run rawConsoleStep (RawConsole.boot fs pages) es z)
    (hlines : EveryStep rawConsoleStep (RawConsole.boot fs pages) es ConsoleEvent.FindsLine) :
    z.tty.processScreen = z.kernel.currentTask
      ∧ z.tty.display.videoPage
        = screenPage z.tty.display.viewScreen z.kernel.currentTask
      ∧ ∀ k, IsScreen k → ∃ u,
        Run RawTty.run (RawTty.standAlone (pages (screenPage 0 k))) (inputsOf k ⟨0, 0, []⟩ es) u
          ∧ SameLogical z.tty k u 0 := by
  obtain ⟨a, s, ha, hall⟩ := rawConsoleRun_shows (rawConsoleBoot_attends fs pages)
    (fun k hk => ⟨bootTty_shows pages hk, init_simulates _⟩) hlines hrun
  have hprocess : z.tty.processScreen = z.kernel.currentTask := by
    rw [ha.simulates.processScreen, ha.process, ha.task]
  refine ⟨hprocess, ?_, fun k hk => ?_⟩
  · rw [← hprocess, ha.simulates.display, ha.simulates.processScreen]
    exact ha.mapped.video
  · obtain ⟨t, u, hu, hshow, hsim⟩ := hall k hk
    exact ⟨u, hu, hshow.same.logical ha.simulates hsim hk isScreen_zero⟩

/-- Keys before and after the second screen is viewed, two programs that write, and one that reads
the line that has been typed. -/
def twoTasks : List ConsoleEvent :=
  [.keyboard [] 1 0x1e 0, .keyboard [] 1 KBD_LALT 0, .keyboard [] 1 KBD_F2 0,
    .keyboard [] 1 0x30 0, .program (.write STDOUT (some [0x63]) 1),
    .kernel (.switchProcess 1 HwContext.zero 0), .program (.write STDOUT (some [0x64]) 1),
    .keyboard [] 1 0x1c 0, .program (.read STDIN 0x8000000 8)]

/-- The second terminal gets a key, what the second program writes, the end of the line, and the
call that reads it. -/
theorem console_multiplexed_twoTasks : ∃ z,
    Run rawConsoleStep (RawConsole.boot shellImage fun _ _ => 0) twoTasks z
      ∧ inputsOf 1 ⟨0, 0, []⟩ twoTasks
        = [.key 0x62 [] 1, .write STDOUT (some [0x64]) 1, .key NEWLINE [] 1,
          .read STDIN 0x8000000 8]
      ∧ ∃ u, Run RawTty.run (RawTty.standAlone fun _ => 0) (inputsOf 1 ⟨0, 0, []⟩ twoTasks) u
        ∧ SameLogical z.tty 1 u 0 := by
  have hsome : (twoTasks.foldlM (guarded rawConsoleStep ConsoleEvent.FindsLine)
      (RawConsole.boot shellImage fun _ _ => 0)).isSome = true := by
    decide +kernel
  obtain ⟨z, hguarded⟩ := exists_run_of_isSome hsome
  obtain ⟨hrun, hlines⟩ := hguarded.of_guarded
  exact ⟨z, hrun, rfl, (console_multiplexed shellImage _ hrun hlines).2.2 1 (by decide)⟩

end CustomLinuxOs
