import CustomLinuxOs.Devices.Keyboard
import CustomLinuxOs.Process.TaskScreens
import CustomLinuxOs.Terminal.Multiplex

/-!
The console: one keyboard, three terminals, and the processes on them.

* `keyboardHandler`: the interrupt handler, which works on the viewed screen and then returns to
  that of the current task.
* `Console`, `consoleStep`: the kernel and the keyboard, with keyboard interrupts, process switches,
  system calls and what programs do to their terminals, in any order.
* `Attention`, `inputsOf`: who is to get which input, told from the events alone.
* `consoleStep_shows`: each terminal gets the keys that are typed while it is viewed and what its
  own programs do, and nothing else.
-/

namespace CustomLinuxOs

/-! ### The interrupt handler -/

/-- The call that a scan code leads to. -/
def KeyCall.run (names : Listing) (depth : ℕ) (s : Tty) : KeyCall → Option Tty
  | .nothing => some s
  | .historyUp => CustomLinuxOs.historyUp s
  | .historyDown => CustomLinuxOs.historyDown s
  | .backspace => some (ttyBackspace s)
  | .switchViewScreen n => some (changeViewScreen s n)
  | .sendchar c => sendKey names depth s c

/-- `keyboard_handler`. -/
def keyboardHandler (names : Listing) (depth currentTask : ℕ) (t : Keyboard × Tty)
    (code next : UInt8) : Option (Keyboard × Tty) :=
  let s := changeProcessScreen t.2 t.2.display.viewScreen
  let r := t.1.scan code next
  (r.2.run names depth s).map fun s => (r.1, changeProcessScreen s currentTask)

/-! ### The system -/

/-- The kernel and the keyboard driver. -/
structure Console where
  kernel : Kernel
  keyboard : Keyboard

/-- What happens at the console. -/
inductive ConsoleEvent where
  /-- a keyboard interrupt, with the bytes it reads and the directory that a tab would read -/
  | keyboard (names : Listing) (depth : ℕ) (code next : UInt8)
  /-- the running program does something to its terminal -/
  | program (o : TtyOp)
  /-- any other system call or interrupt, process switches among them -/
  | kernel (e : KernelEvent)
  /-- files and the memory of programs change -/
  | environment (fs : Fs) (userMemory : ℕ → ℕ → UInt8)

/-- One event. -/
def consoleStep (c : Console) : ConsoleEvent → Option Console
  | .keyboard names depth code next =>
      (keyboardHandler names depth c.kernel.currentTask (c.keyboard, c.kernel.tty) code next).map
        fun r => ⟨{ c.kernel with tty := r.2 }, r.1⟩
  | .program o => (o.run c.kernel.tty).map fun s => { c with kernel := { c.kernel with tty := s } }
  | .kernel e => (kernelStep c.kernel e).map fun k => { c with kernel := k }
  | .environment fs userMemory =>
      some { c with kernel := { c.kernel with fs := fs, userMemory := userMemory } }

/-- The console after booting, with anything in video memory and in the backups of it. -/
def Console.boot (fs : Fs) (pages : ℤ → ℤ → UInt8) : Console :=
  ⟨{ Kernel.boot fs with tty := bootTty pages }, Keyboard.boot⟩

/-! ### Who gets which input -/

/-- The viewed screen, the running task, and the keys so far. -/
structure Attention where
  view : ℤ
  task : ℕ
  strokes : List Stroke

/-- What a call does to the viewed terminal. -/
def KeyCall.op (names : Listing) (depth : ℕ) : KeyCall → Option TtyOp
  | .nothing => none
  | .historyUp => some .historyUp
  | .historyDown => some .historyDown
  | .backspace => some .backspace
  | .switchViewScreen _ => none
  | .sendchar c => some (.key c names depth)

/-- The screen that is viewed after a call. -/
def KeyCall.viewAfter (view : ℤ) : KeyCall → ℤ
  | .switchViewScreen n => n
  | _ => view

/-- The attention after an event. -/
def Attention.after (a : Attention) : ConsoleEvent → Attention
  | .keyboard _ _ code next =>
      { a with
        view := (callFor a.strokes (strokeOf (code, next))).viewAfter a.view
        strokes := a.strokes ++ [strokeOf (code, next)] }
  | .kernel (.switchProcess taskId _ _) => { a with task := taskId }
  | _ => a

/-- What terminal `k` gets from an event: a key when it is viewed, an operation when the running
task is its own. -/
def Attention.inputs (a : Attention) (k : ℤ) : ConsoleEvent → List TtyOp
  | .keyboard names depth code next =>
      if a.view = k then ((callFor a.strokes (strokeOf (code, next))).op names depth).toList else []
  | .program o => if a.task = k then [o] else []
  | _ => []

/-- What terminal `k` gets from a run. -/
def inputsOf (k : ℤ) (a : Attention) : List ConsoleEvent → List TtyOp
  | [] => []
  | e :: es => a.inputs k e ++ inputsOf k (a.after e) es

/-! ### The viewed screen -/

/-- The viewed screen after an event. -/
def viewAfter (v : ℤ) : ScreenEvent → ℤ
  | .view n => if IsScreen n then n else v
  | _ => v

section View

variable {s u : Tty} {ts : ℤ → Tty}

lemma changeProcessScreen_view (s : Tty) (n : ℤ) :
    (changeProcessScreen s n).display.viewScreen = s.display.viewScreen := by
  rw [changeProcessScreen]
  split <;> rfl

lemma screenStep_view {e : ScreenEvent} (hs : Mapped s)
    (hts : ∀ k, IsScreen k → ShowsScreen s k (ts k)) (hu : screenStep s e = some u) :
    u.display.viewScreen = viewAfter s.display.viewScreen e := by
  cases e with
  | process n =>
      obtain rfl := Option.some.inj hu
      exact changeProcessScreen_view s n
  | view n =>
      obtain rfl := Option.some.inj hu
      rw [viewAfter]
      rcases em (IsScreen n) with hn | hn
      · rw [if_pos hn]
        rcases eq_or_ne n s.display.viewScreen with hsame | hne
        · rw [changeViewScreen]
          split <;> exact hsame.symm
        · rw [changeViewScreen_eq hn hne]
          exact changeProcessScreen_view (exchanged s n) _
      · rw [if_neg hn, changeViewScreen, if_pos]
        rw [IsScreen] at hn
        omega
  | op o =>
      obtain ⟨t', -, htwin, -⟩ := (hts _ hs.process).process_run hs hu
      exact htwin.display.frame.viewScreen

lemma run_view {es : List ScreenEvent} (hs : Mapped s)
    (hts : ∀ k, IsScreen k → ShowsScreen s k (ts k)) (hrun : Run screenStep s es u) :
    u.display.viewScreen = es.foldl viewAfter s.display.viewScreen := by
  induction es generalizing s ts with
  | nil =>
      rw [run_nil_iff.mp hrun]
      rfl
  | cons e es ih =>
      obtain ⟨v, hv, hrest⟩ := run_cons_iff.mp hrun
      obtain ⟨hmapped, -, hshows⟩ := screenStep_shows hs hts hv
      have : Nonempty Tty := ⟨s⟩
      choose! ts' _ hshows' using hshows
      rw [ih hmapped hshows' hrest, screenStep_view hs hts hv]
      rfl

end View

/-! ### The handler on the screens -/

/-- A call as events on the screens. -/
def KeyCall.events (names : Listing) (depth : ℕ) : KeyCall → List ScreenEvent
  | .switchViewScreen n => [.view n]
  | call => (call.op names depth).toList.map .op

lemma KeyCall.run_events {names : Listing} {depth : ℕ} {s s' : Tty} {call : KeyCall}
    (h : call.run names depth s = some s') :
    Run screenStep s (call.events names depth) s' := by
  cases call with
  | nothing => exact run_nil_iff.mpr (Option.some.inj h).symm
  | historyUp => exact run_cons_iff.mpr ⟨s', h, Run.nil⟩
  | historyDown => exact run_cons_iff.mpr ⟨s', h, Run.nil⟩
  | backspace => exact run_cons_iff.mpr ⟨s', h, Run.nil⟩
  | switchViewScreen n => exact run_cons_iff.mpr ⟨s', h, Run.nil⟩
  | sendchar c => exact run_cons_iff.mpr ⟨s', h, Run.nil⟩

/-- A call that is for the viewed screen. -/
lemma KeyCall.opsFor_events (names : Listing) (depth : ℕ) (call : KeyCall) (k p : ℤ) :
    opsFor k p (call.events names depth)
      = if p = k then (call.op names depth).toList else [] := by
  cases call <;> simp [KeyCall.events, KeyCall.op, opsFor]

/-- The handler goes to the viewed screen, and back. -/
lemma KeyCall.opsFor_handler (names : Listing) (depth : ℕ) (call : KeyCall) (k p : ℤ) {v : ℤ}
    (hv : IsScreen v) (task : ℤ) :
    opsFor k p (.process v :: (call.events names depth ++ [.process task]))
      = if v = k then (call.op names depth).toList else [] := by
  change opsFor k (if IsScreen v then v else p) _ = _
  rw [if_pos hv, ← call.opsFor_events names depth k v]
  cases call with
  | switchViewScreen n => rfl
  | nothing => rfl
  | _ =>
      simp only [KeyCall.events, KeyCall.op, Option.toList_some, List.map_cons, List.map_nil,
        List.cons_append, List.nil_append, opsFor]

lemma KeyCall.view_events (names : Listing) (depth : ℕ) {call : KeyCall}
    (hscreen : ∀ n, call = .switchViewScreen n → IsScreen n) (v : ℤ) :
    (call.events names depth).foldl CustomLinuxOs.viewAfter v = call.viewAfter v := by
  cases call with
  | switchViewScreen n => exact if_pos (hscreen n rfl)
  | _ => rfl

/-- The function keys view screens that there are. -/
lemma callFor_isScreen {l : List Stroke} {s : Stroke} {n : ℤ}
    (h : callFor l s = .switchViewScreen n) : IsScreen n := by
  have hkey {code : UInt8} {m : ℤ} (hm : viewKey code = some m) : IsScreen m := by
    rw [viewKey] at hm
    split_ifs at hm <;> cases hm <;> decide
  rw [callFor] at h
  split_ifs at h
  · split at h
    · rename_i m hm
      cases h
      exact hkey hm
    · cases h
  · split at h <;> cases h

/-- **The interrupt handler**, as events on the screens. -/
lemma keyboardHandler_run {names : Listing} {depth task : ℕ} {t t' : Keyboard × Tty}
    {code next : UInt8} (h : keyboardHandler names depth task t code next = some t') :
    t'.1 = (t.1.scan code next).1
      ∧ Run screenStep t.2 (.process t.2.display.viewScreen
          :: ((t.1.scan code next).2.events names depth ++ [.process task])) t'.2 := by
  obtain ⟨s, hs, rfl⟩ := Option.map_eq_some_iff.mp h
  refine ⟨rfl, run_cons_iff.mpr ⟨_, rfl, ?_⟩⟩
  exact run_append_iff.mpr ⟨s, KeyCall.run_events hs, run_cons_iff.mpr ⟨_, rfl, Run.nil⟩⟩

/-! ### Runs of the console -/

/-- The console knows who is to get what. -/
structure Attends (c : Console) (a : Attention) : Prop where
  mapped : Mapped c.kernel.tty
  view : c.kernel.tty.display.viewScreen = a.view
  process : c.kernel.tty.processScreen = a.task
  task : c.kernel.currentTask = a.task
  keyboard : c.keyboard = Keyboard.ofHistory a.strokes

section Runs

variable {c u z : Console} {a : Attention} {ts : ℤ → Tty}

/-- What does not concern the terminals. -/
lemma Attends.congr (h : Attends c a) (htty : u.kernel.tty = c.kernel.tty)
    (htask : u.kernel.currentTask = c.kernel.currentTask) (hkeyboard : u.keyboard = c.keyboard) :
    Attends u a := by
  refine ⟨?_, ?_, ?_, htask.trans h.task, hkeyboard.trans h.keyboard⟩
  all_goals rw [htty]
  · exact h.mapped
  · exact h.view
  · exact h.process

/-- The process screen after a process switch. -/
lemma isScreen_task {taskId : ℕ} (h : taskId < MAX_ACTIVE_TASKS) : IsScreen taskId := by
  rw [MAX_ACTIVE_TASKS] at h
  rw [IsScreen, MAX_SCREENS]
  omega

/-- **One event**: the console attends to what it is told, and each terminal gets its inputs. -/
lemma consoleStep_shows {e : ConsoleEvent} (h : Attends c a)
    (hts : ∀ k, IsScreen k → ShowsScreen c.kernel.tty k (ts k)) (hu : consoleStep c e = some u) :
    Attends u (a.after e) ∧ ∀ k, IsScreen k →
      ∃ t, Run TtyOp.run (ts k) (a.inputs k e) t ∧ ShowsScreen u.kernel.tty k t := by
  cases e with
  | keyboard names depth code next =>
      obtain ⟨⟨kbd, s⟩, hhandler, rfl⟩ := Option.map_eq_some_iff.mp hu
      obtain ⟨hkbd, hrun⟩ := keyboardHandler_run hhandler
      have hcall : (c.keyboard.scan code next).2 = callFor a.strokes (strokeOf (code, next)) := by
        rw [h.keyboard]
        exact scan_call _ code next
      have htask : IsScreen a.task := h.process ▸ h.mapped.process
      rw [hcall, h.task, h.view] at hrun
      obtain ⟨hmapped, hshows⟩ := run_shows h.mapped hts hrun
      have hview := run_view h.mapped hts hrun
      rw [List.foldl_cons, List.foldl_append, KeyCall.view_events names depth
        fun n hn => callFor_isScreen hn] at hview
      refine ⟨⟨hmapped, ?_, ?_, h.task, ?_⟩, fun k hk => ?_⟩
      · rw [h.view] at hview
        exact hview
      · rw [← List.cons_append] at hrun
        obtain ⟨s', -, hlast⟩ := run_snoc_iff.mp hrun
        obtain rfl := Option.some.inj hlast
        exact congrArg Tty.processScreen (changeProcessScreen_eq htask)
      · calc kbd = (c.keyboard.scan code next).1 := hkbd
          _ = ((Keyboard.ofHistory a.strokes).scan code next).1 := by rw [h.keyboard]
          _ = Keyboard.ofHistory (a.strokes ++ [strokeOf (code, next)]) := scan_ofHistory _ _ _
      · obtain ⟨t, ht, hshow⟩ := hshows k hk
        rw [KeyCall.opsFor_handler names depth _ k _ (h.view ▸ h.mapped.view)] at ht
        exact ⟨t, ht, hshow⟩
  | program o =>
      obtain ⟨s, ho, rfl⟩ := Option.map_eq_some_iff.mp hu
      obtain ⟨hmapped, hprocess, hshows⟩ := screenStep_shows (e := .op o) h.mapped hts ho
      have hview := screenStep_view (e := .op o) h.mapped hts ho
      refine ⟨⟨hmapped, hview.trans h.view, hprocess.trans h.process, h.task, h.keyboard⟩,
        fun k hk => ?_⟩
      obtain ⟨t, ht, hshow⟩ := hshows k hk
      rw [h.process] at ht
      exact ⟨t, ht, hshow⟩
  | kernel e =>
      obtain ⟨k', hk', rfl⟩ := Option.map_eq_some_iff.mp hu
      have hother (hkeeps : KeepsScreens c.kernel k') : Attends ⟨k', c.keyboard⟩ a
          ∧ ∀ k, IsScreen k → ∃ t, Run TtyOp.run (ts k) [] t ∧ ShowsScreen k'.tty k t :=
        ⟨h.congr hkeeps.tty hkeeps.task rfl, fun k hk => ⟨ts k, Run.nil, hkeeps.tty ▸ hts k hk⟩⟩
      cases e with
      | switchProcess taskId stale flags =>
          rw [kernelStep] at hk'
          split at hk'
          · rename_i hbound
            obtain rfl := Option.some.inj hk'
            obtain ⟨htask, htty⟩ := switchProcess_screens c.kernel taskId stale flags
            split at htty
            · rename_i hsame
              have hafter : a.after (.kernel (.switchProcess taskId stale flags)) = a := by
                rw [Attention.after, ← hsame, h.task]
              rw [hafter]
              exact hother ⟨htty, htask.trans hsame.symm⟩
            · have hscreen := isScreen_task hbound
              obtain ⟨hmapped, hprocess, hshows⟩ :=
                screenStep_shows (e := .process taskId) h.mapped hts rfl
              rw [processAfter, if_pos hscreen, ← htty] at hprocess
              rw [← htty] at hmapped hshows
              have hview := (changeProcessScreen_view c.kernel.tty taskId).trans h.view
              rw [← htty] at hview
              exact ⟨⟨hmapped, hview, hprocess, htask, h.keyboard⟩, hshows⟩
          · cases hk'
      | irq context => exact hother (kernelStep_screens (fun _ _ _ => by simp) hk')
      | iret => exact hother (kernelStep_screens (fun _ _ _ => by simp) hk')
      | syscall context call => exact hother (kernelStep_screens (fun _ _ _ => by simp) hk')
  | environment fs userMemory =>
      obtain rfl := Option.some.inj hu
      exact ⟨h.congr rfl rfl rfl, fun k hk => ⟨ts k, Run.nil, hts k hk⟩⟩

end Runs

lemma consoleBoot_attends (fs : Fs) (pages : ℤ → ℤ → UInt8) :
    Attends (Console.boot fs pages) ⟨0, 0, []⟩ :=
  ⟨bootTty_mapped pages, rfl, rfl, rfl, rfl⟩

end CustomLinuxOs
