import CustomLinuxOs.Terminal.ScreenSimulation

/-!
Three terminals on one, with the screens in memory.

* `RawTty.screenStep`: switching screens, and operations on the process screen.
* `Simulates.screenStep`: it goes the same way with separate arrays, as long as no line is taken
  from an empty buffer.
* `SameLogical`: a logical screen is that of another terminal.
* `screens_multiplexed`: each logical screen is that of a terminal of its own which only gets the
  operations for it.
* `screens_multiplexed_overrun`: after a line has been taken from an empty buffer, one screen shows
  what another one holds.
-/

namespace CustomLinuxOs

/-! ### Switching -/

/-- One event. -/
def RawTty.screenStep (m : RawTty) : ScreenEvent → Option RawTty
  | .process n => m.changeProcessScreen n
  | .view n => m.changeViewScreen n
  | .op o => m.run o

/-- A call of `tty_read` that takes a line finds the buffer not empty. -/
def ScreenEvent.FindsLine (m : RawTty) : ScreenEvent → Prop
  | .op o => o.FindsLine m
  | _ => True

instance (m : RawTty) (e : ScreenEvent) : Decidable (e.FindsLine m) :=
  match e with
  | .op o => inferInstanceAs (Decidable (o.FindsLine m))
  | .process _ | .view _ => isTrue trivial

lemma toUInt8_ne_zero (b : Bool) : (b.toUInt8 != 0) = b := by
  cases b <;> rfl

namespace Simulates

variable {s t : Tty} {m m' : RawTty}

/-- Saving goes to the fields of the process screen. -/
lemma saveData (h : Simulates s m) (hm : m.saveData = some m') : Simulates (saveData s) m' := by
  obtain ⟨⟨hx, hy, hstart, hend, hcurr⟩, hm⟩ := Option.ite_none_right_eq_some.mp hm
  obtain rfl := Option.some.inj hm
  have hslot : IsSlot m.historyCurr := h.historyCurr ▸ h.fits.curr
  have hfits := h.fits.screens _ h.fits.process
  have hp := h.processScreen
  obtain ⟨hlo, hhi⟩ := sizeAddr_bounds m.processScreen hslot
  refine h.modify ?_ ?_ ?_
  · intro x hx
    rw [← hp] at hx
    simp (disch := omega) only [RawTty.savedMem, writeByte_of_ne, writeInt_of_off]
  · rw [← hp]
    have hown := h.own
    rw [← hp] at hown
    constructor
    case screenX =>
      refine (congrArg Display.screenX h.display).symm.trans
        (readInt_eq hx fun i hi => ?_).symm
      simp (disch := omega) only [RawTty.savedMem, writeByte_of_ne, writeInt_of_off,
        writeInt_apply]
    case screenY =>
      refine (congrArg Display.screenY h.display).symm.trans
        (readInt_eq hy fun i hi => ?_).symm
      simp (disch := omega) only [RawTty.savedMem, writeByte_of_ne, writeInt_of_off,
        writeInt_apply]
    case widths =>
      intro i hi
      obtain ⟨hlo', hhi'⟩ := widthAddr_bounds m.processScreen hi
      refine (hown.widths i hi).trans ?_
      simp (disch := omega) only [readScreen, RawTty.savedMem, writeByte_of_ne,
        writeInt_of_off]
    case lines =>
      intro k hk i hi
      obtain ⟨hlo', hhi'⟩ := inputAddr_bounds m.processScreen hk hi
      refine (hown.lines k hk i hi).trans ?_
      simp (disch := omega) only [readScreen, RawTty.savedMem, writeByte_of_ne,
        writeInt_of_off]
    case sizes =>
      intro k hk
      obtain ⟨hlo', hhi'⟩ := sizeAddr_bounds m.processScreen hk
      simp only [← h.historyCurr, ← h.bufferSize]
      rcases eq_or_ne k m.historyCurr with rfl | hne
      · simp (disch := omega) only [readScreen, RawTty.savedMem, writeByte_of_ne, writeByte_self,
          Function.update_self]
      · have haddr : sizeAddr m.processScreen k ≠ sizeAddr m.processScreen m.historyCurr := by
          rw [sizeAddr, sizeAddr]
          omega
        rw [Function.update_of_ne hne]
        refine (hown.sizes k hk).trans ?_
        simp (disch := omega) only [readScreen, RawTty.savedMem, writeByte_of_ne,
          writeInt_of_off]
    case historyStart =>
      refine h.historyStart.symm.trans (readInt_eq hstart fun i hi => ?_).symm
      simp (disch := omega) only [RawTty.savedMem, writeByte_of_ne, writeInt_of_off,
        writeInt_apply]
    case historyEnd =>
      refine h.historyEnd.symm.trans (readInt_eq hend fun i hi => ?_).symm
      simp (disch := omega) only [RawTty.savedMem, writeByte_of_ne, writeInt_of_off,
        writeInt_apply]
    case historyCurr =>
      refine h.historyCurr.symm.trans (readInt_eq hcurr fun i hi => ?_).symm
      simp (disch := omega) only [RawTty.savedMem, writeByte_of_ne, writeInt_apply]
    case ready =>
      refine h.ready.symm.trans ?_
      simp (disch := omega) only [readScreen, RawTty.savedMem, writeByte_of_ne,
        writeInt_of_off, writeByte_self, toUInt8_ne_zero]
    case tabLs =>
      refine h.tabLs.symm.trans ?_
      simp (disch := omega) only [readScreen, RawTty.savedMem, writeByte_of_ne,
        writeInt_of_off, writeByte_self, toUInt8_ne_zero]
    case attrib =>
      simp only [readScreen, RawTty.savedMem, writeByte_self, h.display]
  · refine { hfits with sizes := fun k hk => ?_, curr := h.fits.curr, last := h.fits.last }
    simp only [Function.update_apply]
    split
    · exact h.fits.size
    · exact hfits.sizes k hk

/-- Loading takes the fields of a screen, once the process screen is set to it. -/
lemma loadData (h : Simulates s m) {d : Display} (hd : IsScreen d.processScreen) :
    Simulates (loadData { s with display := d }) ({ m with display := d } : RawTty).loadData := by
  have hscreen := h.agrees.screens _ hd
  have hfits := h.fits.screens _ hd
  have hcurr := hscreen.historyCurr
  refine ⟨⟨?_, congrArg (d.processScreen, ·) hcurr, rfl, ?_, hscreen.ready, hscreen.tabLs,
    hscreen.historyStart, hscreen.historyEnd, hcurr, h.agrees.screens⟩,
    ⟨hd, rfl, rfl, hfits.sizes _ hfits.curr, hfits.curr, hfits.last, h.fits.screens⟩⟩
  · have hdisplay : ({ d with
        screenX := (s.screens d.processScreen).screenX
        screenY := (s.screens d.processScreen).screenY
        attrib := (s.screens d.processScreen).attrib } : Display)
        = { d with
          screenX := (m.view.screens d.processScreen).screenX
          screenY := (m.view.screens d.processScreen).screenY
          attrib := (m.view.screens d.processScreen).attrib } := by
      rw [hscreen.screenX, hscreen.screenY, hscreen.attrib]
    exact hdisplay
  · exact (hscreen.sizes _ hfits.curr).trans
      (congrArg (m.view.screens d.processScreen).sizeHistory hcurr)

/-- **Changing the process screen.** -/
lemma changeProcessScreen (h : Simulates s m) {n : ℤ} (hm : m.changeProcessScreen n = some m') :
    Simulates (changeProcessScreen s n) m' := by
  rw [RawTty.changeProcessScreen] at hm
  rw [CustomLinuxOs.changeProcessScreen]
  split
  · rename_i hn
    rw [if_pos hn] at hm
    obtain rfl := Option.some.inj hm
    exact h
  · rename_i hn
    rw [if_neg hn] at hm
    obtain ⟨u, hu, rfl⟩ := Option.map_eq_some_iff.mp hm
    have hsave := h.saveData hu
    have hscreen : IsScreen n := by
      rw [IsScreen]
      omega
    simp only [hsave.display]
    exact hsave.loadData hscreen

/-- **Changing the viewed screen.** -/
lemma changeViewScreen (h : Simulates s m) {n : ℤ} (hm : m.changeViewScreen n = some m') :
    Simulates (changeViewScreen s n) m' := by
  rcases em (IsScreen n ∧ n ≠ s.display.viewScreen) with ⟨hn, hne⟩ | hsame
  · have hraw : m.changeViewScreen n
        = (({ m with display := (exchanged s n).display } : RawTty).changeProcessScreen
          s.processScreen).map fun m =>
            let v := readScreen m.mem m.display.viewScreen
            { m with display := setCursor m.display v.screenX v.screenY } := by
      obtain ⟨hzero, hlt⟩ := hn
      rw [RawTty.changeViewScreen, h.display, if_neg (by omega), if_neg hne]
      rfl
    rw [hraw] at hm
    obtain ⟨u, hu, rfl⟩ := Option.map_eq_some_iff.mp hm
    have hchange :
        Simulates (CustomLinuxOs.changeProcessScreen (exchanged s n) s.processScreen) u :=
      (h.withScreen (d := (exchanged s n).display) rfl).changeProcessScreen hu
    have hview : (CustomLinuxOs.changeProcessScreen (exchanged s n)
        s.processScreen).display.viewScreen = n := by
      rw [changeProcessScreen_eq h.fits.process]
      rfl
    have hviewed := hchange.agrees.screens n hn
    have hx : (readScreen u.mem n).screenX = _ := hviewed.screenX.symm
    have hy : (readScreen u.mem n).screenY = _ := hviewed.screenY.symm
    rw [changeViewScreen_eq hn hne]
    simp only [hchange.display, hview, hx, hy]
    exact hchange.withScreen rfl
  · have hraw : m.changeViewScreen n = some m := by
      rw [IsScreen] at hsame
      rw [RawTty.changeViewScreen, h.display]
      split
      · rfl
      · rw [if_pos (by omega)]
    have heq : CustomLinuxOs.changeViewScreen s n = s := by
      rw [IsScreen] at hsame
      rw [CustomLinuxOs.changeViewScreen]
      split
      · rfl
      · rw [if_pos (by omega)]
    rw [hraw] at hm
    obtain rfl := Option.some.inj hm
    rw [heq]
    exact h

/-- **One event** goes the same way with separate arrays. -/
lemma screenStep (h : Simulates s m) {e : ScreenEvent} (he : e.FindsLine m)
    (hm : m.screenStep e = some m') : ∃ t, screenStep s e = some t ∧ Simulates t m' := by
  cases e with
  | process n => exact ⟨_, rfl, h.changeProcessScreen hm⟩
  | view n => exact ⟨_, rfl, h.changeViewScreen hm⟩
  | op o =>
      have hrun : Option.Rel Simulates (o.run s) (m.run o) := h.run he
      have hm' : m.run o = some m' := hm
      rw [hm'] at hrun
      generalize hs : o.run s = r at hrun
      cases hrun with
      | some ht => exact ⟨_, hs, ht⟩

/-- An operation that is possible with separate arrays is possible in memory. -/
lemma run_some (h : Simulates s m) {o : TtyOp} (ho : o.FindsLine m) (hs : o.run s = some t) :
    ∃ m', m.run o = some m' ∧ Simulates t m' := by
  have hrun := h.run ho
  rw [hs] at hrun
  generalize hm : m.run o = r at hrun
  cases hrun with
  | some ht => exact ⟨_, rfl, ht⟩

end Simulates

/-! ### Logical screens -/

/-- Logical screen `k` of `m` is logical screen `j` of `t`: the terminal data, the input line, and
the video memory. -/
structure SameLogical (m : RawTty) (k : ℤ) (t : RawTty) (j : ℤ) : Prop where
  data : (m.view.data k).Agrees (t.view.data j)
  line : ∀ i < MAX_TERMINAL_BUF_SIZE, m.view.lineOf k i = t.view.lineOf j i
  video : ∀ o, OnScreen o → m.view.video k o = t.view.video j o

section Logical

variable {s t : Tty} {m u : RawTty} {k : ℤ}

lemma Simulates.data (h : Simulates s m) (hk : IsScreen k) : (s.data k).Agrees (m.view.data k) := by
  obtain ⟨mem, rfl⟩ := h.eq_inMemory
  have hp : (s.inMemory mem).view.processScreen = s.processScreen := rfl
  rw [Tty.data, Tty.data, hp]
  split
  · have hown : (s.screens s.processScreen).Agrees (readScreen mem s.processScreen) := h.own
    have hwidth := h.fits.widthBuffer
    have hinput : s.inputBuffer.1 = s.processScreen := congrArg Prod.fst h.fits.inputBuffer
    have hwidth' : (s.inMemory mem).view.widthBuffer = s.processScreen := hwidth
    have hinput' : (s.inMemory mem).view.inputBuffer.1 = s.processScreen := hinput
    rw [Tty.live, Tty.live, hwidth, hinput, hwidth', hinput', hp]
    exact ⟨rfl, rfl, hown.widths, rfl, rfl, rfl, hown.lines, fun j hj => by
      simp only [Function.update_apply]
      exact if_congr Iff.rfl rfl (hown.sizes j hj), rfl, rfl, rfl⟩
  · exact h.agrees.screens k hk

lemma Simulates.line (h : Simulates s m) (hk : IsScreen k) {i : ℕ}
    (hi : i < MAX_TERMINAL_BUF_SIZE) : s.lineOf k i = m.view.lineOf k i := by
  have hp : m.view.processScreen = s.processScreen := h.processScreen
  rw [Tty.lineOf, Tty.lineOf, hp]
  split
  · exact (h.input hi).symm
  · have hscreen := h.agrees.screens k hk
    rw [← hscreen.historyCurr]
    exact hscreen.lines _ (h.fits.screens k hk).curr i hi

/-- Logical screens that are the same with separate arrays are the same in memory. -/
lemma SameScreen.logical {j : ℤ} (h : SameScreen s k t j) (hm : Simulates s m)
    (hu : Simulates t u) (hk : IsScreen k) (hj : IsScreen j) : SameLogical m k u j where
  data := (hm.data hk).symm.trans (h.data ▸ hu.data hj)
  line i hi := by rw [← hm.line hk hi, h.line, hu.line hj hi]
  video o ho := by
    have hvideo := h.video o ho
    rw [Tty.video, Tty.video, ← hm.display, ← hu.display] at hvideo
    exact hvideo

/-- Whether a call finds a line is a matter of the size of the buffer. -/
lemma TtyOp.FindsLine.congr {o : TtyOp} (h : o.FindsLine m) (hsize : u.bufferSize = m.bufferSize) :
    o.FindsLine u := by
  cases o with
  | read fd buf nbytes =>
      rw [TtyOp.FindsLine, hsize]
      exact h
  | resume nbytes =>
      rw [TtyOp.FindsLine, hsize]
      exact h
  | _ => trivial

end Logical

/-! ### Runs -/

section Runs

variable {s : Tty} {m m' : RawTty} {ts : ℤ → Tty} {us : ℤ → RawTty}

/-- **One event**: the system and the terminals of their own go along with those that have separate
arrays. -/
lemma screenStep_simulated {e : ScreenEvent} (hs : Mapped s) (hm : Simulates s m)
    (hts : ∀ k, IsScreen k → ShowsScreen s k (ts k) ∧ Simulates (ts k) (us k))
    (he : e.FindsLine m) (hstep : m.screenStep e = some m') :
    ∃ s', screenStep s e = some s' ∧ Mapped s'
      ∧ s'.processScreen = processAfter s.processScreen e ∧ Simulates s' m'
      ∧ ∀ k, IsScreen k → ∃ t u, Run RawTty.run (us k) (opsFor k s.processScreen [e]) u
        ∧ ShowsScreen s' k t ∧ Simulates t u := by
  obtain ⟨s', hs', hm'⟩ := hm.screenStep he hstep
  obtain ⟨hmapped, hprocess, hshows⟩ := screenStep_shows hs (fun k hk => (hts k hk).1) hs'
  refine ⟨s', hs', hmapped, hprocess, hm', fun k hk => ?_⟩
  obtain ⟨t, hrun, hshow⟩ := hshows k hk
  obtain ⟨hshow', hsim⟩ := hts k hk
  cases e with
  | process n => exact ⟨t, us k, Run.nil, hshow, (run_nil_iff.mp hrun).symm ▸ hsim⟩
  | view n => exact ⟨t, us k, Run.nil, hshow, (run_nil_iff.mp hrun).symm ▸ hsim⟩
  | op o =>
      rw [opsFor] at hrun ⊢
      split at hrun
      · rename_i heq
        subst heq
        obtain ⟨t', ho, hnil⟩ := run_cons_iff.mp hrun
        obtain rfl := run_nil_iff.mp hnil
        have hsize : (us s.processScreen).bufferSize = m.bufferSize := by
          rw [hsim.bufferSize, ← (hshow'.twin hs).bufferSize, hm.bufferSize]
        obtain ⟨u, hu, hsim'⟩ := hsim.run_some (TtyOp.FindsLine.congr he hsize) ho
        rw [if_pos rfl]
        exact ⟨t, u, run_cons_iff.mpr ⟨u, hu, Run.nil⟩, hshow, hsim'⟩
      · rename_i hne
        rw [if_neg hne]
        exact ⟨t, us k, Run.nil, hshow, (run_nil_iff.mp hrun).symm ▸ hsim⟩

lemma run_simulated {es : List ScreenEvent} (hs : Mapped s) (hm : Simulates s m)
    (hts : ∀ k, IsScreen k → ShowsScreen s k (ts k) ∧ Simulates (ts k) (us k))
    (hlines : EveryStep RawTty.screenStep m es ScreenEvent.FindsLine)
    (hrun : Run RawTty.screenStep m es m') :
    ∃ s', Run screenStep s es s' ∧ Mapped s' ∧ Simulates s' m' ∧ ∀ k, IsScreen k → ∃ t u,
      Run RawTty.run (us k) (opsFor k s.processScreen es) u ∧ ShowsScreen s' k t
        ∧ Simulates t u := by
  induction es generalizing s m ts us with
  | nil =>
      rw [run_nil_iff.mp hrun]
      exact ⟨s, Run.nil, hs, hm, fun k hk => ⟨ts k, us k, Run.nil, hts k hk⟩⟩
  | cons e es ih =>
      obtain ⟨v, hv, hrest⟩ := run_cons_iff.mp hrun
      obtain ⟨t, ht, hmapped, hprocess, hsim, hshows⟩ :=
        screenStep_simulated hs hm hts hlines.head hv
      have : Nonempty Tty := ⟨s⟩
      have : Nonempty RawTty := ⟨m⟩
      choose! ts' us' hrun' hshows' using hshows
      obtain ⟨s', hs', hmapped', hsim', hall⟩ := ih hmapped hsim hshows' (hlines.tail hv) hrest
      refine ⟨s', run_cons_iff.mpr ⟨t, ht, hs'⟩, hmapped', hsim', fun k hk => ?_⟩
      obtain ⟨t', u, hu, hshow⟩ := hall k hk
      rw [hprocess] at hu
      rw [opsFor_cons]
      exact ⟨t', u, run_append_iff.mpr ⟨us' k, hrun' k hk, hu⟩, hshow⟩

end Runs

/-- A terminal of its own, with the given contents of video memory. -/
def RawTty.standAlone (contents : ℤ → UInt8) : RawTty := RawTty.init fun _ => contents

/-- Memory after `tty_init`: zero but for the attributes. -/
lemma init_screens {mem : Memory} (hzero : ∀ x, x ≠ screenAddr 0 + 138 → x ≠ screenAddr 1 + 138 →
    x ≠ screenAddr 2 + 138 → mem x = 0) {n : ℤ} (hn : IsScreen n)
    (hattrib : mem (screenAddr n + 138) = 0x5) :
    ({ Screen.zero with attrib := 0x5 } : Screen).Agrees (readScreen mem n) := by
  obtain ⟨hlo, hhi⟩ := hn
  rw [MAX_SCREENS] at hhi
  have hoff {o : ℤ} (ho : 0 ≤ o) (ho' : o < 4280) (hne : o ≠ 138) :
      mem (screenAddr n + o) = 0 := by
    refine hzero _ ?_ ?_ ?_
    all_goals
      rw [screenAddr, screenAddr]
      omega
  have hint {o : ℤ} (ho : 139 ≤ o ∨ 0 ≤ o ∧ o < 135) (ho' : o + 4 ≤ 4280) :
      readInt mem (screenAddr n + o) = 0 :=
    readInt_eq ⟨by omega, by omega⟩ fun i hi => by
      rw [add_assoc, hoff (by omega) (by omega) (by omega)]
      simp [intByte]
  constructor
  case screenX =>
    have hx := hint (o := 0) (by omega) (by omega)
    rw [add_zero] at hx
    exact hx.symm
  case screenY => exact (hint (by omega) (by omega)).symm
  case widths =>
    intro i hi
    obtain ⟨hlo', hhi'⟩ := widthAddr_bounds n hi
    have hw := hoff (o := widthAddr n i - screenAddr n) (by omega) (by omega) (by omega)
    rw [add_sub_cancel] at hw
    exact hw.symm
  case ready =>
    have hb := hoff (o := 136) (by omega) (by omega) (by omega)
    simp only [readScreen, hb]
    rfl
  case tabLs =>
    have hb := hoff (o := 137) (by omega) (by omega) (by omega)
    simp only [readScreen, hb]
    rfl
  case attrib => exact hattrib.symm
  case lines =>
    intro k hk i hi
    obtain ⟨hlo', hhi'⟩ := inputAddr_bounds n hk hi
    have hl := hoff (o := inputAddr n k i - screenAddr n) (by omega) (by omega) (by omega)
    rw [add_sub_cancel] at hl
    exact hl.symm
  case sizes =>
    intro k hk
    obtain ⟨hlo', hhi'⟩ := sizeAddr_bounds n hk
    have hs := hoff (o := sizeAddr n k - screenAddr n) (by omega) (by omega) (by omega)
    rw [add_sub_cancel] at hs
    exact hs.symm
  case historyStart => exact (hint (by omega) (by omega)).symm
  case historyEnd => exact (hint (by omega) (by omega)).symm
  case historyCurr => exact (hint (by omega) (by omega)).symm

/-- The terminal after `tty_init`. -/
lemma init_simulates (pages : ℤ → ℤ → UInt8) : Simulates (bootTty pages) (RawTty.init pages) := by
  let s : Tty := { Tty.boot with
    display := { Tty.boot.display with pages := pages }
    screens := fun i =>
      if 0 ≤ i ∧ i < MAX_SCREENS then { Screen.zero with attrib := 0x5 } else Screen.zero }
  let m := (((s.inMemory fun _ => 0).store (screenAddr 0 + 138) 0x5).store
    (screenAddr 1 + 138) 0x5).store (screenAddr 2 + 138) 0x5
  have hslot : IsSlot 0 := by decide
  have hscreen {n : ℤ} (hn : IsScreen n) : s.screens n = { Screen.zero with attrib := 0x5 } :=
    if_pos hn
  have hsim : Simulates s m := by
    refine ⟨⟨rfl, rfl, rfl, rfl, rfl, rfl, rfl, rfl, rfl, fun n hn => ?_⟩,
      ⟨isScreen_zero, rfl, rfl, Nat.zero_le _, hslot, hslot, fun n hn => ?_⟩⟩
    · rw [hscreen hn]
      refine init_screens (fun x h0 h1 h2 => ?_) hn ?_
      · simp only [m, RawTty.store, Tty.inMemory, writeByte_of_ne _ _ h0, writeByte_of_ne _ _ h1,
          writeByte_of_ne _ _ h2]
      · simp only [m, RawTty.store, Tty.inMemory, writeByte]
        obtain ⟨hlo, hhi⟩ := hn
        rw [MAX_SCREENS] at hhi
        rw [screenAddr, screenAddr, screenAddr, screenAddr]
        split_ifs
        · rfl
        · rfl
        · rfl
        · omega
    · rw [hscreen hn]
      exact ⟨fun _ _ => Nat.zero_le _, hslot, hslot⟩
  exact hsim.loadData (d := s.display) isScreen_zero

/-- **Multiplexing the screens is transparent** as long as no line is taken from an empty buffer.
From boot, let screens be switched in any order and let operations be issued on the process screen.
The mappings are those of the process screen, and each logical screen is that of a terminal of its
own that has gone through the operations issued while it was the process screen. -/
theorem screens_multiplexed (pages : ℤ → ℤ → UInt8) {es : List ScreenEvent} {m : RawTty}
    (hrun : Run RawTty.screenStep (RawTty.init pages) es m)
    (hlines : EveryStep RawTty.screenStep (RawTty.init pages) es ScreenEvent.FindsLine) :
    m.display.videoPage = screenPage m.display.viewScreen m.processScreen
      ∧ m.display.vidmapPage = screenPage m.display.viewScreen m.processScreen
      ∧ ∀ k, IsScreen k → ∃ u,
        Run RawTty.run (RawTty.standAlone (pages (screenPage 0 k))) (opsFor k 0 es) u
          ∧ SameLogical m k u 0 := by
  obtain ⟨s, -, hmapped, hsim, hall⟩ := run_simulated (bootTty_mapped pages) (init_simulates pages)
    (fun k hk => ⟨bootTty_shows pages hk, init_simulates _⟩) hlines hrun
  rw [hsim.display, hsim.processScreen]
  refine ⟨hmapped.video, hmapped.vidmap, fun k hk => ?_⟩
  obtain ⟨t, u, hu, hshow, hsim'⟩ := hall k hk
  exact ⟨u, hu, hshow.same.logical hsim hsim' hk isScreen_zero⟩

/-- Two screens are written to, the view changes in between, and a line is typed and read. -/
def twoScreens : List ScreenEvent :=
  [.op (.key 0x61 [] 1), .process 1, .op (.write STDOUT (some [0x62, NEWLINE]) 2), .view 1,
    .process 0, .op (.key 0x63 [] 1), .op .backspace, .op (.key NEWLINE [] 1),
    .op (.read STDIN 0x8000000 2), .process 7, .op (.video 0 3)]

/-- The theorem applies to this run. -/
theorem screens_multiplexed_twoScreens : ∃ m,
    Run RawTty.screenStep (RawTty.init fun _ _ => 0) twoScreens m
      ∧ m.display.videoPage = screenPage m.display.viewScreen m.processScreen
      ∧ m.display.vidmapPage = screenPage m.display.viewScreen m.processScreen
      ∧ ∀ k, IsScreen k → ∃ u,
        Run RawTty.run (RawTty.standAlone fun _ => 0) (opsFor k 0 twoScreens) u
          ∧ SameLogical m k u 0 := by
  have hsome : (twoScreens.foldlM (guarded RawTty.screenStep ScreenEvent.FindsLine)
      (RawTty.init fun _ _ => 0)).isSome = true := by
    decide +kernel
  obtain ⟨m, hguarded⟩ := exists_run_of_isSome hsome
  obtain ⟨hrun, hlines⟩ := hguarded.of_guarded
  exact ⟨m, hrun, screens_multiplexed (fun _ _ => 0) hrun hlines⟩

/-! ### A line from an empty buffer -/

lemma widthAddr_lt {n : ℤ} {i j : ℕ} (h : i < j) : widthAddr n i < widthAddr n j := by
  rw [widthAddr, widthAddr]
  omega

lemma echoBuffer_keeps (untilNewline : Bool) (n i : ℕ) (m : RawTty) :
    (RawTty.echoBuffer untilNewline n i m).inputBuffer = m.inputBuffer
      ∧ (RawTty.echoBuffer untilNewline n i m).processScreen = m.processScreen
      ∧ ∀ x < widthAddr m.widthBuffer i,
        (RawTty.echoBuffer untilNewline n i m).mem x = m.mem x := by
  induction n generalizing i m with
  | zero => exact ⟨rfl, rfl, fun _ _ => rfl⟩
  | succ n ih =>
      let r := ttyEchoNocursor m.display (m.input i)
      let t := ({ m with display := r.2 } : RawTty).setWidth i r.1
      have hscreen : t.processScreen = m.processScreen :=
        congrArg Display.Setup.processScreen (ttyEchoNocursor_setup m.display (m.input i))
      have hmem (x : ℤ) (hx : x < widthAddr m.widthBuffer i) : t.mem x = m.mem x :=
        writeByte_of_ne _ _ hx.ne
      rw [RawTty.echoBuffer]
      split
      · exact ⟨rfl, hscreen, hmem⟩
      · obtain ⟨hinput, hprocess, hkeeps⟩ := ih (i + 1) t
        exact ⟨hinput, hprocess.trans hscreen, fun x hx =>
          (hkeeps x (hx.trans (widthAddr_lt (Nat.lt_succ_self i)))).trans (hmem x hx)⟩

/-- A character that is echoed leaves its width, wherever that is in memory. -/
lemma echoBuffer_width {n i j : ℕ} {m : RawTty} {w : UInt8} (hlo : i ≤ j) (hhi : j < i + n)
    (hfar : ∀ l < j, inputAddr m.inputBuffer.1 m.inputBuffer.2 j ≠ widthAddr m.widthBuffer l)
    (hw : ∀ d, (ttyEchoNocursor d (m.input j)).1 = w) :
    (RawTty.echoBuffer false n i m).mem (widthAddr m.widthBuffer j) = w := by
  induction n generalizing i m with
  | zero => omega
  | succ n ih =>
      let r := ttyEchoNocursor m.display (m.input i)
      let t := ({ m with display := r.2 } : RawTty).setWidth i r.1
      have hstep : RawTty.echoBuffer false (n + 1) i m = RawTty.echoBuffer false n (i + 1) t := rfl
      rw [hstep]
      rcases hlo.eq_or_lt with rfl | hlt
      · have hkeeps := (echoBuffer_keeps false n (i + 1) t).2.2 (widthAddr m.widthBuffer i)
          (widthAddr_lt (Nat.lt_succ_self i))
        exact hkeeps.trans ((writeByte_self _ _ _).trans (hw m.display))
      · have hin : t.input j = m.input j := writeByte_of_ne _ _ (hfar i hlt)
        exact ih (m := t) hlt (by omega) hfar (hin.symm ▸ hw)

/-- Empty lines are read, and one that is erased before it is read: its size less one is saved in
the last slot of the history.  Then the line in that slot is called back. -/
def overrunOps : List TtyOp :=
  emptyLines 31 ++ [.key NEWLINE [] 1, .backspace, .read STDIN 0x8000000 1]

/-- On the second screen a program goes to column 32; then the first one is used. -/
def overrunEvents : List ScreenEvent :=
  [.process 1, .op (.write STDOUT (some [TAB, TAB, TAB, TAB]) 4), .process 0]
    ++ overrunOps.map .op

/-- What there is to be known before the line is called back. -/
def overrunState (m : RawTty) : (ℤ × ℤ × UInt8 × ℤ × ℤ) × UInt8 × UInt8 :=
  ((m.processScreen, m.widthBuffer, m.bufferSize, m.historyCurr, m.historyStart),
    m.mem (sizeAddr 0 31), m.mem (screenAddr 1))

lemma overrunEvents_run : ∃ m, Run RawTty.screenStep (RawTty.init fun _ _ => 0) overrunEvents m
    ∧ overrunState m = ((0, 0, 0, 0, 1), 255, 32) := by
  have hval : (overrunEvents.foldlM RawTty.screenStep (RawTty.init fun _ _ => 0)).map overrunState
      = some ((0, 0, 0, 0, 1), 255, 32) := by
    decide +kernel
  exact exists_run_of_map hval

lemma overrunOps_run : ∃ m, Run RawTty.run (RawTty.standAlone fun _ => 0) overrunOps m
    ∧ overrunState m = ((0, 0, 0, 0, 1), 255, 0) := by
  have hval : (overrunOps.foldlM RawTty.run (RawTty.standAlone fun _ => 0)).map overrunState
      = some ((0, 0, 0, 0, 1), 255, 0) := by
    decide +kernel
  exact exists_run_of_map hval

/-- Calling the line back echoes 255 bytes; the first byte of the second screen is one of them. -/
lemma historyUp_overrun {m : RawTty} {c w : UInt8} (h : overrunState m = ((0, 0, 0, 0, 1), 255, c))
    (hw : ∀ d, (ttyEchoNocursor d c).1 = w) :
    ∃ u, m.run .historyUp = some u ∧ u.processScreen = 0
      ∧ (u.view.data 0).inputHistory 0 42 = w := by
  simp only [overrunState, Prod.mk.injEq] at h
  obtain ⟨⟨hprocess, hwidth, hsize, hcurr, hstart⟩, hsaved, hfirst⟩ := h
  -- the line in slot 31, loaded
  let t : RawTty := ({ m with tabLs := false } : RawTty).setSizeHistory m.historyCurr m.bufferSize
  let v : RawTty := ({ t with historyCurr := 31 } : RawTty).loadLine
  have haddr : sizeAddr m.processScreen m.historyCurr = sizeAddr 0 0 := by rw [hprocess, hcurr]
  have hmem (x : ℤ) (hx : x ≠ sizeAddr 0 0) : v.mem x = m.mem x :=
    writeByte_of_ne _ _ (haddr ▸ hx)
  have hinput : v.inputBuffer = (0, 31) := congrArg (·, 31) hprocess
  have hsize' : v.bufferSize = 255 := by
    have hload : v.bufferSize = v.mem (sizeAddr m.processScreen 31) := rfl
    rw [hload, hprocess, hmem _ (by decide), hsaved]
  have hup : m.run .historyUp = some v.rewrite := by
    have hslot : (if m.historyCurr - 1 < 0 then m.historyCurr - 1 + MAX_TERMINAL_HIST_LEN
        else m.historyCurr - 1) = 31 := by
      rw [hcurr]
      rfl
    have hnone : t.bufferSize.toNat = 0 := congrArg UInt8.toNat hsize
    have hne : m.historyCurr ≠ m.historyStart := by
      rw [hcurr, hstart]
      decide
    have hchange : m.run .historyUp = (eraseLine t.bufferSize.toNat t.view).map fun s =>
        RawTty.rewrite ({ s.inMemory t.mem with historyCurr := 31 } : RawTty).loadLine := by
      simp only [RawTty.run, RawTty.historyUp, if_neg hne, hslot]
      rfl
    rw [hchange, hnone]
    rfl
  have hfirst' : v.input 173 = c := by
    rw [RawTty.input, hinput, hmem _ (by decide), ← hfirst]
    rfl
  have hecho : v.rewrite.mem (widthAddr 0 173) = w := by
    have hwidth' : v.widthBuffer = 0 := hwidth
    have hkey := echoBuffer_width (n := 255) (m := v) (w := w) (Nat.zero_le 173) (by decide)
    rw [hinput, hwidth', hfirst'] at hkey
    have hrewrite : v.rewrite.mem = (RawTty.echoBuffer false v.bufferSize.toNat 0 v).mem := rfl
    have hlength : v.bufferSize.toNat = 255 := congrArg UInt8.toNat hsize'
    rw [hrewrite, hlength]
    refine hkey (fun l hl => ?_) hw
    simp only [inputAddr, widthAddr]
    omega
  obtain ⟨hpointer, hscreen, -⟩ := echoBuffer_keeps false v.bufferSize.toNat 0 v
  have hscreen' : v.rewrite.processScreen = 0 := by
    have hcursor := congrArg Display.Setup.processScreen (setCursorDefault_setup
      (RawTty.echoBuffer false v.bufferSize.toNat 0 v).display)
    exact hcursor.trans (hscreen.trans hprocess)
  have hpointer' : v.rewrite.inputBuffer = (0, 31) := hpointer.trans hinput
  refine ⟨v.rewrite, hup, hscreen', ?_⟩
  have hlive : (v.rewrite.view.data 0).inputHistory 0 42
      = v.rewrite.mem (inputAddr v.rewrite.inputBuffer.1 0 42) := by
    have hscreen'' : (0 : ℤ) = v.rewrite.view.processScreen := hscreen'.symm
    rw [Tty.data, if_pos hscreen'']
    rfl
  rw [hlive, hpointer']
  exact hecho

/-- **The screens are not kept apart** once a line has been taken from an empty buffer: with the
line in the last slot of the history, the first terminal echoes what belongs to the second one.  A
terminal of its own that gets the same operations echoes something else. -/
theorem screens_multiplexed_overrun : ∃ m,
    Run RawTty.screenStep (RawTty.init fun _ _ => 0) (overrunEvents ++ [.op .historyUp]) m
      ∧ ¬ ∃ u, Run RawTty.run (RawTty.standAlone fun _ => 0)
          (opsFor 0 0 (overrunEvents ++ [.op .historyUp])) u ∧ SameLogical m 0 u 0 := by
  obtain ⟨m, hm, hstate⟩ := overrunEvents_run
  obtain ⟨m', hup, hscreen, hline⟩ := historyUp_overrun hstate (w := 1) fun _ => rfl
  obtain ⟨u, hu, hstate'⟩ := overrunOps_run
  obtain ⟨u', hup', -, hline'⟩ := historyUp_overrun hstate' (w := 2) fun _ => rfl
  refine ⟨m', run_snoc_iff.mpr ⟨m, hm, hup⟩, ?_⟩
  rintro ⟨v, hv, hsame⟩
  have hops : opsFor 0 0 (overrunEvents ++ [.op .historyUp]) = overrunOps ++ [.historyUp] := rfl
  rw [hops] at hv
  obtain rfl := hv.unique (run_snoc_iff.mpr ⟨u, hu, hup'⟩)
  have hlines := hsame.data.lines 0 (by decide) 42 (by decide)
  rw [hline, hline'] at hlines
  exact absurd hlines (by decide)

end CustomLinuxOs
