import CustomLinuxOs.Terminal.CursorBounds
import CustomLinuxOs.Terminal.History

/-!
Two terminals that look the same go on looking the same.

* `Display.Frame`, `Tty.Frame`: all that an operation on the process screen leaves alone.
* `Display.Twin`, `Twin`: two terminals whose process screens have the same contents, and which have
  left alone the rest since two earlier states.  The screens need not have the same number.
* `Twin.run`: an operation on both keeps that.

What is in memory off the screen may differ, so no operation may read it: for `check_shell`, the
only one that reads beside the cursor, this follows from the bounds on the cursor (`Bounded`).  The
saved size of the current line may differ as well: it is written before it is read.
-/

namespace CustomLinuxOs

namespace Display

/-- The mappings and the screens are the same, and so are the pages that are not mapped. -/
structure Frame (d₀ d : Display) : Prop where
  videoPage : d.videoPage = d₀.videoPage
  vidmapPage : d.vidmapPage = d₀.vidmapPage
  processScreen : d.processScreen = d₀.processScreen
  viewScreen : d.viewScreen = d₀.viewScreen
  others : ∀ q ≠ d₀.videoPage, d.pages q = d₀.pages q

/-- The displays show the same. -/
structure Twin (d₀ e₀ d e : Display) : Prop where
  frame : Frame d₀ d
  frame' : Frame e₀ e
  x : d.screenX = e.screenX
  y : d.screenY = e.screenY
  attrib : d.attrib = e.attrib
  screen : ∀ o, OnScreen o → d.peek o = e.peek o

variable {d₀ e₀ d e : Display}

/-- Writing to the page that is mapped. -/
lemma Frame.pages (h : Frame d₀ d) (f : ℤ → UInt8) :
    Frame d₀ { d with pages := Function.update d.pages d.videoPage f } where
  videoPage := h.videoPage
  vidmapPage := h.vidmapPage
  processScreen := h.processScreen
  viewScreen := h.viewScreen
  others q hq := by
    have hq' : q ≠ d.videoPage := by
      rw [h.videoPage]
      exact hq
    exact (Function.update_of_ne hq' _ _).trans (h.others q hq)

lemma Twin.pages (h : Twin d₀ e₀ d e) {f g : ℤ → UInt8} (hfg : ∀ o, OnScreen o → f o = g o) :
    Twin d₀ e₀ { d with pages := Function.update d.pages d.videoPage f }
      { e with pages := Function.update e.pages e.videoPage g } where
  frame := h.frame.pages f
  frame' := h.frame'.pages g
  x := h.x
  y := h.y
  attrib := h.attrib
  screen o ho := by
    simp only [peek, Function.update_self]
    exact hfg o ho

lemma Twin.poke (h : Twin d₀ e₀ d e) (o : ℤ) (b : UInt8) :
    Twin d₀ e₀ (d.poke o b) (e.poke o b) := by
  refine h.pages fun o' ho' => ?_
  rw [Function.update_apply, Function.update_apply]
  exact if_congr Iff.rfl rfl (h.screen o' ho')

lemma Frame.move (h : Frame d₀ d) (x y : ℤ) : Frame d₀ { d with screenX := x, screenY := y } :=
  ⟨h.videoPage, h.vidmapPage, h.processScreen, h.viewScreen, h.others⟩

lemma Twin.move (h : Twin d₀ e₀ d e) {x x' y y' : ℤ} (hx : x = x') (hy : y = y') :
    Twin d₀ e₀ { d with screenX := x, screenY := y } { e with screenX := x', screenY := y' } :=
  ⟨h.frame.move x y, h.frame'.move x' y', hx, hy, h.attrib, h.screen⟩

lemma Frame.setCursorDefault (h : Frame d₀ d) : Frame d₀ (setCursorDefault d) := by
  rw [CustomLinuxOs.setCursorDefault]
  split
  · exact ⟨h.videoPage, h.vidmapPage, h.processScreen, h.viewScreen, h.others⟩
  · exact h

lemma Twin.setCursorDefault (h : Twin d₀ e₀ d e) :
    Twin d₀ e₀ (setCursorDefault d) (setCursorDefault e) := by
  have hsame (d : Display) : (CustomLinuxOs.setCursorDefault d).screenX = d.screenX
      ∧ (CustomLinuxOs.setCursorDefault d).screenY = d.screenY
      ∧ (CustomLinuxOs.setCursorDefault d).attrib = d.attrib
      ∧ (CustomLinuxOs.setCursorDefault d).peek = d.peek := by
    rw [CustomLinuxOs.setCursorDefault]
    split <;> exact ⟨rfl, rfl, rfl, rfl⟩
  obtain ⟨hx, hy, hattrib, hpeek⟩ := hsame d
  obtain ⟨hx', hy', hattrib', hpeek'⟩ := hsame e
  refine ⟨h.frame.setCursorDefault, h.frame'.setCursorDefault, ?_, ?_, ?_, fun o ho => ?_⟩
  · rw [hx, hx', h.x]
  · rw [hy, hy', h.y]
  · rw [hattrib, hattrib', h.attrib]
  · rw [hpeek, hpeek', h.screen o ho]

/-! ### Characters -/

lemma Twin.scroll (h : Twin d₀ e₀ d e) : Twin d₀ e₀ (scroll d) (scroll e) := by
  refine h.pages fun o ho => ?_
  split_ifs with hup
  · refine h.screen _ ?_
    rw [NUM_ROWS, NUM_COLS] at hup
    rw [OnScreen, VIDEO_MEMORY_SIZE, NUM_COLS]
    omega
  · rfl
  · exact h.attrib
  · exact h.screen o ho

lemma Twin.fillCell (h : Twin d₀ e₀ d e) (c : UInt8) :
    Twin d₀ e₀ (d.fillCell c) (e.fillCell c) := by
  rw [Display.fillCell, Display.fillCell, ← h.x, ← h.y, ← h.attrib]
  exact (h.poke _ _).poke _ _

lemma Twin.putCell (h : Twin d₀ e₀ d e) (c : UInt8) : Twin d₀ e₀ (putCell d c) (putCell e c) := by
  have hfill := h.fillCell c
  rw [putCell_eq, putCell_eq, ← h.x, ← h.y]
  split
  · exact hfill.move rfl rfl
  · exact hfill.move rfl hfill.y

lemma Twin.scrollIfOff (h : Twin d₀ e₀ d e) : Twin d₀ e₀ (scrollIfOff d) (scrollIfOff e) := by
  rw [CustomLinuxOs.scrollIfOff, CustomLinuxOs.scrollIfOff, ← h.y]
  split
  · exact h.scroll.move h.scroll.x (congrArg (· - 1) h.scroll.y)
  · exact h

lemma Twin.putVisible (h : Twin d₀ e₀ d e) (c : UInt8) :
    Twin d₀ e₀ (putVisible d c) (putVisible e c) := (h.putCell c).scrollIfOff

/-- Characters of the same width, and twins after them. -/
def TwinOut (d₀ e₀ : Display) (r r' : UInt8 × Display) : Prop := r.1 = r'.1 ∧ Twin d₀ e₀ r.2 r'.2

lemma Twin.tabLoop (h : Twin d₀ e₀ d e) (k : ℕ) (n : UInt8) :
    TwinOut d₀ e₀ (tabLoop k n d) (tabLoop k n e) := by
  induction k generalizing n d e with
  | zero => exact ⟨rfl, h⟩
  | succ k ih =>
      rw [CustomLinuxOs.tabLoop, CustomLinuxOs.tabLoop, ← h.x]
      split
      · exact ih (h.putVisible SPACE) (n + 1)
      · exact ⟨rfl, h⟩

lemma Twin.putPrintable (h : Twin d₀ e₀ d e) (caret : Bool) (c : UInt8) :
    TwinOut d₀ e₀ (putPrintable caret d c) (putPrintable caret e c) := by
  simp only [CustomLinuxOs.putPrintable, ← h.x, ← h.y]
  split_ifs
  · exact ⟨rfl, (h.move rfl rfl).scrollIfOff⟩
  · exact ⟨rfl, (h.move rfl rfl).scrollIfOff⟩
  · exact ⟨rfl, (h.move rfl rfl).scrollIfOff⟩
  · obtain ⟨hwidth, htab⟩ := (h.putVisible SPACE).tabLoop 8 1
    exact ⟨hwidth, htab.scrollIfOff⟩
  · exact ⟨rfl, (h.putCell c).scrollIfOff⟩

lemma Twin.ttyPutcNocursor (h : Twin d₀ e₀ d e) (caret : Bool) (c : UInt8) :
    TwinOut d₀ e₀ (ttyPutcNocursor caret d c) (ttyPutcNocursor caret e c) := by
  simp only [CustomLinuxOs.ttyPutcNocursor]
  split_ifs
  · exact h.putPrintable caret c
  · have hcaret := (h.putPrintable caret 0x5e).2
    exact ⟨rfl, (hcaret.putPrintable caret (c ^^^ CARET)).2.scrollIfOff⟩
  · exact ⟨rfl, (h.putCell c).scrollIfOff⟩
  · exact ⟨rfl, h.scrollIfOff⟩

lemma Twin.ttyEcho (h : Twin d₀ e₀ d e) (c : UInt8) :
    TwinOut d₀ e₀ (ttyEcho d c) (ttyEcho e c) := by
  obtain ⟨hwidth, hput⟩ := h.ttyPutcNocursor true c
  exact ⟨hwidth, hput.setCursorDefault⟩

lemma Twin.foldl (h : Twin d₀ e₀ d e) (bytes : List UInt8) :
    Twin d₀ e₀ (bytes.foldl (fun d c => (CustomLinuxOs.ttyPutcNocursor false d c).2) d)
      (bytes.foldl (fun d c => (CustomLinuxOs.ttyPutcNocursor false d c).2) e) := by
  induction bytes generalizing d e with
  | nil => exact h
  | cons b bytes ih => exact ih (h.ttyPutcNocursor false b).2

lemma Twin.ttyPutBytes (h : Twin d₀ e₀ d e) (bytes : List UInt8) :
    Twin d₀ e₀ (ttyPutBytes d bytes) (ttyPutBytes e bytes) := (h.foldl bytes).setCursorDefault

lemma Twin.clearScreen (h : Twin d₀ e₀ d e) :
    Twin d₀ e₀ (clearScreen d) (clearScreen e) := by
  refine Twin.move (h.pages fun o ho => ?_) rfl rfl
  split_ifs
  · rfl
  · exact h.attrib
  · exact h.screen o ho

lemma Twin.stepBack (h : Twin d₀ e₀ d e) : Twin d₀ e₀ d.stepBack e.stepBack := by
  rw [Display.stepBack, Display.stepBack, ← h.x, ← h.y]
  split
  · exact h.move rfl rfl
  · exact h.move rfl rfl

lemma Twin.eraseCells (h : Twin d₀ e₀ d e) (n : ℕ) :
    Twin d₀ e₀ (eraseCells n d) (eraseCells n e) := by
  induction n generalizing d e with
  | zero => exact h
  | succ n ih =>
      rw [eraseCells_succ, eraseCells_succ]
      exact ih (h.stepBack.fillCell SPACE)

end Display

/-! ### Terminals -/

/-- The pointers are into the process screen, and the other screens are the same. -/
structure Tty.Frame (s₀ s : Tty) : Prop where
  inputBuffer : s.inputBuffer = (s₀.processScreen, s.historyCurr)
  widthBuffer : s.widthBuffer = s₀.processScreen
  others : ∀ n ≠ s₀.processScreen, s.screens n = s₀.screens n

/-- The process screens have the same contents, but for the saved size of the current line. -/
structure Twin (s₀ t₀ s t : Tty) : Prop where
  display : Display.Twin s₀.display t₀.display s.display t.display
  frame : Tty.Frame s₀ s
  frame' : Tty.Frame t₀ t
  bufferSize : s.bufferSize = t.bufferSize
  ready : s.ready = t.ready
  tabLs : s.tabLs = t.tabLs
  historyStart : s.historyStart = t.historyStart
  historyEnd : s.historyEnd = t.historyEnd
  historyCurr : s.historyCurr = t.historyCurr
  widths : (s.screens s₀.processScreen).widthBuffer = (t.screens t₀.processScreen).widthBuffer
  lines : (s.screens s₀.processScreen).inputHistory = (t.screens t₀.processScreen).inputHistory
  sizes : ∀ k ≠ s.historyCurr, (s.screens s₀.processScreen).sizeHistory k
    = (t.screens t₀.processScreen).sizeHistory k

/-- The saved size of the current line is the same too. -/
structure FullTwin (s₀ t₀ s t : Tty) : Prop extends Twin s₀ t₀ s t where
  size : (s.screens s₀.processScreen).sizeHistory s.historyCurr
    = (t.screens t₀.processScreen).sizeHistory s.historyCurr

section Twins

variable {s₀ t₀ s t : Tty}

lemma Twin.screen (h : Twin s₀ t₀ s t) : s.processScreen = s₀.processScreen :=
  h.display.frame.processScreen

lemma Twin.screen' (h : Twin s₀ t₀ s t) : t.processScreen = t₀.processScreen :=
  h.display.frame'.processScreen

/-- The input buffers are the same. -/
lemma Twin.input (h : Twin s₀ t₀ s t) : s.input = t.input := by
  funext i
  rw [Tty.input, Tty.input, h.frame.inputBuffer, h.frame'.inputBuffer, ← h.historyCurr, h.lines]

lemma FullTwin.sizeHistory (h : FullTwin s₀ t₀ s t) :
    (s.screens s₀.processScreen).sizeHistory = (t.screens t₀.processScreen).sizeHistory := by
  funext k
  rcases eq_or_ne k s.historyCurr with rfl | hk
  · exact h.size
  · exact h.sizes k hk

lemma Twin.withDisplay (h : Twin s₀ t₀ s t) {d e : Display}
    (hd : Display.Twin s₀.display t₀.display d e) :
    Twin s₀ t₀ { s with display := d } { t with display := e } :=
  ⟨hd, ⟨h.frame.inputBuffer, h.frame.widthBuffer, h.frame.others⟩,
    ⟨h.frame'.inputBuffer, h.frame'.widthBuffer, h.frame'.others⟩, h.bufferSize, h.ready, h.tabLs,
    h.historyStart, h.historyEnd, h.historyCurr, h.widths, h.lines, h.sizes⟩

/-- Setting the variables that are not pointers. -/
lemma Twin.withFlags (h : Twin s₀ t₀ s t) {a a' : UInt8} (ha : a = a') {b b' c c' : Bool}
    (hb : b = b') (hc : c = c') :
    Twin s₀ t₀ { s with bufferSize := a, ready := b, tabLs := c }
      { t with bufferSize := a', ready := b', tabLs := c' } :=
  ⟨h.display, ⟨h.frame.inputBuffer, h.frame.widthBuffer, h.frame.others⟩,
    ⟨h.frame'.inputBuffer, h.frame'.widthBuffer, h.frame'.others⟩, ha, hb, hc,
    h.historyStart, h.historyEnd, h.historyCurr, h.widths, h.lines, h.sizes⟩

lemma Twin.withHistory (h : Twin s₀ t₀ s t) {a a' b b' : ℤ} (ha : a = a') (hb : b = b') :
    Twin s₀ t₀ { s with historyStart := a, historyEnd := b }
      { t with historyStart := a', historyEnd := b' } :=
  ⟨h.display, ⟨h.frame.inputBuffer, h.frame.widthBuffer, h.frame.others⟩,
    ⟨h.frame'.inputBuffer, h.frame'.widthBuffer, h.frame'.others⟩, h.bufferSize, h.ready, h.tabLs,
    ha, hb, h.historyCurr, h.widths, h.lines, h.sizes⟩

/-- Loading a line whose saved size is the same. -/
lemma FullTwin.loadLine (h : FullTwin s₀ t₀ s t) (k : ℤ) :
    FullTwin s₀ t₀ ({ s with historyCurr := k } : Tty).loadLine
      ({ t with historyCurr := k } : Tty).loadLine where
  display := h.display
  frame := ⟨congrArg (·, k) h.screen, h.frame.widthBuffer, h.frame.others⟩
  frame' := ⟨congrArg (·, k) h.screen', h.frame'.widthBuffer, h.frame'.others⟩
  bufferSize := by
    have hsize (s : Tty) : ({ s with historyCurr := k } : Tty).loadLine.bufferSize
        = (s.screens s.processScreen).sizeHistory k := rfl
    rw [hsize, hsize, h.screen, h.screen', h.sizeHistory]
  ready := h.ready
  tabLs := h.tabLs
  historyStart := h.historyStart
  historyEnd := h.historyEnd
  historyCurr := rfl
  widths := h.widths
  lines := h.lines
  sizes j _ := congrFun h.sizeHistory j
  size := congrFun h.sizeHistory k

lemma Tty.Frame.modify (h : Tty.Frame s₀ s) (f : Screen → Screen) :
    Tty.Frame s₀ (s.modifyScreen s₀.processScreen f) where
  inputBuffer := h.inputBuffer
  widthBuffer := h.widthBuffer
  others n hn := (Function.update_of_ne hn _ _).trans (h.others n hn)

/-- Changing the process screen. -/
lemma Twin.modify (h : Twin s₀ t₀ s t) {f g : Screen → Screen}
    (hwidths : (f (s.screens s₀.processScreen)).widthBuffer
      = (g (t.screens t₀.processScreen)).widthBuffer)
    (hlines : (f (s.screens s₀.processScreen)).inputHistory
      = (g (t.screens t₀.processScreen)).inputHistory)
    (hsizes : ∀ k ≠ s.historyCurr, (f (s.screens s₀.processScreen)).sizeHistory k
      = (g (t.screens t₀.processScreen)).sizeHistory k) :
    Twin s₀ t₀ (s.modifyScreen s₀.processScreen f) (t.modifyScreen t₀.processScreen g) where
  display := h.display
  frame := h.frame.modify f
  frame' := h.frame'.modify g
  bufferSize := h.bufferSize
  ready := h.ready
  tabLs := h.tabLs
  historyStart := h.historyStart
  historyEnd := h.historyEnd
  historyCurr := h.historyCurr
  widths := by simpa only [Tty.modifyScreen, Function.update_self] using hwidths
  lines := by simpa only [Tty.modifyScreen, Function.update_self] using hlines
  sizes := by simpa only [Tty.modifyScreen, Function.update_self] using hsizes

lemma FullTwin.modify (h : Twin s₀ t₀ s t) {f g : Screen → Screen}
    (hwidths : (f (s.screens s₀.processScreen)).widthBuffer
      = (g (t.screens t₀.processScreen)).widthBuffer)
    (hlines : (f (s.screens s₀.processScreen)).inputHistory
      = (g (t.screens t₀.processScreen)).inputHistory)
    (hsizes : (f (s.screens s₀.processScreen)).sizeHistory
      = (g (t.screens t₀.processScreen)).sizeHistory) :
    FullTwin s₀ t₀ (s.modifyScreen s₀.processScreen f) (t.modifyScreen t₀.processScreen g) where
  toTwin := h.modify hwidths hlines fun k _ => congrFun hsizes k
  size := by
    simp only [Tty.modifyScreen, Function.update_self]
    exact congrFun hsizes s.historyCurr

lemma Twin.setInput (h : Twin s₀ t₀ s t) (i : ℕ) (c : UInt8) :
    Twin s₀ t₀ (s.setInput i c) (t.setInput i c) := by
  rw [Tty.setInput, Tty.setInput, h.frame.inputBuffer, h.frame'.inputBuffer, ← h.historyCurr]
  refine h.modify h.widths ?_ h.sizes
  simp only [h.lines]

lemma Twin.setWidth (h : Twin s₀ t₀ s t) (i : ℕ) (w : UInt8) :
    Twin s₀ t₀ (s.setWidth i w) (t.setWidth i w) := by
  rw [Tty.setWidth, Tty.setWidth, h.frame.widthBuffer, h.frame'.widthBuffer]
  refine h.modify ?_ h.lines h.sizes
  simp only [h.widths]

lemma Twin.setSizeHistory (h : Twin s₀ t₀ s t) (k : ℤ) (b : UInt8) :
    Twin s₀ t₀ (s.setSizeHistory k b) (t.setSizeHistory k b) := by
  rw [Tty.setSizeHistory, Tty.setSizeHistory, h.screen, h.screen']
  refine h.modify h.widths h.lines fun j hj => ?_
  simp only [Function.update_apply, h.sizes j hj]

/-- Saving the size of the current line. -/
lemma Twin.saveSize (h : Twin s₀ t₀ s t) (b : UInt8) :
    FullTwin s₀ t₀ (s.setSizeHistory s.historyCurr b) (t.setSizeHistory t.historyCurr b) := by
  rw [Tty.setSizeHistory, Tty.setSizeHistory, h.screen, h.screen', ← h.historyCurr]
  refine FullTwin.modify h h.widths h.lines (funext fun j => ?_)
  simp only [Function.update_apply]
  rcases eq_or_ne j s.historyCurr with hj | hj
  · rw [if_pos hj, if_pos hj]
  · rw [if_neg hj, if_neg hj, h.sizes j hj]

lemma FullTwin.setSizeHistory (h : FullTwin s₀ t₀ s t) (k : ℤ) (b : UInt8) :
    FullTwin s₀ t₀ (s.setSizeHistory k b) (t.setSizeHistory k b) := by
  rw [Tty.setSizeHistory, Tty.setSizeHistory, h.screen, h.screen']
  refine FullTwin.modify h.toTwin h.widths h.lines ?_
  simp only [h.sizeHistory]

lemma FullTwin.copyLine (h : FullTwin s₀ t₀ s t) (k : ℤ) :
    FullTwin s₀ t₀ (copyLine s k) (copyLine t k) := by
  rw [CustomLinuxOs.copyLine, CustomLinuxOs.copyLine, h.screen, h.screen']
  refine FullTwin.modify h.toTwin h.widths ?_ h.sizeHistory
  simp only [h.lines, h.input]

/-! ### Output and keys -/

lemma Twin.echoBuffer (h : Twin s₀ t₀ s t) (untilNewline : Bool) (n i : ℕ) :
    Twin s₀ t₀ (echoBuffer untilNewline n i s) (echoBuffer untilNewline n i t) := by
  induction n generalizing i s t with
  | zero => exact h
  | succ n ih =>
      obtain ⟨hwidth, hecho⟩ := h.display.ttyPutcNocursor true (s.input i)
      have hstep := (h.withDisplay hecho).setWidth i (ttyEchoNocursor s.display (s.input i)).1
      rw [CustomLinuxOs.echoBuffer, CustomLinuxOs.echoBuffer, ← h.input]
      have hwidth' : (ttyEchoNocursor t.display (s.input i)).1
          = (ttyEchoNocursor s.display (s.input i)).1 := hwidth.symm
      simp only [hwidth']
      split
      · exact hstep
      · exact ih hstep (i + 1)

lemma Twin.rewrite (h : Twin s₀ t₀ s t) : Twin s₀ t₀ (rewrite s) (rewrite t) := by
  have hecho := h.echoBuffer false s.bufferSize.toNat 0
  rw [CustomLinuxOs.rewrite, CustomLinuxOs.rewrite, ← h.bufferSize]
  exact hecho.withDisplay hecho.display.setCursorDefault

lemma Twin.showLine (h : Twin s₀ t₀ s t) : Twin s₀ t₀ (showLine s) (showLine t) := by
  have hecho := h.echoBuffer true s.bufferSize.toNat 0
  rw [CustomLinuxOs.showLine, CustomLinuxOs.showLine, ← h.bufferSize]
  exact hecho.withDisplay hecho.display.setCursorDefault

/-- The prompt that `check_shell` looks for ends on the screen. -/
lemma promptStart_bound (hs : Bounded s.display) :
    NUM_COLS * (promptStart s).2 + (promptStart s).1 + PROMPT_SIZE ≤ NUM_ROWS * NUM_COLS := by
  obtain ⟨-, hright, hbottom⟩ := hs
  rw [NUM_COLS] at hright
  rw [NUM_ROWS] at hbottom
  -- a row that has been gone back from is full
  have hback (w : ℕ → UInt8) (l : List ℕ) (p : ℤ × ℤ)
      (hp : (p.1 ≤ 72 ∧ p.2 ≤ 24) ∨ (p.1 ≤ 79 ∧ p.2 ≤ 23)) :
      let q := l.foldl (fun (p : ℤ × ℤ) i =>
        let x := p.1 - (w i).toNat
        if x < 0 then (x + NUM_COLS, p.2 - 1) else (x, p.2)) p
      (q.1 ≤ 72 ∧ q.2 ≤ 24) ∨ (q.1 ≤ 79 ∧ q.2 ≤ 23) := by
    induction l generalizing p with
    | nil => exact hp
    | cons i l ih =>
        refine ih _ ?_
        simp only [NUM_COLS]
        split <;> simp only <;> omega
  have hstart : ((promptStart s).1 ≤ 72 ∧ (promptStart s).2 ≤ 24)
      ∨ ((promptStart s).1 ≤ 79 ∧ (promptStart s).2 ≤ 23) :=
    hback (s.screens s.widthBuffer).widthBuffer (List.range s.bufferSize.toNat)
      (s.display.screenX - PROMPT_SIZE, s.display.screenY) (by simp only [PROMPT_SIZE]; omega)
  rw [NUM_COLS, NUM_ROWS, PROMPT_SIZE]
  push_cast
  omega

lemma Twin.promptStart (h : Twin s₀ t₀ s t) : promptStart s = promptStart t := by
  rw [CustomLinuxOs.promptStart, CustomLinuxOs.promptStart, h.frame.widthBuffer,
    h.frame'.widthBuffer, h.widths, h.bufferSize, h.display.x, h.display.y]

lemma Twin.shellMapped (h : Twin s₀ t₀ s t) : shellMapped s = shellMapped t := by
  rw [CustomLinuxOs.shellMapped, CustomLinuxOs.shellMapped, h.promptStart]

/-- **`check_shell`** reads what is on the screen, if it reads mapped memory at all. -/
lemma Twin.checkShell (h : Twin s₀ t₀ s t) (hs : Bounded s.display)
    (hmapped : CustomLinuxOs.shellMapped s = true) : checkShell s = checkShell t := by
  have hbound := promptStart_bound hs
  rw [checkShell_eq, checkShell_eq, ← h.promptStart]
  rw [CustomLinuxOs.shellMapped, Bool.or_eq_true, decide_eq_true_iff, decide_eq_true_iff] at hmapped
  split
  · rfl
  · rename_i hrow
    have hstart := hmapped.resolve_left hrow
    refine Bool.eq_iff_iff.mpr ?_
    rw [List.all_eq_true, List.all_eq_true]
    refine forall₂_congr fun i hi => ?_
    rw [h.display.screen]
    have hlt := List.mem_range.mp hi
    rw [NUM_ROWS, PROMPT_SIZE] at hbound
    rw [PROMPT_SIZE] at hlt
    rw [NUM_COLS] at *
    rw [OnScreen, VIDEO_MEMORY_SIZE]
    omega

lemma Twin.ttyCls (h : Twin s₀ t₀ s t) (hs : Bounded s.display)
    (hmapped : CustomLinuxOs.shellMapped s = true) : Twin s₀ t₀ (ttyCls s) (ttyCls t) := by
  have hclear := h.display.clearScreen
  rw [ttyCls_eq, ttyCls_eq, ← h.checkShell hs hmapped]
  refine Twin.rewrite (h.withDisplay ?_)
  split
  · exact hclear.ttyPutBytes prompt
  · exact hclear

/-- A character that there is room for, with the size of the buffer read once. -/
def pushChar (s : Tty) (n : ℕ) (c : UInt8) : Tty :=
  let r := ttyEcho s.display c
  ({ s.setInput n c with display := r.2 } : Tty).setWidth n r.1

lemma enterChar_eq (s : Tty) (c : UInt8) : enterChar s c =
    if s.bufferSize.toNat < MAX_TERMINAL_BUF_SIZE - 1 then
      { pushChar s s.bufferSize.toNat c with
        bufferSize := s.bufferSize + 1
        ready := if c = NEWLINE then true else s.ready }
    else if s.bufferSize.toNat = MAX_TERMINAL_BUF_SIZE - 1 then
      if c = NEWLINE then
        { ({ s with display := (ttyEcho s.display c).2 } : Tty).setInput s.bufferSize.toNat c with
          bufferSize := s.bufferSize + 1
          ready := true }
      else s
    else s := rfl

lemma Twin.pushChar (h : Twin s₀ t₀ s t) (n : ℕ) (c : UInt8) :
    Twin s₀ t₀ (pushChar s n c) (pushChar t n c) := by
  obtain ⟨hwidth, hecho⟩ := h.display.ttyEcho c
  have hstep := ((h.setInput n c).withDisplay hecho).setWidth n (ttyEcho s.display c).1
  simp only [CustomLinuxOs.pushChar, ← hwidth]
  exact hstep

lemma Twin.enterChar (h : Twin s₀ t₀ s t) (c : UInt8) :
    Twin s₀ t₀ (enterChar s c) (enterChar t c) := by
  rw [enterChar_eq, enterChar_eq, ← h.bufferSize, ← h.ready]
  split
  · have hpush := h.pushChar s.bufferSize.toNat c
    exact hpush.withFlags rfl rfl hpush.tabLs
  · split
    · split
      · have hecho := (h.withDisplay (h.display.ttyEcho c).2).setInput s.bufferSize.toNat c
        exact hecho.withFlags rfl rfl hecho.tabLs
      · exact h
    · exact h

lemma Twin.ttyBackspace (h : Twin s₀ t₀ s t) : Twin s₀ t₀ (ttyBackspace s) (ttyBackspace t) := by
  simp only [CustomLinuxOs.ttyBackspace, ← h.bufferSize, ← h.display.x, ← h.display.y]
  split
  · split
    · exact h
    · have herase := h.display.eraseCells
        ((s.screens s.widthBuffer).widthBuffer (s.bufferSize - 1).toNat).toNat
      have hwidth : (t.screens t.widthBuffer).widthBuffer
          = (s.screens s.widthBuffer).widthBuffer := by
        rw [h.frame.widthBuffer, h.frame'.widthBuffer, h.widths]
      rw [hwidth]
      exact (h.withDisplay herase.setCursorDefault).withFlags rfl h.ready rfl
  · exact h.withFlags rfl h.ready rfl

/-! ### History -/

lemma FullTwin.ttyBackspace (h : FullTwin s₀ t₀ s t) :
    FullTwin s₀ t₀ (ttyBackspace s) (ttyBackspace t) where
  toTwin := h.toTwin.ttyBackspace
  size := by
    have hscreens (s : Tty) : (CustomLinuxOs.ttyBackspace s).screens = s.screens
        ∧ (CustomLinuxOs.ttyBackspace s).historyCurr = s.historyCurr := by
      rw [CustomLinuxOs.ttyBackspace]
      split
      · split <;> exact ⟨rfl, rfl⟩
      · exact ⟨rfl, rfl⟩
    rw [(hscreens s).1, (hscreens s).2, (hscreens t).1]
    exact h.size

lemma FullTwin.eraseLine {s' : Tty} {n : ℕ} (h : FullTwin s₀ t₀ s t)
    (hs : eraseLine n s = some s') : ∃ t', eraseLine n t = some t' ∧ FullTwin s₀ t₀ s' t' := by
  induction n generalizing s t with
  | zero =>
      obtain rfl := Option.some.inj hs
      exact ⟨t, rfl, h⟩
  | succ n ih =>
      rw [CustomLinuxOs.eraseLine] at hs ⊢
      rw [← h.display.x, ← h.display.y]
      split at hs
      · exact absurd hs (by simp)
      · rw [if_neg ‹_›]
        exact ih h.ttyBackspace hs

lemma Twin.changeLine {s' : Tty} {k : ℤ} (h : Twin s₀ t₀ s t) (hs : changeLine s k = some s') :
    ∃ t', changeLine t k = some t' ∧ Twin s₀ t₀ s' t' := by
  obtain ⟨u, hu, rfl⟩ := Option.map_eq_some_iff.mp hs
  obtain ⟨v, hv, htwin⟩ := (h.saveSize s.bufferSize).eraseLine hu
  refine ⟨_, ?_, (htwin.loadLine k).toTwin.rewrite⟩
  rw [CustomLinuxOs.changeLine, ← h.bufferSize, hv]
  rfl

lemma historyUp_eq (s : Tty) : historyUp s =
    if s.historyCurr = s.historyStart then some { s with tabLs := false }
    else changeLine { s with tabLs := false } (prevSlot s.historyCurr) := rfl

lemma historyDown_eq (s : Tty) : historyDown s =
    if s.historyCurr = s.historyEnd then some { s with tabLs := false }
    else changeLine { s with tabLs := false }
      (if s.historyCurr + 1 ≥ MAX_TERMINAL_HIST_LEN then
        s.historyCurr + 1 - MAX_TERMINAL_HIST_LEN else s.historyCurr + 1) := rfl

lemma Twin.historyUp {s' : Tty} (h : Twin s₀ t₀ s t) (hs : historyUp s = some s') :
    ∃ t', historyUp t = some t' ∧ Twin s₀ t₀ s' t' := by
  have htab := h.withFlags h.bufferSize h.ready (rfl : false = false)
  have hiff : t.historyCurr = t.historyStart ↔ s.historyCurr = s.historyStart := by
    rw [h.historyCurr, h.historyStart]
  rw [historyUp_eq] at hs ⊢
  rcases eq_or_ne s.historyCurr s.historyStart with hstart | hstart
  · rw [if_pos hstart] at hs
    obtain rfl := Option.some.inj hs
    rw [if_pos (hiff.mpr hstart)]
    exact ⟨_, rfl, htab⟩
  · rw [if_neg hstart] at hs
    rw [if_neg fun ht => hstart (hiff.mp ht)]
    obtain ⟨t', ht, htwin⟩ := htab.changeLine hs
    rw [h.historyCurr] at ht
    exact ⟨t', ht, htwin⟩

lemma Twin.historyDown {s' : Tty} (h : Twin s₀ t₀ s t) (hs : historyDown s = some s') :
    ∃ t', historyDown t = some t' ∧ Twin s₀ t₀ s' t' := by
  have htab := h.withFlags h.bufferSize h.ready (rfl : false = false)
  have hiff : t.historyCurr = t.historyEnd ↔ s.historyCurr = s.historyEnd := by
    rw [h.historyCurr, h.historyEnd]
  rw [historyDown_eq] at hs ⊢
  rcases eq_or_ne s.historyCurr s.historyEnd with hend | hend
  · rw [if_pos hend] at hs
    obtain rfl := Option.some.inj hs
    rw [if_pos (hiff.mpr hend)]
    exact ⟨_, rfl, htab⟩
  · rw [if_neg hend] at hs
    rw [if_neg fun ht => hend (hiff.mp ht)]
    obtain ⟨t', ht, htwin⟩ := htab.changeLine hs
    rw [h.historyCurr] at ht
    exact ⟨t', ht, htwin⟩

lemma moveHistoryEnd_eq (s : Tty) : moveHistoryEnd s = { s with
    historyStart :=
      if nextSlot s.historyEnd = s.historyStart then s.historyStart + 1 else s.historyStart
    historyEnd := nextSlot s.historyEnd } := by
  simp only [moveHistoryEnd, nextSlot]
  split
  · split <;> rfl
  · split <;> rfl

lemma FullTwin.advanceHistory (h : FullTwin s₀ t₀ s t) :
    FullTwin s₀ t₀ (advanceHistory s) (advanceHistory t) := by
  rw [advanceHistory_eq, advanceHistory_eq, ← h.historyCurr, ← h.historyEnd, ← h.bufferSize]
  split
  · have hcopy : FullTwin s₀ t₀
        (if s.historyEnd ≠ s.historyCurr then CustomLinuxOs.copyLine s s.historyEnd else s)
        (if s.historyEnd ≠ s.historyCurr then CustomLinuxOs.copyLine t s.historyEnd else t) := by
      split
      · exact h.copyLine s.historyEnd
      · exact h
    have hsave := hcopy.setSizeHistory s.historyEnd (s.bufferSize - 1)
    rw [moveHistoryEnd_eq, moveHistoryEnd_eq]
    refine ⟨hsave.toTwin.withHistory ?_ ?_, hsave.size⟩
    · rw [hsave.historyEnd, hsave.historyStart]
    · rw [hsave.historyEnd]
  · exact h

/-- **`history_new`** reads the saved size of the current line after it has written it. -/
lemma Twin.historyNew (h : Twin s₀ t₀ s t) : Twin s₀ t₀ (historyNew s) (historyNew t) := by
  have hadvance := (h.saveSize (s.bufferSize - 1)).advanceHistory
  rw [historyNew_eq, historyNew_eq, ← h.bufferSize]
  set u := CustomLinuxOs.advanceHistory (s.setSizeHistory s.historyCurr (s.bufferSize - 1))
  set v := CustomLinuxOs.advanceHistory (t.setSizeHistory t.historyCurr (s.bufferSize - 1))
  simp only [← hadvance.historyEnd, ← hadvance.historyCurr]
  split
  · have hcopy := hadvance.copyLine u.historyEnd
    have hload := (hcopy.loadLine (copyLine u u.historyEnd).historyEnd).toTwin
    rwa [hcopy.historyEnd] at hload ⊢
  · have hload := (hadvance.loadLine u.historyEnd).toTwin
    rwa [hadvance.historyEnd] at hload ⊢

/-! ### Calls -/

lemma Twin.shiftLoop (h : Twin s₀ t₀ s t) (n i j : ℕ) :
    Twin s₀ t₀ (shiftLoop n i j s) (shiftLoop n i j t) := by
  induction n generalizing i j s t with
  | zero => exact h
  | succ n ih =>
      rw [CustomLinuxOs.shiftLoop, CustomLinuxOs.shiftLoop, ← h.input]
      have hset := h.setInput j (s.input i)
      refine ih (hset.withFlags hset.bufferSize ?_ hset.tabLs) (i + 1) (j + 1)
      rw [hset.ready]

lemma shiftBuffer_eq (s : Tty) (i : ℕ) : shiftBuffer s i =
    ({ shiftLoop (s.bufferSize.toNat - i) i 0 { s with ready := false } with
        bufferSize := (s.bufferSize.toNat - i).toUInt8 } : Tty).setSizeHistory
      (shiftLoop (s.bufferSize.toNat - i) i 0 { s with ready := false }).historyCurr
      (s.bufferSize.toNat - i).toUInt8 := rfl

lemma Twin.shiftBuffer (h : Twin s₀ t₀ s t) (i : ℕ) :
    Twin s₀ t₀ (shiftBuffer s i) (shiftBuffer t i) := by
  have hloop := (h.withFlags h.bufferSize (rfl : false = false) h.tabLs).shiftLoop
    (s.bufferSize.toNat - i) i 0
  have hn : t.bufferSize.toNat - i = s.bufferSize.toNat - i := by rw [h.bufferSize]
  rw [shiftBuffer_eq, shiftBuffer_eq, hn, ← hloop.historyCurr]
  exact (hloop.withFlags rfl hloop.ready hloop.tabLs).setSizeHistory _ _

lemma Twin.takeLine {s' : Tty} {nbytes n : ℤ} {bytes : List UInt8} (h : Twin s₀ t₀ s t)
    (hs : takeLine s nbytes = some (n, bytes, s')) :
    ∃ t', takeLine t nbytes = some (n, bytes, t') ∧ Twin s₀ t₀ s' t' := by
  have hloop : readLoop t nbytes t.bufferSize.toNat 0 = readLoop s nbytes s.bufferSize.toNat 0 := by
    rw [readLoop_eq, readLoop_eq, h.input, h.bufferSize]
  simp only [CustomLinuxOs.takeLine, hloop, ← h.ready] at hs ⊢
  split at hs
  · obtain ⟨rfl, rfl, rfl⟩ := hs
    rw [if_pos ‹_›]
    exact ⟨_, rfl, h.historyNew.shiftBuffer _⟩
  · exact absurd hs (by simp)

lemma Twin.ttyRead {s' : Tty} {fd nbytes n : ℤ} {buf : UInt32} {bytes : List UInt8}
    (h : Twin s₀ t₀ s t) (hs : ttyRead s fd buf nbytes = some (n, bytes, s')) :
    ∃ t', ttyRead t fd buf nbytes = some (n, bytes, t') ∧ Twin s₀ t₀ s' t' := by
  rw [ttyRead_eq] at hs ⊢
  split at hs
  · obtain ⟨rfl, rfl, rfl⟩ := hs
    rw [if_pos ‹_›]
    exact ⟨t, rfl, h⟩
  · rw [if_neg ‹_›]
    split at hs
    · obtain ⟨rfl, rfl, rfl⟩ := hs
      rw [if_pos ‹_›]
      exact ⟨t, rfl, h⟩
    · rw [if_neg ‹_›]
      exact h.showLine.takeLine hs

lemma Twin.ttyWrite (h : Twin s₀ t₀ s t) (fd : ℤ) (buf : Option (List UInt8)) (nbytes : ℤ) :
    Twin s₀ t₀ (ttyWrite s fd buf nbytes).2 (ttyWrite t fd buf nbytes).2 := by
  simp only [CustomLinuxOs.ttyWrite]
  split
  · exact h
  · cases buf with
    | none => exact h
    | some bytes => exact h.withDisplay (h.display.ttyPutBytes _)

/-! ### Completion -/

lemma getLastLoop_congr (h : s.input = t.input) (i : ℕ) : getLastLoop s i = getLastLoop t i := by
  induction i with
  | zero => rfl
  | succ i ih => rw [getLastLoop, getLastLoop, ih, h]

/-- What completion decides depends on the input line only. -/
lemma Twin.completion (h : Twin s₀ t₀ s t) (names : Listing) :
    completion names s = completion names t := by
  have hlast : getLast s = getLast t := by
    rw [getLast, getLast, h.bufferSize, getLastLoop_congr h.input]
  rw [CustomLinuxOs.completion, CustomLinuxOs.completion, hlast, h.bufferSize, h.input]

lemma Twin.ttyLs (h : Twin s₀ t₀ s t) (hs : Bounded s.display)
    (hmapped : CustomLinuxOs.shellMapped s = true) (names : Listing) (filename : ℕ → UInt8)
    (n : ℕ) : Twin s₀ t₀ (ttyLs names filename n s) (ttyLs names filename n t) := by
  have hnames := h.display.foldl (lsBytes names filename n)
  simp only [CustomLinuxOs.ttyLs, ← h.checkShell hs hmapped]
  refine Twin.rewrite (h.withDisplay ?_)
  split
  · exact hnames.ttyPutBytes prompt
  · exact hnames

lemma Twin.withTab (h : Twin s₀ t₀ s t) (b : Bool) :
    Twin s₀ t₀ { s with tabLs := b } { t with tabLs := b } :=
  h.withFlags h.bufferSize h.ready rfl

/-- **Keys**, with what they complete. -/
lemma Twin.sendKey {s' : Tty} {names : Listing} {depth : ℕ} {c : UInt8} (h : Twin s₀ t₀ s t)
    (hb : Bounded s.display) (hs : sendKey names depth s c = some s') :
    ∃ t', sendKey names depth t c = some t' ∧ Twin s₀ t₀ s' t' := by
  induction depth generalizing s t s' c with
  | zero => exact absurd hs (by simp [CustomLinuxOs.sendKey])
  | succ depth ih =>
      have hsend {bytes : List UInt8} {s t s' : Tty} (h : Twin s₀ t₀ s t) (hb : Bounded s.display)
          (hs : bytes.foldlM (CustomLinuxOs.sendKey names depth) s = some s') :
          ∃ t', bytes.foldlM (CustomLinuxOs.sendKey names depth) t = some t'
            ∧ Twin s₀ t₀ s' t' := by
        induction bytes generalizing s t with
        | nil =>
            obtain rfl := Option.some.inj hs
            exact ⟨t, rfl, h⟩
        | cons b bytes ihb =>
            rw [List.foldlM_cons] at hs
            obtain ⟨u, hu, hs⟩ := Option.bind_eq_some_iff.mp hs
            obtain ⟨v, hv, huv⟩ := ih h hb hu
            obtain ⟨t', ht, htwin⟩ := ihb huv (hb.moves (moves_sendKey hu)) hs
            refine ⟨t', ?_, htwin⟩
            rw [List.foldlM_cons]
            exact Option.bind_eq_some_iff.mpr ⟨v, hv, ht⟩
      rw [CustomLinuxOs.sendKey] at hs ⊢
      rw [← h.shellMapped]
      split at hs
      · rw [if_pos ‹_›]
        rw [tabComplete] at hs ⊢
        rw [← h.completion]
        cases hcompletion : CustomLinuxOs.completion names s with
        | none =>
            rw [hcompletion] at hs
            obtain rfl := Option.some.inj hs
            exact ⟨t, rfl, h⟩
        | some completion =>
            rw [hcompletion] at hs
            cases completion with
            | noMatch =>
                obtain rfl := Option.some.inj hs
                exact ⟨_, rfl, h.withTab false⟩
            | ambiguous filename n =>
                simp only [← h.tabLs, ← h.shellMapped] at hs ⊢
                split at hs
                · rw [if_pos ‹_›]
                  split at hs
                  · rename_i hmapped
                    obtain rfl := Option.some.inj hs
                    rw [if_pos hmapped]
                    exact ⟨_, rfl, (h.ttyLs hb hmapped names filename n).withTab true⟩
                  · exact absurd hs (by simp)
                · obtain rfl := Option.some.inj hs
                  rw [if_neg ‹_›]
                  exact ⟨_, rfl, h.withTab true⟩
            | add bytes =>
                obtain ⟨u, hu, rfl⟩ := Option.map_eq_some_iff.mp hs
                obtain ⟨t', ht, htwin⟩ := hsend h hb hu
                exact ⟨_, Option.map_eq_some_iff.mpr ⟨t', ht, rfl⟩, htwin.withTab false⟩
      · rename_i htab
        rw [if_neg htab]
        split at hs
        · exact absurd hs (by simp)
        · rename_i hguard
          obtain rfl := Option.some.inj hs
          rw [if_neg hguard]
          refine ⟨_, rfl, ?_⟩
          rw [ttySendchar, ttySendchar]
          rcases eq_or_ne c 0x0c with hc | hc
          · rw [if_pos hc, if_pos hc]
            have hmapped : CustomLinuxOs.shellMapped s = true := by
              rw [not_and_not_right] at hguard
              exact hguard hc
            exact (h.ttyCls hb hmapped).withTab false
          · rw [if_neg hc, if_neg hc, if_neg htab, if_neg htab]
            split
            · exact h
            · exact (h.enterChar c).withTab false

/-! ### Operations -/

/-- **An operation** on twins. -/
theorem Twin.run {s' : Tty} {op : TtyOp} (h : Twin s₀ t₀ s t) (hb : Bounded s.display)
    (hs : op.run s = some s') : ∃ t', op.run t = some t' ∧ Twin s₀ t₀ s' t' := by
  cases op with
  | key c names depth => exact h.sendKey hb hs
  | backspace =>
      obtain rfl := Option.some.inj hs
      exact ⟨_, rfl, h.ttyBackspace⟩
  | historyUp => exact h.historyUp hs
  | historyDown => exact h.historyDown hs
  | write fd buf nbytes =>
      obtain rfl := Option.some.inj hs
      exact ⟨_, rfl, h.ttyWrite fd buf nbytes⟩
  | read fd buf nbytes =>
      obtain ⟨⟨n, bytes, u⟩, hread, rfl⟩ := Option.map_eq_some_iff.mp hs
      obtain ⟨t', ht, htwin⟩ := h.ttyRead hread
      exact ⟨t', Option.map_eq_some_iff.mpr ⟨_, ht, rfl⟩, htwin⟩
  | wait fd buf =>
      rw [TtyOp.run] at hs ⊢
      split at hs
      · exact absurd hs (by simp)
      · obtain rfl := Option.some.inj hs
        rw [if_neg ‹_›]
        exact ⟨_, rfl, h.showLine⟩
  | resume nbytes =>
      obtain ⟨⟨n, bytes, u⟩, htake, rfl⟩ := Option.map_eq_some_iff.mp hs
      obtain ⟨t', ht, htwin⟩ := h.takeLine htake
      exact ⟨t', Option.map_eq_some_iff.mpr ⟨_, ht, rfl⟩, htwin⟩
  | clearBuf =>
      obtain rfl := Option.some.inj hs
      exact ⟨_, rfl, h.withFlags rfl rfl h.tabLs⟩
  | setAttrib a =>
      obtain rfl := Option.some.inj hs
      have hdisplay := h.display
      exact ⟨_, rfl, h.withDisplay ⟨⟨hdisplay.frame.videoPage, hdisplay.frame.vidmapPage,
        hdisplay.frame.processScreen, hdisplay.frame.viewScreen, hdisplay.frame.others⟩,
        ⟨hdisplay.frame'.videoPage, hdisplay.frame'.vidmapPage, hdisplay.frame'.processScreen,
          hdisplay.frame'.viewScreen, hdisplay.frame'.others⟩,
        hdisplay.x, hdisplay.y, rfl, hdisplay.screen⟩⟩
  | video offset b =>
      rw [TtyOp.run] at hs ⊢
      split at hs
      · obtain rfl := Option.some.inj hs
        rw [if_pos ‹_›]
        exact ⟨_, rfl, h.withDisplay (h.display.poke offset b)⟩
      · exact absurd hs (by simp)

end Twins

end CustomLinuxOs
