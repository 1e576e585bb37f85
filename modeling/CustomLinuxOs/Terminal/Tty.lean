import CustomLinuxOs.Terminal.Display

/-!
The input half of `tty.c`, and the screens of `screen.c`.

* `Screen`, `Tty`: `screen_t` and the static variables of `tty.c`.
* `saveData`, `loadData`, `changeProcessScreen`, `changeViewScreen`: switching screens.
* `ttySendchar`: a key press.  Tab completion, which sends characters itself, is a parameter.
* `historyNew`, `shiftBuffer`, `ttyRead`: taking a line out of the input buffer; `none` where the
  source keeps spinning for a line.

`InputSide` is the part that the input buffer consists of; the last section says which functions
leave it alone.
-/

namespace CustomLinuxOs

def MAX_TERMINAL_BUF_SIZE : ℕ := 128
def MAX_TERMINAL_HIST_LEN : ℤ := 32
def MAX_SCREENS : ℤ := 3
def STDIN : ℤ := 0
def STDOUT : ℤ := 1
def VIDEO_MEMORY_SIZE : ℤ := 4000

/-! ### State -/

/-- `screen_t`, with arrays that do not run into each other.  That is right as long as indices are
below `MAX_TERMINAL_BUF_SIZE` in a line and below `MAX_TERMINAL_HIST_LEN` among the lines: until
`tty_read` takes a line from an empty buffer (`Simulates.run`).  `RawTty` has the screens as they
lie in memory. -/
structure Screen where
  screenX : ℤ
  screenY : ℤ
  widthBuffer : ℕ → UInt8
  ready : Bool
  tabLs : Bool
  attrib : UInt8
  /-- the input lines, by slot and position -/
  inputHistory : ℤ → ℕ → UInt8
  sizeHistory : ℤ → UInt8
  historyStart : ℤ
  historyEnd : ℤ
  historyCurr : ℤ

/-- The variables of `tty.c` and `screen.c`. -/
structure Tty where
  display : Display
  screens : ℤ → Screen
  /-- screen and slot of the line `input_buffer` points to -/
  inputBuffer : ℤ × ℤ
  /-- the screen whose `width_buffer` the static variable points to -/
  widthBuffer : ℤ
  bufferSize : UInt8
  ready : Bool
  tabLs : Bool
  historyStart : ℤ
  historyEnd : ℤ
  historyCurr : ℤ

namespace Tty

/-- `process_screen`. -/
def processScreen (s : Tty) : ℤ := s.display.processScreen

/-- Writing to one field of one screen. -/
def modifyScreen (s : Tty) (n : ℤ) (f : Screen → Screen) : Tty :=
  { s with screens := Function.update s.screens n (f (s.screens n)) }

/-- `input_buffer[i]`. -/
def input (s : Tty) (i : ℕ) : UInt8 :=
  (s.screens s.inputBuffer.1).inputHistory s.inputBuffer.2 i

/-- `input_buffer[i] = c`. -/
def setInput (s : Tty) (i : ℕ) (c : UInt8) : Tty :=
  s.modifyScreen s.inputBuffer.1 fun n =>
    { n with
      inputHistory := Function.update n.inputHistory s.inputBuffer.2
        (Function.update (n.inputHistory s.inputBuffer.2) i c) }

/-- `width_buffer[i] = w`. -/
def setWidth (s : Tty) (i : ℕ) (w : UInt8) : Tty :=
  s.modifyScreen s.widthBuffer fun n =>
    { n with widthBuffer := Function.update n.widthBuffer i w }

/-- `screens[process_screen].size_history[k] = n`. -/
def setSizeHistory (s : Tty) (k : ℤ) (n : UInt8) : Tty :=
  s.modifyScreen s.processScreen fun m =>
    { m with sizeHistory := Function.update m.sizeHistory k n }

/-- `input_buffer = screens[process_screen].input_history[history_curr]`, with its size. -/
def loadLine (s : Tty) : Tty :=
  { s with
    inputBuffer := (s.processScreen, s.historyCurr)
    bufferSize := (s.screens s.processScreen).sizeHistory s.historyCurr }

end Tty

/-! ### Screens -/

/-- `save_data`. -/
def saveData (s : Tty) : Tty :=
  s.modifyScreen s.processScreen fun n =>
    { n with
      screenX := s.display.screenX
      screenY := s.display.screenY
      ready := s.ready
      tabLs := s.tabLs
      historyStart := s.historyStart
      historyEnd := s.historyEnd
      historyCurr := s.historyCurr
      sizeHistory := Function.update n.sizeHistory s.historyCurr s.bufferSize
      attrib := s.display.attrib }

/-- `load_data`. -/
def loadData (s : Tty) : Tty :=
  let n := s.screens s.processScreen
  { s with
    historyStart := n.historyStart
    historyEnd := n.historyEnd
    historyCurr := n.historyCurr
    inputBuffer := (s.processScreen, n.historyCurr)
    widthBuffer := s.processScreen
    bufferSize := n.sizeHistory n.historyCurr
    ready := n.ready
    tabLs := n.tabLs
    display :=
      { s.display with screenX := n.screenX, screenY := n.screenY, attrib := n.attrib } }

/-- `tty_init`. -/
def ttyInit (s : Tty) : Tty :=
  loadData { s with
    screens := fun i =>
      if 0 ≤ i ∧ i < MAX_SCREENS then { s.screens i with attrib := 0x5 } else s.screens i }

/-- A `screen_t` in zeroed memory. -/
def Screen.zero : Screen where
  screenX := 0
  screenY := 0
  widthBuffer := fun _ => 0
  ready := false
  tabLs := false
  attrib := 0
  inputHistory := fun _ _ => 0
  sizeHistory := fun _ => 0
  historyStart := 0
  historyEnd := 0
  historyCurr := 0

/-- The terminal at power-on. -/
def Tty.boot : Tty where
  display :=
    { pages := fun _ _ => 0
      videoPage := VIDEO_MEM_PAGE_INDEX
      vidmapPage := VIDEO_MEM_PAGE_INDEX
      screenX := 0
      screenY := 0
      attrib := 0x5
      processScreen := 0
      viewScreen := 0
      cursor := 0 }
  screens := fun _ => Screen.zero
  inputBuffer := (0, 0)
  widthBuffer := 0
  bufferSize := 0
  ready := false
  tabLs := false
  historyStart := 0
  historyEnd := 0
  historyCurr := 0

/-- The page of the backup of screen `n`. -/
def backupPage (n : ℤ) : ℤ := 0x2000 + n

/-- `change_process_screen`. -/
def changeProcessScreen (s : Tty) (n : ℤ) : Tty :=
  if n < 0 ∨ n ≥ MAX_SCREENS then s
  else
    let s := saveData s
    let page := if n = s.display.viewScreen then VIDEO_MEM_PAGE_INDEX else backupPage n
    loadData { s with
      display := { s.display with videoPage := page, vidmapPage := page, processScreen := n } }

/-- `memcpy` of a screen from one page to another. -/
def copyScreen (d : Display) (dest src : ℤ) : Display :=
  { d with
    pages := Function.update d.pages dest fun o =>
      if 0 ≤ o ∧ o < VIDEO_MEMORY_SIZE then d.pages src o else d.pages dest o }

/-- `change_view_screen`.  The vidmap is enabled around the copying, which the model need not show:
the pages can be read at any time. -/
def changeViewScreen (s : Tty) (n : ℤ) : Tty :=
  if n < 0 ∨ n ≥ MAX_SCREENS then s
  else if n = s.display.viewScreen then s
  else
    let d := { s.display with videoPage := VIDEO_MEM_PAGE_INDEX }
    let d := { d with vidmapPage := backupPage d.viewScreen }
    let d := copyScreen d d.vidmapPage d.videoPage
    let d := { d with vidmapPage := backupPage n }
    let d := copyScreen d d.videoPage d.vidmapPage
    let s := changeProcessScreen { s with display := { d with viewScreen := n } } d.processScreen
    let v := s.screens s.display.viewScreen
    { s with display := setCursor s.display v.screenX v.screenY }

/-! ### Keys -/

/-- The loop that writes the input buffer to the screen, from position `i` on with `n` to go; in
`tty_read` it ends with the first newline. -/
def echoBuffer (untilNewline : Bool) : ℕ → ℕ → Tty → Tty
  | 0, _, s => s
  | n + 1, i, s =>
      let r := ttyEchoNocursor s.display (s.input i)
      let t := ({ s with display := r.2 }).setWidth i r.1
      if untilNewline && s.input i == NEWLINE then t else echoBuffer untilNewline n (i + 1) t

/-- `PROMPT_SIZE`. -/
def PROMPT_SIZE : ℕ := 7

/-- The characters of the prompt of the shell. -/
def prompt : List UInt8 := [0x33, 0x39, 0x31, 0x4f, 0x53, 0x3e, 0x20]

/-- `check_shell`: whether the prompt stands before the input on the screen. -/
def checkShell (s : Tty) : Bool :=
  let start := (List.range s.bufferSize.toNat).foldl
    (fun (p : ℤ × ℤ) i =>
      let x := p.1 - ((s.screens s.widthBuffer).widthBuffer i).toNat
      if x < 0 then (x + NUM_COLS, p.2 - 1) else (x, p.2))
    (s.display.screenX - PROMPT_SIZE, s.display.screenY)
  if start.2 < 0 then false
  else (List.range PROMPT_SIZE).all fun i =>
    s.display.peek (2 * (NUM_COLS * start.2 + start.1 + i)) == prompt.getD i 0

/-- `tty_cls`. -/
def ttyCls (s : Tty) : Tty :=
  let inShell := checkShell s
  let d := s.display
  let d := { d with
    pages := Function.update d.pages d.videoPage fun o =>
      if 0 ≤ o ∧ o < 2 * (NUM_ROWS * NUM_COLS) then
        if o % 2 = 0 then SPACE else d.attrib
      else d.peek o
    screenX := 0
    screenY := 0 }
  let d := if inShell then ttyPutBytes d prompt else d
  let s := echoBuffer false s.bufferSize.toNat 0 { s with display := d }
  { s with display := setCursorDefault s.display }

/-- The loop of `tty_backspace`: one cell back at a time, and blank. -/
def eraseCells : ℕ → Display → Display
  | 0, d => d
  | n + 1, d =>
      let d : Display := { d with screenX := d.screenX - 1 }
      let d : Display := if d.screenX < 0 then
        { d with screenX := d.screenX + NUM_COLS, screenY := d.screenY - 1 } else d
      let o := 2 * (NUM_COLS * d.screenY + d.screenX)
      eraseCells n ((d.poke o SPACE).poke (o + 1) d.attrib)

/-- `tty_backspace`. -/
def ttyBackspace (s : Tty) : Tty :=
  if s.bufferSize > 0 then
    if s.display.screenX = 0 ∧ s.display.screenY = 0 then s
    else
      let size := s.bufferSize - 1
      let width := (s.screens s.widthBuffer).widthBuffer size.toNat
      { s with
        bufferSize := size
        display := setCursorDefault (eraseCells width.toNat s.display)
        tabLs := false }
  else { s with tabLs := false }

/-- The default branch of `tty_sendchar`: a character for the input buffer. -/
def enterChar (s : Tty) (c : UInt8) : Tty :=
  if s.bufferSize.toNat < MAX_TERMINAL_BUF_SIZE - 1 then
    let s := s.setInput s.bufferSize.toNat c
    let r := ttyEcho s.display c
    let s := ({ s with display := r.2 }).setWidth s.bufferSize.toNat r.1
    { s with
      bufferSize := s.bufferSize + 1
      ready := if c = NEWLINE then true else s.ready }
  else if s.bufferSize.toNat = MAX_TERMINAL_BUF_SIZE - 1 then
    if c = NEWLINE then
      let s := { s with display := (ttyEcho s.display c).2 }
      let s := s.setInput s.bufferSize.toNat c
      { s with bufferSize := s.bufferSize + 1, ready := true }
    else s
  else s

/-- `tty_sendchar`. -/
def ttySendchar (tabComplete : Tty → Tty) (s : Tty) (c : UInt8) : Tty :=
  if c = 0x0c then { ttyCls s with tabLs := false }
  else if c = TAB then tabComplete s
  else if c = 255 then s
  else { enterChar s c with tabLs := false }

/-- `tty_write`. -/
def ttyWrite (s : Tty) (fd : ℤ) (buf : Option (List UInt8)) (nbytes : ℤ) : ℤ × Tty :=
  if fd = STDIN then (-1, s)
  else match buf with
  | none => (-1, s)
  | some bytes =>
      (max nbytes 0, { s with display := ttyPutBytes s.display (bytes.take nbytes.toNat) })

/-! ### Reading a line -/

/-- `strncpy`: the bytes of `src` up to its first NUL, and NULs up to `n`. -/
def strncpy (dest src : ℕ → UInt8) (n : ℕ) : ℕ → UInt8 := fun i =>
  if i < n then if ∀ k < i + 1, src k ≠ 0 then src i else 0 else dest i

/-- `strncpy(screens[process_screen].input_history[k], input_buffer, MAX_TERMINAL_BUF_SIZE)`. -/
def copyLine (s : Tty) (k : ℤ) : Tty :=
  s.modifyScreen s.processScreen fun n =>
    { n with
      inputHistory := Function.update n.inputHistory k
        (strncpy (n.inputHistory k) s.input MAX_TERMINAL_BUF_SIZE) }

/-- The end of the history moves on by a slot, and pushes the start along if it meets it. -/
def moveHistoryEnd (s : Tty) : Tty :=
  let s := { s with historyEnd := s.historyEnd + 1 }
  let s := if s.historyEnd = MAX_TERMINAL_HIST_LEN then { s with historyEnd := 0 } else s
  if s.historyEnd = s.historyStart then { s with historyStart := s.historyStart + 1 } else s

/-- `if (history_curr + 1 != history_end)` of `history_new`. -/
def advanceHistory (s : Tty) : Tty :=
  if s.historyCurr + 1 ≠ s.historyEnd then
    let s := if s.historyEnd ≠ s.historyCurr then copyLine s s.historyEnd else s
    moveHistoryEnd (s.setSizeHistory s.historyEnd (s.bufferSize - 1))
  else s

/-- `history_new`. -/
def historyNew (s : Tty) : Tty :=
  let s := s.setSizeHistory s.historyCurr (s.bufferSize - 1)
  let s := advanceHistory s
  let s := if s.historyEnd ≠ s.historyCurr then copyLine s s.historyEnd else s
  { s with historyCurr := s.historyEnd }.loadLine

/-- The loop of `shift_buffer`: `n` bytes from position `i` on go to `j` and on. -/
def shiftLoop : ℕ → ℕ → ℕ → Tty → Tty
  | 0, _, _, s => s
  | n + 1, i, j, s =>
      let c := s.input i
      let s := s.setInput j c
      shiftLoop n (i + 1) (j + 1) { s with ready := if c = NEWLINE then true else s.ready }

/-- `shift_buffer`. -/
def shiftBuffer (s : Tty) (i : ℕ) : Tty :=
  let n := s.bufferSize.toNat - i
  let s := shiftLoop n i 0 { s with ready := false }
  let s := { s with bufferSize := n.toUInt8 }
  s.setSizeHistory s.historyCurr s.bufferSize

/-- The copying loop of `tty_read`, with `n` bytes in the buffer from `i` on: it ends after
`nbytes` bytes or after a newline. -/
def readLoop (s : Tty) (nbytes : ℤ) : ℕ → ℕ → List UInt8
  | 0, _ => []
  | n + 1, i =>
      if i < nbytes then
        s.input i :: if s.input i = NEWLINE then [] else readLoop s nbytes n (i + 1)
      else []

/-- The start of `tty_read`: the line so far is written to the screen. -/
def showLine (s : Tty) : Tty :=
  let s := echoBuffer true s.bufferSize.toNat 0 s
  { s with display := setCursorDefault s.display }

/-- `tty_read`: the value it returns, the bytes it writes to `buf`, and the terminal after it;
`none` while it spins for a line. -/
def ttyRead (s : Tty) (fd : ℤ) (buf : UInt32) (nbytes : ℤ) : Option (ℤ × List UInt8 × Tty) :=
  if fd = STDOUT then some (-1, [], s)
  else if buf = 0 then some (-1, [], s)
  else
    let s := showLine s
    if s.ready then
      let bytes := readLoop s nbytes s.bufferSize.toNat 0
      some (bytes.length, bytes, shiftBuffer (historyNew s) bytes.length)
    else none

/-! ### What leaves the input buffer alone -/

/-- The part of a terminal that its input lines consist of. -/
structure InputSide where
  processScreen : ℤ
  inputHistory : ℤ → ℤ → ℕ → UInt8
  sizeHistory : ℤ → ℤ → UInt8
  inputBuffer : ℤ × ℤ
  bufferSize : UInt8
  ready : Bool
  historyStart : ℤ
  historyEnd : ℤ
  historyCurr : ℤ

/-- The input lines of a terminal. -/
def Tty.inputSide (s : Tty) : InputSide where
  processScreen := s.processScreen
  inputHistory := fun n => (s.screens n).inputHistory
  sizeHistory := fun n => (s.screens n).sizeHistory
  inputBuffer := s.inputBuffer
  bufferSize := s.bufferSize
  ready := s.ready
  historyStart := s.historyStart
  historyEnd := s.historyEnd
  historyCurr := s.historyCurr

/-- `input_buffer[i]`, on the input side. -/
def InputSide.input (v : InputSide) (i : ℕ) : UInt8 :=
  v.inputHistory v.inputBuffer.1 v.inputBuffer.2 i

/-- `input_buffer[i] = c`, on the input side. -/
def InputSide.setInput (v : InputSide) (i : ℕ) (c : UInt8) : InputSide :=
  { v with
    inputHistory := Function.update v.inputHistory v.inputBuffer.1
      (Function.update (v.inputHistory v.inputBuffer.1) v.inputBuffer.2
        (Function.update (v.inputHistory v.inputBuffer.1 v.inputBuffer.2) i c)) }

lemma InputSide.setInput_input (v : InputSide) (i k : ℕ) (c : UInt8) :
    (v.setInput i c).input k = if k = i then c else v.input k := by
  simp only [input, setInput, Function.update_self]
  by_cases hk : k = i
  · rw [if_pos hk, hk, Function.update_self]
  · rw [if_neg hk, Function.update_of_ne hk]

namespace Tty

variable (s : Tty)

/-- Output on a display with the same screens does not concern the input lines. -/
lemma withDisplay_inputSide {d : Display} (hd : d.setup = s.display.setup) :
    ({ s with display := d } : Tty).inputSide = s.inputSide := by
  have hscreen : d.processScreen = s.display.processScreen :=
    congrArg Display.Setup.processScreen hd
  rw [inputSide, inputSide, processScreen, hscreen]
  rfl

lemma setWidth_inputSide (i : ℕ) (w : UInt8) : (s.setWidth i w).inputSide = s.inputSide := by
  have hscreen : ∀ n, ((s.setWidth i w).screens n).inputHistory = (s.screens n).inputHistory
      ∧ ((s.setWidth i w).screens n).sizeHistory = (s.screens n).sizeHistory := by
    intro n
    by_cases hn : n = s.widthBuffer
    · subst hn
      simp [setWidth, modifyScreen]
    · simp [setWidth, modifyScreen, hn]
  rw [inputSide, funext fun n => (hscreen n).1, funext fun n => (hscreen n).2]
  rfl

/-- Echoing the input buffer changes the screen and the widths only. -/
lemma echoBuffer_inputSide (untilNewline : Bool) (n i : ℕ) :
    (echoBuffer untilNewline n i s).inputSide = s.inputSide := by
  induction n generalizing i s with
  | zero => rfl
  | succ n ih =>
      have hstep : (({ s with
          display := (ttyEchoNocursor s.display (s.input i)).2 } : Tty).setWidth i
            (ttyEchoNocursor s.display (s.input i)).1).inputSide = s.inputSide := by
        rw [setWidth_inputSide, withDisplay_inputSide _ (ttyEchoNocursor_setup _ _)]
      simp only [echoBuffer]
      split
      · exact hstep
      · rw [ih, hstep]

lemma showLine_inputSide : (showLine s).inputSide = s.inputSide := by
  rw [showLine, withDisplay_inputSide _ (setCursorDefault_setup _), echoBuffer_inputSide]

lemma setInput_inputSide (i : ℕ) (c : UInt8) :
    (s.setInput i c).inputSide = s.inputSide.setInput i c := by
  have hscreen : ∀ n, ((s.setInput i c).screens n).inputHistory
        = Function.update (fun m => (s.screens m).inputHistory) s.inputBuffer.1
            (Function.update (s.screens s.inputBuffer.1).inputHistory s.inputBuffer.2
              (Function.update ((s.screens s.inputBuffer.1).inputHistory s.inputBuffer.2) i c)) n
      ∧ ((s.setInput i c).screens n).sizeHistory = (s.screens n).sizeHistory := by
    intro n
    by_cases hn : n = s.inputBuffer.1
    · subst hn
      simp [setInput, modifyScreen]
    · simp [setInput, modifyScreen, hn]
  rw [inputSide, funext fun n => (hscreen n).1, funext fun n => (hscreen n).2]
  rfl

lemma input_eq (i : ℕ) : s.input i = s.inputSide.input i := rfl

end Tty

end CustomLinuxOs
