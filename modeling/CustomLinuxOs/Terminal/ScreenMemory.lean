import CustomLinuxOs.Terminal.Cursor

/-!
The screens as they lie in memory.  `screens` is an array of `screen_t`, and the arrays in a
`screen_t` stand side by side, so that an index past the end of one leads into the next one, and
from the last one into the next screen.

* `readScreen`: the fields of `screens[n]`, read from memory wherever the indices lead.
* `RawTty`: the variables of `tty.c` and `screen.c` with the bytes from `screens` on, and
  `RawTty.view`, what is read of them.
* The functions of `tty.c` and `screen.c` on these bytes.  Those that write to no screen are the
  functions of the view (`Tty.inMemory`).
* `RawTty.run`: the operations on the terminal of the process screen.

A line is longer than its slot once `history_new` has saved the size 0 - 1 = 255 of an empty line.
What stands behind the last screen is memory of other variables, which is not modelled.
-/

namespace CustomLinuxOs

/-! ### Layout -/

/-- Bytes by address, from `screens` on. -/
abbrev Memory := ℤ → UInt8

/-- `&screens[n]`; `sizeof(screen_t)` is 4280, with a byte of padding before `history_start`. -/
def screenAddr (n : ℤ) : ℤ := 4280 * n

/-- `&screens[n].width_buffer[i]`. -/
def widthAddr (n : ℤ) (i : ℕ) : ℤ := screenAddr n + 8 + i

/-- `&screens[n].input_history[k][i]`. -/
def inputAddr (n k : ℤ) (i : ℕ) : ℤ := screenAddr n + 139 + 128 * k + i

/-- `&screens[n].size_history[k]`. -/
def sizeAddr (n k : ℤ) : ℤ := screenAddr n + 4235 + k

/-- The bytes of an `int`, the lowest first. -/
def intByte (v : ℤ) (i : ℕ) : UInt8 := UInt8.ofNat (v / 256 ^ i % 256).toNat

/-- The number that four bytes make up. -/
def readWord (mem : Memory) (a : ℤ) : ℤ :=
  (mem a).toNat + 256 * (mem (a + 1)).toNat + 65536 * (mem (a + 2)).toNat
    + 16777216 * (mem (a + 3)).toNat

/-- An `int` in memory, in two's complement: the highest bit is the sign. -/
def readInt (mem : Memory) (a : ℤ) : ℤ :=
  if mem (a + 3) < 0x80 then readWord mem a else readWord mem a - 4294967296

/-- Writing a byte. -/
def writeByte (mem : Memory) (a : ℤ) (b : UInt8) : Memory := fun x => if x = a then b else mem x

/-- Writing an `int`. -/
def writeInt (mem : Memory) (a v : ℤ) : Memory := fun x =>
  if a ≤ x ∧ x < a + 4 then intByte v (x - a).toNat else mem x

/-- The values of an `int`. -/
def FitsInt (v : ℤ) : Prop := -2147483648 ≤ v ∧ v < 2147483648

instance (v : ℤ) : Decidable (FitsInt v) := inferInstanceAs (Decidable (_ ∧ _))

lemma writeByte_self (mem : Memory) (a : ℤ) (b : UInt8) : writeByte mem a b a = b := if_pos rfl

lemma writeByte_of_ne (mem : Memory) {a x : ℤ} (b : UInt8) (hx : x ≠ a) :
    writeByte mem a b x = mem x := if_neg hx

lemma intByte_toNat (v : ℤ) (i : ℕ) : ((intByte v i).toNat : ℤ) = v / 256 ^ i % 256 := by
  have hlo : 0 ≤ v / 256 ^ i % 256 := Int.emod_nonneg _ (by decide)
  have hhi : v / 256 ^ i % 256 < 256 := Int.emod_lt_of_pos _ (by decide)
  rw [intByte, UInt8.toNat_ofNat', Nat.mod_eq_of_lt (by omega), Int.toNat_of_nonneg hlo]

lemma writeInt_apply (mem : Memory) (a v : ℤ) (i : ℕ) (hi : i < 4) :
    writeInt mem a v (a + i) = intByte v i := by
  rw [writeInt, if_pos (by omega), add_sub_cancel_left, Int.toNat_natCast]

lemma writeInt_of_off (mem : Memory) {a v x : ℤ} (hx : x < a ∨ a + 4 ≤ x) :
    writeInt mem a v x = mem x := if_neg (by omega)

/-- An `int` is read as it was written. -/
lemma readInt_eq {mem : Memory} {a v : ℤ} (hv : FitsInt v)
    (h : ∀ i : ℕ, i < 4 → mem (a + i) = intByte v i) : readInt mem a = v := by
  obtain ⟨hlo, hhi⟩ := hv
  have h0 := h 0 (by omega)
  have h1 := h 1 (by omega)
  have h2 := h 2 (by omega)
  have h3 := h 3 (by omega)
  push_cast at h0 h1 h2 h3
  rw [add_zero] at h0
  have hsign : intByte v 3 < 0x80 ↔ v / 256 ^ 3 % 256 < 128 := by
    rw [← intByte_toNat, UInt8.lt_iff_toNat_lt]
    exact Int.ofNat_lt.symm
  simp only [readInt, readWord, h0, h1, h2, h3, intByte_toNat, hsign]
  norm_num
  omega

lemma readInt_congr {mem mem' : Memory} {a : ℤ}
    (h : ∀ x, a ≤ x → x < a + 4 → mem' x = mem x) : readInt mem' a = readInt mem a := by
  have hword : readWord mem' a = readWord mem a := by
    rw [readWord, readWord, h a (by omega) (by omega), h (a + 1) (by omega) (by omega),
      h (a + 2) (by omega) (by omega), h (a + 3) (by omega) (by omega)]
  rw [readInt, readInt, hword, h (a + 3) (by omega) (by omega)]

/-- What the fields of `screens[n]` read. -/
def readScreen (mem : Memory) (n : ℤ) : Screen where
  screenX := readInt mem (screenAddr n)
  screenY := readInt mem (screenAddr n + 4)
  widthBuffer := fun i => mem (widthAddr n i)
  ready := mem (screenAddr n + 136) != 0
  tabLs := mem (screenAddr n + 137) != 0
  attrib := mem (screenAddr n + 138)
  inputHistory := fun k i => mem (inputAddr n k i)
  sizeHistory := fun k => mem (sizeAddr n k)
  historyStart := readInt mem (screenAddr n + 4268)
  historyEnd := readInt mem (screenAddr n + 4272)
  historyCurr := readInt mem (screenAddr n + 4276)

/-- The variables of `tty.c` and `screen.c`, with the screens in memory.  `ready` and `tab_ls` are
only tested and set to 0 or 1. -/
structure RawTty where
  display : Display
  mem : Memory
  /-- screen and slot of the line `input_buffer` points to -/
  inputBuffer : ℤ × ℤ
  /-- the screen whose `width_buffer` the static variable points to -/
  widthBuffer : ℤ
  bufferSize : UInt8
  ready : Bool
  tabLs : Bool
  historyStart : ℤ
  historyEnd : ℤ
  historyCurr : ℤ

/-- The variables of `s` other than the screens, and the screens as they are in memory. -/
def Tty.inMemory (s : Tty) (mem : Memory) : RawTty where
  display := s.display
  mem := mem
  inputBuffer := s.inputBuffer
  widthBuffer := s.widthBuffer
  bufferSize := s.bufferSize
  ready := s.ready
  tabLs := s.tabLs
  historyStart := s.historyStart
  historyEnd := s.historyEnd
  historyCurr := s.historyCurr

namespace RawTty

/-- What is read of the variables. -/
def view (m : RawTty) : Tty where
  display := m.display
  screens := readScreen m.mem
  inputBuffer := m.inputBuffer
  widthBuffer := m.widthBuffer
  bufferSize := m.bufferSize
  ready := m.ready
  tabLs := m.tabLs
  historyStart := m.historyStart
  historyEnd := m.historyEnd
  historyCurr := m.historyCurr

/-- `process_screen`. -/
def processScreen (m : RawTty) : ℤ := m.display.processScreen

/-- A byte written to memory. -/
def store (m : RawTty) (a : ℤ) (b : UInt8) : RawTty := { m with mem := writeByte m.mem a b }

/-- `input_buffer[i]`. -/
def input (m : RawTty) (i : ℕ) : UInt8 := m.mem (inputAddr m.inputBuffer.1 m.inputBuffer.2 i)

/-- `input_buffer[i] = c`. -/
def setInput (m : RawTty) (i : ℕ) (c : UInt8) : RawTty :=
  m.store (inputAddr m.inputBuffer.1 m.inputBuffer.2 i) c

/-- `width_buffer[i] = w`. -/
def setWidth (m : RawTty) (i : ℕ) (w : UInt8) : RawTty := m.store (widthAddr m.widthBuffer i) w

/-- `screens[process_screen].size_history[k] = n`. -/
def setSizeHistory (m : RawTty) (k : ℤ) (n : UInt8) : RawTty :=
  m.store (sizeAddr m.processScreen k) n

/-- `input_buffer = screens[process_screen].input_history[history_curr]`, with its size. -/
def loadLine (m : RawTty) : RawTty :=
  { m with
    inputBuffer := (m.processScreen, m.historyCurr)
    bufferSize := m.mem (sizeAddr m.processScreen m.historyCurr) }

/-! ### Screens -/

/-- Memory after `save_data`. -/
def savedMem (m : RawTty) : Memory :=
  let a := screenAddr m.processScreen
  let mem := writeInt m.mem a m.display.screenX
  let mem := writeInt mem (a + 4) m.display.screenY
  let mem := writeByte mem (a + 136) m.ready.toUInt8
  let mem := writeByte mem (a + 137) m.tabLs.toUInt8
  let mem := writeInt mem (a + 4268) m.historyStart
  let mem := writeInt mem (a + 4272) m.historyEnd
  let mem := writeInt mem (a + 4276) m.historyCurr
  let mem := writeByte mem (sizeAddr m.processScreen m.historyCurr) m.bufferSize
  writeByte mem (a + 138) m.display.attrib

/-- `save_data`; an `int` that has run over is undefined. -/
def saveData (m : RawTty) : Option RawTty :=
  if FitsInt m.display.screenX ∧ FitsInt m.display.screenY ∧ FitsInt m.historyStart
      ∧ FitsInt m.historyEnd ∧ FitsInt m.historyCurr then
    some { m with mem := m.savedMem }
  else none

/-- `load_data`. -/
def loadData (m : RawTty) : RawTty := (CustomLinuxOs.loadData m.view).inMemory m.mem

/-- `tty_init`. -/
def ttyInit (m : RawTty) : RawTty :=
  ((m.store (screenAddr 0 + 138) 0x5).store (screenAddr 1 + 138) 0x5).store
    (screenAddr 2 + 138) 0x5 |>.loadData

/-- `change_process_screen`. -/
def changeProcessScreen (m : RawTty) (n : ℤ) : Option RawTty :=
  if n < 0 ∨ n ≥ MAX_SCREENS then some m
  else
    m.saveData.map fun m =>
      let page := if n = m.display.viewScreen then VIDEO_MEM_PAGE_INDEX else backupPage n
      { m with
        display := { m.display with
          videoPage := page, vidmapPage := page, processScreen := n } }.loadData

/-- `change_view_screen`. -/
def changeViewScreen (m : RawTty) (n : ℤ) : Option RawTty :=
  if n < 0 ∨ n ≥ MAX_SCREENS then some m
  else if n = m.display.viewScreen then some m
  else
    let d := { m.display with videoPage := VIDEO_MEM_PAGE_INDEX }
    let d := { d with vidmapPage := backupPage d.viewScreen }
    let d := copyScreen d d.vidmapPage d.videoPage
    let d := { d with vidmapPage := backupPage n }
    let d := copyScreen d d.videoPage d.vidmapPage
    let m := { m with display := { d with viewScreen := n } }
    (changeProcessScreen m d.processScreen).map fun m =>
      let v := readScreen m.mem m.display.viewScreen
      { m with display := setCursor m.display v.screenX v.screenY }

/-! ### Keys -/

/-- The loop that writes the input buffer to the screen. -/
def echoBuffer (untilNewline : Bool) : ℕ → ℕ → RawTty → RawTty
  | 0, _, m => m
  | n + 1, i, m =>
      let r := ttyEchoNocursor m.display (m.input i)
      let t := { m with display := r.2 }.setWidth i r.1
      if untilNewline && t.input i == NEWLINE then t else echoBuffer untilNewline n (i + 1) t

/-- `rewrite`. -/
def rewrite (m : RawTty) : RawTty :=
  let m := echoBuffer false m.bufferSize.toNat 0 m
  { m with display := setCursorDefault m.display }

/-- `tty_cls`. -/
def ttyCls (m : RawTty) : RawTty :=
  let inShell := checkShell m.view
  let d := m.display
  let d := { d with
    pages := Function.update d.pages d.videoPage fun o =>
      if 0 ≤ o ∧ o < 2 * (NUM_ROWS * NUM_COLS) then
        if o % 2 = 0 then SPACE else d.attrib
      else d.peek o
    screenX := 0
    screenY := 0 }
  rewrite { m with display := if inShell then ttyPutBytes d prompt else d }

lemma ttyCls_eq (m : RawTty) : m.ttyCls = rewrite { m with
    display :=
      if checkShell m.view then ttyPutBytes (clearScreen m.display) prompt
      else clearScreen m.display } := rfl

/-- `tty_backspace`. -/
def ttyBackspace (m : RawTty) : RawTty := (CustomLinuxOs.ttyBackspace m.view).inMemory m.mem

/-- The default branch of `tty_sendchar`. -/
def enterChar (m : RawTty) (c : UInt8) : RawTty :=
  if m.bufferSize.toNat < MAX_TERMINAL_BUF_SIZE - 1 then
    let m := m.setInput m.bufferSize.toNat c
    let r := ttyEcho m.display c
    let m := { m with display := r.2 }.setWidth m.bufferSize.toNat r.1
    { m with
      bufferSize := m.bufferSize + 1
      ready := if c = NEWLINE then true else m.ready }
  else if m.bufferSize.toNat = MAX_TERMINAL_BUF_SIZE - 1 then
    if c = NEWLINE then
      let m := { m with display := (ttyEcho m.display c).2 }
      let m := m.setInput m.bufferSize.toNat c
      { m with bufferSize := m.bufferSize + 1, ready := true }
    else m
  else m

/-- `tty_sendchar`, of a character other than a tab. -/
def ttySendchar (m : RawTty) (c : UInt8) : RawTty :=
  if c = 0x0c then { ttyCls m with tabLs := false }
  else if c = 255 then m
  else { enterChar m c with tabLs := false }

/-- The line is saved and erased, and the one in slot `curr` takes its place. -/
def changeLine (m : RawTty) (curr : ℤ) : Option RawTty :=
  let m := m.setSizeHistory m.historyCurr m.bufferSize
  (eraseLine m.bufferSize.toNat m.view).map fun s =>
    rewrite { s.inMemory m.mem with historyCurr := curr }.loadLine

/-- `history_up`. -/
def historyUp (m : RawTty) : Option RawTty :=
  let m := { m with tabLs := false }
  if m.historyCurr = m.historyStart then some m
  else
    let curr := m.historyCurr - 1
    changeLine m (if curr < 0 then curr + MAX_TERMINAL_HIST_LEN else curr)

/-- `history_down`. -/
def historyDown (m : RawTty) : Option RawTty :=
  let m := { m with tabLs := false }
  if m.historyCurr = m.historyEnd then some m
  else
    let curr := m.historyCurr + 1
    changeLine m (if curr ≥ MAX_TERMINAL_HIST_LEN then curr - MAX_TERMINAL_HIST_LEN else curr)

/-- `tty_ls`. -/
def ttyLs (names : Listing) (filename : ℕ → UInt8) (n : ℕ) (m : RawTty) : RawTty :=
  let inShell := checkShell m.view
  let d := (lsBytes names filename n).foldl (fun d c => (ttyPutcNocursor false d c).2) m.display
  let d := if inShell then ttyPutBytes d prompt else d
  rewrite { m with display := d }

/-- `tab_complete`, which sends characters by `send`. -/
def tabComplete (send : RawTty → UInt8 → Option RawTty) (names : Listing) (m : RawTty) :
    Option RawTty :=
  match completion names m.view with
  | none => some m
  | some .noMatch => some { m with tabLs := false }
  | some (.ambiguous filename n) =>
      if m.tabLs then
        if shellMapped m.view then some { ttyLs names filename n m with tabLs := true } else none
      else some { m with tabLs := true }
  | some (.add bytes) => (bytes.foldlM send m).map fun m => { m with tabLs := false }

/-- `tty_sendchar`, with the depth of calls that are open at most. -/
def sendKey (names : Listing) : ℕ → RawTty → UInt8 → Option RawTty
  | 0, _, _ => none
  | depth + 1, m, c =>
      if c = TAB then tabComplete (sendKey names depth) names m
      else if c = 0x0c ∧ ¬ shellMapped m.view then none
      else some (ttySendchar m c)

/-! ### Reading a line -/

/-- `strncpy(screens[process_screen].input_history[k], input_buffer, MAX_TERMINAL_BUF_SIZE)`.  The
lines do not overlap: they are different slots. -/
def copyLine (m : RawTty) (k : ℤ) : RawTty :=
  let a := inputAddr m.processScreen k 0
  { m with
    mem := fun x =>
      if a ≤ x ∧ x < a + MAX_TERMINAL_BUF_SIZE then
        strncpy (fun i => m.mem (a + i)) m.input MAX_TERMINAL_BUF_SIZE (x - a).toNat
      else m.mem x }

/-- `if (history_curr + 1 != history_end)` of `history_new`. -/
def advanceHistory (m : RawTty) : RawTty :=
  if m.historyCurr + 1 ≠ m.historyEnd then
    let m := if m.historyEnd ≠ m.historyCurr then copyLine m m.historyEnd else m
    let m := m.setSizeHistory m.historyEnd (m.bufferSize - 1)
    (moveHistoryEnd m.view).inMemory m.mem
  else m

/-- `history_new`. -/
def historyNew (m : RawTty) : RawTty :=
  let m := m.setSizeHistory m.historyCurr (m.bufferSize - 1)
  let m := advanceHistory m
  let m := if m.historyEnd ≠ m.historyCurr then copyLine m m.historyEnd else m
  { m with historyCurr := m.historyEnd }.loadLine

/-- The loop of `shift_buffer`. -/
def shiftLoop : ℕ → ℕ → ℕ → RawTty → RawTty
  | 0, _, _, m => m
  | n + 1, i, j, m =>
      let c := m.input i
      let m := m.setInput j c
      shiftLoop n (i + 1) (j + 1) { m with ready := if c = NEWLINE then true else m.ready }

/-- `shift_buffer`. -/
def shiftBuffer (m : RawTty) (i : ℕ) : RawTty :=
  let n := m.bufferSize.toNat - i
  let m := shiftLoop n i 0 { m with ready := false }
  let m := { m with bufferSize := n.toUInt8 }
  m.setSizeHistory m.historyCurr m.bufferSize

/-- The start of `tty_read`. -/
def showLine (m : RawTty) : RawTty :=
  let m := echoBuffer true m.bufferSize.toNat 0 m
  { m with display := setCursorDefault m.display }

/-- The end of `tty_read`. -/
def takeLine (m : RawTty) (nbytes : ℤ) : Option (ℤ × List UInt8 × RawTty) :=
  if m.ready then
    let bytes := readLoop m.view nbytes m.bufferSize.toNat 0
    some (bytes.length, bytes, shiftBuffer (historyNew m) bytes.length)
  else none

/-- `tty_read`. -/
def ttyRead (m : RawTty) (fd : ℤ) (buf : UInt32) (nbytes : ℤ) :
    Option (ℤ × List UInt8 × RawTty) :=
  if fd = STDOUT then some (-1, [], m)
  else if buf = 0 then some (-1, [], m)
  else takeLine (showLine m) nbytes

/-! ### Operations -/

/-- One operation on the terminal of the current process screen. -/
def run (m : RawTty) : TtyOp → Option RawTty
  | .key c names depth => sendKey names depth m c
  | .backspace => some (ttyBackspace m)
  | .historyUp => historyUp m
  | .historyDown => historyDown m
  | .write fd buf nbytes => some ((ttyWrite m.view fd buf nbytes).2.inMemory m.mem)
  | .read fd buf nbytes => (ttyRead m fd buf nbytes).map fun r => r.2.2
  | .wait fd buf => if fd = STDOUT ∨ buf = 0 then none else some (showLine m)
  | .resume nbytes => (takeLine m nbytes).map fun r => r.2.2
  | .clearBuf => some ((ttyClearBuf m.view).inMemory m.mem)
  | .setAttrib a => some ((ttySetAttrib m.view a).2.inMemory m.mem)
  | .video offset b =>
      if 0 ≤ offset ∧ offset < VIDEO_MEMORY_SIZE then
        some { m with display := m.display.poke offset b }
      else none

/-- The terminal at power-on. -/
def boot : RawTty := Tty.boot.inMemory fun _ => 0

/-- The terminal after `tty_init`, with anything in video memory and in the backups of it. -/
def init (pages : ℤ → ℤ → UInt8) : RawTty :=
  ttyInit { boot with display := { boot.display with pages := pages } }

end RawTty

end CustomLinuxOs
