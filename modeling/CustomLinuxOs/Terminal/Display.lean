import Mathlib.Tactic

/-!
The output half of `tty.c`: characters go to the video page that the kernel has mapped at
`VIDEO`, and move the logical cursor.

* `Display`: the physical video pages, where `VIDEO` and the user's vidmap point to, and the
  cursor.
* `ttyPutcNocursor`: one character, with its width.  `caret` is the static variable of that name,
  which is set only inside `tty_echo` and `tty_echo_nocursor`.  The calls it makes to itself
  are all for printable characters, `putPrintable`.
* `ttyPutc`, `ttyEcho`, `ttyEchoNocursor`, `ttyPutBytes`: the variants that echo control
  characters, set the hardware cursor, or take many characters.

Video memory is addressed by byte offsets from `video_mem`; they are integers since nothing in
the code keeps them inside the screen.
-/

namespace CustomLinuxOs

def NUM_COLS : ℤ := 80
def NUM_ROWS : ℤ := 25
def TAB_WIDTH : ℤ := 8
def CARET : UInt8 := 0x40

/-- `'\n'`. -/
def NEWLINE : UInt8 := 0x0a

/-- `'\r'`. -/
def RETURN : UInt8 := 0x0d

/-- `'\t'`. -/
def TAB : UInt8 := 0x09

/-- `' '`. -/
def SPACE : UInt8 := 0x20

/-- `VIDEO_MEM_PAGE_INDEX`, the page of the real video memory. -/
def VIDEO_MEM_PAGE_INDEX : ℤ := 0xB8

/-- What is on the screens and where on it output goes. -/
structure Display where
  /-- physical 4 kB pages, by page number and byte offset -/
  pages : ℤ → ℤ → UInt8
  /-- `page_base_addr` of the page table entry for `VIDEO` -/
  videoPage : ℤ
  /-- `page_base_addr` of the page table entry for the vidmap -/
  vidmapPage : ℤ
  screenX : ℤ
  screenY : ℤ
  attrib : UInt8
  processScreen : ℤ
  viewScreen : ℤ
  /-- the cursor location register of the video controller -/
  cursor : UInt16

/-- Reading through `video_mem`. -/
def Display.peek (d : Display) (offset : ℤ) : UInt8 := d.pages d.videoPage offset

/-- Writing through `video_mem`. -/
def Display.poke (d : Display) (offset : ℤ) (b : UInt8) : Display :=
  { d with
    pages := Function.update d.pages d.videoPage
      (Function.update (d.pages d.videoPage) offset b) }

/-- `is_printable`. -/
def isPrintable (c : UInt8) : Bool :=
  c == NEWLINE || c == RETURN || c == TAB || (0x20 ≤ c && c ≤ 0x7e)

/-! ### Cursor and scrolling -/

/-- `set_cursor`. -/
def setCursor (d : Display) (x y : ℤ) : Display :=
  { d with cursor := UInt16.ofNat ((NUM_COLS * y + x) % 65536).toNat }

/-- `set_cursor_default`. -/
def setCursorDefault (d : Display) : Display :=
  if d.processScreen = d.viewScreen then setCursor d d.screenX d.screenY else d

/-- `scroll`.  The copy runs upwards through the page and reads a row ahead of where it writes,
so every cell gets what was below it; the last row is cleared. -/
def scroll (d : Display) : Display :=
  { d with
    pages := Function.update d.pages d.videoPage fun o =>
      if 0 ≤ o ∧ o < 2 * ((NUM_ROWS - 1) * NUM_COLS) then d.peek (o + 2 * NUM_COLS)
      else if 0 ≤ o ∧ o < 2 * (NUM_ROWS * NUM_COLS) then
        if o % 2 = 0 then SPACE else d.attrib
      else d.peek o }

/-! ### One character -/

/-- A character in the cell under the cursor, in the current attribute; the cursor moves on and
wraps at the end of its row. -/
def putCell (d : Display) (c : UInt8) : Display :=
  let o := 2 * (NUM_COLS * d.screenY + d.screenX)
  let d := (d.poke o c).poke (o + 1) d.attrib
  let d := { d with screenX := d.screenX + 1 }
  if d.screenX = NUM_COLS then { d with screenX := 0, screenY := d.screenY + 1 } else d

/-- The end of `tty_putc_nocursor`: scroll down when the cursor is off the bottom. -/
def scrollIfOff (d : Display) : Display :=
  if d.screenY = NUM_ROWS then
    let d := scroll d
    { d with screenY := d.screenY - 1 }
  else d

/-- `tty_putc_nocursor` of a character that fills a cell. -/
def putVisible (d : Display) (c : UInt8) : Display := scrollIfOff (putCell d c)

/-- The loop of a tab: spaces until the column is a multiple of `TAB_WIDTH`.  Of `TAB_WIDTH`
columns in a row one is, so the bound on the passes is never met. -/
def tabLoop : ℕ → UInt8 → Display → UInt8 × Display
  | 0, n, d => (n, d)
  | k + 1, n, d =>
      if d.screenX.tmod TAB_WIDTH ≠ 0 then tabLoop k (n + 1) (putVisible d SPACE) else (n, d)

/-- `tty_putc_nocursor` of a printable character. -/
def putPrintable (caret : Bool) (d : Display) (c : UInt8) : UInt8 × Display :=
  let width := UInt8.ofNat ((NUM_COLS - d.screenX) % 256).toNat
  let r : UInt8 × Display :=
    if c = NEWLINE then (width, { d with screenY := d.screenY + 1, screenX := 0 })
    else if c = RETURN then
      (width, { d with screenX := 0, screenY := if caret then d.screenY + 1 else d.screenY })
    else if c = TAB then tabLoop 8 1 (putVisible d SPACE)
    else (1, putCell d c)
  (r.1, scrollIfOff r.2)

/-- `tty_putc_nocursor`: the width of the character, and the display after it. -/
def ttyPutcNocursor (caret : Bool) (d : Display) (c : UInt8) : UInt8 × Display :=
  if isPrintable c then putPrintable caret d c
  else if caret && isPrintable (c ^^^ CARET) then
    (2, scrollIfOff (putPrintable caret (putPrintable caret d 0x5e).2 (c ^^^ CARET)).2)
  else if !caret && c != 0 then (1, scrollIfOff (putCell d c))
  else (0, scrollIfOff d)

/-- `tty_putc`. -/
def ttyPutc (caret : Bool) (d : Display) (c : UInt8) : UInt8 × Display :=
  let r := ttyPutcNocursor caret d c
  (r.1, setCursorDefault r.2)

/-- `tty_echo`. -/
def ttyEcho (d : Display) (c : UInt8) : UInt8 × Display := ttyPutc true d c

/-- `tty_echo_nocursor`. -/
def ttyEchoNocursor (d : Display) (c : UInt8) : UInt8 × Display := ttyPutcNocursor true d c

/-- The loop of `tty_puts` and `tty_write`, and the cursor after it. -/
def ttyPutBytes (d : Display) (bytes : List UInt8) : Display :=
  setCursorDefault (bytes.foldl (fun d c => (ttyPutcNocursor false d c).2) d)

/-! ### What output leaves alone -/

/-- The part of a display that output does not change. -/
structure Display.Setup where
  videoPage : ℤ
  vidmapPage : ℤ
  attrib : UInt8
  processScreen : ℤ
  viewScreen : ℤ

/-- The mappings, the attribute and the two screens. -/
def Display.setup (d : Display) : Display.Setup where
  videoPage := d.videoPage
  vidmapPage := d.vidmapPage
  attrib := d.attrib
  processScreen := d.processScreen
  viewScreen := d.viewScreen

@[simp] lemma setCursorDefault_setup (d : Display) : (setCursorDefault d).setup = d.setup := by
  rw [setCursorDefault]
  split <;> rfl

@[simp] lemma putCell_setup (d : Display) (c : UInt8) : (putCell d c).setup = d.setup := by
  simp only [putCell]
  split <;> rfl

@[simp] lemma scrollIfOff_setup (d : Display) : (scrollIfOff d).setup = d.setup := by
  rw [scrollIfOff]
  split <;> rfl

@[simp] lemma putVisible_setup (d : Display) (c : UInt8) : (putVisible d c).setup = d.setup := by
  rw [putVisible, scrollIfOff_setup, putCell_setup]

lemma tabLoop_setup (k : ℕ) (n : UInt8) (d : Display) : (tabLoop k n d).2.setup = d.setup := by
  induction k generalizing n d with
  | zero => rfl
  | succ k ih =>
      rw [tabLoop]
      split
      · rw [ih, putVisible_setup]
      · rfl

@[simp] lemma putPrintable_setup (caret : Bool) (d : Display) (c : UInt8) :
    (putPrintable caret d c).2.setup = d.setup := by
  simp only [putPrintable, scrollIfOff_setup]
  split_ifs
  · rfl
  · rfl
  · rfl
  · rw [tabLoop_setup, putVisible_setup]
  · rw [putCell_setup]

/-- **Output** moves the cursor and fills cells, and leaves the rest of the display alone. -/
@[simp] theorem ttyPutcNocursor_setup (caret : Bool) (d : Display) (c : UInt8) :
    (ttyPutcNocursor caret d c).2.setup = d.setup := by
  simp only [ttyPutcNocursor]
  split_ifs <;> simp only [putPrintable_setup, scrollIfOff_setup, putCell_setup]

@[simp] lemma ttyEcho_setup (d : Display) (c : UInt8) : (ttyEcho d c).2.setup = d.setup := by
  simp only [ttyEcho, ttyPutc, setCursorDefault_setup, ttyPutcNocursor_setup]

@[simp] lemma ttyEchoNocursor_setup (d : Display) (c : UInt8) :
    (ttyEchoNocursor d c).2.setup = d.setup := ttyPutcNocursor_setup true d c

end CustomLinuxOs
