import CustomLinuxOs.Foundations.Run
import CustomLinuxOs.Terminal.Cursor
import CustomLinuxOs.Terminal.InputFifo

/-!
The cursor and video memory under keys, output and reading.

* `Display.position`: how many cells there are before the cursor.
* `eraseCells_position`: erasing goes back over as many of them as it is told to.
* `run_display`: what an operation does to the display.
* `Bounded`: the cursor is in its columns and above the bottom of the screen, and every operation
  keeps it there.
-/

namespace CustomLinuxOs

namespace Display

variable {d : Display}

/-- The number of cells before the cursor. -/
def position (d : Display) : ℤ := NUM_COLS * d.screenY + d.screenX

lemma Within.position_nonneg (h : Within 0 d) : 0 ≤ d.position := by
  obtain ⟨hleft, -, htop, -⟩ := h
  rw [position, NUM_COLS]
  omega

/-- The cell before the cursor. -/
def stepBack (d : Display) : Display :=
  if d.screenX - 1 < 0 then
    { d with screenX := d.screenX - 1 + NUM_COLS, screenY := d.screenY - 1 }
  else { d with screenX := d.screenX - 1 }

lemma eraseCells_succ (n : ℕ) (d : Display) :
    eraseCells (n + 1) d = eraseCells n (d.stepBack.fillCell SPACE) := rfl

lemma stays_stepBack (d : Display) : Stays d d.stepBack := by
  rw [stepBack]
  split
  · exact stays_cursor _ _ _
  · exact stays_cursor _ _ _

/-- The cursor stays in the columns when it steps back, and one cell less is before it. -/
lemma stepBack_cursor (hleft : 0 ≤ d.screenX) (hright : d.screenX < NUM_COLS) :
    0 ≤ d.stepBack.screenX ∧ d.stepBack.screenX < NUM_COLS
      ∧ d.stepBack.screenY ≤ d.screenY ∧ d.stepBack.position = d.position - 1 := by
  rw [NUM_COLS] at hright
  rw [stepBack, position, position]
  split
  · simp only [NUM_COLS]
    omega
  · simp only [NUM_COLS]
    omega

/-- **Erasing** goes back as many cells as it is told to. -/
lemma eraseCells_position (hleft : 0 ≤ d.screenX) (hright : d.screenX < NUM_COLS) (n : ℕ) :
    0 ≤ (eraseCells n d).screenX ∧ (eraseCells n d).screenX < NUM_COLS
      ∧ (eraseCells n d).screenY ≤ d.screenY ∧ (eraseCells n d).position = d.position - n := by
  induction n generalizing d with
  | zero => exact ⟨hleft, hright, le_rfl, by simp [eraseCells]⟩
  | succ n ih =>
      obtain ⟨hx, hx', hy, hposition⟩ := stepBack_cursor hleft hright
      have hfill : (d.stepBack.fillCell SPACE).position = d.stepBack.position := rfl
      obtain ⟨hx1, hx1', hy1, hposition1⟩ := ih (d := d.stepBack.fillCell SPACE) hx hx'
      rw [eraseCells_succ]
      refine ⟨hx1, hx1', hy1.trans hy, ?_⟩
      rw [hposition1, hfill, hposition]
      push_cast
      ring

/-- Erasing cells that are before the cursor writes to the screen only. -/
lemma stays_eraseCells (h : Within 0 d) {n : ℕ} (hn : n ≤ d.position) :
    Stays d (eraseCells n d) := by
  induction n generalizing d with
  | zero => exact Stays.refl d
  | succ n ih =>
      obtain ⟨hx, hx', hy, hposition⟩ := stepBack_cursor h.left h.right
      push_cast at hn
      have hwithin : Within 0 d.stepBack := by
        refine ⟨hx, hx', ?_, hy.trans_lt h.bottom⟩
        rw [position, NUM_COLS] at hposition
        rw [NUM_COLS] at hx'
        omega
      have hfill := stays_fillCell hwithin SPACE
      have hwithin' : Within 0 (d.stepBack.fillCell SPACE) :=
        ⟨hwithin.left, hwithin.right, hwithin.top, hwithin.bottom⟩
      rw [eraseCells_succ]
      refine ((stays_stepBack d).trans hfill).trans (ih hwithin' ?_)
      calc (n : ℤ) ≤ d.position - 1 := by omega
        _ = (d.stepBack.fillCell SPACE).position := hposition.symm

/-- After erasing, the cursor is on the screen exactly when that many cells were before it. -/
lemma within_eraseCells_iff (h : Within 0 d) (n : ℕ) :
    Within 0 (eraseCells n d) ↔ n ≤ d.position := by
  obtain ⟨hx, hx', hy, hposition⟩ := eraseCells_position h.left h.right n
  constructor
  · intro hwithin
    have := hwithin.position_nonneg
    omega
  · intro hn
    refine ⟨hx, hx', ?_, hy.trans_lt h.bottom⟩
    rw [position, NUM_COLS] at hposition
    rw [NUM_COLS] at hx'
    omega

end Display

open Display

/-! ### Operations -/

section Operations

variable {s t u : Tty}

/-- **What an operation does to the display**: unless it erases, it moves on, or it changes the
attribute or a cell. -/
lemma run_display {op : TtyOp} (hu : op.run t = some u) :
    Moves t.display u.display ∨ op = .backspace ∨ op = .historyUp ∨ op = .historyDown
      ∨ (∃ a, op = .setAttrib a ∧ u.display = { t.display with attrib := a })
      ∨ ∃ offset b, op = .video offset b ∧ (0 ≤ offset ∧ offset < VIDEO_MEMORY_SIZE)
        ∧ u.display = t.display.poke offset b := by
  cases op with
  | key c names depth => exact .inl (moves_sendKey hu)
  | backspace => exact .inr (.inl rfl)
  | historyUp => exact .inr (.inr (.inl rfl))
  | historyDown => exact .inr (.inr (.inr (.inl rfl)))
  | write fd buf nbytes =>
      obtain rfl := Option.some.inj hu
      exact .inl (moves_ttyWrite t fd buf nbytes)
  | read fd buf nbytes =>
      obtain ⟨⟨n, bytes, u'⟩, hread, rfl⟩ := Option.map_eq_some_iff.mp hu
      exact .inl (moves_ttyRead hread)
  | wait fd buf =>
      rw [TtyOp.run] at hu
      split at hu
      · cases hu
      · obtain rfl := Option.some.inj hu
        exact .inl (moves_showLine t)
  | resume nbytes =>
      obtain ⟨⟨n, bytes, u'⟩, htake, rfl⟩ := Option.map_eq_some_iff.mp hu
      exact .inl (moves_takeLine htake)
  | clearBuf =>
      obtain rfl := Option.some.inj hu
      exact .inl (Moves.refl _)
  | setAttrib a =>
      obtain rfl := Option.some.inj hu
      exact .inr (.inr (.inr (.inr (.inl ⟨a, rfl, rfl⟩))))
  | video offset b =>
      rw [TtyOp.run] at hu
      split at hu
      · rename_i hoffset
        obtain rfl := Option.some.inj hu
        exact .inr (.inr (.inr (.inr (.inr ⟨offset, b, rfl, hoffset, rfl⟩))))
      · cases hu

/-- The cursor is in the columns of the screen and above its bottom. -/
def Bounded (d : Display) : Prop :=
  0 ≤ d.screenX ∧ d.screenX < NUM_COLS ∧ d.screenY < NUM_ROWS

lemma Display.Within.bounded {d : Display} (h : Within 0 d) : Bounded d :=
  ⟨h.left, h.right, h.bottom⟩

lemma Bounded.moves {d d' : Display} (h : Bounded d) (hmoves : Display.Moves d d') :
    Bounded d' := by
  obtain ⟨hleft, hright, hbottom⟩ := h
  have hwithin := hmoves.within (min 0 d.screenY) (min_le_left _ _)
    ⟨hleft, hright, min_le_right _ _, hbottom⟩
  exact ⟨hwithin.left, hwithin.right, hwithin.bottom⟩

/-- In the columns of the screen the top left cell is the one with none before it. -/
lemma Bounded.topLeft_iff {d : Display} (h : Bounded d) :
    d.screenX = 0 ∧ d.screenY = 0 ↔ d.position = 0 := by
  obtain ⟨hleft, hright, -⟩ := h
  rw [position]
  rw [NUM_COLS] at *
  omega

lemma Bounded.eraseCells {d : Display} (h : Bounded d) (n : ℕ) : Bounded (eraseCells n d) := by
  obtain ⟨hleft, hright, hbottom⟩ := h
  obtain ⟨hx, hx', hy, -⟩ := Display.eraseCells_position hleft hright n
  exact ⟨hx, hx', hy.trans_lt hbottom⟩

lemma Bounded.ttyBackspace (h : Bounded s.display) : Bounded (ttyBackspace s).display := by
  rw [CustomLinuxOs.ttyBackspace]
  split
  · split
    · exact h
    · exact (h.eraseCells _).moves (Display.moves_setCursorDefault _)
  · exact h

lemma Bounded.eraseLine {n : ℕ} (h : Bounded s.display) (ht : eraseLine n s = some t) :
    Bounded t.display := by
  induction n generalizing s with
  | zero => exact Option.some.inj ht ▸ h
  | succ n ih =>
      rw [CustomLinuxOs.eraseLine] at ht
      split at ht
      · exact absurd ht (by simp)
      · exact ih h.ttyBackspace ht

lemma Bounded.changeLine {k : ℤ} (h : Bounded s.display) (ht : changeLine s k = some t) :
    Bounded t.display := by
  obtain ⟨u, hu, rfl⟩ := Option.map_eq_some_iff.mp ht
  have hu' : Bounded u.display :=
    Bounded.eraseLine (s := s.setSizeHistory s.historyCurr s.bufferSize) h hu
  exact hu'.moves (moves_rewrite ({ u with historyCurr := k } : Tty).loadLine)

/-- **Operations** keep the cursor in its columns and above the bottom of the screen. -/
lemma Bounded.run {op : TtyOp} (h : Bounded s.display) (ht : op.run s = some t) :
    Bounded t.display := by
  rcases run_display ht with hmoves | rfl | rfl | rfl | ⟨a, -, heq⟩ | ⟨offset, b, -, -, heq⟩
  · exact h.moves hmoves
  · obtain rfl := Option.some.inj ht
    exact h.ttyBackspace
  · simp only [TtyOp.run, historyUp] at ht
    split at ht
    · obtain rfl := Option.some.inj ht
      exact h
    · exact Bounded.changeLine (s := { s with tabLs := false }) h ht
  · simp only [TtyOp.run, historyDown] at ht
    split at ht
    · obtain rfl := Option.some.inj ht
      exact h
    · exact Bounded.changeLine (s := { s with tabLs := false }) h ht
  · rw [heq]
    exact h
  · rw [heq]
    exact h

end Operations

lemma freshTty_within : Within 0 freshTty.display := ⟨by decide, by decide, by decide, by decide⟩

end CustomLinuxOs
