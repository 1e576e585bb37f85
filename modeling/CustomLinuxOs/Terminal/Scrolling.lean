import CustomLinuxOs.Foundations.Page
import CustomLinuxOs.Terminal.Cursor
import CustomLinuxOs.Terminal.InputFifo

/-!
The scrolling screen as a window on a page with rows without end.

* `layOut`: a byte of output on such a page.
* `ShowsFrom`, `Shows`: the screen shows the rows of the page from a given one on, or the last ones
  down to the cursor.
* `shows_ttyPutcNocursor`: a byte on the screen simulates the byte on the page.
* `ttyWrite_shows`: so does a call of `tty_write`, and it writes to the screen only.
-/

namespace CustomLinuxOs

/-- The character in a cell of the screen. -/
def Display.char (d : Display) (r c : ℕ) : UInt8 := d.peek (2 * (NUM_COLS * r + c))

lemma Display.Within.toNat_lt {d : Display} (h : d.Within 0) : d.screenX.toNat < 80 := by
  have hright := h.right
  rw [NUM_COLS] at hright
  omega

/-- What is on the screen, as the first rows of a page. -/
def Display.page (d : Display) (h : d.Within 0) : Page 80 UInt8 where
  cell r c := if r < 25 then d.char r c else SPACE
  row := d.screenY.toNat
  col := d.screenX.toNat
  col_lt := h.toNat_lt

/-- A byte of output. -/
def layOut (p : Page 80 UInt8) (b : UInt8) : Page 80 UInt8 :=
  if b = NEWLINE then p.newline
  else if b = RETURN then p.carriageReturn
  else if b = TAB then Page.fill SPACE (8 - p.col % 8) p
  else if b = 0 then p
  else p.put b

/-- The screen shows the rows from `top` on, and below them the page is blank. -/
structure ShowsFrom (top : ℕ) (d : Display) (p : Page 80 UInt8) : Prop where
  col : d.screenX = p.col
  row : d.screenY + top = p.row
  window : ∀ r < 25, ∀ c < 80, d.char r c = p.cell (top + r) c
  blank : ∀ r c, top + 25 ≤ r → p.cell r c = SPACE

/-- The screen shows the last rows, down to the one of the cursor. -/
def Shows (d : Display) (p : Page 80 UInt8) : Prop := ShowsFrom (p.top 25) d p

section Simulation

open Display

variable {d : Display} {p : Page 80 UInt8} {top : ℕ}

lemma shows_page (h : d.Within 0) : Shows d (d.page h) := by
  obtain ⟨hleft, hright, htop, hbottom⟩ := h
  rw [NUM_ROWS] at hbottom
  have hzero : (d.page ⟨hleft, hright, htop, hbottom⟩).top 25 = 0 := by
    simp only [Page.top, page]
    omega
  rw [Shows, hzero]
  refine ⟨(Int.toNat_of_nonneg hleft).symm, ?_, fun r hr c _ => ?_, fun r c hr => ?_⟩
  · simp only [page]
    omega
  · rw [Nat.zero_add]
    exact (if_pos hr).symm
  · exact if_neg (by omega)

lemma Shows.within (h : Shows d p) : d.Within 0 := by
  obtain ⟨hcol, hrow, -, -⟩ := h
  have hlt := p.col_lt
  rw [Page.top] at hrow
  refine ⟨?_, ?_, ?_, ?_⟩
  · omega
  · rw [NUM_COLS]
    omega
  · omega
  · rw [NUM_ROWS]
    omega

/-! ### Scrolling -/

lemma scroll_char {r c : ℕ} (hr : r < 25) (hc : c < 80) :
    (scroll d).char r c = if r < 24 then d.char (r + 1) c else SPACE := by
  rw [char, peek, scroll]
  simp only [Function.update_self]
  rw [NUM_ROWS, NUM_COLS]
  rcases lt_or_ge r 24 with h | h
  · rw [if_pos (by omega), if_pos h, char, NUM_COLS]
    congr 1
    push_cast
    ring
  · rw [if_neg (by omega), if_pos (by omega), if_pos (by omega), if_neg (by omega)]

/-- Scrolling is where the window moves on to the next row. -/
lemma shows_scrollIfOff (h : ShowsFrom top d p) (htop : top = 0 ∨ top + 24 ≤ p.row)
    (hrow : p.row ≤ top + 25) : Shows (scrollIfOff d) p := by
  obtain ⟨hcol, hy, hwindow, hblank⟩ := h
  rw [scrollIfOff]
  rcases eq_or_ne d.screenY NUM_ROWS with hoff | hoff
  · rw [if_pos hoff]
    rw [NUM_ROWS] at hoff
    have hnext : p.top 25 = top + 1 := by
      rw [Page.top]
      omega
    rw [Shows, hnext]
    refine ⟨hcol, ?_, fun r hr c hc => ?_, fun r c hr => hblank r c (by omega)⟩
    · simp only [scroll]
      omega
    · have hchar : ({ scroll d with screenY := (scroll d).screenY - 1 } : Display).char r c
          = (scroll d).char r c := rfl
      rw [hchar, scroll_char hr hc]
      rcases lt_or_ge r 24 with h | h
      · rw [if_pos h, hwindow (r + 1) (by omega) c hc]
        congr 1
        omega
      · rw [if_neg (by omega), hblank _ c (by omega)]
  · rw [if_neg hoff]
    rw [NUM_ROWS] at hoff
    have hsame : p.top 25 = top := by
      rw [Page.top]
      omega
    rw [Shows, hsame]
    exact ⟨hcol, hy, hwindow, hblank⟩

/-- The window a screen shows before it scrolls. -/
lemma top_or (p : Page 80 UInt8) : p.top 25 = 0 ∨ p.top 25 + 24 = p.row := by
  rw [Page.top]
  omega

/-! ### One character -/

lemma fillCell_char (hleft : 0 ≤ d.screenX) (hright : d.screenX < 80) (a : UInt8) {r c : ℕ}
    (hc : c < 80) :
    (d.fillCell a).char r c = if (r : ℤ) = d.screenY ∧ (c : ℤ) = d.screenX then a
      else d.char r c := by
  have hattrib : 2 * (NUM_COLS * (r : ℤ) + c) ≠ 2 * (NUM_COLS * d.screenY + d.screenX) + 1 := by
    omega
  rw [char, fillCell, peek_poke, if_neg hattrib, peek_poke, NUM_COLS]
  rcases em ((r : ℤ) = d.screenY ∧ (c : ℤ) = d.screenX) with h | h
  · rw [if_pos h, if_pos (by rw [h.1, h.2])]
  · rw [if_neg h, if_neg (by omega), char, NUM_COLS]

lemma showsFrom_putCell (h : Shows d p) (a : UInt8) :
    ShowsFrom (p.top 25) (putCell d a) (p.put a) := by
  have hwithin := h.within
  obtain ⟨hcol, hrow, hwindow, hblank⟩ := h
  have hright := hwithin.right
  have hbottom := hwithin.bottom
  rw [NUM_COLS] at hright
  rw [NUM_ROWS] at hbottom
  have hchar (r c : ℕ) : (putCell d a).char r c = (d.fillCell a).char r c := by
    rw [putCell_eq]
    split <;> rfl
  have hcell (r c : ℕ) (hc : c < 80) : (putCell d a).char r c =
      if p.top 25 + r = p.row ∧ c = p.col then a else d.char r c := by
    rw [hchar, fillCell_char hwithin.left hright a hc]
    refine if_congr ?_ rfl rfl
    rw [hcol]
    omega
  have hcursor : (putCell d a).screenX = (p.put a).col
      ∧ (putCell d a).screenY + p.top 25 = (p.put a).row := by
    rcases putCell_cursor d a with ⟨hx, hx', hy⟩ | ⟨hx, hx', hy⟩
    · rw [NUM_COLS] at hx
      rcases p.put_cursor a with ⟨hp, hp', hq⟩ | ⟨hp, hp', hq⟩ <;> omega
    · rw [NUM_COLS] at hx
      rcases p.put_cursor a with ⟨hp, hp', hq⟩ | ⟨hp, hp', hq⟩ <;> omega
  refine ⟨hcursor.1, hcursor.2, fun r hr c hc => ?_, fun r c hr => ?_⟩
  · rw [hcell r c hc, Page.put_cell, hwindow r hr c hc]
  · rw [Page.put_cell, if_neg (by omega), hblank r c hr]

/-- A character that fills a cell. -/
lemma shows_putVisible (h : Shows d p) (a : UInt8) : Shows (putVisible d a) (p.put a) := by
  have hput := showsFrom_putCell h a
  have htop := top_or p
  have hrow := h.row
  have hbottom := h.within.bottom
  rw [NUM_ROWS] at hbottom
  refine shows_scrollIfOff hput ?_ ?_
  · rcases p.put_cursor a with ⟨-, hp, -⟩ | ⟨-, hp, -⟩ <;> omega
  · rcases p.put_cursor a with ⟨-, hp, -⟩ | ⟨-, hp, -⟩ <;> omega

/-- The loop of a tab fills the cells up to the next stop. -/
lemma shows_tabLoop (h : Shows d p) {m k : ℕ} (hm : (p.col + m) % 8 = 0) (hmk : m ≤ k)
    (hlt : m < 8) (n : UInt8) : Shows (tabLoop k n d).2 (Page.fill SPACE m p) := by
  induction m generalizing k n d p with
  | zero =>
      have hstop : d.screenX.tmod TAB_WIDTH = 0 := by
        rw [h.col, TAB_WIDTH, Int.tmod_eq_emod_of_nonneg (Int.natCast_nonneg _)]
        omega
      cases k with
      | zero => exact h
      | succ k =>
          rw [tabLoop, if_neg (not_not.mpr hstop)]
          exact h
  | succ m ih =>
      have hgo : d.screenX.tmod TAB_WIDTH ≠ 0 := by
        rw [h.col, TAB_WIDTH, Int.tmod_eq_emod_of_nonneg (Int.natCast_nonneg _)]
        omega
      obtain ⟨k, rfl⟩ : ∃ j, k = j + 1 := ⟨k - 1, by omega⟩
      rw [tabLoop, if_pos hgo, Page.fill]
      refine ih (shows_putVisible h SPACE) ?_ (by omega) (by omega) (n + 1)
      rcases p.put_cursor SPACE with ⟨hp, -, hp'⟩ | ⟨hp, -, hp'⟩
      · rw [hp']
        omega
      · rw [hp']
        omega

/-- The two ways the cursor goes to the start of a row. -/
lemma shows_row (h : Shows d p) {q : Page 80 UInt8} (hcell : q.cell = p.cell) (hcol : q.col = 0)
    {y : ℤ} (hy : y + p.top 25 = q.row) (hle : p.row ≤ q.row) (hlt : q.row ≤ p.row + 1) :
    Shows (scrollIfOff { d with screenY := y, screenX := 0 }) q := by
  have htop := top_or p
  have hrow := h.row
  have hbottom := h.within.bottom
  rw [NUM_ROWS] at hbottom
  have hmoved : ShowsFrom (p.top 25) { d with screenY := y, screenX := 0 } q := by
    refine ⟨?_, hy, ?_, ?_⟩
    · rw [hcol, Nat.cast_zero]
    · rw [hcell]
      exact h.window
    · rw [hcell]
      exact h.blank
  exact shows_scrollIfOff hmoved (by omega) (by omega)

/-- **A byte** on the screen simulates the byte on the page. -/
theorem shows_ttyPutcNocursor (h : Shows d p) (b : UInt8) :
    Shows (ttyPutcNocursor false d b).2 (layOut p b) := by
  have hrow := h.row
  rw [layOut]
  rcases ttyPutcNocursor_cases false d b with
    ⟨hprint, hd⟩ | ⟨-, hcaret, -⟩ | ⟨hprint, -, hb, hd⟩ | ⟨hprint, hb, hd⟩
  · rw [hd]
    rcases putPrintable_cases false d b with
      ⟨rfl, hd⟩ | ⟨rfl, hd⟩ | ⟨rfl, hd⟩ | ⟨hnewline, hreturn, htab, hd⟩
    · rw [if_pos rfl, hd]
      refine shows_row (q := p.newline) h rfl rfl ?_ ?_ le_rfl
      · simp only [Page.newline]
        omega
      · simp only [Page.newline]
        omega
    · rw [if_neg (by decide), if_pos rfl, hd]
      exact shows_row (q := p.carriageReturn) h rfl rfl hrow le_rfl (Nat.le_succ _)
    · rw [if_neg (by decide), if_neg (by decide), if_pos rfl, hd]
      obtain ⟨m, hm⟩ : ∃ m, 8 - p.col % 8 = m + 1 := ⟨7 - p.col % 8, by omega⟩
      have htabs : Shows (tabLoop 8 1 (putVisible d SPACE)).2
          (Page.fill SPACE m (p.put SPACE)) := by
        refine shows_tabLoop (shows_putVisible h SPACE) ?_ (by omega) (by omega) 1
        rcases p.put_cursor SPACE with ⟨hp, -, hp'⟩ | ⟨hp, -, hp'⟩
        · rw [hp']
          omega
        · rw [hp']
          omega
      rw [scrollIfOff_of_within htabs.within, hm, Page.fill]
      exact htabs
    · have hzero : b ≠ 0 := by
        rintro rfl
        exact absurd hprint (by decide)
      rw [if_neg hnewline, if_neg hreturn, if_neg htab, if_neg hzero, hd]
      exact shows_putVisible h b
  · exact absurd hcaret Bool.false_ne_true
  · have hcontrol {a : UInt8} (ha : isPrintable a = true) : b ≠ a := by
      rintro rfl
      exact absurd ha (by rw [hprint]; exact Bool.false_ne_true)
    rw [if_neg (hcontrol rfl), if_neg (hcontrol rfl), if_neg (hcontrol rfl), if_neg hb, hd]
    exact shows_putVisible h b
  · obtain rfl := hb rfl
    rw [hd, scrollIfOff_of_within h.within]
    exact h

/-- The bytes of a call, one after the other. -/
lemma shows_foldl (h : Shows d p) (bytes : List UInt8) :
    Shows (bytes.foldl (fun d b => (ttyPutcNocursor false d b).2) d) (bytes.foldl layOut p) := by
  induction bytes generalizing d p with
  | nil => exact h
  | cons b bytes ih => exact ih (shows_ttyPutcNocursor h b)

/-- The hardware cursor is not part of what is shown. -/
lemma shows_setCursorDefault (h : Shows d p) : Shows (setCursorDefault d) p := by
  rw [setCursorDefault]
  split
  · exact ⟨h.col, h.row, h.window, h.blank⟩
  · exact h

end Simulation

open Display

/-- **The scrolling terminal refines an unbounded page.**  After a call of `tty_write` the screen
and its cursor show the last rows of the page on which the bytes have been laid out one after the
other, starting from what was on the screen.  The cursor is on the screen, and only the screen has
been written to. -/
theorem ttyWrite_shows {s : Tty} (h : Within 0 s.display) {fd : ℤ} (hfd : fd ≠ STDIN)
    (buf : List UInt8) (nbytes : ℤ) :
    Shows (ttyWrite s fd (some buf) nbytes).2.display
        ((buf.take nbytes.toNat).foldl layOut (s.display.page h))
      ∧ Within 0 (ttyWrite s fd (some buf) nbytes).2.display
      ∧ Stays s.display (ttyWrite s fd (some buf) nbytes).2.display := by
  have hmoves := moves_ttyWrite s fd (some buf) nbytes
  have hd : (ttyWrite s fd (some buf) nbytes).2.display
      = ttyPutBytes s.display (buf.take nbytes.toNat) := by
    rw [ttyWrite, if_neg hfd]
  refine ⟨?_, hmoves.within 0 le_rfl h, hmoves.stays h⟩
  rw [hd]
  exact shows_setCursorDefault (shows_foldl (shows_page h) _)

/-- A line, a tab and a character on a fresh terminal. -/
theorem ttyWrite_shows_freshTty : ∃ h : Within 0 freshTty.display,
    Shows (ttyWrite freshTty STDOUT (some [0x61, NEWLINE, TAB, 0x62]) 4).2.display
        ([0x61, NEWLINE, TAB, 0x62].foldl layOut (freshTty.display.page h))
      ∧ Within 0 (ttyWrite freshTty STDOUT (some [0x61, NEWLINE, TAB, 0x62]) 4).2.display
      ∧ Stays freshTty.display
        (ttyWrite freshTty STDOUT (some [0x61, NEWLINE, TAB, 0x62]) 4).2.display :=
  have h : Within 0 freshTty.display := ⟨by decide, by decide, by decide, by decide⟩
  ⟨h, ttyWrite_shows h (by decide) [0x61, NEWLINE, TAB, 0x62] 4⟩

end CustomLinuxOs
