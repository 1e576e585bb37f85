import CustomLinuxOs.Terminal.Keys

/-!
Where the cursor goes, and which bytes of memory are written.

* `Display.Within`: the cursor is on a column of the screen, above its bottom and not above a given
  row.
* `Display.Stays`: no byte off the screen has been written.  What lies there is arbitrary, and it is
  as it was.
* `stays_ttyPutcNocursor`, `Moves`: output, and all keys but the ones that erase, keep the cursor
  on the screen and write there only.
-/

namespace CustomLinuxOs

/-- A byte offset on the screen. -/
def OnScreen (o : ℤ) : Prop := 0 ≤ o ∧ o < VIDEO_MEMORY_SIZE

instance (o : ℤ) : Decidable (OnScreen o) := inferInstanceAs (Decidable (_ ∧ _))

namespace Display

/-- The cursor is on a column of the screen, above its bottom, and not above row `lo`. -/
structure Within (lo : ℤ) (d : Display) : Prop where
  left : 0 ≤ d.screenX
  right : d.screenX < NUM_COLS
  top : lo ≤ d.screenY
  bottom : d.screenY < NUM_ROWS

/-- The same page is mapped, and no byte off the screen has changed. -/
structure Stays (d d' : Display) : Prop where
  videoPage : d'.videoPage = d.videoPage
  frame : ∀ q o, (q = d.videoPage → ¬ OnScreen o) → d'.pages q o = d.pages q o

variable {d d' d'' : Display} {lo : ℤ}

lemma Stays.refl (d : Display) : Stays d d := ⟨rfl, fun _ _ _ => rfl⟩

lemma Stays.trans (h : Stays d d') (h' : Stays d' d'') : Stays d d'' where
  videoPage := h'.videoPage.trans h.videoPage
  frame q o ho := by
    rw [h'.frame q o (by rwa [h.videoPage]), h.frame q o ho]

/-- Moving the cursor writes nothing. -/
lemma stays_cursor (d : Display) (x y : ℤ) : Stays d { d with screenX := x, screenY := y } :=
  ⟨rfl, fun _ _ _ => rfl⟩

lemma stays_setCursorDefault (d : Display) : Stays d (setCursorDefault d) := by
  rw [setCursorDefault]
  split
  · exact ⟨rfl, fun _ _ _ => rfl⟩
  · exact Stays.refl d

lemma peek_poke (d : Display) (o o' : ℤ) (b : UInt8) :
    (d.poke o b).peek o' = if o' = o then b else d.peek o' := by
  simp only [peek, poke, Function.update_self]
  exact Function.update_apply _ _ _ _

/-- Writing to the screen only. -/
lemma stays_pages {f : ℤ → UInt8} (hf : ∀ o, ¬ OnScreen o → f o = d.peek o) :
    Stays d { d with pages := Function.update d.pages d.videoPage f } where
  videoPage := rfl
  frame q o ho := by
    simp only
    rcases eq_or_ne q d.videoPage with rfl | hq
    · rw [Function.update_self]
      exact hf o (ho rfl)
    · rw [Function.update_of_ne hq]

lemma stays_poke {o : ℤ} (ho : OnScreen o) (b : UInt8) : Stays d (d.poke o b) := by
  refine stays_pages fun o' ho' => Function.update_of_ne ?_ _ _
  rintro rfl
  exact ho' ho

/-- The two bytes of the cell under the cursor are on the screen. -/
lemma Within.cell (h : Within 0 d) : OnScreen (2 * (NUM_COLS * d.screenY + d.screenX))
    ∧ OnScreen (2 * (NUM_COLS * d.screenY + d.screenX) + 1) := by
  obtain ⟨hleft, hright, htop, hbottom⟩ := h
  rw [NUM_COLS] at *
  rw [NUM_ROWS] at hbottom
  simp only [OnScreen, VIDEO_MEMORY_SIZE]
  omega

/-! ### One character -/

lemma stays_scroll (d : Display) : Stays d (scroll d) := by
  refine stays_pages fun o ho => ?_
  simp only [OnScreen, VIDEO_MEMORY_SIZE, not_and, not_lt] at ho
  rw [if_neg, if_neg]
  · rw [NUM_ROWS, NUM_COLS]
    omega
  · rw [NUM_ROWS, NUM_COLS]
    omega

lemma stays_scrollIfOff (d : Display) : Stays d (scrollIfOff d) := by
  rw [scrollIfOff]
  split
  · exact (stays_scroll d).trans (stays_cursor _ _ _)
  · exact Stays.refl d

/-- One row too far down is where `scrollIfOff` starts from. -/
lemma within_scrollIfOff (hleft : 0 ≤ d.screenX) (hright : d.screenX < NUM_COLS)
    (htop : lo ≤ d.screenY) (hbottom : d.screenY ≤ NUM_ROWS) (hlo : lo < NUM_ROWS) :
    Within lo (scrollIfOff d) := by
  rw [scrollIfOff]
  rcases eq_or_ne d.screenY NUM_ROWS with hy | hy
  · rw [if_pos hy]
    exact ⟨hleft, hright, by simp only [scroll]; omega, by simp only [scroll]; omega⟩
  · rw [if_neg hy]
    exact ⟨hleft, hright, htop, by omega⟩

lemma scrollIfOff_of_within (h : Within lo d) : scrollIfOff d = d :=
  if_neg h.bottom.ne

/-- The two bytes of a character under the cursor. -/
def fillCell (d : Display) (c : UInt8) : Display :=
  (d.poke (2 * (NUM_COLS * d.screenY + d.screenX)) c).poke
    (2 * (NUM_COLS * d.screenY + d.screenX) + 1) d.attrib

lemma putCell_eq (d : Display) (c : UInt8) : putCell d c =
    if d.screenX + 1 = NUM_COLS then
      { d.fillCell c with screenX := 0, screenY := d.screenY + 1 }
    else { d.fillCell c with screenX := d.screenX + 1 } := rfl

lemma stays_fillCell (h : Within 0 d) (c : UInt8) : Stays d (d.fillCell c) :=
  (stays_poke h.cell.1 c).trans (stays_poke h.cell.2 _)

lemma stays_putCell (h : Within 0 d) (c : UInt8) : Stays d (putCell d c) := by
  rw [putCell_eq]
  split
  · exact (stays_fillCell h c).trans (stays_cursor _ _ _)
  · exact (stays_fillCell h c).trans (stays_cursor _ _ _)

/-- The cursor after a cell is the next one, or the start of the next row. -/
lemma putCell_cursor (d : Display) (c : UInt8) :
    (d.screenX + 1 = NUM_COLS ∧ (putCell d c).screenX = 0
        ∧ (putCell d c).screenY = d.screenY + 1)
      ∨ (d.screenX + 1 ≠ NUM_COLS ∧ (putCell d c).screenX = d.screenX + 1
        ∧ (putCell d c).screenY = d.screenY) := by
  rw [putCell_eq]
  rcases eq_or_ne (d.screenX + 1) NUM_COLS with hx | hx
  · rw [if_pos hx]
    exact Or.inl ⟨hx, rfl, rfl⟩
  · rw [if_neg hx]
    exact Or.inr ⟨hx, rfl, rfl⟩

lemma within_putVisible (h : Within lo d) (hlo : lo < NUM_ROWS) (c : UInt8) :
    Within lo (putVisible d c) := by
  obtain ⟨hleft, hright, htop, hbottom⟩ := h
  rw [putVisible]
  rcases putCell_cursor d c with ⟨hx, hx', hy⟩ | ⟨hx, hx', hy⟩
  · refine within_scrollIfOff ?_ ?_ ?_ ?_ hlo
    · rw [hx']
    · rw [hx', NUM_COLS]
      decide
    · omega
    · omega
  · refine within_scrollIfOff ?_ ?_ ?_ ?_ hlo
    · omega
    · omega
    · omega
    · omega

lemma stays_putVisible (h : Within 0 d) (c : UInt8) : Stays d (putVisible d c) :=
  (stays_putCell h c).trans (stays_scrollIfOff _)

lemma within_tabLoop (h : Within lo d) (hlo : lo < NUM_ROWS) (k : ℕ) (n : UInt8) :
    Within lo (tabLoop k n d).2 := by
  induction k generalizing n d with
  | zero => exact h
  | succ k ih =>
      rw [tabLoop]
      split
      · exact ih (within_putVisible h hlo SPACE) (n + 1)
      · exact h

lemma stays_tabLoop (h : Within 0 d) (k : ℕ) (n : UInt8) : Stays d (tabLoop k n d).2 := by
  induction k generalizing n d with
  | zero => exact Stays.refl d
  | succ k ih =>
      rw [tabLoop]
      split
      · have hput := within_putVisible h (by decide) SPACE
        exact (stays_putVisible h SPACE).trans (ih hput (n + 1))
      · exact Stays.refl d

/-- A printable character, case by case. -/
lemma putPrintable_cases (caret : Bool) (d : Display) (c : UInt8) :
    (c = NEWLINE ∧ (putPrintable caret d c).2
        = scrollIfOff { d with screenY := d.screenY + 1, screenX := 0 })
      ∨ (c = RETURN ∧ (putPrintable caret d c).2 = scrollIfOff
        { d with screenX := 0, screenY := if caret then d.screenY + 1 else d.screenY })
      ∨ (c = TAB ∧ (putPrintable caret d c).2
        = scrollIfOff (tabLoop 8 1 (putVisible d SPACE)).2)
      ∨ (c ≠ NEWLINE ∧ c ≠ RETURN ∧ c ≠ TAB ∧ (putPrintable caret d c).2 = putVisible d c) := by
  simp only [putPrintable]
  rcases eq_or_ne c NEWLINE with hn | hn
  · exact Or.inl ⟨hn, by rw [if_pos hn]⟩
  · rcases eq_or_ne c RETURN with hr | hr
    · exact Or.inr (Or.inl ⟨hr, by rw [if_neg hn, if_pos hr]⟩)
    · rcases eq_or_ne c TAB with ht | ht
      · exact Or.inr (Or.inr (Or.inl ⟨ht, by rw [if_neg hn, if_neg hr, if_pos ht]⟩))
      · refine Or.inr (Or.inr (Or.inr ⟨hn, hr, ht, ?_⟩))
        rw [if_neg hn, if_neg hr, if_neg ht, putVisible]

lemma within_putPrintable (h : Within lo d) (hlo : lo < NUM_ROWS) (caret : Bool) (c : UInt8) :
    Within lo (putPrintable caret d c).2 := by
  obtain ⟨hleft, hright, htop, hbottom⟩ := h
  have hcols : (0 : ℤ) < NUM_COLS := by decide
  rcases putPrintable_cases caret d c with ⟨-, hd⟩ | ⟨-, hd⟩ | ⟨-, hd⟩ | ⟨-, -, -, hd⟩
  · rw [hd]
    exact within_scrollIfOff le_rfl hcols (by simp only; omega) (by simp only; omega) hlo
  · rw [hd]
    refine within_scrollIfOff le_rfl hcols ?_ ?_ hlo
    · simp only
      split <;> omega
    · simp only
      split <;> omega
  · have htab := within_tabLoop (within_putVisible ⟨hleft, hright, htop, hbottom⟩ hlo SPACE) hlo 8 1
    rw [hd, scrollIfOff_of_within htab]
    exact htab
  · rw [hd]
    exact within_putVisible ⟨hleft, hright, htop, hbottom⟩ hlo c

lemma stays_putPrintable (h : Within 0 d) (caret : Bool) (c : UInt8) :
    Stays d (putPrintable caret d c).2 := by
  rcases putPrintable_cases caret d c with ⟨-, hd⟩ | ⟨-, hd⟩ | ⟨-, hd⟩ | ⟨-, -, -, hd⟩
  · rw [hd]
    exact (stays_cursor d _ _).trans (stays_scrollIfOff _)
  · rw [hd]
    exact (stays_cursor d _ _).trans (stays_scrollIfOff _)
  · rw [hd]
    have hput := within_putVisible h (by decide) SPACE
    exact ((stays_putVisible h SPACE).trans (stays_tabLoop hput 8 1)).trans (stays_scrollIfOff _)
  · rw [hd]
    exact stays_putVisible h c

/-- A character, case by case: the display after it. -/
lemma ttyPutcNocursor_cases (caret : Bool) (d : Display) (c : UInt8) :
    (isPrintable c = true ∧ (ttyPutcNocursor caret d c).2 = (putPrintable caret d c).2)
      ∨ (isPrintable c = false ∧ caret = true ∧ (ttyPutcNocursor caret d c).2
        = scrollIfOff (putPrintable caret (putPrintable caret d 0x5e).2 (c ^^^ CARET)).2)
      ∨ (isPrintable c = false ∧ caret = false ∧ c ≠ 0
        ∧ (ttyPutcNocursor caret d c).2 = putVisible d c)
      ∨ (isPrintable c = false ∧ (caret = false → c = 0)
        ∧ (ttyPutcNocursor caret d c).2 = scrollIfOff d) := by
  rw [ttyPutcNocursor]
  cases hp : isPrintable c with
  | true => exact Or.inl ⟨rfl, by rw [if_pos rfl]⟩
  | false =>
      rw [if_neg Bool.false_ne_true]
      cases caret with
      | true =>
          cases hq : isPrintable (c ^^^ CARET) with
          | true => exact Or.inr (Or.inl ⟨rfl, rfl, by simp⟩)
          | false => exact Or.inr (Or.inr (Or.inr ⟨rfl, by simp, by simp⟩))
      | false =>
          rcases eq_or_ne c 0 with hc | hc
          · exact Or.inr (Or.inr (Or.inr ⟨rfl, fun _ => hc, by simp [hc]⟩))
          · exact Or.inr (Or.inr (Or.inl ⟨rfl, rfl, hc, by simp [hc, putVisible]⟩))

/-- **Output** keeps the cursor on the screen. -/
lemma within_ttyPutcNocursor (h : Within lo d) (hlo : lo < NUM_ROWS) (caret : Bool) (c : UInt8) :
    Within lo (ttyPutcNocursor caret d c).2 := by
  rcases ttyPutcNocursor_cases caret d c with
    ⟨-, hd⟩ | ⟨-, -, hd⟩ | ⟨-, -, -, hd⟩ | ⟨-, -, hd⟩
  · rw [hd]
    exact within_putPrintable h hlo caret c
  · have hput := within_putPrintable (within_putPrintable h hlo caret 0x5e) hlo caret (c ^^^ CARET)
    rw [hd, scrollIfOff_of_within hput]
    exact hput
  · rw [hd]
    exact within_putVisible h hlo c
  · rw [hd, scrollIfOff_of_within h]
    exact h

/-- **Output** writes to the screen only. -/
lemma stays_ttyPutcNocursor (h : Within 0 d) (caret : Bool) (c : UInt8) :
    Stays d (ttyPutcNocursor caret d c).2 := by
  rcases ttyPutcNocursor_cases caret d c with
    ⟨-, hd⟩ | ⟨-, -, hd⟩ | ⟨-, -, -, hd⟩ | ⟨-, -, hd⟩
  · rw [hd]
    exact stays_putPrintable h caret c
  · rw [hd]
    have hput := within_putPrintable h (by decide) caret 0x5e
    exact ((stays_putPrintable h caret 0x5e).trans (stays_putPrintable hput caret _)).trans
      (stays_scrollIfOff _)
  · rw [hd]
    exact stays_putVisible h c
  · rw [hd]
    exact stays_scrollIfOff d

/-- Output of all kinds: the cursor stays on the screen, and nothing is written off it. -/
structure Moves (d d' : Display) : Prop where
  within : ∀ lo ≤ 0, Within lo d → Within lo d'
  stays : Within 0 d → Stays d d'

lemma Moves.refl (d : Display) : Moves d d := ⟨fun _ _ h => h, fun _ => Stays.refl d⟩

lemma Moves.trans (h : Moves d d') (h' : Moves d' d'') : Moves d d'' where
  within lo hlo hd := h'.within lo hlo (h.within lo hlo hd)
  stays hd := (h.stays hd).trans (h'.stays (h.within 0 le_rfl hd))

lemma moves_ttyPutcNocursor (d : Display) (caret : Bool) (c : UInt8) :
    Moves d (ttyPutcNocursor caret d c).2 where
  within _ hlo h := within_ttyPutcNocursor h (lt_of_le_of_lt hlo (by decide)) caret c
  stays h := stays_ttyPutcNocursor h caret c

lemma moves_setCursorDefault (d : Display) : Moves d (setCursorDefault d) where
  within lo _ h := by
    rw [setCursorDefault]
    split
    · exact ⟨h.left, h.right, h.top, h.bottom⟩
    · exact h
  stays _ := stays_setCursorDefault d

lemma moves_foldl (d : Display) (bytes : List UInt8) :
    Moves d (bytes.foldl (fun d c => (ttyPutcNocursor false d c).2) d) := by
  induction bytes generalizing d with
  | nil => exact Moves.refl d
  | cons c bytes ih => exact (moves_ttyPutcNocursor d false c).trans (ih _)

lemma moves_ttyPutBytes (d : Display) (bytes : List UInt8) : Moves d (ttyPutBytes d bytes) :=
  (moves_foldl d bytes).trans (moves_setCursorDefault _)

lemma moves_ttyEcho (d : Display) (c : UInt8) : Moves d (ttyEcho d c).2 :=
  (moves_ttyPutcNocursor d true c).trans (moves_setCursorDefault _)

end Display

/-! ### The operations of the terminal -/

section Operations

open Display

variable (s : Tty)

lemma moves_echoBuffer (untilNewline : Bool) (n i : ℕ) :
    Moves s.display (echoBuffer untilNewline n i s).display := by
  induction n generalizing i s with
  | zero => exact Moves.refl _
  | succ n ih =>
      let r := ttyEchoNocursor s.display (s.input i)
      let t := ({ s with display := r.2 } : Tty).setWidth i r.1
      have hecho : Moves s.display t.display := moves_ttyPutcNocursor s.display true (s.input i)
      rw [echoBuffer]
      split
      · exact hecho
      · exact hecho.trans (ih t (i + 1))

lemma moves_rewrite : Moves s.display (rewrite s).display :=
  (moves_echoBuffer s false s.bufferSize.toNat 0).trans (moves_setCursorDefault _)

lemma moves_showLine : Moves s.display (showLine s).display :=
  (moves_echoBuffer s true s.bufferSize.toNat 0).trans (moves_setCursorDefault _)

/-- A blank screen, with the cursor at its top. -/
def clearScreen (d : Display) : Display :=
  { d with
    pages := Function.update d.pages d.videoPage fun o =>
      if 0 ≤ o ∧ o < 2 * (NUM_ROWS * NUM_COLS) then
        if o % 2 = 0 then SPACE else d.attrib
      else d.peek o
    screenX := 0
    screenY := 0 }

lemma ttyCls_eq : ttyCls s = rewrite { s with
    display :=
      if checkShell s then ttyPutBytes (clearScreen s.display) prompt
      else clearScreen s.display } := rfl

lemma moves_clearScreen (d : Display) : Moves d (clearScreen d) where
  within _ hlo _ :=
    ⟨le_rfl, (by decide : (0 : ℤ) < NUM_COLS), hlo, (by decide : (0 : ℤ) < NUM_ROWS)⟩
  stays _ := by
    refine (stays_pages fun o ho => ?_).trans (stays_cursor _ 0 0)
    simp only [OnScreen, VIDEO_MEMORY_SIZE, not_and, not_lt] at ho
    rw [if_neg]
    rw [NUM_ROWS, NUM_COLS]
    omega

lemma moves_ttyCls : Moves s.display (ttyCls s).display := by
  have hclear := moves_clearScreen s.display
  rw [ttyCls_eq]
  refine Moves.trans ?_ (moves_rewrite _)
  simp only
  split
  · exact hclear.trans (moves_ttyPutBytes _ prompt)
  · exact hclear

lemma moves_enterChar (c : UInt8) : Moves s.display (enterChar s c).display := by
  rw [enterChar]
  split
  · exact moves_ttyEcho s.display c
  · split
    · split
      · exact moves_ttyEcho s.display c
      · exact Moves.refl _
    · exact Moves.refl _

lemma moves_ttySendchar {c : UInt8} (hc : c ≠ TAB) :
    Moves s.display (ttySendchar id s c).display := by
  rw [ttySendchar]
  split
  · exact moves_ttyCls s
  · split
    · exact Moves.refl _
    · exact moves_enterChar s c

lemma moves_ttyLs (names : Listing) (filename : ℕ → UInt8) (n : ℕ) :
    Moves s.display (ttyLs names filename n s).display := by
  have hnames := moves_foldl s.display (lsBytes names filename n)
  simp only [ttyLs]
  refine Moves.trans ?_ (moves_rewrite _)
  split
  · exact hnames.trans (moves_ttyPutBytes _ prompt)
  · exact hnames

/-- **Keys**, with what they complete. -/
lemma moves_sendKey {names : Listing} {depth : ℕ} {s s' : Tty} {c : UInt8}
    (h : sendKey names depth s c = some s') : Moves s.display s'.display :=
  sendKey_rel (R := fun s s' => Moves s.display s'.display) (fun _ => Moves.refl _)
    (fun _ _ _ => Moves.trans) (fun _ _ => Moves.refl _)
    (fun names filename n s => moves_ttyLs s names filename n) (fun s _ => moves_ttySendchar s) h

lemma moves_ttyWrite (fd : ℤ) (buf : Option (List UInt8)) (nbytes : ℤ) :
    Moves s.display (ttyWrite s fd buf nbytes).2.display := by
  simp only [ttyWrite]
  split
  · exact Moves.refl _
  · cases buf with
    | none => exact Moves.refl _
    | some bytes => exact moves_ttyPutBytes s.display _

lemma moveHistoryEnd_display : (moveHistoryEnd s).display = s.display := by
  simp only [moveHistoryEnd]
  split
  · split <;> rfl
  · split <;> rfl

lemma advanceHistory_display : (advanceHistory s).display = s.display := by
  simp only [advanceHistory]
  split
  · rw [moveHistoryEnd_display]
    split <;> rfl
  · rfl

/-- Taking a line out of the buffer does not concern the display. -/
lemma historyNew_display : (historyNew s).display = s.display := by
  have hadvance := advanceHistory_display (s.setSizeHistory s.historyCurr (s.bufferSize - 1))
  simp only [historyNew, Tty.loadLine]
  split
  · exact hadvance
  · exact hadvance

lemma shiftLoop_display (n i j : ℕ) : (shiftLoop n i j s).display = s.display := by
  induction n generalizing i j s with
  | zero => rfl
  | succ n ih =>
      rw [shiftLoop, ih]
      rfl

lemma shiftBuffer_display (i : ℕ) : (shiftBuffer s i).display = s.display :=
  shiftLoop_display { s with ready := false } (s.bufferSize.toNat - i) i 0

lemma moves_takeLine {s s' : Tty} {nbytes n : ℤ} {bytes : List UInt8}
    (h : takeLine s nbytes = some (n, bytes, s')) : Moves s.display s'.display := by
  rw [takeLine] at h
  split at h
  · obtain ⟨-, -, rfl⟩ := h
    rw [shiftBuffer_display, historyNew_display]
    exact Moves.refl _
  · exact absurd h (by simp)

lemma moves_ttyRead {s s' : Tty} {fd nbytes n : ℤ} {buf : UInt32} {bytes : List UInt8}
    (h : ttyRead s fd buf nbytes = some (n, bytes, s')) : Moves s.display s'.display := by
  rw [ttyRead_eq] at h
  split at h
  · obtain ⟨-, -, rfl⟩ := h
    exact Moves.refl _
  · split at h
    · obtain ⟨-, -, rfl⟩ := h
      exact Moves.refl _
    · exact (moves_showLine s).trans (moves_takeLine h)

end Operations

end CustomLinuxOs
