import CustomLinuxOs.Foundations.Run
import CustomLinuxOs.Terminal.Keys
import CustomLinuxOs.Terminal.InputFifo

/-!
The history ring of a terminal and its three indices.

* `changeLine_inputSide`, `historyNew_indices`, `historyNew_savedSize`: what the history keys and a
  call of `tty_read` do to the indices and to the saved sizes.
* `Indices.Valid`: the indices are slots of the ring, the current one between the other two.
* `run_indices`: what an operation can do to the indices.
* `historyIndices_iff`: the indices are valid in all states of a run exactly when no call pushes the
  first line out of the last slot, where it does not go round.
* `historyIndices_emptyLines`: there is a run where one does.
-/

namespace CustomLinuxOs

/-! ### History keys -/

lemma eraseCells_setup (n : ℕ) (d : Display) : (eraseCells n d).setup = d.setup := by
  induction n generalizing d with
  | zero => rfl
  | succ n ih =>
      rw [eraseCells]
      simp only [ih]
      split <;> rfl

lemma foldl_setup (bytes : List UInt8) (d : Display) :
    (bytes.foldl (fun d c => (ttyPutcNocursor false d c).2) d).setup = d.setup := by
  induction bytes generalizing d with
  | nil => rfl
  | cons b bytes ih => rw [List.foldl_cons, ih, ttyPutcNocursor_setup]

lemma ttyPutBytes_setup (d : Display) (bytes : List UInt8) :
    (ttyPutBytes d bytes).setup = d.setup := by
  rw [ttyPutBytes, setCursorDefault_setup, foldl_setup]

section Keys

variable {s t : Tty}

/-- Erasing a character takes it off the buffer, unless the cursor is in the top left cell. -/
lemma ttyBackspace_inputSide (hsize : s.bufferSize ≠ 0)
    (hcursor : ¬ (s.display.screenX = 0 ∧ s.display.screenY = 0)) :
    (ttyBackspace s).inputSide = { s.inputSide with bufferSize := s.bufferSize - 1 } := by
  rw [ttyBackspace, if_pos (UInt8.pos_iff_ne_zero.mpr hsize), if_neg hcursor]
  set width := (s.screens s.widthBuffer).widthBuffer (s.bufferSize - 1).toNat
  have hsetup : (setCursorDefault (eraseCells width.toNat s.display)).setup = s.display.setup := by
    rw [setCursorDefault_setup, eraseCells_setup]
  rw [← Tty.withDisplay_inputSide s hsetup]
  rfl

/-- Erasing all of the line. -/
lemma eraseLine_inputSide {n : ℕ} (hn : s.bufferSize.toNat = n) (h : eraseLine n s = some t) :
    t.inputSide = { s.inputSide with bufferSize := 0 } := by
  induction n generalizing s with
  | zero =>
      obtain rfl := Option.some.inj h
      have hzero : s.bufferSize = 0 := UInt8.toNat_inj.mp hn
      rw [← hzero]
      rfl
  | succ n ih =>
      rw [eraseLine] at h
      split at h
      · exact absurd h (by simp)
      · rename_i hcursor
        have hsize : s.bufferSize ≠ 0 := by
          intro hzero
          rw [hzero] at hn
          exact absurd hn (by simp)
        have hside := ttyBackspace_inputSide hsize hcursor
        have hback : (ttyBackspace s).bufferSize = s.bufferSize - 1 :=
          congrArg InputSide.bufferSize hside
        have hle : (1 : UInt8) ≤ s.bufferSize := by
          rw [UInt8.le_iff_toNat_le, hn]
          exact Nat.succ_le_succ (Nat.zero_le n)
        rw [ih ?_ h, hside]
        rw [hback, UInt8.toNat_sub_of_le _ _ hle, hn]
        rfl

/-- The line is saved, and the one in slot `curr` is loaded. -/
def InputSide.change (v : InputSide) (curr : ℤ) : InputSide :=
  let sizes := Function.update v.sizeHistory v.processScreen
    (Function.update (v.sizeHistory v.processScreen) v.historyCurr v.bufferSize)
  { v with
    sizeHistory := sizes
    historyCurr := curr
    inputBuffer := (v.processScreen, curr)
    bufferSize := sizes v.processScreen curr }

lemma setSizeHistory_inputSide (s : Tty) (k : ℤ) (n : UInt8) :
    (s.setSizeHistory k n).inputSide = { s.inputSide with
      sizeHistory := Function.update s.inputSide.sizeHistory s.processScreen
        (Function.update (s.inputSide.sizeHistory s.processScreen) k n) } := by
  have hhistory : (fun m => ((s.setSizeHistory k n).screens m).inputHistory)
      = fun m => (s.screens m).inputHistory := by
    funext m
    exact (setSizeHistory_screens k n m).1
  have hsizes : (fun m => ((s.setSizeHistory k n).screens m).sizeHistory)
      = Function.update s.inputSide.sizeHistory s.processScreen
        (Function.update (s.inputSide.sizeHistory s.processScreen) k n) := by
    funext m
    rcases eq_or_ne m s.processScreen with rfl | hm
    · simp [Tty.setSizeHistory, Tty.modifyScreen, Tty.inputSide]
    · simp [Tty.setSizeHistory, Tty.modifyScreen, Tty.inputSide, hm]
  rw [Tty.inputSide, hhistory, hsizes]
  rfl

lemma rewrite_inputSide (s : Tty) : (rewrite s).inputSide = s.inputSide := by
  rw [rewrite, Tty.withDisplay_inputSide _ (setCursorDefault_setup _), Tty.echoBuffer_inputSide]

/-- **Changing the line** saves it and loads another one. -/
lemma changeLine_inputSide {curr : ℤ} (h : changeLine s curr = some t) :
    t.inputSide = s.inputSide.change curr := by
  obtain ⟨u, hu, rfl⟩ := Option.map_eq_some_iff.mp h
  have herase := eraseLine_inputSide (s := s.setSizeHistory s.historyCurr s.bufferSize) rfl hu
  rw [setSizeHistory_inputSide] at herase
  rw [rewrite_inputSide]
  have hload : ({ u with historyCurr := curr } : Tty).loadLine.inputSide
      = { u.inputSide with
          historyCurr := curr
          inputBuffer := (u.inputSide.processScreen, curr)
          bufferSize := u.inputSide.sizeHistory u.inputSide.processScreen curr } := rfl
  rw [hload, herase]
  rfl

/-- The slot before `k`. -/
def prevSlot (k : ℤ) : ℤ := if k - 1 < 0 then k - 1 + MAX_TERMINAL_HIST_LEN else k - 1

/-- Up goes to the slot before, unless it is at the start. -/
lemma historyUp_inputSide (h : historyUp s = some t) :
    (s.historyCurr = s.historyStart ∧ t.inputSide = s.inputSide)
      ∨ (s.historyCurr ≠ s.historyStart
        ∧ t.inputSide = s.inputSide.change (prevSlot s.historyCurr)) := by
  simp only [historyUp] at h
  split at h
  · rename_i hstart
    obtain rfl := Option.some.inj h
    exact Or.inl ⟨hstart, rfl⟩
  · rename_i hstart
    have hchange := changeLine_inputSide h
    exact Or.inr ⟨hstart, hchange⟩

/-- Down goes to the slot after, unless it is at the end. -/
lemma historyDown_inputSide (h : historyDown s = some t)
    (hcurr : s.historyCurr < MAX_TERMINAL_HIST_LEN) :
    (s.historyCurr = s.historyEnd ∧ t.inputSide = s.inputSide)
      ∨ (s.historyCurr ≠ s.historyEnd
        ∧ t.inputSide = s.inputSide.change (nextSlot s.historyCurr)) := by
  simp only [historyDown] at h
  split at h
  · rename_i hend
    obtain rfl := Option.some.inj h
    exact Or.inl ⟨hend, rfl⟩
  · rename_i hend
    refine Or.inr ⟨hend, ?_⟩
    have hnext : (if s.historyCurr + 1 ≥ MAX_TERMINAL_HIST_LEN then
        s.historyCurr + 1 - MAX_TERMINAL_HIST_LEN else s.historyCurr + 1)
        = nextSlot s.historyCurr := by
      rw [nextSlot]
      split
      · rw [if_pos (by omega)]
        omega
      · rw [if_neg (by omega)]
    rw [hnext] at h
    have hchange := changeLine_inputSide h
    exact hchange

/-- Completing, and the characters it sends, go to the input line one by one. -/
lemma ttyLs_inputSide (names : Listing) (filename : ℕ → UInt8) (n : ℕ) (s : Tty) :
    (ttyLs names filename n s).inputSide = s.inputSide := by
  simp only [ttyLs]
  rw [rewrite_inputSide, Tty.withDisplay_inputSide]
  split
  · rw [ttyPutBytes_setup, foldl_setup]
  · rw [foldl_setup]

end Keys

/-! ### Calls -/

/-- `screens[process_screen].size_history[k]`. -/
def Tty.savedSize (s : Tty) (k : ℤ) : UInt8 := (s.screens s.processScreen).sizeHistory k

section Calls

variable {s : Tty}

lemma savedSize_setSizeHistory (s : Tty) (k j : ℤ) (n : UInt8) :
    (s.setSizeHistory k n).savedSize j = if j = k then n else s.savedSize j := by
  have hscreen : (s.setSizeHistory k n).processScreen = s.processScreen := rfl
  rw [Tty.savedSize, hscreen]
  simp only [Tty.setSizeHistory, Tty.modifyScreen, Function.update_self]
  exact Function.update_apply _ _ _ _

lemma savedSize_copyLine (s : Tty) (k j : ℤ) : (copyLine s k).savedSize j = s.savedSize j :=
  congrFun ((copyLine_screens k).2 s.processScreen) j

lemma savedSize_moveHistoryEnd (s : Tty) (j : ℤ) :
    (moveHistoryEnd s).savedSize j = s.savedSize j := by
  obtain ⟨-, -, hscreen, -, hscreens⟩ := moveHistoryEnd_spec s
  rw [Tty.savedSize, hscreen, hscreens, Tty.savedSize]

lemma moveHistoryEnd_start (s : Tty) : (moveHistoryEnd s).historyStart =
    if nextSlot s.historyEnd = s.historyStart then s.historyStart + 1 else s.historyStart := by
  simp only [moveHistoryEnd, nextSlot]
  split
  · split <;> rfl
  · split <;> rfl

lemma advanceHistory_eq (s : Tty) : advanceHistory s =
    if s.historyCurr + 1 ≠ s.historyEnd then
      moveHistoryEnd ((if s.historyEnd ≠ s.historyCurr then copyLine s s.historyEnd
        else s).setSizeHistory s.historyEnd (s.bufferSize - 1))
    else s := by
  rw [advanceHistory]
  split
  · split <;> rfl
  · rfl

/-- Where the indices are after the end of the history has made room for a line. -/
lemma advanceHistory_indices (s : Tty) :
    (advanceHistory s).historyCurr = s.historyCurr
      ∧ ((s.historyCurr + 1 = s.historyEnd ∧ (advanceHistory s).historyEnd = s.historyEnd
          ∧ (advanceHistory s).historyStart = s.historyStart)
        ∨ (s.historyCurr + 1 ≠ s.historyEnd
          ∧ (advanceHistory s).historyEnd = nextSlot s.historyEnd
          ∧ (advanceHistory s).historyStart = if nextSlot s.historyEnd = s.historyStart then
            s.historyStart + 1 else s.historyStart)) := by
  rw [advanceHistory_eq]
  rcases eq_or_ne (s.historyCurr + 1) s.historyEnd with h | h
  · rw [if_neg (not_not.mpr h)]
    exact ⟨rfl, Or.inl ⟨h, rfl, rfl⟩⟩
  · rw [if_pos h]
    set t := if s.historyEnd ≠ s.historyCurr then copyLine s s.historyEnd else s with ht
    have hsame : t.historyCurr = s.historyCurr ∧ t.historyEnd = s.historyEnd
        ∧ t.historyStart = s.historyStart := by
      rw [ht]
      split <;> exact ⟨rfl, rfl, rfl⟩
    set v := t.setSizeHistory s.historyEnd (s.bufferSize - 1)
    have hend : v.historyEnd = s.historyEnd := hsame.2.1
    have hstart : v.historyStart = s.historyStart := hsame.2.2
    obtain ⟨hmove, hcurr, -⟩ := moveHistoryEnd_spec v
    refine ⟨hcurr.trans hsame.1, Or.inr ⟨h, ?_, ?_⟩⟩
    · rw [hmove, hend]
    · rw [moveHistoryEnd_start, hend, hstart]

lemma advanceHistory_savedSize (s : Tty) (j : ℤ) :
    (advanceHistory s).savedSize j = s.savedSize j
      ∨ (advanceHistory s).savedSize j = s.bufferSize - 1 := by
  rw [advanceHistory_eq]
  split
  · set t := if s.historyEnd ≠ s.historyCurr then copyLine s s.historyEnd else s with ht
    have hsame : t.savedSize j = s.savedSize j := by
      rw [ht]
      split
      · exact savedSize_copyLine _ _ _
      · rfl
    rw [savedSize_moveHistoryEnd, savedSize_setSizeHistory]
    split
    · exact Or.inr rfl
    · exact Or.inl hsame
  · exact Or.inl rfl

/-- The end of `history_new`. -/
lemma historyNew_eq (s : Tty) :
    let t := advanceHistory (s.setSizeHistory s.historyCurr (s.bufferSize - 1))
    let u := if t.historyEnd ≠ t.historyCurr then copyLine t t.historyEnd else t
    historyNew s = ({ u with historyCurr := u.historyEnd } : Tty).loadLine := rfl

/-- **`history_new`** goes to the end of the history, which it has moved on unless the current line
was the last but one. -/
lemma historyNew_indices (s : Tty) :
    (historyNew s).historyCurr = (historyNew s).historyEnd
      ∧ ((s.historyCurr + 1 = s.historyEnd ∧ (historyNew s).historyEnd = s.historyEnd
          ∧ (historyNew s).historyStart = s.historyStart)
        ∨ (s.historyCurr + 1 ≠ s.historyEnd
          ∧ (historyNew s).historyEnd = nextSlot s.historyEnd
          ∧ (historyNew s).historyStart = if nextSlot s.historyEnd = s.historyStart then
            s.historyStart + 1 else s.historyStart)) := by
  have hadvance := advanceHistory_indices (s.setSizeHistory s.historyCurr (s.bufferSize - 1))
  have hend : (historyNew s).historyEnd
        = (advanceHistory (s.setSizeHistory s.historyCurr (s.bufferSize - 1))).historyEnd
      ∧ (historyNew s).historyStart
        = (advanceHistory (s.setSizeHistory s.historyCurr (s.bufferSize - 1))).historyStart := by
    rw [historyNew_eq]
    split <;> exact ⟨rfl, rfl⟩
  rw [hend.1, hend.2]
  refine ⟨?_, hadvance.2⟩
  rw [← hend.1]
  rfl

/-- **`history_new`** saves the size of the line less one, in some slots, and loads a saved
size. -/
lemma historyNew_savedSize (s : Tty) :
    (∀ j, (historyNew s).savedSize j = s.savedSize j
        ∨ (historyNew s).savedSize j = s.bufferSize - 1)
      ∧ (historyNew s).bufferSize = (historyNew s).savedSize (historyNew s).historyEnd := by
  refine ⟨fun j => ?_, rfl⟩
  set t := advanceHistory (s.setSizeHistory s.historyCurr (s.bufferSize - 1)) with ht
  have hnew : (historyNew s).savedSize j = t.savedSize j := by
    rw [historyNew_eq]
    have hload (u : Tty) :
        ({ u with historyCurr := u.historyEnd } : Tty).loadLine.savedSize j = u.savedSize j := rfl
    simp only [hload]
    split
    · exact savedSize_copyLine _ _ _
    · rfl
  rw [hnew]
  rcases advanceHistory_savedSize (s.setSizeHistory s.historyCurr (s.bufferSize - 1)) j with h | h
  · rw [ht, h, savedSize_setSizeHistory]
    split
    · exact Or.inr rfl
    · exact Or.inl rfl
  · exact Or.inr h

lemma shiftLoop_history (n i j : ℕ) (s : Tty) :
    (shiftLoop n i j s).historyStart = s.historyStart
      ∧ ∀ k, (shiftLoop n i j s).savedSize k = s.savedSize k := by
  induction n generalizing i j s with
  | zero => exact ⟨rfl, fun _ => rfl⟩
  | succ n ih =>
      rw [shiftLoop]
      obtain ⟨hstart, hsize⟩ := ih (i + 1) (j + 1) { s.setInput j (s.input i) with
        ready := if s.input i = NEWLINE then true else (s.setInput j (s.input i)).ready }
      refine ⟨hstart, fun k => (hsize k).trans ?_⟩
      have hside := congrFun (congrFun (congrArg InputSide.sizeHistory
        (Tty.setInput_inputSide s j (s.input i))) s.processScreen) k
      exact hside

/-- **`shift_buffer`** leaves the indices alone, and saves the new size in the current slot. -/
lemma shiftBuffer_history (s : Tty) (i : ℕ) :
    (shiftBuffer s i).historyStart = s.historyStart
      ∧ ∀ k, (shiftBuffer s i).savedSize k
        = if k = s.historyCurr then (shiftBuffer s i).bufferSize else s.savedSize k := by
  obtain ⟨hstart, hsize⟩ :=
    shiftLoop_history (s.bufferSize.toNat - i) i 0 { s with ready := false }
  have hcurr := (shiftLoop_spec (s.bufferSize.toNat - i) i 0 { s with ready := false }
    (Nat.zero_le i)).2.2.2.1
  refine ⟨hstart, fun k => ?_⟩
  rw [shiftBuffer]
  simp only [savedSize_setSizeHistory]
  exact if_congr (by rw [hcurr]) rfl (hsize k)

end Calls

/-! ### Slots -/

/-- `k` is a slot of the history. -/
def IsSlot (k : ℤ) : Prop := 0 ≤ k ∧ k < MAX_TERMINAL_HIST_LEN

instance (k : ℤ) : Decidable (IsSlot k) := inferInstanceAs (Decidable (_ ∧ _))

lemma IsSlot.prev {k : ℤ} (h : IsSlot k) : IsSlot (prevSlot k) := by
  obtain ⟨hk, hk'⟩ := h
  rw [IsSlot, prevSlot, MAX_TERMINAL_HIST_LEN] at *
  split <;> omega

lemma nextSlot_cases (k : ℤ) :
    (k + 1 = 32 ∧ nextSlot k = 0) ∨ (k + 1 ≠ 32 ∧ nextSlot k = k + 1) := by
  rcases eq_or_ne (k + 1) MAX_TERMINAL_HIST_LEN with h | h
  · exact Or.inl ⟨h, if_pos h⟩
  · exact Or.inr ⟨h, if_neg h⟩

lemma IsSlot.next {k : ℤ} (h : IsSlot k) : IsSlot (nextSlot k) := by
  obtain ⟨hk, hk'⟩ := h
  rw [IsSlot, MAX_TERMINAL_HIST_LEN] at *
  rcases nextSlot_cases k with ⟨hwrap, hnext⟩ | ⟨hwrap, hnext⟩
  · rw [hnext]
    omega
  · rw [hnext]
    omega

/-- The three indices. -/
structure Indices where
  start : ℤ
  last : ℤ
  curr : ℤ

namespace Indices

/-- A line is taken.  When the current one is the last but one, its place is used for it; otherwise
the history is one line longer, or begins one line later. -/
def take (v : Indices) : Indices :=
  if v.curr + 1 = v.last then { v with curr := v.last }
  else
    { start := if nextSlot v.last = v.start then v.start + 1 else v.start
      last := nextSlot v.last
      curr := nextSlot v.last }

/-- The indices are slots, and the current one is on the way round from the first to the last. -/
structure Valid (v : Indices) : Prop where
  start : IsSlot v.start
  last : IsSlot v.last
  curr : IsSlot v.curr
  between : (v.curr - v.start) % MAX_TERMINAL_HIST_LEN ≤ (v.last - v.start) % MAX_TERMINAL_HIST_LEN

/-- Taking a line does not push the first one out of the last slot. -/
def HasRoom (v : Indices) : Prop :=
  v.curr + 1 = v.last ∨ nextSlot v.last ≠ v.start ∨ v.start + 1 ≠ MAX_TERMINAL_HIST_LEN

variable {v : Indices}

lemma Valid.up (h : v.Valid) (hne : v.curr ≠ v.start) :
    Valid { v with curr := prevSlot v.curr } := by
  obtain ⟨hstart, hlast, hcurr, hbetween⟩ := h
  refine ⟨hstart, hlast, hcurr.prev, ?_⟩
  simp only [IsSlot, prevSlot, MAX_TERMINAL_HIST_LEN] at *
  split <;> omega

lemma Valid.down (h : v.Valid) (hne : v.curr ≠ v.last) :
    Valid { v with curr := nextSlot v.curr } := by
  obtain ⟨hstart, hlast, hcurr, hbetween⟩ := h
  refine ⟨hstart, hlast, hcurr.next, ?_⟩
  simp only [IsSlot, MAX_TERMINAL_HIST_LEN] at *
  rcases nextSlot_cases v.curr with ⟨hwrap, hnext⟩ | ⟨hwrap, hnext⟩
  · rw [hnext]
    omega
  · rw [hnext]
    omega

/-- **Taking a line** keeps the indices valid exactly when there is room. -/
lemma Valid.take_iff (h : v.Valid) : v.take.Valid ↔ v.HasRoom := by
  obtain ⟨hstart, hlast, hcurr, hbetween⟩ := h
  rw [take, HasRoom]
  rcases eq_or_ne (v.curr + 1) v.last with hreuse | hextend
  · rw [if_pos hreuse]
    exact iff_of_true ⟨hstart, hlast, hlast, le_rfl⟩ (Or.inl hreuse)
  · rw [if_neg hextend, or_iff_right hextend]
    rcases eq_or_ne (nextSlot v.last) v.start with hmeet | hmeet
    · rw [if_pos hmeet, or_iff_right (not_not.mpr hmeet)]
      constructor
      · intro hvalid
        exact hvalid.start.2.ne
      · intro hroom
        obtain ⟨hzero, hlt⟩ := hstart
        exact ⟨⟨by simp only; omega, by simp only; omega⟩, hlast.next, hlast.next, le_rfl⟩
    · rw [if_neg hmeet]
      exact iff_of_true ⟨hstart, hlast.next, hlast.next, le_rfl⟩ (Or.inl hmeet)

end Indices

/-- The indices of a terminal. -/
def Tty.indices (s : Tty) : Indices := ⟨s.historyStart, s.historyEnd, s.historyCurr⟩

/-- The calls that take a line. -/
def TtyOp.Takes : TtyOp → Prop
  | .read fd buf _ => fd ≠ STDOUT ∧ buf ≠ 0
  | .resume _ => True
  | _ => False

section Step

variable {s t : Tty}

lemma indices_congr (h : t.inputSide = s.inputSide) : t.indices = s.indices := by
  have hstart : t.historyStart = s.historyStart := congrArg InputSide.historyStart h
  have hend : t.historyEnd = s.historyEnd := congrArg InputSide.historyEnd h
  have hcurr : t.historyCurr = s.historyCurr := congrArg InputSide.historyCurr h
  rw [Tty.indices, hstart, hend, hcurr, Tty.indices]

lemma enterChar_indices (s : Tty) (c : UInt8) : (enterChar s c).indices = s.indices := by
  cases hacc : accepts s c with
  | true =>
      have hside := enterChar_inputSide hacc
      have hstart : (enterChar s c).historyStart = s.historyStart :=
        congrArg InputSide.historyStart hside
      have hend : (enterChar s c).historyEnd = s.historyEnd := congrArg InputSide.historyEnd hside
      have hcurr : (enterChar s c).historyCurr = s.historyCurr :=
        congrArg InputSide.historyCurr hside
      rw [Tty.indices, hstart, hend, hcurr, Tty.indices]
  | false => rw [enterChar_rejected (by rw [hacc]; exact Bool.false_ne_true)]

lemma ttyCls_inputSide (s : Tty) : (ttyCls s).inputSide = s.inputSide := by
  simp only [ttyCls]
  rw [Tty.withDisplay_inputSide _ (setCursorDefault_setup _), Tty.echoBuffer_inputSide,
    Tty.withDisplay_inputSide]
  split
  · rw [ttyPutBytes_setup]
    rfl
  · rfl

/-- Keys do not concern the indices. -/
lemma sendKey_indices {names : Listing} {depth : ℕ} {c : UInt8}
    (h : sendKey names depth s c = some t) : t.indices = s.indices := by
  refine sendKey_rel (R := fun s t => t.indices = s.indices) (fun _ => rfl)
    (fun _ _ _ h h' => h'.trans h) (fun _ _ => rfl)
    (fun names filename n s => indices_congr (ttyLs_inputSide names filename n s))
    (fun s c hc => ?_) h
  rw [ttySendchar]
  split
  · exact indices_congr (s := s) (ttyCls_inputSide s)
  · split
    · rfl
    · exact enterChar_indices s c

lemma takeLine_indices {nbytes n : ℤ} {bytes : List UInt8}
    (h : takeLine s nbytes = some (n, bytes, t)) : t.indices = s.indices.take := by
  rw [takeLine] at h
  split at h
  · obtain ⟨-, -, rfl⟩ := h
    set w := historyNew s with hw
    set i := (readLoop s nbytes s.bufferSize.toNat 0).length
    obtain ⟨-, -, -, hcurr, hend⟩ := shiftBuffer_line w i
    obtain ⟨hlatest, hcases⟩ := historyNew_indices s
    rw [← hw] at hlatest hcases
    rw [Tty.indices, hcurr, hend, (shiftBuffer_history w i).1, hlatest, Indices.take]
    rcases hcases with ⟨hreuse, hend', hstart'⟩ | ⟨hextend, hend', hstart'⟩
    · have hcurr' : s.indices.curr + 1 = s.indices.last := hreuse
      rw [if_pos hcurr', hend', hstart']
      rfl
    · have hcurr' : s.indices.curr + 1 ≠ s.indices.last := hextend
      rw [if_neg hcurr', hend', hstart']
      rfl
  · exact absurd h (by simp)

/-- The indices after a history key. -/
lemma change_indices {curr : ℤ} (h : t.inputSide = s.inputSide.change curr) :
    t.indices = { s.indices with curr := curr } := by
  have hstart : t.historyStart = s.historyStart := congrArg InputSide.historyStart h
  have hend : t.historyEnd = s.historyEnd := congrArg InputSide.historyEnd h
  have hcurr : t.historyCurr = curr := congrArg InputSide.historyCurr h
  rw [Tty.indices, hstart, hend, hcurr, Tty.indices]

/-- **An operation** takes a line, or moves the current line by a slot, or leaves the indices
alone. -/
lemma run_indices {op : TtyOp} (hs : s.historyCurr < MAX_TERMINAL_HIST_LEN)
    (ht : op.run s = some t) :
    (op.Takes ∧ t.indices = s.indices.take)
      ∨ (¬ op.Takes ∧ (t.indices = s.indices
        ∨ (s.historyCurr ≠ s.historyStart
          ∧ t.indices = { s.indices with curr := prevSlot s.historyCurr })
        ∨ (s.historyCurr ≠ s.historyEnd
          ∧ t.indices = { s.indices with curr := nextSlot s.historyCurr }))) := by
  cases op with
  | key c names depth => exact Or.inr ⟨id, Or.inl (sendKey_indices ht)⟩
  | backspace =>
      obtain rfl := Option.some.inj ht
      refine Or.inr ⟨id, Or.inl ?_⟩
      rw [ttyBackspace]
      split
      · split <;> rfl
      · rfl
  | historyUp =>
      rcases historyUp_inputSide ht with ⟨-, hside⟩ | ⟨hstart, hside⟩
      · exact Or.inr ⟨id, Or.inl (indices_congr hside)⟩
      · exact Or.inr ⟨id, Or.inr (Or.inl ⟨hstart, change_indices hside⟩)⟩
  | historyDown =>
      rcases historyDown_inputSide ht hs with ⟨-, hside⟩ | ⟨hend, hside⟩
      · exact Or.inr ⟨id, Or.inl (indices_congr hside)⟩
      · exact Or.inr ⟨id, Or.inr (Or.inr ⟨hend, change_indices hside⟩)⟩
  | write fd buf nbytes =>
      obtain rfl := Option.some.inj ht
      refine Or.inr ⟨id, Or.inl ?_⟩
      simp only [ttyWrite]
      split
      · rfl
      · cases buf with
        | none => rfl
        | some bytes => rfl
  | read fd buf nbytes =>
      obtain ⟨⟨n, bytes, u⟩, hread, rfl⟩ := Option.map_eq_some_iff.mp ht
      rw [ttyRead_eq] at hread
      split at hread
      · rename_i hfd
        obtain ⟨-, -, rfl⟩ := hread
        exact Or.inr ⟨fun h => h.1 hfd, Or.inl rfl⟩
      · rename_i hfd
        split at hread
        · rename_i hbuf
          obtain ⟨-, -, rfl⟩ := hread
          exact Or.inr ⟨fun h => h.2 hbuf, Or.inl rfl⟩
        · rename_i hbuf
          refine Or.inl ⟨⟨hfd, hbuf⟩, ?_⟩
          rw [← indices_congr s.showLine_inputSide]
          exact takeLine_indices hread
  | wait fd buf =>
      rw [TtyOp.run] at ht
      split at ht
      · exact absurd ht (by simp)
      · obtain rfl := Option.some.inj ht
        exact Or.inr ⟨id, Or.inl (indices_congr s.showLine_inputSide)⟩
  | resume nbytes =>
      obtain ⟨⟨n, bytes, u⟩, htake, rfl⟩ := Option.map_eq_some_iff.mp ht
      exact Or.inl ⟨trivial, takeLine_indices htake⟩
  | clearBuf =>
      obtain rfl := Option.some.inj ht
      exact Or.inr ⟨id, Or.inl rfl⟩
  | setAttrib a =>
      obtain rfl := Option.some.inj ht
      exact Or.inr ⟨id, Or.inl rfl⟩
  | video offset b =>
      rw [TtyOp.run] at ht
      split at ht
      · obtain rfl := Option.some.inj ht
        exact Or.inr ⟨id, Or.inl rfl⟩
      · exact absurd ht (by simp)

/-- **The history ring.**  From valid indices, they are valid in all states of a run exactly when no
call that takes a line finds the last line in front of the first one and that in the last slot. -/
theorem historyIndices_iff {es : List TtyOp} {z : Tty} (hs : s.indices.Valid)
    (hrun : Run TtyOp.run s es z) :
    EveryState TtyOp.run s es (fun t => t.indices.Valid)
      ↔ EveryStep TtyOp.run s es (fun t op => op.Takes → t.indices.HasRoom) := by
  refine everyState_iff_everyStep (V := fun _ => True) (I := fun _ => True) hrun
    (fun _ _ => trivial) trivial hs ?_ fun _ _ _ _ _ _ _ _ => trivial
  intro t op u _ _ ht hu
  rcases run_indices ht.curr.2 hu with ⟨htakes, hindices⟩ | ⟨htakes, hindices⟩
  · rw [hindices, ht.take_iff]
    exact ⟨fun h _ => h, fun h => h htakes⟩
  · refine iff_of_true ?_ fun h => absurd h htakes
    rcases hindices with hsame | ⟨hstart, hup⟩ | ⟨hend, hdown⟩
    · rw [hsame]
      exact ht
    · rw [hup]
      exact ht.up hstart
    · rw [hdown]
      exact ht.down hend

end Step

/-! ### Empty lines -/

/-- Enter on an empty line, and a call that takes the line. -/
def emptyLine : List TtyOp := [.key NEWLINE [] 1, .read STDIN 0x8000000 1]

/-- So many empty lines. -/
def emptyLines : ℕ → List TtyOp
  | 0 => []
  | n + 1 => emptyLines n ++ emptyLine

/-- Nothing has been typed but empty lines. -/
structure Blank (s : Tty) : Prop where
  atLatest : AtLatest s
  empty : s.bufferSize = 0
  saved : ∀ k, s.savedSize k = 0

/-- An empty line is taken, and the next one is empty. -/
lemma emptyLine_run {s : Tty} (hs : Blank s) :
    ∃ t, Run TtyOp.run s emptyLine t ∧ Blank t ∧ t.indices = s.indices.take := by
  have hacc : accepts s NEWLINE = true := by
    rw [accepts, hs.empty]
    decide
  have hside := enterChar_inputSide hacc
  set u : Tty := { enterChar s NEWLINE with tabLs := false } with hu
  have huside : u.inputSide = (enterChar s NEWLINE).inputSide := rfl
  have hkey : TtyOp.run s (.key NEWLINE [] 1) = some u := by
    rw [TtyOp.run, sendKey, if_neg (by decide), if_neg fun h => absurd h.1 (by decide), ttySendchar,
      if_neg (by decide), if_neg (by decide), if_neg (by decide)]
  set v := showLine u with hv
  have hvside : v.inputSide = { s.inputSide.setInput s.bufferSize.toNat NEWLINE with
      bufferSize := s.bufferSize + 1, ready := if NEWLINE = NEWLINE then true else s.ready } := by
    rw [hv, u.showLine_inputSide, huside, hside]
  have hready : v.ready = true := congrArg InputSide.ready hvside
  have hsize : v.bufferSize = 1 := by
    have hplus : v.bufferSize = s.bufferSize + 1 := congrArg InputSide.bufferSize hvside
    rw [hplus, hs.empty]
    rfl
  have hsaved (k : ℤ) : v.savedSize k = 0 := by
    have hscreen : v.processScreen = s.processScreen := congrArg InputSide.processScreen hvside
    have hsizes := congrFun (congrFun (congrArg InputSide.sizeHistory hvside) s.processScreen) k
    calc v.savedSize k = v.inputSide.sizeHistory v.processScreen k := rfl
      _ = v.inputSide.sizeHistory s.processScreen k := by rw [hscreen]
      _ = s.savedSize k := hsizes
      _ = 0 := hs.saved k
  set i := (readLoop v 1 v.bufferSize.toNat 0).length with hi
  set w := historyNew v with hw
  have htake : takeLine v 1
      = some ((i : ℤ), readLoop v 1 v.bufferSize.toNat 0, shiftBuffer w i) := if_pos hready
  have hread : TtyOp.run u (.read STDIN 0x8000000 1) = some (shiftBuffer w i) := by
    rw [TtyOp.run, ttyRead_eq, if_neg (by decide), if_neg (by decide), htake]
    rfl
  -- all sizes saved are those of empty lines
  obtain ⟨hnew, hload⟩ := historyNew_savedSize v
  rw [← hw, hsize] at hnew
  have hwsaved (k : ℤ) : w.savedSize k = 0 := by
    rcases hnew k with h | h
    · rw [h, hsaved]
    · rw [h]
      rfl
  have hwsize : w.bufferSize = 0 := hload.trans (hwsaved _)
  have htsize : (shiftBuffer w i).bufferSize = 0 := by
    have hsub : (shiftBuffer w i).bufferSize = (w.bufferSize.toNat - i).toUInt8 := rfl
    rw [hsub, hwsize, UInt8.toNat_zero, Nat.zero_sub]
    rfl
  obtain ⟨-, hptr, hscreen, hcurr, hend⟩ := shiftBuffer_line w i
  refine ⟨shiftBuffer w i, ?_, ⟨⟨?_, ?_, ?_⟩, htsize, fun k => ?_⟩, ?_⟩
  · exact run_cons_iff.mpr ⟨u, hkey, run_cons_iff.mpr ⟨_, hread, Run.nil⟩⟩
  · rw [hptr, hscreen, hcurr]
    rfl
  · rw [hcurr, hend]
    exact (historyNew_indices v).1
  · rw [htsize]
    exact Nat.zero_le _
  · rw [(shiftBuffer_history w i).2 k, htsize, hwsaved k, ite_self]
  · rw [takeLine_indices htake, hv, indices_congr u.showLine_inputSide, indices_congr huside,
      enterChar_indices]

lemma emptyLines_run {s : Tty} (hs : Blank s) (n : ℕ) :
    ∃ t, Run TtyOp.run s (emptyLines n) t ∧ Blank t ∧ t.indices = Indices.take^[n] s.indices := by
  induction n with
  | zero => exact ⟨s, Run.nil, hs, rfl⟩
  | succ n ih =>
      obtain ⟨t, hrun, ht, hindices⟩ := ih
      obtain ⟨u, hrun', hu, hindices'⟩ := emptyLine_run ht
      refine ⟨u, run_append_iff.mpr ⟨t, hrun, hrun'⟩, hu, ?_⟩
      rw [hindices', hindices, ← Function.iterate_succ_apply' Indices.take]

lemma freshTty_blank : Blank freshTty := ⟨freshTty_atLatest, rfl, fun _ => rfl⟩

lemma freshTty_valid : freshTty.indices.Valid := ⟨by decide, by decide, by decide, by decide⟩

/-- The equivalence applies to a run of empty lines. -/
theorem historyIndices_iff_emptyLines :
    EveryState TtyOp.run freshTty (emptyLines 63) (fun t => t.indices.Valid)
      ↔ EveryStep TtyOp.run freshTty (emptyLines 63) (fun t op => op.Takes → t.indices.HasRoom) := by
  obtain ⟨z, hrun, -⟩ := emptyLines_run freshTty_blank 63
  exact historyIndices_iff freshTty_valid hrun

/-- **The first line leaves the ring**: after 63 lines `history_start` is 32, which is no slot. -/
theorem historyIndices_emptyLines :
    freshTty.indices.Valid ∧ ∃ t, Run TtyOp.run freshTty (emptyLines 63) t
      ∧ t.historyStart = MAX_TERMINAL_HIST_LEN ∧ ¬ t.indices.Valid := by
  obtain ⟨t, hrun, -, hindices⟩ := emptyLines_run freshTty_blank 63
  have hstart : t.historyStart = MAX_TERMINAL_HIST_LEN := by
    have hiterate : (Indices.take^[63] ⟨0, 0, 0⟩).start = MAX_TERMINAL_HIST_LEN := by
      decide +kernel
    exact (congrArg Indices.start hindices).trans hiterate
  exact ⟨freshTty_valid, t, hrun, hstart, fun hvalid => hvalid.start.2.ne hstart⟩

end CustomLinuxOs
