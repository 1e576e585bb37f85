import CustomLinuxOs.Foundations.Run
import CustomLinuxOs.Terminal.Tty

/-!
The input buffer of a terminal as a queue: key presses go in at `tty_sendchar`, and `tty_read`
takes them out.

* `InputEvent`, `inputStep`: a key press or a call; the state keeps what has been typed and what
  has been returned.
* `Lossless`: the bytes returned, followed by those in the buffer, are the bytes typed.
* `FitsStale`: the condition on a call.  `history_new` takes the size of the buffer from a slot of
  the history ring that was last used one turn of the ring ago, and `shift_buffer` goes by it.
* `ttyRead_line`: what a call returns and leaves in the buffer.
* `inputFifo_lossless_iff`: the input is lossless in all states of a run exactly when every call
  meets the condition.
-/

namespace CustomLinuxOs

/-! ### Events -/

/-- A key, or a call of `tty_read`. -/
inductive InputEvent where
  | key (c : UInt8)
  | read (fd : ℤ) (buf : UInt32) (nbytes : ℤ)

/-- A terminal, the keys it has accepted and the bytes it has returned. -/
structure InputTrace where
  tty : Tty
  typed : List UInt8
  returned : List UInt8

/-- The bytes in the input buffer. -/
def Tty.line (s : Tty) : List UInt8 := (List.range s.bufferSize.toNat).map s.input

/-- `tty_sendchar` has room for the key; the last place is for Enter. -/
def accepts (s : Tty) (c : UInt8) : Bool :=
  s.bufferSize.toNat < MAX_TERMINAL_BUF_SIZE - 1
    || (s.bufferSize.toNat == MAX_TERMINAL_BUF_SIZE - 1 && c == NEWLINE)

/-- One event; a call waits until `ready` is set. -/
def inputStep (tabComplete : Tty → Tty) (t : InputTrace) : InputEvent → Option InputTrace
  | .key c => some
      { t with
        tty := ttySendchar tabComplete t.tty c
        typed := if accepts t.tty c then t.typed ++ [c] else t.typed }
  | .read fd buf nbytes => (ttyRead t.tty fd buf nbytes).map fun r =>
      { t with tty := r.2.2, returned := t.returned ++ r.2.1 }

/-- A printable key or Enter, and a call for at least one byte into a buffer. -/
def Ordinary : InputEvent → Prop
  | .key c => isPrintable c = true ∧ c ≠ TAB
  | .read fd buf nbytes => fd ≠ STDOUT ∧ buf ≠ 0 ∧ 0 < nbytes

/-- Nothing typed is lost, repeated or out of order, and nothing else is in the buffer. -/
def Lossless (t : InputTrace) : Prop := t.returned ++ t.tty.line = t.typed

/-- How much of a line a call for `nbytes` bytes takes: up to its first newline, if it can. -/
def lineTaken (line : List UInt8) (nbytes : ℤ) : ℕ :=
  min nbytes.toNat (min line.length (line.idxOf NEWLINE + 1))

/-- The history slot after `k`. -/
def nextSlot (k : ℤ) : ℤ := if k + 1 = MAX_TERMINAL_HIST_LEN then 0 else k + 1

/-- The size that is saved in the history slot the next line will use. -/
def staleSize (s : Tty) : ℕ :=
  ((s.screens s.processScreen).sizeHistory (nextSlot s.historyEnd)).toNat

/-- The condition on a call: the size saved in the next history slot is the size of the buffer;
or at most that, when the call takes all of the buffer. -/
def FitsStale (t : InputTrace) : InputEvent → Prop
  | .key _ => True
  | .read _ _ nbytes =>
      let n := t.tty.bufferSize.toNat
      let i := lineTaken t.tty.line nbytes
      (i = n ∧ staleSize t.tty ≤ n) ∨ (i < n ∧ staleSize t.tty = n)

/-- The input line is the latest of the history, and within its buffer. -/
structure AtLatest (s : Tty) : Prop where
  pointer : s.inputBuffer = (s.processScreen, s.historyCurr)
  latest : s.historyCurr = s.historyEnd
  size : s.bufferSize.toNat ≤ MAX_TERMINAL_BUF_SIZE

/-! ### Keys -/

section Input

variable {s : Tty}

lemma line_congr {t : Tty} (h : t.inputSide = s.inputSide) : t.line = s.line := by
  have hsize : t.bufferSize = s.bufferSize := congrArg InputSide.bufferSize h
  have hinput : t.input = s.input := by
    funext i
    rw [Tty.input_eq, h, Tty.input_eq]
  rw [Tty.line, Tty.line, hsize, hinput]

lemma AtLatest.congr {t : Tty} (hs : AtLatest s) (h : t.inputSide = s.inputSide) : AtLatest t where
  pointer := by
    rw [show t.inputBuffer = s.inputBuffer from congrArg InputSide.inputBuffer h,
      show t.processScreen = s.processScreen from congrArg InputSide.processScreen h,
      show t.historyCurr = s.historyCurr from congrArg InputSide.historyCurr h]
    exact hs.pointer
  latest := by
    rw [show t.historyCurr = s.historyCurr from congrArg InputSide.historyCurr h,
      show t.historyEnd = s.historyEnd from congrArg InputSide.historyEnd h]
    exact hs.latest
  size := by
    rw [show t.bufferSize = s.bufferSize from congrArg InputSide.bufferSize h]
    exact hs.size

lemma Tty.line_length : s.line.length = s.bufferSize.toNat := by simp [Tty.line]

lemma Tty.line_getElem? {i : ℕ} (hi : i < s.bufferSize.toNat) : s.line[i]? = some (s.input i) := by
  simp [Tty.line, hi]

/-- The next place of the buffer. -/
lemma line_push {c : UInt8} {t : Tty} (hsize : t.bufferSize = s.bufferSize + 1)
    (hlt : s.bufferSize.toNat < MAX_TERMINAL_BUF_SIZE)
    (hinput : ∀ k, t.input k = if k = s.bufferSize.toNat then c else s.input k) :
    t.line = s.line ++ [c] := by
  have hn : t.bufferSize.toNat = s.bufferSize.toNat + 1 := by
    rw [MAX_TERMINAL_BUF_SIZE] at hlt
    rw [hsize, UInt8.toNat_add, UInt8.toNat_one]
    omega
  rw [Tty.line, Tty.line, hn, List.range_succ, List.map_append]
  congr 1
  · refine List.map_congr_left fun k hk => ?_
    rw [hinput, if_neg (Nat.ne_of_lt (List.mem_range.mp hk))]
  · rw [List.map_singleton, hinput, if_pos rfl]

lemma accepts_size_lt {c : UInt8} (h : accepts s c = true) :
    s.bufferSize.toNat < MAX_TERMINAL_BUF_SIZE := by
  simp only [accepts, Bool.or_eq_true, Bool.and_eq_true, decide_eq_true_eq, beq_iff_eq] at h
  rw [MAX_TERMINAL_BUF_SIZE] at *
  omega

/-- A key that is accepted goes to the next place of the buffer. -/
lemma enterChar_inputSide {c : UInt8} (h : accepts s c = true) :
    (enterChar s c).inputSide = { s.inputSide.setInput s.bufferSize.toNat c with
      bufferSize := s.bufferSize + 1, ready := if c = NEWLINE then true else s.ready } := by
  by_cases hroom : s.bufferSize.toNat < MAX_TERMINAL_BUF_SIZE - 1
  · set t := s.setInput s.bufferSize.toNat c with ht
    have hside : (({ t with display := (ttyEcho t.display c).2 } : Tty).setWidth
        s.bufferSize.toNat (ttyEcho t.display c).1).inputSide = t.inputSide := by
      rw [Tty.setWidth_inputSide, Tty.withDisplay_inputSide _ (ttyEcho_setup _ _)]
    rw [enterChar, if_pos hroom, ← Tty.setInput_inputSide, ← ht, ← hside]
    rfl
  · obtain ⟨hsize, rfl⟩ : s.bufferSize.toNat = MAX_TERMINAL_BUF_SIZE - 1 ∧ c = NEWLINE := by
      simpa [accepts, hroom] using h
    have hside : ({ s with display := (ttyEcho s.display NEWLINE).2 } : Tty).inputSide
        = s.inputSide := Tty.withDisplay_inputSide _ (ttyEcho_setup _ _)
    rw [enterChar, if_neg hroom, if_pos hsize, if_pos rfl, ← hside, ← Tty.setInput_inputSide]
    rfl

/-- A key that is not accepted changes nothing. -/
lemma enterChar_rejected {c : UInt8} (h : ¬ accepts s c = true) : enterChar s c = s := by
  simp only [accepts, Bool.or_eq_true, Bool.and_eq_true, decide_eq_true_eq, beq_iff_eq,
    not_or, not_and] at h
  rw [enterChar, if_neg h.1]
  split
  · rw [if_neg (h.2 ‹_›)]
  · rfl

/-- **A character** goes to the end of the buffer if it is accepted. -/
lemma enterChar_line (s : Tty) (c : UInt8) :
    (enterChar s c).line = s.line ++ (if accepts s c then [c] else []) := by
  by_cases hacc : accepts s c = true
  · have hside := enterChar_inputSide hacc
    rw [if_pos hacc]
    refine line_push (congrArg InputSide.bufferSize hside) (accepts_size_lt hacc) fun k => ?_
    rw [Tty.input_eq, hside, Tty.input_eq, ← InputSide.setInput_input]
    rfl
  · rw [enterChar_rejected hacc, if_neg hacc, List.append_nil]

lemma ttySendchar_inputSide (tabComplete : Tty → Tty) (s : Tty) {c : UInt8}
    (hc : isPrintable c = true) (htab : c ≠ TAB) :
    (ttySendchar tabComplete s c).inputSide = (enterChar s c).inputSide := by
  have hcls : c ≠ 0x0c := by rintro rfl; exact absurd hc (by decide)
  have h255 : c ≠ 255 := by rintro rfl; exact absurd hc (by decide)
  rw [ttySendchar, if_neg hcls, if_neg htab, if_neg h255]
  rfl

/-- **A key** goes to the end of the buffer if it is accepted. -/
lemma ttySendchar_line (tabComplete : Tty → Tty) (hs : AtLatest s) {c : UInt8}
    (hc : isPrintable c = true) (htab : c ≠ TAB) :
    AtLatest (ttySendchar tabComplete s c) ∧ (ttySendchar tabComplete s c).line
      = s.line ++ (if accepts s c then [c] else []) := by
  have hsend := ttySendchar_inputSide tabComplete s hc htab
  suffices h : AtLatest (enterChar s c) from
    ⟨h.congr hsend, (line_congr hsend).trans (enterChar_line s c)⟩
  by_cases hacc : accepts s c = true
  · have hside := enterChar_inputSide hacc
    have hlt := accepts_size_lt hacc
    have hsize : (enterChar s c).bufferSize = s.bufferSize + 1 :=
      congrArg InputSide.bufferSize hside
    refine ⟨?_, ?_, ?_⟩
    · rw [show (enterChar s c).inputBuffer = s.inputBuffer from
          congrArg InputSide.inputBuffer hside,
        show (enterChar s c).processScreen = s.processScreen from
          congrArg InputSide.processScreen hside,
        show (enterChar s c).historyCurr = s.historyCurr from
          congrArg InputSide.historyCurr hside]
      exact hs.pointer
    · rw [show (enterChar s c).historyCurr = s.historyCurr from
          congrArg InputSide.historyCurr hside,
        show (enterChar s c).historyEnd = s.historyEnd from congrArg InputSide.historyEnd hside]
      exact hs.latest
    · rw [MAX_TERMINAL_BUF_SIZE] at hlt
      rw [hsize, UInt8.toNat_add, UInt8.toNat_one, MAX_TERMINAL_BUF_SIZE]
      omega
  · rw [enterChar_rejected hacc]
    exact hs

/-! ### Calls -/

/-- The copying loop takes the front of the buffer. -/
lemma readLoop_eq (s : Tty) (nbytes : ℤ) (n i : ℕ) :
    readLoop s nbytes n i
      = ((List.range n).map fun k => s.input (i + k)).take
        (lineTaken ((List.range n).map fun k => s.input (i + k)) (nbytes - i)) := by
  induction n generalizing i with
  | zero => simp [readLoop]
  | succ n ih =>
      have hshift : (List.range (n + 1)).map (fun k => s.input (i + k))
          = s.input i :: (List.range n).map fun k => s.input (i + 1 + k) := by
        rw [List.range_succ_eq_map, List.map_cons, List.map_map, Nat.add_zero]
        congr 1
        refine List.map_congr_left fun k _ => ?_
        rw [Function.comp_apply, Nat.succ_eq_add_one, show i + (k + 1) = i + 1 + k by omega]
      rw [hshift, readLoop, lineTaken]
      by_cases hi : (i : ℤ) < nbytes
      · rw [if_pos hi, List.length_cons, List.idxOf_cons]
        by_cases hnl : s.input i = NEWLINE
        · rw [if_pos hnl, hnl, show min (nbytes - i).toNat (min _ (_ + 1)) = 1 from ?_]
          · rfl
          · simp only [beq_self_eq_true, cond_true]
            omega
        · rw [if_neg hnl, ih]
          have hbeq : (s.input i == NEWLINE) = false := by simpa using hnl
          rw [hbeq, cond_false, lineTaken]
          set l := (List.range n).map fun k => s.input (i + 1 + k)
          rw [show min (nbytes - i).toNat (min (l.length + 1) (l.idxOf NEWLINE + 1 + 1))
            = min (nbytes - ((i + 1 : ℕ) : ℤ)).toNat (min l.length (l.idxOf NEWLINE + 1)) + 1 by
              omega]
          rfl
      · rw [if_neg hi, show (nbytes - i).toNat = 0 by omega, Nat.zero_min, List.take_zero]

lemma setSizeHistory_screens (k : ℤ) (b : UInt8) (n : ℤ) :
    ((s.setSizeHistory k b).screens n).inputHistory = (s.screens n).inputHistory
      ∧ ∀ m ≠ k, ((s.setSizeHistory k b).screens n).sizeHistory m
          = (s.screens n).sizeHistory m := by
  by_cases hn : n = s.processScreen
  · subst hn
    simp only [Tty.setSizeHistory, Tty.modifyScreen, Function.update_self, true_and]
    exact fun m hm => Function.update_of_ne hm _ _
  · simp [Tty.setSizeHistory, Tty.modifyScreen, hn]

/-- The loop of `shift_buffer` moves the bytes down. -/
lemma shiftLoop_spec (n i j : ℕ) (s : Tty) (hji : j ≤ i) :
    (∀ k, (shiftLoop n i j s).input k
        = if j ≤ k ∧ k < j + n then s.input (i + (k - j)) else s.input k)
      ∧ (shiftLoop n i j s).inputBuffer = s.inputBuffer
      ∧ (shiftLoop n i j s).processScreen = s.processScreen
      ∧ (shiftLoop n i j s).historyCurr = s.historyCurr
      ∧ (shiftLoop n i j s).historyEnd = s.historyEnd := by
  induction n generalizing i j s with
  | zero =>
      refine ⟨fun k => ?_, rfl, rfl, rfl, rfl⟩
      rw [shiftLoop, if_neg (by omega)]
  | succ n ih =>
      simp only [shiftLoop]
      set t : Tty := { s.setInput j (s.input i) with
        ready := if s.input i = NEWLINE then true else (s.setInput j (s.input i)).ready } with ht
      have htk : ∀ k, t.input k = if k = j then s.input i else s.input k := by
        intro k
        rw [Tty.input_eq s k, ← InputSide.setInput_input, ← Tty.setInput_inputSide]
        rfl
      obtain ⟨hin, hptr, hscr, hcurr, hend⟩ := ih (i + 1) (j + 1) t (by omega)
      refine ⟨fun k => ?_, hptr, hscr, hcurr, hend⟩
      rw [hin]
      by_cases hk : j + 1 ≤ k ∧ k < j + 1 + n
      · rw [if_pos hk, if_pos (by omega), htk, if_neg (by omega)]
        congr 1
        omega
      · rw [if_neg hk, htk]
        by_cases hkj : k = j
        · rw [if_pos hkj, if_pos (by omega), hkj, Nat.sub_self, Nat.add_zero]
        · rw [if_neg hkj, if_neg (by omega)]

/-- **`shift_buffer`** drops the first `i` bytes of the buffer. -/
lemma shiftBuffer_line (s : Tty) (i : ℕ) :
    (shiftBuffer s i).line
        = (List.range (s.bufferSize.toNat - i)).map (fun k => s.input (i + k))
      ∧ (shiftBuffer s i).inputBuffer = s.inputBuffer
      ∧ (shiftBuffer s i).processScreen = s.processScreen
      ∧ (shiftBuffer s i).historyCurr = s.historyCurr
      ∧ (shiftBuffer s i).historyEnd = s.historyEnd := by
  obtain ⟨hin, hptr, hscr, hcurr, hend⟩ :=
    shiftLoop_spec (s.bufferSize.toNat - i) i 0 { s with ready := false } (Nat.zero_le i)
  refine ⟨?_, hptr, hscr, hcurr, hend⟩
  have hsize : (shiftBuffer s i).bufferSize.toNat = s.bufferSize.toNat - i := by
    show (s.bufferSize.toNat - i).toUInt8.toNat = _
    rw [show (s.bufferSize.toNat - i).toUInt8.toNat = (s.bufferSize.toNat - i) % 2 ^ 8 from
      UInt8.toNat_ofNat']
    have := s.bufferSize.toNat_lt
    omega
  rw [Tty.line, hsize]
  refine List.map_congr_left fun k hk => ?_
  rw [Tty.input, shiftBuffer, (setSizeHistory_screens _ _ _).1]
  refine (hin k).trans ?_
  rw [if_pos ⟨Nat.zero_le k, by rw [Nat.zero_add]; exact List.mem_range.mp hk⟩]
  rfl

lemma moveHistoryEnd_spec (s : Tty) :
    (moveHistoryEnd s).historyEnd = nextSlot s.historyEnd
      ∧ (moveHistoryEnd s).historyCurr = s.historyCurr
      ∧ (moveHistoryEnd s).processScreen = s.processScreen
      ∧ (moveHistoryEnd s).inputBuffer = s.inputBuffer
      ∧ (moveHistoryEnd s).screens = s.screens := by
  simp only [moveHistoryEnd, nextSlot]
  by_cases hwrap : s.historyEnd + 1 = MAX_TERMINAL_HIST_LEN
  · simp only [hwrap, if_true]
    split <;> exact ⟨rfl, rfl, rfl, rfl, rfl⟩
  · simp only [hwrap, if_false]
    split <;> exact ⟨rfl, rfl, rfl, rfl, rfl⟩

/-- The slot a line is copied to. -/
lemma copyLine_screens (k : ℤ) :
    ((copyLine s k).screens s.processScreen).inputHistory k
        = strncpy ((s.screens s.processScreen).inputHistory k) s.input MAX_TERMINAL_BUF_SIZE
      ∧ ∀ n, ((copyLine s k).screens n).sizeHistory = (s.screens n).sizeHistory := by
  refine ⟨by simp [copyLine, Tty.modifyScreen], fun n => ?_⟩
  by_cases hn : n = s.processScreen
  · subst hn
    simp [copyLine, Tty.modifyScreen]
  · simp [copyLine, Tty.modifyScreen, hn]

/-- **`history_new`** at the end of the history: the next slot becomes the input buffer, with a
copy of the line and with the size that was saved there. -/
lemma historyNew_spec (hs : AtLatest s) :
    (historyNew s).inputBuffer = (s.processScreen, nextSlot s.historyEnd)
      ∧ (historyNew s).processScreen = s.processScreen
      ∧ (historyNew s).historyCurr = nextSlot s.historyEnd
      ∧ (historyNew s).historyEnd = nextSlot s.historyEnd
      ∧ (historyNew s).bufferSize.toNat = staleSize s
      ∧ ∀ k < MAX_TERMINAL_BUF_SIZE, (∀ l < k + 1, s.input l ≠ 0) →
        (historyNew s).input k = s.input k := by
  set e := s.historyEnd with he
  have hne : nextSlot e ≠ e := by
    rw [nextSlot, MAX_TERMINAL_HIST_LEN]
    split <;> omega
  -- the size of the line is saved twice in the old slot, before the end moves on
  set v := s.setSizeHistory e (s.bufferSize - 1) with hv
  set w := v.setSizeHistory e (s.bufferSize - 1) with hw
  set t := moveHistoryEnd w with ht
  obtain ⟨hend, hcurr, hscr, hptr, hscreens⟩ := moveHistoryEnd_spec w
  have hadvance : advanceHistory v = t := by
    rw [advanceHistory, show v.historyCurr = e from hs.latest, show v.historyEnd = e from rfl,
      if_pos (by omega), if_neg (not_not.mpr rfl)]
    rfl
  have hnew : historyNew s
      = ({ copyLine t (nextSlot e) with historyCurr := nextSlot e } : Tty).loadLine := by
    have htend : t.historyEnd = nextSlot e := hend
    have htcurr : t.historyCurr = e := hcurr.trans hs.latest
    rw [historyNew, hs.latest, ← he, ← hv, hadvance]
    simp only [htend, htcurr, if_pos hne]
    rw [show (copyLine t (nextSlot e)).historyEnd = t.historyEnd from rfl, htend]
  have htin : t.input = s.input := by
    funext k
    rw [Tty.input, Tty.input, show t.inputBuffer = s.inputBuffer from hptr, hscreens, hw,
      (setSizeHistory_screens _ _ _).1, hv, (setSizeHistory_screens _ _ _).1]
  have hcopy := copyLine_screens (s := t) (nextSlot e)
  have htscr : t.processScreen = s.processScreen := hscr
  rw [htscr] at hcopy
  refine ⟨by rw [hnew]; exact congrArg (·, nextSlot e) htscr, by rw [hnew]; exact htscr,
    by rw [hnew]; rfl, by rw [hnew]; exact hend, ?_, fun k hk hnz => ?_⟩
  · rw [hnew]
    show (((copyLine t (nextSlot e)).screens t.processScreen).sizeHistory (nextSlot e)).toNat = _
    rw [hcopy.2, htscr, hscreens, hw, (setSizeHistory_screens _ _ _).2 _ hne, hv,
      (setSizeHistory_screens _ _ _).2 _ hne]
    rfl
  · rw [hnew]
    show ((copyLine t (nextSlot e)).screens t.processScreen).inputHistory (nextSlot e) k = _
    rw [htscr, hcopy.1, strncpy, if_pos hk, if_pos, htin]
    rw [htin]
    exact hnz

/-- **`tty_read`**: it returns the front of the line, and leaves in the buffer what `history_new`
makes of the rest. -/
lemma ttyRead_line (hs : AtLatest s) {fd : ℤ} {buf : UInt32} {nbytes n : ℤ} {bytes : List UInt8}
    {t : Tty} (hfd : fd ≠ STDOUT) (hbuf : buf ≠ 0)
    (hread : ttyRead s fd buf nbytes = some (n, bytes, t)) :
    let i := lineTaken s.line nbytes
    bytes = s.line.take i ∧ t.line.length = staleSize s - i
      ∧ t.inputBuffer = (t.processScreen, t.historyCurr) ∧ t.historyCurr = t.historyEnd
      ∧ ∀ k, i + k < staleSize s → i + k < MAX_TERMINAL_BUF_SIZE →
        (∀ l < i + k + 1, s.input l ≠ 0) → t.line[k]? = some (s.input (i + k)) := by
  intro i
  have hside := s.showLine_inputSide
  rw [ttyRead, if_neg hfd, if_neg hbuf] at hread
  set v := showLine s
  have hvs : AtLatest v := hs.congr hside
  have hvline : v.line = s.line := line_congr hside
  have hvin : v.input = s.input := by
    funext k
    rw [Tty.input_eq, hside, Tty.input_eq]
  have hvstale : staleSize v = staleSize s := by
    have hsizes := congrFun (congrFun (congrArg InputSide.sizeHistory hside) s.processScreen)
      (nextSlot s.historyEnd)
    rw [staleSize, show v.processScreen = s.processScreen from
      congrArg InputSide.processScreen hside, show v.historyEnd = s.historyEnd from
      congrArg InputSide.historyEnd hside]
    exact congrArg UInt8.toNat hsizes
  obtain ⟨hbytes, rfl⟩ : readLoop v nbytes v.bufferSize.toNat 0 = bytes
      ∧ shiftBuffer (historyNew v) (readLoop v nbytes v.bufferSize.toNat 0).length = t := by
    simp only at hread
    split at hread
    · obtain ⟨-, hrest⟩ := Prod.mk.inj (Option.some.inj hread)
      exact Prod.mk.inj hrest
    · exact absurd hread (by simp)
  have htake : bytes = s.line.take i := by
    rw [← hbytes, readLoop_eq]
    simp only [Nat.zero_add, Nat.cast_zero, sub_zero]
    show v.line.take (lineTaken v.line nbytes) = _
    rw [hvline]
  have hlen : bytes.length = i := by
    rw [htake, List.length_take, Nat.min_eq_left]
    exact (Nat.min_le_right _ _).trans (Nat.min_le_left _ _)
  rw [hbytes, hlen]
  obtain ⟨hptr, hscr, hcurr, hend, hsize, hin⟩ := historyNew_spec hvs
  rw [hvstale] at hsize
  set w := historyNew v
  obtain ⟨hline, hsptr, hsscr, hscurr, hsend⟩ := shiftBuffer_line w i
  rw [hline, hsize]
  refine ⟨htake, by simp, ?_, ?_, fun k hk hk128 hnz => ?_⟩
  · rw [hsptr, hptr, hsscr, hscr, hscurr, hcurr]
  · rw [hscurr, hcurr, hsend, hend]
  · have hklt : k < staleSize s - i := by omega
    rw [List.getElem?_map, List.getElem?_range hklt, Option.map_some,
      hin (i + k) hk128 (by rw [hvin]; exact hnz), hvin]

end Input

/-! ### Runs -/

/-- What holds on every lossless run. -/
structure Typing (t : InputTrace) : Prop where
  atLatest : AtLatest t.tty
  nonzero : ∀ c ∈ t.typed, c ≠ 0

section Runs

variable {tabComplete : Tty → Tty} {t u : InputTrace}

/-- A key, or its rejection, loses nothing. -/
lemma key_lossless {c : UInt8} (hI : Typing t) (hc : isPrintable c = true) (htab : c ≠ TAB)
    (hu : inputStep tabComplete t (.key c) = some u) :
    Typing u ∧ (Lossless t → Lossless u) := by
  obtain rfl := Option.some.inj hu
  obtain ⟨hat, hline⟩ := ttySendchar_line tabComplete hI.atLatest hc htab
  have hc0 : c ≠ 0 := by
    rintro rfl
    exact absurd hc (by decide)
  refine ⟨⟨hat, fun d hd => ?_⟩, fun hP => ?_⟩
  · simp only at hd
    split at hd
    · rcases List.mem_append.mp hd with hd | hd
      · exact hI.nonzero d hd
      · rw [List.mem_singleton.mp hd]; exact hc0
    · exact hI.nonzero d hd
  · rw [Lossless] at *
    simp only
    rw [hline, ← List.append_assoc, hP]
    split
    · rfl
    · rw [List.append_nil]

/-- **A call loses nothing** exactly when it meets the condition, and then keeps the invariant. -/
lemma read_lossless_iff {fd nbytes : ℤ} {buf : UInt32} (hI : Typing t) (hP : Lossless t)
    (hfd : fd ≠ STDOUT) (hbuf : buf ≠ 0)
    (hu : inputStep tabComplete t (.read fd buf nbytes) = some u) :
    (Lossless u ↔ FitsStale t (.read fd buf nbytes)) ∧ (Lossless u → Typing u) := by
  rw [inputStep, Option.map_eq_some_iff] at hu
  obtain ⟨⟨n, bytes, s'⟩, hread, rfl⟩ := hu
  obtain ⟨hbytes, hlen, hptr, hlatest, hget⟩ := ttyRead_line hI.atLatest hfd hbuf hread
  set line := t.tty.line with hline
  set i := lineTaken line nbytes with hi
  have hn : line.length = t.tty.bufferSize.toNat := Tty.line_length
  have hile : i ≤ line.length := (Nat.min_le_right _ _).trans (Nat.min_le_left _ _)
  have hsize := hI.atLatest.size
  have hnz : ∀ l < line.length, t.tty.input l ≠ 0 := by
    intro l hl
    refine hI.nonzero _ ?_
    rw [← hP]
    refine List.mem_append_right _ (List.mem_of_getElem? (i := l) ?_)
    exact Tty.line_getElem? (hn ▸ hl)
  -- nothing is lost when the new line is the rest of the old one
  have hrest : Lossless { t with tty := s', returned := t.returned ++ bytes }
      ↔ s'.line = line.drop i := by
    rw [Lossless, List.append_assoc, ← hP, List.append_right_inj, ← hline, hbytes]
    conv_lhs => rhs; rw [← List.take_append_drop i line]
    exact List.append_right_inj _
  have hiff : Lossless { t with tty := s', returned := t.returned ++ bytes }
      ↔ FitsStale t (.read fd buf nbytes) := by
    rw [hrest, FitsStale, ← hline, ← hn, ← hi]
    constructor
    · intro h
      have hdrop := congrArg List.length h
      rw [hlen, List.length_drop] at hdrop
      omega
    · rintro (⟨hall, hstale⟩ | ⟨hlt, hstale⟩)
      · rw [List.drop_of_length_le (by omega)]
        exact List.eq_nil_of_length_eq_zero (by omega)
      · refine List.ext_getElem? fun k => ?_
        by_cases hk : i + k < line.length
        · rw [List.getElem?_drop, hget k (by omega) (by omega) fun l hl => hnz l (by omega),
            Tty.line_getElem? (hn ▸ hk)]
        · rw [List.getElem?_eq_none (by omega), List.getElem?_eq_none (by
            rw [List.length_drop]; omega)]
  refine ⟨hiff, fun h => ⟨⟨hptr, hlatest, ?_⟩, hI.nonzero⟩⟩
  have hdrop := congrArg List.length (hrest.mp h)
  rw [List.length_drop, Tty.line_length] at hdrop
  show s'.bufferSize.toNat ≤ MAX_TERMINAL_BUF_SIZE
  omega

/-- **The input queue of a terminal.**  From a terminal at the end of its history with an empty
buffer, let printable keys and Enter be pressed and `tty_read` be called.  Nothing typed is
lost, repeated or made up in any state of the run exactly when, at every call, the size left
over in the next history slot fits. -/
theorem inputFifo_lossless_iff (tabComplete : Tty → Tty) {s : Tty} {es : List InputEvent}
    {z : InputTrace} (hs : AtLatest s) (hempty : s.bufferSize = 0)
    (hes : ∀ e ∈ es, Ordinary e) (hrun : Run (inputStep tabComplete) ⟨s, [], []⟩ es z) :
    EveryState (inputStep tabComplete) ⟨s, [], []⟩ es Lossless
      ↔ EveryStep (inputStep tabComplete) ⟨s, [], []⟩ es FitsStale := by
  have hnil : s.line = [] := by
    rw [Tty.line, hempty]
    rfl
  refine everyState_iff_everyStep (V := Ordinary) (I := Typing) hrun hes ⟨hs, by simp⟩
    hnil ?_ ?_
  · intro t e u he hI hP hu
    cases e with
    | key c => exact ⟨fun _ => trivial, fun _ => (key_lossless hI he.1 he.2 hu).2 hP⟩
    | read fd buf nbytes => exact (read_lossless_iff hI hP he.1 he.2.1 hu).1
  · intro t e u he hI hP hPu hu
    cases e with
    | key c => exact (key_lossless hI he.1 he.2 hu).1
    | read fd buf nbytes => exact (read_lossless_iff hI hP he.1 he.2.1 hu).2 hPu

end Runs

/-! ### A short read -/

/-- The terminal after `tty_init`. -/
def freshTty : Tty := ttyInit Tty.boot

lemma freshTty_atLatest : AtLatest freshTty := ⟨rfl, rfl, by decide⟩

/-- The keys `a`, `b` and Enter, and a call for one byte. -/
def shortRead : List InputEvent :=
  [.key 0x61, .key 0x62, .key NEWLINE, .read STDIN 0x8000000 1]

lemma shortRead_ordinary : ∀ e ∈ shortRead, Ordinary e := by
  intro e he
  simp only [shortRead, List.mem_cons, List.not_mem_nil, or_false] at he
  rcases he with rfl | rfl | rfl | rfl <;> rw [Ordinary] <;> decide

lemma shortRead_run : ∃ z, Run (inputStep id) ⟨freshTty, [], []⟩ shortRead z
    ∧ z.returned = [0x61] ∧ z.tty.line = [] ∧ z.typed = [0x61, 0x62, NEWLINE] := by
  have hread : (shortRead.foldlM (inputStep id) ⟨freshTty, [], []⟩).map
      (fun z => (z.returned, z.tty.line, z.typed)) = some ([0x61], [], [0x61, 0x62, NEWLINE]) := by
    decide +kernel
  obtain ⟨z, hz, hval⟩ := exists_run_of_map hread
  simp only [Prod.mk.injEq] at hval
  exact ⟨z, hz, hval⟩

/-- The equivalence applies to this run. -/
theorem inputFifo_lossless_iff_shortRead :
    EveryState (inputStep id) ⟨freshTty, [], []⟩ shortRead Lossless
      ↔ EveryStep (inputStep id) ⟨freshTty, [], []⟩ shortRead FitsStale := by
  obtain ⟨z, hrun, -⟩ := shortRead_run
  exact inputFifo_lossless_iff id freshTty_atLatest rfl shortRead_ordinary hrun

/-- **The tail of a line is lost**: after `a`, `b` and Enter a call for one byte returns `a` and
leaves the buffer empty. -/
theorem inputFifo_shortRead :
    AtLatest freshTty ∧ freshTty.bufferSize = 0 ∧ (∀ e ∈ shortRead, Ordinary e)
      ∧ ∃ z, Run (inputStep id) ⟨freshTty, [], []⟩ shortRead z
        ∧ z.returned = [0x61] ∧ z.tty.line = [] ∧ z.typed = [0x61, 0x62, NEWLINE]
        ∧ z.returned ++ z.tty.line ≠ z.typed := by
  obtain ⟨z, hrun, hret, hline, htyped⟩ := shortRead_run
  refine ⟨freshTty_atLatest, rfl, shortRead_ordinary, z, hrun, hret, hline, htyped, ?_⟩
  rw [hret, hline, htyped]
  decide

end CustomLinuxOs
