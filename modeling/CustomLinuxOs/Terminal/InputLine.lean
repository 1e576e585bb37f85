import CustomLinuxOs.Terminal.History

/-!
The sizes of the input lines, and when a line is ready.

* `InputLine`: no line is longer than its buffer, and `ready` is set exactly when there is a newline
  in the input buffer.
* `inputLine_takeLine`: taking a line keeps that; so do characters.
* `KeepsReady`: the condition under which erasing a character, or changing the line, keeps it.
* `inputLine_iff`: it holds in all states of a run exactly when all steps meet the condition.
* `inputLine_erasedNewline`: there is a run where one does not.
-/

namespace CustomLinuxOs

/-- The line in slot `k` of the history. -/
def Tty.savedLine (s : Tty) (k : ℤ) : List UInt8 :=
  (List.range (s.savedSize k).toNat).map ((s.screens s.processScreen).inputHistory k)

/-- The lines fit into their buffers, and `ready` says whether a line is complete. -/
structure InputLine (s : Tty) : Prop where
  size : s.bufferSize.toNat ≤ MAX_TERMINAL_BUF_SIZE
  saved : ∀ k, IsSlot k → (s.savedSize k).toNat ≤ MAX_TERMINAL_BUF_SIZE
  ready : s.ready = true ↔ NEWLINE ∈ s.line

/-- The current line and the last one are slots of the ring. -/
structure Slots (s : Tty) : Prop where
  curr : IsSlot s.historyCurr
  last : IsSlot s.historyEnd

/-- Erasing a newline leaves another one, and a line that is loaded is complete exactly when the one
before it was. -/
def KeepsReady (t : Tty) : TtyOp → Prop
  | .backspace => t.bufferSize = 0 ∨ (t.display.screenX = 0 ∧ t.display.screenY = 0)
      ∨ (NEWLINE ∈ t.line → NEWLINE ∈ t.line.dropLast)
  | .historyUp => t.historyCurr = t.historyStart
      ∨ (NEWLINE ∈ t.line ↔ NEWLINE ∈ t.savedLine (prevSlot t.historyCurr))
  | .historyDown => t.historyCurr = t.historyEnd
      ∨ (NEWLINE ∈ t.line ↔ NEWLINE ∈ t.savedLine (nextSlot t.historyCurr))
  | _ => True

section Steps

variable {s t u : Tty}

lemma savedSize_congr (h : t.inputSide.sizeHistory = s.inputSide.sizeHistory)
    (hscreen : t.processScreen = s.processScreen) (k : ℤ) : t.savedSize k = s.savedSize k := by
  calc t.savedSize k = t.inputSide.sizeHistory t.processScreen k := rfl
    _ = s.inputSide.sizeHistory s.processScreen k := by rw [h, hscreen]
    _ = s.savedSize k := rfl

lemma InputLine.congr (hs : InputLine s) (h : t.inputSide = s.inputSide) : InputLine t where
  size := by
    have hsize : t.bufferSize = s.bufferSize := congrArg InputSide.bufferSize h
    rw [hsize]
    exact hs.size
  saved k hk := by
    have hscreen : t.processScreen = s.processScreen := congrArg InputSide.processScreen h
    rw [savedSize_congr (congrArg InputSide.sizeHistory h) hscreen]
    exact hs.saved k hk
  ready := by
    have hready : t.ready = s.ready := congrArg InputSide.ready h
    rw [hready, line_congr h]
    exact hs.ready

lemma Slots.congr (hs : Slots s) (h : t.indices = s.indices) : Slots t where
  curr := by
    have hcurr : t.historyCurr = s.historyCurr := congrArg Indices.curr h
    rw [hcurr]
    exact hs.curr
  last := by
    have hlast : t.historyEnd = s.historyEnd := congrArg Indices.last h
    rw [hlast]
    exact hs.last

/-! ### Keys -/

/-- A character goes to the end of the line. -/
lemma inputLine_enterChar (hs : InputLine s) (c : UInt8) : InputLine (enterChar s c) := by
  cases hacc : accepts s c with
  | false =>
      rw [enterChar_rejected (by rw [hacc]; exact Bool.false_ne_true)]
      exact hs
  | true =>
      have hside := enterChar_inputSide hacc
      have hlt := accepts_size_lt hacc
      have hsize : (enterChar s c).bufferSize = s.bufferSize + 1 :=
        congrArg InputSide.bufferSize hside
      have hready : (enterChar s c).ready = if c = NEWLINE then true else s.ready :=
        congrArg InputSide.ready hside
      have hline : (enterChar s c).line = s.line ++ [c] := by
        refine line_push hsize hlt fun k => ?_
        rw [Tty.input_eq, hside, Tty.input_eq, ← InputSide.setInput_input]
        rfl
      refine ⟨?_, fun k hk => ?_, ?_⟩
      · rw [MAX_TERMINAL_BUF_SIZE] at hlt
        rw [hsize, UInt8.toNat_add, UInt8.toNat_one, MAX_TERMINAL_BUF_SIZE]
        omega
      · have hsizes : (enterChar s c).inputSide.sizeHistory = s.inputSide.sizeHistory := by
          rw [hside]
          rfl
        have hscreen : (enterChar s c).processScreen = s.processScreen :=
          congrArg InputSide.processScreen hside
        rw [savedSize_congr hsizes hscreen]
        exact hs.saved k hk
      · rw [hready, hline, List.mem_append, List.mem_singleton]
        rcases eq_or_ne c NEWLINE with hc | hc
        · rw [if_pos hc]
          exact iff_of_true rfl (Or.inr hc.symm)
        · rw [if_neg hc, hs.ready, or_iff_left hc.symm]

lemma inputLine_sendKey {names : Listing} {depth : ℕ} {c : UInt8} (hs : InputLine s)
    (h : sendKey names depth s c = some t) : InputLine t := by
  refine sendKey_rel (R := fun s t => InputLine s → InputLine t) (fun _ => id)
    (fun _ _ _ h h' hs => h' (h hs)) (fun _ _ hs => hs.congr rfl)
    (fun names filename n s hs => hs.congr (ttyLs_inputSide names filename n s))
    (fun s c _ hs => ?_) h hs
  rw [ttySendchar]
  split
  · exact hs.congr (ttyCls_inputSide s)
  · split
    · exact hs.congr rfl
    · exact (inputLine_enterChar hs c).congr rfl

/-- **Erasing a character** keeps the invariant exactly under the condition. -/
lemma inputLine_backspace_iff (hs : InputLine s) :
    InputLine (ttyBackspace s) ↔ KeepsReady s .backspace := by
  rw [KeepsReady]
  rcases eq_or_ne s.bufferSize 0 with hzero | hzero
  · refine iff_of_true (hs.congr ?_) (Or.inl hzero)
    rw [ttyBackspace, if_neg (by rw [hzero]; decide)]
    rfl
  · rw [or_iff_right hzero]
    rcases em (s.display.screenX = 0 ∧ s.display.screenY = 0) with htop | htop
    · refine iff_of_true (hs.congr ?_) (Or.inl htop)
      rw [ttyBackspace, if_pos (UInt8.pos_iff_ne_zero.mpr hzero), if_pos htop]
    · rw [or_iff_right htop]
      have hside := ttyBackspace_inputSide hzero htop
      have hsize : (ttyBackspace s).bufferSize = s.bufferSize - 1 :=
        congrArg InputSide.bufferSize hside
      have hle : (1 : UInt8) ≤ s.bufferSize := by
        rw [UInt8.le_iff_toNat_le, UInt8.toNat_one]
        exact Nat.pos_of_ne_zero fun h => hzero (UInt8.toNat_inj.mp h)
      have hnat : (ttyBackspace s).bufferSize.toNat = s.bufferSize.toNat - 1 := by
        rw [hsize, UInt8.toNat_sub_of_le _ _ hle, UInt8.toNat_one]
      have hinput : (ttyBackspace s).input = s.input := by
        funext i
        rw [Tty.input_eq, hside, Tty.input_eq]
        rfl
      have hline : (ttyBackspace s).line = s.line.dropLast := by
        rw [Tty.line, hnat, hinput, Tty.line, List.dropLast_eq_take, List.length_map,
          List.length_range, ← List.map_take, List.take_range, Nat.min_eq_left (Nat.sub_le _ _)]
      have hready : (ttyBackspace s).ready = s.ready := congrArg InputSide.ready hside
      have hmem : NEWLINE ∈ s.line.dropLast → NEWLINE ∈ s.line := List.mem_of_mem_dropLast
      constructor
      · intro h hnewline
        rw [← hline, ← h.ready, hready, hs.ready]
        exact hnewline
      · intro h
        refine ⟨?_, fun k hk => ?_, ?_⟩
        · rw [hnat]
          exact (Nat.sub_le _ _).trans hs.size
        · have hsizes : (ttyBackspace s).inputSide.sizeHistory = s.inputSide.sizeHistory := by
            rw [hside]
          have hscreen : (ttyBackspace s).processScreen = s.processScreen :=
            congrArg InputSide.processScreen hside
          rw [savedSize_congr hsizes hscreen]
          exact hs.saved k hk
        · rw [hready, hline, hs.ready]
          exact ⟨h, hmem⟩

/-- **Changing the line** keeps the invariant exactly if the line that is loaded is complete when
the other one was. -/
lemma inputLine_change_iff {k : ℤ} (hs : InputLine s) (hk : IsSlot k) (hne : k ≠ s.historyCurr)
    (h : t.inputSide = s.inputSide.change k) :
    InputLine t ↔ (NEWLINE ∈ s.line ↔ NEWLINE ∈ s.savedLine k) := by
  have hscreen : t.processScreen = s.processScreen := congrArg InputSide.processScreen h
  have hready : t.ready = s.ready := congrArg InputSide.ready h
  have hsaved (j : ℤ) : t.savedSize j = if j = s.historyCurr then s.bufferSize
      else s.savedSize j := by
    have hsizes := congrFun (congrFun (congrArg InputSide.sizeHistory h) s.processScreen) j
    calc t.savedSize j = t.inputSide.sizeHistory s.processScreen j := by
          rw [Tty.savedSize, hscreen]
          rfl
      _ = (s.inputSide.change k).sizeHistory s.processScreen j := hsizes
      _ = Function.update (s.inputSide.sizeHistory s.processScreen) s.historyCurr s.bufferSize j :=
          congrFun (Function.update_self _ _ _) j
      _ = if j = s.historyCurr then s.bufferSize else s.savedSize j :=
          Function.update_apply _ _ _ _
  have hsize : t.bufferSize = s.savedSize k := by
    have hload : t.bufferSize = t.savedSize k := by
      have hptr : t.bufferSize = (s.inputSide.change k).sizeHistory s.processScreen k :=
        congrArg InputSide.bufferSize h
      rw [hptr, ← congrArg InputSide.sizeHistory h, Tty.savedSize, hscreen]
      rfl
    rw [hload, hsaved, if_neg hne]
  have hline : t.line = s.savedLine k := by
    rw [Tty.line, hsize, Tty.savedLine]
    refine List.map_congr_left fun i _ => ?_
    rw [Tty.input_eq, h]
    rfl
  constructor
  · intro ht
    rw [← hs.ready, ← hline, ← ht.ready, hready]
  · intro hiff
    refine ⟨?_, fun j hj => ?_, ?_⟩
    · rw [hsize]
      exact hs.saved k hk
    · rw [hsaved]
      split
      · exact hs.size
      · exact hs.saved j hj
    · rw [hready, hline, hs.ready]
      exact hiff

lemma prevSlot_ne {k : ℤ} : prevSlot k ≠ k := by
  rw [prevSlot, MAX_TERMINAL_HIST_LEN]
  split <;> omega

lemma nextSlot_ne {k : ℤ} (hk : IsSlot k) : nextSlot k ≠ k := by
  obtain ⟨hzero, -⟩ := hk
  rcases nextSlot_cases k with ⟨hwrap, hnext⟩ | ⟨hwrap, hnext⟩ <;> omega

/-! ### Calls -/

/-- The loop of `shift_buffer` finds the newlines among the bytes it moves. -/
lemma shiftLoop_ready (n i j : ℕ) (s : Tty) (hji : j ≤ i) :
    (shiftLoop n i j s).ready = true
      ↔ s.ready = true ∨ ∃ k < n, s.input (i + k) = NEWLINE := by
  induction n generalizing i j s with
  | zero => simp [shiftLoop]
  | succ n ih =>
      rw [shiftLoop]
      set t : Tty := { s.setInput j (s.input i) with
        ready := if s.input i = NEWLINE then true else (s.setInput j (s.input i)).ready } with ht
      have hinput (k : ℕ) : t.input (i + 1 + k) = s.input (i + (k + 1)) := by
        have hset : t.input (i + 1 + k)
            = if i + 1 + k = j then s.input i else s.input (i + 1 + k) := by
          rw [Tty.input_eq s (i + 1 + k), ← InputSide.setInput_input, ← Tty.setInput_inputSide]
          rfl
        rw [hset, if_neg (by omega)]
        congr 1
        omega
      have hready : t.ready = true ↔ s.input i = NEWLINE ∨ s.ready = true := by
        rw [ht]
        simp only
        rcases eq_or_ne (s.input i) NEWLINE with h | h
        · rw [if_pos h]
          exact iff_of_true rfl (Or.inl h)
        · rw [if_neg h, or_iff_right h]
          rfl
      rw [ih (i + 1) (j + 1) t (by omega), hready]
      simp only [hinput]
      constructor
      · rintro ((h | h) | ⟨k, hk, h⟩)
        · exact Or.inr ⟨0, Nat.succ_pos n, h⟩
        · exact Or.inl h
        · exact Or.inr ⟨k + 1, Nat.succ_lt_succ hk, h⟩
      · rintro (h | ⟨k, hk, h⟩)
        · exact Or.inl (Or.inr h)
        · cases k with
          | zero => exact Or.inl (Or.inl h)
          | succ k => exact Or.inr ⟨k, Nat.lt_of_succ_lt_succ hk, h⟩

/-- **Taking a line** keeps the invariant: there is a newline in it, so that its size less one is
none below zero. -/
lemma inputLine_takeLine (hs : InputLine s) (hslots : Slots s) {nbytes n : ℤ} {bytes : List UInt8}
    (h : takeLine s nbytes = some (n, bytes, t)) : InputLine t := by
  rw [takeLine] at h
  split at h
  · rename_i hready
    obtain ⟨-, -, rfl⟩ := h
    set i := (readLoop s nbytes s.bufferSize.toNat 0).length
    set w := historyNew s with hw
    have hpos : 0 < s.bufferSize.toNat := by
      rw [← Tty.line_length]
      exact List.length_pos_of_mem (hs.ready.mp hready)
    have hle : (1 : UInt8) ≤ s.bufferSize := by
      rw [UInt8.le_iff_toNat_le, UInt8.toNat_one]
      exact hpos
    have hless : (s.bufferSize - 1).toNat ≤ MAX_TERMINAL_BUF_SIZE := by
      rw [UInt8.toNat_sub_of_le _ _ hle, UInt8.toNat_one]
      exact (Nat.sub_le _ _).trans hs.size
    obtain ⟨hnew, hload⟩ := historyNew_savedSize s
    rw [← hw] at hnew hload
    have hwsaved (k : ℤ) (hk : IsSlot k) : (w.savedSize k).toNat ≤ MAX_TERMINAL_BUF_SIZE := by
      rcases hnew k with h | h
      · rw [h]
        exact hs.saved k hk
      · rw [h]
        exact hless
    have hlast : IsSlot w.historyEnd := by
      rcases (historyNew_indices s).2 with ⟨-, hend, -⟩ | ⟨-, hend, -⟩
      · rw [hw, hend]
        exact hslots.last
      · rw [hw, hend]
        exact hslots.last.next
    have hwsize : w.bufferSize.toNat ≤ MAX_TERMINAL_BUF_SIZE := by
      rw [hload]
      exact hwsaved _ hlast
    have htsize : (shiftBuffer w i).bufferSize.toNat = w.bufferSize.toNat - i := by
      have hlt := w.bufferSize.toNat_lt
      have hmod : (shiftBuffer w i).bufferSize.toNat = (w.bufferSize.toNat - i) % 2 ^ 8 :=
        UInt8.toNat_ofNat'
      rw [hmod]
      omega
    refine ⟨?_, fun k hk => ?_, ?_⟩
    · rw [htsize]
      exact (Nat.sub_le _ _).trans hwsize
    · rw [(shiftBuffer_history w i).2 k]
      split
      · rw [htsize]
        exact (Nat.sub_le _ _).trans hwsize
      · exact hwsaved k hk
    · have hloop := shiftLoop_ready (w.bufferSize.toNat - i) i 0 { w with ready := false }
        (Nat.zero_le i)
      have hbuffer : (shiftBuffer w i).ready
          = (shiftLoop (w.bufferSize.toNat - i) i 0 { w with ready := false }).ready := rfl
      rw [hbuffer, hloop, or_iff_right Bool.false_ne_true, (shiftBuffer_line w i).1, List.mem_map]
      simp only [List.mem_range]
      rfl
  · exact absurd h (by simp)

/-! ### Runs -/

/-- An operation keeps the slots. -/
lemma Slots.run {op : TtyOp} (hs : Slots s) (ht : op.run s = some t) : Slots t := by
  have hcurr : t.indices.curr = t.historyCurr := rfl
  have hlast : t.indices.last = t.historyEnd := rfl
  rcases run_indices hs.curr.2 ht with ⟨-, h⟩ | ⟨-, h | ⟨-, h⟩ | ⟨-, h⟩⟩
  · rw [h, Indices.take] at hcurr hlast
    split at hcurr
    · rw [if_pos ‹_›] at hlast
      exact ⟨hcurr ▸ hs.last, hlast ▸ hs.last⟩
    · rw [if_neg ‹_›] at hlast
      exact ⟨hcurr ▸ hs.last.next, hlast ▸ hs.last.next⟩
  · rw [h] at hcurr hlast
    exact ⟨hcurr ▸ hs.curr, hlast ▸ hs.last⟩
  · rw [h] at hcurr hlast
    exact ⟨hcurr ▸ hs.curr.prev, hlast ▸ hs.last⟩
  · rw [h] at hcurr hlast
    exact ⟨hcurr ▸ hs.curr.next, hlast ▸ hs.last⟩

/-- **An operation** keeps the invariant exactly under the condition. -/
lemma inputLine_run_iff {op : TtyOp} (hs : InputLine s) (hslots : Slots s)
    (ht : op.run s = some t) : InputLine t ↔ KeepsReady s op := by
  cases op with
  | key c names depth => exact iff_of_true (inputLine_sendKey hs ht) trivial
  | backspace =>
      obtain rfl := Option.some.inj ht
      exact inputLine_backspace_iff hs
  | historyUp =>
      rw [KeepsReady]
      rcases historyUp_inputSide ht with ⟨hstart, hside⟩ | ⟨hstart, hside⟩
      · exact iff_of_true (hs.congr hside) (Or.inl hstart)
      · rw [or_iff_right hstart]
        exact inputLine_change_iff hs hslots.curr.prev prevSlot_ne hside
  | historyDown =>
      rw [KeepsReady]
      rcases historyDown_inputSide ht hslots.curr.2 with ⟨hend, hside⟩ | ⟨hend, hside⟩
      · exact iff_of_true (hs.congr hside) (Or.inl hend)
      · rw [or_iff_right hend]
        exact inputLine_change_iff hs hslots.curr.next (nextSlot_ne hslots.curr) hside
  | write fd buf nbytes =>
      obtain rfl := Option.some.inj ht
      refine iff_of_true (hs.congr ?_) trivial
      simp only [ttyWrite]
      split
      · rfl
      · cases buf with
        | none => rfl
        | some bytes =>
            have hsetup : (ttyPutBytes s.display (bytes.take nbytes.toNat)).setup
                = s.display.setup := ttyPutBytes_setup _ _
            exact Tty.withDisplay_inputSide s hsetup
  | read fd buf nbytes =>
      obtain ⟨⟨n, bytes, u⟩, hread, rfl⟩ := Option.map_eq_some_iff.mp ht
      refine iff_of_true ?_ trivial
      rw [ttyRead_eq] at hread
      split at hread
      · obtain ⟨-, -, rfl⟩ := hread
        exact hs
      · split at hread
        · obtain ⟨-, -, rfl⟩ := hread
          exact hs
        · have hshow := indices_congr s.showLine_inputSide
          exact inputLine_takeLine (hs.congr s.showLine_inputSide) (hslots.congr hshow) hread
  | wait fd buf =>
      refine iff_of_true ?_ trivial
      rw [TtyOp.run] at ht
      split at ht
      · exact absurd ht (by simp)
      · obtain rfl := Option.some.inj ht
        exact hs.congr s.showLine_inputSide
  | resume nbytes =>
      obtain ⟨⟨n, bytes, u⟩, htake, rfl⟩ := Option.map_eq_some_iff.mp ht
      exact iff_of_true (inputLine_takeLine hs hslots htake) trivial
  | clearBuf =>
      obtain rfl := Option.some.inj ht
      refine iff_of_true ⟨Nat.zero_le _, hs.saved, ?_⟩ trivial
      exact iff_of_false Bool.false_ne_true (List.not_mem_nil)
  | setAttrib a =>
      obtain rfl := Option.some.inj ht
      exact iff_of_true (hs.congr rfl) trivial
  | video offset b =>
      refine iff_of_true ?_ trivial
      rw [TtyOp.run] at ht
      split at ht
      · obtain rfl := Option.some.inj ht
        exact hs.congr rfl
      · exact absurd ht (by simp)

/-- **The input line.**  The lines fit into their buffers, and `ready` says whether there is a
newline in the input buffer, in all states of a run, exactly when no backspace erases the only
newline and no history key goes between a line with a newline and a line without one. -/
theorem inputLine_iff {es : List TtyOp} {z : Tty} (hs : InputLine s) (hslots : Slots s)
    (hrun : Run TtyOp.run s es z) :
    EveryState TtyOp.run s es InputLine ↔ EveryStep TtyOp.run s es KeepsReady :=
  everyState_iff_everyStep (V := fun _ => True) hrun (fun _ _ => trivial) hslots hs
    (fun _ _ _ _ hI hP hu => inputLine_run_iff hP hI hu) fun _ _ _ _ hI _ _ hu => hI.run hu

end Steps

/-! ### An erased newline -/

/-- Enter, a backspace, and a call that finds `ready` set. -/
def eraseNewline : List TtyOp :=
  [.key NEWLINE [] 1, .backspace, .read STDIN 0x8000000 1]

lemma freshTty_inputLine : InputLine freshTty :=
  ⟨Nat.zero_le _, fun _ _ => Nat.zero_le _, iff_of_false Bool.false_ne_true List.not_mem_nil⟩

lemma freshTty_slots : Slots freshTty := ⟨by decide, by decide⟩

lemma eraseNewline_run : ∃ t z, Run TtyOp.run freshTty (eraseNewline.take 2) t
    ∧ t.ready = true ∧ t.line = [] ∧ TtyOp.run t (.read STDIN 0x8000000 1) = some z
    ∧ z.savedSize 0 = 255 := by
  have hready : ((eraseNewline.take 2).foldlM TtyOp.run freshTty).map
      (fun t => (t.ready, t.line, (TtyOp.run t (.read STDIN 0x8000000 1)).map
        fun z => z.savedSize 0)) = some (true, [], some 255) := by
    decide +kernel
  obtain ⟨t, ht, hval⟩ := exists_run_of_map hready
  simp only [Prod.mk.injEq] at hval
  obtain ⟨hr, hl, hz⟩ := hval
  obtain ⟨z, hz, hsize⟩ := Option.map_eq_some_iff.mp hz
  exact ⟨t, z, ht, hr, hl, hz, hsize⟩

/-- The equivalence applies to this run. -/
theorem inputLine_iff_eraseNewline :
    EveryState TtyOp.run freshTty eraseNewline InputLine
      ↔ EveryStep TtyOp.run freshTty eraseNewline KeepsReady := by
  obtain ⟨t, z, hrun, -, -, hz, -⟩ := eraseNewline_run
  exact inputLine_iff freshTty_inputLine freshTty_slots (hrun.snoc hz)

/-- **A newline is erased**, and `ready` stays set with an empty line; a call then saves the size
255. -/
theorem inputLine_erasedNewline :
    InputLine freshTty ∧ Slots freshTty
      ∧ ∃ t z, Run TtyOp.run freshTty (eraseNewline.take 2) t
        ∧ t.ready = true ∧ t.line = [] ∧ ¬ InputLine t
        ∧ Run TtyOp.run freshTty eraseNewline z ∧ z.savedSize 0 = 255 ∧ ¬ InputLine z := by
  obtain ⟨t, z, hrun, hready, hline, hz, hsize⟩ := eraseNewline_run
  refine ⟨freshTty_inputLine, freshTty_slots, t, z, hrun, hready, hline, fun h => ?_,
    hrun.snoc hz, hsize, fun h => ?_⟩
  · have hmem := h.ready.mp hready
    rw [hline] at hmem
    exact absurd hmem List.not_mem_nil
  · have hle := h.saved 0 (by decide)
    rw [hsize] at hle
    exact absurd hle (by decide)

end CustomLinuxOs
