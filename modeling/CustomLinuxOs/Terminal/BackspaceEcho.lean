import CustomLinuxOs.Terminal.HistoryKeys
import CustomLinuxOs.Terminal.Scrolling

/-!
Backspaces undo the keys they erase, on the page whose last rows the screen shows.

* `TypedKey`, `echoed`: the keys that the default branch of `tty_sendchar` echoes within their row,
  and the cells they fill.
* `shows_ttyEcho`: an echo fills these cells of the page, and returns their number.
* `showsFrom_eraseCells`: erasing goes back over the page, with the same rows on the screen.
* `backspaces_undo_keys`: a number of keys, and as many backspaces.
-/

namespace CustomLinuxOs

open Display

/-- An ASCII key for the default branch of `tty_sendchar` that does not end the row. -/
structure TypedKey (c : UInt8) : Prop where
  ascii : c < 128
  newline : c ≠ NEWLINE
  carriageReturn : c ≠ RETURN
  tab : c ≠ TAB
  clear : c ≠ 0x0c

/-- The cells that the echo of a key fills. -/
def echoed (c : UInt8) : List UInt8 := if isPrintable c then [c] else [0x5e, c ^^^ CARET]

/-- The cells that the echo of the keys fills. -/
def echoedAll (keys : List UInt8) : List UInt8 := keys.flatMap echoed

/-- The number of rows by which the screen has scrolled when the keys have been echoed. -/
def rowsScrolled (s : Tty) (keys : List UInt8) : ℕ :=
  (s.display.position.toNat + (echoedAll keys).length) / 80 + 1 - 25

/-! ### One key -/

section Echo

variable {d : Display} {p : Page 80 UInt8}

/-- What fills a cell. -/
lemma shows_putPrintable_plain (h : Shows d p) (caret : Bool) {c : UInt8} (hnewline : c ≠ NEWLINE)
    (hreturn : c ≠ RETURN) (htab : c ≠ TAB) :
    (putPrintable caret d c).1 = 1 ∧ Shows (putPrintable caret d c).2 (p.put c) := by
  constructor
  · simp only [putPrintable, if_neg hnewline, if_neg hreturn, if_neg htab]
  · rcases putPrintable_cases caret d c with ⟨hc, -⟩ | ⟨hc, -⟩ | ⟨hc, -⟩ | ⟨-, -, -, hd⟩
    · exact absurd hc hnewline
    · exact absurd hc hreturn
    · exact absurd hc htab
    · rw [hd]
      exact shows_putVisible h c

/-- A control character has a partner that is echoed behind a caret. -/
lemma TypedKey.caret {c : UInt8} (hc : TypedKey c) (hcontrol : isPrintable c = false) :
    isPrintable (c ^^^ CARET) = true ∧ c ^^^ CARET ≠ NEWLINE ∧ c ^^^ CARET ≠ RETURN
      ∧ c ^^^ CARET ≠ TAB := by
  have hall : ∀ n < 128, isPrintable (UInt8.ofNat n) = false →
      isPrintable (UInt8.ofNat n ^^^ CARET) = true ∧ UInt8.ofNat n ^^^ CARET ≠ NEWLINE
        ∧ UInt8.ofNat n ^^^ CARET ≠ RETURN ∧ UInt8.ofNat n ^^^ CARET ≠ TAB := by
    decide +kernel
  have hlt : c.toNat < 128 := UInt8.lt_iff_toNat_lt.mp hc.ascii
  have h := hall c.toNat hlt
  rw [UInt8.ofNat_toNat] at h
  exact h hcontrol

/-- **An echo** fills the cells of its key, and returns how many these are. -/
lemma shows_ttyEcho (h : Shows d p) {c : UInt8} (hc : TypedKey c) :
    (ttyEcho d c).1.toNat = (echoed c).length
      ∧ Shows (ttyEcho d c).2 (p.putAll (echoed c)) := by
  suffices key : (ttyPutcNocursor true d c).1.toNat = (echoed c).length
      ∧ Shows (ttyPutcNocursor true d c).2 (p.putAll (echoed c)) from
    ⟨key.1, shows_setCursorDefault key.2⟩
  rw [ttyPutcNocursor, echoed]
  cases hprint : isPrintable c with
  | true =>
      obtain ⟨hwidth, hput⟩ := shows_putPrintable_plain h true hc.newline hc.carriageReturn hc.tab
      rw [if_pos rfl, if_pos rfl, hwidth]
      exact ⟨rfl, hput⟩
  | false =>
      obtain ⟨hpartner, hnewline, hreturn, htab⟩ := hc.caret hprint
      have hcaret := (shows_putPrintable_plain h true (c := 0x5e) (by decide) (by decide)
        (by decide)).2
      have hboth := (shows_putPrintable_plain hcaret true hnewline hreturn htab).2
      have hif : (true && isPrintable (c ^^^ CARET)) = true := by rw [hpartner]; rfl
      rw [if_neg Bool.false_ne_true, if_neg Bool.false_ne_true, if_pos hif,
        scrollIfOff_of_within hboth.within]
      exact ⟨rfl, hboth⟩

/-- Erasing writes blanks, with the same rows on the screen. -/
lemma showsFrom_eraseCells {top n : ℕ} (h : ShowsFrom top d p)
    (hn : 80 * top + n ≤ p.position) :
    ShowsFrom top (eraseCells n d) ((Page.back · SPACE)^[n] p) := by
  induction n generalizing d p with
  | zero => exact h
  | succ n ih =>
      have hback := p.back_position SPACE
      have hcol := p.col_eq
      have hrow := p.row_eq
      have hcol' := (p.back SPACE).col_eq
      have hrow' := (p.back SPACE).row_eq
      have hcursor : d.stepBack.screenX = (p.back SPACE).col
          ∧ d.stepBack.screenY + top = (p.back SPACE).row := by
        have hx := h.col
        have hy := h.row
        rw [hcol', hrow', hback]
        rw [stepBack]
        split
        · simp only [NUM_COLS] at *
          omega
        · simp only at *
          omega
      have hchar (r c : ℕ) : d.stepBack.char r c = d.char r c := by
        rw [stepBack]
        split <;> rfl
      have hstep : ShowsFrom top (d.stepBack.fillCell SPACE) (p.back SPACE) := by
        refine ⟨hcursor.1, hcursor.2, fun r hr c hc => ?_, fun r c hr => ?_⟩
        · have hlt := (p.back SPACE).col_lt
          rw [fillCell_char (by omega) (by omega) SPACE hc, hchar, h.window r hr c hc,
            Page.cell_eq_cellAt _ hc, Page.cell_eq_cellAt _ hc, Page.back_cellAt, hcursor.1]
          refine if_congr ?_ rfl rfl
          omega
        · have hblank := h.blank r c hr
          simp only [Page.back]
          rcases eq_or_ne r ((p.position - 1) / 80) with rfl | hne
          · rw [Function.update_self]
            rcases eq_or_ne c ((p.position - 1) % 80) with rfl | hne
            · exact Function.update_self _ _ _
            · rw [Function.update_of_ne hne, hblank]
          · rw [Function.update_of_ne hne, hblank]
      rw [eraseCells_succ, Function.iterate_succ_apply]
      exact ih hstep (by rw [hback]; omega)

lemma showsFrom_setCursorDefault {top : ℕ} (h : ShowsFrom top d p) :
    ShowsFrom top (setCursorDefault d) p := by
  rw [setCursorDefault]
  split
  · exact ⟨h.col, h.row, h.window, h.blank⟩
  · exact h

end Echo

/-! ### Keys one after the other -/

section Keys

variable {s u : Tty} {p : Page 80 UInt8} {keys : List UInt8}

/-- The keys have been typed on `s`, whose screen shows the page `p`. -/
structure Typed (s : Tty) (p : Page 80 UInt8) (keys : List UInt8) (u : Tty) : Prop where
  size : u.bufferSize.toNat = s.bufferSize.toNat + keys.length
  input : ∀ i < s.bufferSize.toNat, u.input i = s.input i
  width : ∀ j < keys.length,
    u.width (s.bufferSize.toNat + j) = (echoed (keys.getD j 0)).length
  shows : Shows u.display (p.putAll (echoedAll keys))

lemma echoedAll_snoc (keys : List UInt8) (c : UInt8) :
    echoedAll (keys ++ [c]) = echoedAll keys ++ echoed c := by
  rw [echoedAll, List.flatMap_append, ← echoedAll]
  simp

/-- A key that there is room for. -/
lemma ttySendchar_typed {c : UInt8} (hc : TypedKey c)
    (hroom : u.bufferSize.toNat < MAX_TERMINAL_BUF_SIZE - 1) :
    (ttySendchar id u c).inputSide = { u.inputSide.setInput u.bufferSize.toNat c with
        bufferSize := u.bufferSize + 1 }
      ∧ (ttySendchar id u c).display = (ttyEcho u.display c).2
      ∧ ∀ i, (ttySendchar id u c).width i
        = if i = u.bufferSize.toNat then (ttyEcho u.display c).1.toNat else u.width i := by
  have h255 : c ≠ 255 := by
    rintro rfl
    exact absurd hc.ascii (by decide)
  have hsend : ttySendchar id u c = { enterChar u c with tabLs := false } := by
    rw [ttySendchar, if_neg hc.clear, if_neg hc.tab, if_neg h255]
  have hacc : accepts u c = true := by
    rw [accepts, decide_eq_true hroom, Bool.true_or]
  have hside := enterChar_inputSide hacc
  rw [if_neg hc.newline] at hside
  rw [hsend]
  refine ⟨hside, ?_, fun i => ?_⟩
  · simp only [enterChar, if_pos hroom]
    rfl
  · have hwidths : ((enterChar u c).screens (enterChar u c).widthBuffer).widthBuffer
        = Function.update (u.screens u.widthBuffer).widthBuffer u.bufferSize.toNat
          (ttyEcho u.display c).1 := by
      simp only [enterChar, if_pos hroom, Tty.setWidth, Tty.setInput, Tty.modifyScreen,
        Function.update_self]
      rcases eq_or_ne u.widthBuffer u.inputBuffer.1 with h | h
      · rw [h, Function.update_self]
      · rw [Function.update_of_ne h]
    have hvalue : ({ enterChar u c with tabLs := false } : Tty).width i
        = (Function.update (u.screens u.widthBuffer).widthBuffer u.bufferSize.toNat
          (ttyEcho u.display c).1 i).toNat :=
      congrArg (fun f : ℕ → UInt8 => (f i).toNat) hwidths
    rw [hvalue, Function.update_apply]
    split <;> rfl

/-- **One more key.** -/
lemma Typed.snoc (h : Typed s p keys u) {c : UInt8} (hc : TypedKey c)
    (hroom : s.bufferSize.toNat + keys.length < MAX_TERMINAL_BUF_SIZE - 1) :
    Typed s p (keys ++ [c]) (ttySendchar id u c) := by
  obtain ⟨hside, hdisplay, hwidth⟩ := ttySendchar_typed hc (u := u) (by rw [h.size]; exact hroom)
  obtain ⟨hcells, hshows⟩ := shows_ttyEcho h.shows hc
  have hsize : (ttySendchar id u c).bufferSize.toNat = u.bufferSize.toNat + 1 := by
    have heq : (ttySendchar id u c).bufferSize = u.bufferSize + 1 :=
      congrArg InputSide.bufferSize hside
    have hlt := h.size
    rw [MAX_TERMINAL_BUF_SIZE] at hroom
    rw [heq, UInt8.toNat_add, UInt8.toNat_one]
    omega
  refine ⟨?_, fun i hi => ?_, fun j hj => ?_, ?_⟩
  · rw [hsize, h.size, List.length_append, List.length_singleton, Nat.add_assoc]
  · have hne : i ≠ u.bufferSize.toNat := by
      rw [h.size]
      omega
    have hinput : (ttySendchar id u c).input i
        = (u.inputSide.setInput u.bufferSize.toNat c).input i := by
      rw [Tty.input_eq, hside]
      rfl
    rw [hinput, InputSide.setInput_input, if_neg hne, ← Tty.input_eq]
    exact h.input i hi
  · rw [List.length_append, List.length_singleton] at hj
    rw [hwidth, h.size]
    rcases Nat.lt_succ_iff_lt_or_eq.mp hj with hlt | rfl
    · rw [if_neg (by omega), h.width j hlt, List.getD_append _ _ _ _ hlt]
    · rw [if_pos rfl, hcells, List.getD_append_right _ _ _ _ le_rfl, Nat.sub_self,
        List.getD_cons_zero]
  · rw [hdisplay, echoedAll_snoc, Page.putAll_append]
    exact hshows

/-- **The keys typed.** -/
lemma typed_foldl (hs : Shows s.display p) (hkeys : ∀ c ∈ keys, TypedKey c)
    (hroom : s.bufferSize.toNat + keys.length ≤ MAX_TERMINAL_BUF_SIZE - 1) :
    Typed s p keys (keys.foldl (ttySendchar id) s) := by
  induction keys using List.reverseRecOn with
  | nil => exact ⟨rfl, fun _ _ => rfl, fun j hj => absurd hj (Nat.not_lt_zero j), hs⟩
  | append_singleton keys c ih =>
      rw [List.length_append, List.length_singleton] at hroom
      rw [List.foldl_append, List.foldl_cons, List.foldl_nil]
      exact (ih (fun b hb => hkeys b (List.mem_append_left _ hb)) (by omega)).snoc
        (hkeys c (List.mem_append_right _ (List.mem_singleton_self c))) (by omega)

/-- The keys are in the buffer of `u` with their widths, behind the line of `s`, and the screen of
`u` shows the page `q` from row `top` on. -/
structure ToErase (s : Tty) (top : ℕ) (keys : List UInt8) (q : Page 80 UInt8) (u : Tty) :
    Prop where
  size : u.bufferSize.toNat = s.bufferSize.toNat + keys.length
  input : ∀ i < s.bufferSize.toNat, u.input i = s.input i
  width : ∀ j < keys.length,
    u.width (s.bufferSize.toNat + j) = (echoed (keys.getD j 0)).length
  shows : ShowsFrom top u.display q
  bounded : Bounded u.display

lemma echoed_length (c : UInt8) : (echoed c).length = 1 ∨ (echoed c).length = 2 := by
  rw [echoed]
  split
  · exact Or.inl rfl
  · exact Or.inr rfl

lemma echoedAll_length_le (keys : List UInt8) : (echoedAll keys).length ≤ 2 * keys.length := by
  induction keys with
  | nil => exact le_rfl
  | cons c keys ih =>
      have hc := echoed_length c
      rw [echoedAll, List.flatMap_cons, List.length_append, List.length_cons, ← echoedAll]
      omega

/-- **One backspace** erases the cells of the last key. -/
lemma ToErase.backspace {top : ℕ} {q : Page 80 UInt8} {c : UInt8}
    (h : ToErase s top (keys ++ [c]) q u) (hn : 80 * top + (echoed c).length ≤ q.position) :
    ToErase s top keys ((Page.back · SPACE)^[(echoed c).length] q) (ttyBackspace u) := by
  have hlen : (keys ++ [c]).length = keys.length + 1 := by simp
  have hsize := h.size
  rw [hlen] at hsize
  have hne : u.bufferSize ≠ 0 := by
    intro hzero
    rw [hzero] at hsize
    exact absurd hsize (by simp)
  have hlast : u.width (u.bufferSize.toNat - 1) = (echoed c).length := by
    have hw := h.width keys.length (by omega)
    rw [List.getD_append_right _ _ _ _ le_rfl, Nat.sub_self, List.getD_cons_zero] at hw
    rw [hsize, ← hw]
    rfl
  have hposition : u.display.position ≠ 0 := by
    have hx := h.shows.col
    have hy := h.shows.row
    have hq : q.position = 80 * q.row + q.col := rfl
    have hlength := echoed_length c
    rw [position, NUM_COLS]
    omega
  have herase := showsFrom_eraseCells h.shows hn
  obtain ⟨hnat, hwidth, hbounded, -⟩ := ttyBackspace_erases h.bounded hne hposition
  have heq := ttyBackspace_eq h.bounded hne hposition
  refine ⟨?_, fun i hi => ?_, fun j hj => ?_, ?_, hbounded⟩
  · rw [hnat, hsize]
    rfl
  · have hinput : (ttyBackspace u).input = u.input := by
      rw [heq]
      rfl
    rw [hinput]
    exact h.input i hi
  · rw [hwidth, h.width j (by omega), List.getD_append _ _ _ _ hj]
  · rw [heq, hlast]
    exact showsFrom_setCursorDefault herase

/-- **As many backspaces as keys.** -/
lemma ToErase.backspaces {top : ℕ} {q : Page 80 UInt8} (h : ToErase s top keys q u)
    (hn : 80 * top + (echoedAll keys).length ≤ q.position) :
    ToErase s top [] ((Page.back · SPACE)^[(echoedAll keys).length] q)
      (ttyBackspace^[keys.length] u) := by
  induction keys using List.reverseRecOn generalizing q u with
  | nil => exact h
  | append_singleton keys c ih =>
      rw [echoedAll_snoc, List.length_append] at hn ⊢
      have hstep := h.backspace (by omega)
      have hrest := ih hstep (by rw [Page.iterate_back_position]; omega)
      rw [List.length_append, List.length_singleton, Function.iterate_add_apply,
        Function.iterate_add_apply, Function.iterate_one]
      exact hrest

/-- **Backspaces undo keys.**  After a number of keys the screen shows what it did, scrolled by some
rows, with the echo of the keys behind the old text.  After as many backspaces the line is as it
was, the cursor is where it was on the text, and the cells that the keys had occupied are blank, all
others as they were. -/
theorem backspaces_undo_keys {s : Tty} (h : Within 0 s.display) {keys : List UInt8}
    (hkeys : ∀ c ∈ keys, TypedKey c)
    (hroom : s.bufferSize.toNat + keys.length ≤ MAX_TERMINAL_BUF_SIZE - 1) :
    let start := s.display.position.toNat
    let text := echoedAll keys
    let rows := rowsScrolled s keys
    let u := keys.foldl (ttySendchar id) s
    let t := ttyBackspace^[keys.length] u
    (u.bufferSize.toNat = s.bufferSize.toNat + keys.length
      ∧ u.display.position + 80 * rows = s.display.position + text.length
      ∧ ∀ r < 25, ∀ c < 80, u.display.char r c
        = if start ≤ 80 * (rows + r) + c then
            text.getD (80 * (rows + r) + c - start) ((s.display.page h).cell (rows + r) c)
          else (s.display.page h).cell (rows + r) c)
    ∧ t.bufferSize = s.bufferSize ∧ (∀ i < s.bufferSize.toNat, t.input i = s.input i)
      ∧ t.display.screenX = s.display.screenX ∧ t.display.screenY + rows = s.display.screenY
      ∧ ∀ r < 25, ∀ c < 80, t.display.char r c
        = if start ≤ 80 * (rows + r) + c ∧ 80 * (rows + r) + c < start + text.length then SPACE
          else (s.display.page h).cell (rows + r) c := by
  intro start text rows u t
  set p := s.display.page h with hp
  have hposition := h.position_nonneg
  have hstart : p.position = start := by
    have hleft := h.left
    have htop := h.top
    simp only [hp, Page.position, Display.page, start, position, NUM_COLS]
    omega
  have htyped := typed_foldl (shows_page h) hkeys hroom
  have htop : (p.putAll text).top 25 = rows := by
    rw [Page.top, Page.row_eq, Page.putAll_position, hstart]
    rfl
  have hshows : ShowsFrom rows u.display (p.putAll text) := htop ▸ htyped.shows
  have hfew := echoedAll_length_le keys
  -- the first row on the screen lies before the place where the keys start
  have hscreen : 80 * rows ≤ start := by
    rw [MAX_TERMINAL_BUF_SIZE] at hroom
    calc 80 * rows = 80 * ((start + (echoedAll keys).length) / 80 + 1 - 25) := rfl
      _ ≤ start := by omega
  have herase : ToErase s rows keys (p.putAll text) u :=
    ⟨htyped.size, htyped.input, htyped.width, hshows, htyped.shows.within.bounded⟩
  have hback := herase.backspaces (by
    rw [Page.putAll_position, hstart]
    exact Nat.add_le_add_right hscreen _)
  obtain ⟨hcursor, hcells⟩ := p.back_putAll text SPACE
  set q := (Page.back · SPACE)^[text.length] (p.putAll text) with hq
  refine ⟨⟨htyped.size, ?_, fun r hr c hc => ?_⟩, ?_, hback.input, ?_, ?_, fun r hr c hc => ?_⟩
  · have hx := hshows.col
    have hy := hshows.row
    have hpos : 80 * (p.putAll text).row + (p.putAll text).col = start + text.length := by
      rw [← hstart, ← Page.putAll_position]
      rfl
    rw [position, NUM_COLS]
    omega
  · rw [hshows.window r hr c hc, Page.cell_eq_cellAt _ hc, Page.putAll_cellAt, hstart,
      Page.cell_eq_cellAt _ hc]
  · exact UInt8.toNat_inj.mp hback.size
  · have hx := hback.shows.col
    rw [hx, Page.col_eq, hcursor, ← Page.col_eq]
    exact Int.toNat_of_nonneg h.left
  · have hy := hback.shows.row
    have hrow : (q.row : ℤ) = s.display.screenY := by
      rw [Page.row_eq, hcursor, ← Page.row_eq]
      exact Int.toNat_of_nonneg h.top
    rw [← hrow]
    exact hy
  · rw [hback.shows.window r hr c hc, Page.cell_eq_cellAt _ hc, Page.cell_eq_cellAt _ hc,
      ← hstart]
    exact hcells _

end Keys

/-- The keys `a` and Ctrl-A on a fresh terminal. -/
theorem backspaces_undo_keys_freshTty : Within 0 freshTty.display
    ∧ (∀ c ∈ [0x61, 1], TypedKey c)
    ∧ ([0x61, 1].foldl (ttySendchar id) freshTty).bufferSize.toNat = 2
    ∧ (ttyBackspace^[2] ([0x61, 1].foldl (ttySendchar id) freshTty)).bufferSize = 0
    ∧ (ttyBackspace^[2] ([0x61, 1].foldl (ttySendchar id) freshTty)).display.screenX = 0 := by
  have hkeys : ∀ c ∈ [0x61, 1], TypedKey c := by
    intro c hc
    simp only [List.mem_cons, List.not_mem_nil, or_false] at hc
    rcases hc with rfl | rfl <;>
      exact ⟨by decide, by decide, by decide, by decide, by decide⟩
  obtain ⟨⟨hsize, -⟩, hback, -, hx, -⟩ :=
    backspaces_undo_keys freshTty_within hkeys (by decide)
  exact ⟨freshTty_within, hkeys, hsize, hback, hx⟩

end CustomLinuxOs
