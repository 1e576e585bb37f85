import CustomLinuxOs.Terminal.HistoryKeys
import CustomLinuxOs.Terminal.Multiplex
import CustomLinuxOs.Terminal.ScreenMemory

/-!
When the screens in memory are those of `Screen`, whose arrays do not touch.

* `Screen.Agrees`, `Tty.Agrees`: the same contents within the bounds of the arrays.
* `Tty.Fits`: no line is longer than its slot, and the indices are slots.
* `Simulates`: the terminal with separate arrays fits, and agrees with what is in memory.
* `FindsLine`: a call of `tty_read` takes its line from a buffer that is not empty.
* `Simulates.run`: under this condition an operation goes the same way in both.
-/

namespace CustomLinuxOs

/-! ### Screens -/

namespace Screen

/-- Screens with the same contents; the arrays are compared within their bounds. -/
structure Agrees (a b : Screen) : Prop where
  screenX : a.screenX = b.screenX
  screenY : a.screenY = b.screenY
  widths : ∀ i < MAX_TERMINAL_BUF_SIZE, a.widthBuffer i = b.widthBuffer i
  ready : a.ready = b.ready
  tabLs : a.tabLs = b.tabLs
  attrib : a.attrib = b.attrib
  lines : ∀ k, IsSlot k → ∀ i < MAX_TERMINAL_BUF_SIZE, a.inputHistory k i = b.inputHistory k i
  sizes : ∀ k, IsSlot k → a.sizeHistory k = b.sizeHistory k
  historyStart : a.historyStart = b.historyStart
  historyEnd : a.historyEnd = b.historyEnd
  historyCurr : a.historyCurr = b.historyCurr

/-- No saved line is longer than its slot, and the saved indices are slots. -/
structure Fits (a : Screen) : Prop where
  sizes : ∀ k, IsSlot k → (a.sizeHistory k).toNat ≤ MAX_TERMINAL_BUF_SIZE
  curr : IsSlot a.historyCurr
  last : IsSlot a.historyEnd

variable {a b c : Screen}

lemma Agrees.refl (a : Screen) : a.Agrees a :=
  ⟨rfl, rfl, fun _ _ => rfl, rfl, rfl, rfl, fun _ _ _ _ => rfl, fun _ _ => rfl, rfl, rfl, rfl⟩

lemma Agrees.symm (h : a.Agrees b) : b.Agrees a where
  screenX := h.screenX.symm
  screenY := h.screenY.symm
  widths i hi := (h.widths i hi).symm
  ready := h.ready.symm
  tabLs := h.tabLs.symm
  attrib := h.attrib.symm
  lines k hk i hi := (h.lines k hk i hi).symm
  sizes k hk := (h.sizes k hk).symm
  historyStart := h.historyStart.symm
  historyEnd := h.historyEnd.symm
  historyCurr := h.historyCurr.symm

lemma Agrees.trans (h : a.Agrees b) (h' : b.Agrees c) : a.Agrees c where
  screenX := h.screenX.trans h'.screenX
  screenY := h.screenY.trans h'.screenY
  widths i hi := (h.widths i hi).trans (h'.widths i hi)
  ready := h.ready.trans h'.ready
  tabLs := h.tabLs.trans h'.tabLs
  attrib := h.attrib.trans h'.attrib
  lines k hk i hi := (h.lines k hk i hi).trans (h'.lines k hk i hi)
  sizes k hk := (h.sizes k hk).trans (h'.sizes k hk)
  historyStart := h.historyStart.trans h'.historyStart
  historyEnd := h.historyEnd.trans h'.historyEnd
  historyCurr := h.historyCurr.trans h'.historyCurr

end Screen

section Memory

variable {mem mem' : Memory} {n : ℤ} {a : Screen}

/-- Memory is the same in the bytes `lo` to `hi` of `screens[n]`. -/
def SameBytes (mem mem' : Memory) (n lo hi : ℤ) : Prop :=
  ∀ x, screenAddr n + lo ≤ x → x < screenAddr n + hi → mem' x = mem x

lemma SameBytes.readInt {lo hi o : ℤ} (h : SameBytes mem mem' n lo hi) (hlo : lo ≤ o)
    (hhi : o + 4 ≤ hi) :
    readInt mem' (screenAddr n + o) = CustomLinuxOs.readInt mem (screenAddr n + o) :=
  readInt_congr fun x _ _ => h x (by omega) (by omega)

lemma widthAddr_bounds (n : ℤ) {i : ℕ} (hi : i < MAX_TERMINAL_BUF_SIZE) :
    screenAddr n + 8 ≤ widthAddr n i ∧ widthAddr n i < screenAddr n + 136 := by
  rw [MAX_TERMINAL_BUF_SIZE] at hi
  rw [widthAddr]
  omega

lemma inputAddr_bounds (n : ℤ) {k : ℤ} (hk : IsSlot k) {i : ℕ} (hi : i < MAX_TERMINAL_BUF_SIZE) :
    screenAddr n + 139 ≤ inputAddr n k i ∧ inputAddr n k i < screenAddr n + 4235 := by
  obtain ⟨hlo, hhi⟩ := hk
  rw [MAX_TERMINAL_HIST_LEN] at hhi
  rw [MAX_TERMINAL_BUF_SIZE] at hi
  rw [inputAddr]
  omega

/-- Lines do not overlap. -/
lemma inputAddr_ne {k l : ℤ} (hne : l ≠ k) {i j : ℕ} (hi : i < MAX_TERMINAL_BUF_SIZE)
    (hj : j < MAX_TERMINAL_BUF_SIZE) : inputAddr n l j ≠ inputAddr n k i := by
  rw [MAX_TERMINAL_BUF_SIZE] at hi hj
  rw [inputAddr, inputAddr]
  omega

lemma sizeAddr_bounds (n : ℤ) {k : ℤ} (hk : IsSlot k) :
    screenAddr n + 4235 ≤ sizeAddr n k ∧ sizeAddr n k < screenAddr n + 4267 := by
  obtain ⟨hlo, hhi⟩ := hk
  rw [MAX_TERMINAL_HIST_LEN] at hhi
  rw [sizeAddr]
  omega

/-- A screen whose widths have changed. -/
lemma Screen.Agrees.withWidths (h : a.Agrees (readScreen mem n)) {f : ℕ → UInt8}
    (hlow : SameBytes mem mem' n 0 8) (hhigh : SameBytes mem mem' n 136 4280)
    (hf : ∀ i < MAX_TERMINAL_BUF_SIZE, f i = mem' (widthAddr n i)) :
    ({ a with widthBuffer := f } : Screen).Agrees (readScreen mem' n) where
  screenX := h.screenX.trans (readInt_congr fun x _ _ => hlow x (by omega) (by omega)).symm
  screenY := h.screenY.trans (hlow.readInt (by omega) (by omega)).symm
  widths := hf
  ready := h.ready.trans (by simp only [readScreen, hhigh _ le_rfl (by omega)])
  tabLs := h.tabLs.trans (by
    simp only [readScreen, hhigh (screenAddr n + 137) (by omega) (by omega)])
  attrib := h.attrib.trans (hhigh _ (by omega) (by omega)).symm
  lines k hk i hi := by
    obtain ⟨hlo, hhi⟩ := inputAddr_bounds n hk hi
    exact (h.lines k hk i hi).trans (hhigh _ (by omega) (by omega)).symm
  sizes k hk := by
    obtain ⟨hlo, hhi⟩ := sizeAddr_bounds n hk
    exact (h.sizes k hk).trans (hhigh _ (by omega) (by omega)).symm
  historyStart := h.historyStart.trans (hhigh.readInt (by omega) (by omega)).symm
  historyEnd := h.historyEnd.trans (hhigh.readInt (by omega) (by omega)).symm
  historyCurr := h.historyCurr.trans (hhigh.readInt (by omega) (by omega)).symm

/-- A screen whose lines have changed. -/
lemma Screen.Agrees.withLines (h : a.Agrees (readScreen mem n)) {f : ℤ → ℕ → UInt8}
    (hlow : SameBytes mem mem' n 0 139) (hhigh : SameBytes mem mem' n 4235 4280)
    (hf : ∀ k, IsSlot k → ∀ i < MAX_TERMINAL_BUF_SIZE, f k i = mem' (inputAddr n k i)) :
    ({ a with inputHistory := f } : Screen).Agrees (readScreen mem' n) where
  screenX := h.screenX.trans (readInt_congr fun x _ _ => hlow x (by omega) (by omega)).symm
  screenY := h.screenY.trans (hlow.readInt (by omega) (by omega)).symm
  widths i hi := by
    obtain ⟨hlo, hhi⟩ := widthAddr_bounds n hi
    exact (h.widths i hi).trans (hlow _ (by omega) (by omega)).symm
  ready := h.ready.trans (by
    simp only [readScreen, hlow (screenAddr n + 136) (by omega) (by omega)])
  tabLs := h.tabLs.trans (by
    simp only [readScreen, hlow (screenAddr n + 137) (by omega) (by omega)])
  attrib := h.attrib.trans (hlow _ (by omega) (by omega)).symm
  lines := hf
  sizes k hk := by
    obtain ⟨hlo, hhi⟩ := sizeAddr_bounds n hk
    exact (h.sizes k hk).trans (hhigh _ (by omega) (by omega)).symm
  historyStart := h.historyStart.trans (hhigh.readInt (by omega) (by omega)).symm
  historyEnd := h.historyEnd.trans (hhigh.readInt (by omega) (by omega)).symm
  historyCurr := h.historyCurr.trans (hhigh.readInt (by omega) (by omega)).symm

/-- A screen whose saved sizes have changed. -/
lemma Screen.Agrees.withSizes (h : a.Agrees (readScreen mem n)) {f : ℤ → UInt8}
    (hlow : SameBytes mem mem' n 0 4235) (hhigh : SameBytes mem mem' n 4267 4280)
    (hf : ∀ k, IsSlot k → f k = mem' (sizeAddr n k)) :
    ({ a with sizeHistory := f } : Screen).Agrees (readScreen mem' n) where
  screenX := h.screenX.trans (readInt_congr fun x _ _ => hlow x (by omega) (by omega)).symm
  screenY := h.screenY.trans (hlow.readInt (by omega) (by omega)).symm
  widths i hi := by
    obtain ⟨hlo, hhi⟩ := widthAddr_bounds n hi
    exact (h.widths i hi).trans (hlow _ (by omega) (by omega)).symm
  ready := h.ready.trans (by
    simp only [readScreen, hlow (screenAddr n + 136) (by omega) (by omega)])
  tabLs := h.tabLs.trans (by
    simp only [readScreen, hlow (screenAddr n + 137) (by omega) (by omega)])
  attrib := h.attrib.trans (hlow _ (by omega) (by omega)).symm
  lines k hk i hi := by
    obtain ⟨hlo, hhi⟩ := inputAddr_bounds n hk hi
    exact (h.lines k hk i hi).trans (hlow _ (by omega) (by omega)).symm
  sizes := hf
  historyStart := h.historyStart.trans (hhigh.readInt (by omega) (by omega)).symm
  historyEnd := h.historyEnd.trans (hhigh.readInt (by omega) (by omega)).symm
  historyCurr := h.historyCurr.trans (hhigh.readInt (by omega) (by omega)).symm

/-- A screen whose memory has not changed. -/
lemma Screen.Agrees.congr (h : a.Agrees (readScreen mem n)) (hsame : SameBytes mem mem' n 0 4280) :
    a.Agrees (readScreen mem' n) :=
  h.withSizes (fun x hlo hhi => hsame x hlo (by omega)) (fun x hlo hhi => hsame x (by omega) hhi)
    fun k hk => by
      obtain ⟨hlo, hhi⟩ := sizeAddr_bounds n hk
      exact (h.sizes k hk).trans (hsame _ (by omega) (by omega)).symm

lemma sameBytes_update {lo hi x : ℤ} (b : UInt8)
    (hx : x < screenAddr n + lo ∨ screenAddr n + hi ≤ x) :
    SameBytes mem (writeByte mem x b) n lo hi :=
  fun y hlo hhi => writeByte_of_ne _ _ (by omega)

end Memory

/-! ### Terminals -/

namespace Tty

/-- Terminals with the same variables, and screens with the same contents. -/
structure Agrees (s t : Tty) : Prop where
  display : s.display = t.display
  inputBuffer : s.inputBuffer = t.inputBuffer
  widthBuffer : s.widthBuffer = t.widthBuffer
  bufferSize : s.bufferSize = t.bufferSize
  ready : s.ready = t.ready
  tabLs : s.tabLs = t.tabLs
  historyStart : s.historyStart = t.historyStart
  historyEnd : s.historyEnd = t.historyEnd
  historyCurr : s.historyCurr = t.historyCurr
  screens : ∀ n, IsScreen n → (s.screens n).Agrees (t.screens n)

/-- No line is longer than its slot, and the pointers are to slots of the process screen. -/
structure Fits (s : Tty) : Prop where
  process : IsScreen s.processScreen
  inputBuffer : s.inputBuffer = (s.processScreen, s.historyCurr)
  widthBuffer : s.widthBuffer = s.processScreen
  size : s.bufferSize.toNat ≤ MAX_TERMINAL_BUF_SIZE
  curr : IsSlot s.historyCurr
  last : IsSlot s.historyEnd
  screens : ∀ n, IsScreen n → (s.screens n).Fits

end Tty

/-- The terminal `s`, whose arrays are separate, is in a state in which they suffice, and memory
holds the same. -/
structure Simulates (s : Tty) (m : RawTty) : Prop where
  agrees : s.Agrees m.view
  fits : s.Fits

namespace Simulates

variable {s s' t : Tty} {m m' : RawTty}

lemma display (h : Simulates s m) : m.display = s.display := h.agrees.display.symm

lemma bufferSize (h : Simulates s m) : m.bufferSize = s.bufferSize := h.agrees.bufferSize.symm

lemma historyCurr (h : Simulates s m) : m.historyCurr = s.historyCurr := h.agrees.historyCurr.symm

lemma historyStart (h : Simulates s m) : m.historyStart = s.historyStart :=
  h.agrees.historyStart.symm

lemma historyEnd (h : Simulates s m) : m.historyEnd = s.historyEnd := h.agrees.historyEnd.symm

lemma ready (h : Simulates s m) : m.ready = s.ready := h.agrees.ready.symm

lemma tabLs (h : Simulates s m) : m.tabLs = s.tabLs := h.agrees.tabLs.symm

lemma processScreen (h : Simulates s m) : m.processScreen = s.processScreen :=
  congrArg Display.processScreen h.display

lemma inputBuffer (h : Simulates s m) : m.inputBuffer = (s.processScreen, s.historyCurr) :=
  h.agrees.inputBuffer.symm.trans h.fits.inputBuffer

lemma widthBuffer (h : Simulates s m) : m.widthBuffer = s.processScreen :=
  h.agrees.widthBuffer.symm.trans h.fits.widthBuffer

lemma input (h : Simulates s m) {i : ℕ} (hi : i < MAX_TERMINAL_BUF_SIZE) :
    m.input i = s.input i := by
  have hline := (h.agrees.screens _ h.fits.process).lines _ h.fits.curr i hi
  rw [Tty.input, h.fits.inputBuffer, hline, RawTty.input, h.inputBuffer]
  rfl

lemma width (h : Simulates s m) {i : ℕ} (hi : i < MAX_TERMINAL_BUF_SIZE) :
    (m.view.screens m.view.widthBuffer).widthBuffer i
      = (s.screens s.widthBuffer).widthBuffer i := by
  have hwidth := (h.agrees.screens _ h.fits.process).widths i hi
  rw [h.fits.widthBuffer, hwidth, ← h.widthBuffer]
  rfl

/-- The terminals differ in the screens at most. -/
lemma eq_inMemory (h : Simulates s m) : ∃ mem, m = s.inMemory mem := by
  obtain ⟨hdisplay, hinput, hwidth, hsize, hready, htab, hstart, hend, hcurr, -⟩ := h.agrees
  refine ⟨m.mem, ?_⟩
  rw [Tty.inMemory, hdisplay, hinput, hwidth, hsize, hready, htab, hstart, hend, hcurr]
  rfl

/-- Another display of the same process screen. -/
lemma withScreen (h : Simulates s m) {d : Display} (hd : d.processScreen = s.processScreen) :
    Simulates { s with display := d } { m with display := d } := by
  have hfits := h.fits
  refine ⟨{ h.agrees with display := rfl }, { hfits with
    process := ?_, inputBuffer := ?_, widthBuffer := hfits.widthBuffer.trans hd.symm }⟩
  · exact (hd.symm ▸ hfits.process : IsScreen d.processScreen)
  · exact hfits.inputBuffer.trans (by rw [← hd]; rfl)

/-- Output on a display. -/
lemma withDisplay (h : Simulates s m) {d : Display} (hd : d.setup = s.display.setup) :
    Simulates { s with display := d } { m with display := d } :=
  h.withScreen (congrArg Display.Setup.processScreen hd)

lemma withReady (h : Simulates s m) (b : Bool) :
    Simulates { s with ready := b } { m with ready := b } :=
  ⟨{ h.agrees with ready := rfl }, { h.fits with }⟩

lemma withTabLs (h : Simulates s m) (b : Bool) :
    Simulates { s with tabLs := b } { m with tabLs := b } :=
  ⟨{ h.agrees with tabLs := rfl }, { h.fits with }⟩

lemma withSize (h : Simulates s m) {n : UInt8} (hn : n.toNat ≤ MAX_TERMINAL_BUF_SIZE) :
    Simulates { s with bufferSize := n } { m with bufferSize := n } :=
  ⟨{ h.agrees with bufferSize := rfl }, { h.fits with size := hn }⟩

lemma modifyScreen_screens (s : Tty) (p : ℤ) (f : Screen → Screen) (n : ℤ) :
    (s.modifyScreen p f).screens n = if n = p then f (s.screens p) else s.screens n :=
  Function.update_apply _ _ _ _

/-- A change of the process screen that memory goes along with. -/
lemma modify (h : Simulates s m) {f : Screen → Screen} {mem' : Memory}
    (hother : ∀ x, x < screenAddr s.processScreen ∨ screenAddr s.processScreen + 4280 ≤ x →
      mem' x = m.mem x)
    (hown : (f (s.screens s.processScreen)).Agrees (readScreen mem' s.processScreen))
    (hfits : (f (s.screens s.processScreen)).Fits) :
    Simulates (s.modifyScreen s.processScreen f) { m with mem := mem' } := by
  refine ⟨{ h.agrees with screens := fun n hn => ?_ },
    { h.fits with screens := fun n hn => ?_ }⟩
  · rw [modifyScreen_screens]
    split
    · rename_i heq
      exact heq ▸ hown
    · rename_i hne
      refine (h.agrees.screens n hn).congr fun x hlo hhi => hother x ?_
      rw [screenAddr] at *
      omega
  · rw [modifyScreen_screens]
    split
    · exact hfits
    · exact h.fits.screens n hn

lemma own (h : Simulates s m) :
    (s.screens s.processScreen).Agrees (readScreen m.mem s.processScreen) :=
  h.agrees.screens _ h.fits.process

lemma setWidth (h : Simulates s m) {i : ℕ} (hi : i < MAX_TERMINAL_BUF_SIZE) (w : UInt8) :
    Simulates (s.setWidth i w) (m.setWidth i w) := by
  obtain ⟨hlo, hhi⟩ := widthAddr_bounds s.processScreen hi
  have hstore : m.setWidth i w = m.store (widthAddr s.processScreen i) w := by
    rw [RawTty.setWidth, h.widthBuffer]
  rw [hstore, Tty.setWidth, h.fits.widthBuffer]
  refine h.modify ?_ ?_ ?_
  · exact fun x hx => writeByte_of_ne _ _ (by omega)
  · refine h.own.withWidths (sameBytes_update w (by omega)) (sameBytes_update w (by omega))
      fun j hj => ?_
    rcases eq_or_ne j i with rfl | hne
    · rw [Function.update_self, writeByte_self]
    · rw [Function.update_of_ne hne, writeByte_of_ne _ _ (by rw [widthAddr, widthAddr]; omega)]
      exact h.own.widths j hj
  · exact { h.fits.screens _ h.fits.process with }

lemma setInput (h : Simulates s m) {i : ℕ} (hi : i < MAX_TERMINAL_BUF_SIZE) (c : UInt8) :
    Simulates (s.setInput i c) (m.setInput i c) := by
  obtain ⟨hlo, hhi⟩ := inputAddr_bounds s.processScreen h.fits.curr hi
  have hstore : m.setInput i c = m.store (inputAddr s.processScreen s.historyCurr i) c := by
    rw [RawTty.setInput, h.inputBuffer]
  rw [hstore, Tty.setInput, h.fits.inputBuffer]
  refine h.modify ?_ ?_ ?_
  · exact fun x hx => writeByte_of_ne _ _ (by omega)
  · refine h.own.withLines (sameBytes_update c (by omega)) (sameBytes_update c (by omega))
      fun k hk j hj => ?_
    rcases eq_or_ne k s.historyCurr with rfl | hne
    · rw [Function.update_self]
      rcases eq_or_ne j i with rfl | hne
      · rw [Function.update_self, writeByte_self]
      · rw [Function.update_of_ne hne, writeByte_of_ne _ _ (by rw [inputAddr, inputAddr]; omega)]
        exact h.own.lines _ hk j hj
    · rw [Function.update_of_ne hne, writeByte_of_ne _ _ (inputAddr_ne hne hi hj)]
      exact h.own.lines k hk j hj
  · exact { h.fits.screens _ h.fits.process with }

lemma setSizeHistory (h : Simulates s m) {k : ℤ} (hk : IsSlot k) {n : UInt8}
    (hn : n.toNat ≤ MAX_TERMINAL_BUF_SIZE) :
    Simulates (s.setSizeHistory k n) (m.setSizeHistory k n) := by
  obtain ⟨hlo, hhi⟩ := sizeAddr_bounds s.processScreen hk
  have hfits := h.fits.screens _ h.fits.process
  have hstore : m.setSizeHistory k n = m.store (sizeAddr s.processScreen k) n := by
    rw [RawTty.setSizeHistory, h.processScreen]
  rw [hstore]
  refine h.modify ?_ ?_ { hfits with sizes := fun j hj => ?_ }
  · exact fun x hx => writeByte_of_ne _ _ (by omega)
  · refine h.own.withSizes (sameBytes_update n (by omega)) (sameBytes_update n (by omega))
      fun j hj => ?_
    rcases eq_or_ne j k with rfl | hne
    · rw [Function.update_self, writeByte_self]
    · rw [Function.update_of_ne hne, writeByte_of_ne _ _ (by rw [sizeAddr, sizeAddr]; omega)]
      exact h.own.sizes j hj
  · simp only [Function.update_apply]
    split
    · exact hn
    · exact hfits.sizes j hj

/-- Another line is loaded. -/
lemma loadLine (h : Simulates s m) {k : ℤ} (hk : IsSlot k) :
    Simulates ({ s with historyCurr := k } : Tty).loadLine
      ({ m with historyCurr := k } : RawTty).loadLine := by
  have hfits := h.fits.screens _ h.fits.process
  refine ⟨{ h.agrees with
    inputBuffer := ?_, bufferSize := ?_, historyCurr := rfl },
    { h.fits with inputBuffer := rfl, size := hfits.sizes k hk, curr := hk }⟩
  · exact congrArg (·, k) h.processScreen.symm
  · refine (h.own.sizes k hk).trans ?_
    rw [← h.processScreen]
    rfl

lemma strncpy_congr {dest dest' src src' : ℕ → UInt8} {n i : ℕ} (hi : i < n)
    (h : ∀ j < n, src j = src' j) : strncpy dest src n i = strncpy dest' src' n i := by
  have hall : (∀ j < i + 1, src j ≠ 0) ↔ ∀ j < i + 1, src' j ≠ 0 :=
    forall₂_congr fun j hj => by rw [h j (by omega)]
  rw [strncpy, strncpy, if_pos hi, if_pos hi, h i hi]
  exact if_congr hall rfl rfl

/-- A line is copied to another slot. -/
lemma copyLine (h : Simulates s m) {k : ℤ} (hk : IsSlot k) :
    Simulates (copyLine s k) (m.copyLine k) := by
  have hbounds {i : ℕ} := inputAddr_bounds s.processScreen hk (i := i)
  have hcopy (x : ℤ) : (m.copyLine k).mem x
      = if inputAddr s.processScreen k 0 ≤ x
          ∧ x < inputAddr s.processScreen k 0 + MAX_TERMINAL_BUF_SIZE then
        strncpy (fun i => m.mem (inputAddr s.processScreen k 0 + i)) m.input MAX_TERMINAL_BUF_SIZE
          (x - inputAddr s.processScreen k 0).toNat
      else m.mem x := by
    rw [← h.processScreen]
    rfl
  have hoff {x : ℤ} (hx : x < screenAddr s.processScreen + 139
      ∨ screenAddr s.processScreen + 4235 ≤ x) : (m.copyLine k).mem x = m.mem x := by
    obtain ⟨hlo, -⟩ := hbounds (i := 0) (by decide)
    obtain ⟨-, hhi⟩ := hbounds (i := 127) (by decide)
    rw [inputAddr] at hhi
    rw [hcopy, if_neg]
    rw [inputAddr, MAX_TERMINAL_BUF_SIZE] at *
    omega
  have hmem : m.copyLine k = { m with mem := (m.copyLine k).mem } := rfl
  rw [hmem]
  refine h.modify (fun x hx => hoff (by omega)) ?_ { h.fits.screens _ h.fits.process with }
  refine h.own.withLines (fun x _ hx => hoff (by omega)) (fun x hx _ => hoff (by omega))
    fun l hl j hj => ?_
  have haddr : inputAddr s.processScreen k j = inputAddr s.processScreen k 0 + j := by
    rw [inputAddr, inputAddr]
    omega
  rcases eq_or_ne l k with rfl | hne
  · rw [Function.update_self, hcopy, if_pos (by omega), haddr, add_sub_cancel_left,
      Int.toNat_natCast]
    exact strncpy_congr hj fun i hi => (h.input hi).symm
  · rw [Function.update_of_ne hne, hcopy, if_neg]
    · exact h.own.lines l hl j hj
    · rw [MAX_TERMINAL_BUF_SIZE] at *
      rw [inputAddr, inputAddr]
      omega

/-! ### Keys -/

/-- Echoing the line. -/
lemma echoBuffer (h : Simulates s m) (untilNewline : Bool) {n i : ℕ}
    (hn : i + n ≤ MAX_TERMINAL_BUF_SIZE) :
    Simulates (echoBuffer untilNewline n i s) (RawTty.echoBuffer untilNewline n i m) := by
  induction n generalizing i s m with
  | zero => exact h
  | succ n ih =>
      have hi : i < MAX_TERMINAL_BUF_SIZE := by omega
      have hin := h.input hi
      have hecho := (h.withDisplay (ttyEchoNocursor_setup s.display (s.input i))).setWidth hi
        (ttyEchoNocursor s.display (s.input i)).1
      have hsame := (hecho.input hi).trans (by
        rw [Tty.input_eq, Tty.setWidth_inputSide,
          Tty.withDisplay_inputSide _ (ttyEchoNocursor_setup _ _), ← Tty.input_eq])
      simp only [CustomLinuxOs.echoBuffer, RawTty.echoBuffer, h.display, hin, hsame]
      split
      · exact hecho
      · exact ih hecho (by omega)

lemma setCursorDefault (h : Simulates s m) :
    Simulates { s with display := setCursorDefault s.display }
      { m with display := CustomLinuxOs.setCursorDefault m.display } := by
  rw [h.display]
  exact h.withDisplay (setCursorDefault_setup _)

lemma rewrite (h : Simulates s m) : Simulates (rewrite s) m.rewrite := by
  have hecho := h.echoBuffer false (i := 0) (n := s.bufferSize.toNat) (by
    rw [Nat.zero_add]
    exact h.fits.size)
  rw [RawTty.rewrite, h.bufferSize]
  exact hecho.setCursorDefault

lemma showLine (h : Simulates s m) : Simulates (showLine s) m.showLine := by
  have hecho := h.echoBuffer true (i := 0) (n := s.bufferSize.toNat) (by
    rw [Nat.zero_add]
    exact h.fits.size)
  rw [RawTty.showLine, h.bufferSize]
  exact hecho.setCursorDefault

lemma promptStart (h : Simulates s m) : promptStart m.view = promptStart s := by
  rw [CustomLinuxOs.promptStart, CustomLinuxOs.promptStart, ← h.agrees.bufferSize,
    ← h.agrees.display]
  refine List.foldl_ext _ _ _ fun p i hi => ?_
  have hlt : i < MAX_TERMINAL_BUF_SIZE := (List.mem_range.mp hi).trans_le h.fits.size
  simp only [h.width hlt]

lemma checkShell (h : Simulates s m) : checkShell m.view = checkShell s := by
  rw [checkShell_eq, checkShell_eq, h.promptStart, ← h.agrees.display]

lemma shellMapped (h : Simulates s m) : shellMapped m.view = shellMapped s := by
  rw [CustomLinuxOs.shellMapped, CustomLinuxOs.shellMapped, h.promptStart]

lemma ttyCls (h : Simulates s m) : Simulates (ttyCls s) m.ttyCls := by
  rw [RawTty.ttyCls_eq, ttyCls_eq, h.checkShell, h.display]
  refine (h.withDisplay ?_).rewrite
  split
  · rw [ttyPutBytes_setup]
    rfl
  · rfl

lemma ttyLs (h : Simulates s m) (names : Listing) (filename : ℕ → UInt8) (n : ℕ) :
    Simulates (ttyLs names filename n s) (m.ttyLs names filename n) := by
  simp only [CustomLinuxOs.ttyLs, RawTty.ttyLs, h.checkShell, h.display]
  refine (h.withDisplay ?_).rewrite
  split
  · rw [ttyPutBytes_setup, foldl_setup]
  · rw [foldl_setup]

lemma ttyBackspace (h : Simulates s m) : Simulates (ttyBackspace s) m.ttyBackspace := by
  obtain ⟨mem, rfl⟩ := h.eq_inMemory
  have hsize : (s.inMemory mem).view.bufferSize = s.bufferSize := rfl
  have hdisplay : (s.inMemory mem).view.display = s.display := rfl
  rw [RawTty.ttyBackspace, CustomLinuxOs.ttyBackspace, CustomLinuxOs.ttyBackspace, hsize, hdisplay]
  split
  · rename_i hpos
    split
    · exact h
    · have hlt : (s.bufferSize - 1).toNat < MAX_TERMINAL_BUF_SIZE := by
        have hfits := h.fits.size
        have hne : s.bufferSize ≠ 0 := UInt8.pos_iff_ne_zero.mp hpos
        have hnat : s.bufferSize.toNat ≠ 0 := fun h0 => hne (UInt8.toNat_inj.mp h0)
        rw [toNat_sub_one hne]
        omega
      have hsetup (n : ℕ) : (CustomLinuxOs.setCursorDefault (eraseCells n s.display)).setup
          = s.display.setup := by
        rw [setCursorDefault_setup, eraseCells_setup]
      simp only [h.width hlt]
      exact ((h.withSize hlt.le).withDisplay (hsetup _)).withTabLs false
  · exact h.withTabLs false

lemma toNat_add_one {n : UInt8} (h : n.toNat < MAX_TERMINAL_BUF_SIZE) :
    (n + 1).toNat ≤ MAX_TERMINAL_BUF_SIZE := by
  rw [MAX_TERMINAL_BUF_SIZE] at *
  rw [UInt8.toNat_add, UInt8.toNat_one]
  omega

lemma enterChar (h : Simulates s m) (c : UInt8) : Simulates (enterChar s c) (m.enterChar c) := by
  obtain ⟨mem, rfl⟩ := h.eq_inMemory
  have hsetup : (ttyEcho s.display c).2.setup = s.display.setup := ttyEcho_setup _ _
  have hsize : (s.inMemory mem).bufferSize = s.bufferSize := rfl
  rw [CustomLinuxOs.enterChar, RawTty.enterChar, hsize]
  split
  · rename_i hlt
    have hlt' : s.bufferSize.toNat < MAX_TERMINAL_BUF_SIZE := Nat.lt_of_lt_pred hlt
    exact ((((h.setInput hlt' c).withDisplay hsetup).setWidth hlt' (ttyEcho s.display c).1
      ).withSize (toNat_add_one hlt')).withReady (if c = NEWLINE then true else s.ready)
  · split
    · rename_i heq
      have hlt : s.bufferSize.toNat < MAX_TERMINAL_BUF_SIZE := by
        rw [heq]
        decide
      split
      · exact (((h.withDisplay hsetup).setInput hlt c).withSize (toNat_add_one hlt)).withReady true
      · exact h
    · exact h

lemma ttySendchar (h : Simulates s m) {c : UInt8} (hc : c ≠ TAB) :
    Simulates (ttySendchar id s c) (m.ttySendchar c) := by
  rw [CustomLinuxOs.ttySendchar, RawTty.ttySendchar, if_neg hc]
  split
  · exact h.ttyCls.withTabLs false
  · split
    · exact h
    · exact (h.enterChar c).withTabLs false

/-! ### Completion -/

lemma getLast (h : Simulates s m) : getLast m.view = getLast s := by
  have hloop {i : ℕ} (hi : i ≤ MAX_TERMINAL_BUF_SIZE) :
      getLastLoop m.view i = getLastLoop s i := by
    induction i with
    | zero => rfl
    | succ i ih =>
        have hin : m.view.input i = s.input i := h.input hi
        rw [getLastLoop, getLastLoop, hin, ih (Nat.le_of_succ_le hi)]
  rw [CustomLinuxOs.getLast, CustomLinuxOs.getLast, ← h.agrees.bufferSize]
  exact hloop h.fits.size

lemma completion (h : Simulates s m) (names : Listing) :
    completion names m.view = completion names s := by
  have hword (i : ℕ) : (if i < s.bufferSize.toNat - CustomLinuxOs.getLast s then
        m.view.input (CustomLinuxOs.getLast s + i) else 0)
      = if i < s.bufferSize.toNat - CustomLinuxOs.getLast s then
        s.input (CustomLinuxOs.getLast s + i) else 0 := by
    split
    · have hsize := h.fits.size
      exact h.input (by omega)
    · rfl
  simp only [CustomLinuxOs.completion, h.getLast, ← h.agrees.bufferSize, hword]

/-- What both do, or neither. -/
abbrev Both : Option Tty → Option RawTty → Prop := Option.Rel Simulates

lemma foldlM {send : Tty → UInt8 → Option Tty} {send' : RawTty → UInt8 → Option RawTty}
    (hsend : ∀ {s m} c, Simulates s m → Both (send s c) (send' m c)) (bytes : List UInt8)
    (h : Simulates s m) : Both (bytes.foldlM send s) (bytes.foldlM send' m) := by
  induction bytes generalizing s m with
  | nil => exact .some h
  | cons b bytes ih =>
      rw [List.foldlM_cons, List.foldlM_cons]
      have hb := hsend b h
      generalize send s b = r, send' m b = r' at hb
      cases hb with
      | some hb => exact ih hb
      | none => exact .none

lemma tabComplete {send : Tty → UInt8 → Option Tty} {send' : RawTty → UInt8 → Option RawTty}
    (hsend : ∀ {s m} c, Simulates s m → Both (send s c) (send' m c)) (h : Simulates s m)
    (names : Listing) : Both (tabComplete send names s) (m.tabComplete send' names) := by
  rw [CustomLinuxOs.tabComplete, RawTty.tabComplete, h.completion, h.tabLs, h.shellMapped]
  cases CustomLinuxOs.completion names s with
  | none => exact .some h
  | some completion =>
      cases completion with
      | noMatch => exact .some (h.withTabLs false)
      | ambiguous filename n =>
          simp only
          split
          · split
            · exact .some ((h.ttyLs names filename n).withTabLs true)
            · exact .none
          · exact .some (h.withTabLs true)
      | add bytes =>
          have hall := h.foldlM hsend bytes
          simp only
          generalize bytes.foldlM send s = r, bytes.foldlM send' m = r' at hall
          cases hall with
          | some hall => exact .some (hall.withTabLs false)
          | none => exact .none

/-- **Keys**. -/
lemma sendKey (names : Listing) (depth : ℕ) (c : UInt8) (h : Simulates s m) :
    Both (sendKey names depth s c) (m.sendKey names depth c) := by
  induction depth generalizing s m c with
  | zero => exact .none
  | succ depth ih =>
      rw [CustomLinuxOs.sendKey, RawTty.sendKey, h.shellMapped]
      split
      · exact h.tabComplete (fun c h => ih c h) names
      · rename_i hc
        split
        · exact .none
        · exact .some (h.ttySendchar hc)

/-! ### History -/

lemma view_inMemory {mem : Memory} (ht : t.screens = readScreen mem) :
    (t.inMemory mem).view = t := by
  rw [RawTty.view, Tty.inMemory]
  simp only [← ht]

lemma view_ttyBackspace (m : RawTty) :
    m.ttyBackspace.view = CustomLinuxOs.ttyBackspace m.view := by
  refine view_inMemory ?_
  rw [CustomLinuxOs.ttyBackspace]
  split
  · split <;> rfl
  · rfl

/-- Erasing the line. -/
lemma eraseLine (n : ℕ) (h : Simulates s m) :
    Both (eraseLine n s) ((CustomLinuxOs.eraseLine n m.view).map (·.inMemory m.mem)) := by
  induction n generalizing s m with
  | zero => exact .some h
  | succ n ih =>
      rw [CustomLinuxOs.eraseLine, CustomLinuxOs.eraseLine, ← h.agrees.display]
      split
      · exact .none
      · have hnext := ih h.ttyBackspace
        rw [view_ttyBackspace] at hnext
        exact hnext

lemma changeLine (h : Simulates s m) {k : ℤ} (hk : IsSlot k) :
    Both (changeLine s k) (m.changeLine k) := by
  have herase := (h.setSizeHistory h.fits.curr h.fits.size).eraseLine s.bufferSize.toNat
  have hraw : m.changeLine k
      = ((CustomLinuxOs.eraseLine m.bufferSize.toNat
          (m.setSizeHistory m.historyCurr m.bufferSize).view).map
          (·.inMemory (m.setSizeHistory m.historyCurr m.bufferSize).mem)).map
        fun u => RawTty.rewrite ({ u with historyCurr := k } : RawTty).loadLine :=
    by rw [Option.map_map]; rfl
  rw [hraw, h.historyCurr, h.bufferSize, CustomLinuxOs.changeLine]
  generalize CustomLinuxOs.eraseLine _ (s.setSizeHistory s.historyCurr s.bufferSize) = r,
    Option.map _ (CustomLinuxOs.eraseLine _ _) = r' at herase ⊢
  cases herase with
  | some herase => exact .some (herase.loadLine hk).rewrite
  | none => exact .none

lemma historyUp (h : Simulates s m) : Both (historyUp s) m.historyUp := by
  obtain ⟨mem, rfl⟩ := h.eq_inMemory
  have hcurr : (s.inMemory mem).historyCurr = s.historyCurr := rfl
  have hstart : (s.inMemory mem).historyStart = s.historyStart := rfl
  simp only [CustomLinuxOs.historyUp, RawTty.historyUp, hcurr, hstart]
  split
  · exact .some (h.withTabLs false)
  · exact (h.withTabLs false).changeLine h.fits.curr.prev

lemma historyDown (h : Simulates s m) : Both (historyDown s) m.historyDown := by
  obtain ⟨mem, rfl⟩ := h.eq_inMemory
  have hcurr : (s.inMemory mem).historyCurr = s.historyCurr := rfl
  have hend : (s.inMemory mem).historyEnd = s.historyEnd := rfl
  simp only [CustomLinuxOs.historyDown, RawTty.historyDown, hcurr, hend]
  split
  · exact .some (h.withTabLs false)
  · refine (h.withTabLs false).changeLine ?_
    obtain ⟨hlo, hhi⟩ := h.fits.curr
    rw [IsSlot, MAX_TERMINAL_HIST_LEN] at *
    split <;> omega

/-! ### Taking a line -/

lemma moveHistoryEnd_eq (s : Tty) : CustomLinuxOs.moveHistoryEnd s = { s with
    historyEnd := nextSlot s.historyEnd
    historyStart := if nextSlot s.historyEnd = s.historyStart then s.historyStart + 1
      else s.historyStart } := by
  simp only [CustomLinuxOs.moveHistoryEnd, nextSlot]
  split
  · split <;> rfl
  · split <;> rfl

lemma moveHistoryEnd (h : Simulates s m) :
    Simulates (moveHistoryEnd s) ((CustomLinuxOs.moveHistoryEnd m.view).inMemory m.mem) := by
  obtain ⟨mem, rfl⟩ := h.eq_inMemory
  rw [moveHistoryEnd_eq, moveHistoryEnd_eq]
  exact ⟨{ h.agrees with historyStart := rfl, historyEnd := rfl },
    { h.fits with last := h.fits.last.next }⟩

/-- A line that is taken is not empty: the newline is not counted. -/
lemma saved_le (h : Simulates s m) (hpos : 0 < s.bufferSize) :
    (s.bufferSize - 1).toNat ≤ MAX_TERMINAL_BUF_SIZE := by
  have hfits := h.fits.size
  rw [toNat_sub_one (UInt8.pos_iff_ne_zero.mp hpos)]
  omega

lemma advanceHistory (h : Simulates s m) (hpos : 0 < s.bufferSize) :
    Simulates (advanceHistory s) m.advanceHistory := by
  obtain ⟨mem, rfl⟩ := h.eq_inMemory
  have hcurr : (s.inMemory mem).historyCurr = s.historyCurr := rfl
  have hend : (s.inMemory mem).historyEnd = s.historyEnd := rfl
  rw [CustomLinuxOs.advanceHistory, RawTty.advanceHistory, hcurr, hend]
  split
  · have hlast := h.fits.last
    split
    · exact ((h.copyLine hlast).setSizeHistory hlast (h.saved_le hpos)).moveHistoryEnd
    · exact (h.setSizeHistory hlast (h.saved_le hpos)).moveHistoryEnd
  · exact h

lemma historyNew (h : Simulates s m) (hpos : 0 < s.bufferSize) :
    Simulates (historyNew s) m.historyNew := by
  have hsaved := h.setSizeHistory h.fits.curr (h.saved_le hpos)
  have hnext := hsaved.advanceHistory hpos
  rw [CustomLinuxOs.historyNew, RawTty.historyNew, h.historyCurr, h.bufferSize]
  generalize CustomLinuxOs.advanceHistory _ = t, RawTty.advanceHistory _ = m' at hnext
  obtain ⟨mem, rfl⟩ := hnext.eq_inMemory
  have hlast := hnext.fits.last
  have hend : (t.inMemory mem).historyEnd = t.historyEnd := rfl
  have hcurr : (t.inMemory mem).historyCurr = t.historyCurr := rfl
  rw [hend, hcurr]
  split
  · exact (hnext.copyLine hlast).loadLine hlast
  · exact hnext.loadLine hlast

lemma shiftLoop (h : Simulates s m) {n i j : ℕ} (hj : j ≤ i)
    (hi : n = 0 ∨ i + n ≤ MAX_TERMINAL_BUF_SIZE) :
    Simulates (shiftLoop n i j s) (RawTty.shiftLoop n i j m) := by
  induction n generalizing i j s m with
  | zero => exact h
  | succ n ih =>
      obtain ⟨mem, rfl⟩ := h.eq_inMemory
      have hin : (s.inMemory mem).input i = s.input i := h.input (by omega)
      have hshift := (h.setInput (i := j) (by omega) (s.input i)).withReady
        (if s.input i = NEWLINE then true else s.ready)
      simp only [CustomLinuxOs.shiftLoop, RawTty.shiftLoop, hin]
      exact ih hshift (by omega) (by omega)

lemma shiftBuffer (h : Simulates s m) (i : ℕ) :
    Simulates (shiftBuffer s i) (m.shiftBuffer i) := by
  obtain ⟨mem, rfl⟩ := h.eq_inMemory
  have hsize : (s.inMemory mem).bufferSize = s.bufferSize := rfl
  have hfits := h.fits.size
  have hloop := (h.withReady false).shiftLoop (n := s.bufferSize.toNat - i) (Nat.zero_le i)
    (by omega)
  have hn : (s.bufferSize.toNat - i).toUInt8.toNat ≤ MAX_TERMINAL_BUF_SIZE := by
    rw [UInt8.toNat_ofNat', Nat.mod_eq_of_lt]
    · omega
    · rw [MAX_TERMINAL_BUF_SIZE] at hfits
      omega
  rw [hsize] at hloop
  rw [CustomLinuxOs.shiftBuffer, RawTty.shiftBuffer, hsize]
  generalize CustomLinuxOs.shiftLoop _ _ _ _ = t, RawTty.shiftLoop _ _ _ _ = m' at hloop ⊢
  obtain ⟨mem', rfl⟩ := hloop.eq_inMemory
  exact (hloop.withSize hn).setSizeHistory hloop.fits.curr hn

lemma readLoop (h : Simulates s m) (nbytes : ℤ) {n i : ℕ} (hn : i + n ≤ MAX_TERMINAL_BUF_SIZE) :
    readLoop m.view nbytes n i = readLoop s nbytes n i := by
  induction n generalizing i with
  | zero => rfl
  | succ n ih =>
      have hin : m.view.input i = s.input i := h.input (by omega)
      rw [CustomLinuxOs.readLoop, CustomLinuxOs.readLoop, hin, ih (by omega)]

/-! ### The other calls -/

lemma ttyWrite (h : Simulates s m) (fd : ℤ) (buf : Option (List UInt8)) (nbytes : ℤ) :
    Simulates (ttyWrite s fd buf nbytes).2
      ((CustomLinuxOs.ttyWrite m.view fd buf nbytes).2.inMemory m.mem) := by
  obtain ⟨mem, rfl⟩ := h.eq_inMemory
  simp only [CustomLinuxOs.ttyWrite]
  split
  · exact h
  · cases buf with
    | none => exact h
    | some bytes => exact h.withDisplay (ttyPutBytes_setup _ _)

lemma ttyClearBuf (h : Simulates s m) :
    Simulates (ttyClearBuf s) ((CustomLinuxOs.ttyClearBuf m.view).inMemory m.mem) := by
  obtain ⟨mem, rfl⟩ := h.eq_inMemory
  exact (h.withSize (n := 0) (Nat.zero_le _)).withReady false

lemma ttySetAttrib (h : Simulates s m) (a : UInt8) :
    Simulates (ttySetAttrib s a).2 ((CustomLinuxOs.ttySetAttrib m.view a).2.inMemory m.mem) := by
  obtain ⟨mem, rfl⟩ := h.eq_inMemory
  exact h.withScreen (d := { s.display with attrib := a }) rfl

/-- Calls of `tty_read` that return the same, and terminals after them. -/
def SameCall (r : ℤ × List UInt8 × Tty) (r' : ℤ × List UInt8 × RawTty) : Prop :=
  r.1 = r'.1 ∧ r.2.1 = r'.2.1 ∧ Simulates r.2.2 r'.2.2

/-- **Taking a line** from a buffer that is not empty. -/
lemma takeLine (h : Simulates s m) (hpos : 0 < s.bufferSize) (nbytes : ℤ) :
    Option.Rel SameCall (takeLine s nbytes) (m.takeLine nbytes) := by
  have hread := h.readLoop nbytes (i := 0) (n := s.bufferSize.toNat) (by
    rw [Nat.zero_add]
    exact h.fits.size)
  rw [CustomLinuxOs.takeLine, RawTty.takeLine, h.ready, h.bufferSize, hread]
  split
  · exact .some ⟨rfl, rfl, (h.historyNew hpos).shiftBuffer _⟩
  · exact .none

lemma ttyRead (h : Simulates s m) {fd : ℤ} {buf : UInt32} (nbytes : ℤ)
    (hpos : fd = STDOUT ∨ buf = 0 ∨ 0 < s.bufferSize) :
    Option.Rel SameCall (ttyRead s fd buf nbytes) (m.ttyRead fd buf nbytes) := by
  rw [ttyRead_eq, RawTty.ttyRead]
  split
  · exact .some ⟨rfl, rfl, h⟩
  · split
    · exact .some ⟨rfl, rfl, h⟩
    · rename_i hfd hbuf
      have hsize : 0 < s.bufferSize := (hpos.resolve_left hfd).resolve_left hbuf
      have hsame : (CustomLinuxOs.showLine s).bufferSize = s.bufferSize :=
        congrArg InputSide.bufferSize s.showLine_inputSide
      exact h.showLine.takeLine (hsame.symm ▸ hsize) nbytes

end Simulates

/-! ### Operations -/

/-- A call of `tty_read` that takes a line finds the buffer not empty. -/
def TtyOp.FindsLine (m : RawTty) : TtyOp → Prop
  | .read fd buf _ => fd = STDOUT ∨ buf = 0 ∨ 0 < m.bufferSize
  | .resume _ => 0 < m.bufferSize
  | _ => True

instance (m : RawTty) (o : TtyOp) : Decidable (o.FindsLine m) :=
  match o with
  | .read fd buf _ => inferInstanceAs (Decidable (fd = STDOUT ∨ buf = 0 ∨ 0 < m.bufferSize))
  | .resume _ => inferInstanceAs (Decidable (0 < m.bufferSize))
  | .key _ _ _ | .backspace | .historyUp | .historyDown | .write _ _ _ | .wait _ _ | .clearBuf
  | .setAttrib _ | .video _ _ => isTrue trivial

/-- **Operations** go the same way on both terminals, as long as no line is taken from an empty
buffer. -/
theorem Simulates.run {s : Tty} {m : RawTty} {o : TtyOp} (h : Simulates s m)
    (ho : o.FindsLine m) : Option.Rel Simulates (o.run s) (m.run o) := by
  have hcall {r : Option (ℤ × List UInt8 × Tty)} {r' : Option (ℤ × List UInt8 × RawTty)}
      (hr : Option.Rel SameCall r r') :
      Option.Rel Simulates (r.map fun r => r.2.2) (r'.map fun r => r.2.2) := by
    cases hr with
    | some hr => exact .some hr.2.2
    | none => exact .none
  cases o with
  | key c names depth => exact h.sendKey names depth c
  | backspace => exact .some h.ttyBackspace
  | historyUp => exact h.historyUp
  | historyDown => exact h.historyDown
  | write fd buf nbytes => exact .some (h.ttyWrite fd buf nbytes)
  | read fd buf nbytes =>
      rw [TtyOp.FindsLine, h.bufferSize] at ho
      exact hcall (h.ttyRead nbytes ho)
  | wait fd buf =>
      rw [TtyOp.run, RawTty.run]
      split
      · exact .none
      · exact .some h.showLine
  | resume nbytes =>
      rw [TtyOp.FindsLine, h.bufferSize] at ho
      exact hcall (h.takeLine ho nbytes)
  | clearBuf => exact .some h.ttyClearBuf
  | setAttrib a => exact .some (h.ttySetAttrib a)
  | video offset b =>
      rw [TtyOp.run, RawTty.run, h.display]
      split
      · exact .some (h.withDisplay rfl)
      · exact .none

end CustomLinuxOs
