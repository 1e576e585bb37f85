import CustomLinuxOs.Terminal.Twins

/-!
Three terminals on one: the logical screens.

* `Tty.data`, `Tty.video`, `Tty.lineOf`: what logical screen `k` consists of, wherever it is kept.
* `ScreenEvent`, `screenStep`: switching screens, and operations on the process screen.
* `opsFor`: the operations issued while screen `k` was the process screen.
* `changeProcessScreen_data`, `changeViewScreen_eq`: switching leaves all logical screens alone.
* `run_shows`: each logical screen is that of a terminal of its own which only gets the operations
  for it.
-/

namespace CustomLinuxOs

/-! ### Logical screens -/

/-- The page of logical screen `k`. -/
def screenPage (view k : ℤ) : ℤ := if k = view then VIDEO_MEM_PAGE_INDEX else backupPage k

/-- The variables of `tty.c`, as data of a screen. -/
def Tty.live (s : Tty) : Screen where
  screenX := s.display.screenX
  screenY := s.display.screenY
  widthBuffer := (s.screens s.widthBuffer).widthBuffer
  ready := s.ready
  tabLs := s.tabLs
  attrib := s.display.attrib
  inputHistory := (s.screens s.inputBuffer.1).inputHistory
  sizeHistory := Function.update (s.screens s.processScreen).sizeHistory s.historyCurr s.bufferSize
  historyStart := s.historyStart
  historyEnd := s.historyEnd
  historyCurr := s.historyCurr

/-- The terminal data of logical screen `k`. -/
def Tty.data (s : Tty) (k : ℤ) : Screen := if k = s.processScreen then s.live else s.screens k

/-- The input buffer of logical screen `k`. -/
def Tty.lineOf (s : Tty) (k : ℤ) : ℕ → UInt8 :=
  if k = s.processScreen then s.input else (s.screens k).inputHistory (s.screens k).historyCurr

/-- The video memory of logical screen `k`. -/
def Tty.video (s : Tty) (k : ℤ) : ℤ → UInt8 := s.display.pages (screenPage s.display.viewScreen k)

/-- Logical screen `k` of `s` is logical screen `j` of `t`. -/
structure SameScreen (s : Tty) (k : ℤ) (t : Tty) (j : ℤ) : Prop where
  data : s.data k = t.data j
  line : s.lineOf k = t.lineOf j
  video : ∀ o, OnScreen o → s.video k o = t.video j o

/-! ### Events -/

/-- Switching screens, or an operation on the process screen. -/
inductive ScreenEvent where
  | process (n : ℤ)
  | view (n : ℤ)
  | op (o : TtyOp)

/-- One event. -/
def screenStep (s : Tty) : ScreenEvent → Option Tty
  | .process n => some (changeProcessScreen s n)
  | .view n => some (changeViewScreen s n)
  | .op o => o.run s

/-- The number of a screen. -/
def IsScreen (n : ℤ) : Prop := 0 ≤ n ∧ n < MAX_SCREENS

instance (n : ℤ) : Decidable (IsScreen n) := inferInstanceAs (Decidable (_ ∧ _))

/-- The process screen after an event. -/
def processAfter (p : ℤ) : ScreenEvent → ℤ
  | .process n => if IsScreen n then n else p
  | _ => p

/-- The operations among the events that are issued while `k` is the process screen; it is `p` at
first. -/
def opsFor (k p : ℤ) : List ScreenEvent → List TtyOp
  | [] => []
  | e :: es =>
      match e with
      | .op o => if p = k then o :: opsFor k p es else opsFor k p es
      | e => opsFor k (processAfter p e) es

/-- The terminal after `tty_init`, with anything in video memory and in the backups of it. -/
def bootTty (pages : ℤ → ℤ → UInt8) : Tty :=
  ttyInit { Tty.boot with display := { Tty.boot.display with pages := pages } }

/-- A terminal of its own, with the given contents of video memory. -/
def standAlone (contents : ℤ → UInt8) : Tty := bootTty fun _ => contents

/-! ### Switching -/

/-- The pointers are into the process screen. -/
abbrev Tty.Own (s : Tty) : Prop := Tty.Frame s s

section Switching

variable {s : Tty}

lemma lineOf_eq (hs : s.Own) (k : ℤ) :
    s.lineOf k = (s.data k).inputHistory (s.data k).historyCurr := by
  rw [Tty.lineOf, Tty.data]
  split
  · funext i
    rw [Tty.input, Tty.live, hs.inputBuffer]
  · rfl

/-- `save_data` puts the logical screen where it is kept. -/
lemma saveData_screens (hs : s.Own) (k : ℤ) : (saveData s).screens k = s.data k := by
  rw [Tty.data, saveData, Tty.modifyScreen]
  rcases eq_or_ne k s.processScreen with rfl | hk
  · rw [if_pos rfl, Tty.live, hs.inputBuffer, hs.widthBuffer]
    exact Function.update_self _ _ _
  · rw [if_neg hk]
    exact Function.update_of_ne hk _ _

/-- `load_data` makes a logical screen live. -/
lemma loadData_live (s : Tty) : (loadData s).live = s.screens s.processScreen := by
  set n := s.screens s.processScreen with hn
  have hlive : (loadData s).live = { n with
      sizeHistory := Function.update n.sizeHistory n.historyCurr (n.sizeHistory n.historyCurr) } :=
    rfl
  rw [hlive, Function.update_eq_self]

lemma loadData_data (s : Tty) (k : ℤ) : (loadData s).data k = s.screens k := by
  rw [Tty.data]
  split
  · rename_i hk
    rw [loadData_live, hk]
    rfl
  · rfl

lemma loadData_own (s : Tty) : (loadData s).Own := ⟨rfl, rfl, fun _ _ => rfl⟩

lemma changeProcessScreen_eq {n : ℤ} (hn : IsScreen n) : changeProcessScreen s n =
    loadData { saveData s with
      display := { s.display with
        videoPage := screenPage s.display.viewScreen n
        vidmapPage := screenPage s.display.viewScreen n
        processScreen := n } } := by
  obtain ⟨hzero, hlt⟩ := hn
  rw [changeProcessScreen, if_neg (by omega)]
  rfl

/-- **`change_process_screen`** leaves all logical screens alone. -/
lemma changeProcessScreen_data (hs : s.Own) {n : ℤ} (hn : IsScreen n) (k : ℤ) :
    (changeProcessScreen s n).data k = s.data k := by
  rw [changeProcessScreen_eq hn, loadData_data]
  exact saveData_screens hs k

lemma changeProcessScreen_video {n : ℤ} (hn : IsScreen n) (k : ℤ) :
    (changeProcessScreen s n).video k = s.video k := by
  rw [changeProcessScreen_eq hn]
  rfl

/-- The pages of the screens differ. -/
lemma screenPage_injOn (view : ℤ) {k j : ℤ} (hk : IsScreen k) (hj : IsScreen j) (hkj : k ≠ j) :
    screenPage view k ≠ screenPage view j := by
  obtain ⟨hk, hk'⟩ := hk
  obtain ⟨hj, hj'⟩ := hj
  simp only [screenPage, backupPage, VIDEO_MEM_PAGE_INDEX]
  split
  · split <;> omega
  · split <;> omega

/-- The pages are exchanged: what was viewed goes to its backup, and screen `n` comes from its
own. -/
def exchangePages (d : Display) (n : ℤ) : Display :=
  copyScreen (copyScreen d (backupPage d.viewScreen) VIDEO_MEM_PAGE_INDEX)
    VIDEO_MEM_PAGE_INDEX (backupPage n)

/-- The terminal before `change_view_screen` maps the process screen again. -/
def exchanged (s : Tty) (n : ℤ) : Tty :=
  { s with
    display := { exchangePages s.display n with
      videoPage := VIDEO_MEM_PAGE_INDEX
      vidmapPage := backupPage n
      viewScreen := n } }

lemma changeViewScreen_eq {n : ℤ} (hn : IsScreen n) (hne : n ≠ s.display.viewScreen) :
    changeViewScreen s n =
      let t := changeProcessScreen (exchanged s n) s.processScreen
      let v := t.screens t.display.viewScreen
      { t with display := setCursor t.display v.screenX v.screenY } := by
  obtain ⟨hzero, hlt⟩ := hn
  rw [changeViewScreen, if_neg (by omega), if_neg hne]
  rfl

/-- **`change_view_screen`** exchanges the contents of the pages as it exchanges the pages. -/
lemma exchanged_video {n k o : ℤ} (hn : IsScreen n) (hv : IsScreen s.display.viewScreen)
    (hne : n ≠ s.display.viewScreen) (hk : IsScreen k) (ho : OnScreen o) :
    (exchanged s n).video k o = s.video k o := by
  obtain ⟨hn, hn'⟩ := hn
  obtain ⟨hv, hv'⟩ := hv
  obtain ⟨hk, hk'⟩ := hk
  set v := s.display.viewScreen with hview
  have hbackup (j : ℤ) (hj : 0 ≤ j) : backupPage j ≠ VIDEO_MEM_PAGE_INDEX := by
    rw [backupPage, VIDEO_MEM_PAGE_INDEX]
    omega
  have hpages (q : ℤ) : (exchangePages s.display n).pages q o =
      if q = VIDEO_MEM_PAGE_INDEX then s.display.pages (backupPage n) o
      else if q = backupPage v then s.display.pages VIDEO_MEM_PAGE_INDEX o
      else s.display.pages q o := by
    have hon : 0 ≤ o ∧ o < VIDEO_MEMORY_SIZE := ho
    have hnv : backupPage n ≠ backupPage v := by
      rw [backupPage, backupPage]
      omega
    simp only [exchangePages, copyScreen, ← hview, Function.update_apply, if_neg hnv,
      if_neg (hbackup v hv).symm]
    split
    · exact if_pos hon
    · split
      · exact if_pos hon
      · rfl
  have hvideo : (exchanged s n).video k o
      = (exchangePages s.display n).pages (screenPage n k) o := rfl
  rw [hvideo, hpages, Tty.video, screenPage, screenPage, ← hview]
  rcases eq_or_ne k n with rfl | hkn
  · rw [if_pos rfl, if_pos rfl, if_neg hne]
  · rw [if_neg hkn, if_neg (hbackup k hk)]
    rcases eq_or_ne k v with hkv | hkv
    · rw [if_pos (by rw [hkv]), if_pos hkv]
    · rw [if_neg, if_neg hkv]
      rw [backupPage, backupPage]
      omega

lemma exchanged_own (hs : s.Own) (n : ℤ) : (exchanged s n).Own :=
  ⟨hs.inputBuffer, hs.widthBuffer, fun _ _ => rfl⟩

end Switching

/-! ### Runs -/

/-- The invariant of the system: the process screen is mapped. -/
structure Mapped (s : Tty) : Prop where
  own : s.Own
  process : IsScreen s.processScreen
  view : IsScreen s.display.viewScreen
  video : s.display.videoPage = screenPage s.display.viewScreen s.processScreen
  vidmap : s.display.vidmapPage = screenPage s.display.viewScreen s.processScreen

/-- The terminal `t` of its own shows logical screen `k`. -/
structure ShowsScreen (s : Tty) (k : ℤ) (t : Tty) : Prop where
  own : t.Own
  process : t.processScreen = 0
  view : t.display.viewScreen = 0
  video : t.display.videoPage = VIDEO_MEM_PAGE_INDEX
  bounded : Bounded t.display
  same : SameScreen s k t 0

section Runs

variable {s t u : Tty} {k : ℤ}

/-- Logical screens that are the same, when what is on them is. -/
lemma SameScreen.of_data (hs : s.Own) (ht : t.Own) {j : ℤ} (hdata : s.data k = t.data j)
    (hvideo : ∀ o, OnScreen o → s.video k o = t.video j o) : SameScreen s k t j where
  data := hdata
  line := by rw [lineOf_eq hs, lineOf_eq ht, hdata]
  video := hvideo

/-- Changing the screens changes no logical screen. -/
lemma ShowsScreen.switch (h : ShowsScreen s k t) (hu : u.Own) (hdata : u.data k = s.data k)
    (hvideo : ∀ o, OnScreen o → u.video k o = s.video k o) : ShowsScreen u k t where
  own := h.own
  process := h.process
  view := h.view
  video := h.video
  bounded := h.bounded
  same := SameScreen.of_data hu h.own (hdata.trans h.same.data) fun o ho =>
    (hvideo o ho).trans (h.same.video o ho)

/-- The terminal of the process screen is a twin of the system. -/
lemma ShowsScreen.twin (hs : Mapped s) (h : ShowsScreen s s.processScreen t) : Twin s t s t := by
  have hlive : s.live = t.live := by
    have hdata := h.same.data
    rwa [Tty.data, if_pos rfl, Tty.data, if_pos h.process.symm] at hdata
  have hcurr : s.historyCurr = t.historyCurr := congrArg Screen.historyCurr hlive
  have hsizes : Function.update (s.screens s.processScreen).sizeHistory s.historyCurr s.bufferSize
      = Function.update (t.screens t.processScreen).sizeHistory s.historyCurr t.bufferSize := by
    have hupdate := congrArg Screen.sizeHistory hlive
    simp only [Tty.live] at hupdate
    rwa [← hcurr] at hupdate
  have hsvideo (o : ℤ) : s.video s.processScreen o = s.display.peek o := by
    rw [Tty.video, ← hs.video, Display.peek]
  have htvideo (o : ℤ) : t.video 0 o = t.display.peek o := by
    rw [Tty.video, screenPage, if_pos h.view.symm, ← h.video, Display.peek]
  refine ⟨⟨⟨rfl, rfl, rfl, rfl, fun _ _ => rfl⟩, ⟨rfl, rfl, rfl, rfl, fun _ _ => rfl⟩,
    congrArg Screen.screenX hlive, congrArg Screen.screenY hlive, congrArg Screen.attrib hlive,
    fun o ho => ?_⟩, hs.own, h.own, ?_, congrArg Screen.ready hlive, congrArg Screen.tabLs hlive,
    congrArg Screen.historyStart hlive, congrArg Screen.historyEnd hlive, hcurr, ?_, ?_,
    fun j hj => ?_⟩
  · rw [← hsvideo, ← htvideo, h.same.video o ho]
  · have hsize := congrFun hsizes s.historyCurr
    rwa [Function.update_self, Function.update_self] at hsize
  · have hwidths := congrArg Screen.widthBuffer hlive
    simp only [Tty.live] at hwidths
    rwa [hs.own.widthBuffer, h.own.widthBuffer] at hwidths
  · have hlines := congrArg Screen.inputHistory hlive
    simp only [Tty.live] at hlines
    rwa [hs.own.inputBuffer, h.own.inputBuffer] at hlines
  · have hsize := congrFun hsizes j
    rwa [Function.update_of_ne hj, Function.update_of_ne hj] at hsize

/-- What twins show. -/
lemma Twin.live {s' t' : Tty} (h : Twin s t s' t') : s'.live = t'.live := by
  have hsizes : Function.update (s'.screens s'.processScreen).sizeHistory s'.historyCurr
        s'.bufferSize
      = Function.update (t'.screens t'.processScreen).sizeHistory t'.historyCurr
        t'.bufferSize := by
    funext j
    rw [h.screen, h.screen', ← h.historyCurr, ← h.bufferSize, Function.update_apply,
      Function.update_apply]
    split
    · rfl
    · exact h.sizes j ‹_›
  rw [Tty.live, Tty.live, hsizes, h.display.x, h.display.y, h.display.attrib, h.ready, h.tabLs,
    h.historyStart, h.historyEnd, h.historyCurr, h.frame.widthBuffer, h.frame'.widthBuffer,
    h.widths, h.frame.inputBuffer, h.frame'.inputBuffer, h.lines]

lemma Tty.Frame.own {s' : Tty} (h : Tty.Frame s s') (hscreen : s'.processScreen = s.processScreen) :
    s'.Own where
  inputBuffer := by
    rw [hscreen]
    exact h.inputBuffer
  widthBuffer := by
    rw [hscreen]
    exact h.widthBuffer
  others _ _ := rfl

/-- An operation keeps the system mapped. -/
lemma Mapped.twin {s' t' : Tty} (hs : Mapped s) (h : Twin s t s' t') : Mapped s' := by
  have hscreen := h.screen
  have hframe := h.display.frame
  refine ⟨h.frame.own hscreen, ?_, ?_, ?_, ?_⟩
  · rw [hscreen]
    exact hs.process
  · rw [hframe.viewScreen]
    exact hs.view
  · rw [hframe.videoPage, hframe.viewScreen, hscreen]
    exact hs.video
  · rw [hframe.vidmapPage, hframe.viewScreen, hscreen]
    exact hs.vidmap

/-- An operation goes to the terminal of the process screen. -/
lemma ShowsScreen.process_run {s' : Tty} {o : TtyOp} (hs : Mapped s)
    (h : ShowsScreen s s.processScreen t) (ho : o.run s = some s') :
    ∃ t', o.run t = some t' ∧ Twin s t s' t' ∧ ShowsScreen s' s.processScreen t' := by
  have htwin := h.twin hs
  have hbounded : Bounded s.display := by
    rw [Bounded, htwin.display.x, htwin.display.y]
    exact h.bounded
  obtain ⟨t', ht, htwin'⟩ := htwin.run hbounded ho
  have hs' := hs.twin htwin'
  have hprocess : t'.processScreen = 0 := htwin'.screen'.trans h.process
  have hview : t'.display.viewScreen = 0 := htwin'.display.frame'.viewScreen.trans h.view
  have hvideo : t'.display.videoPage = VIDEO_MEM_PAGE_INDEX :=
    htwin'.display.frame'.videoPage.trans h.video
  have hown := htwin'.frame'.own htwin'.screen'
  refine ⟨t', ht, htwin', hown, hprocess, hview, hvideo, h.bounded.run ht,
    SameScreen.of_data hs'.own hown ?_ fun o ho => ?_⟩
  · rw [Tty.data, if_pos htwin'.screen.symm, Tty.data, if_pos hprocess.symm]
    exact htwin'.live
  · rw [Tty.video, Tty.video, ← htwin'.screen, ← hs'.video, hview, screenPage, if_pos rfl, ← hvideo]
    exact htwin'.display.screen o ho

/-- An operation on the process screen leaves the other logical screens alone. -/
lemma ShowsScreen.other_run {s' t' v : Tty} (hs : Mapped s) (hk : IsScreen k)
    (hne : k ≠ s.processScreen) (h : ShowsScreen s k v) (htwin : Twin s t s' t') :
    ShowsScreen s' k v := by
  refine h.switch (hs.twin htwin).own ?_ fun o _ => ?_
  · rw [Tty.data, Tty.data, htwin.screen, if_neg hne, if_neg hne, htwin.frame.others k hne]
  · have hpage : screenPage s.display.viewScreen k ≠ s.display.videoPage := by
      rw [hs.video]
      exact screenPage_injOn _ hk hs.process hne
    rw [Tty.video, Tty.video, htwin.display.frame.viewScreen, htwin.display.frame.others _ hpage]

/-- **One event**: the process screen changes as told, and all logical screens go along with their
terminals. -/
lemma screenStep_shows {e : ScreenEvent} {ts : ℤ → Tty} (hs : Mapped s)
    (hts : ∀ k, IsScreen k → ShowsScreen s k (ts k)) (hu : screenStep s e = some u) :
    Mapped u ∧ u.processScreen = processAfter s.processScreen e
      ∧ ∀ k, IsScreen k → ∃ t, Run TtyOp.run (ts k) (opsFor k s.processScreen [e]) t
        ∧ ShowsScreen u k t := by
  cases e with
  | process n =>
      obtain rfl := Option.some.inj hu
      rw [processAfter]
      rcases em (IsScreen n) with hn | hn
      · have hown : (changeProcessScreen s n).Own := by
          rw [changeProcessScreen_eq hn]
          exact loadData_own _
        refine ⟨?_, ?_, fun k hk => ⟨ts k, Run.nil, (hts k hk).switch hown
          (changeProcessScreen_data hs.own hn k) fun o _ => ?_⟩⟩
        · rw [changeProcessScreen_eq hn]
          exact ⟨loadData_own _, hn, hs.view, rfl, rfl⟩
        · rw [changeProcessScreen_eq hn, if_pos hn]
          rfl
        · rw [changeProcessScreen_video hn]
      · have hsame : changeProcessScreen s n = s := by
          rw [IsScreen] at hn
          rw [changeProcessScreen, if_pos (by omega)]
        rw [hsame, if_neg hn]
        exact ⟨hs, rfl, fun k hk => ⟨ts k, Run.nil, hts k hk⟩⟩
  | view n =>
      obtain rfl := Option.some.inj hu
      have hafter : processAfter s.processScreen (.view n) = s.processScreen := rfl
      rw [hafter]
      rcases em (IsScreen n ∧ n ≠ s.display.viewScreen) with ⟨hn, hne⟩ | hn
      · set t := changeProcessScreen (exchanged s n) s.processScreen with ht
        have hprocess : IsScreen s.processScreen := hs.process
        have heq := changeProcessScreen_eq (s := exchanged s n) hprocess
        rw [changeViewScreen_eq hn hne, ← ht]
        -- setting the cursor of the video controller is the end of it
        have hown : t.Own := by
          rw [ht, heq]
          exact loadData_own _
        refine ⟨?_, ?_, fun k hk => ⟨ts k, Run.nil, (hts k hk).switch ?_ ?_ fun o ho => ?_⟩⟩
        · have hmapped : Mapped t := by
            rw [ht, heq]
            exact ⟨loadData_own _, hprocess, hn, rfl, rfl⟩
          exact ⟨⟨hown.inputBuffer, hown.widthBuffer, hown.others⟩, hmapped.process, hmapped.view,
            hmapped.video, hmapped.vidmap⟩
        · have hscreen : t.processScreen = s.processScreen := by
            rw [ht, heq]
            rfl
          exact hscreen
        · exact ⟨hown.inputBuffer, hown.widthBuffer, hown.others⟩
        · exact changeProcessScreen_data (exchanged_own hs.own n) hprocess k
        · have hvideo := congrFun (changeProcessScreen_video (s := exchanged s n) hprocess k) o
          exact hvideo.trans (exchanged_video hn hs.view hne hk ho)
      · have hsame : changeViewScreen s n = s := by
          rw [IsScreen] at hn
          rw [changeViewScreen]
          split
          · rfl
          · rw [if_pos (by omega)]
        rw [hsame]
        exact ⟨hs, rfl, fun k hk => ⟨ts k, Run.nil, hts k hk⟩⟩
  | op o =>
      obtain ⟨t', ht, htwin, hshows⟩ := (hts _ hs.process).process_run hs hu
      refine ⟨hs.twin htwin, htwin.screen, fun k hk => ?_⟩
      rw [opsFor, opsFor]
      rcases eq_or_ne s.processScreen k with rfl | hne
      · rw [if_pos rfl]
        exact ⟨t', run_cons_iff.mpr ⟨t', ht, Run.nil⟩, hshows⟩
      · rw [if_neg hne]
        exact ⟨ts k, Run.nil, (hts k hk).other_run hs hk hne.symm htwin⟩

lemma opsFor_cons (k p : ℤ) (e : ScreenEvent) (es : List ScreenEvent) :
    opsFor k p (e :: es) = opsFor k p [e] ++ opsFor k (processAfter p e) es := by
  cases e with
  | process n => rfl
  | view n => rfl
  | op o =>
      simp only [opsFor, processAfter]
      split <;> rfl

/-- **A run**: each logical screen goes along with its terminal. -/
lemma run_shows {es : List ScreenEvent} {ts : ℤ → Tty} (hs : Mapped s)
    (hts : ∀ k, IsScreen k → ShowsScreen s k (ts k)) (hrun : Run screenStep s es u) :
    Mapped u ∧ ∀ k, IsScreen k → ∃ t, Run TtyOp.run (ts k) (opsFor k s.processScreen es) t
      ∧ ShowsScreen u k t := by
  induction es generalizing s ts with
  | nil =>
      rw [run_nil_iff.mp hrun]
      exact ⟨hs, fun k hk => ⟨ts k, Run.nil, hts k hk⟩⟩
  | cons e es ih =>
      obtain ⟨v, hv, hrest⟩ := run_cons_iff.mp hrun
      obtain ⟨hmapped, hprocess, hshows⟩ := screenStep_shows hs hts hv
      have : Nonempty Tty := ⟨s⟩
      choose! ts' hrun' hshows' using hshows
      obtain ⟨hmapped', hall⟩ := ih hmapped hshows' hrest
      refine ⟨hmapped', fun k hk => ?_⟩
      obtain ⟨t, ht, hshow⟩ := hall k hk
      rw [hprocess] at ht
      rw [opsFor_cons]
      exact ⟨t, run_append_iff.mpr ⟨ts' k, hrun' k hk, ht⟩, hshow⟩

end Runs

lemma isScreen_zero : IsScreen 0 := by decide

lemma bootTty_mapped (pages : ℤ → ℤ → UInt8) : Mapped (bootTty pages) :=
  ⟨loadData_own _, isScreen_zero, isScreen_zero, rfl, rfl⟩

lemma bootTty_data (pages : ℤ → ℤ → UInt8) {k : ℤ} (hk : IsScreen k) :
    (bootTty pages).data k = { Screen.zero with attrib := 0x5 } :=
  (loadData_data _ k).trans (if_pos hk)

lemma bootTty_shows (pages : ℤ → ℤ → UInt8) {k : ℤ} (hk : IsScreen k) :
    ShowsScreen (bootTty pages) k (standAlone (pages (screenPage 0 k))) := by
  have hbounded : Bounded (standAlone (pages (screenPage 0 k))).display :=
    ⟨le_rfl, (by decide : (0 : ℤ) < NUM_COLS), (by decide : (0 : ℤ) < NUM_ROWS)⟩
  have hdata : (bootTty pages).data k = (standAlone (pages (screenPage 0 k))).data 0 :=
    (bootTty_data pages hk).trans (bootTty_data _ isScreen_zero).symm
  exact ⟨loadData_own _, rfl, rfl, rfl, hbounded,
    SameScreen.of_data (loadData_own _) (loadData_own _) hdata fun o _ => rfl⟩

end CustomLinuxOs
