import CustomLinuxOs.Devices.Rtc
import CustomLinuxOs.Filesystem.Readers

/-!
The pace of a reader of the clock.

* `elapsed`, `pace`: the ticks of a run, and the sum of the intervals of the calls of `rtc_read` on
  a descriptor that have returned.
* `Pacer`, `PacerStep`: what a descriptor and its reader see of a run; `pacerStep_of_clockStep` is
  one step as they see it.
* `Paced`: position and counter against the two sums, modulo `2 ^ 32`; `OnTime`: where they are if
  the reader is always already waiting.
* `rtcRead_pacing`: when calls return.
-/

namespace CustomLinuxOs

/-! ### Sums over a run -/

/-- The ticks of an event. -/
def ClockEvent.elapsed : ClockEvent → ℕ
  | .tick => 1
  | _ => 0

/-- The interval of a call on the descriptor `fd` of process `p`, if the event is its return. -/
def ClockEvent.pace (p fd : ℕ) : ClockEvent → ℕ
  | .done q gd f => if q = p ∧ gd = fd then f.toNat else 0
  | _ => 0

/-- The number of ticks in a run. -/
def elapsed (es : List ClockEvent) : ℕ := (es.map ClockEvent.elapsed).sum

/-- The sum of the intervals of the calls on a descriptor that return in a run. -/
def pace (p fd : ℕ) (es : List ClockEvent) : ℕ := (es.map (ClockEvent.pace p fd)).sum

lemma elapsed_snoc (es : List ClockEvent) (e : ClockEvent) :
    elapsed (es ++ [e]) = elapsed es + e.elapsed := by
  simp [elapsed]

lemma pace_snoc (p fd : ℕ) (es : List ClockEvent) (e : ClockEvent) :
    pace p fd (es ++ [e]) = pace p fd es + e.pace p fd := by
  simp [pace]

/-! ### One descriptor -/

/-- The counter, the position of a descriptor, and the call of `rtc_read` on it. -/
structure Pacer where
  counter : UInt32
  filePos : UInt32
  reader : Option RtcReader

/-- What the descriptor `fd` of process `p` has to do with the state. -/
def Clock.pacer (s : Clock) (p fd : ℕ) : Pacer where
  counter := s.counter
  filePos := (s.tables p fd).filePos
  reader := (s.readers p).filter fun w => w.currFd = fd

/-- What an event does to a descriptor of the clock that stays open. -/
inductive PacerStep (p fd : ℕ) (x : Pacer) : ClockEvent → Pacer → Prop
  | tick : PacerStep p fd x .tick { x with counter := x.counter + 1 }
  | read {f : UInt32} : f.toNat < 2 ^ 16 → x.reader = none →
      PacerStep p fd x (.read p fd) { x with reader := some ⟨fd, x.filePos, f⟩ }
  | done {w : RtcReader} : x.reader = some w → w.ready x.counter = true →
      PacerStep p fd x (.done p fd w.f) { x with filePos := x.filePos + w.f, reader := none }
  | other {e : ClockEvent} : e.elapsed = 0 → e.pace p fd = 0 → PacerStep p fd x e x

lemma pacer_reader_eq_some {s : Clock} {p fd : ℕ} {w : RtcReader} :
    (s.pacer p fd).reader = some w ↔ s.readers p = some w ∧ w.currFd = fd := by
  simp [Clock.pacer, Option.filter_eq_some_iff]

section Steps

variable {s t : Clock} {p fd : ℕ}

/-- Only what lies at the descriptor, and the reader on it, is seen. -/
lemma pacer_congr (hcounter : t.counter = s.counter)
    (hpos : (t.tables p fd).filePos = (s.tables p fd).filePos)
    (hreader : (t.readers p).filter (fun w => w.currFd = fd)
      = (s.readers p).filter fun w => w.currFd = fd) : t.pacer p fd = s.pacer p fd := by
  simp only [Clock.pacer, hcounter, hpos, hreader]

/-- **A table** that agrees with the old one at the descriptor. -/
lemma pacer_setTable {q : ℕ} {fds : FdTable}
    (h : q = p → (fds fd).fopsTable = (s.tables p fd).fopsTable
      ∧ (fds fd).filePos = (s.tables p fd).filePos) :
    ((s.setTable q fds).tables p fd).fopsTable = (s.tables p fd).fopsTable
      ∧ (s.setTable q fds).pacer p fd = s.pacer p fd := by
  rcases eq_or_ne p q with rfl | hne
  · obtain ⟨hops, hpos⟩ := h rfl
    refine ⟨by rw [Clock.setTable_self, hops], pacer_congr rfl ?_ rfl⟩
    rw [Clock.setTable_self, hpos]
  · have htable := s.setTable_of_ne q fds hne
    refine ⟨by rw [htable], pacer_congr rfl ?_ rfl⟩
    rw [htable]

/-- A reader of another process, or on another descriptor. -/
lemma pacer_setReader {q : ℕ} {w : Option RtcReader}
    (h : q = p → w.filter (fun w => w.currFd = fd)
      = (s.readers p).filter fun w => w.currFd = fd) :
    (s.setReader q w).pacer p fd = s.pacer p fd := by
  rcases eq_or_ne p q with rfl | hne
  · refine pacer_congr rfl rfl ?_
    rw [Clock.setReader_self, h rfl]
  · refine pacer_congr rfl rfl ?_
    rw [Clock.setReader_of_ne _ _ _ hne]

/-- `open` does not touch an open descriptor. -/
lemma openCall_of_open {fds : FdTable} (hopen : (fds fd).fopsTable ≠ none) (counter : UInt32)
    (fs : Fs) (filename : CString) : (openCall counter fs fds filename).2 fd = fds fd := by
  have hne {k : ℕ} (hk : freeFd fds = some k) : fd ≠ k := by
    rintro rfl
    have hfound := List.find?_some hk
    exact hopen (of_decide_eq_true hfound)
  rw [openCall]
  split
  · rename_i k _ hk
    split
    · exact Function.update_of_ne (hne hk) ..
    · exact Function.update_of_ne (hne hk) ..
  · rfl

lemma closeCall_of_ne {fds : FdTable} {gd : ℤ} (hne : gd ≠ fd) :
    (closeCall fds gd).2 fd = fds fd := by
  rw [closeCall]
  split_ifs
  · rfl
  · rfl
  · rfl
  · exact Function.update_of_ne (by omega) ..

/-- New flags are not seen. -/
lemma update_flags (fds : FdTable) (gd fd : ℕ) (f : UInt32) :
    (Function.update fds gd { fds gd with flags := f } fd).fopsTable = (fds fd).fopsTable
      ∧ (Function.update fds gd { fds gd with flags := f } fd).filePos = (fds fd).filePos := by
  rcases eq_or_ne fd gd with rfl | hne
  · rw [Function.update_self]
    exact ⟨rfl, rfl⟩
  · rw [Function.update_of_ne hne]
    exact ⟨rfl, rfl⟩

lemma rtcWrite_keeps (fds : FdTable) (gd fd : ℕ) (r : Int32) :
    ((rtcWrite fds gd r).2 fd).fopsTable = (fds fd).fopsTable
      ∧ ((rtcWrite fds gd r).2 fd).filePos = (fds fd).filePos := by
  by_cases hsingle : r = r &&& (-1 * r)
  · by_cases hle : r ≤ OS_RTC_MAX
    · have hpass : (rtcWrite fds gd r).2 = Function.update fds gd { fds gd with
          flags := (doubleRate (16 - RTC_MAX - (halveRate 31 0 r).1)
            (halveRate 31 0 r).2).toUInt32 } := by
        rw [rtcWrite, if_neg (not_not.mpr hsingle), if_neg (not_not.mpr hle)]
      rw [hpass]
      exact update_flags fds gd fd _
    · rw [rtcWrite, if_neg (not_not.mpr hsingle), if_pos hle]
      exact ⟨rfl, rfl⟩
  · rw [rtcWrite, if_pos hsingle]
    exact ⟨rfl, rfl⟩

lemma interval_lt (e : Fd) : e.interval.toNat < 2 ^ 16 := by
  rw [Fd.interval, UInt32.toNat_and]
  exact Nat.lt_of_le_of_lt Nat.and_le_right (by decide)

/-- **A call** of `rtc_read` begins, on this descriptor or on another. -/
lemma pacer_rtcRead {q : ℕ} (p fd gd : ℕ) (hidle : s.readers q = none) :
    let t := (s.setTable q (rtcRead (s.tables q) gd).1).setReader q
      (some (rtcRead (s.tables q) gd).2)
    (t.tables p fd).fopsTable = (s.tables p fd).fopsTable
      ∧ PacerStep p fd (s.pacer p fd) (.read q gd) (t.pacer p fd) := by
  intro t
  obtain ⟨hops, hpacer⟩ : (t.tables p fd).fopsTable = (s.tables p fd).fopsTable
      ∧ (s.setTable q (rtcRead (s.tables q) gd).1).pacer p fd = s.pacer p fd := by
    refine pacer_setTable fun hq => ?_
    subst hq
    exact update_flags (s.tables q) gd fd _
  refine ⟨hops, ?_⟩
  by_cases hself : q = p ∧ gd = fd
  · obtain ⟨rfl, rfl⟩ := hself
    have hreader : (s.pacer q gd).reader = none := by
      simp only [Clock.pacer, hidle]
      rfl
    have hafter : t.pacer q gd = { s.pacer q gd with
        reader := some ⟨gd, (s.pacer q gd).filePos, (s.tables q gd).interval⟩ } := by
      simp [t, Clock.pacer, rtcRead, Fd.interval, Option.filter]
    rw [hafter]
    exact .read (interval_lt _) hreader
  · have hother : t.pacer p fd = s.pacer p fd := by
      rw [← hpacer]
      refine pacer_setReader fun hq => ?_
      subst hq
      have hne : ¬ gd = fd := fun h => hself ⟨rfl, h⟩
      rw [Clock.setTable_readers, hidle]
      simp [rtcRead, Option.filter, hne]
    rw [hother]
    exact .other rfl rfl

/-- **A call** of `rtc_read` returns, on this descriptor or on another. -/
lemma pacer_rtcReadDone {q : ℕ} {w : RtcReader} (p fd : ℕ) (hw : s.readers q = some w)
    (hready : w.ready s.counter = true) :
    let t := (s.setTable q (rtcReadDone (s.tables q) w)).setReader q none
    (t.tables p fd).fopsTable = (s.tables p fd).fopsTable
      ∧ PacerStep p fd (s.pacer p fd) (.done q w.currFd w.f) (t.pacer p fd) := by
  intro t
  by_cases hself : q = p ∧ w.currFd = fd
  · obtain ⟨rfl, rfl⟩ := hself
    have hafter : t.pacer q w.currFd = { s.pacer q w.currFd with
        filePos := (s.pacer q w.currFd).filePos + w.f, reader := none } := by
      simp [t, Clock.pacer, rtcReadDone, Option.filter]
    refine ⟨?_, ?_⟩
    · rw [Clock.setReader_tables, Clock.setTable_self, rtcReadDone, Function.update_self]
    · rw [hafter]
      exact .done (pacer_reader_eq_some.mpr ⟨hw, rfl⟩) hready
  · obtain ⟨hops, hpacer⟩ : (t.tables p fd).fopsTable = (s.tables p fd).fopsTable
        ∧ (s.setTable q (rtcReadDone (s.tables q) w)).pacer p fd = s.pacer p fd := by
      refine pacer_setTable fun hq => ?_
      subst hq
      have hne : fd ≠ w.currFd := fun h => hself ⟨rfl, h.symm⟩
      rw [rtcReadDone, Function.update_of_ne hne]
      exact ⟨rfl, rfl⟩
    have hother : t.pacer p fd = s.pacer p fd := by
      rw [← hpacer]
      refine pacer_setReader fun hq => ?_
      subst hq
      have hne : ¬ w.currFd = fd := fun h => hself ⟨rfl, h⟩
      rw [Clock.setTable_readers, hw]
      simp [Option.filter, hne]
    refine ⟨hops, ?_⟩
    rw [hother]
    exact .other rfl (if_neg hself)

/-- **One step** at a descriptor of the clock that stays open. -/
lemma pacerStep_of_clockStep {e : ClockEvent} (hrtc : (s.tables p fd).fopsTable = some .rtc)
    (hclose : e ≠ .close p fd) (hstart : e ≠ .start p) (hstep : clockStep s e = some t) :
    (t.tables p fd).fopsTable = some .rtc ∧ PacerStep p fd (s.pacer p fd) e (t.pacer p fd) := by
  -- the table of some process changes, but not at the descriptor
  have htable {q : ℕ} {fds : FdTable} {e : ClockEvent} (he : e.elapsed = 0)
      (hpace : e.pace p fd = 0)
      (h : q = p → (fds fd).fopsTable = (s.tables p fd).fopsTable
        ∧ (fds fd).filePos = (s.tables p fd).filePos) :
      ((s.setTable q fds).tables p fd).fopsTable = some .rtc
        ∧ PacerStep p fd (s.pacer p fd) e ((s.setTable q fds).pacer p fd) := by
    obtain ⟨hops, hpacer⟩ := pacer_setTable h
    rw [hops, hpacer]
    exact ⟨hrtc, .other he hpace⟩
  cases clockStep_cases hstep with
  | tick => exact ⟨hrtc, .tick⟩
  | start q =>
      have hq : q ≠ p := by
        rintro rfl
        exact hstart rfl
      rw [pacer_setReader fun h => absurd h hq]
      exact htable rfl rfl fun h => absurd h hq
  | @openFile q fs filename =>
      refine htable rfl rfl fun hq => ?_
      subst hq
      rw [openCall_of_open (by rw [hrtc]; exact Option.some_ne_none _)]
      exact ⟨rfl, rfl⟩
  | @close q gd =>
      refine htable rfl rfl fun hq => ?_
      subst hq
      have hne : gd ≠ fd := by
        rintro rfl
        exact hclose rfl
      rw [closeCall_of_ne hne]
      exact ⟨rfl, rfl⟩
  | @write q gd r =>
      refine htable rfl rfl fun hq => ?_
      subst hq
      exact rtcWrite_keeps _ gd fd r
  | @read q gd hcall =>
      obtain ⟨hops, hpacer⟩ := pacer_rtcRead p fd gd hcall.1
      exact ⟨hops.trans hrtc, hpacer⟩
  | spin => exact ⟨hrtc, .other rfl rfl⟩
  | @done q w hw hready =>
      obtain ⟨hops, hpacer⟩ := pacer_rtcReadDone p fd hw hready
      exact ⟨hops.trans hrtc, hpacer⟩
  | @move q gd pos _ hops =>
      refine htable rfl rfl fun hq => ?_
      subst hq
      have hne : fd ≠ gd := by
        rintro rfl
        exact hops hrtc
      rw [Function.update_of_ne hne]
      exact ⟨rfl, rfl⟩

end Steps

/-! ### The invariants -/

/-- `T` ticks after `open`, which found the counter at `c`, and with calls behind it whose
intervals sum up to `S`. -/
structure Paced (c : UInt32) (T S : ℕ) (x : Pacer) : Prop where
  counter : x.counter = c + T.toUInt32
  filePos : x.filePos = c + S.toUInt32
  behind : S ≤ T
  reader : ∀ w, x.reader = some w → w.c = x.filePos ∧ w.f.toNat < 2 ^ 16

/-- The reader is not late: the ticks have not passed the one at which the call it is in returns,
and if it is in none they have not passed the one at which the last call returned. -/
structure OnTime (T S : ℕ) (x : Pacer) : Prop where
  waiting : ∀ w, x.reader = some w → T ≤ S + w.f.toNat + 1
  idle : x.reader = none → T ≤ S + 1

namespace Paced

variable {c : UInt32} {T S p fd : ℕ} {x y : Pacer} {e : ClockEvent} {w : RtcReader}

/-- **The test** of the loop compares the interval with the ticks since the last deadline. -/
lemma ready_iff (h : Paced c T S x) (hw : x.reader = some w) :
    w.ready x.counter = true ↔ w.f.toNat < (T - S) % 2 ^ 32 := by
  have hlag : x.counter - w.c = (T - S).toUInt32 := by
    have hsplit : T.toUInt32 = (T - S).toUInt32 + S.toUInt32 := by
      rw [← UInt32.ofNat_add, Nat.sub_add_cancel h.behind]
    rw [(h.reader w hw).1, h.counter, h.filePos, hsplit, ← UInt32.add_assoc,
      UInt32.add_comm c, UInt32.add_assoc, UInt32.add_sub_cancel]
  have hvalue : (T - S).toUInt32.toNat = (T - S) % 2 ^ 32 := rfl
  rw [RtcReader.ready, decide_eq_true_iff, hlag, UInt32.lt_iff_toNat_lt, hvalue]

/-- A test that succeeds is not early. -/
lemma lt_of_ready (h : Paced c T S x) (hw : x.reader = some w)
    (hready : w.ready x.counter = true) : S + w.f.toNat < T := by
  have hlt := (h.ready_iff hw).mp hready
  have hle := Nat.mod_le (T - S) (2 ^ 32)
  omega

/-- Less than a turn of the counter behind, it is not late. -/
lemma ready_iff_of_lag (h : Paced c T S x) (hw : x.reader = some w) (hlag : T - S < 2 ^ 32) :
    w.ready x.counter = true ↔ S + w.f.toNat < T := by
  rw [h.ready_iff hw, Nat.mod_eq_of_lt hlag]
  omega

lemma step (h : Paced c T S x) (hstep : PacerStep p fd x e y) :
    Paced c (T + e.elapsed) (S + e.pace p fd) y := by
  cases hstep with
  | tick =>
      refine ⟨?_, h.filePos, Nat.le_succ_of_le h.behind, h.reader⟩
      rw [h.counter, UInt32.add_assoc]
      exact congrArg (c + ·) (UInt32.ofNat_add T 1).symm
  | read hsmall _ =>
      refine ⟨h.counter, h.filePos, h.behind, fun w hw => ?_⟩
      cases hw
      exact ⟨rfl, hsmall⟩
  | @done w hw hready =>
      have hpace : (ClockEvent.done p fd w.f).pace p fd = w.f.toNat := if_pos ⟨rfl, rfl⟩
      rw [hpace]
      refine ⟨h.counter, ?_, (h.lt_of_ready hw hready).le, fun w hw => ?_⟩
      · have hsum : (S + w.f.toNat).toUInt32 = S.toUInt32 + w.f :=
          (UInt32.ofNat_add S w.f.toNat).trans (congrArg (S.toUInt32 + ·) UInt32.ofNat_toNat)
        rw [h.filePos, UInt32.add_assoc, hsum]
      · cases hw
  | other helapsed hpace =>
      rw [helapsed, hpace]
      exact h

/-- **A tick** while the reader waits, and a return, keep it on time. -/
lemma onTime_step (h : Paced c T S x) (ht : OnTime T S x) (hstep : PacerStep p fd x e y)
    (hwaits : e = .tick → ∃ w, x.reader = some w ∧ w.ready x.counter = false) :
    OnTime (T + e.elapsed) (S + e.pace p fd) y := by
  have hbehind := h.behind
  cases hstep with
  | tick =>
      obtain ⟨w, hw, hspins⟩ := hwaits rfl
      have hle := ht.waiting w hw
      have hsmall := (h.reader w hw).2
      have hnot : ¬ S + w.f.toNat < T := by
        rw [← h.ready_iff_of_lag hw (by omega), hspins]
        exact Bool.false_ne_true
      refine ⟨fun w' hw' => ?_, fun hnone => ?_⟩
      · obtain rfl : w' = w := Option.some.inj (hw'.symm.trans hw)
        change T + 1 ≤ S + w'.f.toNat + 1
        omega
      · rw [hw] at hnone
        cases hnone
  | read _ hnone =>
      have hle := ht.idle hnone
      refine ⟨fun w _ => ?_, fun hw => by cases hw⟩
      change T ≤ S + w.f.toNat + 1
      omega
  | @done w hw _ =>
      have hpace : (ClockEvent.done p fd w.f).pace p fd = w.f.toNat := if_pos ⟨rfl, rfl⟩
      have hle := ht.waiting w hw
      rw [hpace]
      refine ⟨fun w hw => ?_, fun _ => hle⟩
      cases hw
  | other helapsed hpace =>
      rw [helapsed, hpace]
      exact ht

end Paced

/-! ### Runs -/

/-- Ticks come only when the reader is in its loop and has looked at the counter as it is. -/
def AlwaysWaiting (p fd : ℕ) (s : Clock) (e : ClockEvent) : Prop :=
  e = .tick → ∃ w, s.readers p = some w ∧ w.currFd = fd ∧ w.ready s.counter = false

section Runs

variable {s t z : Clock} {p fd : ℕ} {es : List ClockEvent}

/-- A descriptor of the clock starts at the counter. -/
lemma paced_of_open {fs : Fs} {filename : CString}
    (hopen : clockStep s (.openFile p fs filename) = some t)
    (hfd : (openCall s.counter fs (s.tables p) filename).1 = fd)
    (hrtc : (t.tables p fd).fopsTable = some .rtc) :
    Paced s.counter 0 0 (t.pacer p fd) ∧ OnTime 0 0 (t.pacer p fd) := by
  simp only [clockStep] at hopen
  split at hopen
  · rename_i hidle
    cases hopen
    rw [Clock.setTable_self] at hrtc
    have hreader : ((s.setTable p (openCall s.counter fs (s.tables p) filename).2).pacer
        p fd).reader = none := by
      simp only [Clock.pacer, Clock.setTable_readers, hidle]
      rfl
    have hpos : ((openCall s.counter fs (s.tables p) filename).2 fd).filePos = s.counter := by
      rw [openCall] at hfd hrtc ⊢
      split at hrtc
      · rename_i d k hd hk
        obtain ⟨e, he, -⟩ := openFd_of_found s.counter hd
        simp only [hd, hk, he] at hfd hrtc ⊢
        obtain rfl : k = fd := by exact_mod_cast hfd
        rw [Function.update_self] at hrtc ⊢
        rw [openFd] at he
        split_ifs at he
        · cases he
          cases hrtc
        · cases he
          cases hrtc
        · cases he
          rfl
      · rename_i hfails
        split at hfd
        · rename_i d k hd hk
          exact absurd hk (hfails d k hd)
        · exact absurd hfd (by rw [SYSCALL_ERROR]; omega)
    refine ⟨⟨?_, ?_, le_rfl, fun w hw => ?_⟩, fun w _ => Nat.zero_le _, fun _ => Nat.zero_le _⟩
    · exact (UInt32.add_zero _).symm
    · simp only [Clock.pacer, Clock.setTable_self, hpos]
      exact (UInt32.add_zero _).symm
    · rw [hreader] at hw
      cases hw
  · cases hopen

/-- **A run** of a descriptor that stays open. -/
lemma paced_of_run {c : UInt32} (hrtc : (t.tables p fd).fopsTable = some .rtc)
    (hpaced : Paced c 0 0 (t.pacer p fd)) (hrun : Run clockStep t es z)
    (hkept : ∀ e ∈ es, e ≠ .close p fd ∧ e ≠ .start p) :
    (z.tables p fd).fopsTable = some .rtc
      ∧ Paced c (elapsed es) (pace p fd es) (z.pacer p fd)
      ∧ (OnTime 0 0 (t.pacer p fd) → EveryStep clockStep t es (AlwaysWaiting p fd) →
        OnTime (elapsed es) (pace p fd es) (z.pacer p fd)) := by
  induction hrun with
  | nil => exact ⟨hrtc, hpaced, fun htime _ => htime⟩
  | @snoc es e z u hz hstep ih =>
      obtain ⟨hops, hpace, htime⟩ := ih fun e he => hkept e (List.mem_append_left _ he)
      obtain ⟨hclose, hstart⟩ := hkept e (by simp)
      obtain ⟨hops', hseen⟩ := pacerStep_of_clockStep hops hclose hstart hstep
      rw [elapsed_snoc, pace_snoc]
      refine ⟨hops', hpace.step hseen, fun hopen hevery => ?_⟩
      rw [everyStep_snoc hz] at hevery
      refine hpace.onTime_step (htime hopen hevery.1) hseen fun htick => ?_
      obtain ⟨w, hw, hfd, hspins⟩ := hevery.2 htick
      exact ⟨w, pacer_reader_eq_some.mpr ⟨hw, hfd⟩, hspins⟩

/-- A call may return when its test succeeds. -/
lemma done_isSome_iff {f : UInt32} : (clockStep z (.done p fd f)).isSome = true
    ↔ ∃ w, z.readers p = some w ∧ w.currFd = fd ∧ w.f = f ∧ w.ready z.counter = true := by
  simp only [clockStep]
  cases hw : z.readers p with
  | none => simp
  | some w =>
      by_cases hdone : w.currFd = fd ∧ w.f = f ∧ w.ready z.counter = true
      · simp [hdone]
      · simp [hdone]

/-- **The pace of `rtc_read`** on a descriptor, for any counter at `open`, any rates, and any other
steps in between: a call returns when more ticks have passed since `open` than the intervals of the
calls up to it sum up to; not later, if the reader is less than a turn of the counter behind; and
for a reader that is always already waiting, exactly one tick after the sum. -/
theorem rtcRead_pacing {fs : Fs} {filename : CString}
    (hopen : clockStep s (.openFile p fs filename) = some t)
    (hfd : (openCall s.counter fs (s.tables p) filename).1 = fd)
    (hrtc : (t.tables p fd).fopsTable = some .rtc) (hrun : Run clockStep t es z)
    (hkept : ∀ e ∈ es, e ≠ .close p fd ∧ e ≠ .start p) :
    (∀ f, (clockStep z (.done p fd f)).isSome = true → pace p fd es + f.toNat < elapsed es)
      ∧ ∀ w, z.readers p = some w → w.currFd = fd →
        (elapsed es - pace p fd es < 2 ^ 32 →
          ((clockStep z (.done p fd w.f)).isSome = true
            ↔ pace p fd es + w.f.toNat < elapsed es))
        ∧ (EveryStep clockStep t es (AlwaysWaiting p fd) →
          elapsed es ≤ pace p fd es + w.f.toNat + 1
            ∧ ((clockStep z (.done p fd w.f)).isSome = true
              ↔ elapsed es = pace p fd es + w.f.toNat + 1)) := by
  obtain ⟨hstart, htime⟩ := paced_of_open hopen hfd hrtc
  obtain ⟨-, hpaced, hontime⟩ := paced_of_run hrtc hstart hrun hkept
  refine ⟨fun f hdone => ?_, fun w hw hcurr => ?_⟩
  · obtain ⟨w, hw, hcurr, rfl, hready⟩ := done_isSome_iff.mp hdone
    exact hpaced.lt_of_ready (pacer_reader_eq_some.mpr ⟨hw, hcurr⟩) hready
  · have hreader := pacer_reader_eq_some.mpr ⟨hw, hcurr⟩
    have hdone : (clockStep z (.done p fd w.f)).isSome = true ↔ w.ready z.counter = true := by
      rw [done_isSome_iff]
      constructor
      · rintro ⟨w', hw', -, -, hready⟩
        obtain rfl : w' = w := Option.some.inj (hw'.symm.trans hw)
        exact hready
      · exact fun hready => ⟨w, hw, hcurr, rfl, hready⟩
    rw [hdone]
    refine ⟨fun hlag => hpaced.ready_iff_of_lag hreader hlag, fun hevery => ?_⟩
    have hle := (hontime htime hevery).waiting w hreader
    have hsmall := (hpaced.reader w hreader).2
    have hready := hpaced.ready_iff_of_lag hreader (by omega)
    refine ⟨hle, ?_⟩
    have hcounter : (z.pacer p fd).counter = z.counter := rfl
    rw [← hcounter, hready]
    omega

/-- A process has opened the clock, two ticks before the counter turns over. -/
def openedClock : Clock :=
  (Clock.boot 0xfffffffe).setTable 0 (openCall 0xfffffffe clockOnly (fun _ => Fd.zero) nameA).2

/-- It sets an interval of two ticks; the first read has returned, and the second one waits. -/
def twoReads : List ClockEvent :=
  [.write 0 2 512, .read 0 2, .tick, .tick, .tick, .done 0 2 2, .read 0 2, .tick]

/-- The second read does not return after four ticks in all, but after five. -/
theorem rtcRead_pacing_twoReads : ∃ z u, Run clockStep openedClock twoReads z
    ∧ Run clockStep openedClock (twoReads ++ [.tick]) u
    ∧ ¬ (clockStep z (.done 0 2 2)).isSome = true
    ∧ (clockStep u (.done 0 2 2)).isSome = true := by
  have hval : ((twoReads ++ [ClockEvent.tick]).foldlM clockStep openedClock).map
      (fun u => (u.readers 0).map fun w => (w.currFd, w.f)) = some (some (2, 2)) := by
    decide +kernel
  obtain ⟨u, hu, hreader⟩ := exists_run_of_map hval
  obtain ⟨z, hz, -⟩ := run_snoc_iff.mp hu
  obtain ⟨w, hw, hfd⟩ := Option.map_eq_some_iff.mp hreader
  obtain ⟨hcurr, hf⟩ := Prod.mk.inj hfd
  have hopen : clockStep (Clock.boot 0xfffffffe) (.openFile 0 clockOnly nameA)
      = some openedClock := rfl
  have hfour := (rtcRead_pacing hopen rfl rfl hz (by simp [twoReads])).1 2
  have hfive := ((rtcRead_pacing hopen rfl rfl hu (by simp [twoReads])).2 w hw hcurr).1 (by decide)
  rw [hf] at hfive
  exact ⟨z, u, hz, hu, fun hdone => absurd (hfour hdone) (by decide), hfive.mpr (by decide)⟩

end Runs

end CustomLinuxOs
