import CustomLinuxOs.Foundations.Run
import CustomLinuxOs.Process.Kernel

/-!
The descriptors of the real-time clock in `rtc.c`.

* `rtcRead`, `RtcReader.ready`, `rtcReadDone`: `rtc_read` before its loop, the test of the loop, and
  `rtc_read` behind it.  `rtc_open` is part of `openFd`.
* `rtcWrite`: `rtc_write`, with its two loops.
* `Clock`, `ClockEvent`, `clockStep`: the processes with their descriptors, and the ticks between
  their steps.  `clockStep_cases` is the inversion of a step.
-/

namespace CustomLinuxOs

def RTC_MAX : ℕ := 6
def OS_RTC_MAX : Int32 := 1024
def LOW_BITS : UInt32 := 0xFFFF

/-! ### Reading -/

/-- The variables of a call of `rtc_read` in its loop. -/
structure RtcReader where
  currFd : ℕ
  c : UInt32
  f : UInt32
  deriving DecidableEq, Repr

/-- The interval of a descriptor. -/
def Fd.interval (e : Fd) : UInt32 := e.flags &&& LOW_BITS

/-- `rtc_read` up to its loop. -/
def rtcRead (fds : FdTable) (fd : ℕ) : FdTable × RtcReader :=
  let e := { fds fd with flags := (fds fd).flags &&& LOW_BITS }
  (Function.update fds fd e, ⟨fd, (fds fd).filePos, e.flags⟩)

/-- The test in the loop of `rtc_read`. -/
def RtcReader.ready (w : RtcReader) (counter : UInt32) : Bool := w.f < counter - w.c

/-- `rtc_read` behind its loop. -/
def rtcReadDone (fds : FdTable) (w : RtcReader) : FdTable :=
  Function.update fds w.currFd
    { fds w.currFd with filePos := (fds w.currFd).filePos + w.f }

/-! ### Setting the rate -/

/-- The first loop of `rtc_write`, with at most so many passes: `i`, and what is left of `rate`. -/
def halveRate : ℕ → ℕ → Int32 → ℕ × Int32
  | 0, i, rate => (i, rate)
  | k + 1, i, rate => if rate > 1 then halveRate k (i + 1) (rate >>> 1) else (i, rate)

/-- The second loop of `rtc_write`. -/
def doubleRate : ℕ → Int32 → Int32
  | 0, rate => rate
  | i + 1, rate => doubleRate i (rate * 2)

/-- `rtc_write`, where `buf` points to `rate`.  A number has 31 bits to halve. -/
def rtcWrite (fds : FdTable) (fd : ℕ) (rate : Int32) : ℤ × FdTable :=
  if rate ≠ rate &&& (-1 * rate) then (-1, fds)
  else if ¬ rate ≤ OS_RTC_MAX then (-1, fds)
  else
    let halved := halveRate 31 0 rate
    let rate := doubleRate (16 - RTC_MAX - halved.1) halved.2
    (0, Function.update fds fd { fds fd with flags := rate.toUInt32 })

/-! ### Processes and ticks -/

/-- The tick counter, the descriptor table of each process, and the calls of `rtc_read` that
wait. -/
structure Clock where
  counter : UInt32
  tables : ℕ → FdTable
  readers : ℕ → Option RtcReader

/-- What can happen.  All but a tick is done by a process. -/
inductive ClockEvent where
  /-- the handler of the clock counts -/
  | tick
  /-- `push_pcb` sets up the table of a new process -/
  | start (p : ℕ)
  /-- `open`, with the file system as it is then -/
  | openFile (p : ℕ) (fs : Fs) (filename : CString)
  | close (p : ℕ) (fd : ℤ)
  /-- `write` to a descriptor of the clock -/
  | write (p fd : ℕ) (rate : Int32)
  /-- `read` on a descriptor of the clock, up to its loop -/
  | read (p fd : ℕ)
  /-- a pass of the loop that goes on -/
  | spin (p : ℕ)
  /-- a pass of the loop that ends it, and the return of the call; its interval was `f` -/
  | done (p fd : ℕ) (f : UInt32)
  /-- a call on a descriptor of another kind moves its position -/
  | move (p fd : ℕ) (pos : UInt32)

/-- Changing the table of a process. -/
def Clock.setTable (s : Clock) (p : ℕ) (fds : FdTable) : Clock :=
  { s with tables := Function.update s.tables p fds }

/-- Changing the call a process is in. -/
def Clock.setReader (s : Clock) (p : ℕ) (w : Option RtcReader) : Clock :=
  { s with readers := Function.update s.readers p w }

section Set

variable (s : Clock) (p : ℕ) (fds : FdTable) (w : Option RtcReader)

@[simp] lemma Clock.setTable_self : (s.setTable p fds).tables p = fds := Function.update_self ..

lemma Clock.setTable_of_ne {q : ℕ} (h : q ≠ p) : (s.setTable p fds).tables q = s.tables q :=
  Function.update_of_ne h ..

@[simp] lemma Clock.setTable_readers : (s.setTable p fds).readers = s.readers := rfl

@[simp] lemma Clock.setTable_counter : (s.setTable p fds).counter = s.counter := rfl

@[simp] lemma Clock.setReader_self : (s.setReader p w).readers p = w := Function.update_self ..

lemma Clock.setReader_of_ne {q : ℕ} (h : q ≠ p) : (s.setReader p w).readers q = s.readers q :=
  Function.update_of_ne h ..

@[simp] lemma Clock.setReader_tables : (s.setReader p w).tables = s.tables := rfl

@[simp] lemma Clock.setReader_counter : (s.setReader p w).counter = s.counter := rfl

end Set

/-- A process that is not in `rtc_read` may call `read` and `write` on a descriptor of the clock. -/
def Clock.MayCall (s : Clock) (p fd : ℕ) : Prop :=
  s.readers p = none ∧ fd < MAX_OPEN_FILES ∧ (s.tables p fd).fopsTable = some .rtc

instance (s : Clock) (p fd : ℕ) : Decidable (s.MayCall p fd) :=
  inferInstanceAs (Decidable (_ ∧ _))

/-- One event. -/
def clockStep (s : Clock) : ClockEvent → Option Clock
  | .tick => some { s with counter := s.counter + 1 }
  | .start p => some ((s.setTable p (setupFdtable fun _ => Fd.zero)).setReader p none)
  | .openFile p fs filename =>
      if s.readers p = none then
        some (s.setTable p (openCall s.counter fs (s.tables p) filename).2)
      else none
  | .close p fd =>
      if s.readers p = none then some (s.setTable p (closeCall (s.tables p) fd).2) else none
  | .write p fd rate =>
      if s.MayCall p fd then some (s.setTable p (rtcWrite (s.tables p) fd rate).2) else none
  | .read p fd =>
      if s.MayCall p fd then
        let r := rtcRead (s.tables p) fd
        some ((s.setTable p r.1).setReader p (some r.2))
      else none
  | .spin p =>
      match s.readers p with
      | some w => if w.ready s.counter then none else some s
      | none => none
  | .done p fd f =>
      match s.readers p with
      | some w =>
          if w.currFd = fd ∧ w.f = f ∧ w.ready s.counter then
            some ((s.setTable p (rtcReadDone (s.tables p) w)).setReader p none)
          else none
      | none => none
  | .move p fd pos =>
      if s.readers p = none ∧ (s.tables p fd).fopsTable ≠ some .rtc then
        some (s.setTable p
          (Function.update (s.tables p) fd { s.tables p fd with filePos := pos }))
      else none

/-- What a step does, and when it is possible. -/
inductive ClockTransition (s : Clock) : ClockEvent → Clock → Prop
  | tick : ClockTransition s .tick { s with counter := s.counter + 1 }
  | start (p : ℕ) : ClockTransition s (.start p)
      ((s.setTable p (setupFdtable fun _ => Fd.zero)).setReader p none)
  | openFile {p : ℕ} (fs : Fs) (filename : CString) : s.readers p = none →
      ClockTransition s (.openFile p fs filename)
        (s.setTable p (openCall s.counter fs (s.tables p) filename).2)
  | close {p : ℕ} (fd : ℤ) : s.readers p = none →
      ClockTransition s (.close p fd) (s.setTable p (closeCall (s.tables p) fd).2)
  | write {p fd : ℕ} (rate : Int32) : s.MayCall p fd →
      ClockTransition s (.write p fd rate) (s.setTable p (rtcWrite (s.tables p) fd rate).2)
  | read {p fd : ℕ} : s.MayCall p fd →
      ClockTransition s (.read p fd) ((s.setTable p (rtcRead (s.tables p) fd).1).setReader p
        (some (rtcRead (s.tables p) fd).2))
  | spin {p : ℕ} {w : RtcReader} : s.readers p = some w → w.ready s.counter = false →
      ClockTransition s (.spin p) s
  | done {p : ℕ} {w : RtcReader} : s.readers p = some w → w.ready s.counter = true →
      ClockTransition s (.done p w.currFd w.f)
        ((s.setTable p (rtcReadDone (s.tables p) w)).setReader p none)
  | move {p fd : ℕ} (pos : UInt32) : s.readers p = none →
      (s.tables p fd).fopsTable ≠ some .rtc → ClockTransition s (.move p fd pos)
        (s.setTable p (Function.update (s.tables p) fd { s.tables p fd with filePos := pos }))

/-- **One step**, taken apart. -/
lemma clockStep_cases {s t : Clock} {e : ClockEvent} (h : clockStep s e = some t) :
    ClockTransition s e t := by
  cases e with
  | tick =>
      cases h
      exact .tick
  | start p =>
      cases h
      exact .start p
  | openFile p fs filename =>
      obtain ⟨hidle, ht⟩ := Option.ite_none_right_eq_some.mp h
      cases ht
      exact .openFile fs filename hidle
  | close p fd =>
      obtain ⟨hidle, ht⟩ := Option.ite_none_right_eq_some.mp h
      cases ht
      exact .close fd hidle
  | write p fd rate =>
      obtain ⟨hcall, ht⟩ := Option.ite_none_right_eq_some.mp h
      cases ht
      exact .write rate hcall
  | read p fd =>
      obtain ⟨hcall, ht⟩ := Option.ite_none_right_eq_some.mp h
      cases ht
      exact .read hcall
  | spin p =>
      simp only [clockStep] at h
      split at h
      · rename_i w hw
        obtain ⟨hspins, ht⟩ := Option.ite_none_left_eq_some.mp h
        cases ht
        exact .spin hw (Bool.eq_false_of_not_eq_true hspins)
      · cases h
  | done p fd f =>
      simp only [clockStep] at h
      split at h
      · rename_i w hw
        obtain ⟨⟨rfl, rfl, hready⟩, ht⟩ := Option.ite_none_right_eq_some.mp h
        cases ht
        exact .done hw hready
      · cases h
  | move p fd pos =>
      obtain ⟨⟨hidle, hops⟩, ht⟩ := Option.ite_none_right_eq_some.mp h
      cases ht
      exact .move pos hidle hops

/-- No process has started. -/
def Clock.boot (counter : UInt32) : Clock := ⟨counter, fun _ _ => Fd.zero, fun _ => none⟩

/-- A directory with the clock, under the name `a`. -/
def clockOnly : Fs :=
  { oneFile 0 with dentries := fun i => { (oneFile 0).dentries i with fileType := FILE_TYPE_RTC } }

end CustomLinuxOs
