import CustomLinuxOs.Devices.Rtc

/-!
The rates that `rtc_write` takes.

* `ValidRate`, `SetsRate`: the powers of two up to 1024, and what a call is meant to do.
* `single_iff`, `accepted_iff`: the bit trick, and what passes both checks: zero and the most
  negative number do as well.
* `setsRate_iff`: the numbers for which the call does what it is meant to do.
* `IntervalsPositive`, `intervalsPositive_step`: the intervals of all open descriptors, and one
  step; `rtc_rates`: both for all numbers and all runs.
-/

namespace CustomLinuxOs

/-! ### One call -/

/-- The rates that are meant to be taken. -/
def ValidRate (r : Int32) : Prop := (∃ k : ℕ, r.toInt = 2 ^ k) ∧ 1 ≤ r.toInt ∧ r.toInt ≤ 1024

/-- A write of `r` to a descriptor sets its interval if the rate is valid, and otherwise fails and
changes nothing. -/
def SetsRate (r : Int32) : Prop :=
  ∀ (fds : FdTable) (fd : ℕ),
    (ValidRate r → rtcWrite fds fd r
      = (0, Function.update fds fd { fds fd with flags := (1024 / r).toUInt32 }))
    ∧ (¬ ValidRate r → rtcWrite fds fd r = (-1, fds))

/-- **The test for a power of two**. -/
lemma single_iff (r : Int32) :
    r = r &&& (-1 * r) ↔ r = 0 ∨ ∃ i < 32, r = Int32.ofBitVec (BitVec.twoPow 32 i) := by
  have hbits (s : Int32) : r = s ↔ r.toBitVec = s.toBitVec := Int32.toBitVec_inj.symm
  rw [← Int32.neg_eq_neg_one_mul, hbits, Int32.toBitVec_and, Int32.toBitVec_neg, eq_comm,
    and_neg_eq_self_iff]
  simp only [hbits]
  exact Iff.rfl

lemma validRate_iff (r : Int32) : ValidRate r ↔ ∃ k ≤ 10, r = Int32.ofNat (2 ^ k) := by
  have hvalue : ∀ k < 11, (Int32.ofNat (2 ^ k)).toInt = 2 ^ k := by decide
  constructor
  · rintro ⟨⟨k, hk⟩, -, hmax⟩
    have hle : k ≤ 10 := by
      by_contra hlarge
      have hpow : (2 : ℤ) ^ 11 ≤ 2 ^ k := pow_le_pow_right₀ (by norm_num) (by omega)
      omega
    exact ⟨k, hle, Int32.toInt_inj.mp (hk.trans (hvalue k (by omega)).symm)⟩
  · rintro ⟨k, hk, rfl⟩
    have hmax : (2 : ℤ) ^ k ≤ 2 ^ 10 := pow_le_pow_right₀ (by norm_num) hk
    have hpos : (0 : ℤ) < 2 ^ k := by positivity
    rw [ValidRate, hvalue k (by omega)]
    exact ⟨⟨k, rfl⟩, by omega, by omega⟩

/-- **What passes the two checks** of `rtc_write`. -/
lemma accepted_iff (r : Int32) : (r = r &&& (-1 * r) ∧ r ≤ OS_RTC_MAX)
    ↔ r = 0 ∨ r = Int32.minValue ∨ ValidRate r := by
  have hsmall : ∀ i < 32, Int32.ofBitVec (BitVec.twoPow 32 i) ≤ OS_RTC_MAX →
      Int32.ofBitVec (BitVec.twoPow 32 i) = Int32.minValue
        ∨ Int32.ofBitVec (BitVec.twoPow 32 i) = Int32.ofNat (2 ^ i) ∧ i ≤ 10 := by decide
  have hpow : ∀ k < 11, Int32.ofNat (2 ^ k) = Int32.ofBitVec (BitVec.twoPow 32 k)
      ∧ Int32.ofNat (2 ^ k) ≤ OS_RTC_MAX := by decide
  rw [single_iff, validRate_iff]
  constructor
  · rintro ⟨rfl | ⟨i, hi, rfl⟩, hle⟩
    · exact Or.inl rfl
    · rcases hsmall i hi hle with hmin | ⟨hvalue, hten⟩
      · exact Or.inr (Or.inl hmin)
      · exact Or.inr (Or.inr ⟨i, hten, hvalue⟩)
  · rintro (rfl | rfl | ⟨k, hk, rfl⟩)
    · exact ⟨Or.inl rfl, by decide⟩
    · exact ⟨Or.inr ⟨31, by decide, by decide⟩, by decide⟩
    · obtain ⟨hbit, hle⟩ := hpow k (by omega)
      exact ⟨Or.inr ⟨k, by omega, hbit⟩, hle⟩

/-- The loops turn a valid rate into its interval, and the two other numbers into zero. -/
lemma rtcWrite_accepted {r : Int32} (h : r = r &&& (-1 * r) ∧ r ≤ OS_RTC_MAX) (fds : FdTable)
    (fd : ℕ) : rtcWrite fds fd r = (0, Function.update fds fd { fds fd with
      flags := if r = 0 ∨ r = Int32.minValue then 0 else (1024 / r).toUInt32 }) := by
  have hloops : ∀ k < 11, (doubleRate (16 - RTC_MAX - (halveRate 31 0 (Int32.ofNat (2 ^ k))).1)
        (halveRate 31 0 (Int32.ofNat (2 ^ k))).2).toUInt32
      = (1024 / Int32.ofNat (2 ^ k)).toUInt32
        ∧ ¬ (Int32.ofNat (2 ^ k) = 0 ∨ Int32.ofNat (2 ^ k) = Int32.minValue) := by decide
  have hpass : rtcWrite fds fd r = (0, Function.update fds fd { fds fd with
      flags := (doubleRate (16 - RTC_MAX - (halveRate 31 0 r).1)
        (halveRate 31 0 r).2).toUInt32 }) := by
    rw [rtcWrite, if_neg (not_not.mpr h.1), if_neg (not_not.mpr h.2)]
  rw [hpass]
  rcases (accepted_iff r).mp h with rfl | rfl | hvalid
  · rfl
  · rfl
  · obtain ⟨k, hk, rfl⟩ := (validRate_iff r).mp hvalid
    obtain ⟨hflags, hne⟩ := hloops k (by omega)
    rw [hflags, if_neg hne]

lemma rtcWrite_refused {r : Int32} (h : ¬ (r = r &&& (-1 * r) ∧ r ≤ OS_RTC_MAX)) (fds : FdTable)
    (fd : ℕ) : rtcWrite fds fd r = (-1, fds) := by
  rw [rtcWrite]
  by_cases hsingle : r = r &&& (-1 * r)
  · rw [if_neg (not_not.mpr hsingle), if_pos fun hle => h ⟨hsingle, hle⟩]
  · rw [if_pos hsingle]

/-- Neither zero nor the most negative number is a valid rate. -/
lemma ValidRate.ne {r : Int32} (h : ValidRate r) : r ≠ 0 ∧ r ≠ Int32.minValue := by
  obtain ⟨-, hpos, -⟩ := h
  constructor
  · rintro rfl
    exact absurd hpos (by decide)
  · rintro rfl
    exact absurd hpos (by decide)

/-- **A call** does what it is meant to do, except for zero and the most negative number. -/
theorem setsRate_iff (r : Int32) : SetsRate r ↔ r ≠ 0 ∧ r ≠ Int32.minValue := by
  constructor
  · intro h
    by_contra hbad
    have hzero : r = 0 ∨ r = Int32.minValue := by tauto
    have hinvalid : ¬ ValidRate r := fun hvalid => hbad hvalid.ne
    have haccepted := (accepted_iff r).mpr (by tauto)
    have hfails := (h (fun _ => Fd.zero) 2).2 hinvalid
    rw [rtcWrite_accepted haccepted] at hfails
    have hresult : (0 : ℤ) = -1 := congrArg Prod.fst hfails
    exact absurd hresult (by decide)
  · intro hne fds fd
    refine ⟨fun hvalid => ?_, fun hinvalid => rtcWrite_refused ?_ fds fd⟩
    · rw [rtcWrite_accepted ((accepted_iff r).mpr (Or.inr (Or.inr hvalid))),
        if_neg (not_or.mpr hne)]
    · rw [accepted_iff]
      tauto

/-- A rate of zero is taken, and leaves a descriptor with the interval zero. -/
theorem rtcWrite_takesZero : ¬ SetsRate 0 := fun h => ((setsRate_iff 0).mp h).1 rfl

/-! ### Runs -/

/-- Every open descriptor of the clock in a table has an interval of at least one. -/
def TablePositive (fds : FdTable) : Prop :=
  ∀ fd, (fds fd).fopsTable = some .rtc → 1 ≤ (fds fd).interval.toNat

/-- Every open descriptor of the clock has an interval of at least one. -/
def IntervalsPositive (s : Clock) : Prop := ∀ p, TablePositive (s.tables p)

/-- The event is not a write of zero or of the most negative number. -/
def SafeWrite (_ : Clock) (e : ClockEvent) : Prop :=
  ∀ p fd r, e = .write p fd r → r ≠ 0 ∧ r ≠ Int32.minValue

section Tables

variable {fds : FdTable}

/-- One changed descriptor decides. -/
lemma tablePositive_update (h : TablePositive fds) (fd : ℕ) (e : Fd) :
    TablePositive (Function.update fds fd e)
      ↔ (e.fopsTable = some .rtc → 1 ≤ e.interval.toNat) := by
  constructor
  · intro hall
    have hfd := hall fd
    rwa [Function.update_self] at hfd
  · intro he fd'
    rcases eq_or_ne fd' fd with rfl | hne
    · rwa [Function.update_self]
    · rw [Function.update_of_ne hne]
      exact h fd'

lemma TablePositive.zero : TablePositive fun _ => Fd.zero := by
  intro fd hfd
  cases hfd

lemma TablePositive.setup (h : TablePositive fds) : TablePositive (setupFdtable fds) := by
  have htty {fds : FdTable} (h : TablePositive fds) (fd : ℕ) :
      TablePositive (Function.update fds fd ⟨some .tty, 0, 0, 0⟩) :=
    (tablePositive_update h fd _).mpr fun hrtc => by cases hrtc
  exact htty (htty h 0) 1

/-- The default interval of `open` is 32. -/
lemma TablePositive.openCall (h : TablePositive fds) (counter : UInt32) (fs : Fs)
    (filename : CString) : TablePositive (openCall counter fs fds filename).2 := by
  rw [CustomLinuxOs.openCall]
  split
  · rename_i d fd _ hfree
    rw [openFd]
    split_ifs
    · exact (tablePositive_update h fd _).mpr fun hrtc => by cases hrtc
    · exact (tablePositive_update h fd _).mpr fun hrtc => by cases hrtc
    · have hdefault : 1 ≤ ((0 ||| OS_DEFAULT_RATE) &&& LOW_BITS).toNat := by decide
      exact (tablePositive_update h fd _).mpr fun _ => hdefault
    · have hclosed : (fds fd).fopsTable = none := by
        have hfound := List.find?_some hfree
        exact of_decide_eq_true hfound
      refine (tablePositive_update h fd _).mpr fun hrtc => ?_
      rw [hclosed] at hrtc
      cases hrtc
  · exact h

lemma TablePositive.closeCall (h : TablePositive fds) (fd : ℤ) :
    TablePositive (closeCall fds fd).2 := by
  rw [CustomLinuxOs.closeCall]
  split_ifs
  · exact h
  · exact h
  · exact h
  · exact (tablePositive_update h _ _).mpr fun hrtc => by cases hrtc

/-- A change that leaves the kind and the interval of a descriptor. -/
lemma TablePositive.update_same (h : TablePositive fds) {fd : ℕ} {e : Fd}
    (hops : e.fopsTable = (fds fd).fopsTable) (hinterval : e.interval = (fds fd).interval) :
    TablePositive (Function.update fds fd e) := by
  rw [tablePositive_update h, hops, hinterval]
  exact h fd

lemma TablePositive.rtcRead (h : TablePositive fds) (fd : ℕ) : TablePositive (rtcRead fds fd).1 :=
  h.update_same rfl (by simp only [Fd.interval, UInt32.and_assoc, UInt32.and_self])

/-- The interval that a valid rate gives. -/
lemma interval_of_validRate {r : Int32} (h : ValidRate r) (e : Fd) :
    1 ≤ ({ e with flags := (1024 / r).toUInt32 } : Fd).interval.toNat := by
  have hall : ∀ k < 11, 1 ≤ ((1024 / Int32.ofNat (2 ^ k)).toUInt32 &&& LOW_BITS).toNat := by
    decide
  obtain ⟨k, hk, rfl⟩ := (validRate_iff r).mp h
  exact hall k (by omega)

/-- **A write** to a descriptor of the clock. -/
lemma tablePositive_rtcWrite (h : TablePositive fds) {fd : ℕ}
    (hops : (fds fd).fopsTable = some .rtc) (r : Int32) :
    TablePositive (rtcWrite fds fd r).2 ↔ r ≠ 0 ∧ r ≠ Int32.minValue := by
  by_cases haccepted : r = r &&& (-1 * r) ∧ r ≤ OS_RTC_MAX
  · rw [rtcWrite_accepted haccepted, tablePositive_update h, forall_prop_of_true hops]
    by_cases hzero : r = 0 ∨ r = Int32.minValue
    · rw [if_pos hzero]
      have hnone : ¬ 1 ≤ ((0 : UInt32) &&& LOW_BITS).toNat := by decide
      exact iff_of_false hnone fun hne => by tauto
    · rw [if_neg hzero]
      have hvalid : ValidRate r := by
        rcases (accepted_iff r).mp haccepted with h | h | h
        · exact absurd (Or.inl h) hzero
        · exact absurd (Or.inr h) hzero
        · exact h
      exact iff_of_true (interval_of_validRate hvalid _) hvalid.ne
  · rw [rtcWrite_refused haccepted]
    refine iff_of_true h ?_
    rw [accepted_iff] at haccepted
    tauto

end Tables

lemma intervalsPositive_setTable {s : Clock} (h : IntervalsPositive s) (p : ℕ) (fds : FdTable) :
    IntervalsPositive (s.setTable p fds) ↔ TablePositive fds := by
  constructor
  · intro hall
    have hp := hall p
    rwa [Clock.setTable_self] at hp
  · intro hfds q
    rcases eq_or_ne q p with rfl | hne
    · rwa [Clock.setTable_self]
    · rw [Clock.setTable_of_ne _ _ _ hne]
      exact h q

/-- **One step** keeps the intervals positive unless it writes one of the two numbers. -/
lemma intervalsPositive_step {s t : Clock} {e : ClockEvent} (h : IntervalsPositive s)
    (hstep : clockStep s e = some t) : IntervalsPositive t ↔ SafeWrite s e := by
  have hsafe (hne : ∀ p fd r, e ≠ .write p fd r) : SafeWrite s e :=
    fun p fd r he => absurd he (hne p fd r)
  have htable {p : ℕ} {fds : FdTable} (hfds : TablePositive fds) :
      IntervalsPositive (s.setTable p fds) := (intervalsPositive_setTable h p fds).mpr hfds
  cases clockStep_cases hstep with
  | tick => exact iff_of_true h (hsafe (by simp))
  | start p => exact iff_of_true (htable TablePositive.zero.setup) (hsafe (by simp))
  | @openFile p fs filename => exact iff_of_true (htable ((h p).openCall _ _ _)) (hsafe (by simp))
  | @close p fd => exact iff_of_true (htable ((h p).closeCall _)) (hsafe (by simp))
  | @write p fd r hcall =>
      rw [intervalsPositive_setTable h, tablePositive_rtcWrite (h p) hcall.2.2]
      constructor
      · rintro hne q gd r' heq
        cases heq
        exact hne
      · intro hall
        exact hall p fd r rfl
  | @read p fd => exact iff_of_true (htable ((h p).rtcRead fd)) (hsafe (by simp))
  | spin => exact iff_of_true h (hsafe (by simp))
  | @done p w => exact iff_of_true (htable ((h p).update_same rfl rfl)) (hsafe (by simp))
  | @move p fd pos => exact iff_of_true (htable ((h p).update_same rfl rfl)) (hsafe (by simp))

/-- **Rates and intervals.**  A write does what it is meant to do for every number but zero and the
most negative one; and in a run all intervals stay positive exactly when neither of these is
written. -/
theorem rtc_rates (r : Int32) {s z : Clock} {es : List ClockEvent} (hs : IntervalsPositive s)
    (hrun : Run clockStep s es z) :
    (SetsRate r ↔ r ≠ 0 ∧ r ≠ Int32.minValue)
      ∧ (EveryState clockStep s es IntervalsPositive ↔ EveryStep clockStep s es SafeWrite) := by
  refine ⟨setsRate_iff r, ?_⟩
  exact everyState_iff_everyStep (V := fun _ => True) (I := fun _ => True) hrun
    (fun _ _ => trivial) trivial hs
    (fun t e u _ _ ht hstep => intervalsPositive_step ht hstep)
    (fun _ _ _ _ _ _ _ _ => trivial)

/-- A process opens the clock, sets an interval of two ticks, fails to set another one, and reads,
while the counter turns over. -/
def openedAndRead : List ClockEvent :=
  [.start 0, .openFile 0 clockOnly nameA, .write 0 2 512, .write 0 2 3, .read 0 2, .tick, .tick,
    .tick, .done 0 2 2]

/-- It writes neither of the two numbers. -/
lemma openedAndRead_safe :
    EveryStep clockStep (Clock.boot 0xfffffffe) openedAndRead SafeWrite := by
  intro pre e post t hes _ p fd r he
  have hmem : ClockEvent.write p fd r ∈ openedAndRead := by
    rw [hes, he]
    simp
  simp only [openedAndRead, List.mem_cons, ClockEvent.write.injEq, reduceCtorEq, false_or, or_false,
    List.not_mem_nil] at hmem
  rcases hmem with ⟨-, -, rfl⟩ | ⟨-, -, rfl⟩
  · decide
  · decide

/-- So the intervals are positive all along, and in the end the descriptor has the one that was
set. -/
theorem rtc_rates_openedAndRead : SetsRate 512
    ∧ EveryState clockStep (Clock.boot 0xfffffffe) openedAndRead IntervalsPositive
    ∧ ∃ z, Run clockStep (Clock.boot 0xfffffffe) openedAndRead z
      ∧ (z.tables 0 2).interval = 2 := by
  have hval : (openedAndRead.foldlM clockStep (Clock.boot 0xfffffffe)).map
      (fun z => (z.tables 0 2).interval) = some 2 := by
    decide +kernel
  obtain ⟨z, hrun, hinterval⟩ := exists_run_of_map hval
  have hrates := rtc_rates 512 (fun _ => TablePositive.zero) hrun
  exact ⟨hrates.1.mpr (by decide), hrates.2.mpr openedAndRead_safe, z, hrun, hinterval⟩

end CustomLinuxOs
