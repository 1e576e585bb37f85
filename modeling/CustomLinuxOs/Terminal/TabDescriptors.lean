import CustomLinuxOs.Terminal.CompletionWord

/-!
The descriptors of the process that a key interrupts.

* `Keeps`, `SameOpen`: the open descriptors of one table are open in another one, with the same
  contents; and the other way round.
* `Extra`: a table while completion reads the directory, with one more descriptor open.
* `QuietKey`: a key during which `tty_ls` is not called.
* `sendKeyIn_descriptors`: a key keeps what is open, and leaves nothing open exactly when it is
  quiet: `tty_ls` does not close the directory that it has opened a second time.
* `keys_leave_descriptors_iff`: the same for any number of keys.
-/

namespace CustomLinuxOs

/-- The descriptors that are open in `a` are open in `b`, with the same contents. -/
def Keeps (a b : FdTable) : Prop := ∀ i, (a i).fopsTable ≠ none → b i = a i

/-- The same descriptors are open, with the same contents. -/
def SameOpen (a b : FdTable) : Prop := Keeps a b ∧ Keeps b a

/-- A table `b` that completion has made of `a` by opening the directory: the descriptor is open
besides those of `a`, or could not be opened. -/
def Extra (a : FdTable) (fd : ℤ) (b : FdTable) : Prop :=
  fd < 0 ∧ SameOpen a b
    ∨ (2 ≤ fd ∧ fd ≤ 7) ∧ (a fd.toNat).fopsTable = none ∧ (b fd.toNat).fopsTable ≠ none
      ∧ ∀ i ≠ fd.toNat, b i = a i

/-- During this key `tty_ls` is not called: the key is not a Tab that finds several names and
nothing to add while `tab_ls` is set, and completion sends no such Tab either. -/
def QuietKey (w : Files) (k : ℕ) : ℕ → Tty × FdTable → UInt8 → Prop
  | 0, _, _ => True
  | depth + 1, t, c => c = TAB →
      match outcome w k t.1 t.2 with
      | some (.ambiguous _ _ _) => t.1.tabLs = false
      | some (.add bytes _ fds) =>
          EveryStep (sendKeyIn w k depth) (t.1, fds) bytes (QuietKey w k depth)
      | _ => True

/-! ### Tables -/

section Tables

variable {a b c : FdTable} {fd : ℤ}

lemma Keeps.refl (a : FdTable) : Keeps a a := fun _ _ => rfl

lemma Keeps.trans (hab : Keeps a b) (hbc : Keeps b c) : Keeps a c := by
  intro i hi
  have hb := hab i hi
  rw [hbc i (by rwa [hb]), hb]

lemma SameOpen.refl (a : FdTable) : SameOpen a a := ⟨Keeps.refl a, Keeps.refl a⟩

lemma SameOpen.symm (h : SameOpen a b) : SameOpen b a := ⟨h.2, h.1⟩

lemma SameOpen.trans (hab : SameOpen a b) (hbc : SameOpen b c) : SameOpen a c :=
  ⟨hab.1.trans hbc.1, hbc.2.trans hab.2⟩

lemma SameOpen.fopsTable_eq_none_iff (h : SameOpen a b) (i : ℕ) :
    (a i).fopsTable = none ↔ (b i).fopsTable = none := by
  constructor
  · intro hnone
    by_contra hopen
    rw [h.2 i hopen] at hnone
    exact hopen hnone
  · intro hnone
    by_contra hopen
    rw [h.1 i hopen] at hnone
    exact hopen hnone

/-- The next `open` finds the same descriptor. -/
lemma SameOpen.freeFd_eq (h : SameOpen a b) : freeFd a = freeFd b := by
  rw [freeFd, freeFd]
  congr 1
  funext i
  rw [decide_eq_decide, h.fopsTable_eq_none_iff i]

/-- What has been opened in addition does not matter to what was open before. -/
lemma Extra.keeps (h : Extra a fd b) : Keeps a b := by
  rcases h with ⟨-, hsame⟩ | ⟨-, hfree, -, hrest⟩
  · exact hsame.1
  · intro i hi
    refine hrest i fun heq => ?_
    rw [heq] at hi
    exact hi hfree

/-- A descriptor that has been opened is open in addition. -/
lemma Extra.keeps_back_iff (h : Extra a fd b) : Keeps b a ↔ fd < 0 := by
  rcases h with ⟨hneg, hsame⟩ | ⟨hrange, hfree, hopen, -⟩
  · exact iff_of_true hsame.2 hneg
  · refine iff_of_false (fun hkeeps => ?_) (by omega)
    rw [← hkeeps _ hopen] at hopen
    exact hopen hfree

/-- **`close`** takes away what was opened in addition, whatever else has been opened since. -/
lemma Extra.close (h : Extra a fd b) (hkeeps : Keeps b c) :
    Keeps a (closeCall c fd).2 ∧ (Keeps (closeCall c fd).2 a ↔ Keeps c b) := by
  rcases h with ⟨hneg, hsame⟩ | ⟨hrange, hfree, hopen, hrest⟩
  · have hclose : (closeCall c fd).2 = c := by
      rw [closeCall, if_pos (Or.inl hneg)]
    rw [hclose]
    exact ⟨hsame.1.trans hkeeps, fun h => h.trans hsame.1, fun h => h.trans hsame.2⟩
  · have hfd := hkeeps _ hopen
    have hclose : (closeCall c fd).2
        = Function.update c fd.toNat { c fd.toNat with fopsTable := none } := by
      rw [closeCall, if_neg (by omega), if_neg (by omega), if_neg (by rwa [hfd])]
    have hother {i : ℕ} (hi : i ≠ fd.toNat) : (closeCall c fd).2 i = c i := by
      rw [hclose, Function.update_of_ne hi]
    have hclosed : ((closeCall c fd).2 fd.toNat).fopsTable = none := by
      rw [hclose, Function.update_self]
    have hne {i : ℕ} (hi : ((closeCall c fd).2 i).fopsTable ≠ none) : i ≠ fd.toNat := by
      rintro rfl
      exact hi hclosed
    refine ⟨fun i hi => ?_, fun hback i hi => ?_, fun hback i hi => ?_⟩
    · have hine : i ≠ fd.toNat := by
        rintro rfl
        exact hi hfree
      rw [hother hine, hkeeps i (by rwa [hrest i hine]), hrest i hine]
    · rcases eq_or_ne i fd.toNat with rfl | hine
      · exact hfd.symm
      · have hopened := hback i (by rwa [hother hine])
        rw [hrest i hine, hopened, hother hine]
    · have hine := hne hi
      rw [hother hine] at hi ⊢
      rw [← hrest i hine, hback i hi]

lemma Extra.closed (h : Extra a fd b) : SameOpen a (closeCall b fd).2 :=
  ⟨(h.close (Keeps.refl b)).1, (h.close (Keeps.refl b)).2.mpr (Keeps.refl b)⟩

end Tables

/-! ### Reading the directory -/

section Reading

variable {w : Files} {a b b' : FdTable} {fd : ℤ} {k n m : ℕ} {word test test' : ℕ → UInt8}

/-- **`open`** opens one descriptor, or none. -/
lemma extra_openDot (w : Files) (a : FdTable) : Extra a (openDot w a).1 (openDot w a).2 := by
  have hfails : Extra a (SYSCALL_ERROR, a).1 (SYSCALL_ERROR, a).2 :=
    Or.inl ⟨(by decide : SYSCALL_ERROR < 0), SameOpen.refl a⟩
  rw [openDot, openCall]
  cases readDentryByName w.fs dotName with
  | none => exact hfails
  | some d =>
      cases hfree : freeFd a with
      | none => exact hfails
      | some i =>
          have hclosed : (a i).fopsTable = none := by simpa using List.find?_some hfree
          have hrange := List.mem_range'_1.mp (List.mem_of_find?_eq_some hfree)
          rw [MAX_OPEN_FILES] at hrange
          cases he : openFd w.counter d with
          | none =>
              -- the fields that are set belong to a descriptor that stays closed
              simp only [he]
              refine Or.inl ⟨by decide, fun j hj => ?_, fun j hj => ?_⟩
              · refine Function.update_of_ne ?_ ..
                rintro rfl
                exact hj hclosed
              · refine (Function.update_of_ne ?_ ..).symm
                rintro rfl
                rw [Function.update_self] at hj
                exact hj hclosed
          | some e =>
              have hopen : e.fopsTable ≠ none := by
                rw [openFd] at he
                split_ifs at he
                all_goals
                  obtain rfl := Option.some.inj he
                  exact Option.some_ne_none _
              simp only [he]
              refine Or.inr ⟨by omega, ?_⟩
              rw [Int.toNat_natCast, Function.update_self]
              exact ⟨hclosed, hopen, fun j hj => Function.update_of_ne hj ..⟩

/-- Whether it opens one depends on which descriptors are open. -/
lemma openDot_congr (w : Files) (h : SameOpen a b) : (openDot w a).1 = (openDot w b).1 := by
  rw [openDot, openDot, openCall, openCall, h.freeFd_eq]
  cases readDentryByName w.fs dotName with
  | none => rfl
  | some d =>
      cases freeFd b with
      | none => rfl
      | some i =>
          simp only
          cases openFd w.counter d with
          | none => rfl
          | some e => rfl

/-- A read changes the position of its descriptor at most. -/
lemma readCall_changes {numInodes : UInt32} {fs : Fs} {nbytes : ℕ} {r : ℤ × List UInt8 × FdTable}
    (h : readCall numInodes fs b fd nbytes = some r) : r.2.2 = b
      ∨ ∃ pos, r.2.2 = Function.update b fd.toNat { b fd.toNat with filePos := pos } := by
  rw [readCall] at h
  split at h
  · obtain rfl := Option.some.inj h
    exact Or.inl rfl
  · split at h
    · obtain rfl := Option.some.inj h
      exact Or.inl rfl
    · obtain rfl := Option.some.inj h
      rw [directoryRead]
      split
      · exact Or.inl rfl
      · exact Or.inr ⟨_, rfl⟩
    · obtain rfl := Option.some.inj h
      exact Or.inr ⟨_, rfl⟩
    · cases h

/-- **One read** leaves the descriptors as they are; without a descriptor it ends the loop. -/
lemma extra_readName (h : Extra a fd b) {r : Bool × (ℕ → UInt8) × FdTable}
    (hread : readName w fd test b = some r) : Extra a fd r.2.2 ∧ (fd < 0 → r.1 = false) := by
  obtain ⟨q, hq, rfl⟩ := Option.map_eq_some_iff.mp hread
  have hend (hneg : fd < 0) : q = (SYSCALL_ERROR, [], b) := by
    rw [readCall, if_pos (Or.inl hneg)] at hq
    exact (Option.some.inj hq).symm
  refine ⟨?_, fun hneg => ?_⟩
  · rcases readCall_changes hq with hsame | ⟨pos, hupdate⟩
    · rwa [hsame]
    · rcases h with ⟨hneg, hsame⟩ | ⟨hrange, hfree, hopen, hrest⟩
      · rw [hend hneg]
        exact Or.inl ⟨hneg, hsame⟩
      · refine Or.inr ⟨hrange, hfree, ?_, fun i hi => ?_⟩
        · rw [hupdate, Function.update_self]
          exact hopen
        · rw [hupdate, Function.update_of_ne hi, hrest i hi]
  · rw [hend hneg]
    rfl

/-- The first loop. -/
lemma extra_firstMatch (h : Extra a fd b) {r : Option (ℕ → UInt8) × FdTable}
    (hread : firstMatch w fd word n k test b = some r) :
    Extra a fd r.2 ∧ (fd < 0 → r.1 = none) := by
  induction k generalizing test b with
  | zero => cases hread
  | succ k ih =>
      obtain ⟨q, hq, hrest⟩ := Option.bind_eq_some_iff.mp hread
      obtain ⟨hextra, hend⟩ := extra_readName h hq
      split at hrest
      · obtain rfl := Option.some.inj hrest
        exact ⟨hextra, fun _ => rfl⟩
      · rename_i hgo
        split at hrest
        · obtain rfl := Option.some.inj hrest
          exact ⟨hextra, fun hneg => absurd (hend hneg) (by simpa using hgo)⟩
        · exact ih hextra hrest

/-- The second loop. -/
lemma extra_agreeNames (h : Extra a fd b) {r : Option ℕ × FdTable}
    (hread : agreeNames w fd word n k m test b = some r) : Extra a fd r.2 := by
  induction k generalizing m test b with
  | zero => cases hread
  | succ k ih =>
      obtain ⟨q, hq, hrest⟩ := Option.bind_eq_some_iff.mp hread
      obtain ⟨hextra, -⟩ := extra_readName h hq
      split at hrest
      · obtain rfl := Option.some.inj hrest
        exact hextra
      · split at hrest
        · split at hrest
          · exact ih hextra hrest
          · split at hrest
            · obtain rfl := Option.some.inj hrest
              exact hextra
            · exact ih hextra hrest
        · exact ih hextra hrest

/-- A loop of `tty_ls`. -/
lemma extra_readNames (h : Extra a fd b) {r : Listing × (ℕ → UInt8) × FdTable}
    (hread : readNames w fd k test b = some r) : Extra a fd r.2.2 := by
  induction k generalizing test b r with
  | zero => cases hread
  | succ k ih =>
      obtain ⟨q, hq, hrest⟩ := Option.bind_eq_some_iff.mp hread
      obtain ⟨hextra, -⟩ := extra_readName h hq
      split at hrest
      · obtain rfl := Option.some.inj hrest
        exact hextra
      · obtain ⟨r', hr', rfl⟩ := Option.map_eq_some_iff.mp hrest
        have hnames : Extra a fd r'.2.2 := ih hextra hr'
        exact hnames

/-- What `tab_complete` has done to the descriptors where it changes the terminal. -/
def Outcome.Leaves (w : Files) (a : FdTable) : Outcome → Prop
  | .tooLong => True
  | .noMatch b => SameOpen a b
  | .ambiguous _ _ b => SameOpen a b ∧ 0 ≤ (openDot w a).1
  | .add _ fd b => Extra a fd b

/-- **The exits of `tab_complete`** where nothing is added close the directory; several names are
found only where it could be opened. -/
lemma outcome_leaves {s : Tty} {o : Outcome} (h : outcome w k s a = some o) : o.Leaves w a := by
  simp only [outcome] at h
  split at h
  · obtain rfl := Option.some.inj h
    trivial
  · obtain ⟨⟨found, b⟩, hfirst, h⟩ := Option.bind_eq_some_iff.mp h
    obtain ⟨hextra, hnone⟩ := extra_firstMatch (extra_openDot w a) hfirst
    cases found with
    | none =>
        obtain rfl := Option.some.inj h
        exact hextra.closed
    | some first =>
        obtain ⟨⟨agree, b'⟩, hagree, rfl⟩ := Option.map_eq_some_iff.mp h
        have hextra' : Extra a (openDot w a).1 b' := extra_agreeNames hextra hagree
        cases agree with
        | none => exact ⟨hextra'.closed, not_lt.mp fun hneg => Option.some_ne_none _ (hnone hneg)⟩
        | some m => exact hextra'

/-- **`tty_ls`** leaves the directory open, if it can open it. -/
lemma ttyLsIn_descriptors {s t : Tty} {filename : ℕ → UInt8}
    (h : ttyLsIn w k filename n s a = some (t, b)) :
    Keeps a b ∧ (Keeps b a ↔ (openDot w a).1 < 0) := by
  rw [ttyLsIn] at h
  split at h
  · obtain ⟨⟨names, test, a'⟩, hfirst, h⟩ := Option.bind_eq_some_iff.mp h
    obtain ⟨⟨names', test', b'⟩, hsecond, h⟩ := Option.map_eq_some_iff.mp h
    obtain ⟨-, rfl⟩ := Prod.mk.inj h
    have hclosed : SameOpen a (closeCall a' (openDot w a).1).2 :=
      (extra_readNames (extra_openDot w a) hfirst).closed
    have hagain := extra_readNames (extra_openDot w _) hsecond
    rw [← openDot_congr w hclosed] at hagain
    refine ⟨hclosed.1.trans hagain.keeps, ?_⟩
    rw [← hagain.keeps_back_iff]
    exact ⟨fun h => h.trans hclosed.1, fun h => h.trans hclosed.2⟩
  · cases h

end Reading

/-! ### Keys -/

/-- **A key** keeps the descriptors that are open, and opens no other exactly when it is quiet. -/
lemma sendKeyIn_descriptors {w : Files} {k depth : ℕ} {t u : Tty × FdTable} {c : UInt8}
    (h : sendKeyIn w k depth t c = some u) :
    Keeps t.2 u.2 ∧ (Keeps u.2 t.2 ↔ QuietKey w k depth t c) := by
  induction depth generalizing t u c with
  | zero => cases h
  | succ depth ih =>
      rw [sendKeyIn] at h
      rw [QuietKey]
      split at h
      · rename_i htab
        rw [imp_iff_right htab]
        obtain ⟨o, ho, h⟩ := Option.bind_eq_some_iff.mp h
        have hleaves := outcome_leaves ho
        rw [ho]
        cases o with
        | tooLong =>
            obtain rfl := Option.some.inj h
            exact ⟨Keeps.refl t.2, iff_of_true (Keeps.refl t.2) trivial⟩
        | noMatch b =>
            obtain rfl := Option.some.inj h
            exact ⟨hleaves.1, iff_of_true hleaves.2 trivial⟩
        | ambiguous filename n b =>
            obtain ⟨hsame, hopened⟩ := hleaves
            simp only at h ⊢
            split at h
            · rename_i hls
              obtain ⟨⟨t', b'⟩, hlist, rfl⟩ := Option.map_eq_some_iff.mp h
              obtain ⟨hkeeps, hback⟩ := ttyLsIn_descriptors hlist
              rw [← openDot_congr w hsame] at hback
              refine ⟨hsame.1.trans hkeeps, iff_of_false (fun hall => ?_) (by simp [hls])⟩
              exact absurd (hback.mp (hall.trans hsame.1)) (not_lt.mpr hopened)
            · rename_i hls
              obtain rfl := Option.some.inj h
              exact ⟨hsame.1, iff_of_true hsame.2 (by simpa using hls)⟩
        | add bytes fd b =>
            obtain ⟨r, hsend, rfl⟩ := Option.map_eq_some_iff.mp h
            obtain ⟨hkeeps, hback⟩ := run_grows (r := fun t u : Tty × FdTable => Keeps t.2 u.2)
              (fun t => Keeps.refl t.2) (fun _ _ _ => Keeps.trans) (run_iff_foldlM.mpr hsend)
              (fun _ _ _ hstep => (ih hstep).1) (fun _ _ _ hstep => (ih hstep).2)
            obtain ⟨hclose, hcloseBack⟩ := hleaves.close hkeeps
            exact ⟨hclose, hcloseBack.trans hback⟩
      · rename_i htab
        have hquiet (P : Prop) : c = TAB → P := fun h => absurd h htab
        split at h
        · cases h
        · obtain rfl := Option.some.inj h
          exact ⟨Keeps.refl t.2, iff_of_true (Keeps.refl t.2) (hquiet _)⟩

/-- One key: the files it finds, bounds for the loops and for the calls in one another, and the
character. -/
structure KeyEvent where
  files : Files
  reads : ℕ
  depth : ℕ
  c : UInt8

/-- `tty_sendchar`, in the interrupted process. -/
def keyStep (t : Tty × FdTable) (e : KeyEvent) : Option (Tty × FdTable) :=
  sendKeyIn e.files e.reads e.depth t e.c

/-- **Keys leave the descriptors alone** exactly when all of them are quiet; then the next `open`
finds what it would have found before. -/
theorem keys_leave_descriptors_iff {s z : Tty × FdTable} {es : List KeyEvent}
    (hrun : Run keyStep s es z) :
    (SameOpen s.2 z.2
        ↔ EveryStep keyStep s es fun t e => QuietKey e.files e.reads e.depth t e.c)
      ∧ (SameOpen s.2 z.2 → freeFd z.2 = freeFd s.2) := by
  obtain ⟨hkeeps, hback⟩ := run_grows (r := fun t u : Tty × FdTable => Keeps t.2 u.2)
    (fun t => Keeps.refl t.2) (fun _ _ _ => Keeps.trans) hrun
    (fun _ _ _ hstep => (sendKeyIn_descriptors hstep).1)
    (fun _ _ _ hstep => (sendKeyIn_descriptors hstep).2)
  exact ⟨(and_iff_right hkeeps).trans hback, fun hsame => hsame.symm.freeFd_eq⟩

/-- A terminal with the prompt of the shell. -/
def promptTty : Tty := (ttyWrite freshTty STDOUT (some prompt) 7).2

/-- A Tab in the directory of `.`, `abc` and `abd`. -/
def tabKey : KeyEvent := ⟨directoryOf abcAbd, 4, 2, TAB⟩

/-- One Tab on an empty line is quiet. -/
theorem keys_leave_descriptors_iff_tabKey : ∃ z, Run keyStep (promptTty, noneOpen) [tabKey] z
    ∧ (SameOpen noneOpen z.2 ↔ EveryStep keyStep (promptTty, noneOpen) [tabKey]
        fun t e => QuietKey e.files e.reads e.depth t e.c) := by
  have hsome : ([tabKey].foldlM keyStep (promptTty, noneOpen)).isSome = true := by decide +kernel
  obtain ⟨z, hrun⟩ := exists_run_of_isSome hsome
  exact ⟨z, hrun, (keys_leave_descriptors_iff hrun).1⟩

/-- **The second Tab** leaves a descriptor open. -/
theorem secondTab_leavesOpen : ∃ z, Run keyStep (promptTty, noneOpen) [tabKey, tabKey] z
    ∧ ¬ SameOpen noneOpen z.2 := by
  have hopen : ([tabKey, tabKey].foldlM keyStep (promptTty, noneOpen)).map
      (fun z => (z.2 2).fopsTable) = some (some .dir) := by decide +kernel
  obtain ⟨z, hrun, hdir⟩ := exists_run_of_map hopen
  refine ⟨z, hrun, fun hsame => ?_⟩
  have hnone : (z.2 2).fopsTable = none := (hsame.fopsTable_eq_none_iff 2).mp rfl
  rw [hdir] at hnone
  cases hnone

end CustomLinuxOs
