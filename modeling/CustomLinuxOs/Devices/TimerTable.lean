import Mathlib.Tactic

/-!
The table of timers of `rtc.c`, for callbacks of any kind.

* `CallbackHandler`, `HandlerTable`: the table, and the state that callbacks work on.
* `Registration`, `register`: `rtc_register_handler`, which a callback may call.
* `handlerLoop`, `handlerTick`: `rtc_handler`, with fuel for the loop, and the calls it makes.
* `entries_register`, `entries_remove`: the table as a list.
* `handlerTick_fires`: one tick calls what has expired, and keeps the rest and what is new.

A callback returns; that it may not is the subject of `TimerInterrupt`.  The array has no end here,
so that a table that outgrows its 256 entries is not modelled.
-/

namespace CustomLinuxOs

/-- `handler_t`. -/
structure CallbackHandler (F : Type*) where
  function : F
  time : UInt32
  arg : UInt32

/-- The arguments of a call of `rtc_register_handler`. -/
structure Registration (F : Type*) where
  function : F
  arg : UInt32
  wait : UInt32

/-- `counter`, `handlers` and `num_handlers`, and what the callbacks work on. -/
structure HandlerTable (F σ : Type*) where
  counter : UInt32
  handlers : ℕ → CallbackHandler F
  numHandlers : ℕ
  world : σ

/-- One call of a callback: the entry, and the entries it has registered. -/
structure HandlerCall (F : Type*) where
  handler : CallbackHandler F
  registered : List (CallbackHandler F)

variable {F σ : Type*}

/-- The ticks that `rtc_wait` adds to the counter. -/
def waitTicks (durationMs : UInt32) : UInt32 := (durationMs * 1024) / 1000

/-- The entry that `rtc_register_handler` makes. -/
def Registration.handler (r : Registration F) (counter : UInt32) : CallbackHandler F where
  function := r.function
  time := counter + waitTicks r.wait
  arg := r.arg

namespace HandlerTable

/-- `rtc_register_handler`. -/
def register (s : HandlerTable F σ) (r : Registration F) : HandlerTable F σ :=
  { s with
    numHandlers := s.numHandlers + 1
    handlers := Function.update s.handlers s.numHandlers (r.handler s.counter) }

/-- `handlers[i] = handlers[--num_handlers]`. -/
def remove (s : HandlerTable F σ) (i : ℕ) : HandlerTable F σ :=
  { s with
    numHandlers := s.numHandlers - 1
    handlers := Function.update s.handlers i (s.handlers (s.numHandlers - 1)) }

/-- The entries of the table. -/
def entries (s : HandlerTable F σ) : List (CallbackHandler F) :=
  (List.range s.numHandlers).map s.handlers

end HandlerTable

section Handler

-- what a callback does: the new state, and the calls of `rtc_register_handler` it makes
variable (call : F → UInt32 → UInt32 → σ → σ × List (Registration F))

/-- Calling `handlers[i].function(handlers[i].arg)`. -/
def callHandler (s : HandlerTable F σ) (h : CallbackHandler F) :
    HandlerCall F × HandlerTable F σ :=
  let r := call h.function h.arg s.counter s.world
  (⟨h, r.2.map fun reg => reg.handler s.counter⟩,
    r.2.foldl HandlerTable.register { s with world := r.1 })

/-- The loop of `rtc_handler` from entry `i` on: an entry that has expired is called and removed,
and its place is looked at again. -/
def handlerLoop : ℕ → ℕ → HandlerTable F σ → Option (List (HandlerCall F) × HandlerTable F σ)
  | 0, _, _ => none
  | k + 1, i, s =>
      if i < s.numHandlers then
        if (s.handlers i).time < s.counter then
          let r := callHandler call s (s.handlers i)
          (handlerLoop k i (r.2.remove i)).map fun z => (r.1 :: z.1, z.2)
        else handlerLoop k (i + 1) s
      else some ([], s)

/-- `rtc_handler`. -/
def handlerTick (fuel : ℕ) (s : HandlerTable F σ) :
    Option (List (HandlerCall F) × HandlerTable F σ) :=
  handlerLoop call fuel 0 { s with counter := s.counter + 1 }

end Handler

/-! ### The table as a list -/

namespace HandlerTable

/-- Changing one entry of the array. -/
lemma map_range_update (f : ℕ → CallbackHandler F) (m i : ℕ) (h : CallbackHandler F) :
    (List.range m).map (Function.update f i h) = ((List.range m).map f).set i h := by
  refine List.ext_getElem (by simp) fun j _ _ => ?_
  rw [List.getElem_map, List.getElem_range, List.getElem_set, Function.update_apply,
    List.getElem_map, List.getElem_range]
  exact if_congr eq_comm rfl rfl

lemma entries_register (s : HandlerTable F σ) (r : Registration F) :
    (s.register r).entries = s.entries ++ [r.handler s.counter] := by
  have hkept : ((List.range s.numHandlers).map s.handlers).set s.numHandlers
      (r.handler s.counter) = (List.range s.numHandlers).map s.handlers :=
    List.set_eq_of_length_le (by simp)
  simp only [entries, register, List.range_succ, List.map_append, List.map_cons, List.map_nil,
    Function.update_self, map_range_update, hkept]

lemma entries_registers (s : HandlerTable F σ) (rs : List (Registration F)) :
    (rs.foldl register s).counter = s.counter
      ∧ (rs.foldl register s).entries
        = s.entries ++ rs.map fun r => r.handler s.counter := by
  induction rs generalizing s with
  | nil => exact ⟨rfl, (List.append_nil _).symm⟩
  | cons r rs ih =>
      obtain ⟨hcounter, hentries⟩ := ih (s.register r)
      refine ⟨hcounter, ?_⟩
      rw [List.foldl_cons, hentries, entries_register, List.append_assoc]
      rfl

/-- The entry at an index. -/
lemma handlers_of_entries {s : HandlerTable F σ} {pre suf : List (CallbackHandler F)}
    {h : CallbackHandler F} (hs : s.entries = pre ++ h :: suf) :
    pre.length < s.numHandlers ∧ s.handlers pre.length = h := by
  have hlength := congrArg List.length hs
  simp only [entries, List.length_map, List.length_range, List.length_append,
    List.length_cons] at hlength
  have hlt : pre.length < s.numHandlers := by omega
  have hget := congrArg (·[pre.length]?) hs
  simp only [entries, List.getElem?_map, List.getElem?_range hlt, Option.map_some,
    List.getElem?_append_right le_rfl, Nat.sub_self, List.getElem?_cons_zero] at hget
  exact ⟨hlt, Option.some.inj hget⟩

/-- The last entry goes to the place of the one that is removed. -/
lemma entries_remove_eq {s : HandlerTable F σ} {m : ℕ} (hm : s.numHandlers = m + 1) (i : ℕ) :
    (s.remove i).entries = ((List.range m).map s.handlers).set i (s.handlers m) := by
  simp only [entries, remove, hm, Nat.add_sub_cancel, map_range_update]

/-- **Removing an entry** leaves those before it in their places, and those behind it in another
order. -/
lemma entries_remove {s : HandlerTable F σ} {pre suf : List (CallbackHandler F)}
    {h : CallbackHandler F} (hs : s.entries = pre ++ h :: suf) :
    ∃ suf', suf'.Perm suf ∧ (s.remove pre.length).entries = pre ++ suf' := by
  obtain ⟨m, hm⟩ : ∃ m, s.numHandlers = m + 1 := by
    have hlength := congrArg List.length hs
    simp only [entries, List.length_map, List.length_range, List.length_append,
      List.length_cons] at hlength
    exact ⟨pre.length + suf.length, hlength⟩
  have hremove := entries_remove_eq hm pre.length
  rw [entries, hm, List.range_succ, List.map_append] at hs
  rcases List.eq_nil_or_concat suf with rfl | ⟨init, last, rfl⟩
  · obtain ⟨hfront, -⟩ := List.append_inj' hs rfl
    refine ⟨[], List.Perm.refl _, ?_⟩
    rw [hremove, hfront, List.set_eq_of_length_le le_rfl, List.append_nil]
  · rw [List.concat_eq_append] at hs ⊢
    rw [← List.cons_append, ← List.append_assoc] at hs
    obtain ⟨hfront, hlast⟩ := List.append_inj' hs rfl
    refine ⟨last :: init, (List.perm_append_singleton last init).symm, ?_⟩
    obtain rfl : s.handlers m = last := by simpa using hlast
    rw [hremove, hfront, List.set_append_right _ _ le_rfl, Nat.sub_self, List.set_cons_zero]

end HandlerTable

/-! ### One tick -/

/-- The entry has expired. -/
def CallbackHandler.expired (counter : UInt32) (h : CallbackHandler F) : Bool := h.time < counter

section Tick

variable {call : F → UInt32 → UInt32 → σ → σ × List (Registration F)}

/-- The times that callbacks register do not wrap around. -/
def NoWrap (call : F → UInt32 → UInt32 → σ → σ × List (Registration F)) (counter : UInt32) :
    Prop :=
  ∀ f arg w, ∀ r ∈ (call f arg counter w).2,
    counter.toNat + (waitTicks r.wait).toNat < 2 ^ 32

/-- A new entry has not expired. -/
lemma not_expired_of_noWrap {counter : UInt32} {r : Registration F}
    (h : counter.toNat + (waitTicks r.wait).toNat < 2 ^ 32) :
    (r.handler counter).expired counter = false := by
  have hsum : (counter + waitTicks r.wait).toNat
      = counter.toNat + (waitTicks r.wait).toNat := by
    rw [UInt32.toNat_add, Nat.mod_eq_of_lt h]
  rw [CallbackHandler.expired, decide_eq_false_iff_not, UInt32.lt_iff_toNat_lt,
    Registration.handler,
    hsum]
  omega

/-- **A call and the removal** of its entry: what was behind it and what is new is left, in some
order, and no more of it has expired. -/
lemma callHandler_spec {s : HandlerTable F σ} (hwrap : NoWrap call s.counter)
    {pre suf : List (CallbackHandler F)} {h : CallbackHandler F}
    (hs : s.entries = pre ++ h :: suf) :
    let r := callHandler call s h
    (r.2.remove pre.length).counter = s.counter ∧ r.1.handler = h
      ∧ (∀ g ∈ r.1.registered, g.expired s.counter = false)
      ∧ ∃ suf', suf'.Perm (suf ++ r.1.registered)
        ∧ (r.2.remove pre.length).entries = pre ++ suf' := by
  intro r
  obtain ⟨hcounter, hentries⟩ := HandlerTable.entries_registers
    { s with world := (call h.function h.arg s.counter s.world).1 }
    (call h.function h.arg s.counter s.world).2
  have hcalled : r.2.entries = pre ++ h :: (suf ++ r.1.registered) := by
    have hsame : HandlerTable.entries
        { s with world := (call h.function h.arg s.counter s.world).1 } = s.entries := rfl
    rw [hsame, hs] at hentries
    rw [← List.cons_append, ← List.append_assoc]
    exact hentries
  refine ⟨hcounter, rfl, fun g hg => ?_, HandlerTable.entries_remove hcalled⟩
  obtain ⟨reg, hreg, rfl⟩ := List.mem_map.mp hg
  exact not_expired_of_noWrap (hwrap _ _ _ reg hreg)

/-- What has expired, and what has not, behind an entry that has been called. -/
lemma filter_expired {counter : UInt32} {suf suf' fresh : List (CallbackHandler F)}
    (hperm : suf'.Perm (suf ++ fresh)) (hfresh : ∀ g ∈ fresh, g.expired counter = false) :
    (suf'.filter (CallbackHandler.expired counter)).Perm
        (suf.filter (CallbackHandler.expired counter))
      ∧ (suf'.filter fun g => ! g.expired counter).Perm
        (suf.filter (fun g => ! g.expired counter) ++ fresh) := by
  have hnone : fresh.filter (CallbackHandler.expired counter) = [] :=
    List.filter_eq_nil_iff.mpr fun g hg => by rw [hfresh g hg]; exact Bool.false_ne_true
  have hall : fresh.filter (fun g => ! g.expired counter) = fresh :=
    List.filter_eq_self.mpr fun g hg => by rw [hfresh g hg]; rfl
  have hexp := hperm.filter (CallbackHandler.expired counter)
  have hkeep := hperm.filter fun g => ! g.expired counter
  rw [List.filter_append, hnone, List.append_nil] at hexp
  rw [List.filter_append, hall] at hkeep
  exact ⟨hexp, hkeep⟩

/-- **The loop** from an entry on.  The outer induction is on the entries behind it that have
expired, the inner one on all of them: a call takes one away of the former, but may add to the
latter. -/
lemma handlerLoop_fires (n : ℕ) {s : HandlerTable F σ} (hwrap : NoWrap call s.counter)
    {pre suf : List (CallbackHandler F)} (hs : s.entries = pre ++ suf)
    (hn : suf.countP (CallbackHandler.expired s.counter) = n) :
    ∃ calls t m, (∀ fuel ≥ m, handlerLoop call fuel pre.length s = some (calls, t))
      ∧ t.counter = s.counter
      ∧ (calls.map HandlerCall.handler).Perm (suf.filter (CallbackHandler.expired s.counter))
      ∧ t.entries.Perm (pre ++ suf.filter (fun h => ! h.expired s.counter)
        ++ calls.flatMap HandlerCall.registered) := by
  induction n using Nat.strong_induction_on generalizing s pre suf with
  | _ n ih =>
    induction suf generalizing pre with
    | nil =>
        have hend : ¬ pre.length < s.numHandlers := by
          have hlength := congrArg List.length hs
          simp only [HandlerTable.entries, List.length_map, List.length_range,
            List.append_nil] at hlength
          omega
        refine ⟨[], s, 1, fun fuel hfuel => ?_, rfl, List.Perm.refl _, ?_⟩
        · obtain ⟨k, rfl⟩ := Nat.exists_eq_add_of_le' hfuel
          rw [handlerLoop, if_neg hend]
        · rw [hs]
          simp
    | cons h suf ihs =>
        obtain ⟨hlt, hget⟩ := HandlerTable.handlers_of_entries hs
        by_cases hexpired : h.expired s.counter = true
        · -- the entry is called, and the loop stays at its index
          rw [List.countP_cons_of_pos hexpired] at hn
          obtain ⟨hcounter, hhandler, hfresh, suf', hperm, hentries⟩ := callHandler_spec hwrap hs
          set r := callHandler call s h with hr
          obtain ⟨hexp, hkeep⟩ := filter_expired hperm hfresh
          have hcount : suf'.countP (CallbackHandler.expired s.counter) < n := by
            have hlength := hexp.length_eq
            rw [← List.countP_eq_length_filter, ← List.countP_eq_length_filter] at hlength
            omega
          obtain ⟨calls, t, m, hloop, htcounter, hcalls, hrest⟩ := ih _ hcount
            (by rw [hcounter]; exact hwrap) hentries (by rw [hcounter])
          rw [hcounter] at htcounter hcalls hrest
          refine ⟨r.1 :: calls, t, m + 1, fun fuel hfuel => ?_, htcounter, ?_, ?_⟩
          · obtain ⟨k, rfl⟩ := Nat.exists_eq_add_of_le' (Nat.one_le_of_lt hfuel)
            have hdue : (s.handlers pre.length).time < s.counter := by
              rw [hget]
              exact of_decide_eq_true hexpired
            rw [handlerLoop, if_pos hlt, if_pos hdue, hget]
            simp only [← hr, hloop k (by omega), Option.map_some]
          · rw [List.map_cons, hhandler, List.filter_cons_of_pos hexpired]
            exact (hcalls.trans hexp).cons h
          · have hskip : (h :: suf).filter (fun g => ! g.expired s.counter)
                = suf.filter fun g => ! g.expired s.counter :=
              List.filter_cons_of_neg (by rw [hexpired]; exact Bool.false_ne_true)
            rw [hskip, List.flatMap_cons]
            have hmove := (hkeep.append_left pre).append_right
              (calls.flatMap HandlerCall.registered)
            simp only [List.append_assoc] at hrest hmove ⊢
            exact hrest.trans hmove
        · -- the loop goes on to the next index
          rw [List.countP_cons_of_neg hexpired] at hn
          have hnext : s.entries = (pre ++ [h]) ++ suf := by
            rw [hs, List.append_assoc]
            rfl
          obtain ⟨calls, t, m, hloop, htcounter, hcalls, hrest⟩ := ihs hnext hn
          rw [List.length_append, List.length_singleton] at hloop
          refine ⟨calls, t, m + 1, fun fuel hfuel => ?_, htcounter, ?_, ?_⟩
          · obtain ⟨k, rfl⟩ := Nat.exists_eq_add_of_le' (Nat.one_le_of_lt hfuel)
            have hdue : ¬ (s.handlers pre.length).time < s.counter := by
              rw [hget]
              exact fun hlt => hexpired (decide_eq_true hlt)
            rw [handlerLoop, if_pos hlt, if_neg hdue, hloop k (by omega)]
          · rwa [List.filter_cons_of_neg hexpired]
          · have hhold : (h :: suf).filter (fun g => ! g.expired s.counter)
                = h :: suf.filter fun g => ! g.expired s.counter :=
              List.filter_cons_of_pos (by simp [hexpired])
            rw [hhold]
            rwa [List.append_assoc pre [h]] at hrest

/-- More fuel changes nothing. -/
lemma handlerLoop_mono {n m i : ℕ} {s : HandlerTable F σ}
    {z : List (HandlerCall F) × HandlerTable F σ} (h : handlerLoop call n i s = some z)
    (hnm : n ≤ m) : handlerLoop call m i s = some z := by
  induction n generalizing m i s z with
  | zero => cases h
  | succ n ih =>
      obtain ⟨m, rfl⟩ := Nat.exists_eq_add_of_le' (Nat.one_le_of_lt hnm)
      have hle : n ≤ m := Nat.le_of_succ_le_succ hnm
      rw [handlerLoop] at h ⊢
      split_ifs at h ⊢ with hlt hdue
      · obtain ⟨w, hw, hz⟩ := Option.map_eq_some_iff.mp h
        simp only [ih hw hle, Option.map_some, hz]
      · exact ih h hle
      · exact h

/-- **One tick.**  For every table and any callbacks whose new entries do not wrap around the
counter, `rtc_handler` returns.  It has called exactly the entries whose time is before the counter,
each once, and the table holds the other entries and those that the callbacks have registered. -/
theorem handlerTick_fires (s : HandlerTable F σ) (hwrap : NoWrap call (s.counter + 1)) :
    ∃ calls t m, (∀ fuel ≥ m, handlerTick call fuel s = some (calls, t))
      ∧ t.counter = s.counter + 1
      ∧ (calls.map HandlerCall.handler).Perm
        (s.entries.filter fun h => h.time < s.counter + 1)
      ∧ t.entries.Perm (s.entries.filter (fun h => ! decide (h.time < s.counter + 1))
        ++ calls.flatMap HandlerCall.registered) := by
  have hentries : HandlerTable.entries { s with counter := s.counter + 1 } = [] ++ s.entries := rfl
  exact handlerLoop_fires _ hwrap hentries rfl

/-- A table with an entry that has expired and one that has not. -/
def twoTimers : HandlerTable Unit ℕ where
  counter := 5
  handlers i := ⟨(), if i = 0 then 3 else 9, i.toUInt32⟩
  numHandlers := 2
  world := 0

/-- A callback that counts its calls and registers itself for a second later. -/
def rearm (_ : Unit) (arg _ : UInt32) (n : ℕ) : ℕ × List (Registration Unit) :=
  (n + 1, [⟨(), arg, 1000⟩])

/-- The first of the two is called, and there are two again. -/
theorem handlerTick_fires_twoTimers : ∃ calls t m,
    (∀ fuel ≥ m, handlerTick rearm fuel twoTimers = some (calls, t))
      ∧ (calls.map HandlerCall.handler).Perm [⟨(), 3, 0⟩] := by
  have hwrap : NoWrap rearm (twoTimers.counter + 1) := by
    intro f arg n r hr
    obtain rfl : r = ⟨(), arg, 1000⟩ := List.mem_singleton.mp hr
    exact (by decide : (6 : UInt32).toNat + (waitTicks 1000).toNat < 2 ^ 32)
  obtain ⟨calls, t, m, hloop, -, hcalls, -⟩ := handlerTick_fires twoTimers hwrap
  exact ⟨calls, t, m, hloop, hcalls⟩

end Tick

end CustomLinuxOs
