import CustomLinuxOs.Foundations.Run
import Mathlib.Data.List.GetD

/-!
The interrupt controller of `i8259.c`: the masks of its two chips and the chains of handlers.

A chain has sixteen slots, and a free one is null.  `register_interrupt_handler` takes the first
null slot from the beginning of the chain on and does not stop at its end;
`remove_interrupt_handler` returns from its loop in the first pass, so that it empties the first
slot whatever handler it is given, and never masks the line.

* `Pic`, `registerInterruptHandler`, `removeInterruptHandler`, `doIrq`: the driver.
* `HandlerChain`, `chainOf`: the handlers of a line, told from the calls alone.
* `HoldsChain`: the slots of a line hold its chain.
* `interruptChains`: as long as a slot is free for each handler, an interrupt runs the chain of its
  line in order, and a line is open exactly when a handler was registered for it.
-/

namespace CustomLinuxOs

/-! ### The controller -/

def MASTER_8259_PORT : ℕ := 0x20
def SLAVE_8259_PORT : ℕ := 0xA0
def PIC_SIZE : ℕ := 8
def MAX_CHAIN : ℕ := 16

/-- Lines, handlers and interrupt gates. -/
structure Pic where
  /-- the mask register of the first chip -/
  masterMask : BitVec 8
  /-- the mask register of the second chip, which is behind line 2 of the first -/
  slaveMask : BitVec 8
  /-- `i8259_handlers`, one line after the other; null is zero -/
  handlers : ℕ → UInt32
  /-- the entries of the IDT for the lines: the number of the linkage in `do_irq_table` -/
  gates : ℕ → Option ℕ
  /-- the ports to which the end of an interrupt was sent -/
  eois : List ℕ

/-- `send_eoi`. -/
def sendEoi (p : Pic) (irqNum : ℕ) : Pic :=
  { p with
    eois := p.eois ++ (if irqNum ≥ PIC_SIZE then [SLAVE_8259_PORT] else []) ++ [MASTER_8259_PORT] }

/-- `enable_irq`. -/
def enableIrq (p : Pic) (irqNum : ℕ) : Pic :=
  if irqNum < PIC_SIZE then
    { p with masterMask := p.masterMask &&& ~~~BitVec.twoPow 8 irqNum }
  else { p with slaveMask := p.slaveMask &&& ~~~BitVec.twoPow 8 (irqNum - PIC_SIZE) }

/-- `disable_irq`. -/
def disableIrq (p : Pic) (irqNum : ℕ) : Pic :=
  if irqNum < PIC_SIZE then { p with masterMask := p.masterMask ||| BitVec.twoPow 8 irqNum }
  else { p with slaveMask := p.slaveMask ||| BitVec.twoPow 8 (irqNum - PIC_SIZE) }

/-- `i8259_init`.  Both chips get the mask of the first one back. -/
def i8259Init (p : Pic) : Pic := { p with slaveMask := p.masterMask }

/-- `i8259_mask_all`. -/
def i8259MaskAll (p : Pic) : Pic := { p with masterMask := 0xFB#8, slaveMask := 0xFF#8 }

/-- The first null slot from the beginning of the chain on, within the table. -/
def nullSlot (p : Pic) (irqNum : ℕ) : Option ℕ :=
  (List.range' (MAX_CHAIN * irqNum) (MAX_CHAIN * (2 * PIC_SIZE) - MAX_CHAIN * irqNum)).find?
    fun j => p.handlers j == 0

/-- `register_interrupt_handler`; `none` if it leaves the table. -/
def registerInterruptHandler (p : Pic) (irqNum : ℕ) (handler : UInt32) : Option Pic :=
  (nullSlot p irqNum).map fun j =>
    enableIrq { sendEoi p irqNum with
      handlers := Function.update p.handlers j handler
      gates := Function.update p.gates irqNum (some irqNum) } irqNum

/-- `remove_interrupt_handler`; the loop has a pass, in which it returns. -/
def removeInterruptHandler (p : Pic) (irqNum : ℕ) (_handler : UInt32) : Pic :=
  if 0 < MAX_CHAIN then
    if p.handlers (MAX_CHAIN * irqNum) ≠ 0 then
      { p with handlers := Function.update p.handlers (MAX_CHAIN * irqNum) 0 }
    else p
  else disableIrq p irqNum

/-- `do_irq`, where `run` is what the handlers do. -/
def doIrq {σ : Type} (run : UInt32 → σ → σ) (p : Pic) (irqNum : ℕ) (s : σ) : σ × Pic :=
  ((List.range MAX_CHAIN).foldl (fun s i =>
      if p.handlers (MAX_CHAIN * irqNum + i) = 0 then s
      else run (p.handlers (MAX_CHAIN * irqNum + i)) s) s,
    sendEoi p irqNum)

/-- The state that `entry` sets up, whatever the masks were. -/
def Pic.boot (masterMask slaveMask : BitVec 8) : Pic :=
  i8259MaskAll (i8259Init ⟨masterMask, slaveMask, fun _ => 0, fun _ => none, []⟩)

/-- The calls of drivers. -/
inductive PicCall where
  | register (irqNum : ℕ) (handler : UInt32)
  | remove (irqNum : ℕ) (handler : UInt32)

/-- One call, for one of the sixteen lines and with a function that is there. -/
def picStep (p : Pic) : PicCall → Option Pic
  | .register irqNum handler =>
      if irqNum < 2 * PIC_SIZE ∧ handler ≠ 0 then registerInterruptHandler p irqNum handler
      else none
  | .remove irqNum handler =>
      if irqNum < 2 * PIC_SIZE then some (removeInterruptHandler p irqNum handler) else none

/-- The chain of the line has a free slot. -/
def HasSlot (p : Pic) : PicCall → Prop
  | .register irqNum _ => ∃ i < MAX_CHAIN, p.handlers (MAX_CHAIN * irqNum + i) = 0
  | .remove _ _ => True

instance (p : Pic) : (e : PicCall) → Decidable (HasSlot p e)
  | .register irqNum _ => inferInstanceAs
      (Decidable (∃ i < MAX_CHAIN, p.handlers (MAX_CHAIN * irqNum + i) = 0))
  | .remove _ _ => inferInstanceAs (Decidable True)

/-- An interrupt on the line comes through; one of the second chip has to pass line 2. -/
def Pic.Open (p : Pic) (n : ℕ) : Prop :=
  if n < PIC_SIZE then p.masterMask.getLsbD n = false
  else p.slaveMask.getLsbD (n - PIC_SIZE) = false ∧ p.masterMask.getLsbD 2 = false

/-! ### Chains -/

/-- The handlers of a line: the one in the first slot, if any, and the others. -/
structure HandlerChain where
  first : Option UInt32
  rest : List UInt32

/-- The handlers in the order in which they run. -/
def HandlerChain.calls (c : HandlerChain) : List UInt32 := c.first.toList ++ c.rest

/-- The slots in use, where the first may be null. -/
def HandlerChain.slots (c : HandlerChain) : List UInt32 := c.first.getD 0 :: c.rest

/-- What a call does to the chain of line `n`. -/
def HandlerChain.after (n : ℕ) (c : HandlerChain) : PicCall → HandlerChain
  | .register irqNum handler =>
      if irqNum = n then
        match c.first with
        | none => { c with first := some handler }
        | some _ => { c with rest := c.rest ++ [handler] }
      else c
  | .remove irqNum _ => if irqNum = n then { c with first := none } else c

/-- The chain of line `n` after calls. -/
def chainOf (n : ℕ) (es : List PicCall) : HandlerChain :=
  es.foldl (HandlerChain.after n) ⟨none, []⟩

/-- A handler was registered for line `n`. -/
def Registered (n : ℕ) (es : List PicCall) : Prop := ∃ handler, .register n handler ∈ es

/-- The slots of line `n` hold the chain. -/
structure HoldsChain (p : Pic) (n : ℕ) (c : HandlerChain) : Prop where
  slots : ∀ i < MAX_CHAIN, p.handlers (MAX_CHAIN * n + i) = c.slots.getD i 0
  length : c.slots.length ≤ MAX_CHAIN
  first : c.first ≠ some 0
  rest : ∀ h ∈ c.rest, h ≠ 0

section Chains

variable {p u : Pic} {n : ℕ} {c : HandlerChain}

lemma HoldsChain.congr (h : HoldsChain p n c)
    (hslots : ∀ i < MAX_CHAIN, u.handlers (MAX_CHAIN * n + i) = p.handlers (MAX_CHAIN * n + i)) :
    HoldsChain u n c :=
  ⟨fun i hi => (hslots i hi).trans (h.slots i hi), h.length, h.first, h.rest⟩

/-- The handlers that run are the slots without null. -/
lemma HoldsChain.filter_slots (h : HoldsChain p n c) : c.slots.filter (· ≠ 0) = c.calls := by
  have hrest : c.rest.filter (· ≠ 0) = c.rest :=
    List.filter_eq_self.mpr fun b hb => decide_eq_true (h.rest b hb)
  rw [HandlerChain.slots, HandlerChain.calls]
  cases hfirst : c.first with
  | none => simpa using hrest
  | some b =>
      have hb : b ≠ 0 := fun heq => h.first (by rw [hfirst, heq])
      rw [Option.getD_some, List.filter_cons_of_pos (by simpa using hb), hrest]
      rfl

/-- A list read out slot by slot. -/
lemma map_getD_range {l : List UInt32} {N : ℕ} (hl : l.length ≤ N) :
    (List.range N).map (fun i => l.getD i 0) = l ++ List.replicate (N - l.length) 0 := by
  refine List.ext_getElem (by simp; omega) fun i hi hi' => ?_
  rw [List.getElem_map, List.getElem_range]
  rcases Nat.lt_or_ge i l.length with h | h
  · rw [List.getElem_append_left h, List.getD_eq_getElem _ _ h]
  · rw [List.getElem_append_right h, List.getElem_replicate, List.getD_eq_default _ _ h]

/-- **An interrupt** runs the chain of its line. -/
lemma HoldsChain.doIrq (h : HoldsChain p n c) {σ : Type} (run : UInt32 → σ → σ) (s : σ) :
    (doIrq run p n s).1 = c.calls.foldl (fun s handler => run handler s) s := by
  let f (s : σ) (b : UInt32) : σ := if b = 0 then s else run b s
  have hnull (k : ℕ) (s : σ) : (List.replicate k (0 : UInt32)).foldl f s = s := by
    induction k with
    | zero => rfl
    | succ k ih =>
        rw [List.replicate_succ, List.foldl_cons]
        exact ih
  have hskip (l : List UInt32) (s : σ) :
      l.foldl f s = (l.filter (· ≠ 0)).foldl (fun s b => run b s) s := by
    rw [List.foldl_filter]
    congr 1
    funext s b
    by_cases hb : b = 0
    · simp [f, hb]
    · simp [f, hb]
  calc (CustomLinuxOs.doIrq run p n s).1
      = ((List.range MAX_CHAIN).map fun i => p.handlers (MAX_CHAIN * n + i)).foldl f s := by
        rw [List.foldl_map]
        rfl
    _ = ((List.range MAX_CHAIN).map fun i => c.slots.getD i 0).foldl f s := by
        rw [List.map_congr_left fun i hi => h.slots i (List.mem_range.mp hi)]
    _ = c.slots.foldl f s := by
        rw [map_getD_range h.length, List.foldl_append, hnull]
    _ = c.calls.foldl (fun s b => run b s) s := by rw [hskip, h.filter_slots]

/-- The free slot is the first one that is null. -/
lemma nullSlot_eq {k : ℕ} (hn : n < 2 * PIC_SIZE) (hk : k < MAX_CHAIN)
    (hnull : p.handlers (MAX_CHAIN * n + k) = 0)
    (hbefore : ∀ i < k, p.handlers (MAX_CHAIN * n + i) ≠ 0) :
    nullSlot p n = some (MAX_CHAIN * n + k) := by
  rw [nullSlot, List.find?_range'_eq_some]
  refine ⟨by simpa using hnull, ?_, fun j hj hjk => ?_⟩
  · rw [List.mem_range'_1]
    simp only [PIC_SIZE, MAX_CHAIN] at hn hk ⊢
    omega
  · have hne := hbefore (j - MAX_CHAIN * n) (by omega)
    rw [Nat.add_sub_cancel' hj] at hne
    simpa using hne

/-- With a null slot in its chain a line is not left. -/
lemma exists_nullSlot (hn : n < 2 * PIC_SIZE)
    (hslot : ∃ i < MAX_CHAIN, p.handlers (MAX_CHAIN * n + i) = 0) :
    ∃ k < MAX_CHAIN, nullSlot p n = some (MAX_CHAIN * n + k) := by
  have hfind := Nat.find_spec hslot
  refine ⟨Nat.find hslot, hfind.1, nullSlot_eq hn hfind.1 hfind.2 fun i hi heq => ?_⟩
  exact Nat.find_min hslot hi ⟨hi.trans hfind.1, heq⟩

/-- The slots of another line. -/
lemma line_ne {m i j : ℕ} (hi : i < MAX_CHAIN) (hj : j < MAX_CHAIN) (hmn : m ≠ n) :
    MAX_CHAIN * m + i ≠ MAX_CHAIN * n + j := by
  rw [MAX_CHAIN] at *
  omega

/-- The slot that a handler goes to. -/
def HandlerChain.free (c : HandlerChain) : ℕ := if c.first = none then 0 else c.slots.length

/-- Where the first null slot is. -/
lemma HoldsChain.nullSlot (h : HoldsChain p n c) (hn : n < 2 * PIC_SIZE)
    (hslot : ∃ i < MAX_CHAIN, p.handlers (MAX_CHAIN * n + i) = 0) :
    c.free < MAX_CHAIN ∧ nullSlot p n = some (MAX_CHAIN * n + c.free) := by
  cases hfirst : c.first with
  | none =>
      have hfree : c.free = 0 := if_pos hfirst
      have hnull : p.handlers (MAX_CHAIN * n + 0) = 0 := by
        rw [h.slots 0 (by decide), HandlerChain.slots, hfirst]
        rfl
      rw [hfree]
      exact ⟨by decide, nullSlot_eq hn (by decide) hnull fun i hi => absurd hi (Nat.not_lt_zero i)⟩
  | some b =>
      have hfree : c.free = c.slots.length := if_neg (by rw [hfirst]; simp)
      have hused (i : ℕ) (hi : i < c.slots.length) : p.handlers (MAX_CHAIN * n + i) ≠ 0 := by
        rw [h.slots i (hi.trans_le h.length), List.getD_eq_getElem _ _ hi]
        have hmem : c.slots[i] ∈ c.first.getD 0 :: c.rest := List.getElem_mem hi
        rw [hfirst, Option.getD_some] at hmem
        rcases List.mem_cons.mp hmem with heq | hmem
        · rw [heq]
          exact fun heq => h.first (by rw [hfirst, heq])
        · exact h.rest _ hmem
      obtain ⟨i, hi, hnull⟩ := hslot
      have hlength : c.slots.length < MAX_CHAIN := by
        by_contra hge
        exact hused i (hi.trans_le (Nat.le_of_not_lt hge)) hnull
      rw [hfree]
      refine ⟨hlength, nullSlot_eq hn hlength ?_ hused⟩
      rw [h.slots _ hlength, List.getD_eq_default _ _ le_rfl]

/-- **A handler** goes to the free slot of its line. -/
lemma HoldsChain.register {irqNum : ℕ} {handler : UInt32} (h : HoldsChain p n c)
    (hirq : irqNum < 2 * PIC_SIZE) (hnull : handler ≠ 0)
    (hslot : ∃ i < MAX_CHAIN, p.handlers (MAX_CHAIN * irqNum + i) = 0)
    (hu : registerInterruptHandler p irqNum handler = some u) :
    HoldsChain u n (c.after n (.register irqNum handler)) := by
  obtain ⟨j, hj, hu⟩ := Option.map_eq_some_iff.mp hu
  obtain ⟨k, hk, hline⟩ := exists_nullSlot hirq hslot
  obtain rfl := Option.some.inj (hj.symm.trans hline)
  have hhandlers (i : ℕ) : u.handlers i
      = if i = MAX_CHAIN * irqNum + k then handler else p.handlers i := by
    rw [← hu, enableIrq]
    split <;> exact Function.update_apply _ _ _ _
  rw [HandlerChain.after]
  split
  · rename_i heq
    subst heq
    obtain ⟨hfree, hslot⟩ := h.nullSlot hirq hslot
    obtain rfl : k = c.free := Nat.add_left_cancel (Option.some.inj (hj.symm.trans hslot))
    have hown (i : ℕ) (hi : i < MAX_CHAIN) : u.handlers (MAX_CHAIN * irqNum + i)
        = if i = c.free then handler else c.slots.getD i 0 := by
      simp only [hhandlers, Nat.add_left_cancel_iff, h.slots i hi]
    obtain ⟨first, rest⟩ := c
    cases first with
    | none =>
        refine ⟨fun i hi => ?_, h.length, by simpa using hnull, h.rest⟩
        rw [hown i hi]
        cases i with
        | zero => rfl
        | succ i => rfl
    | some b =>
        have hfirst : (⟨some b, rest⟩ : HandlerChain).first ≠ some 0 := h.first
        have hlast : (⟨some b, rest⟩ : HandlerChain).free = rest.length + 1 := rfl
        rw [hlast] at hfree
        refine ⟨fun i hi => ?_, ?_, hfirst, fun b hb => ?_⟩
        · rw [hown i hi, hlast]
          change _ = ((b :: rest) ++ [handler]).getD i 0
          rcases Nat.lt_trichotomy i (rest.length + 1) with hlt | heq | hgt
          · rw [if_neg hlt.ne, List.getD_append _ _ _ _ hlt]
            rfl
          · have hlength : (b :: rest).length = rest.length + 1 := rfl
            rw [if_pos heq, heq, ← hlength, List.getD_append_right _ _ _ _ le_rfl, Nat.sub_self]
            rfl
          · rw [if_neg hgt.ne', List.getD_eq_default _ _ hgt.le, List.getD_eq_default]
            simpa using hgt
        · change ((b :: rest) ++ [handler]).length ≤ MAX_CHAIN
          rw [List.length_append, List.length_singleton, List.length_cons]
          exact hfree
        · rcases List.mem_append.mp hb with hb | hb
          · exact h.rest b hb
          · rw [List.mem_singleton.mp hb]
            exact hnull
  · rename_i hne
    refine h.congr fun i hi => ?_
    exact (hhandlers _).trans (if_neg (line_ne hi hk (Ne.symm hne)))

/-- The first slot is emptied. -/
lemma HoldsChain.remove (h : HoldsChain p n c) (irqNum : ℕ) (handler : UInt32) :
    HoldsChain (removeInterruptHandler p irqNum handler) n
      (c.after n (.remove irqNum handler)) := by
  have hhandlers (i : ℕ) : (removeInterruptHandler p irqNum handler).handlers i
      = if i = MAX_CHAIN * irqNum then 0 else p.handlers i := by
    rw [removeInterruptHandler, if_pos (by decide)]
    split
    · exact Function.update_apply _ _ _ _
    · rename_i hzero
      split
      · rename_i heq
        rw [heq]
        exact not_not.mp hzero
      · rfl
  rw [HandlerChain.after]
  split
  · rename_i heq
    subst heq
    refine ⟨fun i hi => ?_, h.length, by simp, h.rest⟩
    rw [hhandlers]
    cases i with
    | zero => exact if_pos rfl
    | succ i =>
        rw [if_neg (by omega), h.slots _ hi]
        rfl
  · rename_i hne
    refine h.congr fun i hi => ?_
    rw [hhandlers, if_neg]
    exact fun heq => line_ne hi (by decide : 0 < MAX_CHAIN) (Ne.symm hne) heq

end Chains

/-! ### Lines -/

/-- The line is open exactly when it has a gate or is the line of the second chip; the line of the
second chip is open. -/
structure LinesOpen (p : Pic) (registered : ℕ → Prop) : Prop where
  gates : ∀ n < 2 * PIC_SIZE, p.gates n = some n ↔ registered n
  master : ∀ n < PIC_SIZE, p.masterMask.getLsbD n = false ↔ n = 2 ∨ registered n
  slave : ∀ n < PIC_SIZE, p.slaveMask.getLsbD n = false ↔ registered (n + PIC_SIZE)

/-- Clearing one bit of a mask. -/
lemma getLsbD_unmask (mask : BitVec 8) {n : ℕ} (hn : n < PIC_SIZE) (i : ℕ) :
    (mask &&& ~~~BitVec.twoPow 8 i).getLsbD n = false ↔ n = i ∨ mask.getLsbD n = false := by
  have hlt : n < 8 := hn
  rw [BitVec.getLsbD_and, BitVec.getLsbD_not, BitVec.getLsbD_twoPow]
  rcases eq_or_ne n i with rfl | hne
  · simp [hlt]
  · simp [hlt, hne, Ne.symm hne]

section Lines

variable {p u : Pic} {registered registered' : ℕ → Prop}

lemma linesOpen_boot (masterMask slaveMask : BitVec 8) :
    LinesOpen (Pic.boot masterMask slaveMask) fun _ => False where
  gates n _ := by simp [Pic.boot, i8259MaskAll, i8259Init]
  master := by
    change ∀ n < 8, (0xFB#8).getLsbD n = false ↔ n = 2 ∨ False
    decide
  slave := by
    change ∀ n < 8, (0xFF#8).getLsbD n = false ↔ False
    decide

/-- **Registering** opens the line. -/
lemma LinesOpen.register (h : LinesOpen p registered) {irqNum : ℕ} {handler : UInt32}
    (hirq : irqNum < 2 * PIC_SIZE) (hu : registerInterruptHandler p irqNum handler = some u)
    (hregistered : ∀ n, registered' n ↔ n = irqNum ∨ registered n) : LinesOpen u registered' := by
  obtain ⟨j, -, rfl⟩ := Option.map_eq_some_iff.mp hu
  have hgates (q : Pic) : (enableIrq q irqNum).gates = q.gates := by
    rw [enableIrq]
    split <;> rfl
  refine ⟨fun n hn => ?_, fun n hn => ?_, fun n hn => ?_⟩
  · rw [hregistered, hgates, ← h.gates n hn]
    rcases eq_or_ne n irqNum with rfl | hne
    · simp
    · simp [hne]
  · rw [hregistered, enableIrq]
    split
    · simp only [getLsbD_unmask _ hn, sendEoi, h.master n hn]
      tauto
    · rename_i hge
      have hne : n ≠ irqNum := by omega
      simp only [sendEoi, h.master n hn, hne, false_or]
  · rw [hregistered, enableIrq]
    split
    · rename_i hlt
      have hne : n + PIC_SIZE ≠ irqNum := by omega
      simp only [sendEoi, h.slave n hn, hne, false_or]
    · simp only [getLsbD_unmask _ hn, sendEoi, h.slave n hn]
      have heq : n = irqNum - PIC_SIZE ↔ n + PIC_SIZE = irqNum := by omega
      rw [heq]

lemma LinesOpen.remove (h : LinesOpen p registered) (irqNum : ℕ) (handler : UInt32) :
    LinesOpen (removeInterruptHandler p irqNum handler) registered := by
  rw [removeInterruptHandler, if_pos (by decide)]
  split
  · exact ⟨h.gates, h.master, h.slave⟩
  · exact h

/-- What an interrupt needs to come through. -/
lemma LinesOpen.open_iff (h : LinesOpen p registered) {n : ℕ} (hn : n < 2 * PIC_SIZE) :
    p.Open n ↔ n = 2 ∨ registered n := by
  rw [Pic.Open]
  split
  · exact h.master n ‹_›
  · rename_i hge
    have hslave := h.slave (n - PIC_SIZE) (by omega)
    rw [Nat.sub_add_cancel (by omega)] at hslave
    have hcascade : p.masterMask.getLsbD 2 = false := (h.master 2 (by decide)).mpr (.inl rfl)
    have hne : n ≠ 2 := by
      rw [PIC_SIZE] at hge
      omega
    rw [hslave, and_iff_left hcascade]
    simp only [hne, false_or]

end Lines

/-! ### Runs -/

/-- **One call.** -/
lemma picStep_holds {p u : Pic} {es : List PicCall} {e : PicCall}
    (h : (∀ n, HoldsChain p n (chainOf n es)) ∧ LinesOpen p (Registered · es))
    (hslot : HasSlot p e) (hu : picStep p e = some u) :
    (∀ n, HoldsChain u n (chainOf n (es ++ [e]))) ∧ LinesOpen u (Registered · (es ++ [e])) := by
  obtain ⟨hchains, hlines⟩ := h
  have hchain (n : ℕ) : chainOf n (es ++ [e]) = (chainOf n es).after n e := by
    rw [chainOf, List.foldl_append]
    rfl
  cases e with
  | register irqNum handler =>
      rw [picStep] at hu
      split at hu
      · rename_i hvalid
        refine ⟨fun n => ?_, hlines.register hvalid.1 hu fun n => ?_⟩
        · rw [hchain]
          exact (hchains n).register hvalid.1 hvalid.2 hslot hu
        · simp only [Registered, List.mem_append, List.mem_singleton, PicCall.register.injEq,
            exists_or]
          rw [or_comm]
          refine or_congr ⟨?_, fun heq => ⟨handler, heq, rfl⟩⟩ Iff.rfl
          rintro ⟨b, heq, -⟩
          exact heq
      · cases hu
  | remove irqNum handler =>
      rw [picStep] at hu
      split at hu
      · cases hu
        refine ⟨fun n => ?_, ?_⟩
        · rw [hchain]
          exact (hchains n).remove irqNum handler
        · have hsame : (Registered · (es ++ [.remove irqNum handler])) = (Registered · es) := by
            funext n
            simp [Registered]
          rw [hsame]
          exact hlines.remove irqNum handler
      · cases hu

lemma holdsChain_boot (masterMask slaveMask : BitVec 8) (n : ℕ) :
    HoldsChain (Pic.boot masterMask slaveMask) n (chainOf n []) := by
  refine ⟨fun i _ => ?_, ?_, Option.some_ne_none 0 |>.symm, fun h hh => absurd hh List.not_mem_nil⟩
  · cases i <;> rfl
  · change 1 ≤ MAX_CHAIN
    decide

lemma picRun_holds {masterMask slaveMask : BitVec 8} {es : List PicCall} {z : Pic}
    (hrun : Run picStep (Pic.boot masterMask slaveMask) es z)
    (hslots : EveryStep picStep (Pic.boot masterMask slaveMask) es HasSlot) :
    (∀ n, HoldsChain z n (chainOf n es)) ∧ LinesOpen z (Registered · es) := by
  induction hrun with
  | nil =>
      have hnone : (Registered · []) = fun _ => False := by
        funext n
        simp [Registered]
      rw [hnone]
      exact ⟨holdsChain_boot masterMask slaveMask, linesOpen_boot masterMask slaveMask⟩
  | snoc hrun hstep ih =>
      obtain ⟨hslots, hslot⟩ := (everyStep_snoc hrun).mp hslots
      exact picStep_holds (ih hslots) hslot hstep

/-- **Interrupt chains.**  After `entry` has set up the controller, let handlers be registered and
removed in any order, each registered one with a free slot in its chain.  An interrupt runs the
handlers of its own line in the order of the chain, each once; a line has a gate exactly when a
handler was registered for it, and interrupts come through on these lines and on the line between
the two chips. -/
theorem interruptChains (masterMask slaveMask : BitVec 8) {es : List PicCall} {z : Pic}
    (hrun : Run picStep (Pic.boot masterMask slaveMask) es z)
    (hslots : EveryStep picStep (Pic.boot masterMask slaveMask) es HasSlot) {n : ℕ}
    (hn : n < 2 * PIC_SIZE) :
    (∀ {σ : Type} (run : UInt32 → σ → σ) (s : σ),
        (doIrq run z n s).1 = (chainOf n es).calls.foldl (fun s handler => run handler s) s)
      ∧ (z.gates n = some n ↔ Registered n es) ∧ (z.Open n ↔ n = 2 ∨ Registered n es) := by
  obtain ⟨hchains, hlines⟩ := picRun_holds hrun hslots
  exact ⟨fun run s => (hchains n).doIrq run s, hlines.gates n hn, hlines.open_iff hn⟩

/-- Keyboard, clock, network card on line 11, and the scheduler on the line of the clock. -/
def bootHandlers : List PicCall :=
  [.register 1 0x1000, .register 8 0x2000, .register 11 0x3000, .register 8 0x4000]

/-- A tick of the clock runs the handler of the clock and then the scheduler. -/
theorem interruptChains_boot :
    ∃ z, Run picStep (Pic.boot 0 0) bootHandlers z
      ∧ (doIrq (fun handler called => called ++ [handler]) z 8 []).1 = [0x2000, 0x4000] := by
  have hsome : (bootHandlers.foldlM (guarded picStep HasSlot) (Pic.boot 0 0)).isSome = true := by
    decide +kernel
  obtain ⟨z, hrun⟩ := exists_run_of_isSome hsome
  obtain ⟨hrun, hslots⟩ := hrun.of_guarded
  exact ⟨z, hrun, (interruptChains 0 0 hrun hslots (by decide : 8 < 2 * PIC_SIZE)).1 _ []⟩

end CustomLinuxOs
