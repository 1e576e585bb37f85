import CustomLinuxOs.Foundations.Memory
import CustomLinuxOs.Process.Kernel
import CustomLinuxOs.Programs.Mv

/-!
The command line of `execute`: its three copies, and `getargs` in the new process.

* `skipSpaces`, `filenameStores`, `strcpyStores`: the loops of `execute` and of `strcpy`, with the
  index and the byte of every store.  `commandStores` are the stores to `filename`, `save_command`
  and the command of the new PCB.
* `commandSpaces`, `commandText`, `firstWord`: the spaces before the first word, what follows them,
  and the first word.
* `commandStores_eq`: what is stored where.  The loop over the first word counts from the start of
  the string, so the spaces before the word take room from it.
* `executeInBounds_iff`: exactly when the three copies stay in their arrays.
* `getargsInto_getargs`: `getargs` in memory, and as the function on strings that the programs call.
* `splitsCommand_iff`: exactly when `execute` looks up the first word and `getargs` gives the rest.
-/

namespace CustomLinuxOs

/-! ### The loops -/

/-- `for (; s[i] == ' '; i++)`.  The first number bounds the passes. -/
def skipSpaces (s : ℕ → UInt8) : ℕ → ℕ → ℕ
  | 0, i => i
  | k + 1, i => if s i = SPACE then skipSpaces s k (i + 1) else i

/-- The stores to `filename` in `execute`: the loop over the first word, from `i` on, and the
terminator after it. -/
def filenameStores (command : ℕ → UInt8) (b : ℕ) : ℕ → ℕ → List (ℕ × UInt8)
  | 0, i => [(i - b, 0)]
  | k + 1, i =>
      if command i ≠ 0 ∧ command i ≠ SPACE ∧ i < FN_BUF_SIZE then
        (i - b, command i) :: filenameStores command b k (i + 1)
      else [(i - b, 0)]

/-- The stores of `strcpy`, from index `i` on. -/
def strcpyStores (src : ℕ → UInt8) : ℕ → ℕ → List (ℕ × UInt8)
  | 0, i => [(i, 0)]
  | k + 1, i => if src i ≠ 0 then (i, src i) :: strcpyStores src k (i + 1) else [(i, 0)]

/-- The size of `save_command`. -/
def SAVE_COMMAND_SIZE : ℕ := 129

/-- The stores of `execute` to `filename`, to `save_command` and to the command of the new PCB. -/
structure CommandStores where
  filename : List (ℕ × UInt8)
  saveCommand : List (ℕ × UInt8)
  pcbCommand : List (ℕ × UInt8)

/-- The copies of `execute`.  `stale` is what lies in `save_command` before. -/
def commandStores (command : CString) (stale : ℕ → UInt8) : CommandStores :=
  let b := skipSpaces command.byte command.length 0
  let saveCommand := strcpyStores (fun i => command.byte (b + i)) command.length 0
  { filename := filenameStores command.byte b FN_BUF_SIZE b
    saveCommand := saveCommand
    pcbCommand := strcpyStores (applyStores stale saveCommand) command.length 0 }

/-! ### What they store -/

/-- The number of spaces before the first word. -/
def commandSpaces (command : CString) : ℕ := (command.val.takeWhile (· == SPACE)).length

/-- The command from its first word on. -/
def commandText (command : CString) : List UInt8 := command.val.dropWhile (· == SPACE)

/-- The first word. -/
def firstWord (command : CString) : List UInt8 := (commandText command).takeWhile (· != SPACE)

lemma stringAt_byte (command : CString) : StringAt command.byte 0 command.val := by
  refine ⟨command.prop, fun k _ => ?_⟩
  rw [Nat.zero_add]
  rfl

lemma skipSpaces_eq {s : ℕ → UInt8} {i k : ℕ} {l : List UInt8} (h : StringAt s i l)
    (hk : l.length ≤ k) : skipSpaces s k i = i + (l.takeWhile (· == SPACE)).length := by
  induction l generalizing i k with
  | nil =>
      have hend : s i ≠ SPACE := by
        rw [StringAt.nil_iff.mp h]
        decide
      cases k with
      | zero => rfl
      | succ k => exact if_neg hend
  | cons c l ih =>
      obtain ⟨-, hhead, htail⟩ := StringAt.cons_iff.mp h
      cases k with
      | zero => exact absurd hk (Nat.not_succ_le_zero _)
      | succ k =>
          rw [skipSpaces, hhead, List.takeWhile_cons]
          by_cases hc : c = SPACE
          · rw [if_pos hc, if_pos (beq_iff_eq.mpr hc), ih htail (Nat.succ_le_succ_iff.mp hk),
              List.length_cons]
            omega
          · rw [if_neg hc, if_neg (mt beq_iff_eq.mp hc)]
            rfl

/-- **`strcpy`** stores the string and its terminator. -/
lemma strcpyStores_eq {src : ℕ → UInt8} {i k : ℕ} {l : List UInt8} (h : StringAt src i l)
    (hk : l.length ≤ k) : strcpyStores src k i = storesFrom i (l ++ [0]) := by
  induction l generalizing i k with
  | nil =>
      cases k with
      | zero => rfl
      | succ k => exact if_neg (not_not.mpr (StringAt.nil_iff.mp h))
  | cons c l ih =>
      obtain ⟨hc, hhead, htail⟩ := StringAt.cons_iff.mp h
      cases k with
      | zero => exact absurd hk (Nat.not_succ_le_zero _)
      | succ k =>
          rw [strcpyStores, hhead, if_pos hc, ih htail (Nat.succ_le_succ_iff.mp hk)]
          rfl

/-- **The loop over the first word** stores as much of it as fits below the bound of the index,
which is one of the whole string, and a terminator. -/
lemma filenameStores_eq {command : ℕ → UInt8} {b i k : ℕ} {l : List UInt8}
    (h : StringAt command i l) (hb : b ≤ i) (hk : FN_BUF_SIZE ≤ i + k) :
    filenameStores command b k i
      = storesFrom (i - b) ((l.takeWhile (· != SPACE)).take (FN_BUF_SIZE - i) ++ [0]) := by
  induction k generalizing i l with
  | zero =>
      rw [Nat.sub_eq_zero_of_le (show FN_BUF_SIZE ≤ i from hk), List.take_zero]
      rfl
  | succ k ih =>
      rw [filenameStores]
      cases l with
      | nil =>
          rw [if_neg fun hgo => hgo.1 (StringAt.nil_iff.mp h)]
          simp [storesFrom]
      | cons c l =>
          obtain ⟨hc, hhead, htail⟩ := StringAt.cons_iff.mp h
          rw [hhead]
          by_cases hspace : c = SPACE
          · rw [if_neg fun hgo => hgo.2.1 hspace]
            simp [hspace, storesFrom]
          · by_cases hi : i < FN_BUF_SIZE
            · have hroom : FN_BUF_SIZE - i = FN_BUF_SIZE - (i + 1) + 1 := by omega
              have hword : (c :: l).takeWhile (· != SPACE) = c :: l.takeWhile (· != SPACE) :=
                List.takeWhile_cons_of_pos (bne_iff_ne.mpr hspace)
              rw [if_pos ⟨hc, hspace, hi⟩, ih htail (by omega) (by omega), hword, hroom,
                List.take_succ_cons, List.cons_append, storesFrom, Nat.sub_add_comm hb]
            · rw [if_neg fun hgo => hi hgo.2.2, Nat.sub_eq_zero_of_le (Nat.not_lt.mp hi),
                List.take_zero]
              rfl

section Command

variable (command : CString) (stale : ℕ → UInt8)

lemma drop_commandSpaces : command.val.drop (commandSpaces command) = commandText command := by
  have h := List.takeWhile_append_dropWhile (p := (· == SPACE)) (l := command.val)
  rw [commandSpaces, commandText]
  nth_rewrite 2 [← h]
  exact List.drop_left

lemma commandText_subset : commandText command ⊆ command.val := List.dropWhile_subset _

lemma zero_notMem_commandText : 0 ∉ commandText command := fun h =>
  command.prop (commandText_subset command h)

lemma zero_notMem_firstWord : 0 ∉ firstWord command := fun h =>
  zero_notMem_commandText command (List.takeWhile_subset _ h)

/-- The part of the first word that the loop of `execute` gets to. -/
def storedName : List UInt8 := (firstWord command).take (FN_BUF_SIZE - commandSpaces command)

lemma storedName_length_lt_iff : (storedName command).length < FN_BUF_SIZE
    ↔ 0 < commandSpaces command ∨ (firstWord command).length < FN_BUF_SIZE := by
  have hpos : 0 < FN_BUF_SIZE := by decide
  rw [storedName, List.length_take]
  omega

/-- **The copies of `execute`**: what fits of the first word below the bound of the index, and the
whole text twice. -/
lemma commandStores_eq : commandStores command stale
    = { filename := storesFrom 0 (storedName command ++ [0])
        saveCommand := storesFrom 0 (commandText command ++ [0])
        pcbCommand := storesFrom 0 (commandText command ++ [0]) } := by
  have hspaces : skipSpaces command.byte command.length 0 = commandSpaces command := by
    have hfuel : command.val.length ≤ command.length := le_rfl
    rw [skipSpaces_eq (stringAt_byte command) hfuel, Nat.zero_add]
    rfl
  have htext : StringAt command.byte (commandSpaces command) (commandText command) := by
    have hall := stringAt_byte command
    rw [← List.takeWhile_append_dropWhile (p := (· == SPACE)) (l := command.val)] at hall
    have hrest := hall.append_right
    rwa [Nat.zero_add] at hrest
  have hlen : (commandText command).length ≤ command.length :=
    (List.dropWhile_suffix _).length_le
  have hname := filenameStores_eq htext le_rfl (k := FN_BUF_SIZE) (Nat.le_add_left _ _)
  have hsave := strcpyStores_eq htext.shift hlen
  have hpcb := strcpyStores_eq (stringAt_copyTo (zero_notMem_commandText command) stale 0) hlen
  rw [Nat.sub_self] at hname
  rw [commandStores, hspaces, hname, hsave, applyStores_storesFrom, hpcb]
  rfl

/-! ### Staying in the arrays -/

/-- All three copies stay in their arrays. -/
structure ExecuteInBounds : Prop where
  filename : ∀ s ∈ (commandStores command stale).filename, s.1 < FN_BUF_SIZE
  saveCommand : ∀ s ∈ (commandStores command stale).saveCommand, s.1 < SAVE_COMMAND_SIZE
  pcbCommand : ∀ s ∈ (commandStores command stale).pcbCommand, s.1 < MAX_TERMINAL_BUF_SIZE + 1

/-- The first word has room for its terminator, or there is a space before it, and the text from
the first word on is not longer than the terminal buffer. -/
def FitsBuffers : Prop :=
  (0 < commandSpaces command ∨ (firstWord command).length < FN_BUF_SIZE)
    ∧ (commandText command).length ≤ MAX_TERMINAL_BUF_SIZE

/-- **The kernel buffers of `execute`** hold what is written to them exactly for the commands that
fit. -/
theorem executeInBounds_iff : ExecuteInBounds command stale ↔ FitsBuffers command := by
  have hbounds : ExecuteInBounds command stale
      ↔ (storedName command).length < FN_BUF_SIZE
        ∧ (commandText command).length < SAVE_COMMAND_SIZE
        ∧ (commandText command).length < MAX_TERMINAL_BUF_SIZE + 1 := by
    constructor
    · rintro ⟨h1, h2, h3⟩
      rw [commandStores_eq, forall_storesFrom_lt, Nat.zero_add] at h1 h2 h3
      exact ⟨h1, h2, h3⟩
    · rintro ⟨h1, h2, h3⟩
      refine ⟨?_, ?_, ?_⟩ <;> rw [commandStores_eq, forall_storesFrom_lt, Nat.zero_add]
      · exact h1
      · exact h2
      · exact h3
  rw [hbounds, storedName_length_lt_iff, FitsBuffers, SAVE_COMMAND_SIZE, MAX_TERMINAL_BUF_SIZE]
  refine and_congr_right fun _ => ?_
  omega

/-- The names `execute` works with are those that lie in its arrays, if these are not overrun. -/
lemma parseCommand_eq_some_iff {filename saveCommand : CString} :
    parseCommand command = some (filename, saveCommand)
      ↔ FitsBuffers command ∧ filename.val = storedName command
        ∧ saveCommand.val = commandText command := by
  have htext : command.val.drop (command.val.takeWhile (· == SPACE)).length = commandText command :=
    drop_commandSpaces command
  have hfits : (((commandText command).takeWhile (· != SPACE)).take
        (FN_BUF_SIZE - (command.val.takeWhile (· == SPACE)).length)).length < FN_BUF_SIZE
      ∧ (commandText command).length ≤ MAX_TERMINAL_BUF_SIZE ↔ FitsBuffers command :=
    and_congr_left fun _ => storedName_length_lt_iff command
  simp only [parseCommand, htext]
  by_cases h : FitsBuffers command
  · rw [if_pos (hfits.mpr h), Option.some.injEq]
    constructor
    · intro heq
      have hname := congrArg (fun names : CString × CString => names.1.val) heq
      have hsave := congrArg (fun names : CString × CString => names.2.val) heq
      exact ⟨h, hname.symm, hsave.symm⟩
    · rintro ⟨-, hname, hsave⟩
      exact Prod.ext (Subtype.ext hname.symm) (Subtype.ext hsave.symm)
  · rw [if_neg (mt hfits.mp h)]
    exact ⟨fun hnone => absurd hnone (by simp), fun hall => absurd hall.1 h⟩

end Command

/-- A word of 33 characters. -/
def longWord : CString := ⟨List.replicate 33 97, by decide⟩

/-- Without a space before it, the terminator of a word of 33 characters lies behind `filename`. -/
theorem not_executeInBounds_longWord : ¬ExecuteInBounds longWord fun _ => 0 := by
  intro h
  have hlast := h.filename (33, 0) (by decide)
  exact absurd hlast (by decide)

/-! ### `getargs` -/

/-- The first loop of `getargs`. -/
def skipWord (s : ℕ → UInt8) : ℕ → ℕ → ℕ
  | 0, i => i
  | k + 1, i => if s i = 0 ∨ s i = SPACE then i else skipWord s k (i + 1)

/-- The second loop of `strncpy`. -/
def zeroStores : ℕ → ℕ → List (ℕ × UInt8)
  | 0, _ => []
  | k + 1, i => (i, 0) :: zeroStores k (i + 1)

/-- The stores of `strncpy`, from index `i` on with `k` bytes to go. -/
def strncpyStores (src : ℕ → UInt8) : ℕ → ℕ → List (ℕ × UInt8)
  | 0, _ => []
  | k + 1, i =>
      if src i ≠ 0 then (i, src i) :: strncpyStores src k (i + 1) else zeroStores (k + 1) i

/-- `getargs`, with the command of the current process and the buffer of the program in memory: the
value it returns, and the buffer after it. -/
def getargsInto (command buf : ℕ → UInt8) (nbytes : ℕ) : ℤ × (ℕ → UInt8) :=
  let i := skipWord command MAX_TERMINAL_BUF_SIZE 0
  let i := skipSpaces command (MAX_TERMINAL_BUF_SIZE + 1) i
  let buf := applyStores buf (strncpyStores (fun k => command (i + k)) nbytes 0)
  (if buf 0 = 0 then SYSCALL_ERROR else 0, buf)

/-- What follows the first word and the spaces behind it. -/
def argsOf (text : List UInt8) : List UInt8 :=
  (text.dropWhile (· != SPACE)).dropWhile (· == SPACE)

lemma skipWord_eq {s : ℕ → UInt8} {i k : ℕ} {l : List UInt8} (h : StringAt s i l)
    (hk : l.length ≤ k) : skipWord s k i = i + (l.takeWhile (· != SPACE)).length := by
  induction l generalizing i k with
  | nil =>
      cases k with
      | zero => rfl
      | succ k => exact if_pos (Or.inl (StringAt.nil_iff.mp h))
  | cons c l ih =>
      obtain ⟨hc, hhead, htail⟩ := StringAt.cons_iff.mp h
      cases k with
      | zero => exact absurd hk (Nat.not_succ_le_zero _)
      | succ k =>
          rw [skipWord, hhead]
          by_cases hspace : c = SPACE
          · rw [if_pos (Or.inr hspace)]
            simp [hspace]
          · have hword : (c :: l).takeWhile (· != SPACE) = c :: l.takeWhile (· != SPACE) :=
              List.takeWhile_cons_of_pos (bne_iff_ne.mpr hspace)
            rw [if_neg (not_or.mpr ⟨hc, hspace⟩), ih htail (Nat.succ_le_succ_iff.mp hk), hword,
              List.length_cons]
            omega

lemma zeroStores_eq (k i : ℕ) : zeroStores k i = storesFrom i (List.replicate k 0) := by
  induction k generalizing i with
  | zero => rfl
  | succ k ih =>
      rw [zeroStores, ih]
      rfl

/-- **`strncpy`** of a string that is shorter than the count fills up with zeros. -/
lemma strncpyStores_eq {src : ℕ → UInt8} {i k : ℕ} {l : List UInt8} (h : StringAt src i l)
    (hk : l.length ≤ k) :
    strncpyStores src k i = storesFrom i (l ++ List.replicate (k - l.length) 0) := by
  induction l generalizing i k with
  | nil =>
      cases k with
      | zero => rfl
      | succ k =>
          rw [strncpyStores, if_neg (not_not.mpr (StringAt.nil_iff.mp h)), zeroStores_eq]
          rfl
  | cons c l ih =>
      obtain ⟨hc, hhead, htail⟩ := StringAt.cons_iff.mp h
      cases k with
      | zero => exact absurd hk (Nat.not_succ_le_zero _)
      | succ k =>
          rw [strncpyStores, hhead, if_pos hc, ih htail (Nat.succ_le_succ_iff.mp hk),
            List.length_cons, Nat.add_sub_add_right]
          rfl

/-- **`getargs`** copies what follows the first word and the spaces behind it, filled up with
zeros, and fails if that is nothing. -/
lemma getargsInto_eq {command : ℕ → UInt8} {text : List UInt8} (h : StringAt command 0 text)
    (hlen : text.length ≤ MAX_TERMINAL_BUF_SIZE) (buf : ℕ → UInt8) {nbytes : ℕ}
    (hn : (argsOf text).length < nbytes) :
    getargsInto command buf nbytes
      = (if argsOf text = [] then SYSCALL_ERROR else 0,
        copyTo buf 0 (argsOf text ++ List.replicate (nbytes - (argsOf text).length) 0)) := by
  set word := text.takeWhile (· != SPACE) with hword
  set rest := text.dropWhile (· != SPACE) with hrest
  set spaces := rest.takeWhile (· == SPACE) with hspaces
  have hsplit : text = word ++ rest := List.takeWhile_append_dropWhile.symm
  have hsplit' : rest = spaces ++ argsOf text := List.takeWhile_append_dropWhile.symm
  have hfirst : skipWord command MAX_TERMINAL_BUF_SIZE 0 = 0 + word.length := skipWord_eq h hlen
  have hstring : StringAt command (0 + word.length) rest := by
    rw [hsplit] at h
    exact h.append_right
  have hlenRest : rest.length ≤ MAX_TERMINAL_BUF_SIZE + 1 :=
    (List.dropWhile_suffix _).length_le.trans (hlen.trans (Nat.le_succ _))
  have hsecond : skipSpaces command (MAX_TERMINAL_BUF_SIZE + 1) (0 + word.length)
      = 0 + word.length + spaces.length := skipSpaces_eq hstring hlenRest
  have hargs : StringAt command (0 + word.length + spaces.length) (argsOf text) := by
    rw [hsplit'] at hstring
    exact hstring.append_right
  have hcopy := strncpyStores_eq hargs.shift hn.le
  simp only [getargsInto, hfirst, hsecond, hcopy, applyStores_storesFrom]
  refine Prod.ext (if_congr ?_ rfl rfl) rfl
  -- the first byte of the buffer tells whether there are arguments
  cases hargsOf : argsOf text with
  | nil =>
      rw [hargsOf, List.length_nil] at hn
      refine iff_of_true ?_ rfl
      have hzeros := copyTo_of_lt buf 0
        ([] ++ List.replicate (nbytes - ([] : List UInt8).length) 0) (k := 0) (by simpa using hn)
      rw [Nat.zero_add] at hzeros
      rw [hzeros]
      simp
  | cons c args =>
      rw [hargsOf] at hargs
      refine iff_of_false ?_ (List.cons_ne_nil c args)
      have hhead := copyTo_of_lt buf 0
        (c :: args ++ List.replicate (nbytes - (c :: args).length) 0) (k := 0) (by simp)
      rw [Nat.zero_add] at hhead
      rw [hhead]
      exact (StringAt.cons_iff.mp hargs).1

/-- **`getargs` in memory** goes with the function on strings that the programs call: it fails when
that has no result, and else leaves the result as a string in the buffer. -/
theorem getargsInto_getargs {command : CString} (hlen : command.length ≤ MAX_TERMINAL_BUF_SIZE)
    (buf : ℕ → UInt8) {nbytes : ℕ} (hn : (argsOf command.val).length < nbytes) :
    match getargs command with
    | none => (getargsInto command.byte buf nbytes).1 = SYSCALL_ERROR
    | some args => (getargsInto command.byte buf nbytes).1 = 0
      ∧ StringAt (getargsInto command.byte buf nbytes).2 0 args.val := by
  rw [getargsInto_eq (stringAt_byte command) hlen buf hn]
  by_cases hargs : argsOf command.val = []
  · have hnone : getargs command = none := if_pos hargs
    rw [hnone]
    exact if_pos hargs
  · have hsub : argsOf command.val ⊆ command.val :=
      ((List.dropWhile_suffix _).trans (List.dropWhile_suffix _)).subset
    have hsome : getargs command = some (command.piece (argsOf command.val) hsub) := if_neg hargs
    have hzero : 0 ∉ argsOf command.val := fun h => command.property (hsub h)
    have hstring : StringAt (copyTo buf 0 (argsOf command.val
        ++ List.replicate (nbytes - (argsOf command.val).length) 0)) 0 (argsOf command.val) := by
      refine ⟨hzero, fun k hk => ?_⟩
      rw [copyTo_of_lt buf 0 _ (by rw [List.length_append, List.length_replicate]; omega)]
      rcases Nat.eq_or_lt_of_le hk with rfl | hlt
      · rw [List.getD_append_right _ _ _ _ le_rfl, Nat.sub_self, List.getD_eq_default _ _ le_rfl,
          List.getD_replicate _ (by omega)]
      · rw [List.getD_append _ _ _ _ hlt]
    rw [hsome]
    exact ⟨if_neg hargs, hstring⟩

/-! ### Splitting a command line -/

/-- The command of the new PCB: zeroed memory, and the copy. -/
def newCommand (command : CString) (stale : ℕ → UInt8) : ℕ → UInt8 :=
  applyStores (fun _ => 0) (commandStores command stale).pcbCommand

/-- `execute` looks up the first word; and `getargs` in the new process, for a buffer with room,
copies the text behind it and fails if there is none. -/
structure SplitsCommand (command : CString) : Prop where
  lookup : ∀ stale stale', StringAt (applyStores stale' (commandStores command stale).filename) 0
    (firstWord command)
  args : ∀ stale buf nbytes, (argsOf (commandText command)).length < nbytes →
    getargsInto (newCommand command stale) buf nbytes
      = (if argsOf (commandText command) = [] then SYSCALL_ERROR else 0,
        copyTo buf 0 (argsOf (commandText command)
          ++ List.replicate (nbytes - (argsOf (commandText command)).length) 0))

/-- **Command lines are split** at the first word exactly when this and the spaces before it have
at most 33 characters together. -/
theorem splitsCommand_iff (command : CString) (hlen : command.length ≤ 127)
    (hword : firstWord command ≠ []) (hmax : (firstWord command).length ≤ 32) :
    SplitsCommand command ↔ commandSpaces command + (firstWord command).length ≤ FN_BUF_SIZE := by
  have hpos : 0 < (firstWord command).length := List.length_pos_iff.mpr hword
  have hstored : ∀ stale stale',
      StringAt (applyStores stale' (commandStores command stale).filename) 0
        (storedName command) := by
    intro stale stale'
    rw [commandStores_eq, applyStores_storesFrom]
    exact stringAt_copyTo (fun h => zero_notMem_firstWord command (List.mem_of_mem_take h)) _ 0
  constructor
  · intro h
    have hsame := (h.lookup (fun _ => 0) fun _ => 0).unique (hstored _ _)
    have hlength := congrArg List.length hsame
    rw [storedName, List.length_take] at hlength
    omega
  · intro hfit
    have hname : storedName command = firstWord command := List.take_of_length_le (by omega)
    have htext : (commandText command).length ≤ MAX_TERMINAL_BUF_SIZE :=
      (List.dropWhile_suffix _).length_le.trans (hlen.trans (by decide))
    refine ⟨fun stale stale' => hname ▸ hstored stale stale', fun stale buf nbytes hn => ?_⟩
    refine getargsInto_eq ?_ htext buf hn
    rw [newCommand, commandStores_eq, applyStores_storesFrom]
    exact stringAt_copyTo (zero_notMem_commandText command) _ 0

/-- Two spaces, the word `cat`, two more spaces, and the arguments `f0 t`. -/
def argsCommand : CString :=
  ⟨[SPACE, SPACE, 0x63, 0x61, 0x74, SPACE, SPACE, 0x66, 0x30, SPACE, 0x74], by decide⟩

/-- It is split into the word and the arguments. -/
theorem splitsCommand_args : SplitsCommand argsCommand
    ∧ firstWord argsCommand = [0x63, 0x61, 0x74]
    ∧ argsOf (commandText argsCommand) = [0x66, 0x30, SPACE, 0x74] := by
  have hfits : commandSpaces argsCommand + (firstWord argsCommand).length ≤ FN_BUF_SIZE := by decide
  exact ⟨(splitsCommand_iff argsCommand (by decide) (by decide) (by decide)).mpr hfits, rfl, rfl⟩

/-- 33 spaces and the word `ls`. -/
def spacedCommand : CString := ⟨List.replicate 33 SPACE ++ [0x6c, 0x73], by decide⟩

/-- Behind 33 spaces no character of the word is reached: the empty name is looked up. -/
theorem not_splitsCommand_spaced : ¬SplitsCommand spacedCommand := by
  intro h
  have hfirst := (h.lookup (fun _ => 0) fun _ => 0).2 0 (Nat.zero_le _)
  exact absurd hfirst (by decide)

end CustomLinuxOs
