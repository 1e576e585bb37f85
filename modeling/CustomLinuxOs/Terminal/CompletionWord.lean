import Mathlib.Data.List.DropRight
import CustomLinuxOs.Foundations.Extension
import CustomLinuxOs.Terminal.Completion

/-!
What tab completion adds to the line: the longest string that all names with the last word of the
line go on with.

* `Tty.lastWord`, `nameOf`, `Dentry.name`: the word and the names, as lists of bytes.
* `agreeLoop_extension`: the second loop cuts the extension to what all names have in common.
* `agreeLoop_eq_none`, `Ambiguous`: it gives up where names part right behind the word.
* `completion_extension`: what `completion` decides to add.
* `takenBy`: what the line takes of that.
* `tabComplete_extends`: the line after `tab_complete`.
-/

namespace CustomLinuxOs

/-- The characters a word ends with. -/
def isSeparator (c : UInt8) : Bool := c == SPACE || c == NEWLINE || c == TAB

/-- The last word of the line. -/
def Tty.lastWord (s : Tty) : List UInt8 := s.line.rtakeWhile fun c => ! isSeparator c

/-- The string in a buffer for a name. -/
def nameOf (test : ℕ → UInt8) : List UInt8 :=
  ((List.range MAX_FILENAME_LENGTH).map test).takeWhile (· ≠ 0)

/-- The name of an entry. -/
def Dentry.name (d : Dentry) : List UInt8 := nameOf d.filename

/-- Two names that start with the word part right behind it, or one of them ends there. -/
def Ambiguous (names : List (List UInt8)) (word : List UInt8) : Prop :=
  ∃ a ∈ names, ∃ b ∈ names, word <+: a ∧ word <+: b
    ∧ (a.drop word.length).head? ≠ (b.drop word.length).head?

lemma Ambiguous.mono {names more : List (List UInt8)} {word : List UInt8}
    (h : Ambiguous names word) (hsub : names ⊆ more) : Ambiguous more word := by
  obtain ⟨a, ha, b, hb, hparts⟩ := h
  exact ⟨a, hsub ha, b, hsub hb, hparts⟩

/-! ### The last word -/

section Word

variable {s : Tty}

lemma isSeparator_iff {c : UInt8} :
    isSeparator c = true ↔ c = SPACE ∨ c = NEWLINE ∨ c = TAB := by
  rw [isSeparator, Bool.or_eq_true, Bool.or_eq_true, beq_iff_eq, beq_iff_eq, beq_iff_eq, or_assoc]

/-- **`get_last`** finds where the last word of a part of the line starts. -/
lemma rtakeWhile_getLastLoop (s : Tty) (i : ℕ) : getLastLoop s i ≤ i
    ∧ ((List.range i).map s.input).rtakeWhile (fun c => ! isSeparator c)
      = ((List.range i).map s.input).drop (getLastLoop s i) := by
  induction i with
  | zero => exact ⟨le_rfl, rfl⟩
  | succ i ih =>
      obtain ⟨hle, hword⟩ := ih
      have hlength : ((List.range i).map s.input).length = i := by simp
      rw [List.range_succ, List.map_append, List.map_singleton, getLastLoop, List.rtakeWhile_concat]
      by_cases hsep : s.input i = SPACE ∨ s.input i = NEWLINE ∨ s.input i = TAB
      · have hstop : ¬ (! isSeparator (s.input i)) = true := by
          rw [isSeparator_iff.mpr hsep]
          exact Bool.false_ne_true
        rw [if_pos hsep, if_neg hstop, List.drop_eq_nil_of_le (by simp)]
        exact ⟨le_rfl, rfl⟩
      · have hgo : (! isSeparator (s.input i)) = true := by
          rwa [Bool.not_eq_true', ← Bool.not_eq_true, isSeparator_iff]
        rw [if_neg hsep, if_pos hgo, hword, List.drop_append_of_le_length (by omega)]
        exact ⟨by omega, rfl⟩

lemma lastWord_eq (s : Tty) : s.lastWord = s.line.drop (getLast s) :=
  (rtakeWhile_getLastLoop s s.bufferSize.toNat).2

lemma lastWord_length (s : Tty) : s.lastWord.length = s.bufferSize.toNat - getLast s := by
  rw [lastWord_eq, List.length_drop, Tty.line_length]

/-- The copy of the word that `tab_complete` makes. -/
lemma lastWord_getD (s : Tty) (i : ℕ) : s.lastWord.getD i 0
    = if i < s.lastWord.length then s.input (getLast s + i) else 0 := by
  split
  · rename_i hi
    rw [List.getD_eq_getElem _ _ hi]
    simp [lastWord_eq, Tty.line]
  · rename_i hi
    exact List.getD_eq_default _ _ (by omega)

end Word

/-! ### Names -/

section Names

variable {test : ℕ → UInt8} {word p : List UInt8} {filename : ℕ → UInt8} {n m : ℕ}

/-- A name that is read is the one of the entry. -/
lemma nameOf_buffer (d : Dentry) : nameOf d.buffer = d.name := by
  have hbytes : (List.range MAX_FILENAME_LENGTH).map d.buffer
      = (List.range MAX_FILENAME_LENGTH).map d.filename :=
    List.map_congr_left fun i hi => if_pos (List.mem_range.mp hi)
  rw [nameOf, hbytes]
  rfl

/-- What a name starts with, in the bytes of the buffer. -/
lemma prefix_nameOf_iff (hp : ∀ b ∈ p, b ≠ 0) (hlen : p.length ≤ MAX_FILENAME_LENGTH) :
    p <+: nameOf test ↔ ∀ i < p.length, test i = p.getD i 0 := by
  have htake : (((List.range MAX_FILENAME_LENGTH).map test).take p.length)
      = (List.range p.length).map test := by
    rw [← List.map_take, List.take_range, Nat.min_eq_left hlen]
  have hbytes : p = (List.range p.length).map test ↔ ∀ i < p.length, test i = p.getD i 0 := by
    rw [List.ext_getElem_iff]
    constructor
    · rintro ⟨-, hget⟩ i hi
      rw [List.getD_eq_getElem _ _ hi, hget i hi (by simpa using hi)]
      simp
    · intro hall
      refine ⟨by simp, fun i hi _ => ?_⟩
      rw [← List.getD_eq_getElem p 0 hi, ← hall i hi]
      simp
  rw [← hbytes]
  constructor
  · intro hstarts
    rw [← htake]
    exact List.prefix_iff_eq_take.mp (hstarts.trans (List.takeWhile_prefix _))
  · intro heq
    rw [nameOf, ← List.take_append_drop p.length ((List.range MAX_FILENAME_LENGTH).map test), htake,
      ← heq, List.takeWhile_append_of_pos fun b hb => decide_eq_true (hp b hb)]
    exact List.prefix_append ..

variable (test) in
/-- **`strncmp`** with a word finds the names that start with it. -/
lemma nameMatches_iff (hword : ∀ b ∈ word, b ≠ 0) (hlen : word.length ≤ MAX_FILENAME_LENGTH)
    (hcopy : ∀ i < word.length, filename i = word.getD i 0) :
    nameMatches filename word.length test = true ↔ word <+: nameOf test := by
  rw [nameMatches, beq_iff_eq, strncmp_eq_zero_iff, prefix_nameOf_iff hword hlen]
  simp only [Nat.zero_add]
  constructor
  · intro hsame i hi
    -- the bytes before are those of the word, so none of them ends the comparison
    induction i using Nat.strong_induction_on with
    | _ i ih =>
        rw [hsame i hi fun l hl => ?_, hcopy i hi]
        rw [ih l hl (hl.trans hi), List.getD_eq_getElem _ _ (hl.trans hi)]
        exact hword _ (List.getElem_mem _)
  · intro hall i hi _
    rw [hall i hi, hcopy i hi]

/-- The name behind a word that it starts with, as the first loop copies it. -/
lemma nameOf_of_starts (h : word <+: nameOf test) :
    nameOf test = word ++ (List.range' word.length ((List.range' word.length
      (MAX_FILENAME_LENGTH - word.length)).takeWhile fun i => test i ≠ 0).length).map test := by
  have hwhole : word <+: (List.range MAX_FILENAME_LENGTH).map test :=
    h.trans (List.takeWhile_prefix _)
  have hlen : word.length ≤ MAX_FILENAME_LENGTH := by simpa using hwhole.length_le
  have hnonzero : ∀ b ∈ word, decide (b ≠ 0) = true := fun b hb =>
    List.mem_takeWhile_imp (p := fun b => decide (b ≠ 0)) (h.subset hb)
  have hrest : (List.range MAX_FILENAME_LENGTH).map test
      = word ++ (List.range' word.length (MAX_FILENAME_LENGTH - word.length)).map test := by
    conv_lhs => rw [← List.take_append_drop word.length ((List.range MAX_FILENAME_LENGTH).map test)]
    rw [← List.prefix_iff_eq_take.mp hwhole, ← List.map_drop, List.range_eq_range',
      List.drop_range', Nat.zero_add, Nat.mul_one]
  have hcut : (List.range' word.length (MAX_FILENAME_LENGTH - word.length)).takeWhile
        ((fun b => decide (b ≠ 0)) ∘ test)
      = List.range' word.length ((List.range' word.length
        (MAX_FILENAME_LENGTH - word.length)).takeWhile fun i => test i ≠ 0).length := by
    have hprefix := List.prefix_iff_eq_take.mp (List.takeWhile_prefix
      (l := List.range' word.length (MAX_FILENAME_LENGTH - word.length))
      fun i => decide (test i ≠ 0))
    have hle := (List.takeWhile_sublist (l := List.range' word.length
      (MAX_FILENAME_LENGTH - word.length)) fun i => decide (test i ≠ 0)).length_le
    rw [List.length_range'] at hle
    rw [List.take_range'_of_length_ge hle] at hprefix
    exact hprefix
  rw [nameOf, hrest, List.takeWhile_append_of_pos hnonzero, List.takeWhile_map, hcut]

/-! ### The extension -/

/-- The bytes from position `n` to position `m`. -/
def added (filename : ℕ → UInt8) (n m : ℕ) : List UInt8 := (List.range' n (m - n)).map filename

lemma added_length (filename : ℕ → UInt8) (n m : ℕ) : (added filename n m).length = m - n := by
  rw [added, List.length_map, List.length_range']

lemma added_take {i : ℕ} (hn : n ≤ i) (hm : i ≤ m) :
    (added filename n m).take (i - n) = added filename n i := by
  rw [added, ← List.map_take, List.take_range'_of_length_ge (by omega)]
  rfl

/-- A name that starts with the word goes on with these bytes as long as it agrees with them. -/
lemma word_added_prefix_iff (hword : ∀ b ∈ word, b ≠ 0) (hn : word.length ≤ m)
    (hm : m ≤ MAX_FILENAME_LENGTH)
    (hbytes : ∀ i, word.length ≤ i → i < m → filename i ≠ 0) (hfits : word <+: nameOf test) :
    word ++ added filename word.length m <+: nameOf test
      ↔ ∀ i, word.length ≤ i → i < m → test i = filename i := by
  have hlength : (word ++ added filename word.length m).length = m := by
    rw [List.length_append, added_length]
    omega
  have hp : ∀ b ∈ word ++ added filename word.length m, b ≠ 0 := by
    intro b hb
    rcases List.mem_append.mp hb with hb | hb
    · exact hword b hb
    · obtain ⟨i, hi, rfl⟩ := List.mem_map.mp hb
      rw [List.mem_range'_1] at hi
      exact hbytes i hi.1 (by omega)
  have hget {i : ℕ} (hi : word.length ≤ i) (him : i < m) :
      (word ++ added filename word.length m).getD i 0 = filename i := by
    rw [List.getD_append_right _ _ _ _ hi, List.getD_eq_getElem _ _ (by rw [added_length]; omega)]
    simp [added, Nat.add_sub_of_le hi]
  rw [prefix_nameOf_iff hp (by omega), hlength]
  constructor
  · intro hall i hi him
    rw [hall i him, hget hi him]
  · intro hall i him
    rcases Nat.lt_or_ge i word.length with hi | hi
    · rw [(prefix_nameOf_iff hword (by omega)).mp hfits i hi, List.getD_append _ _ _ _ hi]
    · rw [hall i hi him, hget hi him]

/-- **The second loop** cuts what has been found so far to what the other names go on with. -/
lemma agreeLoop_extension {seen : List (List UInt8)} (hword : ∀ b ∈ word, b ≠ 0)
    (hcopy : ∀ i < word.length, filename i = word.getD i 0) (hn : word.length ≤ m)
    (hm : m ≤ MAX_FILENAME_LENGTH) (hbytes : ∀ i, word.length ≤ i → i < m → filename i ≠ 0)
    (h : LongestExtension seen word (added filename word.length m)) (names : Listing) :
    LongestExtension (seen ++ names.map nameOf) word
      (((agreeLoop filename word.length names m).map (added filename word.length)).getD []) := by
  induction names generalizing seen m with
  | nil =>
      rw [agreeLoop, List.map_nil, List.append_nil]
      exact h
  | cons test names ih =>
      have hmatches := nameMatches_iff test hword (hn.trans hm) hcopy
      rw [List.map_cons, List.append_cons, agreeLoop]
      by_cases hfits : word <+: nameOf test
      · rw [if_pos (hmatches.mpr hfits)]
        -- the name agrees with the extension up to `i`
        have hcut {i : ℕ} (hi : word.length ≤ i) (him : i ≤ m)
            (hagree : ∀ j, word.length ≤ j → j < i → test j = filename j)
            (hend : i = m ∨ test i ≠ filename i) :
            LongestExtension (seen ++ [nameOf test]) word (added filename word.length i) := by
          rw [← added_take hi him]
          refine h.cut ?_ ?_
          · rw [added_take hi him, word_added_prefix_iff hword hi (him.trans hm)
              (fun j hj hji => hbytes j hj (hji.trans_le him)) hfits]
            exact hagree
          · rw [added_length]
            rcases hend with rfl | hdiffers
            · exact Or.inl le_rfl
            · refine or_iff_not_imp_left.mpr fun hlt => ?_
              rw [← Nat.sub_add_comm hi, added_take (by omega) (by omega),
                word_added_prefix_iff hword (by omega) (by omega)
                  (fun j hj hji => hbytes j hj (by omega)) hfits]
              exact fun hall => hdiffers (hall i hi (by omega))
        cases hfind : (List.range' word.length (m - word.length)).find?
            fun i => test i ≠ filename i with
        | none =>
            rw [List.find?_range'_eq_none] at hfind
            refine ih hn hm hbytes (hcut hn le_rfl (fun j hj hjm => ?_) (Or.inl rfl))
            simpa using hfind j hj (by omega)
        | some i =>
            obtain ⟨hdiffers, hrange, hbefore⟩ := List.find?_range'_eq_some.mp hfind
            rw [List.mem_range'_1] at hrange
            have hi := hcut hrange.1 (by omega) (fun j hj hji => by simpa using hbefore j hj hji)
              (Or.inr (by simpa using hdiffers))
            simp only
            split
            · rename_i hnone
              rw [hnone, added, Nat.sub_self] at hi
              exact hi.append_nil
            · exact ih hrange.1 (by omega) (fun j hj hji => hbytes j hj (by omega)) hi
      · rw [if_neg (fun htrue => hfits (hmatches.mp htrue))]
        refine ih hn hm hbytes (h.congr fun name hname => ?_)
        rw [List.mem_append, List.mem_singleton]
        exact ⟨Or.inl, fun hmem => hmem.resolve_right fun heq => hfits (heq ▸ hname)⟩

end Names

/-- How many bytes of a name lie behind the first `n`. -/
def restLength (first : ℕ → UInt8) (n : ℕ) : ℕ :=
  ((List.range' n (MAX_FILENAME_LENGTH - n)).takeWhile fun i => first i ≠ 0).length

/-- The word with these bytes of a name behind it. -/
def withRest (word : List UInt8) (first : ℕ → UInt8) (i : ℕ) : UInt8 :=
  if word.length ≤ i ∧ i < word.length + restLength first word.length then first i
  else word.getD i 0

section First

variable {word : List UInt8} {first : ℕ → UInt8}

lemma withRest_of_lt {i : ℕ} (hi : i < word.length) : withRest word first i = word.getD i 0 :=
  if_neg (by omega)

lemma add_restLength_le (hlen : word.length ≤ MAX_FILENAME_LENGTH) :
    word.length + restLength first word.length ≤ MAX_FILENAME_LENGTH := by
  have hle := (List.takeWhile_sublist (l := List.range' word.length
    (MAX_FILENAME_LENGTH - word.length)) fun i => decide (first i ≠ 0)).length_le
  rw [List.length_range'] at hle
  rw [restLength]
  omega

/-- **The first name** that starts with the word is the word with its rest. -/
lemma nameOf_eq_withRest (hfits : word <+: nameOf first) :
    nameOf first = word ++ added (withRest word first) word.length
      (word.length + restLength first word.length) := by
  rw [nameOf_of_starts hfits, added, Nat.add_sub_cancel_left]
  refine congrArg (word ++ ·) (List.map_congr_left fun i hi => ?_)
  rw [List.mem_range'_1] at hi
  exact (if_pos hi).symm

lemma withRest_ne_zero (hfits : word <+: nameOf first) {i : ℕ} (hi : word.length ≤ i)
    (him : i < word.length + restLength first word.length) : withRest word first i ≠ 0 := by
  have hmem : withRest word first i ∈ nameOf first := by
    rw [nameOf_eq_withRest hfits, List.mem_append]
    refine Or.inr (List.mem_map.mpr ⟨i, ?_, rfl⟩)
    rw [List.mem_range'_1]
    omega
  simpa using List.mem_takeWhile_imp hmem

/-- **The second loop gives up** where a name goes another way than the first one right behind the
word. -/
lemma agreeLoop_eq_none {filename : ℕ → UInt8} {n m : ℕ} {names : Listing}
    (h : agreeLoop filename n names m = none) :
    n < m ∧ ∃ test ∈ names, nameMatches filename n test = true ∧ test n ≠ filename n := by
  induction names generalizing m with
  | nil => cases h
  | cons test names ih =>
      have hrest {m' : ℕ} (hle : m' ≤ m) (h' : agreeLoop filename n names m' = none) :
          n < m ∧ ∃ test' ∈ test :: names, nameMatches filename n test' = true
            ∧ test' n ≠ filename n := by
        obtain ⟨hlt, test', hmem, hfound⟩ := ih h'
        exact ⟨hlt.trans_le hle, test', List.mem_cons_of_mem _ hmem, hfound⟩
      rw [agreeLoop] at h
      split at h
      · rename_i hfits
        split at h
        · exact hrest le_rfl h
        · rename_i i hfind
          obtain ⟨hdiffers, hrange, -⟩ := List.find?_range'_eq_some.mp hfind
          rw [List.mem_range'_1] at hrange
          split at h
          · rename_i hi
            subst hi
            exact ⟨by omega, test, List.mem_cons_self .., hfits, of_decide_eq_true hdiffers⟩
          · exact hrest (by omega) h
      · exact hrest le_rfl h

/-- The byte of a name behind a word that it starts with. -/
lemma head?_drop_nameOf {test : ℕ → UInt8} (h : word <+: nameOf test)
    (hlen : word.length < MAX_FILENAME_LENGTH) :
    ((nameOf test).drop word.length).head?
      = if test word.length = 0 then none else some (test word.length) := by
  obtain ⟨r, hr⟩ : ∃ r, MAX_FILENAME_LENGTH - word.length = r + 1 :=
    ⟨MAX_FILENAME_LENGTH - word.length - 1, by omega⟩
  rw [nameOf_of_starts h, List.drop_left, hr, List.range'_succ]
  by_cases hzero : test word.length = 0
  · rw [List.takeWhile_cons_of_neg (by simpa using hzero), if_pos hzero]
    rfl
  · rw [List.takeWhile_cons_of_pos (by simpa using hzero), if_neg hzero, List.length_cons,
      List.range'_succ]
    rfl

/-- Then the names are ambiguous. -/
lemma ambiguous_of_agreeLoop {rest : Listing} (hword : ∀ b ∈ word, b ≠ 0)
    (hfits : word <+: nameOf first)
    (h : agreeLoop (withRest word first) word.length rest
      (word.length + restLength first word.length) = none) :
    Ambiguous ([nameOf first] ++ rest.map nameOf) word := by
  have hle : word.length ≤ MAX_FILENAME_LENGTH := by
    simpa using (hfits.trans (List.takeWhile_prefix _)).length_le
  have hmore : word.length + restLength first word.length ≤ MAX_FILENAME_LENGTH :=
    add_restLength_le hle
  obtain ⟨hlt, test, htest, hmatches, hdiffers⟩ := agreeLoop_eq_none h
  have hfits' : word <+: nameOf test :=
    (nameMatches_iff test hword hle fun i hi => withRest_of_lt hi).mp hmatches
  have hfirst : withRest word first word.length = first word.length := if_pos ⟨le_rfl, hlt⟩
  have hnonzero := withRest_ne_zero hfits le_rfl hlt
  rw [hfirst] at hnonzero hdiffers
  refine ⟨nameOf first, by simp, nameOf test, ?_, hfits, hfits', ?_⟩
  · exact List.mem_append_right _ (List.mem_map_of_mem htest)
  · rw [head?_drop_nameOf hfits (by omega), head?_drop_nameOf hfits' (by omega), if_neg hnonzero]
    split
    · exact Option.some_ne_none _
    · exact fun h => hdiffers (Option.some.inj h).symm

end First

/-- The bytes a completion adds to the line. -/
def Completion.bytes : Completion → List UInt8
  | .noMatch => []
  | .ambiguous _ _ => []
  | .add bytes => bytes

/-- **`tab_complete` decides** to add the longest extension of the last word. -/
lemma completion_extension {s : Tty} (hword : ∀ b ∈ s.lastWord, b ≠ 0)
    (hlen : s.lastWord.length ≤ MAX_FILENAME_LENGTH) (names : Listing) :
    ∃ c, completion names s = some c
      ∧ ((∃ name ∈ names.map nameOf, s.lastWord <+: name) →
        LongestExtension (names.map nameOf) s.lastWord c.bytes)
      ∧ ((¬ ∃ name ∈ names.map nameOf, s.lastWord <+: name) → c.bytes = [])
      ∧ ∀ filename n, c = .ambiguous filename n → Ambiguous (names.map nameOf) s.lastWord := by
  have hmatches (test : ℕ → UInt8) : nameMatches (fun i => s.lastWord.getD i 0) s.lastWord.length
      test = true ↔ s.lastWord <+: nameOf test := nameMatches_iff test hword hlen fun _ _ => rfl
  simp only [completion, ← lastWord_length, ← lastWord_getD]
  rw [if_neg (by omega)]
  have hsplit := List.takeWhile_append_dropWhile (l := names) (p := fun test =>
    ! nameMatches (fun i => s.lastWord.getD i 0) s.lastWord.length test)
  have hbefore : ∀ name ∈ (names.takeWhile fun test =>
      ! nameMatches (fun i => s.lastWord.getD i 0) s.lastWord.length test).map nameOf,
      ¬ s.lastWord <+: name := by
    intro name hname
    obtain ⟨test, htest, rfl⟩ := List.mem_map.mp hname
    have hfalse := List.mem_takeWhile_imp htest
    rw [Bool.not_eq_true', ← Bool.not_eq_true, hmatches] at hfalse
    exact hfalse
  cases hdrop : names.dropWhile fun test =>
      ! nameMatches (fun i => s.lastWord.getD i 0) s.lastWord.length test with
  | nil =>
      rw [hdrop, List.append_nil] at hsplit
      rw [hsplit] at hbefore
      refine ⟨.noMatch, rfl, ?_, fun _ => rfl, fun _ _ h => by cases h⟩
      rintro ⟨name, hname, hfits⟩
      exact absurd hfits (hbefore name hname)
  | cons first rest =>
      have hfits : s.lastWord <+: nameOf first := by
        have hhead := List.head?_dropWhile_not (fun test =>
          ! nameMatches (fun i => s.lastWord.getD i 0) s.lastWord.length test) names
        rw [hdrop] at hhead
        rw [← hmatches]
        simpa using hhead
      have hextension := agreeLoop_extension hword (fun i hi => withRest_of_lt hi)
        (Nat.le_add_right _ _) (add_restLength_le hlen)
        (fun i hi him => withRest_ne_zero hfits hi him) (LongestExtension.of_first hbefore _) rest
      have hnames : names.map nameOf = (names.takeWhile fun test =>
          ! nameMatches (fun i => s.lastWord.getD i 0) s.lastWord.length test).map nameOf
            ++ [nameOf first] ++ rest.map nameOf := by
        conv_lhs => rw [← hsplit, hdrop]
        rw [List.map_append, List.map_cons, List.append_cons]
      rw [← nameOf_eq_withRest hfits, ← hnames] at hextension
      have hsome : ∃ name ∈ names.map nameOf, s.lastWord <+: name := by
        refine ⟨nameOf first, ?_, hfits⟩
        rw [hnames]
        simp
      cases hagree : agreeLoop (withRest s.lastWord first) s.lastWord.length rest
          (s.lastWord.length + restLength first s.lastWord.length) with
      | none =>
          rw [hagree] at hextension
          have hambiguous := ambiguous_of_agreeLoop hword hfits hagree
          delta withRest restLength at hagree
          simp only [hagree]
          refine ⟨_, rfl, fun _ => hextension, fun hno => absurd hsome hno, fun _ _ _ => ?_⟩
          rw [hnames, List.append_assoc]
          exact hambiguous.mono (List.subset_append_right _ _)
      | some m =>
          rw [hagree] at hextension
          delta withRest restLength at hagree
          simp only [hagree]
          exact ⟨_, rfl, fun _ => hextension, fun hno => absurd hsome hno, fun _ _ h => by cases h⟩

/-! ### The line -/

/-- A character that a name is made of. -/
def NameChar (b : UInt8) : Prop := isPrintable b = true ∧ b ≠ SPACE ∧ b ≠ TAB

instance (b : UInt8) : Decidable (NameChar b) :=
  inferInstanceAs (Decidable (isPrintable b = true ∧ b ≠ SPACE ∧ b ≠ TAB))

/-- What a line of `n` bytes takes of more bytes: as many as there is room for, and a newline among
the others, since there is one byte more for Enter. -/
def takenBy (n : ℕ) (bytes : List UInt8) : List UInt8 :=
  bytes.take (MAX_TERMINAL_BUF_SIZE - 1 - n)
    ++ if n < MAX_TERMINAL_BUF_SIZE ∧ NEWLINE ∈ bytes.drop (MAX_TERMINAL_BUF_SIZE - 1 - n) then
      [NEWLINE]
    else []

/-- Without newlines it is cut at 127 bytes. -/
lemma takenBy_of_not_mem {n : ℕ} {bytes : List UInt8} (h : NEWLINE ∉ bytes) :
    takenBy n bytes = bytes.take (MAX_TERMINAL_BUF_SIZE - 1 - n) := by
  rw [takenBy, if_neg fun hmem => h (List.mem_of_mem_drop hmem.2), List.append_nil]

@[simp] lemma takenBy_nil (n : ℕ) : takenBy n [] = [] := by simp [takenBy]

/-- **One byte** that completion sends. -/
lemma ttySendchar_nameChar {c : UInt8} (hc : NameChar c) (s : Tty) :
    (ttySendchar id s c).line = s.line ++ (if accepts s c then [c] else []) := by
  rw [line_congr (ttySendchar_inputSide id s hc.1 hc.2.2), enterChar_line]

/-- One byte, and then more. -/
lemma takenBy_cons (s : Tty) (c : UInt8) (bytes : List UInt8) :
    takenBy s.line.length (c :: bytes)
      = (if accepts s c then [c] else [])
        ++ takenBy (s.line.length + (if accepts s c then [c] else []).length) bytes := by
  have hmax : MAX_TERMINAL_BUF_SIZE = 128 := rfl
  rw [accepts, ← Tty.line_length]
  rcases Nat.lt_trichotomy s.line.length 127 with hroom | hlast | hfull
  · -- there is room
    obtain ⟨r, hr⟩ : ∃ r, MAX_TERMINAL_BUF_SIZE - 1 - s.line.length = r + 1 :=
      ⟨126 - s.line.length, by omega⟩
    have hnext : MAX_TERMINAL_BUF_SIZE - 1 - (s.line.length + 1) = r := by omega
    rw [decide_eq_true (by omega), Bool.true_or, if_pos rfl, takenBy, takenBy,
      List.length_singleton, hr, hnext, List.take_succ_cons, List.drop_succ_cons, List.cons_append,
      List.singleton_append]
    have hless : s.line.length < MAX_TERMINAL_BUF_SIZE
        ↔ s.line.length + 1 < MAX_TERMINAL_BUF_SIZE := by omega
    simp only [hless]
  · -- only a newline is taken
    by_cases hc : c = NEWLINE
    · simp [takenBy, hlast, hc, hmax]
    · simp [takenBy, hlast, hc, Ne.symm hc, hmax]
  · -- the line is full
    have hzero : MAX_TERMINAL_BUF_SIZE - 1 - s.line.length = 0 := by omega
    have hless : ¬ s.line.length < MAX_TERMINAL_BUF_SIZE := by omega
    have hnot : ¬ s.line.length < MAX_TERMINAL_BUF_SIZE - 1 := by omega
    have hne : s.line.length ≠ MAX_TERMINAL_BUF_SIZE - 1 := by omega
    simp [takenBy, hzero, hless, hnot, hne]

/-- **The bytes** go to the end of the line, as far as there is room. -/
lemma foldlM_sendKeyIn (w : Files) (k depth : ℕ) {bytes : List UInt8}
    (hbytes : ∀ c ∈ bytes, NameChar c) (s : Tty) (fds : FdTable) :
    ∃ t, bytes.foldlM (sendKeyIn w k (depth + 1)) (s, fds) = some (t, fds)
      ∧ t.line = s.line ++ takenBy s.line.length bytes := by
  induction bytes generalizing s with
  | nil => exact ⟨s, rfl, by rw [takenBy_nil, List.append_nil]⟩
  | cons c bytes ih =>
      have hc := hbytes c (List.mem_cons_self ..)
      have hclear : c ≠ 0x0c := by
        rintro rfl
        exact absurd hc.1 (by decide)
      obtain ⟨t, ht, hline⟩ := ih (fun b hb => hbytes b (List.mem_cons_of_mem _ hb))
        (ttySendchar id s c)
      refine ⟨t, ?_, ?_⟩
      · rw [List.foldlM_cons, sendKeyIn, if_neg hc.2.2, if_neg fun h => hclear h.1]
        exact ht
      · rw [hline, ttySendchar_nameChar hc, takenBy_cons, List.length_append, List.append_assoc]

/-- What a completed line is: the longest extension of the last word is added, as far as there is
room. -/
structure CompletesWord (names : List (List UInt8)) (s : Tty) (e : List UInt8) : Prop where
  found : (∃ name ∈ names, s.lastWord <+: name) → LongestExtension names s.lastWord e
  nothing : (¬ ∃ name ∈ names, s.lastWord <+: name) → e = []

/-- What is added comes from the names. -/
lemma CompletesWord.mem {names : List (List UInt8)} {s : Tty} {e : List UInt8}
    (h : CompletesWord names s e) {b : UInt8} (hb : b ∈ e) : ∃ name ∈ names, b ∈ name := by
  by_cases hsome : ∃ name ∈ names, s.lastWord <+: name
  · obtain ⟨name, hname, hfits⟩ := hsome
    exact ⟨name, hname, ((h.found ⟨name, hname, hfits⟩).fits name hname hfits).subset
      (List.mem_append_right _ hb)⟩
  · rw [h.nothing hsome] at hb
    exact absurd hb List.not_mem_nil

/-- `tty_ls` leaves the line alone. -/
lemma ttyLsIn_line {w : Files} {k m : ℕ} {filename : ℕ → UInt8} {s t : Tty} {fds fds' : FdTable}
    (h : ttyLsIn w k filename m s fds = some (t, fds')) : t.line = s.line := by
  rw [ttyLsIn] at h
  split at h
  · obtain ⟨r, -, h⟩ := Option.bind_eq_some_iff.mp h
    obtain ⟨q, -, h⟩ := Option.map_eq_some_iff.mp h
    obtain ⟨rfl, -⟩ := Prod.mk.inj h
    refine line_congr ?_
    rw [rewrite_inputSide, Tty.withDisplay_inputSide]
    split
    · rw [ttyPutBytes_setup, foldl_setup]
    · rw [foldl_setup]
  · exact absurd h (by simp)

lemma map_nameOf_namesFrom (fs : Fs) (n : ℕ) :
    (namesFrom fs 0 n).map nameOf = (fs.entries n).map Dentry.name := by
  rw [namesFrom, Fs.entries, List.map_map, List.map_map, Nat.sub_zero, ← List.range_eq_range']
  exact List.map_congr_left fun i _ => nameOf_buffer _

/-- **Tab completion** adds to the line the longest string that all names which start with its last
word go on with, as far as there is room.  It returns unless `tab_ls` is set, the names are
ambiguous, so that they are to be listed, and `check_shell` reads before the video page. -/
theorem tabComplete_extends {w : Files} {n : ℕ} (hrow : w.fs.Row n) (hn : n ≤ 62)
    (hinodes : n ≤ w.numInodes.toNat) (hdot : w.HasDot)
    (hnames : ∀ d ∈ w.fs.entries n, ∀ b ∈ d.name, NameChar b) {fds : FdTable}
    (hfree : (freeFd fds).isSome = true) {s : Tty}
    (hword : ∀ b ∈ s.lastWord, isPrintable b = true) (hlen : s.lastWord.length ≤ 32) {k : ℕ}
    (hk : n < k) (depth : ℕ) :
    ∃ e, CompletesWord ((w.fs.entries n).map Dentry.name) s e
      ∧ (∀ t fds', tabCompleteIn w k (sendKeyIn w k (depth + 1)) s fds = some (t, fds') →
        t.line = s.line ++ takenBy s.line.length e)
      ∧ (¬ (s.tabLs = true ∧ shellMapped s = false
          ∧ Ambiguous ((w.fs.entries n).map Dentry.name) s.lastWord) →
        (tabCompleteIn w k (sendKeyIn w k (depth + 1)) s fds).isSome = true) := by
  have hfiles : n < MAX_FILES := by
    rw [MAX_FILES]
    omega
  have hopened : OpenedDirectory (openDot w fds) := by
    rcases openDot_spec hdot fds with ⟨-, -, hopened⟩ | ⟨hnone, -⟩
    · exact hopened
    · rw [hnone] at hfree
      exact absurd hfree (by simp)
  have hnonzero : ∀ b ∈ s.lastWord, b ≠ 0 := by
    rintro b hb rfl
    exact absurd (hword 0 hb) (by decide)
  obtain ⟨o, ho, hdecides⟩ := outcome_row hrow hfiles hinodes hopened hk s
  obtain ⟨c, hc, hfound, hnothing, hambiguous⟩ :=
    completion_extension hnonzero hlen (namesFrom w.fs 0 n)
  rw [map_nameOf_namesFrom] at hfound hnothing hambiguous
  have hcompletes : CompletesWord ((w.fs.entries n).map Dentry.name) s c.bytes := ⟨hfound, hnothing⟩
  have hbytes : ∀ b ∈ c.bytes, NameChar b := by
    intro b hb
    obtain ⟨name, hname, hbname⟩ := hcompletes.mem hb
    obtain ⟨d, hd, rfl⟩ := List.mem_map.mp hname
    exact hnames d hd b hbname
  rw [hc] at hdecides
  refine ⟨c.bytes, hcompletes, ?_⟩
  rw [tabCompleteIn, ho, Option.bind_some]
  cases o with
  | tooLong => cases hdecides
  | noMatch fds₁ =>
      obtain rfl := Option.some.inj hdecides
      refine ⟨fun t fds' h => ?_, fun _ => rfl⟩
      obtain ⟨rfl, -⟩ := Prod.mk.inj (Option.some.inj h)
      rw [Completion.bytes, takenBy_nil, List.append_nil]
      rfl
  | ambiguous filename m fds₁ =>
      obtain rfl := Option.some.inj hdecides
      simp only [Completion.bytes, takenBy_nil, List.append_nil]
      split
      · rename_i hls
        refine ⟨fun t fds' h => ?_, fun hreturns => ?_⟩
        · obtain ⟨r, hr, h⟩ := Option.map_eq_some_iff.mp h
          obtain ⟨rfl, -⟩ := Prod.mk.inj h
          have hline : r.1.line = s.line := ttyLsIn_line hr
          exact hline
        · have hmapped : shellMapped s = true := by
            by_contra hunmapped
            exact hreturns ⟨hls, Bool.not_eq_true _ ▸ hunmapped, hambiguous filename m rfl⟩
          rw [Option.isSome_map]
          exact ttyLsIn_isSome hrow hfiles hinodes hdot hk filename m hmapped fds₁
      · refine ⟨fun t fds' h => ?_, fun _ => rfl⟩
        obtain ⟨rfl, -⟩ := Prod.mk.inj (Option.some.inj h)
        rfl
  | add bytes fd fds₁ =>
      obtain rfl := Option.some.inj hdecides
      simp only [Completion.bytes] at hbytes ⊢
      obtain ⟨t, ht, hline⟩ := foldlM_sendKeyIn w k depth hbytes s fds₁
      rw [ht]
      refine ⟨fun t' fds' h => ?_, fun _ => rfl⟩
      obtain ⟨rfl, -⟩ := Prod.mk.inj (Option.some.inj h)
      exact hline

/-- A directory with these names; the one that is `.` is the directory. -/
def directoryOf (names : List (List UInt8)) : Files where
  fs :=
    { numDirEntries := names.length.toUInt32
      dentries := fun i =>
        { filename := fun k => (names.getD i []).getD k 0
          fileType := if names.getD i [] = [46] then FILE_TYPE_DIR else FILE_TYPE_REGULAR
          inodeNum := 0
          reserved := fun _ => 0 }
      inodes := fun _ => ⟨0, fun _ => 0⟩
      data := fun _ _ => 0
      dataBlockBitmap := fun _ => 0 }
  numInodes := 64
  counter := 0

lemma directoryOf_row {names : List (List UInt8)} (hle : names.length ≤ MAX_FILES)
    (hnames : ∀ i < names.length, dentryAt (directoryOf names).fs i = true) :
    (directoryOf names).fs.Row names.length := by
  refine ⟨hle, hnames, fun i hi _ => ?_⟩
  have hempty : names[i]?.getD [] = [] := by
    rw [List.getElem?_eq_none hi, Option.getD_none]
  simp [directoryOf, hempty]

/-- The descriptors of a process that has opened nothing. -/
def noneOpen : FdTable := fun _ => Fd.zero

/-- The key `a` on a fresh terminal. -/
def typedA : Tty := ttySendchar id freshTty 0x61

/-- The names `.`, `abc` and `abd`. -/
def abcAbd : List (List UInt8) := [[46], [0x61, 0x62, 0x63], [0x61, 0x62, 0x64]]

/-- Of `abc` and `abd` the word `a` is completed. -/
theorem tabComplete_extends_typedA :
    ∃ e, CompletesWord abcAbd typedA e
      ∧ ∃ t fds', tabCompleteIn (directoryOf abcAbd) 4 (sendKeyIn (directoryOf abcAbd) 4 1) typedA
          noneOpen = some (t, fds')
        ∧ t.line = [0x61] ++ e.take 126 := by
  have hnames : ((directoryOf abcAbd).fs.entries 3).map Dentry.name = abcAbd := by decide +kernel
  have hline : typedA.line = [0x61] := by decide +kernel
  have hfree : (freeFd noneOpen).isSome = true := by decide +kernel
  obtain ⟨e, hcompletes, hadded, hreturns⟩ := tabComplete_extends (w := directoryOf abcAbd) (n := 3)
    (directoryOf_row (by decide) (by decide +kernel)) (by decide) (by decide)
    ⟨_, rfl, by decide +kernel⟩ (by decide +kernel) hfree
    (s := typedA) (by decide +kernel) (by decide +kernel) (k := 4) (by decide) 0
  have hls : typedA.tabLs ≠ true := by decide +kernel
  obtain ⟨⟨t, fds'⟩, ht⟩ := Option.isSome_iff_exists.mp (hreturns fun h => hls h.1)
  have hresult := hadded t fds' ht
  rw [hnames] at hcompletes
  have hnone : NEWLINE ∉ e := by
    intro hmem
    obtain ⟨name, hname, hnewline⟩ := hcompletes.mem hmem
    revert name
    decide
  rw [hline, takenBy_of_not_mem hnone] at hresult
  exact ⟨e, hcompletes, t, fds', ht, hresult⟩

/-- A terminal with 127 bytes in its line, of which the last is `a` and the others are spaces. -/
def fullLine : Tty :=
  { freshTty.modifyScreen 0 fun r =>
      { r with inputHistory := fun _ i => if i < 126 then SPACE else 0x61 } with
    bufferSize := 127 }

/-- Without an entry for the directory itself `abc` is not found.  And a newline in a name is taken
as byte 128. -/
theorem tabComplete_noDot :
    ((directoryOf [[0x61, 0x62, 0x63]]).fs.Row 1 ∧ (freeFd noneOpen).isSome = true
        ∧ ((directoryOf [[0x61, 0x62, 0x63]]).fs.entries 1).map Dentry.name = [[0x61, 0x62, 0x63]]
        ∧ typedA.lastWord = [0x61]
        ∧ LongestExtension [[0x61, 0x62, 0x63]] typedA.lastWord [0x62, 0x63]
        ∧ (tabCompleteIn (directoryOf [[0x61, 0x62, 0x63]]) 2
            (sendKeyIn (directoryOf [[0x61, 0x62, 0x63]]) 2 1) typedA noneOpen).map
            (fun r => r.1.line) = some [0x61])
      ∧ (directoryOf [[46], [0x61, NEWLINE]]).fs.Row 2
      ∧ (fullLine.line.length, fullLine.lastWord) = (127, [0x61])
      ∧ (tabCompleteIn (directoryOf [[46], [0x61, NEWLINE]]) 3
          (sendKeyIn (directoryOf [[46], [0x61, NEWLINE]]) 3 1) fullLine noneOpen).map
          (fun r => r.1.line) = some (fullLine.line ++ [NEWLINE]) := by
  have hword : typedA.lastWord = [0x61] := by decide +kernel
  refine ⟨⟨directoryOf_row (by decide) (by decide +kernel), by decide +kernel, by decide +kernel,
    hword, ?_, by decide +kernel⟩, directoryOf_row (by decide) (by decide +kernel),
    by decide +kernel, by decide +kernel⟩
  have hlongest : LongestExtension ([] ++ [[0x61] ++ [0x62, 0x63]]) [0x61] [(0x62 : UInt8), 0x63] :=
    LongestExtension.of_first (fun _ hname => absurd hname List.not_mem_nil) _
  rw [hword]
  exact hlongest

end CustomLinuxOs
