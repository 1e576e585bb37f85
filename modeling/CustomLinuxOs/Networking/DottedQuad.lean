import Mathlib.Data.List.TakeWhile
import CustomLinuxOs.Filesystem.DirOperations
import CustomLinuxOs.Networking.Resolve

/-!
The strings that `parse_ip` takes for dotted quads.

* `fields`, `DottedQuad`: the parts of a string between its dots, and the strings that are meant.
* `parseIp_eq_true_iff`: `parse_ip` takes any four strings of digits, also empty ones, whose numbers
  are small modulo `2^32`.
* `parseIp_exact_iff`: the strings on which that is right.
-/

namespace CustomLinuxOs

/-- The parts of a string between its dots. -/
def fields (s : List UInt8) : List (List UInt8) := s.splitOn 46

/-- `s` is the dotted quad of the address `q`: between its dots there are four numbers, in the
range of an octet. -/
structure DottedQuad (s : CString) (q : Ip) : Prop where
  octets : q.toList = (fields s.val).map fun field => (numeral field).toUInt8
  numbers : ∀ field ∈ fields s.val, field ≠ [] ∧ field.all isDigit = true ∧ numeral field ≤ 255

/-- What `parse_ip` takes for an octet. -/
def TakenOctet (field : List UInt8) : Prop :=
  field.all isDigit = true ∧ numeral field % 2 ^ 32 ≤ 255

/-- `parse_ip` succeeds on dotted quads and on nothing else, and finds their address. -/
def ParsesExactly (s : CString) : Prop :=
  ∀ ip, ((parseIp s.val ip).1 = true ↔ ∃ q, DottedQuad s q)
    ∧ ∀ q, DottedQuad s q → (parseIp s.val ip).2 = q

/-! ### Numbers -/

/-- The range check sees the number modulo `2^32`. -/
lemma outOfRange_iff (n : ℕ) :
    (Int32.ofNat n < 0 ∨ Int32.ofNat n > 255) ↔ ¬ n % 2 ^ 32 ≤ 255 := by
  have hvalue : (Int32.ofNat n).toInt = (n : ℤ).bmod 4294967296 := Int32.toInt_ofNat'
  have hzero : (0 : Int32).toInt = 0 := rfl
  have hmax : (255 : Int32).toInt = 255 := rfl
  rw [gt_iff_lt, Int32.lt_iff_toInt_lt, Int32.lt_iff_toInt_lt, hvalue, hzero, hmax, Int.bmod_def]
  split <;> omega

lemma octet_eq (n : ℕ) : (Int32.ofNat n).toUInt32.toUInt8 = n.toUInt8 := by
  rw [Int32.toUInt32_ofNat', UInt32.toUInt8_ofNat']

/-! ### Fields -/

section Fields

variable {s : List UInt8} {field : List UInt8}

lemma isDigit_dot : isDigit 46 = false := rfl

lemma fields_ne_nil (s : List UInt8) : fields s ≠ [] := List.splitOn_ne_nil 46 s

/-- Where a dot comes behind the digits, they are the first field. -/
lemma fields_of_dot (h : (s.dropWhile isDigit).headD 0 = 46) :
    fields s = s.takeWhile isDigit :: fields ((s.dropWhile isDigit).drop 1) := by
  cases hrest : s.dropWhile isDigit with
  | nil =>
      rw [hrest] at h
      exact absurd h (by decide)
  | cons c rest =>
      rw [hrest] at h
      obtain rfl : c = 46 := h
      have hnodot : (46 : UInt8) ∉ s.takeWhile isDigit := fun hmem =>
        absurd (List.mem_takeWhile_imp hmem) (by simp [isDigit_dot])
      conv_lhs => rw [← List.takeWhile_append_dropWhile (p := isDigit) (l := s), hrest]
      exact List.splitOn_append_cons_self_of_not_mem hnodot rest

/-- A first field of digits before other fields ends with a dot. -/
lemma dot_of_fields {more : List (List UInt8)} (h : fields s = field :: more) (hmore : more ≠ [])
    (hdigits : field.all isDigit = true) : (s.dropWhile isDigit).headD 0 = 46 := by
  obtain ⟨next, rest, rfl⟩ := List.exists_cons_of_ne_nil hmore
  have hs : s = field ++ 46 :: [46].intercalate (next :: rest) := by
    have hjoin : [46].intercalate (fields s) = s := List.intercalate_splitOn 46
    rw [← hjoin, h, List.intercalate_cons_cons]
    simp
  rw [hs, List.dropWhile_append_of_pos fun c hc => List.all_eq_true.mp hdigits c hc]
  rfl

/-- A string of digits is one field. -/
lemma fields_of_digits (h : s.all isDigit = true) : fields s = [s] :=
  List.splitOn_eq_singleton fun hmem =>
    absurd (List.all_eq_true.mp h 46 hmem) (by simp [isDigit_dot])

lemma eq_of_fields_singleton (h : fields s = [field]) : s = field := by
  have hjoin : [46].intercalate (fields s) = s := List.intercalate_splitOn 46
  rw [← hjoin, h]
  simp

end Fields

/-! ### Strings -/

/-- The octets from index `i` on are set. -/
def setOctets : ℕ → List UInt8 → Ip → Ip
  | _, [], ip => ip
  | i, v :: values, ip => setOctets (i + 1) values (ip.setIfInBounds i v)

/-- The octet that a field is taken for. -/
def octet (field : List UInt8) : UInt8 := (numeral field).toUInt8

section Strings

variable {s : List UInt8}

lemma drop_digits (s : List UInt8) : s.drop (s.takeWhile isDigit).length = s.dropWhile isDigit :=
  calc s.drop (s.takeWhile isDigit).length
      = (s.takeWhile isDigit ++ s.dropWhile isDigit).drop (s.takeWhile isDigit).length := by
        rw [List.takeWhile_append_dropWhile]
    _ = s.dropWhile isDigit := List.drop_left

/-- A string without zero bytes ends behind its digits exactly when it has nothing else. -/
lemma headD_dropWhile_eq_zero_iff (hs : 0 ∉ s) :
    (s.dropWhile isDigit).headD 0 = 0 ↔ s.all isDigit = true := by
  rw [List.all_eq_true, ← List.dropWhile_eq_nil_iff]
  cases hrest : s.dropWhile isDigit with
  | nil => exact iff_of_true rfl rfl
  | cons c rest =>
      refine iff_of_false (fun hzero => hs ?_) (List.cons_ne_nil c rest)
      obtain rfl : c = 0 := hzero
      exact (List.dropWhile_suffix isDigit).subset (hrest ▸ List.mem_cons_self ..)

lemma setOctets_toList (ip : Ip) (a b c d : UInt8) :
    ((setOctets 0 [a, b, c] ip).setIfInBounds 3 d).toList = [a, b, c, d] := by
  have hvector : (setOctets 0 [a, b, c] ip).setIfInBounds 3 d = #v[a, b, c, d] := by
    refine Vector.ext fun i hi => ?_
    interval_cases i <;> simp [setOctets]
  rw [hvector]
  rfl

/-- **The loop of `parse_ip`** takes `n` fields with a dot behind each. -/
lemma parseIpLoop_eq (n i : ℕ) (s : List UInt8) (ip : Ip) :
    (n < (fields s).length ∧ (∀ field ∈ (fields s).take n, TakenOctet field) →
      ∃ rest, rest <:+ s ∧ fields rest = (fields s).drop n
        ∧ parseIpLoop n i s ip = (some rest, setOctets i (((fields s).take n).map octet) ip))
    ∧ (¬ (n < (fields s).length ∧ ∀ field ∈ (fields s).take n, TakenOctet field) →
      (parseIpLoop n i s ip).1 = none) := by
  induction n generalizing i s ip with
  | zero =>
      refine ⟨fun _ => ⟨s, List.suffix_rfl, rfl, rfl⟩, fun hnot => absurd ?_ hnot⟩
      exact ⟨List.length_pos_iff.mpr (fields_ne_nil s), fun _ hmem => absurd hmem List.not_mem_nil⟩
  | succ n ih =>
      simp only [parseIpLoop, atoi_eq, drop_digits, outOfRange_iff, octet_eq]
      by_cases hdot : (s.dropWhile isDigit).headD 0 = 46
      · have hfields := fields_of_dot hdot
        have hall : (s.takeWhile isDigit).all isDigit = true :=
          List.all_eq_true.mpr fun _ hmem => List.mem_takeWhile_imp hmem
        rw [if_neg (not_not.mpr hdot), hfields, List.length_cons, List.take_succ_cons,
          List.drop_succ_cons, List.map_cons, List.forall_mem_cons]
        by_cases hrange : numeral (s.takeWhile isDigit) % 2 ^ 32 ≤ 255
        · obtain ⟨htaken, hnot⟩ := ih (i + 1) ((s.dropWhile isDigit).drop 1)
            (ip.setIfInBounds i (numeral (s.takeWhile isDigit)).toUInt8)
          have hsuffix : (s.dropWhile isDigit).drop 1 <:+ s :=
            (List.drop_suffix 1 _).trans (List.dropWhile_suffix _)
          rw [if_neg (not_not.mpr hrange)]
          refine ⟨?_, fun h => hnot (mt ?_ h)⟩
          · rintro ⟨hlt, -, hrest⟩
            obtain ⟨rest, hsuf, hrestFields, hloop⟩ := htaken ⟨Nat.lt_of_succ_lt_succ hlt, hrest⟩
            exact ⟨rest, hsuf.trans hsuffix, hrestFields, hloop⟩
          · rintro ⟨hlt, hrest⟩
            exact ⟨Nat.succ_lt_succ hlt, ⟨hall, hrange⟩, hrest⟩
        · rw [if_pos hrange]
          exact ⟨fun h => absurd h.2.1.2 hrange, fun _ => rfl⟩
      · rw [if_pos hdot]
        refine ⟨?_, fun _ => rfl⟩
        rintro ⟨hlt, hall⟩
        refine absurd ?_ hdot
        obtain ⟨field, more, hfields⟩ := List.exists_cons_of_ne_nil (fields_ne_nil s)
        rw [hfields] at hlt hall
        refine dot_of_fields hfields ?_ (hall field (List.mem_cons_self ..)).1
        rintro rfl
        exact absurd hlt (by simp)

/-- **`parse_ip`** takes four fields. -/
lemma parseIp_spec (s : CString) (ip : Ip) :
    ((parseIp s.val ip).1 = true
      ↔ (fields s.val).length = 4 ∧ ∀ field ∈ fields s.val, TakenOctet field)
    ∧ ((parseIp s.val ip).1 = true →
      (parseIp s.val ip).2.toList = (fields s.val).map octet) := by
  obtain ⟨htaken, hnot⟩ := parseIpLoop_eq 3 0 s.val ip
  by_cases hthree : 3 < (fields s.val).length ∧ ∀ field ∈ (fields s.val).take 3, TakenOctet field
  · obtain ⟨rest, hsuffix, hrest, hloop⟩ := htaken hthree
    have hzero : 0 ∉ rest := fun hmem => s.property (hsuffix.subset hmem)
    have hsplit := List.take_append_drop 3 (fields s.val)
    simp only [parseIp, hloop, atoi_eq, drop_digits, ne_eq, headD_dropWhile_eq_zero_iff hzero,
      outOfRange_iff, octet_eq]
    by_cases hdigits : rest.all isDigit = true
    · have hwhole : rest.takeWhile isDigit = rest :=
        List.takeWhile_eq_self_iff.mpr (List.all_eq_true.mp hdigits)
      rw [← hrest, fields_of_digits hdigits] at hsplit
      have hfour : (fields s.val).length = 4 := by
        rw [← hsplit, List.length_append, List.length_take, List.length_singleton]
        omega
      have htakenAll : (∀ field ∈ fields s.val, TakenOctet field) ↔ TakenOctet rest := by
        rw [← hsplit, List.forall_mem_append, List.forall_mem_singleton]
        exact and_iff_right hthree.2
      rw [if_neg (not_not.mpr hdigits), hwhole, htakenAll, and_iff_right hfour, TakenOctet,
        and_iff_right hdigits]
      by_cases hrange : numeral rest % 2 ^ 32 ≤ 255
      · rw [if_neg (not_not.mpr hrange)]
        refine ⟨iff_of_true rfl hrange, fun _ => ?_⟩
        have hlength : ((fields s.val).take 3).length = 3 := by
          rw [List.length_take]
          omega
        obtain ⟨a, b, c, habc⟩ := List.length_eq_three.mp hlength
        rw [habc] at hsplit ⊢
        rw [← hsplit]
        exact setOctets_toList ip _ _ _ _
      · rw [if_pos hrange]
        exact ⟨iff_of_false Bool.false_ne_true hrange, fun h => absurd h Bool.false_ne_true⟩
    · rw [if_pos hdigits]
      refine ⟨iff_of_false Bool.false_ne_true ?_, fun h => absurd h Bool.false_ne_true⟩
      rintro ⟨hfour, hall⟩
      refine hdigits ?_
      have hone : (fields rest).length = 1 := by
        rw [hrest, List.length_drop]
        omega
      obtain ⟨field, hfield⟩ := List.length_eq_one_iff.mp hone
      have hmem : field ∈ fields s.val := by
        rw [← hsplit, ← hrest, hfield]
        simp
      rw [eq_of_fields_singleton hfield]
      exact (hall field hmem).1
  · have hfail : (parseIp s.val ip).1 = false := by
      simp only [parseIp, hnot hthree]
    rw [hfail]
    refine ⟨iff_of_false Bool.false_ne_true ?_, fun h => absurd h Bool.false_ne_true⟩
    rintro ⟨hfour, hall⟩
    refine hthree ⟨by omega, ?_⟩
    exact fun field hmem => hall field (List.mem_of_mem_take hmem)

end Strings

/-- **`parse_ip` is right** exactly about the strings that are not four strings of digits between
dots of which one is empty, or one is a number beyond `255` that is in the range of an octet
modulo `2^32`. -/
theorem parseIp_exact_iff (s : CString) : ParsesExactly s
    ↔ ¬ ((fields s.val).length = 4 ∧ (∀ field ∈ fields s.val, TakenOctet field)
      ∧ ∃ field ∈ fields s.val, field = [] ∨ 255 < numeral field) := by
  constructor
  · rintro hexact ⟨hfour, htaken, field, hfield, hbad⟩
    have hparsed := (parseIp_spec s (Vector.replicate 4 0)).1.mpr ⟨hfour, htaken⟩
    obtain ⟨q, hq⟩ := (hexact (Vector.replicate 4 0)).1.mp hparsed
    obtain ⟨hne, -, hle⟩ := hq.numbers field hfield
    rcases hbad with hempty | hlarge
    · exact hne hempty
    · exact absurd hle (by omega)
  · intro hgood ip
    obtain ⟨htaken, hresult⟩ := parseIp_spec s ip
    have hquad {q : Ip} (hq : DottedQuad s q) : (parseIp s.val ip).1 = true := by
      refine htaken.mpr ⟨?_, fun field hfield => ?_⟩
      · have hlength := congrArg List.length hq.octets
        simpa using hlength.symm
      · obtain ⟨-, hdigits, hle⟩ := hq.numbers field hfield
        exact ⟨hdigits, by omega⟩
    refine ⟨⟨fun htrue => ⟨(parseIp s.val ip).2, hresult htrue, fun field hfield => ?_⟩,
      fun ⟨q, hq⟩ => hquad hq⟩, fun q hq => ?_⟩
    · obtain ⟨hfour, hall⟩ := htaken.mp htrue
      refine ⟨fun hempty => ?_, (hall field hfield).1, not_lt.mp fun hlarge => ?_⟩
      · exact hgood ⟨hfour, hall, field, hfield, Or.inl hempty⟩
      · exact hgood ⟨hfour, hall, field, hfield, Or.inr hlarge⟩
    · refine Vector.toList_inj.mp ?_
      rw [hresult (hquad hq), hq.octets]
      rfl

/-- `1..2.3` is taken for `1.0.2.3`. -/
theorem parseIp_emptyField : ¬ ParsesExactly ⟨[49, 46, 46, 50, 46, 51], by decide⟩ := by
  intro h
  have htrue : (parseIp [49, 46, 46, 50, 46, 51] (Vector.replicate 4 0)).1 = true := by decide
  obtain ⟨q, hq⟩ := (h (Vector.replicate 4 0)).1.mp htrue
  exact (hq.numbers [] (by decide)).1 rfl

end CustomLinuxOs
