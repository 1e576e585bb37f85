import CustomLinuxOs.Networking.SegmentRoundTrip

/-!
The option loop of `tcp_parse_packet` on well-formed option lists.

* `TcpOption`, `OptionList`: the options of a header, and what may stand behind them.
* `optionsEnd`: how far the pointer of the loop moves; `tcpOptionsLoop_eq`.
* `mssAfter`, `scaleAfter`: what the options are meant to do.
* `Skippable`: the loop passes over two bytes behind each unknown option, and only a zero byte
  ends it; a list on which this does no harm.
* `handlesOptions_iff`: such lists are handled as they are meant, and of the lists of known options
  no others.
-/

namespace CustomLinuxOs

/-! ### Option lists -/

/-- An option of a kind that the code does not know, with the data behind its length byte. -/
structure UnknownOption where
  kind : UInt8
  data : List UInt8
  unknown : kind ≠ 0 ∧ kind ≠ 1 ∧ kind ≠ 2 ∧ kind ≠ 3
  data_length : data.length ≤ 253

/-- An option. -/
inductive TcpOption where
  | nop
  | mss (v : UInt16)
  | windowScale (v : UInt8)
  | unknown (o : UnknownOption)

/-- The bytes of an option; the length byte counts itself and the kind. -/
def TcpOption.bytes : TcpOption → List UInt8
  | .nop => [1]
  | .mss v => 2 :: 4 :: writeU16 v
  | .windowScale v => [3, 3, v]
  | .unknown o => o.kind :: (o.data.length + 2).toUInt8 :: o.data

/-- The option is one of those the code knows. -/
def TcpOption.Known : TcpOption → Prop
  | .unknown _ => False
  | _ => True

lemma TcpOption.bytes_pos (o : TcpOption) : 0 < o.bytes.length := by
  cases o <;> exact Nat.succ_pos _

/-- The bytes of options one after the other. -/
def optionBytes : List TcpOption → List UInt8
  | [] => []
  | o :: options => o.bytes ++ optionBytes options

/-- The options of a header, and what follows them up to its end: nothing, or kind 0 and
padding. -/
structure OptionList where
  options : List TcpOption
  tail : List UInt8
  tail_cases : tail = [] ∨ ∃ padding, tail = 0 :: padding

/-- The part of the header behind its fixed part. -/
def OptionList.bytes (l : OptionList) : List UInt8 := optionBytes l.options ++ l.tail

/-- The segment size that is meant: the least one offered. -/
def mssAfter : List TcpOption → UInt32 → UInt32
  | [], mss => mss
  | .mss v :: options, mss => mssAfter options (min mss v.toUInt32)
  | _ :: options, mss => mssAfter options mss

/-- The scaling that is meant: the last one given. -/
def scaleAfter : List TcpOption → UInt8 → UInt8
  | [], scale => scale
  | .windowScale v :: options, _ => scaleAfter options v
  | _ :: options, scale => scaleAfter options scale

/-! ### The pointer of the loop -/

/-- How many bytes the pointer `options` moves in the option loop.  The last of them is read. -/
def optionsEnd : ℕ → List UInt8 → ℕ
  | 0, _ => 0
  | n + 1, options =>
      let kind := readU8 options
      if kind.1 = 0 then 1
      else if kind.1 = 1 then 1 + optionsEnd n kind.2
      else if kind.1 = 2 then
        let j := readU8 kind.2
        if j.1 = 4 then 4 + optionsEnd n (readU16 j.2).2 else 2
      else if kind.1 = 3 then
        let j := readU8 kind.2
        if j.1 = 3 then 3 + optionsEnd n (readU8 j.2).2 else 2
      else
        let j := readU8 kind.2
        2 + j.1.toNat + optionsEnd n (j.2.drop j.1.toNat)

/-- **The loop and its pointer**: what `tcpOptions` gives, and a pointer moved by `optionsEnd`. -/
theorem tcpOptionsLoop_eq (n : ℕ) (options : List UInt8) (mss : UInt32) (scale : UInt8) :
    tcpOptionsLoop n options mss scale
      = (tcpOptions n options mss scale, options.drop (optionsEnd n options)) := by
  have hsnd : (tcpOptionsLoop n options mss scale).2 = options.drop (optionsEnd n options) := by
    induction n generalizing options mss scale with
    | zero => rfl
    | succ n ih =>
        simp only [tcpOptionsLoop, optionsEnd]
        split_ifs <;> simp only [ih, readU8_snd, readU16_snd, List.drop_drop]
  exact Prod.ext (tcpOptionsLoop_fst n options mss scale) hsnd

lemma optionsEnd_pos (n : ℕ) (options : List UInt8) : 0 < optionsEnd (n + 1) options := by
  simp only [optionsEnd]
  split_ifs <;> omega

section Steps

variable (n : ℕ) (rest : List UInt8) (mss : UInt32) (scale : UInt8)

/-- Kind 0 ends the loop. -/
lemma tcpOptions_end : tcpOptions (n + 1) (0 :: rest) mss scale = (mss, scale, true)
    ∧ optionsEnd (n + 1) (0 :: rest) = 1 := ⟨rfl, rfl⟩

/-- One known option. -/
lemma tcpOptions_known {o : TcpOption} (ho : o.Known) :
    tcpOptions (n + 1) (o.bytes ++ rest) mss scale
        = tcpOptions n rest (mssAfter [o] mss) (scaleAfter [o] scale)
      ∧ optionsEnd (n + 1) (o.bytes ++ rest) = o.bytes.length + optionsEnd n rest := by
  cases o with
  | nop => exact ⟨rfl, rfl⟩
  | mss v =>
      have hmin : (if v.toUInt32 < mss then v.toUInt32 else mss) = min mss v.toUInt32 := by
        by_cases h : v.toUInt32 < mss
        · rw [if_pos h]
          exact (if_neg (UInt32.not_le.mpr h)).symm
        · rw [if_neg h]
          exact (if_pos (UInt32.not_lt.mp h)).symm
      have hread : readU16 (writeU16 v ++ rest) = (v, rest) := readU16_writeU16 v rest
      constructor
      · calc tcpOptions (n + 1) (2 :: 4 :: (writeU16 v ++ rest)) mss scale
            = tcpOptions n (readU16 (writeU16 v ++ rest)).2
                (if (readU16 (writeU16 v ++ rest)).1.toUInt32 < mss
                  then (readU16 (writeU16 v ++ rest)).1.toUInt32 else mss) scale := rfl
          _ = tcpOptions n rest (min mss v.toUInt32) scale := by rw [hread, hmin]
      · calc optionsEnd (n + 1) (2 :: 4 :: (writeU16 v ++ rest))
            = 4 + optionsEnd n (readU16 (writeU16 v ++ rest)).2 := rfl
          _ = 4 + optionsEnd n rest := by rw [hread]
  | windowScale v => exact ⟨rfl, rfl⟩
  | unknown o => exact ho.elim

/-- An unknown option takes the two bytes behind it with it. -/
lemma tcpOptions_unknown (o : UnknownOption) (a b : UInt8) :
    tcpOptions (n + 1) ((TcpOption.unknown o).bytes ++ a :: b :: rest) mss scale
        = tcpOptions n rest mss scale
      ∧ optionsEnd (n + 1) ((TcpOption.unknown o).bytes ++ a :: b :: rest)
        = (TcpOption.unknown o).bytes.length + 2 + optionsEnd n rest := by
  obtain ⟨h0, h1, h2, h3⟩ := o.unknown
  have hlen : ((o.data.length + 2).toUInt8).toNat = o.data.length + 2 :=
    Nat.mod_eq_of_lt (by have := o.data_length; omega)
  have hdrop : (o.data ++ a :: b :: rest).drop (o.data.length + 2) = rest := by
    rw [← List.drop_drop, List.drop_left]
    rfl
  have hbytes : (TcpOption.unknown o).bytes ++ a :: b :: rest
      = o.kind :: (o.data.length + 2).toUInt8 :: (o.data ++ a :: b :: rest) := rfl
  have hcount : (TcpOption.unknown o).bytes.length = o.data.length + 2 := rfl
  rw [hbytes, hcount]
  simp only [tcpOptions, optionsEnd, readU8_cons, if_neg h0, if_neg h1, if_neg h2, if_neg h3, hlen,
    hdrop]
  exact ⟨trivial, by omega⟩

end Steps

/-! ### Lists on which the loop does no harm -/

/-- The loop meets kind 0 behind the options, and the two bytes that it passes over behind each
unknown option mean nothing: they are NOPs, or at the end of the list. -/
inductive Skippable : List TcpOption → List UInt8 → Prop where
  | ended (padding : List UInt8) : Skippable [] (0 :: padding)
  | known {o : TcpOption} {options : List TcpOption} {tail : List UInt8} (ho : o.Known)
      (h : Skippable options tail) : Skippable (o :: options) tail
  | unknownNops {options : List TcpOption} {tail : List UInt8} (o : UnknownOption)
      (h : Skippable options tail) : Skippable (.unknown o :: .nop :: .nop :: options) tail
  | unknownNop (o : UnknownOption) (padding : List UInt8) :
      Skippable [.unknown o, .nop] (0 :: 0 :: padding)
  | unknownEnd (o : UnknownOption) (a : UInt8) (padding : List UInt8) :
      Skippable [.unknown o] (0 :: a :: 0 :: padding)

lemma Skippable.tail_pos {options : List TcpOption} {tail : List UInt8}
    (h : Skippable options tail) : 0 < tail.length := by
  induction h with
  | ended padding => exact Nat.succ_pos _
  | known _ _ ih => exact ih
  | unknownNops _ _ ih => exact ih
  | unknownNop _ padding => exact Nat.succ_pos _
  | unknownEnd _ _ padding => exact Nat.succ_pos _

lemma mssAfter_cons (o : TcpOption) (options : List TcpOption) (mss : UInt32) :
    mssAfter (o :: options) mss = mssAfter options (mssAfter [o] mss) := by
  cases o <;> rfl

lemma scaleAfter_cons (o : TcpOption) (options : List TcpOption) (scale : UInt8) :
    scaleAfter (o :: options) scale = scaleAfter options (scaleAfter [o] scale) := by
  cases o <;> rfl

/-- The end of the list, after `k` bytes more. -/
lemma tcpOptions_atEnd {n k : ℕ} {options : List UInt8} (padding rest : List UInt8) {mss : UInt32}
    {scale : UInt8}
    (h : tcpOptions (n + 1) options mss scale = tcpOptions n (0 :: padding ++ rest) mss scale
      ∧ optionsEnd (n + 1) options = k + optionsEnd n (0 :: padding ++ rest)) (hn : 0 < n) :
    tcpOptions (n + 1) options mss scale = (mss, scale, true)
      ∧ optionsEnd (n + 1) options ≤ k + (0 :: padding).length := by
  obtain ⟨m, rfl⟩ := Nat.exists_eq_add_of_lt hn
  rw [Nat.zero_add] at h ⊢
  have hend := tcpOptions_end m (padding ++ rest) mss scale
  rw [h.1, h.2, List.cons_append, hend.1, hend.2, List.length_cons]
  exact ⟨rfl, by omega⟩

/-- **The option loop** on a list on which it does no harm: the options have the effect that is
meant, and the pointer stays in the list. -/
lemma tcpOptions_skippable {options : List TcpOption} {tail : List UInt8}
    (h : Skippable options tail) (payload : List UInt8) {n : ℕ}
    (hn : (optionBytes options ++ tail).length < n) (mss : UInt32) (scale : UInt8) :
    tcpOptions n (optionBytes options ++ tail ++ payload) mss scale
        = (mssAfter options mss, scaleAfter options scale, true)
      ∧ optionsEnd n (optionBytes options ++ tail ++ payload)
        ≤ (optionBytes options ++ tail).length := by
  obtain ⟨m, rfl⟩ : ∃ m, n = m + 1 := ⟨n - 1, by omega⟩
  induction h generalizing m mss scale with
  | ended padding =>
      have hend := tcpOptions_end m (padding ++ payload) mss scale
      exact ⟨hend.1, hend.2.le.trans (Nat.le_add_left _ _)⟩
  | @known o options tail ho h ih =>
      have hpos := o.bytes_pos
      simp only [optionBytes, List.append_assoc, List.length_append] at hn ih ⊢
      obtain ⟨hstep, hend⟩ := tcpOptions_known m (optionBytes options ++ (tail ++ payload)) mss
        scale ho
      obtain ⟨m, rfl⟩ : ∃ k, m = k + 1 := ⟨m - 1, by omega⟩
      obtain ⟨hrest, hle⟩ := ih (mssAfter [o] mss) (scaleAfter [o] scale) m (by omega)
      rw [hstep, hend, hrest, mssAfter_cons o options, scaleAfter_cons o options]
      exact ⟨rfl, by omega⟩
  | @unknownNops options tail o h ih =>
      simp only [optionBytes, List.append_assoc, List.length_append] at hn ih ⊢
      obtain ⟨hstep, hend⟩ := tcpOptions_unknown m (optionBytes options ++ (tail ++ payload)) mss
        scale o 1 1
      have hcount : (TcpOption.unknown o).bytes.length = o.data.length + 2 := rfl
      have hnop : TcpOption.nop.bytes.length = 1 := rfl
      obtain ⟨m, rfl⟩ : ∃ k, m = k + 1 := ⟨m - 1, by omega⟩
      obtain ⟨hrest, hle⟩ := ih mss scale m (by omega)
      have hbytes : TcpOption.nop.bytes ++ (TcpOption.nop.bytes
          ++ (optionBytes options ++ (tail ++ payload)))
          = 1 :: 1 :: (optionBytes options ++ (tail ++ payload)) := rfl
      rw [hbytes, hstep, hend, hrest]
      exact ⟨rfl, by omega⟩
  | unknownNop o padding =>
      have hcount : (TcpOption.unknown o).bytes.length = o.data.length + 2 := rfl
      have hnop : TcpOption.nop.bytes.length = 1 := rfl
      simp only [optionBytes, List.append_assoc, List.length_append, List.length_cons,
        List.append_nil] at hn ⊢
      obtain ⟨hend, hle⟩ := tcpOptions_atEnd padding payload
        (tcpOptions_unknown m (0 :: padding ++ payload) mss scale o 1 0) (by omega)
      rw [List.length_cons] at hle
      exact ⟨hend, hle.trans (by omega)⟩
  | unknownEnd o a padding =>
      have hcount : (TcpOption.unknown o).bytes.length = o.data.length + 2 := rfl
      simp only [optionBytes, List.append_assoc, List.length_append, List.length_cons,
        List.append_nil] at hn ⊢
      obtain ⟨hend, hle⟩ := tcpOptions_atEnd padding payload
        (tcpOptions_unknown m (0 :: padding ++ payload) mss scale o 0 a) (by omega)
      rw [List.length_cons] at hle
      exact ⟨hend, hle.trans (by omega)⟩

/-- Known options, each of them in one pass. -/
lemma optionsEnd_known {options : List TcpOption} (hknown : ∀ o ∈ options, o.Known) (n : ℕ)
    (rest : List UInt8) :
    optionsEnd (n + options.length) (optionBytes options ++ rest)
      = (optionBytes options).length + optionsEnd n rest := by
  induction options with
  | nil => exact (Nat.zero_add _).symm
  | cons o options ih =>
      have hstep := tcpOptions_known (n + options.length) (optionBytes options ++ rest) 0 0
        (hknown o List.mem_cons_self)
      rw [List.length_cons, ← Nat.add_assoc, optionBytes, List.append_assoc, hstep.2,
        ih fun o ho => hknown o (List.mem_cons_of_mem _ ho), List.length_append, Nat.add_assoc]

lemma length_le_optionBytes (options : List TcpOption) :
    options.length ≤ (optionBytes options).length := by
  induction options with
  | nil => exact Nat.zero_le _
  | cons o options ih =>
      have hpos := o.bytes_pos
      rw [optionBytes, List.length_append, List.length_cons]
      omega

/-! ### Segments with options -/

/-- A list that takes no room, or on which the loop does no harm. -/
def OptionList.Benign (l : OptionList) : Prop := l.bytes = [] ∨ Skippable l.options l.tail

/-- The state with the flags of a segment handled and its options as they are meant. -/
def optionsApplied (s : Net) (i : ℕ) (h : TcpHeader) (l : OptionList) : Net :=
  let t := tcpHandleFlags s i h
  t.setConnection i
    { t.connections i with
      mss := mssAfter l.options (s.connections i).mss
      windowScale := scaleAfter l.options (s.connections i).windowScale }

/-- The options `l` of a segment are handled as they are meant: no byte behind them is read as an
option, they have the effect that is meant, and the payload is processed. -/
structure HandlesOptions (reply : Ip → List (Mac × Ip)) (s : Net) (i : ℕ) (packet : List UInt8)
    (len : UInt32) (h : TcpHeader) (l : OptionList) (payload : List UInt8) : Prop where
  inside : h.flags.dataOffset * 4 > TCP_HEADER_LENGTH →
    optionsEnd ((l.bytes ++ payload).length + 1) (l.bytes ++ payload) ≤ l.bytes.length
  effect : tcpParsePacket reply s packet len
    = tcpPayload reply (optionsApplied s i h l) i h payload len

lemma skippable_of_known {options : List TcpOption} (hknown : ∀ o ∈ options, o.Known)
    (padding : List UInt8) : Skippable options (0 :: padding) := by
  induction options with
  | nil => exact .ended padding
  | cons o options ih =>
      exact .known (hknown o List.mem_cons_self)
        (ih fun o ho => hknown o (List.mem_cons_of_mem _ ho))

section Segment

variable (reply : Ip → List (Mac × Ip)) {s : Net} {i : ℕ} {packet payload : List UInt8}
  {len : UInt32} {h : TcpHeader} {l : OptionList}

/-- A segment without options. -/
lemma handlesOptions_of_nil (hread : readTcpHeader packet = (h, l.bytes ++ payload))
    (hfind : findConnection s h = some i)
    (hlen : TCP_HEADER_LENGTH + l.bytes.length = 4 * h.flags.dataOffset) (hnil : l.bytes = []) :
    HandlesOptions reply s i packet len h l payload := by
  obtain ⟨hoptions, -⟩ := List.append_eq_nil_iff.mp hnil
  have hnone : l.options = [] := by
    have := length_le_optionBytes l.options
    rw [hoptions] at this
    exact List.length_eq_zero_iff.mp (Nat.le_zero.mp this)
  rw [hnil, List.nil_append] at hread
  rw [hnil, List.length_nil] at hlen
  have hshort : ¬ h.flags.dataOffset * 4 > TCP_HEADER_LENGTH := by omega
  refine ⟨fun hlong => absurd hlong hshort, ?_⟩
  obtain ⟨_, _, _, _, _, _, _, _, hflags⟩ := tcpHandleFlags_frame s i h
  have hsame : optionsApplied s i h l = tcpHandleFlags s i h := by
    have hconn : { (tcpHandleFlags s i h).connections i with
        mss := (s.connections i).mss, windowScale := (s.connections i).windowScale }
        = (tcpHandleFlags s i h).connections i := by rw [hflags]
    rw [optionsApplied, hnone]
    simp only [mssAfter, scaleAfter, hconn, Net.setConnection, Function.update_eq_self]
  simp only [tcpParsePacket, hread, hfind, tcpInput, if_neg hshort, hsame]

/-- A segment with a list on which the loop does no harm. -/
lemma handlesOptions_of_skippable (hread : readTcpHeader packet = (h, l.bytes ++ payload))
    (hfind : findConnection s h = some i)
    (hlen : TCP_HEADER_LENGTH + l.bytes.length = 4 * h.flags.dataOffset)
    (hskip : Skippable l.options l.tail) : HandlesOptions reply s i packet len h l payload := by
  have hpos : 0 < l.bytes.length := by
    rw [OptionList.bytes, List.length_append]
    have htail : 0 < l.tail.length := hskip.tail_pos
    omega
  have hlong : h.flags.dataOffset * 4 > TCP_HEADER_LENGTH := by omega
  have hdrop : (l.bytes ++ payload).drop (4 * h.flags.dataOffset - TCP_HEADER_LENGTH) = payload :=
    List.drop_left' (by omega)
  obtain ⟨_, _, _, _, _, _, _, _, hflags⟩ := tcpHandleFlags_frame s i h
  have hmss : ((tcpHandleFlags s i h).connections i).mss = (s.connections i).mss := by rw [hflags]
  have hscale : ((tcpHandleFlags s i h).connections i).windowScale
      = (s.connections i).windowScale := by rw [hflags]
  obtain ⟨hloop, hinside⟩ := tcpOptions_skippable hskip payload
    (n := (l.bytes ++ payload).length + 1)
    (by rw [← OptionList.bytes, List.length_append]; omega) (s.connections i).mss
    (s.connections i).windowScale
  rw [← OptionList.bytes] at hloop hinside
  refine ⟨fun _ => hinside, ?_⟩
  simp only [tcpParsePacket, hread, hfind, tcpInput, if_pos hlong, hmss, hscale, hloop, hdrop,
    if_true, optionsApplied]

/-- **Option lists** on which the loop does no harm are handled as they are meant.  A list of known
options is one of these just when it takes no room or is ended by kind 0, and no other list of
known options is handled so, whatever the connection and the payload are. -/
theorem handlesOptions_iff (hread : readTcpHeader packet = (h, l.bytes ++ payload))
    (hfind : findConnection s h = some i)
    (hlen : TCP_HEADER_LENGTH + l.bytes.length = 4 * h.flags.dataOffset) :
    (l.Benign → HandlesOptions reply s i packet len h l payload)
      ∧ ((∀ o ∈ l.options, o.Known) →
        (HandlesOptions reply s i packet len h l payload ↔ l.Benign)) := by
  have hgood : l.Benign → HandlesOptions reply s i packet len h l payload := by
    rintro (hnil | hskip)
    · exact handlesOptions_of_nil reply hread hfind hlen hnil
    · exact handlesOptions_of_skippable reply hread hfind hlen hskip
  refine ⟨hgood, fun hknown => ⟨fun hhandles => ?_, hgood⟩⟩
  rcases l.tail_cases with hopen | ⟨padding, hended⟩
  · -- nothing ends the list: the loop reads on in the payload
    rcases Nat.eq_zero_or_pos l.bytes.length with hzero | hpos
    · exact Or.inl (List.length_eq_zero_iff.mp hzero)
    · have hinside := hhandles.inside (by omega)
      have hbytes : l.bytes = optionBytes l.options := by
        rw [OptionList.bytes, hopen, List.append_nil]
      have hle := length_le_optionBytes l.options
      rw [← hbytes] at hle
      obtain ⟨n, hn⟩ : ∃ n, (l.bytes ++ payload).length + 1 = n + 1 + l.options.length :=
        ⟨(l.bytes ++ payload).length - l.options.length, by rw [List.length_append]; omega⟩
      have hread := optionsEnd_known hknown (n + 1) payload
      rw [← hbytes] at hread
      rw [hn, hread] at hinside
      have := optionsEnd_pos n payload
      omega
  · exact Or.inr (hended ▸ skippable_of_known hknown padding)

end Segment

/-- A host with one connection, with ports `0`. -/
def oneConnection : Net := Net.boot.setConnection 0 { Connection.zero with isValid := true }

/-- A segment for it, with options and a payload behind the fixed header. -/
def segmentWithOptions (dataOffset : UInt8) (rest : List UInt8) : List UInt8 :=
  List.replicate 12 (0 : UInt8) ++ [dataOffset <<< 4] ++ List.replicate 7 (0 : UInt8) ++ rest

/-- The segment size 1460 and kind 0 in a list of eight bytes. -/
theorem handlesOptions_iff_synOptions :
    HandlesOptions (fun _ => []) oneConnection 0
      (segmentWithOptions 7 [2, 4, 5, 180, 0, 0, 0, 0, 9]) 29
      (readTcpHeader (segmentWithOptions 7 [])).1
      ⟨[.mss 1460], [0, 0, 0, 0], .inr ⟨_, rfl⟩⟩ [9] :=
  (handlesOptions_iff (fun _ => []) (by decide) (by decide) (by decide)).1
    (.inr (.known trivial (.ended _)))

/-- With the segment size alone, in a list that it fills, the first byte of the payload is read as
an option. -/
theorem not_handlesOptions_full :
    ¬HandlesOptions (fun _ => []) oneConnection 0 (segmentWithOptions 6 [2, 4, 5, 180, 9, 9, 9])
      27 (readTcpHeader (segmentWithOptions 6 [])).1 ⟨[.mss 1460], [], .inl rfl⟩ [9, 9, 9] := by
  intro h
  exact absurd (h.inside (by decide)) (by decide)

end CustomLinuxOs
