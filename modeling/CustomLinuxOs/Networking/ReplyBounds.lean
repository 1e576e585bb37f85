import CustomLinuxOs.Foundations.Codec
import CustomLinuxOs.Networking.Dhcp
import CustomLinuxOs.Networking.DnsAnswers

/-!
How far `dns_parse` and `dhcp_parse_offer` read: the parsers once more, on a buffer that they must
not leave.

Both follow counts and lengths of the peer and do not know where the buffer ends.

* `skipNameIn`, `dnsQuestionsIn`, `dnsAnswersIn`, `dnsParseIn`, `dhcpOptionsIn`,
  `dhcpParseOfferIn`: they fail at the first read outside of the buffer.
* `ResponseComplete`, `OfferComplete`: the reply is whole in the buffer, as far as it is looked at.
* `dnsParseIn_stays`, `dhcpParseOfferIn_stays`: this is exactly when no read leaves the buffer, and
  then the parser ends with the same result whatever lies behind it; `replies_inside_iff` for the
  buffers of `dns_query` and `dhcp_init`.
-/

namespace CustomLinuxOs

lemma codec_u8 : FixedCodec 1 readU8 writeU8 where
  read_write := readU8_writeU8
  write_read p hp := by
    cases p with
    | nil => exact absurd hp (Nat.not_succ_le_zero 0)
    | cons b p => rfl
  write_length _ := rfl

lemma codec_u16 : FixedCodec 2 readU16 writeU16 where
  read_write := readU16_writeU16
  write_read p hp := by rw [readU16_snd, writeU16_append_drop hp]
  write_length _ := rfl

lemma codec_u32 : FixedCodec 4 readU32 writeU32 where
  read_write := readU32_writeU32
  write_read p hp := by rw [readU32_snd, writeU32_append_drop hp]
  write_length _ := rfl

lemma codec_ip : FixedCodec 4 (readN 4) (Vector.toList : Ip → List UInt8) where
  read_write := readN_toList
  write_read _ hp := toList_readN hp
  write_length v := v.length_toList

/-! ### `dns_parse` in a buffer -/

/-- `skip_name`, in the buffer. -/
def skipNameIn : ℕ → List UInt8 → Option (List UInt8)
  | 0, _ => none
  | n + 1, pointer => do
      let c ← readIn 1 readU8 pointer
      if c.1 = 0 then some c.2
      else if c.1 &&& COMPRESSED = COMPRESSED then do
        let low ← readIn 1 readU8 c.2
        some low.2
      else skipNameIn n (c.2.drop c.1.toNat)

/-- The loop over the questions, in the buffer: `some none` for `-1`. -/
def dnsQuestionsIn : ℕ → List UInt8 → Option (Option (List UInt8))
  | 0, pointer => some (some pointer)
  | n + 1, pointer => do
      let pointer ← skipNameIn (pointer.length + 1) pointer
      let type ← readIn 2 readU16 pointer
      if type.1 ≠ TYPE_A then some none
      else do
        let class_ ← readIn 2 readU16 type.2
        if class_.1 ≠ CLASS_IN then some none else dnsQuestionsIn n class_.2

/-- The loop over the answers, in the buffer. -/
def dnsAnswersIn : ℕ → List UInt8 → Option (Option Ip)
  | 0, _ => some none
  | n + 1, pointer => do
      let pointer ← skipNameIn (pointer.length + 1) pointer
      let type ← readIn 2 readU16 pointer
      let class_ ← readIn 2 readU16 type.2
      if class_.1 ≠ CLASS_IN then some none
      else do
        let ttl ← readIn 4 readU32 class_.2
        if type.1 = TYPE_A then do
          let length ← readIn 2 readU16 ttl.2
          if length.1 ≠ 4 then some none
          else do
            let ip ← readIn 4 (readN 4) length.2
            some (some ip.1)
        else if type.1 = TYPE_CNAME then do
          let length ← readIn 2 readU16 ttl.2
          dnsAnswersIn n (length.2.drop length.1.toNat)
        else some none

/-- `dns_parse`, in the buffer. -/
def dnsParseIn (packet : List UInt8) (xid : UInt16) : Option (Option Ip) := do
  let id ← readIn 2 readU16 packet
  if id.1 ≠ xid then some none
  else do
    let flags ← readIn 2 readU16 id.2
    if flags.1 &&& dnsMask ≠ dnsMask then some none
    else do
      let questions ← readIn 2 readU16 flags.2
      let answers ← readIn 2 readU16 questions.2
      if answers.1 = 0 then some none
      else do
        let authority ← readIn 2 readU16 answers.2
        let additional ← readIn 2 readU16 authority.2
        let pointer ← dnsQuestionsIn questions.1.toNat additional.2
        match pointer with
        | none => some none
        | some pointer => dnsAnswersIn answers.1.toNat pointer

/-! ### Names in a buffer -/

lemma readIn_u8_cons (c : UInt8) (rest : List UInt8) :
    readIn 1 readU8 (c :: rest) = some (c, rest) :=
  codec_u8.readIn_write c rest

lemma skipNameIn_cons (n : ℕ) (c : UInt8) (rest : List UInt8) :
    skipNameIn (n + 1) (c :: rest)
      = if c = 0 then some rest
        else if c &&& COMPRESSED = COMPRESSED then (readIn 1 readU8 rest).map Prod.snd
        else skipNameIn n (rest.drop c.toNat) := by
  cases rest <;> rfl

/-- A name that is whole in the buffer is passed over. -/
lemma skipNameIn_wireName (name : WireName) (rest : List UInt8) {n : ℕ}
    (hn : name.labels.length < n) : skipNameIn n (name.bytes ++ rest) = some rest := by
  obtain ⟨labels, ending⟩ := name
  obtain ⟨n, rfl⟩ : ∃ m, n = m + 1 := ⟨n - 1, by omega⟩
  rw [WireName.bytes]
  induction labels generalizing n with
  | nil =>
      rw [List.flatMap_nil, List.nil_append]
      cases ending with
      | root => rfl
      | pointer high low h =>
          have hne := ne_zero_of_compressed h
          have hbytes : (NameEnd.pointer high low h).wire ++ rest = high :: low :: rest := rfl
          rw [hbytes, skipNameIn_cons, if_neg hne, if_pos h, readIn_u8_cons, Option.map_some]
  | cons l labels ih =>
      rw [List.length_cons] at hn
      obtain ⟨n, rfl⟩ : ∃ m, n = m + 1 := ⟨n - 1, by omega⟩
      rw [List.flatMap_cons, List.append_assoc, List.append_assoc, Label.wire, List.cons_append,
        skipNameIn_cons, if_neg l.length_ne_zero, if_neg l.not_compressed, l.toNat_length,
        List.drop_left, ← List.append_assoc]
      exact ih n (by simp only; omega)

/-- **Only a whole name** is passed over without leaving the buffer. -/
lemma skipNameIn_some {n : ℕ} {pointer rest : List UInt8} (h : skipNameIn n pointer = some rest) :
    ∃ name : WireName, pointer = name.bytes ++ rest := by
  induction n generalizing pointer with
  | zero => cases h
  | succ n ih =>
      cases pointer with
      | nil => cases h
      | cons c p =>
          rw [skipNameIn_cons] at h
          split_ifs at h with h0 hcompressed
          · rw [h0, ← Option.some.inj h]
            exact ⟨⟨[], .root⟩, rfl⟩
          · cases p with
            | nil => cases h
            | cons low q =>
                rw [← Option.some.inj h]
                exact ⟨⟨[], .pointer c low hcompressed⟩, rfl⟩
          · obtain ⟨⟨labels, ending⟩, hname⟩ := ih h
            by_cases hlength : c.toNat ≤ p.length
            · -- a label, and the rest of the name behind it
              have hdata : (p.take c.toNat).length = c.toNat := List.length_take_of_le hlength
              have hpos : 0 < c.toNat := by
                rw [Nat.pos_iff_ne_zero]
                exact fun hz => h0 (UInt8.toNat_inj.mp hz)
              rw [and_compressed_iff, Nat.not_le] at hcompressed
              refine ⟨⟨⟨p.take c.toNat, by omega, by omega⟩ :: labels, ending⟩, ?_⟩
              rw [WireName.bytes] at hname ⊢
              simp only [List.flatMap_cons, Label.wire, hdata, List.append_assoc,
                List.cons_append]
              rw [← List.append_assoc (labels.flatMap Label.wire), ← hname, List.take_append_drop]
              simp
            · rw [List.drop_eq_nil_of_le (Nat.le_of_not_le hlength)] at h
              cases n <;> cases h

/-! ### Complete responses -/

/-- `n` answers, as far as `dns_parse` looks at them: up to the first address or the first record
that it does not take.  The data of an alias may be cut off when no answer follows. -/
inductive AnswersComplete : ℕ → List UInt8 → Prop
  | done (rest : List UInt8) : AnswersComplete 0 rest
  | badClass (n : ℕ) (name : WireName) (type class_ : UInt16) (rest : List UInt8)
      (hclass : class_ ≠ CLASS_IN) :
      AnswersComplete (n + 1) (name.bytes ++ (writeU16 type ++ (writeU16 class_ ++ rest)))
  | badType (n : ℕ) (name : WireName) (type : UInt16) (ttl : UInt32) (rest : List UInt8)
      (htype : type ≠ TYPE_A ∧ type ≠ TYPE_CNAME) :
      AnswersComplete (n + 1)
        (name.bytes ++ (writeU16 type ++ (writeU16 CLASS_IN ++ (writeU32 ttl ++ rest))))
  | badLength (n : ℕ) (name : WireName) (ttl : UInt32) (length : UInt16) (rest : List UInt8)
      (hlength : length ≠ 4) :
      AnswersComplete (n + 1) (name.bytes ++ (writeU16 TYPE_A ++ (writeU16 CLASS_IN
        ++ (writeU32 ttl ++ (writeU16 length ++ rest)))))
  | address (n : ℕ) (name : WireName) (ttl : UInt32) (ip : Ip) (rest : List UInt8) :
      AnswersComplete (n + 1) (name.bytes ++ (writeU16 TYPE_A ++ (writeU16 CLASS_IN
        ++ (writeU32 ttl ++ (writeU16 4 ++ (ip.toList ++ rest))))))
  | cname (n : ℕ) (name : WireName) (ttl : UInt32) (length : UInt16) (rest : List UInt8)
      (h : AnswersComplete n (rest.drop length.toNat)) :
      AnswersComplete (n + 1) (name.bytes ++ (writeU16 TYPE_CNAME ++ (writeU16 CLASS_IN
        ++ (writeU32 ttl ++ (writeU16 length ++ rest)))))

/-- `n` questions and `m` answers, as far as `dns_parse` looks at them. -/
inductive QuestionsComplete (m : ℕ) : ℕ → List UInt8 → Prop
  | done (rest : List UInt8) (h : AnswersComplete m rest) : QuestionsComplete m 0 rest
  | badType (n : ℕ) (name : WireName) (type : UInt16) (rest : List UInt8)
      (htype : type ≠ TYPE_A) :
      QuestionsComplete m (n + 1) (name.bytes ++ (writeU16 type ++ rest))
  | badClass (n : ℕ) (name : WireName) (class_ : UInt16) (rest : List UInt8)
      (hclass : class_ ≠ CLASS_IN) :
      QuestionsComplete m (n + 1) (name.bytes ++ (writeU16 TYPE_A ++ (writeU16 class_ ++ rest)))
  | question (n : ℕ) (name : WireName) (rest : List UInt8) (h : QuestionsComplete m n rest) :
      QuestionsComplete m (n + 1)
        (name.bytes ++ (writeU16 TYPE_A ++ (writeU16 CLASS_IN ++ rest)))

/-! ### The loops of `dns_parse` -/

/-- A name in front of what is read. -/
lemma skipNameIn_append (name : WireName) (rest : List UInt8) :
    skipNameIn ((name.bytes ++ rest).length + 1) (name.bytes ++ rest) = some rest := by
  refine skipNameIn_wireName name rest ?_
  have hlabels := length_le_flatMap Label.wire_pos name.labels
  rw [WireName.bytes, List.length_append, List.length_append]
  omega

/-- The answers that `dns_parse` looks at are complete: it stays in the buffer, and finds the same
whatever lies behind it. -/
lemma AnswersComplete.reads {n : ℕ} {pointer : List UInt8} (h : AnswersComplete n pointer) :
    ∃ r, dnsAnswersIn n pointer = some r
      ∧ ∀ after, dnsAnswers n (pointer ++ after) = r := by
  induction h with
  | done rest => exact ⟨none, rfl, fun _ => rfl⟩
  | badClass n name type class_ rest hclass =>
      refine ⟨none, ?_, fun after => ?_⟩
      · simp only [dnsAnswersIn, skipNameIn_append, codec_u16.readIn_write, Option.bind_eq_bind,
          Option.bind_some, if_pos hclass]
      · simp only [List.append_assoc, dnsAnswers, skipName_wireName, readU16_writeU16,
          if_pos hclass]
  | badType n name type ttl rest htype =>
      have hin : ¬ CLASS_IN ≠ CLASS_IN := not_not.mpr rfl
      refine ⟨none, ?_, fun after => ?_⟩
      · simp only [dnsAnswersIn, skipNameIn_append, codec_u16.readIn_write,
          codec_u32.readIn_write, Option.bind_eq_bind, Option.bind_some, if_neg hin,
          if_neg htype.1, if_neg htype.2]
      · simp only [List.append_assoc, dnsAnswers, skipName_wireName, readU16_writeU16,
          if_neg hin, if_neg htype.1, if_neg htype.2]
  | badLength n name ttl length rest hlength =>
      have hin : ¬ CLASS_IN ≠ CLASS_IN := not_not.mpr rfl
      refine ⟨none, ?_, fun after => ?_⟩
      · simp only [dnsAnswersIn, skipNameIn_append, codec_u16.readIn_write,
          codec_u32.readIn_write, Option.bind_eq_bind, Option.bind_some, if_neg hin, if_true,
          if_pos hlength]
      · simp only [List.append_assoc, dnsAnswers, skipName_wireName, readU16_writeU16,
          readU32_writeU32, if_neg hin, if_true, if_pos hlength]
  | address n name ttl ip rest =>
      have hin : ¬ CLASS_IN ≠ CLASS_IN := not_not.mpr rfl
      have hlength : ¬ (4 : UInt16) ≠ 4 := not_not.mpr rfl
      refine ⟨some ip, ?_, fun after => ?_⟩
      · simp only [dnsAnswersIn, skipNameIn_append, codec_u16.readIn_write,
          codec_u32.readIn_write, codec_ip.readIn_write, Option.bind_eq_bind, Option.bind_some,
          if_neg hin, if_true, if_neg hlength]
      · simp only [List.append_assoc, dnsAnswers, skipName_wireName, readU16_writeU16,
          readU32_writeU32, readN_toList, if_neg hin, if_true, if_neg hlength]
  | cname n name ttl length rest h ih =>
      have hin : ¬ CLASS_IN ≠ CLASS_IN := not_not.mpr rfl
      have htype : ¬ TYPE_CNAME = TYPE_A := by decide
      obtain ⟨r, hread, hafter⟩ := ih
      refine ⟨r, ?_, fun after => ?_⟩
      · simp only [dnsAnswersIn, skipNameIn_append, codec_u16.readIn_write,
          codec_u32.readIn_write, Option.bind_eq_bind, Option.bind_some, if_neg hin, if_true,
          if_neg htype, hread]
      · simp only [List.append_assoc, dnsAnswers, skipName_wireName, readU16_writeU16,
          readU32_writeU32, if_neg hin, if_true, if_neg htype]
        by_cases hdata : length.toNat ≤ rest.length
        · rw [List.drop_append_of_le_length hdata]
          exact hafter after
        · -- the data of the last answer is cut off, and nothing is read behind it
          cases n with
          | zero => exact hafter after
          | succ n =>
              rw [List.drop_eq_nil_of_le (Nat.le_of_not_le hdata)] at hread
              cases hread

/-- **Only complete answers** are read without leaving the buffer. -/
lemma answersComplete_of_some {n : ℕ} {pointer : List UInt8} {r : Option Ip}
    (h : dnsAnswersIn n pointer = some r) : AnswersComplete n pointer := by
  induction n generalizing pointer with
  | zero => exact .done pointer
  | succ n ih =>
      rw [dnsAnswersIn] at h
      obtain ⟨p, hname, h₁⟩ := Option.bind_eq_some_iff.mp h
      obtain ⟨⟨type, p₁⟩, htype, h₂⟩ := Option.bind_eq_some_iff.mp h₁
      obtain ⟨⟨class_, p₂⟩, hclass, h₃⟩ := Option.bind_eq_some_iff.mp h₂
      obtain ⟨name, rfl⟩ := skipNameIn_some hname
      obtain rfl := codec_u16.readIn_iff.mp htype
      obtain rfl := codec_u16.readIn_iff.mp hclass
      by_cases hin : class_ ≠ CLASS_IN
      · exact .badClass n name type class_ p₂ hin
      · obtain rfl := not_not.mp hin
        rw [if_neg hin] at h₃
        obtain ⟨⟨ttl, p₃⟩, httl, h₄⟩ := Option.bind_eq_some_iff.mp h₃
        obtain rfl := codec_u32.readIn_iff.mp httl
        by_cases ha : type = TYPE_A
        · rw [if_pos ha] at h₄
          obtain ⟨⟨length, p₄⟩, hlength, h₅⟩ := Option.bind_eq_some_iff.mp h₄
          obtain rfl := codec_u16.readIn_iff.mp hlength
          obtain rfl := ha
          by_cases hsize : length ≠ 4
          · exact .badLength n name ttl length p₄ hsize
          · rw [if_neg hsize] at h₅
            obtain ⟨⟨ip, p₅⟩, hip, -⟩ := Option.bind_eq_some_iff.mp h₅
            obtain rfl := codec_ip.readIn_iff.mp hip
            obtain rfl := not_not.mp hsize
            exact .address n name ttl ip p₅
        · by_cases hcname : type = TYPE_CNAME
          · rw [if_neg ha, if_pos hcname] at h₄
            obtain ⟨⟨length, p₄⟩, hlength, h₅⟩ := Option.bind_eq_some_iff.mp h₄
            obtain rfl := codec_u16.readIn_iff.mp hlength
            obtain rfl := hcname
            exact .cname n name ttl length p₄ (ih h₅)
          · exact .badType n name type ttl p₃ ⟨ha, hcname⟩

/-- What `dns_parse` does from its questions on. -/
def dnsSections (questions answers : ℕ) (pointer : List UInt8) : Option Ip :=
  match dnsQuestions questions pointer with
  | none => none
  | some pointer => dnsAnswers answers pointer

/-- The same, in the buffer. -/
def dnsSectionsIn (questions answers : ℕ) (pointer : List UInt8) : Option (Option Ip) :=
  (dnsQuestionsIn questions pointer).bind fun
    | none => some none
    | some pointer => dnsAnswersIn answers pointer

lemma QuestionsComplete.reads {m n : ℕ} {pointer : List UInt8} (h : QuestionsComplete m n pointer) :
    ∃ r, dnsSectionsIn n m pointer = some r
      ∧ ∀ after, dnsSections n m (pointer ++ after) = r := by
  have hin : ¬ CLASS_IN ≠ CLASS_IN := not_not.mpr rfl
  have ha : ¬ TYPE_A ≠ TYPE_A := not_not.mpr rfl
  induction h with
  | done rest h => exact h.reads
  | badType n name type rest htype =>
      refine ⟨none, ?_, fun after => ?_⟩
      · simp only [dnsSectionsIn, dnsQuestionsIn, skipNameIn_append, codec_u16.readIn_write,
          Option.bind_eq_bind, Option.bind_some, if_pos htype]
      · simp only [List.append_assoc, dnsSections, dnsQuestions, skipName_wireName,
          readU16_writeU16, if_pos htype]
  | badClass n name class_ rest hclass =>
      refine ⟨none, ?_, fun after => ?_⟩
      · simp only [dnsSectionsIn, dnsQuestionsIn, skipNameIn_append, codec_u16.readIn_write,
          Option.bind_eq_bind, Option.bind_some, if_neg ha, if_pos hclass]
      · simp only [List.append_assoc, dnsSections, dnsQuestions, skipName_wireName,
          readU16_writeU16, if_neg ha, if_pos hclass]
  | question n name rest h ih =>
      obtain ⟨r, hread, hafter⟩ := ih
      refine ⟨r, ?_, fun after => ?_⟩
      · rw [dnsSectionsIn] at hread ⊢
        simp only [dnsQuestionsIn, skipNameIn_append, codec_u16.readIn_write,
          Option.bind_eq_bind, Option.bind_some, if_neg ha, if_neg hin]
        exact hread
      · have hrest := hafter after
        rw [dnsSections] at hrest ⊢
        simp only [List.append_assoc, dnsQuestions, skipName_wireName, readU16_writeU16,
          if_neg ha, if_neg hin]
        exact hrest

lemma questionsComplete_of_some {m n : ℕ} {pointer : List UInt8} {r : Option Ip}
    (h : dnsSectionsIn n m pointer = some r) : QuestionsComplete m n pointer := by
  induction n generalizing pointer with
  | zero => exact .done pointer (answersComplete_of_some h)
  | succ n ih =>
      obtain ⟨end_, hquestions, hanswers⟩ := Option.bind_eq_some_iff.mp h
      rw [dnsQuestionsIn] at hquestions
      obtain ⟨p, hname, h₁⟩ := Option.bind_eq_some_iff.mp hquestions
      obtain ⟨⟨type, p₁⟩, htype, h₂⟩ := Option.bind_eq_some_iff.mp h₁
      obtain ⟨name, hpointer⟩ := skipNameIn_some hname
      obtain rfl := codec_u16.readIn_iff.mp htype
      by_cases ha : type ≠ TYPE_A
      · rw [hpointer]
        exact .badType n name type p₁ ha
      · rw [if_neg ha] at h₂
        obtain ⟨⟨class_, p₂⟩, hclass, h₃⟩ := Option.bind_eq_some_iff.mp h₂
        obtain rfl := codec_u16.readIn_iff.mp hclass
        rw [hpointer]
        obtain rfl := not_not.mp ha
        by_cases hin : class_ ≠ CLASS_IN
        · exact .badClass n name class_ p₂ hin
        · rw [if_neg hin] at h₃
          obtain rfl := not_not.mp hin
          exact .question n name p₂ (ih (Option.bind_eq_some_iff.mpr ⟨end_, h₃, hanswers⟩))

/-- A response is whole in the buffer as far as `dns_parse` looks at it. -/
def ResponseComplete (packet : List UInt8) (xid : UInt16) : Prop :=
  let id := readU16 packet
  let flags := readU16 id.2
  let questions := readU16 flags.2
  let answers := readU16 questions.2
  let authority := readU16 answers.2
  let additional := readU16 authority.2
  id.1 = xid → flags.1 &&& dnsMask = dnsMask → answers.1 ≠ 0 →
    QuestionsComplete answers.1.toNat questions.1.toNat additional.2

/-- The first value of a buffer. -/
lemma readU16_split {p : List UInt8} (hp : 2 ≤ p.length) :
    ∃ v rest, p = writeU16 v ++ rest ∧ p.length = rest.length + 2 := by
  refine ⟨(readU16 p).1, (readU16 p).2, (codec_u16.write_read p hp).symm, ?_⟩
  rw [readU16_snd, List.length_drop]
  omega

/-- The header of a response, and its sections. -/
lemma dnsHeader {packet : List UInt8} (hlength : 12 ≤ packet.length) :
    ∃ id flags questions answers authority additional rest, packet = writeU16 id
      ++ (writeU16 flags ++ (writeU16 questions ++ (writeU16 answers ++ (writeU16 authority
      ++ (writeU16 additional ++ rest))))) := by
  obtain ⟨id, p₁, hp₁, h₁⟩ := readU16_split (by omega : 2 ≤ packet.length)
  obtain ⟨flags, p₂, hp₂, h₂⟩ := readU16_split (by omega : 2 ≤ p₁.length)
  obtain ⟨questions, p₃, hp₃, h₃⟩ := readU16_split (by omega : 2 ≤ p₂.length)
  obtain ⟨answers, p₄, hp₄, h₄⟩ := readU16_split (by omega : 2 ≤ p₃.length)
  obtain ⟨authority, p₅, hp₅, h₅⟩ := readU16_split (by omega : 2 ≤ p₄.length)
  obtain ⟨additional, p₆, hp₆, -⟩ := readU16_split (by omega : 2 ≤ p₅.length)
  exact ⟨id, flags, questions, answers, authority, additional, p₆, by
    rw [hp₁, hp₂, hp₃, hp₄, hp₅, hp₆]⟩

lemma dnsSectionsIn_stays (questions answers : ℕ) (rest : List UInt8) :
    StaysIn (dnsSectionsIn questions answers rest) (QuestionsComplete answers questions rest)
      (fun after => dnsSections questions answers (rest ++ after)) id :=
  .of_reads (fun _ h => questionsComplete_of_some h) fun h => h.reads

/-- **`dns_parse` stays in a buffer** that holds a header exactly when the response in it is
complete, and then its value is the same whatever lies behind the buffer. -/
lemma dnsParseIn_stays {packet : List UInt8} (hlength : 12 ≤ packet.length) (xid : UInt16) :
    StaysIn (dnsParseIn packet xid) (ResponseComplete packet xid)
      (fun after => dnsParse (packet ++ after) xid) id := by
  obtain ⟨id_, flags, questions, answers, authority, additional, rest, rfl⟩ := dnsHeader hlength
  have hsections : ∀ after, dnsParse (writeU16 id_ ++ (writeU16 flags ++ (writeU16 questions
      ++ (writeU16 answers ++ (writeU16 authority ++ (writeU16 additional
      ++ rest))))) ++ after) xid
      = if id_ ≠ xid then none else if flags &&& dnsMask ≠ dnsMask then none
        else if answers = 0 then none
        else dnsSections questions.toNat answers.toNat (rest ++ after) := by
    intro after
    simp only [List.append_assoc, dnsParse, readU16_writeU16]
    rfl
  have hsectionsIn : dnsParseIn (writeU16 id_ ++ (writeU16 flags ++ (writeU16 questions
      ++ (writeU16 answers ++ (writeU16 authority ++ (writeU16 additional ++ rest)))))) xid
      = if id_ ≠ xid then some none else if flags &&& dnsMask ≠ dnsMask then some none
        else if answers = 0 then some none
        else dnsSectionsIn questions.toNat answers.toNat rest := by
    simp only [dnsParseIn, codec_u16.readIn_write, Option.bind_eq_bind, Option.bind_some]
    rfl
  simp only [ResponseComplete, readU16_writeU16, hsections, hsectionsIn]
  exact .guard not_not none <| .guard not_not none <| .guard Iff.rfl none <|
    dnsSectionsIn_stays questions.toNat answers.toNat rest

/-! ### `dhcp_parse_offer` in a buffer -/

/-- `dhcpAddress`, in the buffer: `some none` for a wrong size. -/
def dhcpAddressIn (pointer : List UInt8) : Option (Option (Ip × List UInt8)) := do
  let len ← readIn 1 readU8 pointer
  if len.1 ≠ IP_SIZE then some none
  else do
    let ip ← readIn 4 (readN 4) len.2
    some (some ip)

/-- The loop of `dhcp_parse_offer`, in the buffer. -/
def dhcpOptionsIn : ℕ → List UInt8 → DhcpConfig → Option (ℤ × DhcpConfig)
  | 0, _, _ => none
  | n + 1, pointer, s => do
      let code ← readIn 1 readU8 pointer
      if code.1 = CODE_SUBNET_MASK then do
        match ← dhcpAddressIn code.2 with
        | none => some (-1, s)
        | some ip => dhcpOptionsIn n ip.2 { s with subnetMask := ip.1 }
      else if code.1 = CODE_ROUTER then do
        match ← dhcpAddressIn code.2 with
        | none => some (-1, s)
        | some ip => dhcpOptionsIn n ip.2 { s with gatewayIp := ip.1 }
      else if code.1 = CODE_DNS then do
        match ← dhcpAddressIn code.2 with
        | none => some (-1, s)
        | some ip => dhcpOptionsIn n ip.2 { s with dnsIp := ip.1 }
      else if code.1 = CODE_TYPE then do
        let len ← readIn 1 readU8 code.2
        if len.1 ≠ 1 then some (-1, s)
        else do
          let type ← readIn 1 readU8 len.2
          if type.1 ≠ DHCPOFFER then some (-1, s) else dhcpOptionsIn n type.2 s
      else if code.1 = CODE_SID then do
        match ← dhcpAddressIn code.2 with
        | none => some (-1, s)
        | some ip => dhcpOptionsIn n ip.2 { s with siaddr := ip.1 }
      else if code.1 = CODE_LEASE_TIME then do
        let len ← readIn 1 readU8 code.2
        if len.1 ≠ 4 then some (-1, s)
        else do
          let seconds ← readIn 4 readU32 len.2
          dhcpOptionsIn n seconds.2 s
      else if code.1 = CODE_END then some (0, s)
      else if code.1 = CODE_PAD then dhcpOptionsIn n code.2 s
      else do
        let len ← readIn 1 readU8 code.2
        dhcpOptionsIn n (len.2.drop len.1.toNat) s

/-- `dhcp_parse_offer`, in the buffer. -/
def dhcpParseOfferIn (packet : List UInt8) (xid : UInt32) (s : DhcpConfig) :
    Option (ℤ × DhcpConfig) := do
  let op ← readIn 1 readU8 packet
  if op.1 ≠ BOOTREPLY then some (-1, s)
  else do
    let htype ← readIn 1 readU8 op.2
    if htype.1 ≠ ARP_ETHERNET.toUInt8 then some (-1, s)
    else do
      let hlen ← readIn 1 readU8 htype.2
      if hlen.1 ≠ MAC_SIZE then some (-1, s)
      else do
        let hops ← readIn 1 readU8 hlen.2
        let id ← readIn 4 readU32 hops.2
        if id.1 ≠ xid then some (-1, s)
        else do
          let secs ← readIn 2 readU16 id.2
          let flags ← readIn 2 readU16 secs.2
          let ciaddr := flags.2.drop 4
          let yiaddr : Ip × List UInt8 ← readIn 4 (readN 4) ciaddr
          let s := { s with ourIp := yiaddr.1 }
          let siaddr : Ip × List UInt8 ← readIn 4 (readN 4) yiaddr.2
          let s := { s with siaddr := siaddr.1 }
          let giaddr := siaddr.2.drop 4
          let chaddr := giaddr.drop 16
          let sname := chaddr.drop 64
          let file := sname.drop 128
          let cookie ← readIn 4 readU32 file
          if cookie.1 ≠ DHCP_MAGIC then some (-1, s)
          else dhcpOptionsIn (packet.length + 1) cookie.2 s

/-! ### Complete offers -/

/-- Options, as far as `dhcp_parse_offer` looks at them: up to their end or the first one that it
does not take. -/
inductive OptionsComplete : List UInt8 → Prop
  | ended (rest : List UInt8) : OptionsComplete (CODE_END :: rest)
  | option (o : DhcpOption) (rest : List UInt8) (h : OptionsComplete rest) :
      OptionsComplete (o.bytes ++ rest)
  | badSize (code len : UInt8) (rest : List UInt8)
      (hcode : code ∈ [CODE_SUBNET_MASK, CODE_ROUTER, CODE_DNS, CODE_SID, CODE_LEASE_TIME])
      (hlen : len ≠ 4) : OptionsComplete (code :: len :: rest)
  | badTypeSize (len : UInt8) (rest : List UInt8) (hlen : len ≠ 1) :
      OptionsComplete (CODE_TYPE :: len :: rest)
  | badType (type : UInt8) (rest : List UInt8) (htype : type ≠ DHCPOFFER) :
      OptionsComplete (CODE_TYPE :: 1 :: type :: rest)

/-- An offer is whole in the buffer as far as `dhcp_parse_offer` looks at it. -/
def OfferComplete (packet : List UInt8) (xid : UInt32) : Prop :=
  OfferHeader packet xid → dhcpCookie packet = DHCP_MAGIC → OptionsComplete (packet.drop 240)

lemma dhcpAddressIn_ip (ip : Ip) (rest : List UInt8) :
    dhcpAddressIn (IP_SIZE :: (ip.toList ++ rest)) = some (some (ip, rest)) := by
  have hsize : ¬ IP_SIZE ≠ IP_SIZE := not_not.mpr rfl
  simp only [dhcpAddressIn, readIn_u8_cons, Option.bind_eq_bind, Option.bind_some, if_neg hsize,
    codec_ip.readIn_write]

/-- A size that is not an address's. -/
lemma dhcpAddressIn_size {len : UInt8} (hlen : len ≠ 4) (rest : List UInt8) :
    dhcpAddressIn (len :: rest) = some none := by
  simp only [dhcpAddressIn, readIn_u8_cons, Option.bind_eq_bind, Option.bind_some]
  exact if_pos hlen

/-- **An address in the buffer**: a wrong size, or a whole address. -/
lemma dhcpAddressIn_some {p : List UInt8} {a : Option (Ip × List UInt8)}
    (h : dhcpAddressIn p = some a) :
    (∃ len rest, p = len :: rest ∧ len ≠ 4)
      ∨ ∃ ip rest, p = IP_SIZE :: (ip.toList ++ rest) ∧ a = some (ip, rest) := by
  obtain ⟨⟨len, p₁⟩, hlen, h₁⟩ := Option.bind_eq_some_iff.mp h
  rw [codec_u8.readIn_iff.mp hlen]
  by_cases hsize : len ≠ IP_SIZE
  · exact .inl ⟨len, p₁, rfl, hsize⟩
  · rw [if_neg hsize] at h₁
    obtain ⟨⟨ip, p₂⟩, hip, h₂⟩ := Option.bind_eq_some_iff.mp h₁
    obtain rfl := codec_ip.readIn_iff.mp hip
    refine .inr ⟨ip, p₂, ?_, (Option.some.inj h₂).symm⟩
    rw [not_not.mp hsize]
    rfl

/-- **One option** is read in one pass. -/
lemma dhcpOptionsIn_option (n : ℕ) (o : DhcpOption) (rest : List UInt8) (s : DhcpConfig) :
    dhcpOptionsIn (n + 1) (o.bytes ++ rest) s = dhcpOptionsIn n rest (s.apply o) := by
  cases o with
  | pad => rfl
  | subnetMask ip | router ip | dns ip | sid ip =>
      rw [DhcpOption.bytes, List.cons_append, List.cons_append, dhcpOptionsIn]
      simp only [readIn_u8_cons, dhcpAddressIn_ip, Option.bind_eq_bind, Option.bind_some]
      rfl
  | offer =>
      rw [DhcpOption.bytes, List.cons_append, List.cons_append, List.cons_append, dhcpOptionsIn]
      simp only [readIn_u8_cons, Option.bind_eq_bind, Option.bind_some]
      rfl
  | leaseTime seconds =>
      rw [DhcpOption.bytes, List.cons_append, List.cons_append, dhcpOptionsIn]
      simp only [readIn_u8_cons, codec_u32.readIn_write, Option.bind_eq_bind, Option.bind_some]
      rfl
  | other o =>
      obtain ⟨h0, h1, h3, h6, h51, h53, h54, h255⟩ := notMem_codes_iff.mp o.code_other
      rw [DhcpOption.bytes, List.cons_append, List.cons_append, dhcpOptionsIn]
      simp only [readIn_u8_cons, Option.bind_eq_bind, Option.bind_some, if_neg h0, if_neg h1,
        if_neg h3, if_neg h6, if_neg h51, if_neg h53, if_neg h54, if_neg h255, o.toNat_length,
        List.drop_left]
      rfl

/-- A size that the parser does not take ends it, without a look at what follows. -/
lemma dhcpOptionsIn_badSize {code len : UInt8}
    (hcode : code ∈ [CODE_SUBNET_MASK, CODE_ROUTER, CODE_DNS, CODE_SID, CODE_LEASE_TIME])
    (hlen : len ≠ 4) (rest : List UInt8) (n : ℕ) (s : DhcpConfig) :
    dhcpOptionsIn (n + 1) (code :: len :: rest) s = some (-1, s) := by
  simp only [List.mem_cons, List.not_mem_nil, or_false] at hcode
  rcases hcode with rfl | rfl | rfl | rfl | rfl
  all_goals
    rw [dhcpOptionsIn]
    simp only [readIn_u8_cons, dhcpAddressIn_size hlen, Option.bind_eq_bind, Option.bind_some,
      if_pos hlen]
    rfl

lemma dhcpOptions_badSize {code len : UInt8}
    (hcode : code ∈ [CODE_SUBNET_MASK, CODE_ROUTER, CODE_DNS, CODE_SID, CODE_LEASE_TIME])
    (hlen : len ≠ 4) (rest : List UInt8) (n : ℕ) (s : DhcpConfig) :
    dhcpOptions (n + 1) (code :: len :: rest) s = some (-1, s) := by
  have haddress : dhcpAddress (len :: rest) = none := by
    simp only [dhcpAddress, readU8_cons]
    exact if_pos hlen
  have hlease : dhcpOptions (n + 1) (CODE_LEASE_TIME :: len :: rest) s
      = if len ≠ 4 then some (-1, s) else dhcpOptions n (readU32 rest).2 s := rfl
  rw [if_pos hlen] at hlease
  simp only [List.mem_cons, List.not_mem_nil, or_false] at hcode
  rcases hcode with rfl | rfl | rfl | rfl | rfl
  on_goal 5 => exact hlease
  all_goals
    rw [dhcpOptions]
    simp only [readU8_cons, haddress]
    rfl

lemma dhcpOptionsIn_badTypeSize {len : UInt8} (hlen : len ≠ 1) (rest : List UInt8) (n : ℕ)
    (s : DhcpConfig) : dhcpOptionsIn (n + 1) (CODE_TYPE :: len :: rest) s = some (-1, s) := by
  rw [dhcpOptionsIn]
  simp only [readIn_u8_cons, Option.bind_eq_bind, Option.bind_some, if_pos hlen]
  rfl

lemma dhcpOptions_badTypeSize {len : UInt8} (hlen : len ≠ 1) (rest : List UInt8) (n : ℕ)
    (s : DhcpConfig) : dhcpOptions (n + 1) (CODE_TYPE :: len :: rest) s = some (-1, s) := by
  have hpass : dhcpOptions (n + 1) (CODE_TYPE :: len :: rest) s
      = if len ≠ 1 then some (-1, s)
        else if (readU8 rest).1 ≠ DHCPOFFER then some (-1, s)
        else dhcpOptions n (readU8 rest).2 s := rfl
  exact hpass.trans (if_pos hlen)

/-- A message of another type. -/
lemma dhcpOptionsIn_badType {type : UInt8} (htype : type ≠ DHCPOFFER) (rest : List UInt8) (n : ℕ)
    (s : DhcpConfig) : dhcpOptionsIn (n + 1) (CODE_TYPE :: 1 :: type :: rest) s = some (-1, s) := by
  rw [dhcpOptionsIn]
  simp only [readIn_u8_cons, Option.bind_eq_bind, Option.bind_some, if_pos htype]
  rfl

lemma dhcpOptions_badType {type : UInt8} (htype : type ≠ DHCPOFFER) (rest : List UInt8) (n : ℕ)
    (s : DhcpConfig) : dhcpOptions (n + 1) (CODE_TYPE :: 1 :: type :: rest) s = some (-1, s) := by
  have hpass : dhcpOptions (n + 1) (CODE_TYPE :: 1 :: type :: rest) s
      = if type ≠ DHCPOFFER then some (-1, s) else dhcpOptions n rest s := rfl
  exact hpass.trans (if_pos htype)

/-- What one pass decides is read in the buffer, and the same whatever lies behind it. -/
lemma reads_of_pass {pointer : List UInt8} {s : DhcpConfig} (r : ℤ × DhcpConfig)
    (hin : ∀ n, dhcpOptionsIn (n + 1) pointer s = some r)
    (hout : ∀ after n, dhcpOptions (n + 1) (pointer ++ after) s = some r) {n : ℕ} (hn : 0 < n) :
    ∃ r, dhcpOptionsIn n pointer s = some r
      ∧ ∀ after m, n ≤ m → dhcpOptions m (pointer ++ after) s = some r := by
  obtain ⟨n, rfl⟩ := Nat.exists_eq_add_of_le' hn
  refine ⟨r, hin n, fun after m hm => ?_⟩
  obtain ⟨m, rfl⟩ := Nat.exists_eq_add_of_le' (hn.trans_le hm)
  exact hout after m

/-- Complete options are read in the buffer, and the same whatever lies behind it. -/
lemma OptionsComplete.reads {pointer : List UInt8} (h : OptionsComplete pointer) {n : ℕ}
    (hn : pointer.length ≤ n) (s : DhcpConfig) :
    ∃ r, dhcpOptionsIn n pointer s = some r
      ∧ ∀ after m, n ≤ m → dhcpOptions m (pointer ++ after) s = some r := by
  induction h generalizing n s with
  | ended rest =>
      have hpos : 0 < n := (Nat.succ_pos _).trans_le hn
      exact reads_of_pass (0, s) (fun _ => rfl) (fun _ _ => rfl) hpos
  | option o rest h ih =>
      have hpos := o.bytes_pos
      rw [List.length_append] at hn
      obtain ⟨n, rfl⟩ : ∃ k, n = k + 1 := ⟨n - 1, by omega⟩
      obtain ⟨r, hread, hafter⟩ := ih (by omega : rest.length ≤ n) (s.apply o)
      refine ⟨r, (dhcpOptionsIn_option n o rest s).trans hread, fun after m hm => ?_⟩
      obtain ⟨m, rfl⟩ : ∃ k, m = k + 1 := ⟨m - 1, by omega⟩
      rw [List.append_assoc, dhcpOptions_option]
      exact hafter after m (by omega)
  | badSize code len rest hcode hlen =>
      have hpos : 0 < n := (Nat.succ_pos _).trans_le hn
      exact reads_of_pass (-1, s) (fun m => dhcpOptionsIn_badSize hcode hlen rest m s)
        (fun after m => dhcpOptions_badSize hcode hlen (rest ++ after) m s) hpos
  | badTypeSize len rest hlen =>
      have hpos : 0 < n := (Nat.succ_pos _).trans_le hn
      exact reads_of_pass (-1, s) (fun m => dhcpOptionsIn_badTypeSize hlen rest m s)
        (fun after m => dhcpOptions_badTypeSize hlen (rest ++ after) m s) hpos
  | badType type rest htype =>
      have hpos : 0 < n := (Nat.succ_pos _).trans_le hn
      exact reads_of_pass (-1, s) (fun m => dhcpOptionsIn_badType htype rest m s)
        (fun after m => dhcpOptions_badType htype (rest ++ after) m s) hpos

/-! ### What a pass over the options takes -/

section Pass

-- `f` is the rest of the loop
variable {p : List UInt8} {s : DhcpConfig} {r : ℤ × DhcpConfig}
  {f : List UInt8 → Option (ℤ × DhcpConfig)}

/-- A code with an address behind it. -/
lemma optionsComplete_address {code : UInt8} {o : Ip → DhcpOption}
    (hbytes : ∀ ip, (o ip).bytes = code :: IP_SIZE :: ip.toList)
    (hcode : code ∈ [CODE_SUBNET_MASK, CODE_ROUTER, CODE_DNS, CODE_SID, CODE_LEASE_TIME])
    {g : Option (Ip × List UInt8) → Option (ℤ × DhcpConfig)}
    (h : (dhcpAddressIn p).bind g = some r)
    (hrest : ∀ ip rest, g (some (ip, rest)) = some r → OptionsComplete rest) :
    OptionsComplete (code :: p) := by
  obtain ⟨a, haddress, hnext⟩ := Option.bind_eq_some_iff.mp h
  rcases dhcpAddressIn_some haddress with ⟨len, rest, rfl, hlen⟩ | ⟨ip, rest, rfl, rfl⟩
  · exact .badSize code len rest hcode hlen
  · have hoption := OptionsComplete.option (o ip) rest (hrest ip rest hnext)
    rwa [hbytes] at hoption

/-- The type of the message. -/
lemma optionsComplete_type
    (h : ((readIn 1 readU8 p).bind fun len => if len.1 ≠ 1 then some (-1, s)
      else (readIn 1 readU8 len.2).bind fun type =>
        if type.1 ≠ DHCPOFFER then some (-1, s) else f type.2) = some r)
    (hrest : ∀ rest, f rest = some r → OptionsComplete rest) :
    OptionsComplete (CODE_TYPE :: p) := by
  obtain ⟨⟨len, p₁⟩, hlen, h₁⟩ := Option.bind_eq_some_iff.mp h
  obtain rfl := codec_u8.readIn_iff.mp hlen
  by_cases hsize : len ≠ 1
  · exact .badTypeSize len p₁ hsize
  · rw [if_neg hsize] at h₁
    obtain ⟨⟨type, p₂⟩, htype, h₂⟩ := Option.bind_eq_some_iff.mp h₁
    obtain rfl := codec_u8.readIn_iff.mp htype
    obtain rfl := not_not.mp hsize
    by_cases hoffer : type ≠ DHCPOFFER
    · exact .badType type p₂ hoffer
    · rw [if_neg hoffer] at h₂
      obtain rfl := not_not.mp hoffer
      exact .option .offer p₂ (hrest p₂ h₂)

lemma optionsComplete_leaseTime
    (h : ((readIn 1 readU8 p).bind fun len => if len.1 ≠ 4 then some (-1, s)
      else (readIn 4 readU32 len.2).bind fun seconds => f seconds.2) = some r)
    (hrest : ∀ rest, f rest = some r → OptionsComplete rest) :
    OptionsComplete (CODE_LEASE_TIME :: p) := by
  obtain ⟨⟨len, p₁⟩, hlen, h₁⟩ := Option.bind_eq_some_iff.mp h
  obtain rfl := codec_u8.readIn_iff.mp hlen
  by_cases hsize : len ≠ 4
  · exact .badSize CODE_LEASE_TIME len p₁ (by decide) hsize
  · rw [if_neg hsize] at h₁
    obtain ⟨⟨seconds, p₂⟩, hseconds, h₂⟩ := Option.bind_eq_some_iff.mp h₁
    obtain rfl := codec_u32.readIn_iff.mp hseconds
    obtain rfl := not_not.mp hsize
    exact .option (.leaseTime seconds) p₂ (hrest p₂ h₂)

/-- Another code, and the data that is passed over. -/
lemma optionsComplete_other {code : UInt8}
    (hcode : code ∉ [CODE_PAD, CODE_SUBNET_MASK, CODE_ROUTER, CODE_DNS, CODE_LEASE_TIME,
      CODE_TYPE, CODE_SID, CODE_END])
    (h : ((readIn 1 readU8 p).bind fun len => f (len.2.drop len.1.toNat)) = some r)
    (hnil : f [] = none) (hrest : ∀ rest, f rest = some r → OptionsComplete rest) :
    OptionsComplete (code :: p) := by
  obtain ⟨⟨len, p₁⟩, hlen, h₁⟩ := Option.bind_eq_some_iff.mp h
  obtain rfl := codec_u8.readIn_iff.mp hlen
  by_cases hlength : len.toNat ≤ p₁.length
  · obtain ⟨o, hwhole⟩ := exists_otherOption hcode hlength
    have hoption := OptionsComplete.option (.other o) _ (hrest _ h₁)
    rw [hwhole] at hoption
    exact hoption
  · rw [List.drop_eq_nil_of_le (Nat.le_of_not_le hlength), hnil] at h₁
    cases h₁

end Pass

lemma dhcpOptionsIn_nil (n : ℕ) (s : DhcpConfig) : dhcpOptionsIn n [] s = none := by
  cases n <;> rfl

/-- **Only complete options** are read without leaving the buffer. -/
lemma optionsComplete_of_some {n : ℕ} {pointer : List UInt8} {s : DhcpConfig}
    {r : ℤ × DhcpConfig} (h : dhcpOptionsIn n pointer s = some r) : OptionsComplete pointer := by
  induction n generalizing pointer s with
  | zero => cases h
  | succ n ih =>
      obtain ⟨⟨code, p⟩, hread, h₁⟩ := Option.bind_eq_some_iff.mp h
      rw [codec_u8.readIn_iff.mp hread]
      change OptionsComplete (code :: p)
      simp only at h₁
      -- the codes in the order of the tests
      by_cases h1 : code = CODE_SUBNET_MASK
      · rw [if_pos h1] at h₁
        subst h1
        exact optionsComplete_address (o := .subnetMask) (fun _ => rfl) (by decide) h₁
          fun _ _ => ih
      rw [if_neg h1] at h₁
      by_cases h3 : code = CODE_ROUTER
      · rw [if_pos h3] at h₁
        subst h3
        exact optionsComplete_address (o := .router) (fun _ => rfl) (by decide) h₁ fun _ _ => ih
      rw [if_neg h3] at h₁
      by_cases h6 : code = CODE_DNS
      · rw [if_pos h6] at h₁
        subst h6
        exact optionsComplete_address (o := .dns) (fun _ => rfl) (by decide) h₁ fun _ _ => ih
      rw [if_neg h6] at h₁
      by_cases h53 : code = CODE_TYPE
      · rw [if_pos h53] at h₁
        subst h53
        exact optionsComplete_type h₁ fun _ => ih
      rw [if_neg h53] at h₁
      by_cases h54 : code = CODE_SID
      · rw [if_pos h54] at h₁
        subst h54
        exact optionsComplete_address (o := .sid) (fun _ => rfl) (by decide) h₁ fun _ _ => ih
      rw [if_neg h54] at h₁
      by_cases h51 : code = CODE_LEASE_TIME
      · rw [if_pos h51] at h₁
        subst h51
        exact optionsComplete_leaseTime h₁ fun _ => ih
      rw [if_neg h51] at h₁
      by_cases h255 : code = CODE_END
      · subst h255
        exact .ended p
      rw [if_neg h255] at h₁
      by_cases h0 : code = CODE_PAD
      · rw [if_pos h0] at h₁
        subst h0
        exact .option .pad p (ih h₁)
      rw [if_neg h0] at h₁
      have hother := notMem_codes_iff.mpr ⟨h0, h1, h3, h6, h51, h53, h54, h255⟩
      exact optionsComplete_other hother h₁ (dhcpOptionsIn_nil n s) fun _ => ih

/-- The parser in a buffer that holds the fields in front of the options. -/
lemma dhcpParseOfferIn_eq {packet : List UInt8} (hlength : 240 ≤ packet.length) (xid : UInt32)
    (s : DhcpConfig) :
    dhcpParseOfferIn packet xid s
      = if ¬ OfferHeader packet xid then some (-1, s)
        else if dhcpCookie packet ≠ DHCP_MAGIC then some (-1, s.offered packet)
        else dhcpOptionsIn (packet.length + 1) (packet.drop 240) (s.offered packet) := by
  have hop : readIn 1 readU8 packet = some (readU8 packet) := readIn_of_le (by omega)
  have htype := readIn_drop readU8 (by omega : 1 + 1 ≤ packet.length)
  have hlen := readIn_drop readU8 (by omega : 2 + 1 ≤ packet.length)
  have hhops := readIn_drop readU8 (by omega : 3 + 1 ≤ packet.length)
  have hid := readIn_drop readU32 (by omega : 4 + 4 ≤ packet.length)
  have hsecs := readIn_drop readU16 (by omega : 8 + 2 ≤ packet.length)
  have hflags := readIn_drop readU16 (by omega : 10 + 2 ≤ packet.length)
  have hyiaddr := readIn_drop (readN 4) (by omega : 16 + 4 ≤ packet.length)
  have hsiaddr := readIn_drop (readN 4) (by omega : 20 + 4 ≤ packet.length)
  have hcookie := readIn_drop readU32 (by omega : 236 + 4 ≤ packet.length)
  have readN_snd : ∀ p : List UInt8, (readN 4 p).2 = p.drop 4 := fun _ => rfl
  rw [← ite_offerHeader]
  simp only [dhcpParseOfferIn, hop, htype, hlen, hhops, hid, hsecs, hflags, hyiaddr, hsiaddr,
    hcookie, Option.bind_eq_bind, Option.bind_some, readU8_snd, readU16_snd, readU32_snd,
    readN_snd, List.drop_drop, Nat.reduceAdd]
  rfl

/-- What lies behind the buffer has no part in the header. -/
lemma offerHeader_append {packet : List UInt8} (hlength : 240 ≤ packet.length) (xid : UInt32)
    (after : List UInt8) : OfferHeader (packet ++ after) xid ↔ OfferHeader packet xid := by
  have hop := codec_u8.read_drop_append (p := packet) (j := 0) (by omega) after
  have htype := codec_u8.read_drop_append (p := packet) (j := 1) (by omega) after
  have hlen := codec_u8.read_drop_append (p := packet) (j := 2) (by omega) after
  have hid := codec_u32.read_drop_append (p := packet) (j := 4) (by omega) after
  rw [List.drop_zero, List.drop_zero] at hop
  rw [OfferHeader, OfferHeader, hop, htype, hlen, hid]

/-- **`dhcp_parse_offer` stays in a buffer** that holds the fields in front of the options exactly
when the offer in it is complete, and then it does the same whatever lies behind the buffer. -/
lemma dhcpParseOfferIn_stays {packet : List UInt8} (hlength : 240 ≤ packet.length) (xid : UInt32)
    (s : DhcpConfig) :
    StaysIn (dhcpParseOfferIn packet xid s) (OfferComplete packet xid)
      (fun after => dhcpParseOffer (packet ++ after) xid s) some := by
  have hcookie : ∀ after, dhcpCookie (packet ++ after) = dhcpCookie packet := fun after =>
    codec_u32.read_drop_append (by omega) after
  have hoffered : ∀ after, s.offered (packet ++ after) = s.offered packet := by
    intro after
    rw [DhcpConfig.offered, DhcpConfig.offered,
      codec_ip.read_drop_append (by omega : 16 + 4 ≤ packet.length) after,
      codec_ip.read_drop_append (by omega : 20 + 4 ≤ packet.length) after]
  have hdrop : (packet.drop 240).length ≤ packet.length + 1 := by
    rw [List.length_drop]
    omega
  have hoptions : StaysIn (dhcpOptionsIn (packet.length + 1) (packet.drop 240) (s.offered packet))
      (OptionsComplete (packet.drop 240))
      (fun after => dhcpOptions ((packet ++ after).length + 1) ((packet ++ after).drop 240)
        (s.offered packet)) some := by
    refine .of_reads (fun _ h => optionsComplete_of_some h) fun h => ?_
    obtain ⟨r, hread, hafter⟩ := h.reads hdrop (s.offered packet)
    refine ⟨r, hread, fun after => ?_⟩
    rw [List.drop_append_of_le_length hlength]
    exact hafter after _ (by rw [List.length_append]; omega)
  simp only [dhcpParseOfferIn_eq hlength, dhcpParseOffer_eq,
    offerHeader_append hlength, hcookie, hoffered, OfferComplete]
  exact .guard not_not (-1, s) <| .guard not_not (-1, s.offered packet) hoptions

/-- **The parsers and their buffers.**  Each returns without a read outside of its buffer exactly
when the reply in the buffer is complete as far as it is looked at.  Then what lies behind the
buffer has no part in the result. -/
theorem replies_inside_iff (response : Vector UInt8 512) (id : UInt16) (offer : Vector UInt8 576)
    (xid : UInt32) (s : DhcpConfig) :
    ((dnsParseIn response.toList id).isSome ↔ ResponseComplete response.toList id)
      ∧ (∀ r, dnsParseIn response.toList id = some r →
        ∀ after, dnsParse (response.toList ++ after) id = r)
      ∧ ((dhcpParseOfferIn offer.toList xid s).isSome ↔ OfferComplete offer.toList xid)
      ∧ ∀ r, dhcpParseOfferIn offer.toList xid s = some r →
        ∀ after, dhcpParseOffer (offer.toList ++ after) xid s = some r := by
  have hresponse : 12 ≤ response.toList.length := by rw [Vector.length_toList]; omega
  have hoffer : 240 ≤ offer.toList.length := by rw [Vector.length_toList]; omega
  obtain ⟨hdns, hdnsAfter⟩ := dnsParseIn_stays hresponse id
  obtain ⟨hdhcp, hdhcpAfter⟩ := dhcpParseOfferIn_stays hoffer xid s
  exact ⟨hdns, hdnsAfter, hdhcp, hdhcpAfter⟩

/-- An offer with pads up to the end of the buffer. -/
def offerWithoutEnd : Vector UInt8 576 :=
  ⟨([BOOTREPLY, 1, MAC_SIZE, 0] ++ writeU32 0x26a08845 ++ List.replicate 228 0
    ++ writeU32 DHCP_MAGIC ++ List.replicate 336 CODE_PAD).toArray, by decide +kernel⟩

/-- A response with labels up to the end of the buffer. -/
def responseOfLabels : Vector UInt8 512 :=
  ⟨(writeU16 0x1234 ++ writeU16 dnsMask ++ writeU16 1 ++ writeU16 1
    ++ List.replicate 504 63).toArray, by decide +kernel⟩

/-- Both parsers leave their buffers. -/
theorem not_replies_inside :
    ¬ (∀ (response : Vector UInt8 512) (id : UInt16), (dnsParseIn response.toList id).isSome)
      ∧ ¬ ∀ (offer : Vector UInt8 576) (xid : UInt32) (s : DhcpConfig),
        (dhcpParseOfferIn offer.toList xid s).isSome := by
  refine ⟨fun h => ?_, fun h => ?_⟩
  · exact absurd (h responseOfLabels 0x1234) (by decide +kernel)
  · exact absurd (h offerWithoutEnd 0x26a08845 DhcpConfig.boot) (by decide +kernel)

end CustomLinuxOs
