import CustomLinuxOs.Networking.DnsNames

/-!
`dns_parse` of `dns.c` on well-formed responses.

* `DnsRecord`, `DnsResponse`: questions and answers with names in both forms, and the bytes of a
  message with them.
* `dnsQuestions_names`, `dnsAnswers_records`: the two loops land on each record.
* `dnsParse_response`: the address of the first record that has one.
-/

namespace CustomLinuxOs

/-! ### Messages -/

/-- The data of an answer: an address, or the bytes of an alias. -/
inductive RecordData where
  | address (ip : Ip)
  | cname (bytes : List UInt8) (short : bytes.length < 2 ^ 16)

def RecordData.type : RecordData → UInt16
  | .address _ => TYPE_A
  | .cname _ _ => TYPE_CNAME

def RecordData.bytes : RecordData → List UInt8
  | .address ip => ip.toList
  | .cname bytes _ => bytes

/-- The address in the data, if it is one. -/
def RecordData.ip : RecordData → Option Ip
  | .address ip => some ip
  | .cname _ _ => none

/-- An answer of class IN. -/
structure DnsRecord where
  name : WireName
  ttl : UInt32
  data : RecordData

def DnsRecord.bytes (r : DnsRecord) : List UInt8 :=
  r.name.bytes ++ writeU16 r.data.type ++ writeU16 CLASS_IN ++ writeU32 r.ttl
    ++ writeU16 r.data.bytes.length.toUInt16 ++ r.data.bytes

/-- A question of type A and class IN. -/
def questionBytes (name : WireName) : List UInt8 :=
  name.bytes ++ writeU16 TYPE_A ++ writeU16 CLASS_IN

/-- The flags `dns_parse` looks for: a response, with recursion wanted and offered. -/
def dnsMask : UInt16 := DNS_RECURSIVE_ALLOWED ||| DNS_RECURSIVE ||| DNS_RESPONSE

/-- A response up to the end of its answers.  The sections behind them are counted only. -/
structure DnsResponse where
  flags : UInt16
  flags_mask : flags &&& dnsMask = dnsMask
  questions : List WireName
  questions_length : questions.length < 2 ^ 16
  answers : List DnsRecord
  answers_length : answers.length < 2 ^ 16
  authority : UInt16
  additional : UInt16

def DnsResponse.bytes (r : DnsResponse) (xid : UInt16) : List UInt8 :=
  writeU16 xid ++ writeU16 r.flags ++ writeU16 r.questions.length.toUInt16
    ++ writeU16 r.answers.length.toUInt16 ++ writeU16 r.authority ++ writeU16 r.additional
    ++ r.questions.flatMap questionBytes ++ r.answers.flatMap DnsRecord.bytes

/-! ### The loops -/

/-- **The questions** are passed over. -/
lemma dnsQuestions_names (names : List WireName) (rest : List UInt8) :
    dnsQuestions names.length (names.flatMap questionBytes ++ rest) = some rest := by
  induction names with
  | nil => rfl
  | cons name names ih =>
      have hclass : ¬ CLASS_IN ≠ CLASS_IN := not_not.mpr rfl
      have htype : ¬ TYPE_A ≠ TYPE_A := not_not.mpr rfl
      simp only [List.flatMap_cons, questionBytes, List.append_assoc, List.length_cons,
        dnsQuestions, skipName_wireName, readU16_writeU16, if_neg hclass, if_neg htype]
      exact ih

/-- **The answers**: aliases are passed over up to the first address. -/
lemma dnsAnswers_records (records : List DnsRecord) (rest : List UInt8) :
    dnsAnswers records.length (records.flatMap DnsRecord.bytes ++ rest)
      = records.findSome? fun r => r.data.ip := by
  induction records with
  | nil => rfl
  | cons r records ih =>
      obtain ⟨name, ttl, data⟩ := r
      have hclass : ¬ CLASS_IN ≠ CLASS_IN := not_not.mpr rfl
      cases data with
      | address ip =>
          have hlength : ¬ ip.toList.length.toUInt16 ≠ 4 := by
            rw [Vector.length_toList]
            exact not_not.mpr rfl
          simp only [List.flatMap_cons, DnsRecord.bytes, List.append_assoc, List.length_cons,
            dnsAnswers, skipName_wireName, readU16_writeU16, readU32_writeU32, if_neg hclass,
            RecordData.type, RecordData.bytes, if_true, if_neg hlength, readN_toList,
            List.findSome?_cons, RecordData.ip]
      | cname bytes short =>
          have hdrop : bytes.length.toUInt16.toNat = bytes.length := Nat.mod_eq_of_lt short
          have htype : ¬ TYPE_CNAME = TYPE_A := by decide
          simp only [List.flatMap_cons, DnsRecord.bytes, List.append_assoc, List.length_cons,
            dnsAnswers, skipName_wireName, readU16_writeU16, readU32_writeU32, if_neg hclass,
            RecordData.type, RecordData.bytes, if_true, if_neg htype, hdrop, List.drop_left,
            List.findSome?_cons, RecordData.ip]
          exact ih

/-- **`dns_parse`** of a response with the id it waits for gives the address of the first answer
that has one, and fails if none has. -/
theorem dnsParse_response (r : DnsResponse) (xid : UInt16) (rest : List UInt8) :
    dnsParse (r.bytes xid ++ rest) xid = r.answers.findSome? fun a => a.data.ip := by
  have hid : ¬ xid ≠ xid := not_not.mpr rfl
  have hflags : ¬ r.flags &&& (DNS_RECURSIVE_ALLOWED ||| DNS_RECURSIVE ||| DNS_RESPONSE)
      ≠ DNS_RECURSIVE_ALLOWED ||| DNS_RECURSIVE ||| DNS_RESPONSE := not_not.mpr r.flags_mask
  have hquestions : r.questions.length.toUInt16.toNat = r.questions.length :=
    Nat.mod_eq_of_lt r.questions_length
  have hanswers : r.answers.length.toUInt16.toNat = r.answers.length :=
    Nat.mod_eq_of_lt r.answers_length
  simp only [DnsResponse.bytes, List.append_assoc, dnsParse, readU16_writeU16, if_neg hid,
    if_neg hflags, hquestions, dnsQuestions_names, hanswers, dnsAnswers_records]
  split
  · rename_i hzero
    have hlength := congrArg UInt16.toNat hzero
    rw [hanswers] at hlength
    rw [List.length_eq_zero_iff.mp hlength]
    rfl
  · rfl

/-- The answers to a question for `lib.c`: an alias, and the address, with pointers to the name in
the question. -/
def aliasResponse : DnsResponse where
  flags := 0x8180
  flags_mask := by decide
  questions := [⟨libC.labels, .root⟩]
  questions_length := by decide
  answers := [⟨⟨[], .pointer 0xc0 12 (by decide)⟩, 60, .cname [1, 0x64, 0] (by decide)⟩,
    ⟨⟨[], .pointer 0xc0 12 (by decide)⟩, 60, .address (Vector.replicate 4 9)⟩]
  answers_length := by decide
  authority := 0
  additional := 0

example : dnsParse (aliasResponse.bytes 7) 7 = some (Vector.replicate 4 9) := by decide +kernel

end CustomLinuxOs
