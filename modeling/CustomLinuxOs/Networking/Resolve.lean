import CustomLinuxOs.Lib.Atoi
import CustomLinuxOs.Networking.Udp

/-!
From a domain string to an address: `parse_ip` of `networking.c` and the messages of `dns.c`.

A string is the list of its bytes up to the zero byte.

* `parseIp`: a dotted quad; the octets read before a failure are already written.
* `writeName`, `dnsRequest`: the question.
* `skipName`, `dnsQuestions`, `dnsAnswers`, `dnsParse`: the answer, record by record.
-/

namespace CustomLinuxOs

/-! ### Dotted quads -/

/-- The loop of `parse_ip` over the octets before a dot, with `n` to go.  It gives what is left of
the string, or `none` for `-1`. -/
def parseIpLoop : ℕ → ℕ → List UInt8 → Ip → Option (List UInt8) × Ip
  | 0, _, s, ip => (some s, ip)
  | n + 1, i, s, ip =>
      let a := atoi s
      let s := s.drop a.2
      if s.headD 0 ≠ 46 then (none, ip)
      else if a.1 < 0 ∨ a.1 > 255 then (none, ip)
      else parseIpLoop n (i + 1) (s.drop 1) (ip.setIfInBounds i a.1.toUInt32.toUInt8)

/-- `parse_ip`: whether it succeeds, and the address it leaves. -/
def parseIp (s : List UInt8) (ip : Ip) : Bool × Ip :=
  let octets := parseIpLoop 3 0 s ip
  match octets.1 with
  | none => (false, octets.2)
  | some s =>
      let a := atoi s
      if (s.drop a.2).headD 0 ≠ 0 then (false, octets.2)
      else if a.1 < 0 ∨ a.1 > 255 then (false, octets.2)
      else (true, octets.2.setIfInBounds 3 a.1.toUInt32.toUInt8)

lemma parseIpLoop_congr (n i : ℕ) (s : List UInt8) (ip ip' : Ip) :
    (parseIpLoop n i s ip).1 = (parseIpLoop n i s ip').1 := by
  induction n generalizing i s ip ip' with
  | zero => rfl
  | succ n ih =>
      simp only [parseIpLoop]
      split_ifs <;> first | rfl | exact ih _ _ _ _

/-- Whether a string is a dotted quad does not depend on what the address was before. -/
lemma parseIp_congr (s : List UInt8) (ip ip' : Ip) : (parseIp s ip).1 = (parseIp s ip').1 := by
  have hloop := parseIpLoop_congr 3 0 s ip ip'
  simp only [parseIp, hloop]
  cases (parseIpLoop 3 0 s ip').1 with
  | none => rfl
  | some s =>
      simp only
      split_ifs <;> rfl

example : parseIp [49, 48, 46, 48, 46, 50, 46, 51] (Vector.replicate 4 0)
    = (true, #v[10, 0, 2, 3]) := by decide

/-! ### Questions -/

def DNS_RECURSIVE : UInt16 := 0x100
def DNS_QUERY : UInt16 := 0
def DNS_RESPONSE : UInt16 := 0x8000
def DNS_RECURSIVE_ALLOWED : UInt16 := 0x80
def TYPE_A : UInt16 := 1
def TYPE_CNAME : UInt16 := 5
def CLASS_IN : UInt16 := 1
def COMPRESSED : UInt8 := 0xc0
def PORT_OFFSET : UInt16 := 0x8000
def DNS_PORT : UInt16 := 53

/-- `write_name`, with the label read so far: a label is put down behind its length when its dot
or the end of the name comes. -/
def writeName : List UInt8 → List UInt8 → List UInt8
  | [], label => label.length.toUInt8 :: label ++ [0]
  | c :: name, label =>
      if c = 46 then label.length.toUInt8 :: label ++ writeName name []
      else writeName name (label ++ [c])

/-- The message of `dns_request`. -/
def dnsRequest (name : List UInt8) (xid : UInt16) : List UInt8 :=
  writeU16 xid ++ writeU16 (DNS_QUERY ||| DNS_RECURSIVE) ++ writeU16 1 ++ writeU16 0 ++ writeU16 0
    ++ writeU16 0 ++ writeName name [] ++ writeU16 TYPE_A ++ writeU16 CLASS_IN

/-! ### Answers -/

/-- The loop of `skip_name`.  The first argument bounds the passes: each takes at least one byte,
and a byte past the end is zero. -/
def skipNameLoop : ℕ → List UInt8 → List UInt8
  | 0, pointer => pointer
  | n + 1, pointer =>
      let c := readU8 pointer
      if c.1 = 0 then c.2
      else if c.1 &&& COMPRESSED = COMPRESSED then (readU8 c.2).2
      else skipNameLoop n (c.2.drop c.1.toNat)

/-- `skip_name`. -/
def skipName (pointer : List UInt8) : List UInt8 := skipNameLoop (pointer.length + 1) pointer

/-- The loop of `dns_parse` over the questions. -/
def dnsQuestions : ℕ → List UInt8 → Option (List UInt8)
  | 0, pointer => some pointer
  | n + 1, pointer =>
      let type := readU16 (skipName pointer)
      if type.1 ≠ TYPE_A then none
      else
        let class_ := readU16 type.2
        if class_.1 ≠ CLASS_IN then none else dnsQuestions n class_.2

/-- The loop of `dns_parse` over the answers: the first address ends it, an alias is passed
over.  The length of an alias is read before the pointer is moved by it. -/
def dnsAnswers : ℕ → List UInt8 → Option Ip
  | 0, _ => none
  | n + 1, pointer =>
      let type := readU16 (skipName pointer)
      let class_ := readU16 type.2
      if class_.1 ≠ CLASS_IN then none
      else
        let ttl := readU32 class_.2
        let length := readU16 ttl.2
        if type.1 = TYPE_A then
          if length.1 ≠ 4 then none else some (readN 4 length.2).1
        else if type.1 = TYPE_CNAME then dnsAnswers n (length.2.drop length.1.toNat)
        else none

/-- `dns_parse`: the address, or `none` for `-1`. -/
def dnsParse (packet : List UInt8) (xid : UInt16) : Option Ip :=
  let id := readU16 packet
  if id.1 ≠ xid then none
  else
    let mask := DNS_RECURSIVE_ALLOWED ||| DNS_RECURSIVE ||| DNS_RESPONSE
    let flags := readU16 id.2
    if flags.1 &&& mask ≠ mask then none
    else
      let questions := readU16 flags.2
      let answers := readU16 questions.2
      if answers.1 = 0 then none
      else
        let authority := readU16 answers.2
        let additional := readU16 authority.2
        match dnsQuestions questions.1.toNat additional.2 with
        | none => none
        | some pointer => dnsAnswers answers.1.toNat pointer

end CustomLinuxOs
