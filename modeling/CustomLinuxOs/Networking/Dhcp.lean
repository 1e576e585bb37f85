import CustomLinuxOs.Foundations.Codec
import CustomLinuxOs.Networking.Udp

/-!
`dhcp.c`: the offer, option by option.

* `DhcpConfig`, `dhcpOptions`, `dhcpParseOffer`: the five addresses and the parser that assigns
  them while it reads; `dhcpOptions_endless` says that its loop is cut off only where it would
  not end.
* `DhcpOption`, `DhcpOffer`: well-formed options and offers, and the bytes of them.
* `DhcpConfig.applyAll`: what a list of options does to the addresses.
* `dhcpParseOffer_offer`: an offer is decoded.
* `dhcpParseOffer_rejected`: what is assigned before a rejection.
-/

namespace CustomLinuxOs

/-! ### The parser -/

def BOOTREPLY : UInt8 := 2
def DHCP_MAGIC : UInt32 := 0x63825363
def CODE_PAD : UInt8 := 0
def CODE_SUBNET_MASK : UInt8 := 1
def CODE_ROUTER : UInt8 := 3
def CODE_DNS : UInt8 := 6
def CODE_LEASE_TIME : UInt8 := 51
def CODE_TYPE : UInt8 := 53
def CODE_SID : UInt8 := 54
def CODE_END : UInt8 := 255
def DHCPOFFER : UInt8 := 2
def MAC_SIZE : UInt8 := 6
def IP_SIZE : UInt8 := 4

/-- The variables `dhcp_parse_offer` assigns. -/
structure DhcpConfig where
  ourIp : Ip
  siaddr : Ip
  subnetMask : Ip
  gatewayIp : Ip
  dnsIp : Ip
  deriving DecidableEq

/-- `if (read_u8(&pointer) != IP_SIZE) return -1;` and the address behind it. -/
def dhcpAddress (pointer : List UInt8) : Option (Ip × List UInt8) :=
  let len := readU8 pointer
  if len.1 ≠ IP_SIZE then none else some (readN 4 len.2)

/-- The loop of `dhcp_parse_offer` over the options: its value and what it has assigned.  The first
argument bounds the passes, with `none` when they do not suffice. -/
def dhcpOptions : ℕ → List UInt8 → DhcpConfig → Option (ℤ × DhcpConfig)
  | 0, _, _ => none
  | n + 1, pointer, s =>
      let code := readU8 pointer
      if code.1 = CODE_SUBNET_MASK then
        match dhcpAddress code.2 with
        | none => some (-1, s)
        | some ip => dhcpOptions n ip.2 { s with subnetMask := ip.1 }
      else if code.1 = CODE_ROUTER then
        match dhcpAddress code.2 with
        | none => some (-1, s)
        | some ip => dhcpOptions n ip.2 { s with gatewayIp := ip.1 }
      else if code.1 = CODE_DNS then
        match dhcpAddress code.2 with
        | none => some (-1, s)
        | some ip => dhcpOptions n ip.2 { s with dnsIp := ip.1 }
      else if code.1 = CODE_TYPE then
        let len := readU8 code.2
        if len.1 ≠ 1 then some (-1, s)
        else
          let type := readU8 len.2
          if type.1 ≠ DHCPOFFER then some (-1, s) else dhcpOptions n type.2 s
      else if code.1 = CODE_SID then
        match dhcpAddress code.2 with
        | none => some (-1, s)
        | some ip => dhcpOptions n ip.2 { s with siaddr := ip.1 }
      else if code.1 = CODE_LEASE_TIME then
        let len := readU8 code.2
        if len.1 ≠ 4 then some (-1, s) else dhcpOptions n (readU32 len.2).2 s
      else if code.1 = CODE_END then some (0, s)
      else if code.1 = CODE_PAD then dhcpOptions n code.2 s
      else
        -- the length is read before the pointer is moved by it
        let len := readU8 code.2
        dhcpOptions n (len.2.drop len.1.toNat) s

/-- `dhcp_parse_offer`: its value and the variables it leaves, or `none` where it does not end. -/
def dhcpParseOffer (packet : List UInt8) (xid : UInt32) (s : DhcpConfig) :
    Option (ℤ × DhcpConfig) :=
  let op := readU8 packet
  if op.1 ≠ BOOTREPLY then some (-1, s)
  else
    let htype := readU8 op.2
    if htype.1 ≠ ARP_ETHERNET.toUInt8 then some (-1, s)
    else
      let hlen := readU8 htype.2
      if hlen.1 ≠ MAC_SIZE then some (-1, s)
      else
        let hops := readU8 hlen.2
        let id := readU32 hops.2
        if id.1 ≠ xid then some (-1, s)
        else
          let secs := readU16 id.2
          let flags := readU16 secs.2
          let ciaddr := flags.2.drop 4
          let yiaddr : Ip × List UInt8 := readN 4 ciaddr
          let s := { s with ourIp := yiaddr.1 }
          let siaddr : Ip × List UInt8 := readN 4 yiaddr.2
          let s := { s with siaddr := siaddr.1 }
          let giaddr := siaddr.2.drop 4
          let chaddr := giaddr.drop 16
          let sname := chaddr.drop 64
          let file := sname.drop 128
          let cookie := readU32 file
          if cookie.1 ≠ DHCP_MAGIC then some (-1, s)
          else dhcpOptions (packet.length + 1) cookie.2 s

/-- The end of `dhcp_init`, from the answer on: the variables it goes on with, or `none` where it
does not return, as after `die`. -/
def dhcpInit (packet : List UInt8) (xid : UInt32) (s : DhcpConfig) : Option DhcpConfig :=
  match dhcpParseOffer packet xid s with
  | some (0, s) => some s
  | _ => none

/-! ### Options -/

/-- An option of a code the parser does not know. -/
structure OtherOption where
  code : UInt8
  data : List UInt8
  code_other : code ∉ [CODE_PAD, CODE_SUBNET_MASK, CODE_ROUTER, CODE_DNS, CODE_LEASE_TIME,
    CODE_TYPE, CODE_SID, CODE_END]
  data_length : data.length < 256

/-- An option. -/
inductive DhcpOption where
  | pad
  | subnetMask (ip : Ip)
  | router (ip : Ip)
  | dns (ip : Ip)
  | sid (ip : Ip)
  | offer
  | leaseTime (seconds : UInt32)
  | other (o : OtherOption)

def DhcpOption.bytes : DhcpOption → List UInt8
  | .pad => [CODE_PAD]
  | .subnetMask ip => CODE_SUBNET_MASK :: IP_SIZE :: ip.toList
  | .router ip => CODE_ROUTER :: IP_SIZE :: ip.toList
  | .dns ip => CODE_DNS :: IP_SIZE :: ip.toList
  | .sid ip => CODE_SID :: IP_SIZE :: ip.toList
  | .offer => [CODE_TYPE, 1, DHCPOFFER]
  | .leaseTime seconds => CODE_LEASE_TIME :: 4 :: writeU32 seconds
  | .other o => o.code :: o.data.length.toUInt8 :: o.data

lemma OtherOption.toNat_length (o : OtherOption) : o.data.length.toUInt8.toNat = o.data.length :=
  Nat.mod_eq_of_lt o.data_length

/-- A code that is not known, code by code. -/
lemma notMem_codes_iff {code : UInt8} :
    code ∉ [CODE_PAD, CODE_SUBNET_MASK, CODE_ROUTER, CODE_DNS, CODE_LEASE_TIME, CODE_TYPE,
        CODE_SID, CODE_END]
      ↔ code ≠ CODE_PAD ∧ code ≠ CODE_SUBNET_MASK ∧ code ≠ CODE_ROUTER ∧ code ≠ CODE_DNS
        ∧ code ≠ CODE_LEASE_TIME ∧ code ≠ CODE_TYPE ∧ code ≠ CODE_SID ∧ code ≠ CODE_END := by
  simp only [List.mem_cons, List.not_mem_nil, or_false, not_or]

lemma DhcpOption.bytes_pos (o : DhcpOption) : 0 < o.bytes.length := by
  cases o <;> exact Nat.succ_pos _

/-- What an option does to the addresses. -/
def DhcpConfig.apply (s : DhcpConfig) : DhcpOption → DhcpConfig
  | .subnetMask ip => { s with subnetMask := ip }
  | .router ip => { s with gatewayIp := ip }
  | .dns ip => { s with dnsIp := ip }
  | .sid ip => { s with siaddr := ip }
  | _ => s

/-- What options do to the addresses, one after the other. -/
def DhcpConfig.applyAll (s : DhcpConfig) (options : List DhcpOption) : DhcpConfig :=
  options.foldl DhcpConfig.apply s

lemma dhcpAddress_ip (ip : Ip) (rest : List UInt8) :
    dhcpAddress (IP_SIZE :: (ip.toList ++ rest)) = some (ip, rest) := by
  have hsize : ¬ IP_SIZE ≠ IP_SIZE := not_not.mpr rfl
  simp only [dhcpAddress, readU8_cons, if_neg hsize, readN_toList]

/-- **One option** is read in one pass. -/
lemma dhcpOptions_option (n : ℕ) (o : DhcpOption) (rest : List UInt8) (s : DhcpConfig) :
    dhcpOptions (n + 1) (o.bytes ++ rest) s = dhcpOptions n rest (s.apply o) := by
  cases o with
  | pad => rfl
  | subnetMask ip | router ip | dns ip | sid ip =>
      rw [DhcpOption.bytes, List.cons_append, List.cons_append, dhcpOptions]
      simp only [readU8_cons, dhcpAddress_ip]
      rfl
  | offer => rfl
  | leaseTime seconds =>
      rw [DhcpOption.bytes, List.cons_append, List.cons_append, dhcpOptions]
      simp only [readU8_cons, readU32_writeU32]
      rfl
  | other o =>
      obtain ⟨h0, h1, h3, h6, h51, h53, h54, h255⟩ := notMem_codes_iff.mp o.code_other
      rw [DhcpOption.bytes, List.cons_append, List.cons_append, dhcpOptions]
      simp only [readU8_cons, if_neg h0, if_neg h1, if_neg h3, if_neg h6, if_neg h51, if_neg h53,
        if_neg h54, if_neg h255, o.toNat_length, List.drop_left]
      rfl

/-- A list of options up to its end, and as many passes more as one likes. -/
lemma dhcpOptions_ended (n : ℕ) (options : List DhcpOption) (rest : List UInt8) (s : DhcpConfig) :
    dhcpOptions (n + 1 + options.length)
        (options.flatMap DhcpOption.bytes ++ CODE_END :: rest) s
      = some (0, s.applyAll options) := by
  induction options generalizing s with
  | nil => rfl
  | cons o options ih =>
      rw [List.length_cons, ← Nat.add_assoc, List.flatMap_cons, List.append_assoc,
        dhcpOptions_option, ih]
      rfl

/-! ### The last option of a kind -/

/-- A part of the state that some items of a list set and the others leave alone: it is what the
last of these sets it to. -/
lemma foldl_getLast? {σ ι α : Type*} {f : σ → ι → σ} (part : σ → α) (value : ι → Option α)
    (h : ∀ s i, part (f s i) = (value i).getD (part s)) (l : List ι) (s : σ) :
    part (l.foldl f s) = ((l.filterMap value).getLast?).getD (part s) := by
  induction l using List.reverseRecOn with
  | nil => rfl
  | append_singleton l i ih =>
      rw [List.foldl_append, List.foldl_cons, List.foldl_nil, h, ih, List.filterMap_append]
      cases hi : value i with
      | none => simp [hi]
      | some v => simp [hi]

namespace DhcpOption

def subnetMask? : DhcpOption → Option Ip
  | .subnetMask ip => some ip
  | _ => none

def router? : DhcpOption → Option Ip
  | .router ip => some ip
  | _ => none

def dns? : DhcpOption → Option Ip
  | .dns ip => some ip
  | _ => none

def sid? : DhcpOption → Option Ip
  | .sid ip => some ip
  | _ => none

end DhcpOption

/-- **The addresses** after a list of options: for each, its last option, or else its old value. -/
lemma DhcpConfig.applyAll_eq (s : DhcpConfig) (options : List DhcpOption) :
    s.applyAll options =
      { ourIp := s.ourIp
        siaddr := ((options.filterMap DhcpOption.sid?).getLast?).getD s.siaddr
        subnetMask := ((options.filterMap DhcpOption.subnetMask?).getLast?).getD s.subnetMask
        gatewayIp := ((options.filterMap DhcpOption.router?).getLast?).getD s.gatewayIp
        dnsIp := ((options.filterMap DhcpOption.dns?).getLast?).getD s.dnsIp } := by
  have hour := foldl_getLast? (f := DhcpConfig.apply) DhcpConfig.ourIp (fun _ => none)
    (fun s o => by cases o <;> rfl) options s
  have hsid := foldl_getLast? (f := DhcpConfig.apply) DhcpConfig.siaddr DhcpOption.sid?
    (fun s o => by cases o <;> rfl) options s
  have hmask := foldl_getLast? (f := DhcpConfig.apply) DhcpConfig.subnetMask
    DhcpOption.subnetMask? (fun s o => by cases o <;> rfl) options s
  have hgateway := foldl_getLast? (f := DhcpConfig.apply) DhcpConfig.gatewayIp
    DhcpOption.router? (fun s o => by cases o <;> rfl) options s
  have hdns := foldl_getLast? (f := DhcpConfig.apply) DhcpConfig.dnsIp DhcpOption.dns?
    (fun s o => by cases o <;> rfl) options s
  have hnone : options.filterMap (fun _ => (none : Option Ip)) = [] := by simp
  rw [hnone, List.getLast?_nil, Option.getD_none] at hour
  rw [applyAll, ← hsid, ← hmask, ← hgateway, ← hdns, ← hour]

/-! ### Offers -/

/-- The fields of an offer that the parser does not compare with anything. -/
structure DhcpOffer where
  hops : UInt8
  secs : UInt16
  flags : UInt16
  ciaddr : Ip
  yiaddr : Ip
  siaddr : Ip
  giaddr : Ip
  chaddr : Vector UInt8 16
  sname : Vector UInt8 64
  file : Vector UInt8 128
  options : List DhcpOption

/-- An offer up to the code that ends its options. -/
def DhcpOffer.bytes (o : DhcpOffer) (xid : UInt32) : List UInt8 :=
  writeU8 BOOTREPLY ++ writeU8 ARP_ETHERNET.toUInt8 ++ writeU8 MAC_SIZE ++ writeU8 o.hops
    ++ writeU32 xid ++ writeU16 o.secs ++ writeU16 o.flags ++ o.ciaddr.toList ++ o.yiaddr.toList
    ++ o.siaddr.toList ++ o.giaddr.toList ++ o.chaddr.toList ++ o.sname.toList ++ o.file.toList
    ++ writeU32 DHCP_MAGIC ++ o.options.flatMap DhcpOption.bytes ++ [CODE_END]

lemma drop_toList {n : ℕ} (v : Vector UInt8 n) (rest : List UInt8) :
    (v.toList ++ rest).drop n = rest :=
  List.drop_left' (by simp)

/-- **`dhcp_parse_offer`** of an offer with the id it waits for: `our_ip` is the address offered,
and the other addresses are those of the last options for them, or what they were. -/
theorem dhcpParseOffer_offer (o : DhcpOffer) (xid : UInt32) (rest : List UInt8)
    (s : DhcpConfig) :
    dhcpParseOffer (o.bytes xid ++ rest) xid s = some (0,
      { ourIp := o.yiaddr
        siaddr := ((o.options.filterMap DhcpOption.sid?).getLast?).getD o.siaddr
        subnetMask := ((o.options.filterMap DhcpOption.subnetMask?).getLast?).getD s.subnetMask
        gatewayIp := ((o.options.filterMap DhcpOption.router?).getLast?).getD s.gatewayIp
        dnsIp := ((o.options.filterMap DhcpOption.dns?).getLast?).getD s.dnsIp }) := by
  have hop : ¬ BOOTREPLY ≠ BOOTREPLY := not_not.mpr rfl
  have htype : ¬ ARP_ETHERNET.toUInt8 ≠ ARP_ETHERNET.toUInt8 := not_not.mpr rfl
  have hlen : ¬ MAC_SIZE ≠ MAC_SIZE := not_not.mpr rfl
  have hid : ¬ xid ≠ xid := not_not.mpr rfl
  have hcookie : ¬ DHCP_MAGIC ≠ DHCP_MAGIC := not_not.mpr rfl
  have hcount : o.options.length ≤ (o.bytes xid ++ rest).length := by
    have hoptions := length_le_flatMap DhcpOption.bytes_pos o.options
    delta DhcpOffer.bytes
    rw [List.length_append, List.length_append, List.length_append]
    omega
  obtain ⟨n, hn⟩ : ∃ n, (o.bytes xid ++ rest).length + 1 = n + 1 + o.options.length :=
    ⟨(o.bytes xid ++ rest).length - o.options.length, by omega⟩
  simp only [dhcpParseOffer, hn]
  delta DhcpOffer.bytes
  simp only [List.append_assoc, readU8_writeU8, readU16_writeU16, readU32_writeU32,
    readN_toList, drop_toList, if_neg hop, if_neg htype, if_neg hlen, if_neg hid,
    if_neg hcookie, List.singleton_append, dhcpOptions_ended, DhcpConfig.applyAll_eq]

/-- An offer with two routers, a lease time and an option that the parser passes over. -/
def twoRouters : DhcpOffer where
  hops := 0
  secs := 0
  flags := 0
  ciaddr := Vector.replicate 4 0
  yiaddr := Vector.replicate 4 9
  siaddr := Vector.replicate 4 1
  giaddr := Vector.replicate 4 0
  chaddr := Vector.replicate 16 0
  sname := Vector.replicate 64 0
  file := Vector.replicate 128 0
  options := [.offer, .router (Vector.replicate 4 2), .leaseTime 60,
    .other ⟨12, [0x78], by decide, by decide⟩, .router (Vector.replicate 4 3)]

example :
    let unset := Vector.replicate 4 0
    dhcpParseOffer (twoRouters.bytes 5) 5 ⟨unset, unset, unset, unset, unset⟩ = some (0,
      ⟨Vector.replicate 4 9, Vector.replicate 4 1, unset, Vector.replicate 4 3, unset⟩) := by
  decide +kernel

/-! ### Rejections -/

/-- The next option has a size or a type that the parser does not take. -/
def DhcpRejects (pointer : List UInt8) : Prop :=
  let code := readU8 pointer
  let len := readU8 code.2
  (code.1 ∈ [CODE_SUBNET_MASK, CODE_ROUTER, CODE_DNS, CODE_SID, CODE_LEASE_TIME] ∧ len.1 ≠ 4)
    ∨ (code.1 = CODE_TYPE ∧ (len.1 ≠ 1 ∨ (readU8 len.2).1 ≠ DHCPOFFER))

/-- Behind the end of memory there are pads without end. -/
lemma dhcpOptions_nil (n : ℕ) (s : DhcpConfig) : dhcpOptions n [] s = none := by
  induction n with
  | zero => rfl
  | succ n ih => exact ih

/-- An address: the size is wrong, or the address is there, or memory ends in it. -/
lemma dhcpAddress_cases (pointer : List UInt8) :
    (dhcpAddress pointer = none ∧ (readU8 pointer).1 ≠ 4)
      ∨ (∃ ip rest, pointer = IP_SIZE :: (ip.toList ++ rest)
        ∧ dhcpAddress pointer = some (ip, rest))
      ∨ ∃ ip, dhcpAddress pointer = some (ip, []) := by
  by_cases hsize : (readU8 pointer).1 ≠ IP_SIZE
  · exact .inl ⟨by simp only [dhcpAddress, if_pos hsize], hsize⟩
  · have hread : dhcpAddress pointer = some (readN 4 (readU8 pointer).2) := by
      simp only [dhcpAddress, if_neg hsize]
    cases pointer with
    | nil => exact absurd hsize (by decide)
    | cons len p =>
        rw [readU8_cons] at hsize hread
        by_cases hlength : 4 ≤ p.length
        · refine .inr (.inl ⟨(readN 4 p).1, p.drop 4, ?_, hread⟩)
          rw [toList_readN hlength, ← not_not.mp hsize]
        · refine .inr (.inr ⟨(readN 4 p).1, hread.trans ?_⟩)
          rw [← List.drop_eq_nil_of_le (Nat.le_of_not_le hlength)]
          rfl

/-- What a pass can find: an option, the end of the options, an option that is not taken, or an
option in which memory ends. -/
inductive PassOutcome (pointer : List UInt8) : Prop
  | option (o : DhcpOption) (rest : List UInt8) (h : pointer = o.bytes ++ rest)
  | ended (rest : List UInt8) (h : pointer = CODE_END :: rest)
  | rejected (h : DhcpRejects pointer)
      (hpass : ∀ n s, dhcpOptions (n + 1) pointer s = some (-1, s))
  | endless (h : ∀ n s, dhcpOptions n pointer s = none)

/-- Memory ends in an option: the pointer is behind it then. -/
lemma PassOutcome.of_cut {pointer : List UInt8} {f : DhcpConfig → DhcpConfig}
    (hpass : ∀ n s, dhcpOptions (n + 1) pointer s = dhcpOptions n [] (f s)) :
    PassOutcome pointer := by
  refine .endless fun n s => ?_
  cases n with
  | zero => rfl
  | succ n => rw [hpass, dhcpOptions_nil]

/-- A code with an address behind it. -/
lemma passOutcome_address {code : UInt8} {o : Ip → DhcpOption}
    (hbytes : ∀ ip, (o ip).bytes = code :: IP_SIZE :: ip.toList)
    (hcode : code ∈ [CODE_SUBNET_MASK, CODE_ROUTER, CODE_DNS, CODE_SID, CODE_LEASE_TIME])
    {pointer : List UInt8} (hpass : ∀ n s, dhcpOptions (n + 1) (code :: pointer) s
      = match dhcpAddress pointer with
        | none => some (-1, s)
        | some ip => dhcpOptions n ip.2 (s.apply (o ip.1))) :
    PassOutcome (code :: pointer) := by
  rcases dhcpAddress_cases pointer with ⟨hnone, hsize⟩ | ⟨ip, rest, hpointer, -⟩ | ⟨ip, hsome⟩
  · rw [hnone] at hpass
    exact .rejected (.inl ⟨hcode, hsize⟩) hpass
  · refine .option (o ip) rest ?_
    rw [hbytes, hpointer]
    rfl
  · rw [hsome] at hpass
    exact .of_cut hpass

/-- The code for the type of the message. -/
lemma passOutcome_type (p : List UInt8) : PassOutcome (CODE_TYPE :: p) := by
  have hpass : ∀ n s, dhcpOptions (n + 1) (CODE_TYPE :: p) s
      = if (readU8 p).1 ≠ 1 then some (-1, s)
        else if (readU8 (readU8 p).2).1 ≠ DHCPOFFER then some (-1, s)
        else dhcpOptions n (readU8 (readU8 p).2).2 s := fun _ _ => rfl
  by_cases hsize : (readU8 p).1 ≠ 1
  · simp only [if_pos hsize] at hpass
    exact .rejected (.inr ⟨rfl, .inl hsize⟩) hpass
  · by_cases htype : (readU8 (readU8 p).2).1 ≠ DHCPOFFER
    · simp only [if_neg hsize, if_pos htype] at hpass
      exact .rejected (.inr ⟨rfl, .inr htype⟩) hpass
    · match p with
      | [] => exact absurd hsize (by decide)
      | [len] => exact absurd (show (0 : UInt8) ≠ DHCPOFFER by decide) htype
      | len :: type :: rest =>
          have hlen : len = 1 := not_not.mp hsize
          have htype : type = DHCPOFFER := not_not.mp htype
          refine .option .offer rest ?_
          rw [hlen, htype]
          rfl

/-- The code for the lease time. -/
lemma passOutcome_leaseTime (p : List UInt8) : PassOutcome (CODE_LEASE_TIME :: p) := by
  have hpass : ∀ n s, dhcpOptions (n + 1) (CODE_LEASE_TIME :: p) s
      = if (readU8 p).1 ≠ 4 then some (-1, s)
        else dhcpOptions n (readU32 (readU8 p).2).2 s := fun _ _ => rfl
  by_cases hsize : (readU8 p).1 ≠ 4
  · simp only [if_pos hsize] at hpass
    have hcode : CODE_LEASE_TIME
        ∈ [CODE_SUBNET_MASK, CODE_ROUTER, CODE_DNS, CODE_SID, CODE_LEASE_TIME] := by decide
    exact .rejected (.inl ⟨hcode, hsize⟩) hpass
  · simp only [if_neg hsize, readU32_snd] at hpass
    cases p with
    | nil => exact absurd hsize (by decide)
    | cons len q =>
        rw [readU8_cons] at hsize
        by_cases hlength : 4 ≤ q.length
        · refine .option (.leaseTime (readU32 q).1) (q.drop 4) ?_
          rw [DhcpOption.bytes, List.cons_append, List.cons_append, writeU32_append_drop hlength,
            ← not_not.mp hsize]
        · have hcut : q.drop 4 = [] := List.drop_eq_nil_of_le (Nat.le_of_not_le hlength)
          exact .of_cut (f := id) (hcut ▸ hpass)

/-- An option of another code that is whole, with its data. -/
lemma exists_otherOption {code len : UInt8} (hcode : code ∉ [CODE_PAD, CODE_SUBNET_MASK,
      CODE_ROUTER, CODE_DNS, CODE_LEASE_TIME, CODE_TYPE, CODE_SID, CODE_END])
    {p : List UInt8} (hlength : len.toNat ≤ p.length) :
    ∃ o : OtherOption, (DhcpOption.other o).bytes ++ p.drop len.toNat = code :: len :: p := by
  have hdata : (p.take len.toNat).length = len.toNat := List.length_take_of_le hlength
  refine ⟨⟨code, p.take len.toNat, hcode, hdata.trans_lt len.toNat_lt⟩, ?_⟩
  simp only [DhcpOption.bytes, hdata, List.cons_append, List.take_append_drop]
  simp

/-- A code the parser does not know. -/
lemma passOutcome_other {code : UInt8} (hcode : code ∉ [CODE_PAD, CODE_SUBNET_MASK, CODE_ROUTER,
      CODE_DNS, CODE_LEASE_TIME, CODE_TYPE, CODE_SID, CODE_END]) (p : List UInt8) :
    PassOutcome (code :: p) := by
  have hpass : ∀ n s, dhcpOptions (n + 1) (code :: p) s
      = dhcpOptions n ((readU8 p).2.drop (readU8 p).1.toNat) s := by
    intro n s
    have hread : (readU8 (code :: p)).1 ∉ [CODE_PAD, CODE_SUBNET_MASK, CODE_ROUTER, CODE_DNS,
      CODE_LEASE_TIME, CODE_TYPE, CODE_SID, CODE_END] := hcode
    obtain ⟨h0, h1, h3, h6, h51, h53, h54, h255⟩ := notMem_codes_iff.mp hread
    simp only [dhcpOptions, if_neg h0, if_neg h1, if_neg h3, if_neg h6, if_neg h51, if_neg h53,
      if_neg h54, if_neg h255]
    rfl
  cases p with
  | nil => exact .of_cut (f := id) hpass
  | cons len q =>
      by_cases hlength : len.toNat ≤ q.length
      · obtain ⟨o, hwhole⟩ := exists_otherOption hcode hlength
        exact .option (.other o) (q.drop len.toNat) hwhole.symm
      · have hcut : q.drop len.toNat = [] := List.drop_eq_nil_of_le (Nat.le_of_not_le hlength)
        exact .of_cut (f := id) (hcut ▸ hpass)

/-- **One pass**, at any code. -/
lemma passOutcome (pointer : List UInt8) : PassOutcome pointer := by
  cases pointer with
  | nil => exact .endless dhcpOptions_nil
  | cons code p =>
      by_cases h1 : code = CODE_SUBNET_MASK
      · subst h1
        exact passOutcome_address (o := DhcpOption.subnetMask) (fun _ => rfl) (by decide)
          fun _ _ => rfl
      by_cases h3 : code = CODE_ROUTER
      · subst h3
        exact passOutcome_address (o := DhcpOption.router) (fun _ => rfl) (by decide)
          fun _ _ => rfl
      by_cases h6 : code = CODE_DNS
      · subst h6
        exact passOutcome_address (o := DhcpOption.dns) (fun _ => rfl) (by decide) fun _ _ => rfl
      by_cases h54 : code = CODE_SID
      · subst h54
        exact passOutcome_address (o := DhcpOption.sid) (fun _ => rfl) (by decide) fun _ _ => rfl
      by_cases h53 : code = CODE_TYPE
      · subst h53
        exact passOutcome_type p
      by_cases h51 : code = CODE_LEASE_TIME
      · subst h51
        exact passOutcome_leaseTime p
      by_cases h255 : code = CODE_END
      · subst h255
        exact .ended p rfl
      by_cases h0 : code = CODE_PAD
      · subst h0
        exact .option .pad p rfl
      · exact passOutcome_other
          (notMem_codes_iff.mpr ⟨h0, h1, h3, h6, h51, h53, h54, h255⟩) p

/-- What the loop has read when it returns: options, and then their end or one it does not take. -/
inductive OptionsRead (pointer : List UInt8) (s : DhcpConfig) : ℤ × DhcpConfig → Prop
  | ended (options : List DhcpOption) (rest : List UInt8)
      (h : pointer = options.flatMap DhcpOption.bytes ++ CODE_END :: rest) :
      OptionsRead pointer s (0, s.applyAll options)
  | rejected (options : List DhcpOption) (rest : List UInt8)
      (h : pointer = options.flatMap DhcpOption.bytes ++ rest) (hrejects : DhcpRejects rest) :
      OptionsRead pointer s (-1, s.applyAll options)

/-- **The loop**, when it returns. -/
lemma optionsRead_of_some {n : ℕ} {pointer : List UInt8} {s : DhcpConfig} {r : ℤ × DhcpConfig}
    (h : dhcpOptions n pointer s = some r) : OptionsRead pointer s r := by
  induction n generalizing pointer s with
  | zero => cases h
  | succ n ih =>
      cases passOutcome pointer with
      | option o rest hbytes =>
          rw [hbytes, dhcpOptions_option] at h
          cases ih h with
          | ended options tail htail =>
              exact .ended (o :: options) tail (by
                rw [hbytes, htail, List.flatMap_cons, List.append_assoc])
          | rejected options tail htail hrejects =>
              exact .rejected (o :: options) tail (by
                rw [hbytes, htail, List.flatMap_cons, List.append_assoc]) hrejects
      | ended rest hbytes =>
          subst hbytes
          obtain rfl := Option.some.inj h
          exact .ended [] rest rfl
      | rejected hrejects hpass =>
          rw [hpass] at h
          obtain rfl := Option.some.inj h
          exact .rejected [] pointer rfl hrejects
      | endless hendless =>
          rw [hendless] at h
          cases h

/-- **The bound on the passes** cuts off only a loop that does not end. -/
lemma dhcpOptions_endless {n : ℕ} {pointer : List UInt8} {s : DhcpConfig}
    (hn : pointer.length < n) (h : dhcpOptions n pointer s = none) (m : ℕ) :
    dhcpOptions m pointer s = none := by
  induction n generalizing pointer s m with
  | zero => exact absurd hn (Nat.not_lt_zero _)
  | succ n ih =>
      cases m with
      | zero => rfl
      | succ m =>
          cases passOutcome pointer with
          | option o rest hbytes =>
              subst hbytes
              rw [dhcpOptions_option] at h ⊢
              refine ih ?_ h m
              have hpos := o.bytes_pos
              rw [List.length_append] at hn
              omega
          | ended rest hbytes =>
              subst hbytes
              cases h
          | rejected _ hpass =>
              rw [hpass] at h
              cases h
          | endless hendless => exact hendless _ _

/-- The reply has the operation, hardware type, address size and id that are looked for. -/
def OfferHeader (packet : List UInt8) (xid : UInt32) : Prop :=
  (readU8 packet).1 = BOOTREPLY ∧ (readU8 (packet.drop 1)).1 = ARP_ETHERNET.toUInt8
    ∧ (readU8 (packet.drop 2)).1 = MAC_SIZE ∧ (readU32 (packet.drop 4)).1 = xid

instance (packet : List UInt8) (xid : UInt32) : Decidable (OfferHeader packet xid) :=
  inferInstanceAs (Decidable (_ ∧ _ ∧ _ ∧ _))

/-- The two addresses of the header are assigned. -/
def DhcpConfig.offered (s : DhcpConfig) (packet : List UInt8) : DhcpConfig :=
  { s with ourIp := (readN 4 (packet.drop 16)).1, siaddr := (readN 4 (packet.drop 20)).1 }

/-- The magic cookie of a reply. -/
def dhcpCookie (packet : List UInt8) : UInt32 := (readU32 (packet.drop 236)).1

/-- The checks of the header, one after the other. -/
lemma ite_offerHeader {α : Type*} (packet : List UInt8) (xid : UInt32) (rejected passed : α) :
    (if (readU8 packet).1 ≠ BOOTREPLY then rejected
      else if (readU8 (packet.drop 1)).1 ≠ ARP_ETHERNET.toUInt8 then rejected
      else if (readU8 (packet.drop 2)).1 ≠ MAC_SIZE then rejected
      else if (readU32 (packet.drop 4)).1 ≠ xid then rejected
      else passed) = if ¬ OfferHeader packet xid then rejected else passed := by
  by_cases hheader : OfferHeader packet xid
  · obtain ⟨hop, htype, hlen, hid⟩ := id hheader
    rw [if_neg (not_not.mpr hheader), if_neg (not_not.mpr hop), if_neg (not_not.mpr htype),
      if_neg (not_not.mpr hlen), if_neg (not_not.mpr hid)]
  · rw [if_pos hheader]
    split_ifs with hop htype hlen hid
    · rfl
    · rfl
    · rfl
    · rfl
    · exact absurd ⟨not_not.mp hop, not_not.mp htype, not_not.mp hlen, not_not.mp hid⟩ hheader

/-- The parser, by the places of what it reads. -/
lemma dhcpParseOffer_eq (packet : List UInt8) (xid : UInt32) (s : DhcpConfig) :
    dhcpParseOffer packet xid s
      = if ¬ OfferHeader packet xid then some (-1, s)
        else if dhcpCookie packet ≠ DHCP_MAGIC then some (-1, s.offered packet)
        else dhcpOptions (packet.length + 1) (packet.drop 240) (s.offered packet) := by
  rw [← ite_offerHeader]
  simp only [dhcpParseOffer, readU8_snd, readU16_snd, readU32_snd, readN, List.drop_drop,
    Nat.reduceAdd]
  rfl

/-- The options that a rejected reply has been read to: none if its cookie is wrong, or else those
before the one that is not taken. -/
def ReadBefore (packet : List UInt8) (options : List DhcpOption) : Prop :=
  (dhcpCookie packet ≠ DHCP_MAGIC ∧ options = [])
    ∨ (dhcpCookie packet = DHCP_MAGIC ∧ ∃ rest,
      packet.drop 240 = options.flatMap DhcpOption.bytes ++ rest ∧ DhcpRejects rest)

/-- **A rejected reply.**  One that fails a check of its header changes nothing.  Of any other,
`our_ip` is the address offered, and each other address is that of the last option for it that was
read before the rejection, or else what it was, with `siaddr` that of the header.  `dhcp_init` goes
on with none of them. -/
theorem dhcpParseOffer_rejected {packet : List UInt8} {xid : UInt32} {s s' : DhcpConfig}
    (h : dhcpParseOffer packet xid s = some (-1, s')) :
    (¬ OfferHeader packet xid → s' = s)
      ∧ (OfferHeader packet xid → ∃ options, ReadBefore packet options ∧ s' =
        { ourIp := (readN 4 (packet.drop 16)).1
          siaddr := ((options.filterMap DhcpOption.sid?).getLast?).getD
            (readN 4 (packet.drop 20)).1
          subnetMask := ((options.filterMap DhcpOption.subnetMask?).getLast?).getD s.subnetMask
          gatewayIp := ((options.filterMap DhcpOption.router?).getLast?).getD s.gatewayIp
          dnsIp := ((options.filterMap DhcpOption.dns?).getLast?).getD s.dnsIp })
      ∧ dhcpInit packet xid s = none := by
  refine ⟨fun hheader => ?_, fun hheader => ?_, by rw [dhcpInit, h]; rfl⟩
  · rw [dhcpParseOffer_eq, if_pos hheader] at h
    exact (Prod.mk.inj (Option.some.inj h)).2.symm
  · rw [dhcpParseOffer_eq, if_neg (not_not.mpr hheader)] at h
    by_cases hcookie : dhcpCookie packet ≠ DHCP_MAGIC
    · rw [if_pos hcookie] at h
      exact ⟨[], .inl ⟨hcookie, rfl⟩, (Prod.mk.inj (Option.some.inj h)).2.symm⟩
    · rw [if_neg hcookie] at h
      obtain ⟨options, rest, hbytes, hrejects, hconfig⟩ : ∃ options rest,
          packet.drop 240 = options.flatMap DhcpOption.bytes ++ rest ∧ DhcpRejects rest
            ∧ s' = (s.offered packet).applyAll options := by
        cases optionsRead_of_some h with
        | rejected options rest hbytes hrejects => exact ⟨options, rest, hbytes, hrejects, rfl⟩
      exact ⟨options, .inr ⟨not_not.mp hcookie, rest, hbytes, hrejects⟩,
        hconfig.trans (DhcpConfig.applyAll_eq _ _)⟩

/-- A reply that offers 10.0.2.15 and has no cookie. -/
def offerWithoutCookie : List UInt8 :=
  [BOOTREPLY, 1, MAC_SIZE, 0] ++ writeU32 0x26a08845 ++ List.replicate 8 0 ++ [10, 0, 2, 15]
    ++ List.replicate 556 0

/-- The addresses before anything is offered. -/
def DhcpConfig.boot : DhcpConfig where
  ourIp := Vector.replicate 4 0
  siaddr := Vector.replicate 4 0
  subnetMask := Vector.replicate 4 255
  gatewayIp := Vector.replicate 4 0
  dnsIp := Vector.replicate 4 0

lemma offerWithoutCookie_rejected :
    dhcpParseOffer offerWithoutCookie 0x26a08845 DhcpConfig.boot
      = some (-1, { DhcpConfig.boot with ourIp := #v[10, 0, 2, 15] }) := by decide +kernel

/-- It is rejected behind the header, and only the address offered is assigned. -/
theorem dhcpParseOffer_rejected_cookie :
    OfferHeader offerWithoutCookie 0x26a08845
      ∧ (∃ options, ReadBefore offerWithoutCookie options)
      ∧ dhcpInit offerWithoutCookie 0x26a08845 DhcpConfig.boot = none := by
  have hheader : OfferHeader offerWithoutCookie 0x26a08845 := by decide
  obtain ⟨-, hread, hinit⟩ := dhcpParseOffer_rejected offerWithoutCookie_rejected
  obtain ⟨options, hbefore, -⟩ := hread hheader
  exact ⟨hheader, ⟨options, hbefore⟩, hinit⟩

/-- The address is assigned although the reply is rejected. -/
theorem not_rejected_unchanged :
    ¬ ∀ (packet : List UInt8) (xid : UInt32) (s s' : DhcpConfig),
      dhcpParseOffer packet xid s = some (-1, s') → s' = s := by
  intro h
  have hsame := h _ _ _ _ offerWithoutCookie_rejected
  exact absurd hsame (by decide)

end CustomLinuxOs
