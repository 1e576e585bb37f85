import Mathlib.Tactic

/-!
`networking.c` and `checksum` of `ip.c`: reading and writing packet bytes in network order.

A pointer into a packet is the list of the bytes from there to the end of the memory it
points into; a byte read past that end is `0`.  Writing goes the other way: the bytes a
pointer has passed are the list written so far.

* `readU8`, `readU16`, `readU32`, `readN`: a read gives the value and the advanced pointer.
* `writeU8`, `writeU16`, `writeU32`: the bytes a write puts down; `readU16_writeU16`,
  `readU32_writeU32` and `readN_toList` are the round trips, and `writeU16_append_drop`,
  `writeU32_append_drop` and `toList_readN` those the other way.
* `checksum`: the one's-complement sum of `ip.c`, with its folding loop `foldCarries`.
-/

namespace CustomLinuxOs

/-- `mac_t`. -/
abbrev Mac := Vector UInt8 6

/-- `ip_t`. -/
abbrev Ip := Vector UInt8 4

/-! ### Reading -/

/-- `read_u8`. -/
def readU8 : List UInt8 → UInt8 × List UInt8
  | [] => (0, [])
  | b :: location => (b, location)

/-- `read_u16`, most significant byte first. -/
def readU16 (location : List UInt8) : UInt16 × List UInt8 :=
  let h := readU8 location
  let l := readU8 h.2
  ((h.1.toUInt16 <<< 8) + l.1.toUInt16, l.2)

/-- `read_u32`, most significant half first. -/
def readU32 (location : List UInt8) : UInt32 × List UInt8 :=
  let h := readU16 location
  let l := readU16 h.2
  ((h.1.toUInt32 <<< 16) + l.1.toUInt32, l.2)

/-- `read_n` and `read_struct`: the next `n` bytes as an array. -/
def readN (n : ℕ) (location : List UInt8) : Vector UInt8 n × List UInt8 :=
  (Vector.ofFn fun i => location.getD i 0, location.drop n)

@[simp] lemma readU8_cons (b : UInt8) (p : List UInt8) : readU8 (b :: p) = (b, p) := rfl

@[simp] lemma readU8_nil : readU8 [] = (0, []) := rfl

lemma readU8_eq (p : List UInt8) : readU8 p = (p.getD 0 0, p.drop 1) := by
  cases p <;> rfl

lemma readU8_snd (p : List UInt8) : (readU8 p).2 = p.drop 1 := by rw [readU8_eq]

lemma readU16_snd (p : List UInt8) : (readU16 p).2 = p.drop 2 := by
  simp [readU16, readU8_eq]

lemma readU32_snd (p : List UInt8) : (readU32 p).2 = p.drop 4 := by
  simp only [readU32, readU16_snd, List.drop_drop, Nat.reduceAdd]

/-! ### Writing -/

/-- `write_u8`. -/
def writeU8 (d : UInt8) : List UInt8 := [d]

/-- `write_u16`, most significant byte first. -/
def writeU16 (d : UInt16) : List UInt8 :=
  writeU8 ((d >>> 8) &&& 0xFF).toUInt8 ++ writeU8 (d &&& 0xFF).toUInt8

/-- `write_u32`, most significant byte first. -/
def writeU32 (d : UInt32) : List UInt8 :=
  writeU8 ((d >>> 24) &&& 0xFF).toUInt8 ++ writeU8 ((d >>> 16) &&& 0xFF).toUInt8
    ++ writeU8 ((d >>> 8) &&& 0xFF).toUInt8 ++ writeU8 (d &&& 0xFF).toUInt8

/-- Going back to bytes written earlier and overwriting them, as the code does for lengths,
flags and checksums it has left at `0`. -/
def overwrite (bytes : List UInt8) (offset : ℕ) (patch : List UInt8) : List UInt8 :=
  bytes.take offset ++ patch ++ bytes.drop (offset + patch.length)

/-- Overwriting the bytes in the middle. -/
lemma overwrite_append {a old patch : List UInt8} {offset : ℕ} (rest : List UInt8)
    (ha : a.length = offset) (hold : old.length = patch.length) :
    overwrite (a ++ old ++ rest) offset patch = a ++ patch ++ rest := by
  subst ha
  have htake : (a ++ old ++ rest).take a.length = a := by
    rw [List.append_assoc, List.take_left]
  have hdrop : (a ++ old ++ rest).drop (a.length + patch.length) = rest := by
    rw [← hold, ← List.length_append, List.drop_left]
  rw [overwrite, htake, hdrop]

/-! ### Round trips -/

lemma toNat_and_ff16 (d : UInt16) : (d &&& 0xFF).toNat = d.toNat % 256 := by
  rw [UInt16.toNat_and]
  exact Nat.and_two_pow_sub_one_eq_mod d.toNat 8

lemma toNat_and_ff32 (d : UInt32) : (d &&& 0xFF).toNat = d.toNat % 256 := by
  rw [UInt32.toNat_and]
  exact Nat.and_two_pow_sub_one_eq_mod d.toNat 8

lemma readU16_cons (h l : UInt8) (rest : List UInt8) :
    (readU16 (h :: l :: rest)).1.toNat = h.toNat * 256 + l.toNat := by
  have hh := h.toNat_lt
  have hl := l.toNat_lt
  simp [readU16, readU8_cons, UInt16.toNat_add, UInt16.toNat_shiftLeft, Nat.shiftLeft_eq]
  omega

lemma readU32_cons (a b c d : UInt8) (rest : List UInt8) :
    (readU32 (a :: b :: c :: d :: rest)).1.toNat
      = (a.toNat * 256 + b.toNat) * 65536 + (c.toNat * 256 + d.toNat) := by
  have hhigh := readU16_cons a b (c :: d :: rest)
  have hlow := readU16_cons c d rest
  have := a.toNat_lt
  have := b.toNat_lt
  have := c.toNat_lt
  have := d.toNat_lt
  rw [readU32, UInt32.toNat_add, UInt32.toNat_shiftLeft, UInt16.toNat_toUInt32, hhigh,
    readU16_snd, UInt16.toNat_toUInt32, Nat.shiftLeft_eq]
  simp only [List.drop_succ_cons, List.drop_zero]
  rw [hlow, show (16 : UInt32).toNat % 32 = 16 from rfl]
  omega

/-- The two bytes of a `uint16_t`. -/
lemma writeU16_eq (d : UInt16) :
    writeU16 d = [(d.toNat / 256).toUInt8, (d.toNat % 256).toUInt8] := by
  have hd := d.toNat_lt
  have hh : ((d >>> 8) &&& 0xFF).toUInt8 = (d.toNat / 256).toUInt8 := by
    refine UInt8.toNat_inj.mp ?_
    rw [UInt16.toNat_toUInt8, toNat_and_ff16, UInt16.toNat_shiftRight,
      show (8 : UInt16).toNat % 16 = 8 from rfl, Nat.shiftRight_eq_div_pow]
    simp
  have hl : (d &&& 0xFF).toUInt8 = (d.toNat % 256).toUInt8 := by
    refine UInt8.toNat_inj.mp ?_
    rw [UInt16.toNat_toUInt8, toNat_and_ff16]
    simp
  rw [writeU16, hh, hl]
  rfl

/-- Two bytes are those of the `uint16_t` that is read from them. -/
lemma writeU16_readU16 (h l : UInt8) (rest : List UInt8) :
    writeU16 (readU16 (h :: l :: rest)).1 = [h, l] := by
  have hh := h.toNat_lt
  have hl := l.toNat_lt
  have hhigh : (h.toNat * 256 + l.toNat) / 256 = h.toNat := by omega
  have hlow : (h.toNat * 256 + l.toNat) % 256 = l.toNat := by omega
  rw [writeU16_eq, readU16_cons, hhigh, hlow]
  simp

lemma writeU16_append_drop {p : List UInt8} (h : 2 ≤ p.length) :
    writeU16 (readU16 p).1 ++ p.drop 2 = p := by
  rcases p with _ | ⟨a, _ | ⟨b, rest⟩⟩
  · exact absurd h (by decide)
  · exact absurd h (Nat.not_le.mpr (Nat.lt_succ_self 1))
  · rw [writeU16_readU16]
    rfl

/-- The four bytes of a `uint32_t`. -/
lemma writeU32_eq (d : UInt32) :
    writeU32 d = [(d.toNat / 2 ^ 24).toUInt8, (d.toNat / 2 ^ 16 % 256).toUInt8,
      (d.toNat / 2 ^ 8 % 256).toUInt8, (d.toNat % 256).toUInt8] := by
  have hd := d.toNat_lt
  have hbyte : ∀ k : UInt32, k.toNat < 32 →
      ((d >>> k) &&& 0xFF).toUInt8 = (d.toNat / 2 ^ k.toNat % 256).toUInt8 := by
    intro k hk
    refine UInt8.toNat_inj.mp ?_
    rw [UInt32.toNat_toUInt8, toNat_and_ff32, UInt32.toNat_shiftRight, Nat.mod_eq_of_lt hk,
      Nat.shiftRight_eq_div_pow]
    simp
  have h3 : ((d >>> 24) &&& 0xFF).toUInt8 = (d.toNat / 2 ^ 24).toUInt8 := by
    rw [hbyte 24 (by decide), Nat.mod_eq_of_lt (by simp; omega)]
    rfl
  have h0 : (d &&& 0xFF).toUInt8 = (d.toNat % 256).toUInt8 := by
    refine UInt8.toNat_inj.mp ?_
    rw [UInt32.toNat_toUInt8, toNat_and_ff32]
    simp
  rw [writeU32, h3, hbyte 16 (by decide), hbyte 8 (by decide), h0]
  rfl

/-- Four bytes are those of the `uint32_t` that is read from them. -/
lemma writeU32_readU32 (a b c d : UInt8) (rest : List UInt8) :
    writeU32 (readU32 (a :: b :: c :: d :: rest)).1 = [a, b, c, d] := by
  have ha := a.toNat_lt
  have hb := b.toNat_lt
  have hc := c.toNat_lt
  have hd := d.toNat_lt
  have hvalue := readU32_cons a b c d rest
  set v := (readU32 (a :: b :: c :: d :: rest)).1.toNat
  have h3 : v / 2 ^ 24 = a.toNat := by omega
  have h2 : v / 2 ^ 16 % 256 = b.toNat := by omega
  have h1 : v / 2 ^ 8 % 256 = c.toNat := by omega
  have h0 : v % 256 = d.toNat := by omega
  rw [writeU32_eq, h3, h2, h1, h0]
  simp

lemma writeU32_append_drop {p : List UInt8} (h : 4 ≤ p.length) :
    writeU32 (readU32 p).1 ++ p.drop 4 = p := by
  obtain ⟨a, b, c, d, rest, rfl⟩ : ∃ a b c d rest, p = a :: b :: c :: d :: rest := by
    rcases p with _ | ⟨a, _ | ⟨b, _ | ⟨c, _ | ⟨d, rest⟩⟩⟩⟩
    all_goals simp at h ⊢
  rw [writeU32_readU32]
  rfl

@[simp] lemma readU8_writeU8 (d : UInt8) (rest : List UInt8) :
    readU8 (writeU8 d ++ rest) = (d, rest) := rfl

/-- What is written as a `uint16_t` is read back. -/
@[simp] lemma readU16_writeU16 (d : UInt16) (rest : List UInt8) :
    readU16 (writeU16 d ++ rest) = (d, rest) := by
  refine Prod.ext (UInt16.toNat_inj.mp ?_) rfl
  have hd := d.toNat_lt
  have hh : (d.toNat / 256).toUInt8.toNat = d.toNat / 256 := Nat.mod_eq_of_lt (by omega)
  have hl : (d.toNat % 256).toUInt8.toNat = d.toNat % 256 := Nat.mod_eq_of_lt (by omega)
  calc (readU16 (writeU16 d ++ rest)).1.toNat = d.toNat / 256 * 256 + d.toNat % 256 := by
        rw [writeU16_eq, List.cons_append, List.cons_append, readU16_cons, hh, hl]
    _ = d.toNat := by omega

/-- What is written as a `uint32_t` is read back. -/
@[simp] lemma readU32_writeU32 (d : UInt32) (rest : List UInt8) :
    readU32 (writeU32 d ++ rest) = (d, rest) := by
  refine Prod.ext (UInt32.toNat_inj.mp ?_) rfl
  have hd := d.toNat_lt
  have hbyte : ∀ n < 256, n.toUInt8.toNat = n := fun n hn => Nat.mod_eq_of_lt hn
  calc (readU32 (writeU32 d ++ rest)).1.toNat
      = (d.toNat / 2 ^ 24 * 256 + d.toNat / 2 ^ 16 % 256) * 65536
          + (d.toNat / 2 ^ 8 % 256 * 256 + d.toNat % 256) := by
        rw [writeU32_eq, List.cons_append, List.cons_append, List.cons_append, List.cons_append,
          readU32_cons, hbyte _ (by omega), hbyte _ (by omega), hbyte _ (by omega),
          hbyte _ (by omega)]
    _ = d.toNat := by omega

/-- An array that is copied out whole is read back. -/
lemma readN_toList {n : ℕ} (v : Vector UInt8 n) (rest : List UInt8) :
    readN n (v.toList ++ rest) = (v, rest) := by
  refine Prod.ext ?_ (List.drop_left' (by simp))
  ext i hi
  simp [readN, List.getElem?_append_left]

/-- Enough bytes are an array and a rest. -/
lemma toList_readN {n : ℕ} {p : List UInt8} (h : n ≤ p.length) :
    (readN n p).1.toList ++ p.drop n = p := by
  conv_rhs => rw [← List.take_append_drop n p]
  refine congrArg (· ++ p.drop n) (List.ext_getElem (by simp [h]) fun i hi hi' => ?_)
  have hlt : i < p.length := by simp at hi'; omega
  simp [readN, hlt]

/-! ### The checksum -/

/-- The folding loop of `checksum`: the carries are added back in until none is left. -/
def foldCarries (sum : UInt32) : UInt32 :=
  if _h : sum >>> 16 = 0 then sum
  else foldCarries ((sum &&& (0xffff : UInt32)) + (sum >>> 16))
termination_by sum.toNat
decreasing_by
  have hand : (sum &&& (0xffff : UInt32)).toNat = sum.toNat % 65536 := by
    rw [UInt32.toNat_and]
    exact Nat.and_two_pow_sub_one_eq_mod sum.toNat 16
  have hshift : (sum >>> 16).toNat = sum.toNat / 65536 := by
    rw [UInt32.toNat_shiftRight]
    simp [Nat.shiftRight_eq_div_pow]
  have hne : sum.toNat / 65536 ≠ 0 := by
    intro h0
    exact _h (UInt32.toNat_inj.mp (hshift.trans h0))
  have hlt := sum.toNat_lt
  rw [UInt32.toNat_add, hand, hshift, Nat.mod_eq_of_lt (by omega)]
  omega

/-- The summing loop of `checksum` over the whole words of the packet, and what follows them. -/
def sumWords : ℕ → List UInt8 → UInt32 → UInt32 × List UInt8
  | 0, packet, sum => (sum, packet)
  | n + 1, packet, sum =>
      let w := readU16 packet
      sumWords n w.2 (sum + w.1.toUInt32)

/-- `checksum`: an odd last byte counts as the high half of a word. -/
def checksum (packet : List UInt8) (len : ℕ) : UInt16 :=
  let words := sumWords (len / 2) packet 0
  let sum := if len % 2 = 1 then words.1 + ((readU8 words.2).1.toUInt32 <<< 8) else words.1
  ~~~ (foldCarries sum).toUInt16

end CustomLinuxOs
