import CustomLinuxOs.Lib.Itoa

/-!
`printf` of `lib.c`: a format, and what it prints.

* `ttyPutsLoop`, `padLoop`, `formatChar`, `printfLoop`, `printf`: the code, with fuel; `none` is a
  loop that is still running.  The bytes are those that go to `tty_putc` or to
  `tty_putc_nocursor`, in order.
* `FormatPiece`: what a format is made of; `exists_formatPieces` takes every format apart.
* `Prints`, `PrintsAll`: what a piece and a row of pieces are there to print.
* `convBuf_large`: the conversions stay within their buffers.
* `formatChar_eq`, `convert_eq`: one directive.
* `printf_prints`: a whole format.
* `printf_unfinished`: a format that ends within a directive is read on behind its terminator.
-/

namespace CustomLinuxOs

/-! ### The code -/

/-- The loop of `tty_puts`, from `index` on: the bytes that it prints. -/
def ttyPutsLoop (mem : ℕ → UInt8) (s : ℕ) : ℕ → ℕ → Option (List UInt8)
  | 0, _ => none
  | k + 1, index =>
      if mem (s + index) ≠ 0 then (ttyPutsLoop mem s k (index + 1)).map (mem (s + index) :: ·)
      else some []

/-- `puts`. -/
def puts (fuel : ℕ) (mem : ℕ → UInt8) (s : ℕ) : Option (List UInt8) := ttyPutsLoop mem s fuel 0

/-- The loop that pads a hexadecimal number with the character `0`. -/
def padLoop : ℕ → (ℕ → UInt8) → ℕ → Option (ℕ → UInt8)
  | 0, _, _ => none
  | k + 1, convBuf, i =>
      if i < 8 then padLoop k (Function.update convBuf i 48) (i + 1) else some convBuf

/-- The case `x`. -/
def formatHex (fuel : ℕ) (convBuf : ℕ → UInt8) (alternate : Bool) (value : UInt32) :
    Option (List UInt8) :=
  if alternate = false then
    (itoa fuel value convBuf 0 16).bind fun convBuf => puts fuel convBuf 0
  else
    (itoa fuel value convBuf 8 16).bind fun convBuf =>
      (strlenFrom convBuf 8 fuel 0).bind fun startingIndex =>
        (padLoop fuel convBuf startingIndex).bind fun convBuf => puts fuel convBuf startingIndex

/-- The case `u`. -/
def formatUnsigned (fuel : ℕ) (convBuf : ℕ → UInt8) (value : UInt32) : Option (List UInt8) :=
  (itoa fuel value convBuf 0 10).bind fun convBuf => puts fuel convBuf 0

/-- The case `d`. -/
def formatSigned (fuel : ℕ) (convBuf : ℕ → UInt8) (value : Int32) : Option (List UInt8) :=
  if value < 0 then
    (itoa fuel (-value).toUInt32 (Function.update convBuf 0 45) 1 10).bind fun convBuf =>
      puts fuel convBuf 0
  else (itoa fuel value.toUInt32 convBuf 0 10).bind fun convBuf => puts fuel convBuf 0

/-- The loop of the case `b`, with `i` passes left. -/
def formatBits (value : UInt8) : ℕ → List UInt8
  | 0 => []
  | i + 1 =>
      (if (value >>> UInt8.ofNat i) &&& 1 ≠ 0 then 49 else 48) :: formatBits value i

/-- The `switch` on a conversion character, without the flag: what is printed for the argument at
`esp`, and `esp` after it. -/
def convert (fuel : ℕ) (mem : ℕ → UInt8) (args : ℕ → UInt32) (convBuf : ℕ → UInt8)
    (alternate : Bool) (c : UInt8) (esp : ℕ) : Option (List UInt8 × ℕ) :=
  if c = 37 then some ([37], esp)
  else if c = 120 then (formatHex fuel convBuf alternate (args esp)).map (·, esp + 1)
  else if c = 117 then (formatUnsigned fuel convBuf (args esp)).map (·, esp + 1)
  else if c = 100 then (formatSigned fuel convBuf (args esp).toInt32).map (·, esp + 1)
  else if c = 99 then some ([(args esp).toUInt8], esp + 1)
  else if c = 115 then (puts fuel mem (args esp).toNat).map (·, esp + 1)
  else if c = 98 then some (formatBits (args esp).toUInt8 8, esp + 1)
  else some ([], esp)

/-- From `format_char_switch` on: `buf`, what is printed, and `esp`. -/
def formatChar (fuel : ℕ) (mem : ℕ → UInt8) (args : ℕ → UInt32) (convBuf : ℕ → UInt8) :
    ℕ → Bool → ℕ → ℕ → Option (ℕ × List UInt8 × ℕ)
  | 0, _, _, _ => none
  | k + 1, alternate, buf, esp =>
      if mem buf = 35 then formatChar fuel mem args convBuf k true (buf + 1) esp
      else (convert fuel mem args convBuf alternate (mem buf) esp).map (buf, ·)

/-- The loop of `printf`: what it prints, and `buf` at its end.  What `conv_buf` holds before a
conversion is not known; `convBuf` has it for every place of the format. -/
def printfLoop (fuel : ℕ) (mem : ℕ → UInt8) (args : ℕ → UInt32) (convBuf : ℕ → ℕ → UInt8) :
    ℕ → ℕ → ℕ → Option (List UInt8 × ℕ)
  | 0, _, _ => none
  | k + 1, buf, esp =>
      if mem buf = 0 then some ([], buf)
      else if mem buf = 37 then
        (formatChar fuel mem args (convBuf buf) fuel false (buf + 1) esp).bind fun r =>
          (printfLoop fuel mem args convBuf k (r.1 + 1) r.2.2).map fun s => (r.2.1 ++ s.1, s.2)
      else (printfLoop fuel mem args convBuf k (buf + 1) esp).map fun s => (mem buf :: s.1, s.2)

/-- `printf`: what it returns, and what it prints. -/
def printf (fuel : ℕ) (mem : ℕ → UInt8) (convBuf : ℕ → ℕ → UInt8) (format : ℕ)
    (args : ℕ → UInt32) : Option (Int32 × List UInt8) :=
  (printfLoop fuel mem args convBuf fuel format 0).map fun r => (Int32.ofNat (r.2 - format), r.1)

/-! ### Formats -/

/-- A piece of a format: a byte that is printed as it is, or a directive, with some flags and a
conversion character. -/
inductive FormatPiece
  | plain (c : UInt8) (h : c ≠ 0 ∧ c ≠ 37)
  | directive (flags : ℕ) (c : UInt8) (h : c ≠ 0 ∧ c ≠ 35)

/-- The bytes of a piece. -/
def FormatPiece.bytes : FormatPiece → List UInt8
  | .plain c _ => [c]
  | .directive flags c _ => 37 :: (List.replicate flags 35 ++ [c])

/-- The format that pieces make. -/
def formatOf (pieces : List FormatPiece) : List UInt8 := pieces.flatMap FormatPiece.bytes

/-- The beginning of a directive, up to its conversion character. -/
def unfinished (flags : ℕ) : List UInt8 := 37 :: List.replicate flags 35

/-! ### What a format is there to print -/

/-- The numeral of a number in a radix. -/
def numeralText (r v : ℕ) : List UInt8 :=
  (if v = 0 then [0] else (r.digits v).reverse).map lookup

/-- The decimal numeral of an integer, with its sign. -/
def signedText (v : ℤ) : List UInt8 :=
  if v < 0 then 45 :: numeralText 10 v.natAbs else numeralText 10 v.natAbs

/-- The hexadecimal numeral of a number, filled up to eight digits. -/
def paddedText (v : ℕ) : List UInt8 :=
  List.replicate (8 - (numeralText 16 v).length) 48 ++ numeralText 16 v

/-- The bits of a byte, the highest one first. -/
def bitsText (v : UInt8) : List UInt8 :=
  (List.range 8).reverse.map fun i => if v.toNat.testBit i then 49 else 48

/-- A piece prints these bytes for an argument, and takes so many arguments. -/
inductive Prints (mem : ℕ → UInt8) (arg : UInt32) : FormatPiece → List UInt8 → ℕ → Prop
  | plain (c h) : Prints mem arg (.plain c h) [c] 0
  | percent (flags h) : Prints mem arg (.directive flags 37 h) [37] 0
  | hex (h) : Prints mem arg (.directive 0 120 h) (numeralText 16 arg.toNat) 1
  | padded (flags h) : Prints mem arg (.directive (flags + 1) 120 h) (paddedText arg.toNat) 1
  | unsigned (flags h) : Prints mem arg (.directive flags 117 h) (numeralText 10 arg.toNat) 1
  | signed (flags h) :
      Prints mem arg (.directive flags 100 h) (signedText arg.toInt32.toInt) 1
  | char (flags h) : Prints mem arg (.directive flags 99 h) [arg.toUInt8] 1
  | string (flags h) {l : List UInt8} (hl : StringAt mem arg.toNat l) :
      Prints mem arg (.directive flags 115 h) l 1
  | bits (flags h) : Prints mem arg (.directive flags 98 h) (bitsText arg.toUInt8) 1
  | other (flags) {c : UInt8} (h) (hc : c ∉ [37, 120, 117, 100, 99, 115, 98]) :
      Prints mem arg (.directive flags c h) [] 0

/-- Pieces print these bytes, one after the other, with the arguments from `esp` on. -/
inductive PrintsAll (mem : ℕ → UInt8) (args : ℕ → UInt32) :
    ℕ → List FormatPiece → List UInt8 → ℕ → Prop
  | nil (esp : ℕ) : PrintsAll mem args esp [] [] esp
  | cons {esp taken esp' : ℕ} {piece : FormatPiece} {pieces : List FormatPiece}
      {out outs : List UInt8} (h : Prints mem (args esp) piece out taken)
      (hs : PrintsAll mem args (esp + taken) pieces outs esp') :
      PrintsAll mem args esp (piece :: pieces) (out ++ outs) esp'

/-! ### Strings and numerals -/

lemma ttyPutsLoop_eq {mem : ℕ → UInt8} {s index : ℕ} {l : List UInt8}
    (hl : StringAt mem (s + index) l) {k : ℕ} (hk : l.length < k) :
    ttyPutsLoop mem s k index = some l := by
  induction l generalizing index k with
  | nil =>
      obtain ⟨k, rfl⟩ : ∃ j, k = j + 1 := ⟨k - 1, by rw [List.length_nil] at hk; omega⟩
      rw [ttyPutsLoop, StringAt.nil_iff.mp hl, if_neg (by simp)]
  | cons c l ih =>
      obtain ⟨hc, hhead, htail⟩ := StringAt.cons_iff.mp hl
      obtain ⟨k, rfl⟩ : ∃ j, k = j + 1 := ⟨k - 1, by rw [List.length_cons] at hk; omega⟩
      rw [ttyPutsLoop, hhead, if_pos hc, ih htail (Nat.lt_of_succ_lt_succ hk), Option.map_some]

/-- **`puts`** prints a string. -/
lemma puts_eq {mem : ℕ → UInt8} {s : ℕ} {l : List UInt8} (hl : StringAt mem s l) {fuel : ℕ}
    (hfuel : l.length < fuel) : puts fuel mem s = some l :=
  ttyPutsLoop_eq hl hfuel

lemma canonicalNumeral_numeralText {r : ℕ} (hr : 2 ≤ r) (v : ℕ) :
    CanonicalNumeral r v (if v = 0 then [0] else (r.digits v).reverse) :=
  (canonicalNumeral_iff hr _).mpr rfl

lemma zero_notMem_numeralText {r : ℕ} (hr : 2 ≤ r) (hr' : r ≤ 36) (v : ℕ) :
    0 ∉ numeralText r v :=
  zero_notMem_lookup hr' (canonicalNumeral_numeralText hr v)

/-- A numeral has no more digits than a bound on the number allows. -/
lemma length_numeralText_le {r v k : ℕ} (hr : 2 ≤ r) (hv : v < r ^ k) (hk : 1 ≤ k) :
    (numeralText r v).length ≤ k := by
  rw [numeralText, List.length_map]
  split
  · exact hk
  · rw [List.length_reverse]
    exact (Nat.digits_length_le_iff hr v).mpr hv

/-- A number of `32` bits has a numeral of at most `32` digits. -/
lemma length_numeralText_le_bits {r : ℕ} (hr : 2 ≤ r) (v : UInt32) :
    (numeralText r v.toNat).length ≤ 32 := by
  refine length_numeralText_le hr ?_ (by omega)
  calc v.toNat < 2 ^ 32 := v.toNat_lt
    _ ≤ r ^ 32 := Nat.pow_le_pow_left hr 32

/-- Eight hexadecimal digits are enough. -/
lemma toNat_lt_hex (v : UInt32) : v.toNat < 16 ^ 8 := by
  calc v.toNat < 2 ^ 32 := v.toNat_lt
    _ = 16 ^ 8 := by norm_num

/-- `itoa` leaves the numeral. -/
lemma itoa_numeralText {r : ℕ} (hr : 2 ≤ r) (hr' : r ≤ 36) (v : UInt32) {fuel : ℕ}
    (hfuel : 33 ≤ fuel) (mem : ℕ → UInt8) (buf : ℕ) :
    itoa fuel v mem buf (Int32.ofNat r)
      = some (copyTo mem buf (numeralText r v.toNat ++ [0])) :=
  itoa_eq hr hr' (canonicalNumeral_numeralText hr v.toNat) hfuel mem buf

/-- `itoa` writes to no more than the places of the digits and of the terminator. -/
lemma itoa_frame {r k : ℕ} (hr : 2 ≤ r) (hr' : r ≤ 36) {v : UInt32} (hv : v.toNat < r ^ k)
    (hk : 1 ≤ k) {fuel : ℕ} (hfuel : 33 ≤ fuel) (mem : ℕ → UInt8) (buf : ℕ) :
    ∃ mem', itoa fuel v mem buf (Int32.ofNat r) = some mem'
      ∧ ∀ a, a < buf ∨ buf + k < a → mem' a = mem a := by
  have hlength := length_numeralText_le hr hv hk
  refine ⟨_, itoa_numeralText hr hr' v hfuel mem buf, fun a ha => ?_⟩
  rw [copyTo, if_neg]
  rw [List.length_append, List.length_singleton]
  omega

/-! ### The conversions -/

/-- **The buffers are large enough**: `itoa` stays within the `64` bytes of `conv_buf` for a
hexadecimal number, and within the `36` bytes for a decimal one, also behind a sign. -/
lemma convBuf_large (convBuf : ℕ → UInt8) (value : UInt32) {fuel : ℕ} (hfuel : 33 ≤ fuel) :
    (∀ buf ≤ 8, ∃ convBuf', itoa fuel value convBuf buf 16 = some convBuf'
      ∧ ∀ a ≥ 64, convBuf' a = convBuf a)
    ∧ ∀ buf ≤ 1, ∃ convBuf', itoa fuel value convBuf buf 10 = some convBuf'
      ∧ ∀ a ≥ 36, convBuf' a = convBuf a := by
  have hdecimal : value.toNat < 10 ^ 10 := by
    calc value.toNat < 2 ^ 32 := value.toNat_lt
      _ ≤ 10 ^ 10 := by norm_num
  constructor
  · intro buf hbuf
    obtain ⟨convBuf', hleaves, hframe⟩ :=
      itoa_frame (r := 16) (by omega) (by omega) (toNat_lt_hex value) (by omega) hfuel convBuf buf
    exact ⟨convBuf', hleaves, fun a ha => hframe a (by omega)⟩
  · intro buf hbuf
    obtain ⟨convBuf', hleaves, hframe⟩ :=
      itoa_frame (r := 10) (by omega) (by omega) hdecimal (by omega) hfuel convBuf buf
    exact ⟨convBuf', hleaves, fun a ha => hframe a (by omega)⟩

lemma padLoop_eq {k i : ℕ} (convBuf : ℕ → UInt8) (hi : i ≤ 8) (hk : 8 < i + k) :
    padLoop k convBuf i = some (copyTo convBuf i (List.replicate (8 - i) 48)) := by
  induction k generalizing i convBuf with
  | zero => omega
  | succ k ih =>
      rw [padLoop]
      by_cases hpad : i < 8
      · obtain ⟨n, hn⟩ : ∃ n, 8 - i = n + 1 := ⟨8 - i - 1, by omega⟩
        have hrest : 8 - (i + 1) = n := by omega
        rw [if_pos hpad, ih _ hpad (by omega), hrest, hn, List.replicate_succ, ← copyTo_singleton]
        exact congrArg some (copyTo_append convBuf i [48] _)
      · have hnone : 8 - i = 0 := by omega
        rw [if_neg hpad, hnone, List.replicate_zero, copyTo_nil]

/-- A numeral in `conv_buf` is printed from its beginning. -/
lemma puts_itoa {r : ℕ} (hr : 2 ≤ r) (hr' : r ≤ 36) (convBuf : ℕ → UInt8) (value : UInt32)
    {fuel : ℕ} (hfuel : 33 ≤ fuel) :
    ((itoa fuel value convBuf 0 (Int32.ofNat r)).bind fun convBuf => puts fuel convBuf 0)
      = some (numeralText r value.toNat) := by
  have hlength := length_numeralText_le_bits hr value
  rw [itoa_numeralText hr hr' value hfuel, Option.bind_some]
  exact puts_eq (stringAt_copyTo (zero_notMem_numeralText hr hr' _) convBuf 0) (by omega)

/-- Without the flag, the hexadecimal numeral. -/
lemma formatHex_plain (convBuf : ℕ → UInt8) (value : UInt32) {fuel : ℕ} (hfuel : 33 ≤ fuel) :
    formatHex fuel convBuf false value = some (numeralText 16 value.toNat) := by
  rw [formatHex, if_pos rfl]
  exact puts_itoa (r := 16) (by omega) (by omega) convBuf value hfuel

/-- **With the flag**, eight digits: the padding is written before the numeral. -/
lemma formatHex_padded (convBuf : ℕ → UInt8) (value : UInt32) {fuel : ℕ} (hfuel : 33 ≤ fuel) :
    formatHex fuel convBuf true value = some (paddedText value.toNat) := by
  set text := numeralText 16 value.toNat with htext
  set zeros : List UInt8 := List.replicate (8 - text.length) 48 with hzeros
  have hleaves := itoa_numeralText (r := 16) (by omega) (by omega) value hfuel convBuf 8
  have hnonzero : 0 ∉ text := zero_notMem_numeralText (by omega) (by omega) _
  have hshort : text.length ≤ 8 :=
    length_numeralText_le (by omega) (toNat_lt_hex value) (by omega)
  have hzerosLength : text.length + zeros.length = 8 := by
    rw [hzeros, List.length_replicate]
    omega
  have hlen : strlenFrom (copyTo convBuf 8 (text ++ [0])) 8 fuel 0 = some text.length :=
    strlenFrom_eq (stringAt_copyTo hnonzero convBuf 8) (Nat.zero_le _) (by omega)
  have hpad : padLoop fuel (copyTo convBuf 8 (text ++ [0])) text.length
      = some (copyTo convBuf text.length (zeros ++ text ++ [0])) := by
    rw [padLoop_eq _ hshort (by omega), ← hzeros, List.append_assoc,
      ← copyTo_append_left convBuf text.length zeros, hzerosLength]
  have hpadded : 0 ∉ zeros ++ text := by
    rw [List.mem_append, not_or]
    refine ⟨fun hmem => ?_, hnonzero⟩
    exact absurd (List.eq_of_mem_replicate hmem) (by decide)
  have hputs : puts fuel (copyTo convBuf text.length (zeros ++ text ++ [0])) text.length
      = some (zeros ++ text) := by
    refine puts_eq (stringAt_copyTo hpadded convBuf text.length) ?_
    rw [List.length_append]
    omega
  calc formatHex fuel convBuf true value
      = (some (copyTo convBuf 8 (text ++ [0]))).bind fun convBuf =>
          (strlenFrom convBuf 8 fuel 0).bind fun startingIndex =>
            (padLoop fuel convBuf startingIndex).bind fun convBuf =>
              puts fuel convBuf startingIndex := by
        rw [← hleaves]
        rfl
    _ = some (zeros ++ text) := by
        rw [Option.bind_some, hlen, Option.bind_some, hpad, Option.bind_some, hputs]

lemma formatUnsigned_eq (convBuf : ℕ → UInt8) (value : UInt32) {fuel : ℕ} (hfuel : 33 ≤ fuel) :
    formatUnsigned fuel convBuf value = some (numeralText 10 value.toNat) :=
  puts_itoa (r := 10) (by omega) (by omega) convBuf value hfuel

/-- A value that is not negative, as a number. -/
lemma toNat_toUInt32_of_nonneg {value : Int32} (h : 0 ≤ value.toInt) :
    value.toUInt32.toNat = value.toInt.natAbs := by
  have hcond : value.toInt = value.toBitVec.toInt := rfl
  have hnat : value.toUInt32.toNat = value.toBitVec.toNat := rfl
  rw [hcond, BitVec.toInt_eq_toNat_cond] at h ⊢
  rw [hnat]
  split at h
  · omega
  · have := value.toBitVec.isLt
    omega

/-- The magnitude of a negative value; for the least one the negation overflows, and the number is
right. -/
lemma toNat_neg_toUInt32 {value : Int32} (h : value.toInt < 0) :
    (-value).toUInt32.toNat = value.toInt.natAbs := by
  have hcond : value.toInt = value.toBitVec.toInt := rfl
  have hnat : (-value).toUInt32.toNat = (-value.toBitVec).toNat := rfl
  rw [hcond, BitVec.toInt_eq_toNat_cond] at h ⊢
  rw [hnat, BitVec.toNat_neg]
  have := value.toBitVec.isLt
  split at h
  · omega
  · rw [if_neg (by assumption)]
    omega

/-- **Signed numbers**: the sign lies before the numeral. -/
lemma formatSigned_eq (convBuf : ℕ → UInt8) (value : Int32) {fuel : ℕ} (hfuel : 34 ≤ fuel) :
    formatSigned fuel convBuf value = some (signedText value.toInt) := by
  rw [formatSigned, signedText]
  by_cases hneg : value.toInt < 0
  · rw [if_pos (Int32.lt_iff_toInt_lt.mpr hneg), if_pos hneg, ← toNat_neg_toUInt32 hneg]
    set text := numeralText 10 (-value).toUInt32.toNat with htext
    have hlength : text.length ≤ 32 := length_numeralText_le_bits (by omega) _
    have hleaves : itoa fuel (-value).toUInt32 (Function.update convBuf 0 45) 1 10
        = some (copyTo convBuf 0 (45 :: text ++ [0])) := by
      calc itoa fuel (-value).toUInt32 (Function.update convBuf 0 45) 1 10
          = some (copyTo (copyTo convBuf 0 [45]) (0 + [(45 : UInt8)].length) (text ++ [0])) := by
            rw [copyTo_singleton]
            exact itoa_numeralText (r := 10) (by omega) (by omega) _ (by omega) _ 1
        _ = some (copyTo convBuf 0 (45 :: text ++ [0])) := by
            rw [copyTo_append]
            rfl
    have hnonzero : 0 ∉ 45 :: text := by
      rw [List.mem_cons, not_or]
      exact ⟨by decide, zero_notMem_numeralText (by omega) (by omega) _⟩
    rw [hleaves, Option.bind_some]
    refine puts_eq (stringAt_copyTo hnonzero convBuf 0) ?_
    rw [List.length_cons]
    omega
  · rw [if_neg fun h => hneg (Int32.lt_iff_toInt_lt.mp h), if_neg hneg,
      ← toNat_toUInt32_of_nonneg (not_lt.mp hneg)]
    exact puts_itoa (r := 10) (by omega) (by omega) convBuf _ (by omega)

/-- A bit of a byte, as the code tests it. -/
lemma shiftRight_and_one {v : UInt8} {i : ℕ} (hi : i < 8) :
    (v >>> UInt8.ofNat i) &&& 1 ≠ 0 ↔ v.toNat.testBit i = true := by
  have hshift : (UInt8.ofNat i).toNat % 8 = i := by
    rw [UInt8.toNat_ofNat_of_lt' (by rw [UInt8.size]; omega), Nat.mod_eq_of_lt hi]
  have hbit : ((v >>> UInt8.ofNat i) &&& 1).toNat = (v.toNat.testBit i).toNat := by
    rw [UInt8.toNat_and, UInt8.toNat_shiftRight, hshift, UInt8.toNat_one, Nat.and_one_is_mod,
      Nat.toNat_testBit, Nat.shiftRight_eq_div_pow]
  rw [ne_eq, ← UInt8.toNat_inj, hbit, UInt8.toNat_zero]
  cases v.toNat.testBit i <;> simp

lemma formatBits_eq (v : UInt8) {n : ℕ} (hn : n ≤ 8) :
    formatBits v n = (List.range n).reverse.map fun i => if v.toNat.testBit i then 49 else 48 := by
  induction n with
  | zero => rfl
  | succ n ih =>
      rw [formatBits, ih (by omega), List.range_succ, List.reverse_append, List.reverse_singleton,
        List.singleton_append, List.map_cons, if_congr (shiftRight_and_one hn) rfl rfl]

/-! ### Directives -/

/-- **The `switch`** on the conversion character of a directive. -/
lemma convert_eq {mem : ℕ → UInt8} {args : ℕ → UInt32} {esp flags : ℕ} {c : UInt8}
    {h : c ≠ 0 ∧ c ≠ 35} {out : List UInt8} {taken : ℕ}
    (hprints : Prints mem (args esp) (.directive flags c h) out taken) (convBuf : ℕ → UInt8)
    {fuel : ℕ} (hfuel : out.length + 34 ≤ fuel) :
    convert fuel mem args convBuf (decide (0 < flags)) c esp = some (out, esp + taken) := by
  cases hprints with
  | percent => rfl
  | hex =>
      exact congrArg (Option.map (·, esp + 1)) (formatHex_plain convBuf (args esp) (by omega))
  | padded =>
      rw [decide_eq_true (Nat.succ_pos _)]
      exact congrArg (Option.map (·, esp + 1)) (formatHex_padded convBuf (args esp) (by omega))
  | unsigned =>
      exact congrArg (Option.map (·, esp + 1)) (formatUnsigned_eq convBuf (args esp) (by omega))
  | signed =>
      exact congrArg (Option.map (·, esp + 1))
        (formatSigned_eq convBuf (args esp).toInt32 (by omega))
  | char => rfl
  | string _ _ hl => exact congrArg (Option.map (·, esp + 1)) (puts_eq hl (by omega))
  | bits => exact congrArg (fun out => some (out, esp + 1)) (formatBits_eq _ le_rfl)
  | other _ _ hc =>
      simp only [List.mem_cons, List.not_mem_nil, or_false, not_or] at hc
      obtain ⟨hpercent, hx, hu, hd, hchar, hs, hb⟩ := hc
      rw [convert, if_neg hpercent, if_neg hx, if_neg hu, if_neg hd, if_neg hchar, if_neg hs,
        if_neg hb, Nat.add_zero]

/-- **The flags** of a directive. -/
lemma formatChar_eq {mem : ℕ → UInt8} {buf flags : ℕ} {c : UInt8}
    (hflags : ∀ i < flags, mem (buf + i) = 35) (hchar : mem (buf + flags) = c) (hc : c ≠ 35)
    (fuel : ℕ) (args : ℕ → UInt32) (convBuf : ℕ → UInt8) (alternate : Bool) (esp : ℕ) {k : ℕ}
    (hk : flags < k) :
    formatChar fuel mem args convBuf k alternate buf esp
      = (convert fuel mem args convBuf (alternate || decide (0 < flags)) c esp).map
          (buf + flags, ·) := by
  induction flags generalizing buf alternate k with
  | zero =>
      obtain ⟨k, rfl⟩ : ∃ j, k = j + 1 := ⟨k - 1, by omega⟩
      rw [Nat.add_zero] at hchar
      rw [formatChar, hchar, if_neg hc, Nat.add_zero, decide_eq_false (lt_irrefl 0),
        Bool.or_false]
  | succ flags ih =>
      obtain ⟨k, rfl⟩ : ∃ j, k = j + 1 := ⟨k - 1, by omega⟩
      have hnext : buf + 1 + flags = buf + (flags + 1) := by omega
      have hrest : ∀ i < flags, mem (buf + 1 + i) = 35 := by
        intro i hi
        have := hflags (i + 1) (Nat.succ_lt_succ hi)
        rwa [Nat.add_comm i, ← Nat.add_assoc] at this
      have hfirst : mem buf = 35 := hflags 0 (Nat.succ_pos _)
      rw [formatChar, if_pos hfirst,
        ih hrest (by rw [hnext]; exact hchar) true (Nat.lt_of_succ_lt_succ hk), hnext,
        decide_eq_true (Nat.succ_pos flags), Bool.true_or, Bool.or_true]

/-! ### A whole format -/

/-- A directive at the beginning of a string. -/
lemma StringAt.directive {mem : ℕ → UInt8} {buf flags : ℕ} {l : List UInt8}
    (h : StringAt mem buf (unfinished flags ++ l)) :
    mem buf = 37 ∧ (∀ i < flags, mem (buf + 1 + i) = 35)
      ∧ StringAt mem (buf + 1 + flags) l := by
  rw [unfinished, List.cons_append] at h
  obtain ⟨-, hhead, htail⟩ := StringAt.cons_iff.mp h
  refine ⟨hhead, fun i hi => ?_, ?_⟩
  · rw [htail.2 i (by rw [List.length_append, List.length_replicate]; omega),
      List.getD_append _ _ _ _ (by rwa [List.length_replicate]), List.getD_replicate _ hi]
  · have := htail.append_right
    rwa [List.length_replicate] at this

/-- **One piece** of a format. -/
lemma printfLoop_piece {mem : ℕ → UInt8} {args : ℕ → UInt32} {buf esp taken : ℕ}
    {piece : FormatPiece} {rest out : List UInt8}
    (hformat : StringAt mem buf (piece.bytes ++ rest))
    (hprints : Prints mem (args esp) piece out taken) (convBuf : ℕ → ℕ → UInt8) {fuel : ℕ}
    (hfuel : out.length + piece.bytes.length + 34 ≤ fuel) (k : ℕ) :
    printfLoop fuel mem args convBuf (k + 1) buf esp
      = (printfLoop fuel mem args convBuf k (buf + piece.bytes.length) (esp + taken)).map
          fun s => (out ++ s.1, s.2) := by
  cases piece with
  | plain c h =>
      cases hprints
      obtain ⟨-, hhead, -⟩ := StringAt.cons_iff.mp hformat
      rw [printfLoop, hhead, if_neg h.1, if_neg h.2]
      rfl
  | directive flags c h =>
      have hbytes : (FormatPiece.directive flags c h).bytes ++ rest
          = unfinished flags ++ (c :: rest) := by
        simp only [FormatPiece.bytes, unfinished, List.cons_append, List.append_assoc,
          List.nil_append]
      have hlength : (FormatPiece.directive flags c h).bytes.length = 1 + flags + 1 := by
        simp only [FormatPiece.bytes, List.length_cons, List.length_append, List.length_replicate,
          List.length_nil]
        omega
      rw [hlength] at hfuel ⊢
      rw [hbytes] at hformat
      obtain ⟨hhead, hflags, htail⟩ := hformat.directive
      obtain ⟨-, hchar, -⟩ := StringAt.cons_iff.mp htail
      have hdirective := formatChar_eq hflags hchar h.2 fuel args (convBuf buf) false esp
        (k := fuel) (by omega)
      rw [Bool.false_or, convert_eq hprints (convBuf buf) (by omega), Option.map_some]
        at hdirective
      rw [printfLoop, hhead, if_neg (by decide), if_pos rfl, hdirective, Option.bind_some]
      simp only [Nat.add_assoc]

/-- **A row of pieces** at the beginning of a format. -/
lemma printfLoop_pieces {mem : ℕ → UInt8} {args : ℕ → UInt32} {buf esp esp' : ℕ}
    {pieces : List FormatPiece} {rest out : List UInt8}
    (hformat : StringAt mem buf (formatOf pieces ++ rest))
    (hprints : PrintsAll mem args esp pieces out esp') (convBuf : ℕ → ℕ → UInt8) {fuel : ℕ}
    (hfuel : out.length + (formatOf pieces).length + 34 ≤ fuel) (k : ℕ) :
    printfLoop fuel mem args convBuf (k + pieces.length) buf esp
      = (printfLoop fuel mem args convBuf k (buf + (formatOf pieces).length) esp').map
          fun s => (out ++ s.1, s.2) := by
  induction hprints generalizing buf with
  | nil esp => exact Option.map_id'.symm
  | @cons esp taken esp' piece pieces out outs h hs ih =>
      have hsplit : formatOf (piece :: pieces) = piece.bytes ++ formatOf pieces :=
        List.flatMap_cons
      rw [hsplit, List.append_assoc] at hformat
      rw [hsplit, List.length_append, List.length_append] at hfuel
      rw [List.length_cons, ← Nat.add_assoc,
        printfLoop_piece hformat h convBuf (by omega), ih hformat.append_right (by omega),
        Option.map_map, hsplit, List.length_append, Nat.add_assoc]
      refine congrArg (Option.map · _) (funext fun s => ?_)
      exact congrArg (·, s.2) (List.append_assoc _ _ _).symm

/-- A piece has a byte. -/
lemma length_le_formatOf (pieces : List FormatPiece) :
    pieces.length ≤ (formatOf pieces).length := by
  induction pieces with
  | nil => exact le_rfl
  | cons piece pieces ih =>
      have hpos : 1 ≤ piece.bytes.length := by
        cases piece <;> simp [FormatPiece.bytes]
      calc (piece :: pieces).length ≤ piece.bytes.length + (formatOf pieces).length := by
            rw [List.length_cons]
            omega
        _ = (formatOf (piece :: pieces)).length := by
            rw [formatOf, formatOf, List.flatMap_cons, List.length_append]

/-- The flags at the beginning of a text. -/
lemma exists_flags (l : List UInt8) : ∃ flags rest,
    l = List.replicate flags 35 ++ rest ∧ ∀ d ∈ rest.head?, d ≠ 35 := by
  induction l with
  | nil => exact ⟨0, [], rfl, fun d hd => absurd hd (Option.not_mem_none d)⟩
  | cons c l ih =>
      by_cases hc : c = 35
      · obtain ⟨flags, rest, rfl, hhead⟩ := ih
        exact ⟨flags + 1, rest, by rw [hc, List.replicate_succ, List.cons_append], hhead⟩
      · refine ⟨0, c :: l, rfl, fun d hd => ?_⟩
        rwa [← Option.some.inj hd]

/-- **Every format** is a row of pieces, with the beginning of a directive behind it or not. -/
lemma exists_formatPieces {l : List UInt8} (hl : 0 ∉ l) :
    ∃ pieces, l = formatOf pieces ∨ ∃ flags, l = formatOf pieces ++ unfinished flags := by
  induction hn : l.length using Nat.strong_induction_on generalizing l with
  | _ n ih =>
      subst hn
      cases l with
      | nil => exact ⟨[], Or.inl rfl⟩
      | cons c l =>
          rw [List.mem_cons, not_or] at hl
          by_cases hc : c = 37
          · subst hc
            obtain ⟨flags, rest, hrest, hhead⟩ := exists_flags l
            cases rest with
            | nil =>
                refine ⟨[], Or.inr ⟨flags, ?_⟩⟩
                rw [hrest, List.append_nil]
                rfl
            | cons d rest =>
                have hnonzero : 0 ∉ d :: rest := by
                  rw [hrest, List.mem_append, not_or] at hl
                  exact hl.2.2
                rw [List.mem_cons, not_or] at hnonzero
                have hshort : rest.length < (37 :: l).length := by
                  rw [hrest]
                  simp only [List.length_cons, List.length_append]
                  omega
                obtain ⟨pieces, hpieces⟩ := ih _ hshort hnonzero.2 rfl
                have hbytes : 37 :: l
                    = (FormatPiece.directive flags d
                        ⟨Ne.symm hnonzero.1, hhead d rfl⟩).bytes ++ rest := by
                  rw [hrest, FormatPiece.bytes, List.cons_append, List.append_assoc,
                    List.singleton_append]
                refine ⟨.directive flags d ⟨Ne.symm hnonzero.1, hhead d rfl⟩ :: pieces, ?_⟩
                rw [hbytes, formatOf, List.flatMap_cons]
                rcases hpieces with h | ⟨flags', h⟩
                · exact Or.inl (congrArg _ h)
                · exact Or.inr ⟨flags', (congrArg _ h).trans (List.append_assoc _ _ _).symm⟩
          · obtain ⟨pieces, hpieces⟩ := ih _ (Nat.lt_succ_self _) hl.2 rfl
            refine ⟨.plain c ⟨Ne.symm hl.1, hc⟩ :: pieces, ?_⟩
            rw [formatOf, List.flatMap_cons]
            rcases hpieces with h | ⟨flags, h⟩
            · exact Or.inl (congrArg (c :: ·) h)
            · exact Or.inr ⟨flags, congrArg (c :: ·) h⟩

/-- **`printf`** prints its pieces one after the other, each with the arguments that are its own,
and returns the length of the format. -/
theorem printf_prints {mem : ℕ → UInt8} {args : ℕ → UInt32} {format esp' : ℕ}
    {pieces : List FormatPiece} {out : List UInt8}
    (hformat : StringAt mem format (formatOf pieces))
    (hprints : PrintsAll mem args 0 pieces out esp') (convBuf : ℕ → ℕ → UInt8) {fuel : ℕ}
    (hfuel : out.length + (formatOf pieces).length + 34 ≤ fuel) :
    printf fuel mem convBuf format args
      = some (Int32.ofNat (formatOf pieces).length, out) := by
  have hpieces := length_le_formatOf pieces
  obtain ⟨k, rfl⟩ : ∃ k, fuel = k + 1 + pieces.length := ⟨fuel - 1 - pieces.length, by omega⟩
  have hwhole : StringAt mem format (formatOf pieces ++ []) := by rwa [List.append_nil]
  have hend : mem (format + (formatOf pieces).length) = 0 :=
    StringAt.nil_iff.mp hwhole.append_right
  rw [printf, printfLoop_pieces hwhole hprints convBuf hfuel, printfLoop, if_pos hend,
    Option.map_some, Option.map_some, List.append_nil, Nat.add_sub_cancel_left]

/-- A format with a padded hexadecimal number and a negative one. -/
theorem printf_prints_hexAndSigned :
    printf 60 (copyTo (fun _ => 0) 0 [97, 37, 35, 120, 37, 100, 0]) (fun _ _ => 7) 0
        (fun i => if i = 0 then 255 else 4294967291)
      = some (6, [97, 48, 48, 48, 48, 48, 48, 70, 70, 45, 53]) := by
  set mem := copyTo (fun _ => 0) 0 [97, 37, 35, 120, 37, 100, 0]
  set args : ℕ → UInt32 := fun i => if i = 0 then 255 else 4294967291
  have hpadded : paddedText (args 0).toNat = [48, 48, 48, 48, 48, 48, 70, 70] := by
    have hdigits : Nat.digits 16 255 = [15, 15] := by norm_num
    have htext : numeralText 16 255 = [70, 70] := by
      rw [numeralText, hdigits]
      rfl
    have hvalue : (args 0).toNat = 255 := rfl
    rw [hvalue, paddedText, htext]
    rfl
  have hsigned : signedText (args 1).toInt32.toInt = [45, 53] := by
    have hdigits : Nat.digits 10 5 = [5] := by norm_num
    have hvalue : (args 1).toInt32.toInt = -5 := by decide
    rw [hvalue, signedText, if_pos (by omega), numeralText]
    have habs : (-5 : ℤ).natAbs = 5 := rfl
    rw [habs, hdigits]
    rfl
  have hprints : PrintsAll mem args 0
      [.plain 97 (by decide), .directive 1 120 (by decide), .directive 0 100 (by decide)]
      ([97] ++ (paddedText (args 0).toNat ++ (signedText (args 1).toInt32.toInt ++ []))) 2 :=
    .cons (.plain 97 _) (.cons (.padded 0 _) (.cons (.signed 0 _) (.nil 2)))
  have hformat : StringAt mem 0
      (formatOf [.plain 97 (by decide), .directive 1 120 (by decide),
        .directive 0 100 (by decide)]) :=
    stringAt_copyTo (by decide) _ _
  rw [hpadded, hsigned] at hprints
  exact printf_prints hformat hprints (fun _ _ => 7) (by decide)

/-- **A format that ends within a directive**: the terminator is taken for a conversion character
that prints nothing, and `printf` reads on behind it. -/
lemma printf_unfinished {mem : ℕ → UInt8} {args : ℕ → UInt32} {format esp' flags : ℕ}
    {pieces : List FormatPiece} {out : List UInt8}
    (hformat : StringAt mem format (formatOf pieces ++ unfinished flags))
    (hprints : PrintsAll mem args 0 pieces out esp') (convBuf : ℕ → ℕ → UInt8) {fuel : ℕ}
    (hfuel : out.length + (formatOf pieces).length + flags + 34 ≤ fuel) (k : ℕ) :
    printfLoop fuel mem args convBuf (k + 1 + pieces.length) format 0
      = (printfLoop fuel mem args convBuf k
          (format + (formatOf pieces ++ unfinished flags).length + 1) esp').map
          fun s => (out ++ s.1, s.2) := by
  have hdirective := hformat.append_right
  rw [← List.append_nil (unfinished flags)] at hdirective
  obtain ⟨hhead, hflags, hend⟩ := hdirective.directive
  have hterminator := StringAt.nil_iff.mp hend
  set buf := format + (formatOf pieces).length with hbuf
  have hchar := formatChar_eq hflags hterminator (by decide) fuel args (convBuf buf) false esp'
    (k := fuel) (by omega)
  have hnothing : ∀ alternate, convert fuel mem args (convBuf buf) alternate 0 esp'
      = some ([], esp') := fun _ => rfl
  rw [hnothing, Option.map_some] at hchar
  have hbehind : format + (formatOf pieces ++ unfinished flags).length + 1
      = buf + 1 + flags + 1 := by
    rw [List.length_append, unfinished, List.length_cons, List.length_replicate]
    omega
  rw [printfLoop_pieces hformat hprints convBuf (by omega), ← hbuf, printfLoop, hhead,
    if_neg (by decide), if_pos rfl, hchar, Option.bind_some, hbehind]
  exact congrArg _ Option.map_id'

end CustomLinuxOs
