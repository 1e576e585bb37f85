import CustomLinuxOs.Foundations.Codec
import CustomLinuxOs.Foundations.Memory
import CustomLinuxOs.Networking.Resolve

/-!
Domain names in the messages of `dns.c`: `write_name`, store by store, and `skip_name`.

`write_name` leaves the place of a length byte open until the label is copied, and copies each
label one place to the right of where it stands in the name.

* `writeNameLoop`: the loop with its two indices; `applyStores_writeNameLoop` says that it leaves
  the bytes of `writeName`, whatever the name is.
* `Label`, `WireName`: the names `skip_name` can pass over; `skipName_wireName` says that it stops
  behind them.
* `DomainName`: labels joined by dots, with `text` and `encoding`.
* `writeName_encodes`: the stores, the pointer, and both ways back.
-/

namespace CustomLinuxOs

/-! ### The stores of `write_name` -/

/-- The loop of `write_name`, with its indices `i` and `j`: the stores through `*pointer` in their
order, and by how much the pointer is moved at the end. -/
def writeNameLoop : List UInt8 → ℕ → ℕ → List (ℕ × UInt8) × ℕ
  | [], i, j => ([(j, (i - j).toUInt8), (i + 1, 0)], i + 2)
  | c :: name, i, j =>
      if c = 46 then
        let rest := writeNameLoop name (i + 1) (i + 1)
        ((j, (i - j).toUInt8) :: rest.1, rest.2)
      else
        let rest := writeNameLoop name (i + 1) j
        ((i + 1, c) :: rest.1, rest.2)

lemma writeNameLoop_snd (name : List UInt8) (i j : ℕ) :
    (writeNameLoop name i j).2 = i + name.length + 2 := by
  induction name generalizing i j with
  | nil => rfl
  | cons c name ih =>
      rw [writeNameLoop]
      split <;> simp only [ih, List.length_cons] <;> omega

lemma writeName_length (name label : List UInt8) :
    (writeName name label).length = label.length + name.length + 2 := by
  induction name generalizing label with
  | nil => simp [writeName]
  | cons c name ih =>
      rw [writeName]
      split
      · rw [List.length_append, ih, List.length_cons, List.length_cons, List.length_nil]
        omega
      · rw [ih, List.length_append, List.length_singleton, List.length_cons]
        omega

/-- **The loop of `write_name`**: with a label copied already, the stores to come put down its
length and what follows. -/
lemma applyStores_writeNameLoop (name : List UInt8) {mem : ℕ → UInt8} {i j : ℕ}
    {label : List UInt8} (hi : i = j + label.length)
    (hlabel : ∀ k < label.length, mem (j + 1 + k) = label.getD k 0) :
    applyStores mem (writeNameLoop name i j).1 = copyTo mem j (writeName name label) := by
  induction name generalizing mem i j label with
  | nil =>
      have hlength : Function.update mem j (i - j).toUInt8
          = copyTo mem j (label.length.toUInt8 :: label) := by
        rw [copyTo_cons_of_written _ hlabel, hi, Nat.add_sub_cancel_left]
      calc applyStores mem (writeNameLoop [] i j).1
          = applyStores (Function.update mem j (i - j).toUInt8) (storesFrom (i + 1) [0]) := rfl
        _ = copyTo (copyTo mem j (label.length.toUInt8 :: label)) (i + 1) [0] := by
            rw [applyStores_storesFrom, hlength]
        _ = copyTo mem j (writeName [] label) := by
            rw [show i + 1 = j + (label.length.toUInt8 :: label).length by
              rw [List.length_cons]; omega, copyTo_append]
            rfl
  | cons c name ih =>
      rw [writeNameLoop, writeName]
      split
      · have hlength : Function.update mem j (i - j).toUInt8
            = copyTo mem j (label.length.toUInt8 :: label) := by
          rw [copyTo_cons_of_written _ hlabel, hi, Nat.add_sub_cancel_left]
        have hrest : applyStores (Function.update mem j (i - j).toUInt8)
            (writeNameLoop name (i + 1) (i + 1)).1
            = copyTo (Function.update mem j (i - j).toUInt8) (i + 1) (writeName name []) :=
          ih rfl fun k hk => absurd hk (Nat.not_lt_zero k)
        calc applyStores mem ((j, (i - j).toUInt8) :: (writeNameLoop name (i + 1) (i + 1)).1)
            = applyStores (Function.update mem j (i - j).toUInt8)
                (writeNameLoop name (i + 1) (i + 1)).1 := rfl
          _ = copyTo (copyTo mem j (label.length.toUInt8 :: label)) (i + 1)
                (writeName name []) := by
              rw [hrest, hlength]
          _ = copyTo mem j (label.length.toUInt8 :: label ++ writeName name []) := by
              rw [show i + 1 = j + (label.length.toUInt8 :: label).length by
                rw [List.length_cons]; omega, copyTo_append]
      · -- one more byte of the label, one place to the right
        have hcopied : ∀ k < (label ++ [c]).length,
            Function.update mem (i + 1) c (j + 1 + k) = (label ++ [c]).getD k 0 := by
          intro k hk
          rw [List.length_append, List.length_singleton] at hk
          rcases Nat.lt_succ_iff_lt_or_eq.mp hk with hk | rfl
          · rw [Function.update_of_ne (by omega), hlabel k hk, List.getD_append _ _ _ _ hk]
          · rw [show j + 1 + label.length = i + 1 by omega, Function.update_self,
              List.getD_append_right _ _ _ _ le_rfl, Nat.sub_self, List.getD_cons_zero]
        calc applyStores mem ((i + 1, c) :: (writeNameLoop name (i + 1) j).1)
            = applyStores (Function.update mem (i + 1) c) (writeNameLoop name (i + 1) j).1 := rfl
          _ = copyTo (Function.update mem (i + 1) c) j (writeName name (label ++ [c])) :=
              ih (by rw [List.length_append, List.length_singleton]; omega) hcopied
          _ = copyTo mem j (writeName name (label ++ [c])) :=
              copyTo_update _ _ (by
                rw [writeName_length, List.length_append, List.length_singleton]
                omega)

/-! ### Names as `skip_name` takes them -/

/-- A label whose length byte is neither zero nor the mark of a pointer.  In a well-formed name it
has at most 63 bytes. -/
structure Label where
  bytes : List UInt8
  length_pos : 0 < bytes.length
  length_lt : bytes.length < 192

/-- The length byte of a label, and the label. -/
def Label.wire (l : Label) : List UInt8 := l.bytes.length.toUInt8 :: l.bytes

/-- What ends the labels of a name: a zero byte, or a pointer to the rest of the name. -/
inductive NameEnd where
  | root
  | pointer (high low : UInt8) (compressed : high &&& COMPRESSED = COMPRESSED)

def NameEnd.wire : NameEnd → List UInt8
  | .root => [0]
  | .pointer high low _ => [high, low]

/-- A name in a message. -/
structure WireName where
  labels : List Label
  ending : NameEnd

def WireName.bytes (n : WireName) : List UInt8 := n.labels.flatMap Label.wire ++ n.ending.wire

lemma Label.wire_pos (l : Label) : 0 < l.wire.length := Nat.succ_pos _

lemma Label.toNat_length (l : Label) : l.bytes.length.toUInt8.toNat = l.bytes.length :=
  Nat.mod_eq_of_lt (by have := l.length_lt; omega)

lemma Label.length_ne_zero (l : Label) : l.bytes.length.toUInt8 ≠ 0 := by
  intro h
  have hlength := l.toNat_length
  rw [h] at hlength
  exact absurd hlength.symm (Nat.pos_iff_ne_zero.mp l.length_pos)

/-- The mark of a pointer: the length would be 192 or more. -/
lemma and_compressed_iff (c : UInt8) : c &&& COMPRESSED = COMPRESSED ↔ 192 ≤ c.toNat := by
  have hall : ∀ n < 256, n.toUInt8 &&& COMPRESSED = COMPRESSED ↔ 192 ≤ n := by
    decide +kernel
  have hc := hall c.toNat c.toNat_lt
  rwa [show c.toNat.toUInt8 = c by simp] at hc

lemma ne_zero_of_compressed {c : UInt8} (h : c &&& COMPRESSED = COMPRESSED) : c ≠ 0 := by
  rintro rfl
  exact absurd h (by decide)

lemma Label.not_compressed (l : Label) :
    ¬ l.bytes.length.toUInt8 &&& COMPRESSED = COMPRESSED := by
  rw [and_compressed_iff, l.toNat_length]
  exact Nat.not_le.mpr l.length_lt

lemma skipNameLoop_cons (n : ℕ) (c : UInt8) (rest : List UInt8) :
    skipNameLoop (n + 1) (c :: rest)
      = if c = 0 then rest
        else if c &&& COMPRESSED = COMPRESSED then rest.drop 1
        else skipNameLoop n (rest.drop c.toNat) := by
  rw [← readU8_snd]
  rfl

/-- One label is passed over. -/
lemma skipNameLoop_label (n : ℕ) (l : Label) (rest : List UInt8) :
    skipNameLoop (n + 1) (l.wire ++ rest) = skipNameLoop n rest := by
  rw [Label.wire, List.cons_append, skipNameLoop_cons, if_neg l.length_ne_zero,
    if_neg l.not_compressed, l.toNat_length, List.drop_left]

/-- The end of a name. -/
lemma skipNameLoop_ending (n : ℕ) (e : NameEnd) (rest : List UInt8) :
    skipNameLoop (n + 1) (e.wire ++ rest) = rest := by
  cases e with
  | root => rfl
  | pointer high low h =>
      have hne := ne_zero_of_compressed h
      have hbytes : (NameEnd.pointer high low h).wire ++ rest = high :: low :: rest := rfl
      rw [hbytes, skipNameLoop_cons, if_neg hne, if_pos h, List.drop_one, List.tail_cons]

/-- **`skip_name`** stops behind the name. -/
theorem skipName_wireName (n : WireName) (rest : List UInt8) :
    skipName (n.bytes ++ rest) = rest := by
  have hloop : ∀ (labels : List Label) (k : ℕ), labels.length < k →
      skipNameLoop k (labels.flatMap Label.wire ++ n.ending.wire ++ rest) = rest := by
    intro labels
    induction labels with
    | nil =>
        intro k hk
        obtain ⟨k, rfl⟩ : ∃ m, k = m + 1 := ⟨k - 1, by rw [List.length_nil] at hk; omega⟩
        exact skipNameLoop_ending k n.ending rest
    | cons l labels ih =>
        intro k hk
        rw [List.length_cons] at hk
        obtain ⟨k, rfl⟩ : ∃ m, k = m + 1 := ⟨k - 1, by omega⟩
        rw [List.flatMap_cons, List.append_assoc, List.append_assoc, skipNameLoop_label,
          ← List.append_assoc]
        exact ih k (by omega)
  refine hloop n.labels _ ?_
  have hcount := length_le_flatMap Label.wire_pos n.labels
  rw [WireName.bytes, List.length_append, List.length_append]
  omega

/-! ### Domain names -/

/-- A domain name: labels of at most 63 bytes, none of which is a dot or a zero. -/
structure DomainName where
  labels : List Label
  nonempty : labels ≠ []
  short : ∀ l ∈ labels, l.bytes.length ≤ 63
  plain : ∀ l ∈ labels, ∀ c ∈ l.bytes, c ≠ 46 ∧ c ≠ 0

namespace DomainName

/-- The labels joined by dots. -/
def text (d : DomainName) : List UInt8 := [46].intercalate (d.labels.map Label.bytes)

/-- Each label behind its length, and a zero byte. -/
def encoding (d : DomainName) : List UInt8 := d.labels.flatMap Label.wire ++ [0]

end DomainName

/-- The labels of an encoded name.  The first argument bounds their number. -/
def decodeName : ℕ → List UInt8 → List (List UInt8)
  | 0, _ => []
  | n + 1, p =>
      let c := readU8 p
      if c.1 = 0 then [] else c.2.take c.1.toNat :: decodeName n (c.2.drop c.1.toNat)

/-- Bytes without a dot belong to the label. -/
lemma writeName_append {bytes : List UInt8} (hbytes : ∀ c ∈ bytes, c ≠ 46)
    (name label : List UInt8) :
    writeName (bytes ++ name) label = writeName name (label ++ bytes) := by
  induction bytes generalizing label with
  | nil => rw [List.nil_append, List.append_nil]
  | cons c bytes ih =>
      have hc : c ≠ 46 := hbytes c List.mem_cons_self
      rw [List.cons_append, writeName, if_neg hc,
        ih (fun c hc => hbytes c (List.mem_cons_of_mem _ hc)), List.append_assoc]
      rfl

lemma intercalate_cons_cons (sep a b : List UInt8) (l : List (List UInt8)) :
    sep.intercalate (a :: b :: l) = a ++ (sep ++ sep.intercalate (b :: l)) := rfl

/-- `write_name` of labels joined by dots. -/
lemma writeName_intercalate (l : Label) (labels : List Label)
    (hplain : ∀ m ∈ l :: labels, ∀ c ∈ m.bytes, c ≠ 46) :
    writeName ([46].intercalate ((l :: labels).map Label.bytes)) []
      = (l :: labels).flatMap Label.wire ++ [0] := by
  have hl : ∀ c ∈ l.bytes, c ≠ 46 := hplain l List.mem_cons_self
  induction labels generalizing l with
  | nil =>
      have hone : [46].intercalate ([l].map Label.bytes) = l.bytes ++ [] := rfl
      rw [hone, writeName_append hl, writeName, List.nil_append, List.flatMap_singleton]
      rfl
  | cons m labels ih =>
      have hrest : ∀ k ∈ m :: labels, ∀ c ∈ k.bytes, c ≠ 46 :=
        fun k hk => hplain k (List.mem_cons_of_mem _ hk)
      rw [List.map_cons, List.map_cons, intercalate_cons_cons, writeName_append hl,
        List.singleton_append, writeName, if_pos rfl, ← List.map_cons, ih m hrest
          (hrest m List.mem_cons_self), List.nil_append, ← Label.wire, ← List.append_assoc,
        ← List.flatMap_cons]

lemma decodeName_labels (labels : List Label) {n : ℕ} (hn : labels.length ≤ n)
    (rest : List UInt8) :
    decodeName n (labels.flatMap Label.wire ++ 0 :: rest) = labels.map Label.bytes := by
  induction labels generalizing n with
  | nil => cases n <;> rfl
  | cons l labels ih =>
      rw [List.length_cons] at hn
      obtain ⟨n, rfl⟩ : ∃ m, n = m + 1 := ⟨n - 1, by omega⟩
      rw [List.flatMap_cons, List.append_assoc, Label.wire, List.cons_append, decodeName]
      simp only [readU8_cons, if_neg l.length_ne_zero, l.toNat_length, List.take_left,
        List.drop_left]
      rw [ih (by omega), List.map_cons]

lemma zero_notMem_intercalate (labels : List Label)
    (hplain : ∀ l ∈ labels, ∀ c ∈ l.bytes, c ≠ 0) :
    0 ∉ [46].intercalate (labels.map Label.bytes) := by
  induction labels with
  | nil => exact List.not_mem_nil
  | cons l labels ih =>
      have hl : 0 ∉ l.bytes := fun h => hplain l List.mem_cons_self 0 h rfl
      have hrest := ih fun m hm => hplain m (List.mem_cons_of_mem _ hm)
      cases labels with
      | nil =>
          have hone : [46].intercalate ([l].map Label.bytes) = l.bytes ++ [] := rfl
          rwa [hone, List.append_nil]
      | cons m labels =>
          rw [List.map_cons, List.map_cons, intercalate_cons_cons, List.mem_append,
            List.mem_append, ← List.map_cons]
          rintro (h | h | h)
          · exact hl h
          · exact absurd h (by decide)
          · exact hrest h

/-- **`write_name`** writes a domain name as its encoding and moves the pointer behind it;
`skip_name` goes from the beginning of the encoding to its end, and the labels in it, joined by
dots, are the name again. -/
theorem writeName_encodes (d : DomainName) (mem : ℕ → UInt8) (rest : List UInt8) :
    0 ∉ d.text
      ∧ applyStores mem (writeNameLoop d.text 0 0).1 = copyTo mem 0 d.encoding
      ∧ (writeNameLoop d.text 0 0).2 = d.text.length + 2
      ∧ d.encoding.length = d.text.length + 2
      ∧ skipName (d.encoding ++ rest) = rest
      ∧ [46].intercalate (decodeName d.encoding.length (d.encoding ++ rest)) = d.text := by
  obtain ⟨l, labels, hlabels⟩ := List.exists_cons_of_ne_nil d.nonempty
  have hwrite : writeName d.text [] = d.encoding := by
    rw [DomainName.text, DomainName.encoding, hlabels]
    refine writeName_intercalate l labels fun m hm c hc => ?_
    exact (d.plain m (hlabels ▸ hm) c hc).1
  have hlength : d.encoding.length = d.text.length + 2 := by
    rw [← hwrite, writeName_length, List.length_nil, Nat.zero_add]
  refine ⟨?_, ?_, ?_, hlength, skipName_wireName ⟨d.labels, .root⟩ rest, ?_⟩
  · exact zero_notMem_intercalate d.labels fun m hm c hc => (d.plain m hm c hc).2
  · rw [← hwrite]
    exact applyStores_writeNameLoop d.text rfl fun k hk => absurd hk (Nat.not_lt_zero k)
  · rw [writeNameLoop_snd, Nat.zero_add]
  · have hlabels : d.labels.length ≤ d.encoding.length :=
      (length_le_flatMap Label.wire_pos d.labels).trans (by
        rw [DomainName.encoding, List.length_append]
        exact Nat.le_add_right _ _)
    rw [DomainName.text, ← decodeName_labels d.labels hlabels rest]
    simp only [DomainName.encoding, List.append_assoc, List.singleton_append]

/-- The name `lib.c`. -/
def libC : DomainName where
  labels := [⟨[0x6c, 0x69, 0x62], by decide, by decide⟩, ⟨[0x63], by decide, by decide⟩]
  nonempty := by decide
  short := by decide
  plain := by simp

example : libC.text = [0x6c, 0x69, 0x62, 46, 0x63]
    ∧ libC.encoding = [3, 0x6c, 0x69, 0x62, 1, 0x63, 0] := by decide

end CustomLinuxOs
