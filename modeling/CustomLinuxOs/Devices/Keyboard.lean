import CustomLinuxOs.Terminal.Display
import Mathlib.Data.List.GetD

/-!
The keyboard of `keyboard.c`: scan codes, the keys that are held, and what the handler calls.

* `Keyboard`, `Keyboard.scan`: the static variables of the driver, and what a scan code makes of
  them and of the terminal.
* `Stroke`, `held`, `capsOn`: keys that go down and up, and what a history of these says.
* `Keyboard.ofHistory`, `callFor`: the driver told from the history alone.
* `keyboard_history`: after any scan codes the driver does what the history says.
* `keysFor`, `typedText_sent`: a text can be typed, and what is sent is this text.
-/

namespace CustomLinuxOs

/-! ### Scan codes -/

def RELEASED : UInt8 := 0x80
def KBD_PREFIX : UInt8 := 0xe0
def KBD_RSHIFT : UInt8 := 0x36
def KBD_LSHIFT : UInt8 := 0x2a
def KBD_CAPSLOCK : UInt8 := 0x3a
def KBD_LCTRL : UInt8 := 0x1d
def KBD_BACKSPACE : UInt8 := 0x0e
def KBD_LALT : UInt8 := 0x38
def KBD_F1 : UInt8 := 0x3b
def KBD_F2 : UInt8 := 0x3c
def KBD_F3 : UInt8 := 0x3d
def KBD_UP : UInt8 := 0x48
def KBD_DOWN : UInt8 := 0x50
def NO_CHAR : UInt8 := 255

/-- The bytes of characters. -/
def ascii (cs : List Char) : List UInt8 := cs.map fun c => c.toNat.toUInt8

/-- The end of the three tables: no character. -/
def noChars : List UInt8 := List.replicate 176 NO_CHAR

/-- `ctrl_chars`. -/
def ctrlTable : List UInt8 :=
  [NO_CHAR, 0x1b, 0x31, 0x00, 0x1b, 0x1c, 0x1d, 0x1e, 0x1f, 0x7f]
    ++ ascii ['9', '0', '-', '='] ++ [NO_CHAR] ++ ascii ['I']
    ++ [0x11, 0x17, 0x05, 0x12, 0x14, 0x19, 0x15, TAB, 0x0f, 0x10, 0x1b, 0x1d]
    ++ ascii ['J'] ++ [NO_CHAR, 0x01, 0x13]
    ++ [0x04, 0x06, 0x07, 0x08, NEWLINE, 0x0b, 0x0c, 0x3b, 0x27, SPACE, NO_CHAR, 0x1c, 0x1a, 0x18,
      0x03, 0x16]
    ++ [0x02, 0x0e, RETURN] ++ ascii [',', '.'] ++ [0x1f, NO_CHAR] ++ ascii ['j']
    ++ [NO_CHAR, 0x00, NO_CHAR, NO_CHAR, NO_CHAR, NO_CHAR, NO_CHAR, NO_CHAR]
    ++ List.replicate 10 NO_CHAR ++ ascii ['-'] ++ [NO_CHAR, 0x1d, NO_CHAR] ++ ascii ['k']
    ++ [NO_CHAR] ++ noChars

/-- `printable_upper`. -/
def upperTable : List UInt8 :=
  [NO_CHAR, 0x1b] ++ ascii ['!', '@', '#', '$', '%', '^', '&', '*', '(', ')', '_', '+']
    ++ [NO_CHAR, TAB]
    ++ ascii ['Q', 'W', 'E', 'R', 'T', 'Y', 'U', 'I', 'O', 'P'] ++ [0x7b, 0x7d, NEWLINE, NO_CHAR]
    ++ ascii ['A', 'S']
    ++ ascii ['D', 'F', 'G', 'H', 'J', 'K', 'L', ':'] ++ [0x22] ++ ascii ['~'] ++ [NO_CHAR]
    ++ ascii ['|', 'Z', 'X', 'C', 'V']
    ++ ascii ['B', 'N', 'M', '<', '>', '?'] ++ [NO_CHAR] ++ ascii ['*'] ++ [NO_CHAR, SPACE]
    ++ List.replicate 6 NO_CHAR
    ++ List.replicate 10 NO_CHAR ++ ascii ['-'] ++ [NO_CHAR] ++ ascii ['5'] ++ [NO_CHAR]
    ++ ascii ['+'] ++ [NO_CHAR] ++ noChars

/-- `printable_lower`. -/
def lowerTable : List UInt8 :=
  [NO_CHAR, 0x1b] ++ ascii ['1', '2', '3', '4', '5', '6', '7', '8', '9', '0', '-', '=']
    ++ [NO_CHAR, TAB]
    ++ ascii ['q', 'w', 'e', 'r', 't', 'y', 'u', 'i', 'o', 'p', '[', ']'] ++ [NEWLINE, NO_CHAR]
    ++ ascii ['a', 's']
    ++ ascii ['d', 'f', 'g', 'h', 'j', 'k', 'l', ';'] ++ [0x27, 0x60, NO_CHAR, 0x5c]
    ++ ascii ['z', 'x', 'c', 'v']
    ++ ascii ['b', 'n', 'm', ',', '.', '/'] ++ [NO_CHAR] ++ ascii ['*'] ++ [NO_CHAR, SPACE]
    ++ List.replicate 6 NO_CHAR
    ++ List.replicate 10 NO_CHAR ++ ascii ['-'] ++ [NO_CHAR] ++ ascii ['5'] ++ [NO_CHAR]
    ++ ascii ['+'] ++ [NO_CHAR] ++ noChars

/-- `ctrl_chars[key_press]`. -/
def ctrlChars (keyPress : UInt8) : UInt8 := ctrlTable.getD keyPress.toNat NO_CHAR

/-- `printable_upper[key_press]`. -/
def printableUpper (keyPress : UInt8) : UInt8 := upperTable.getD keyPress.toNat NO_CHAR

/-- `printable_lower[key_press]`. -/
def printableLower (keyPress : UInt8) : UInt8 := lowerTable.getD keyPress.toNat NO_CHAR

/-- `is_alpha`. -/
def isAlpha (c : UInt8) : Bool := (0x61 ≤ c && c ≤ 0x7a) || (0x41 ≤ c && c ≤ 0x5a)

/-! ### The driver -/

/-- The static variables of `keyboard.c`. -/
structure Keyboard where
  lshiftPressed : Bool
  rshiftPressed : Bool
  capslockPressed : Bool
  lctrlPressed : Bool
  rctrlPressed : Bool
  laltPressed : Bool
  raltPressed : Bool
  deriving DecidableEq, Repr

/-- At boot no key is held. -/
def Keyboard.boot : Keyboard := ⟨false, false, false, false, false, false, false⟩

/-- What `keyboard_handler` calls on the viewed screen. -/
inductive KeyCall where
  | nothing
  | historyUp
  | historyDown
  | backspace
  | switchViewScreen (n : ℤ)
  | sendchar (c : UInt8)
  deriving DecidableEq, Repr

/-- The character that the default branch of `keyboard_handler` sends. -/
def Keyboard.sent (kbd : Keyboard) (keyPress : UInt8) : UInt8 :=
  if kbd.lctrlPressed || kbd.rctrlPressed then ctrlChars keyPress
  else if (kbd.rshiftPressed || kbd.lshiftPressed)
      ^^ (kbd.capslockPressed && isAlpha (printableLower keyPress)) then printableUpper keyPress
  else printableLower keyPress

/-- The switch of `keyboard_handler` on a code without prefix, from `KBD_UP` on. -/
def Keyboard.call (kbd : Keyboard) (press : Bool) (keyPress : UInt8) : KeyCall :=
  let alt := kbd.laltPressed || kbd.raltPressed
  if keyPress = KBD_UP then if press then .historyUp else .nothing
  else if keyPress = KBD_DOWN then if press then .historyDown else .nothing
  else if keyPress = KBD_BACKSPACE then if press then .backspace else .nothing
  else if keyPress = KBD_F1 then if press && alt then .switchViewScreen 0 else .nothing
  else if keyPress = KBD_F2 then if press && alt then .switchViewScreen 1 else .nothing
  else if keyPress = KBD_F3 then if press && alt then .switchViewScreen 2 else .nothing
  else if !press then .nothing
  else .sendchar (kbd.sent keyPress)

/-- This switch on the keys that it keeps a variable for. -/
def Keyboard.key (kbd : Keyboard) (press : Bool) (keyPress : UInt8) : Keyboard × KeyCall :=
  if keyPress = KBD_RSHIFT then ({ kbd with rshiftPressed := press }, .nothing)
  else if keyPress = KBD_LSHIFT then ({ kbd with lshiftPressed := press }, .nothing)
  else if keyPress = KBD_CAPSLOCK then
    (if press then { kbd with capslockPressed := !kbd.capslockPressed } else kbd, .nothing)
  else if keyPress = KBD_LCTRL then ({ kbd with lctrlPressed := press }, .nothing)
  else if keyPress = KBD_LALT then ({ kbd with laltPressed := press }, .nothing)
  else (kbd, kbd.call press keyPress)

/-- The switch on a code after the prefix. -/
def Keyboard.prefixedKey (kbd : Keyboard) (press : Bool) (keyPress : UInt8) : Keyboard :=
  if keyPress = KBD_LCTRL then { kbd with rctrlPressed := press }
  else if keyPress = KBD_LALT then { kbd with raltPressed := press }
  else kbd

/-- `!(key_press & RELEASED)`. -/
def isPress (code : UInt8) : Bool := code &&& RELEASED == 0

/-- `key_press & ~RELEASED`. -/
def unreleased (code : UInt8) : UInt8 := code &&& ~~~RELEASED

/-- `keyboard_handler` on the byte `code` from the keyboard; if that is the prefix, `next` is the
byte after it. -/
def Keyboard.scan (kbd : Keyboard) (code next : UInt8) : Keyboard × KeyCall :=
  if code = KBD_PREFIX then (kbd.prefixedKey (isPress next) (unreleased next), .nothing)
  else kbd.key (isPress code) (unreleased code)

/-- The handler on one scan code after the other, with all that it calls. -/
def Keyboard.scans (kbd : Keyboard) : List (UInt8 × UInt8) → Keyboard × List KeyCall
  | [] => (kbd, [])
  | scan :: rest =>
      let r := kbd.scan scan.1 scan.2
      ((r.1.scans rest).1, r.2 :: (r.1.scans rest).2)

lemma Keyboard.scans_append (kbd : Keyboard) (a b : List (UInt8 × UInt8)) :
    kbd.scans (a ++ b)
      = (((kbd.scans a).1.scans b).1, (kbd.scans a).2 ++ ((kbd.scans a).1.scans b).2) := by
  induction a generalizing kbd with
  | nil => rfl
  | cons scan a ih => simp only [List.cons_append, scans, ih]

/-! ### Keys and their history -/

/-- A key: its code, and whether that comes after the prefix. -/
structure Key where
  extended : Bool
  code : UInt8
  deriving DecidableEq, Repr

/-- A key goes down or up. -/
structure Stroke where
  key : Key
  down : Bool
  deriving DecidableEq, Repr

/-- The stroke that a scan code tells of. -/
def strokeOf (scan : UInt8 × UInt8) : Stroke :=
  if scan.1 = KBD_PREFIX then ⟨⟨true, unreleased scan.2⟩, isPress scan.2⟩
  else ⟨⟨false, unreleased scan.1⟩, isPress scan.1⟩

/-- The last stroke of the key was down. -/
def held (k : Key) (l : List Stroke) : Bool :=
  ((l.filter fun s => s.key = k).getLast?.map Stroke.down).getD false

/-- The caps lock key went down an odd number of times. -/
def capsOn (l : List Stroke) : Bool :=
  l.countP (fun s => s = ⟨⟨false, KBD_CAPSLOCK⟩, true⟩) % 2 == 1

def shiftHeld (l : List Stroke) : Bool :=
  held ⟨false, KBD_LSHIFT⟩ l || held ⟨false, KBD_RSHIFT⟩ l

def ctrlHeld (l : List Stroke) : Bool := held ⟨false, KBD_LCTRL⟩ l || held ⟨true, KBD_LCTRL⟩ l

def altHeld (l : List Stroke) : Bool := held ⟨false, KBD_LALT⟩ l || held ⟨true, KBD_LALT⟩ l

/-- The variables of the driver after a history. -/
def Keyboard.ofHistory (l : List Stroke) : Keyboard where
  lshiftPressed := held ⟨false, KBD_LSHIFT⟩ l
  rshiftPressed := held ⟨false, KBD_RSHIFT⟩ l
  capslockPressed := capsOn l
  lctrlPressed := held ⟨false, KBD_LCTRL⟩ l
  rctrlPressed := held ⟨true, KBD_LCTRL⟩ l
  laltPressed := held ⟨false, KBD_LALT⟩ l
  raltPressed := held ⟨true, KBD_LALT⟩ l

/-- The keys that only change what other keys mean. -/
def modifiers : List UInt8 := [KBD_RSHIFT, KBD_LSHIFT, KBD_CAPSLOCK, KBD_LCTRL, KBD_LALT]

/-- The character of a key.  Control makes a letter the control character with its last five bits;
shift and caps lock make it a capital unless they are both on. -/
def charFor (l : List Stroke) (code : UInt8) : UInt8 :=
  let c := printableLower code
  if ctrlHeld l then if isAlpha c then c &&& 0x1f else ctrlChars code
  else if isAlpha c then if shiftHeld l != capsOn l then c - 0x20 else c
  else if shiftHeld l then printableUpper code else c

/-- The screen that a function key views. -/
def viewKey (code : UInt8) : Option ℤ :=
  if code = KBD_F1 then some 0 else if code = KBD_F2 then some 1
  else if code = KBD_F3 then some 2 else none

/-- What a stroke calls after a history. -/
def callFor (l : List Stroke) (s : Stroke) : KeyCall :=
  if s.key.extended || !s.down || s.key.code ∈ modifiers then .nothing
  else if s.key.code = KBD_UP then .historyUp
  else if s.key.code = KBD_DOWN then .historyDown
  else if s.key.code = KBD_BACKSPACE then .backspace
  else match viewKey s.key.code with
    | some n => if altHeld l then .switchViewScreen n else .nothing
    | none => .sendchar (charFor l s.key.code)

section History

variable (l : List Stroke)

lemma held_snoc (k : Key) (s : Stroke) :
    held k (l ++ [s]) = if s.key = k then s.down else held k l := by
  rw [held, List.filter_append, List.filter_singleton]
  by_cases hk : s.key = k
  · simp [hk]
  · simp [hk, held]

lemma capsOn_snoc (s : Stroke) :
    capsOn (l ++ [s]) = if s = ⟨⟨false, KBD_CAPSLOCK⟩, true⟩ then !capsOn l else capsOn l := by
  rw [capsOn, List.countP_append, List.countP_singleton]
  split
  · rename_i hs
    rw [if_pos (of_decide_eq_true hs), capsOn]
    rcases Nat.mod_two_eq_zero_or_one (l.countP fun s => s = ⟨⟨false, KBD_CAPSLOCK⟩, true⟩)
      with h | h
    · simp [Nat.add_mod, h]
    · simp [Nat.add_mod, h]
  · rename_i hs
    rw [if_neg (by simpa using hs), capsOn, Nat.add_zero]

/-- **One scan code** keeps the variables true to the history. -/
lemma scan_ofHistory (code next : UInt8) :
    ((Keyboard.ofHistory l).scan code next).1
      = Keyboard.ofHistory (l ++ [strokeOf (code, next)]) := by
  rw [Keyboard.scan, strokeOf]
  by_cases hprefix : code = KBD_PREFIX
  · rw [if_pos hprefix, if_pos hprefix, Keyboard.prefixedKey]
    generalize unreleased next = k
    simp only [Keyboard.ofHistory, held_snoc, capsOn_snoc, Key.mk.injEq, Stroke.mk.injEq,
      Bool.true_eq_false, false_and, if_false, true_and]
    by_cases hctrl : k = KBD_LCTRL
    · rw [if_pos hctrl, if_pos hctrl, if_neg (by rw [hctrl]; decide)]
    · rw [if_neg hctrl, if_neg hctrl]
      split <;> rfl
  · rw [if_neg hprefix, if_neg hprefix, Keyboard.key]
    generalize unreleased code = k
    simp only [Keyboard.ofHistory, held_snoc, capsOn_snoc, Key.mk.injEq, Stroke.mk.injEq,
      Bool.false_eq_true, false_and, if_false, true_and]
    by_cases hrshift : k = KBD_RSHIFT
    · subst hrshift
      rfl
    by_cases hlshift : k = KBD_LSHIFT
    · subst hlshift
      rfl
    by_cases hcaps : k = KBD_CAPSLOCK
    · subst hcaps
      cases isPress code <;> rfl
    by_cases hctrl : k = KBD_LCTRL
    · subst hctrl
      rfl
    by_cases halt : k = KBD_LALT
    · subst halt
      rfl
    simp only [if_neg hrshift, if_neg hlshift, if_neg hctrl, if_neg halt, hcaps, false_and,
      if_false]

/-- **The tables.**  A letter key has a small letter, and above it the capital; with control it
is the control character. -/
lemma letter_keys {code : UInt8} (hletter : isAlpha (printableLower code) = true) :
    printableUpper code = printableLower code - 0x20
      ∧ ctrlChars code = printableLower code &&& 0x1f := by
  have hall : (lowerTable.zip (upperTable.zip ctrlTable)).all (fun t =>
      !isAlpha t.1 || (t.2.1 == t.1 - 0x20 && t.2.2 == t.1 &&& 0x1f)) = true := by
    decide +kernel
  have hlength : lowerTable.length = 256 ∧ upperTable.length = 256 ∧ ctrlTable.length = 256 := by
    decide +kernel
  obtain ⟨hlower, hupper, hctrl⟩ := hlength
  have hcode := code.toNat_lt
  have hlt : code.toNat < (lowerTable.zip (upperTable.zip ctrlTable)).length := by
    rw [List.length_zip, List.length_zip]
    omega
  have hentry := List.all_eq_true.mp hall _ (List.getElem_mem hlt)
  rw [List.getElem_zip, List.getElem_zip] at hentry
  rw [printableLower, List.getD_eq_getElem _ _ (by omega)] at hletter ⊢
  rw [printableUpper, ctrlChars, List.getD_eq_getElem _ _ (by omega),
    List.getD_eq_getElem _ _ (by omega)]
  simpa [hletter] using hentry

/-- The character that is sent. -/
lemma sent_ofHistory (code : UInt8) : (Keyboard.ofHistory l).sent code = charFor l code := by
  have hctrl : ((Keyboard.ofHistory l).lctrlPressed || (Keyboard.ofHistory l).rctrlPressed)
      = ctrlHeld l := rfl
  have hshift : ((Keyboard.ofHistory l).rshiftPressed || (Keyboard.ofHistory l).lshiftPressed)
      = shiftHeld l := Bool.or_comm _ _
  have hcaps : (Keyboard.ofHistory l).capslockPressed = capsOn l := rfl
  rw [Keyboard.sent, charFor, hctrl, hshift, hcaps]
  cases hletter : isAlpha (printableLower code) with
  | true =>
      obtain ⟨hupper, hcontrol⟩ := letter_keys hletter
      simp only [hupper, hcontrol, Bool.and_true, if_true, bne]
  | false => simp only [Bool.and_false, Bool.xor_false, Bool.false_eq_true, if_false]

/-- **One scan code** calls what the history says. -/
lemma scan_call (code next : UInt8) :
    ((Keyboard.ofHistory l).scan code next).2 = callFor l (strokeOf (code, next)) := by
  rw [Keyboard.scan, strokeOf]
  by_cases hprefix : code = KBD_PREFIX
  · rw [if_pos hprefix, if_pos hprefix, callFor, Bool.true_or, Bool.true_or, if_pos rfl]
  rw [if_neg hprefix, if_neg hprefix]
  generalize unreleased code = k
  generalize isPress code = press
  rw [callFor, Bool.false_or, Keyboard.key]
  by_cases hmodifier : k ∈ modifiers
  · simp only [modifiers, List.mem_cons, List.not_mem_nil, or_false] at hmodifier
    rcases hmodifier with rfl | rfl | rfl | rfl | rfl
    all_goals simp [modifiers, KBD_RSHIFT, KBD_LSHIFT, KBD_CAPSLOCK, KBD_LCTRL, KBD_LALT]
  · have hnot := hmodifier
    simp only [modifiers, List.mem_cons, List.not_mem_nil, or_false, not_or] at hnot
    obtain ⟨hrshift, hlshift, hcaps, hctrl, halt⟩ := hnot
    rw [if_neg hrshift, if_neg hlshift, if_neg hcaps, if_neg hctrl, if_neg halt]
    rw [show decide (k ∈ modifiers) = false from decide_eq_false hmodifier, Bool.or_false]
    cases press with
    | false =>
        simp only [Keyboard.call, Bool.false_and, Bool.false_eq_true, if_false, Bool.not_false,
          if_true, ite_self]
    | true =>
        have hheld : ((Keyboard.ofHistory l).laltPressed || (Keyboard.ofHistory l).raltPressed)
            = altHeld l := rfl
        rw [← sent_ofHistory]
        simp only [Keyboard.call, hheld, viewKey, Bool.true_and, Bool.not_true, Bool.false_eq_true,
          if_false, if_true]
        -- the six keys of the switch, and the default branch
        split_ifs <;> rfl

end History

/-- The variables of the driver after any scan codes. -/
lemma scans_ofHistory (scans : List (UInt8 × UInt8)) :
    (Keyboard.boot.scans scans).1 = Keyboard.ofHistory (scans.map strokeOf) := by
  induction scans using List.reverseRecOn with
  | nil => rfl
  | append_singleton scans scan ih =>
      rw [Keyboard.scans_append, ih, List.map_append]
      exact scan_ofHistory _ scan.1 scan.2

/-- **The keyboard remembers what is held.**  After any scan codes since boot the variables of the
driver say of each key whether its last stroke was down, and of caps lock whether it went down an
odd number of times; and the next scan code calls what these keys make of it. -/
theorem keyboard_history (scans : List (UInt8 × UInt8)) :
    (Keyboard.boot.scans scans).1 = Keyboard.ofHistory (scans.map strokeOf)
      ∧ ∀ code next, ((Keyboard.boot.scans scans).1.scan code next).2
        = callFor (scans.map strokeOf) (strokeOf (code, next)) := by
  have hstate := scans_ofHistory scans
  refine ⟨hstate, fun code next => ?_⟩
  rw [hstate]
  exact scan_call _ code next

/-! ### Typing a text -/

/-- The scan codes of a key that goes down and up. -/
def tap (code : UInt8) : List (UInt8 × UInt8) := [(code, 0), (code ||| RELEASED, 0)]

/-- The scan codes that type a character: its key, with shift where it stands in the upper table
only. -/
def keysFor (c : UInt8) : List (UInt8 × UInt8) :=
  if c ∈ lowerTable then tap (lowerTable.idxOf c).toUInt8
  else (KBD_LSHIFT, 0) :: tap (upperTable.idxOf c).toUInt8 ++ [(KBD_LSHIFT ||| RELEASED, 0)]

/-- A printable character other than the carriage return, which has no key. -/
def Typable (c : UInt8) : Prop := isPrintable c = true ∧ c ≠ RETURN

instance (c : UInt8) : Decidable (Typable c) := inferInstanceAs (Decidable (_ ∧ _))

/-- Caps lock turns small letters into capitals, and capitals into small letters. -/
def capsChar (caps : Bool) (c : UInt8) : UInt8 := if caps && isAlpha c then c ^^^ 0x20 else c

/-- No key is held; caps lock may be on. -/
def Keyboard.Free (kbd : Keyboard) : Prop :=
  kbd = { Keyboard.boot with capslockPressed := kbd.capslockPressed }

/-- **One character.** -/
lemma keysFor_sent {kbd : Keyboard} (hfree : kbd.Free) {c : UInt8} (hc : Typable c) :
    (kbd.scans (keysFor c)).1 = kbd
      ∧ (kbd.scans (keysFor c)).2.filter (· ≠ .nothing)
        = [.sendchar (capsChar kbd.capslockPressed c)] := by
  have hall : ∀ caps : Bool, ∀ n < 128, Typable (UInt8.ofNat n) →
      let kbd : Keyboard := { Keyboard.boot with capslockPressed := caps }
      (kbd.scans (keysFor (UInt8.ofNat n))).1 = kbd
        ∧ (kbd.scans (keysFor (UInt8.ofNat n))).2.filter (· ≠ .nothing)
          = [.sendchar (capsChar caps (UInt8.ofNat n))] := by
    decide +kernel
  have hlt : c.toNat < 128 := by
    have hprintable := hc.1
    simp only [isPrintable, Bool.or_eq_true, Bool.and_eq_true, beq_iff_eq, decide_eq_true_eq]
      at hprintable
    rcases hprintable with ((rfl | rfl) | rfl) | ⟨-, h⟩
    · decide
    · decide
    · decide
    · exact lt_of_le_of_lt (UInt8.le_iff_toNat_le.mp h) (by decide)
  have hchar := hall kbd.capslockPressed c.toNat hlt
  rw [UInt8.ofNat_toNat, ← hfree] at hchar
  exact hchar hc

/-- **Any printable text can be typed.**  The scan codes of its characters send the characters of
the text and nothing else, with caps lock on with small letters and capitals exchanged, and leave
the variables of the driver as they were. -/
theorem typedText_sent {kbd : Keyboard} (hfree : kbd.Free) {text : List UInt8}
    (htext : ∀ c ∈ text, Typable c) :
    (kbd.scans (text.flatMap keysFor)).1 = kbd
      ∧ (kbd.scans (text.flatMap keysFor)).2.filter (· ≠ .nothing)
        = text.map fun c => .sendchar (capsChar kbd.capslockPressed c) := by
  induction text with
  | nil => exact ⟨rfl, rfl⟩
  | cons c text ih =>
      obtain ⟨hstate, hcalls⟩ := keysFor_sent hfree (htext c List.mem_cons_self)
      obtain ⟨hrest, hsent⟩ := ih fun b hb => htext b (List.mem_cons_of_mem c hb)
      rw [List.flatMap_cons, Keyboard.scans_append, hstate, hrest]
      refine ⟨rfl, ?_⟩
      rw [List.filter_append, hcalls, hsent]
      rfl

/-- `Hi!`, a capital and a sign with shift. -/
theorem typedText_sent_hi :
    (Keyboard.boot.scans ([0x48, 0x69, 0x21].flatMap keysFor)).2.filter (· ≠ .nothing)
      = [.sendchar 0x48, .sendchar 0x69, .sendchar 0x21] := by
  have htypable : ∀ c ∈ ([0x48, 0x69, 0x21] : List UInt8), Typable c := by
    simp only [List.forall_mem_cons]
    exact ⟨by decide, by decide, by decide, List.forall_mem_nil _⟩
  have hfree : Keyboard.boot.Free := rfl
  exact (typedText_sent hfree htypable).2

end CustomLinuxOs
