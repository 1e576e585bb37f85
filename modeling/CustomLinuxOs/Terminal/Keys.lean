import CustomLinuxOs.Filesystem.DirOperations
import CustomLinuxOs.Terminal.Tty

/-!
The keys of `tty.c` that edit the input line as a whole: history and tab completion.

* `eraseLine`, `historyUp`, `historyDown`: going through the history; `none` where the source keeps
  erasing a line that has reached the top left cell.
* `tabComplete`: completing the last word of the line by the names of the directory.
* `sendKey`: `tty_sendchar`; `none` where `check_shell` reads before the video page, which is not
  mapped, or where names with tabs make the completion call itself again and again.
* `TtyOp`: the operations on the terminal of the current process screen.
-/

namespace CustomLinuxOs

/-! ### History -/

/-- `rewrite`. -/
def rewrite (s : Tty) : Tty :=
  let s := echoBuffer false s.bufferSize.toNat 0 s
  { s with display := setCursorDefault s.display }

/-- `while (buffer_size) tty_backspace()`, with `buffer_size` passes to go. -/
def eraseLine : ℕ → Tty → Option Tty
  | 0, s => some s
  | n + 1, s =>
      if s.display.screenX = 0 ∧ s.display.screenY = 0 then none
      else eraseLine n (ttyBackspace s)

/-- The line is saved and erased, and the one in slot `curr` takes its place. -/
def changeLine (s : Tty) (curr : ℤ) : Option Tty :=
  (eraseLine s.bufferSize.toNat (s.setSizeHistory s.historyCurr s.bufferSize)).map fun s =>
    rewrite { s with historyCurr := curr }.loadLine

/-- `history_up`. -/
def historyUp (s : Tty) : Option Tty :=
  let s := { s with tabLs := false }
  if s.historyCurr = s.historyStart then some s
  else
    let curr := s.historyCurr - 1
    changeLine s (if curr < 0 then curr + MAX_TERMINAL_HIST_LEN else curr)

/-- `history_down`. -/
def historyDown (s : Tty) : Option Tty :=
  let s := { s with tabLs := false }
  if s.historyCurr = s.historyEnd then some s
  else
    let curr := s.historyCurr + 1
    changeLine s (if curr ≥ MAX_TERMINAL_HIST_LEN then curr - MAX_TERMINAL_HIST_LEN else curr)

/-! ### Tab completion -/

/-- The loop of `get_last`, down from position `i - 1`. -/
def getLastLoop (s : Tty) : ℕ → ℕ
  | 0 => 0
  | i + 1 =>
      if s.input i = SPACE ∨ s.input i = NEWLINE ∨ s.input i = TAB then i + 1
      else getLastLoop s i

/-- `get_last`. -/
def getLast (s : Tty) : ℕ := getLastLoop s s.bufferSize.toNat

/-- The names of the directory, in order; each is what `read` leaves in the buffer `test`. -/
abbrev Listing := List (ℕ → UInt8)

/-- `strlen` of a buffer for a name. -/
def nameLength (test : ℕ → UInt8) : ℕ :=
  ((List.range MAX_FILENAME_LENGTH).takeWhile fun j => test j ≠ 0).length

/-- `strncmp(test, filename, n) == 0`. -/
def nameMatches (filename : ℕ → UInt8) (n : ℕ) (test : ℕ → UInt8) : Bool :=
  strncmp test filename n 0 == 0

/-- The bytes `tty_ls` prints for one name: the name, and spaces up to `m` columns. -/
def lsEntry (m : ℕ) (test : ℕ → UInt8) : List UInt8 :=
  let name := ((List.range m).map test).takeWhile (· ≠ 0)
  name ++ List.replicate (m - name.length) SPACE

/-- The bytes `tty_ls` prints: the names that match, in `c` columns of width `m`. -/
def lsBytes (names : Listing) (filename : ℕ → UInt8) (n : ℕ) : List UInt8 :=
  let found := names.filter (nameMatches filename n)
  let m := (found.map nameLength).foldl max 0 + 2
  let c := ((List.range' 2 38).find? fun c => NUM_COLS ≤ m * c + m).getD 2
  let row (i : ℕ) : List UInt8 := if i % c = 0 then [NEWLINE] else []
  (found.zipIdx.flatMap fun p => row p.2 ++ lsEntry m p.1) ++ [NEWLINE]

/-- `tty_ls`. -/
def ttyLs (names : Listing) (filename : ℕ → UInt8) (n : ℕ) (s : Tty) : Tty :=
  let inShell := checkShell s
  let d := (lsBytes names filename n).foldl (fun d c => (ttyPutcNocursor false d c).2) s.display
  let d := if inShell then ttyPutBytes d prompt else d
  rewrite { s with display := d }

/-- The rest of the loop of `tab_complete` over the names: how far all that match agree with the
first one, if that is further than position `n`. -/
def agreeLoop (filename : ℕ → UInt8) (n : ℕ) : Listing → ℕ → Option ℕ
  | [], m => some m
  | test :: names, m =>
      if nameMatches filename n test then
        match (List.range' n (m - n)).find? fun i => test i ≠ filename i with
        | none => agreeLoop filename n names m
        | some i => if i = n then none else agreeLoop filename n names i
      else agreeLoop filename n names m

/-- What `tab_complete` decides to do. -/
inductive Completion where
  /-- nothing fits -/
  | noMatch
  /-- several names fit, and there is nothing to add -/
  | ambiguous (filename : ℕ → UInt8) (n : ℕ)
  /-- these bytes are to be added -/
  | add (bytes : List UInt8)

/-- `tab_complete` up to the place where it changes the terminal; `none` when the last word is
longer than a name. -/
def completion (names : Listing) (s : Tty) : Option Completion :=
  let start := getLast s
  let n := s.bufferSize.toNat - start
  if n > MAX_FILENAME_LENGTH then none
  else
    let word (i : ℕ) : UInt8 := if i < n then s.input (start + i) else 0
    match names.dropWhile fun test => ! nameMatches word n test with
    | [] => some .noMatch
    | first :: names =>
        let more := ((List.range' n (MAX_FILENAME_LENGTH - n)).takeWhile fun i => first i ≠ 0).length
        let filename (i : ℕ) : UInt8 := if n ≤ i ∧ i < n + more then first i else word i
        match agreeLoop filename n names (n + more) with
        | none => some (.ambiguous filename n)
        | some m => some (.add ((List.range' n (m - n)).map filename))

/-- The cell that `check_shell` starts at. -/
def promptStart (s : Tty) : ℤ × ℤ :=
  (List.range s.bufferSize.toNat).foldl
    (fun (p : ℤ × ℤ) i =>
      let x := p.1 - ((s.screens s.widthBuffer).widthBuffer i).toNat
      if x < 0 then (x + NUM_COLS, p.2 - 1) else (x, p.2))
    (s.display.screenX - PROMPT_SIZE, s.display.screenY)

/-- `check_shell` reads nothing before the video page. -/
def shellMapped (s : Tty) : Bool :=
  (promptStart s).2 < 0 || 0 ≤ NUM_COLS * (promptStart s).2 + (promptStart s).1

/-- `tab_complete`, which sends characters by `send`. -/
def tabComplete (send : Tty → UInt8 → Option Tty) (names : Listing) (s : Tty) : Option Tty :=
  match completion names s with
  | none => some s
  | some .noMatch => some { s with tabLs := false }
  | some (.ambiguous filename n) =>
      if s.tabLs then
        if shellMapped s then some { ttyLs names filename n s with tabLs := true } else none
      else some { s with tabLs := true }
  | some (.add bytes) => (bytes.foldlM send s).map fun s => { s with tabLs := false }

/-- `tty_sendchar`, with the depth of calls that are open at most. -/
def sendKey (names : Listing) : ℕ → Tty → UInt8 → Option Tty
  | 0, _, _ => none
  | depth + 1, s, c =>
      if c = TAB then tabComplete (sendKey names depth) names s
      else if c = 0x0c ∧ ¬ shellMapped s then none
      else some (ttySendchar id s c)

/-! ### Operations -/

/-- `tty_clear_buf`. -/
def ttyClearBuf (s : Tty) : Tty := { s with bufferSize := 0, ready := false }

/-- `tty_set_attrib`. -/
def ttySetAttrib (s : Tty) (a : UInt8) : UInt8 × Tty :=
  (s.display.attrib, { s with display := { s.display with attrib := a } })

/-- The end of `tty_read`, where the call goes on once `ready` is set. -/
def takeLine (s : Tty) (nbytes : ℤ) : Option (ℤ × List UInt8 × Tty) :=
  if s.ready then
    let bytes := readLoop s nbytes s.bufferSize.toNat 0
    some (bytes.length, bytes, shiftBuffer (historyNew s) bytes.length)
  else none

lemma ttyRead_eq (s : Tty) (fd : ℤ) (buf : UInt32) (nbytes : ℤ) :
    ttyRead s fd buf nbytes =
      if fd = STDOUT then some (-1, [], s)
      else if buf = 0 then some (-1, [], s)
      else takeLine (showLine s) nbytes := rfl

/-- The operations on the terminal of the current process screen. -/
inductive TtyOp where
  /-- `tty_sendchar`, with the names that are in the directory -/
  | key (c : UInt8) (names : Listing) (depth : ℕ)
  | backspace
  | historyUp
  | historyDown
  | write (fd : ℤ) (buf : Option (List UInt8)) (nbytes : ℤ)
  /-- a call of `tty_read` that finds a line -/
  | read (fd : ℤ) (buf : UInt32) (nbytes : ℤ)
  /-- a call of `tty_read` up to the loop in which it waits for a line -/
  | wait (fd : ℤ) (buf : UInt32)
  /-- a call of `tty_read` from that loop on -/
  | resume (nbytes : ℤ)
  | clearBuf
  | setAttrib (a : UInt8)
  /-- a byte written to the screen through `VIDEO` or the vidmap -/
  | video (offset : ℤ) (b : UInt8)

/-- One operation. -/
def TtyOp.run (s : Tty) : TtyOp → Option Tty
  | .key c names depth => sendKey names depth s c
  | .backspace => some (ttyBackspace s)
  | .historyUp => CustomLinuxOs.historyUp s
  | .historyDown => CustomLinuxOs.historyDown s
  | .write fd buf nbytes => some (ttyWrite s fd buf nbytes).2
  | .read fd buf nbytes => (ttyRead s fd buf nbytes).map fun r => r.2.2
  | .wait fd buf => if fd = STDOUT ∨ buf = 0 then none else some (showLine s)
  | .resume nbytes => (takeLine s nbytes).map fun r => r.2.2
  | .clearBuf => some (ttyClearBuf s)
  | .setAttrib a => some (ttySetAttrib s a).2
  | .video offset b =>
      if 0 ≤ offset ∧ offset < VIDEO_MEMORY_SIZE then
        some { s with display := s.display.poke offset b }
      else none

/-- What a key does to a terminal follows from what it does besides completing, and from `tty_ls`:
completion sends characters. -/
lemma sendKey_rel {R : Tty → Tty → Prop} (hrefl : ∀ s, R s s)
    (htrans : ∀ s t u, R s t → R t u → R s u)
    (htab : ∀ s b, R s { s with tabLs := b })
    (hls : ∀ names filename n s, R s (ttyLs names filename n s))
    (hchar : ∀ s c, c ≠ TAB → R s (ttySendchar id s c)) {names : Listing} {depth : ℕ}
    {s s' : Tty} {c : UInt8} (h : sendKey names depth s c = some s') : R s s' := by
  induction depth generalizing s s' c with
  | zero => exact absurd h (by simp [sendKey])
  | succ depth ih =>
      have hsend {bytes : List UInt8} {s s' : Tty}
          (h : bytes.foldlM (sendKey names depth) s = some s') : R s s' := by
        induction bytes generalizing s with
        | nil => exact Option.some.inj h ▸ hrefl s
        | cons b bytes ihb =>
            rw [List.foldlM_cons] at h
            obtain ⟨t, ht, h⟩ := Option.bind_eq_some_iff.mp h
            exact htrans _ _ _ (ih ht) (ihb h)
      rw [sendKey] at h
      split at h
      · rw [tabComplete] at h
        cases hcompletion : completion names s with
        | none =>
            rw [hcompletion] at h
            obtain rfl := Option.some.inj h
            exact hrefl s
        | some completion =>
            rw [hcompletion] at h
            cases completion with
            | noMatch =>
                obtain rfl := Option.some.inj h
                exact htab s false
            | ambiguous filename n =>
                simp only at h
                split at h
                · split at h
                  · obtain rfl := Option.some.inj h
                    exact htrans _ _ _ (hls names filename n s) (htab _ true)
                  · exact absurd h (by simp)
                · obtain rfl := Option.some.inj h
                  exact htab s true
            | add bytes =>
                obtain ⟨t, ht, rfl⟩ := Option.map_eq_some_iff.mp h
                exact htrans _ _ _ (hsend ht) (htab t false)
      · split at h
        · exact absurd h (by simp)
        · rename_i hc _
          obtain rfl := Option.some.inj h
          exact hchar s c hc

lemma checkShell_eq (s : Tty) : checkShell s =
    if (promptStart s).2 < 0 then false
    else (List.range PROMPT_SIZE).all fun i =>
      s.display.peek (2 * (NUM_COLS * (promptStart s).2 + (promptStart s).1 + i))
        == prompt.getD i 0 := rfl

end CustomLinuxOs
