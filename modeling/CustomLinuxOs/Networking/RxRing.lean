import CustomLinuxOs.Foundations.Ring
import CustomLinuxOs.Networking.Tcp

/-!
The receive ring of a connection: what the data loop of `tcp_parse_packet` stores in it and what
`tcp_recv` takes out.

* `rxPending`: the bytes between `rx_read` and `rx_readable`, in order.
* `rxStore`, `rxRoom`: storing bytes one after another, and how many of `n` offered bytes the
  ring lets in.  `rxLoop_skip`, `rxLoop_beyond` and `rxLoop_next` are the three ways of the
  data loop: it skips, stops, or stores `rxRoom` bytes from the packet pointer.  `rxLoop_eq`
  puts them together.
* `RxAt base conn q r`: counted from `base`, `q` bytes are read and `r` are received, and the
  ring is not full.  `RxAt.store` says that what is stored in the slots left overwrites no byte
  that is still to be read.
* `tcpRecv_spec`: `tcp_recv` takes the oldest bytes of the ring.
-/

namespace CustomLinuxOs

/-! ### Counters and slots -/

@[simp] lemma toNat_bufferSize : BUFFER_SIZE.toUInt32.toNat = 2048 := rfl

lemma toNat_toUInt32 (n : ℕ) : n.toUInt32.toNat = n % 2 ^ 32 := UInt32.toNat_ofNat'

lemma toUInt32_succ (n : ℕ) : (n + 1).toUInt32 = n.toUInt32 + 1 := by
  apply UInt32.toNat_inj.mp
  rw [UInt32.toNat_add, toNat_toUInt32, toNat_toUInt32, UInt32.toNat_one]
  omega

lemma toUInt32_add (m n : ℕ) : (m + n).toUInt32 = m.toUInt32 + n.toUInt32 := by
  apply UInt32.toNat_inj.mp
  rw [UInt32.toNat_add, toNat_toUInt32, toNat_toUInt32, toNat_toUInt32]
  omega

/-- A distance below `2^32` is read off from two counters. -/
lemma toNat_sub_add (Q : UInt32) {d : ℕ} (hd : d < 2 ^ 32) : (Q + d.toUInt32 - Q).toNat = d := by
  rw [show Q + d.toUInt32 - Q = d.toUInt32 by grind, toNat_toUInt32, Nat.mod_eq_of_lt hd]

lemma eq_add_toNat_sub (Q R : UInt32) : R = Q + (R - Q).toNat.toUInt32 := by
  rw [Nat.toUInt32_eq, UInt32.ofNat_toNat]
  grind

/-- The slots of consecutive sequence numbers are consecutive, across the wrap of the
counters as well. -/
lemma slot_add (Q : UInt32) (i : ℕ) :
    (Q + i.toUInt32 + 1).toNat % BUFFER_SIZE = (Q.toNat + 1 + i) % BUFFER_SIZE := by
  rw [UInt32.toNat_add, UInt32.toNat_add, toNat_toUInt32, UInt32.toNat_one, BUFFER_SIZE]
  omega

/-! ### The bytes in the ring -/

/-- The bytes between `rx_read` and `rx_readable`. -/
def rxPending (conn : Connection) : List UInt8 :=
  ringSlice BUFFER_SIZE conn.rxBuffer (conn.rxRead.toNat + 1)
    (conn.rxReadable - conn.rxRead).toNat

lemma rxPending_congr {c d : Connection} (h : c.rxSide = d.rxSide) :
    rxPending c = rxPending d := by
  have hR : c.rxReadable = d.rxReadable := congrArg RxSide.rxReadable h
  have hQ : c.rxRead = d.rxRead := congrArg RxSide.rxRead h
  have hB : c.rxBuffer = d.rxBuffer := congrArg RxSide.rxBuffer h
  rw [rxPending, rxPending, hR, hQ, hB]

/-- Storing bytes one after another, as the data loop does. -/
def rxStore : List UInt8 → Connection → Connection
  | [], conn => conn
  | b :: bytes, conn =>
      rxStore bytes
        { conn with
          rxReadable := conn.rxReadable + 1
          rxBuffer := Function.update conn.rxBuffer
            ((conn.rxReadable + 1).toNat % BUFFER_SIZE) b }

lemma rxStore_rxRead (bytes : List UInt8) (conn : Connection) :
    (rxStore bytes conn).rxRead = conn.rxRead := by
  induction bytes generalizing conn with
  | nil => rfl
  | cons b bytes ih => rw [rxStore, ih]

lemma rxStore_rxReadable (bytes : List UInt8) (conn : Connection) :
    (rxStore bytes conn).rxReadable = conn.rxReadable + bytes.length.toUInt32 := by
  induction bytes generalizing conn with
  | nil => simp [rxStore]
  | cons b bytes ih =>
      rw [rxStore, ih, List.length_cons, toUInt32_succ]
      grind

/-- Validity, closing and the ports are not the data loop's business. -/
lemma rxStore_rest (bytes : List UInt8) (conn : Connection) :
    (rxStore bytes conn).isValid = conn.isValid ∧ (rxStore bytes conn).isClosed = conn.isClosed
      ∧ (rxStore bytes conn).sourcePort = conn.sourcePort
      ∧ (rxStore bytes conn).destPort = conn.destPort := by
  induction bytes generalizing conn with
  | nil => exact ⟨rfl, rfl, rfl, rfl⟩
  | cons b bytes ih => rw [rxStore]; exact ih _

/-- Storing one byte puts it behind the pending ones, as long as a slot is left. -/
lemma rxPending_store_one (conn : Connection) (b : UInt8) {d : ℕ} (hd : d < BUFFER_SIZE)
    (hR : conn.rxReadable = conn.rxRead + d.toUInt32) :
    rxPending (rxStore [b] conn) = rxPending conn ++ [b] := by
  have hd32 : d + 1 < 2 ^ 32 := by rw [BUFFER_SIZE] at hd; omega
  have hslot : (conn.rxReadable + 1).toNat % BUFFER_SIZE
      = (conn.rxRead.toNat + 1 + d) % BUFFER_SIZE := by
    rw [hR, slot_add]
  have hold : (conn.rxReadable - conn.rxRead).toNat = d := by
    rw [hR, toNat_sub_add _ (by omega)]
  have hnew : (conn.rxReadable + 1 - conn.rxRead).toNat = d + 1 := by
    rw [hR, UInt32.add_assoc, ← toUInt32_succ, toNat_sub_add _ hd32]
  simp only [rxStore, rxPending, hslot, hold, hnew]
  exact ringSlice_push _ b hd

/-- **Storing bytes** appends them to the pending ones, as long as the ring has room. -/
theorem rxPending_store (bytes : List UInt8) (conn : Connection) {d : ℕ}
    (hd : d + bytes.length ≤ BUFFER_SIZE) (hR : conn.rxReadable = conn.rxRead + d.toUInt32) :
    rxPending (rxStore bytes conn) = rxPending conn ++ bytes := by
  induction bytes generalizing conn d with
  | nil => simp [rxStore]
  | cons b bytes ih =>
      rw [List.length_cons] at hd
      have hone := rxPending_store_one conn b (d := d) (by omega) hR
      have hrest := ih (rxStore [b] conn) (d := d + 1) (by omega)
        (by rw [rxStore_rxReadable, rxStore_rxRead, hR, toUInt32_succ, List.length_singleton,
              UInt32.add_assoc]; rfl)
      rw [hone, List.append_assoc, List.singleton_append] at hrest
      exact hrest

/-! ### The data loop -/

/-- How many of `n` bytes offered in order the test of the data loop lets into the ring. -/
def rxRoom (read readable : UInt32) : ℕ → ℕ
  | 0 => 0
  | n + 1 =>
      if readable + 1 < read + BUFFER_SIZE.toUInt32 then rxRoom read (readable + 1) n + 1
      else 0

lemma rxRoom_le (read readable : UInt32) (n : ℕ) : rxRoom read readable n ≤ n := by
  induction n generalizing readable with
  | zero => exact le_rfl
  | succ n ih =>
      rw [rxRoom]
      split
      · exact Nat.succ_le_succ (ih _)
      · exact Nat.zero_le _

/-- **The room** that the test of the data loop gives: up to the limit, as unsigned numbers. -/
lemma rxRoom_eq_min (read readable : UInt32) (n : ℕ) :
    rxRoom read readable n
      = min n ((read + BUFFER_SIZE.toUInt32).toNat - (readable + 1).toNat) := by
  induction n generalizing readable with
  | zero => exact (Nat.zero_min _).symm
  | succ n ih =>
      have hlimit := (read + BUFFER_SIZE.toUInt32).toNat_lt
      rw [rxRoom]
      by_cases hlt : readable + 1 < read + BUFFER_SIZE.toUInt32
      · have h := UInt32.lt_iff_toNat_lt.mp hlt
        have hsucc : (readable + 1 + 1).toNat = (readable + 1).toNat + 1 := by
          rw [UInt32.toNat_add, UInt32.toNat_one]
          exact Nat.mod_eq_of_lt (by omega)
        rw [if_pos hlt, ih, hsucc]
        omega
      · have h := UInt32.le_iff_toNat_le.mp (UInt32.not_lt.mp hlt)
        rw [if_neg hlt]
        omega

/-- With `d` of its slots taken, a ring lets in what the `BUFFER_SIZE - 1 - d` others hold, or
nothing: the test fails at once if the limit lies beyond the wrap of the counter. -/
lemma rxRoom_eq (read : UInt32) {d : ℕ} (hd : d < BUFFER_SIZE) (n : ℕ) :
    rxRoom read (read + d.toUInt32) n
      = if read + d.toUInt32 + 1 < read + BUFFER_SIZE.toUInt32 then min n (BUFFER_SIZE - 1 - d)
        else 0 := by
  have hsize : BUFFER_SIZE = 2048 := rfl
  have hlimit : (read + BUFFER_SIZE.toUInt32).toNat = (read.toNat + 2048) % 2 ^ 32 := by
    rw [UInt32.toNat_add, toNat_bufferSize]
  have hnext : (read + d.toUInt32 + 1).toNat = (read.toNat + d + 1) % 2 ^ 32 := by
    rw [UInt32.add_assoc, ← toUInt32_succ, UInt32.toNat_add, toNat_toUInt32]
    omega
  rw [rxRoom_eq_min]
  split
  · rename_i hroom
    rw [UInt32.lt_iff_toNat_lt] at hroom
    omega
  · rename_i hfull
    rw [UInt32.lt_iff_toNat_lt] at hfull
    omega

/-- A number is above its successor only where the counter wraps. -/
lemma succ_lt_self_iff (x : UInt32) : x + 1 < x ↔ x = 0xFFFFFFFF := by
  rw [UInt32.lt_iff_toNat_lt, UInt32.toNat_add, UInt32.toNat_one, ← UInt32.toNat_inj]
  have hx := x.toNat_lt
  have hlast : (0xFFFFFFFF : UInt32).toNat = 2 ^ 32 - 1 := rfl
  omega

/-- With all slots taken the test of the data loop fails, except at the last number. -/
lemma rxRoom_full {read readable : UInt32} (hfull : readable = read + BUFFER_SIZE.toUInt32)
    (n : ℕ) : 0 < rxRoom read readable (n + 1) ↔ readable = 0xFFFFFFFF := by
  rw [rxRoom, ← hfull, ← succ_lt_self_iff]
  split
  · rename_i h
    exact ⟨fun _ => h, fun _ => Nat.succ_pos _⟩
  · rename_i h
    exact ⟨fun h0 => absurd h0 (lt_irrefl 0), fun h' => absurd h' h⟩

/-- The next `n` bytes from a packet pointer on. -/
def bytesAt (packet : List UInt8) (n : ℕ) : List UInt8 :=
  (List.range n).map fun i => packet.getD i 0

@[simp] lemma bytesAt_length (packet : List UInt8) (n : ℕ) : (bytesAt packet n).length = n := by
  simp [bytesAt]

lemma bytesAt_succ (packet : List UInt8) (n : ℕ) :
    bytesAt packet (n + 1) = (readU8 packet).1 :: bytesAt (readU8 packet).2 n := by
  rw [readU8_eq, bytesAt, List.range_succ_eq_map, List.map_cons, List.map_map]
  congr 1
  refine List.map_congr_left fun i _ => ?_
  cases packet <;> simp

/-- The bytes are those of the packet as far as it reaches. -/
lemma bytesAt_eq_take {packet : List UInt8} {n : ℕ} (h : n ≤ packet.length) :
    bytesAt packet n = packet.take n := by
  refine List.ext_getElem? fun i => ?_
  by_cases hi : i < n
  · have hlt : i < packet.length := by omega
    simp [bytesAt, hi, hlt]
  · rw [List.getElem?_eq_none (by simp; omega), List.getElem?_eq_none (by simp; omega)]

lemma bytesAt_take {packet : List UInt8} {m n : ℕ} (h : m ≤ n) :
    (bytesAt packet n).take m = bytesAt packet m := by
  rw [bytesAt, ← List.map_take, List.take_range, Nat.min_eq_left h, bytesAt]

/-- Bytes before `rx_readable` are skipped, and the packet pointer stays where it is. -/
lemma rxLoop_skip (seq : UInt32) (d n : ℕ) (j : UInt32) (packet : List UInt8)
    (conn : Connection) (h : ∀ k < d, seq + (j + k.toUInt32) < conn.rxReadable) :
    rxLoop seq (d + n) j packet conn = rxLoop seq n (j + d.toUInt32) packet conn := by
  induction d generalizing j with
  | zero => simp
  | succ d ih =>
      have h0 := h 0 (Nat.succ_pos d)
      rw [show (0 : ℕ).toUInt32 = 0 from rfl, UInt32.add_zero] at h0
      rw [show d + 1 + n = (d + n) + 1 by omega, rxLoop, if_pos h0, ih]
      · rw [toUInt32_succ, UInt32.add_assoc, UInt32.add_comm 1]
      · intro k hk
        have hk1 := h (k + 1) (by omega)
        rwa [show j + 1 + k.toUInt32 = j + (k + 1).toUInt32 by rw [toUInt32_succ]; grind]

/-- A byte after `rx_readable` ends the loop. -/
lemma rxLoop_beyond (seq : UInt32) (n : ℕ) (j : UInt32) (packet : List UInt8)
    (conn : Connection) (h : conn.rxReadable < seq + j) :
    rxLoop seq n j packet conn = conn := by
  cases n with
  | zero => rfl
  | succ n => rw [rxLoop, if_neg (UInt32.not_lt.mpr (UInt32.le_of_lt h)), if_pos h]

/-- From the byte that is next on, the loop stores what the ring has room for. -/
theorem rxLoop_next (seq : UInt32) (n : ℕ) (j : UInt32) (packet : List UInt8)
    (conn : Connection) (h : seq + j = conn.rxReadable) :
    rxLoop seq n j packet conn
      = rxStore (bytesAt packet (rxRoom conn.rxRead conn.rxReadable n)) conn := by
  induction n generalizing j packet conn with
  | zero => rfl
  | succ n ih =>
      have hlt : ¬ conn.rxReadable < conn.rxReadable := UInt32.lt_irrefl _
      rw [rxLoop, h, if_neg hlt, if_neg hlt, rxRoom]
      split
      · rw [bytesAt_succ, rxStore]
        exact ih _ _ _ (by rw [← h]; grind)
      · rfl

/-- **What the data loop does**: it stores the bytes from the next one on, when the segment begins
at or before it and reaches it, all as unsigned numbers. -/
theorem rxLoop_eq (seq : UInt32) (n : ℕ) (packet : List UInt8) (conn : Connection) :
    rxLoop seq n 0 packet conn
      = if seq ≤ conn.rxReadable ∧ (conn.rxReadable - seq).toNat < n then
          rxStore (bytesAt packet (rxRoom conn.rxRead conn.rxReadable
            (n - (conn.rxReadable - seq).toNat))) conn
        else conn := by
  by_cases hle : seq ≤ conn.rxReadable
  · have hsub := UInt32.toNat_sub_of_le _ _ hle
    have hlt := conn.rxReadable.toNat_lt
    set d := (conn.rxReadable - seq).toNat with hd
    have hbefore : ∀ k < d, seq + (0 + k.toUInt32) < conn.rxReadable := by
      intro k hk
      rw [UInt32.lt_iff_toNat_lt, UInt32.zero_add, UInt32.toNat_add, toNat_toUInt32]
      omega
    have hnext : seq + (0 + d.toUInt32) = conn.rxReadable := by
      rw [UInt32.zero_add, hd, Nat.toUInt32_eq, UInt32.ofNat_toNat]
      grind
    by_cases hdn : d < n
    · rw [if_pos ⟨hle, hdn⟩, show n = d + (n - d) by omega, rxLoop_skip seq d (n - d) 0 packet
        conn hbefore, rxLoop_next _ _ _ _ _ hnext, Nat.add_sub_cancel_left]
    · rw [if_neg (fun h => hdn h.2)]
      have hskip := rxLoop_skip seq n 0 0 packet conn fun k hk => hbefore k (by omega)
      rw [Nat.add_zero] at hskip
      rw [hskip, rxLoop]
  · rw [if_neg (fun h => hle h.1)]
    exact rxLoop_beyond _ _ _ _ _ (by simpa using hle)

/-! ### Where a connection stands in its stream -/

/-- Counted from the sequence number `base`, the connection has handed out `q` bytes and
received `r`, and fewer than `BUFFER_SIZE` of them wait in the ring. -/
structure RxAt (base : UInt32) (conn : Connection) (q r : ℕ) : Prop where
  read : conn.rxRead = base + q.toUInt32
  readable : conn.rxReadable = base + r.toUInt32
  le : q ≤ r
  lt : r - q < BUFFER_SIZE

namespace RxAt

variable {base : UInt32} {conn : Connection} {q r : ℕ}

lemma congr {d : Connection} (h : RxAt base conn q r) (hside : conn.rxSide = d.rxSide) :
    RxAt base d q r :=
  ⟨(congrArg RxSide.rxRead hside).symm.trans h.read,
    (congrArg RxSide.rxReadable hside).symm.trans h.readable, h.le, h.lt⟩

lemma readable_eq (h : RxAt base conn q r) :
    conn.rxReadable = conn.rxRead + (r - q).toUInt32 := by
  have hadd : r.toUInt32 = q.toUInt32 + (r - q).toUInt32 := by
    rw [← toUInt32_add, Nat.add_sub_cancel' h.le]
  rw [h.readable, h.read, hadd, UInt32.add_assoc]

lemma pending_length (h : RxAt base conn q r) : (rxPending conn).length = r - q := by
  have hlt := h.lt
  rw [BUFFER_SIZE] at hlt
  rw [rxPending, ringSlice_length, h.readable_eq, toNat_sub_add _ (by omega)]

/-- What is stored while slots are left is received and waits behind what waited before. -/
lemma store (h : RxAt base conn q r) {bytes : List UInt8}
    (hroom : r - q + bytes.length < BUFFER_SIZE) :
    RxAt base (rxStore bytes conn) q (r + bytes.length)
      ∧ rxPending (rxStore bytes conn) = rxPending conn ++ bytes := by
  have hle := h.le
  constructor
  · refine ⟨?_, ?_, by omega, by omega⟩
    · rw [rxStore_rxRead, h.read]
    · rw [rxStore_rxReadable, toUInt32_add, ← UInt32.add_assoc, ← h.readable]
  · exact rxPending_store _ _ hroom.le h.readable_eq

end RxAt

/-! ### The reader -/

/-- **`tcp_recv`** on a valid connection: it returns the oldest pending bytes, as many as
asked for and there are, and drops the connection when it is closed and nothing is left. -/
theorem tcpRecv_spec {reply : Ip → List (Mac × Ip)} {s s' : Net} {idx : ℕ} {len : UInt32}
    {bytes : List UInt8} (hvalid : (s.connections idx).isValid = true)
    (h : tcpRecv reply s idx len = some (bytes, s')) :
    bytes = (rxPending (s.connections idx)).take len.toNat
      ∧ (s'.connections idx).rxSide =
        { (s.connections idx).rxSide with
          rxRead := (s.connections idx).rxRead + bytes.length.toUInt32
          isValid := !((s.connections idx).isClosed
            && (s.connections idx).rxRead + bytes.length.toUInt32
              == (s.connections idx).rxReadable) }
      ∧ ∀ k ≠ idx, s'.connections k = s.connections k := by
  set conn := s.connections idx with hconn
  have hready : conn.rxReadable ≠ conn.rxRead := by
    intro heq
    simp [tcpRecv, ← hconn, hvalid, heq] at h
  set readTo : UInt32 := if conn.rxReadable - conn.rxRead < len then
    conn.rxReadable - conn.rxRead else len with hreadTo
  have hmin : readTo.toNat = min len.toNat (conn.rxReadable - conn.rxRead).toNat := by
    rw [hreadTo]
    split
    · rename_i hlt
      have := UInt32.lt_iff_toNat_lt.mp hlt
      omega
    · rename_i hlt
      have := UInt32.le_iff_toNat_le.mp (UInt32.not_lt.mp hlt)
      omega
  have htake : (rxTake conn readTo.toNat).1 = (rxPending conn).take len.toNat := by
    rw [rxTake, rxPending, ringSlice, ← List.map_take, List.take_range, ← hmin]
    exact List.map_congr_left fun i _ => by rw [slot_add]
  have hlen : ((rxTake conn readTo.toNat).1).length = readTo.toNat := by simp [rxTake]
  simp only [tcpRecv, ← hconn, hvalid, Bool.not_true, Bool.false_eq_true, if_false,
    if_neg hready, ← hreadTo] at h
  obtain ⟨rfl, rfl⟩ := Prod.mk.inj (Option.some.inj h)
  refine ⟨htake, ?_, fun k hk => ?_⟩
  · rw [tcpRecvClose_rxSide, setConnection_self, hlen]
    simp [Connection.rxSide, rxTake, hvalid]
  · rw [tcpRecvClose_of_ne _ _ hk, setConnection_of_ne _ _ hk]

/-- Taking bytes out moves them from the ring to the reader and loses none. -/
lemma rxPending_recv {reply : Ip → List (Mac × Ip)} {s s' : Net} {idx : ℕ} {len : UInt32}
    {bytes : List UInt8} (hvalid : (s.connections idx).isValid = true)
    (h : tcpRecv reply s idx len = some (bytes, s')) :
    bytes ++ rxPending (s'.connections idx) = rxPending (s.connections idx) := by
  obtain ⟨hbytes, hside, -⟩ := tcpRecv_spec hvalid h
  have hQ := congrArg RxSide.rxRead hside
  have hR := congrArg RxSide.rxReadable hside
  have hB := congrArg RxSide.rxBuffer hside
  simp only [Connection.rxSide] at hQ hR hB
  set conn := s.connections idx
  have hle : bytes.length ≤ (conn.rxReadable - conn.rxRead).toNat := by
    rw [hbytes, List.length_take, rxPending, ringSlice_length]
    exact Nat.min_le_right _ _
  have hlt := (conn.rxReadable - conn.rxRead).toNat_lt
  have hrest : (conn.rxReadable - (conn.rxRead + bytes.length.toUInt32)).toNat
      = (conn.rxReadable - conn.rxRead).toNat - bytes.length := by
    have hsub : bytes.length.toUInt32 ≤ conn.rxReadable - conn.rxRead := by
      rw [UInt32.le_iff_toNat_le, toNat_toUInt32, Nat.mod_eq_of_lt (by omega)]
      exact hle
    rw [show conn.rxReadable - (conn.rxRead + bytes.length.toUInt32)
        = conn.rxReadable - conn.rxRead - bytes.length.toUInt32 by grind,
      UInt32.toNat_sub_of_le _ _ hsub, toNat_toUInt32, Nat.mod_eq_of_lt (by omega)]
  have hsplit : rxPending conn = ringSlice BUFFER_SIZE conn.rxBuffer (conn.rxRead.toNat + 1)
      (bytes.length + ((conn.rxReadable - conn.rxRead).toNat - bytes.length)) := by
    rw [rxPending, Nat.add_sub_cancel' hle]
  have hfirst : bytes = ringSlice BUFFER_SIZE conn.rxBuffer (conn.rxRead.toNat + 1)
      bytes.length := by
    have htake := congrArg (List.take bytes.length) hsplit
    rw [ringSlice_add, List.take_left' (ringSlice_length _ _ _ _)] at htake
    rw [← htake]
    conv_lhs => rw [hbytes]
    rw [hbytes, List.length_take, List.take_eq_take_iff]
    omega
  rw [hsplit, ringSlice_add, ← hfirst, rxPending, hQ, hR, hB, hrest]
  congr 1
  refine ringSlice_congr _ _ ?_
  rw [Nat.ModEq, UInt32.toNat_add, toNat_toUInt32, BUFFER_SIZE]
  omega

/-- The counters come closer by what is returned. -/
lemma tcpRecv_length {reply : Ip → List (Mac × Ip)} {s s' : Net} {idx : ℕ} {len : UInt32}
    {bytes : List UInt8} (hvalid : (s.connections idx).isValid = true)
    (h : tcpRecv reply s idx len = some (bytes, s')) :
    bytes.length + ((s'.connections idx).rxReadable - (s'.connections idx).rxRead).toNat
      = ((s.connections idx).rxReadable - (s.connections idx).rxRead).toNat := by
  have hlen := congrArg List.length (rxPending_recv hvalid h)
  rwa [List.length_append, rxPending, rxPending, ringSlice_length, ringSlice_length] at hlen

end CustomLinuxOs
