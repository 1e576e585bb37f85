import CustomLinuxOs.Foundations.RestartScan
import CustomLinuxOs.Networking.SendallClose
import CustomLinuxOs.Networking.TcpEndOfStream

/-!
`http.c`: `match`, which reads from a connection until it has met a pattern, and `http_get`, which
sends a request and reads to the end of the header.

The loop of `matchi` takes one byte after another from `tcp_recv` and does not look at what that
returns, so that at the end of the stream it sees its last byte again and again.

* `Reader`, `matchPass`, `matchStep`: the loop, with all that may happen between its passes.
* `httpPass`, `httpStep`, `HttpState.start`: `http_get` from the return of `tcp_connect` on;
  `callStep` is what the two calls have in common.
* `Offers`: how much of a stream has become available on a connection.  `Sent.offers` and
  `Sent.offers_fin` say that segments in order and a FIN do it.
* `Serves`: a run in which all of the stream becomes available, at any times.
* `MatchAt`, `matchPass_cases`, `matchAt_outside`: where the loop is, and what the events do.
* `matched_iff`, `matchMeets_iff`: when `match` returns, with what, and when that is right.
-/

namespace CustomLinuxOs

/-! ### The code -/

/-- The network state, `buf[0]` of `matchi`, and the bytes it has taken. -/
structure Reader where
  net : Net
  buf : UInt8
  taken : List UInt8

/-- Where a call of `match` is: at the condition of its loop, or back at its caller. -/
inductive MatchPhase where
  | loop (i : ℕ)
  | done
  deriving DecidableEq

structure MatchState extends Reader where
  phase : MatchPhase

/-- `match` is called, with `b` in its buffer. -/
def MatchState.start (s : Net) (b : UInt8) : MatchState where
  net := s
  buf := b
  taken := []
  phase := .loop 0

/-- `"\r\n\r\n"`. -/
def crlfcrlf : List UInt8 := [0x0d, 0x0a, 0x0d, 0x0a]

/-- What `http_get` sends: `"GET "`, the path and `" HTTP/1.0\r\nConnection: close\r\n\r\n"`. -/
def httpRequest (path : List UInt8) : List (List UInt8) :=
  [[0x47, 0x45, 0x54, 0x20], path,
    [0x20, 0x48, 0x54, 0x54, 0x50, 0x2f, 0x31, 0x2e, 0x30, 0x0d, 0x0a, 0x43, 0x6f, 0x6e, 0x6e,
      0x65, 0x63, 0x74, 0x69, 0x6f, 0x6e, 0x3a, 0x20, 0x63, 0x6c, 0x6f, 0x73, 0x65, 0x0d, 0x0a,
      0x0d, 0x0a]]

/-- Where a call of `http_get` is: in `send_str` for the first of the strings left, in `match`, or
back at its caller. -/
inductive HttpPhase where
  | sending (left : List (List UInt8)) (p : SendallPhase)
  | matching (p : MatchPhase)
  | done (value : ℤ)
  deriving DecidableEq

structure HttpState extends Reader where
  sent : UInt32
  phase : HttpPhase

/-- `http_get` after its `tcp_connect`, whose value is `none` for -1. -/
def HttpState.start (connected : Option ℕ) (path : List UInt8) (s : Net) (b : UInt8) :
    HttpState where
  net := s
  buf := b
  taken := []
  sent := 0
  phase := if connected.isNone then .done (-1) else .sending (httpRequest path) .enter

section Calls

variable (reply : Ip → List (Mac × Ip)) (idx : ℕ)

/-- The loop of `matchi` goes on: nothing happens while `tcp_recv` waits, and `buf` is as before
when it returns nothing. -/
def matchPass (str : List UInt8) (t : MatchState) : MatchState :=
  match t.phase with
  | .loop i =>
      if i < str.length then
        match tcpRecv reply t.net idx 1 with
        | none => t
        | some r =>
            let buf := r.1.headD t.buf
            { net := r.2, buf := buf, taken := t.taken ++ r.1
              phase := .loop (if str[i]? = some buf then i + 1 else 0) }
      else { t with phase := .done }
  | .done => t

/-- `http_get` goes on. -/
def httpPass (t : HttpState) : HttpState :=
  match t.phase with
  | .sending [] _ => { t with phase := .matching (.loop 0) }
  | .sending (_ :: left) (.done v) =>
      -- `if (send_str(..)) return -1`
      if v = 0 then { t with phase := .sending left .enter } else { t with phase := .done (-1) }
  | .sending (str :: left) p =>
      let c := sendallPass reply idx str str.length.toUInt32 ⟨t.net, t.sent, p⟩
      { t with net := c.net, sent := c.sent, phase := .sending (str :: left) c.phase }
  | .matching .done => { t with phase := .done idx }
  | .matching p =>
      let m := matchPass reply idx crlfcrlf ⟨t.toReader, p⟩
      { t with toReader := m.toReader, phase := .matching m.phase }
  | .done _ => t

/-- What comes in between, as for `tcp_sendall`. -/
def outsideStep (s : Net) : SendallEvent → Option Net
  | .pass => some s
  | .net e => some (netStep reply s e)
  | .recv i n => (tcpRecv reply s i n).map Prod.snd
  | .send waited i bytes n => (tcpSendFrom reply i waited s bytes n).map Prod.snd

/-- One event of a call that goes on by `pass`. -/
def callStep {σ : Type*} (net : σ → Net) (withNet : σ → Net → σ) (pass : σ → σ) (t : σ) :
    SendallEvent → Option σ
  | .pass => some (pass t)
  | e => (outsideStep reply (net t) e).map (withNet t)

/-- One event of a call of `match`. -/
def matchStep (str : List UInt8) : MatchState → SendallEvent → Option MatchState :=
  callStep reply (fun t => t.net) (fun t s => { t with net := s }) (matchPass reply idx str)

/-- One event of a call of `http_get`. -/
def httpStep : HttpState → SendallEvent → Option HttpState :=
  callStep reply (fun t => t.net) (fun t s => { t with net := s }) (httpPass reply idx)

end Calls

/-- Between the passes only the network state changes. -/
lemma callStep_of_ne {reply : Ip → List (Mac × Ip)} {σ : Type*} {net : σ → Net}
    {withNet : σ → Net → σ} {pass : σ → σ} {t : σ} {e : SendallEvent} (he : e ≠ .pass) :
    callStep reply net withNet pass t e = (outsideStep reply (net t) e).map (withNet t) := by
  cases e with
  | pass => exact absurd rfl he
  | net e => rfl
  | recv i n => rfl
  | send waited i bytes n => rfl

/-- A run of `match` that does not starve it. -/
abbrev MatchRun (reply : Ip → List (Mac × Ip)) (idx : ℕ) (str : List UInt8) (s : Net)
    (b : UInt8) :=
  FairRun (matchStep reply idx str) (· = .pass) (MatchState.start s b)

/-- A run of `http_get` that does not starve it, on connection `idx`. -/
abbrev HttpRun (reply : Ip → List (Mac × Ip)) (idx : ℕ) (path : List UInt8) (s : Net)
    (b : UInt8) :=
  FairRun (httpStep reply idx) (· = .pass) (HttpState.start (some idx) path s b)

/-! ### What is available -/

/-- The stream `S` becomes available on connection `idx`: what is taken and what waits begin `S`,
and when the connection is closed they are all of it, with the byte `x` behind it if the FIN adds
one. -/
structure Offers (idx : ℕ) (S : List UInt8) (x : Option UInt8) (t : Reader) : Prop where
  started : (t.net.connections idx).isValid = true → (t.net.connections idx).isClosed = false →
    t.taken ++ rxPending (t.net.connections idx) <+: S
  ended : (t.net.connections idx).isValid = true → (t.net.connections idx).isClosed = true →
    rxPending (t.net.connections idx) ≠ []
      ∧ t.taken ++ rxPending (t.net.connections idx) = S ++ x.toList
  gone : (t.net.connections idx).isValid = false → t.taken = S ++ x.toList

/-- A run whose connection offers `S`: so it is at the start, whatever comes in between keeps it so,
and at some place the connection is closed, or the call is over. -/
structure Serves {σ : Type*} {step : σ → SendallEvent → Option σ} {s : σ} (reader : σ → Reader)
    (finished : σ → Prop) (idx : ℕ) (S : List UInt8) (x : Option UInt8)
    (r : FairRun step (· = .pass) s) : Prop where
  start : Offers idx S x (reader (r.state 0))
  outside : ∀ n, r.event n ≠ .pass → Offers idx S x (reader (r.state n)) →
    Offers idx S x (reader (r.state (n + 1)))
  ends : ∃ n, ((reader (r.state n)).net.connections idx).isClosed = true ∨ finished (r.state n)

section Available

variable {reply : Ip → List (Mac × Ip)} {idx : ℕ} {S : List UInt8} {x : Option UInt8}
  {ports : UInt16 × UInt16} {s0 : UInt32} {a : ℕ} {packet : List UInt8} {len : UInt32} {t : Reader}

/-- **Segments in order** make a stream available, as long as none of them is dropped. -/
lemma Sent.offers (h : Sent idx ports s0 S a (t.net, t.taken))
    (hall : a ≤ (delivered idx (t.net, t.taken)).length + 1) : Offers idx S x t where
  started _ _ := by
    have htake := h.take hall
    rw [delivered] at htake
    rw [htake]
    exact List.take_prefix _ _
  ended _ hclosed := absurd (h.notClosed.symm.trans hclosed) Bool.false_ne_true
  gone hgone := absurd (hgone.symm.trans h.valid) Bool.false_ne_true

/-- **A FIN on its own** ends it, and adds the byte that lies where it takes its place. -/
lemma Sent.offers_fin (h : Sent idx ports s0 S S.length (t.net, t.taken))
    (hall : (delivered idx (t.net, t.taken)).length = S.length)
    (hseg : Carries (t.net.connections idx) s0 S S.length S.length true packet len) :
    Offers idx S (some (staleByte (t.net.connections idx)))
      { t with net := netStep reply t.net (.segment packet len) } := by
  have hstep : rxStep reply idx (t.net, t.taken) (.segment packet len)
      = some (tcpParsePacket reply t.net packet len, t.taken) := rfl
  obtain ⟨hvalid, hclosed, m, hm, -, -, hdelivered⟩ := h.fin hseg hstep
  have hroom : (rxPending (t.net.connections idx)).length < BUFFER_SIZE := by
    rw [h.rxAt.pending_length]
    exact h.rxAt.lt
  have hzero : m = 0 := by omega
  have hS : delivered idx (t.net, t.taken) = S := by
    rw [h.take (by omega), hall, List.take_length]
  have hend := hdelivered (by rw [hzero]; exact hroom)
  rw [hzero, List.take_zero, List.append_nil, hS] at hend
  refine ⟨fun _ hopen => absurd (hopen.symm.trans hclosed) Bool.false_ne_true,
    fun _ _ => ⟨fun hnil => ?_, hend⟩, fun hgone => absurd (hgone.symm.trans hvalid)
      Bool.false_ne_true⟩
  -- the FIN is one more byte to read
  have hlonger := congrArg List.length hend
  have htaken := congrArg List.length hS
  change rxPending ((tcpParsePacket reply t.net packet len).connections idx) = [] at hnil
  simp only [delivered, hnil, List.length_append, List.length_nil,
    List.length_singleton] at hlonger htaken
  omega

/-- No event from outside opens a closed connection. -/
lemma outsideStep_isClosed {s s' : Net} {e : SendallEvent} (h : outsideStep reply s e = some s')
    (hclosed : (s.connections idx).isClosed = true) : (s'.connections idx).isClosed = true := by
  cases e with
  | pass =>
      obtain rfl := Option.some.inj h
      exact hclosed
  | net e =>
      obtain rfl := Option.some.inj h
      exact netStep_isClosed reply e hclosed
  | recv i n =>
      obtain ⟨⟨bytes, s''⟩, hr, rfl⟩ := Option.map_eq_some_iff.mp h
      exact tcpRecv_isClosed hr hclosed
  | send waited i bytes n =>
      obtain ⟨⟨m, s''⟩, hr, rfl⟩ := Option.map_eq_some_iff.mp h
      exact accepts_isClosed (tcpSendFrom_spec hr).1 hclosed

/-- Nothing waits when the counters meet. -/
lemma rxPending_eq_nil_iff (conn : Connection) :
    rxPending conn = [] ↔ conn.rxReadable = conn.rxRead := by
  rw [← List.length_eq_zero_iff, rxPending, ringSlice_length, ← UInt32.toNat_zero,
    UInt32.toNat_inj, UInt32.sub_eq_iff_eq_add, UInt32.zero_add]

/-- `tcp_recv` waits on a valid connection on which nothing waits. -/
lemma tcpRecv_eq_none_iff {s : Net} :
    tcpRecv reply s idx len = none
      ↔ (s.connections idx).isValid = true ∧ rxPending (s.connections idx) = [] := by
  rw [rxPending_eq_nil_iff, tcpRecv]
  cases hvalid : (s.connections idx).isValid with
  | false => simp
  | true =>
      by_cases hready : (s.connections idx).rxReadable = (s.connections idx).rxRead
      · simp [hready]
      · simp [hready]

/-- **`tcp_recv` for one byte** that returns: the next byte of the stream, or after all of it
nothing. -/
lemma Offers.recv {bytes : List UInt8} {s' : Net} (h : Offers idx S x t)
    (hr : tcpRecv reply t.net idx 1 = some (bytes, s')) (c : UInt8) :
    Offers idx S x { net := s', buf := c, taken := t.taken ++ bytes }
      ∧ ((∃ b, bytes = [b] ∧ t.taken ++ [b] <+: S ++ x.toList)
        ∨ bytes = [] ∧ t.taken = S ++ x.toList) := by
  cases hvalid : (t.net.connections idx).isValid with
  | false =>
      simp only [tcpRecv, hvalid, Bool.not_false, if_true, Option.some.injEq,
        Prod.mk.injEq] at hr
      obtain ⟨rfl, rfl⟩ := hr
      rw [List.append_nil]
      exact ⟨⟨h.started, h.ended, h.gone⟩, .inr ⟨rfl, h.gone hvalid⟩⟩
  | true =>
      have hsome : rxPending (t.net.connections idx) ≠ [] := by
        intro hnil
        rw [tcpRecv_eq_none_iff.mpr ⟨hvalid, hnil⟩] at hr
        cases hr
      obtain ⟨hbytes, hside, -⟩ := tcpRecv_spec hvalid hr
      have hpending := rxPending_recv hvalid hr
      have hclosed : (s'.connections idx).isClosed = (t.net.connections idx).isClosed :=
        congrArg RxSide.isClosed hside
      -- the connection is given up when it is closed and nothing is left
      have hgiven : (s'.connections idx).isValid = false
          ↔ (t.net.connections idx).isClosed = true ∧ rxPending (s'.connections idx) = [] := by
        have hv := congrArg RxSide.isValid hside
        have hq := congrArg RxSide.rxRead hside
        have hread := congrArg RxSide.rxReadable hside
        simp only [Connection.rxSide] at hv hq hread
        rw [rxPending_eq_nil_iff, hv, hq, hread, Bool.not_eq_false', Bool.and_eq_true, beq_iff_eq]
        exact and_congr_right fun _ => eq_comm
      obtain ⟨b, rest, hsplit⟩ := List.exists_cons_of_ne_nil hsome
      obtain rfl : bytes = [b] := by rw [hbytes, hsplit]; rfl
      have hwhole : t.taken ++ [b] ++ rxPending (s'.connections idx)
          = t.taken ++ rxPending (t.net.connections idx) := by
        rw [List.append_assoc, hpending]
      have hnext : t.taken ++ [b] <+: S ++ x.toList := by
        refine (List.prefix_append _ (rxPending (s'.connections idx))).trans ?_
        rw [hwhole]
        cases hc : (t.net.connections idx).isClosed with
        | false => exact (h.started hvalid hc).trans (List.prefix_append _ _)
        | true => rw [(h.ended hvalid hc).2]
      refine ⟨⟨fun _ hopen => ?_, fun hv hc => ?_, fun hgone => ?_⟩, .inl ⟨b, rfl, hnext⟩⟩
      · rw [hwhole]
        exact h.started hvalid (hclosed.symm.trans hopen)
      · rw [hwhole]
        refine ⟨fun hnil => ?_, (h.ended hvalid (hclosed.symm.trans hc)).2⟩
        exact absurd (hv.symm.trans (hgiven.mpr ⟨hclosed.symm.trans hc, hnil⟩)) (by decide)
      · obtain ⟨hc, hnil⟩ := hgiven.mp hgone
        rw [hnil, List.append_nil] at hwhole
        exact hwhole.trans (h.ended hvalid hc).2

end Available

/-! ### The loop -/

/-- Where `match` is: it has read `k` bytes, of the stream and then of what stays in the buffer, and
has matched what a scan of them has. -/
structure MatchAt (idx : ℕ) (str S : List UInt8) (x : Option UInt8) (b : UInt8) (k : ℕ)
    (t : MatchState) : Prop where
  offers : Offers idx S x t.toReader
  taken : t.taken = (S ++ x.toList).take k
  buf : t.buf = (heard (S ++ x.toList) b k).getLastD b
  unstopped : Unstopped str (heard (S ++ x.toList) b k)
  phase : t.phase = .loop (scanned str (heard (S ++ x.toList) b k))
    ∨ t.phase = .done ∧ scanned str (heard (S ++ x.toList) b k) = str.length

section Loop

variable {reply : Ip → List (Mac × Ip)} {idx : ℕ} {str S : List UInt8} {x : Option UInt8}
  {b : UInt8} {k : ℕ} {t u : MatchState}

/-- What the next byte is, and that it is in the buffer. -/
lemma MatchAt.next {bytes : List UInt8} (h : MatchAt idx str S x b k t)
    (hbytes : (∃ c, bytes = [c] ∧ t.taken ++ [c] <+: S ++ x.toList)
      ∨ bytes = [] ∧ t.taken = S ++ x.toList) :
    heard (S ++ x.toList) b (k + 1) = heard (S ++ x.toList) b k ++ [bytes.headD t.buf]
      ∧ t.taken ++ bytes = (S ++ x.toList).take (k + 1) := by
  have htaken := h.taken
  have hbuf := h.buf
  set W := S ++ x.toList
  rcases hbytes with ⟨c, rfl, hprefix⟩ | ⟨rfl, hall⟩
  · have hk : k < W.length := by
      have hle := hprefix.length_le
      rw [htaken, List.length_append, List.length_take, List.length_singleton] at hle
      omega
    have hc : t.taken ++ [c] = W.take (k + 1) := by
      rw [List.prefix_iff_eq_take.mp hprefix, htaken, List.length_append, List.length_take,
        List.length_singleton, Nat.min_eq_left hk.le]
    refine ⟨?_, hc⟩
    rw [heard_of_le b hk, heard_of_le b hk.le, ← htaken, ← hc]
    rfl
  · have hk : W.length ≤ k := by
      have hlen := congrArg List.length hall
      rw [htaken, List.length_take] at hlen
      omega
    rw [List.append_nil, hall, List.take_of_length_le (by omega)]
    refine ⟨?_, rfl⟩
    rw [heard_succ_of_le b hk, ← heard_getLastD_of_le b hk, ← hbuf]
    rfl

/-- **A pass of the loop** waits or is over, ends, or reads one more byte. -/
lemma matchPass_cases (reply : Ip → List (Mac × Ip)) (h : MatchAt idx str S x b k t) :
    (matchPass reply idx str t = t ∧ (t.phase = .done ∨ tcpRecv reply t.net idx 1 = none))
      ∨ (MatchAt idx str S x b k (matchPass reply idx str t)
        ∧ (matchPass reply idx str t).phase = .done)
      ∨ (MatchAt idx str S x b (k + 1) (matchPass reply idx str t)
        ∧ scanned str (heard (S ++ x.toList) b k) ≠ str.length) := by
  rcases h.phase with hloop | ⟨hdone, hend⟩
  · rw [matchPass, hloop]
    simp only
    have hle := (scanned_spec h.unstopped).1
    split
    · rename_i hlt
      cases hr : tcpRecv reply t.net idx 1 with
      | none => exact .inl ⟨rfl, .inr rfl⟩
      | some r =>
          obtain ⟨bytes, s'⟩ := r
          obtain ⟨hoffers, hbytes⟩ := h.offers.recv hr (bytes.headD t.buf)
          obtain ⟨hheard, htaken⟩ := h.next hbytes
          refine .inr (.inr ⟨⟨hoffers, htaken, ?_, ?_, .inl ?_⟩, hlt.ne⟩)
          · rw [hheard]
            simp
          · rw [hheard]
            exact unstopped_snoc_iff.mpr ⟨h.unstopped, hlt.ne⟩
          · rw [hheard, scanned_snoc]
            rfl
    · rename_i hge
      exact .inr (.inl ⟨⟨h.offers, h.taken, h.buf, h.unstopped, .inr ⟨rfl, by omega⟩⟩, rfl⟩)
  · exact .inl ⟨by rw [matchPass, hdone], .inl hdone⟩

/-- What comes in between leaves the call where it is. -/
lemma matchStep_call {e : SendallEvent} (hu : matchStep reply idx str t e = some u)
    (he : e ≠ .pass) :
    outsideStep reply t.net e = some u.net ∧ u = { t with net := u.net } := by
  rw [matchStep, callStep_of_ne he] at hu
  obtain ⟨s, hs, rfl⟩ := Option.map_eq_some_iff.mp hu
  exact ⟨hs, rfl⟩

/-- A pass of the loop opens no closed connection. -/
lemma matchPass_isClosed (h : (t.net.connections idx).isClosed = true) :
    ((matchPass reply idx str t).net.connections idx).isClosed = true := by
  rw [matchPass]
  split
  · split
    · cases hr : tcpRecv reply t.net idx 1 with
      | none => exact h
      | some r =>
          obtain ⟨bytes, s'⟩ := r
          exact tcpRecv_isClosed hr h
    · exact h
  · exact h

lemma matchStep_isClosed {e : SendallEvent} (hu : matchStep reply idx str t e = some u)
    (h : (t.net.connections idx).isClosed = true) : (u.net.connections idx).isClosed = true := by
  by_cases he : e = .pass
  · subst he
    obtain rfl := Option.some.inj hu
    exact matchPass_isClosed h
  · exact outsideStep_isClosed (matchStep_call hu he).1 h

end Loop

/-! ### Runs of `match` -/

section Runs

variable {reply : Ip → List (Mac × Ip)} {idx : ℕ} {str S : List UInt8} {x : Option UInt8}
  {s : Net} {b : UInt8} {k n : ℕ} (r : MatchRun reply idx str s b)

/-- `match` has returned. -/
def Matched (t : MatchState) : Prop := t.phase = .done

/-- **`match` is right** on the stream `S`: it returns, and if the pattern is in `S` it has taken
the bytes up to the end of its first place. -/
def MatchMeets (S : List UInt8) : Prop :=
  ∃ n, Matched (r.state n)
    ∧ ∀ q, FirstAt str S q → (r.state n).taken = S.take (q + str.length)

/-- When it is: the first place of the pattern stands behind failed attempts; or the pattern is not
in `S`, but behind failed attempts in what the loop reads when its last byte stays. -/
def MatchFits (str S : List UInt8) (x : Option UInt8) (b : UInt8) : Prop :=
  (∃ q, FirstAt str S q ∧ Misses str (S.take q))
    ∨ (∀ q, ¬ str <+: S.drop q)
      ∧ ∃ v, Misses str v ∧ heard (S ++ x.toList) b (v.length + str.length) = v ++ str

lemma pass_of_turn (h : r.event n = .pass) :
    r.state (n + 1) = matchPass reply idx str (r.state n) := by
  have hnext := r.next n
  rw [h] at hnext
  exact (Option.some.inj hnext).symm

variable (h : Serves MatchState.toReader Matched idx S x r)
include h

/-- Between the passes the call stays where it is. -/
lemma matchAt_outside (he : r.event n ≠ .pass) (hI : MatchAt idx str S x b k (r.state n)) :
    MatchAt idx str S x b k (r.state (n + 1)) := by
  have hoffers := h.outside n he hI.offers
  obtain ⟨-, hsame⟩ := matchStep_call (r.next n) he
  rw [hsame] at hoffers ⊢
  exact ⟨hoffers, hI.taken, hI.buf, hI.unstopped, hI.phase⟩

/-- **Where the loop is**, all along. -/
lemma exists_matchAt (n : ℕ) : ∃ k, MatchAt idx str S x b k (r.state n) := by
  refine r.keeps (P := fun t => ∃ k, MatchAt idx str S x b k t) (n := 0) (fun m _ ⟨k, hk⟩ => ?_)
    ?_ (Nat.zero_le n)
  · by_cases he : r.event m = .pass
    · rw [pass_of_turn r he]
      rcases matchPass_cases reply hk with ⟨hsame, -⟩ | ⟨hat, -⟩ | ⟨hat, -⟩
      · exact ⟨k, by rwa [hsame]⟩
      · exact ⟨k, hat⟩
      · exact ⟨k + 1, hat⟩
    · exact ⟨k, matchAt_outside r h he hk⟩
  · refine ⟨0, h.start, ?_, ?_, ?_, .inl ?_⟩
    · rw [r.start]
      rfl
    · rw [r.start, heard_of_le b (Nat.zero_le _)]
      rfl
    · rw [heard_of_le b (Nat.zero_le _)]
      exact unstopped_nil str
    · rw [r.start, heard_of_le b (Nat.zero_le _)]
      rfl

/-- **Progress**: once the connection is closed the loop reads on. -/
lemma exists_next (hI : MatchAt idx str S x b k (r.state n))
    (hclosed : ((r.state n).net.connections idx).isClosed = true)
    (hphase : (r.state n).phase ≠ .done) :
    ∃ m, n ≤ m ∧ ((r.state m).net.connections idx).isClosed = true
      ∧ (MatchAt idx str S x b k (r.state m) ∧ (r.state m).phase = .done
        ∨ MatchAt idx str S x b (k + 1) (r.state m)
          ∧ scanned str (heard (S ++ x.toList) b k) ≠ str.length) := by
  obtain ⟨m, hm, hturn, hat, hc, hnot⟩ := r.exists_turn
    (P := fun t => MatchAt idx str S x b k t ∧ (t.net.connections idx).isClosed = true
      ∧ t.phase ≠ .done)
    (fun m _ he hP => by
      refine ⟨matchAt_outside r h he hP.1, matchStep_isClosed (r.next m) hP.2.1, ?_⟩
      rw [(matchStep_call (r.next m) he).2]
      exact hP.2.2)
    ⟨hI, hclosed, hphase⟩
  have hnext := pass_of_turn r hturn
  refine ⟨m + 1, by omega, matchStep_isClosed (r.next m) hc, ?_⟩
  rw [hnext]
  rcases matchPass_cases reply hat with ⟨-, hdone | hwait⟩ | hend | hread
  · exact absurd hdone hnot
  · -- on a closed connection there is something to read
    obtain ⟨hvalid, hnil⟩ := tcpRecv_eq_none_iff.mp hwait
    exact absurd hnil (hat.offers.ended hvalid hc).1
  · exact .inl hend
  · exact .inr hread

/-- **When `match` returns**, and what it has taken then. -/
lemma matched_iff {w : List UInt8} :
    (∃ n, Matched (r.state n) ∧ (r.state n).taken = w)
      ↔ ∃ k, StopsAfter str (heard (S ++ x.toList) b k) ∧ w = (S ++ x.toList).take k := by
  constructor
  · rintro ⟨n, hdone, rfl⟩
    obtain ⟨k, hI⟩ := exists_matchAt r h n
    rcases hI.phase with hloop | ⟨-, hend⟩
    · rw [Matched, hloop] at hdone
      cases hdone
    · exact ⟨k, ⟨hI.unstopped, hend⟩, hI.taken⟩
  · rintro ⟨k, hstop, rfl⟩
    have hreturned : ∀ {j m}, MatchAt idx str S x b j (r.state m) → (r.state m).phase = .done →
        ∃ n, Matched (r.state n) ∧ (r.state n).taken = (S ++ x.toList).take k := by
      intro j m hI hdone
      rcases hI.phase with hloop | ⟨-, hend⟩
      · rw [hdone] at hloop
        cases hloop
      · obtain rfl : j = k := StopsAfter.unique ⟨hI.unstopped, hend⟩ hstop
        exact ⟨m, hdone, hI.taken⟩
    obtain ⟨n, hn⟩ := h.ends
    obtain ⟨j, hI⟩ := exists_matchAt r h n
    rcases hn with hclosed | hdone
    · -- on the number of bytes that are left up to the stop
      have hle : j ≤ k := by
        by_contra hlt
        refine hI.unstopped k (by rw [heard_length]; omega) ?_
        rw [heard_take _ b (by omega)]
        exact hstop.2
      induction hd : k - j generalizing j n with
      | zero =>
          obtain rfl : j = k := by omega
          by_cases hphase : (r.state n).phase = .done
          · exact hreturned hI hphase
          · obtain ⟨m, -, -, ⟨hat, hdone⟩ | ⟨-, hne⟩⟩ := exists_next r h hI hclosed hphase
            · exact hreturned hat hdone
            · exact absurd hstop.2 hne
      | succ d ih =>
          by_cases hphase : (r.state n).phase = .done
          · exact hreturned hI hphase
          · obtain ⟨m, -, hc, ⟨hat, hdone⟩ | ⟨hat, -⟩⟩ := exists_next r h hI hclosed hphase
            · exact hreturned hat hdone
            · exact ih m (j + 1) hat hc (by omega) (by omega)
    · exact hreturned hI hdone

/-- **When `match` is right.** -/
theorem matchMeets_iff (hstr : str ≠ []) : MatchMeets r S ↔ MatchFits str S x b := by
  rw [MatchFits, ← finds_iff hstr (List.prefix_append S x.toList) b]
  constructor
  · rintro ⟨n, hdone, hfirst⟩
    obtain ⟨k, hstop, htaken⟩ := (matched_iff r h).mp ⟨n, hdone, rfl⟩
    exact ⟨k, hstop, fun q hq => htaken.symm.trans (hfirst q hq)⟩
  · rintro ⟨k, hstop, hfirst⟩
    obtain ⟨n, hdone, htaken⟩ := (matched_iff r h).mpr ⟨k, hstop, rfl⟩
    exact ⟨n, hdone, fun q hq => htaken.trans (hfirst q hq)⟩

end Runs

end CustomLinuxOs
