import Mathlib.Data.List.DropRight
import CustomLinuxOs.Networking.Http

/-!
The end of the header, as `http_get` finds it.

* `crRun`, `misses_iff_even`: a carriage return before `"\r\n\r\n"` takes the first byte of it for a
  failed attempt, two of them do not.
* `InMatch`, `toMatch`, `HttpRun.matchRun`: `http_get` in `match` is a run of `match`.
* `httpMeets_iff`: when `http_get` returns at the first byte of the body, and fails where the
  stream has none.
* `match_header_iff`: both together.
-/

namespace CustomLinuxOs

/-! ### Carriage returns -/

/-- How many carriage returns a word ends with. -/
def crRun (w : List UInt8) : ℕ := (w.rtakeWhile fun c => c == 0x0d).length

lemma crRun_snoc (w : List UInt8) (c : UInt8) :
    crRun (w ++ [c]) = if c = 0x0d then crRun w + 1 else 0 := by
  rw [crRun, crRun, List.rtakeWhile_concat]
  by_cases hc : c = 0x0d
  · simp [hc]
  · simp [hc]

/-- Of the front parts of `"\r\n\r\n"`, those of odd length end with a carriage return that has none
before it. -/
lemma restartStep_parity {i : ℕ} (hi : i < 4) (c : UInt8) :
    (c = 0x0d → restartStep crlfcrlf i c % 2 = (i + 1) % 2)
      ∧ (c ≠ 0x0d → restartStep crlfcrlf i c % 2 = 0) := by
  rw [restartStep, crlfcrlf]
  interval_cases i
  · exact ⟨fun hc => by simp [hc], fun hc => by simp [Ne.symm hc]⟩
  · refine ⟨fun hc => by simp [hc], fun hc => ?_⟩
    split <;> rfl
  · exact ⟨fun hc => by simp [hc], fun hc => by simp [Ne.symm hc]⟩
  · refine ⟨fun hc => by simp [hc], fun hc => ?_⟩
    split <;> rfl

/-- **What the scan has matched** is odd when an odd number of carriage returns came last. -/
lemma scanned_parity {w : List UInt8} (h : Unstopped crlfcrlf w) :
    scanned crlfcrlf w % 2 = crRun w % 2 := by
  induction w using List.reverseRecOn with
  | nil => rfl
  | append_singleton w c ih =>
      obtain ⟨hw, hend⟩ := unstopped_snoc_iff.mp h
      have hlt : scanned crlfcrlf w < 4 := Nat.lt_of_le_of_ne (scanned_spec hw).1 hend
      obtain ⟨hcr, hother⟩ := restartStep_parity hlt c
      rw [scanned_snoc, crRun_snoc]
      have hparity := ih hw
      by_cases hc : c = 0x0d
      · rw [if_pos hc, hcr hc]
        omega
      · rw [if_neg hc, hother hc]

/-- **The first end of a header** is seen after an even number of carriage returns. -/
lemma misses_iff_even {S : List UInt8} {q : ℕ} (h : FirstAt crlfcrlf S q) :
    Misses crlfcrlf (S.take q) ↔ Even (crRun (S.take q)) := by
  have hparity := scanned_parity h.unstopped
  rw [Nat.even_iff, ← hparity]
  constructor
  · intro hmiss
    rw [hmiss.scanned.2]
  · intro heven
    obtain ⟨hle, v, hv, hsplit⟩ := scanned_spec h.unstopped
    set i := scanned crlfcrlf (S.take q) with hi
    rcases Nat.eq_zero_or_pos i with hzero | hpos
    · rw [hzero, List.take_zero, List.append_nil] at hsplit
      rwa [hsplit]
    · -- half or all of the pattern stands before it, and so it is there earlier
      have htwice : crlfcrlf <+: crlfcrlf.take i ++ crlfcrlf := by
        have hlen : crlfcrlf.length = 4 := rfl
        rw [hlen] at hle
        obtain hcase | hcase : i = 2 ∨ i = 4 := by omega
        · rw [hcase]
          decide
        · rw [hcase]
          decide
      have hq : q ≤ S.length := by
        have := h.le (by decide)
        omega
      have hlen := congrArg List.length hsplit
      rw [List.length_take, List.length_append, List.length_take, Nat.min_eq_left hq,
        Nat.min_eq_left hle] at hlen
      refine absurd ?_ (h.2 v.length (by omega))
      have hS : S = v ++ (crlfcrlf.take i ++ S.drop q) := by
        rw [← List.append_assoc, ← hsplit, List.take_append_drop]
      rw [hS, List.drop_left]
      exact htwice.trans ((List.prefix_append_right_inj _).mpr h.1)

/-! ### `http_get` in `match` -/

section Calls

variable {reply : Ip → List (Mac × Ip)} {idx : ℕ} {S : List UInt8} {x : Option UInt8}
  {t u : HttpState} {e : SendallEvent}

/-- The call of `match` in a call of `http_get`. -/
def toMatch (t : HttpState) : MatchState where
  toReader := t.toReader
  phase := match t.phase with
    | .matching p => p
    | _ => .done

/-- `http_get` is in `match`, or has returned after it. -/
def InMatch (idx : ℕ) (t : HttpState) : Prop :=
  (∃ p, t.phase = .matching p) ∨ t.phase = .done idx

lemma httpStep_call (hu : httpStep reply idx t e = some u) (he : e ≠ .pass) :
    outsideStep reply t.net e = some u.net ∧ u = { t with net := u.net } := by
  rw [httpStep, callStep_of_ne he] at hu
  obtain ⟨s, hs, rfl⟩ := Option.map_eq_some_iff.mp hu
  exact ⟨hs, rfl⟩

/-- From `match` on every step is one of `match`. -/
lemma toMatch_step (h : InMatch idx t) (hu : httpStep reply idx t e = some u) :
    InMatch idx u ∧ matchStep reply idx crlfcrlf (toMatch t) e = some (toMatch u) := by
  by_cases he : e = .pass
  · subst he
    obtain rfl := Option.some.inj hu
    rcases h with ⟨p, hp⟩ | hdone
    · cases p with
      | loop i =>
          have hpass : httpPass reply idx t = { t with
              toReader := (matchPass reply idx crlfcrlf ⟨t.toReader, .loop i⟩).toReader
              phase := .matching (matchPass reply idx crlfcrlf ⟨t.toReader, .loop i⟩).phase } := by
            rw [httpPass, hp]
          rw [hpass]
          refine ⟨.inl ⟨_, rfl⟩, ?_⟩
          rw [toMatch, hp]
          rfl
      | done =>
          have hpass : httpPass reply idx t = { t with phase := .done idx } := by
            rw [httpPass, hp]
          rw [hpass]
          refine ⟨.inr rfl, ?_⟩
          rw [toMatch, hp]
          rfl
    · have hpass : httpPass reply idx t = t := by rw [httpPass, hdone]
      rw [hpass]
      refine ⟨.inr hdone, ?_⟩
      rw [toMatch, hdone]
      rfl
  · obtain ⟨hs, hsame⟩ := httpStep_call hu he
    rw [hsame]
    refine ⟨h, ?_⟩
    have hcall : outsideStep reply (toMatch t).net e = some u.net := hs
    rw [matchStep, callStep_of_ne he, hcall]
    rfl

/-- A call of `tcp_sendall` leaves what is received alone. -/
lemma sendallPass_rxSide (data : List UInt8) (len : UInt32) (t : SendallState) :
    ((sendallPass reply idx data len t).net.connections idx).rxSide
      = (t.net.connections idx).rxSide := by
  rw [sendallPass]
  split
  · split <;> rfl
  · split <;> rfl
  · split <;> rfl
  · cases hsend : tcpSendRest reply t.net idx (data.drop t.sent.toNat) (len - t.sent) with
    | none => rfl
    | some r => exact (tcpSendRest_spec hsend).1.rxSide
  · rfl

lemma Offers.congr {t u : Reader} (h : Offers idx S x t)
    (hside : (u.net.connections idx).rxSide = (t.net.connections idx).rxSide)
    (htaken : u.taken = t.taken) : Offers idx S x u := by
  have hvalid : (u.net.connections idx).isValid = (t.net.connections idx).isValid :=
    congrArg RxSide.isValid hside
  have hclosed : (u.net.connections idx).isClosed = (t.net.connections idx).isClosed :=
    congrArg RxSide.isClosed hside
  constructor
  · rw [hvalid, hclosed, htaken, rxPending_congr hside]
    exact h.started
  · rw [hvalid, hclosed, htaken, rxPending_congr hside]
    exact h.ended
  · rw [hvalid, htaken]
    exact h.gone

/-- The loop of `matchi` takes what is offered. -/
lemma Offers.matchPass {str : List UInt8} {t : MatchState} (h : Offers idx S x t.toReader) :
    Offers idx S x (matchPass reply idx str t).toReader := by
  rw [CustomLinuxOs.matchPass]
  split
  · split
    · cases hr : tcpRecv reply t.net idx 1 with
      | none => exact h
      | some r =>
          obtain ⟨bytes, s'⟩ := r
          exact (h.recv hr (bytes.headD t.buf)).1
    · exact h
  · exact h

/-- A pass of `http_get` is one of `tcp_sendall`, one of `match`, or a test. -/
lemma httpPass_cases (reply : Ip → List (Mac × Ip)) (idx : ℕ) (t : HttpState) :
    ((httpPass reply idx t).toReader = t.toReader)
      ∨ (∃ data len c, c.net = t.net
        ∧ (httpPass reply idx t).toReader
          = { t.toReader with net := (sendallPass reply idx data len c).net })
      ∨ ∃ c : MatchState, c.toReader = t.toReader
        ∧ (httpPass reply idx t).toReader = (matchPass reply idx crlfcrlf c).toReader := by
  rw [httpPass]
  split
  · exact .inl rfl
  · split
    · exact .inl rfl
    · exact .inl rfl
  · exact .inr (.inl ⟨_, _, _, rfl, rfl⟩)
  · exact .inl rfl
  · exact .inr (.inr ⟨_, rfl, rfl⟩)
  · exact .inl rfl

lemma Offers.httpPass (h : Offers idx S x t.toReader) :
    Offers idx S x (httpPass reply idx t).toReader := by
  rcases httpPass_cases reply idx t with hsame | ⟨data, len, c, hc, hsend⟩
    | ⟨c, hc, hmatch⟩
  · rwa [hsame]
  · rw [hsend]
    refine h.congr ?_ rfl
    rw [← hc]
    exact sendallPass_rxSide data len c
  · rw [hmatch]
    exact Offers.matchPass (hc ▸ h)

lemma httpStep_isClosed (hu : httpStep reply idx t e = some u)
    (h : (t.net.connections idx).isClosed = true) : (u.net.connections idx).isClosed = true := by
  by_cases he : e = .pass
  · subst he
    obtain rfl := Option.some.inj hu
    rcases httpPass_cases reply idx t with hsame | ⟨data, len, c, hc, hsend⟩
      | ⟨c, hc, hmatch⟩
    · rwa [hsame]
    · rw [hsend]
      have hpass : sendallStep reply idx data len c .pass
          = some (sendallPass reply idx data len c) := rfl
      exact stays_closed hpass (hc ▸ h)
    · rw [hmatch]
      exact matchPass_isClosed (hc ▸ h)
  · exact outsideStep_isClosed (httpStep_call hu he).1 h

end Calls

/-! ### Runs of `http_get` -/

/-- `http_get` has returned. -/
def HttpReturned (t : HttpState) : Prop := ∃ v, t.phase = .done v

section Runs

variable {reply : Ip → List (Mac × Ip)} {idx : ℕ} {path : List UInt8} {s : Net} {b : UInt8}
  {S : List UInt8} {x : Option UInt8} {n : ℕ} (r : HttpRun reply idx path s b)

/-- All of the request is sent. -/
def RequestSent (t : HttpState) : Prop := t.phase = .sending [] .enter

/-- **`http_get` is right** on the stream `S`: it returns the connection at the first byte after the
header, and fails where the header has no end. -/
def HttpMeets (idx : ℕ) (r : HttpRun reply idx path s b) (S : List UInt8) : Prop :=
  (∀ q, FirstAt crlfcrlf S q → ∃ n, (r.state n).phase = .done idx
      ∧ (r.state n).taken = S.take (q + crlfcrlf.length))
    ∧ ((∀ q, ¬ crlfcrlf <+: S.drop q) → ∃ n, (r.state n).phase = .done (-1))

lemma httpPass_of_turn (h : r.event n = .pass) :
    r.state (n + 1) = httpPass reply idx (r.state n) := by
  have hnext := r.next n
  rw [h] at hnext
  exact (Option.some.inj hnext).symm

/-- Up to the next pass nothing happens to the call. -/
lemma next_httpPass {P : HttpState → Prop} (hP : ∀ t s, P t → P { t with net := s })
    (h : P (r.state n)) : ∃ m, n ≤ m ∧ r.event m = .pass ∧ P (r.state m) :=
  r.exists_turn (fun m _ he hm => by
    rw [(httpStep_call (r.next m) he).2]
    exact hP _ _ hm) h

/-- A pass that ends in `send_str` began there, and reads nothing. -/
lemma httpPass_sending {t : HttpState} {left : List (List UInt8)} {p : SendallPhase}
    (h : (httpPass reply idx t).phase = .sending left p) :
    (∃ left p, t.phase = .sending left p) ∧ (httpPass reply idx t).taken = t.taken
      ∧ (httpPass reply idx t).buf = t.buf := by
  rw [httpPass] at h ⊢
  split at h
  · cases h
  · rename_i hphase
    split at h
    · rename_i hv
      rw [if_pos hv]
      exact ⟨⟨_, _, hphase⟩, rfl, rfl⟩
    · cases h
  · rename_i hphase
    exact ⟨⟨_, _, hphase⟩, rfl, rfl⟩
  · cases h
  · cases h
  · rename_i hphase
    cases hphase.symm.trans h

/-- While the request is sent nothing is read. -/
lemma taken_of_sending {left : List (List UInt8)} {p : SendallPhase}
    (h : (r.state n).phase = .sending left p) : (r.state n).taken = [] ∧ (r.state n).buf = b := by
  refine r.keeps (P := fun t => (∃ left p, t.phase = .sending left p) → t.taken = [] ∧ t.buf = b)
    (n := 0) (fun m _ hm ⟨left, p, hnext⟩ => ?_) ?_ (Nat.zero_le n) ⟨left, p, h⟩
  · by_cases he : r.event m = .pass
    · rw [httpPass_of_turn r he] at hnext ⊢
      obtain ⟨hbefore, htaken, hbuf⟩ := httpPass_sending hnext
      rw [htaken, hbuf]
      exact hm hbefore
    · rw [(httpStep_call (r.next m) he).2] at hnext ⊢
      exact hm ⟨left, p, hnext⟩
  · rw [r.start]
    exact fun _ => ⟨rfl, rfl⟩

/-- `match` is called. -/
lemma exists_matching (hsent : ∃ n, RequestSent (r.state n)) :
    ∃ n, (r.state n).phase = .matching (.loop 0)
      ∧ toMatch (r.state n) = MatchState.start (r.state n).net b := by
  obtain ⟨k, hk⟩ := hsent
  obtain ⟨m, -, hturn, hm⟩ := next_httpPass r (P := RequestSent) (fun _ _ h => h) hk
  obtain ⟨htaken, hbuf⟩ := taken_of_sending r hm
  have hnext : r.state (m + 1) = { r.state m with phase := .matching (.loop 0) } := by
    rw [httpPass_of_turn r hturn, httpPass, show (r.state m).phase = _ from hm]
  refine ⟨m + 1, by rw [hnext], ?_⟩
  rw [hnext]
  change MatchState.mk ⟨(r.state m).net, (r.state m).buf, (r.state m).taken⟩ (.loop 0) = _
  rw [htaken, hbuf]
  rfl

/-- From the call of `match` on the run stays there. -/
lemma inMatch_from (hn : InMatch idx (r.state n)) {m : ℕ} (hm : n ≤ m) : InMatch idx (r.state m) :=
  r.keeps (P := InMatch idx) (fun k _ h => (toMatch_step h (r.next k)).1) hn hm

/-- **The run of `match`** in a run of `http_get`. -/
def HttpRun.matchRun (hn : InMatch idx (r.state n))
    (hstart : toMatch (r.state n) = MatchState.start (r.state n).net b) :
    MatchRun reply idx crlfcrlf (r.state n).net b :=
  r.project toMatch n hstart fun m hm => (toMatch_step (inMatch_from r hn hm) (r.next m)).2

/-- A call that has returned stays so. -/
lemma done_from {v : ℤ} {w : List UInt8} (h : (r.state n).phase = .done v)
    (hw : (r.state n).taken = w) {m : ℕ} (hm : n ≤ m) :
    (r.state m).phase = .done v ∧ (r.state m).taken = w := by
  refine r.keeps (P := fun t => t.phase = .done v ∧ t.taken = w) (fun k _ hk => ?_) ⟨h, hw⟩ hm
  by_cases he : r.event k = .pass
  · rw [httpPass_of_turn r he, httpPass, hk.1]
    exact hk
  · rw [(httpStep_call (r.next k) he).2]
    exact hk

section Reached

variable (hn : InMatch idx (r.state n))
  (hstart : toMatch (r.state n) = MatchState.start (r.state n).net b)

/-- What it returns after `match`, it returns with what `match` has taken. -/
lemma done_iff_matched {w : List UInt8} :
    (∃ k, (r.state k).phase = .done idx ∧ (r.state k).taken = w)
      ↔ ∃ k, Matched ((r.matchRun hn hstart).state k)
        ∧ ((r.matchRun hn hstart).state k).taken = w := by
  constructor
  · rintro ⟨k, hdone, hw⟩
    obtain ⟨hlater, htaken⟩ := done_from r hdone hw (Nat.le_add_left k n)
    refine ⟨k, ?_, htaken⟩
    change (toMatch (r.state (n + k))).phase = .done
    rw [toMatch, hlater]
  · rintro ⟨k, hdone, hw⟩
    rcases inMatch_from r hn (Nat.le_add_right n k) with ⟨p, hp⟩ | hvalue
    · obtain rfl : p = .done := by
        change (toMatch (r.state (n + k))).phase = .done at hdone
        rwa [toMatch, hp] at hdone
      obtain ⟨m, -, hturn, hm, htaken⟩ := next_httpPass r
        (P := fun t => t.phase = .matching .done ∧ t.taken = w) (fun _ _ h => h) ⟨hp, hw⟩
      refine ⟨m + 1, ?_⟩
      rw [httpPass_of_turn r hturn, httpPass, hm]
      exact ⟨rfl, htaken⟩
    · exact ⟨n + k, hvalue, hw⟩

include hn in
/-- After the call of `match` no failure is reported. -/
lemma not_failed (k : ℕ) : (r.state k).phase ≠ .done (-1) := by
  intro hfailed
  obtain ⟨hlater, -⟩ := done_from r hfailed rfl (Nat.le_add_left k n)
  rcases inMatch_from r hn (Nat.le_add_right n k) with ⟨p, hp⟩ | hvalue
  · rw [hlater] at hp
    cases hp
  · rw [hlater, HttpPhase.done.injEq] at hvalue
    omega

variable (h : Serves HttpState.toReader HttpReturned idx S x r)
include h

/-- The stream is there all along. -/
lemma offers_all (m : ℕ) : Offers idx S x (r.state m).toReader := by
  refine r.keeps (P := fun t => Offers idx S x t.toReader) (n := 0) (fun k _ hk => ?_) h.start
    (Nat.zero_le m)
  by_cases he : r.event k = .pass
  · rw [httpPass_of_turn r he]
    exact hk.httpPass
  · exact h.outside k he hk

/-- It serves `match` too. -/
lemma serves_matchRun : Serves MatchState.toReader Matched idx S x (r.matchRun hn hstart) where
  start := offers_all r h n
  outside m he hk := h.outside (n + m) he hk
  ends := by
    obtain ⟨k, hclosed | ⟨v, hdone⟩⟩ := h.ends
    · refine ⟨k, .inl ?_⟩
      exact r.keeps (P := fun t => (t.net.connections idx).isClosed = true)
        (fun m _ hm => httpStep_isClosed (r.next m) hm) hclosed (Nat.le_add_left k n)
    · refine ⟨k, .inr ?_⟩
      change (toMatch (r.state (n + k))).phase = .done
      rw [toMatch, (done_from r hdone rfl (Nat.le_add_left k n)).1]

end Reached

/-- **When `http_get` is right**: the header has an end, and an even number of carriage returns
stands right before the first one. -/
lemma httpMeets_iff (h : Serves HttpState.toReader HttpReturned idx S x r)
    (hsent : ∃ n, RequestSent (r.state n)) :
    HttpMeets idx r S ↔ ∃ q, FirstAt crlfcrlf S q ∧ Even (crRun (S.take q)) := by
  have hstr : crlfcrlf ≠ [] := by decide
  obtain ⟨n, hphase, hstart⟩ := exists_matching r hsent
  have hn : InMatch idx (r.state n) := .inl ⟨_, hphase⟩
  have hserves := serves_matchRun r hn hstart h
  constructor
  · rintro ⟨hfirst, hnone⟩
    by_cases hsome : ∃ q, crlfcrlf <+: S.drop q
    · obtain ⟨p, hp⟩ := hsome
      obtain ⟨q, hq⟩ := exists_firstAt hp
      obtain ⟨k, hstop, htaken⟩ := (matched_iff _ hserves).mp
        ((done_iff_matched r hn hstart).mp (hfirst q hq))
      exact ⟨q, hq, (misses_iff_even hq).mp (hq.misses hstr hstop htaken.symm)⟩
    · obtain ⟨k, hfailed⟩ := hnone fun q hq => hsome ⟨q, hq⟩
      exact absurd hfailed (not_failed r hn k)
  · rintro ⟨q, hq, heven⟩
    refine ⟨fun p hp => ?_, fun hnone => absurd hq.1 (hnone q)⟩
    obtain ⟨k, hdone, hfirst⟩ := (matchMeets_iff _ hserves hstr).mpr
      (.inl ⟨q, hq, (misses_iff_even hq).mpr heven⟩)
    exact (done_iff_matched r hn hstart).mpr ⟨k, hdone, hfirst p hp⟩

end Runs

/-- **The end of a header.**  Let all of a stream `S` become available during a call, at any times,
and be closed then.  `match` returns, and has taken the bytes up to the end of the first place of a
pattern that is in `S`, exactly if failed attempts stand before that place, or if the pattern is not
in `S` and is met in what the loop reads past the end.  `http_get` returns at the first byte of the
body, and reports a stream without one, exactly if the header has an end and an even number of
carriage returns stands right before it. -/
theorem match_header_iff {reply : Ip → List (Mac × Ip)} {idx : ℕ} :
    (∀ (str S : List UInt8) (x : Option UInt8) (s : Net) (b : UInt8)
        (r : MatchRun reply idx str s b), str ≠ [] →
        Serves MatchState.toReader Matched idx S x r → (MatchMeets r S ↔ MatchFits str S x b))
      ∧ ∀ (path S : List UInt8) (x : Option UInt8) (s : Net) (b : UInt8)
        (r : HttpRun reply idx path s b), Serves HttpState.toReader HttpReturned idx S x r →
        (∃ n, RequestSent (r.state n)) →
        (HttpMeets idx r S ↔ ∃ q, FirstAt crlfcrlf S q ∧ Even (crRun (S.take q))) :=
  ⟨fun _ _ _ _ _ r hstr h => matchMeets_iff r h hstr,
    fun _ _ _ _ _ r h hsent => httpMeets_iff r h hsent⟩

/-! ### A short reply -/

/-- A connection whose peer takes the request whole. -/
def webNet : Net :=
  (afterHandshakeNet 0).setConnection 0
    { (afterHandshakeNet 0).connections 0 with windowSize := 64, rxRead := 1, rxReadable := 1 }

/-- After `n` passes the reply comes in one segment, and then the FIN. -/
def replyEvent (n : ℕ) (S : List UInt8) (k : ℕ) : SendallEvent :=
  if k = n then .net (.segment (segmentOf 1 0x10 S) (20 + S.length).toUInt32)
  else if k = n + 1 then .net (.segment (segmentOf (1 + S.length).toUInt32 0x11 []) 20)
  else .pass

lemma replyEvent_pass {n k : ℕ} (S : List UInt8) (hk : n + 1 < k) : replyEvent n S k = .pass := by
  rw [replyEvent, if_neg (by omega), if_neg (by omega)]

def matchReply (S : List UInt8) : MatchRun (fun _ => []) 0 crlfcrlf webNet 0 :=
  FairRun.follow _ (replyEvent 0 S) (fun t k => by rw [replyEvent]; split_ifs <;> rfl)
    fun k => ⟨k + 2, by omega, replyEvent_pass S (by omega)⟩

def httpReply (S : List UInt8) : HttpRun (fun _ => []) 0 [] webNet 0 :=
  FairRun.follow _ (replyEvent 15 S) (fun t k => by rw [replyEvent]; split_ifs <;> rfl)
    fun k => ⟨k + 17, by omega, replyEvent_pass S (by omega)⟩

lemma matchReply_serves :
    Serves MatchState.toReader Matched 0 [13, 13, 10, 13, 10] (some 0)
      (matchReply [13, 13, 10, 13, 10]) where
  start := ⟨by decide +kernel, by decide +kernel, by decide +kernel⟩
  outside n he _ := by
    have hn : n < 2 := by
      by_contra hlate
      exact he (replyEvent_pass _ (by omega))
    interval_cases n
    · exact ⟨by decide +kernel, by decide +kernel, by decide +kernel⟩
    · exact ⟨by decide +kernel, by decide +kernel, by decide +kernel⟩
  ends := ⟨2, .inl (by decide +kernel)⟩

lemma httpReply_serves :
    Serves HttpState.toReader HttpReturned 0 [13, 10, 13, 10] (some 0)
      (httpReply [13, 10, 13, 10]) where
  start := ⟨by decide +kernel, by decide +kernel, by decide +kernel⟩
  outside n he _ := by
    have hn : n = 15 ∨ n = 16 := by
      by_contra hother
      refine he ?_
      change replyEvent 15 _ n = .pass
      rw [replyEvent, if_neg (by omega), if_neg (by omega)]
    obtain rfl | rfl := hn
    · exact ⟨by decide +kernel, by decide +kernel, by decide +kernel⟩
    · exact ⟨by decide +kernel, by decide +kernel, by decide +kernel⟩
  ends := ⟨17, .inl (by decide +kernel)⟩

/-- The request is sent before the reply comes. -/
lemma httpReply_sent : ∃ n, RequestSent ((httpReply [13, 10, 13, 10]).state n) :=
  ⟨15, by rw [RequestSent]; decide +kernel⟩

/-- The equivalences apply to these replies. -/
theorem match_header_iff_replies :
    (MatchMeets (matchReply [13, 13, 10, 13, 10]) [13, 13, 10, 13, 10]
        ↔ MatchFits crlfcrlf [13, 13, 10, 13, 10] (some 0) 0)
      ∧ (HttpMeets 0 (httpReply [13, 10, 13, 10]) [13, 10, 13, 10]
        ↔ ∃ q, FirstAt crlfcrlf [13, 10, 13, 10] q
          ∧ Even (crRun (List.take q [13, 10, 13, 10]))) :=
  ⟨match_header_iff.1 _ _ _ _ _ (matchReply _) (by decide) matchReply_serves,
    match_header_iff.2 _ _ _ _ _ (httpReply _) httpReply_serves httpReply_sent⟩

/-- **A carriage return before the end of the header**: `match` reads past it. -/
theorem match_misses_header :
    ∃ r : MatchRun (fun _ => []) 0 crlfcrlf webNet 0,
      Serves MatchState.toReader Matched 0 [13, 13, 10, 13, 10] (some 0) r
        ∧ ¬ MatchMeets r [13, 13, 10, 13, 10] := by
  have hfirst : FirstAt crlfcrlf [13, 13, 10, 13, 10] 1 := by
    refine ⟨by decide, fun p hp => ?_⟩
    obtain rfl : p = 0 := by omega
    decide
  refine ⟨matchReply _, matchReply_serves, fun hmeets => ?_⟩
  rcases (matchMeets_iff _ matchReply_serves (by decide)).mp hmeets with ⟨q, hq, hmiss⟩ | ⟨hnone, -⟩
  · obtain rfl : q = 1 := hq.unique hfirst
    exact absurd hmiss.scanned.2 (by decide)
  · exact hnone 1 hfirst.1

end CustomLinuxOs
