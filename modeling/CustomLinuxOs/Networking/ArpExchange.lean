import CustomLinuxOs.Foundations.Run
import CustomLinuxOs.Networking.Arp
import CustomLinuxOs.Networking.Frames

/-!
Requests and responses of ARP, for one packet and between two nodes.

`arp_send_packet` is told an operation and writes `ARP_REQUEST`, whatever it is told.

* `arpFrame`, `arpFrame_reads`: the frame it builds, and what a receiver reads in it.
* `AnswersRight`, `answersRight_iff`: a packet is answered as it should be exactly when it is no
  request.
* `Link`, `linkStep`: two nodes and the frames in flight between them, delivered in any order.
* `Storm`: one request is in flight, and every delivery puts out another.
* `arpExchange_iff`: both, and a lookup ends the exchange exactly when it hits the cache.
-/

namespace CustomLinuxOs

/-! ### The frame of `arp_send_packet` -/

/-- The packet in the frame. -/
def arpPayload (s : Net) (tha : Mac) (tpa : Ip) : List UInt8 :=
  writeU16 ARP_ETHERNET ++ writeU16 ETHERTYPE_IP4 ++ writeU8 6 ++ writeU8 4
    ++ writeU16 ARP_REQUEST ++ s.ourMac.toList ++ s.ourIp.toList ++ tha.toList ++ tpa.toList

/-- The frame `arp_send_packet` sends. -/
def arpFrame (s : Net) (tha : Mac) (tpa : Ip) : List UInt8 :=
  ethernetWritePacket s tha ETHERTYPE_ARP (arpPayload s tha tpa)

lemma arpSendPacket_sent (s : Net) (op : UInt16) (tha : Mac) (tpa : Ip) :
    (arpSendPacket s op tha tpa).sent = s.sent ++ [arpFrame s tha tpa] := rfl

/-- The packet in an Ethernet frame, as `arp_parse_packet` gets it. -/
def arpPacket (frame : List UInt8) : List UInt8 := frame.drop ETHERNET_HEADER_LENGTH

lemma arpPacket_arpFrame (s : Net) (tha : Mac) (tpa : Ip) :
    arpPacket (arpFrame s tha tpa) = arpPayload s tha tpa := by
  rw [arpPacket, arpFrame, ethernetWritePacket]
  refine List.drop_left' ?_
  simp [writeU16, writeU8, ETHERNET_HEADER_LENGTH]

/-- The MAC a packet names as its target. -/
def arpTargetMac (packet : List UInt8) : Mac := (readN 6 (packet.drop 18)).1

/-- The fixed part of the packet. -/
lemma arp_fixed (rest : List UInt8) :
    let packet := writeU16 ARP_ETHERNET ++ (writeU16 ETHERTYPE_IP4 ++ (writeU8 6 ++ (writeU8 4
      ++ (writeU16 ARP_REQUEST ++ rest))))
    arpAccepts packet = true ∧ arpOperation packet = ARP_REQUEST ∧ packet.drop 8 = rest := by
  intro packet
  have h2 : packet.drop 2 = writeU16 ETHERTYPE_IP4 ++ (writeU8 6 ++ (writeU8 4
      ++ (writeU16 ARP_REQUEST ++ rest))) := rfl
  have h4 : packet.drop 4 = writeU8 6 ++ (writeU8 4 ++ (writeU16 ARP_REQUEST ++ rest)) := rfl
  have h5 : packet.drop 5 = writeU8 4 ++ (writeU16 ARP_REQUEST ++ rest) := rfl
  have h6 : packet.drop 6 = writeU16 ARP_REQUEST ++ rest := rfl
  refine ⟨?_, ?_, rfl⟩
  · rw [arpAccepts, h2, h4, h5, readU16_writeU16, readU16_writeU16, readU8_writeU8, readU8_writeU8]
    rfl
  · rw [arpOperation, h6, readU16_writeU16]

/-- **What a receiver reads**: the format is valid and the operation is a request; the sender is
the node, the target the one it was told. -/
lemma arpFrame_reads (s : Net) (tha : Mac) (tpa : Ip) :
    arpAccepts (arpPacket (arpFrame s tha tpa)) = true
      ∧ arpOperation (arpPacket (arpFrame s tha tpa)) = ARP_REQUEST
      ∧ arpSender (arpPacket (arpFrame s tha tpa)) = (s.ourMac, s.ourIp)
      ∧ arpTargetMac (arpPacket (arpFrame s tha tpa)) = tha
      ∧ arpTarget (arpPacket (arpFrame s tha tpa)) = tpa := by
  obtain ⟨haccepts, hoperation, hfixed⟩ :=
    arp_fixed (s.ourMac.toList ++ (s.ourIp.toList ++ (tha.toList ++ tpa.toList)))
  have hpayload : arpPayload s tha tpa
      = writeU16 ARP_ETHERNET ++ (writeU16 ETHERTYPE_IP4 ++ (writeU8 6 ++ (writeU8 4
        ++ (writeU16 ARP_REQUEST
          ++ (s.ourMac.toList ++ (s.ourIp.toList ++ (tha.toList ++ tpa.toList))))))) := by
    simp only [arpPayload, List.append_assoc]
  rw [← hpayload] at haccepts hoperation hfixed
  have hdrop (k : ℕ) : (arpPayload s tha tpa).drop (8 + k)
      = ((arpPayload s tha tpa).drop 8).drop k := by rw [List.drop_drop]
  have h6 (v : Mac) (rest : List UInt8) : (v.toList ++ rest).drop 6 = rest :=
    List.drop_left' (by simp)
  have h4 (v : Ip) (rest : List UInt8) : (v.toList ++ rest).drop 4 = rest :=
    List.drop_left' (by simp)
  have h14 : (arpPayload s tha tpa).drop 14
      = s.ourIp.toList ++ (tha.toList ++ tpa.toList) := by
    rw [hdrop 6, hfixed, h6]
  have h18 : (arpPayload s tha tpa).drop 18 = tha.toList ++ tpa.toList := by
    rw [← List.drop_drop (i := 4) (j := 14), h14, h4]
  have h24 : (arpPayload s tha tpa).drop 24 = tpa.toList ++ [] := by
    rw [← List.drop_drop (i := 6) (j := 18), h18, h6, List.append_nil]
  rw [arpPacket_arpFrame]
  refine ⟨haccepts, hoperation, ?_, ?_, ?_⟩
  · rw [arpSender, hfixed, h14, readN_toList, readN_toList]
  · rw [arpTargetMac, h18, readN_toList]
  · rw [arpTarget, h24, readN_toList]

/-! ### One packet -/

/-- The frame answers the packet: it is an ARP response from the node to the sender. -/
structure IsAnswer (s : Net) (packet frame : List UInt8) : Prop where
  type : frameType frame = ETHERTYPE_ARP
  accepted : arpAccepts (arpPacket frame) = true
  operation : arpOperation (arpPacket frame) = ARP_RESPONSE
  sender : arpSender (arpPacket frame) = (s.ourMac, s.ourIp)
  target : (arpTargetMac (arpPacket frame), arpTarget (arpPacket frame)) = arpSender packet

/-- A frame is sent exactly for a request for the address of the node, and it is the answer. -/
def AnswersRight (s : Net) (packet : List UInt8) : Prop :=
  ((arpParsePacket s packet).sent ≠ s.sent
      ↔ arpOperation packet = ARP_REQUEST ∧ arpTarget packet = s.ourIp)
    ∧ ∀ frames, (arpParsePacket s packet).sent = s.sent ++ frames →
      ∀ frame ∈ frames, IsAnswer s packet frame

/-- What a packet of valid format makes a node send: to a request, a frame for its sender. -/
lemma arpParsePacket_sent (s : Net) {packet : List UInt8} (h : arpAccepts packet = true) :
    (arpParsePacket s packet).sent
      = s.sent ++ if arpOperation packet = ARP_REQUEST then
          [arpFrame s (arpSender packet).1 (arpSender packet).2] else [] := by
  rw [arpParsePacket_eq, if_pos h, (arpAddCache_rest _ _ _).1]
  split
  · rfl
  · exact (List.append_nil _).symm

/-- **One packet** is handled as it should be exactly when it is no request. -/
lemma answersRight_iff (s : Net) {packet : List UInt8} (h : arpAccepts packet = true) :
    AnswersRight s packet ↔ arpOperation packet ≠ ARP_REQUEST := by
  have hsent := arpParsePacket_sent s h
  by_cases hop : arpOperation packet = ARP_REQUEST
  · rw [if_pos hop] at hsent
    refine iff_of_false (fun hright => ?_) fun hne => hne hop
    have hanswer := (hright.2 _ hsent _ (List.mem_singleton_self _)).operation
    rw [(arpFrame_reads _ _ _).2.1] at hanswer
    exact absurd hanswer (by decide)
  · rw [if_neg hop, List.append_nil] at hsent
    refine iff_of_true ⟨iff_of_false (fun hne => hne hsent) fun hreq => hop hreq.1, ?_⟩ hop
    intro frames hframes frame hframe
    rw [hsent, List.self_eq_append_right] at hframes
    rw [hframes] at hframe
    cases hframe

/-! ### Two nodes -/

/-- Two nodes, the frames in flight to either, and all frames sent so far. -/
structure Link where
  a : Net
  b : Net
  toA : List (List UInt8)
  toB : List (List UInt8)
  log : List (List UInt8)

/-- The delivery of one of the frames in flight. -/
inductive Delivery where
  | toA (i : ℕ)
  | toB (i : ℕ)

/-- The frames a node has sent between two states. -/
def newFrames (s s' : Net) : List (List UInt8) := s'.sent.drop s.sent.length

/-- A frame is delivered, and what its receiver sends is in flight to the other node. -/
def linkStep (l : Link) : Delivery → Option Link
  | .toA i =>
      match l.toA[i]? with
      | none => none
      | some frame =>
          let a := arpParsePacket l.a (arpPacket frame)
          some { l with
            a := a, toA := l.toA.eraseIdx i, toB := l.toB ++ newFrames l.a a
            log := l.log ++ newFrames l.a a }
  | .toB i =>
      match l.toB[i]? with
      | none => none
      | some frame =>
          let b := arpParsePacket l.b (arpPacket frame)
          some { l with
            b := b, toB := l.toB.eraseIdx i, toA := l.toA ++ newFrames l.b b
            log := l.log ++ newFrames l.b b }

/-- Node `a` has begun to look up the address of node `b`: on a miss its request is in flight. -/
def Link.lookup (a b : Net) : Link where
  a := (arpGet (fun _ => []) a b.ourIp).2
  b := b
  toA := []
  toB := newFrames a (arpGet (fun _ => []) a b.ourIp).2
  log := newFrames a (arpGet (fun _ => []) a b.ourIp).2

/-- The frames of an operation among some. -/
def framesOf (op : UInt16) (frames : List (List UInt8)) : ℕ :=
  frames.countP fun frame => arpOperation (arpPacket frame) == op

/-- After `n` deliveries at most one request and one response have been sent, and when both are
delivered nothing is in flight. -/
structure OneExchange (n : ℕ) (l : Link) : Prop where
  requests : framesOf ARP_REQUEST l.log ≤ 1
  responses : framesOf ARP_RESPONSE l.log ≤ 1
  quiet : 2 ≤ n → l.toA = [] ∧ l.toB = []

/-- A packet that every node answers. -/
def Asks (frame : List UInt8) : Prop :=
  arpAccepts (arpPacket frame) = true ∧ arpOperation (arpPacket frame) = ARP_REQUEST

/-- After `n` deliveries one frame is in flight, and it and all others sent are requests. -/
structure Storm (n : ℕ) (l : Link) : Prop where
  flight : l.toA = [] ∧ (∃ f, l.toB = [f] ∧ Asks f) ∨ l.toB = [] ∧ ∃ f, l.toA = [f] ∧ Asks f
  sent : framesOf ARP_REQUEST l.log = n + 1

lemma newFrames_of_sent {s s' : Net} {frames : List (List UInt8)}
    (h : s'.sent = s.sent ++ frames) : newFrames s s' = frames := by
  rw [newFrames, h, List.drop_left]

/-- A request is answered by a request. -/
lemma Asks.answered {frame : List UInt8} (h : Asks frame) (s : Net) :
    ∃ f, newFrames s (arpParsePacket s (arpPacket frame)) = [f] ∧ Asks f := by
  have hsent := arpParsePacket_sent s h.1
  rw [if_pos h.2] at hsent
  obtain ⟨haccepts, hop, -⟩ := arpFrame_reads s (arpSender (arpPacket frame)).1
    (arpSender (arpPacket frame)).2
  exact ⟨_, newFrames_of_sent hsent, haccepts, hop⟩

lemma framesOf_snoc {frames : List (List UInt8)} {f : List UInt8} (h : Asks f) :
    framesOf ARP_REQUEST (frames ++ [f]) = framesOf ARP_REQUEST frames + 1 := by
  simp [framesOf, h.2]

/-- **One delivery** keeps the storm going. -/
lemma Storm.step {n : ℕ} {l m : Link} {d : Delivery} (h : Storm n l) (hm : linkStep l d = some m) :
    Storm (n + 1) m := by
  obtain ⟨hA, f, hB, hf⟩ | ⟨hB, f, hA, hf⟩ := h.flight
  · cases d with
    | toA i => simp [linkStep, hA] at hm
    | toB i =>
        cases i with
        | succ i => simp [linkStep, hB] at hm
        | zero =>
            obtain ⟨g, hg, hasks⟩ := hf.answered l.b
            simp only [linkStep, hB, List.getElem?_cons_zero, Option.some.injEq] at hm
            subst hm
            refine ⟨.inr ⟨rfl, g, ?_, hasks⟩, ?_⟩
            · simp only [hA, hg, List.nil_append]
            · simp only [hg]
              rw [framesOf_snoc hasks, h.sent]
  · cases d with
    | toB i => simp [linkStep, hB] at hm
    | toA i =>
        cases i with
        | succ i => simp [linkStep, hA] at hm
        | zero =>
            obtain ⟨g, hg, hasks⟩ := hf.answered l.a
            simp only [linkStep, hA, List.getElem?_cons_zero, Option.some.injEq] at hm
            subst hm
            refine ⟨.inl ⟨rfl, g, ?_, hasks⟩, ?_⟩
            · simp only [hB, hg, List.nil_append]
            · simp only [hg]
              rw [framesOf_snoc hasks, h.sent]

/-- In a storm there is always another delivery. -/
lemma Storm.goes_on {n : ℕ} {l : Link} (h : Storm n l) : ∃ d m, linkStep l d = some m := by
  obtain ⟨-, f, hB, -⟩ | ⟨-, f, hA, -⟩ := h.flight
  · exact ⟨.toB 0, _, by rw [linkStep, hB]; rfl⟩
  · exact ⟨.toA 0, _, by rw [linkStep, hA]; rfl⟩

/-- A lookup that misses starts a storm. -/
lemma storm_of_miss {a : Net} (b : Net) (h : arpTryCache a b.ourIp = none) :
    Storm 0 (Link.lookup a b) := by
  have hget : (arpGet (fun _ => []) a b.ourIp).2
      = arpSendPacket a ARP_REQUEST broadcastMac b.ourIp := by
    rw [arpGet, h]
    rfl
  have hnew : newFrames a (arpGet (fun _ => []) a b.ourIp).2
      = [arpFrame a broadcastMac b.ourIp] := by
    rw [hget]
    exact newFrames_of_sent (arpSendPacket_sent _ _ _ _)
  obtain ⟨haccepts, hop, -⟩ := arpFrame_reads a broadcastMac b.ourIp
  refine ⟨.inl ⟨rfl, _, hnew, haccepts, hop⟩, ?_⟩
  rw [Link.lookup, hnew, ← List.nil_append [_]]
  exact framesOf_snoc ⟨haccepts, hop⟩

/-- **The storm**: after a lookup that misses every run can go on, and has sent a request more
than it has delivered. -/
theorem storm_run {a b : Net} {es : List Delivery} {z : Link}
    (h : arpTryCache a b.ourIp = none) (hrun : Run linkStep (Link.lookup a b) es z) :
    Storm es.length z := by
  induction hrun with
  | nil => exact storm_of_miss b h
  | snoc _ hstep ih =>
      rw [List.length_append]
      exact ih.step hstep

/-- After a lookup that misses there is a run with two requests. -/
lemma not_oneExchange_of_miss {a b : Net} (h : arpTryCache a b.ourIp = none) :
    ¬ ∀ es z, Run linkStep (Link.lookup a b) es z → OneExchange es.length z := by
  intro hall
  obtain ⟨d, m, hm⟩ := (storm_of_miss b h).goes_on
  have hrun : Run linkStep (Link.lookup a b) [d] m := run_cons_iff.mpr ⟨m, hm, Run.nil⟩
  have hsent := (storm_run h hrun).sent
  have hle := (hall [d] m hrun).requests
  rw [List.length_singleton] at hsent
  omega

/-- A lookup that hits sends nothing. -/
lemma oneExchange_of_hit {a b : Net} (h : (arpTryCache a b.ourIp).isSome = true)
    {es : List Delivery} {z : Link} (hrun : Run linkStep (Link.lookup a b) es z) :
    OneExchange es.length z := by
  obtain ⟨mac, hmac⟩ := Option.isSome_iff_exists.mp h
  have hnew : newFrames a (arpGet (fun _ => []) a b.ourIp).2 = [] := by
    rw [arpGet, hmac]
    exact List.drop_length
  cases es with
  | nil =>
      obtain rfl := run_nil_iff.mp hrun
      refine ⟨?_, ?_, fun hlen => absurd hlen (by simp)⟩
      · rw [Link.lookup, hnew]
        exact Nat.zero_le 1
      · rw [Link.lookup, hnew]
        exact Nat.zero_le 1
  | cons d es =>
      obtain ⟨m, hm, -⟩ := run_cons_iff.mp hrun
      cases d with
      | toA i => simp [linkStep, Link.lookup] at hm
      | toB i => simp [linkStep, Link.lookup, hnew] at hm

/-- **Requests and responses.**  A packet of valid format is handled as it should be exactly when
it is no request.  A lookup between two nodes is one exchange, in every order of deliveries,
exactly when the address is in the cache, so that nothing is sent. -/
theorem arpExchange_iff (s : Net) {packet : List UInt8} (h : arpAccepts packet = true)
    (a b : Net) :
    (AnswersRight s packet ↔ arpOperation packet ≠ ARP_REQUEST)
      ∧ ((∀ es z, Run linkStep (Link.lookup a b) es z → OneExchange es.length z)
        ↔ (arpTryCache a b.ourIp).isSome = true) := by
  refine ⟨answersRight_iff s h, fun hall => ?_, fun hhit es z hrun => oneExchange_of_hit hhit hrun⟩
  by_contra hnone
  rw [Bool.not_eq_true, Option.isSome_eq_false_iff, Option.isNone_iff_eq_none] at hnone
  exact not_oneExchange_of_miss hnone hall

/-! ### Two nodes that do not know each other -/

/-- A node at an address, with nothing in its cache. -/
def nodeAt (ip : Ip) : Net := { Net.boot with ourIp := ip }

/-- The request of one node at the other, and the lookup it is for. -/
theorem arpExchange_iff_twoNodes :
    let a := nodeAt #v[10, 0, 2, 2]
    let b := nodeAt #v[10, 0, 2, 3]
    let request := arpPacket (arpFrame a broadcastMac b.ourIp)
    (AnswersRight b request ↔ arpOperation request ≠ ARP_REQUEST)
      ∧ ((∀ es z, Run linkStep (Link.lookup a b) es z → OneExchange es.length z)
        ↔ (arpTryCache a b.ourIp).isSome = true) :=
  arpExchange_iff _ (arpFrame_reads _ _ _).1 _ _

/-- The request of one node is not answered right by the other, and the lookup is not one
exchange. -/
theorem arpExchange_endless :
    ¬ AnswersRight (nodeAt #v[10, 0, 2, 3])
        (arpPacket (arpFrame (nodeAt #v[10, 0, 2, 2]) broadcastMac #v[10, 0, 2, 3]))
      ∧ ¬ ∀ es z,
        Run linkStep (Link.lookup (nodeAt #v[10, 0, 2, 2]) (nodeAt #v[10, 0, 2, 3])) es z →
          OneExchange es.length z := by
  obtain ⟨haccepts, hop, -⟩ :=
    arpFrame_reads (nodeAt #v[10, 0, 2, 2]) broadcastMac #v[10, 0, 2, 3]
  exact ⟨fun hright => (answersRight_iff _ haccepts).mp hright hop, not_oneExchange_of_miss rfl⟩

end CustomLinuxOs
