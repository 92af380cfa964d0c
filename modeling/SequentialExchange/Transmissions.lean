import SequentialExchange.Traffic

/-!
# Every transmission of a packet is the same packet

A number is drawn together with the first transmission that carries it, by
`try_send` and by replies alike, and by nothing else. What is resent comes from
the send window, which holds first transmissions only. So fewer than `2^32` of
them are told apart by their numbers, however often each one is resent. The
closures that build the data of a packet are given the numbers it carries.
-/

namespace SequentialExchange

open WrapNumbering

variable {S R : Type*} {CAP : ℕ} [NeZero CAP]

/-! ## Closures that build the data -/

/-- `SeqEx::seq_no`. -/
def SeqEx.seqNo (s : SeqEx S R CAP) : SeqNo := s.nextSendSeqNo

namespace SingleThread

/-- `ReplyGuard` of `single_thread.rs`. -/
structure ReplyGuard where
  /-- The reply number it has to return. -/
  replyNo : SeqNo
  /-- Whether it holds the SeqCst lock. -/
  isHoldingLock : Bool

/-- `ReplyGuard::reply_with`: the closure is given the number of the reply, which
is read in advance, and the number it replies to. -/
def ReplyGuard.replyWith (g : ReplyGuard) (s : SeqEx S R CAP) (currentTime : Int64) (seqCst : Bool)
    (f : SeqNo → SeqNo → S) : Option (Packet S) × SeqEx S R CAP :=
  let seqNo := s.seqNo
  s.replyRawAndDirect currentTime g.replyNo g.isHoldingLock seqCst (f seqNo g.replyNo)

/-- `ReplyGuard::reply_with_stay_locked`, which leaves the lock to a `SeqCstGuard`. -/
def ReplyGuard.replyWithStayLocked (g : ReplyGuard) (s : SeqEx S R CAP) (currentTime : Int64)
    (seqCst : Bool) (f : SeqNo → SeqNo → S) : Option (Packet S) × SeqEx S R CAP :=
  let seqNo := s.seqNo
  s.replyRawAndDirect currentTime g.replyNo false seqCst (f seqNo g.replyNo)

/-- What a caller does with an endpoint. A `try_send_with` is a call, and so is
every operation of a guard that sends no reply. -/
inductive Use (S R : Type*) where
  /-- A call on the endpoint itself. -/
  | call (c : Call S R)
  /-- `reply_with` on a guard. -/
  | replyWith (g : ReplyGuard) (currentTime : Int64) (seqCst : Bool) (f : SeqNo → SeqNo → S)
  /-- `reply_with_stay_locked` on a guard. -/
  | replyWithStayLocked (g : ReplyGuard) (currentTime : Int64) (seqCst : Bool)
      (f : SeqNo → SeqNo → S)

end SingleThread

open SingleThread

namespace SeqEx

/-- Perform one use. -/
def use (s : SeqEx S R CAP) : Use S R → Answer S R × SeqEx S R CAP
  | .call c => s.call c
  | .replyWith g t b f =>
    let r := g.replyWith s t b f
    (.replied r.1, r.2)
  | .replyWithStayLocked g t b f =>
    let r := g.replyWithStayLocked s t b f
    (.replied r.1, r.2)

/-- The uses of a run, each with its answer. -/
def transcript (s : SeqEx S R CAP) : List (Use S R) → List (Use S R × Answer S R)
  | [] => []
  | u :: us => (u, (s.use u).1) :: (s.use u).2.transcript us

/-- The state after a run. -/
def after (s : SeqEx S R CAP) (us : List (Use S R)) : SeqEx S R CAP :=
  us.foldl (fun v u => (v.use u).2) s

end SeqEx

/-- The first transmission that an answer reports. -/
def Answer.first? : Answer S R → Option (Packet S)
  | .sent p => some p
  | .replied p => p
  | _ => none

/-- The first transmissions of a run, in order. -/
def firsts (l : List (Use S R × Answer S R)) : List (Packet S) := l.filterMap fun x => x.2.first?

/-- Everything a run puts on the wire, in order. -/
def transmissions (l : List (Use S R × Answer S R)) : List (Packet S) :=
  l.flatMap fun x => x.2.emitted

/-- The packet is what the closure of the use makes of the numbers that the packet
itself carries. -/
def SingleThread.Use.Supplies : Use S R → Packet S → Prop
  | .call (.trySend _ b f), p => ∃ n, p = .newWithData n none b (f n)
  | .call (.reply _ r _ b d), p => ∃ n, p = .newWithData n (some r) b d
  | .replyWith g _ b f, p => ∃ n, p = .newWithData n (some g.replyNo) b (f n g.replyNo)
  | .replyWithStayLocked g _ b f, p =>
    ∃ n, p = .newWithData n (some g.replyNo) b (f n g.replyNo)
  | .call _, _ => False

/-! ## One use -/

variable {s : SeqEx S R CAP} {base : SeqNo} {sent : List (Packet S)}

/-- The history lists the first transmissions. -/
theorem History.record_first (h : History S R) (i : Option (Packet R)) (a : Answer S R) :
    (h.record i a).sent = h.sent ++ a.first?.toList := by
  cases a with
  | sent p => rfl
  | replied p =>
    cases p with
    | none => exact (List.append_nil _).symm
    | some p => rfl
  | received ok b =>
    cases i with
    | none => exact (List.append_nil _).symm
    | some p => exact (take_sent p ok).trans (List.append_nil _).symm
  | pumped ok b =>
    cases i with
    | none => exact (List.append_nil _).symm
    | some p => exact (take_sent p ok).trans (List.append_nil _).symm
  | _ => exact (List.append_nil _).symm

/-- A use is a call, with the data that the closure returns. -/
theorem SeqEx.use_eq_call (s : SeqEx S R CAP) (u : Use S R) : ∃ c, s.use u = s.call c := by
  cases u with
  | call c => exact ⟨c, rfl⟩
  | replyWith g t b f => exact ⟨.reply t g.replyNo g.isHoldingLock b (f s.seqNo g.replyNo), rfl⟩
  | replyWithStayLocked g t b f => exact ⟨.reply t g.replyNo false b (f s.seqNo g.replyNo), rfl⟩

/-- A use adds its first transmission to what was sent, and transmits nothing but
acknowledgements and packets that were sent. -/
theorem Sends.use (hs : Sends base s sent) (u : Use S R) :
    Sends base (s.use u).2 (sent ++ (s.use u).1.first?.toList) ∧
      ∀ p ∈ (s.use u).1.emitted,
        (∃ r, p = .ack r) ∨ p ∈ sent ++ (s.use u).1.first?.toList := by
  obtain ⟨c, hc⟩ := s.use_eq_call u
  obtain ⟨hsends, -, hemitted⟩ := Sends.call (h := ⟨sent, [], []⟩) hs c
  rw [History.record_first] at hsends hemitted
  rw [hc]
  exact ⟨hsends, hemitted⟩

/-- A reply carries the next number and the one it answers. -/
theorem SeqEx.reply_first {t : Int64} {r : SeqNo} {v b : Bool} {d : S} {p : Packet S}
    (hp : (s.replyRawAndDirect t r v b d).1 = some p) :
    p = .newWithData s.nextSendSeqNo (some r) b d := by
  unfold replyRawAndDirect at hp
  rcases s.removeReservation_cases r with ⟨l, -, ht⟩ | ⟨-, ht⟩
  · rw [ht] at hp
    exact (Option.some.inj hp).symm.trans (insertEntry_packet t (some r) b d)
  · rw [ht] at hp
    cases hp

/-- The closure of a use is given the numbers of the packet it makes. -/
theorem SeqEx.use_supplies {u : Use S R} {p : Packet S} (hp : (s.use u).1.first? = some p) :
    u.Supplies p := by
  cases u with
  | replyWith g t b f => exact ⟨s.seqNo, SeqEx.reply_first hp⟩
  | replyWithStayLocked g t b f => exact ⟨s.seqNo, SeqEx.reply_first hp⟩
  | call c =>
    cases c with
    | reply t r v b d => exact ⟨s.seqNo, SeqEx.reply_first hp⟩
    | trySend t b f =>
      simp only [SeqEx.use, SeqEx.call, SeqEx.trySendDirectWith] at hp
      cases hfull : s.isFullInner none with
      | error e =>
        rw [hfull] at hp
        cases hp
      | ok v =>
        rw [hfull] at hp
        exact ⟨s.seqNo, (Option.some.inj hp).symm.trans (insertEntry_packet t none b _)⟩
    | receive q =>
      simp only [SeqEx.use, SeqEx.call] at hp
      split at hp <;> cases hp
    | pump =>
      simp only [SeqEx.use, SeqEx.call] at hp
      split at hp <;> cases hp
    | _ => cases hp

/-! ## A whole run -/

/-- What was sent, and what is transmitted, all along a run. -/
theorem Sends.run (hs : Sends base s sent) (us : List (Use S R)) :
    Sends base (s.after us) (sent ++ firsts (s.transcript us)) ∧
      ∀ p ∈ transmissions (s.transcript us),
        (∃ r, p = .ack r) ∨ p ∈ sent ++ firsts (s.transcript us) := by
  induction us generalizing s sent with
  | nil => exact ⟨by simpa [firsts, SeqEx.transcript, SeqEx.after] using hs, nofun⟩
  | cons u us ih =>
    obtain ⟨hsends, hemitted⟩ := hs.use u
    obtain ⟨hrest, htransmitted⟩ := ih hsends
    have hfirsts : firsts (s.transcript (u :: us)) =
        (s.use u).1.first?.toList ++ firsts ((s.use u).2.transcript us) := by
      simp only [firsts, SeqEx.transcript, List.filterMap_cons]
      cases (s.use u).1.first? <;> rfl
    rw [hfirsts, ← List.append_assoc]
    refine ⟨hrest, fun p hp => ?_⟩
    rcases List.mem_append.mp (show p ∈ (s.use u).1.emitted ++
      transmissions ((s.use u).2.transcript us) from hp) with hp | hp
    · exact (hemitted p hp).imp_right (List.mem_append_left _)
    · exact htransmitted p hp

/-- Every entry of a transcript is the answer of some state. -/
theorem SeqEx.mem_transcript {us : List (Use S R)} {x : Use S R × Answer S R}
    (h : x ∈ s.transcript us) : ∃ v : SeqEx S R CAP, x.2 = (v.use x.1).1 := by
  induction us generalizing s with
  | nil => cases h
  | cons u us ih =>
    rcases List.mem_cons.mp h with rfl | h
    · exact ⟨s, rfl⟩
    · exact ih h

/-- The first transmissions carry consecutive numbers from `base`, equal numbers
mean equal packets, and every transmission of a packet is the one that its closure
made with the numbers it carries. -/
structure Steady (base : SeqNo) (s : SeqEx S R CAP) (l : List (Use S R × Answer S R)) : Prop where
  numbered : ∀ k p, (firsts l)[k]? = some p → p.seqNo? = some (number base k)
  next : s.nextSendSeqNo = number base (firsts l).length
  same : ∀ p ∈ transmissions l, ∀ q ∈ transmissions l, p.seqNo? ≠ none → p.seqNo? = q.seqNo? →
    p = q
  supplied : ∀ x ∈ l, ∀ p, x.2.first? = some p → ∀ q ∈ transmissions l, q.seqNo? = p.seqNo? →
    x.1.Supplies q

omit [NeZero CAP] in
/-- A first transmission is a transmission. -/
theorem Answer.mem_emitted_of_first {a : Answer S R} {p : Packet S} (h : a.first? = some p) :
    p ∈ a.emitted := by
  cases a with
  | sent q =>
    cases h
    exact List.mem_singleton_self p
  | replied q =>
    cases h
    exact List.mem_singleton_self p
  | _ => cases h

/-- Every run with fewer than `2^32` first transmissions is steady, whatever is
called and whatever arrives. -/
theorem transcript_steady (interval : Int64) (initialSeqNo : SeqNo) (us : List (Use S R))
    (hcount : (firsts ((SeqEx.new interval initialSeqNo : SeqEx S R CAP).transcript us)).length <
      2 ^ 32) :
    Steady initialSeqNo ((SeqEx.new interval initialSeqNo : SeqEx S R CAP).after us)
      ((SeqEx.new interval initialSeqNo : SeqEx S R CAP).transcript us) := by
  obtain ⟨hsends, htransmitted⟩ :=
    (Sends.start interval initialSeqNo : Sends _ (SeqEx.new _ _ : SeqEx S R CAP) _).run us
  rw [List.nil_append] at hsends htransmitted
  generalize hl : (SeqEx.new interval initialSeqNo : SeqEx S R CAP).transcript us = l at *
  have hsame : ∀ p ∈ transmissions l, ∀ q ∈ transmissions l, p.seqNo? ≠ none →
      p.seqNo? = q.seqNo? → p = q := by
    intro p hp q hq hdata heq
    have hfirst {x : Packet S} (hx : x ∈ transmissions l) (hx' : x.seqNo? ≠ none) :
        ∃ k < (firsts l).length, (firsts l)[k]? = some x ∧
          x.seqNo? = some (number initialSeqNo k) := by
      rcases htransmitted x hx with ⟨r, rfl⟩ | hmem
      · exact absurd rfl hx'
      · obtain ⟨k, hk, hget⟩ := List.getElem_of_mem hmem
        have hget' : (firsts l)[k]? = some x := List.getElem?_eq_some_iff.mpr ⟨hk, hget⟩
        exact ⟨k, hk, hget', hsends.numbered k x hget'⟩
    obtain ⟨i, hi, hgeti, hnumi⟩ := hfirst hp hdata
    obtain ⟨j, hj, hgetj, hnumj⟩ := hfirst hq (heq ▸ hdata)
    rw [hnumi, hnumj, Option.some_inj, number_inj (by omega) (by omega)] at heq
    subst heq
    exact Option.some.inj (hgeti.symm.trans hgetj)
  refine ⟨hsends.numbered, hsends.next, hsame, fun x hx p hp q hq heq => ?_⟩
  obtain ⟨v, hv⟩ := SeqEx.mem_transcript (hl ▸ hx)
  have hsupplies : x.1.Supplies p := SeqEx.use_supplies (hv ▸ hp)
  have hmem : p ∈ transmissions l := List.mem_flatMap.mpr ⟨x, hx, Answer.mem_emitted_of_first hp⟩
  obtain ⟨k, hk⟩ : ∃ k, (firsts l)[k]? = some p :=
    List.getElem?_of_mem (List.mem_filterMap.mpr ⟨x, hx, hp⟩)
  have hdata : p.seqNo? ≠ none := by
    rw [hsends.numbered k p hk]
    nofun
  rwa [← hsame p hmem q hq hdata heq.symm]

/-- Numbers wrap, a reply number is not outstanding, a guard replies, one packet is
acknowledged and everything else is resent. -/
def mixedUses : List (Use ℕ ℕ) :=
  [.call (.trySend 0 false fun n => n.toNat), .call (.receive (.seqCstPayload 4294967295 80)),
    .call (.reply 0 7 false false 99),
    .replyWith ⟨4294967295, true⟩ 0 true fun n r => n.toNat + 1000 * r.toNat,
    .call (.trySend 0 true fun n => n.toNat + 50), .call (.receive (.ack 4294967295)),
    .call (.service 1000)]

/-- Numbers that wrap keep their packets through replies and resends. -/
theorem transcript_steady_mixedUses :
    Steady 4294967295 ((SeqEx.new 100 4294967295 : SeqEx ℕ ℕ 4).after mixedUses)
      ((SeqEx.new 100 4294967295 : SeqEx ℕ ℕ 4).transcript mixedUses) :=
  transcript_steady 100 4294967295 mixedUses (by decide)

/-- The two packets that are left are transmitted twice. -/
example : transmissions ((SeqEx.new 100 4294967295 : SeqEx ℕ ℕ 4).transcript mixedUses) =
    [.payload 4294967295 4294967295, .seqCstReply 0 4294967295 4294967295000, .seqCstPayload 1 51,
      .seqCstReply 0 4294967295 4294967295000, .seqCstPayload 1 51] := by decide

end SequentialExchange
