import SequentialExchange.Lossless

/-!
# Both peers agree on the links of an exchange

Along every run without early copies a reply is handed over with the data of
the packet it replies to, a packet is acknowledged only if it was never replied
to, and it is replied to once. An early copy breaks this: the same reply number
is issued twice and can be returned both ways.
-/

namespace SequentialExchange

open WrapNumbering GuardedRuns Exchange

variable {S R : Type*}

namespace Session

variable {cap : Side → ℕ} [∀ x, NeZero (cap x)] {encode : S → R} {base : SeqNo}
  {s : Session S R cap} {W : Side → Party}

/-- A reply in the list of a party answers the position that its number names. -/
theorem Follows.answers_of_replyNo (hW : Follows encode base s W)
    (hcount : ∀ x, s.sentCount x < 2 ^ 31) {x : Side} {k j : ℕ} {q : Packet S}
    (hq : (s.sentBy x)[k]? = some q) (hj : j < s.sentCount x.peer)
    (hno : q.replyNo? = some (number base j)) : (W x).answers k = some j := by
  rw [stands_replyNo (hW.shows x).items hq] at hno
  obtain ⟨i, hi, hnum⟩ := Option.map_eq_some_iff.mp hno
  have hilt : i < s.sentCount x.peer := by
    have := (hW.consistent x).replied_lt hi
    rwa [(hW.shows x.peer).next_eq] at this
  have hx := hcount x.peer
  rwa [(number_inj (by omega) (by omega)).mp hnum] at hi

/-- Every reply in the list of a party answers some position. -/
theorem Follows.replied (hW : Follows encode base s W) {x : Side} {k : ℕ} {q : Packet S}
    {r : SeqNo} (hq : (s.sentBy x)[k]? = some q) (hno : q.replyNo? = some r) :
    ∃ j < s.sentCount x.peer, (W x).answers k = some j ∧ r = number base j := by
  rw [stands_replyNo (hW.shows x).items hq] at hno
  obtain ⟨j, hj, rfl⟩ := Option.map_eq_some_iff.mp hno
  have hlt := (hW.consistent x).replied_lt hj
  rw [(hW.shows x.peer).next_eq] at hlt
  exact ⟨j, hlt, hj, rfl⟩

/-- Along every run without early copies: a reply handed over comes with the data
of the packet it replies to and was made by the peer's application for that
packet; a reply is never handed over as a payload; an acknowledged packet was
not replied to; and no packet is replied to twice. -/
theorem links_agree (hC : ∀ x, ∃ e ≥ 2, cap x = 2 ^ e) (encode : S → R)
    (interval : Side → Int64) (initialSeqNo : SeqNo) {s : Session S R cap}
    (hrun : Reaches (fun u e => u.Possible e ∧ ∀ x, u.NoEarlyCopy x e) (perform encode)
      (start interval initialSeqNo) s)
    (hcount : ∀ x, s.sentCount x < 2 ^ 31) (x : Side) :
    (∀ d ∈ (s.node x).history.deliveries, ∀ n b v w, d.2 = .reply n b v w → ∃ r,
      (∃ q ∈ s.sentBy x, q.seqNo? = some r ∧ q.payload? = some w) ∧
      ∃ q ∈ s.sentBy x.peer, q.seqNo? = some n ∧ q.replyNo? = some r ∧
        q.payload?.map encode = some v) ∧
    (∀ d ∈ (s.node x).history.deliveries, ∀ r, d.1.replyNo? = some r → ∃ n b v w,
      d.2 = .reply n b v w ∧ ∃ q ∈ s.sentBy x, q.seqNo? = some r ∧ q.payload? = some w) ∧
    (∀ a ∈ (s.node x).history.acks, ∀ q ∈ s.sentBy x.peer, q.replyNo? ≠ some a.1) ∧
    ∀ (j k : ℕ) (p q : Packet S) (r : SeqNo), (s.sentBy x.peer)[j]? = some p →
      (s.sentBy x.peer)[k]? = some q → p.replyNo? = some r → q.replyNo? = some r → j = k := by
  obtain ⟨W, hW, hlinked⟩ := reaches_linked hC (fun _ _ h => h) hrun hcount
  have hcarries := reaches_carries (fun _ _ h => h.1) hrun
  have hanswers := fun (k j : ℕ) (q : Packet S) hq hj =>
    hW.answers_of_replyNo hcount (x := x.peer) (k := k) (j := j) (q := q) hq
      (by rw [Side.peer_peer]; exact hj)
  have hreplied := fun (k : ℕ) (q : Packet S) (r : SeqNo) hq hno =>
    hW.replied (x := x.peer) (k := k) (q := q) (r := r) hq hno
  rw [Side.peer_peer] at hreplied
  refine ⟨fun d hd n b v w hreply => ?_, fun d hd r hno => ?_, fun a ha q hq hno => ?_,
    fun j k p q r hp hq hjr hkr => ?_⟩
  · obtain ⟨k, r, -, hwire, ⟨hn, hno, hv⟩, q, hq, hdata⟩ :=
      (hW.shows x).paired_of_reply hd hreply
    obtain ⟨q', hq', hmap⟩ := Option.map_eq_some_iff.mp hwire
    rw [← hmap, Packet.seqNo?_map] at hn
    rw [← hmap, Packet.replyNo?_map] at hno
    rw [← hmap, Packet.payload?_map] at hv
    exact ⟨number initialSeqNo r,
      ⟨q, List.mem_of_getElem? hq, (hcarries x).sends.numbered r q hq, hdata⟩,
      q', List.mem_of_getElem? hq', hn, hno, hv⟩
  · obtain ⟨k, m, hk, hwire, n, r', b, v, hd1, hm⟩ := (hW.shows x).log_of_delivery hd
    obtain ⟨q', hq', hmap⟩ := Option.map_eq_some_iff.mp hwire
    rw [← hmap, Packet.replyNo?_map] at hno
    obtain ⟨j, -, hj, rfl⟩ := hreplied k q' r hq' hno
    -- the packet was paired with the position it answers
    have hmj : m = some j := ((hlinked x).log_eq k m hk).symm.trans hj
    rcases hm with ⟨hnone, -⟩ | ⟨i, q, w, hi, -, hq, hdata, hreply⟩
    · simp [hmj] at hnone
    · rw [hmj] at hi
      cases hi
      exact ⟨n, b, v, w, hreply, q, List.mem_of_getElem? hq,
        (hcarries x).sends.numbered j q hq, hdata⟩
  · obtain ⟨r, hr, hnum, q', hq', -⟩ := (hW.shows x).heard_of_ack ha
    obtain ⟨k, hk⟩ := List.mem_iff_getElem?.mp hq
    have hlt := (List.getElem?_eq_some_iff.mp hq').1
    exact ((hlinked x).heard_acked r hr).2 k (hanswers k r q hk hlt (hnum ▸ hno))
  · obtain ⟨i, hi, hij, rfl⟩ := hreplied j p r hp hjr
    exact (hlinked x.peer).answers_inj j k i hij (hanswers k i q hq hi hkr)

/-- A packet is replied to, and the reply is delivered. -/
def answered : List (Event ℕ ℕ) :=
  [.call .a (.trySend 0 false fun _ => 70), .call .b (.receive (.payload 0 70)),
    .call .b (.reply 0 0 false true 80), .call .a (.receive (.seqCstReply 0 0 80))]

/-- The state after these events. -/
def afterAnswered : Session ℕ ℕ cap := answered.foldl (perform id) (start (fun _ => 100) 0)

/-- A packet and its answer, delivered to the one who sent the packet. -/
theorem links_agree_afterAnswered :
    ((afterAnswered : Session ℕ ℕ fun _ => 4).node .a).history.deliveries =
        [(.seqCstReply 0 0 80, .reply 0 true 80 70)] ∧
      ∀ d ∈ ((afterAnswered : Session ℕ ℕ fun _ => 4).node .a).history.deliveries,
        ∀ r, d.1.replyNo? = some r → ∃ n b v w, d.2 = .reply n b v w ∧
          ∃ q ∈ (afterAnswered : Session ℕ ℕ fun _ => 4).sentBy .a,
            q.seqNo? = some r ∧ q.payload? = some w :=
  ⟨by decide, (links_agree (fun _ => ⟨2, le_rfl, rfl⟩) id (fun _ => 100) 0
    (Allowed.reaches (l := answered) (by decide)) (by decide) .a).2.1⟩

/-- An early copy lets the application return one reply number both ways. -/
def returnedTwice : List (Event ℕ ℕ) :=
  [.call .a (.trySend 0 false fun _ => 70), .call .a (.trySend 0 false fun _ => 71),
    .call .b (.receive (.payload 1 71)), .call .b (.receive (.payload 1 71)),
    .call .b (.ack 1 false), .call .b (.reply 0 1 false false 81),
    .call .a (.receive (.ack 1)), .call .a (.receive (.reply 0 1 81))]

/-- A run of possible events after which packet 1 was acknowledged although it
was replied to, and the reply was handed over as a payload. -/
theorem early_copy_splits_link :
    ∃ s : Session ℕ ℕ fun _ => 4, Reaches Possible (perform id) (start (fun _ => 100) 0) s ∧
      (∀ x, s.sentCount x < 2 ^ 31) ∧ (s.node .a).history.acks = [(1, 71)] ∧
      s.sentBy .b = [.reply 0 1 81] ∧
      (s.node .a).history.deliveries = [(.reply 0 1 81, .payload 0 false 81)] :=
  ⟨_, Allowed.reaches (l := returnedTwice) (by decide), by decide,
    by decide, by decide, by decide⟩

end Session

end SequentialExchange
