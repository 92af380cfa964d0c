import SequentialExchange.ExactlyOnce
import SequentialExchange.ExchangeRefinement

/-!
# Nothing is reported as received that was not delivered

Data is handed back to the sender, by an acknowledgement or together with a
reply, only after the application of the receiver was given the packet. In
particular no acknowledgement is emitted for a packet that is missing or merely
stored. This holds in every session, early copies included.
-/

namespace SequentialExchange

open WrapNumbering GuardedRuns Exchange

variable {S R : Type*}

section Endpoint

variable {CAP : ℕ} [NeZero CAP] {base : SeqNo} {encode : S → R} {sentB : List (Packet S)}
  {s : SeqEx S R CAP} {h : History S R} {A B : Party}

/-- The numbers delivered are those of the positions the party was handed. -/
theorem Shows.deliveredNumbers_eq (hs : Shows encode base sentB s h A) {CAP' : ℕ} [NeZero CAP']
    {peer : SeqEx S R CAP'} (hpeer : Sends base peer sentB) :
    h.deliveredNumbers = A.delivered.map (number base) :=
  hs.receives.deliveredNumbers_eq hpeer

/-- What an acknowledgement handed back is the data of a position heard. -/
theorem Shows.heard_of_ack (hs : Shows encode base sentB s h A) {a : SeqNo × S} (ha : a ∈ h.acks) :
    ∃ r ∈ A.heard, a.1 = number base r ∧ ∃ q, h.sent[r]? = some q ∧ q.payload? = some a.2 :=
  exists_left_of_forall₂ hs.acks.flip ha

/-- What a reply handed back is the data of a position it was paired with. -/
theorem Shows.paired_of_reply (hs : Shows encode base sentB s h A)
    {d : Packet R × RecvOkRaw S R} (hd : d ∈ h.deliveries) {n : SeqNo} {b : Bool} {v : R} {w : S}
    (hreply : d.2 = .reply n b v w) :
    ∃ k r, (k, some r) ∈ A.log ∧ wire? encode sentB k = some d.1 ∧
      (d.1.seqNo? = some n ∧ d.1.replyNo? = some (number base r) ∧ d.1.payload? = some v) ∧
      ∃ q, h.sent[r]? = some q ∧ q.payload? = some w := by
  obtain ⟨k, m, hk, hwire, n', r', b', v', hd1, hm⟩ := hs.log_of_delivery hd
  rcases hm with ⟨-, hpayload⟩ | ⟨j, q, w', rfl, rfl, hq, hdata, hreply'⟩
  · rw [hreply] at hpayload
    cases hpayload
  · rw [hreply] at hreply'
    cases hreply'
    exact ⟨k, j, hk, hwire, by simp [hd1], q, hq, hdata⟩

/-- A stored packet was not delivered. -/
theorem Shows.stored_not_delivered (hC : ∃ e, CAP = 2 ^ e) (hs : Shows encode base sentB s h A)
    {CAP' : ℕ} [NeZero CAP'] {peer : SeqEx S R CAP'} (hpeer : Sends base peer sentB)
    (hcountB : sentB.length < 2 ^ 31) {i : Fin CAP} {p : Packet R} (hp : s.stored i = some p)
    (hsent : ∃ k, wire? encode sentB k = some p) : ∀ r ∈ h.deliveredNumbers, p.seqNo? ≠ some r := by
  intro r hr hseq
  rw [hs.deliveredNumbers_eq hpeer, List.mem_map] at hr
  obtain ⟨j, hj, rfl⟩ := hr
  obtain ⟨n, r', b, d, hcell, rfl⟩ := SeqEx.stored_eq_some hp
  rw [Packet.seqNo?_newWithData] at hseq
  obtain rfl := Option.some.inj hseq
  have hsmall : CAP < 2 ^ 32 := by
    rcases hs.fits with ⟨h1, -⟩ | ⟨h1, -⟩
    · exact h1
    · rw [h1] at hcell
      cases hcell
  have hhalf : period CAP ≤ 2 ^ 31 := by
    obtain ⟨e, rfl⟩ := hC
    have he : e < 32 := (Nat.pow_lt_pow_iff_right (by decide)).mp hsmall
    exact (period_le _).trans (Nat.pow_le_pow_right (by decide) (by omega))
  obtain ⟨k, hk1, hk2, rfl, hnum⟩ := hs.receives.view.marks.occupied i _ _ _ _ hcell
  have hjlt := hs.receives.lt_of_mem_log hj
  have hcur := hs.receives.cursor_le
  obtain rfl : j = k := (number_inj (by omega) (by omega)).mp hnum
  -- a delivered position at or above the cursor has a marker in its cell
  rcases (hs.receives.sound.mem_log j).mp hj with hlow | hearly
  · omega
  · rw [hs.receives.view.marks.marked j hearly] at hcell
    cases hcell

end Endpoint

/-- A call that emits something delivers nothing. -/
theorem History.record_of_emitted {h : History S R} {i : Option (Packet R)} {a : Answer S R}
    (ha : a.emitted ≠ []) : (h.record i a).deliveredNumbers = h.deliveredNumbers := by
  cases a with
  | replied p => cases p <;> rfl
  | received ok doPump => exact absurd rfl ha
  | pumped ok doPump => exact absurd rfl ha
  | _ => rfl

namespace Session

variable {cap : Side → ℕ} [∀ x, NeZero (cap x)]

/-- Whatever a call of `x` hands back, and whatever was handed back before, is
the data of a packet that the application of the peer had been given before the
call. An acknowledgement is emitted only for a packet that the application of
`x` was given and that is not in the receive window. -/
theorem handedBack_was_delivered (hC : ∀ x, ∃ e ≥ 2, cap x = 2 ^ e) (encode : S → R)
    (interval : Side → Int64) (initialSeqNo : SeqNo) {s : Session S R cap}
    (hrun : Reaches Possible (perform encode) (start interval initialSeqNo) s)
    (hcount : ∀ x, s.sentCount x < 2 ^ 31) (x : Side) (c : Call S R)
    (hc : s.Possible (.call x c)) :
    (∀ a ∈ ((s.perform encode (.call x c)).node x).history.acks,
      a.1 ∈ (s.node x.peer).history.deliveredNumbers ∧
        ∃ q ∈ (s.perform encode (.call x c)).sentBy x,
          q.seqNo? = some a.1 ∧ q.payload? = some a.2) ∧
    (∀ d ∈ ((s.perform encode (.call x c)).node x).history.deliveries, ∀ n b v w,
      d.2 = .reply n b v w →
        ∃ r, d.1.replyNo? = some r ∧ r ∈ (s.node x.peer).history.deliveredNumbers ∧
          ∃ q ∈ (s.perform encode (.call x c)).sentBy x,
            q.seqNo? = some r ∧ q.payload? = some w) ∧
    ∀ r, .ack r ∈ ((s.node x).seqEx.call c).1.emitted →
      r ∈ (s.node x).history.deliveredNumbers ∧
        ∀ i p, (s.node x).seqEx.stored i = some p → p.seqNo? ≠ some r := by
  obtain ⟨W, hW, -⟩ := reaches_follows (Q := fun _ => True) hC (fun _ _ h => h) trivial
    (fun _ _ _ _ _ _ _ _ _ _ => trivial) hrun hcount
  have hcarries := reaches_carries (fun _ _ h => h) hrun
  obtain ⟨W', hW', -, -⟩ := hW.perform hC hcarries hcount hc
  have hcarries' : ∀ y, Carries encode initialSeqNo (s.perform encode (.call x c)) y := fun y =>
    (hcarries y).perform hc
  -- the peer was given the same packets before and after the call
  have hpeer : ((s.perform encode (.call x c)).node x.peer).history.deliveredNumbers =
      (s.node x.peer).history.deliveredNumbers := by rw [perform_node_ne (Side.peer_ne x)]
  have hgiven {r : ℕ} (hr : r ∈ (W' x.peer).delivered) :
      number initialSeqNo r ∈ (s.node x.peer).history.deliveredNumbers := by
    rw [← hpeer, (hW'.shows x.peer).deliveredNumbers_eq (hcarries' x.peer.peer).sends]
    exact List.mem_map_of_mem hr
  have hback := hW'.consistent x.peer
  rw [Side.peer_peer] at hback
  refine ⟨fun a ha => ?_, fun d hd n b v w hreply => ?_, fun r hr => ?_⟩
  · obtain ⟨r, hr, hnum, q, hq, hdata⟩ := (hW'.shows x).heard_of_ack ha
    rw [hnum]
    exact ⟨hgiven ((hW'.consistent x).heard_delivered r hr), q, List.mem_of_getElem? hq,
      (hcarries' x).sends.numbered r q hq, hdata⟩
  · obtain ⟨k, r, hk, -, ⟨-, hno, -⟩, q, hq, hdata⟩ :=
      (hW'.shows x).paired_of_reply hd hreply
    exact ⟨_, hno, hgiven ((hW'.consistent x).paired_delivered hback hk), q,
      List.mem_of_getElem? hq, (hcarries' x).sends.numbered r q hq, hdata⟩
  · have hnet : .ack r ∈ (s.perform encode (.call x c)).net x := by
      rw [perform_net_self]
      exact List.mem_append_right _ (List.mem_map.mpr ⟨_, hr, rfl⟩)
    obtain ⟨k, hk, rfl⟩ := hW'.acks x r hnet
    have hdelivered := (hW'.consistent x).acked_delivered k hk
    have hmem : number initialSeqNo k ∈ (s.node x).history.deliveredNumbers := by
      have hsame := History.record_of_emitted (h := (s.node x).history)
        (i := (s.node x).seqEx.input? c) (List.ne_nil_of_mem hr)
      have hnode : ((s.perform encode (.call x c)).node x).history.deliveredNumbers =
          (s.node x).history.deliveredNumbers := by rw [perform_node_self, hsame]
      rw [← hnode, (hW'.shows x).deliveredNumbers_eq (hcarries' x.peer).sends]
      exact List.mem_map_of_mem hdelivered
    refine ⟨hmem, fun i p hp => ?_⟩
    obtain ⟨e, -, hcap⟩ := hC x
    exact (hW.shows x).stored_not_delivered ⟨e, hcap⟩ (hcarries x.peer).sends (hcount x.peer) hp
      ((hcarries x.peer).stored x rfl i p hp) _ hmem

/-- A packet is delivered and acknowledged. -/
def acknowledged : List (Event ℕ ℕ) :=
  [.call .a (.trySend 0 false fun _ => 70), .call .b (.receive (.payload 0 70)),
    .call .b (.ack 0 false)]

/-- The state after these events. -/
def afterAcknowledged : Session ℕ ℕ cap :=
  acknowledged.foldl (perform id) (start (fun _ => 100) 0)

/-- An acknowledged packet was delivered to an endpoint of another capacity. -/
theorem handedBack_was_delivered_afterAcknowledged :
    (((afterAcknowledged : Session ℕ ℕ fun x => if x = .a then 4 else 8).perform id
        (.call .a (.receive (.ack 0)))).node .a).history.acks = [(0, 70)] ∧
      0 ∈ ((afterAcknowledged : Session ℕ ℕ fun x => if x = .a then 4 else 8).node
        .b).history.deliveredNumbers :=
  have h := handedBack_was_delivered
    (Side.forall.mpr ⟨⟨2, le_rfl, rfl⟩, ⟨3, by decide, rfl⟩⟩) id (fun _ => 100) 0
    (Allowed.reaches (l := acknowledged) (by decide)) (by decide) .a
    (.receive (.ack 0)) (by decide)
  ⟨by decide, (h.1 (0, 70) (by decide)).1⟩

end Session

end SequentialExchange
