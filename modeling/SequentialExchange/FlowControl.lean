import SequentialExchange.ExchangeProgress
import SequentialExchange.Lossless

/-!
# Flow control in sessions of SeqCst packets

When every packet is SeqCst, early copies cannot occur. Then a peer is never
more than one window ahead of the other, so nothing it emits is dropped as too
early, no occupied cell of the send window is written, and all accepted data is
either in the window or was handed back once. The test for packets beyond the
window compares with the window length as a 32-bit word, which is zero for the
capacities from `2^32` on: there every packet is dropped.
-/

namespace SequentialExchange

open WrapNumbering GuardedRuns Exchange

variable {S R : Type*}

/-- Everything handed back, with the number of its packet. -/
def History.handedBack (h : History S R) : List (SeqNo × S) :=
  h.acks ++ h.deliveries.filterMap fun d =>
    match d.2 with
    | .reply _ _ _ sendData => d.1.replyNo?.map (·, sendData)
    | .payload _ _ _ | .ack _ => none

section Endpoint

variable {CAP : ℕ} [NeZero CAP] {base : SeqNo} {encode : S → R} {sentB : List (Packet S)}
  {s : SeqEx S R CAP} {h : History S R} {A B : Party} {P : ℕ}

/-- What was handed back are the data of the positions handed back, in order. -/
theorem Shows.handedBack (hs : Shows encode base sentB s h A) :
    List.Forall₂ (fun a r => a.1 = number base r ∧ ∃ q, h.sent[r]? = some q ∧ q.payload? = some a.2)
      h.handedBack A.handedBack := by
  refine List.rel_append hs.acks ?_
  have hlinks := hs.links
  generalize h.deliveries = ds, A.log = es at hlinks ⊢
  induction hlinks with
  | nil => exact .nil
  | cons hd _ ih =>
    obtain ⟨n, r, b, v, hd1, ⟨hm, hd2⟩ | ⟨j, q, w, hm, rfl, hq, hdata, hd2⟩⟩ := hd
    · rw [List.filterMap_cons_none (by rw [hd2]), List.filterMap_cons_none hm]
      exact ih
    · rw [List.filterMap_cons_some (b := (number base j, w)) (by simp [hd1, hd2]),
        List.filterMap_cons_some hm]
      exact .cons ⟨rfl, q, hq, hdata⟩ ih

/-- Each accepted packet is in its cell of the window or was handed back. -/
theorem Shows.kept_or_handedBack (hs : Shows encode base sentB s h A) (hl : Linked P A B)
    (hcount : h.sent.length < 2 ^ 31) :
    (h.handedBack.map Prod.fst).Nodup ∧
      ∀ n r b w, .newWithData n r b w ∈ h.sent →
        (s.pending (cell CAP n) = some (.newWithData n r b w) ↔ (n, w) ∉ h.handedBack) := by
  have hback := hs.handedBack
  have hlt {k : ℕ} (hk : k ∈ A.handedBack) : k < h.sent.length :=
    hs.next_eq ▸ ((hl.mem_handedBack k).mp hk).1
  constructor
  · have hmap : h.handedBack.map Prod.fst = A.handedBack.map (number base) := by
      generalize h.handedBack = as, A.handedBack = ks at hback ⊢
      induction hback with
      | nil => rfl
      | cons ha _ ih => rw [List.map_cons, List.map_cons, ha.1, ih]
    rw [hmap]
    refine hl.handedBack_nodup.map_on fun j hj k hk hjk => ?_
    have hj' := hlt hj
    have hk' := hlt hk
    exact (number_inj (by omega) (by omega)).mp hjk
  · intro n r b w hmem
    obtain ⟨k, hk⟩ := List.mem_iff_getElem?.mp hmem
    have hnum := hs.sends.numbered k _ hk
    rw [Packet.seqNo?_newWithData] at hnum
    obtain rfl := Option.some.inj hnum
    have hklt := (List.getElem?_eq_some_iff.mp hk).1
    have hmemback : (number base k, w) ∈ h.handedBack ↔ k ∈ A.handedBack := by
      constructor
      · intro ha
        obtain ⟨j, hj, hjnum, -⟩ := exists_left_of_forall₂ hback.flip ha
        have hjlt := hlt hj
        rwa [(number_inj (by omega) (by omega)).mp hjnum]
      · intro hka
        obtain ⟨⟨n', w'⟩, ha, hn', q, hq, hw'⟩ := exists_left_of_forall₂ hback hka
        rw [hk] at hq
        cases hq
        rw [Packet.payload?_newWithData] at hw'
        dsimp only at hn' hw'
        cases hw'
        rwa [hn'] at ha
    have hlive : s.pending (cell CAP (number base k)) = some (.newWithData (number base k) r b w) ↔
        k ∈ A.live := by
      constructor
      · intro hp
        obtain ⟨j, hj, -, hjsent⟩ := hs.pending_live _ _ hp
        have hjlt := (List.getElem?_eq_some_iff.mp hjsent).1
        have hjnum := hs.sends.numbered j _ hjsent
        rw [Packet.seqNo?_newWithData] at hjnum
        rwa [(number_inj (by omega) (by omega)).mp (Option.some.inj hjnum)]
      · intro hkl
        rw [hs.live_pending k hkl, hk]
    rw [hlive, hmemback, hl.mem_handedBack, hs.next_eq]
    tauto

/-- A new entry is written into an empty cell. -/
theorem Shows.written_empty (hC : ∃ e, CAP = 2 ^ e) (hs : Shows encode base sentB s h A)
    (hl : Linked (period CAP) A B) {c : Call S R} {p : Packet S}
    (hcall : (s.call c).1 = .sent p ∨ (s.call c).1 = .replied (some p)) :
    s.sendWindow (cell CAP s.nextSendSeqNo) = none := by
  have hcell : cell CAP s.nextSendSeqNo = s.sendCell 0 := by simp [SeqEx.sendCell]
  rw [hcell]
  have heff := s.call_effect c
  generalize (s.call c).1 = a, (s.call c).2 = s' at heff hcall
  cases heff with
  | send time b f _ hfull =>
    exact SeqEx.free_of_isFullInner_none hs.fits.length_lt hfull 0 (Nat.zero_le _)
  | reply time r u b d _ l hperm s1 _ =>
    have hlen : A.owed.length = l.length + 1 := by rw [← hs.owed_length]; exact hperm.length_eq
    rw [← SeqEx.pending_eq_none, Option.eq_none_iff_forall_ne_some]
    intro q hq
    obtain ⟨k, hk, hi, -⟩ := hs.pending_live _ _ hq
    rw [hs.sendCell_eq] at hi
    exact hl.reserved.2 0 (by omega) k hk ((cell_number_eq_iff hC base _ _).mp hi.symm)
  | hand n r b d doPump t _ _ _ _ => cases c <;> simp [Call.handing] at hcall
  | resend _ _ _ _ hrec _ =>
    -- an answer that leaves the history alone records no new packet
    have hnone : ((History.empty : History S R).record none a).sent = [] := by rw [hrec]; rfl
    rcases hcall with rfl | rfl <;> simp [History.empty] at hnone
  | idle _ hquiet =>
    have hnone : ((History.empty : History S R).record none a).sent = [] := by rw [hquiet.2]; rfl
    rcases hcall with rfl | rfl <;> simp [History.empty] at hnone
  | _ => simp at hcall

/-- A call sends at most one packet, and then it is a `try_send` or a reply. -/
theorem SeqEx.record_sent (s : SeqEx S R CAP) (c : Call S R) (h : History S R) :
    (h.record (s.input? c) (s.call c).1).sent = h.sent ∨
      ∃ n r b d, (h.record (s.input? c) (s.call c).1).sent = h.sent ++ [.newWithData n r b d] ∧
        ((∃ t f, c = .trySend t b f) ∨ ∃ t r' u d', c = .reply t r' u b d') := by
  have heff := s.call_effect c
  generalize (s.call c).1 = a, (s.call c).2 = s' at heff ⊢
  cases heff with
  | send t b f hc _ =>
    exact .inr ⟨_, none, b, _, by rw [History.record_sent, SeqEx.insertEntry_packet],
      .inl ⟨t, f, hc⟩⟩
  | reply t r u b d hc _ _ s1 _ =>
    exact .inr ⟨_, some r, b, d, by rw [History.record_replied, SeqEx.insertEntry_packet],
      .inr ⟨t, r, u, d, hc⟩⟩
  | heed r hc e _ _ => exact .inl (by subst hc; rfl)
  | hand n r b d _ t hin _ _ _ =>
    rw [hin, History.record_handing, History.take_sent]
    exact .inl rfl
  | hold _ _ _ _ _ _ _ _ hq => exact .inl (by rw [hq.2])
  | resend _ _ _ _ hrec _ => exact .inl (by rw [hrec])
  | idle _ hq => exact .inl (by rw [hq.2])
  | _ => exact .inl rfl

/-- A packet less than a window ahead of the cursor is not too early. -/
theorem Shows.not_tooEarly (hs : Shows encode base sentB s h A) (hcap : CAP < 2 ^ 32)
    (hcountB : sentB.length < 2 ^ 31) (hahead : sentB.length ≤ A.cursor + CAP) {p : Packet R}
    (hp : (∃ r, p = .ack r) ∨ ∃ k, wire? encode sentB k = some p)
    (hnum : ∀ k q, wire? encode sentB k = some q → q.seqNo? = some (number base k)) :
    (s.call (.receive p)).1 ≠ .dropped .droppedTooEarly := by
  rcases p.eq_ack_or_newWithData with ⟨r, rfl⟩ | ⟨n, r, b, d, rfl⟩
  · simp only [SeqEx.call, SeqEx.tryReceiveRawAndDirect]
    rcases s.takeSend_cases r with ⟨e, -, -, ht⟩ | ⟨-, ht⟩ <;> rw [ht] <;> simp
  obtain ⟨k, hk⟩ := hp.resolve_left (not_exists.mpr (Packet.newWithData_ne_ack n r b d))
  have hn := hnum k _ hk
  rw [Packet.seqNo?_newWithData] at hn
  obtain rfl := Option.some.inj hn
  have hklt := wire?_lt hk
  have hcur : A.cursor ≤ sentB.length := hs.receives.cursor_le
  have hcursor : s.nextRecvSeqNo = number base A.cursor := hs.receives.view.cursor_eq
  have hcases := SeqEx.receiveData_cases id s (number base k) r b d
  simp only [SeqEx.call, SeqEx.tryReceive_newWithData]
  generalize s.receiveData id (number base k) r b d = res at hcases ⊢
  cases hcases with
  | tooEarly hbelow habove =>
    exfalso
    rw [SeqEx.isBelowRange_eq_false_iff, hcursor] at hbelow
    rcases Nat.lt_or_ge k A.cursor with hlt | hge
    · rw [number_sub_of_lt hlt (by omega)] at hbelow
      omega
    · have hrange : s.InRange (number base k) := by
        rw [SeqEx.inRange_iff, hcursor, number_sub_of_le hge (by omega), Nat.mod_eq_of_lt hcap]
        omega
      simp [hrange.2] at habove
  | waitsDuplicate _ e he _ _ => rcases he with rfl | rfl <;> simp
  | waits _ e he _ _ => rcases he with rfl | rfl <;> simp
  | _ => simp

end Endpoint

namespace Session

variable {cap : Side → ℕ} [∀ x, NeZero (cap x)]

/-- What flow control promises for the direction from `x` to its peer. -/
structure FlowControl (s : Session S R cap) (x : Side) : Prop where
  ahead : ((s.node x).seqEx.nextSendSeqNo - (s.node x.peer).seqEx.nextRecvSeqNo).toNat ≤ cap x
  admitted : ∀ p ∈ s.net x,
    ((s.node x.peer).seqEx.call (.receive p)).1 ≠ .dropped .droppedTooEarly
  written : ∀ c p, ((s.node x).seqEx.call c).1 = .sent p ∨
      ((s.node x).seqEx.call c).1 = .replied (some p) →
    (s.node x).seqEx.sendWindow (cell (cap x) (s.node x).seqEx.nextSendSeqNo) = none
  handedBack_once : ((s.node x).history.handedBack.map Prod.fst).Nodup
  conserved : ∀ n r b d, .newWithData n r b d ∈ s.sentBy x →
    ((s.node x).seqEx.pending (cell (cap x) n) = some (.newWithData n r b d) ↔
      (n, d) ∉ (s.node x).history.handedBack)

/-- The event sends no normal packet. -/
def AllSeqCst : Event S R → Prop
  | .call _ (.trySend _ seqCst _) | .call _ (.reply _ _ _ seqCst _) => seqCst = true
  | _ => True

/-- Being SeqCst is read off the event. -/
instance decidableAllSeqCst : ∀ e : Event S R, Decidable (AllSeqCst e)
  | .call _ (.trySend _ seqCst _) | .call _ (.reply _ _ _ seqCst _) =>
    inferInstanceAs (Decidable (seqCst = true))
  | .call _ (.receive _) | .call _ .pump | .call _ (.ack ..) | .call _ .unlock
  | .call _ (.serviceDirect ..) | .call _ (.service _) | .lose .. => isTrue trivial

variable {encode : S → R} {base : SeqNo} {interval : Side → Int64} {s : Session S R cap}

/-- Under this guard everything sent is SeqCst. -/
theorem reaches_allSeqCst
    (hrun : Reaches (fun (u : Session S R cap) e => u.Possible e ∧ AllSeqCst e) (perform encode)
      (start interval base) s) (x : Side) : ∀ p ∈ s.sentBy x, p.isSeqCst = true := by
  refine hrun.invariant (I := fun u : Session S R cap => ∀ p ∈ u.sentBy x, p.isSeqCst = true)
    nofun fun u e _ hu hguard => ?_
  cases e with
  | lose y i => exact hu
  | call y c =>
    rcases Side.eq_or_eq_peer x y with rfl | rfl
    · rw [sentBy, perform_node_self]
      rcases (u.node y).seqEx.record_sent c (u.node y).history with
        hsent | ⟨n, r, b, d, hsent, hcst⟩
      · rw [hsent]
        exact hu
      · have hb : b = true := by
          rcases hcst with ⟨t, f, rfl⟩ | ⟨t, r', v, d', rfl⟩ <;> exact hguard.2
        rw [hsent, List.forall_mem_append, List.forall_mem_singleton, Packet.isSeqCst_newWithData]
        exact ⟨hu, hb⟩
    · rw [sentBy, perform_node_ne (Side.ne_peer x)]
      exact hu

/-- In these runs no early copy can occur. -/
theorem noEarlyCopy_of_allSeqCst (hcarries : ∀ x, Carries encode base s x)
    (hcst : ∀ x, ∀ p ∈ s.sentBy x, p.isSeqCst = true) {e : Event S R} (hp : s.Possible e)
    (x : Side) : s.NoEarlyCopy x e := by
  cases e with
  | lose y i => trivial
  | call y c =>
    cases c with
    | receive p =>
      rintro rfl ⟨hb, n, hn, -⟩
      rcases (hcarries y.peer).inFlight p hp with ⟨r, rfl⟩ | ⟨k, hk⟩
      · cases hn
      · obtain ⟨q, hq, rfl⟩ := Option.map_eq_some_iff.mp hk
        rw [Packet.isSeqCst_map, hcst y.peer q (List.mem_of_getElem? hq)] at hb
        cases hb
    | _ => trivial

/-- Below `2 ^ 32` cells every part of the flow control holds. -/
theorem flowControl_of_small {CAP : ℕ} [NeZero CAP] (hC : ∃ e ≥ 2, CAP = 2 ^ e)
    (hcap : CAP < 2 ^ 32) {s : Session S R fun _ => CAP}
    (hrun : Reaches (fun (u : Session S R fun _ => CAP) e => u.Possible e ∧ AllSeqCst e)
      (perform encode) (start interval base) s)
    (hcount : ∀ x, s.sentCount x < 2 ^ 31) (x : Side) : s.FlowControl x := by
  obtain ⟨W, hW, hlinked⟩ := reaches_follows (Q := AllLinked fun _ => CAP) (fun _ => hC)
    (fun _ _ h => h.1) (AllLinked.start fun _ => hC)
    (by
      intro u e W W' hu hguard hW hadv hfresh hlinked
      have hcst := reaches_allSeqCst hu
      have hcarries := reaches_carries (fun _ _ h => h.1) hu
      have hcopy := fun y => noEarlyCopy_of_allSeqCst hcarries hcst hguard.1 y
      exact hlinked.advance hadv fun y => hfresh y (hlinked y).fresh (hcopy y))
    hrun hcount
  have hpow : ∃ e, CAP = 2 ^ e := hC.imp fun _ h => h.2
  have hcarries := reaches_carries (fun _ _ h => h.1) hrun
  have hpeer : Consistent (W x.peer) (W x) := by
    have := hW.consistent x.peer
    rwa [Side.peer_peer] at this
  have hshows := hW.shows x.peer
  rw [Side.peer_peer] at hshows
  have hahead : s.sentCount x ≤ (W x.peer).cursor + CAP := by
    have := (hlinked x).ahead hpeer
    rwa [period_eq hcap.le, (hW.shows x).next_eq] at this
  have hcur : (W x.peer).cursor ≤ s.sentCount x := hshows.receives.cursor_le
  obtain ⟨hnodup, hkept⟩ := (hW.shows x).kept_or_handedBack (hlinked x) (hcount x)
  refine ⟨?_, fun p hp => ?_, fun c p hp => (hW.shows x).written_empty hpow (hlinked x) hp,
    hnodup, hkept⟩
  · have hcount' := hcount x
    rw [(hW.shows x).sends.next, hshows.receives.view.cursor_eq]
    show (number base (s.sentCount x) - number base (W x.peer).cursor).toNat ≤ CAP
    rw [number_sub_of_le hcur (by omega)]
    exact Nat.sub_le_of_le_add (by rwa [Nat.add_comm])
  · exact hshows.not_tooEarly hcap (hcount x) hahead ((hcarries x).inFlight p hp)
      fun k q hq => (hcarries x).sends.wire_seqNo hq

/-- The first packet of a session is accepted, and its peer drops it when the
window length is zero as a 32-bit word. -/
theorem first_packet_tooEarly {CAP : ℕ} [NeZero CAP] (hC : ∃ e ≥ 2, CAP = 2 ^ e)
    (hcap : 2 ^ 32 ≤ CAP) (encode : S → R) (interval : Side → Int64) (base : SeqNo) (d : S) :
    let s := (start interval base : Session S R fun _ => CAP).perform encode
      (.call .a (.trySend 0 true fun _ => d))
    s.net .a = [.seqCstPayload base (encode d)] ∧ s.sentCount .a = 1 ∧ s.sentCount .b = 0 ∧
      ((s.node .b).seqEx.call (.receive (.seqCstPayload base (encode d)))).1 =
        .dropped .droppedTooEarly := by
  have hpow : ∃ e, CAP = 2 ^ e := hC.imp fun _ h => h.2
  have hfull : (SeqEx.new (interval .a) base : SeqEx S R CAP).isFullInner none = .ok () := by
    refine (SeqEx.isFullInner_eq_ok_iff (by simp [SeqEx.new])).mpr ⟨?_, fun i _ => ?_⟩
    · simp only [SeqEx.new, List.length_nil]
      omega
    · simp [SeqEx.isBlockedAt, SeqEx.new]
  have hsend : (SeqEx.new (interval .a) base : SeqEx S R CAP).call (.trySend 0 true fun _ => d) =
      (.sent (.seqCstPayload base d),
        ((SeqEx.new (interval .a) base : SeqEx S R CAP).insertEntry 0 none true d).2) := by
    simp only [SeqEx.call, SeqEx.trySendDirectWith, hfull]
    rfl
  refine ⟨?_, ?_, rfl, ?_⟩
  · rw [perform_net_self]
    simp only [start, hsend]
    rfl
  · rw [sentCount, perform_node_self]
    simp only [start, hsend]
    rfl
  · have hother : Side.b ≠ Side.a := by decide
    rw [perform_node_ne hother]
    have hnew : ((start interval base : Session S R fun _ => CAP).node .b).seqEx =
      SeqEx.new (interval .b) base := rfl
    have hpacket : Packet.seqCstPayload base (encode d) = .newWithData base none true (encode d) :=
      rfl
    have hrange : ¬ (SeqEx.new (interval .b) base : SeqEx S R CAP).InRange base := fun hrange =>
      absurd (hrange.lt_period hpow).1 (not_lt.mpr hcap)
    have hbelow : (SeqEx.new (interval .b) base : SeqEx S R CAP).isBelowRange base = false := by
      rw [SeqEx.isBelowRange_eq_false_iff]
      simp [SeqEx.new]
    rw [hnew, hpacket]
    simp only [SeqEx.call, SeqEx.tryReceive_newWithData, SeqEx.receiveData_tooEarly hrange hbelow]

/-- Flow control holds along all runs of SeqCst packets exactly for the
capacities below `2^32`. -/
theorem flowControl_iff_small [Inhabited S] {CAP : ℕ} [NeZero CAP] (hC : ∃ e ≥ 2, CAP = 2 ^ e)
    (encode : S → R) (interval : Side → Int64) (initialSeqNo : SeqNo) :
    (∀ s : Session S R fun _ => CAP,
      Reaches (fun u e => u.Possible e ∧ AllSeqCst e) (perform encode)
        (start interval initialSeqNo) s →
      (∀ x, s.sentCount x < 2 ^ 31) → ∀ x, s.FlowControl x) ↔ CAP < 2 ^ 32 := by
  constructor
  · intro h
    by_contra hcap
    obtain ⟨hnet, hcountA, hcountB, hdrop⟩ :=
      first_packet_tooEarly hC (not_lt.mp hcap) encode interval initialSeqNo default
    let e : Event S R := .call .a (.trySend 0 true fun _ => default)
    have hguard : (start interval initialSeqNo : Session S R fun _ => CAP).Possible e ∧
      AllSeqCst e := ⟨trivial, rfl⟩
    have hflow := h _ (Reaches.single hguard)
      (Side.forall.mpr ⟨hcountA.trans_lt (by decide), hcountB.trans_lt (by decide)⟩) .a
    exact hflow.admitted (.seqCstPayload initialSeqNo (encode default))
      (hnet ▸ List.mem_singleton_self _) hdrop
  · exact fun hcap s hrun hcount x => flowControl_of_small hC hcap hrun hcount x

/-- The first packet is sent and received. -/
def firstReceived : List (Event ℕ ℕ) :=
  [.call .a (.trySend 0 true fun _ => 70), .call .b (.receive (.seqCstPayload 0 70))]

/-- Four cells, after the first packet has arrived. -/
theorem flowControl_iff_small_four :
    (firstReceived.foldl (perform id) (start (fun _ => 100) 0) :
      Session ℕ ℕ fun _ => 4).FlowControl .a :=
  (flowControl_iff_small ⟨2, le_rfl, rfl⟩ id (fun _ => 100) 0).mpr (by decide) _
    (Allowed.reaches (l := firstReceived) (by decide))
    (Side.forall.mpr ⟨by decide, by decide⟩) .a

/-- With `2^32` cells the first packet sent is dropped as too early. -/
theorem full_ring_drops_first :
    ∃ s : Session ℕ ℕ fun _ => 2 ^ 32,
      Reaches (fun u e => u.Possible e ∧ AllSeqCst e) (perform id) (start (fun _ => 100) 0) s ∧
        (∀ x, s.sentCount x < 2 ^ 31) ∧ .seqCstPayload 0 70 ∈ s.net .a ∧
        ((s.node .b).seqEx.call (.receive (.seqCstPayload 0 70))).1 =
          .dropped .droppedTooEarly := by
  let e : Event ℕ ℕ := .call .a (.trySend 0 true fun _ => 70)
  have hguard : (start (fun _ => 100) 0 : Session ℕ ℕ fun _ => 2 ^ 32).Possible e ∧
    AllSeqCst e := ⟨trivial, rfl⟩
  obtain ⟨hnet, hcountA, hcountB, hdrop⟩ :=
    first_packet_tooEarly ⟨32, by decide, rfl⟩ le_rfl id (fun _ => 100) 0 70
  exact ⟨_, Reaches.single hguard,
    Side.forall.mpr ⟨hcountA.trans_lt (by decide), hcountB.trans_lt (by decide)⟩,
    hnet ▸ List.mem_singleton_self _, hdrop⟩

end Session

end SequentialExchange
