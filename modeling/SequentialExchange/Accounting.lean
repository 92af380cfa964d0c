import SequentialExchange.Reservations
import SequentialExchange.SyncNetwork

/-!
# The books of one endpoint

A node makes calls one after the other, on whatever packets arrive. Its history
then adds up: each packet handed over is answered at most once, and exactly once
when its number is not outstanding any more; each packet sent is pending or was
handed back, once, by a reply or an acknowledgement that names its number. Only a
packet processed under a false exemption can make a sent one disappear.
-/

namespace SequentialExchange

open WrapNumbering GuardedRuns

variable {S R : Type*} {CAP : ℕ} [NeZero CAP]

namespace Node

/-- One call. -/
def perform (n : Node S R CAP) (c : Call S R) : Node S R CAP :=
  ⟨(n.seqEx.call c).2, n.history.record (n.seqEx.input? c) (n.seqEx.call c).1⟩

/-- Calls one after the other. -/
def performAll (n : Node S R CAP) (cs : List (Call S R)) : Node S R CAP := cs.foldl perform n

omit [NeZero CAP] in
/-- `SeqEx::new`, and nothing was done with it. -/
def new (interval : Int64) (initialSeqNo : SeqNo) : Node S R CAP :=
  ⟨SeqEx.new interval initialSeqNo, History.empty⟩

end Node

/-- Packets are received, and none is sent. -/
structure History.Hears (h h' : History S R) : Prop where
  sent : h'.sent = h.sent
  deliveries : ∀ d ∈ h.deliveries, d ∈ h'.deliveries
  acks : ∀ a ∈ h.acks, a ∈ h'.acks

namespace History

/-- A call that brings nothing. -/
theorem Hears.refl (h : History S R) : h.Hears h := ⟨rfl, fun _ hd => hd, fun _ ha => ha⟩

/-- What two calls bring is what they bring together. -/
theorem Hears.trans {h h' h'' : History S R} (h₁ : h.Hears h') (h₂ : h'.Hears h'') :
    h.Hears h'' where
  sent := h₂.sent.trans h₁.sent
  deliveries d hd := h₂.deliveries d (h₁.deliveries d hd)
  acks a ha := h₂.acks a (h₁.acks a ha)

/-- Taking in a packet only adds to the history. -/
theorem hears_take (h : History S R) (p : Packet R) (ok : RecvOkRaw S R) :
    h.Hears (h.take p ok) := by
  cases ok with
  | ack d => exact ⟨rfl, fun _ hd => hd, fun _ ha => List.mem_append_left _ ha⟩
  | payload | reply => exact ⟨rfl, fun _ hd => List.mem_append_left _ hd, fun _ ha => ha⟩

end History

/-! ## What was received -/

/-- The number that the call gives back, by what it returns. -/
def Call.settled : Call S R → Answer S R → Option SeqNo
  | .reply _ n _ _ _, .replied (some _) => some n
  | .ack n _, .acked (some _) => some n
  | _, _ => none

/-- The numbers that the calls give back, each with a reply or an acknowledgement. -/
def Node.settled (n : Node S R CAP) : List (Call S R) → List SeqNo
  | [] => []
  | c :: cs => (c.settled (n.seqEx.call c).1).toList ++ (n.perform c).settled cs

/-- A call that gives nothing back makes outstanding what it hands over. -/
theorem History.record_numbers (s : SeqEx S R CAP) {c : Call S R} (hc : Sync.givesBack c = false)
    (h : History S R) :
    ∃ l, (h.record (s.input? c) (s.call c).1).deliveredNumbers = h.deliveredNumbers ++ l ∧
      (s.call c).2.concurrentReplies = s.concurrentReplies ++ l := by
  have heff := s.call_effect c
  generalize (s.call c).1 = a, (s.call c).2 = s' at heff ⊢
  have hnothing {h' : History S R} {t : SeqEx S R CAP} (hsame : h'.deliveries = h.deliveries)
      (hreplies : t.concurrentReplies = s.concurrentReplies) :
      ∃ l, h'.deliveredNumbers = h.deliveredNumbers ++ l ∧
        t.concurrentReplies = s.concurrentReplies ++ l :=
    ⟨[], by rw [deliveredNumbers, hsame, List.append_nil]; rfl, by rw [hreplies, List.append_nil]⟩
  cases heff with
  | reply _ _ _ _ _ hc' | ack _ _ hc' | unlock hc' => simp [hc', Sync.givesBack] at hc
  | send => exact hnothing rfl rfl
  | heed r hc' =>
    subst hc'
    exact hnothing rfl rfl
  | resendAck => exact hnothing rfl rfl
  | hold _ _ _ _ _ _ _ _ hquiet => exact hnothing (by rw [hquiet.2]) rfl
  | resend _ _ hre _ hrec _ => exact hnothing (by rw [hrec]) hre.replies
  | idle _ hquiet => exact hnothing (by rw [hquiet.2]) rfl
  | hand n r b d _ t hin hplaced _ _ =>
    refine ⟨[n], ?_, ?_⟩
    · rw [hin, record_handing, take_delivery (t.handOver_ne_ack n r b d)]
      simp [deliveredNumbers]
    · rw [SeqEx.handOver_replies, hplaced.frame.2.2.1]

namespace Node

variable {n : Node S R CAP} {l : List SeqNo}

/-- A number that is outstanding is given back once. -/
theorem perform_settled (h : n.history.deliveredNumbers.Perm (n.seqEx.concurrentReplies ++ l))
    (c : Call S R) :
    (n.perform c).history.deliveredNumbers.Perm
      ((n.perform c).seqEx.concurrentReplies ++
        (l ++ (c.settled (n.seqEx.call c).1).toList)) := by
  have hreturn {m : SeqNo} {rest : List SeqNo}
      (hrest : n.seqEx.concurrentReplies.Perm (m :: rest)) :
      n.history.deliveredNumbers.Perm (rest ++ (l ++ [m])) := by
    have hmove : (m :: (rest ++ l)).Perm (rest ++ (l ++ [m])) := by
      rw [← List.append_assoc]
      exact (List.perm_append_singleton m (rest ++ l)).symm
    exact h.trans ((hrest.append_right l).trans hmove)
  have hkeep : n.history.deliveredNumbers.Perm (n.seqEx.concurrentReplies ++ (l ++ [])) := by
    rwa [List.append_nil]
  have hissue (hc : Sync.givesBack c = false) :
      (n.perform c).history.deliveredNumbers.Perm
        ((n.perform c).seqEx.concurrentReplies ++ (l ++ [])) := by
    obtain ⟨l', hnumbers, hreplies⟩ := History.record_numbers n.seqEx hc n.history
    have hmove : (n.seqEx.concurrentReplies ++ l ++ l').Perm
        (n.seqEx.concurrentReplies ++ l' ++ l) := by
      rw [List.append_assoc, List.append_assoc]
      exact List.perm_append_comm.append_left _
    rw [perform, List.append_nil]
    simp only [hnumbers, hreplies]
    exact (h.append_right l').trans hmove
  cases c with
  | reply t m u b d =>
    simp only [perform, SeqEx.call, SeqEx.replyRawAndDirect]
    rcases n.seqEx.removeReservation_cases m with ⟨rest, hrest, hremove⟩ | ⟨-, hremove⟩
    · rw [hremove]
      exact hreturn hrest
    · rw [hremove]
      exact hkeep
  | ack m u =>
    simp only [perform, SeqEx.call, SeqEx.ackRawAndDirect]
    rcases n.seqEx.removeReservation_cases m with ⟨rest, hrest, hremove⟩ | ⟨-, hremove⟩
    · rw [hremove]
      exact hreturn hrest
    · rw [hremove]
      exact hkeep
  | unlock => exact hkeep
  | _ => exact hissue rfl

/-- In every run, whatever the packets: each time a packet is handed over its number is
outstanding or was given back by one reply or acknowledgement, and nothing else is
outstanding or was given back. -/
theorem delivered_settled_once (interval : Int64) (initialSeqNo : SeqNo) (cs : List (Call S R)) :
    ((new interval initialSeqNo : Node S R CAP).performAll cs).history.deliveredNumbers.Perm
      (((new interval initialSeqNo : Node S R CAP).performAll cs).seqEx.concurrentReplies ++
        (new interval initialSeqNo : Node S R CAP).settled cs) := by
  suffices hall : ∀ (n : Node S R CAP) (l : List SeqNo),
      n.history.deliveredNumbers.Perm (n.seqEx.concurrentReplies ++ l) →
      (n.performAll cs).history.deliveredNumbers.Perm
        ((n.performAll cs).seqEx.concurrentReplies ++ (l ++ n.settled cs)) by
    exact hall (new interval initialSeqNo) [] (List.Perm.refl _)
  induction cs with
  | nil =>
    intro n l h
    rw [settled, List.append_nil]
    exact h
  | cons c cs ih =>
    intro n l h
    have hrest := ih (n.perform c) _ (perform_settled h c)
    rwa [List.append_assoc l] at hrest

/-- Two packets are handed over; the first is acknowledged, twice, and the second is kept. -/
def acknowledgedTwice : List (Call ℕ ℕ) :=
  [.receive (.payload 0 70), .receive (.payload 1 71), .ack 0 false, .ack 0 false]

/-- A packet that is acknowledged twice is given back once. -/
theorem delivered_settled_once_acknowledgedTwice :
    ((new 100 0 : Node ℕ ℕ 4).performAll acknowledgedTwice).history.deliveredNumbers.Perm
      (((new 100 0 : Node ℕ ℕ 4).performAll acknowledgedTwice).seqEx.concurrentReplies ++
        (new 100 0 : Node ℕ ℕ 4).settled acknowledgedTwice) :=
  delivered_settled_once 100 0 acknowledgedTwice

example : ((new 100 0 : Node ℕ ℕ 4).performAll acknowledgedTwice).seqEx.concurrentReplies = [1] ∧
    (new 100 0 : Node ℕ ℕ 4).settled acknowledgedTwice = [0] := by decide

end Node

/-- This is what the packet says, paired only when it names a number. -/
def RecvOkRaw.Matches (p : Packet R) : RecvOkRaw S R → Prop
  | .payload n b d => ∃ r, p = .newWithData n r b d
  | .reply n b d _ => ∃ m, p = .newWithData n (some m) b d
  | .ack _ => False

/-- A packet is handed over as it is. -/
theorem Node.perform_matches {n : Node S R CAP}
    (h : ∀ d ∈ n.history.deliveries, d.2.Matches d.1) (c : Call S R) :
    ∀ d ∈ (n.perform c).history.deliveries, d.2.Matches d.1 := by
  obtain ⟨s, h'⟩ := n
  unfold Node.perform
  have heff := s.call_effect c
  generalize (s.call c).1 = a, (s.call c).2 = s' at heff ⊢
  cases heff with
  | hand n r b d doPump t hin hplaced hfull hlock =>
    rw [hin, History.record_handing, History.take_delivery (t.handOver_ne_ack n r b d)]
    intro d' hd'
    rcases List.mem_append.mp hd' with hd' | hd'
    · exact h d' hd'
    · rw [List.mem_singleton.mp hd']
      rcases t.handOver_cases n r b d with ⟨m, e, rfl, -, -, ht⟩ | ⟨-, ht⟩
      · rw [ht]
        exact ⟨m, rfl⟩
      · rw [ht]
        exact ⟨r, rfl⟩
  | heed _ hc =>
    subst hc
    exact h
  | hold _ _ _ _ _ _ _ _ hquiet => rwa [hquiet.2]
  | resend _ _ _ _ hrec _ => rwa [hrec]
  | idle _ hquiet => rwa [hquiet.2]
  | _ => exact h

/-! ## What was sent -/

/-- The data of the packet that the reply was paired with. -/
def RecvOkRaw.paired? : RecvOkRaw S R → Option S
  | .reply _ _ _ d => some d
  | .payload .. | .ack _ => none

/-- The numbers that replies named, with the data that came along with them. -/
def History.replies (h : History S R) : List (SeqNo × S) :=
  h.deliveries.filterMap fun d => d.2.paired?.bind fun w => d.1.replyNo?.map (·, w)

/-- The packet at this position was sent with this number and data. -/
def SentAs (base : SeqNo) (sent : List (Packet S)) (k : ℕ) (a : SeqNo × S) : Prop :=
  a.1 = number base k ∧ ∃ p, sent[k]? = some p ∧ p.payload? = some a.2

omit [NeZero CAP] in
/-- What stands at a position stays there when more packets are sent. -/
theorem SentAs.mono {base : SeqNo} {sent sent' : List (Packet S)} {k : ℕ} {a : SeqNo × S}
    (h : SentAs base sent k a) (hsent : sent <+: sent') : SentAs base sent' k a := by
  obtain ⟨hnum, p, hp, hdata⟩ := h
  obtain ⟨rest, rfl⟩ := hsent
  exact ⟨hnum, p, by rw [List.getElem?_append_left (List.getElem?_eq_some_iff.mp hp).1, hp], hdata⟩

/-- The positions that were acknowledged and those that were replied to: they are
distinct, and what is pending is at none of them. -/
structure Books (base : SeqNo) (n : Node S R CAP) (acked replied : List ℕ) : Prop where
  sends : Sends base n.seqEx n.history.sent
  acks : List.Forall₂ (SentAs base n.history.sent) acked n.history.acks
  replies : List.Forall₂ (SentAs base n.history.sent) replied n.history.replies
  nodup : (acked ++ replied).Nodup
  live : ∀ i p, n.seqEx.pending i = some p →
    ∃ k ∉ acked ++ replied, n.history.sent[k]? = some p ∧ i = cell CAP (number base k)

/-- Every position that was not handed back is pending, in a cell of its own. -/
structure Books.Complete (base : SeqNo) (n : Node S R CAP) (acked replied : List ℕ) : Prop where
  pending : ∀ k p, n.history.sent[k]? = some p → k ∉ acked ++ replied →
    n.seqEx.pending (cell CAP (number base k)) = some p
  apart : ∀ j k, j < n.history.sent.length → k < n.history.sent.length → j ∉ acked ++ replied →
    k ∉ acked ++ replied → cell CAP (number base j) = cell CAP (number base k) → j = k

namespace Books

variable {base : SeqNo} {n n' : Node S R CAP} {acked replied : List ℕ} {s : SeqEx S R CAP}
  {h : History S R}

/-- Nothing was sent and nothing has been given back. -/
theorem start (interval : Int64) (base : SeqNo) :
    Books base (Node.new interval base : Node S R CAP) [] [] where
  sends := Sends.start interval base
  acks := .nil
  replies := .nil
  nodup := List.nodup_nil
  live i p hp := by cases hp

/-- An endpoint that has sent nothing has accounted for everything. -/
theorem Complete.start (interval : Int64) (base : SeqNo) :
    Complete base (Node.new interval base : Node S R CAP) [] [] where
  pending k p hp := by cases hp
  apart j k hj := absurd hj (Nat.not_lt_zero j)

/-- Every position handed back was sent. -/
theorem lt_of_mem (hb : Books base n acked replied) {k : ℕ} (hk : k ∈ acked ++ replied) :
    k < n.history.sent.length := by
  have hone {ks : List ℕ} {l : List (SeqNo × S)}
      (hl : List.Forall₂ (SentAs base n.history.sent) ks l) (hk : k ∈ ks) :
      k < n.history.sent.length := by
    obtain ⟨a, -, -, p, hp, -⟩ := exists_left_of_forall₂ hl.flip hk
    exact (List.getElem?_eq_some_iff.mp hp).1
  exact (List.mem_append.mp hk).elim (hone hb.acks) (hone hb.replies)

/-- A pending packet is at a position that was not handed back. -/
theorem entry (hb : Books base n acked replied) {i : Fin CAP} {e : SendEntry S}
    (he : n.seqEx.sendWindow i = some e) :
    ∃ k ∉ acked ++ replied, i = cell CAP (number base k) ∧
      n.history.sent[k]? = some e.toPacket ∧ SentAs base n.history.sent k (e.seqNo, e.data) := by
  obtain ⟨k, hk, hsent, hcell⟩ := hb.live i e.toPacket (by rw [SeqEx.pending, he]; rfl)
  have hnum := hb.sends.numbered k e.toPacket hsent
  rw [SendEntry.seqNo?_toPacket, Option.some_inj] at hnum
  exact ⟨k, hk, hcell, hsent, hnum, e.toPacket, hsent, e.payload?_toPacket⟩

/-- The history stays, and packets may leave the window. -/
theorem shrink (hb : Books base n acked replied) (hhistory : n'.history = n.history)
    (hnext : n'.seqEx.nextSendSeqNo = n.seqEx.nextSendSeqNo)
    (hpending : ∀ i p, n'.seqEx.pending i = some p → n.seqEx.pending i = some p) :
    Books base n' acked replied where
  sends := by
    rw [hhistory]
    exact hb.sends.shrink hnext hpending
  acks := by rw [hhistory]; exact hb.acks
  replies := by rw [hhistory]; exact hb.replies
  nodup := hb.nodup
  live i p hp := by
    rw [hhistory]
    exact hb.live i p (hpending i p hp)

/-- An accepted packet takes a new position. -/
theorem insert (hb : Books base ⟨s, h⟩ acked replied) (t : Int64) (r : Option SeqNo) (b : Bool)
    (d : S) :
    Books base ⟨(s.insertEntry t r b d).2, { h with sent := h.sent ++ [(s.insertEntry t r b d).1] }⟩
      acked replied where
  sends := hb.sends.insert t r b d
  acks := hb.acks.imp fun _ _ ha => ha.mono (List.prefix_append _ _)
  replies := hb.replies.imp fun _ _ ha => ha.mono (List.prefix_append _ _)
  nodup := hb.nodup
  live i p hp := by
    simp only [SeqEx.insertEntry_pending] at hp
    by_cases hi : i = cell CAP s.nextSendSeqNo
    · subst hi
      rw [Function.update_self] at hp
      refine ⟨h.sent.length, fun hk => (hb.lt_of_mem hk).false, ?_, by rw [hb.sends.next]⟩
      rw [List.getElem?_concat_length, hp]
    · rw [Function.update_of_ne hi] at hp
      obtain ⟨k, hk, hsent, hcell⟩ := hb.live i p hp
      exact ⟨k, hk, by rw [List.getElem?_append_left (List.getElem?_eq_some_iff.mp hsent).1, hsent],
        hcell⟩

/-- Inserting into an empty cell loses nothing. -/
theorem Complete.insert (hc : Complete base ⟨s, h⟩ acked replied)
    (hb : Books base ⟨s, h⟩ acked replied) (hfree : s.sendWindow (s.sendCell 0) = none) (t : Int64)
    (r : Option SeqNo) (b : Bool) (d : S) :
    Complete base
      ⟨(s.insertEntry t r b d).2, { h with sent := h.sent ++ [(s.insertEntry t r b d).1] }⟩
      acked replied := by
  have hcell : s.sendCell 0 = cell CAP (number base h.sent.length) := by
    have hnext : s.nextSendSeqNo = number base h.sent.length := hb.sends.next
    simp [SeqEx.sendCell, hnext]
  have hother {j : ℕ} (hj : j < h.sent.length) (hnot : j ∉ acked ++ replied) :
      cell CAP (number base j) ≠ cell CAP (number base h.sent.length) := by
    intro hsame
    have hpending := hc.pending j _ (List.getElem?_eq_getElem hj) hnot
    rw [hsame, ← hcell, SeqEx.pending_eq_none.mpr hfree] at hpending
    cases hpending
  have hcases {j : ℕ} (hj : j < h.sent.length + 1) : j < h.sent.length ∨ j = h.sent.length := by
    omega
  refine ⟨fun k p hp hk => ?_, fun j k hj hk hj' hk' hsame => ?_⟩
  · have hlt := (List.getElem?_eq_some_iff.mp hp).1
    rw [List.length_append, List.length_singleton] at hlt
    rcases hcases hlt with hlt | rfl
    · rw [List.getElem?_append_left hlt] at hp
      exact SeqEx.pending_insert hfree (hc.pending k p hp hk)
    · rw [List.getElem?_concat_length] at hp
      rw [← hcell, SeqEx.insertEntry_pending, ← hp]
      simp [SeqEx.sendCell]
  · rw [List.length_append, List.length_singleton] at hj hk
    rcases hcases hj with hj | rfl <;> rcases hcases hk with hk | rfl
    · exact hc.apart j k hj hk hj' hk' hsame
    · exact absurd hsame (hother hj hj')
    · exact absurd hsame.symm (hother hk hk')
    · rfl

/-- A packet that is taken out of its cell leaves its position. -/
theorem take (hb : Books base n acked replied) {k : ℕ} {s' : SeqEx S R CAP}
    (hwindow : s'.sendWindow =
      Function.update n.seqEx.sendWindow (cell CAP (number base k)) none) {i : Fin CAP}
    {p : Packet S} (hp : s'.pending i = some p) :
    ∃ k', k' ∉ acked ++ replied ∧ k' ≠ k ∧ n.history.sent[k']? = some p ∧
      i = cell CAP (number base k') := by
  rw [SeqEx.pending_remove hwindow] at hp
  obtain ⟨k', hk', hsent, rfl⟩ := hb.live i p (SeqEx.pending_of_remove hp)
  refine ⟨k', hk', ?_, hsent, rfl⟩
  rintro rfl
  rw [Function.update_self] at hp
  cases hp

/-- Other positions stay pending. -/
theorem Complete.take (hc : Complete base n acked replied) {k : ℕ}
    (hk : k ∉ acked ++ replied) (hlt : k < n.history.sent.length) {s' : SeqEx S R CAP}
    (hwindow : s'.sendWindow =
      Function.update n.seqEx.sendWindow (cell CAP (number base k)) none) {k' : ℕ} {p : Packet S}
    (hp : n.history.sent[k']? = some p) (hk' : k' ∉ acked ++ replied) (hne : k' ≠ k) :
    s'.pending (cell CAP (number base k')) = some p := by
  rw [SeqEx.pending_remove hwindow, Function.update_of_ne, hc.pending k' p hp hk']
  intro hsame
  exact hne (hc.apart k' k (List.getElem?_eq_some_iff.mp hp).1 hlt hk' hk hsame)

/-- A packet is taken out and handed back. -/
theorem handBack (hb : Books base ⟨s, h⟩ acked replied) {k : ℕ} (hk : k ∉ acked ++ replied)
    (hlt : k < h.sent.length) {t : SeqEx S R CAP} (hnext : t.nextSendSeqNo = s.nextSendSeqNo)
    (hwindow : t.sendWindow = Function.update s.sendWindow (cell CAP (number base k)) none)
    {g : History S R} {acked' replied' : List ℕ} (hsent : g.sent = h.sent)
    (hacks : List.Forall₂ (SentAs base h.sent) acked' g.acks)
    (hreplies : List.Forall₂ (SentAs base h.sent) replied' g.replies)
    (hperm : (acked' ++ replied').Perm (k :: (acked ++ replied))) :
    Books base ⟨t, g⟩ acked' replied' ∧
      (Complete base ⟨s, h⟩ acked replied → Complete base ⟨t, g⟩ acked' replied') := by
  have hnot {j : ℕ} : j ∉ acked' ++ replied' ↔ j ≠ k ∧ j ∉ acked ++ replied := by
    rw [hperm.mem_iff, List.mem_cons, not_or]
  refine ⟨⟨?_, hsent ▸ hacks, hsent ▸ hreplies, ?_, fun i p hp => ?_⟩,
    fun hc => ⟨fun j p hp hj => ?_, fun i j hi hj hi' hj' hsame => ?_⟩⟩
  · rw [hsent]
    refine hb.sends.shrink hnext fun i p hp => ?_
    rw [SeqEx.pending_remove hwindow] at hp
    exact SeqEx.pending_of_remove hp
  · exact hperm.nodup_iff.mpr (List.nodup_cons.mpr ⟨hk, hb.nodup⟩)
  · obtain ⟨j, hj, hne, hp', hcell⟩ := hb.take hwindow hp
    exact ⟨j, hnot.mpr ⟨hne, hj⟩, hsent ▸ hp', hcell⟩
  · obtain ⟨hne, hj⟩ := hnot.mp hj
    exact hc.take hk hlt hwindow (hsent ▸ hp) hj hne
  · exact hc.apart i j (hsent ▸ hi) (hsent ▸ hj) (hnot.mp hi').2 (hnot.mp hj').2 hsame

/-- A packet is handed over; the pending packet that it answers, if any, is handed back. -/
theorem hand (hb : Books base ⟨s, h⟩ acked replied) {t : SeqEx S R CAP}
    (hwin : t.sendWindow = s.sendWindow) (hnextSend : t.nextSendSeqNo = s.nextSendSeqNo)
    (n : SeqNo) (r : Option SeqNo) (b : Bool) (d : R) :
    ∃ acked' replied',
      Books base ⟨(t.handOver n r b d).2,
        h.take (.newWithData n r b d) (t.handOver n r b d).1⟩ acked' replied' ∧
      (Complete base ⟨s, h⟩ acked replied →
        Complete base ⟨(t.handOver n r b d).2,
          h.take (.newWithData n r b d) (t.handOver n r b d).1⟩ acked' replied') := by
  rw [History.take_delivery (t.handOver_ne_ack n r b d)]
  rcases t.handOver_cases n r b d with ⟨m, e, rfl, he, hm, ht⟩ | ⟨-, ht⟩
  · -- the reply is paired with a pending packet
    rw [ht]
    rw [hwin] at he
    obtain ⟨k, hk, hcell, hsent, has⟩ := hb.entry he
    have hlt := (List.getElem?_eq_some_iff.mp hsent).1
    rw [hm] at has
    refine ⟨acked, replied ++ [k], ?_⟩
    have hreplies : List.Forall₂ (SentAs base h.sent) (replied ++ [k])
        ({ h with deliveries := h.deliveries ++
          [(Packet.newWithData n (some m) b d, .reply n b d e.data)] } :
            History S R).replies := by
      have hlist : ({ h with deliveries := h.deliveries ++
          [(Packet.newWithData n (some m) b d, .reply n b d e.data)] } : History S R).replies =
            h.replies ++ [(m, e.data)] := by
        simp [History.replies, RecvOkRaw.paired?]
      rw [hlist]
      exact List.rel_append hb.replies (.cons has .nil)
    have hnext := hb.handBack (g := { h with deliveries := h.deliveries ++
        [(Packet.newWithData n (some m) b d, .reply n b d e.data)] })
      (t := { t.reserve n b with
        sendWindow := Function.update t.sendWindow (cell CAP m) none }) hk hlt hnextSend
      (by rw [← hcell, ← hwin]) rfl hb.acks hreplies (by
        rw [← List.append_assoc]
        exact List.perm_append_singleton k (acked ++ replied))
    exact ⟨hnext.1, hnext.2⟩
  · rw [ht]
    have hreplies : ({ h with deliveries := h.deliveries ++
        [(Packet.newWithData n r b d, .payload n b d)] } : History S R).replies = h.replies := by
      simp [History.replies, RecvOkRaw.paired?]
    have hpending : (t.reserve n b).pending = s.pending := SeqEx.pending_congr hwin
    refine ⟨acked, replied, ⟨hb.sends.shrink hnextSend fun i p hp => hpending ▸ hp, hb.acks,
      hreplies ▸ hb.replies, hb.nodup, fun i p hp => hb.live i p (hpending ▸ hp)⟩,
      fun hc => ⟨fun k p hp hk => hpending ▸ hc.pending k p hp hk, hc.apart⟩⟩

/-- Every call keeps the books, and they stay complete when the reserved cells are empty. -/
theorem perform (hb : Books base n acked replied) (c : Call S R) :
    ∃ acked' replied', Books base (n.perform c) acked' replied' ∧
      (n.seqEx.Fits → n.seqEx.Reserved → Complete base n acked replied →
        Complete base (n.perform c) acked' replied') := by
  obtain ⟨s, h⟩ := n
  unfold Node.perform
  have heff := s.call_effect c
  generalize (s.call c).1 = a, (s.call c).2 = s' at heff ⊢
  have hstay {t : SeqEx S R CAP} {h' : History S R} (hhistory : h' = h)
      (hnext : t.nextSendSeqNo = s.nextSendSeqNo) (hpending : t.pending = s.pending) :
      ∃ acked' replied', Books base ⟨t, h'⟩ acked' replied' ∧
        (s.Fits → s.Reserved → Complete base ⟨s, h⟩ acked replied →
          Complete base ⟨t, h'⟩ acked' replied') := by
    subst hhistory
    exact ⟨acked, replied, hb.shrink rfl hnext fun i p hp => hpending ▸ hp, fun _ _ hc =>
      ⟨fun k p hp hk => hpending ▸ hc.pending k p hp hk, hc.apart⟩⟩
  cases heff with
  | send t b f hc hfull =>
    exact ⟨acked, replied, hb.insert t none b _, fun hfits _ hc =>
      hc.insert hb (SeqEx.free_of_isFullInner_none hfits.length_lt hfull 0 (Nat.zero_le _)) t none b
        _⟩
  | reply t r u b d hc l hl s1 hs1 =>
    have hlen : s.concurrentReplies.length = l.length + 1 := hl.length_eq
    have hb1 : Books base ⟨s1, h⟩ acked replied := by
      subst hs1
      exact hb.shrink rfl rfl fun _ _ hp => hp
    refine ⟨acked, replied, hb1.insert t (some r) b d, fun _ hreserved hc => ?_⟩
    have hc1 : Complete base ⟨s1, h⟩ acked replied := by
      subst hs1
      exact ⟨hc.pending, hc.apart⟩
    have hpos : 0 < s.concurrentReplies.length := by omega
    have hfree : s1.sendWindow (s1.sendCell 0) = none := by
      subst hs1
      exact hreserved 0 hpos
    exact hc1.insert hb1 hfree t (some r) b d
  | ack | unlock | resendAck => exact hstay rfl rfl rfl
  | hold _ _ _ _ _ _ _ _ hquiet => exact hstay (hquiet.2 _ _) rfl rfl
  | resend _ _ hre _ hrec _ => exact hstay (hrec _ _) hre.nextSend hre.pending
  | idle _ hquiet => exact hstay (hquiet.2 _ _) rfl rfl
  | heed r hc e he hr =>
    subst hc
    obtain ⟨k, hk, hcell, hsent, has⟩ := hb.entry he
    have hlt := (List.getElem?_eq_some_iff.mp hsent).1
    rw [hr] at has
    refine ⟨acked ++ [k], replied, ?_⟩
    have hnext := hb.handBack (g := { h with acks := h.acks ++ [(r, e.data)] })
      (t := { s with sendWindow := Function.update s.sendWindow (cell CAP r) none }) hk hlt rfl
      (by rw [hcell]) rfl (List.rel_append hb.acks (.cons has .nil)) hb.replies (by
        rw [List.append_assoc]
        exact List.perm_middle)
    exact ⟨hnext.1, fun _ _ => hnext.2⟩
  | hand n r b d doPump t hin hplaced hfull hlock =>
    obtain ⟨hwin, hnextSend, -, -⟩ := hplaced.frame
    rw [hin, History.record_handing]
    obtain ⟨acked', replied', hbooks, hcomplete⟩ := hb.hand hwin hnextSend n r b d
    exact ⟨acked', replied', hbooks, fun _ _ => hcomplete⟩

/-- The books are kept through any list of calls. -/
theorem performAll (hb : Books base n acked replied) (cs : List (Call S R)) :
    ∃ acked' replied', Books base (n.performAll cs) acked' replied' := by
  induction cs generalizing n acked replied with
  | nil => exact ⟨acked, replied, hb⟩
  | cons c cs ih =>
    obtain ⟨acked', replied', hb', -⟩ := hb.perform c
    exact ih hb'

end Books

namespace Node

/-- Every packet sent and not handed back is pending, and every outstanding number has an
empty cell. -/
structure Pending (base : SeqNo) (n : Node S R CAP) : Prop where
  fits : n.seqEx.Fits
  reserved : n.seqEx.Reserved
  books : ∃ acked replied, Books base n acked replied ∧ Books.Complete base n acked replied

namespace Pending

variable {base : SeqNo} {n : Node S R CAP}

/-- Nothing is pending at first. -/
theorem start (interval : Int64) (base : SeqNo) :
    (new interval base : Node S R CAP).Pending base where
  fits := SeqEx.Fits.start interval base
  reserved i hi := absurd hi (Nat.not_lt_zero i)
  books := ⟨[], [], Books.start interval base, Books.Complete.start interval base⟩

/-- A call keeps this unless it processes a packet under a false exemption. -/
theorem perform (hC : ∃ e, CAP = 2 ^ e) (htwo : 2 ≤ CAP) (h : n.Pending base) {c : Call S R}
    (hc : n.seqEx.NoFalseExemption c) : (n.perform c).Pending base := by
  obtain ⟨acked, replied, hbooks, hcomplete⟩ := h.books
  obtain ⟨acked', replied', hbooks', hcomplete'⟩ := hbooks.perform c
  exact ⟨h.fits.call hC htwo c, h.reserved.call hC htwo h.fits c hc, acked', replied', hbooks',
    hcomplete' h.fits h.reserved hcomplete⟩

/-- Every pending packet stays in the window through calls without a false exemption. -/
theorem performAll (hC : ∃ e, CAP = 2 ^ e) (htwo : 2 ≤ CAP) {cs : List (Call S R)}
    (hcs : Allowed (fun (n : Node S R CAP) c => n.seqEx.NoFalseExemption c) Node.perform n cs)
    (h : n.Pending base) : (n.performAll cs).Pending base := by
  induction cs generalizing n with
  | nil => exact h
  | cons c cs ih => exact ih hcs.2 (h.perform hC htwo hcs.1)

end Pending

/-- In every run, whatever the packets: what is pending and what was handed back, by
acknowledgements or along with replies, are distinct packets that were sent. While
no packet is processed under a false exemption they are all that was sent. -/
theorem sent_pending_or_handedBack (hC : ∃ e ≥ 2, CAP = 2 ^ e) (interval : Int64)
    (initialSeqNo : SeqNo) (cs : List (Call S R)) :
    ∃ acked replied,
      Books initialSeqNo ((new interval initialSeqNo : Node S R CAP).performAll cs) acked replied ∧
      (Allowed (fun (u : Node S R CAP) c => u.seqEx.NoFalseExemption c) perform
          (new interval initialSeqNo) cs →
        Books.Complete initialSeqNo ((new interval initialSeqNo : Node S R CAP).performAll cs)
          acked replied) := by
  obtain ⟨e, he, rfl⟩ := hC
  have hC : ∃ k, 2 ^ e = 2 ^ k := ⟨e, rfl⟩
  have htwo : 2 ≤ 2 ^ e := le_trans (by decide) (Nat.pow_le_pow_right (by decide) he)
  suffices hall : ∀ (n : Node S R (2 ^ e)) (acked replied : List ℕ),
      Books initialSeqNo n acked replied → n.seqEx.Fits →
      ∃ acked' replied', Books initialSeqNo (n.performAll cs) acked' replied' ∧
        (n.seqEx.Reserved → Books.Complete initialSeqNo n acked replied →
          Allowed (fun (u : Node S R (2 ^ e)) c => u.seqEx.NoFalseExemption c) perform n cs →
          Books.Complete initialSeqNo (n.performAll cs) acked' replied') by
    obtain ⟨acked, replied, hbooks, hcomplete⟩ := hall (new interval initialSeqNo) [] []
      (Books.start interval initialSeqNo) (SeqEx.Fits.start _ _)
    exact ⟨acked, replied, hbooks,
      hcomplete (fun i hi => by cases hi) (Books.Complete.start interval initialSeqNo)⟩
  induction cs with
  | nil => exact fun n acked replied hb _ => ⟨acked, replied, hb, fun _ hc _ => hc⟩
  | cons c cs ih =>
    intro n acked replied hb hfits
    obtain ⟨acked', replied', hb', hc'⟩ := hb.perform c
    obtain ⟨acked'', replied'', hb'', hc''⟩ :=
      ih (n.perform c) acked' replied' hb' (hfits.call hC htwo c)
    refine ⟨acked'', replied'', hb'', fun hreserved hc hallowed => ?_⟩
    exact hc'' (hreserved.call hC htwo hfits c hallowed.1) (hc' hfits hreserved hc) hallowed.2

/-- Two packets are sent; one is acknowledged twice, the other replied to. -/
def handedBackOnce : List (Call ℕ ℕ) :=
  [.trySend 0 false fun _ => 70, .trySend 0 false fun _ => 71, .receive (.ack 1),
    .receive (.ack 1), .receive (.reply 0 0 80)]

/-- A packet that is handed back once, with all the others still pending. -/
theorem sent_pending_or_handedBack_handedBackOnce :
    ∃ acked replied, Books 0 ((new 100 0 : Node ℕ ℕ 4).performAll handedBackOnce) acked replied ∧
      (Allowed (fun u c => u.seqEx.NoFalseExemption c) perform (new 100 0 : Node ℕ ℕ 4)
        handedBackOnce → Books.Complete 0 ((new 100 0 : Node ℕ ℕ 4).performAll handedBackOnce)
          acked replied) :=
  sent_pending_or_handedBack ⟨2, le_rfl, rfl⟩ 100 0 handedBackOnce

example : ((new 100 0 : Node ℕ ℕ 4).performAll handedBackOnce).history.acks = [(1, 71)] ∧
    ((new 100 0 : Node ℕ ℕ 4).performAll handedBackOnce).history.replies = [(0, 70)] := by decide

end Node

end SequentialExchange
