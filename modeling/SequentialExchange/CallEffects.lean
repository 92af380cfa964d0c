import SequentialExchange.Calls
import SequentialExchange.EndpointSteps

/-!
# The effect of a call

Every call on an endpoint has one of the effects listed in `Effect`: it sends,
returns a reply number, takes an acknowledgement, stores a packet, hands one
over, resends, or does nothing that matters. The session-level results argue by
cases on the effect only. Resending changes the
times of window entries and nothing else, so entries are compared as packets.
-/

namespace SequentialExchange

open WrapNumbering

variable {S R : Type*} {CAP : ℕ}

/-- The packet kept in each cell of the send window. -/
def SeqEx.pending (s : SeqEx S R CAP) (i : Fin CAP) : Option (Packet S) :=
  (s.sendWindow i).map SendEntry.toPacket

/-- Two states that differ in times only. -/
structure SeqEx.Retimed (s t : SeqEx S R CAP) : Prop where
  nextSend : t.nextSendSeqNo = s.nextSendSeqNo
  nextRecv : t.nextRecvSeqNo = s.nextRecvSeqNo
  recvWindow : t.recvWindow = s.recvWindow
  replies : t.concurrentReplies = s.concurrentReplies
  locked : t.isLocked = s.isLocked
  pending : t.pending = s.pending

/-- An answer that puts nothing on the wire and tells the application nothing
that the history keeps. -/
def Answer.Quiet (a : Answer S R) : Prop :=
  a.emitted = [] ∧ ∀ (h : History S R) i, h.record i a = h

/-- The answer of a receive or pump call that hands something over. -/
def Call.handing (c : Call S R) (ok : RecvOkRaw S R) (doPump : Bool) : Answer S R :=
  match c with
  | .pump => .pumped ok doPump
  | _ => .received ok doPump

namespace SeqEx

/-- A call that changes no time. -/
theorem Retimed.rfl' (s : SeqEx S R CAP) : s.Retimed s := ⟨rfl, rfl, rfl, rfl, rfl, rfl⟩

/-- Two calls that change times only. -/
theorem Retimed.trans {s t u : SeqEx S R CAP} (h : s.Retimed t) (h' : t.Retimed u) :
    s.Retimed u :=
  ⟨h'.nextSend.trans h.nextSend, h'.nextRecv.trans h.nextRecv, h'.recvWindow.trans h.recvWindow,
    h'.replies.trans h.replies, h'.locked.trans h.locked, h'.pending.trans h.pending⟩

variable [NeZero CAP]

/-- The receive side `t` at the moment a packet is handed over: at the cursor
the window is forwarded, ahead of it a marker is left. -/
inductive Placed (s : SeqEx S R CAP) (c : Call S R) (n : SeqNo) (b : Bool) :
    Bool → SeqEx S R CAP → Prop where
  /-- The packet is at the cursor, received or stored. -/
  | next (hnext : c = .pump ∨ n = s.nextRecvSeqNo ∧ s.InRange n) :
      Placed s c n b (s.advance s.nextRecvSeqNo).1 (s.advance s.nextRecvSeqNo).2
  /-- A normal packet is received ahead of the cursor. -/
  | ahead (hpump : c ≠ .pump) (hrange : s.InRange n) (hne : n ≠ s.nextRecvSeqNo)
      (hcst : b = false) : Placed s c n b false (s.setRecvEntry n (.unlocked n))

/-- Placing a packet concerns the receive side only. -/
theorem Placed.frame {s t : SeqEx S R CAP} {c : Call S R} {n : SeqNo} {b doPump : Bool}
    (h : s.Placed c n b doPump t) :
    t.sendWindow = s.sendWindow ∧ t.nextSendSeqNo = s.nextSendSeqNo ∧
      t.concurrentReplies = s.concurrentReplies ∧ t.isLocked = s.isLocked := by
  cases h <;> exact ⟨rfl, rfl, rfl, rfl⟩

/-- What one call can do to an endpoint. -/
inductive Effect (s : SeqEx S R CAP) (c : Call S R) : Answer S R → SeqEx S R CAP → Prop where
  /-- A packet of the application is accepted. -/
  | send (t : Int64) (b : Bool) (f : SeqNo → S) (hc : c = .trySend t b f)
      (hfull : s.isFullInner none = .ok ()) :
      Effect s c (.sent (s.insertEntry t none b (f s.nextSendSeqNo)).1)
        (s.insertEntry t none b (f s.nextSendSeqNo)).2
  /-- An outstanding reply number is returned with a reply. -/
  | reply (t : Int64) (r : SeqNo) (u b : Bool) (d : S) (hc : c = .reply t r u b d)
      (l : List SeqNo) (hl : s.concurrentReplies.Perm (r :: l)) (s1 : SeqEx S R CAP)
      (hs1 : s1 = { s with concurrentReplies := l, isLocked := s.isLocked && !u }) :
      Effect s c (.replied (some (s1.insertEntry t (some r) b d).1))
        (s1.insertEntry t (some r) b d).2
  /-- An outstanding reply number is returned with an acknowledgement. -/
  | ack (r : SeqNo) (u : Bool) (hc : c = .ack r u)
      (l : List SeqNo) (hl : s.concurrentReplies.Perm (r :: l)) :
      Effect s c (.acked (some (.ack r)))
        { s with concurrentReplies := l, isLocked := s.isLocked && !u }
  /-- The lock is given up. -/
  | unlock (hc : c = .unlock) : Effect s c .unlocked { s with isLocked := false }
  /-- An acknowledgement hands data back. -/
  | heed (r : SeqNo) (hc : c = .receive (.ack r)) (e : SendEntry S)
      (he : s.sendWindow (cell CAP r) = some e) (hr : e.seqNo = r) :
      Effect s c (.received (.ack e.data) false)
        { s with sendWindow := Function.update s.sendWindow (cell CAP r) none }
  /-- A packet below the window is acknowledged once more. -/
  | resendAck (n : SeqNo) (r : Option SeqNo) (b : Bool) (d : R)
      (hc : c = .receive (.newWithData n r b d)) (hbelow : s.isBelowRange n = true)
      (hpending : s.isReplyPending n = false) (howed : n ∉ s.concurrentReplies) :
      Effect s c (.dropped (.droppedDuplicateResendAck n)) s
  /-- A packet is stored. -/
  | hold (n : SeqNo) (r : Option SeqNo) (b : Bool) (d : R) (e : TryRawRecvError)
      (hc : c = .receive (.newWithData n r b d)) (hrange : s.InRange n)
      (hcell : s.isDuplicate n = false) (hquiet : (Answer.dropped e : Answer S R).Quiet) :
      Effect s c (.dropped e) (s.setRecvEntry n (.occupied n r b d))
  /-- A packet is handed over. -/
  | hand (n : SeqNo) (r : Option SeqNo) (b : Bool) (d : R) (doPump : Bool) (t : SeqEx S R CAP)
      (hin : s.input? c = some (.newWithData n r b d)) (hplaced : s.Placed c n b doPump t)
      (hfull : s.isFullInner r = .ok ()) (hlock : b = true → s.isLocked = false) :
      Effect s c (c.handing (t.handOver n r b d).1 doPump) (t.handOver n r b d).2
  /-- Window entries are sent again. -/
  | resend (a : Answer S R) (s' : SeqEx S R CAP) (hre : s.Retimed s')
      (hin : s.input? c = none) (hrec : ∀ (h : History S R) i, h.record i a = h)
      (hout : ∀ p ∈ a.emitted, ∃ i, s.pending i = some p) : Effect s c a s'
  /-- Nothing happens. -/
  | idle (a : Answer S R) (hquiet : a.Quiet) : Effect s c a s

/-! ## Resending -/

omit [NeZero CAP] in
/-- A new time in an entry changes no pending packet. -/
theorem pending_update_retimed {s : SeqEx S R CAP} {i : Fin CAP} {e e' : SendEntry S}
    (he : s.sendWindow i = some e) (hp : e'.toPacket = e.toPacket) :
    ({ s with sendWindow := Function.update s.sendWindow i (some e') } : SeqEx S R CAP).pending =
      s.pending := by
  funext j
  by_cases hj : j = i
  · subst hj
    simp [pending, he, hp]
  · simp [pending, Function.update_of_ne hj]

/-- A scan changes times only, and what it returns is in the window. -/
theorem serviceScan_retimed (t : Int64) (n : ℕ) (iter : ServiceIter) (s : SeqEx S R CAP) :
    s.Retimed (serviceScan t n iter s).2.2 ∧
      ∀ p ∈ (serviceScan t n iter s).1, ∃ i, s.pending i = some p := by
  induction n generalizing iter with
  | zero => exact ⟨⟨rfl, rfl, rfl, rfl, rfl, rfl⟩, nofun⟩
  | succ n ih =>
    unfold serviceScan
    dsimp only
    cases he : s.sendWindow (cell CAP iter.seqNo) with
    | none => exact ih _
    | some e =>
      dsimp only
      have hp : ({ e with nextResendTime := t + s.resendInterval } : SendEntry S).toPacket =
          e.toPacket := rfl
      split
      · refine ⟨⟨rfl, rfl, rfl, rfl, rfl, pending_update_retimed he hp⟩, ?_⟩
        rintro p ⟨rfl⟩
        exact ⟨cell CAP iter.seqNo, by simp [pending, he, hp]⟩
      · exact ih _

/-- One step of `service` changes times only and emits pending packets. -/
theorem serviceDirect_retimed (s : SeqEx S R CAP) (t : Int64) (iter : Option ServiceIter) :
    s.Retimed (s.serviceDirect t iter).2.2 ∧
      ∀ p ∈ (s.serviceDirect t iter).1, ∃ i, s.pending i = some p := by
  unfold serviceDirect
  split
  · exact serviceScan_retimed _ _ _ _
  · exact ⟨Retimed.rfl' s, nofun⟩

/-- So does the whole pass. -/
theorem serviceLoop_retimed (t : Int64) (fuel : ℕ) (iter : Option ServiceIter)
    (s : SeqEx S R CAP) :
    s.Retimed (serviceLoop t fuel iter s).2 ∧
      ∀ p ∈ (serviceLoop t fuel iter s).1, ∃ i, s.pending i = some p := by
  induction fuel generalizing iter s with
  | zero => exact ⟨Retimed.rfl' s, nofun⟩
  | succ fuel ih =>
    obtain ⟨hre, hout⟩ := serviceDirect_retimed s t iter
    unfold serviceLoop
    dsimp only
    split
    · rename_i p hp
      obtain ⟨hre', hout'⟩ := ih (s.serviceDirect t iter).2.1 (s.serviceDirect t iter).2.2
      refine ⟨hre.trans hre', fun q hq => ?_⟩
      rcases List.mem_cons.mp hq with rfl | hq
      · exact hout q hp
      · rw [← hre.pending]
        exact hout' q hq
    · exact ⟨hre, nofun⟩

/-! ## Classification -/

/-- Only a duplicate that is acknowledged again makes an error emit a packet. -/
theorem quiet_of_ne {e : TryRawRecvError} (h : ∀ n, e ≠ .droppedDuplicateResendAck n) :
    (Answer.dropped e : Answer S R).Quiet := by
  cases e with
  | droppedDuplicateResendAck n => exact absurd rfl (h n)
  | _ => exact ⟨rfl, fun _ _ => rfl⟩

/-- What the receipt of a data packet does. -/
theorem receive_newWithData_effect (s : SeqEx S R CAP) (n : SeqNo) (r : Option SeqNo) (b : Bool)
    (d : R) :
    s.Effect (.receive (.newWithData n r b d))
      (s.call (.receive (.newWithData n r b d))).1
      (s.call (.receive (.newWithData n r b d))).2 := by
  have hcases := receiveData_cases id s n r b d
  simp only [call, tryReceive_newWithData]
  generalize s.receiveData id n r b d = res at hcases ⊢
  cases hcases with
  | duplicate _ _ => exact .idle _ (quiet_of_ne nofun)
  | resendAck hbelow hpending howed => exact .resendAck n r b d rfl hbelow hpending howed
  | tooEarly _ _ => exact .idle _ (quiet_of_ne nofun)
  | waitsDuplicate _ e he _ _ =>
    exact .idle _ (quiet_of_ne fun n => by rcases he with rfl | rfl <;> nofun)
  | waits hrange e he hdup _ =>
    exact .hold n r b d e rfl hrange hdup
      (quiet_of_ne fun n => by rcases he with rfl | rfl <;> nofun)
  | next hrange hfull hlock hnext =>
    have hplaced : s.Placed (.receive (.newWithData n r b d)) n b _ _ :=
      .next (.inr ⟨hnext, hrange⟩)
    rw [← hnext] at hplaced
    exact .hand n r b d _ _ rfl hplaced hfull hlock
  | ahead hrange hfull hcst hnext =>
    exact .hand n r b d _ _ rfl (.ahead nofun hrange hnext hcst) hfull fun hb => by
      simp [hcst] at hb

/-- Every call has one of the listed effects. -/
theorem call_effect (s : SeqEx S R CAP) (c : Call S R) :
    s.Effect c (s.call c).1 (s.call c).2 := by
  cases c with
  | trySend t b f =>
    simp only [call, trySendDirectWith]
    cases hfull : s.isFullInner none with
    | ok u => exact .send t b f rfl hfull
    | error e => exact .idle _ ⟨rfl, fun _ _ => rfl⟩
  | receive p =>
    rcases p.eq_ack_or_newWithData with ⟨r, rfl⟩ | ⟨n, r, b, d, rfl⟩
    · simp only [call, tryReceiveRawAndDirect]
      rcases takeSend_cases s r with ⟨e, he, hr, ht⟩ | ⟨-, ht⟩
      · rw [ht]
        exact .heed r rfl e he hr
      · rw [ht]
        exact .idle _ (quiet_of_ne (by simp))
    · exact receive_newWithData_effect s n r b d
  | pump =>
    have hcases := tryPumpRaw_cases s
    simp only [call]
    generalize s.tryPumpRaw = res at hcases ⊢
    cases hcases with
    | nothing _ => exact .idle _ ⟨rfl, fun _ _ => rfl⟩
    | full _ _ _ _ e _ _ => exact .idle _ ⟨rfl, fun _ _ => rfl⟩
    | locked _ _ _ _ _ _ => exact .idle _ ⟨rfl, fun _ _ => rfl⟩
    | next n r b d hcell hfull hlock =>
      exact .hand n r b d _ _ (by simp [input?, storedPacket?, hcell]) (.next (.inl rfl)) hfull
        hlock
  | reply t r u b d =>
    simp only [call, replyRawAndDirect]
    rcases removeReservation_cases s r with ⟨l, hl, ht⟩ | ⟨-, ht⟩
    · rw [ht]
      exact .reply t r u b d rfl l hl _ rfl
    · rw [ht]
      exact .idle _ ⟨rfl, fun _ _ => rfl⟩
  | ack r u =>
    simp only [call, ackRawAndDirect]
    rcases removeReservation_cases s r with ⟨l, hl, ht⟩ | ⟨-, ht⟩
    · rw [ht]
      exact .ack r u rfl l hl
    · rw [ht]
      exact .idle _ ⟨rfl, fun _ _ => rfl⟩
  | unlock => exact .unlock rfl
  | serviceDirect t iter =>
    obtain ⟨hre, hout⟩ := serviceDirect_retimed s t iter
    refine .resend _ _ hre rfl (fun _ _ => rfl) fun p hp => hout p ?_
    simpa [call, Answer.emitted] using hp
  | service t =>
    obtain ⟨hre, hout⟩ := serviceLoop_retimed t ((lenU32 CAP).toNat + 1) none s
    exact .resend _ _ hre rfl (fun _ _ => rfl) hout

/-! ## Single calls -/

/-- Acknowledging an outstanding number shortens the list. -/
theorem call_ack {s : SeqEx S R CAP} {r : SeqNo} (hr : r ∈ s.concurrentReplies) :
    ∃ l, s.concurrentReplies.length = l.length + 1 ∧
      (s.call (.ack r false)).2 = { s with concurrentReplies := l } := by
  obtain ⟨l, hl, ht⟩ := removeReservation_of_mem hr
  simp only [call, ackRawAndDirect, ht]
  exact ⟨l, hl.length_eq, by simp⟩

/-- Replying to an outstanding number shortens the list and sends the reply. -/
theorem call_reply {s : SeqEx S R CAP} {r : SeqNo} (hr : r ∈ s.concurrentReplies) (t : Int64)
    (b : Bool) (d : S) :
    ∃ l, s.concurrentReplies.length = l.length + 1 ∧
      (s.call (.reply t r false b d)).2 =
        (({ s with concurrentReplies := l } : SeqEx S R CAP).insertEntry t (some r) b d).2 := by
  obtain ⟨l, hl, ht⟩ := removeReservation_of_mem hr
  simp only [call, replyRawAndDirect, ht]
  exact ⟨l, hl.length_eq, by simp⟩

/-- The acknowledgement of a packet in the send window takes it out. -/
theorem call_receive_ack {s : SeqEx S R CAP} {n : SeqNo} {e : SendEntry S}
    (he : s.sendWindow (cell CAP n) = some e) (hn : e.seqNo = n) :
    s.call (.receive (.ack n)) = (.received (.ack e.data) false,
      { s with sendWindow := Function.update s.sendWindow (cell CAP n) none }) := by
  simp only [call, tryReceiveRawAndDirect]
  rcases s.takeSend_cases n with ⟨e', he', -, ht⟩ | ⟨hno, -⟩
  · rw [he] at he'
    cases he'
    rw [ht]
  · exact absurd hn (hno e he)

/-! ## Processing -/

/-- The call processes the packet `p`: it is received in range or stored, passes
the fullness test, and needs no place or lock that is taken. -/
def Processes (s : SeqEx S R CAP) (c : Call S R) (p : Packet R) : Prop :=
  s.input? c = some p ∧ s.isFullInner p.replyNo? = .ok () ∧
    (p.isSeqCst = true → s.isLocked = false) ∧
    (c = .pump ∨ ∃ n ∈ p.seqNo?, s.InRange n ∧ (p.isSeqCst = true → n = s.nextRecvSeqNo))

/-- Being `try_pump` is a test on the constructor. -/
instance decidableEqPump : ∀ c : Call S R, Decidable (c = .pump)
  | .pump => isTrue rfl
  | .trySend .. | .receive _ | .reply .. | .ack .. | .unlock | .serviceDirect .. | .service _ =>
    isFalse nofun

/-- Being in range is a comparison of numbers. -/
instance (s : SeqEx S R CAP) (n : SeqNo) : Decidable (s.InRange n) :=
  inferInstanceAs (Decidable (_ ∧ _))

/-- Being processed is read off the state and the call. -/
instance [DecidableEq R] (s : SeqEx S R CAP) (c : Call S R) (p : Packet R) :
    Decidable (s.Processes c p) :=
  inferInstanceAs (Decidable (_ ∧ _ ∧ _ ∧ _))

/-- A packet that is in its turn, has room and finds the lock free is processed. -/
theorem Placed.processes {s t : SeqEx S R CAP} {c : Call S R} {n : SeqNo} {r : Option SeqNo}
    {b doPump : Bool} {d : R} (h : s.Placed c n b doPump t)
    (hin : s.input? c = some (.newWithData n r b d)) (hfull : s.isFullInner r = .ok ())
    (hlock : b = true → s.isLocked = false) : s.Processes c (.newWithData n r b d) := by
  refine ⟨hin, by simpa using hfull, by simpa using hlock, ?_⟩
  cases h with
  | next hpos => exact hpos.imp_right fun hpos => ⟨n, by simp, hpos.2, fun _ => hpos.1⟩
  | ahead _ hrange _ hb => exact .inr ⟨n, by simp, hrange, by simp [hb]⟩

/-- A processed packet is handed over. -/
theorem Processes.hand {s : SeqEx S R CAP} {c : Call S R} {p : Packet R} (h : s.Processes c p) :
    ∃ n r b d doPump t, p = .newWithData n r b d ∧ s.Placed c n b doPump t ∧
      s.call c = (c.handing (t.handOver n r b d).1 doPump, (t.handOver n r b d).2) := by
  obtain ⟨hin, hfull, hlock, hpos⟩ := h
  cases c with
  | receive q =>
    cases hin
    obtain ⟨n, hn, hrange, hnext⟩ := hpos.resolve_left (by simp)
    rcases p.eq_ack_or_newWithData with ⟨r, rfl⟩ | ⟨n', r, b, d, rfl⟩
    · cases hn
    simp only [Packet.seqNo?_newWithData, Option.mem_some_iff, Packet.replyNo?_newWithData,
      Packet.isSeqCst_newWithData] at hn hfull hlock hnext
    subst hn
    refine ⟨n', r, b, d, ?_⟩
    have hwait : s.mustWait n' r b = (false, false) := by
      cases b with
      | false => simp [mustWait, hfull]
      | true => simp [mustWait, hfull, hlock rfl, hnext rfl]
    have hcases := receiveData_cases id s n' r b d
    simp only [call, tryReceive_newWithData]
    generalize s.receiveData id n' r b d = res at hcases ⊢
    cases hcases with
    | duplicate hbelow _ => simp [hrange.1] at hbelow
    | resendAck hbelow _ _ => simp [hrange.1] at hbelow
    | tooEarly _ habove => simp [hrange.2] at habove
    | waitsDuplicate _ _ _ _ hw => simp [hwait] at hw
    | waits _ _ _ _ hw => simp [hwait] at hw
    | next _ _ _ hcur =>
      subst hcur
      exact ⟨_, _, trivial, .next (.inr ⟨rfl, hrange⟩), rfl⟩
    | ahead _ _ hb hne => exact ⟨_, _, trivial, .ahead (by simp) hrange hne hb, rfl⟩
  | pump =>
    have hcases := tryPumpRaw_cases s
    simp only [input?, storedPacket?] at hin
    simp only [call]
    generalize s.tryPumpRaw = res at hcases ⊢
    cases hcases with
    | nothing hcell =>
      split at hin
      · exact absurd ‹_› (hcell _ _ _ _)
      all_goals cases hin
    | full n r b d e hcell hfull' =>
      rw [hcell] at hin
      cases hin
      simp [hfull'] at hfull
    | locked n r d hcell _ hlocked =>
      rw [hcell] at hin
      cases hin
      simp [hlocked] at hlock
    | next n r b d hcell _ _ =>
      rw [hcell] at hin
      cases hin
      exact ⟨n, r, b, d, _, _, rfl, .next (.inl rfl), rfl⟩
  | _ => cases hin

end SeqEx

end SequentialExchange
