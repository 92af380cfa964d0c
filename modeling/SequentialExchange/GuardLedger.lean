import SequentialExchange.CallEffects
import SequentialExchange.ReservationLedger
import SequentialExchange.SyncRuns

/-!
# The ledger of the guards

The guards of a shared endpoint are the tokens of a ledger: `ReplyGuard`s and
their components are tokens, `SeqCstGuard`s are keys, the outstanding reply
numbers are the reservations. Every step of a thread is a turn of the ledger,
except that a guard consumed on a closed instance is leaked.
-/

namespace SequentialExchange

open ReservationLedger

/-- The data of the application or the packet that a call returns. -/
def Answer.delivery? {S R : Type*} : Answer S R → Option (RecvOkRaw S R)
  | .received ok _ | .pumped ok _ => some ok
  | _ => none

/-- An answer that the history ignores returns nothing. -/
theorem Answer.delivery?_eq_none {S R : Type*} {a : Answer S R}
    (h : ∀ (h : History S R) i, h.record i a = h) : a.delivery? = none := by
  have hdeliveries (n : SeqNo) (d : R) :=
    congrArg (·.deliveries.length) (h History.empty (some (.payload n d)))
  have hacks (n : SeqNo) := congrArg (·.acks.length) (h History.empty (some (.ack n)))
  cases a with
  | received ok _ | pumped ok _ =>
    cases ok with
    | ack d =>
      exact absurd (hacks 0)
        (by simp [History.record, History.take, History.empty, Packet.replyNo?])
    | payload n _ d | reply n _ d _ =>
      exact absurd (hdeliveries n d) (by simp [History.record, History.take, History.empty])
  | _ => rfl

namespace Sync

variable {S R : Type*} {CAP : ℕ} [NeZero CAP]

/-- The token that a guard stands for. -/
def ReplyGuard.token (g : ReplyGuard) : SeqNo × Bool := (g.replyNo, g.isHoldingLock)

namespace SeqExInner

variable {ρ : Type*} (i : SeqExInner S R CAP)

omit [NeZero CAP] in
/-- A notification leaves the state machine alone. -/
@[simp] theorem notifyReply_seq (r : ρ) : (i.notifyReply r).inner.seq = i.seq := by
  unfold notifyReply
  split <;> rfl

omit [NeZero CAP] in
/-- It returns what it was given to return. -/
@[simp] theorem notifyReply_result (r : ρ) : (i.notifyReply r).result = r := by
  unfold notifyReply
  split <;> rfl

omit [NeZero CAP] in
/-- It closes nothing. -/
@[simp] theorem notifyReply_closed (r : ρ) : (i.notifyReply r).inner.closed = i.closed := by
  unfold notifyReply
  split <;> rfl

omit [NeZero CAP] in
/-- Passing on the lock leaves the state machine alone. -/
@[simp] theorem consumeLock_seq (g : ReplyGuard) : (i.consumeLock g).inner.seq = i.seq := by
  unfold consumeLock
  split
  · rfl
  · exact i.notifyReply_seq false

omit [NeZero CAP] in
/-- There is a `SeqCstGuard` if the lock was held. -/
@[simp] theorem consumeLock_result (g : ReplyGuard) :
    (i.consumeLock g).result = g.isHoldingLock := by
  unfold consumeLock
  split
  · rw [‹g.isHoldingLock = true›]
  · rw [i.notifyReply_result, eq_false_of_ne_true ‹¬g.isHoldingLock = true›]

omit [NeZero CAP] in
/-- Passing on the lock closes nothing. -/
@[simp] theorem consumeLock_closed (g : ReplyGuard) :
    (i.consumeLock g).inner.closed = i.closed := by
  unfold consumeLock
  split
  · rfl
  · exact i.notifyReply_closed false

/-- `try_receive` returns what the state machine hands over. -/
theorem tryReceive_spec (p : Packet R) :
    (i.tryReceive p).inner.closed = i.closed ∧
      (i.tryReceive p).inner.seq = (if i.closed then i.seq else (i.seq.call (.receive p)).2) ∧
      (Outcome.received (i.tryReceive p).result).delivery? =
        if i.closed then none else (i.seq.call (.receive p)).1.delivery? := by
  unfold tryReceive
  cases hclosed : i.closed with
  | true => exact ⟨hclosed, rfl, rfl⟩
  | false =>
    simp only [Bool.false_eq_true, if_false, SeqEx.call]
    cases (i.seq.tryReceiveRawAndDirect id p).1 with
    | ok o => exact ⟨rfl, rfl, rfl⟩
    | error e => exact ⟨rfl, rfl, rfl⟩

/-- `try_pump` returns what the state machine hands over. -/
theorem tryPump_spec :
    i.tryPump.inner.closed = i.closed ∧ i.tryPump.inner.seq = (i.seq.call .pump).2 ∧
      (Outcome.tryPumped i.tryPump.result).delivery? = (i.seq.call .pump).1.delivery? := by
  unfold tryPump
  simp only [SeqEx.call]
  cases i.seq.tryPumpRaw.1 with
  | ok o => exact ⟨rfl, rfl, rfl⟩
  | error e => exact ⟨rfl, rfl, rfl⟩

/-- An iteration of `pump` returns what the state machine hands over. -/
theorem pumpLoop_spec :
    i.pumpLoop.inner.closed = i.closed ∧ i.pumpLoop.inner.seq = (i.seq.call .pump).2 ∧
      (Outcome.pumped i.pumpLoop.result).delivery? = (i.seq.call .pump).1.delivery? := by
  unfold pumpLoop
  simp only [SeqEx.call]
  cases i.seq.tryPumpRaw.1 with
  | ok o => exact ⟨rfl, rfl, rfl⟩
  | error e => cases e <;> exact ⟨rfl, rfl, rfl⟩

/-- Only one thread pumps while another one waits. -/
theorem pump_spec :
    i.pump.inner.closed = i.closed ∧
      i.pump.inner.seq = (if i.replyReceiverWaiters then i.seq else (i.seq.call .pump).2) ∧
      (Outcome.pumped i.pump.result).delivery? =
        if i.replyReceiverWaiters then none else (i.seq.call .pump).1.delivery? := by
  unfold pump
  cases i.replyReceiverWaiters with
  | true => exact ⟨rfl, rfl, rfl⟩
  | false => exact i.pumpLoop_spec

/-- An iteration of `send` calls `try_send` once. -/
theorem sendLoop_spec (t0 t : Int64) (q : SendRequest S) :
    (i.sendLoop t0 t q).inner.closed = i.closed ∧
      (i.sendLoop t0 t q).inner.seq = (i.seq.call (.trySend t q.seqCst q.f)).2 := by
  unfold sendLoop
  simp only [SeqEx.call]
  cases (i.seq.trySendDirectWith t q.seqCst q.f).1 with
  | ok o => exact ⟨rfl, rfl⟩
  | error e =>
    obtain ⟨e, f⟩ := e
    cases e <;> exact ⟨rfl, rfl⟩

/-- `try_send` of a closed instance does nothing. -/
theorem trySend_spec (t : Int64) (b : Bool) (f : SeqNo → S) :
    (i.trySend t b f).inner.closed = i.closed ∧
      (i.trySend t b f).inner.seq =
        if i.closed then i.seq else (i.seq.call (.trySend t b f)).2 := by
  unfold trySend
  cases hclosed : i.closed with
  | true => exact ⟨hclosed, rfl⟩
  | false =>
    simp only [Bool.false_eq_true, if_false, SeqEx.call]
    cases (i.seq.trySendDirectWith t b f).1 with
    | ok o => exact ⟨rfl, rfl⟩
    | error e => exact ⟨rfl, rfl⟩

/-- The first section of `send` does what `try_send` does. -/
theorem send_spec (t0 t : Int64) (b : Bool) (f : SeqNo → S) (timeout : Option Int64) :
    (i.send t0 t b f timeout).inner.closed = i.closed ∧
      (i.send t0 t b f timeout).inner.seq =
        if i.closed then i.seq else (i.seq.call (.trySend t b f)).2 := by
  unfold send
  cases hclosed : i.closed with
  | true => exact ⟨hclosed, rfl⟩
  | false =>
    obtain ⟨hsame, hseq⟩ := i.sendLoop_spec t0 t ⟨b, f, timeout.map (saturatingAdd t0)⟩
    exact ⟨hsame.trans hclosed, hseq⟩

/-- A woken sender tries again unless its time is over or the instance is closed. -/
theorem sendResume_spec (on : Condition) (t0 t : Int64) (q : SendRequest S) :
    (i.sendResume on t0 t q).inner.closed = i.closed ∧
      (i.sendResume on t0 t q).inner.seq =
        if q.endTime.any (· ≤ t0) || i.closed then i.seq
        else (i.seq.call (.trySend t q.seqCst q.f)).2 := by
  unfold sendResume
  dsimp only
  cases htime : q.endTime.any (· ≤ t0) with
  | true => cases on <;> exact ⟨rfl, rfl⟩
  | false =>
    cases hclosed : i.closed with
    | true => cases on <;> simp [hclosed]
    | false => cases on <;> simp [hclosed, sendLoop_spec]

end SeqExInner

/-! ## Calls and guards -/

/-- The guard that comes with the answer of a call. -/
def guardOf? (a : Answer S R) : Option ReplyGuard := a.delivery?.bind ReplyGuard.ofRaw?

omit [NeZero CAP] in
/-- Nor does a guard come with it. -/
theorem guardOf?_eq_none {a : Answer S R} (h : ∀ (h : History S R) i, h.record i a = h) :
    guardOf? a = none := by
  rw [guardOf?, Answer.delivery?_eq_none h, Option.bind_none]

/-- A delivery hands over the guard of its packet. -/
theorem guardOf?_handing (c : Call S R) (s : SeqEx S R CAP) (n : SeqNo) (r : Option SeqNo)
    (b doPump : Bool) (d : R) :
    guardOf? (c.handing (s.handOver n r b d).1 doPump) = some ⟨n, b⟩ := by
  have hguard : ReplyGuard.ofRaw? (s.handOver n r b d).1 = some ⟨n, b⟩ := by
    unfold SeqEx.handOver
    cases r with
    | none => rfl
    | some r =>
      dsimp only
      split <;> rfl
  cases c <;> exact hguard

/-- Calls that give back a reservation or the lock. -/
def givesBack : Call S R → Bool
  | .reply .. | .ack .. | .unlock => true
  | _ => false

/-- Every other call issues a guard with its reservation, and with the lock when
it was free, or leaves both alone. -/
theorem call_issues (s : SeqEx S R CAP) {c : Call S R} (hc : givesBack c = false) :
    (∃ g, guardOf? (s.call c).1 = some g ∧
        (s.call c).2.concurrentReplies = s.concurrentReplies ++ [g.replyNo] ∧
        (s.call c).2.isLocked = (s.isLocked || g.isHoldingLock) ∧
        (g.isHoldingLock = true → s.isLocked = false)) ∨
      guardOf? (s.call c).1 = none ∧ (s.call c).2.concurrentReplies = s.concurrentReplies ∧
        (s.call c).2.isLocked = s.isLocked := by
  have heff := s.call_effect c
  generalize s.call c = res at heff ⊢
  obtain ⟨a, s'⟩ := res
  cases heff with
  | send => exact .inr ⟨rfl, rfl, rfl⟩
  | reply _ _ _ _ _ hc' | ack _ _ hc' | unlock hc' => simp [hc', givesBack] at hc
  | heed => exact .inr ⟨rfl, rfl, rfl⟩
  | resendAck => exact .inr ⟨rfl, rfl, rfl⟩
  | hold n r b d e => exact .inr ⟨rfl, rfl, rfl⟩
  | hand n r b d doPump t hin hplaced hfull hlock =>
    obtain ⟨-, -, hreplies, hlocked⟩ := hplaced.frame
    refine .inl ⟨⟨n, b⟩, guardOf?_handing c t n r b doPump d, ?_, ?_, hlock⟩
    · rw [SeqEx.handOver_replies, hreplies]
    · rw [SeqEx.handOver_isLocked, hlocked]
  | resend a s' hre hin hrec hout => exact .inr ⟨guardOf?_eq_none hrec, hre.replies, hre.locked⟩
  | idle a hquiet => exact .inr ⟨guardOf?_eq_none hquiet.2, rfl, rfl⟩

/-- Such a call issues the token of the guard that comes with its answer. -/
theorem call_issue_turn (q : SeqEx S R CAP) {c : Call S R} (hc : givesBack c = false)
    (o : Multiset (SeqNo × Bool)) (k : ℕ) :
    Ledger.Turn ⟨o, k, q.concurrentReplies, q.isLocked⟩
      ⟨(((guardOf? (q.call c).1).map ReplyGuard.token).toList : List (SeqNo × Bool)) + o, k,
        (q.call c).2.concurrentReplies, (q.call c).2.isLocked⟩ := by
  rcases call_issues q hc with ⟨g, hg, hreplies, hlocked, hfree⟩ | ⟨hg, hreplies, hlocked⟩
  · have hreserved : ((q.concurrentReplies ++ [g.replyNo] : List SeqNo) : Multiset SeqNo) =
        g.token.1 ::ₘ (q.concurrentReplies : Multiset SeqNo) := by
      rw [Multiset.cons_coe]
      exact Multiset.coe_eq_coe.mpr (List.perm_append_singleton _ _)
    rw [hg, hreplies, hlocked, hreserved, Option.map_some, Option.toList_some,
      Multiset.coe_singleton, Multiset.singleton_add]
    exact .issue g.token _ _ _ _ hfree
  · rw [hg, hreplies, hlocked, Option.map_none, Option.toList_none, Multiset.coe_nil, zero_add]
    exact .rest _

/-- A reply or acknowledgement of a reserved number gives it back. -/
theorem call_settles (q : SeqEx S R CAP) {c : Call S R} {n : SeqNo} {u : Bool}
    {r : Multiset SeqNo} (hc : c = .ack n u ∨ ∃ t b d, c = .reply t n u b d)
    (hr : (q.concurrentReplies : Multiset SeqNo) = n ::ₘ r) :
    ((q.call c).2.concurrentReplies : Multiset SeqNo) = r ∧
      (q.call c).2.isLocked = (q.isLocked && !u) := by
  have hmem : n ∈ q.concurrentReplies := by
    rw [← Multiset.mem_coe, hr]
    exact Multiset.mem_cons_self n r
  obtain ⟨l, hl, ht⟩ := SeqEx.removeReservation_of_mem hmem
  have hrest : (l : Multiset SeqNo) = r := by
    rw [← Multiset.cons_inj_right n, ← hr, Multiset.cons_coe]
    exact (Multiset.coe_eq_coe.mpr hl).symm
  rcases hc with rfl | ⟨t, b, d, rfl⟩
  · simpa only [SeqEx.call, SeqEx.ackRawAndDirect, ht, if_true, and_true] using hrest
  · simpa only [SeqEx.call, SeqEx.replyRawAndDirect, ht, if_true, SeqEx.insertEntry, and_true]
      using hrest

/-- Settling a guard; with `stay` its lock is not given back. -/
theorem call_settle_turn (q : SeqEx S R CAP) {g : ReplyGuard} {o : Multiset (SeqNo × Bool)} {k : ℕ}
    {lost : Multiset SeqNo}
    (hlost : Ledger.Lost ⟨g.token ::ₘ o, k, q.concurrentReplies, q.isLocked⟩ lost) (stay : Bool)
    {c : Call S R} (hc : c = .ack g.replyNo (g.isHoldingLock && !stay) ∨
      ∃ t b d, c = .reply t g.replyNo (g.isHoldingLock && !stay) b d) :
    Ledger.Turn ⟨g.token ::ₘ o, k, q.concurrentReplies, q.isLocked⟩
      ⟨o, k + (g.isHoldingLock && stay).toNat, (q.call c).2.concurrentReplies,
        (q.call c).2.isLocked⟩ := by
  have hreserved : (q.concurrentReplies : Multiset SeqNo) =
      g.replyNo ::ₘ (o.map Prod.fst + lost) := by
    rw [Ledger.Lost, Multiset.map_cons, Multiset.cons_add] at hlost
    exact hlost
  obtain ⟨hreplies, hlocked⟩ := call_settles q hc hreserved
  rw [hreserved, hreplies, hlocked]
  exact .settle g.token _ _ _ _ stay

/-- The ledger kept by the guards. -/
def Shared.ledger (s : Shared S R CAP) : Ledger SeqNo where
  owed := (s.owners.map fun o => o.guard.token : List (SeqNo × Bool))
  keys := s.seqCstGuards
  reserved := s.inner.seq.concurrentReplies
  locked := s.inner.seq.isLocked

/-- A guard is consumed although the instance is closed. -/
def Shared.Leaks (s : Shared S R CAP) (op : Op S R) : Prop :=
  s.inner.closed = true ∧
    match op with
    | .finishReply _ | .ack _ | .replyWithStayLocked .. | .dropReplyGuard _ => True
    | _ => False

/-- A leak is read off the state before the step. -/
instance Shared.decidableLeaks (s : Shared S R CAP) : ∀ op, Decidable (s.Leaks op)
  | .finishReply _ | .ack _ | .replyWithStayLocked .. | .dropReplyGuard _ =>
    inferInstanceAs (Decidable (_ ∧ True))
  | .tryReceive _ | .tryPump | .pump | .trySend .. | .send .. | .resume .. | .replyWith ..
  | .unlock _ | .toComponents _ | .fromComponents _ | .dropSeqCstGuard | .close | .service _
  | .serviceScheduled _ => inferInstanceAs (Decidable (_ ∧ False))

namespace Shared

variable (s : Shared S R CAP)

omit [NeZero CAP] in
/-- The end of a section that returns packets or may sleep. -/
theorem conclude_spec {ρ : Type*} (k : ℕ) (p : Passage S R CAP ρ) (f : ρ → Outcome S R) :
    (s.conclude k p f).2.inner = p.inner ∧ (s.conclude k p f).1 = f p.result ∧
      (s.conclude k p f).2.seqCstGuards = s.seqCstGuards ∧
      (s.conclude k p f).2.owners =
        (((f p.result).delivery?.bind ReplyGuard.ofRaw?).map (Owner.mk .guard)).toList ++
          s.owners := by
  unfold conclude sleep
  dsimp only
  split <;> exact ⟨rfl, rfl, rfl, rfl⟩

/-- The tokens without one of them. -/
def others (o : Owner) : Multiset (SeqNo × Bool) :=
  ((s.owners.erase o).map fun o => o.guard.token : List (SeqNo × Bool))

omit [NeZero CAP] in
/-- An obligation that exists is a token of the ledger. -/
theorem ledger_of_mem {o : Owner} (ho : o ∈ s.owners) :
    s.ledger = ⟨o.guard.token ::ₘ s.others o, s.seqCstGuards, s.inner.seq.concurrentReplies,
      s.inner.seq.isLocked⟩ := by
  have howed : s.ledger.owed = o.guard.token ::ₘ s.others o := by
    rw [others, Multiset.cons_coe]
    exact Multiset.coe_eq_coe.mpr ((List.perm_cons_erase ho).map _)
  rw [← howed]
  rfl

/-- Whether the step closes the instance. -/
def closes : Op S R → Bool
  | .close => true
  | _ => false

/-- `try_send` delivers nothing. -/
theorem call_trySend_delivery? (t : Int64) (b : Bool) (f : SeqNo → S) :
    (s.inner.seq.call (.trySend t b f)).1.delivery? = none := by
  simp only [SeqEx.call]
  cases (s.inner.seq.trySendDirectWith t b f).1 <;> rfl

/-- What a woken thread does to the state machine and returns from it. -/
theorem perform_resume_spec (k w : ℕ) (t0 t : Int64) :
    (s.perform k (.resume w t0 t : Op S R)).2.inner.seq = s.after (.resume w t0 t) ∧
      (s.perform k (.resume w t0 t : Op S R)).1.delivery? =
        ((s.innerCall? (.resume w t0 t)).bind fun c => (s.inner.seq.call c).1.delivery?) ∧
      (s.perform k (.resume w t0 t : Op S R)).2.inner.closed = s.inner.closed := by
  simp only [after, perform, innerCall?]
  cases s.waiters[w]? with
  | none => exact ⟨rfl, rfl, rfl⟩
  | some wt =>
    cases wt with
    | sender on q notified =>
      obtain ⟨hclosed, hseq⟩ := s.inner.sendResume_spec on t0 t q
      obtain ⟨hinner, hout, -, -⟩ := { s with waiters := s.waiters.eraseIdx w }.conclude_spec k
        (s.inner.sendResume on t0 t q) .sent
      simp only [hinner, hout, hclosed, hseq]
      cases q.endTime.any (· ≤ t0) || s.inner.closed <;>
        simp [call_trySend_delivery?, Outcome.delivery?]
    | pumper notified =>
      obtain ⟨hclosed, hseq, hdel⟩ := { s.inner with replyReceiverWaiters := false }.pumpLoop_spec
      obtain ⟨hinner, hout, -, -⟩ := { s with waiters := s.waiters.eraseIdx w }.conclude_spec k
        s.inner.pumpResume .pumped
      simp only [hinner, hout]
      exact ⟨hseq, hdel, hclosed⟩

/-- What every step does to the state machine and returns from it. -/
theorem perform_spec (k : ℕ) (op : Op S R) :
    (s.perform k op).2.inner.seq = s.after op ∧
      (s.perform k op).1.delivery? =
        ((s.innerCall? op).bind fun c => (s.inner.seq.call c).1.delivery?) ∧
      (s.perform k op).2.inner.closed = (s.inner.closed || closes op) := by
  unfold after
  cases op with
  | tryReceive p =>
    obtain ⟨hclosed, hseq, hdel⟩ := s.inner.tryReceive_spec p
    obtain ⟨hinner, hout, -, -⟩ := s.conclude_spec k (s.inner.tryReceive p) .received
    simp only [perform, innerCall?, hinner, hout, hclosed, hseq, hdel, closes, Bool.or_false]
    cases s.inner.closed <;> simp
  | tryPump =>
    obtain ⟨hclosed, hseq, hdel⟩ := s.inner.tryPump_spec
    obtain ⟨hinner, hout, -, -⟩ := s.conclude_spec k s.inner.tryPump .tryPumped
    simp only [perform, innerCall?, hinner, hout, hclosed, hseq, hdel, closes, Bool.or_false,
      Option.bind_some, and_self]
  | pump =>
    obtain ⟨hclosed, hseq, hdel⟩ := s.inner.pump_spec
    obtain ⟨hinner, hout, -, -⟩ := s.conclude_spec k s.inner.pump .pumped
    simp only [perform, innerCall?, hinner, hout, hclosed, hseq, hdel, closes, Bool.or_false]
    cases s.inner.replyReceiverWaiters <;> simp
  | trySend t b f =>
    obtain ⟨hclosed, hseq⟩ := s.inner.trySend_spec t b f
    obtain ⟨hinner, hout, -, -⟩ := s.conclude_spec k (s.inner.trySend t b f) .sent
    simp only [perform, innerCall?, hinner, hout, hclosed, hseq, closes, Bool.or_false]
    cases s.inner.closed <;> simp [call_trySend_delivery?, Outcome.delivery?]
  | send t0 t b f timeout =>
    obtain ⟨hclosed, hseq⟩ := s.inner.send_spec t0 t b f timeout
    obtain ⟨hinner, hout, -, -⟩ := s.conclude_spec k (s.inner.send t0 t b f timeout) .sent
    simp only [perform, innerCall?, hinner, hout, hclosed, hseq, closes, Bool.or_false]
    cases s.inner.closed <;> simp [call_trySend_delivery?, Outcome.delivery?]
  | resume w t0 t =>
    simp only [closes, Bool.or_false]
    exact s.perform_resume_spec k w t0 t
  | replyWith g t b f =>
    simp only [perform, innerCall?, SeqExInner.replyWith, closes, Bool.or_false]
    cases hc : s.inner.closed with
    | true => exact ⟨rfl, rfl, hc⟩
    | false => simp [finish, SeqEx.call, Outcome.delivery?, Answer.delivery?]
  | finishReply g | dropReplyGuard g =>
    simp only [perform, innerCall?, SeqExInner.dropReplyGuard, closes, Bool.or_false]
    cases hc : s.inner.closed <;>
      simp [finish, SeqEx.call, Outcome.delivery?, Answer.delivery?, hc]
  | ack g =>
    simp only [perform, innerCall?, SeqExInner.ack, closes, Bool.or_false]
    cases hc : s.inner.closed <;>
      simp [finish, SeqEx.call, Outcome.delivery?, Answer.delivery?, hc, addSeqCstGuard]
  | unlock g =>
    simp only [perform, innerCall?, SeqExInner.unlock, closes, Bool.or_false]
    cases g.isHoldingLock <;>
      simp [finish, SeqEx.call, Outcome.delivery?, Answer.delivery?, keep]
  | replyWithStayLocked g t b f =>
    simp only [perform, innerCall?, SeqExInner.replyWithStayLocked, closes, Bool.or_false]
    cases hc : s.inner.closed <;>
      simp [finish, SeqEx.call, Outcome.delivery?, Answer.delivery?, hc, addSeqCstGuard]
  | dropSeqCstGuard =>
    simp [perform, innerCall?, SeqExInner.dropSeqCstGuard, closes, finish, SeqEx.call,
      Outcome.delivery?, Answer.delivery?]
  | toComponents g | fromComponents g =>
    simp [perform, innerCall?, closes, keep, release, Outcome.delivery?]
  | close =>
    simp [perform, innerCall?, closes, finish, SeqExInner.close, SeqExInner.notifyRecv,
      Outcome.delivery?]
  | service t =>
    simp [perform, innerCall?, closes, finish, SeqExInner.service, SeqEx.call, Outcome.delivery?,
      Answer.delivery?]
  | serviceScheduled t =>
    simp only [perform, innerCall?, SeqExInner.serviceScheduled, closes, Bool.or_false]
    cases hc : s.inner.closed <;>
      simp [finish, SeqEx.call, Outcome.delivery?, Answer.delivery?, hc]

/-- The steps of a guard that its thread already has. -/
def usesGuard : Op S R → Bool
  | .replyWith .. | .finishReply _ | .ack _ | .unlock _ | .replyWithStayLocked ..
  | .dropReplyGuard _ | .toComponents _ | .fromComponents _ | .dropSeqCstGuard => true
  | _ => false

omit [NeZero CAP] in
/-- The other steps give nothing back. -/
theorem givesBack_innerCall? {op : Op S R} (hop : usesGuard op = false) :
    ∀ c ∈ s.innerCall? op, givesBack c = false := by
  intro c hc
  cases op with
  | tryReceive p => simp only [innerCall?] at hc; split at hc <;> cases hc; rfl
  | tryPump => cases hc; rfl
  | pump => simp only [innerCall?] at hc; split at hc <;> cases hc; rfl
  | trySend t b f => simp only [innerCall?] at hc; split at hc <;> cases hc; rfl
  | send t0 t b f timeout => simp only [innerCall?] at hc; split at hc <;> cases hc; rfl
  | resume w t0 t =>
    simp only [innerCall?] at hc
    split at hc
    · split at hc <;> cases hc
      rfl
    · cases hc
      rfl
    · cases hc
  | close => cases hc
  | service t => cases hc; rfl
  | serviceScheduled t => simp only [innerCall?] at hc; split at hc <;> cases hc; rfl
  | _ => cases hop

/-- The other steps add at most the guard of the packet they return. -/
theorem perform_owners (k : ℕ) {op : Op S R} (hop : usesGuard op = false) :
    (s.perform k op).2.seqCstGuards = s.seqCstGuards ∧
      (s.perform k op).2.owners =
        (((s.perform k op).1.delivery?.bind ReplyGuard.ofRaw?).map (Owner.mk .guard)).toList ++
          s.owners := by
  cases op with
  | tryReceive p => exact (s.conclude_spec k (s.inner.tryReceive p) .received).2.2
  | tryPump => exact (s.conclude_spec k s.inner.tryPump .tryPumped).2.2
  | pump => exact (s.conclude_spec k s.inner.pump .pumped).2.2
  | trySend t b f => exact (s.conclude_spec k (s.inner.trySend t b f) .sent).2.2
  | send t0 t b f timeout => exact (s.conclude_spec k (s.inner.send t0 t b f timeout) .sent).2.2
  | resume w t0 t =>
    simp only [perform]
    cases s.waiters[w]? with
    | none => exact ⟨rfl, rfl⟩
    | some wt =>
      cases wt with
      | sender on q _ =>
        exact (conclude_spec { s with waiters := s.waiters.eraseIdx w } k
          (s.inner.sendResume on t0 t q) .sent).2.2
      | pumper _ =>
        exact (conclude_spec { s with waiters := s.waiters.eraseIdx w } k
          s.inner.pumpResume .pumped).2.2
  | close => exact ⟨rfl, rfl⟩
  | service t => exact ⟨rfl, rfl⟩
  | serviceScheduled t => exact ⟨rfl, rfl⟩
  | _ => cases hop

/-- A step that gives nothing back issues the guard of the packet it returns. -/
theorem turn_of_issue (k : ℕ) {op : Op S R} (hop : usesGuard op = false) :
    s.ledger.Turn (s.perform k op).2.ledger := by
  obtain ⟨hseq, hdel, -⟩ := s.perform_spec k op
  obtain ⟨hkeys, howners⟩ := s.perform_owners k hop
  have hc := s.givesBack_innerCall? hop
  rw [hdel] at howners
  simp only [after] at hseq
  generalize s.innerCall? op = c at hc hseq howners
  cases c with
  | none =>
    have hsame : (s.perform k op).2.ledger = s.ledger := by
      simp only [ledger, hseq, hkeys, howners, Option.bind_none, Option.map_none,
        Option.toList_none, List.nil_append]
    rw [hsame]
    exact .rest _
  | some c =>
    rw [Option.bind_some] at howners
    have hissued : (s.perform k op).2.ledger =
        ⟨(((guardOf? (s.inner.seq.call c).1).map ReplyGuard.token).toList : List (SeqNo × Bool)) +
          s.ledger.owed, s.seqCstGuards, (s.inner.seq.call c).2.concurrentReplies,
          (s.inner.seq.call c).2.isLocked⟩ := by
      simp only [ledger, hseq, hkeys, howners, guardOf?, List.map_append, Multiset.coe_add]
      cases (s.inner.seq.call c).1.delivery?.bind ReplyGuard.ofRaw? <;> rfl
    rw [hissued]
    exact call_issue_turn s.inner.seq (hc c rfl) _ _

/-- A guard is settled; with `stay` a `SeqCstGuard` takes over its lock. -/
theorem turn_of_settle {s' : Shared S R CAP} {lost : Multiset SeqNo} (hlost : s.ledger.Lost lost)
    {place : Place} {g : ReplyGuard} (ho : ⟨place, g⟩ ∈ s.owners) (stay : Bool) {c : Call S R}
    (hc : c = .ack g.replyNo (g.isHoldingLock && !stay) ∨
      ∃ t b d, c = .reply t g.replyNo (g.isHoldingLock && !stay) b d)
    (hseq : s'.inner.seq = (s.inner.seq.call c).2)
    (howners : s'.owners = s.owners.erase ⟨place, g⟩)
    (hkeys : s'.seqCstGuards = s.seqCstGuards + (g.isHoldingLock && stay).toNat) :
    s.ledger.Turn s'.ledger := by
  rw [s.ledger_of_mem ho] at hlost ⊢
  have hafter : s'.ledger = ⟨s.others ⟨place, g⟩, s.seqCstGuards + (g.isHoldingLock && stay).toNat,
      (s.inner.seq.call c).2.concurrentReplies, (s.inner.seq.call c).2.isLocked⟩ := by
    simp only [ledger, others, howners, hkeys, hseq]
  rw [hafter]
  exact call_settle_turn s.inner.seq hlost stay hc

omit [NeZero CAP] in
/-- A guard disappears; with `stay` a `SeqCstGuard` takes over its lock. -/
theorem leak_of_lose {s' : Shared S R CAP} {place : Place} {g : ReplyGuard}
    (ho : ⟨place, g⟩ ∈ s.owners) (stay : Bool) (hseq : s'.inner.seq = s.inner.seq)
    (howners : s'.owners = s.owners.erase ⟨place, g⟩)
    (hkeys : s'.seqCstGuards = s.seqCstGuards + (g.isHoldingLock && stay).toNat) :
    s.ledger.Leak s'.ledger := by
  have hafter : s'.ledger = ⟨s.others ⟨place, g⟩,
      s.seqCstGuards + (g.token.2 && stay).toNat, s.inner.seq.concurrentReplies,
      s.inner.seq.isLocked⟩ := by
    simp only [ledger, others, howners, hkeys, hseq, ReplyGuard.token]
  rw [s.ledger_of_mem ho, hafter]
  exact .lose g.token _ _ _ _ stay

omit [NeZero CAP] in
/-- An obligation moves to another place. -/
theorem ledger_of_move {s' : Shared S R CAP} {place place' : Place} {g : ReplyGuard}
    (ho : ⟨place, g⟩ ∈ s.owners) (hseq : s'.inner.seq = s.inner.seq)
    (howners : s'.owners = ⟨place', g⟩ :: s.owners.erase ⟨place, g⟩)
    (hkeys : s'.seqCstGuards = s.seqCstGuards) : s'.ledger = s.ledger := by
  rw [s.ledger_of_mem ho]
  simp only [ledger, others, howners, hkeys, hseq, List.map_cons, Multiset.cons_coe]

/-- The guards consumed on a closed instance leak. -/
theorem perform_leak {k : ℕ} {op : Op S R} (hpos : s.Possible op) (hleak : s.Leaks op) :
    s.ledger.Leak (s.perform k op).2.ledger := by
  obtain ⟨hclosed, hop⟩ := hleak
  have hseq : (s.perform k op).2.inner.seq = s.inner.seq := by
    rw [(s.perform_spec k op).1, after]
    cases op <;> simp_all [innerCall?]
  cases op with
  | finishReply g => exact s.leak_of_lose hpos false hseq rfl (by simp [perform, finish, release])
  | dropReplyGuard g =>
    exact s.leak_of_lose hpos false hseq rfl (by simp [perform, finish, release])
  | ack g =>
    refine s.leak_of_lose hpos true hseq rfl ?_
    simp [perform, finish, release, addSeqCstGuard, SeqExInner.ack, hclosed]
  | replyWithStayLocked g t b f =>
    refine s.leak_of_lose hpos true hseq rfl ?_
    simp [perform, finish, release, addSeqCstGuard, SeqExInner.replyWithStayLocked, hclosed]
  | _ => exact hop.elim

/-- Every other step is a turn of the ledger. -/
theorem perform_turn {k : ℕ} {op : Op S R} {lost : Multiset SeqNo} (hlost : s.ledger.Lost lost)
    (hpos : s.Possible op) (hleak : ¬ s.Leaks op) : s.ledger.Turn (s.perform k op).2.ledger := by
  rcases Bool.eq_false_or_eq_true (usesGuard op) with huse | huse
  swap
  · exact s.turn_of_issue k huse
  have hseq := (s.perform_spec k op).1
  have hopen (h : ¬ (s.inner.closed = true ∧ True)) : s.inner.closed = false := by simpa using h
  cases op with
  | replyWith g t b f =>
    cases hclosed : s.inner.closed with
    | true =>
      simp only [after, innerCall?, hclosed, if_true] at hseq
      have howners : (s.perform k (.replyWith g t b f)).2.owners =
          ⟨.dropping, g⟩ :: s.owners.erase ⟨.guard, g⟩ := by
        simp [perform, hclosed, keep, finish, release]
      rw [s.ledger_of_move hpos hseq howners (by simp [perform, hclosed, keep, finish, release])]
      exact .rest _
    | false =>
      simp only [after, innerCall?, hclosed] at hseq
      exact s.turn_of_settle hlost hpos false
        (.inr ⟨t, b, f s.inner.seq.nextSendSeqNo g.replyNo, by simp⟩) hseq
        (by simp [perform, hclosed, finish, release]) (by simp [perform, hclosed, finish, release])
  | finishReply g | dropReplyGuard g =>
    have hclosed := hopen hleak
    simp only [after, innerCall?, hclosed] at hseq
    exact s.turn_of_settle hlost hpos false (.inl (by simp)) hseq rfl
      (by simp [perform, finish, release])
  | ack g =>
    have hclosed := hopen hleak
    simp only [after, innerCall?, hclosed] at hseq
    refine s.turn_of_settle hlost hpos true (.inl (by simp)) hseq rfl ?_
    simp [perform, finish, release, addSeqCstGuard, SeqExInner.ack, hclosed]
  | unlock g =>
    obtain ⟨n, holds⟩ := g
    cases holds with
    | false =>
      rw [s.ledger_of_move hpos hseq rfl rfl]
      exact .rest _
    | true =>
      have hafter : (s.perform k (.unlock ⟨n, true⟩)).2.ledger =
          ⟨(n, false) ::ₘ s.others ⟨.guard, ⟨n, true⟩⟩, s.seqCstGuards,
            s.inner.seq.concurrentReplies, false⟩ := by
        simp only [ledger, hseq]
        rfl
      rw [s.ledger_of_mem hpos, hafter]
      exact .unlock n _ _ _ _
  | replyWithStayLocked g t b f =>
    have hclosed := hopen hleak
    simp only [after, innerCall?, hclosed] at hseq
    refine s.turn_of_settle hlost hpos true
      (.inr ⟨t, b, f s.inner.seq.nextSendSeqNo g.replyNo, by simp⟩) hseq rfl ?_
    simp [perform, finish, release, addSeqCstGuard, SeqExInner.replyWithStayLocked, hclosed]
  | toComponents g =>
    rw [s.ledger_of_move hpos hseq rfl rfl]
    exact .rest _
  | fromComponents g =>
    rw [s.ledger_of_move hpos hseq rfl rfl]
    exact .rest _
  | dropSeqCstGuard =>
    have hkey : s.ledger = ⟨s.ledger.owed, (s.seqCstGuards - 1) + 1,
        s.inner.seq.concurrentReplies, s.inner.seq.isLocked⟩ := by
      rw [Nat.sub_add_cancel hpos]
      rfl
    have hafter : (s.perform k .dropSeqCstGuard).2.ledger =
        ⟨s.ledger.owed, s.seqCstGuards - 1, s.inner.seq.concurrentReplies, false⟩ := by
      simp only [ledger, hseq]
      rfl
    rw [hkey, hafter]
    exact .turnKey _ _ _ _
  | _ => cases huse

end Shared

end Sync

end SequentialExchange
