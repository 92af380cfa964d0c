import SequentialExchange.MutualExclusion

/-!
# An endpoint that one thread uses

The guards of `single_thread.rs` borrow the endpoint mutably, so that a program can
call the endpoint itself only when no guard is left. Its obligations are then those
that were taken apart with `to_components`. A program that takes no guard apart
never waits for a reply number of its own.
-/

namespace SequentialExchange.SingleThread

open WrapNumbering GuardedRuns ReservationLedger
open Sync (ReplyGuard guardOf? givesBack call_issue_turn call_settle_turn)

variable {S R : Type*} {CAP : ℕ}

/-- `TryRecvError`. -/
inductive TryRecvError where
  /-- The packet arrived too early. -/
  | droppedTooEarly
  /-- The packet was a duplicate. -/
  | droppedDuplicate
  /-- The packet was stored; a packet of the remote peer has to come first. -/
  | waitingForRecv
  /-- The packet was stored; a reply number has to be returned first. -/
  | waitingForReply
  deriving DecidableEq, Repr

/-- What `try_receive_raw` makes of an error; it resends the acknowledgement itself. -/
def TryRecvError.ofRaw : TryRawRecvError → TryRecvError
  | .droppedTooEarly => .droppedTooEarly
  | .droppedDuplicate | .droppedDuplicateResendAck _ => .droppedDuplicate
  | .waitingForRecv => .waitingForRecv
  | .waitingForReply => .waitingForReply

/-- A guard, which borrows the endpoint. -/
inductive Guard where
  /-- A `ReplyGuard`. -/
  | reply (g : ReplyGuard)
  /-- A `SeqCstGuard`. -/
  | seqCst
  deriving DecidableEq, Repr

/-- The `ReplyGuard`, if it is one. -/
def Guard.reply? : Guard → Option ReplyGuard
  | .reply g => some g
  | .seqCst => none

/-- The endpoint with what borrows it, and the guards that were taken apart. -/
structure Program (S R : Type*) (CAP : ℕ) where
  /-- The state machine. -/
  seq : SeqEx S R CAP
  /-- The guard that borrows it. -/
  guard : Option Guard
  /-- The values returned by `to_components` that were not used yet. -/
  components : List ReplyGuard

/-- What the program can do. -/
inductive Op (S R : Type*) where
  /-- `try_send` and `try_send_with`. -/
  | trySend (currentTime : Int64) (seqCst : Bool) (f : SeqNo → S)
  /-- `receive`. -/
  | receive (packet : Packet R)
  /-- `try_pump`. -/
  | tryPump
  /-- `service`. -/
  | service (currentTime : Int64)
  /-- `ReplyGuard::reply` and `reply_with`. -/
  | replyWith (currentTime : Int64) (seqCst : Bool) (f : SeqNo → SeqNo → S)
  /-- `ReplyGuard::ack`. -/
  | ack
  /-- `ReplyGuard::unlock`. -/
  | unlock
  /-- `ReplyGuard::reply_stay_locked` and `reply_with_stay_locked`. -/
  | replyWithStayLocked (currentTime : Int64) (seqCst : Bool) (f : SeqNo → SeqNo → S)
  /-- A guard is dropped. -/
  | drop
  /-- `ReplyGuard::to_components`. -/
  | toComponents
  /-- `ReplyGuard::from_components`. -/
  | fromComponents (g : ReplyGuard)

/-- What the program gets back. -/
inductive Outcome (S R : Type*) where
  /-- Of `try_send`. -/
  | sent (r : Except (TryError × (SeqNo → S)) Unit)
  /-- Of `receive`; the guard of a packet borrows the endpoint now. -/
  | received (r : Except TryRecvError (RecvOkRaw S R × Bool))
  /-- Of `try_pump`. -/
  | tryPumped (r : Except TryError (RecvOkRaw S R × Bool))
  /-- Of `service`. -/
  | serviced (delay : Int64)
  /-- Of `ReplyGuard::unlock`. -/
  | unlocked (was : Bool)
  /-- Nothing, or a guard. -/
  | done

/-- The error says that a reply number has to be returned first. -/
def Outcome.waitsForReply : Outcome S R → Bool
  | .sent (.error (.waitingForReply, _)) | .received (.error .waitingForReply)
  | .tryPumped (.error .waitingForReply) => true
  | _ => false

namespace Program

variable [NeZero CAP]

/-- `SeqEx::new`. -/
def new (retryInterval : Int64) (initialSeqNo : SeqNo) : Program S R CAP :=
  ⟨SeqEx.new retryInterval initialSeqNo, none, []⟩

/-- `RecvOk::from_raw`: the guard of a packet that is handed over. -/
def fromRaw (s : Program S R CAP) (seq : SeqEx S R CAP) (ok : RecvOkRaw S R) : Program S R CAP :=
  { s with seq := seq, guard := (ReplyGuard.ofRaw? ok).map .reply }

/-- `ReplyGuard::consume_lock`. -/
def consumeLock (s : Program S R CAP) (seq : SeqEx S R CAP) (g : ReplyGuard) : Program S R CAP :=
  { s with seq := seq, guard := if g.isHoldingLock then some .seqCst else none }

/-- One step. -/
def perform (s : Program S R CAP) : Op S R → Outcome S R × Program S R CAP
  | .trySend t b f =>
    let r := s.seq.trySendDirectWith t b f
    match r.1 with
    | .ok _ => (.sent (.ok ()), { s with seq := r.2 })
    | .error e => (.sent (.error e), { s with seq := r.2 })
  | .receive packet =>
    let r := s.seq.tryReceiveRawAndDirect id packet
    match r.1 with
    | .ok o => (.received (.ok o), s.fromRaw r.2 o.1)
    | .error e => (.received (.error (.ofRaw e)), { s with seq := r.2 })
  | .tryPump =>
    let r := s.seq.tryPumpRaw
    match r.1 with
    | .ok o => (.tryPumped (.ok o), s.fromRaw r.2 o.1)
    | .error e => (.tryPumped (.error e), { s with seq := r.2 })
  | .service t =>
    let r := s.seq.service t
    (.serviced r.2.1, { s with seq := r.2.2 })
  | .replyWith t b f =>
    match s.guard with
    | some (.reply g) =>
      let r := s.seq.replyRawAndDirect t g.replyNo g.isHoldingLock b
        (f s.seq.nextSendSeqNo g.replyNo)
      (.done, { s with seq := r.2, guard := none })
    | _ => (.done, s)
  | .ack =>
    match s.guard with
    | some (.reply g) => (.done, s.consumeLock (s.seq.ackRawAndDirect g.replyNo false).2 g)
    | _ => (.done, s)
  | .unlock =>
    match s.guard with
    | some (.reply ⟨n, true⟩) =>
      (.unlocked true, { s with seq := s.seq.unlockRaw, guard := some (.reply ⟨n, false⟩) })
    | _ => (.unlocked false, s)
  | .replyWithStayLocked t b f =>
    match s.guard with
    | some (.reply g) =>
      let r := s.seq.replyRawAndDirect t g.replyNo false b (f s.seq.nextSendSeqNo g.replyNo)
      (.done, s.consumeLock r.2 g)
    | _ => (.done, s)
  | .drop =>
    match s.guard with
    | some (.reply g) =>
      (.done, { s with seq := (s.seq.ackRawAndDirect g.replyNo g.isHoldingLock).2, guard := none })
    | some .seqCst => (.done, { s with seq := s.seq.unlockRaw, guard := none })
    | none => (.done, s)
  | .toComponents =>
    match s.guard with
    | some (.reply g) => (.done, { s with guard := none, components := g :: s.components })
    | _ => (.done, s)
  | .fromComponents g =>
    (.done, { s with guard := some (.reply g), components := s.components.erase g })

/-- The borrow checker accepts the step. -/
def Possible (s : Program S R CAP) : Op S R → Prop
  | .trySend .. | .receive _ | .tryPump | .service _ => s.guard = none
  | .replyWith .. | .ack | .unlock | .replyWithStayLocked .. | .toComponents =>
    ∃ g ∈ s.guard, g.reply?.isSome = true
  | .drop => s.guard ≠ none
  | .fromComponents g => s.guard = none ∧ g ∈ s.components

/-- The borrow checker looks at the guard only. -/
instance decidablePossible (s : Program S R CAP) : ∀ op, Decidable (s.Possible op)
  | .trySend .. | .receive _ | .tryPump | .service _ =>
    inferInstanceAs (Decidable (s.guard = none))
  | .replyWith .. | .ack | .unlock | .replyWithStayLocked .. | .toComponents =>
    inferInstanceAs (Decidable (∃ g ∈ s.guard, g.reply?.isSome = true))
  | .drop => inferInstanceAs (Decidable (s.guard ≠ none))
  | .fromComponents g => inferInstanceAs (Decidable (s.guard = none ∧ g ∈ s.components))

/-- A step without its outcome. -/
def next (s : Program S R CAP) (op : Op S R) : Program S R CAP := (s.perform op).2

/-! ## The ledger of the program -/

omit [NeZero CAP] in
/-- The obligations to reply: the guard and those that were taken apart. -/
def obligations (s : Program S R CAP) : List ReplyGuard :=
  (s.guard.bind Guard.reply?).toList ++ s.components

omit [NeZero CAP] in
/-- The holders of the SeqCst lock. -/
def holders (s : Program S R CAP) : ℕ :=
  s.obligations.countP ReplyGuard.isHoldingLock + (s.guard == some .seqCst).toNat

omit [NeZero CAP] in
/-- The ledger: a `SeqCstGuard` is its key. -/
def ledger (s : Program S R CAP) : Ledger SeqNo where
  owed := (s.obligations.map ReplyGuard.token : List (SeqNo × Bool))
  keys := (s.guard == some .seqCst).toNat
  reserved := s.seq.concurrentReplies
  locked := s.seq.isLocked

omit [NeZero CAP] in
/-- The ledger counts the holders of the lock. -/
theorem holders_ledger (s : Program S R CAP) : s.ledger.holders = s.holders :=
  congrArg (· + (s.guard == some .seqCst).toNat) (Ledger.sum_locks ReplyGuard.token s.obligations)

variable {s : Program S R CAP} {lost : Multiset SeqNo}

/-- A call of the endpoint itself; its guard, if any, borrows the endpoint then. -/
def called (s : Program S R CAP) (c : Call S R) : Program S R CAP :=
  ⟨(s.seq.call c).2, (guardOf? (s.seq.call c).1).map .reply, s.components⟩

/-- A call that settles the guard `g`; with `stay` a `SeqCstGuard` takes over its lock. -/
def settled (s : Program S R CAP) (g : ReplyGuard) (stay : Bool) (c : Call S R) :
    Program S R CAP :=
  ⟨(s.seq.call c).2, if g.isHoldingLock && stay then some .seqCst else none, s.components⟩

/-- Without a guard the only obligations are the guards that were taken apart. -/
theorem called_turn (hguard : s.guard = none) {c : Call S R} (hc : givesBack c = false) :
    s.ledger.Turn (s.called c).ledger := by
  have hissued := call_issue_turn s.seq hc s.ledger.owed 0
  have hbefore : s.ledger =
      ⟨s.ledger.owed, 0, s.seq.concurrentReplies, s.seq.isLocked⟩ := by
    simp [ledger, hguard]
  have hafter : (s.called c).ledger = ⟨(((guardOf? (s.seq.call c).1).map
      ReplyGuard.token).toList : List (SeqNo × Bool)) + s.ledger.owed, 0,
        (s.seq.call c).2.concurrentReplies, (s.seq.call c).2.isLocked⟩ := by
    unfold called
    cases guardOf? (s.seq.call c).1 <;> simp [ledger, obligations, hguard, Guard.reply?]
  rw [hbefore, hafter]
  exact hissued

omit [NeZero CAP] in
/-- The ledger of a program that holds a guard. -/
theorem ledger_of_guard {g : ReplyGuard} (hguard : s.guard = some (.reply g)) :
    s.ledger = ⟨g.token ::ₘ (s.components.map ReplyGuard.token : List (SeqNo × Bool)), 0,
      s.seq.concurrentReplies, s.seq.isLocked⟩ := by
  simp [ledger, obligations, hguard, Guard.reply?]

/-- The guard's obligation is discharged, and its lock released or passed on. -/
theorem settled_turn (hlost : s.ledger.Lost lost) {g : ReplyGuard}
    (hguard : s.guard = some (.reply g)) (stay : Bool) {c : Call S R}
    (hc : c = .ack g.replyNo (g.isHoldingLock && !stay) ∨
      ∃ t b d, c = .reply t g.replyNo (g.isHoldingLock && !stay) b d) :
    s.ledger.Turn (s.settled g stay c).ledger := by
  rw [ledger_of_guard hguard] at hlost ⊢
  have hsettled := call_settle_turn s.seq hlost stay hc
  have hafter : (s.settled g stay c).ledger =
      ⟨(s.components.map ReplyGuard.token : List (SeqNo × Bool)),
        0 + (g.isHoldingLock && stay).toNat, (s.seq.call c).2.concurrentReplies,
        (s.seq.call c).2.isLocked⟩ := by
    unfold settled
    cases g.isHoldingLock && stay <;> simp [ledger, obligations, Guard.reply?]
  rw [hafter]
  exact hsettled

/-! ### The calls of a thread without a guard -/

/-- `try_send` hands over no guard. -/
theorem next_trySend (hguard : s.guard = none) (t : Int64) (b : Bool) (f : SeqNo → S) :
    s.next (.trySend t b f) = s.called (.trySend t b f) := by
  simp only [next, perform, called, SeqEx.call]
  cases (s.seq.trySendDirectWith t b f).1 <;>
    simp only [guardOf?, Answer.delivery?, Option.map_none, Option.bind_none, hguard]

/-- The guard of a packet that `receive` returns. -/
theorem next_receive (hguard : s.guard = none) (packet : Packet R) :
    s.next (.receive packet) = s.called (.receive packet) := by
  simp only [next, perform, called, SeqEx.call]
  cases (s.seq.tryReceiveRawAndDirect id packet).1 with
  | ok o => rfl
  | error e => simp only [guardOf?, Answer.delivery?, Option.map_none, Option.bind_none, hguard]

/-- The guard of a packet that `try_pump` returns. -/
theorem next_tryPump (hguard : s.guard = none) :
    s.next (.tryPump : Op S R) = s.called .pump := by
  simp only [next, perform, called, SeqEx.call]
  cases s.seq.tryPumpRaw.1 with
  | ok o => rfl
  | error e => simp only [guardOf?, Answer.delivery?, Option.map_none, Option.bind_none, hguard]

/-- `service` hands over no guard. -/
theorem next_service (hguard : s.guard = none) (t : Int64) :
    s.next (.service t) = s.called (.service t) := by
  simp only [next, perform, called, SeqEx.call, guardOf?, Answer.delivery?, Option.map_none,
    Option.bind_none, hguard]

/-! ### The calls of a guard -/

/-- `ReplyGuard::reply_with` settles the guard and releases its lock. -/
theorem replyWith_turn (hlost : s.ledger.Lost lost) {g : ReplyGuard}
    (hguard : s.guard = some (.reply g)) (t : Int64) (b : Bool) (f : SeqNo → SeqNo → S) :
    s.ledger.Turn (s.next (.replyWith t b f)).ledger := by
  have hturn := settled_turn hlost hguard false
    (c := .reply t g.replyNo g.isHoldingLock b (f s.seq.nextSendSeqNo g.replyNo))
    (.inr ⟨t, b, _, by rw [Bool.not_false, Bool.and_true]⟩)
  rw [settled, Bool.and_false] at hturn
  simp only [next, perform, hguard]
  exact hturn

/-- `ReplyGuard::ack` settles the guard and passes its lock on. -/
theorem ack_turn (hlost : s.ledger.Lost lost) {g : ReplyGuard}
    (hguard : s.guard = some (.reply g)) :
    s.ledger.Turn (s.next (.ack : Op S R)).ledger := by
  have hturn := settled_turn hlost hguard true (c := .ack g.replyNo false) (.inl (by simp))
  rw [settled, Bool.and_true] at hturn
  simp only [next, perform, hguard]
  exact hturn

/-- `ReplyGuard::reply_with_stay_locked` settles the guard and passes its lock on. -/
theorem replyWithStayLocked_turn (hlost : s.ledger.Lost lost) {g : ReplyGuard}
    (hguard : s.guard = some (.reply g)) (t : Int64) (b : Bool) (f : SeqNo → SeqNo → S) :
    s.ledger.Turn (s.next (.replyWithStayLocked t b f)).ledger := by
  have hturn := settled_turn hlost hguard true
    (c := .reply t g.replyNo false b (f s.seq.nextSendSeqNo g.replyNo))
    (.inr ⟨t, b, f s.seq.nextSendSeqNo g.replyNo, by simp⟩)
  rw [settled, Bool.and_true] at hturn
  simp only [next, perform, hguard]
  exact hturn

/-- `ReplyGuard::unlock` releases the lock and keeps the obligation. -/
theorem unlock_turn {g : ReplyGuard} (hguard : s.guard = some (.reply g)) :
    s.ledger.Turn (s.next (.unlock : Op S R)).ledger := by
  obtain ⟨n, holds⟩ := g
  cases holds with
  | false =>
    have hsame : s.next (.unlock : Op S R) = s := by simp only [next, perform, hguard]
    rw [hsame]
    exact .rest _
  | true =>
    have hafter : (s.next (.unlock : Op S R)).ledger =
        ⟨(n, false) ::ₘ (s.components.map ReplyGuard.token : List (SeqNo × Bool)), 0,
          s.seq.concurrentReplies, false⟩ := by
      simp only [next, perform, hguard]
      rfl
    rw [ledger_of_guard hguard, hafter]
    exact .unlock n _ _ _ _

/-- A dropped guard acknowledges its packet and releases the lock it holds. -/
theorem drop_turn (hlost : s.ledger.Lost lost) (hguard : s.guard ≠ none) :
    s.ledger.Turn (s.next (.drop : Op S R)).ledger := by
  cases hg : s.guard with
  | none => exact absurd hg hguard
  | some guard =>
    cases guard with
    | reply g =>
      have hturn := settled_turn hlost hg false (c := .ack g.replyNo g.isHoldingLock)
        (.inl (by simp))
      rw [settled, Bool.and_false] at hturn
      simp only [next, perform, hg]
      exact hturn
    | seqCst =>
      have hbefore : s.ledger = ⟨(s.components.map ReplyGuard.token : List (SeqNo × Bool)),
          0 + 1, s.seq.concurrentReplies, s.seq.isLocked⟩ := by
        simp [ledger, obligations, hg, Guard.reply?]
      have hafter : (s.next (.drop : Op S R)).ledger =
          ⟨(s.components.map ReplyGuard.token : List (SeqNo × Bool)), 0,
            s.seq.concurrentReplies, false⟩ := by
        simp only [next, perform, hg]
        rfl
      rw [hbefore, hafter]
      exact .turnKey _ _ _ _

/-- A guard that is taken apart is an obligation still. -/
theorem ledger_toComponents {g : ReplyGuard} (hguard : s.guard = some (.reply g)) :
    (s.next (.toComponents : Op S R)).ledger = s.ledger := by
  rw [ledger_of_guard hguard]
  simp [next, perform, hguard, ledger, obligations]

/-- A guard that is put together again is the same obligation. -/
theorem ledger_fromComponents {g : ReplyGuard} (hguard : s.guard = none)
    (hg : g ∈ s.components) :
    (s.next (.fromComponents g : Op S R)).ledger = s.ledger := by
  have hperm := (List.perm_cons_erase hg).map ReplyGuard.token
  simp only [next, perform, ledger, obligations, hguard, Option.bind_some, Option.bind_none,
    Guard.reply?, Option.toList_some, Option.toList_none, List.nil_append, List.cons_append]
  rw [Multiset.coe_eq_coe.mpr hperm]
  rfl

/-- Every step is a turn of the ledger: nothing is lost. -/
theorem perform_turn {op : Op S R} (hlost : s.ledger.Lost lost) (hpos : s.Possible op) :
    s.ledger.Turn (s.next op).ledger := by
  have hreply (h : ∃ g ∈ s.guard, g.reply?.isSome = true) : ∃ g, s.guard = some (.reply g) := by
    obtain ⟨g, hg, hsome⟩ := h
    cases g with
    | reply g => exact ⟨g, hg⟩
    | seqCst => cases hsome
  cases op with
  | trySend t b f =>
    rw [next_trySend hpos]
    exact called_turn hpos rfl
  | receive packet =>
    rw [next_receive hpos]
    exact called_turn hpos rfl
  | tryPump =>
    rw [next_tryPump hpos]
    exact called_turn hpos rfl
  | service t =>
    rw [next_service hpos]
    exact called_turn hpos rfl
  | replyWith t b f =>
    obtain ⟨g, hg⟩ := hreply hpos
    exact replyWith_turn hlost hg t b f
  | ack =>
    obtain ⟨g, hg⟩ := hreply hpos
    exact ack_turn hlost hg
  | replyWithStayLocked t b f =>
    obtain ⟨g, hg⟩ := hreply hpos
    exact replyWithStayLocked_turn hlost hg t b f
  | unlock =>
    obtain ⟨g, hg⟩ := hreply hpos
    exact unlock_turn hg
  | drop => exact drop_turn hlost hpos
  | toComponents =>
    obtain ⟨g, hg⟩ := hreply hpos
    rw [ledger_toComponents hg]
    exact .rest _
  | fromComponents g =>
    obtain ⟨hnone, hg⟩ := hpos
    rw [ledger_fromComponents hnone hg]
    exact .rest _

/-- In every run the outstanding reply numbers are those of the guards, and the lock is
held by the only guard that has it. -/
theorem reaches_accounted {interval : Int64} {initialSeqNo : SeqNo}
    (h : Reaches Possible next (new interval initialSeqNo : Program S R CAP) s) :
    s.ledger.Exclusive ∧ s.ledger.Lost 0 ∧ s.ledger.Accounted := by
  refine h.invariant
    (I := fun s : Program S R CAP => s.ledger.Exclusive ∧ s.ledger.Lost 0 ∧ s.ledger.Accounted)
    ⟨⟨Nat.zero_le 1, fun hpos => absurd hpos (Nat.lt_irrefl 0)⟩, rfl, fun hlock => by cases hlock⟩
    fun u op _ hu hpos => ?_
  obtain ⟨hex, hlost, haccounted⟩ := hu
  have hturn := perform_turn hlost hpos
  exact ⟨hturn.exclusive hex, hturn.loses_nothing hlost, hturn.accounted haccounted⟩

end Program

/-! ## Waiting -/

section Idle

variable [NeZero CAP] {q : SeqEx S R CAP}

omit [NeZero CAP] in
/-- No reply number is outstanding, and the lock is free. -/
structure Idle (q : SeqEx S R CAP) : Prop where
  replies : q.concurrentReplies = []
  unlocked : q.isLocked = false

/-- Then a full window waits for the remote peer only. -/
theorem Idle.isFullInner (h : Idle q) (hCAP : 2 < CAP) (r : Option SeqNo) :
    q.isFullInner r ≠ .error .waitingForReply := by
  rw [SeqEx.isFullInner_of_nil hCAP h.replies]
  split <;> simp

/-- Nor does `try_pump` have to wait for a reply number. -/
theorem Idle.tryPump (h : Idle q) (hCAP : 2 < CAP) :
    q.tryPumpRaw.1 ≠ .error .waitingForReply := by
  have hpump := q.tryPumpRaw_cases
  generalize q.tryPumpRaw = res at hpump ⊢
  cases hpump with
  | nothing _ => simp
  | full n r b d e hcell hfull =>
    intro he
    cases he
    exact h.isFullInner hCAP r hfull
  | locked n r d hcell hfull hlock =>
    rw [h.unlocked] at hlock
    cases hlock
  | next _ _ _ _ _ _ _ => simp

/-- A received packet does not have to wait for one. -/
theorem Idle.mustWait (h : Idle q) (hCAP : 2 < CAP) (n : SeqNo) (r : Option SeqNo) (b : Bool) :
    (q.mustWait n r b).2 = false := by
  have hfull := h.isFullInner hCAP r
  unfold SeqEx.mustWait
  split
  · rw [h.unlocked, Bool.and_false]
  · rfl
  · rename_i hwait
    exact absurd hwait hfull

/-- So `receive` does not say that it has to. -/
theorem Idle.tryReceive (h : Idle q) (hCAP : 2 < CAP) (packet : Packet R) :
    (q.tryReceiveRawAndDirect id packet).1 ≠ .error .waitingForReply := by
  rcases packet.eq_ack_or_newWithData with ⟨m, rfl⟩ | ⟨n, r, b, d, rfl⟩
  · simp only [SeqEx.tryReceiveRawAndDirect]
    split <;> simp
  · have hwait := h.mustWait hCAP n r b
    rw [SeqEx.tryReceive_newWithData]
    unfold SeqEx.receiveData
    dsimp only
    rw [hwait, Bool.or_false]
    repeat' split
    all_goals simp_all

/-- Nor does `try_send`. -/
theorem Idle.trySend (h : Idle q) (hCAP : 2 < CAP) (t : Int64) (b : Bool) (f g : SeqNo → S) :
    (q.trySendDirectWith t b f).1 ≠ .error (.waitingForReply, g) := by
  have hfull := h.isFullInner hCAP none
  unfold SeqEx.trySendDirectWith
  split
  · rename_i e he
    intro heq
    cases heq
    exact hfull he
  · simp

end Idle

namespace Program

variable [NeZero CAP] {s : Program S R CAP}

omit [NeZero CAP] in
/-- Without guards there are no obligations and no holders. -/
theorem holders_of_idle (hguard : s.guard = none) (hcomponents : s.components = []) :
    s.obligations = [] ∧ s.holders = 0 := by
  simp [holders, obligations, hguard, hcomponents]

/-- In every run the outstanding reply numbers are those of the guard and of the guards
taken apart, and the lock is taken exactly while one of these or a `SeqCstGuard` holds
it, which is never more than one. While there are none, no call has to wait for a
reply number. -/
theorem waits_only_for_components (hCAP : 2 < CAP) (interval : Int64) (initialSeqNo : SeqNo)
    (h : Reaches Possible next (new interval initialSeqNo : Program S R CAP) s) :
    s.seq.concurrentReplies.Perm (s.obligations.map ReplyGuard.replyNo) ∧
      s.holders ≤ 1 ∧ (s.seq.isLocked = true ↔ 0 < s.holders) ∧
      (s.components = [] → ∀ op, s.Possible op → (s.perform op).1.waitsForReply = false) := by
  obtain ⟨⟨hle, hlocked⟩, hlost, haccounted⟩ := reaches_accounted h
  have hperm : s.seq.concurrentReplies.Perm (s.obligations.map ReplyGuard.replyNo) := by
    simp only [Ledger.Lost, ledger, Multiset.map_coe, List.map_map, add_zero] at hlost
    exact Multiset.coe_eq_coe.mp hlost
  rw [Ledger.Accounted, holders_ledger] at haccounted
  rw [holders_ledger] at hle hlocked
  refine ⟨hperm, hle, ⟨haccounted, hlocked⟩, fun hcomponents op hpos => ?_⟩
  have hidle (hguard : s.guard = none) : Idle s.seq := by
    obtain ⟨hnil, hzero⟩ := holders_of_idle hguard hcomponents
    rw [hnil] at hperm
    refine ⟨hperm.eq_nil, eq_false_of_ne_true fun hlock => ?_⟩
    have hpos := haccounted hlock
    rw [hzero] at hpos
    exact Nat.lt_irrefl 0 hpos
  cases op with
  | trySend t b f =>
    have hne := (hidle hpos).trySend hCAP t b f
    simp only [perform]
    cases hr : (s.seq.trySendDirectWith t b f).1 with
    | ok p => rfl
    | error e =>
      obtain ⟨e, g⟩ := e
      cases e with
      | waitingForRecv => rfl
      | waitingForReply => exact absurd hr (hne g)
  | receive packet =>
    have hne := (hidle hpos).tryReceive hCAP packet
    simp only [perform]
    cases hr : (s.seq.tryReceiveRawAndDirect id packet).1 with
    | ok o => rfl
    | error e =>
      cases e with
      | waitingForReply => exact absurd hr hne
      | _ => rfl
  | tryPump =>
    have hne := (hidle hpos).tryPump hCAP
    simp only [perform]
    cases hr : s.seq.tryPumpRaw.1 with
    | ok o => rfl
    | error e =>
      cases e with
      | waitingForRecv => rfl
      | waitingForReply => exact absurd hr hne
  | service t | fromComponents g => rfl
  | _ =>
    simp only [perform]
    split <;> rfl

/-- A SeqCst packet is acknowledged with the lock kept, the lock is given back, and the
guard of the next packet is taken apart, put together and replied with. -/
def takenApart : List (Op ℕ ℕ) :=
  [.receive (.seqCstPayload 0 80), .ack, .drop, .receive (.payload 1 81), .toComponents,
    .trySend 0 false fun _ => 70, .fromComponents ⟨1, false⟩, .replyWith 0 true fun _ _ => 71]

/-- The next SeqCst packet is received after all guards were consumed. -/
theorem waits_only_for_components_takenApart :
    ((takenApart.foldl next (new 100 0) : Program ℕ ℕ 4).perform
      (.receive (.seqCstPayload 2 82))).1.waitsForReply = false :=
  (waits_only_for_components (by decide) 100 0 (Allowed.reaches (l := takenApart)
    (show Allowed Possible next (new 100 0 : Program ℕ ℕ 4) _ by decide +kernel))).2.2.2
    (by decide +kernel) (.receive (.seqCstPayload 2 82)) (by decide +kernel)

end Program

end SequentialExchange.SingleThread
