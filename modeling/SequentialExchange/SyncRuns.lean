import SequentialExchange.GuardedRuns
import SequentialExchange.SyncSections

/-!
# Threads that share an endpoint

Any number of threads share one `SeqEx` of `sync.rs`. Each step is one passage
through the mutex, or a conversion of a guard that needs no mutex. The state
lists the calls that sleep and the guards that exist, wherever they are kept, so
threads need no names. `receive` is a `tryReceive` step that a `pump` step may
follow. A woken call continues in a step of its own, and calls may also continue
without a notification, as after a timeout.
-/

namespace SequentialExchange.Sync

open GuardedRuns

/-- Where the obligation of a `ReplyGuard` is kept. -/
inductive Place where
  /-- A live guard. -/
  | guard
  /-- A guard that `reply_with` gave up on, about to be dropped. -/
  | dropping
  /-- The values returned by `to_components`. -/
  | components
  deriving DecidableEq, Repr

/-- An existing obligation. -/
structure Owner where
  /-- Where it is kept. -/
  place : Place
  /-- What it consists of. -/
  guard : ReplyGuard
  deriving DecidableEq, Repr

/-- A call that sleeps, or was notified and does not have the mutex back yet. -/
inductive Waiter (S : Type*) where
  /-- A `send` on one of the condition variables. -/
  | sender (on : Condition) (request : SendRequest S) (notified : Bool)
  /-- The `pump` on `wait_on_reply`. -/
  | pumper (notified : Bool)

/-- The condition variable of a sleeping call that was not notified. -/
def Waiter.asleepOn? {S : Type*} : Waiter S → Option Condition
  | .sender on _ false => some on
  | .pumper false => some .onReply
  | _ => none

/-- The call is notified. -/
def Waiter.awake {S : Type*} : Waiter S → Waiter S
  | .sender on request _ => .sender on request true
  | .pumper _ => .pumper true

/-- The calls after a notice. `notify_one` wakes the sleeper at index `choice`,
or the first one when that call does not sleep there. -/
def Notice.wake {S : Type*} (choice : ℕ) (waiters : List (Waiter S)) : Notice → List (Waiter S)
  | .nobody => waiters
  | .recvOne =>
    let sleeps := fun w : Waiter S => w.asleepOn? == some .onRecv
    waiters.modify (if waiters[choice]?.any sleeps then choice else waiters.findIdx sleeps)
      Waiter.awake
  | .replyAll => waiters.map fun w => if w.asleepOn? = some .onReply then w.awake else w

/-- The shared instance with everything that refers to it. -/
structure Shared (S R : Type*) (CAP : ℕ) where
  /-- What the mutex protects. -/
  inner : SeqExInner S R CAP
  /-- The calls that sleep or continue. -/
  waiters : List (Waiter S)
  /-- The obligations that exist. -/
  owners : List Owner
  /-- The number of `SeqCstGuard`s. -/
  seqCstGuards : ℕ

/-- What a thread can do. -/
inductive Op (S R : Type*) where
  /-- `try_receive`, also the first section of `receive`. -/
  | tryReceive (packet : Packet R)
  /-- `try_pump`. -/
  | tryPump
  /-- The first section of `pump`. -/
  | pump
  /-- `try_send` and `try_send_with`. -/
  | trySend (currentTime : Int64) (seqCst : Bool) (f : SeqNo → S)
  /-- The first section of `send` and its variants. -/
  | send (startTime currentTime : Int64) (seqCst : Bool) (f : SeqNo → S) (timeout : Option Int64)
  /-- The call at this index has the mutex back. -/
  | resume (w : ℕ) (startTime currentTime : Int64)
  /-- `ReplyGuard::reply` and `reply_with`. -/
  | replyWith (g : ReplyGuard) (currentTime : Int64) (seqCst : Bool) (f : SeqNo → SeqNo → S)
  /-- The drop of the guard inside a `reply_with` that found the instance closed. -/
  | finishReply (g : ReplyGuard)
  /-- `ReplyGuard::ack`. -/
  | ack (g : ReplyGuard)
  /-- `ReplyGuard::unlock`. -/
  | unlock (g : ReplyGuard)
  /-- `ReplyGuard::reply_stay_locked` and `reply_with_stay_locked`. -/
  | replyWithStayLocked (g : ReplyGuard) (currentTime : Int64) (seqCst : Bool)
    (f : SeqNo → SeqNo → S)
  /-- A `ReplyGuard` is dropped. -/
  | dropReplyGuard (g : ReplyGuard)
  /-- `ReplyGuard::to_components`. -/
  | toComponents (g : ReplyGuard)
  /-- `ReplyGuard::from_components`. -/
  | fromComponents (g : ReplyGuard)
  /-- A `SeqCstGuard` is dropped. -/
  | dropSeqCstGuard
  /-- `close`. -/
  | close
  /-- `service`. -/
  | service (currentTime : Int64)
  /-- `service_scheduled`. -/
  | serviceScheduled (currentTime : Int64)

/-- What a step returns to its thread. -/
inductive Outcome (S R : Type*) where
  /-- Of `try_receive`. -/
  | received (r : Except TryRecvError (RecvOkRaw S R × Bool))
  /-- Of `try_pump`. -/
  | tryPumped (r : Except TryError (RecvOkRaw S R × Bool))
  /-- Of a section of `pump`. -/
  | pumped (r : PumpResult S R)
  /-- Of a section of `send` or of `try_send`. -/
  | sent (r : SendResult S)
  /-- Of `reply_with`. -/
  | replied (schedule : Option Int64)
  /-- Of `ReplyGuard::ack`: whether there is a `SeqCstGuard` now. -/
  | acked (locked : Bool)
  /-- Of `ReplyGuard::unlock`. -/
  | unlocked (was : Bool)
  /-- Of `reply_with_stay_locked`. -/
  | stayedLocked (r : Bool × Option Int64)
  /-- Of `service`. -/
  | serviced (delay : Int64)
  /-- Of `service_scheduled`. -/
  | scheduled (r : Option Int64)
  /-- Of an operation without a result. -/
  | done

/-- The packet that `receive` or `pump` returns. -/
def Outcome.delivery? {S R : Type*} : Outcome S R → Option (RecvOkRaw S R)
  | .received (.ok o) | .tryPumped (.ok o) | .pumped (.returned (some o)) => some o.1
  | _ => none

namespace Shared

variable {S R : Type*} {CAP : ℕ} [NeZero CAP]

/-- A new instance. -/
def new (retryInterval : Int64) (initialSeqNo : SeqNo) : Shared S R CAP :=
  ⟨SeqExInner.new retryInterval initialSeqNo, [], [], 0⟩

/-- A section ends: its state is stored and its notice is carried out. -/
def finish {ρ : Type*} (s : Shared S R CAP) (choice : ℕ) (p : Passage S R CAP ρ) : Shared S R CAP :=
  { s with inner := p.inner, waiters := p.notice.wake choice s.waiters }

/-- The guard for a returned packet comes into being. -/
def grant (s : Shared S R CAP) (o : Outcome S R) : Shared S R CAP :=
  { s with owners :=
      ((o.delivery?.bind ReplyGuard.ofRaw?).map (Owner.mk .guard)).toList ++ s.owners }

/-- A call that has to wait goes to sleep. -/
def sleep (s : Shared S R CAP) (o : Outcome S R) : Shared S R CAP :=
  match o with
  | .sent (.waits on _ request) => { s with waiters := s.waiters ++ [.sender on request false] }
  | .pumped .waits => { s with waiters := s.waiters ++ [.pumper false] }
  | _ => s

/-- The obligation leaves its place. -/
def release (s : Shared S R CAP) (place : Place) (g : ReplyGuard) : Shared S R CAP :=
  { s with owners := s.owners.erase ⟨place, g⟩ }

/-- The obligation is kept in a place. -/
def keep (s : Shared S R CAP) (place : Place) (g : ReplyGuard) : Shared S R CAP :=
  { s with owners := ⟨place, g⟩ :: s.owners }

/-- A `SeqCstGuard` comes into being when `locked`. -/
def addSeqCstGuard (s : Shared S R CAP) (locked : Bool) : Shared S R CAP :=
  { s with seqCstGuards := s.seqCstGuards + locked.toNat }

/-- The end of a section that returns packets or may sleep. -/
def conclude {ρ : Type*} (s : Shared S R CAP) (choice : ℕ) (p : Passage S R CAP ρ)
    (outcome : ρ → Outcome S R) : Outcome S R × Shared S R CAP :=
  let o := outcome p.result
  (o, ((s.finish choice p).grant o).sleep o)

/-- One step; `choice` is the sleeper that a `notify_one` picks. -/
def perform (s : Shared S R CAP) (choice : ℕ) : Op S R → Outcome S R × Shared S R CAP
  | .tryReceive packet => s.conclude choice (s.inner.tryReceive packet) .received
  | .tryPump => s.conclude choice s.inner.tryPump .tryPumped
  | .pump => s.conclude choice s.inner.pump .pumped
  | .trySend t b f => s.conclude choice (s.inner.trySend t b f) .sent
  | .send t0 t b f timeout => s.conclude choice (s.inner.send t0 t b f timeout) .sent
  | .resume w t0 t =>
    let s' := { s with waiters := s.waiters.eraseIdx w }
    match s.waiters[w]? with
    | some (.sender on request _) =>
      s'.conclude choice (s.inner.sendResume on t0 t request) .sent
    | some (.pumper _) => s'.conclude choice s.inner.pumpResume .pumped
    | none => (.done, s)
  | .replyWith g t b f =>
    let p := s.inner.replyWith g t b f
    let s' := (s.release .guard g).finish choice p
    (.replied p.result, if s.inner.closed then s'.keep .dropping g else s')
  | .finishReply g =>
    (.done, (s.release .dropping g).finish choice (s.inner.dropReplyGuard g))
  | .ack g =>
    let p := s.inner.ack g
    (.acked p.result, ((s.release .guard g).finish choice p).addSeqCstGuard p.result)
  | .unlock g =>
    let p := s.inner.unlock g
    (.unlocked p.result, ((s.release .guard g).finish choice p).keep .guard ⟨g.replyNo, false⟩)
  | .replyWithStayLocked g t b f =>
    let p := s.inner.replyWithStayLocked g t b f
    (.stayedLocked p.result, ((s.release .guard g).finish choice p).addSeqCstGuard p.result.1)
  | .dropReplyGuard g =>
    (.done, (s.release .guard g).finish choice (s.inner.dropReplyGuard g))
  | .toComponents g => (.done, (s.release .guard g).keep .components g)
  | .fromComponents g => (.done, (s.release .components g).keep .guard g)
  | .dropSeqCstGuard =>
    (.done, { s.finish choice s.inner.dropSeqCstGuard with seqCstGuards := s.seqCstGuards - 1 })
  | .close => (.done, s.finish choice s.inner.close)
  | .service t =>
    let p := s.inner.service t
    (.serviced p.result, s.finish choice p)
  | .serviceScheduled t =>
    let p := s.inner.serviceScheduled t
    (.scheduled p.result, s.finish choice p)

/-- A guard can be used by the thread that has it, and a sleeping call continued. -/
def Possible (s : Shared S R CAP) : Op S R → Prop
  | .replyWith g .. | .ack g | .unlock g | .replyWithStayLocked g .. | .dropReplyGuard g
  | .toComponents g => ⟨.guard, g⟩ ∈ s.owners
  | .finishReply g => ⟨.dropping, g⟩ ∈ s.owners
  | .fromComponents g => ⟨.components, g⟩ ∈ s.owners
  | .dropSeqCstGuard => 0 < s.seqCstGuards
  | .resume w .. => w < s.waiters.length
  | _ => True

/-- A step is possible if its guard exists and its waiter is notified. -/
instance decidablePossible (s : Shared S R CAP) : ∀ op, Decidable (s.Possible op)
  | .replyWith g .. | .ack g | .unlock g | .replyWithStayLocked g .. | .dropReplyGuard g
  | .toComponents g => inferInstanceAs (Decidable (⟨.guard, g⟩ ∈ s.owners))
  | .finishReply g => inferInstanceAs (Decidable (⟨.dropping, g⟩ ∈ s.owners))
  | .fromComponents g => inferInstanceAs (Decidable (⟨.components, g⟩ ∈ s.owners))
  | .dropSeqCstGuard => inferInstanceAs (Decidable (0 < s.seqCstGuards))
  | .resume w .. => inferInstanceAs (Decidable (w < s.waiters.length))
  | .tryReceive _ | .tryPump | .pump | .trySend .. | .send .. | .close | .service _
  | .serviceScheduled _ => isTrue trivial

/-- The guard of a run: every step is possible. -/
def Enabled (s : Shared S R CAP) (a : ℕ × Op S R) : Prop := s.Possible a.2

/-- The thread must not be asleep. -/
instance decidableEnabled (s : Shared S R CAP) (a : ℕ × Op S R) : Decidable (s.Enabled a) :=
  s.decidablePossible a.2

/-- A step with its choice, without its outcome. -/
def next (s : Shared S R CAP) (a : ℕ × Op S R) : Shared S R CAP := (s.perform a.1 a.2).2

/-- The calls on the state machine that a step makes; no section makes two. -/
def innerCall? (s : Shared S R CAP) : Op S R → Option (Call S R)
  | .tryReceive packet => if s.inner.closed then none else some (.receive packet)
  | .tryPump => some .pump
  | .pump => if s.inner.replyReceiverWaiters then none else some .pump
  | .trySend t b f => if s.inner.closed then none else some (.trySend t b f)
  | .send _ t b f _ => if s.inner.closed then none else some (.trySend t b f)
  | .resume w t0 t =>
    match s.waiters[w]? with
    | some (.sender _ request _) =>
      if request.endTime.any (· ≤ t0) || s.inner.closed then none
      else some (.trySend t request.seqCst request.f)
    | some (.pumper _) => some .pump
    | none => none
  | .replyWith g t b f =>
    if s.inner.closed then none
    else some (.reply t g.replyNo g.isHoldingLock b (f s.inner.seq.nextSendSeqNo g.replyNo))
  | .ack g => if s.inner.closed then none else some (.ack g.replyNo false)
  | .unlock g => if g.isHoldingLock then some .unlock else none
  | .replyWithStayLocked g t b f =>
    if s.inner.closed then none
    else some (.reply t g.replyNo false b (f s.inner.seq.nextSendSeqNo g.replyNo))
  | .finishReply g | .dropReplyGuard g =>
    if s.inner.closed then none else some (.ack g.replyNo g.isHoldingLock)
  | .dropSeqCstGuard => some .unlock
  | .service t => some (.service t)
  | .serviceScheduled t => if s.inner.closed then none else some (.service t)
  | .toComponents _ | .fromComponents _ | .close => none

/-- The state machine after the calls a step makes. -/
def after (s : Shared S R CAP) (op : Op S R) : SeqEx S R CAP :=
  match s.innerCall? op with
  | some c => (s.inner.seq.call c).2
  | none => s.inner.seq

end Shared

end SequentialExchange.Sync
