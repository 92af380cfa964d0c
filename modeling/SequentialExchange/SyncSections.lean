import SequentialExchange.Calls

/-!
# The sections of the shared endpoint

`sync.rs` keeps one endpoint behind a mutex, with two condition variables and
the flags that say who sleeps on them. Every stretch of code that holds the
mutex is one `Section` here: what it returns, the state it leaves and whom it
notifies. A call that sleeps ends its section when it starts to wait and
continues with another one when it has the mutex back. What the sections put on
the wire is the concern of `Answer.emitted`.
-/

namespace SequentialExchange.Sync

/-- `SeqExInner` of `sync.rs`: what the mutex protects. -/
structure SeqExInner (SendData RecvData : Type*) (CAP : ℕ) where
  /-- The state machine. -/
  seq : SeqEx SendData RecvData CAP
  /-- The number of senders that wait on `wait_on_recv`. -/
  recvWaiters : ℕ
  /-- Whether a sender may wait on `wait_on_reply`. -/
  replySenderWaiters : Bool
  /-- Whether a pumping thread waits on `wait_on_reply`. -/
  replyReceiverWaiters : Bool
  /-- Whether `close` was called. -/
  closed : Bool

/-- The two condition variables. -/
inductive Condition where
  /-- `wait_on_recv`. -/
  | onRecv
  /-- `wait_on_reply`. -/
  | onReply
  deriving DecidableEq, Repr

/-- What a section does to the condition variables when it ends. -/
inductive Notice where
  /-- Nothing. -/
  | nobody
  /-- `wait_on_recv.notify_one()`. -/
  | recvOne
  /-- `wait_on_reply.notify_all()`. -/
  | replyAll
  deriving DecidableEq, Repr

/-- One passage through the mutex. -/
structure Passage (S R : Type*) (CAP : ℕ) (ρ : Type*) where
  /-- What is returned to the caller. -/
  result : ρ
  /-- The state that is left. -/
  inner : SeqExInner S R CAP
  /-- Who is notified. -/
  notice : Notice

/-- `ReplyGuard`: the obligation to reply to or acknowledge one packet. -/
structure ReplyGuard where
  /-- The number of that packet. -/
  replyNo : SeqNo
  /-- Whether the guard holds the SeqCst lock. -/
  isHoldingLock : Bool
  deriving DecidableEq, Repr

/-- `TryRecvError`. -/
inductive TryRecvError where
  /-- Some guard has to be dropped first. -/
  | waitingForReply
  /-- The packet cannot be processed now, or was dropped. -/
  | outOfSequence
  /-- The instance was closed. -/
  | closed
  deriving DecidableEq, Repr

/-- `TrySendError`. -/
inductive TrySendError where
  /-- The send window is full. -/
  | waitingForRecv
  /-- Some guard has to be dropped first. -/
  | waitingForReply
  /-- The instance was closed. -/
  | closed
  deriving DecidableEq, Repr

/-- What `try_receive` makes of an error of the state machine. -/
def TryRecvError.ofRaw : TryRawRecvError → TryRecvError
  | .droppedTooEarly | .droppedDuplicate | .droppedDuplicateResendAck _ | .waitingForRecv =>
    .outOfSequence
  | .waitingForReply => .waitingForReply

/-- `From<TryError> for TrySendError`. -/
def TrySendError.ofTry : TryError → TrySendError
  | .waitingForRecv => .waitingForRecv
  | .waitingForReply => .waitingForReply

/-- The guard that `RecvOk::from_raw` makes of a result. -/
def ReplyGuard.ofRaw? {S R : Type*} : RecvOkRaw S R → Option ReplyGuard
  | .payload n c _ | .reply n c _ _ => some ⟨n, c⟩
  | .ack _ => none

/-- The arguments of a `send` that is under way. -/
structure SendRequest (S : Type*) where
  /-- Whether the packet is SeqCst. -/
  seqCst : Bool
  /-- The data, given the number the packet gets. -/
  f : SeqNo → S
  /-- When the timeout variants give up. -/
  endTime : Option Int64

/-- What a section of `send` comes to. -/
inductive SendResult (S : Type*) where
  /-- `Ok`, with the deadline if it was lowered. -/
  | sent (schedule : Option Int64)
  /-- `Err(ClosedError)` of `send` and `send_with`. -/
  | closedError
  /-- The error of a timeout or try variant, which hands the data back. -/
  | failed (e : TrySendError) (f : SeqNo → S)
  /-- The thread goes to sleep, the timeout variants for so many milliseconds. -/
  | waits (on : Condition) (timeout : Option UInt64) (request : SendRequest S)

/-- What a section of `pump` comes to. -/
inductive PumpResult (S R : Type*) where
  /-- The return value. -/
  | returned (ok : Option (RecvOkRaw S R × Bool))
  /-- The thread goes to sleep on `wait_on_reply`. -/
  | waits

/-- `i64::saturating_add`. -/
def saturatingAdd (a b : Int64) : Int64 :=
  Int64.ofInt (max (-2 ^ 63) (min (2 ^ 63 - 1) (a.toInt + b.toInt)))

namespace SeqExInner

variable {S R : Type*} {CAP : ℕ} [NeZero CAP]

/-- `SeqEx::new` of `sync.rs`. -/
def new (retryInterval : Int64) (initialSeqNo : SeqNo) : SeqExInner S R CAP where
  seq := SeqEx.new retryInterval initialSeqNo
  recvWaiters := 0
  replySenderWaiters := false
  replyReceiverWaiters := false
  closed := false

/-- `notify_reply`. -/
def notifyReply {ρ : Type*} (i : SeqExInner S R CAP) (result : ρ) : Passage S R CAP ρ :=
  if i.replySenderWaiters || i.replyReceiverWaiters then
    ⟨result, { i with replySenderWaiters := false }, .replyAll⟩
  else ⟨result, i, .nobody⟩

/-- `notify_recv`. -/
def notifyRecv {ρ : Type*} (i : SeqExInner S R CAP) (result : ρ) : Passage S R CAP ρ :=
  ⟨result, i, if 0 < i.recvWaiters then .recvOne else .nobody⟩

/-- `(pre_nst > nst).then_some(nst)`. -/
def schedule (before after : SeqEx S R CAP) : Option Int64 :=
  if before.nextServiceTimestamp > after.nextServiceTimestamp then some after.nextServiceTimestamp
  else none

/-! ## Receiving and pumping -/

/-- `try_receive`. -/
def tryReceive (i : SeqExInner S R CAP) (packet : Packet R) :
    Passage S R CAP (Except TryRecvError (RecvOkRaw S R × Bool)) :=
  if i.closed then ⟨.error .closed, i, .nobody⟩
  else
    let r := i.seq.tryReceiveRawAndDirect id packet
    match r.1 with
    | .ok o => notifyRecv { i with seq := r.2 } (.ok o)
    | .error e => ⟨.error (.ofRaw e), { i with seq := r.2 }, .nobody⟩

/-- `try_pump`. -/
def tryPump (i : SeqExInner S R CAP) : Passage S R CAP (Except TryError (RecvOkRaw S R × Bool)) :=
  let r := i.seq.tryPumpRaw
  match r.1 with
  | .ok o => notifyRecv { i with seq := r.2 } (.ok o)
  | .error e => ⟨.error e, { i with seq := r.2 }, .nobody⟩

/-- One iteration of the loop of `pump`. -/
def pumpLoop (i : SeqExInner S R CAP) : Passage S R CAP (PumpResult S R) :=
  let r := i.seq.tryPumpRaw
  match r.1 with
  | .ok o => notifyRecv { i with seq := r.2 } (.returned (some o))
  | .error .waitingForRecv => ⟨.returned none, { i with seq := r.2 }, .nobody⟩
  | .error .waitingForReply =>
    ⟨.waits, { i with seq := r.2, replyReceiverWaiters := true }, .nobody⟩

/-- The first section of `pump`: only one thread may wait to pump at a time. -/
def pump (i : SeqExInner S R CAP) : Passage S R CAP (PumpResult S R) :=
  if i.replyReceiverWaiters then ⟨.returned none, i, .nobody⟩ else i.pumpLoop

/-- `pump` after a wake-up. -/
def pumpResume (i : SeqExInner S R CAP) : Passage S R CAP (PumpResult S R) :=
  pumpLoop { i with replyReceiverWaiters := false }

/-! ## Sending -/

/-- `try_send_with`. -/
def trySend (i : SeqExInner S R CAP) (currentTime : Int64) (seqCst : Bool) (f : SeqNo → S) :
    Passage S R CAP (SendResult S) :=
  if i.closed then ⟨.failed .closed f, i, .nobody⟩
  else
    let r := i.seq.trySendDirectWith currentTime seqCst f
    match r.1 with
    | .ok _ => ⟨.sent (schedule i.seq r.2), { i with seq := r.2 }, .nobody⟩
    | .error (e, f) => ⟨.failed (.ofTry e) f, { i with seq := r.2 }, .nobody⟩

/-- One iteration of the loop of `send!`; `startTime` is the last reading of the
timeout variants. -/
def sendLoop (i : SeqExInner S R CAP) (startTime currentTime : Int64) (request : SendRequest S) :
    Passage S R CAP (SendResult S) :=
  let r := i.seq.trySendDirectWith currentTime request.seqCst request.f
  let timeout := request.endTime.map fun endTime => (endTime - startTime).toUInt64
  match r.1 with
  | .ok _ => ⟨.sent (schedule i.seq r.2), { i with seq := r.2 }, .nobody⟩
  | .error (.waitingForRecv, f) =>
    ⟨.waits .onRecv timeout { request with f := f },
      { i with seq := r.2, recvWaiters := i.recvWaiters + 1 }, .nobody⟩
  | .error (.waitingForReply, f) =>
    ⟨.waits .onReply timeout { request with f := f },
      { i with seq := r.2, replySenderWaiters := true }, .nobody⟩

/-- What a variant of `send` returns when the instance was closed. -/
def closedResult (request : SendRequest S) : SendResult S :=
  match request.endTime with
  | none => .closedError
  | some _ => .failed .closed request.f

/-- The first section of `send_with` and, with a timeout, of `send_with_timeout`. -/
def send (i : SeqExInner S R CAP) (startTime currentTime : Int64) (seqCst : Bool) (f : SeqNo → S)
    (timeout : Option Int64) : Passage S R CAP (SendResult S) :=
  let request : SendRequest S := ⟨seqCst, f, timeout.map (saturatingAdd startTime)⟩
  if i.closed then ⟨closedResult request, i, .nobody⟩ else i.sendLoop startTime currentTime request

/-- A sender that waited on `on` has the mutex back. -/
def sendResume (i : SeqExInner S R CAP) (on : Condition) (startTime currentTime : Int64)
    (request : SendRequest S) : Passage S R CAP (SendResult S) :=
  let i' := match on with
    | .onRecv => { i with recvWaiters := i.recvWaiters - 1 }
    | .onReply => i
  let timedOut := match on with
    | .onRecv => TrySendError.waitingForRecv
    | .onReply => TrySendError.waitingForReply
  if request.endTime.any (· ≤ startTime) then ⟨.failed timedOut request.f, i', .nobody⟩
  else if i'.closed then ⟨closedResult request, i', .nobody⟩
  else i'.sendLoop startTime currentTime request

/-! ## Guards -/

/-- `ReplyGuard::reply_with`. On a closed instance it returns at once, and the
guard is dropped in a section of its own. -/
def replyWith (i : SeqExInner S R CAP) (g : ReplyGuard) (currentTime : Int64) (seqCst : Bool)
    (f : SeqNo → SeqNo → S) : Passage S R CAP (Option Int64) :=
  if i.closed then ⟨none, i, .nobody⟩
  else
    let r := i.seq.replyRawAndDirect currentTime g.replyNo g.isHoldingLock seqCst
      (f i.seq.nextSendSeqNo g.replyNo)
    notifyReply { i with seq := r.2 } (schedule i.seq r.2)

/-- `ReplyGuard::consume_lock`: tells whether a `SeqCstGuard` is made. -/
def consumeLock (i : SeqExInner S R CAP) (g : ReplyGuard) : Passage S R CAP Bool :=
  if g.isHoldingLock then ⟨true, i, .nobody⟩ else i.notifyReply false

/-- `ReplyGuard::ack`. -/
def ack (i : SeqExInner S R CAP) (g : ReplyGuard) : Passage S R CAP Bool :=
  if i.closed then i.consumeLock g
  else consumeLock { i with seq := (i.seq.ackRawAndDirect g.replyNo false).2 } g

/-- `ReplyGuard::unlock`: tells whether the guard held the lock. -/
def unlock (i : SeqExInner S R CAP) (g : ReplyGuard) : Passage S R CAP Bool :=
  if g.isHoldingLock then notifyReply { i with seq := i.seq.unlockRaw } true
  else ⟨false, i, .nobody⟩

/-- `ReplyGuard::reply_with_stay_locked`. -/
def replyWithStayLocked (i : SeqExInner S R CAP) (g : ReplyGuard) (currentTime : Int64)
    (seqCst : Bool) (f : SeqNo → SeqNo → S) : Passage S R CAP (Bool × Option Int64) :=
  if i.closed then
    let p := i.consumeLock g
    ⟨(p.result, none), p.inner, p.notice⟩
  else
    let r := i.seq.replyRawAndDirect currentTime g.replyNo false seqCst
      (f i.seq.nextSendSeqNo g.replyNo)
    let p := consumeLock { i with seq := r.2 } g
    ⟨(p.result, schedule i.seq r.2), p.inner, p.notice⟩

/-- `Drop for ReplyGuard`. -/
def dropReplyGuard (i : SeqExInner S R CAP) (g : ReplyGuard) : Passage S R CAP Unit :=
  if i.closed then i.notifyReply ()
  else notifyReply { i with seq := (i.seq.ackRawAndDirect g.replyNo g.isHoldingLock).2 } ()

/-- `Drop for SeqCstGuard`. -/
def dropSeqCstGuard (i : SeqExInner S R CAP) : Passage S R CAP Unit :=
  notifyReply { i with seq := i.seq.unlockRaw } ()

/-! ## Closing and service -/

/-- `close`. -/
def close (i : SeqExInner S R CAP) : Passage S R CAP Unit :=
  notifyRecv { i with closed := true } ()

/-- `service`. -/
def service (i : SeqExInner S R CAP) (currentTime : Int64) : Passage S R CAP Int64 :=
  let r := i.seq.service currentTime
  ⟨r.2.1, { i with seq := r.2.2 }, .nobody⟩

/-- `service_scheduled`; `none` is `ClosedError`. -/
def serviceScheduled (i : SeqExInner S R CAP) (currentTime : Int64) :
    Passage S R CAP (Option Int64) :=
  if i.closed then ⟨none, i, .nobody⟩
  else
    let r := i.seq.service currentTime
    ⟨some r.2.2.nextServiceTimestamp, { i with seq := r.2.2 }, .nobody⟩

end SeqExInner

end SequentialExchange.Sync
