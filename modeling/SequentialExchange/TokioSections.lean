import SequentialExchange.SyncRuns

/-!
# The sections of the asynchronous endpoint

`tokio.rs` keeps one endpoint behind a mutex. The packets in its windows carry
sender halves of oneshot channels, which lead to the futures that wait for a
guard: a stored packet leads to the `receive` that stored it, a sent packet to
the `send` or `reply` that waits for the answer. A channel is a number here, and
the value that was sent into it waits with the future that owns the other half.
-/

namespace SequentialExchange.Tokio

open WrapNumbering
open Sync (Condition ReplyGuard)

/-- What a oneshot hands over: the makings of a `ReplyGuard`, and the data. -/
structure Mail (RecvData : Type*) where
  /-- The number of the received packet. -/
  replyNo : SeqNo
  /-- Whether the guard will hold the SeqCst lock. -/
  locked : Bool
  /-- The data of the packet. -/
  data : RecvData

/-- `Sender`: the oneshot that takes the reply, and the data. -/
abbrev Sender (SendData : Type*) := ℕ × SendData

/-- `Receiver`: the oneshot that takes the packet, and the data. -/
abbrev Receiver (RecvData : Type*) := ℕ × RecvData

/-- `SeqExInner` of `tokio.rs`: what the mutex protects. -/
structure SeqExInner (SendData RecvData : Type*) (CAP : ℕ) where
  /-- The state machine. -/
  seq : SeqEx (Sender SendData) (Receiver RecvData) CAP
  /-- The number of futures that got `WaitingForRecv` and were not notified since. -/
  recvWaiters : ℕ
  /-- Whether a future got `WaitingForReply` since the last notification. -/
  replyWaiters : Bool

/-- How far a future of `send_with` is with waiting. -/
inductive Wait where
  /-- The mutex is released, and the `Notified` future not created yet. -/
  | leaving
  /-- The `Notified` future is created; it may have been woken. -/
  | listening (woken : Bool)
  deriving DecidableEq, Repr

/-- Where a future is suspended. -/
inductive Stage (SendData : Type*) where
  /-- `receive` at its oneshot. -/
  | receiving
  /-- `send_with` in its loop, at a condition. -/
  | sending (seqCst : Bool) (packetData : SeqNo → SendData) (on : Condition) (wait : Wait)
  /-- `send_with` or `reply_with` at the bounded update queue. -/
  | enqueuing (update : Int64)
  /-- `send_with` or `reply_with` at its oneshot. -/
  | exchanging

/-- A suspended future. -/
structure Task (SendData RecvData : Type*) where
  /-- Its oneshot. -/
  chan : ℕ
  /-- Where it is suspended. -/
  stage : Stage SendData
  /-- The value in its oneshot; `none` inside is the end of the exchange. -/
  inbox : Option (Option (Mail RecvData))

/-- `AsyncRecvError`. -/
inductive AsyncRecvError where
  /-- The packet arrived too early. -/
  | droppedTooEarly
  /-- The packet was a duplicate. -/
  | droppedDuplicate
  /-- The packet was a reply and went to the future that waits for it. -/
  | asyncReply
  /-- The sender half of the oneshot is gone. -/
  | seqExClosed
  deriving DecidableEq, Repr

/-- `AsyncError`. -/
inductive AsyncError where
  /-- The peer acknowledged the packet without a reply. -/
  | endOfExchange
  /-- The sender half of the oneshot is gone. -/
  | seqExClosed
  deriving DecidableEq, Repr

variable {S R : Type*} {CAP : ℕ}

/-- The future still waits for a value of this channel. -/
def Task.awaits (task : Task S R) (chan : ℕ) : Bool := task.chan == chan && task.inbox.isNone

/-- `oneshot::Sender::send`: fails when the future that owns the other half is gone. -/
def post (chan : ℕ) (value : Option (Mail R)) (tasks : List (Task S R)) :
    Option (List (Task S R)) :=
  if tasks.any (·.awaits chan) then
    some (tasks.modify (tasks.findIdx (·.awaits chan)) fun task =>
      { task with inbox := some value })
  else none

/-- What `receive_inner` works on. -/
structure Work (S R : Type*) (CAP : ℕ) where
  /-- The state machine. -/
  seq : SeqEx (Sender S) (Receiver R) CAP
  /-- The suspended futures. -/
  tasks : List (Task S R)

/-- One passage through the mutex. -/
structure Passage (S R : Type*) (CAP : ℕ) (ρ : Type*) where
  /-- What is returned to the caller. -/
  result : ρ
  /-- The state that is left. -/
  inner : SeqExInner S R CAP
  /-- How often `wait_on_recv.notify_one()` is called. -/
  recvWakes : ℕ
  /-- Whether `wait_on_reply.notify_waiters()` is called. -/
  replyWake : Bool

namespace Work

variable [NeZero CAP]

/-- A packet is sent to a future, and acknowledged when nobody is receiving it. -/
def hand (w : Work S R CAP) (chan : ℕ) (mail : Mail R) : Work S R CAP :=
  match post chan (some mail) w.tasks with
  | some tasks => { w with tasks := tasks }
  | none => { w with seq := (w.seq.ackRawAndDirect mail.replyNo mail.locked).2 }

/-- An acknowledgement is sent to the future that waits for the reply. -/
def endExchange (w : Work S R CAP) (chan : ℕ) : Work S R CAP :=
  { w with tasks := (post chan none w.tasks).getD w.tasks }

/-- What becomes of a pumped packet. -/
def dispatch (w : Work S R CAP) : RecvOkRaw (Sender S) (Receiver R) → Work S R CAP
  | .payload replyNo seqCst (chan, data) => w.hand chan ⟨replyNo, seqCst, data⟩
  | .reply replyNo seqCst (_, data) (chan, _) => w.hand chan ⟨replyNo, seqCst, data⟩
  | .ack (chan, _) => w.endExchange chan

/-- The loop over `try_pump_raw`, which also counts. The first argument bounds the
iterations; `CAP + 1` is never used up. -/
def pumpLoop : ℕ → Work S R CAP → ℕ × Work S R CAP
  | 0, w => (0, w)
  | fuel + 1, w =>
    let r := w.seq.tryPumpRaw
    match r.1 with
    | .ok (data, doPump) =>
      let w' := { w with seq := r.2 }.dispatch data
      if doPump then
        let rest := pumpLoop fuel w'
        (rest.1 + 1, rest.2)
      else (1, w')
    | .error _ => (0, { w with seq := r.2 })

end Work

namespace SeqExInner

/-- `SeqEx::new` of `tokio.rs`. -/
def new (retryInterval : Int64) (initialSeqNo : SeqNo) : SeqExInner S R CAP where
  seq := SeqEx.new retryInterval initialSeqNo
  recvWaiters := 0
  replyWaiters := false

/-- `notify_reply`. -/
def notifyReply {ρ : Type*} (i : SeqExInner S R CAP) (result : ρ) : Passage S R CAP ρ :=
  ⟨result, { i with replyWaiters := false }, 0, i.replyWaiters⟩

/-- `(pre_ts != nst).then_some(nst)`. -/
def update (before after : SeqEx (Sender S) (Receiver R) CAP) : Option Int64 :=
  if before.nextServiceTimestamp ≠ after.nextServiceTimestamp then some after.nextServiceTimestamp
  else none

variable [NeZero CAP]

/-- `receive_inner`, with the futures it sends to. The channel `fresh` is created
when the packet is stored; `Err(None)` is `.error none`. -/
def receiveInner (i : SeqExInner S R CAP) (tasks : List (Task S R)) (fresh : ℕ)
    (packet : Packet R) :
    Passage S R CAP (Except (Option AsyncRecvError) (ReplyGuard × R)) × List (Task S R) :=
  let r := i.seq.tryReceiveRawAndDirect (fun data => (fresh, data)) packet
  match r.1 with
  | .ok (recvData, doPump) =>
    -- pump first, handle return value second
    let p := if doPump then Work.pumpLoop (CAP + 1) ⟨r.2, tasks⟩ else (0, ⟨r.2, tasks⟩)
    let ret : Except (Option AsyncRecvError) (ReplyGuard × R) × Work S R CAP :=
      match recvData with
      | .payload replyNo seqCst data => (.ok (⟨replyNo, seqCst⟩, data), p.2)
      | .reply replyNo seqCst data (chan, _) =>
        (.error (some .asyncReply), p.2.hand chan ⟨replyNo, seqCst, data⟩)
      | .ack (chan, _) => (.error (some .asyncReply), p.2.endExchange chan)
    let toWake := min i.recvWaiters (1 + p.1)
    (⟨ret.1, ⟨ret.2.seq, i.recvWaiters - toWake, i.replyWaiters⟩, toWake, false⟩, ret.2.tasks)
  | .error .droppedTooEarly =>
    (⟨.error (some .droppedTooEarly), { i with seq := r.2 }, 0, false⟩, tasks)
  | .error .droppedDuplicate | .error (.droppedDuplicateResendAck _) =>
    (⟨.error (some .droppedDuplicate), { i with seq := r.2 }, 0, false⟩, tasks)
  | .error .waitingForRecv | .error .waitingForReply =>
    (⟨.error none, { i with seq := r.2 }, 0, false⟩, tasks)

/-- Whether the channel `fresh` was created: then its sender is in the window. -/
def created (i : SeqExInner S R CAP) (fresh : ℕ) (packet : Packet R) : Bool :=
  match packet.seqNo? with
  | some n =>
    match i.seq.recvWindow (cell CAP n) with
    | .occupied _ _ _ data => data.1 == fresh
    | _ => false
  | none => false

/-- `send_with_inner`. -/
def sendWithInner (i : SeqExInner S R CAP) (currentTime : Int64) (seqCst : Bool) (chan : ℕ)
    (packetData : SeqNo → S) : Passage S R CAP (Except TryError (Option Int64)) :=
  let r := i.seq.trySendDirectWith currentTime seqCst fun n => (chan, packetData n)
  match r.1 with
  | .error (.waitingForRecv, _) =>
    ⟨.error .waitingForRecv, { i with seq := r.2, recvWaiters := i.recvWaiters + 1 }, 0, false⟩
  | .error (.waitingForReply, _) =>
    ⟨.error .waitingForReply, { i with seq := r.2, replyWaiters := true }, 0, false⟩
  | .ok _ => ⟨.ok (update i.seq r.2), { i with seq := r.2 }, 0, false⟩

/-- `ReplyGuard::try_reply_with_inner`. -/
def tryReplyWithInner (i : SeqExInner S R CAP) (g : ReplyGuard) (currentTime : Int64)
    (seqCst : Bool) (chan : ℕ) (packetData : SeqNo → SeqNo → S) :
    Passage S R CAP (Option Int64) :=
  let r := i.seq.replyRawAndDirect currentTime g.replyNo g.isHoldingLock seqCst
    (chan, packetData i.seq.nextSendSeqNo g.replyNo)
  notifyReply { i with seq := r.2 } (update i.seq r.2)

/-- `ReplyGuard::ack` with `consume_lock`: tells whether a `SeqCstGuard` is made. -/
def ack (i : SeqExInner S R CAP) (g : ReplyGuard) : Passage S R CAP Bool :=
  let i' := { i with seq := (i.seq.ackRawAndDirect g.replyNo false).2 }
  if g.isHoldingLock then ⟨true, i', 0, false⟩ else i'.notifyReply false

/-- `ReplyGuard::unlock`: tells whether the guard held the lock. -/
def unlock (i : SeqExInner S R CAP) (g : ReplyGuard) : Passage S R CAP Bool :=
  if g.isHoldingLock then notifyReply { i with seq := i.seq.unlockRaw } true
  else ⟨false, i, 0, false⟩

/-- `Drop for ReplyGuard`. -/
def dropReplyGuard (i : SeqExInner S R CAP) (g : ReplyGuard) : Passage S R CAP Unit :=
  notifyReply { i with seq := (i.seq.ackRawAndDirect g.replyNo g.isHoldingLock).2 } ()

/-- `Drop for SeqCstGuard`. -/
def dropSeqCstGuard (i : SeqExInner S R CAP) : Passage S R CAP Unit :=
  notifyReply { i with seq := i.seq.unlockRaw } ()

/-- The section of `service_task`: the new `next_service_timestamp`. -/
def serve (i : SeqExInner S R CAP) (currentTime : Int64) : Passage S R CAP Int64 :=
  let r := i.seq.service currentTime
  ⟨r.2.2.nextServiceTimestamp, { i with seq := r.2.2 }, 0, false⟩

end SeqExInner

end SequentialExchange.Tokio
