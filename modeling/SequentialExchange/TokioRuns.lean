import SequentialExchange.TokioSections

/-!
# Futures that share an endpoint

Any number of futures share one `SeqEx` of `tokio.rs` with its service task. Each
step is one passage through the mutex, the creation of a `Notified` future, one
call of `notify_one` or `notify_waiters`, one access to the update queue, or what
a future does when its oneshot is ready. A suspended future may also be dropped.
The notifications are called after the mutex is released, so a section leaves
them to be called, and other steps may come first.
-/

namespace SequentialExchange.Tokio

open GuardedRuns
open Sync (Condition ReplyGuard Place Owner)

variable {S R : Type*} {CAP : ℕ}

/-- The capacity of the update queue. -/
def updateQueueCap : ℕ := 8

/-- Where a future goes when its packet is in the window. -/
def Stage.ofUpdate : Option Int64 → Stage S
  | some update => .enqueuing update
  | none => .exchanging

/-- Where an iteration of the loop of `send_with` ends. -/
def Stage.ofSend (seqCst : Bool) (packetData : SeqNo → S) :
    Except TryError (Option Int64) → Stage S
  | .ok update => .ofUpdate update
  | .error .waitingForRecv => .sending seqCst packetData .onRecv .leaving
  | .error .waitingForReply => .sending seqCst packetData .onReply .leaving

namespace Stage

/-- `send_with` at this condition, so far with waiting. -/
def isWaiting (on : Condition) (wait : Wait) : Stage S → Bool
  | .sending _ _ on' wait' => on == on' && wait == wait'
  | _ => false

/-- A future at its oneshot. -/
def isAtOneshot : Stage S → Bool
  | .receiving | .exchanging => true
  | _ => false

/-- The update that a future holds. -/
def update? : Stage S → Option Int64
  | .enqueuing update => some update
  | _ => none

/-- The wait goes on to this point. -/
def waitAt (wait : Wait) : Stage S → Stage S
  | .sending seqCst packetData on _ => .sending seqCst packetData on wait
  | stage => stage

end Stage

/-- The future waits on this condition, so far with waiting. -/
def Task.isWaiting (on : Condition) (wait : Wait) (task : Task S R) : Bool :=
  task.stage.isWaiting on wait

/-- Who waits on a condition is a sender. -/
theorem Task.isWaiting_iff {on : Condition} {wait : Wait} {task : Task S R} :
    task.isWaiting on wait = true ↔ ∃ b f, task.stage = .sending b f on wait := by
  unfold Task.isWaiting Stage.isWaiting
  cases task.stage with
  | sending b f on' wait' =>
    simp only [Bool.and_eq_true, beq_iff_eq, Stage.sending.injEq, exists_and_left]
    constructor
    · rintro ⟨rfl, rfl⟩
      exact ⟨b, rfl, f, rfl, rfl, rfl⟩
    · rintro ⟨-, -, -, -, rfl, rfl⟩
      exact ⟨rfl, rfl⟩
  | _ => simp

/-- The future goes on to this stage. -/
def Task.goTo (task : Task S R) (stage : Stage S) : Task S R := { task with stage := stage }

/-- The `Notified` future is woken. -/
def Task.wake (task : Task S R) : Task S R := task.goTo (task.stage.waitAt (.listening true))

/-- `Notify::notify_one` of `wait_on_recv` on its permit and the futures: the future
at index `choice` is woken, or the first that listens when that one does not. A
permit is stored when nobody listens. -/
def notifyOne (choice : ℕ) (permit : Bool) (tasks : List (Task S R)) :
    Bool × List (Task S R) :=
  let listens := Task.isWaiting .onRecv (.listening false)
  if tasks.any listens then
    (permit,
      tasks.modify (if tasks[choice]?.any listens then choice else tasks.findIdx listens) Task.wake)
  else (true, tasks)

/-- `Notify::notify_waiters` of `wait_on_reply`. -/
def notifyWaiters (tasks : List (Task S R)) : List (Task S R) :=
  tasks.map fun task => if task.isWaiting .onReply (.listening false) then task.wake else task

/-- The sender half of this channel is in one of the windows. -/
def SeqExInner.holds (i : SeqExInner S R CAP) (chan : ℕ) : Prop :=
  (∃ c, (i.seq.sendWindow c).any (·.data.1 = chan)) ∨
    ∃ c, match i.seq.recvWindow c with
      | .occupied _ _ _ data => data.1 = chan
      | .unlocked _ | .empty => False

/-- The windows are searched for the oneshot. -/
instance SeqExInner.decidableHolds (i : SeqExInner S R CAP) (chan : ℕ) :
    Decidable (i.holds chan) :=
  have (c : Fin CAP) : Decidable (match i.seq.recvWindow c with
      | .occupied _ _ _ data => data.1 = chan
      | .unlocked _ | .empty => False) :=
    match i.seq.recvWindow c with
    | .occupied _ _ _ data => inferInstanceAs (Decidable (data.1 = chan))
    | .unlocked _ | .empty => isFalse not_false
  inferInstanceAs (Decidable (_ ∨ _))

/-- The shared instance with its service task and everything that refers to it. -/
structure Shared (S R : Type*) (CAP : ℕ) where
  /-- What the mutex protects. -/
  inner : SeqExInner S R CAP
  /-- The suspended futures. -/
  tasks : List (Task S R)
  /-- Whether `wait_on_recv` has a permit; `wait_on_reply` never gets one. -/
  permit : Bool
  /-- How often `wait_on_recv.notify_one()` is still to be called. -/
  recvCalls : ℕ
  /-- How often `wait_on_reply.notify_waiters()` is still to be called. -/
  replyCalls : ℕ
  /-- The guards and the components of guards. -/
  owners : List Owner
  /-- The number of `SeqCstGuard`s. -/
  seqCstGuards : ℕ
  /-- The bounded queue of updates. -/
  updateQueue : List Int64
  /-- `ServiceState::next_service_timestamp`. -/
  nextServiceTimestamp : Int64
  /-- The number of the next oneshot. -/
  nextChan : ℕ

/-- What can happen next. -/
inductive Op (S R : Type*) where
  /-- `receive` up to its oneshot. -/
  | receive (packet : Packet R)
  /-- `send` and `send_with` up to their first suspension. -/
  | send (currentTime : Int64) (seqCst : Bool) (packetData : SeqNo → S)
  /-- The future at this index creates its `Notified` future. -/
  | listen (k : ℕ)
  /-- The woken future at this index goes round the loop of `send_with`. -/
  | resume (k : ℕ) (currentTime : Int64)
  /-- The future at this index puts its update into the queue. -/
  | enqueue (k : ℕ)
  /-- The future at this index returns with the value in its oneshot. -/
  | resolve (k : ℕ)
  /-- The future at this index returns, as the sender half of its oneshot is gone. -/
  | closed (k : ℕ)
  /-- The future at this index is dropped; `choice` is for a notification passed on. -/
  | drop (k : ℕ) (choice : ℕ)
  /-- A call of `wait_on_recv.notify_one()`. -/
  | notifyOne (choice : ℕ)
  /-- A call of `wait_on_reply.notify_waiters()`. -/
  | notifyWaiters
  /-- `ReplyGuard::reply` and `reply_with` up to their first suspension. -/
  | replyWith (g : ReplyGuard) (currentTime : Int64) (seqCst : Bool)
    (packetData : SeqNo → SeqNo → S)
  /-- `ReplyGuard::ack`. -/
  | ack (g : ReplyGuard)
  /-- `ReplyGuard::unlock`. -/
  | unlock (g : ReplyGuard)
  /-- A `ReplyGuard` is dropped. -/
  | dropReplyGuard (g : ReplyGuard)
  /-- `ReplyGuard::to_components`. -/
  | toComponents (g : ReplyGuard)
  /-- `ReplyGuard::from_components`. -/
  | fromComponents (g : ReplyGuard)
  /-- A `SeqCstGuard` is dropped. -/
  | dropSeqCstGuard
  /-- An iteration of `service_task` that takes an update, begun at this time. -/
  | takeUpdate (startTime : Int64)
  /-- An iteration of `service_task` that services. -/
  | service (currentTime : Int64)

/-- What a step returns. -/
inductive Outcome (R : Type*) where
  /-- Of `receive`. -/
  | received (r : Except AsyncRecvError (ReplyGuard × R))
  /-- Of `send_with` and `reply_with`. -/
  | exchanged (r : Except AsyncError (ReplyGuard × R))
  /-- Of `ReplyGuard::ack`: whether there is a `SeqCstGuard` now. -/
  | acked (locked : Bool)
  /-- Of `ReplyGuard::unlock`. -/
  | unlocked (was : Bool)
  /-- Nothing is returned. -/
  | done

/-- The guard that is returned. -/
def Outcome.guard? : Outcome R → Option ReplyGuard
  | .received (.ok (g, _)) | .exchanged (.ok (g, _)) => some g
  | _ => none

/-- The guard and the data that a value in a oneshot stands for. -/
def Mail.open (mail : Mail R) : ReplyGuard × R := (⟨mail.replyNo, mail.locked⟩, mail.data)

/-- What a future returns with the value in its oneshot. -/
def Task.returns (task : Task S R) (value : Option (Mail R)) : Outcome R :=
  match task.stage, value with
  | .receiving, some mail => .received (.ok mail.open)
  | .receiving, none => .received (.error .seqExClosed)
  | _, some mail => .exchanged (.ok mail.open)
  | _, none => .exchanged (.error .endOfExchange)

/-- What a future returns when the sender half of its oneshot is gone. -/
def Task.returnsClosed (task : Task S R) : Outcome R :=
  match task.stage with
  | .receiving => .received (.error .seqExClosed)
  | _ => .exchanged (.error .seqExClosed)

namespace Shared

/-- `SeqEx::new` with its `ServiceState`. -/
def new (retryInterval : Int64) (initialSeqNo : SeqNo) : Shared S R CAP where
  inner := SeqExInner.new retryInterval initialSeqNo
  tasks := []
  permit := false
  recvCalls := 0
  replyCalls := 0
  owners := []
  seqCstGuards := 0
  updateQueue := []
  nextServiceTimestamp := Int64.maxValue
  nextChan := 0

/-- A section ends: its state is stored and its notifications are to be called. -/
def finish {ρ : Type*} (s : Shared S R CAP) (p : Passage S R CAP ρ) : Shared S R CAP :=
  { s with
    inner := p.inner
    recvCalls := s.recvCalls + p.recvWakes
    replyCalls := s.replyCalls + p.replyWake.toNat }

/-- The obligation leaves its place. -/
def release (s : Shared S R CAP) (place : Place) (g : ReplyGuard) : Shared S R CAP :=
  { s with owners := s.owners.erase ⟨place, g⟩ }

/-- The obligation is kept in a place. -/
def keep (s : Shared S R CAP) (place : Place) (g : ReplyGuard) : Shared S R CAP :=
  { s with owners := ⟨place, g⟩ :: s.owners }

/-- The guard in a return value comes into being. -/
def grant (s : Shared S R CAP) (o : Outcome R) : Shared S R CAP :=
  { s with owners := (o.guard?.map (Owner.mk .guard)).toList ++ s.owners }

/-- A `SeqCstGuard` comes into being when `locked`. -/
def addSeqCstGuard (s : Shared S R CAP) (locked : Bool) : Shared S R CAP :=
  { s with seqCstGuards := s.seqCstGuards + locked.toNat }

/-- A future with a new oneshot is suspended. -/
def suspend (s : Shared S R CAP) (stage : Stage S) : Shared S R CAP :=
  { s with tasks := s.tasks ++ [⟨s.nextChan, stage, none⟩], nextChan := s.nextChan + 1 }

/-- The future at this index goes on to a stage. -/
def moveTo (s : Shared S R CAP) (k : ℕ) (stage : Stage S) : Shared S R CAP :=
  { s with tasks := s.tasks.modify k (·.goTo stage) }

/-- The future at this index is gone. -/
def remove (s : Shared S R CAP) (k : ℕ) : Shared S R CAP :=
  { s with tasks := s.tasks.eraseIdx k }

/-- The future at this index returns. -/
def complete (s : Shared S R CAP) (k : ℕ) (o : Outcome R) : Outcome R × Shared S R CAP :=
  (o, (s.remove k).grant o)

/-- A call of `wait_on_recv.notify_one()`. -/
def callOne (s : Shared S R CAP) (choice : ℕ) : Shared S R CAP :=
  let r := notifyOne choice s.permit s.tasks
  { s with permit := r.1, tasks := r.2 }

/-- The future at this index creates a `Notified` future, which takes the permit. -/
def listen (s : Shared S R CAP) (k : ℕ) (stage : Stage S) : Shared S R CAP :=
  if stage.isWaiting .onRecv .leaving && s.permit then
    { s.moveTo k (stage.waitAt (.listening true)) with permit := false }
  else s.moveTo k (stage.waitAt (.listening false))

variable [NeZero CAP]

/-- `receive` up to its oneshot. -/
def receive (s : Shared S R CAP) (packet : Packet R) : Outcome R × Shared S R CAP :=
  let r := s.inner.receiveInner s.tasks s.nextChan packet
  let s' := { s with tasks := r.2 }.finish r.1
  match r.1.result with
  | .ok ret => (.received (.ok ret), s'.grant (.received (.ok ret)))
  | .error (some e) => (.received (.error e), s')
  | .error none =>
    if r.1.inner.created s.nextChan packet then (.done, s'.suspend .receiving)
    else (.received (.error .droppedDuplicate), s')

/-- One step. -/
def perform (s : Shared S R CAP) : Op S R → Outcome R × Shared S R CAP
  | .receive packet => s.receive packet
  | .send t b f =>
    let p := s.inner.sendWithInner t b s.nextChan f
    (.done, (s.finish p).suspend (.ofSend b f p.result))
  | .listen k =>
    match s.tasks[k]? with
    | some task => (.done, s.listen k task.stage)
    | none => (.done, s)
  | .resume k t =>
    match s.tasks[k]? with
    | some ⟨chan, .sending b f _ _, _⟩ =>
      let p := s.inner.sendWithInner t b chan f
      (.done, (s.finish p).moveTo k (.ofSend b f p.result))
    | _ => (.done, s)
  | .enqueue k =>
    match s.tasks[k]? with
    | some ⟨_, .enqueuing update, _⟩ =>
      (.done, { s.moveTo k .exchanging with updateQueue := s.updateQueue ++ [update] })
    | _ => (.done, s)
  | .resolve k =>
    match s.tasks[k]? with
    | some task =>
      match task.inbox with
      | some value => s.complete k (task.returns value)
      | none => (.done, s)
    | none => (.done, s)
  | .closed k =>
    match s.tasks[k]? with
    | some task => s.complete k task.returnsClosed
    | none => (.done, s)
  | .drop k choice =>
    match s.tasks[k]? with
    | some task =>
      -- a `Notified` future that was woken by `notify_one` passes it on
      if task.isWaiting .onRecv (.listening true) then (.done, (s.remove k).callOne choice)
      else (.done, s.remove k)
    | none => (.done, s)
  | .notifyOne choice => (.done, { s.callOne choice with recvCalls := s.recvCalls - 1 })
  | .notifyWaiters =>
    (.done, { s with tasks := notifyWaiters s.tasks, replyCalls := s.replyCalls - 1 })
  | .replyWith g t b f =>
    let p := s.inner.tryReplyWithInner g t b s.nextChan f
    (.done, ((s.release .guard g).finish p).suspend (.ofUpdate p.result))
  | .ack g =>
    let p := s.inner.ack g
    (.acked p.result, ((s.release .guard g).finish p).addSeqCstGuard p.result)
  | .unlock g =>
    let p := s.inner.unlock g
    (.unlocked p.result, ((s.release .guard g).finish p).keep .guard ⟨g.replyNo, false⟩)
  | .dropReplyGuard g => (.done, (s.release .guard g).finish (s.inner.dropReplyGuard g))
  | .toComponents g => (.done, (s.release .guard g).keep .components g)
  | .fromComponents g => (.done, (s.release .components g).keep .guard g)
  | .dropSeqCstGuard =>
    (.done, { s.finish s.inner.dropSeqCstGuard with seqCstGuards := s.seqCstGuards - 1 })
  | .takeUpdate _ =>
    match s.updateQueue with
    | update :: rest =>
      (.done, { s with
        updateQueue := rest
        nextServiceTimestamp := min s.nextServiceTimestamp update })
    | [] => (.done, s)
  | .service t =>
    let p := s.inner.serve t
    (.done, { s.finish p with nextServiceTimestamp := p.result })

/-- The future at index `k`, if there is one, satisfies `P`. -/
def At (s : Shared S R CAP) (k : ℕ) (P : Task S R → Prop) : Prop := ∃ task ∈ s.tasks[k]?, P task

/-- A future can go on from where it is suspended, and a guard be used by its thread.
A future is not suspended between the release of the mutex and the creation of its
`Notified` future. The service task waits for updates unless a deadline is known
and has passed, or passes while it waits. -/
def Possible (s : Shared S R CAP) : Op S R → Prop
  | .listen k => s.At k fun task =>
    (task.isWaiting .onRecv .leaving || task.isWaiting .onReply .leaving) = true
  | .resume k _ => s.At k fun task =>
    (task.isWaiting .onRecv (.listening true) || task.isWaiting .onReply (.listening true)) = true
  | .enqueue k => s.At k fun task =>
    task.stage.update?.isSome = true ∧ s.updateQueue.length < updateQueueCap
  | .resolve k => s.At k fun task => task.stage.isAtOneshot = true ∧ task.inbox.isSome = true
  | .closed k => s.At k fun task =>
    task.stage.isAtOneshot = true ∧ task.inbox.isNone = true ∧ ¬ s.inner.holds task.chan
  | .drop k _ => s.At k fun task =>
    (task.isWaiting .onRecv .leaving || task.isWaiting .onReply .leaving) = false
  | .notifyOne _ => 0 < s.recvCalls
  | .notifyWaiters => 0 < s.replyCalls
  | .replyWith g .. | .ack g | .unlock g | .dropReplyGuard g | .toComponents g =>
    ⟨.guard, g⟩ ∈ s.owners
  | .fromComponents g => ⟨.components, g⟩ ∈ s.owners
  | .dropSeqCstGuard => 0 < s.seqCstGuards
  | .takeUpdate t => s.updateQueue ≠ [] ∧
    (s.nextServiceTimestamp < Int64.maxValue → 0 < s.nextServiceTimestamp - t)
  | .service _ => s.nextServiceTimestamp < Int64.maxValue
  | .receive _ | .send .. => True

omit [NeZero CAP] in
/-- An index is looked up first, so that no type of futures is searched. -/
instance decidableAt (s : Shared S R CAP) (k : ℕ) (P : Task S R → Prop)
    [∀ task, Decidable (P task)] : Decidable (s.At k P) :=
  match h : s.tasks[k]? with
  | some task => decidable_of_iff (P task) (by simp [At, h])
  | none => isFalse (by simp [At, h])

omit [NeZero CAP] in
/-- The guards and the stages of the futures are looked up. -/
instance decidablePossible (s : Shared S R CAP) : ∀ op, Decidable (s.Possible op)
  | .listen k | .resume k _ | .enqueue k | .resolve k | .closed k | .drop k _ =>
    s.decidableAt k _
  | .notifyOne _ => inferInstanceAs (Decidable (0 < s.recvCalls))
  | .notifyWaiters => inferInstanceAs (Decidable (0 < s.replyCalls))
  | .replyWith g .. | .ack g | .unlock g | .dropReplyGuard g | .toComponents g =>
    inferInstanceAs (Decidable (⟨.guard, g⟩ ∈ s.owners))
  | .fromComponents g => inferInstanceAs (Decidable (⟨.components, g⟩ ∈ s.owners))
  | .dropSeqCstGuard => inferInstanceAs (Decidable (0 < s.seqCstGuards))
  | .takeUpdate _ => inferInstanceAs (Decidable (_ ∧ _))
  | .service _ => inferInstanceAs (Decidable (_ < _))
  | .receive _ | .send .. => isTrue trivial

omit [NeZero CAP] in
/-- What listens was suspended when it left the mutex. -/
theorem Possible.listen {s : Shared S R CAP} {k : ℕ} (h : s.Possible (.listen k)) :
    ∃ task ∈ s.tasks[k]?, ∃ on, task.isWaiting on .leaving = true := by
  obtain ⟨task, htask, hleaving⟩ := h
  rcases (Bool.or_eq_true _ _).mp hleaving with h | h <;> exact ⟨task, htask, _, h⟩

omit [NeZero CAP] in
/-- What is resumed was woken. -/
theorem Possible.resume {s : Shared S R CAP} {k : ℕ} {t : Int64} (h : s.Possible (.resume k t)) :
    ∃ task ∈ s.tasks[k]?, ∃ on, task.isWaiting on (.listening true) = true := by
  obtain ⟨task, htask, hwoken⟩ := h
  rcases (Bool.or_eq_true _ _).mp hwoken with h | h <;> exact ⟨task, htask, _, h⟩

/-- A step without its outcome. -/
def next (s : Shared S R CAP) (op : Op S R) : Shared S R CAP := (s.perform op).2

end Shared

end SequentialExchange.Tokio
