import SequentialExchange.Notification
import SequentialExchange.TokioCalls

/-!
# Wake-ups of the futures that wait to send

A future of `send_with` that cannot send is noted under the mutex, by the counter of
`wait_on_recv` or by the flag of `wait_on_reply`, and creates its `Notified` future
after the mutex is released. The futures, the notes and the notifications under way
are waiters in the sense of `Notification`.
-/

namespace SequentialExchange.Tokio

open GuardedRuns Notification
open Sync (Condition ReplyGuard Place Owner)

variable {S R : Type*} {CAP : ℕ}

namespace Task

/-- The future does not wait on this condition. -/
def Elsewhere (on : Condition) (task : Task S R) : Prop :=
  ∀ wait, task.isWaiting on wait = false

end Task

/-! ## Counting the futures -/

/-- The futures that wait on `wait_on_recv`. -/
def recvTally (c n : ℕ) (permit : Bool) (tasks : List (Task S R)) : Tally where
  counted := c
  calls := n
  permit := permit
  leaving := tasks.countP (Task.isWaiting .onRecv .leaving)
  asleep := tasks.countP (Task.isWaiting .onRecv (.listening false))
  woken := tasks.countP (Task.isWaiting .onRecv (.listening true))

/-- The futures that wait on `wait_on_reply`. -/
def replyFlagged (flag : Bool) (n : ℕ) (tasks : List (Task S R)) : Flagged where
  flag := flag
  calls := n
  leaving := tasks.countP (Task.isWaiting .onReply .leaving)
  asleep := tasks.countP (Task.isWaiting .onReply (.listening false))

section Counting

variable {c n k : ℕ} {permit flag : Bool} {tasks tasks' : List (Task S R)} {task : Task S R}

/-- The order of the futures does not matter. -/
theorem recvTally_perm (h : tasks.Perm tasks') :
    recvTally c n permit tasks = recvTally c n permit tasks' := by
  simp only [recvTally, h.countP_eq]

/-- Nor does it here. -/
theorem replyFlagged_perm (h : tasks.Perm tasks') :
    replyFlagged flag n tasks = replyFlagged flag n tasks' := by
  simp only [replyFlagged, h.countP_eq]

/-- Only the stages matter. -/
theorem countP_isWaiting (on : Condition) (wait : Wait) (tasks : List (Task S R)) :
    tasks.countP (Task.isWaiting on wait) =
      (tasks.map Task.stage).countP (Stage.isWaiting on wait) := by
  rw [List.countP_map]
  rfl

/-- The tally is read off the stages. -/
theorem recvTally_stages (h : tasks'.map Task.stage = tasks.map Task.stage) :
    recvTally c n permit tasks' = recvTally c n permit tasks := by
  simp only [recvTally, countP_isWaiting, h]

/-- So is this one. -/
theorem replyFlagged_stages (h : tasks'.map Task.stage = tasks.map Task.stage) :
    replyFlagged flag n tasks' = replyFlagged flag n tasks := by
  simp only [replyFlagged, countP_isWaiting, h]

/-- A future that waits elsewhere is not counted. -/
theorem recvTally_cons_elsewhere (h : task.Elsewhere .onRecv) :
    recvTally c n permit (task :: tasks) = recvTally c n permit tasks := by
  simp [recvTally, h _]

/-- Nor is it here. -/
theorem replyFlagged_cons_elsewhere (h : task.Elsewhere .onReply) :
    replyFlagged flag n (task :: tasks) = replyFlagged flag n tasks := by
  simp [replyFlagged, h _]

/-- A future that waits on `wait_on_recv` counts once. -/
theorem recvTally_cons_waiting {wait : Wait} (h : task.isWaiting .onRecv wait = true) :
    recvTally c n permit (task :: tasks) =
      match wait with
      | .leaving => { recvTally c n permit tasks with
          leaving := (recvTally c n permit tasks).leaving + 1 }
      | .listening false => { recvTally c n permit tasks with
          asleep := (recvTally c n permit tasks).asleep + 1 }
      | .listening true => { recvTally c n permit tasks with
          woken := (recvTally c n permit tasks).woken + 1 } := by
  obtain ⟨b, f, hstage⟩ := Task.isWaiting_iff.mp h
  cases wait with
  | leaving => simp [recvTally, Task.isWaiting, hstage, Stage.isWaiting]
  | listening woken =>
    cases woken <;> simp [recvTally, Task.isWaiting, hstage, Stage.isWaiting]

/-- A future that waits on `wait_on_reply` counts once, unless it was woken. -/
theorem replyFlagged_cons_waiting {wait : Wait} (h : task.isWaiting .onReply wait = true) :
    replyFlagged flag n (task :: tasks) =
      match wait with
      | .leaving => { replyFlagged flag n tasks with
          leaving := (replyFlagged flag n tasks).leaving + 1 }
      | .listening false => { replyFlagged flag n tasks with
          asleep := (replyFlagged flag n tasks).asleep + 1 }
      | .listening true => replyFlagged flag n tasks := by
  obtain ⟨b, f, hstage⟩ := Task.isWaiting_iff.mp h
  cases wait with
  | leaving => simp [replyFlagged, Task.isWaiting, hstage, Stage.isWaiting]
  | listening woken =>
    cases woken <;> simp [replyFlagged, Task.isWaiting, hstage, Stage.isWaiting]

/-- A future waits on one condition. -/
theorem elsewhere_of_isWaiting {on on' : Condition} {wait : Wait}
    (h : task.isWaiting on wait = true) (hne : on' ≠ on) : task.Elsewhere on' := by
  obtain ⟨b, f, hstage⟩ := Task.isWaiting_iff.mp h
  intro wait'
  simp [Task.isWaiting, hstage, Stage.isWaiting, hne]

end Counting

/-- `notify_one` wakes a future that listens, or leaves a permit. -/
theorem notifyOne_cases (choice : ℕ) (permit : Bool) (tasks : List (Task S R)) :
    (∀ task ∈ tasks, task.isWaiting .onRecv (.listening false) = false) ∧
        notifyOne choice permit tasks = (true, tasks) ∨
      ∃ k task, tasks[k]? = some task ∧ task.isWaiting .onRecv (.listening false) = true ∧
        notifyOne choice permit tasks = (permit, tasks.modify k Task.wake) := by
  unfold notifyOne
  dsimp only
  split
  · rename_i hany
    refine .inr ?_
    split
    · rename_i hchoice
      cases htask : tasks[choice]? with
      | none => simp [htask] at hchoice
      | some task => exact ⟨choice, task, htask, by simpa [htask] using hchoice, rfl⟩
    · have hlt : tasks.findIdx (Task.isWaiting .onRecv (.listening false)) < tasks.length := by
        simpa [List.findIdx_lt_length] using hany
      exact ⟨_, _, List.getElem?_eq_getElem hlt, List.findIdx_getElem (w := hlt), rfl⟩
  · rename_i hany
    exact .inl ⟨by simpa using hany, rfl⟩

/-! ## The notes of the sections -/

namespace SeqExInner

variable (i : SeqExInner S R CAP)

/-- A section that gives something back leaves the counter, and takes the flag down
only to call the notification. -/
structure Settles {ρ : Type*} (p : Passage S R CAP ρ) : Prop where
  counter : p.inner.recvWaiters = i.recvWaiters
  silent : p.recvWakes = 0
  flag : p.inner.replyWaiters = false ∧ p.replyWake = i.replyWaiters ∨
    p.inner.replyWaiters = i.replyWaiters ∧ p.replyWake = false

/-- The notification takes the flag down. -/
theorem notifyReply_settles {ρ : Type*} (q : SeqEx (Sender S) (Receiver R) CAP) (r : ρ) :
    i.Settles (notifyReply { i with seq := q } r) := ⟨rfl, rfl, .inl ⟨rfl, rfl⟩⟩

/-- `unlock` notifies if it released the lock. -/
theorem unlock_settles (g : ReplyGuard) : i.Settles (i.unlock g) := by
  unfold unlock
  split
  · exact i.notifyReply_settles _ _
  · exact ⟨rfl, rfl, .inr ⟨rfl, rfl⟩⟩

variable [NeZero CAP]

omit [NeZero CAP] in
/-- `ack` notifies unless the lock is passed on. -/
theorem ack_settles (g : ReplyGuard) : i.Settles (i.ack g) := by
  unfold ack
  dsimp only
  split
  · exact ⟨rfl, rfl, .inr ⟨rfl, rfl⟩⟩
  · exact i.notifyReply_settles _ _

/-- A refused send is noted by the counter or by the flag. -/
theorem sendWithInner_waiters (t : Int64) (b : Bool) (chan : ℕ) (f : SeqNo → S) :
    (i.sendWithInner t b chan f).recvWakes = 0 ∧ (i.sendWithInner t b chan f).replyWake = false ∧
      match (i.sendWithInner t b chan f).result with
      | .error .waitingForRecv =>
        (i.sendWithInner t b chan f).inner.recvWaiters = i.recvWaiters + 1 ∧
          (i.sendWithInner t b chan f).inner.replyWaiters = i.replyWaiters
      | .error .waitingForReply =>
        (i.sendWithInner t b chan f).inner.recvWaiters = i.recvWaiters ∧
          (i.sendWithInner t b chan f).inner.replyWaiters = true
      | .ok _ =>
        (i.sendWithInner t b chan f).inner.recvWaiters = i.recvWaiters ∧
          (i.sendWithInner t b chan f).inner.replyWaiters = i.replyWaiters := by
  unfold sendWithInner
  dsimp only
  split <;> exact ⟨rfl, rfl, rfl, rfl⟩

/-- The future of a refused send is a waiter that was noted. -/
theorem sendWithInner_enters (t : Int64) (b : Bool) (chan : ℕ) (f : SeqNo → S) (n m : ℕ)
    (permit : Bool) (task : Task S R) (tasks : List (Task S R)) :
    (recvTally i.recvWaiters n permit tasks).Turn
        (recvTally (i.sendWithInner t b chan f).inner.recvWaiters n permit
          (task.goTo (.ofSend b f (i.sendWithInner t b chan f).result) :: tasks)) ∧
      (replyFlagged i.replyWaiters m tasks).Turn
        (replyFlagged (i.sendWithInner t b chan f).inner.replyWaiters m
          (task.goTo (.ofSend b f (i.sendWithInner t b chan f).result) :: tasks)) := by
  obtain ⟨-, -, hnotes⟩ := i.sendWithInner_waiters t b chan f
  generalize (i.sendWithInner t b chan f).inner.recvWaiters = c,
    (i.sendWithInner t b chan f).inner.replyWaiters = flag,
    (i.sendWithInner t b chan f).result = result at hnotes ⊢
  cases result with
  | ok update =>
    obtain ⟨rfl, rfl⟩ := hnotes
    have helsewhere (on : Condition) : (task.goTo (.ofSend b f (.ok update))).Elsewhere on :=
      fun wait => by cases update <;> rfl
    rw [recvTally_cons_elsewhere (helsewhere _), replyFlagged_cons_elsewhere (helsewhere _)]
    exact ⟨.rest _, .rest _⟩
  | error e =>
    cases e with
    | waitingForRecv =>
      obtain ⟨rfl, rfl⟩ := hnotes
      have hleaving : (task.goTo (.ofSend b f (.error .waitingForRecv))).isWaiting .onRecv
          .leaving = true := rfl
      rw [replyFlagged_cons_elsewhere fun wait => rfl, recvTally_cons_waiting hleaving]
      exact ⟨.enter _ _ _ _ _ _, .rest _⟩
    | waitingForReply =>
      obtain ⟨rfl, rfl⟩ := hnotes
      have hleaving : (task.goTo (.ofSend b f (.error .waitingForReply))).isWaiting .onReply
          .leaving = true := rfl
      rw [recvTally_cons_elsewhere fun wait => rfl, replyFlagged_cons_waiting hleaving]
      exact ⟨.rest _, .enter _ _ _ _⟩

end SeqExInner

namespace Shared

/-! ## The waiters after a step -/

/-- Who waits on `wait_on_recv`. -/
def recvTally (s : Shared S R CAP) : Tally :=
  Tokio.recvTally s.inner.recvWaiters s.recvCalls s.permit s.tasks

/-- Who waits on `wait_on_reply`. -/
def replyFlagged (s : Shared S R CAP) : Flagged :=
  Tokio.replyFlagged s.inner.replyWaiters s.replyCalls s.tasks

variable {s : Shared S R CAP} {k : ℕ} {task : Task S R}

/-- Such a section is a turn of the waiters. -/
theorem finish_settles {ρ : Type*} {p : Passage S R CAP ρ} (h : s.inner.Settles p) :
    (s.finish p).recvTally = s.recvTally ∧ s.replyFlagged.Turn (s.finish p).replyFlagged := by
  obtain ⟨hcounter, hsilent, hflag⟩ := h
  refine ⟨by simp only [recvTally, finish, hcounter, hsilent, Nat.add_zero], ?_⟩
  rcases hflag with ⟨hdown, hwake⟩ | ⟨hsame, hwake⟩
  · simp only [replyFlagged, finish, hdown, hwake]
    exact .charge _ _ _ _
  · simp only [replyFlagged, finish, hsame, hwake, Bool.toNat_false, Nat.add_zero]
    exact .rest _

/-- A future that is not a waiter is suspended. -/
theorem suspend_elsewhere (s : Shared S R CAP) (stage : Stage S)
    (h : ∀ on wait, stage.isWaiting on wait = false) :
    (s.suspend stage).recvTally = s.recvTally ∧
      (s.suspend stage).replyFlagged = s.replyFlagged := by
  have hperm : (s.suspend stage).tasks.Perm (⟨s.nextChan, stage, none⟩ :: s.tasks) :=
    List.perm_append_singleton _ _
  constructor
  · rw [recvTally, recvTally_perm hperm]
    exact recvTally_cons_elsewhere (h _)
  · rw [replyFlagged, replyFlagged_perm hperm]
    exact replyFlagged_cons_elsewhere (h _)

/-- What the futures other than one come to. -/
theorem tally_of_getElem? (h : s.tasks[k]? = some task) :
    s.recvTally = Tokio.recvTally s.inner.recvWaiters s.recvCalls s.permit
        (task :: s.tasks.eraseIdx k) ∧
      s.replyFlagged = Tokio.replyFlagged s.inner.replyWaiters s.replyCalls
        (task :: s.tasks.eraseIdx k) :=
  ⟨recvTally_perm (perm_of_getElem? h), replyFlagged_perm (perm_of_getElem? h)⟩

/-- A future that is not a waiter goes on to a stage where it is none. -/
theorem moveTo_elsewhere (h : s.tasks[k]? = some task) (stage : Stage S)
    (hbefore : ∀ on, task.Elsewhere on) (hafter : ∀ on wait, stage.isWaiting on wait = false) :
    (s.moveTo k stage).recvTally = s.recvTally ∧
      (s.moveTo k stage).replyFlagged = s.replyFlagged := by
  obtain ⟨hrecv, hreply⟩ := tally_of_getElem? h
  have hperm : (s.moveTo k stage).tasks.Perm (task.goTo stage :: s.tasks.eraseIdx k) :=
    modify_perm h _
  constructor
  · rw [hrecv, recvTally_cons_elsewhere (hbefore _), recvTally,
      recvTally_perm hperm]
    exact recvTally_cons_elsewhere (hafter _)
  · rw [hreply, replyFlagged_cons_elsewhere (hbefore _), replyFlagged,
      replyFlagged_perm hperm]
    exact replyFlagged_cons_elsewhere (hafter _)

/-- A future creates its `Notified` future. -/
theorem listen_turn {on : Condition} (h : s.tasks[k]? = some task)
    (hleaving : task.isWaiting on .leaving = true) :
    s.recvTally.Turn (s.listen k task.stage).recvTally ∧
      s.replyFlagged.Turn (s.listen k task.stage).replyFlagged := by
  obtain ⟨hrecv, hreply⟩ := tally_of_getElem? h
  obtain ⟨b, f, hstage⟩ := Task.isWaiting_iff.mp hleaving
  have hperm (wait : Wait) :
      (s.tasks.modify k (·.goTo (.sending b f on wait))).Perm
        (task.goTo (.sending b f on wait) :: s.tasks.eraseIdx k) := modify_perm h _
  have hwaits (wait : Wait) : (task.goTo (.sending b f on wait)).isWaiting on wait = true :=
    Task.isWaiting_iff.mpr ⟨b, f, rfl⟩
  cases on with
  | onRecv =>
    have hother {task' : Task S R} {wait : Wait} (h : task'.isWaiting .onRecv wait = true) :
        task'.Elsewhere .onReply := elsewhere_of_isWaiting h nofun
    rw [hrecv, hreply, recvTally_cons_waiting hleaving,
      replyFlagged_cons_elsewhere (hother hleaving)]
    cases hpermit : s.permit with
    | true =>
      have hlisten : s.listen k task.stage =
          { s.moveTo k (.sending b f .onRecv (.listening true)) with permit := false } := by
        simp [listen, hstage, hpermit, Stage.isWaiting, Stage.waitAt]
      rw [hlisten]
      simp only [recvTally, replyFlagged, moveTo, recvTally_perm (hperm _),
        replyFlagged_perm (hperm _)]
      rw [recvTally_cons_waiting (hwaits _), replyFlagged_cons_elsewhere (hother (hwaits _))]
      exact ⟨.seize _ _ _ _ _, .rest _⟩
    | false =>
      have hlisten :
        s.listen k task.stage = s.moveTo k (.sending b f .onRecv (.listening false)) := by
        simp [listen, hstage, hpermit, Stage.waitAt]
      rw [hlisten]
      simp only [recvTally, replyFlagged, moveTo, hpermit, recvTally_perm (hperm _),
        replyFlagged_perm (hperm _)]
      rw [recvTally_cons_waiting (hwaits _), replyFlagged_cons_elsewhere (hother (hwaits _))]
      exact ⟨.listen _ _ _ _ _, .rest _⟩
  | onReply =>
    have hother {task' : Task S R} {wait : Wait} (h : task'.isWaiting .onReply wait = true) :
        task'.Elsewhere .onRecv := elsewhere_of_isWaiting h nofun
    have hlisten :
        s.listen k task.stage = s.moveTo k (.sending b f .onReply (.listening false)) := by
      simp [listen, hstage, Stage.isWaiting, Stage.waitAt]
    rw [hrecv, hreply, hlisten, recvTally_cons_elsewhere (hother hleaving),
      replyFlagged_cons_waiting hleaving]
    simp only [recvTally, replyFlagged, moveTo, recvTally_perm (hperm _),
      replyFlagged_perm (hperm _)]
    rw [recvTally_cons_elsewhere (hother (hwaits _)), replyFlagged_cons_waiting (hwaits _)]
    exact ⟨.rest _, .listen _ _ _ _⟩

/-- A woken future does not count on `wait_on_reply`, and departs on `wait_on_recv`. -/
theorem depart_turn {on : Condition} (h : s.tasks[k]? = some task)
    (hwoken : task.isWaiting on (.listening true) = true) :
    s.recvTally.Turn (Tokio.recvTally s.inner.recvWaiters s.recvCalls s.permit
        (s.tasks.eraseIdx k)) ∧
      s.replyFlagged = Tokio.replyFlagged s.inner.replyWaiters s.replyCalls
        (s.tasks.eraseIdx k) := by
  obtain ⟨hrecv, hreply⟩ := tally_of_getElem? h
  rw [hrecv, hreply]
  cases on with
  | onRecv =>
    rw [recvTally_cons_waiting hwoken,
      replyFlagged_cons_elsewhere (elsewhere_of_isWaiting hwoken nofun)]
    exact ⟨.depart _ _ _ _ _ _, rfl⟩
  | onReply =>
    rw [recvTally_cons_elsewhere (elsewhere_of_isWaiting hwoken nofun),
      replyFlagged_cons_waiting hwoken]
    exact ⟨.rest _, rfl⟩

/-- A call of `notify_one`. -/
theorem callOne_notify (s : Shared S R CAP) (choice : ℕ) :
    (s.callOne choice).recvTally = s.recvTally.notify ∧
      (s.callOne choice).replyFlagged = s.replyFlagged := by
  unfold callOne
  rcases notifyOne_cases choice s.permit s.tasks with ⟨hnone, hcall⟩ | ⟨k, task, h, hasleep, hcall⟩
  · rw [hcall]
    have hzero : s.recvTally.asleep = 0 := List.countP_eq_zero.mpr fun task htask => by
      simp [hnone task htask]
    refine ⟨?_, rfl⟩
    rw [Tally.notify, if_neg (by omega)]
    rfl
  · rw [hcall]
    obtain ⟨hrecv, hreply⟩ := tally_of_getElem? h
    obtain ⟨b, f, hstage⟩ := Task.isWaiting_iff.mp hasleep
    have hperm := modify_perm h Task.wake
    have hwoken : task.wake.isWaiting .onRecv (.listening true) = true :=
      Task.isWaiting_iff.mpr ⟨b, f, by simp [Task.wake, Task.goTo, hstage, Stage.waitAt]⟩
    rw [hrecv, hreply, recvTally_cons_waiting hasleep,
      replyFlagged_cons_elsewhere (elsewhere_of_isWaiting hasleep (by simp))]
    simp only [recvTally, replyFlagged, recvTally_perm hperm, replyFlagged_perm hperm]
    rw [recvTally_cons_waiting hwoken,
      replyFlagged_cons_elsewhere (elsewhere_of_isWaiting hwoken (by simp)), Tally.notify,
      if_pos (Nat.succ_pos _)]
    exact ⟨rfl, rfl⟩

/-- `notify_waiters` wakes the futures that listen, and nobody else. -/
theorem isWaiting_notified (on : Condition) (wait : Wait) (task : Task S R) :
    (if task.isWaiting .onReply (.listening false) then task.wake else task).isWaiting on wait =
      if task.isWaiting .onReply (.listening false) then
        on == .onReply && wait == .listening true
      else task.isWaiting on wait := by
  split
  · rename_i hasleep
    obtain ⟨b, f, hstage⟩ := Task.isWaiting_iff.mp hasleep
    simp [Task.isWaiting, Task.wake, Task.goTo, hstage, Stage.waitAt, Stage.isWaiting]
  · rfl

/-- A call of `notify_waiters`. -/
theorem notifyWaiters_call (flag : Bool) (c m n : ℕ) (permit : Bool) (tasks : List (Task S R)) :
    Tokio.recvTally c m permit (notifyWaiters tasks) = Tokio.recvTally c m permit tasks ∧
      Tokio.replyFlagged flag (n - 1) (notifyWaiters tasks) =
        (Tokio.replyFlagged flag n tasks).call := by
  have hcount (on : Condition) (wait : Wait) :
      (notifyWaiters tasks).countP (Task.isWaiting on wait) =
        tasks.countP fun task => if task.isWaiting .onReply (.listening false) then
        on == .onReply && wait == .listening true else task.isWaiting on wait := by
    rw [notifyWaiters, List.countP_map]
    congr 1
    funext task
    exact isWaiting_notified on wait task
  -- a future that listens for replies is counted nowhere else
  have hsame (on : Condition) (wait : Wait) (h : on = .onRecv ∨ wait = .leaving) :
      (notifyWaiters tasks).countP (Task.isWaiting on wait) =
        tasks.countP (Task.isWaiting on wait) := by
    rw [hcount]
    congr 1
    funext task
    split
    · rename_i hasleep
      obtain ⟨b, f, hstage⟩ := Task.isWaiting_iff.mp hasleep
      rw [Task.isWaiting, hstage]
      rcases h with rfl | rfl
      · rfl
      · cases on <;> rfl
    · rfl
  have hgone : (notifyWaiters tasks).countP (Task.isWaiting .onReply (.listening false)) = 0 := by
    rw [hcount]
    refine List.countP_eq_zero.mpr fun task _ => ?_
    split
    · simp
    · assumption
  constructor
  · simp only [Tokio.recvTally, hsame .onRecv _ (.inl rfl)]
  · simp only [Tokio.replyFlagged, Flagged.call, hsame .onReply .leaving (.inr rfl), hgone]

/-- A future that is not a waiter is removed. -/
theorem remove_elsewhere (h : s.tasks[k]? = some task) (hbefore : ∀ on, task.Elsewhere on) :
    (s.remove k).recvTally = s.recvTally ∧ (s.remove k).replyFlagged = s.replyFlagged := by
  obtain ⟨hrecv, hreply⟩ := tally_of_getElem? h
  rw [hrecv, hreply, recvTally_cons_elsewhere (hbefore _), replyFlagged_cons_elsewhere (hbefore _)]
  exact ⟨rfl, rfl⟩

/-- Who waits at a oneshot waits for no condition. -/
theorem elsewhere_of_isAtOneshot (h : task.stage.isAtOneshot = true) (on : Condition) :
    task.Elsewhere on := by
  intro wait
  unfold Task.isWaiting
  cases hstage : task.stage <;> simp_all [Stage.isAtOneshot, Stage.isWaiting]

/-- Nor does who has a time to tell. -/
theorem elsewhere_of_update? (h : task.stage.update?.isSome = true) (on : Condition) :
    task.Elsewhere on := by
  intro wait
  unfold Task.isWaiting
  cases hstage : task.stage <;> simp_all [Stage.update?, Stage.isWaiting]

variable [NeZero CAP]

/-- `receive` turns notes of the counter into calls of `notify_one`. -/
theorem receive_turn (s : Shared S R CAP) (packet : Packet R) :
    s.recvTally.Turn (s.receive packet).2.recvTally ∧
      (s.receive packet).2.replyFlagged = s.replyFlagged := by
  obtain ⟨hfollows, hcounter, hflag, hsilent⟩ :=
    s.inner.receiveInner_spec s.tasks s.nextChan packet
  unfold receive
  dsimp only
  generalize s.inner.receiveInner s.tasks s.nextChan packet = r at hfollows hcounter hflag hsilent ⊢
  have hstages : r.2.map Task.stage = s.tasks.map Task.stage := hfollows.stages
  have hrecv : s.recvTally.Turn ({ s with tasks := r.2 }.finish r.1).recvTally := by
    simp only [recvTally, finish, recvTally_stages hstages, ← hcounter]
    exact .charge _ _ _ _ _ _ _
  have hreply : ({ s with tasks := r.2 }.finish r.1).replyFlagged = s.replyFlagged := by
    simp only [replyFlagged, finish, replyFlagged_stages hstages, hflag, hsilent, Bool.toNat_false,
      Nat.add_zero]
  cases r.1.result with
  | ok ret => exact ⟨hrecv, hreply⟩
  | error e =>
    cases e with
    | some e => exact ⟨hrecv, hreply⟩
    | none =>
      dsimp only
      split
      · obtain ⟨hsame, hsame'⟩ := ({ s with tasks := r.2 }.finish r.1).suspend_elsewhere
          .receiving fun _ _ => rfl
        rw [hsame, hsame']
        exact ⟨hrecv, hreply⟩
      · exact ⟨hrecv, hreply⟩

/-- A step that neither drops a future nor calls a notification. -/
def plain : Op S R → Bool
  | .drop .. | .notifyOne _ | .notifyWaiters => false
  | _ => true

/-- `send` adds a future that is counted if it was refused. -/
theorem send_tallies (t : Int64) (b : Bool) (f : SeqNo → S) :
    s.recvTally.Turns (s.next (.send t b f)).recvTally ∧
      s.replyFlagged.Turn (s.next (.send t b f)).replyFlagged := by
  obtain ⟨hsilent, hsilent', -⟩ := s.inner.sendWithInner_waiters t b s.nextChan f
  obtain ⟨hrecv, hreply⟩ := s.inner.sendWithInner_enters t b s.nextChan f s.recvCalls
    s.replyCalls s.permit ⟨s.nextChan, .exchanging, none⟩ s.tasks
  simp only [next, perform, recvTally, replyFlagged, suspend, finish, hsilent, hsilent',
    Bool.toNat_false, Nat.add_zero, recvTally_perm (List.perm_append_singleton _ _),
    replyFlagged_perm (List.perm_append_singleton _ _)]
  exact ⟨.single hrecv, hreply⟩

/-- A woken sender departs, and enters again if it is refused. -/
theorem resume_tallies {k : ℕ} {t : Int64} (hpos : s.Possible (.resume k t : Op S R)) :
    s.recvTally.Turns (s.next (.resume k t)).recvTally ∧
      s.replyFlagged.Turn (s.next (.resume k t)).replyFlagged := by
  obtain ⟨task, htask, on, hwoken⟩ := hpos.resume
  obtain ⟨hdepart, hsame⟩ := depart_turn htask hwoken
  obtain ⟨b, f, hstage⟩ := Task.isWaiting_iff.mp hwoken
  obtain ⟨chan, stage, inbox⟩ := task
  subst hstage
  obtain ⟨hsilent, hsilent', -⟩ := s.inner.sendWithInner_waiters t b chan f
  obtain ⟨hrecv, hreply⟩ := s.inner.sendWithInner_enters t b chan f s.recvCalls s.replyCalls
    s.permit ⟨chan, .sending b f on (.listening true), inbox⟩ (s.tasks.eraseIdx k)
  rw [hsame]
  simp only [next, perform, Option.mem_def.mp htask, recvTally, replyFlagged, moveTo, finish,
    hsilent, hsilent', Bool.toNat_false, Nat.add_zero, recvTally_perm (modify_perm htask _),
    replyFlagged_perm (modify_perm htask _)] at hdepart ⊢
  exact ⟨.head hdepart (.single hrecv), hreply⟩

omit [NeZero CAP] in
/-- A section that gives something back is a turn of the waiters. -/
theorem settles_tallies {ρ : Type*} {p : Passage S R CAP ρ} (h : s.inner.Settles p) :
    s.recvTally.Turns (s.finish p).recvTally ∧ s.replyFlagged.Turn (s.finish p).replyFlagged := by
  obtain ⟨hrecv, hreply⟩ := finish_settles h
  rw [hrecv]
  exact ⟨.refl, hreply⟩

/-- `reply_with` gives back a guard and adds a future that does not wait. -/
theorem replyWith_tallies (g : ReplyGuard) (t : Int64) (b : Bool) (f : SeqNo → SeqNo → S) :
    s.recvTally.Turns (s.next (.replyWith g t b f)).recvTally ∧
      s.replyFlagged.Turn (s.next (.replyWith g t b f)).replyFlagged := by
  have hsettled := settles_tallies (s.inner.notifyReply_settles
    (s.inner.seq.replyRawAndDirect t g.replyNo g.isHoldingLock b
      (s.nextChan, f s.inner.seq.nextSendSeqNo g.replyNo)).2
    (s.inner.tryReplyWithInner g t b s.nextChan f).result)
  obtain ⟨hrecv, hreply⟩ := ((s.release .guard g).finish
    (s.inner.tryReplyWithInner g t b s.nextChan f)).suspend_elsewhere
    (.ofUpdate (s.inner.tryReplyWithInner g t b s.nextChan f).result) fun on wait => by
      cases (s.inner.tryReplyWithInner g t b s.nextChan f).result <;> rfl
  simp only [next, perform]
  rw [hrecv, hreply]
  exact hsettled

/-- Every plain step is a series of turns. -/
theorem next_turns {op : Op S R} (hpos : s.Possible op) (hop : plain op = true) :
    s.recvTally.Turns (s.next op).recvTally ∧ s.replyFlagged.Turn (s.next op).replyFlagged := by
  have hrest {s' : Shared S R CAP}
      (h : s'.recvTally = s.recvTally ∧ s'.replyFlagged = s.replyFlagged) :
      s.recvTally.Turns s'.recvTally ∧ s.replyFlagged.Turn s'.replyFlagged := by
    rw [h.1, h.2]
    exact ⟨.refl, .rest _⟩
  cases op with
  | receive packet =>
    obtain ⟨hrecv, hreply⟩ := s.receive_turn packet
    rw [next, perform, hreply]
    exact ⟨.single hrecv, .rest _⟩
  | send t b f => exact send_tallies t b f
  | listen k =>
    obtain ⟨task, htask, on, hleaving⟩ := hpos.listen
    obtain ⟨hrecv, hreply⟩ := listen_turn htask hleaving
    simp only [next, perform, Option.mem_def.mp htask]
    exact ⟨.single hrecv, hreply⟩
  | resume k t => exact resume_tallies hpos
  | enqueue k =>
    obtain ⟨task, htask, hupdate, -⟩ := hpos
    have hmove := moveTo_elsewhere htask .exchanging (elsewhere_of_update? hupdate) fun _ _ => rfl
    simp only [next, perform]
    split
    · exact hrest hmove
    · exact ⟨.refl, .rest _⟩
  | resolve k =>
    obtain ⟨task, htask, honeshot, hinbox⟩ := hpos
    obtain ⟨value, hinbox⟩ := Option.isSome_iff_exists.mp hinbox
    simp only [next, perform, Option.mem_def.mp htask, hinbox]
    exact hrest (remove_elsewhere htask (elsewhere_of_isAtOneshot honeshot))
  | closed k =>
    obtain ⟨task, htask, honeshot, -⟩ := hpos
    simp only [next, perform, Option.mem_def.mp htask]
    exact hrest (remove_elsewhere htask (elsewhere_of_isAtOneshot honeshot))
  | replyWith g t b f => exact replyWith_tallies g t b f
  | ack g => exact settles_tallies (s.inner.ack_settles g)
  | unlock g => exact settles_tallies (s.inner.unlock_settles g)
  | dropReplyGuard g => exact settles_tallies (s.inner.notifyReply_settles _ ())
  | dropSeqCstGuard => exact settles_tallies (s.inner.notifyReply_settles _ ())
  | toComponents g => exact ⟨.refl, .rest _⟩
  | fromComponents g => exact ⟨.refl, .rest _⟩
  | takeUpdate t =>
    simp only [next, perform]
    split <;> exact ⟨.refl, .rest _⟩
  | service t =>
    have hsettled : s.inner.Settles (s.inner.serve t) := ⟨rfl, rfl, .inr ⟨rfl, rfl⟩⟩
    exact settles_tallies hsettled
  | _ => cases hop

/-- A call of `notify_one` reaches the waiters of `wait_on_recv`. -/
theorem next_notifyOne (s : Shared S R CAP) (choice : ℕ) :
    (s.next (.notifyOne choice)).recvTally = s.recvTally.call ∧
      (s.next (.notifyOne choice)).replyFlagged = s.replyFlagged :=
  { s with recvCalls := s.recvCalls - 1 }.callOne_notify choice

/-- A call of `notify_waiters` reaches those of `wait_on_reply`. -/
theorem next_notifyWaiters (s : Shared S R CAP) :
    (s.next .notifyWaiters).recvTally = s.recvTally ∧
      (s.next .notifyWaiters).replyFlagged = s.replyFlagged.call :=
  notifyWaiters_call s.inner.replyWaiters s.inner.recvWaiters s.recvCalls s.replyCalls s.permit
    s.tasks

/-- A waiting future that is dropped gives up, and passes a `notify_one` on. -/
theorem drop_withdraws {choice : ℕ} (hpos : s.Possible (.drop k choice)) :
    ((s.next (.drop k choice)).recvTally = s.recvTally ∨
        s.recvTally.Withdrawal (s.next (.drop k choice)).recvTally) ∧
      s.replyFlagged.Turn (s.next (.drop k choice)).replyFlagged := by
  obtain ⟨task, htask, hnot⟩ := hpos
  obtain ⟨hrecv, hreply⟩ := tally_of_getElem? htask
  obtain ⟨hnot, hnot'⟩ := Bool.or_eq_false_iff.mp hnot
  by_cases hwaits : ∃ on wait, task.isWaiting on wait = true
  · obtain ⟨on, wait, hwaits⟩ := hwaits
    cases wait with
    | leaving => cases on <;> simp [hwaits] at hnot hnot'
    | listening woken =>
      cases on with
      | onRecv =>
        have hother : task.Elsewhere .onReply := elsewhere_of_isWaiting hwaits nofun
        rw [hrecv, hreply, recvTally_cons_waiting hwaits, replyFlagged_cons_elsewhere hother]
        cases woken with
        | false =>
          have hstill : task.isWaiting .onRecv (.listening true) = false := by
            obtain ⟨b, f, hstage⟩ := Task.isWaiting_iff.mp hwaits
            rw [Task.isWaiting, hstage]
            rfl
          simp only [next, perform, Option.mem_def.mp htask, hstill]
          exact ⟨.inr (.asleep _ _ _ _ _ _), .rest _⟩
        | true =>
          obtain ⟨hnotify, hsame⟩ := (s.remove k).callOne_notify choice
          simp only [next, perform, Option.mem_def.mp htask, hwaits, if_true]
          rw [hnotify, hsame]
          exact ⟨.inr (.woken _ _ _ _ _ _), .rest _⟩
      | onReply =>
        have hother : task.Elsewhere .onRecv := elsewhere_of_isWaiting hwaits nofun
        rw [hrecv, hreply, recvTally_cons_elsewhere hother, replyFlagged_cons_waiting hwaits]
        simp only [next, perform, Option.mem_def.mp htask, hother (.listening true)]
        cases woken with
        | false => exact ⟨.inl rfl, .withdraw _ _ _ _⟩
        | true => exact ⟨.inl rfl, .rest _⟩
  · have helsewhere (on : Condition) : task.Elsewhere on := fun wait =>
      eq_false_of_ne_true fun h => hwaits ⟨on, wait, h⟩
    obtain ⟨hsame, hsame'⟩ := remove_elsewhere htask helsewhere
    simp only [next, perform, Option.mem_def.mp htask, helsewhere .onRecv (.listening true)]
    exact ⟨.inl hsame, hsame' ▸ .rest _⟩

/-! ## No wake-up is lost -/

omit [NeZero CAP] in
/-- The futures that wait on `wait_on_recv` are at most as many as the counter, the
notifications under way and the permit; and a future that waits on `wait_on_reply`
and was not woken has the flag set or a notification under way. -/
structure NoLostWakeUp (s : Shared S R CAP) : Prop where
  recv : s.tasks.countP (Task.isWaiting .onRecv .leaving) +
      s.tasks.countP (Task.isWaiting .onRecv (.listening false)) +
        s.tasks.countP (Task.isWaiting .onRecv (.listening true)) ≤
    s.inner.recvWaiters + (s.recvCalls +
      s.tasks.countP (Task.isWaiting .onRecv (.listening true)) + s.permit.toNat)
  reply : ∀ task ∈ s.tasks, (task.isWaiting .onReply .leaving ||
    task.isWaiting .onReply (.listening false)) = true →
      s.inner.replyWaiters = true ∨ 0 < s.replyCalls

omit [NeZero CAP] in
/-- No wake-up is lost while both kinds of waiters are served. -/
theorem noLostWakeUp_iff : s.NoLostWakeUp ↔ s.recvTally.Served ∧ s.replyFlagged.Served := by
  have hreply : s.replyFlagged.Served ↔ ∀ task ∈ s.tasks, (task.isWaiting .onReply .leaving ||
      task.isWaiting .onReply (.listening false)) = true →
        s.inner.replyWaiters = true ∨ 0 < s.replyCalls := by
    simp only [Flagged.Served, replyFlagged, Tokio.replyFlagged, Nat.add_pos_iff_pos_or_pos,
      List.countP_pos_iff, Bool.or_eq_true]
    constructor
    · rintro h task htask (hleaving | hasleep)
      · exact h (.inl ⟨task, htask, hleaving⟩)
      · exact h (.inr ⟨task, htask, hasleep⟩)
    · rintro h (⟨task, htask, hwaits⟩ | ⟨task, htask, hwaits⟩)
      · exact h task htask (.inl hwaits)
      · exact h task htask (.inr hwaits)
  exact ⟨fun h => ⟨h.recv, hreply.mpr h.reply⟩, fun h => ⟨h.1, hreply.mp h.2⟩⟩

omit [NeZero CAP] in
/-- It is read off the state. -/
instance decidableNoLostWakeUp (s : Shared S R CAP) : Decidable s.NoLostWakeUp :=
  decidable_of_iff (_ ∧ _) ⟨fun h => ⟨h.1, h.2⟩, fun h => ⟨h.recv, h.reply⟩⟩

omit [NeZero CAP] in
/-- A call of `notify_one` finds a future that listens, or no permit stored; a call
of `notify_waiters` finds no future that has yet to listen, or the flag set again, or
another call still to come. -/
def Lands (s : Shared S R CAP) : Op S R → Prop
  | .notifyOne _ => s.recvTally.Lands
  | .notifyWaiters => s.replyFlagged.Lands
  | _ => True

omit [NeZero CAP] in
/-- The condition is read off the state before the step. -/
instance decidableLands (s : Shared S R CAP) : ∀ op, Decidable (s.Lands op)
  | .notifyOne _ => inferInstanceAs (Decidable s.recvTally.Lands)
  | .notifyWaiters => inferInstanceAs (Decidable s.replyFlagged.Lands)
  | .receive _ | .send .. | .listen _ | .resume .. | .enqueue _ | .resolve _ | .closed _ | .drop ..
  | .replyWith .. | .ack _ | .unlock _ | .dropReplyGuard _ | .toComponents _ | .fromComponents _
  | .dropSeqCstGuard | .takeUpdate _ | .service _ => isTrue trivial

omit [NeZero CAP] in
/-- A step that drops a future. -/
def drops : Op S R → Bool
  | .drop .. => true
  | _ => false

/-- Whether futures are dropped or not, a step whose notification lands leaves
nobody behind. -/
theorem noLostWakeUp_next {op : Op S R} (hs : s.NoLostWakeUp) (hpos : s.Possible op)
    (hlands : s.Lands op) : (s.next op).NoLostWakeUp := by
  obtain ⟨hrecv, hreply⟩ := noLostWakeUp_iff.mp hs
  rw [noLostWakeUp_iff]
  cases hop : plain op with
  | true =>
    obtain ⟨hturns, hturn⟩ := next_turns hpos hop
    exact ⟨hturns.served hrecv, hturn.served hreply⟩
  | false =>
    cases op with
    | drop k choice =>
      obtain ⟨hsame | hwithdraws, hturn⟩ := drop_withdraws hpos
      · exact ⟨hsame ▸ hrecv, hturn.served hreply⟩
      · exact ⟨hwithdraws.served hrecv, hturn.served hreply⟩
    | notifyOne choice =>
      obtain ⟨hcall, hsame⟩ := s.next_notifyOne choice
      rw [hcall, hsame]
      exact ⟨hrecv.call hpos hlands, hreply⟩
    | notifyWaiters =>
      obtain ⟨hsame, hcall⟩ := s.next_notifyWaiters
      rw [hcall, hsame]
      exact ⟨hrecv, Flagged.served_call_iff.mpr hlands⟩
    | _ => cases hop

/-- As long as no future is dropped, the counter promises nothing in vain. -/
theorem sound_next {op : Op S R} (hs : s.recvTally.Sound) (hpos : s.Possible op)
    (hdrop : drops op = false) : (s.next op).recvTally.Sound := by
  cases hop : plain op with
  | true => exact (next_turns hpos hop).1.sound hs
  | false =>
    cases op with
    | drop k choice => cases hdrop
    | notifyOne choice =>
      rw [(s.next_notifyOne choice).1]
      exact hs.call hpos
    | notifyWaiters =>
      rw [s.next_notifyWaiters.1]
      exact hs
    | _ => cases hop

/-- Then a notification that falls flat leaves somebody behind. -/
theorem lands_of_noLostWakeUp {op : Op S R} (hs : s.NoLostWakeUp) (hsound : s.recvTally.Sound)
    (hpos : s.Possible op) (hnext : (s.next op).NoLostWakeUp) : s.Lands op := by
  obtain ⟨hrecv, hreply⟩ := noLostWakeUp_iff.mp hs
  obtain ⟨hrecv', hreply'⟩ := noLostWakeUp_iff.mp hnext
  cases op with
  | notifyOne choice =>
    rw [(s.next_notifyOne choice).1] at hrecv'
    exact (Tally.served_call_iff hrecv hsound hpos).mp hrecv'
  | notifyWaiters =>
    rw [s.next_notifyWaiters.2] at hreply'
    exact Flagged.served_call_iff.mp hreply'
  | _ => trivial

/-- No wake-up is lost in a run whose notifications all land, and in a run without
dropped futures only then. -/
theorem noLostWakeUp_iff_lands (interval : Int64) (initialSeqNo : SeqNo) {l : List (Op S R)}
    (hl : Allowed Possible next (new interval initialSeqNo : Shared S R CAP) l) :
    (Allowed Lands next (new interval initialSeqNo : Shared S R CAP) l →
        ∀ l', l' <+: l →
          (l'.foldl next (new interval initialSeqNo : Shared S R CAP)).NoLostWakeUp) ∧
      ((∀ op ∈ l, drops op = false) →
        (∀ l', l' <+: l →
          (l'.foldl next (new interval initialSeqNo : Shared S R CAP)).NoLostWakeUp) →
        Allowed Lands next (new interval initialSeqNo : Shared S R CAP) l) := by
  have hnew : (new interval initialSeqNo : Shared S R CAP).NoLostWakeUp := ⟨le_rfl, nofun⟩
  refine ⟨fun hlands => hl.forall_prefix hlands hnew fun u op hu hpos hlands =>
    noLostWakeUp_next hu hpos hlands, fun hdrops => ?_⟩
  refine (forall_prefix_iff_allowed (I := fun u => u.recvTally.Sound) (fun u op hu hop => ?_)
    (fun u op hu hserved hop => ?_) ?_ hnew (hl.and_forall hdrops)).mp
  · exact sound_next hu hop.1 hop.2
  · exact ⟨lands_of_noLostWakeUp hserved hu hop.1, noLostWakeUp_next hserved hop.1⟩
  · exact le_rfl

/-- Two futures wait for the window and one for a guard, and all are woken; the
last one is dropped and passes its notification on. -/
def wokenInTime : List (Op ℕ ℕ) :=
  [.send 0 false (fun _ => 60), .send 1 false (fun _ => 61), .send 2 true (fun _ => 62),
    .send 3 false (fun _ => 63), .send 4 false (fun _ => 64), .listen 4,
    .send 5 true (fun _ => 65), .receive (.ack 0), .notifyOne 0, .listen 5, .receive (.ack 1),
    .notifyOne 7, .resume 4 6, .drop 5 0, .receive (.ack 2), .receive (.ack 3),
    .receive (.payload 0 70), .receive (.payload 1 71), .send 7 false (fun _ => 66), .listen 5,
    .dropReplyGuard ⟨0, false⟩, .notifyWaiters]

/-- Every waiter that is left has its notification. -/
theorem noLostWakeUp_iff_lands_wokenInTime :
    (wokenInTime.foldl next (new 100 0 : Shared ℕ ℕ 4)).NoLostWakeUp :=
  (noLostWakeUp_iff_lands 100 0 (by decide)).1 (by decide) wokenInTime List.prefix_rfl

/-- A future has to wait for a guard, and the guard is dropped before the future
creates its `Notified` future. -/
def wokenTooEarly : List (Op ℕ ℕ) :=
  [.receive (.payload 0 70), .receive (.payload 1 71), .send 0 false (fun _ => 60),
    .dropReplyGuard ⟨0, false⟩, .notifyWaiters, .listen 0, .dropReplyGuard ⟨1, false⟩]

/-- Two futures have to wait for the window, and both notifications come before they
create their `Notified` futures. -/
def onePermit : List (Op ℕ ℕ) :=
  [.send 0 false (fun _ => 60), .send 1 false (fun _ => 61), .send 2 false (fun _ => 62),
    .send 3 false (fun _ => 63), .send 4 false (fun _ => 64), .send 5 false (fun _ => 65),
    .receive (.ack 0), .notifyOne 0, .receive (.ack 1), .notifyOne 0, .listen 4, .listen 5]

/-- A future sleeps though all guards are gone, and another though the window has room. -/
theorem notified_before_listening :
    Allowed Possible next (new 100 0 : Shared ℕ ℕ 4) wokenTooEarly ∧
      ¬ (wokenTooEarly.foldl next (new 100 0 : Shared ℕ ℕ 4)).NoLostWakeUp ∧
      Allowed Possible next (new 100 0 : Shared ℕ ℕ 4) onePermit ∧
      ¬ (onePermit.foldl next (new 100 0 : Shared ℕ ℕ 4)).NoLostWakeUp := by
  decide

end Shared

end SequentialExchange.Tokio
