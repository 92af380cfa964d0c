import SequentialExchange.GuardLedger

/-!
# Who waits on the condition variables

The calls that sleep, the counter `recv_waiters` and the two flags form a lobby.
Every step moves at most one call out of it and then lets one in, notifies one
sleeper of `wait_on_recv` or notifies all of `wait_on_reply`. The counter is the
number of senders that wait on `wait_on_recv`, notified or not, and a sender that
sleeps on `wait_on_reply` has the sender flag set.
-/

namespace SequentialExchange.Sync

open GuardedRuns

variable {S R : Type*} {CAP : ℕ}

namespace Waiter

/-- A sender on `wait_on_recv`, notified or not. -/
def isOnRecv : Waiter S → Bool
  | .sender .onRecv _ _ => true
  | _ => false

/-- A sender that was notified and did not run yet. -/
def isNotified : Waiter S → Bool
  | .sender _ _ true => true
  | _ => false

/-- A sender that sleeps on this condition variable and was not notified. -/
def isAsleepOn (on : Condition) : Waiter S → Bool
  | .sender on' _ false => on == on'
  | _ => false

/-- A pumping thread. -/
def isPumper : Waiter S → Bool
  | .sender .. => false
  | .pumper _ => true

/-- A notified waiter waits on the same condition. -/
theorem isOnRecv_awake (w : Waiter S) : w.awake.isOnRecv = w.isOnRecv := by
  cases w with
  | sender on q n => cases on <;> rfl
  | pumper n => rfl

/-- Who sleeps on `wait_on_recv` is a sender. -/
theorem asleepOn?_eq_onRecv {w : Waiter S} :
    w.asleepOn? = some .onRecv ↔ ∃ q, w = .sender .onRecv q false := by
  cases w with
  | sender on q n => cases on <;> cases n <;> simp [asleepOn?]
  | pumper n => cases n <;> simp [asleepOn?]

/-- Who is counted as a sleeper. -/
theorem isAsleepOn_iff {w : Waiter S} {on : Condition} :
    w.isAsleepOn on = true ↔ ∃ q, w = .sender on q false := by
  cases w with
  | sender on' q n => cases on <;> cases on' <;> cases n <;> simp [isAsleepOn]
  | pumper n => simp [isAsleepOn]

/-- Who is counted as notified. -/
theorem isNotified_iff {w : Waiter S} : w.isNotified = true ↔ ∃ on q, w = .sender on q true := by
  cases w with
  | sender on q n => cases n <;> simp [isNotified]
  | pumper n => simp [isNotified]

end Waiter

/-- A `notify_one` finds nobody, or notifies one of the senders that sleep. -/
theorem Notice.wake_recvOne (choice : ℕ) (l : List (Waiter S)) :
    (∀ w ∈ l, w.isAsleepOn .onRecv = false) ∧ Notice.recvOne.wake choice l = l ∨
      ∃ xs q ys, l = xs ++ .sender .onRecv q false :: ys ∧
        Notice.recvOne.wake choice l = xs ++ .sender .onRecv q true :: ys := by
  have hat (i : ℕ) (hi : i < l.length) (hsleeps : l[i].asleepOn? = some .onRecv) :
      ∃ xs q ys, l = xs ++ .sender .onRecv q false :: ys ∧
        l.modify i Waiter.awake = xs ++ .sender .onRecv q true :: ys := by
    obtain ⟨q, hq⟩ := Waiter.asleepOn?_eq_onRecv.mp hsleeps
    refine ⟨l.take i, q, l.drop (i + 1), ?_, ?_⟩
    · rw [← hq, List.getElem_cons_drop, List.take_append_drop]
    · rw [List.modify_eq_take_cons_drop hi, hq]
      rfl
  simp only [wake]
  split
  · -- the chosen one sleeps
    rename_i hchoice
    cases hw : l[choice]? with
    | none => simp [hw] at hchoice
    | some w =>
      obtain ⟨hlt, heq⟩ := List.getElem?_eq_some_iff.mp hw
      exact .inr (hat choice hlt (by simpa [hw, heq] using hchoice))
  · by_cases hlt : l.findIdx (fun w => w.asleepOn? == some .onRecv) < l.length
    · exact .inr (hat _ hlt (by simpa using List.findIdx_getElem (w := hlt)))
    · refine .inl ⟨fun w hw => eq_false_of_ne_true fun hsleeps => hlt ?_,
        List.modify_eq_self (not_lt.mp hlt)⟩
      obtain ⟨q, rfl⟩ := Waiter.isAsleepOn_iff.mp hsleeps
      exact List.findIdx_lt_length.mpr ⟨_, hw, rfl⟩

/-- What the mutex protects about the waiting calls, with these calls. -/
structure Lobby (S : Type*) where
  /-- `recv_waiters`. -/
  recvWaiters : ℕ
  /-- `reply_sender_waiters`. -/
  replySenders : Bool
  /-- `reply_receiver_waiters`. -/
  replyReceivers : Bool
  /-- The calls that sleep or were notified. -/
  waiters : List (Waiter S)

/-- What happens in the lobby at the end of a section. -/
inductive Stir (S : Type*) where
  /-- Nothing. -/
  | rest
  /-- A sender goes to sleep. -/
  | enter (on : Condition) (request : SendRequest S)
  /-- A pumping thread goes to sleep. -/
  | enterPump
  /-- `notify_recv`. -/
  | wakeRecv
  /-- `notify_reply`. -/
  | wakeReply

namespace Lobby

/-- The call at this index has the mutex back. -/
def leave (l : Lobby S) (w : ℕ) : Lobby S where
  recvWaiters := if l.waiters[w]?.any Waiter.isOnRecv then l.recvWaiters - 1 else l.recvWaiters
  replySenders := l.replySenders
  replyReceivers := if l.waiters[w]?.any Waiter.isPumper then false else l.replyReceivers
  waiters := l.waiters.eraseIdx w

/-- The end of a section; `choice` is whom a `notify_one` picks. -/
def stir (l : Lobby S) (choice : ℕ) : Stir S → Lobby S
  | .rest => l
  | .enter .onRecv q =>
    { l with recvWaiters := l.recvWaiters + 1, waiters := l.waiters ++ [.sender .onRecv q false] }
  | .enter .onReply q =>
    { l with replySenders := true, waiters := l.waiters ++ [.sender .onReply q false] }
  | .enterPump => { l with replyReceivers := true, waiters := l.waiters ++ [.pumper false] }
  | .wakeRecv =>
    { l with waiters :=
        (if 0 < l.recvWaiters then Notice.recvOne else .nobody).wake choice l.waiters }
  | .wakeReply =>
    if l.replySenders || l.replyReceivers then
      { l with replySenders := false, waiters := Notice.replyAll.wake choice l.waiters }
    else l

/-- The counter and the sender flag account for the senders that wait. -/
structure Attended (l : Lobby S) : Prop where
  recv : l.recvWaiters = l.waiters.countP Waiter.isOnRecv
  reply : ∀ w ∈ l.waiters, w.isAsleepOn .onReply = true → l.replySenders = true

/-- A thread that leaves is counted no more. -/
theorem Attended.leave {l : Lobby S} (hl : l.Attended) (w : ℕ) : (l.leave w).Attended := by
  refine ⟨?_, fun v hv => hl.reply v (List.mem_of_mem_eraseIdx hv)⟩
  by_cases hw : w < l.waiters.length
  · have hperm := (List.getElem_cons_eraseIdx_perm hw).countP_eq Waiter.isOnRecv
    rw [List.countP_cons] at hperm
    simp only [Lobby.leave, List.getElem?_eq_getElem hw, Option.any_some, hl.recv, ← hperm]
    cases l.waiters[w].isOnRecv <;> simp
  · simp only [Lobby.leave, List.getElem?_eq_none (not_lt.mp hw),
      List.eraseIdx_of_length_le (not_lt.mp hw), Option.any_none, Bool.false_eq_true, if_false]
    exact hl.recv

/-- Somebody who does not wait on `wait_on_reply` joins. -/
theorem Attended.reply_append {l : Lobby S} (hl : l.Attended) {u : Waiter S}
    (hu : u.isAsleepOn .onReply = false) :
    ∀ v ∈ l.waiters ++ [u], v.isAsleepOn .onReply = true → l.replySenders = true := by
  intro v hv hsleeps
  rcases List.mem_append.mp hv with hv | hv
  · exact hl.reply v hv hsleeps
  · rw [List.mem_singleton.mp hv, hu] at hsleeps
    cases hsleeps

/-- Every motion in the lobby keeps the counts right. -/
theorem Attended.stir {l : Lobby S} (hl : l.Attended) (choice : ℕ) (m : Stir S) :
    (l.stir choice m).Attended := by
  cases m with
  | rest => exact hl
  | enter on q =>
    cases on with
    | onRecv =>
      refine ⟨?_, hl.reply_append rfl⟩
      simp [Lobby.stir, hl.recv, Waiter.isOnRecv]
    | onReply =>
      refine ⟨?_, fun _ _ _ => rfl⟩
      simp [Lobby.stir, hl.recv, Waiter.isOnRecv]
  | enterPump =>
    refine ⟨?_, hl.reply_append rfl⟩
    simp [Lobby.stir, hl.recv, Waiter.isOnRecv]
  | wakeRecv =>
    by_cases hpos : 0 < l.recvWaiters
    · simp only [Lobby.stir, if_pos hpos]
      rcases Notice.wake_recvOne choice l.waiters with ⟨-, hsame⟩ | ⟨xs, q, ys, hl', hwake⟩
      · rw [hsame]
        exact hl
      · rw [hwake]
        refine ⟨?_, fun v hv hsleeps => ?_⟩
        · simp only [hl.recv, hl', List.countP_append, List.countP_cons, Waiter.isOnRecv]
        · have hmem : v ∈ l.waiters := by
            rw [hl']
            rcases List.mem_append.mp hv with hv | hv
            · exact List.mem_append_left _ hv
            · rcases List.mem_cons.mp hv with rfl | hv
              · cases hsleeps
              · exact List.mem_append_right _ (List.mem_cons_of_mem _ hv)
          exact hl.reply v hmem hsleeps
    · simp only [Lobby.stir, if_neg hpos]
      exact hl
  | wakeReply =>
    simp only [Lobby.stir]
    split
    · refine ⟨?_, fun v hv hsleeps => ?_⟩
      · rw [hl.recv]
        simp only [Notice.wake, List.countP_map]
        congr 1
        funext w
        simp only [Function.comp_apply]
        split
        · rw [Waiter.isOnRecv_awake]
        · rfl
      · -- nobody sleeps there any more
        obtain ⟨u, -, hu⟩ := List.mem_map.mp hv
        obtain ⟨q, rfl⟩ := Waiter.isAsleepOn_iff.mp hsleeps
        split at hu
        · cases u <;> cases hu
        · rename_i hnot
          exact absurd (by rw [hu]; rfl) hnot
    · exact hl

/-- The number of senders that sleep on this condition variable unnotified. -/
def sleepers (l : Lobby S) (on : Condition) : ℕ := l.waiters.countP (Waiter.isAsleepOn on)

/-- Who sleeps on `wait_on_recv` at the end of a section. -/
theorem Attended.sleepers_stir {l : Lobby S} (hl : l.Attended) (choice : ℕ) (m : Stir S) :
    (l.stir choice m).sleepers .onRecv =
      match m with
      | .enter .onRecv _ => l.sleepers .onRecv + 1
      | .wakeRecv => l.sleepers .onRecv - 1
      | _ => l.sleepers .onRecv := by
  cases m with
  | rest => rfl
  | enter on q => cases on <;> simp [Lobby.stir, sleepers, Waiter.isAsleepOn]
  | enterPump => simp [Lobby.stir, sleepers, Waiter.isAsleepOn]
  | wakeRecv =>
    have hle : l.sleepers .onRecv ≤ l.recvWaiters := by
      rw [hl.recv]
      refine List.countP_mono_left fun w _ hw => ?_
      obtain ⟨q, rfl⟩ := Waiter.isAsleepOn_iff.mp hw
      rfl
    by_cases hpos : 0 < l.recvWaiters
    · simp only [Lobby.stir, if_pos hpos, sleepers]
      rcases Notice.wake_recvOne choice l.waiters with ⟨hnone, hsame⟩ | ⟨xs, q, ys, hl', hwake⟩
      · rw [hsame, List.countP_eq_zero.mpr fun w hw => by simp [hnone w hw]]
      · rw [hwake, hl']
        simp [List.countP_append, Waiter.isAsleepOn]
    · simp only [Lobby.stir, if_neg hpos]
      show l.sleepers .onRecv = l.sleepers .onRecv - 1
      omega
  | wakeReply =>
    simp only [Lobby.stir]
    split
    · simp only [sleepers, Notice.wake, List.countP_map]
      congr 1
      funext w
      simp only [Function.comp_apply]
      split
      · rename_i hreply
        cases w with
        | sender on q n => cases on <;> cases n <;> simp [Waiter.asleepOn?] at hreply ⊢; rfl
        | pumper n => rfl
      · rfl
    · rfl

/-- Nobody falls asleep when another leaves. -/
theorem sleepers_leave (l : Lobby S) (w : ℕ) (on : Condition) :
    (l.leave w).sleepers on ≤ l.sleepers on :=
  List.Sublist.countP_le (List.eraseIdx_sublist l.waiters w)

end Lobby

/-! ## Steps and the lobby -/

/-- How a section of `send` ends. -/
def SendResult.stir : SendResult S → Stir S
  | .waits on _ request => .enter on request
  | _ => .rest

/-- How a section of `pump` ends. -/
def PumpResult.stir : PumpResult S R → Stir S
  | .returned (some _) => .wakeRecv
  | .returned none => .rest
  | .waits => .enterPump

/-- How a section that receives or pumps without waiting ends. -/
def stirOf {ε α : Type*} : Except ε α → Stir S
  | .ok _ => .wakeRecv
  | .error _ => .rest

/-- The call that goes to sleep. -/
def Outcome.sleeper? : Outcome S R → Option (Waiter S)
  | .sent (.waits on _ request) => some (.sender on request false)
  | .pumped .waits => some (.pumper false)
  | _ => none

namespace SeqExInner

/-- The lobby with these calls. -/
def lobby (i : SeqExInner S R CAP) (waiters : List (Waiter S)) : Lobby S :=
  ⟨i.recvWaiters, i.replySenderWaiters, i.replyReceiverWaiters, waiters⟩

end SeqExInner

/-- The lobby when the section ends. -/
def Passage.lobby {ρ : Type*} (p : Passage S R CAP ρ) (choice : ℕ) (waiters : List (Waiter S))
    (sleeper : Option (Waiter S)) : Lobby S :=
  p.inner.lobby (p.notice.wake choice waiters ++ sleeper.toList)

namespace SeqExInner

variable {ρ : Type*} (i : SeqExInner S R CAP) (k : ℕ) (ws : List (Waiter S))

/-- The motion of a notification on `wait_on_recv`. -/
theorem notifyRecv_lobby (r : ρ) :
    (i.notifyRecv r).lobby k ws none = (i.lobby ws).stir k .wakeRecv := by
  simp only [Passage.lobby, Option.toList_none, List.append_nil]
  rfl

/-- The motion of one on `wait_on_reply`. -/
theorem notifyReply_lobby (r : ρ) :
    (i.notifyReply r).lobby k ws none = (i.lobby ws).stir k .wakeReply := by
  simp only [Passage.lobby, Option.toList_none, List.append_nil]
  unfold notifyReply
  by_cases hflags : (i.replySenderWaiters || i.replyReceiverWaiters) = true
  · rw [if_pos hflags]
    exact (if_pos hflags).symm
  · rw [if_neg hflags]
    exact (if_neg hflags).symm

/-- A section that changes no flag and notifies nobody. -/
theorem rest_lobby {p : Passage S R CAP ρ} (hnotice : p.notice = .nobody)
    (hinner : p.inner.lobby ws = i.lobby ws) : p.lobby k ws none = (i.lobby ws).stir k .rest := by
  simp only [Passage.lobby, hnotice, Notice.wake, Option.toList_none, List.append_nil, hinner]
  rfl

/-- A lock that is passed on wakes nobody. -/
theorem consumeLock_lobby (g : ReplyGuard) :
    (i.consumeLock g).lobby k ws none =
      (i.lobby ws).stir k (if g.isHoldingLock then .rest else .wakeReply) := by
  unfold consumeLock
  split
  · exact i.rest_lobby k ws rfl rfl
  · exact i.notifyReply_lobby k ws false

variable [NeZero CAP]

/-- The motion of `try_receive`. -/
theorem tryReceive_lobby (p : Packet R) :
    (i.tryReceive p).lobby k ws none = (i.lobby ws).stir k (stirOf (i.tryReceive p).result) := by
  unfold tryReceive
  dsimp only
  split
  · exact i.rest_lobby k ws rfl rfl
  · cases (i.seq.tryReceiveRawAndDirect id p).1 with
    | ok o => exact notifyRecv_lobby _ k ws _
    | error e => exact i.rest_lobby k ws rfl rfl

/-- The motion of `try_pump`. -/
theorem tryPump_lobby :
    i.tryPump.lobby k ws none = (i.lobby ws).stir k (stirOf i.tryPump.result) := by
  unfold tryPump
  dsimp only
  cases i.seq.tryPumpRaw.1 with
  | ok o => exact notifyRecv_lobby _ k ws _
  | error e => exact i.rest_lobby k ws rfl rfl

/-- The motion of one round of `pump`. -/
theorem pumpLoop_lobby :
    i.pumpLoop.lobby k ws (Outcome.pumped i.pumpLoop.result : Outcome S R).sleeper? =
      (i.lobby ws).stir k i.pumpLoop.result.stir := by
  unfold pumpLoop
  dsimp only
  cases i.seq.tryPumpRaw.1 with
  | ok o => exact notifyRecv_lobby _ k ws _
  | error e =>
    cases e with
    | waitingForRecv => exact i.rest_lobby k ws rfl rfl
    | waitingForReply => rfl

/-- The motion of `pump`. -/
theorem pump_lobby :
    i.pump.lobby k ws (Outcome.pumped i.pump.result : Outcome S R).sleeper? =
      (i.lobby ws).stir k i.pump.result.stir := by
  unfold pump
  split
  · exact i.rest_lobby k ws rfl rfl
  · exact i.pumpLoop_lobby k ws

/-- The motion of `try_send`. -/
theorem trySend_lobby (t : Int64) (b : Bool) (f : SeqNo → S) :
    (i.trySend t b f).lobby k ws (Outcome.sent (i.trySend t b f).result : Outcome S R).sleeper? =
      (i.lobby ws).stir k (i.trySend t b f).result.stir := by
  unfold trySend
  dsimp only
  split
  · exact i.rest_lobby k ws rfl rfl
  · cases (i.seq.trySendDirectWith t b f).1 with
    | ok o => exact i.rest_lobby k ws rfl rfl
    | error e => exact i.rest_lobby k ws rfl rfl

/-- The motion of one round of `send`. -/
theorem sendLoop_lobby (t0 t : Int64) (q : SendRequest S) :
    (i.sendLoop t0 t q).lobby k ws (Outcome.sent (i.sendLoop t0 t q).result : Outcome S R).sleeper?
      = (i.lobby ws).stir k (i.sendLoop t0 t q).result.stir := by
  unfold sendLoop
  dsimp only
  cases (i.seq.trySendDirectWith t q.seqCst q.f).1 with
  | ok o => exact i.rest_lobby k ws rfl rfl
  | error e =>
    obtain ⟨e, f⟩ := e
    cases e <;> rfl

omit [NeZero CAP] in
/-- What a closed instance returns lets nobody sleep. -/
theorem closedResult_stir (q : SendRequest S) :
    (closedResult q).stir = .rest ∧
      (Outcome.sent (closedResult q) : Outcome S R).sleeper? = none := by
  unfold closedResult
  cases q.endTime <;> exact ⟨rfl, rfl⟩

/-- The motion of the first section of `send`. -/
theorem send_lobby (t0 t : Int64) (b : Bool) (f : SeqNo → S) (timeout : Option Int64) :
    (i.send t0 t b f timeout).lobby k ws
        (Outcome.sent (i.send t0 t b f timeout).result : Outcome S R).sleeper? =
      (i.lobby ws).stir k (i.send t0 t b f timeout).result.stir := by
  unfold send
  dsimp only
  split
  · obtain ⟨hstir, hsleeper⟩ := closedResult_stir (R := R)
      ⟨b, f, timeout.map (saturatingAdd t0)⟩
    dsimp only
    rw [hstir, hsleeper]
    exact i.rest_lobby k ws rfl rfl
  · exact i.sendLoop_lobby k ws t0 t _

/-- The counter when a sender that waited on `on` has the mutex back. -/
def unwait (i : SeqExInner S R CAP) : Condition → SeqExInner S R CAP
  | .onRecv => { i with recvWaiters := i.recvWaiters - 1 }
  | .onReply => i

/-- The motion of a woken sender. -/
theorem sendResume_lobby (on : Condition) (t0 t : Int64) (q : SendRequest S) :
    (i.sendResume on t0 t q).lobby k ws
        (Outcome.sent (i.sendResume on t0 t q).result : Outcome S R).sleeper? =
      ((i.unwait on).lobby ws).stir k (i.sendResume on t0 t q).result.stir := by
  have hloop := (i.unwait on).sendLoop_lobby k ws t0 t q
  obtain ⟨hstir, hsleeper⟩ := closedResult_stir (R := R) q
  cases on
  all_goals
    simp only [unwait] at hloop ⊢
    unfold sendResume
    dsimp only
    split
    · exact rest_lobby _ k ws rfl rfl
    · split
      · dsimp only
        rw [hstir, hsleeper]
        exact rest_lobby _ k ws rfl rfl
      · exact hloop

end SeqExInner

namespace Shared

/-- Who waits, and what the mutex protects about it. -/
def lobby (s : Shared S R CAP) : Lobby S := s.inner.lobby s.waiters

/-- The lobby once the call that a step continues is out of it. -/
def called (s : Shared S R CAP) : Op S R → Lobby S
  | .resume w _ _ => s.lobby.leave w
  | _ => s.lobby

variable [NeZero CAP] (s : Shared S R CAP)

/-- What happens in the lobby at the end of a step. -/
def stirs : Op S R → Stir S
  | .tryReceive p => stirOf (s.inner.tryReceive p).result
  | .tryPump => stirOf s.inner.tryPump.result
  | .pump => s.inner.pump.result.stir
  | .trySend t b f => (s.inner.trySend t b f).result.stir
  | .send t0 t b f timeout => (s.inner.send t0 t b f timeout).result.stir
  | .resume w t0 t =>
    match s.waiters[w]? with
    | some (.sender on q _) => (s.inner.sendResume on t0 t q).result.stir
    | some (.pumper _) => s.inner.pumpResume.result.stir
    | none => .rest
  | .replyWith _ _ _ _ => if s.inner.closed then .rest else .wakeReply
  | .ack g | .replyWithStayLocked g _ _ _ => if g.isHoldingLock then .rest else .wakeReply
  | .unlock g => if g.isHoldingLock then .wakeReply else .rest
  | .finishReply _ | .dropReplyGuard _ | .dropSeqCstGuard => .wakeReply
  | .close => .wakeRecv
  | .toComponents _ | .fromComponents _ | .service _ | .serviceScheduled _ => .rest

omit [NeZero CAP] in
/-- A call that may fall asleep moves the lobby of its section. -/
theorem conclude_lobby {ρ : Type*} (k : ℕ) (p : Passage S R CAP ρ) (f : ρ → Outcome S R) :
    (s.conclude k p f).2.lobby = p.lobby k s.waiters (f p.result).sleeper? := by
  unfold conclude
  cases f p.result with
  | sent r => cases r <;> simp [sleep, grant, finish, lobby, Passage.lobby, Outcome.sleeper?]
  | pumped r => cases r <;> simp [sleep, grant, finish, lobby, Passage.lobby, Outcome.sleeper?]
  | _ => simp [sleep, grant, finish, lobby, Passage.lobby, Outcome.sleeper?]

omit [NeZero CAP] in
/-- A call that returns moves it too. -/
theorem finish_lobby {ρ : Type*} (k : ℕ) (p : Passage S R CAP ρ) :
    (s.finish k p).lobby = p.lobby k s.waiters none := by
  simp [finish, lobby, Passage.lobby]

/-- A step takes at most one call out of the lobby and ends with its stir. -/
theorem perform_lobby (k : ℕ) (op : Op S R) :
    (s.perform k op).2.lobby = (s.called op).stir k (s.stirs op) := by
  cases op with
  | tryReceive p => exact (s.conclude_lobby k _ _).trans (s.inner.tryReceive_lobby k s.waiters p)
  | tryPump => exact (s.conclude_lobby k _ _).trans (s.inner.tryPump_lobby k s.waiters)
  | pump => exact (s.conclude_lobby k _ _).trans (s.inner.pump_lobby k s.waiters)
  | trySend t b f => exact (s.conclude_lobby k _ _).trans (s.inner.trySend_lobby k s.waiters t b f)
  | send t0 t b f timeout =>
    exact (s.conclude_lobby k _ _).trans (s.inner.send_lobby k s.waiters t0 t b f timeout)
  | resume w t0 t =>
    simp only [perform, called, stirs]
    cases hw : s.waiters[w]? with
    | none =>
      have hlen := List.getElem?_eq_none_iff.mp hw
      simp [Lobby.leave, lobby, SeqExInner.lobby, hw, List.eraseIdx_of_length_le hlen, Lobby.stir]
    | some v =>
      cases v with
      | sender on q n =>
        have hleave : s.lobby.leave w = (s.inner.unwait on).lobby (s.waiters.eraseIdx w) := by
          cases on <;>
            simp [Lobby.leave, lobby, SeqExInner.lobby, SeqExInner.unwait, hw, Waiter.isOnRecv,
              Waiter.isPumper]
        rw [hleave]
        exact (conclude_lobby _ k _ _).trans (s.inner.sendResume_lobby k _ on t0 t q)
      | pumper n =>
        have hleave : s.lobby.leave w =
            { s.inner with replyReceiverWaiters := false }.lobby (s.waiters.eraseIdx w) := by
          simp [Lobby.leave, lobby, SeqExInner.lobby, hw, Waiter.isOnRecv, Waiter.isPumper]
        rw [hleave]
        exact (conclude_lobby _ k _ _).trans (SeqExInner.pumpLoop_lobby _ k _)
  | replyWith g t b f =>
    cases hclosed : s.inner.closed with
    | true =>
      simp only [perform, called, stirs, SeqExInner.replyWith, hclosed, if_true]
      let p : Passage S R CAP (Option Int64) := ⟨none, s.inner, .nobody⟩
      exact (finish_lobby (s.release .guard g) k p).trans
        (s.inner.rest_lobby k s.waiters (p := p) rfl rfl)
    | false =>
      simp only [perform, called, stirs, SeqExInner.replyWith, hclosed, Bool.false_eq_true,
        if_false]
      exact (finish_lobby _ k _).trans (SeqExInner.notifyReply_lobby _ k s.waiters _)
  | finishReply g | dropReplyGuard g =>
    simp only [perform, called, stirs, SeqExInner.dropReplyGuard]
    refine (finish_lobby _ k _).trans ?_
    split <;> exact SeqExInner.notifyReply_lobby _ k s.waiters _
  | ack g =>
    simp only [perform, called, stirs, SeqExInner.ack]
    refine (finish_lobby _ k _).trans ?_
    split <;> exact SeqExInner.consumeLock_lobby _ k s.waiters g
  | unlock g =>
    simp only [perform, called, stirs, SeqExInner.unlock]
    refine (finish_lobby _ k _).trans ?_
    split
    · exact SeqExInner.notifyReply_lobby _ k s.waiters _
    · exact s.inner.rest_lobby k s.waiters rfl rfl
  | replyWithStayLocked g t b f =>
    simp only [perform, called, stirs, SeqExInner.replyWithStayLocked]
    refine (finish_lobby _ k _).trans ?_
    split <;> exact SeqExInner.consumeLock_lobby _ k s.waiters g
  | dropSeqCstGuard =>
    exact (s.finish_lobby k _).trans (SeqExInner.notifyReply_lobby _ k s.waiters _)
  | toComponents g | fromComponents g => rfl
  | close => exact (s.finish_lobby k _).trans (SeqExInner.notifyRecv_lobby _ k s.waiters _)
  | service t => exact (s.finish_lobby k _).trans (s.inner.rest_lobby k s.waiters rfl rfl)
  | serviceScheduled t =>
    refine (s.finish_lobby k _).trans (s.inner.rest_lobby k s.waiters ?_ ?_)
    all_goals
      unfold SeqExInner.serviceScheduled
      split <;> rfl

/-- In every run the counter and the sender flag account for the waiting senders. -/
theorem reaches_attended {interval : Int64} {initialSeqNo : SeqNo}
    (h : Reaches Enabled next (new interval initialSeqNo) s) : s.lobby.Attended := by
  refine h.invariant (I := fun s => s.lobby.Attended) ⟨rfl, nofun⟩ fun u a _ hu _ => ?_
  rw [next, perform_lobby]
  refine Lobby.Attended.stir ?_ _ _
  cases a.2 with
  | resume w t0 t => exact hu.leave w
  | _ => exact hu

end Shared

end SequentialExchange.Sync
