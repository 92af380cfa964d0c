import SequentialExchange.TokioIncoming

/-!
# What a future of `receive` comes back with

The future of a packet that is stored waits at a oneshot, and the other half is
kept with the packet. Two branches of a later `receive` let go of it: a copy that
is processed at once takes the cell of the stored packet, and a stored reply that
is pumped goes to the future that waits for the reply. The oneshot is then gone,
and the future reports a closed endpoint. Where neither branch is taken, a future
comes back with its own packet.
-/

namespace SequentialExchange.Tokio

open WrapNumbering GuardedRuns
open Sync (ReplyGuard)

variable {S R : Type*} {CAP : ℕ} {packets : ℕ → Option (Packet R)} {bound : ℕ}
  {w w' : Work S R CAP}

/-! ## The other sections -/

section Windows

variable {q q' : SeqEx (Sender S) (Receiver R) CAP} {chan : Option ℕ}

/-- Nothing is stored or taken out, and at most one packet is sent, with this oneshot. -/
structure SendsOn (q q' : SeqEx (Sender S) (Receiver R) CAP) (chan : Option ℕ) : Prop where
  recv : q'.recvWindow = q.recvWindow
  sent : ∀ c, SentOn q' c → SentOn q c ∨ c ∈ chan

/-- Nothing is sent. -/
theorem SendsOn.refl (q : SeqEx (Sender S) (Receiver R) CAP) : SendsOn q q none :=
  ⟨rfl, fun _ => .inl⟩

/-- The packet is sent for a future that does not receive. -/
theorem Custody.sendsOn {tasks : List (Task S R)} (h : Custody packets bound ⟨q, tasks⟩)
    (hs : SendsOn q q' chan) (hchan : ∀ c ∈ chan, c < bound ∧ receives tasks c = false) :
    Custody packets bound ⟨q', tasks⟩ :=
  h.windows (fun c hc => (hs.sent c hc).elim (h.sent c) (hchan c)) fun _ _ _ _ _ hw =>
    hs.recv ▸ hw

/-- An acknowledgement sends no oneshot. -/
theorem ack_sendsOn (q : SeqEx (Sender S) (Receiver R) CAP) (n : SeqNo) (unlock : Bool) :
    SendsOn q (q.ackRawAndDirect n unlock).2 none := by
  unfold SeqEx.ackRawAndDirect
  rcases q.removeReservation_cases n with ⟨l, -, hremove⟩ | ⟨-, hremove⟩
  · rw [hremove]
    exact ⟨rfl, fun _ => .inl⟩
  · rw [hremove]
    exact .refl q

variable [NeZero CAP]

/-- A new packet has the oneshot of its data. -/
theorem insertEntry_sendsOn (q : SeqEx (Sender S) (Receiver R) CAP) (t : Int64) (r : Option SeqNo)
    (b : Bool) (data : Sender S) : SendsOn q (q.insertEntry t r b data).2 (some data.1) := by
  refine ⟨rfl, ?_⟩
  rintro c ⟨i, e, he, rfl⟩
  by_cases hi : i = cell CAP q.nextSendSeqNo
  · subst hi
    simp only [SeqEx.insertEntry, Function.update_self, Option.some_inj] at he
    exact .inr (by rw [← he, Option.mem_some_iff])
  · simp only [SeqEx.insertEntry, Function.update_of_ne hi] at he
    exact .inl ⟨i, e, he, rfl⟩

/-- `send_with_inner` sends the fresh oneshot at most. -/
theorem sendWithInner_sendsOn (i : SeqExInner S R CAP) (t : Int64) (b : Bool) (chan : ℕ)
    (f : SeqNo → S) : SendsOn i.seq (i.sendWithInner t b chan f).inner.seq (some chan) := by
  rw [i.sendWithInner_seq]
  simp only [SeqEx.call, SeqEx.trySendDirectWith]
  split
  · exact ⟨rfl, fun _ => .inl⟩
  · exact insertEntry_sendsOn i.seq t none b (chan, f i.seq.nextSendSeqNo)

/-- A reply has the oneshot of its data. -/
theorem reply_sendsOn (q : SeqEx (Sender S) (Receiver R) CAP) (t : Int64) (n : SeqNo)
    (unlock b : Bool) (data : Sender S) :
    SendsOn q (q.replyRawAndDirect t n unlock b data).2 (some data.1) := by
  unfold SeqEx.replyRawAndDirect
  rcases q.removeReservation_cases n with ⟨l, -, hremove⟩ | ⟨-, hremove⟩
  · have hinsert := insertEntry_sendsOn
      { q with concurrentReplies := l, isLocked := q.isLocked && !unlock } t (some n) b data
    rw [hremove]
    exact ⟨hinsert.recv, hinsert.sent⟩
  · rw [hremove]
    exact ⟨rfl, fun _ => .inl⟩

/-- `service` sends nothing new. -/
theorem service_sendsOn (q : SeqEx (Sender S) (Receiver R) CAP) (t : Int64) :
    SendsOn q (q.service t).2.2 none := by
  obtain ⟨hretimed, -⟩ := q.serviceLoop_retimed t ((SeqEx.lenU32 CAP).toNat + 1) none
  exact ⟨hretimed.recvWindow, fun c hc => .inl (hc.of_pending fun i p hp => by
    rwa [← hretimed.pending])⟩

end Windows

/-! ## What a step keeps -/

/-- A future that waits elsewhere receives as before. -/
theorem Stage.isReceiving_waitAt (wait : Wait) (stage : Stage S) :
    (stage.waitAt wait).isReceiving = stage.isReceiving := by
  cases stage <;> rfl

/-- Who replies does not receive. -/
theorem Stage.isReceiving_ofUpdate (update : Option Int64) :
    (Stage.ofUpdate update : Stage S).isReceiving = false := by
  cases update <;> rfl

/-- Nor does who sends. -/
theorem Stage.isReceiving_ofSend (b : Bool) (f : SeqNo → S)
    (result : Except TryError (Option Int64)) : (Stage.ofSend b f result).isReceiving = false := by
  cases result with
  | ok update => exact Stage.isReceiving_ofUpdate update
  | error e => cases e <;> rfl

/-- A woken future looks the same. -/
theorem view_wake (task : Task S R) : task.wake.view = task.view := by
  unfold Task.view Task.wake Task.goTo
  rw [Stage.isReceiving_waitAt]

/-- A notification changes nobody's view. -/
theorem views_notifyOne (choice : ℕ) (permit : Bool) (tasks : List (Task S R)) :
    (notifyOne choice permit tasks).2.map Task.view = tasks.map Task.view := by
  unfold notifyOne
  dsimp only
  split
  · exact map_modify_of_comp view_wake tasks _
  · rfl

/-- Nor does one to all waiters. -/
theorem views_notifyWaiters (tasks : List (Task S R)) :
    (notifyWaiters tasks).map Task.view = tasks.map Task.view := by
  rw [notifyWaiters, List.map_map]
  refine List.map_congr_left fun task _ => ?_
  rw [Function.comp_apply]
  split
  · exact view_wake task
  · rfl

namespace Shared

variable {s s' : Shared S R CAP} {k : ℕ} {task : Task S R}

/-- The endpoint and the futures. -/
def work (s : Shared S R CAP) : Work S R CAP := ⟨s.inner.seq, s.tasks⟩

/-- A future that moves on within its kind looks the same. -/
theorem views_moveTo (htask : s.tasks[k]? = some task) {stage : Stage S}
    (hstage : stage.isReceiving = task.stage.isReceiving) :
    (s.moveTo k stage).tasks.map Task.view = s.tasks.map Task.view := by
  refine List.ext_getElem? fun i => ?_
  rw [List.getElem?_map, List.getElem?_map, moveTo, List.getElem?_modify]
  split
  · rename_i hi
    subst hi
    simp [htask, Task.view, Task.goTo, hstage]
  · cases s.tasks[i]? <;> rfl

/-- No future gets a new oneshot. -/
theorem stays (h : Custody packets s.nextChan s.work) {chan : Option ℕ}
    (hseq : SendsOn s.inner.seq s'.inner.seq chan)
    (hchan : ∀ c ∈ chan, c < s.nextChan ∧ receives s.tasks c = false)
    (htasks : (s'.tasks.map Task.view).Sublist (s.tasks.map Task.view))
    (hnext : s'.nextChan = s.nextChan) :
    Custody packets s'.nextChan s'.work ∧ (Kept s.work → Kept s'.work) := by
  rw [hnext]
  exact ⟨(h.sendsOn hseq hchan).sublist htasks, fun hkept => hkept.sublist hseq.recv htasks⟩

/-- And no future is gone. -/
theorem keeps (h : Custody packets s.nextChan s.work) {chan : Option ℕ}
    (hseq : SendsOn s.inner.seq s'.inner.seq chan)
    (hchan : ∀ c ∈ chan, c < s.nextChan ∧ receives s.tasks c = false)
    (htasks : s'.tasks.map Task.view = s.tasks.map Task.view) (hnext : s'.nextChan = s.nextChan) :
    Custody packets s'.nextChan s'.work ∧ (Kept s.work → Kept s'.work) :=
  stays h hseq hchan (by rw [htasks]) hnext

/-- A future that does not receive gets a new oneshot, and its packet may be sent. -/
theorem enters (h : Custody packets s.nextChan s.work) {stage : Stage S}
    (hseq : SendsOn s.inner.seq s'.inner.seq (some s.nextChan))
    (hstage : stage.isReceiving = false)
    (htasks : s'.tasks = s.tasks ++ [⟨s.nextChan, stage, none⟩])
    (hnext : s'.nextChan = s.nextChan + 1) :
    Custody packets s'.nextChan s'.work ∧ (Kept s.work → Kept s'.work) := by
  have henter : Custody packets (s.nextChan + 1)
      ⟨s.inner.seq, s.tasks ++ [⟨s.nextChan, stage, none⟩]⟩ := h.enter fun hreceiving => by
    rw [hstage] at hreceiving
    cases hreceiving
  rw [hnext, work, htasks]
  refine ⟨henter.sendsOn hseq fun c hc => ?_, fun hkept chan hawaited => ?_⟩
  · obtain rfl := Option.mem_some_iff.mp hc
    refine ⟨Nat.lt_succ_self _, eq_false_of_ne_true fun hreceives => ?_⟩
    obtain ⟨task, hmem, hchan, hreceiving⟩ := receives_iff.mp hreceives
    rcases List.mem_append.mp hmem with hmem | hmem
    · exact (h.bounded task hmem).ne hchan
    · rw [List.mem_singleton.mp hmem, hstage] at hreceiving
      cases hreceiving
  · obtain ⟨task, hmem, hchan, hinbox, hreceiving⟩ := awaited_iff.mp hawaited
    rcases List.mem_append.mp hmem with hmem | hmem
    · rw [StoredOn, hseq.recv]
      exact hkept chan (awaited_iff.mpr ⟨task, hmem, hchan, hinbox, hreceiving⟩)
    · rw [List.mem_singleton.mp hmem, hstage] at hreceiving
      cases hreceiving

variable [NeZero CAP]

omit [NeZero CAP] in
/-- No oneshot is sent. -/
theorem sends_none : ∀ c ∈ (none : Option ℕ), c < s.nextChan ∧ receives s.tasks c = false :=
  fun _ hc => absurd hc (Option.not_mem_none _)

omit [NeZero CAP] in
/-- A future goes, and the others look the same. -/
theorem views_eraseIdx (k : ℕ) :
    ((s.tasks.eraseIdx k).map Task.view).Sublist (s.tasks.map Task.view) :=
  (List.eraseIdx_sublist ..).map _

/-- A woken sender tries again with the oneshot that it has. -/
theorem resume_custody (h : Custody packets s.nextChan s.work) {t : Int64}
    (hpos : s.Possible (.resume k t : Op S R)) :
    Custody packets (s.next (.resume k t)).nextChan (s.next (.resume k t)).work ∧
      (Kept s.work → Kept (s.next (.resume k t)).work) := by
  obtain ⟨⟨chan, stage, inbox⟩, htask, on, hwoken⟩ := hpos.resume
  obtain ⟨b, f, hstage⟩ := Task.isWaiting_iff.mp hwoken
  obtain rfl : stage = .sending b f on (.listening true) := hstage
  have hmem := List.mem_of_getElem? (Option.mem_def.mp htask)
  simp only [next, perform, Option.mem_def.mp htask]
  refine keeps h (sendWithInner_sendsOn s.inner t b chan f) (fun c hc => ?_)
    (views_moveTo (s := s.finish _) (Option.mem_def.mp htask)
      (Stage.isReceiving_ofSend b f _)) rfl
  obtain rfl := Option.mem_some_iff.mp hc
  refine ⟨h.bounded _ hmem, eq_false_of_ne_true fun hreceives => ?_⟩
  -- the oneshot belongs to this future only
  obtain ⟨task', hmem', hchan, hreceiving⟩ := receives_iff.mp hreceives
  obtain rfl := List.inj_on_of_nodup_map h.nodup hmem' hmem hchan
  cases hreceiving

/-- A dropped future takes its own oneshot along only. -/
theorem drop_custody (h : Custody packets s.nextChan s.work) (choice : ℕ) :
    Custody packets (s.next (.drop k choice : Op S R)).nextChan
        (s.next (.drop k choice : Op S R)).work ∧
      (Kept s.work → Kept (s.next (.drop k choice : Op S R)).work) := by
  simp only [next, perform]
  split
  · split
    · refine stays h (.refl _) sends_none ?_ rfl
      rw [callOne, views_notifyOne]
      exact views_eraseIdx k
    · exact stays h (.refl _) sends_none (views_eraseIdx k) rfl
  · exact ⟨h, id⟩

/-- An acknowledged guard sends nothing. -/
theorem ack_custody (h : Custody packets s.nextChan s.work) (g : ReplyGuard) :
    Custody packets (s.next (.ack g : Op S R)).nextChan (s.next (.ack g : Op S R)).work ∧
      (Kept s.work → Kept (s.next (.ack g : Op S R)).work) := by
  refine keeps h ?_ sends_none rfl rfl
  show SendsOn _ (s.inner.ack g).inner.seq _
  unfold SeqExInner.ack
  dsimp only
  split <;> exact ack_sendsOn ..

/-- Nor does one that is unlocked. -/
theorem unlock_custody (h : Custody packets s.nextChan s.work) (g : ReplyGuard) :
    Custody packets (s.next (.unlock g : Op S R)).nextChan (s.next (.unlock g : Op S R)).work ∧
      (Kept s.work → Kept (s.next (.unlock g : Op S R)).work) := by
  refine keeps h ?_ sends_none rfl rfl
  show SendsOn _ (s.inner.unlock g).inner.seq _
  rw [s.inner.unlock_seq]
  split <;> exact ⟨rfl, fun _ => .inl⟩

/-- A step that is no `receive` lets go of no oneshot of a future that receives. -/
theorem next_custody (h : Custody packets s.nextChan s.work) {op : Op S R} (hpos : s.Possible op)
    (hop : ∀ packet, op ≠ .receive packet) :
    Custody packets (s.next op).nextChan (s.next op).work ∧
      (Kept s.work → Kept (s.next op).work) := by
  cases op with
  | receive packet => exact absurd rfl (hop packet)
  | send t b f =>
    exact enters h (sendWithInner_sendsOn s.inner t b s.nextChan f)
      (Stage.isReceiving_ofSend b f _) rfl rfl
  | listen k =>
    obtain ⟨task, htask, -⟩ := hpos
    simp only [next, perform, Option.mem_def.mp htask, listen]
    split <;> exact keeps h (.refl _) sends_none (views_moveTo (Option.mem_def.mp htask)
      (Stage.isReceiving_waitAt _ _)) rfl
  | resume k t => exact resume_custody h hpos
  | enqueue k =>
    obtain ⟨task, htask, -⟩ := hpos
    simp only [next, perform]
    split
    · rename_i htask'
      exact keeps h (.refl _) sends_none (views_moveTo htask' rfl) rfl
    · exact ⟨h, id⟩
  | resolve k =>
    simp only [next, perform]
    split
    · split
      · exact stays h (.refl _) sends_none (views_eraseIdx k) rfl
      · exact ⟨h, id⟩
    · exact ⟨h, id⟩
  | closed k =>
    simp only [next, perform]
    split
    · exact stays h (.refl _) sends_none (views_eraseIdx k) rfl
    · exact ⟨h, id⟩
  | drop k choice => exact drop_custody h choice
  | notifyOne choice => exact keeps h (.refl _) sends_none (views_notifyOne ..) rfl
  | notifyWaiters => exact keeps h (.refl _) sends_none (views_notifyWaiters _) rfl
  | replyWith g t b f =>
    exact enters h (reply_sendsOn s.inner.seq t g.replyNo g.isHoldingLock b
      (s.nextChan, f s.inner.seq.nextSendSeqNo g.replyNo)) (Stage.isReceiving_ofUpdate _) rfl rfl
  | ack g => exact ack_custody h g
  | unlock g => exact unlock_custody h g
  | dropReplyGuard g => exact keeps h (ack_sendsOn ..) sends_none rfl rfl
  | toComponents g => exact keeps h (.refl _) sends_none rfl rfl
  | fromComponents g => exact keeps h (.refl _) sends_none rfl rfl
  | dropSeqCstGuard => exact keeps h ⟨rfl, fun _ => .inl⟩ sends_none rfl rfl
  | takeUpdate t =>
    simp only [next, perform]
    split <;> exact keeps h (.refl _) sends_none rfl rfl
  | service t => exact keeps h (service_sendsOn s.inner.seq t) sends_none rfl rfl

/-- A `receive` lets go of no oneshot exactly when neither branch is taken that does. -/
theorem receive_custody (h : Custody packets s.nextChan s.work) (packet : Packet R) :
    Custody (Function.update packets s.nextChan (some packet)) (s.receive packet).2.nextChan
        (s.receive packet).2.work ∧
      (Kept s.work → (Kept (s.receive packet).2.work ↔ s.Spares (.receive packet))) ∧
      (s.receive packet).1 ≠ .received (.error .seqExClosed) := by
  unfold receive
  dsimp only
  cases hres : (s.inner.seq.tryReceiveRawAndDirect (fun data => (s.nextChan, data)) packet).1 with
  | ok res =>
    obtain ⟨ok, doPump⟩ := res
    obtain ⟨hcustody, hkept⟩ := SeqExInner.receiveInner_handed h hres
    obtain ⟨-, -, -, hresult⟩ := SeqExInner.receiveInner_of_ok s.tasks hres
    have hspares (hk : Kept s.work) :
        Kept ⟨(s.inner.receiveInner s.tasks s.nextChan packet).1.inner.seq,
          (s.inner.receiveInner s.tasks s.nextChan packet).2⟩ ↔ s.Spares (.receive packet) :=
      hkept.trans (and_iff_right hk)
    rcases hresult with hresult | ⟨ret, hresult⟩
    · rw [hresult]
      exact ⟨hcustody.note _, hspares, by simp⟩
    · rw [hresult]
      exact ⟨hcustody.note _, hspares, by simp⟩
  | error e =>
    obtain ⟨htasks, hnot, hstates, hleft⟩ := SeqExInner.receiveInner_refused s.tasks hres
    have hspares : s.Spares (.receive packet) := ⟨hnot, by rw [hstates]; simp⟩
    generalize s.inner.receiveInner s.tasks s.nextChan packet = r at htasks hleft ⊢
    rcases hleft with ⟨hseq, hopen⟩ | ⟨n, r', b, d, rfl, hdup, hseq, hwaits⟩
    · -- the state machine is as before, so that no oneshot was created
      have hsame : Custody (Function.update packets s.nextChan (some packet)) s.nextChan
            ⟨r.1.inner.seq, r.2⟩ ∧
          (Kept s.work → (Kept ⟨r.1.inner.seq, r.2⟩ ↔ s.Spares (.receive packet))) := by
        rw [hseq, htasks]
        exact ⟨h.note _, fun hk => ⟨fun _ => hspares, fun _ => hk⟩⟩
      have hcreated : r.1.inner.created s.nextChan packet = false := by
        unfold SeqExInner.created
        split
        · rename_i n _
          rw [hseq]
          split
          · rename_i n' r' b' data hw
            have hlt := (h.stored _ n' r' b' data.1 data.2 hw).1
            simpa using hlt.ne
          · rfl
        · rfl
      split
      · exact ⟨hsame.1, hsame.2, by simp⟩
      · rename_i e' he'
        refine ⟨hsame.1, hsame.2, ?_⟩
        rintro heq
        cases heq
        exact hopen he'
      · rw [hcreated]
        exact ⟨hsame.1, hsame.2, by simp⟩
    · -- the packet is stored with its oneshot
      have hcreated : r.1.inner.created s.nextChan (.newWithData n r' b d) = true := by
        simp [SeqExInner.created, hseq]
      obtain ⟨hcustody, hkept⟩ := h.store hdup r' b d
      rw [hwaits, hcreated]
      refine ⟨?_, fun hk => ⟨fun _ => hspares, fun _ => ?_⟩, by simp⟩
      · simp only [if_true, suspend, finish, work, htasks, hseq]
        exact hcustody
      · simp only [if_true, suspend, finish, work, htasks, hseq]
        exact hkept hk

end Shared

/-! ## Whole runs -/

/-- The shared instance with a note of the packet that each oneshot was created for. -/
structure Traced (S R : Type*) (CAP : ℕ) where
  /-- The shared instance. -/
  shared : Shared S R CAP
  /-- The packet that was received last when the oneshot did not exist yet. -/
  packets : ℕ → Option (Packet R)

/-- A oneshot is held by one of the two windows. -/
theorem holds_iff {i : SeqExInner S R CAP} {chan : ℕ} :
    i.holds chan ↔ SentOn i.seq chan ∨ StoredOn i.seq chan := by
  have hsent (c : Fin CAP) : (i.seq.sendWindow c).any (·.data.1 = chan) = true ↔
      ∃ e, i.seq.sendWindow c = some e ∧ e.data.1 = chan := by
    cases i.seq.sendWindow c <;> simp
  unfold SeqExInner.holds SentOn StoredOn
  simp only [hsent]
  refine or_congr_right (exists_congr fun c => ?_)
  cases i.seq.recvWindow c with
  | occupied n r b data =>
    constructor
    · rintro rfl
      exact ⟨n, r, b, data.2, rfl⟩
    · rintro ⟨n', r', b', d', hw⟩
      cases hw
      rfl
  | unlocked n => simp
  | empty => simp

/-- There is one stage of `receive`. -/
theorem stage_of_isReceiving {stage : Stage S} (h : stage.isReceiving = true) :
    stage = .receiving := by
  cases stage <;> first | rfl | cases h

/-- The future of an exchange reports on the exchange. -/
theorem returns_ne_received {task : Task S R} (h : task.stage ≠ .receiving)
    (value : Option (Mail R)) (r : Except AsyncRecvError (ReplyGuard × R)) :
    task.returns value ≠ .received r := by
  unfold Task.returns
  split
  · exact absurd ‹_› h
  · exact absurd ‹_› h
  · nofun
  · nofun

/-- Only a future of `receive` returns what `receive` does. -/
theorem returnsClosed_ne_received {task : Task S R} (h : task.stage ≠ .receiving)
    (r : Except AsyncRecvError (ReplyGuard × R)) : task.returnsClosed ≠ .received r := by
  unfold Task.returnsClosed
  split
  · exact absurd ‹_› h
  · nofun

namespace Traced

variable [NeZero CAP] {u : Traced S R CAP}

/-- `SeqEx::new` of `tokio.rs`. -/
def new (retryInterval : Int64) (initialSeqNo : SeqNo) : Traced S R CAP :=
  ⟨Shared.new retryInterval initialSeqNo, fun _ => none⟩

/-- A step, with a note of the received packet. -/
def next (u : Traced S R CAP) (op : Op S R) : Traced S R CAP where
  shared := u.shared.next op
  packets :=
    match op with
    | .receive packet => Function.update u.packets u.shared.nextChan (some packet)
    | _ => u.packets

/-- Whatever can happen next, no future of `receive` reports a closed endpoint. -/
def NeverCloses (u : Traced S R CAP) : Prop :=
  ∀ op, u.shared.Possible op → (u.shared.perform op).1 ≠ .received (.error .seqExClosed)

/-- A suspended future of `receive` can return only with the data of its packet and a
guard for its number. -/
def ReturnsOwn (u : Traced S R CAP) : Prop :=
  ∀ k task op, u.shared.tasks[k]? = some task → task.stage = .receiving →
    op = .resolve k ∨ op = .closed k → u.shared.Possible op →
      ∃ n r b d, u.packets task.chan = some (.newWithData n r b d) ∧
        (u.shared.perform op).1 = .received (.ok (⟨n, b⟩, d))

/-- Who owns which oneshot. -/
def InCustody (u : Traced S R CAP) : Prop := Custody u.packets u.shared.nextChan u.shared.work

omit [NeZero CAP] in
/-- A new instance has no oneshots. -/
theorem new_custody (interval : Int64) (base : SeqNo) :
    (new interval base : Traced S R CAP).InCustody ∧
      Kept (new interval base : Traced S R CAP).shared.work := by
  refine ⟨⟨List.nodup_nil, nofun, ?_, nofun, nofun, nofun⟩, nofun⟩
  rintro chan ⟨i, e, he, -⟩
  cases he

/-- The step keeps who owns which oneshot, and keeps the packets that are waited for
exactly when it spares them. -/
theorem next_custody {op : Op S R} (h : u.InCustody) (hpos : u.shared.Possible op) :
    (u.next op).InCustody ∧
      (Kept u.shared.work → (Kept (u.next op).shared.work ↔ u.shared.Spares op)) := by
  by_cases hop : ∃ packet, op = .receive packet
  · obtain ⟨packet, rfl⟩ := hop
    obtain ⟨hcustody, hkept, -⟩ := Shared.receive_custody h packet
    exact ⟨hcustody, hkept⟩
  · have hother (packet : Packet R) : op ≠ .receive packet := fun heq => hop ⟨packet, heq⟩
    obtain ⟨hcustody, hkept⟩ := Shared.next_custody h hpos hother
    have hpackets : (u.next op).packets = u.packets := by
      cases op with
      | receive packet => exact absurd rfl (hother packet)
      | _ => rfl
    refine ⟨?_, fun hk => iff_of_true (hkept hk) ?_⟩
    · rw [InCustody, hpackets]
      exact hcustody
    · cases op with
      | receive packet => exact absurd rfl (hother packet)
      | _ => trivial

/-- The sender half of every oneshot at which a future waits is kept. -/
theorem returnsOwn_of_kept (h : u.InCustody) (hkept : Kept u.shared.work) : u.ReturnsOwn := by
  rintro k task op htask hstage hop hpos
  have hmem := List.mem_of_getElem? htask
  have hreceiving : task.stage.isReceiving = true := by rw [hstage]; rfl
  rcases hop with rfl | rfl
  · obtain ⟨n, r, b, d, hpacket, hvalue⟩ := h.mail task hmem hreceiving
    obtain ⟨task', htask', -, hinbox⟩ := hpos
    rw [htask, Option.mem_some_iff] at htask'
    subst htask'
    obtain ⟨value, hinbox⟩ := Option.isSome_iff_exists.mp hinbox
    refine ⟨n, r, b, d, hpacket, ?_⟩
    simp only [Shared.perform, htask, hinbox, Shared.complete, Task.returns, hstage,
      hvalue value hinbox]
    rfl
  · obtain ⟨task', htask', -, hinbox, hnot⟩ := hpos
    rw [htask, Option.mem_some_iff] at htask'
    subst htask'
    have hawaited : awaited u.shared.tasks task.chan = true :=
      awaited_iff.mpr ⟨task, hmem, rfl, Option.isNone_iff_eq_none.mp hinbox, hreceiving⟩
    exact absurd (holds_iff.mpr (.inr (hkept _ hawaited))) hnot

/-- No `receive` is closed while its packet is stored. -/
theorem neverCloses_iff_kept (h : u.InCustody) : u.NeverCloses ↔ Kept u.shared.work := by
  constructor
  · intro hnever chan hawaited
    by_contra hgone
    obtain ⟨task, hmem, rfl, hinbox, hreceiving⟩ := awaited_iff.mp hawaited
    obtain ⟨k, htask⟩ : ∃ k, u.shared.tasks[k]? = some task := List.mem_iff_getElem?.mp hmem
    have hstage := stage_of_isReceiving hreceiving
    have hnot : ¬ u.shared.inner.holds task.chan := by
      rw [holds_iff, not_or]
      refine ⟨fun hsent => ?_, hgone⟩
      have hno := (h.sent _ hsent).2
      rw [receives_of_awaited hawaited] at hno
      cases hno
    refine hnever (.closed k) ⟨task, htask, by rw [hstage]; rfl, by rw [hinbox]; rfl, hnot⟩ ?_
    simp only [Shared.perform, htask, Shared.complete, Task.returnsClosed, hstage]
  · intro hkept op hpos
    have hown := returnsOwn_of_kept h hkept
    cases op with
    | receive packet => exact (Shared.receive_custody h packet).2.2
    | resolve k =>
      obtain ⟨task, htask, -, hinbox⟩ := id hpos
      by_cases hstage : task.stage = .receiving
      · obtain ⟨n, r, b, d, -, hreturn⟩ := hown k task _ htask hstage (.inl rfl) hpos
        rw [hreturn]
        nofun
      · obtain ⟨value, hinbox⟩ := Option.isSome_iff_exists.mp hinbox
        simp only [Shared.perform, Option.mem_def.mp htask, hinbox, Shared.complete]
        exact returns_ne_received hstage value _
    | closed k =>
      obtain ⟨task, htask, -⟩ := id hpos
      by_cases hstage : task.stage = .receiving
      · obtain ⟨n, r, b, d, -, hreturn⟩ := hown k task _ htask hstage (.inr rfl) hpos
        rw [hreturn]
        nofun
      · simp only [Shared.perform, Option.mem_def.mp htask, Shared.complete]
        exact returnsClosed_ne_received hstage _
    | _ =>
      simp only [Shared.perform]
      repeat' split
      all_goals nofun

/-- In a run in which no section lets go of a oneshot at which a future waits, no
future of `receive` reports a closed endpoint, and each returns with its own packet;
and only in such a run is the first so. -/
theorem neverCloses_iff_spares (interval : Int64) (initialSeqNo : SeqNo) {l : List (Op S R)}
    (hl : Allowed (fun (u : Traced S R CAP) op => u.shared.Possible op) next
      (new interval initialSeqNo) l) :
    (Allowed (fun (u : Traced S R CAP) op => u.shared.Spares op) next
          (new interval initialSeqNo) l →
        ∀ l', l' <+: l →
          (l'.foldl next (new interval initialSeqNo : Traced S R CAP)).NeverCloses ∧
            (l'.foldl next (new interval initialSeqNo : Traced S R CAP)).ReturnsOwn) ∧
      ((∀ l', l' <+: l →
          (l'.foldl next (new interval initialSeqNo : Traced S R CAP)).NeverCloses) →
        Allowed (fun (u : Traced S R CAP) op => u.shared.Spares op) next
          (new interval initialSeqNo) l) := by
  obtain ⟨hstart, hnone⟩ : (new interval initialSeqNo : Traced S R CAP).InCustody ∧
      Kept (new interval initialSeqNo : Traced S R CAP).shared.work :=
    new_custody interval initialSeqNo
  have hcustody := hl.forall_prefix hl hstart fun u op hu hpos _ => (next_custody hu hpos).1
  have hiff : (∀ l', l' <+: l →
      Kept (l'.foldl next (new interval initialSeqNo : Traced S R CAP)).shared.work) ↔
        Allowed (fun u op => u.shared.Spares op) next (new interval initialSeqNo) l :=
    forall_prefix_iff_allowed (P := fun u : Traced S R CAP => Kept u.shared.work)
      (fun u op hu hpos => (next_custody hu hpos).1)
      (fun u op hu hkept hpos => (next_custody hu hpos).2 hkept) hstart hnone hl
  constructor
  · intro hspares l' hl'
    have hkept := hiff.mpr hspares l' hl'
    exact ⟨(neverCloses_iff_kept (hcustody l' hl')).mpr hkept,
      returnsOwn_of_kept (hcustody l' hl') hkept⟩
  · intro hnever
    exact hiff.mp fun l' hl' => (neverCloses_iff_kept (hcustody l' hl')).mp (hnever l' hl')

/-- A packet is sent and its reply received; a SeqCst packet is stored, arrives again
while it waits, and is pumped. -/
def storedAndPumped : List (Op ℕ ℕ) :=
  [.send 0 false (fun _ => 60), .receive (.seqCstPayload 1 71), .receive (.reply 2 0 72),
    .receive (.seqCstPayload 1 71), .receive (.payload 0 70), .enqueue 0, .resolve 0]

/-- A packet that is stored and pumped reaches its future. -/
theorem neverCloses_iff_spares_storedAndPumped :
    (storedAndPumped.foldl next (new 100 0 : Traced ℕ ℕ 4)).NeverCloses ∧
      (storedAndPumped.foldl next (new 100 0 : Traced ℕ ℕ 4)).ReturnsOwn :=
  (neverCloses_iff_spares 100 0 (by decide)).1 (by decide) storedAndPumped List.prefix_rfl

/-- The second packet waits for the guard of the first. When the guard is dropped the
packet arrives again, and is processed at once. -/
def displaced : List (Op ℕ ℕ) :=
  [.receive (.seqCstPayload 0 70), .receive (.seqCstPayload 1 71), .dropReplyGuard ⟨0, true⟩,
    .receive (.seqCstPayload 1 71)]

/-- A reply waits for the packet before it and is pumped when that arrives. -/
def unseated : List (Op ℕ ℕ) :=
  [.send 0 false (fun _ => 60), .receive (.seqCstReply 1 0 71), .receive (.payload 0 70)]

/-- In both runs the future of the stored packet reports a closed endpoint. -/
theorem stored_reports_closed :
    Allowed (fun (u : Traced ℕ ℕ 4) op => u.shared.Possible op) next (new 100 0) displaced ∧
      (displaced.foldl next (new 100 0 : Traced ℕ ℕ 4)).shared.Possible (.closed 0) ∧
      ((displaced.foldl next (new 100 0 : Traced ℕ ℕ 4)).shared.perform (.closed 0)).1 =
        .received (.error .seqExClosed) ∧
      Allowed (fun (u : Traced ℕ ℕ 4) op => u.shared.Possible op) next (new 100 0) unseated ∧
      (unseated.foldl next (new 100 0 : Traced ℕ ℕ 4)).shared.Possible (.closed 1) ∧
      ((unseated.foldl next (new 100 0 : Traced ℕ ℕ 4)).shared.perform (.closed 1)).1 =
        .received (.error .seqExClosed) :=
  ⟨by decide, by decide, rfl, by decide, by decide, rfl⟩

end Traced

end SequentialExchange.Tokio
