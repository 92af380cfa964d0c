import SequentialExchange.Deadlines
import SequentialExchange.TokioCalls

/-!
# The times that the service task knows

`service_task` keeps a copy of the deadline. A future that lowers the deadline keeps
the new one until the bounded queue has room for it. The service task knows early
enough when to resend as long as one of these times is at most the deadline. That is
lost when a future is dropped that keeps the only one, and nothing is gained by a
pass that leaves a packet of the window out.
-/

namespace SequentialExchange

open WrapNumbering GuardedRuns

namespace SeqEx

variable {S R : Type*} {CAP : ℕ} [NeZero CAP]

/-- The next pass comes to every packet in the window. -/
def Swept (s : SeqEx S R CAP) : Prop :=
  ∀ i, (s.sendWindow i).isSome = true → Visits CAP (CAP % 2 ^ 32) s.firstSeqNo i

/-- A bounded search through the window. -/
instance decidableSwept (s : SeqEx S R CAP) : Decidable s.Swept :=
  have (i : Fin CAP) : Decidable (Visits CAP (CAP % 2 ^ 32) s.firstSeqNo i) :=
    inferInstanceAs (Decidable (∃ j < _, _))
  inferInstanceAs (Decidable (∀ _, _))

/-- Rings below `2^32` that divide the number space are always swept. -/
theorem swept_of_small (hC : ∃ e, CAP = 2 ^ e) (hcap : CAP < 2 ^ 32) (s : SeqEx S R CAP) :
    s.Swept := fun i _ => visits_all hC hcap s.firstSeqNo i

/-- A pass that leaves nothing out ends with a deadline for all. -/
theorem Timely.service {s : SeqEx S R CAP} {t : Int64} (hs : s.Timely)
    (hswept : s.nextServiceTimestamp ≤ t → s.Swept) : (s.service t).2.2.Timely := by
  by_cases hdue : s.nextServiceTimestamp ≤ t
  · rw [(service_of_due hdue).2]
    intro i e' he'
    have hvisits (h : (s.sendWindow i).isSome = true) := hswept hdue i h
    obtain ⟨hvisited, hpassed⟩ :
        (Visits CAP (CAP % 2 ^ 32) s.firstSeqNo i →
          (s.fullPass t).2.2 i = (s.sendWindow i).map (.rearm t s.resendInterval)) ∧
        (¬ Visits CAP (CAP % 2 ^ 32) s.firstSeqNo i →
          (s.fullPass t).2.2 i = s.sendWindow i) := passFrom_window i
    cases he : s.sendWindow i with
    | none =>
      have hnone : (s.fullPass t).2.2 i = none := by
        by_cases hi : Visits CAP (CAP % 2 ^ 32) s.firstSeqNo i
        · exact (hvisited hi).trans (by rw [he]; rfl)
        · exact (hpassed hi).trans he
      exact absurd (hnone.symm.trans he') nofun
    | some e =>
      have hi := hvisits (by rw [he]; rfl)
      have hrearmed : some (e.rearm t s.resendInterval) = some e' := by
        rw [← he', ← Option.map_some, ← he]
        exact (hvisited hi).symm
      cases hrearmed
      exact (passFrom_least t s.resendInterval (CAP % 2 ^ 32) s.firstSeqNo Int64.maxValue
        s.sendWindow).2.1 i e hi he
  · rw [(service_of_not_due hdue).2]
    exact hs

end SeqEx

namespace Tokio

open Sync (Condition ReplyGuard Place Owner)

variable {S R : Type*} {CAP : ℕ}

/-- Receives, pumps and acknowledgements take packets out of the window at most. -/
theorem Work.Follows.shrinks [NeZero CAP] {w w' : Work S R CAP} (h : w.Follows w') :
    w.seq.Shrinks w'.seq := by
  obtain ⟨cs, hcs, hseq⟩ := h.calls
  rw [hseq]
  clear hseq
  generalize w.seq = q
  induction cs generalizing q with
  | nil => exact .rfl' q
  | cons c cs ih =>
    have hc : q.Shrinks (q.call c).2 := by
      have hkind := hcs c (List.mem_cons_self ..)
      rcases q.call_timing (c := c) (by rcases hkind with ⟨_, rfl⟩ | rfl | ⟨_, _, rfl⟩ <;> rfl) with
        hshrinks | ⟨haccepts, -⟩
      · exact hshrinks
      · rcases hkind with ⟨_, rfl⟩ | rfl | ⟨_, _, rfl⟩ <;> exact haccepts.elim
    exact hc.trans (ih (fun c' hc' => hcs c' (List.mem_cons_of_mem c hc')) _)

/-- The updates that futures keep. -/
def updates (tasks : List (Task S R)) : List Int64 := tasks.filterMap (·.stage.update?)

/-- The order of the futures does not matter. -/
theorem updates_perm {tasks tasks' : List (Task S R)} (h : tasks.Perm tasks') :
    (updates tasks).Perm (updates tasks') := h.filterMap _

/-- The times are read off the stages. -/
theorem updates_congr {tasks tasks' : List (Task S R)}
    (h : tasks'.map (·.stage.update?) = tasks.map (·.stage.update?)) :
    updates tasks' = updates tasks := by
  have hupdates (l : List (Task S R)) : updates l = (l.map (·.stage.update?)).filterMap id := by
    rw [updates, List.filterMap_map]
    rfl
  rw [hupdates, hupdates, h]

/-- The time of one more future. -/
theorem updates_cons (task : Task S R) (tasks : List (Task S R)) :
    updates (task :: tasks) = task.stage.update?.toList ++ updates tasks := by
  rw [updates, List.filterMap_cons]
  cases task.stage.update? <;> rfl

/-- The time of a new future. -/
theorem updates_suspend (tasks : List (Task S R)) (chan : ℕ) (stage : Stage S) :
    updates (tasks ++ [⟨chan, stage, none⟩]) = updates tasks ++ stage.update?.toList := by
  rw [updates, List.filterMap_append]
  cases hstage : stage.update? <;> simp [updates, hstage]

/-- A future that keeps no update takes none away. -/
theorem mem_updates_eraseIdx {tasks : List (Task S R)} {k : ℕ} {task : Task S R} {u : Int64}
    (h : tasks[k]? = some task) (hnone : task.stage.update? = none) (hu : u ∈ updates tasks) :
    u ∈ updates (tasks.eraseIdx k) := by
  have hmem := (updates_perm (perm_of_getElem? h)).mem_iff.mp hu
  rwa [updates_cons, hnone, Option.toList_none, List.nil_append] at hmem

/-- The updates after a future went on. -/
theorem mem_updates_modify {tasks : List (Task S R)} {k : ℕ} {task : Task S R} {u : Int64}
    (h : tasks[k]? = some task) (stage : Stage S) :
    u ∈ updates (tasks.modify k (·.goTo stage)) ↔
      stage.update? = some u ∨ u ∈ updates (tasks.eraseIdx k) := by
  rw [(updates_perm (modify_perm h _)).mem_iff, updates_cons, List.mem_append, Option.mem_toList]
  rfl

/-- A future keeps its time when it waits elsewhere. -/
theorem update?_waitAt (wait : Wait) (stage : Stage S) :
    (stage.waitAt wait).update? = stage.update? := by
  cases stage <;> rfl

/-- Who waits for a condition has no time to tell. -/
theorem update?_of_isWaiting {on : Condition} {wait : Wait} {task : Task S R}
    (h : task.isWaiting on wait = true) : task.stage.update? = none := by
  unfold Task.isWaiting at h
  cases hstage : task.stage <;> simp_all [Stage.isWaiting, Stage.update?]

/-- Nor has who waits at its oneshot. -/
theorem update?_of_isAtOneshot {stage : Stage S} (h : stage.isAtOneshot = true) :
    stage.update? = none := by
  cases stage <;> simp_all [Stage.isAtOneshot, Stage.update?]

/-- Notifications leave the updates alone. -/
theorem updates_notifyOne (choice : ℕ) (permit : Bool) (tasks : List (Task S R)) :
    updates (notifyOne choice permit tasks).2 = updates tasks := by
  refine updates_congr ?_
  unfold notifyOne
  dsimp only
  split
  · exact map_modify_of_comp (fun task : Task S R => update?_waitAt _ task.stage) tasks _
  · rfl

/-- A notification takes no time away. -/
theorem updates_notifyWaiters (tasks : List (Task S R)) :
    updates (notifyWaiters tasks) = updates tasks := by
  refine updates_congr ?_
  rw [notifyWaiters, List.map_map]
  refine List.map_congr_left fun task _ => ?_
  rw [Function.comp_apply]
  split
  · exact update?_waitAt _ task.stage
  · rfl

/-- A least value is below a bound when one of the values is. -/
theorem foldl_min_le_iff (l : List Int64) (a x : Int64) :
    l.foldl min a ≤ x ↔ ∃ u ∈ a :: l, u ≤ x := by
  induction l generalizing a with
  | nil => simp
  | cons b l ih =>
    rw [List.foldl_cons, ih]
    simp only [List.mem_cons, exists_eq_or_imp]
    rw [← or_assoc]
    refine or_congr_left ⟨fun h => ?_, fun h => ?_⟩
    · rcases Std.min_eq_or (a := a) (b := b) with heq | heq
      · exact .inl (heq ▸ h)
      · exact .inr (heq ▸ h)
    · have hmin := Std.le_min_iff.mp (Int64.le_refl (min a b))
      exact h.elim (Int64.le_trans hmin.1) (Int64.le_trans hmin.2)

namespace Shared

/-- The times on their way to the service task. -/
def underWay (s : Shared S R CAP) : List Int64 := s.updateQueue ++ updates s.tasks

/-- The earliest of them and of the one the service task has. -/
def earliest (s : Shared S R CAP) : Int64 := s.underWay.foldl min s.nextServiceTimestamp

/-- The service task is not late for any packet in the window. -/
def OnTime (s : Shared S R CAP) : Prop :=
  ∀ i, ∀ e ∈ s.inner.seq.sendWindow i, s.earliest ≤ e.nextResendTime

/-- A bounded search through the window. -/
instance decidableOnTime (s : Shared S R CAP) : Decidable s.OnTime :=
  have (i : Fin CAP) : Decidable (∀ e ∈ s.inner.seq.sendWindow i, s.earliest ≤ e.nextResendTime) :=
    Option.decidableForallMem _
  inferInstanceAs (Decidable (∀ _, _))

/-- The deadline is early enough, and the service task knows of it in time. -/
structure Informed (s : Shared S R CAP) : Prop where
  timely : s.inner.seq.Timely
  knows : ∃ u ∈ s.nextServiceTimestamp :: s.underWay, u ≤ s.inner.seq.nextServiceTimestamp

/-- Some time on its way is early enough for every packet. -/
theorem Informed.onTime {s : Shared S R CAP} (hs : s.Informed) : s.OnTime := fun i e he =>
  Int64.le_trans ((foldl_min_le_iff _ _ _).mpr hs.knows) (hs.timely i e he)

variable {s s' : Shared S R CAP}

/-- No time on its way is lost and the deadline is lowered only by one of them. -/
theorem Informed.keep (hs : s.Informed) (htimely : s'.inner.seq.Timely)
    (hkept : ∀ u ∈ s.nextServiceTimestamp :: s.underWay,
      ∃ v ∈ s'.nextServiceTimestamp :: s'.underWay, v ≤ u)
    (hlowered : s'.inner.seq.nextServiceTimestamp = s.inner.seq.nextServiceTimestamp ∨
      s'.inner.seq.nextServiceTimestamp ∈ s'.underWay) : s'.Informed := by
  refine ⟨htimely, ?_⟩
  rcases hlowered with hsame | hlowered
  · obtain ⟨u, hu, hle⟩ := hs.knows
    obtain ⟨v, hv, hvu⟩ := hkept u hu
    exact ⟨v, hv, hsame ▸ Int64.le_trans hvu hle⟩
  · exact ⟨_, List.mem_cons_of_mem _ hlowered, Int64.le_refl _⟩

/-- The times on their way stay when the futures keep theirs. -/
theorem underWay_mono (htimestamp : s'.nextServiceTimestamp = s.nextServiceTimestamp)
    (hqueue : s'.updateQueue = s.updateQueue)
    (hupdates : ∀ u ∈ updates s.tasks, u ∈ updates s'.tasks) {u : Int64}
    (hu : u ∈ s.nextServiceTimestamp :: s.underWay) :
    u ∈ s'.nextServiceTimestamp :: s'.underWay := by
  rw [htimestamp, underWay, hqueue]
  rcases List.mem_cons.mp hu with rfl | hu
  · exact List.mem_cons_self ..
  · exact List.mem_cons_of_mem _ (List.mem_append.mpr
      ((List.mem_append.mp hu).imp_right (hupdates u)))

/-- A section that takes packets out of the window at most. -/
theorem Informed.shrinks (hs : s.Informed) (h : s.inner.seq.Shrinks s'.inner.seq)
    (htimestamp : s'.nextServiceTimestamp = s.nextServiceTimestamp)
    (hqueue : s'.updateQueue = s.updateQueue)
    (hupdates : ∀ u ∈ updates s.tasks, u ∈ updates s'.tasks) : s'.Informed :=
  hs.keep (hs.timely.shrinks h)
    (fun u hu => ⟨u, underWay_mono htimestamp hqueue hupdates hu, Int64.le_refl _⟩)
    (.inl h.deadline)

/-- The state machine and the times are the same. -/
theorem Informed.congr (hs : s.Informed) (hseq : s'.inner.seq = s.inner.seq)
    (htimestamp : s'.nextServiceTimestamp = s.nextServiceTimestamp)
    (hqueue : s'.updateQueue = s.updateQueue)
    (hupdates : ∀ u ∈ updates s.tasks, u ∈ updates s'.tasks) : s'.Informed :=
  hs.shrinks (hseq ▸ .rfl' _) htimestamp hqueue hupdates

variable [NeZero CAP]

/-- A section that may draw a number, and leaves the lowered deadline with its
future. -/
theorem Informed.draws {c : Call (Sender S) (Receiver R)} (hs : s.Informed)
    (hc : c.servesAt? = none) (hseq : s'.inner.seq = (s.inner.seq.call c).2)
    (htimestamp : s'.nextServiceTimestamp = s.nextServiceTimestamp)
    (hqueue : s'.updateQueue = s.updateQueue)
    (hupdates : ∀ u ∈ updates s.tasks, u ∈ updates s'.tasks)
    (hlowered : (s.inner.seq.call c).2.nextServiceTimestamp = s.inner.seq.nextServiceTimestamp ∨
      (s.inner.seq.call c).2.nextServiceTimestamp ∈ updates s'.tasks) : s'.Informed := by
  refine hs.keep ?_
    (fun u hu => ⟨u, underWay_mono htimestamp hqueue hupdates hu, Int64.le_refl _⟩) ?_
  · rw [hseq]
    rcases s.inner.seq.call_timing hc with h | ⟨-, t, -, h⟩
    · exact hs.timely.shrinks h
    · exact hs.timely.draws h
  · rw [hseq]
    exact hlowered.imp_right fun h => List.mem_append_right _ h

omit [NeZero CAP] in
/-- The deadline is the same, or is what `update` hands out. -/
theorem update_cases (before after : SeqEx (Sender S) (Receiver R) CAP) :
    after.nextServiceTimestamp = before.nextServiceTimestamp ∨
      SeqExInner.update before after = some after.nextServiceTimestamp := by
  unfold SeqExInner.update
  by_cases h : before.nextServiceTimestamp = after.nextServiceTimestamp
  · exact .inl h.symm
  · exact .inr (if_pos h)

omit [NeZero CAP] in
/-- The time of a future that is about to tell it. -/
theorem update?_ofUpdate (update : Option Int64) :
    (Stage.ofUpdate update : Stage S).update? = update := by
  cases update <;> rfl

/-- A future that sends keeps the deadline when it lowered it. -/
theorem sendWithInner_lowered (i : SeqExInner S R CAP) (t : Int64) (b : Bool) (chan : ℕ)
    (f : SeqNo → S) :
    (i.seq.call (.trySend t b fun n => (chan, f n))).2.nextServiceTimestamp =
        i.seq.nextServiceTimestamp ∨
      (Stage.ofSend b f (i.sendWithInner t b chan f).result).update? =
        some (i.seq.call (.trySend t b fun n => (chan, f n))).2.nextServiceTimestamp := by
  simp only [SeqExInner.sendWithInner, SeqEx.call]
  cases hfull : i.seq.isFullInner none with
  | error e =>
    have hrefused : i.seq.trySendDirectWith t b (fun n => (chan, f n)) =
        (.error (e, fun n => (chan, f n)), i.seq) := by
      rw [SeqEx.trySendDirectWith, hfull]
    exact .inl (by rw [hrefused])
  | ok u =>
    have hsent : ∃ p q, i.seq.trySendDirectWith t b (fun n => (chan, f n)) = (.ok p, q) := by
      rw [SeqEx.trySendDirectWith, hfull]
      exact ⟨_, _, rfl⟩
    obtain ⟨p, q, hsent⟩ := hsent
    rw [hsent]
    simp only [Stage.ofSend, update?_ofUpdate]
    exact update_cases i.seq q

/-- The condition on a step: a dropped future does not keep the only time that is
early enough for the deadline, and a due pass leaves no packet out. -/
def Keeps (s : Shared S R CAP) : Op S R → Prop
  | .drop k _ => (s.remove k).earliest ≤ s.inner.seq.nextServiceTimestamp
  | .service t => s.inner.seq.nextServiceTimestamp ≤ t → s.inner.seq.Swept
  | _ => True

/-- The condition is read off the state before the step. -/
instance decidableKeeps (s : Shared S R CAP) : ∀ op, Decidable (s.Keeps op)
  | .drop k _ => inferInstanceAs (Decidable ((s.remove k).earliest ≤ _))
  | .service t => inferInstanceAs (Decidable (_ ≤ t → s.inner.seq.Swept))
  | .receive _ | .send .. | .listen _ | .resume .. | .enqueue _ | .resolve _ | .closed _
  | .notifyOne _ | .notifyWaiters | .replyWith .. | .ack _ | .unlock _ | .dropReplyGuard _
  | .toComponents _ | .fromComponents _ | .dropSeqCstGuard | .takeUpdate _ => isTrue trivial

/-- What a section of the state machine does that neither draws nor serves. -/
theorem shrinks_call (q : SeqEx (Sender S) (Receiver R) CAP) {c : Call (Sender S) (Receiver R)}
    (hc : c.servesAt? = none) (hdraws : c.drawsAt? = none) : q.Shrinks (q.call c).2 := by
  rcases q.call_timing hc with h | ⟨-, t, ht, -⟩
  · exact h
  · rw [hdraws] at ht
    cases ht

/-- A receipt lowers no deadline. -/
theorem Informed.receive (hs : s.Informed) (packet : Packet R) :
    (s.receive packet).2.Informed := by
  obtain ⟨hfollows, -⟩ := s.inner.receiveInner_spec s.tasks s.nextChan packet
  unfold Shared.receive
  dsimp only
  generalize s.inner.receiveInner s.tasks s.nextChan packet = r at hfollows ⊢
  have hupdates : updates r.2 = updates s.tasks := by
    refine updates_congr ?_
    have hstages := congrArg (List.map Stage.update?) hfollows.stages
    rw [List.map_map, List.map_map] at hstages
    exact hstages
  have hkept (u : Int64) (hu : u ∈ updates s.tasks) : u ∈ updates r.2 := hupdates ▸ hu
  cases r.1.result with
  | ok ret => exact hs.shrinks hfollows.shrinks rfl rfl hkept
  | error e =>
    cases e with
    | some e => exact hs.shrinks hfollows.shrinks rfl rfl hkept
    | none =>
      dsimp only
      split
      · refine hs.shrinks hfollows.shrinks rfl rfl fun u hu => ?_
        exact updates_suspend r.2 s.nextChan .receiving ▸ List.mem_append_left _ (hkept u hu)
      · exact hs.shrinks hfollows.shrinks rfl rfl hkept

/-- The future that `send` makes keeps the deadline when the new packet lowered it. -/
theorem Informed.send (hs : s.Informed) (t : Int64) (b : Bool) (f : SeqNo → S) :
    (s.next (.send t b f)).Informed := by
  have hupdates := updates_suspend s.tasks s.nextChan
    (.ofSend b f (s.inner.sendWithInner t b s.nextChan f).result)
  refine hs.draws (c := .trySend t b fun n => (s.nextChan, f n)) rfl
    (s.inner.sendWithInner_seq t b s.nextChan f) rfl rfl (fun u hu => ?_) ?_
  · exact hupdates ▸ List.mem_append_left _ hu
  · refine (sendWithInner_lowered s.inner t b s.nextChan f).imp_right fun h => ?_
    rw [h] at hupdates
    exact hupdates ▸ List.mem_append_right _ (List.mem_singleton_self _)

/-- A future that is about to wait has no time to tell. -/
theorem Informed.listen (hs : s.Informed) {k : ℕ} (hpos : s.Possible (.listen k : Op S R)) :
    (s.next (.listen k)).Informed := by
  obtain ⟨task, htask, on, hleaving⟩ := hpos.listen
  have hnone := update?_of_isWaiting hleaving
  have hmoved (wait : Wait) (u : Int64) (hu : u ∈ updates s.tasks) :
      u ∈ updates (s.tasks.modify k (·.goTo (task.stage.waitAt wait))) :=
    (mem_updates_modify htask _).mpr (.inr (mem_updates_eraseIdx htask hnone hu))
  simp only [Shared.next, perform, Option.mem_def.mp htask, Shared.listen]
  split
  · exact hs.congr rfl rfl rfl (hmoved _)
  · exact hs.congr rfl rfl rfl (hmoved _)

/-- A woken sender keeps the deadline when its packet lowered it. -/
theorem Informed.resume (hs : s.Informed) {k : ℕ} {t : Int64}
    (hpos : s.Possible (.resume k t : Op S R)) : (s.next (.resume k t)).Informed := by
  obtain ⟨task, htask, on, hwoken⟩ := hpos.resume
  have hnone := update?_of_isWaiting hwoken
  obtain ⟨b, f, hstage⟩ := Task.isWaiting_iff.mp hwoken
  obtain ⟨chan, stage, inbox⟩ := task
  subst hstage
  simp only [Shared.next, perform, Option.mem_def.mp htask]
  refine hs.draws (c := .trySend t b fun n => (chan, f n)) rfl
    (s.inner.sendWithInner_seq t b chan f) rfl rfl (fun u hu => ?_) ?_
  · exact (mem_updates_modify htask _).mpr (.inr (mem_updates_eraseIdx htask hnone hu))
  · exact (sendWithInner_lowered s.inner t b chan f).imp_right fun h =>
      (mem_updates_modify htask _).mpr (.inl h)

/-- A time moves from its future to the queue. -/
theorem Informed.enqueue (hs : s.Informed) {k : ℕ} (hpos : s.Possible (.enqueue k : Op S R)) :
    (s.next (.enqueue k)).Informed := by
  obtain ⟨task, htask, hupdate, -⟩ := hpos
  obtain ⟨chan, stage, inbox⟩ := task
  cases stage with
  | enqueuing update =>
    simp only [Shared.next, perform, Option.mem_def.mp htask]
    refine hs.keep hs.timely (fun u hu => ⟨u, ?_, Int64.le_refl _⟩) (.inl rfl)
    rcases List.mem_cons.mp hu with rfl | hu
    · exact List.mem_cons_self ..
    · refine List.mem_cons_of_mem _ ?_
      rcases List.mem_append.mp hu with hu | hu
      · exact List.mem_append_left _ (List.mem_append_left _ hu)
      · have hu' := (updates_perm (perm_of_getElem? (Option.mem_def.mp htask))).mem_iff.mp hu
        rw [updates_cons, List.mem_append] at hu'
        rcases hu' with hu' | hu'
        · cases List.mem_singleton.mp hu'
          exact List.mem_append_left _ (List.mem_append_right _ (List.mem_singleton_self _))
        · exact List.mem_append_right _ ((mem_updates_modify htask _).mpr (.inr hu'))
  | _ => cases hupdate

/-- A future that returns its value has no time to tell. -/
theorem Informed.resolve (hs : s.Informed) {k : ℕ} (hpos : s.Possible (.resolve k : Op S R)) :
    (s.next (.resolve k)).Informed := by
  obtain ⟨task, htask, honeshot, hinbox⟩ := hpos
  obtain ⟨value, hinbox⟩ := Option.isSome_iff_exists.mp hinbox
  simp only [Shared.next, perform, Option.mem_def.mp htask, hinbox]
  exact hs.congr rfl rfl rfl fun u => mem_updates_eraseIdx htask (update?_of_isAtOneshot honeshot)

/-- Nor has one whose exchange was closed. -/
theorem Informed.closed (hs : s.Informed) {k : ℕ} (hpos : s.Possible (.closed k : Op S R)) :
    (s.next (.closed k)).Informed := by
  obtain ⟨task, htask, honeshot, -⟩ := hpos
  simp only [Shared.next, perform, Option.mem_def.mp htask]
  exact hs.congr rfl rfl rfl fun u => mem_updates_eraseIdx htask (update?_of_isAtOneshot honeshot)

/-- The condition on a dropped future is that the others know a time early enough. -/
theorem Informed.drop (hs : s.Informed) {k choice : ℕ}
    (hpos : s.Possible (.drop k choice : Op S R))
    (hkeeps : (s.remove k).earliest ≤ s.inner.seq.nextServiceTimestamp) :
    (s.next (.drop k choice)).Informed := by
  obtain ⟨task, htask, -⟩ := hpos
  have hknows := (foldl_min_le_iff _ _ _).mp hkeeps
  simp only [Shared.next, perform, Option.mem_def.mp htask]
  split
  · refine ⟨hs.timely, ?_⟩
    simp only [underWay, callOne, updates_notifyOne]
    exact hknows
  · exact ⟨hs.timely, hknows⟩

/-- The future that `reply_with` makes keeps the deadline when the reply lowered it. -/
theorem Informed.replyWith (hs : s.Informed) (g : ReplyGuard) (t : Int64) (b : Bool)
    (f : SeqNo → SeqNo → S) : (s.next (.replyWith g t b f)).Informed := by
  have hupdates := updates_suspend s.tasks s.nextChan
    (.ofUpdate (s.inner.tryReplyWithInner g t b s.nextChan f).result)
  rw [update?_ofUpdate] at hupdates
  refine hs.draws (c := .reply t g.replyNo g.isHoldingLock b
    (s.nextChan, f s.inner.seq.nextSendSeqNo g.replyNo)) rfl rfl rfl rfl (fun u hu => ?_) ?_
  · exact hupdates ▸ List.mem_append_left _ hu
  · refine (update_cases s.inner.seq _).imp_right fun h => ?_
    exact hupdates ▸ List.mem_append_right _ (Option.mem_toList.mpr h)

/-- An acknowledgement draws no number. -/
theorem Informed.ack (hs : s.Informed) (g : ReplyGuard) : (s.next (.ack g)).Informed := by
  refine hs.shrinks ?_ rfl rfl fun u hu => hu
  have hseq := (s.inner.ack_spec g).1
  exact hseq ▸ shrinks_call s.inner.seq (c := .ack g.replyNo false) rfl rfl

/-- Nor does an `unlock`. -/
theorem Informed.unlock (hs : s.Informed) (g : ReplyGuard) : (s.next (.unlock g)).Informed := by
  refine hs.shrinks ?_ rfl rfl fun u hu => hu
  have hseq := s.inner.unlock_seq g
  show s.inner.seq.Shrinks (s.inner.unlock g).inner.seq
  rw [hseq]
  split
  · exact shrinks_call s.inner.seq (c := .unlock) rfl rfl
  · exact .rfl' _

/-- The service task takes a time off the queue and keeps the smaller one. -/
theorem Informed.takeUpdate (hs : s.Informed) (t : Int64) :
    (s.next (.takeUpdate t)).Informed := by
  simp only [Shared.next, perform]
  split
  · rename_i update rest hqueue
    refine hs.keep hs.timely (fun u hu => ?_) (.inl rfl)
    have hmin := Std.le_min_iff.mp (Int64.le_refl (min s.nextServiceTimestamp update))
    rw [underWay, hqueue] at hu
    rcases List.mem_cons.mp hu with rfl | hu
    · exact ⟨_, List.mem_cons_self .., hmin.1⟩
    · rcases List.mem_cons.mp hu with rfl | hu
      · exact ⟨_, List.mem_cons_self .., hmin.2⟩
      · exact ⟨u, List.mem_cons_of_mem _ hu, Int64.le_refl _⟩
  · exact hs

/-- The service task is told in time by every step that meets the condition. -/
theorem Informed.next {op : Op S R} (hs : s.Informed) (hpos : s.Possible op)
    (hkeeps : s.Keeps op) : (s.next op).Informed := by
  cases op with
  | receive packet => exact hs.receive packet
  | send t b f => exact hs.send t b f
  | listen k => exact hs.listen hpos
  | resume k t => exact hs.resume hpos
  | enqueue k => exact hs.enqueue hpos
  | resolve k => exact hs.resolve hpos
  | closed k => exact hs.closed hpos
  | drop k choice => exact hs.drop hpos hkeeps
  | notifyOne choice =>
    exact hs.congr rfl rfl rfl fun u hu => (updates_notifyOne ..).symm ▸ hu
  | notifyWaiters =>
    exact hs.congr rfl rfl rfl fun u hu => (updates_notifyWaiters s.tasks).symm ▸ hu
  | replyWith g t b f => exact hs.replyWith g t b f
  | ack g => exact hs.ack g
  | unlock g => exact hs.unlock g
  | dropReplyGuard g =>
    exact hs.shrinks (shrinks_call s.inner.seq (c := .ack g.replyNo g.isHoldingLock) rfl rfl) rfl
      rfl fun u hu => hu
  | toComponents g => exact hs.congr rfl rfl rfl fun u hu => hu
  | fromComponents g => exact hs.congr rfl rfl rfl fun u hu => hu
  | dropSeqCstGuard =>
    exact hs.shrinks (shrinks_call s.inner.seq (c := .unlock) rfl rfl) rfl rfl fun u hu => hu
  | takeUpdate t => exact hs.takeUpdate t
  | service t =>
    exact ⟨hs.timely.service hkeeps, _, List.mem_cons_self .., Int64.le_refl _⟩

/-- Nobody is late in a run that meets the condition. -/
theorem onTime_of_keeps (interval : Int64) (initialSeqNo : SeqNo) {l : List (Op S R)}
    (hl : Allowed Possible Shared.next (new interval initialSeqNo : Shared S R CAP) l)
    (hkeeps : Allowed Keeps Shared.next (new interval initialSeqNo : Shared S R CAP) l) :
    ∀ l', l' <+: l →
      (l'.foldl Shared.next (new interval initialSeqNo : Shared S R CAP)).OnTime := by
  have hnew : (new interval initialSeqNo : Shared S R CAP).Informed :=
    ⟨nofun, Int64.maxValue, List.mem_singleton_self _, Int64.le_refl _⟩
  exact fun l' hl' => (hl.forall_prefix hkeeps hnew
    (fun u op hu hpos hkeeps => hu.next hpos hkeeps) l' hl').onTime

/-- Three packets are sent at falling times. A future that waits for its answer and one
that waits for the window are dropped, and a pass comes before the last update. -/
def toldInTime : List (Op ℕ ℕ) :=
  [.send 30 false (fun _ => 60), .enqueue 0, .send 20 false (fun _ => 61), .enqueue 1,
    .takeUpdate 30, .drop 0 0, .receive (.payload 0 70), .receive (.ack 1), .resolve 0,
    .replyWith ⟨0, false⟩ 10 false (fun _ _ => 62), .takeUpdate 31, .service 131, .enqueue 0,
    .send 132 false (fun _ => 63), .send 133 false (fun _ => 64), .send 134 false (fun _ => 65),
    .listen 3, .drop 3 0, .takeUpdate 135, .service 140]

/-- The futures that are dropped keep no time that is needed. -/
theorem onTime_of_keeps_toldInTime :
    (toldInTime.foldl Shared.next (new 100 0 : Shared ℕ ℕ 4)).OnTime :=
  onTime_of_keeps 100 0 (by decide) (by decide) toldInTime List.prefix_rfl

/-- Nine packets are sent at falling times. The updates of eight futures fill the
queue, and the ninth future is dropped while it waits for room. -/
def lostUpdate : List (Op ℕ ℕ) :=
  [.send 109 false (fun _ => 60), .enqueue 0, .send 108 false (fun _ => 61), .enqueue 1,
    .send 107 false (fun _ => 62), .enqueue 2, .send 106 false (fun _ => 63), .enqueue 3,
    .send 105 false (fun _ => 64), .enqueue 4, .send 104 false (fun _ => 65), .enqueue 5,
    .send 103 false (fun _ => 66), .enqueue 6, .send 102 false (fun _ => 67), .enqueue 7,
    .send 101 false (fun _ => 68), .drop 8 0]

/-- The ninth packet is due at 201, and the service task knows 202. -/
theorem dropped_update_late :
    Allowed Possible Shared.next (new 100 0 : Shared ℕ ℕ 16) lostUpdate ∧
      ¬ (lostUpdate.foldl Shared.next (new 100 0 : Shared ℕ ℕ 16)).OnTime := by
  decide +kernel

end Shared

end Tokio

end SequentialExchange
