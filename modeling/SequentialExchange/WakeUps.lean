import SequentialExchange.SyncWaiters
import SequentialExchange.MutualExclusion

/-!
# Lost wake-ups of blocking senders

A packet that is received or pumped notifies one sender on `wait_on_recv`, though
it can make room for several. The notification is lost when the sender that got it
leaves, having sent or timed out, while another packet still fits, and also when a
guard makes room without notifying a sender. A run loses no wake-up exactly when
none of its steps does either of the two; receives, pumps, new calls and service
passes never lose one.
-/

namespace SequentialExchange

open WrapNumbering GuardedRuns

variable {S R : Type*} {CAP : ℕ} [NeZero CAP]

namespace SeqEx

/-- `try_send` would succeed. -/
def Ready (s : SeqEx S R CAP) : Prop := s.isFullInner none = .ok ()

/-- The window check decides it. -/
instance decidableReady (s : SeqEx S R CAP) : Decidable s.Ready :=
  inferInstanceAs (Decidable (_ = _))

/-- With `k` reply numbers outstanding, the fullness test would pass, with `drawn`
after the next number was drawn. -/
def RoomFor (s : SeqEx S R CAP) (drawn : Bool) (k : ℕ) : Prop :=
  k < CAP - 2 ∧ ∀ i < (1 + UInt32.ofNat k).toNat,
    (s.sendWindow (cell CAP (s.nextSendSeqNo + UInt32.ofNat (drawn.toNat + i)))).isSome = false ∧
      (drawn = true →
        cell CAP (s.nextSendSeqNo + UInt32.ofNat (1 + i)) ≠ cell CAP s.nextSendSeqNo)

/-- A bounded search through the cells ahead. -/
instance decidableRoomFor (s : SeqEx S R CAP) (drawn : Bool) (k : ℕ) :
    Decidable (s.RoomFor drawn k) :=
  inferInstanceAs (Decidable (_ ∧ _))

variable {s : SeqEx S R CAP}

/-- A packet may be sent when there is room for it and every reply. -/
theorem ready_iff : s.Ready ↔ s.RoomFor false s.concurrentReplies.length := by
  have hscan : (List.range (1 + UInt32.ofNat s.concurrentReplies.length).toNat).find?
      (s.isBlockedAt none) = none ↔ ∀ i < (1 + UInt32.ofNat s.concurrentReplies.length).toNat,
        (s.sendWindow (cell CAP (s.nextSendSeqNo + UInt32.ofNat i))).isSome = false := by
    simp [List.find?_eq_none, isBlockedAt]
  unfold Ready isFullInner RoomFor
  simp only [Bool.toNat_false, Nat.zero_add, Bool.false_eq_true, false_implies, and_true]
  rw [← hscan]
  split
  · rename_i hfull
    exact ⟨by simp, fun h => absurd h.1 (Nat.not_lt.mpr hfull)⟩
  · rename_i hroom
    split
    · rename_i hfind
      exact ⟨fun _ => ⟨Nat.not_le.mp hroom, hfind⟩, fun _ => rfl⟩
    all_goals
      rename_i hfind
      exact ⟨by simp, fun h => absurd (hfind.symm.trans h.2) (by simp)⟩

/-- Readiness depends on the numbers of the free cells and of the reservations. -/
theorem ready_congr {s' : SeqEx S R CAP} (hnext : s'.nextSendSeqNo = s.nextSendSeqNo)
    (hlen : s'.concurrentReplies.length = s.concurrentReplies.length)
    (hwindow : ∀ i, (s'.sendWindow i).isSome = (s.sendWindow i).isSome) :
    s'.Ready ↔ s.Ready := by
  rw [ready_iff, ready_iff, hlen]
  simp only [RoomFor, hnext, hwindow]

/-- After a packet is sent the next number is one further. -/
theorem ready_insertEntry (s : SeqEx S R CAP) (t : Int64) (r : Option SeqNo) (b : Bool) (d : S) :
    (s.insertEntry t r b d).2.Ready ↔ s.RoomFor true s.concurrentReplies.length := by
  rw [ready_iff]
  unfold RoomFor
  refine and_congr_right fun _ => forall₂_congr fun i _ => ?_
  have hnumber : s.nextSendSeqNo + 1 + UInt32.ofNat i = s.nextSendSeqNo + UInt32.ofNat (1 + i) := by
    rw [UInt32.ofNat_add, add_assoc]
    rfl
  simp only [insertEntry, Bool.toNat_false, Bool.toNat_true, Nat.zero_add, Bool.false_eq_true,
    false_implies, and_true, true_implies, hnumber]
  generalize cell CAP (s.nextSendSeqNo + UInt32.ofNat (1 + i)) = j
  by_cases hj : j = cell CAP s.nextSendSeqNo
  · simp [hj]
  · simp [hj]

/-- Whether the fullness test would pass after the call, read off the state before. -/
def ReadyAfter (s : SeqEx S R CAP) : Call S R → Prop
  | .trySend _ _ _ => s.Ready ∧ s.RoomFor true s.concurrentReplies.length
  | .reply _ _ _ _ _ => s.RoomFor true (s.concurrentReplies.length - 1)
  | .ack _ _ => s.RoomFor false (s.concurrentReplies.length - 1)
  | .receive _ | .pump | .unlock | .serviceDirect _ _ | .service _ => s.Ready

/-- It is read off the state before the call. -/
instance decidableReadyAfter (s : SeqEx S R CAP) : ∀ c, Decidable (s.ReadyAfter c)
  | .trySend _ _ _ => inferInstanceAs (Decidable (_ ∧ _))
  | .reply _ _ _ _ _ | .ack _ _ => inferInstanceAs (Decidable (s.RoomFor _ _))
  | .receive _ | .pump | .unlock | .serviceDirect _ _ | .service _ =>
    inferInstanceAs (Decidable s.Ready)

/-- The same for a section that makes at most one call. -/
def ReadyAfter? (s : SeqEx S R CAP) : Option (Call S R) → Prop
  | some c => s.ReadyAfter c
  | none => s.Ready

/-- So is this. -/
instance decidableReadyAfter? (s : SeqEx S R CAP) : ∀ c, Decidable (s.ReadyAfter? c)
  | some c => s.decidableReadyAfter c
  | none => s.decidableReady

end SeqEx

/-- The reply number that a call gives back. -/
def Call.returns? : Call S R → Option SeqNo
  | .reply _ r _ _ _ | .ack r _ => some r
  | .trySend _ _ _ | .receive _ | .pump | .unlock | .serviceDirect _ _ | .service _ => none

namespace SeqEx

variable {s : SeqEx S R CAP}

/-- New times make no room. -/
theorem Retimed.ready_iff {s' : SeqEx S R CAP} (h : s.Retimed s') : s'.Ready ↔ s.Ready := by
  refine ready_congr h.nextSend (by rw [h.replies]) fun i => ?_
  have hpending := congrFun h.pending i
  simp only [SeqEx.pending] at hpending
  rw [← Option.isSome_map (f := SendEntry.toPacket), hpending, Option.isSome_map]

/-- A call that hands nothing over leaves the window as predicted. -/
theorem ready_call_iff {c : Call S R} (hnone : (s.call c).1.delivery? = none)
    (hmem : ∀ r ∈ c.returns?, r ∈ s.concurrentReplies) :
    (s.call c).2.Ready ↔ s.ReadyAfter c := by
  cases c with
  | trySend t b f =>
    simp only [call, trySendDirectWith, ReadyAfter]
    cases hfull : s.isFullInner none with
    | ok u => rw [ready_insertEntry, Ready, hfull, and_iff_right rfl]
    | error e => simp [Ready, hfull]
  | receive p =>
    rcases p.eq_ack_or_newWithData with ⟨r, rfl⟩ | ⟨n, r, b, d, rfl⟩
    · simp only [call, tryReceiveRawAndDirect, ReadyAfter] at hnone ⊢
      rcases takeSend_cases s r with ⟨e, he, hr, ht⟩ | ⟨-, ht⟩
      · rw [ht] at hnone
        cases hnone
      · rw [ht]
    · have hcases := receiveData_cases id s n r b d
      simp only [call, tryReceive_newWithData, ReadyAfter] at hnone ⊢
      generalize s.receiveData id n r b d = res at hcases hnone ⊢
      cases hcases with
      | next _ _ _ _ => cases hnone
      | ahead _ _ _ _ => cases hnone
      | waits _ _ _ _ _ => exact ready_congr rfl rfl fun _ => rfl
      | _ => rfl
  | pump =>
    have hcases := s.tryPumpRaw_cases
    simp only [call, ReadyAfter] at hnone ⊢
    generalize s.tryPumpRaw = res at hcases hnone ⊢
    cases hcases with
    | next n r b d _ _ _ => cases hnone
    | _ => rfl
  | reply t r u b d =>
    obtain ⟨l, hl, ht⟩ := removeReservation_of_mem (hmem r rfl)
    have hlen : s.concurrentReplies.length - 1 = l.length := by
      rw [hl.length_eq, List.length_cons, Nat.add_sub_cancel]
    simp only [call, replyRawAndDirect, ReadyAfter, ht, hlen]
    exact ready_insertEntry _ t (some r) b d
  | ack r u =>
    obtain ⟨l, hl, ht⟩ := removeReservation_of_mem (hmem r rfl)
    have hlen : s.concurrentReplies.length - 1 = l.length := by
      rw [hl.length_eq, List.length_cons, Nat.add_sub_cancel]
    simp only [call, ackRawAndDirect, ReadyAfter, ht, hlen]
    exact SeqEx.ready_iff
  | unlock => exact ready_congr rfl rfl fun _ => rfl
  | serviceDirect t iter => exact (serviceDirect_retimed s t iter).1.ready_iff
  | service t => exact (serviceLoop_retimed t _ none s).1.ready_iff

end SeqEx

namespace Sync

namespace Lobby

omit [NeZero CAP]

/-- Some sender was notified and did not run yet. -/
def Notified (l : Lobby S) : Prop := ∃ w ∈ l.waiters, w.isNotified = true

/-- It is read off the lobby. -/
instance decidableNotified (l : Lobby S) : Decidable l.Notified :=
  inferInstanceAs (Decidable (∃ w ∈ l.waiters, _))

variable {l : Lobby S} (choice : ℕ)

/-- A `notify_recv` reaches a sender when one sleeps. -/
theorem Attended.notified_wakeRecv (hl : l.Attended) (hsleeps : 0 < l.sleepers .onRecv) :
    (l.stir choice .wakeRecv).Notified := by
  obtain ⟨w, hw, hasleep⟩ := List.countP_pos_iff.mp hsleeps
  obtain ⟨q, rfl⟩ := Waiter.isAsleepOn_iff.mp hasleep
  have hpos : 0 < l.recvWaiters := by
    rw [hl.recv]
    exact List.countP_pos_iff.mpr ⟨_, hw, rfl⟩
  simp only [Lobby.stir, if_pos hpos]
  rcases Notice.wake_recvOne choice l.waiters with ⟨hnone, -⟩ | ⟨xs, q', ys, -, hwake⟩
  · rw [hnone _ hw] at hasleep
    cases hasleep
  · rw [Notified, hwake]
    exact ⟨.sender .onRecv q' true, by simp, rfl⟩

/-- A `notify_reply` reaches the senders that sleep on `wait_on_reply`. -/
theorem Attended.notified_wakeReply (hl : l.Attended) :
    (l.stir choice .wakeReply).Notified ↔ l.Notified ∨ 0 < l.sleepers .onReply := by
  have hawake (w : Waiter S) : (if w.asleepOn? = some .onReply then w.awake else w).isNotified =
      (w.isNotified || w.isAsleepOn .onReply) := by
    cases w with
    | sender on q n => cases on <;> cases n <;> rfl
    | pumper n => cases n <;> rfl
  simp only [sleepers, List.countP_pos_iff, Lobby.stir]
  split
  · simp only [Notified, Notice.wake, List.mem_map, exists_exists_and_eq_and, hawake,
      Bool.or_eq_true, and_or_left, exists_or]
  · rename_i hflags
    refine (or_iff_left ?_).symm
    rintro ⟨w, hw, hasleep⟩
    exact hflags (by rw [hl.reply w hw hasleep, Bool.true_or])

end Lobby

namespace Shared

/-- The number of a reservation that a step of a guard gives back. -/
theorem mem_replies_of_owner {interval : Int64} {initialSeqNo : SeqNo} {s : Shared S R CAP}
    (h : Reaches Enabled next (new interval initialSeqNo) s) {place : Place} {g : ReplyGuard}
    (ho : ⟨place, g⟩ ∈ s.owners) : g.replyNo ∈ s.inner.seq.concurrentReplies := by
  obtain ⟨-, lost, hlost⟩ := reaches_exclusive h
  rw [s.ledger_of_mem ho] at hlost
  have hreserved : (s.inner.seq.concurrentReplies : Multiset SeqNo) =
      ((⟨place, g⟩ : Owner).guard.token ::ₘ s.others ⟨place, g⟩).map Prod.fst + lost := hlost
  rw [Multiset.map_cons, Multiset.cons_add] at hreserved
  have hmem : g.replyNo ∈ (s.inner.seq.concurrentReplies : Multiset SeqNo) := by
    rw [hreserved]
    exact Multiset.mem_cons_self _ _
  exact Multiset.mem_coe.mp hmem

/-- Whenever a sender sleeps unnotified on `wait_on_recv` although `try_send` would
succeed, some sender was notified and did not run yet. -/
def NoLostWakeUp (s : Shared S R CAP) : Prop :=
  s.inner.closed = false → 0 < s.lobby.sleepers .onRecv → s.inner.seq.Ready → s.lobby.Notified

/-- A sender goes on, or a guard gives back its reservation. -/
def handsOn (s : Shared S R CAP) : Op S R → Bool
  | .resume w _ _ => s.waiters[w]?.any fun v => !v.isPumper
  | .replyWith _ _ _ _ | .finishReply _ | .ack _ | .replyWithStayLocked _ _ _ _
  | .dropReplyGuard _ => true
  | _ => false

/-- A guard that gives back its reservation notifies `wait_on_reply`. -/
def tellsReply : Op S R → Bool
  | .replyWith _ _ _ _ | .finishReply _ | .dropReplyGuard _ => true
  | .ack g | .replyWithStayLocked g _ _ _ => !g.isHoldingLock
  | _ => false

/-- Whether `try_send` would succeed after the step, read off the state before. -/
def RoomAfter (s : Shared S R CAP) (op : Op S R) : Prop :=
  s.inner.seq.ReadyAfter? (s.innerCall? op)

/-- It is read off the state before the step. -/
instance decidableRoomAfter (s : Shared S R CAP) (op : Op S R) : Decidable (s.RoomAfter op) :=
  s.inner.seq.decidableReadyAfter? (s.innerCall? op)

/-- The step hands the wake-up on: when it leaves room for a packet while a sender
sleeps on `wait_on_recv`, another sender was notified already, or the step is one of
a guard and notifies a sender that sleeps on `wait_on_reply`. -/
def Attentive (s : Shared S R CAP) (a : ℕ × Op S R) : Prop :=
  s.Enabled a ∧ (s.inner.closed = false → s.handsOn a.2 = true → s.RoomAfter a.2 →
    0 < (s.called a.2).sleepers .onRecv →
      (s.called a.2).Notified ∨ tellsReply a.2 = true ∧ 0 < s.lobby.sleepers .onReply)

/-- So is the condition on the step. -/
instance decidableAttentive (s : Shared S R CAP) (a : ℕ × Op S R) : Decidable (s.Attentive a) :=
  inferInstanceAs (Decidable (_ ∧ (_ → _ → _ → _ → _)))

variable {s : Shared S R CAP}

/-- Only what is received or pumped notifies `wait_on_recv`. -/
theorem delivery?_eq_none_of_stirs (k : ℕ) {op : Op S R} (hop : s.stirs op ≠ .wakeRecv) :
    (s.perform k op).1.delivery? = none := by
  have hpump (r : PumpResult S R) (hr : r.stir ≠ .wakeRecv) :
      (Outcome.pumped r : Outcome S R).delivery? = none := by
    cases r with
    | returned ok =>
      cases ok with
      | none => rfl
      | some ok => exact absurd rfl hr
    | waits => rfl
  cases op with
  | tryReceive p =>
    rw [perform, (s.conclude_spec k (s.inner.tryReceive p) .received).2.1]
    simp only [stirs] at hop
    cases hr : (s.inner.tryReceive p).result with
    | ok o => simp [hr, stirOf] at hop
    | error e => rfl
  | tryPump =>
    rw [perform, (s.conclude_spec k s.inner.tryPump .tryPumped).2.1]
    simp only [stirs] at hop
    cases hr : s.inner.tryPump.result with
    | ok o => simp [hr, stirOf] at hop
    | error e => rfl
  | pump =>
    rw [perform, (s.conclude_spec k s.inner.pump .pumped).2.1]
    exact hpump _ hop
  | resume w t0 t =>
    simp only [perform]
    simp only [stirs] at hop
    cases hw : s.waiters[w]? with
    | none => rfl
    | some v =>
      rw [hw] at hop
      cases v with
      | sender on q n => rfl
      | pumper n => exact hpump _ hop
  | _ => rfl

omit [NeZero CAP] in
/-- The calls of a guard give back its own number. -/
theorem returns?_innerCall? {op : Op S R} {c : Call S R} (hc : s.innerCall? op = some c) {r : SeqNo}
    (hr : c.returns? = some r) :
    s.handsOn op = true ∧ (s.Possible op → ∃ place g, ⟨place, g⟩ ∈ s.owners ∧ g.replyNo = r) := by
  cases op with
  | replyWith g t b f | ack g | replyWithStayLocked g t b f | finishReply g | dropReplyGuard g =>
    simp only [innerCall?] at hc
    split at hc <;> cases hc
    cases hr
    exact ⟨rfl, fun h => ⟨_, g, h, rfl⟩⟩
  | resume w t0 t =>
    simp only [innerCall?] at hc
    split at hc
    · split at hc <;> cases hc
      cases hr
    · cases hc
      cases hr
    · cases hc
  | tryPump | dropSeqCstGuard | service t =>
    cases hc
    cases hr
  | toComponents g | fromComponents g | close => cases hc
  | _ =>
    simp only [innerCall?] at hc
    split at hc <;> cases hc
    all_goals cases hr

/-- A step that notifies nobody on `wait_on_recv` leaves the window as predicted. -/
theorem ready_after_iff {interval : Int64} {initialSeqNo : SeqNo}
    (h : Reaches Enabled next (new interval initialSeqNo) s) {op : Op S R} (hop : s.Possible op)
    (hstir : s.stirs op ≠ .wakeRecv) : (s.after op).Ready ↔ s.RoomAfter op := by
  have hnone := delivery?_eq_none_of_stirs 0 hstir
  rw [(s.perform_spec 0 op).2.1] at hnone
  unfold after RoomAfter
  cases hc : s.innerCall? op with
  | none => rfl
  | some c =>
    rw [hc, Option.bind_some] at hnone
    refine SeqEx.ready_call_iff hnone fun r hr => ?_
    obtain ⟨place, g, ho, rfl⟩ := (returns?_innerCall? hc hr).2 hop
    exact mem_replies_of_owner h ho

/-- Other steps make no room. -/
theorem ready_of_roomAfter {op : Op S R} (hop : s.handsOn op = false) (h : s.RoomAfter op) :
    s.inner.seq.Ready := by
  unfold RoomAfter at h
  cases hc : s.innerCall? op with
  | none =>
    rw [hc] at h
    exact h
  | some c =>
    rw [hc] at h
    have hnone : c.returns? = none := by
      cases hr : c.returns? with
      | none => rfl
      | some r =>
        rw [(returns?_innerCall? hc hr).1] at hop
        cases hop
    cases c with
    | trySend t b f => exact h.1
    | reply t r u b d => cases hnone
    | ack r u => cases hnone
    | _ => exact h

end Shared

namespace SeqExInner

/-- An iteration of `send` sleeps only when the window is full. -/
theorem sendLoop_stir (i : SeqExInner S R CAP) (t0 t : Int64) (q : SendRequest S) :
    (i.sendLoop t0 t q).result.stir = .rest ∨
      ¬ i.seq.Ready ∧ ∃ on q', (i.sendLoop t0 t q).result.stir = .enter on q' := by
  unfold sendLoop
  dsimp only
  cases hr : (i.seq.trySendDirectWith t q.seqCst q.f).1 with
  | ok o => exact .inl rfl
  | error e =>
    obtain ⟨e, f⟩ := e
    have hfull : ¬ i.seq.Ready := by
      intro hready
      unfold SeqEx.Ready at hready
      simp [SeqEx.trySendDirectWith, hready] at hr
    cases e with
    | waitingForRecv => exact .inr ⟨hfull, _, _, rfl⟩
    | waitingForReply => exact .inr ⟨hfull, _, _, rfl⟩

end SeqExInner

namespace Shared

variable {s : Shared S R CAP}

/-- How a step on an open instance can end, and what it has to do with handing on. -/
inductive Ending (s : Shared S R CAP) (op : Op S R) : Stir S → Prop where
  /-- Something was received or pumped. -/
  | wakeRecv (hhands : s.handsOn op = false) : Ending s op .wakeRecv
  /-- A sender goes to sleep, as nothing fits. -/
  | enter (on : Condition) (q : SendRequest S) (hroom : ¬ s.RoomAfter op) :
      Ending s op (.enter on q)
  /-- A guard notifies `wait_on_reply`. -/
  | wakeReply (hcalled : s.called op = s.lobby)
      (htells : s.handsOn op = true → tellsReply op = true) : Ending s op .wakeReply
  /-- Nobody is notified. -/
  | rest (htells : s.handsOn op = true → tellsReply op = false) : Ending s op .rest
  /-- A pumping thread goes to sleep. -/
  | enterPump (htells : s.handsOn op = true → tellsReply op = false) : Ending s op .enterPump

/-- A received packet wakes a sender or nobody. -/
theorem ending_stirOf {ε α : Type*} {op : Op S R} (hhands : s.handsOn op = false)
    (r : Except ε α) : Ending s op (stirOf r) := by
  cases r with
  | ok o => exact .wakeRecv hhands
  | error e => exact .rest fun h => absurd h (by simp [hhands])

/-- So does a pumped one. -/
theorem ending_pump {op : Op S R} (hhands : s.handsOn op = false) (r : PumpResult S R) :
    Ending s op r.stir := by
  cases r with
  | returned ok =>
    cases ok with
    | none => exact .rest fun h => absurd h (by simp [hhands])
    | some ok => exact .wakeRecv hhands
  | waits => exact .enterPump fun h => absurd h (by simp [hhands])

/-- The end of an iteration of `send`. -/
theorem ending_send {op : Op S R} {i : SeqExInner S R CAP} {t0 t : Int64} {q : SendRequest S}
    (hseq : i.seq = s.inner.seq) (hcall : s.innerCall? op = some (.trySend t q.seqCst q.f))
    (htells : s.handsOn op = true → tellsReply op = false) :
    Ending s op (i.sendLoop t0 t q).result.stir := by
  rcases i.sendLoop_stir t0 t q with hrest | ⟨hfull, on, q', henter⟩
  · rw [hrest]
    exact .rest htells
  · rw [henter]
    refine .enter on q' fun hroom => ?_
    rw [RoomAfter, hcall] at hroom
    rw [hseq] at hfull
    exact hfull hroom.1

/-- Every step on an open instance ends in one of these ways. -/
theorem stirs_ending (hopen : s.inner.closed = false) (op : Op S R) :
    Ending s op (s.stirs op) := by
  cases op with
  | tryReceive p => exact ending_stirOf rfl _
  | tryPump => exact ending_stirOf rfl _
  | pump => exact ending_pump rfl _
  | trySend t b f =>
    simp only [stirs, SeqExInner.trySend, hopen, Bool.false_eq_true, if_false]
    cases (s.inner.seq.trySendDirectWith t b f).1 with
    | ok o => exact .rest (by simp [handsOn])
    | error e => exact .rest (by simp [handsOn])
  | send t0 t b f timeout =>
    simp only [stirs, SeqExInner.send, hopen, Bool.false_eq_true, if_false]
    exact ending_send rfl (by simp [innerCall?, hopen]) (by simp [handsOn])
  | resume w t0 t =>
    simp only [stirs]
    cases hw : s.waiters[w]? with
    | none => exact .rest fun _ => rfl
    | some v =>
      cases v with
      | pumper n => exact ending_pump (by simp [handsOn, hw, Waiter.isPumper]) _
      | sender on q n =>
        cases htime : q.endTime.any (· ≤ t0) with
        | true =>
          simp only [SeqExInner.sendResume, htime, if_true]
          exact .rest fun _ => rfl
        | false =>
          have hcall : s.innerCall? (.resume w t0 t) = some (.trySend t q.seqCst q.f) := by
            simp [innerCall?, hw, htime, hopen]
          cases on
          all_goals
            simp only [SeqExInner.sendResume, htime, hopen, Bool.false_eq_true, if_false]
            exact ending_send rfl hcall fun _ => rfl
  | replyWith g t b f =>
    simp only [stirs, hopen, Bool.false_eq_true, if_false]
    exact .wakeReply rfl fun _ => rfl
  | ack g | replyWithStayLocked g t b f =>
    simp only [stirs]
    split
    · exact .rest fun _ => by simp [tellsReply, *]
    · exact .wakeReply rfl fun _ => by simp [tellsReply, *]
  | unlock g =>
    simp only [stirs]
    split
    · exact .wakeReply rfl (by simp [handsOn])
    · exact .rest (by simp [handsOn])
  | finishReply g | dropReplyGuard g => exact .wakeReply rfl fun _ => rfl
  | dropSeqCstGuard => exact .wakeReply rfl (by simp [handsOn])
  | close => exact .wakeRecv rfl
  | toComponents g | fromComponents g | service t | serviceScheduled t =>
    exact .rest (by simp [handsOn])

omit [NeZero CAP] in
/-- Unless a sender goes on, nobody who counts leaves the lobby. -/
theorem called_of_not_handsOn {op : Op S R} (hop : s.handsOn op = false) :
    (s.called op).sleepers .onRecv ≤ s.lobby.sleepers .onRecv ∧
      (s.lobby.Notified → (s.called op).Notified) := by
  cases op with
  | resume w t0 t =>
    refine ⟨s.lobby.sleepers_leave w .onRecv, fun h => ?_⟩
    obtain ⟨v, hv, hnotified⟩ := h
    refine ⟨v, ?_, hnotified⟩
    by_cases hw : w < s.waiters.length
    · have hmem := (List.getElem_cons_eraseIdx_perm hw).mem_iff.mpr hv
      rcases List.mem_cons.mp hmem with rfl | hmem
      · obtain ⟨on, q, heq⟩ := Waiter.isNotified_iff.mp hnotified
        rw [handsOn, List.getElem?_eq_getElem hw, heq] at hop
        cases hop
      · exact hmem
    · show v ∈ s.waiters.eraseIdx w
      rw [List.eraseIdx_of_length_le (not_lt.mp hw)]
      exact hv
  | _ => exact ⟨le_rfl, id⟩

/-- A step loses no wake-up exactly when it hands the wake-up on. -/
theorem noLostWakeUp_next_iff {interval : Int64} {initialSeqNo : SeqNo}
    (h : Reaches Enabled next (new interval initialSeqNo) s) (hs : s.NoLostWakeUp)
    {a : ℕ × Op S R} (ha : s.Enabled a) : (s.next a).NoLostWakeUp ↔ s.Attentive a := by
  obtain ⟨k, op⟩ := a
  have hclosed : (s.next (k, op)).inner.closed = (s.inner.closed || closes op) :=
    (s.perform_spec k op).2.2
  cases hopen : s.inner.closed with
  | true =>
    rw [hopen, Bool.true_or] at hclosed
    refine ⟨fun _ => ⟨ha, fun hnow => ?_⟩, fun _ hnow => ?_⟩
    · rw [hopen] at hnow
      cases hnow
    · rw [hclosed] at hnow
      cases hnow
  | false =>
    have hattended := s.reaches_attended h
    have hcalled : (s.called op).Attended := by
      cases op with
      | resume w t0 t => exact hattended.leave w
      | _ => exact hattended
    have hseq : (s.next (k, op)).inner.seq = s.after op := (s.perform_spec k op).1
    have hlobby : (s.next (k, op)).lobby = (s.called op).stir k (s.stirs op) :=
      s.perform_lobby k op
    have hclosing : s.stirs op ≠ .wakeRecv → closes op = false := by
      cases op with
      | close => exact fun hne => absurd rfl hne
      | _ => exact fun _ => rfl
    have hsleepers := hcalled.sleepers_stir k (s.stirs op)
    have hready := ready_after_iff h (show s.Possible op from ha)
    have hending := stirs_ending hopen op
    -- a step that hands nothing on keeps what held before
    have hkept (hhands : s.handsOn op = false) (hroom : s.RoomAfter op)
        (hsleeps : 0 < (s.called op).sleepers .onRecv) : (s.called op).Notified := by
      obtain ⟨hle, hnotified⟩ := called_of_not_handsOn hhands
      exact hnotified (hs hopen (by omega) (ready_of_roomAfter hhands hroom))
    -- a step that notifies no sender
    have hquiet (m : Stir S) (hne : m ≠ .wakeRecv)
        (hsame : ((s.called op).stir k m).sleepers .onRecv = (s.called op).sleepers .onRecv)
        (hnotified : ((s.called op).stir k m).Notified ↔ (s.called op).Notified)
        (hm : s.stirs op = m) (htells : s.handsOn op = true → tellsReply op = false) :
        (s.next (k, op)).NoLostWakeUp ↔ s.Attentive (k, op) := by
      rw [NoLostWakeUp, hlobby, hseq, hm, hsame, hnotified, hready (hm ▸ hne), hclosed, hopen,
        hclosing (hm ▸ hne)]
      constructor
      · intro hP
        exact ⟨ha, fun _ _ hroom hsleeps => .inl (hP rfl hsleeps hroom)⟩
      · intro hatt _ hsleeps hroom
        cases hhands : s.handsOn op with
        | false => exact hkept hhands hroom hsleeps
        | true =>
          refine (hatt.2 hopen hhands hroom hsleeps).resolve_right fun htold => ?_
          rw [htells hhands] at htold
          cases htold.1
    generalize hm : s.stirs op = m at hsleepers hending
    cases hending with
    | wakeRecv hhands =>
      rw [NoLostWakeUp, hlobby, hm]
      refine ⟨fun _ => ⟨ha, fun _ hhands' => ?_⟩, fun _ _ hsleeps _ => ?_⟩
      · rw [hhands] at hhands'
        cases hhands'
      · dsimp only at hsleepers
        exact hcalled.notified_wakeRecv k (by omega)
    | enter on q hroom =>
      rw [NoLostWakeUp, hseq, hready (by rw [hm]; simp)]
      exact ⟨fun _ => ⟨ha, fun _ _ hroom' => absurd hroom' hroom⟩,
        fun _ _ _ hroom' => absurd hroom' hroom⟩
    | rest htells => exact hquiet .rest (by simp) hsleepers Iff.rfl hm htells
    | enterPump htells =>
      refine hquiet .enterPump (by simp) hsleepers ?_ hm htells
      simp [Lobby.Notified, Lobby.stir, Waiter.isNotified, or_and_right, exists_or]
    | wakeReply hlobby' htells =>
      rw [NoLostWakeUp, hlobby, hseq, hm, hsleepers, hcalled.notified_wakeReply k,
        hready (by rw [hm]; simp), hclosed, hopen, hclosing (by rw [hm]; simp)]
      constructor
      · intro hP
        refine ⟨ha, fun _ hhands hroom hsleeps => ?_⟩
        rw [← hlobby']
        exact (hP rfl hsleeps hroom).imp_right fun hreply => ⟨htells hhands, hreply⟩
      · intro hatt _ hsleeps hroom
        cases hhands : s.handsOn op with
        | false => exact .inl (hkept hhands hroom hsleeps)
        | true =>
          rw [hlobby']
          have htold := hatt.2 hopen hhands hroom hsleeps
          rw [hlobby'] at htold
          exact htold.imp_right And.right

/-- All along a run no wake-up is lost if and only if every step of the run hands
the wake-up on. -/
theorem noLostWakeUp_iff_attentive (interval : Int64) (initialSeqNo : SeqNo)
    (l : List (ℕ × Op S R))
    (hl : Allowed Enabled next (new interval initialSeqNo : Shared S R CAP) l) :
    (∀ l', l' <+: l →
        (l'.foldl next (new interval initialSeqNo : Shared S R CAP)).NoLostWakeUp) ↔
      Allowed Attentive next (new interval initialSeqNo : Shared S R CAP) l :=
  forall_prefix_iff_allowed (I := Reaches Enabled next (new interval initialSeqNo))
    (P := NoLostWakeUp) (fun _ _ hu ha => hu.snoc ha)
    (fun _ _ hu hP ha => noLostWakeUp_next_iff hu hP ha) Reaches.refl nofun hl

/-- Two senders sleep and are woken one after the other, each for one packet. -/
def wokenInTurn : List (ℕ × Op ℕ ℕ) :=
  [(0, .trySend 0 true fun _ => 70), (0, .trySend 0 true fun _ => 71),
    (0, .trySend 0 true fun _ => 72), (0, .trySend 0 true fun _ => 73),
    (0, .send 0 0 true (fun _ => 74) none), (0, .send 0 0 true (fun _ => 75) (some 900)),
    (0, .tryReceive (.ack 0)), (0, .resume 0 10 10), (0, .tryReceive (.ack 1))]

/-- Senders that are woken one after the other all get room. -/
theorem noLostWakeUp_iff_attentive_wokenInTurn :
    (wokenInTurn.foldl next (new 100 0 : Shared ℕ ℕ 4)).NoLostWakeUp :=
  (noLostWakeUp_iff_attentive 100 0 wokenInTurn (by decide)).mpr (by decide) wokenInTurn
    List.prefix_rfl

/-- The acknowledgements come the other way round: the first one makes no room and
its notification is used up, the second one makes room for both senders. -/
def wokenTooEarly : List (ℕ × Op ℕ ℕ) :=
  [(0, .trySend 0 true fun _ => 70), (0, .trySend 0 true fun _ => 71),
    (0, .trySend 0 true fun _ => 72), (0, .trySend 0 true fun _ => 73),
    (0, .send 0 0 true (fun _ => 74) none), (0, .send 0 0 true (fun _ => 75) none),
    (0, .tryReceive (.ack 1)), (0, .resume 0 0 0), (0, .tryReceive (.ack 0)), (0, .resume 0 0 0)]

/-- One sender has sent, and the other sleeps on beside a free cell. -/
theorem second_cell_stays_free :
    ∃ s : Shared ℕ ℕ 4, Reaches Enabled next (new 100 0) s ∧ s.inner.seq.Ready ∧
      s.waiters.map Waiter.asleepOn? = [some .onRecv] ∧ ¬ s.NoLostWakeUp := by
  have hready : (wokenTooEarly.foldl next (new 100 0 : Shared ℕ ℕ 4)).inner.seq.Ready := by decide
  have hnobody : ¬ (wokenTooEarly.foldl next (new 100 0 : Shared ℕ ℕ 4)).lobby.Notified := by
    decide
  exact ⟨wokenTooEarly.foldl next (new 100 0), Allowed.reaches (l := wokenTooEarly) (by decide),
    hready, by decide, fun h => hnobody (h (by decide) (by decide) hready)⟩

end Shared

end Sync

end SequentialExchange
