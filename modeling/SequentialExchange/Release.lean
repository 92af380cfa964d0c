import SequentialExchange.SyncWaiters

/-!
# Releasing the senders on close

`close` ends with a single `notify_one`. A sender that has the mutex back on a
closed instance returns at once, but nobody passes the notification on. So after
a run every sender was released exactly when each `close` found at most one of
them asleep; the packets and the order of the wake-ups do not matter.
-/

namespace SequentialExchange.Sync

open GuardedRuns

variable {S R : Type*} {CAP : ℕ} [NeZero CAP]

namespace SeqExInner

variable {i : SeqExInner S R CAP}

/-- On a closed instance no section of `send` goes to sleep. -/
theorem send_stir_of_closed (hclosed : i.closed = true) (t0 t : Int64) (b : Bool) (f : SeqNo → S)
    (timeout : Option Int64) : (i.send t0 t b f timeout).result.stir = .rest := by
  unfold send
  dsimp only
  rw [if_pos hclosed]
  exact (closedResult_stir (R := R) _).1

/-- A sender that wakes after the close returns its error. -/
theorem sendResume_of_closed (hclosed : i.closed = true) (on : Condition) (t0 t : Int64)
    (q : SendRequest S) :
    (i.sendResume on t0 t q).inner.seq = i.seq ∧
      (i.sendResume on t0 t q).result =
        if q.endTime.any (· ≤ t0) then
          .failed (match on with
            | .onRecv => .waitingForRecv
            | .onReply => .waitingForReply) q.f
        else closedResult q := by
  unfold sendResume
  cases on <;> cases q.endTime.any (· ≤ t0) <;> simp [hclosed]

end SeqExInner

namespace Shared

/-- The number of senders that sleep on `wait_on_recv` unnotified. -/
def sleepers (s : Shared S R CAP) : ℕ := s.lobby.sleepers .onRecv

/-- No sender is left behind on `wait_on_recv`: none of them sleeps unnotified, and
each one that resumes returns the error without sending. -/
structure Released (s : Shared S R CAP) : Prop where
  notified : ∀ w ∈ s.waiters, w.asleepOn? ≠ some .onRecv
  returns : ∀ w q n, s.waiters[w]? = some (.sender .onRecv q n) → ∀ k t0 t,
    (s.perform k (.resume w t0 t)).1 =
        .sent (if q.endTime.any (· ≤ t0) then .failed .waitingForRecv q.f
          else SeqExInner.closedResult q) ∧
      (s.perform k (.resume w t0 t)).2.inner.seq = s.inner.seq

/-- A `close` finds at most one sender asleep. -/
def FewSleepers (s : Shared S R CAP) (a : ℕ × Op S R) : Prop :=
  s.Enabled a ∧ (closes a.2 = true → s.sleepers ≤ 1)

/-- The number of sleepers is read off the state. -/
instance decidableFewSleepers (s : Shared S R CAP) (a : ℕ × Op S R) :
    Decidable (s.FewSleepers a) :=
  inferInstanceAs (Decidable (_ ∧ (_ → _)))

variable {s : Shared S R CAP}

/-- After the close everyone is released when no sender sleeps unnotified. -/
theorem released_iff (hclosed : s.inner.closed = true) : s.Released ↔ s.sleepers = 0 := by
  have hzero : s.sleepers = 0 ↔ ∀ w ∈ s.waiters, w.asleepOn? ≠ some .onRecv := by
    rw [sleepers, Lobby.sleepers, List.countP_eq_zero]
    refine forall₂_congr fun w _ => not_congr ?_
    rw [Waiter.isAsleepOn_iff, Waiter.asleepOn?_eq_onRecv]
  refine ⟨fun h => hzero.mpr h.notified, fun h => ⟨hzero.mp h, fun w q n hw k t0 t => ?_⟩⟩
  obtain ⟨hseq, hresult⟩ := SeqExInner.sendResume_of_closed hclosed .onRecv t0 t q
  obtain ⟨hinner, hout, -⟩ := { s with waiters := s.waiters.eraseIdx w }.conclude_spec k
    (s.inner.sendResume .onRecv t0 t q) .sent
  simp only [perform, hw]
  rw [hinner, hout, hseq, hresult]
  exact ⟨rfl, rfl⟩

/-- On a closed instance nobody goes to sleep on `wait_on_recv`. -/
theorem stirs_of_closed (hclosed : s.inner.closed = true) (op : Op S R) (q : SendRequest S) :
    s.stirs op ≠ .enter .onRecv q := by
  have hpump (r : PumpResult S R) : r.stir ≠ .enter .onRecv q := by
    cases r with
    | returned ok => cases ok <;> simp [PumpResult.stir]
    | waits => simp [PumpResult.stir]
  cases op with
  | tryReceive p =>
    simp only [stirs]
    cases (s.inner.tryReceive p).result <;> simp [stirOf]
  | tryPump =>
    simp only [stirs]
    cases s.inner.tryPump.result <;> simp [stirOf]
  | pump => exact hpump _
  | trySend t b f =>
    simp only [stirs, SeqExInner.trySend, if_pos hclosed]
    simp [SendResult.stir]
  | send t0 t b f timeout =>
    simp only [stirs, SeqExInner.send_stir_of_closed hclosed]
    simp
  | resume w t0 t =>
    simp only [stirs]
    cases s.waiters[w]? with
    | none => simp
    | some v =>
      cases v with
      | sender on q' n =>
        dsimp only
        rw [(SeqExInner.sendResume_of_closed hclosed on t0 t q').2]
        split
        · simp [SendResult.stir]
        · rw [(SeqExInner.closedResult_stir (R := R) q').1]
          simp
      | pumper n => exact hpump _
  | replyWith g t b f =>
    simp only [stirs]
    split <;> simp
  | ack g | unlock g | replyWithStayLocked g t b f =>
    simp only [stirs]
    split <;> simp
  | _ => simp [stirs]

/-- A step releases everybody exactly when it closes on few sleepers. -/
theorem released_next_iff (hs : s.lobby.Attended) (hreleased : s.inner.closed = true → s.Released)
    {a : ℕ × Op S R} (ha : s.Enabled a) :
    ((s.next a).inner.closed = true → (s.next a).Released) ↔ s.FewSleepers a := by
  obtain ⟨k, op⟩ := a
  have hclosed' : (s.next (k, op)).inner.closed = (s.inner.closed || closes op) :=
    (s.perform_spec k op).2.2
  cases hop : closes op with
  | true =>
    cases op with
    | close =>
      have hstep : (s.next (k, .close)).sleepers = s.sleepers - 1 := by
        rw [sleepers, next, perform_lobby]
        exact hs.sleepers_stir k .wakeRecv
      have hnow : (s.next (k, .close)).inner.closed = true := by rw [hclosed']; simp [closes]
      rw [released_iff hnow, hstep]
      refine ⟨fun h => ⟨ha, fun _ => ?_⟩, fun h _ => ?_⟩
      · have := h hnow
        omega
      · have := h.2 rfl
        omega
    | _ => cases hop
  | false =>
    rw [hop, Bool.or_false] at hclosed'
    refine ⟨fun _ => ⟨ha, fun h => absurd h (by simp [hop])⟩, fun _ hnow => ?_⟩
    rw [released_iff hnow]
    rw [hclosed'] at hnow
    have hnone : s.lobby.sleepers .onRecv = 0 := (released_iff hnow).mp (hreleased hnow)
    have hcalled : (s.called op).Attended ∧ (s.called op).sleepers .onRecv = 0 := by
      cases op with
      | resume w t0 t =>
        have hle := s.lobby.sleepers_leave w .onRecv
        exact ⟨hs.leave w, by simp only [called]; omega⟩
      | _ => exact ⟨hs, hnone⟩
    rw [sleepers, next, perform_lobby, hcalled.1.sleepers_stir]
    have hstir := stirs_of_closed hnow op
    split
    · exact absurd ‹_› (hstir _)
    · rw [hcalled.2]
    · exact hcalled.2

/-- All along a run every sender is released after `close` if and only if each
`close` of the run found at most one sender asleep. -/
theorem released_iff_fewSleepers (interval : Int64) (initialSeqNo : SeqNo) (l : List (ℕ × Op S R))
    (hl : Allowed Enabled next (new interval initialSeqNo : Shared S R CAP) l) :
    (∀ l', l' <+: l → (l'.foldl next (new interval initialSeqNo : Shared S R CAP)).inner.closed =
        true → (l'.foldl next (new interval initialSeqNo : Shared S R CAP)).Released) ↔
      Allowed FewSleepers next (new interval initialSeqNo : Shared S R CAP) l := by
  refine forall_prefix_iff_allowed (I := Reaches Enabled next (new interval initialSeqNo))
    (P := fun s => s.inner.closed = true → s.Released) (fun u a hu ha => hu.snoc ha)
    (fun u a hu hP ha => released_next_iff (u.reaches_attended hu) hP ha) Reaches.refl nofun hl

/-- The window is filled and one sender sleeps, is released and returns. -/
def oneBlocked : List (ℕ × Op ℕ ℕ) :=
  [(0, .trySend 0 true fun _ => 70), (0, .trySend 0 true fun _ => 71),
    (0, .trySend 0 true fun _ => 72), (0, .trySend 0 true fun _ => 73),
    (0, .send 0 0 true (fun _ => 74) none), (0, .close)]

/-- One blocked sender is woken by the close. -/
theorem released_iff_fewSleepers_oneBlocked :
    (oneBlocked.foldl next (new 100 0 : Shared ℕ ℕ 4)).Released :=
  (released_iff_fewSleepers 100 0 oneBlocked (by decide)).mpr (by decide) oneBlocked
    List.prefix_rfl (by decide)

/-- The same with two sleeping senders. -/
def twoBlocked : List (ℕ × Op ℕ ℕ) :=
  [(0, .trySend 0 true fun _ => 70), (0, .trySend 0 true fun _ => 71),
    (0, .trySend 0 true fun _ => 72), (0, .trySend 0 true fun _ => 73),
    (0, .send 0 0 true (fun _ => 74) none), (0, .send 0 0 true (fun _ => 75) none), (0, .close),
    (0, .resume 0 0 0)]

/-- The first sender has returned, and the second one sleeps on. -/
theorem second_sender_sleeps_on :
    ∃ s : Shared ℕ ℕ 4, Reaches Enabled next (new 100 0) s ∧ s.inner.closed = true ∧
      s.waiters.map Waiter.asleepOn? = [some .onRecv] ∧ ¬ s.Released := by
  have hsleeps : (twoBlocked.foldl next (new 100 0 : Shared ℕ ℕ 4)).waiters.map
      Waiter.asleepOn? = [some .onRecv] := by decide
  refine ⟨twoBlocked.foldl next (new 100 0), Allowed.reaches (l := twoBlocked) (by decide),
    by decide, hsleeps, fun h => ?_⟩
  have hmem : some Condition.onRecv ∈ (twoBlocked.foldl next (new 100 0 : Shared ℕ ℕ 4)).waiters.map
      Waiter.asleepOn? := by
    rw [hsleeps]
    exact List.mem_singleton_self _
  obtain ⟨w, hw, heq⟩ := List.mem_map.mp hmem
  exact h.notified w hw heq

end Shared

end SequentialExchange.Sync
