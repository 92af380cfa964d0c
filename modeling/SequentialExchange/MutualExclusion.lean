import SequentialExchange.GuardLedger

/-!
# The critical section of SeqCst packets

However threads interleave, at most one guard holds the SeqCst lock. While one
does, the state machine is locked and no SeqCst packet is returned. The debug
assertions on the lock hold in every step. The packets are arbitrary.
-/

namespace SequentialExchange

open GuardedRuns ReservationLedger

/-- Whether a SeqCst packet is returned. -/
def RecvOkRaw.isSeqCst {D E : Type*} : RecvOkRaw D E → Bool
  | .payload _ c _ | .reply _ c _ _ => c
  | .ack _ => false

variable {S R : Type*} {CAP : ℕ} [NeZero CAP]

/-- The debug assertions on `is_locked` that a call evaluates: no double lock on
delivery, no double unlock when a reservation is given back. -/
def SeqEx.LockAsserts (s : SeqEx S R CAP) (c : Call S R) : Prop :=
  match c with
  | .receive _ | .pump =>
    ∀ ok ∈ (s.call c).1.delivery?, ok.isSeqCst = true → s.isLocked = false
  | .reply _ n unlock _ _ | .ack n unlock =>
    n ∈ s.concurrentReplies → unlock = true → s.isLocked = true
  | _ => True

/-- A SeqCst packet is handed over only when the lock is free. -/
theorem SeqEx.isLocked_of_delivery (s : SeqEx S R CAP) (c : Call S R) :
    ∀ ok ∈ (s.call c).1.delivery?, ok.isSeqCst = true → s.isLocked = false := by
  intro ok hok hcst
  have hgives : Sync.givesBack c = false := by
    cases c with
    | reply t n u b d => simp [call, Answer.delivery?] at hok
    | ack n u => simp [call, Answer.delivery?] at hok
    | unlock => simp [call, Answer.delivery?] at hok
    | _ => rfl
  have hguard : Sync.guardOf? (s.call c).1 = Sync.ReplyGuard.ofRaw? ok := by
    rw [Sync.guardOf?, Option.mem_def.mp hok, Option.bind_some]
  rcases Sync.call_issues s hgives with ⟨g, hg, -, -, hfree⟩ | ⟨hnone, -, -⟩
  · apply hfree
    rw [hguard] at hg
    cases ok <;> cases hg
    all_goals exact hcst
  · rw [hguard] at hnone
    cases ok with
    | ack d => cases hcst
    | payload n b d => cases hnone
    | reply n b d e => cases hnone

namespace Sync

namespace Shared

omit [NeZero CAP] in
/-- The tokens of the critical section: the guards or components that hold the
lock and the `SeqCstGuard`s. -/
def tokens (s : Shared S R CAP) : ℕ :=
  s.owners.countP (fun o => o.guard.isHoldingLock) + s.seqCstGuards

omit [NeZero CAP] in
/-- They are the holders of the ledger. -/
theorem holders_ledger (s : Shared S R CAP) : s.ledger.holders = s.tokens :=
  congrArg (· + s.seqCstGuards) (Ledger.sum_locks (fun o : Owner => o.guard.token) s.owners)

omit [NeZero CAP] in
/-- A guard that holds the lock is a token. -/
theorem tokens_pos {s : Shared S R CAP} {o : Owner} (ho : o ∈ s.owners)
    (hlock : o.guard.isHoldingLock = true) : 0 < s.tokens := by
  have hcount : 0 < s.owners.countP (fun o => o.guard.isHoldingLock) :=
    List.countP_pos_iff.mpr ⟨o, ho, hlock⟩
  rw [tokens]
  omega

omit [NeZero CAP] in
/-- There are no guards at first. -/
theorem ledger_new (interval : Int64) (initialSeqNo : SeqNo) :
    (new interval initialSeqNo : Shared S R CAP).ledger = ⟨0, 0, 0, false⟩ := rfl

/-- In every run the guards use the lock exclusively, and every reservation
belongs to a guard or is lost. -/
theorem reaches_exclusive {interval : Int64} {initialSeqNo : SeqNo} {s : Shared S R CAP}
    (h : Reaches Enabled next (new interval initialSeqNo) s) :
    s.ledger.Exclusive ∧ ∃ lost, s.ledger.Lost lost := by
  refine h.invariant (I := fun s => s.ledger.Exclusive ∧ ∃ lost, s.ledger.Lost lost) ?_ ?_
  · rw [ledger_new]
    exact ⟨⟨by simp [Ledger.holders], by simp [Ledger.holders]⟩, 0, by simp [Ledger.Lost]⟩
  · rintro u ⟨k, op⟩ - ⟨hex, lost, hlost⟩ hen
    by_cases hleak : u.Leaks op
    · have hl := u.perform_leak (k := k) hen hleak
      exact ⟨hl.exclusive hex, (hl.loses_one hlost).imp' (· ::ₘ lost) fun _ h => h⟩
    · have ht := u.perform_turn (k := k) hlost hen hleak
      exact ⟨ht.exclusive hex, lost, ht.loses_nothing hlost⟩

/-- Mutual exclusion: in every reached state at most one token exists, it means
that the state machine is locked and that no step returns a SeqCst packet, and
no step breaks a debug assertion on the lock. -/
theorem seqCst_mutualExclusion (interval : Int64) (initialSeqNo : SeqNo) {s : Shared S R CAP}
    (h : Reaches Enabled next (new interval initialSeqNo) s) :
    s.tokens ≤ 1 ∧ (0 < s.tokens → s.inner.seq.isLocked = true) ∧
      ∀ a, s.Enabled a →
        (0 < s.tokens → ∀ ok ∈ (s.perform a.1 a.2).1.delivery?, ok.isSeqCst = false) ∧
          ∀ c ∈ s.innerCall? a.2, s.inner.seq.LockAsserts c := by
  obtain ⟨⟨hle, hlocked⟩, -⟩ := reaches_exclusive h
  rw [holders_ledger] at hle hlocked
  refine ⟨hle, hlocked, fun a hen => ⟨fun hpos ok hok => ?_, fun c hc => ?_⟩⟩
  · rw [(s.perform_spec a.1 a.2).2.1] at hok
    obtain ⟨c, -, hok⟩ := Option.bind_eq_some_iff.mp hok
    refine eq_false_of_ne_true fun hcst => ?_
    have hfree := s.inner.seq.isLocked_of_delivery c ok hok hcst
    have htaken : s.inner.seq.isLocked = true := hlocked hpos
    simp [hfree] at htaken
  · have hguard {place : Place} {g : ReplyGuard} (ho : ⟨place, g⟩ ∈ s.owners)
        (hlock : g.isHoldingLock = true) : s.inner.seq.isLocked = true :=
      hlocked (tokens_pos ho hlock)
    obtain ⟨k, op⟩ := a
    cases op with
    | tryReceive p =>
      simp only [innerCall?] at hc
      split at hc <;> cases hc
      exact s.inner.seq.isLocked_of_delivery _
    | tryPump =>
      cases hc
      exact s.inner.seq.isLocked_of_delivery _
    | pump =>
      simp only [innerCall?] at hc
      split at hc <;> cases hc
      exact s.inner.seq.isLocked_of_delivery _
    | resume w t0 t =>
      simp only [innerCall?] at hc
      split at hc
      · split at hc <;> cases hc
        trivial
      · cases hc
        exact s.inner.seq.isLocked_of_delivery _
      · cases hc
    | replyWith g t b f =>
      simp only [innerCall?] at hc
      split at hc <;> cases hc
      exact fun _ hlock => hguard hen hlock
    | finishReply g | dropReplyGuard g =>
      simp only [innerCall?] at hc
      split at hc <;> cases hc
      exact fun _ hlock => hguard hen hlock
    | ack g =>
      simp only [innerCall?] at hc
      split at hc <;> cases hc
      exact fun _ hlock => absurd hlock Bool.false_ne_true
    | replyWithStayLocked g t b f =>
      simp only [innerCall?] at hc
      split at hc <;> cases hc
      exact fun _ hlock => absurd hlock Bool.false_ne_true
    | trySend t b f | send t0 t b f timeout | unlock g | serviceScheduled t =>
      simp only [innerCall?] at hc
      split at hc <;> cases hc
      trivial
    | dropSeqCstGuard | service t =>
      cases hc
      trivial
    | toComponents g | fromComponents g | close => cases hc

/-- A SeqCst packet is received and acknowledged with the lock kept, and the next
one arrives. -/
def lockKept : List (ℕ × Op ℕ ℕ) :=
  [(0, .tryReceive (.seqCstPayload 0 80)), (0, .ack ⟨0, true⟩),
    (0, .tryReceive (.seqCstPayload 1 81))]

/-- The lock of an acknowledged packet has one holder. -/
theorem seqCst_mutualExclusion_lockKept :
    (lockKept.foldl next (new 100 0) : Shared ℕ ℕ 4).tokens = 1 ∧
      (lockKept.foldl next (new 100 0) : Shared ℕ ℕ 4).inner.seq.isLocked = true :=
  ⟨by decide, (seqCst_mutualExclusion 100 0 (Allowed.reaches (l := lockKept) (by decide))).2.1
    (by decide)⟩

end Shared

end Sync

end SequentialExchange
