import SequentialExchange.Emptying
import SequentialExchange.MutualExclusion

/-!
# Emptying a closed instance

When no guard is left, a closed instance should be pumped until the next gap or a
full send window. That takes guards which give back what they had. They do, except
those that are consumed after `close`: they leave their reservation, and a dropped
one its lock, behind for good. So the window can be emptied exactly when the run
before consumed no guard after `close`, and the packets that are stored can be
handed over although the loop itself drops their guards on a closed instance.
-/

namespace SequentialExchange.Sync

open WrapNumbering GuardedRuns ReservationLedger SeqExInner

variable {S R : Type*} {CAP : ℕ} [NeZero CAP]

/-- The lock section of `try_pump` returns what the state machine returns. -/
theorem tryPump_result (i : SeqExInner S R CAP) : i.tryPump.result = i.seq.tryPumpRaw.1 := by
  unfold SeqExInner.tryPump
  dsimp only
  split
  · rename_i o ho
    exact ho.symm
  · rename_i e he
    exact he.symm

/-- The loop of `pump` sleeps only when a guard is in the way. -/
theorem pumpLoop_waits_iff (i : SeqExInner S R CAP) :
    i.pumpLoop.result = .waits ↔ i.seq.tryPumpRaw.1 = .error .waitingForReply := by
  unfold SeqExInner.pumpLoop
  dsimp only
  split
  · rename_i o ho
    rw [ho]
    simp [SeqExInner.notifyRecv]
  · rename_i he
    rw [he]
    simp
  · rename_i he
    exact ⟨fun _ => he, fun _ => rfl⟩

/-- The receive window can be emptied: nothing is held or reserved, no pump waits for a
guard, and a thread that pumps, drops the guard and pumps again gets every consecutive
packet stored, up to the first gap or a full send window. A thread that sleeps in `pump`
is woken up first. -/
structure Emptiable (i : SeqExInner S R CAP) : Prop where
  unlocked : i.seq.isLocked = false
  noReplies : i.seq.concurrentReplies = []
  tryPump_ne : i.tryPump.result ≠ .error .waitingForReply
  pump_ne : i.pump.result ≠ .waits ∧ i.pumpResume.result ≠ .waits
  drains : ∀ blocking, { i with replyReceiverWaiters := false }.Drains blocking

/-- With the lock free and nothing reserved no pump waits for a guard. -/
theorem pump_of_settled {i : SeqExInner S R CAP} (hCAP : 2 < CAP) (hlock : i.seq.isLocked = false)
    (hreplies : i.seq.concurrentReplies = []) :
    i.tryPump.result ≠ .error .waitingForReply ∧ i.pump.result ≠ .waits ∧
      i.pumpResume.result ≠ .waits := by
  have hraw : ∀ res, SeqEx.Pumped i.seq res → res.1 ≠ .error .waitingForReply := by
    intro res hres
    cases hres with
    | nothing _ => simp
    | full n r b d e hcell hfull =>
      rw [SeqEx.isFullInner_of_nil hCAP hreplies] at hfull
      split at hfull <;> cases hfull
      simp
    | locked n r d _ _ hlocked => simp [hlock] at hlocked
    | next n r b d _ _ _ => simp
  have hne := hraw _ i.seq.tryPumpRaw_cases
  have hloop (j : SeqExInner S R CAP) (hj : j.seq = i.seq) : j.pumpLoop.result ≠ .waits := by
    rw [← hj] at hne
    intro hwaits
    rw [pumpLoop_waits_iff] at hwaits
    exact hne hwaits
  refine ⟨?_, ?_, hloop _ rfl⟩
  · rwa [tryPump_result]
  · unfold SeqExInner.pump
    split
    · simp
    · exact hloop i rfl

namespace Shared

omit [NeZero CAP] in
/-- Every guard that was handed out is gone. -/
def AllConsumed (s : Shared S R CAP) : Prop := s.owners = [] ∧ s.seqCstGuards = 0

/-- A possible step that consumes no guard on a closed instance. -/
def InTime (s : Shared S R CAP) (a : ℕ × Op S R) : Prop := s.Enabled a ∧ ¬ s.Leaks a.2

/-- Whether a step is in time is read off the state. -/
instance decidableInTime (s : Shared S R CAP) (a : ℕ × Op S R) : Decidable (s.InTime a) :=
  inferInstanceAs (Decidable (_ ∧ _))

/-- Nothing is lost in a run exactly when every guard is consumed in time. -/
theorem run_lost (l : List (ℕ × Op S R)) {s : Shared S R CAP} {lost : Multiset SeqNo}
    (hlost : s.ledger.Lost lost) (hl : Allowed Enabled next s l) :
    ∃ lost', (l.foldl next s).ledger.Lost lost' ∧
      (lost' = 0 ↔ lost = 0 ∧ Allowed InTime next s l) := by
  induction l generalizing s lost with
  | nil => exact ⟨lost, hlost, by simp [Allowed]⟩
  | cons a l ih =>
    obtain ⟨hen, hl⟩ := hl
    by_cases hleak : s.Leaks a.2
    · obtain ⟨n, hn⟩ := (s.perform_leak (k := a.1) hen hleak).loses_one hlost
      obtain ⟨lost', hlost', hiff⟩ := ih hn hl
      refine ⟨lost', hlost', ?_⟩
      simp [hiff, Allowed, InTime, hleak]
    · have hsame := (s.perform_turn (k := a.1) hlost hen hleak).loses_nothing hlost
      obtain ⟨lost', hlost', hiff⟩ := ih hsame hl
      refine ⟨lost', hlost', ?_⟩
      rw [hiff, Allowed]
      simp only [InTime, hen, hleak, not_false_eq_true, and_self, true_and]
      rfl

/-- As long as guards are consumed in time the lock has a holder. -/
theorem run_accounted (l : List (ℕ × Op S R)) {s : Shared S R CAP}
    (hlost : s.ledger.Lost 0) (hs : s.ledger.Accounted) (hl : Allowed InTime next s l) :
    (l.foldl next s).ledger.Accounted := by
  induction l generalizing s with
  | nil => exact hs
  | cons a l ih =>
    obtain ⟨⟨hen, hleak⟩, hl⟩ := hl
    have hturn := s.perform_turn (k := a.1) hlost hen hleak
    exact ih (hturn.loses_nothing hlost) (hturn.accounted hs) hl

/-- The receive window of a shared endpoint is that of an endpoint that made calls. -/
theorem reaches_window (hC : ∃ e, CAP = 2 ^ e) (htwo : 2 ≤ CAP) {interval : Int64}
    {initialSeqNo : SeqNo} {s : Shared S R CAP}
    (h : Reaches Enabled next (new interval initialSeqNo) s) :
    s.inner.seq.Fits ∧ ∃ cursor early, ReceiveView initialSeqNo s.inner.seq cursor early := by
  refine h.invariant (I := fun s => s.inner.seq.Fits ∧
    ∃ cursor early, ReceiveView initialSeqNo s.inner.seq cursor early)
    ⟨SeqEx.Fits.start _ _, 0, ∅, ReceiveView.start _ _⟩ ?_
  rintro u ⟨k, op⟩ - ⟨hfits, cursor, early, hview⟩ -
  rw [next, (u.perform_spec k op).1, after]
  cases u.innerCall? op with
  | none => exact ⟨hfits, cursor, early, hview⟩
  | some c => exact ⟨hfits.call hC htwo c, hview.call hC c⟩

/-- After any run that closed the instance and left no guard behind, the window can be
emptied if and only if the run consumed no guard on a closed instance and the queue of
stored packets needs none of its own guards back. -/
theorem emptiable_iff_clearable (hC : ∃ e ≥ 2, CAP = 2 ^ e) (interval : Int64)
    (initialSeqNo : SeqNo) (l : List (ℕ × Op S R))
    (hl : Allowed Enabled next (new interval initialSeqNo : Shared S R CAP) l)
    (hclosed : (l.foldl next (new interval initialSeqNo : Shared S R CAP)).inner.closed = true)
    (hgone : (l.foldl next (new interval initialSeqNo : Shared S R CAP)).AllConsumed) :
    Emptiable (l.foldl next (new interval initialSeqNo : Shared S R CAP)).inner ↔
      Allowed InTime next (new interval initialSeqNo : Shared S R CAP) l ∧
        (l.foldl next (new interval initialSeqNo : Shared S R CAP)).inner.seq.Clearable := by
  have hpow : ∃ e, CAP = 2 ^ e := hC.imp fun _ h => h.2
  have hfour : 4 ≤ CAP := by
    obtain ⟨e, he, rfl⟩ := hC
    exact le_trans (show 4 ≤ 2 ^ 2 by decide) (Nat.pow_le_pow_right (by decide) he)
  have hstart : (new interval initialSeqNo : Shared S R CAP).ledger.Lost 0 := by
    simp [ledger_new, Ledger.Lost]
  obtain ⟨lost, hlost, hiff⟩ := run_lost l hstart hl
  obtain ⟨hfits, hview⟩ := reaches_window hpow (by omega) hl.reaches
  obtain ⟨howners, hkeys⟩ := hgone
  have hreserved : (l.foldl next (new interval initialSeqNo : Shared S R CAP)).ledger.reserved =
      lost := by
    simpa [Ledger.Lost, ledger, howners] using hlost
  have hdrains (blocking : Bool) := drains_iff hpow (by omega) blocking
    (i := { (l.foldl next (new interval initialSeqNo : Shared S R CAP)).inner with
      replyReceiverWaiters := false }) ⟨hclosed, rfl⟩ hfits hview
  simp only [ledger] at hreserved
  constructor
  · intro h
    rw [h.noReplies] at hreserved
    exact ⟨(hiff.mp hreserved.symm).2,
      (hdrains true h.noReplies h.unlocked).mp (h.drains true)⟩
  · rintro ⟨h, hclear⟩
    have hnone : lost = 0 := hiff.mpr ⟨rfl, h⟩
    have hreplies : (l.foldl next
        (new interval initialSeqNo : Shared S R CAP)).inner.seq.concurrentReplies = [] := by
      simpa [hnone] using hreserved
    have hunlocked : (l.foldl next
        (new interval initialSeqNo : Shared S R CAP)).inner.seq.isLocked = false := by
      refine eq_false_of_ne_true fun hlocked => ?_
      have hpos := run_accounted l hstart (by simp [ledger_new, Ledger.Accounted]) h hlocked
      simp [holders_ledger, tokens, howners, hkeys] at hpos
    obtain ⟨htry, hpump⟩ := pump_of_settled (by omega) hunlocked hreplies
    exact ⟨hunlocked, hreplies, htry, hpump, fun blocking =>
      (hdrains blocking hreplies hunlocked).mpr hclear⟩

/-- One packet is processed before `close`, two more arrive and wait. -/
def consumedBefore : List (ℕ × Op ℕ ℕ) :=
  [(0, .tryReceive (.seqCstPayload 0 80)), (0, .tryReceive (.seqCstPayload 1 81)),
    (0, .tryReceive (.seqCstPayload 2 82)), (0, .dropReplyGuard ⟨0, true⟩), (0, .tryPump),
    (0, .ack ⟨1, true⟩), (0, .dropSeqCstGuard), (0, .close)]

/-- Guards that were consumed before the close leave a window that can be emptied. -/
theorem emptiable_consumedBefore :
    Emptiable (consumedBefore.foldl next (new 100 0 : Shared ℕ ℕ 4)).inner :=
  (emptiable_iff_clearable ⟨2, by decide, rfl⟩ 100 0 consumedBefore (by decide) (by decide)
    ⟨by decide, by decide⟩).mpr ⟨by decide, by decide⟩

/-- A SeqCst packet is processed, the next one waits, and the guard of the first
is dropped after `close`. -/
def droppedAfter : List (ℕ × Op ℕ ℕ) :=
  [(0, .tryReceive (.seqCstPayload 0 80)), (0, .tryReceive (.seqCstPayload 1 81)), (0, .close),
    (0, .dropReplyGuard ⟨0, true⟩)]

/-- No guard is left, yet the lock and the reply number 0 are taken for ever and
the next SeqCst packet cannot be pumped. -/
theorem drop_after_close_leaks :
    Allowed Enabled next (new 100 0 : Shared ℕ ℕ 4) droppedAfter ∧
      (droppedAfter.foldl next (new 100 0 : Shared ℕ ℕ 4)).AllConsumed ∧
      (droppedAfter.foldl next (new 100 0 : Shared ℕ ℕ 4)).inner.closed = true ∧
      (droppedAfter.foldl next (new 100 0 : Shared ℕ ℕ 4)).inner.seq.isLocked = true ∧
      (droppedAfter.foldl next (new 100 0 : Shared ℕ ℕ 4)).inner.seq.concurrentReplies = [0] ∧
      ¬ Emptiable (droppedAfter.foldl next (new 100 0 : Shared ℕ ℕ 4)).inner :=
  ⟨by decide, ⟨by decide, by decide⟩, by decide, by decide, by decide,
    fun h => absurd h.unlocked (by decide)⟩

/-- Two SeqCst packets are stored behind one whose guard is dropped before `close`. -/
def storedBehind : List (ℕ × Op ℕ ℕ) :=
  [(0, .tryReceive (.seqCstPayload 0 80)), (0, .tryReceive (.seqCstPayload 1 81)),
    (0, .tryReceive (.seqCstPayload 2 82)), (0, .dropReplyGuard ⟨0, true⟩), (0, .close)]

/-- Nothing is left reserved, but the loop gets one of the two packets and then waits for
the lock that its own guard took. -/
theorem drain_leaks :
    Allowed InTime next (new 100 0 : Shared ℕ ℕ 4) storedBehind ∧
      (storedBehind.foldl next (new 100 0 : Shared ℕ ℕ 4)).AllConsumed ∧
      ((storedBehind.foldl next (new 100 0 : Shared ℕ ℕ 4)).inner.drain true 5).map
        (fun r => (r.1, r.2.1)) = some ([.payload 1 true 81], true) :=
  ⟨by decide, ⟨by decide, by decide⟩, by decide⟩

end Shared

end SequentialExchange.Sync
