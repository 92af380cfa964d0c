import SequentialExchange.Deadlines
import SequentialExchange.GuardLedger

/-!
# The schedule kept from the reported deadlines

Senders and repliers report the deadline when they lowered it, and
`service_scheduled` reports the new one. A caller who keeps the least of these
reports never wakes up too late: the kept time is at most the cached deadline,
which is at most every resend time.
-/

namespace SequentialExchange

open WrapNumbering GuardedRuns

/-- A pass never brings the deadline forward. -/
theorem SeqEx.service_raises {S R : Type*} {CAP : ℕ} [NeZero CAP] {s : SeqEx S R CAP} {t : Int64}
    (hs : s.Timely) (ht : t ≤ t + s.resendInterval) :
    s.nextServiceTimestamp ≤ (s.service t).2.2.nextServiceTimestamp := by
  by_cases hdue : s.nextServiceTimestamp ≤ t
  · rw [(service_of_due hdue).2]
    show s.nextServiceTimestamp ≤ (s.fullPass t).2.1
    obtain ⟨-, -, hleast⟩ := passFrom_least t s.resendInterval (CAP % 2 ^ 32)
      s.firstSeqNo Int64.maxValue s.sendWindow
    rcases hleast with hmax | ⟨i, e, -, he, hmin⟩
    · rw [fullPass, hmax]
      exact Int64.le_iff_toInt_le.mpr s.nextServiceTimestamp.toInt_le
    · rw [fullPass, hmin]
      exact Int64.le_trans (hs i e he) (SendEntry.le_rearm ht)
  · rw [(service_of_not_due hdue).2]
    exact Int64.le_refl _

namespace Sync

variable {S R : Type*} {CAP : ℕ}

/-- The lowered deadline that a call returns. -/
def Outcome.lowered? : Outcome S R → Option Int64
  | .sent (.sent v) | .replied v | .stayedLocked (_, v) => v
  | _ => none

/-- The deadline that `service_scheduled` returns. -/
def Outcome.renewed? : Outcome S R → Option Int64
  | .scheduled v => v
  | _ => none

/-- How the caller adjusts the time it keeps. -/
def Outcome.adjust (o : Outcome S R) (timestamp : Int64) : Int64 :=
  match o.renewed?, o.lowered? with
  | some v, _ => v
  | none, some v => min timestamp v
  | none, none => timestamp

/-- The time at which a step draws a number or resends. -/
def Op.time? : Op S R → Option Int64
  | .trySend t _ _ | .send _ t _ _ _ | .resume _ _ t | .replyWith _ t _ _
  | .replyWithStayLocked _ t _ _ | .service t | .serviceScheduled t => some t
  | _ => none

/-- A shared instance with the time that its caller keeps. -/
structure Scheduled (S R : Type*) (CAP : ℕ) where
  /-- The instance. -/
  shared : Shared S R CAP
  /-- When the caller will call `service_scheduled`. -/
  timestamp : Int64

variable [NeZero CAP]

namespace SeqExInner

omit [NeZero CAP] in
/-- Nothing is scheduled when the deadline stays. -/
theorem schedule_self (s : SeqEx S R CAP) : schedule s s = none :=
  if_neg Int64.lt_irrefl

/-- An iteration of `send` reports what its `try_send` lowered. -/
theorem sendLoop_lowered (i : SeqExInner S R CAP) (t0 t : Int64) (q : SendRequest S) :
    (Outcome.sent (i.sendLoop t0 t q).result : Outcome S R).lowered? =
      schedule i.seq (i.seq.call (.trySend t q.seqCst q.f)).2 := by
  have hrefused (e : TryError × (SeqNo → S))
      (h : (i.seq.trySendDirectWith t q.seqCst q.f).1 = .error e) :
      (i.seq.trySendDirectWith t q.seqCst q.f).2 = i.seq := by
    unfold SeqEx.trySendDirectWith at h ⊢
    split at h
    · rfl
    · cases h
  unfold sendLoop
  simp only [SeqEx.call]
  cases h : (i.seq.trySendDirectWith t q.seqCst q.f).1 with
  | ok o => rfl
  | error e =>
    rw [hrefused e h, schedule_self]
    obtain ⟨e, f⟩ := e
    cases e <;> rfl

/-- What `try_send` tells the service thread. -/
theorem trySend_lowered (i : SeqExInner S R CAP) (t : Int64) (b : Bool) (f : SeqNo → S) :
    (Outcome.sent (i.trySend t b f).result : Outcome S R).lowered? =
      if i.closed then none else schedule i.seq (i.seq.call (.trySend t b f)).2 := by
  unfold trySend
  cases i.closed with
  | true => rfl
  | false =>
    -- a `try_send` reports as an iteration of `send` does
    have hloop := i.sendLoop_lowered 0 t ⟨b, f, none⟩
    simp only [Bool.false_eq_true, if_false]
    rw [← hloop, sendLoop]
    dsimp only
    cases (i.seq.trySendDirectWith t b f).1 with
    | ok o => rfl
    | error e =>
      obtain ⟨e, f⟩ := e
      cases e <;> rfl

omit [NeZero CAP] in
/-- A closed instance tells nothing. -/
theorem closedResult_lowered (q : SendRequest S) :
    (Outcome.sent (closedResult q) : Outcome S R).lowered? = none := by
  unfold closedResult
  cases q.endTime <;> rfl

/-- The first section of `send` tells what `try_send` does. -/
theorem send_lowered (i : SeqExInner S R CAP) (t0 t : Int64) (b : Bool) (f : SeqNo → S)
    (timeout : Option Int64) :
    (Outcome.sent (i.send t0 t b f timeout).result : Outcome S R).lowered? =
      if i.closed then none else schedule i.seq (i.seq.call (.trySend t b f)).2 := by
  unfold send
  cases i.closed with
  | true => exact closedResult_lowered _
  | false => exact i.sendLoop_lowered t0 t _

/-- So does a woken sender that tries again. -/
theorem sendResume_lowered (i : SeqExInner S R CAP) (on : Condition) (t0 t : Int64)
    (q : SendRequest S) :
    (Outcome.sent (i.sendResume on t0 t q).result : Outcome S R).lowered? =
      if q.endTime.any (· ≤ t0) || i.closed then none
      else schedule i.seq (i.seq.call (.trySend t q.seqCst q.f)).2 := by
  unfold sendResume
  dsimp only
  cases q.endTime.any (· ≤ t0) with
  | true => rfl
  | false =>
    cases hclosed : i.closed with
    | true => cases on <;> simp [hclosed, closedResult_lowered]
    | false => cases on <;> simp [hclosed, sendLoop_lowered]

end SeqExInner

namespace Shared

variable (s : Shared S R CAP)

/-- The lowered deadline that a step has to report. -/
def lowering (op : Op S R) : Option Int64 :=
  match s.innerCall? op with
  | some c =>
    if c.drawsAt?.isSome then SeqExInner.schedule s.inner.seq (s.inner.seq.call c).2 else none
  | none => none

/-- The new deadline that a step has to report. -/
def renewal : Op S R → Option Int64
  | .serviceScheduled t =>
    if s.inner.closed then none else some (s.inner.seq.service t).2.2.nextServiceTimestamp
  | _ => none

/-- What every step reports. -/
theorem perform_reports (k : ℕ) (op : Op S R) :
    (s.perform k op).1.lowered? = s.lowering op ∧ (s.perform k op).1.renewed? = s.renewal op := by
  unfold lowering
  cases op with
  | tryReceive p =>
    obtain ⟨-, hout, -⟩ := s.conclude_spec k (s.inner.tryReceive p) .received
    simp only [perform, hout, innerCall?]
    cases s.inner.closed <;> exact ⟨rfl, rfl⟩
  | tryPump => exact ⟨rfl, rfl⟩
  | pump =>
    obtain ⟨-, hout, -⟩ := s.conclude_spec k s.inner.pump .pumped
    simp only [perform, hout, innerCall?]
    cases s.inner.replyReceiverWaiters <;> exact ⟨rfl, rfl⟩
  | trySend t b f =>
    obtain ⟨-, hout, -⟩ := s.conclude_spec k (s.inner.trySend t b f) .sent
    simp only [perform, hout, innerCall?, SeqExInner.trySend_lowered]
    cases s.inner.closed <;> exact ⟨rfl, rfl⟩
  | send t0 t b f timeout =>
    obtain ⟨-, hout, -⟩ := s.conclude_spec k (s.inner.send t0 t b f timeout) .sent
    simp only [perform, hout, innerCall?, SeqExInner.send_lowered]
    cases s.inner.closed <;> exact ⟨rfl, rfl⟩
  | resume w t0 t =>
    simp only [perform, innerCall?]
    cases s.waiters[w]? with
    | none => exact ⟨rfl, rfl⟩
    | some wt =>
      cases wt with
      | sender on q notified =>
        obtain ⟨-, hout, -⟩ := { s with waiters := s.waiters.eraseIdx w }.conclude_spec k
          (s.inner.sendResume on t0 t q) .sent
        simp only [hout, SeqExInner.sendResume_lowered]
        cases q.endTime.any (· ≤ t0) || s.inner.closed <;> exact ⟨rfl, rfl⟩
      | pumper notified => exact ⟨rfl, rfl⟩
  | replyWith g t b f =>
    simp only [perform, innerCall?, SeqExInner.replyWith]
    cases s.inner.closed with
    | true => exact ⟨rfl, rfl⟩
    | false => simp [Outcome.lowered?, Outcome.renewed?, renewal, Call.drawsAt?, SeqEx.call]
  | replyWithStayLocked g t b f =>
    simp only [perform, innerCall?, SeqExInner.replyWithStayLocked]
    cases s.inner.closed with
    | true => exact ⟨rfl, rfl⟩
    | false => exact ⟨rfl, rfl⟩
  | finishReply g | dropReplyGuard g =>
    simp only [perform, innerCall?]
    cases s.inner.closed <;> exact ⟨rfl, rfl⟩
  | ack g =>
    simp only [perform, innerCall?]
    cases s.inner.closed <;> exact ⟨rfl, rfl⟩
  | unlock g =>
    simp only [perform, innerCall?]
    cases g.isHoldingLock <;> exact ⟨rfl, rfl⟩
  | serviceScheduled t =>
    simp only [perform, innerCall?, SeqExInner.serviceScheduled, renewal]
    cases s.inner.closed <;> exact ⟨rfl, rfl⟩
  | _ => exact ⟨rfl, rfl⟩

end Shared

/-! ## The kept time -/

namespace SeqExInner

omit [NeZero CAP] in
/-- A deadline that is not lowered is not told. -/
theorem schedule_of_deadline_eq {s s' : SeqEx S R CAP}
    (h : s'.nextServiceTimestamp = s.nextServiceTimestamp) : schedule s s' = none := by
  rw [schedule, h]
  exact if_neg Int64.lt_irrefl

end SeqExInner

omit [NeZero CAP] in
/-- A reported deadline keeps the time early enough. -/
theorem Outcome.adjust_le {o : Outcome S R} {timestamp : Int64} {s s' : SeqEx S R CAP}
    (hrenewed : o.renewed? = none) (hlowered : o.lowered? = SeqExInner.schedule s s')
    (htimestamp : timestamp ≤ s.nextServiceTimestamp) :
    o.adjust timestamp ≤ s'.nextServiceTimestamp := by
  rw [adjust, hrenewed, hlowered, SeqExInner.schedule]
  split
  · rename_i v hv
    cases hv
  · rename_i v _ hv
    split at hv
    · cases hv
      exact (Std.le_min_iff.mp (Int64.le_refl _)).2
    · cases hv
  · rename_i _ hv
    split at hv
    · cases hv
    · rename_i hnot
      exact Int64.le_trans htimestamp (Int64.not_lt.mp hnot)

namespace Scheduled

/-- A new instance. -/
def new (retryInterval : Int64) (initialSeqNo : SeqNo) : Scheduled S R CAP :=
  ⟨Shared.new retryInterval initialSeqNo, Int64.maxValue⟩

/-- A step of a thread, with the report it makes. -/
def next (s : Scheduled S R CAP) (a : ℕ × Op S R) : Scheduled S R CAP :=
  let r := s.shared.perform a.1 a.2
  ⟨r.2, r.1.adjust s.timestamp⟩

/-- The step is possible and its time does not overflow. -/
def Timed (s : Scheduled S R CAP) (a : ℕ × Op S R) : Prop :=
  s.shared.Enabled a ∧ ∀ t ∈ a.2.time?, NoOverflow t s.shared.inner.seq.resendInterval

/-- The times and the thread are checked. -/
instance decidableTimed (s : Scheduled S R CAP) (a : ℕ × Op S R) : Decidable (s.Timed a) :=
  have : Decidable (∀ t ∈ a.2.time?, NoOverflow t s.shared.inner.seq.resendInterval) :=
    Option.decidableForallMem _
  inferInstanceAs (Decidable (_ ∧ _))

/-- The kept time is at most the cached deadline, which is at most every resend time. -/
def OnTime (s : Scheduled S R CAP) : Prop :=
  s.timestamp ≤ s.shared.inner.seq.nextServiceTimestamp ∧ s.shared.inner.seq.Timely

/-- What every step keeps. -/
structure Sound (s : Scheduled S R CAP) : Prop where
  interval : 0 ≤ s.shared.inner.seq.resendInterval
  onTime : s.OnTime

variable {s : Scheduled S R CAP} {a : ℕ × Op S R}

omit [NeZero CAP] in
/-- Only the two service operations resend. -/
theorem service_of_servesAt? {s : Shared S R CAP} {op : Op S R} {c : Call S R} {t : Int64}
    (hc : s.innerCall? op = some c) (ht : c.servesAt? = some t) :
    c = .service t ∧ (op = .service t ∨ op = .serviceScheduled t ∧ s.inner.closed = false) := by
  cases op with
  | service t' =>
    cases hc
    cases ht
    exact ⟨rfl, .inl rfl⟩
  | serviceScheduled t' =>
    simp only [Shared.innerCall?] at hc
    split at hc
    · cases hc
    · rename_i hclosed
      cases hc
      cases ht
      exact ⟨rfl, .inr ⟨rfl, eq_false_of_ne_true hclosed⟩⟩
  | tryPump | dropSeqCstGuard =>
    cases hc
    cases ht
  | toComponents g | fromComponents g | close => cases hc
  | resume w t0 t' =>
    simp only [Shared.innerCall?] at hc
    split at hc
    · split at hc <;> cases hc
      cases ht
    · cases hc
      cases ht
    · cases hc
  | _ =>
    simp only [Shared.innerCall?] at hc
    split at hc <;> cases hc
    all_goals cases ht

/-- A step that resends nothing. -/
theorem Sound.quiet (hs : s.Sound) (hrenewal : s.shared.renewal a.2 = none)
    (hserves : ∀ c ∈ s.shared.innerCall? a.2, c.servesAt? = none) : (s.next a).Sound := by
  obtain ⟨hinterval, htimestamp, htimely⟩ := hs
  obtain ⟨hlowered, hrenewed⟩ := s.shared.perform_reports a.1 a.2
  have hseq := (s.shared.perform_spec a.1 a.2).1
  rw [hrenewal] at hrenewed
  -- what is left to show once the change of the state machine is known
  have hnext (hlow : s.shared.lowering a.2 =
      SeqExInner.schedule s.shared.inner.seq (s.shared.after a.2))
      (hint : 0 ≤ (s.shared.after a.2).resendInterval) (htime : (s.shared.after a.2).Timely) :
      (s.next a).Sound := by
    have hadjust := Outcome.adjust_le hrenewed (hlowered.trans hlow) htimestamp
    rw [← hseq] at hadjust hint htime
    exact ⟨hint, hadjust, htime⟩
  unfold Shared.after Shared.lowering at hnext
  cases hcall : s.shared.innerCall? a.2 with
  | none =>
    rw [hcall] at hnext
    exact hnext (SeqExInner.schedule_of_deadline_eq rfl).symm hinterval htimely
  | some c =>
    rw [hcall] at hnext
    rcases s.shared.inner.seq.call_timing (hserves c hcall) with h | ⟨-, t, ht, h⟩
    · refine hnext ?_ (h.interval ▸ hinterval) (htimely.shrinks h)
      dsimp only
      rw [SeqExInner.schedule_of_deadline_eq h.deadline, ite_self]
    · refine hnext ?_ (h.interval ▸ hinterval) (htimely.draws h)
      dsimp only
      rw [Option.mem_def.mp ht]
      rfl

/-- A step that resends. -/
theorem Sound.serves (hC : ∃ e, CAP = 2 ^ e) (hcap : CAP < 2 ^ 32) (hs : s.Sound) {t : Int64}
    (ht : NoOverflow t s.shared.inner.seq.resendInterval)
    (hcall : s.shared.innerCall? a.2 = some (.service t))
    (hop : a.2 = .service t ∨ a.2 = .serviceScheduled t ∧ s.shared.inner.closed = false) :
    (s.next a).Sound := by
  obtain ⟨hinterval, htimestamp, htimely⟩ := hs
  have hle := ht.le hinterval
  obtain ⟨hrises, htimely'⟩ := SeqEx.serviceLoop_timely hC hcap
    ((SeqEx.lenU32 CAP).toNat + 1) hle htimely none nofun
  have hraises := SeqEx.service_raises htimely hle
  obtain ⟨hlowered, hrenewed⟩ := s.shared.perform_reports a.1 a.2
  have hseq := (s.shared.perform_spec a.1 a.2).1
  have hlow : s.shared.lowering a.2 = none := by
    rw [Shared.lowering, hcall]
    rfl
  rw [Shared.after, hcall] at hseq
  have hadjust : (s.shared.perform a.1 a.2).1.adjust s.timestamp ≤
      (s.shared.inner.seq.service t).2.2.nextServiceTimestamp := by
    rw [Outcome.adjust, hlowered, hlow, hrenewed]
    rcases hop with hop | ⟨hop, hclosed⟩
    · rw [hop]
      exact Int64.le_trans htimestamp hraises
    · rw [hop, Shared.renewal, hclosed]
      exact Int64.le_refl _
  refine ⟨?_, ?_, ?_⟩
  · show 0 ≤ (s.shared.perform a.1 a.2).2.inner.seq.resendInterval
    rw [hseq]
    exact hrises.interval ▸ hinterval
  · show _ ≤ (s.shared.perform a.1 a.2).2.inner.seq.nextServiceTimestamp
    rw [hseq]
    exact hadjust
  · show (s.shared.perform a.1 a.2).2.inner.seq.Timely
    rw [hseq]
    exact htimely'

/-- Every timed step keeps the schedule sound. -/
theorem Sound.next (hC : ∃ e, CAP = 2 ^ e) (hcap : CAP < 2 ^ 32) (hs : s.Sound)
    (ha : s.Timed a) : (s.next a).Sound := by
  by_cases hserves : ∃ t, s.shared.innerCall? a.2 = some (.service t) ∧
      (a.2 = .service t ∨ a.2 = .serviceScheduled t ∧ s.shared.inner.closed = false)
  · obtain ⟨t, hcall, hop⟩ := hserves
    refine hs.serves hC hcap (ha.2 t ?_) hcall hop
    rcases hop with hop | ⟨hop, -⟩ <;> rw [hop] <;> rfl
  · have hnone (c : Call S R) (hc : s.shared.innerCall? a.2 = some c) : c.servesAt? = none := by
      cases ht : c.servesAt? with
      | none => rfl
      | some t =>
        obtain ⟨rfl, hop⟩ := service_of_servesAt? hc ht
        exact absurd ⟨t, hc, hop⟩ hserves
    refine hs.quiet ?_ hnone
    obtain ⟨k, op⟩ := a
    cases op with
    | serviceScheduled t =>
      rw [Shared.renewal]
      split
      · rfl
      · rename_i hopen
        have hcall : s.shared.innerCall? (.serviceScheduled t) = some (.service t) :=
          if_neg hopen
        exact absurd ⟨t, hcall, .inr ⟨rfl, eq_false_of_ne_true hopen⟩⟩ hserves
    | _ => rfl

/-- The schedule is sound in every reachable state. -/
theorem reaches_sound (hC : ∃ e, CAP = 2 ^ e) (hcap : CAP < 2 ^ 32) {interval : Int64}
    (h0 : 0 ≤ interval) {initialSeqNo : SeqNo}
    (hrun : Reaches Timed next (new interval initialSeqNo : Scheduled S R CAP) s) : s.Sound :=
  hrun.invariant (I := Sound) ⟨h0, Int64.le_refl _, nofun⟩ fun _ _ _ hu ha => hu.next hC hcap ha

/-- The first packet is sent so that it is due at time zero, and is forgotten
by a pass at that time. -/
def passedOver (interval : Int64) (base : SeqNo) (d : S) : Scheduled S R CAP :=
  ((new interval base).next (0, .trySend (-interval) true fun _ => d)).next (0, .service 0)

/-- The service thread calls `service` of the state machine. -/
theorem service_seq (s : Scheduled S R CAP) (k : ℕ) (t : Int64) :
    (s.next (k, .service t)).shared.inner.seq = (s.shared.inner.seq.service t).2.2 :=
  (s.shared.perform_spec k (.service t)).1

/-- When the ring length is zero as a 32-bit word, the first pass is late. -/
theorem passedOver_spec (hCAP : 2 < CAP) (hmod : CAP % 2 ^ 32 = 0) {interval : Int64}
    (h0 : 0 ≤ interval) (base : SeqNo) (d : S) :
    Reaches Timed next (new interval base) (passedOver interval base d : Scheduled S R CAP) ∧
      ¬ (passedOver interval base d : Scheduled S R CAP).OnTime := by
  obtain ⟨-, hinterval, hdue, e, he, hzero⟩ :=
    Serviced.firstSent_spec (S := S) (R := R) hCAP h0 base d
  obtain ⟨hseq, -, -⟩ := (Shared.new interval base : Shared S R CAP).perform_spec 0
    (.trySend (-interval) true fun _ => d)
  -- `try_send` leaves the state machine as the call does
  have hsent : ((new interval base : Scheduled S R CAP).next
      (0, .trySend (-interval) true fun _ => d)).shared.inner.seq =
        (Serviced.firstSent interval base d : Serviced S R CAP).seqEx := hseq
  have hpassed : (passedOver interval base d : Scheduled S R CAP).shared.inner.seq =
      { (Serviced.firstSent interval base d : Serviced S R CAP).seqEx with
        nextServiceTimestamp := Int64.maxValue } := by
    rw [passedOver, service_seq, hsent]
    exact (Serviced.service_misses hmod hdue).2
  have hfirst : (new interval base : Scheduled S R CAP).Timed
      (0, .trySend (-interval) true fun _ => d) := by
    refine ⟨trivial, fun t ht => ?_⟩
    cases ht
    exact noOverflow_neg h0
  have hsecond : ((new interval base : Scheduled S R CAP).next
      (0, .trySend (-interval) true fun _ => d)).Timed (0, .service 0) := by
    refine ⟨trivial, fun t ht => ?_⟩
    cases ht
    exact noOverflow_zero _
  have hrun := (Reaches.single hfirst).snoc hsecond
  refine ⟨hrun, fun h => ?_⟩
  have htimely := h.2
  rw [hpassed] at htimely
  have hlate : Int64.maxValue ≤ e.nextResendTime := htimely (cell CAP base) e he
  rw [hzero] at hlate
  exact absurd hlate (by decide)

/-- The reports keep a caller on time in every run exactly for the capacities
below `2^32`. -/
theorem onTime_iff_small [Inhabited S] (hC : ∃ e ≥ 2, CAP = 2 ^ e) (interval : Int64)
    (h0 : 0 ≤ interval) (initialSeqNo : SeqNo) :
    (∀ s : Scheduled S R CAP, Reaches Timed next (new interval initialSeqNo) s → s.OnTime) ↔
      CAP < 2 ^ 32 := by
  have hpow : ∃ e, CAP = 2 ^ e := hC.imp fun _ h => h.2
  constructor
  · intro h
    by_contra hcap
    obtain ⟨hrun, hlate⟩ := passedOver_spec (R := R) (by omega : 2 < CAP)
      (mod_eq_zero_of_le hpow (not_lt.mp hcap)) h0 initialSeqNo (default : S)
    exact hlate (h _ hrun)
  · exact fun hcap s hrun => (reaches_sound hpow hcap h0 hrun).onTime

/-- Two threads sleep while the window is full; the deadline passes, one of them
is woken and reports that it lowered it again. -/
def wokenSender : List (ℕ × Op ℕ ℕ) :=
  [(0, .trySend 0 false fun _ => 70), (0, .send 1 1 false (fun _ => 71) none),
    (0, .trySend 2 true fun _ => 72), (0, .send 3 3 false (fun _ => 73) none),
    (0, .send 6 6 true (fun _ => 74) (some 900)), (0, .send 7 7 true (fun _ => 75) none),
    (0, .serviceScheduled 200), (0, .tryReceive (.ack 0)), (0, .service 150),
    (0, .resume 0 20 20), (0, .close), (0, .serviceScheduled 400)]

/-- A woken sender tells its deadline. -/
theorem onTime_iff_small_wokenSender :
    (wokenSender.foldl next (new 100 0 : Scheduled ℕ ℕ 4)).OnTime :=
  (onTime_iff_small ⟨2, le_rfl, rfl⟩ 100 (by decide) 0).mpr (by decide) _
    (Allowed.reaches (l := wokenSender) (by decide))

/-- With `2^32` cells a caller sleeps past the first packet. -/
theorem full_ring_sleeps_late :
    ∃ s : Scheduled ℕ ℕ (2 ^ 32), Reaches Timed next (new 100 0) s ∧ ¬ s.OnTime :=
  ⟨_, passedOver_spec (by decide) (by decide) (by decide) 0 70⟩

end Scheduled

end Sync

end SequentialExchange
