import SequentialExchange.EndpointSteps
import SequentialExchange.SyncSections

/-!
# How long a send with a timeout waits

The loop of `send_timeout` fixes its end time once and hands the time that is
left to `wait_timeout`. After a wait it stops when the end time has come, so from
then on some time is left whenever it waits again. Before the first wait nothing
is compared: when the timeout is negative, the time that is left is negative too,
and the cast to `u64` makes it larger than any timeout.
-/

namespace SequentialExchange.Sync

variable {S R : Type*} {CAP : ℕ} [NeZero CAP]

/-- A waiting sender has the mutex back: the state it finds, the reading it takes,
and the reading of its next `try_send`. The loop does not look at the cause. -/
structure WakeUp (S R : Type*) (CAP : ℕ) where
  /-- What the mutex protects by now. -/
  inner : SeqExInner S R CAP
  /-- `start_time`. -/
  startTime : Int64
  /-- The time at which `try_send` is called. -/
  currentTime : Int64

/-- The sections of a send after one that ended with `result`, each with the latest
reading of the loop. -/
def wakeUps : SendResult S → List (WakeUp S R CAP) → List (Int64 × SendResult S)
  | .waits on _ request, w :: ws =>
    let r := (w.inner.sendResume on w.startTime w.currentTime request).result
    (w.startTime, r) :: wakeUps r ws
  | _, _ => []

/-- A send that failed wakes no more. -/
@[simp] theorem wakeUps_failed (e : TrySendError) (f : SeqNo → S) (ws : List (WakeUp S R CAP)) :
    wakeUps (.failed e f) ws = [] := by
  cases ws <;> rfl

/-- Nor does one that succeeded. -/
@[simp] theorem wakeUps_sent (nst : Option Int64) (ws : List (WakeUp S R CAP)) :
    wakeUps (.sent nst) ws = [] := by
  cases ws <;> rfl

/-- `send_with_timeout` up to some wake-up, section by section. -/
def SeqExInner.sendTimeout (i : SeqExInner S R CAP) (startTime currentTime : Int64) (seqCst : Bool)
    (timeout : Int64) (f : SeqNo → S) (ws : List (WakeUp S R CAP)) :
    List (Int64 × SendResult S) :=
  let r := (i.send startTime currentTime seqCst f (some timeout)).result
  (startTime, r) :: wakeUps r ws

/-- A wait is for no longer than what is left, a timeout is reported when nothing is
left, and the closure is kept or handed back. -/
def InTime (endTime : Int64) (f : SeqNo → S) (now : Int64) : SendResult S → Prop
  | .sent _ => True
  | .closedError => False
  | .failed e g => g = f ∧ (e ≠ .closed → endTime ≤ now)
  | .waits _ duration request => request.f = f ∧ ∃ d ∈ duration,
    -2 ^ 63 ≤ endTime.toInt - now.toInt ∧ endTime.toInt - now.toInt < 2 ^ 63 ∧
      (d.toNat : ℤ) ≤ max 0 (endTime.toInt - now.toInt)

/-- All sections of a send are in time. -/
def SentInTime (endTime : Int64) (f : SeqNo → S) (l : List (Int64 × SendResult S)) : Prop :=
  ∀ x ∈ l, InTime endTime f x.1 x.2

/-! ## The arithmetic of the time that is left -/

/-- The sum is cut off at the bounds of the type. -/
theorem saturatingAdd_toInt (a b : Int64) :
    (saturatingAdd a b).toInt = max (-2 ^ 63) (min (2 ^ 63 - 1) (a.toInt + b.toInt)) := by
  rw [saturatingAdd, Int64.toInt_ofInt_of_le (by omega) (by omega)]

/-- The end time is not before the start when the timeout is not negative, or when
the start is as early as can be. -/
theorem le_saturatingAdd_iff (a b : Int64) :
    a ≤ saturatingAdd a b ↔ 0 ≤ b ∨ a = Int64.minValue := by
  have ha := a.le_toInt
  have ha' := a.toInt_lt
  have hb' := b.toInt_lt
  have hmin : Int64.minValue.toInt = -2 ^ 63 := rfl
  rw [Int64.le_iff_toInt_le, Int64.le_iff_toInt_le, ← Int64.toInt_inj, saturatingAdd_toInt, hmin,
    Int64.toInt_zero]
  omega

/-- The difference of two times, where it is no overflow. -/
theorem toNat_sub_toUInt64 {a b : Int64} (hlow : -2 ^ 63 ≤ a.toInt - b.toInt)
    (hhigh : a.toInt - b.toInt < 2 ^ 63) :
    ((a - b).toUInt64.toNat : ℤ) = (a.toInt - b.toInt) % 2 ^ 64 := by
  have hsub : (a - b).toInt = a.toInt - b.toInt := by
    rw [Int64.toInt_sub]
    exact Int.bmod_eq_of_le (by omega) (by omega)
  have hcast := BitVec.toInt_eq_toNat_cond (a - b).toBitVec
  have hlt : (a - b).toBitVec.toNat < 2 ^ 64 := (a - b).toBitVec.isLt
  rw [Int64.toInt_toBitVec, hsub, Int64.toNat_toBitVec] at hcast
  rw [Int64.toNat_toBitVec] at hlt
  split at hcast
  all_goals omega

/-! ## One section -/

/-- What a passage through the loop comes to. -/
theorem SeqExInner.sendLoop_result (i : SeqExInner S R CAP) (startTime currentTime : Int64)
    (request : SendRequest S) :
    (i.seq.isFullInner none = .ok () ∧
      ∃ nst, (i.sendLoop startTime currentTime request).result = .sent nst) ∨
    (i.seq.isFullInner none ≠ .ok () ∧
      ∃ on, (i.sendLoop startTime currentTime request).result =
        .waits on (request.endTime.map fun endTime => (endTime - startTime).toUInt64) request) := by
  simp only [sendLoop, SeqEx.trySendDirectWith]
  cases i.seq.isFullInner none with
  | ok u => exact .inl ⟨rfl, _, rfl⟩
  | error e =>
    cases e with
    | waitingForRecv => exact .inr ⟨by simp, .onRecv, rfl⟩
    | waitingForReply => exact .inr ⟨by simp, .onReply, rfl⟩

/-- After a wait the end time is looked at first. -/
theorem SeqExInner.sendResume_result (i : SeqExInner S R CAP) (on : Condition)
    (startTime currentTime : Int64) {request : SendRequest S} {endTime : Int64}
    (hend : request.endTime = some endTime) :
    (endTime ≤ startTime ∧ ∃ e,
      (i.sendResume on startTime currentTime request).result = .failed e request.f) ∨
    (startTime < endTime ∧
      ((i.sendResume on startTime currentTime request).result = .failed .closed request.f ∨
      (∃ nst, (i.sendResume on startTime currentTime request).result = .sent nst) ∨
      ∃ on', (i.sendResume on startTime currentTime request).result =
        .waits on' (some (endTime - startTime).toUInt64) request)) := by
  obtain ⟨i', e, heq⟩ : ∃ i' e, i.sendResume on startTime currentTime request =
      if request.endTime.any (· ≤ startTime) then ⟨.failed e request.f, i', .nobody⟩
      else if i'.closed then ⟨closedResult request, i', .nobody⟩
      else i'.sendLoop startTime currentTime request := by
    cases on
    · exact ⟨_, _, rfl⟩
    · exact ⟨_, _, rfl⟩
  simp only [heq, hend, Option.any_some, decide_eq_true_eq]
  by_cases hle : endTime ≤ startTime
  · rw [if_pos hle]
    exact .inl ⟨hle, _, rfl⟩
  · rw [if_neg hle]
    refine .inr ⟨Int64.not_le.mp hle, ?_⟩
    cases hclosed : i'.closed with
    | true => exact .inl (by simp [closedResult, hend])
    | false =>
      rcases i'.sendLoop_result startTime currentTime request with ⟨-, nst, h⟩ | ⟨-, on', h⟩
      · exact .inr (.inl ⟨nst, h⟩)
      · rw [hend, Option.map_some] at h
        exact .inr (.inr ⟨on', h⟩)

/-- A wait before the end time is in time. -/
theorem inTime_of_le {startTime endTime now : Int64} {on : Condition} {request : SendRequest S}
    (hstart : startTime ≤ now) (hnow : now ≤ endTime)
    (hspan : endTime.toInt - startTime.toInt < 2 ^ 63) :
    InTime endTime request.f now
      (.waits on (some (endTime - now).toUInt64) request) := by
  rw [Int64.le_iff_toInt_le] at hstart hnow
  have hcast := toNat_sub_toUInt64 (a := endTime) (b := now) (by omega) (by omega)
  refine ⟨rfl, _, rfl, by omega, by omega, ?_⟩
  rw [hcast]
  omega

/-- A wait after the end time is far too long. -/
theorem not_inTime_of_lt {endTime now : Int64} {on : Condition} {request : SendRequest S}
    {f : SeqNo → S} (hnow : endTime < now) :
    ¬ InTime endTime f now (.waits on (some (endTime - now).toUInt64) request) := by
  rw [Int64.lt_iff_toInt_lt] at hnow
  intro h
  obtain ⟨-, d, hd, hlow, hhigh, hle⟩ := h
  cases hd
  rw [toNat_sub_toUInt64 hlow hhigh] at hle
  omega

/-! ## The whole loop -/

/-- After a wait the loop goes on only while time is left, so it stays in time. -/
theorem wakeUps_inTime {startTime endTime : Int64} {f : SeqNo → S}
    (hspan : endTime.toInt - startTime.toInt < 2 ^ 63) {ws : List (WakeUp S R CAP)}
    (hmono : ∀ w ∈ ws, startTime ≤ w.startTime) {on : Condition} {duration : Option UInt64}
    {request : SendRequest S} (hend : request.endTime = some endTime) (hf : request.f = f) :
    SentInTime endTime f (wakeUps (.waits on duration request) ws) := by
  induction ws generalizing on duration with
  | nil => nofun
  | cons w ws ih =>
    have hstart : startTime ≤ w.startTime := hmono w (List.mem_cons_self ..)
    have hrest (on' : Condition) (duration' : Option UInt64) :
        SentInTime endTime f (wakeUps (.waits on' duration' request) ws) :=
      ih fun v hv => hmono v (List.mem_cons_of_mem w hv)
    intro x hx
    rw [wakeUps] at hx
    rcases w.inner.sendResume_result on w.startTime w.currentTime hend with
      ⟨hle, e, h⟩ | ⟨hlt, h | ⟨nst, h⟩ | ⟨on', h⟩⟩ <;>
      rw [h] at hx
    · rw [wakeUps_failed, List.mem_singleton] at hx
      rw [hx]
      exact ⟨hf, fun _ => hle⟩
    · rw [wakeUps_failed, List.mem_singleton] at hx
      rw [hx]
      exact ⟨hf, fun h => absurd rfl h⟩
    · rw [wakeUps_sent, List.mem_singleton] at hx
      rw [hx]
      exact trivial
    · rcases List.mem_cons.mp hx with rfl | hx
      · rw [← hf]
        exact inTime_of_le hstart (Int64.le_of_lt hlt) hspan
      · exact hrest on' _ x hx

/-- With readings that do not decrease, every wait is in time, a timeout is reported
at the end time only, and every error hands the closure back, exactly when the
loop never waits, or the timeout is not negative, or the first reading is the
least one there is. -/
theorem sendTimeout_inTime_iff (i : SeqExInner S R CAP) (startTime currentTime : Int64)
    (seqCst : Bool) (timeout : Int64) (f : SeqNo → S) (ws : List (WakeUp S R CAP))
    (hmono : (startTime :: ws.map WakeUp.startTime).Pairwise (· ≤ ·)) :
    SentInTime (saturatingAdd startTime timeout) f
      (i.sendTimeout startTime currentTime seqCst timeout f ws) ↔
    i.closed = true ∨ i.seq.isFullInner none = .ok () ∨ 0 ≤ timeout ∨
      startTime = Int64.minValue := by
  rw [← le_saturatingAdd_iff]
  have hfirst : (i.send startTime currentTime seqCst f (some timeout)).result =
      if i.closed then .failed .closed f
      else (i.sendLoop startTime currentTime
        ⟨seqCst, f, some (saturatingAdd startTime timeout)⟩).result := by
    simp only [SeqExInner.send, Option.map_some]
    cases i.closed <;> rfl
  simp only [SeqExInner.sendTimeout, hfirst]
  cases hclosed : i.closed with
  | true =>
    refine ⟨fun _ => .inl rfl, fun _ x hx => ?_⟩
    rw [if_pos rfl, wakeUps_failed, List.mem_singleton] at hx
    rw [hx]
    exact ⟨rfl, fun h => absurd rfl h⟩
  | false =>
    simp only [Bool.false_eq_true, if_false, false_or]
    rcases i.sendLoop_result startTime currentTime
        ⟨seqCst, f, some (saturatingAdd startTime timeout)⟩ with ⟨hok, nst, h⟩ | ⟨hfull, on, h⟩
    · rw [h]
      refine ⟨fun _ => .inl hok, fun _ x hx => ?_⟩
      rw [wakeUps_sent, List.mem_singleton] at hx
      rw [hx]
      exact trivial
    · rw [h]
      constructor
      · intro hall
        refine .inr ?_
        by_contra hlt
        exact not_inTime_of_lt (Int64.not_le.mp hlt) (hall _ (List.mem_cons_self ..))
      · intro hcond
        have hle := hcond.resolve_left hfull
        have hspan : (saturatingAdd startTime timeout).toInt - startTime.toInt < 2 ^ 63 := by
          have := (le_saturatingAdd_iff startTime timeout).mp hle
          have hlow := startTime.le_toInt
          have htimeout := timeout.toInt_lt
          rw [saturatingAdd_toInt]
          omega
        intro x hx
        rcases List.mem_cons.mp hx with rfl | hx
        · exact inTime_of_le (Int64.le_refl _) hle hspan
        · refine wakeUps_inTime hspan (fun w hw => ?_) rfl rfl x hx
          exact List.rel_of_pairwise_cons hmono (List.mem_map_of_mem hw)

/-- Four packets are sent and none is acknowledged, which fills a window of four cells. -/
def fullWindow : SeqExInner ℕ ℕ CAP :=
  [70, 71, 72, 73].foldl (fun i d => (i.trySend 0 false fun _ => d).inner) (.new 100 0)

/-- The sender is woken twice before its time, and then by the timeout. -/
def threeWakeUps : List (WakeUp ℕ ℕ CAP) :=
  [⟨fullWindow, 110, 111⟩, ⟨fullWindow, 130, 130⟩, ⟨fullWindow, 151, 151⟩]

/-- The sender returns in time after three wake-ups. -/
theorem sendTimeout_inTime_iff_threeWakeUps :
    SentInTime (saturatingAdd 100 50) (fun _ => 74)
      ((fullWindow : SeqExInner ℕ ℕ 4).sendTimeout 100 101 false 50 (fun _ => 74) threeWakeUps) :=
  (sendTimeout_inTime_iff fullWindow 100 101 false 50 _ threeWakeUps (by decide)).mpr
    (.inr (.inr (.inl (by decide))))

/-- A timeout of minus one millisecond is a wait of `2^64 - 1` milliseconds. -/
theorem negative_timeout_waits :
    ((fullWindow : SeqExInner ℕ ℕ 4).send 100 100 false (fun _ => 74) (some (-1))).result =
        .waits .onRecv (some 18446744073709551615) ⟨false, fun _ => 74, some 99⟩ ∧
      ¬ SentInTime (saturatingAdd 100 (-1)) (fun _ => 74)
        ((fullWindow : SeqExInner ℕ ℕ 4).sendTimeout 100 100 false (-1) (fun _ => 74) []) :=
  ⟨rfl, fun h => not_inTime_of_lt (by decide) (h _ (List.mem_cons_self ..))⟩

end SequentialExchange.Sync
