import SequentialExchange.CallTiming
import SequentialExchange.GuardedRuns

/-!
# The cached deadline is never late

`next_service_timestamp` caches the least resend time of the send window. A
service pass can be left and resumed at any point, and several can be under way:
each live iterator has met a lower bound of every entry that it does not have
ahead of it. That is kept by every call, except that a draw which brings the
numbers all the way round to an iterator takes everything it has ahead away.
-/

namespace SequentialExchange

open WrapNumbering GuardedRuns

variable {S R : Type*} {CAP : ℕ}

namespace SeqEx

/-- No entry is due before the deadline. -/
def Timely (s : SeqEx S R CAP) : Prop :=
  ∀ i e, s.sendWindow i = some e → s.nextServiceTimestamp ≤ e.nextResendTime

/-- A call that takes packets out makes nobody late. -/
theorem Timely.shrinks {s s' : SeqEx S R CAP} (hs : s.Timely) (h : s.Shrinks s') : s'.Timely :=
  fun i e he => h.deadline ▸ hs i e (h.window i e he)

/-- Times that rise stay above the deadline. -/
theorem Timely.rises {s s' : SeqEx S R CAP} (hs : s.Timely) (h : s.Rises s')
    (hdeadline : s'.nextServiceTimestamp = s.nextServiceTimestamp) : s'.Timely := fun i e' he' => by
  obtain ⟨e, he, -, hle⟩ := h.window i e' he'
  rw [hdeadline]
  exact Int64.le_trans (hs i e he) hle

variable [NeZero CAP] {s s' : SeqEx S R CAP} {t : Int64} {it : ServiceIter}

/-- A new packet lowers the deadline to its own time. -/
theorem Timely.draws (hs : s.Timely) (h : s.Draws t s') : s'.Timely := fun i e he => by
  rw [h.deadline]
  have hmin := Std.le_min_iff.mp (Int64.le_refl (min s.nextServiceTimestamp (t + s.resendInterval)))
  by_cases hi : i = cell CAP s.nextSendSeqNo
  · subst hi
    obtain ⟨e', he', -, htime⟩ := h.drawn
    rw [he'] at he
    cases he
    rw [htime]
    exact hmin.2
  · rw [h.others i hi] at he
    exact Int64.le_trans hmin.1 (hs i e he)

/-- The iterator has met a lower bound of every entry that is not ahead of it. -/
def Covers (s : SeqEx S R CAP) (it : ServiceIter) : Prop :=
  ∀ i e, s.sendWindow i = some e → it.nextTime ≤ e.nextResendTime ∨
    Visits CAP (s.nextSendSeqNo - it.seqNo).toNat it.seqNo i

/-- An iterator covers what is left of the window. -/
theorem Covers.shrinks (hs : s.Covers it) (h : s.Shrinks s') : s'.Covers it := fun i e he => by
  rw [h.nextSend]
  exact hs i e (h.window i e he)

/-- An iterator covers times that have risen. -/
theorem Covers.rises (hs : s.Covers it) (h : s.Rises s') : s'.Covers it := fun i e' he' => by
  obtain ⟨e, he, -, hle⟩ := h.window i e' he'
  rw [h.nextSend]
  exact (hs i e he).imp_left fun hnext => Int64.le_trans hnext hle

/-- The distance to the next number grows with a draw, unless that number is
the one the iterator stands at. -/
theorem sub_succ_toNat {a b : SeqNo} (h : b ≠ a + 1) :
    (a + 1 - b).toNat = (a - b).toNat + 1 := by
  have ha := a.toNat_lt
  have hb := b.toNat_lt
  have hne : b.toNat ≠ (a + 1).toNat := fun heq => h (UInt32.toNat_inj.mp heq)
  rw [UInt32.toNat_add, UInt32.toNat_one] at hne
  rw [UInt32.toNat_sub, UInt32.toNat_sub, UInt32.toNat_add, UInt32.toNat_one]
  omega

/-- The distance between two numbers leads from one to the other. -/
theorem number_sub_toNat (a b : SeqNo) : number b (a - b).toNat = a := by
  rw [number, UInt32.ofNat_toNat, add_sub_cancel]

/-- A new entry is ahead of every iterator that is not lapped by its number. -/
theorem Covers.draws (hs : s.Covers it) (h : s.Draws t s') (hlap : it.seqNo ≠ s.nextSendSeqNo + 1) :
    s'.Covers it := fun i e he => by
  have hdist : (s'.nextSendSeqNo - it.seqNo).toNat = (s.nextSendSeqNo - it.seqNo).toNat + 1 := by
    rw [h.nextSend, sub_succ_toNat hlap]
  rw [hdist]
  by_cases hi : i = cell CAP s.nextSendSeqNo
  · exact .inr ⟨_, Nat.lt_succ_self _, by rw [number_sub_toNat, hi]⟩
  · rw [h.others i hi] at he
    refine (hs i e he).imp_right fun hvisits => ?_
    obtain ⟨j, hj, hcell⟩ := hvisits
    exact ⟨j, Nat.lt_succ_of_lt hj, hcell⟩

/-- A fresh iterator has the whole ring ahead of it. -/
theorem covers_fresh (hC : ∃ e, CAP = 2 ^ e) (hcap : CAP < 2 ^ 32) (s : SeqEx S R CAP) (m : Int64) :
    s.Covers ⟨s.firstSeqNo, m⟩ := fun i _ _ => by
  rw [s.sub_firstSeqNo]
  exact .inr (visits_all hC hcap s.firstSeqNo i)

/-! ## Service steps -/

omit [NeZero CAP] in
/-- Arming one due entry again. -/
theorem rises_of_rearm {i : Fin CAP} {e : SendEntry S} (ht : t ≤ t + s.resendInterval)
    (he : s.sendWindow i = some e) (hdue : e.nextResendTime ≤ t)
    (hnext : s'.nextSendSeqNo = s.nextSendSeqNo) (hinterval : s'.resendInterval = s.resendInterval)
    (hwindow : s'.sendWindow =
      Function.update s.sendWindow i (some { e with nextResendTime := t + s.resendInterval })) :
    s.Rises s' where
  nextSend := hnext
  interval := hinterval
  window j e' he' := by
    rw [hwindow] at he'
    by_cases hj : j = i
    · subst hj
      rw [Function.update_self] at he'
      cases he'
      exact ⟨e, he, rfl, Int64.le_trans hdue ht⟩
    · rw [Function.update_of_ne hj] at he'
      exact ⟨e', he', rfl, Int64.le_refl _⟩

/-- What one scan leaves: resend times got later, the iterator still covers the
window, and a changed deadline is timely. -/
structure Scans (s : SeqEx S R CAP) (it : ServiceIter) (s' : SeqEx S R CAP) : Prop where
  rises : s.Rises s'
  covers : s'.Covers it
  deadline : s'.nextServiceTimestamp = s.nextServiceTimestamp ∨ s'.Timely

/-- The scan visits every cell from the iterator to the next number. -/
theorem serviceScan_scans (ht : t ≤ t + s.resendInterval) (n : ℕ) (it : ServiceIter)
    (hn : (s.nextSendSeqNo - it.seqNo).toNat = n) (hs : s.Covers it) :
    s.Scans (serviceScan t n it s).2.1 (serviceScan t n it s).2.2 := by
  induction n generalizing it with
  | zero =>
    -- nothing is ahead, so the iterator has met a lower bound of everything
    have hbound (i : Fin CAP) (e : SendEntry S) (he : s.sendWindow i = some e) :
        it.nextTime ≤ e.nextResendTime := by
      refine (hs i e he).resolve_right fun hvisits => ?_
      obtain ⟨j, hj, -⟩ := hvisits
      rw [hn] at hj
      exact Nat.not_lt_zero j hj
    exact ⟨⟨rfl, rfl, fun i e he => ⟨e, he, rfl, Int64.le_refl _⟩⟩, hs, .inr hbound⟩
  | succ n ih =>
    have hn' := sub_add_one_toNat hn
    -- what is ahead of the next number, and what is met at this one
    have hnext (m : Int64) (w : Fin CAP → Option (SendEntry S))
        (hm : m ≤ it.nextTime) (hcell : ∀ e, w (cell CAP it.seqNo) = some e → m ≤ e.nextResendTime)
        (hw : ∀ i, i ≠ cell CAP it.seqNo → w i = s.sendWindow i) :
        Covers { s with sendWindow := w } ⟨it.seqNo + 1, m⟩ := fun i e he => by
      dsimp only at he ⊢
      rw [hn']
      by_cases hi : i = cell CAP it.seqNo
      · subst hi
        exact .inl (hcell e he)
      · rw [hw i hi] at he
        refine (hs i e he).imp (Int64.le_trans hm) fun hvisits => ?_
        rw [hn] at hvisits
        exact (visits_succ.mp hvisits).resolve_left fun h => hi h.symm
    unfold serviceScan
    dsimp only
    cases he : s.sendWindow (cell CAP it.seqNo) with
    | none =>
      refine ih ⟨it.seqNo + 1, it.nextTime⟩ hn' (hnext _ s.sendWindow (Int64.le_refl _) ?_
        fun _ _ => rfl)
      intro e he'
      rw [he] at he'
      cases he'
    | some e =>
      have hmin (m : Int64) : min it.nextTime m ≤ it.nextTime ∧ min it.nextTime m ≤ m :=
        Std.le_min_iff.mp (Int64.le_refl _)
      dsimp only
      split
      · rename_i hdue
        refine ⟨rises_of_rearm ht he hdue rfl rfl rfl, ?_, .inl rfl⟩
        refine hnext _ _ (hmin _).1 (fun e' he' => ?_) fun i hi => Function.update_of_ne hi _ _
        rw [Function.update_self] at he'
        cases he'
        exact (hmin _).2
      · refine ih ⟨it.seqNo + 1, min it.nextTime e.nextResendTime⟩ hn'
          (hnext _ s.sendWindow (hmin _).1 ?_ fun _ _ => rfl)
        intro e' he'
        rw [he] at he'
        cases he'
        exact (hmin _).2

/-- One call of `service_direct` keeps the deadline timely. -/
theorem serviceDirect_timely (hC : ∃ e, CAP = 2 ^ e) (hcap : CAP < 2 ^ 32)
    (ht : t ≤ t + s.resendInterval) {iter : Option ServiceIter} (hs : s.Timely)
    (hiter : ∀ it ∈ iter, s.Covers it) :
    s.Rises (s.serviceDirect t iter).2.2 ∧ (s.serviceDirect t iter).2.2.Timely ∧
      ∀ it ∈ (s.serviceDirect t iter).2.1, (s.serviceDirect t iter).2.2.Covers it := by
  unfold serviceDirect
  split
  · have hcovers : s.Covers (iter.getD ⟨s.nextSendSeqNo - lenU32 CAP, Int64.maxValue⟩) := by
      cases iter with
      | none => exact covers_fresh hC hcap s _
      | some it => exact hiter it rfl
    have hscan := serviceScan_scans ht _ _ rfl hcovers
    refine ⟨hscan.rises, hscan.deadline.elim (hs.rises hscan.rises) id, fun it hit => ?_⟩
    cases hit
    exact hscan.covers
  · exact ⟨Rises.rfl' s, hs, hiter⟩

/-- A whole pass keeps the deadline timely. -/
theorem serviceLoop_timely (hC : ∃ e, CAP = 2 ^ e) (hcap : CAP < 2 ^ 32) (fuel : ℕ)
    (ht : t ≤ t + s.resendInterval) (hs : s.Timely) (iter : Option ServiceIter)
    (hiter : ∀ it ∈ iter, s.Covers it) :
    s.Rises (serviceLoop t fuel iter s).2 ∧ (serviceLoop t fuel iter s).2.Timely := by
  induction fuel generalizing s iter with
  | zero => exact ⟨Rises.rfl' s, hs⟩
  | succ fuel ih =>
    obtain ⟨hrises, htimely, hcovers⟩ := serviceDirect_timely hC hcap ht hs hiter
    unfold serviceLoop
    dsimp only
    split
    · obtain ⟨hrises', htimely'⟩ := ih (by rw [hrises.interval]; exact ht) htimely _ hcovers
      exact ⟨hrises.trans hrises', htimely'⟩
    · exact ⟨hrises, htimely⟩

end SeqEx

/-! ## Endpoints with live iterators -/

/-- An endpoint with the unfinished and finished service iterators of its user. -/
structure Serviced (S R : Type*) (CAP : ℕ) where
  /-- The endpoint. -/
  seqEx : SeqEx S R CAP
  /-- The iterators. -/
  iters : List ServiceIter

/-- What the user can do. -/
inductive ServiceOp (S R : Type*) where
  /-- Any call but `service_direct`. -/
  | call (c : Call S R)
  /-- `service_direct` with a new iterator. -/
  | begin (currentTime : Int64)
  /-- `service_direct` with the iterator at this index. -/
  | resume (k : ℕ) (currentTime : Int64)
  /-- `ServiceIter::clone`. -/
  | clone (k : ℕ)
  /-- An iterator is dropped. -/
  | abandon (k : ℕ)
  /-- `resend_interval` is set. -/
  | setInterval (interval : Int64)

namespace Serviced

variable [NeZero CAP]

/-- A new endpoint. -/
def new (retryInterval : Int64) (initialSeqNo : SeqNo) : Serviced S R CAP :=
  ⟨SeqEx.new retryInterval initialSeqNo, []⟩

/-- One step. -/
def perform (s : Serviced S R CAP) : ServiceOp S R → Serviced S R CAP
  | .call c => { s with seqEx := (s.seqEx.call c).2 }
  | .begin t =>
    let r := s.seqEx.serviceDirect t none
    ⟨r.2.2, r.2.1.toList ++ s.iters⟩
  | .resume k t =>
    let r := s.seqEx.serviceDirect t s.iters[k]?
    ⟨r.2.2, r.2.1.toList ++ s.iters.eraseIdx k⟩
  | .clone k => { s with iters := s.iters[k]?.toList ++ s.iters }
  | .abandon k => { s with iters := s.iters.eraseIdx k }
  | .setInterval d => { s with seqEx := { s.seqEx with resendInterval := d } }

/-- The iterator exists, no time overflows and the interval stays nonnegative. -/
def Possible (s : Serviced S R CAP) : ServiceOp S R → Prop
  | .call (.serviceDirect _ _) => False
  | .call (.trySend t _ _) | .call (.reply t _ _ _ _) | .call (.service t) | .begin t =>
    NoOverflow t s.seqEx.resendInterval
  | .resume k t => k < s.iters.length ∧ NoOverflow t s.seqEx.resendInterval
  | .clone k | .abandon k => k < s.iters.length
  | .setInterval d => 0 ≤ d
  | .call (.receive _) | .call .pump | .call (.ack _ _) | .call .unlock => True

/-- Whether an iterator can be used is read off the list of live ones. -/
instance decidablePossible (s : Serviced S R CAP) : ∀ op, Decidable (s.Possible op)
  | .call (.serviceDirect _ _) => isFalse id
  | .call (.trySend t _ _) | .call (.reply t _ _ _ _) | .call (.service t) | .begin t =>
    inferInstanceAs (Decidable (NoOverflow t _))
  | .resume _ _ => inferInstanceAs (Decidable (_ ∧ _))
  | .clone k | .abandon k => inferInstanceAs (Decidable (k < _))
  | .setInterval d => inferInstanceAs (Decidable (0 ≤ d))
  | .call (.receive _) | .call .pump | .call (.ack _ _) | .call .unlock => isTrue trivial

/-- No number is drawn right before the one at which an iterator stands. -/
def LapsNone (s : Serviced S R CAP) : ServiceOp S R → Prop
  | .call c => s.seqEx.Accepts c → ∀ it ∈ s.iters, it.seqNo ≠ s.seqEx.nextSendSeqNo + 1
  | _ => True

/-- Whether the new packet laps an iterator is read off its number. -/
instance decidableLapsNone (s : Serviced S R CAP) : ∀ op, Decidable (s.LapsNone op)
  | .call _ => inferInstanceAs (Decidable (_ → _))
  | .begin _ | .resume _ _ | .clone _ | .abandon _ | .setInterval _ => isTrue trivial

/-- A possible step that laps no iterator. -/
def Paced (s : Serviced S R CAP) (op : ServiceOp S R) : Prop := s.Possible op ∧ s.LapsNone op

/-- Both conditions on a step are decidable. -/
instance decidablePaced (s : Serviced S R CAP) (op : ServiceOp S R) : Decidable (s.Paced op) :=
  inferInstanceAs (Decidable (_ ∧ _))

/-- The deadline and all iterators are sound. -/
structure Sound (s : Serviced S R CAP) : Prop where
  interval : 0 ≤ s.seqEx.resendInterval
  timely : s.seqEx.Timely
  covers : ∀ it ∈ s.iters, s.seqEx.Covers it

variable {s : Serviced S R CAP} {t : Int64}

/-- A step of one iterator, with the others left alone. -/
theorem Sound.serviceDirect (hC : ∃ e, CAP = 2 ^ e) (hcap : CAP < 2 ^ 32) (hs : s.Sound)
    (ht : NoOverflow t s.seqEx.resendInterval) {iter : Option ServiceIter} {l : List ServiceIter}
    (hiter : ∀ it ∈ iter, it ∈ s.iters) (hl : ∀ it ∈ l, it ∈ s.iters) :
    Sound ⟨(s.seqEx.serviceDirect t iter).2.2, (s.seqEx.serviceDirect t iter).2.1.toList ++ l⟩ := by
  obtain ⟨hrises, htimely, hcovers⟩ := SeqEx.serviceDirect_timely hC hcap (ht.le hs.interval)
    hs.timely fun it hit => hs.covers it (hiter it hit)
  refine ⟨hrises.interval ▸ hs.interval, htimely, fun it hit => ?_⟩
  rcases List.mem_append.mp hit with hit | hit
  · exact hcovers it (Option.mem_toList.mp hit)
  · exact (hs.covers it (hl it hit)).rises hrises

/-- Every step that laps no iterator keeps the times sound. -/
theorem Sound.perform (hC : ∃ e, CAP = 2 ^ e) (hcap : CAP < 2 ^ 32) (hs : s.Sound)
    {op : ServiceOp S R} (hpossible : s.Possible op) (hlap : s.LapsNone op) :
    (s.perform op).Sound := by
  have hself : ∀ it ∈ s.iters, it ∈ s.iters := fun _ hit => hit
  cases op with
  | call c =>
    have hcall (hserves : c.servesAt? = none) : (s.perform (.call c)).Sound := by
      rcases s.seqEx.call_timing hserves with h | ⟨haccepts, t, -, h⟩
      · exact ⟨h.interval ▸ hs.interval, hs.timely.shrinks h,
          fun it hit => (hs.covers it hit).shrinks h⟩
      · exact ⟨h.interval ▸ hs.interval, hs.timely.draws h,
          fun it hit => (hs.covers it hit).draws h (hlap haccepts it hit)⟩
    cases c with
    | serviceDirect t iter => exact hpossible.elim
    | service t =>
      obtain ⟨hrises, htimely⟩ := SeqEx.serviceLoop_timely hC hcap ((SeqEx.lenU32 CAP).toNat + 1)
        (NoOverflow.le hpossible hs.interval) hs.timely none nofun
      exact ⟨hrises.interval ▸ hs.interval, htimely, fun it hit => (hs.covers it hit).rises hrises⟩
    | _ => exact hcall rfl
  | begin t => exact hs.serviceDirect hC hcap hpossible nofun hself
  | resume k t =>
    exact hs.serviceDirect hC hcap hpossible.2 (fun it hit => List.mem_of_getElem? hit)
      fun it hit => List.mem_of_mem_eraseIdx hit
  | clone k =>
    refine ⟨hs.interval, hs.timely, fun it hit => hs.covers it ?_⟩
    rcases List.mem_append.mp hit with hit | hit
    · exact List.mem_of_getElem? (Option.mem_toList.mp hit)
    · exact hit
  | abandon k =>
    exact ⟨hs.interval, hs.timely, fun it hit => hs.covers it (List.mem_of_mem_eraseIdx hit)⟩
  | setInterval d => exact ⟨hpossible, hs.timely, hs.covers⟩

/-- A new endpoint has no packets to be late with. -/
theorem Sound.new (interval : Int64) (h0 : 0 ≤ interval) (initialSeqNo : SeqNo) :
    (new interval initialSeqNo : Serviced S R CAP).Sound :=
  ⟨h0, nofun, nofun⟩

/-- The times are sound in every reachable state. -/
theorem reaches_sound (hC : ∃ e, CAP = 2 ^ e) (hcap : CAP < 2 ^ 32) {interval : Int64}
    (h0 : 0 ≤ interval) {initialSeqNo : SeqNo}
    (hrun : Reaches Paced perform (new interval initialSeqNo : Serviced S R CAP) s) : s.Sound :=
  hrun.invariant (Sound.new interval h0 initialSeqNo) fun _ _ _ hu hop =>
    hu.perform hC hcap hop.1 hop.2

/-- The first packet is sent so that it is due at time zero. -/
def firstSent (interval : Int64) (base : SeqNo) (d : S) : Serviced S R CAP :=
  (new interval base).perform (.call (.trySend (-interval) true fun _ => d))

/-- The state after the first packet was sent. -/
theorem firstSent_spec (hCAP : 2 < CAP) {interval : Int64} (h0 : 0 ≤ interval) (base : SeqNo)
    (d : S) :
    Reaches Paced perform (new interval base) (firstSent interval base d : Serviced S R CAP) ∧
      (firstSent interval base d : Serviced S R CAP).seqEx.resendInterval = interval ∧
      (firstSent interval base d : Serviced S R CAP).seqEx.nextServiceTimestamp ≤ 0 ∧
      ∃ e, (firstSent interval base d : Serviced S R CAP).seqEx.sendWindow (cell CAP base) =
        some e ∧ e.nextResendTime = 0 := by
  have hfull : (SeqEx.new interval base : SeqEx S R CAP).isFullInner none = .ok () := by
    rw [SeqEx.isFullInner_of_nil hCAP rfl]
    rfl
  have htime : -interval + interval = 0 := by rw [Int64.add_comm, Int64.add_right_neg]
  have hstate : (firstSent interval base d : Serviced S R CAP).seqEx =
      ((SeqEx.new interval base : SeqEx S R CAP).insertEntry (-interval) none true d).2 := by
    simp only [firstSent, perform, new, SeqEx.call, SeqEx.trySendDirectWith, hfull]
  have hdraws := SeqEx.insertEntry_draws (SeqEx.new interval base : SeqEx S R CAP) (-interval)
    none true d
  rw [← hstate] at hdraws
  refine ⟨Reaches.single ⟨noOverflow_neg h0, fun _ => List.forall_mem_nil _⟩, hdraws.interval,
    ?_, ?_⟩
  · have hdeadline := hdraws.deadline
    rw [show -interval + (SeqEx.new interval base : SeqEx S R CAP).resendInterval = 0 from htime]
      at hdeadline
    rw [hdeadline]
    exact (Std.le_min_iff.mp (Int64.le_refl _)).2
  · obtain ⟨e, he, -, hdue⟩ := hdraws.drawn
    exact ⟨e, he, hdue.trans htime⟩

/-- When the ring length is zero as a 32-bit word, a pass visits nothing. -/
theorem service_misses (hcap : CAP % 2 ^ 32 = 0) {s : SeqEx S R CAP} {t : Int64}
    (hdue : s.nextServiceTimestamp ≤ t) :
    (s.service t).1 = [] ∧
      (s.service t).2.2 = { s with nextServiceTimestamp := Int64.maxValue } := by
  obtain ⟨hout, hstate⟩ := SeqEx.service_of_due hdue
  have hpass : s.fullPass t = ([], Int64.maxValue, s.sendWindow) := by
    rw [SeqEx.fullPass, hcap]
    rfl
  rw [hpass] at hout hstate
  exact ⟨hout, hstate⟩

/-- Along the runs that lap no iterator the deadline is timely exactly for the
capacities below `2^32`. -/
theorem timely_iff_small [Inhabited S] (hC : ∃ e ≥ 2, CAP = 2 ^ e) (interval : Int64)
    (h0 : 0 ≤ interval) (initialSeqNo : SeqNo) :
    (∀ s : Serviced S R CAP, Reaches Paced perform (new interval initialSeqNo) s →
      s.seqEx.Timely) ↔ CAP < 2 ^ 32 := by
  have hpow : ∃ e, CAP = 2 ^ e := hC.imp fun _ h => h.2
  constructor
  · intro h
    by_contra hcap
    have hmod := mod_eq_zero_of_le hpow (not_lt.mp hcap)
    obtain ⟨hrun, hinterval, hdue, hentry⟩ := firstSent_spec (R := R) (by omega : 2 < CAP) h0
      initialSeqNo (default : S)
    have hpossible : (firstSent interval initialSeqNo default : Serviced S R CAP).Paced
        (.call (.service 0)) := by
      refine ⟨?_, nofun⟩
      show NoOverflow 0 _
      rw [hinterval]
      exact noOverflow_zero interval
    obtain ⟨e, he, hzero⟩ := hentry
    have htimely := h _ (hrun.snoc hpossible)
    have hstate : ((firstSent interval initialSeqNo default : Serviced S R CAP).perform
        (.call (.service 0))).seqEx = { (firstSent interval initialSeqNo default :
          Serviced S R CAP).seqEx with nextServiceTimestamp := Int64.maxValue } :=
      (service_misses hmod hdue).2
    rw [hstate] at htimely
    have hlate : Int64.maxValue ≤ e.nextResendTime := htimely (cell CAP initialSeqNo) e he
    rw [hzero] at hlate
    exact absurd hlate (by decide)
  · exact fun hcap s hrun => (reaches_sound hpow hcap h0 hrun).timely

/-- Two passes overlap, with sends, an acknowledgement and a new interval between
their steps. -/
def overlapping : List (ServiceOp ℕ ℕ) :=
  [.call (.trySend 0 true fun _ => 70), .call (.trySend 0 false fun _ => 71), .begin 100,
    .clone 0, .call (.receive (.ack 0)), .setInterval 50, .resume 1 120,
    .call (.trySend 10 true fun _ => 72), .resume 0 130]

/-- Two passes that overlap leave nobody late. -/
theorem timely_iff_small_overlapping :
    (overlapping.foldl perform (new 100 0 : Serviced ℕ ℕ 4)).seqEx.Timely :=
  (timely_iff_small ⟨2, le_rfl, rfl⟩ 100 (by decide) 0).mpr (by decide) _
    (Allowed.reaches (l := overlapping) (by decide))

/-- With `2^32` cells the first pass forgets the first packet. -/
theorem full_ring_forgets_deadline :
    ∃ s : Serviced ℕ ℕ (2 ^ 32), Reaches Paced perform (new 100 0) s ∧
      s.seqEx.nextServiceTimestamp = Int64.maxValue ∧
      (∃ e, s.seqEx.sendWindow 0 = some e ∧ e.nextResendTime = 0) ∧ ¬ s.seqEx.Timely := by
  obtain ⟨hrun, hinterval, hdue, e, he, hzero⟩ :=
    firstSent_spec (R := ℕ) (by decide : 2 < 2 ^ 32) (by decide : (0 : Int64) ≤ 100) 0 (70 : ℕ)
  have hstate : ((firstSent 100 0 70 : Serviced ℕ ℕ (2 ^ 32)).perform (.call (.service 0))).seqEx =
      { (firstSent 100 0 70 : Serviced ℕ ℕ (2 ^ 32)).seqEx with
        nextServiceTimestamp := Int64.maxValue } := (service_misses (by decide) hdue).2
  have hpossible : (firstSent 100 0 70 : Serviced ℕ ℕ (2 ^ 32)).Paced (.call (.service 0)) := by
    refine ⟨?_, nofun⟩
    show NoOverflow 0 _
    rw [hinterval]
    decide
  refine ⟨_, hrun.snoc hpossible, by rw [hstate], ⟨e, by rw [hstate]; exact he, hzero⟩, ?_⟩
  intro htimely
  rw [hstate] at htimely
  have hlate : Int64.maxValue ≤ e.nextResendTime := htimely (cell (2 ^ 32) 0) e he
  rw [hzero] at hlate
  exact absurd hlate (by decide)

/-! ## A lapped iterator -/

/-- An empty window with an iterator that was left at the number 1. -/
def leftBehind (q : SeqNo) : Serviced ℕ ℕ 4 :=
  ⟨{ (SeqEx.new 100 0 : SeqEx ℕ ℕ 4) with nextServiceTimestamp := 100, nextSendSeqNo := q },
    [⟨1, 200⟩]⟩

/-- The next packet is sent. -/
def leftSending (q : SeqNo) : Serviced ℕ ℕ 4 :=
  ⟨{ (SeqEx.new 100 0 : SeqEx ℕ ℕ 4) with
      nextServiceTimestamp := 100, nextSendSeqNo := q + 1,
      sendWindow := Function.update (fun _ => none) (cell 4 q) (some ⟨q, none, true, 100, 70⟩) },
    [⟨1, 200⟩]⟩

/-- The packet that is sent takes the cell the iterator was to visit. -/
theorem leftBehind_send (q : SeqNo) :
    (leftBehind q).perform (.call (.trySend 0 true fun _ => 70)) = leftSending q := by
  have hfull : (leftBehind q).seqEx.isFullInner none = .ok () := by
    rw [SeqEx.isFullInner_of_nil (by decide) rfl]
    rfl
  simp only [perform, SeqEx.call, SeqEx.trySendDirectWith, hfull]
  rfl

/-- Its acknowledgement leads back to the same state, one number further. -/
theorem leftSending_ack (q : SeqNo) :
    (leftSending q).perform (.call (.receive (.ack q))) = leftBehind (q + 1) := by
  have hcell : (leftSending q).seqEx.sendWindow (cell 4 q) = some ⟨q, none, true, 100, 70⟩ := by
    simp [leftSending]
  have hempty : Function.update (leftSending q).seqEx.sendWindow (cell 4 q) none =
      fun _ => none := by
    rw [leftSending, Function.update_idem]
    exact Function.update_eq_self (cell 4 q) _
  simp only [perform, SeqEx.call, SeqEx.tryReceiveRawAndDirect, SeqEx.takeSend, hcell, if_true,
    hempty]
  rfl

/-- Any number of packets can pass while the iterator stays where it is. -/
theorem leftBehind_reaches (k : ℕ) :
    Reaches Possible perform (leftBehind 1) (leftBehind (number 1 k)) := by
  induction k with
  | zero =>
    rw [number_zero]
    exact Reaches.refl
  | succ k ih =>
    have hsend : (leftBehind (number 1 k)).Possible (.call (.trySend 0 true fun _ => 70)) := by
      show NoOverflow 0 100
      decide
    have hack : (leftSending (number 1 k)).Possible (.call (.receive (.ack (number 1 k)))) :=
      trivial
    have hnext := leftSending_ack (number 1 k)
    rw [number_succ] at hnext
    rw [← leftBehind_send] at hack hnext
    rw [← hnext]
    exact (ih.snoc hsend).snoc hack

/-- Once the numbers have come round to the iterator it ends at once, and the
deadline passes a packet that is due. -/
theorem lapped_iterator_late :
    ∃ s : Serviced ℕ ℕ 4, Reaches Possible perform (new 100 0) s ∧ ¬ s.seqEx.Timely := by
  let l : List (ServiceOp ℕ ℕ) :=
    [.call (.trySend 0 true fun _ => 70), .begin 100, .call (.receive (.ack 0))]
  have hstart : l.foldl perform (new 100 0) = leftBehind 1 := by
    have hempty : (l.foldl perform (new 100 0 : Serviced ℕ ℕ 4)).seqEx.sendWindow =
        fun _ => none := by decide
    have hwith : l.foldl perform (new 100 0 : Serviced ℕ ℕ 4) =
        ⟨{ (l.foldl perform (new 100 0 : Serviced ℕ ℕ 4)).seqEx with sendWindow := fun _ => none },
          (l.foldl perform (new 100 0 : Serviced ℕ ℕ 4)).iters⟩ := by
      rw [← hempty]
    rw [hwith]
    rfl
  have hrun : Reaches Possible perform (new 100 0) (leftBehind 1) :=
    hstart ▸ Allowed.reaches (l := l) (by decide)
  -- all other numbers pass, and then the iterator is used once more
  have hround := leftBehind_reaches (2 ^ 32 - 1)
  have hzero : number 1 (2 ^ 32 - 1) = 0 := by decide
  rw [hzero] at hround
  have hsend : (leftBehind 0).Possible (.call (.trySend 0 true fun _ => 70)) := by
    show NoOverflow 0 100
    decide
  have hreached := (hrun.trans hround).snoc hsend
  rw [leftBehind_send] at hreached
  have hresume : (leftSending 0).Possible (.resume 0 100) := by decide
  refine ⟨_, hreached.snoc hresume, fun htimely => ?_⟩
  have hlate := htimely 0 ⟨0, none, true, 100, 70⟩ rfl
  exact absurd hlate (by decide)

end Serviced

end SequentialExchange
