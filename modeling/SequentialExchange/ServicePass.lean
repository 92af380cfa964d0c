import SequentialExchange.CallEffects

/-!
# A pass of the service loop

`service_direct` returns after every packet that it resends, and the next call
resumes the scan. An uninterrupted pass is one walk over the numbers from the
iterator up to the next number to send: the due entries are armed again and
resent in the order of the walk, and the deadline becomes the least resend time
that was met.
-/

namespace SequentialExchange

open WrapNumbering

variable {S R : Type*}

/-- The entry after a pass at time `t`: a due entry is armed again. -/
def SendEntry.rearm (t interval : Int64) (e : SendEntry S) : SendEntry S :=
  if e.nextResendTime ≤ t then { e with nextResendTime := t + interval } else e

namespace SendEntry

variable {t interval : Int64} {e : SendEntry S}

/-- A due entry gets a new time. -/
theorem rearm_of_le (h : e.nextResendTime ≤ t) :
    e.rearm t interval = { e with nextResendTime := t + interval } := if_pos h

/-- Another entry keeps its time. -/
theorem rearm_of_not_le (h : ¬ e.nextResendTime ≤ t) : e.rearm t interval = e := if_neg h

/-- Arming twice in one pass makes no difference. -/
@[simp] theorem rearm_rearm : (e.rearm t interval).rearm t interval = e.rearm t interval := by
  by_cases h : e.nextResendTime ≤ t
  · rw [rearm_of_le h]
    unfold rearm
    split <;> rfl
  · rw [rearm_of_not_le h, rearm_of_not_le h]

/-- Resend times never get earlier. -/
theorem le_rearm (h : t ≤ t + interval) :
    e.nextResendTime ≤ (e.rearm t interval).nextResendTime := by
  by_cases hdue : e.nextResendTime ≤ t
  · rw [rearm_of_le hdue]
    exact Int64.le_trans hdue h
  · rw [rearm_of_not_le hdue]
    exact Int64.le_refl _

end SendEntry

/-- Numbers behind the next one, counted down. -/
theorem sub_add_one_toNat {a b : SeqNo} {n : ℕ} (h : (a - b).toNat = n + 1) :
    (a - (b + 1)).toNat = n := by
  have ha := a.toNat_lt
  have hb := b.toNat_lt
  rw [UInt32.toNat_sub] at h
  rw [UInt32.toNat_sub, UInt32.toNat_add, UInt32.toNat_one]
  omega

/-- The numbers from the next one on. -/
theorem number_add_one (q : SeqNo) (j : ℕ) : number (q + 1) j = number q (j + 1) := by
  have hq : q + 1 = number q 1 := rfl
  rw [hq, number_add, Nat.add_comm]

/-! ## The walk -/

section Walk

variable {CAP : ℕ} [NeZero CAP] {t interval m : Int64} {n : ℕ} {q : SeqNo}
  {w : Fin CAP → Option (SendEntry S)}

/-- The walk over `n` numbers from `q` on: what is resent, the least resend time
met, starting with `m`, and the window that is left. -/
def passFrom (t interval : Int64) : ℕ → SeqNo → Int64 → (Fin CAP → Option (SendEntry S)) →
    List (Packet S) × Int64 × (Fin CAP → Option (SendEntry S))
  | 0, _, m, w => ([], m, w)
  | n + 1, q, m, w =>
    match w (cell CAP q) with
    | none => passFrom t interval n (q + 1) m w
    | some e =>
      let r := passFrom t interval n (q + 1) (min m (e.rearm t interval).nextResendTime)
        (Function.update w (cell CAP q) (some (e.rearm t interval)))
      (if e.nextResendTime ≤ t then e.toPacket :: r.1 else r.1, r.2)

/-- An empty cell is passed over. -/
theorem passFrom_of_none (h : w (cell CAP q) = none) :
    passFrom t interval (n + 1) q m w = passFrom t interval n (q + 1) m w := by
  rw [passFrom, h]

/-- Up to the packets it sends, a walk rearms the entry of the first cell. -/
theorem passFrom_of_some {e : SendEntry S} (h : w (cell CAP q) = some e) :
    (passFrom t interval (n + 1) q m w).2 =
      (passFrom t interval n (q + 1) (min m (e.rearm t interval).nextResendTime)
        (Function.update w (cell CAP q) (some (e.rearm t interval)))).2 := by
  rw [passFrom, h]

/-- A due packet is emitted and gets a new time. -/
theorem passFrom_of_due {e : SendEntry S} (h : w (cell CAP q) = some e)
    (hdue : e.nextResendTime ≤ t) :
    passFrom t interval (n + 1) q m w =
      (e.toPacket :: (passFrom t interval n (q + 1) (min m (t + interval))
        (Function.update w (cell CAP q) (some (e.rearm t interval)))).1,
      (passFrom t interval n (q + 1) (min m (t + interval))
        (Function.update w (cell CAP q) (some (e.rearm t interval)))).2) := by
  rw [passFrom, h]
  simp only [if_pos hdue, SendEntry.rearm_of_le hdue]

/-- A packet that is not due lowers the minimum only. -/
theorem passFrom_of_not_due {e : SendEntry S} (h : w (cell CAP q) = some e)
    (hdue : ¬ e.nextResendTime ≤ t) :
    passFrom t interval (n + 1) q m w =
      passFrom t interval n (q + 1) (min m e.nextResendTime) w := by
  have hw : Function.update w (cell CAP q) (some e) = w := by
    rw [← h]
    exact Function.update_eq_self _ _
  rw [passFrom, h]
  simp only [if_neg hdue, SendEntry.rearm_of_not_le hdue, hw]

/-- The number `n` steps of the walk away from `q` lies in cell `i`. -/
def Visits (CAP : ℕ) [NeZero CAP] (n : ℕ) (q : SeqNo) (i : Fin CAP) : Prop :=
  ∃ j < n, cell CAP (number q j) = i

/-- A pass visits the first cell and those of the rest. -/
theorem visits_succ {i : Fin CAP} :
    Visits CAP (n + 1) q i ↔ cell CAP q = i ∨ Visits CAP n (q + 1) i := by
  constructor
  · rintro ⟨j, hj, hi⟩
    cases j with
    | zero =>
      rw [number_zero] at hi
      exact .inl hi
    | succ j =>
      rw [← number_add_one] at hi
      exact .inr ⟨j, by omega, hi⟩
  · rintro (hi | ⟨j, hj, hi⟩)
    · exact ⟨0, by omega, by rwa [number_zero]⟩
    · rw [number_add_one] at hi
      exact ⟨j + 1, by omega, hi⟩

/-- Exactly the visited entries are armed again. -/
theorem passFrom_window (i : Fin CAP) :
    (Visits CAP n q i → (passFrom t interval n q m w).2.2 i =
      (w i).map (SendEntry.rearm t interval)) ∧
    (¬ Visits CAP n q i → (passFrom t interval n q m w).2.2 i = w i) := by
  induction n generalizing q m w with
  | zero => exact ⟨fun ⟨j, hj, _⟩ => absurd hj (Nat.not_lt_zero j), fun _ => rfl⟩
  | succ n ih =>
    rw [visits_succ]
    cases he : w (cell CAP q) with
    | none =>
      rw [passFrom_of_none he]
      refine ⟨fun hvisits => ?_, fun hnot => (ih (q := q + 1)).2 fun h => hnot (.inr h)⟩
      by_cases hrest : Visits CAP n (q + 1) i
      · exact (ih (q := q + 1)).1 hrest
      · rw [(ih (q := q + 1)).2 hrest, ← hvisits.resolve_right hrest, he]
        rfl
    | some e =>
      rw [passFrom_of_some he]
      obtain ⟨hin, hout⟩ := ih (q := q + 1) (m := min m (e.rearm t interval).nextResendTime)
        (w := Function.update w (cell CAP q) (some (e.rearm t interval)))
      by_cases hi : i = cell CAP q
      · subst hi
        rw [Function.update_self] at hin hout
        refine ⟨fun _ => ?_, fun hnot => absurd (.inl rfl) hnot⟩
        rw [he, Option.map_some]
        by_cases hrest : Visits CAP n (q + 1) (cell CAP q)
        · rw [hin hrest, Option.map_some, SendEntry.rearm_rearm]
        · exact hout hrest
      · rw [Function.update_of_ne hi] at hin hout
        exact ⟨fun hvisits => hin (hvisits.resolve_left fun h => hi h.symm),
          fun hnot => hout fun h => hnot (.inr h)⟩

/-- The deadline is the least resend time after the walk. -/
theorem passFrom_least (t interval : Int64) (n : ℕ) (q : SeqNo) (m : Int64)
    (w : Fin CAP → Option (SendEntry S)) :
    (passFrom t interval n q m w).2.1 ≤ m ∧
      (∀ i e, Visits CAP n q i → w i = some e →
        (passFrom t interval n q m w).2.1 ≤ (e.rearm t interval).nextResendTime) ∧
      ((passFrom t interval n q m w).2.1 = m ∨ ∃ i e, Visits CAP n q i ∧ w i = some e ∧
        (passFrom t interval n q m w).2.1 = (e.rearm t interval).nextResendTime) := by
  induction n generalizing q m w with
  | zero =>
    exact ⟨Int64.le_refl _, fun i e ⟨j, hj, _⟩ => absurd hj (Nat.not_lt_zero j), .inl rfl⟩
  | succ n ih =>
    cases he : w (cell CAP q) with
    | none =>
      rw [passFrom_of_none he]
      obtain ⟨h1, h2, h3⟩ := ih (q + 1) m w
      refine ⟨h1, fun i e hi hw => ?_, h3.imp_right ?_⟩
      · rcases visits_succ.mp hi with rfl | hi
        · rw [he] at hw
          cases hw
        · exact h2 i e hi hw
      · rintro ⟨i, e, hi, hw, hleast⟩
        exact ⟨i, e, visits_succ.mpr (.inr hi), hw, hleast⟩
    | some e =>
      rw [passFrom_of_some he]
      obtain ⟨h1, h2, h3⟩ := ih (q + 1) (min m (e.rearm t interval).nextResendTime)
        (Function.update w (cell CAP q) (some (e.rearm t interval)))
      obtain ⟨hm, hme⟩ := Std.le_min_iff.mp h1
      refine ⟨hm, fun i e' hi hw => ?_, ?_⟩
      · by_cases hiq : i = cell CAP q
        · subst hiq
          rw [he] at hw
          cases hw
          exact hme
        · have hi' := (visits_succ.mp hi).resolve_left fun h => hiq h.symm
          exact h2 i e' hi' (by rwa [Function.update_of_ne hiq])
      · rcases h3 with h3 | ⟨i, e', hi, hw, hleast⟩
        · rw [h3]
          refine (Std.min_eq_or (a := m)).imp id fun hmin => ?_
          exact ⟨cell CAP q, e, visits_succ.mpr (.inl rfl), he, hmin⟩
        · refine .inr ?_
          by_cases hiq : i = cell CAP q
          · subst hiq
            rw [Function.update_self] at hw
            cases hw
            rw [SendEntry.rearm_rearm] at hleast
            exact ⟨_, e, visits_succ.mpr (.inl rfl), he, hleast⟩
          · rw [Function.update_of_ne hiq] at hw
            exact ⟨i, e', visits_succ.mpr (.inr hi), hw, hleast⟩

/-- The due entry that the walk meets at the number `k`. -/
def dueAt (t : Int64) (w : Fin CAP → Option (SendEntry S)) (k : SeqNo) : Option (SendEntry S) :=
  (w (cell CAP k)).filter fun e => e.nextResendTime ≤ t

/-- What is resent are the due entries in the order of the walk, provided that
it visits no cell twice. -/
theorem passFrom_resent
    (hinj : ∀ j < n, ∀ k < n, cell CAP (number q j) = cell CAP (number q k) → j = k) :
    (passFrom t interval n q m w).1 =
      (List.range n).filterMap fun j => (dueAt t w (number q j)).map SendEntry.toPacket := by
  induction n generalizing q m w with
  | zero => rfl
  | succ n ih =>
    have hinj' : ∀ j < n, ∀ k < n,
        cell CAP (number (q + 1) j) = cell CAP (number (q + 1) k) → j = k := fun j hj k hk hc => by
      rw [number_add_one, number_add_one] at hc
      have := hinj (j + 1) (by omega) (k + 1) (by omega) hc
      omega
    have hrest {v : Fin CAP → Option (SendEntry S)} (hv : ∀ i, i ≠ cell CAP q → v i = w i) :
        ((List.range n).filterMap fun j =>
            (dueAt t v (number (q + 1) j)).map SendEntry.toPacket) =
          (List.range n).filterMap fun j =>
            (dueAt t w (number q (j + 1))).map SendEntry.toPacket := by
      refine List.filterMap_congr fun j hj => ?_
      rw [number_add_one, dueAt, dueAt, hv]
      intro hc
      rw [← number_zero q] at hc
      have := hinj (j + 1) (by have := List.mem_range.mp hj; omega) 0 (by omega)
        (by rwa [number_zero] at hc ⊢)
      omega
    rw [List.range_succ_eq_map, List.filterMap_cons, number_zero, List.filterMap_map]
    cases he : w (cell CAP q) with
    | none =>
      have hnone : dueAt t w q = none := by rw [dueAt, he]; rfl
      rw [passFrom_of_none he, ih hinj', hnone, hrest fun _ _ => rfl]
      rfl
    | some e =>
      by_cases hdue : e.nextResendTime ≤ t
      · have hsome : dueAt t w q = some e := by simp [dueAt, he, hdue]
        rw [passFrom_of_due he hdue, ih hinj', hsome,
          hrest fun i hi => Function.update_of_ne hi _ _]
        rfl
      · have hnone : dueAt t w q = none := by simp [dueAt, he, Int64.not_le.mp hdue]
        rw [passFrom_of_not_due he hdue, ih hinj', hnone, hrest fun _ _ => rfl]
        rfl

end Walk

/-! ## The loop -/

namespace SeqEx

variable {CAP : ℕ} [NeZero CAP] {s : SeqEx S R CAP} {t : Int64}

/-- The walk from an iterator up to the next number to send. -/
def pass (s : SeqEx S R CAP) (t : Int64) (iter : ServiceIter) :
    List (Packet S) × Int64 × (Fin CAP → Option (SendEntry S)) :=
  passFrom t s.resendInterval (s.nextSendSeqNo - iter.seqNo).toNat iter.seqNo iter.nextTime
    s.sendWindow

/-- What one scan does of the walk that is left. -/
inductive Scanned (t : Int64) (iter : ServiceIter) (s : SeqEx S R CAP) :
    Option (Packet S) × ServiceIter × SeqEx S R CAP → Prop where
  /-- Nothing was due; the deadline is stored. -/
  | done (m : Int64) (hpass : s.pass t iter = ([], m, s.sendWindow)) :
      Scanned t iter s (none, ⟨s.nextSendSeqNo, m⟩, { s with nextServiceTimestamp := m })
  /-- A packet is resent, and the rest of the walk is left. -/
  | resend (p : Packet S) (iter' : ServiceIter) (w : Fin CAP → Option (SendEntry S))
      (hlt : (s.nextSendSeqNo - iter'.seqNo).toNat < (s.nextSendSeqNo - iter.seqNo).toNat)
      (hpass : s.pass t iter = (p :: (pass { s with sendWindow := w } t iter').1,
        (pass { s with sendWindow := w } t iter').2)) :
      Scanned t iter s (some p, iter', { s with sendWindow := w })

/-- The scan emits the next due packet of the pass, or ends it. -/
theorem serviceScan_scanned (t : Int64) (n : ℕ) (iter : ServiceIter) (s : SeqEx S R CAP)
    (hn : (s.nextSendSeqNo - iter.seqNo).toNat = n) :
    Scanned t iter s (serviceScan t n iter s) := by
  induction n generalizing iter with
  | zero =>
    have hseq : iter.seqNo = s.nextSendSeqNo := by
      have hzero : s.nextSendSeqNo - iter.seqNo = 0 := UInt32.toNat_inj.mp hn
      exact (sub_eq_zero_iff.mp hzero).symm
    obtain ⟨seqNo, nextTime⟩ := iter
    obtain rfl : seqNo = s.nextSendSeqNo := hseq
    exact .done nextTime (by rw [pass, hn]; rfl)
  | succ n ih =>
    have hn' := sub_add_one_toNat hn
    unfold serviceScan
    dsimp only
    cases he : s.sendWindow (cell CAP iter.seqNo) with
    | none =>
      have hpass : s.pass t { iter with seqNo := iter.seqNo + 1 } = s.pass t iter := by
        rw [pass, pass, hn, hn', passFrom_of_none he]
      have hscan := ih { iter with seqNo := iter.seqNo + 1 } hn'
      dsimp only
      generalize serviceScan t n { iter with seqNo := iter.seqNo + 1 } s = r at hscan ⊢
      cases hscan with
      | done m h => exact .done m (hpass ▸ h)
      | resend p iter' w hlt h => exact .resend p iter' w (by rw [hn'] at hlt; omega) (hpass ▸ h)
    | some e =>
      dsimp only
      split
      · rename_i hdue
        refine .resend _ _ _ (by dsimp only; rw [hn', hn]; omega) ?_
        rw [pass, hn, passFrom_of_due he hdue, pass]
        simp only [SendEntry.rearm_of_le hdue, hn']
        rfl
      · rename_i hdue
        have hpass : s.pass t ⟨iter.seqNo + 1, min iter.nextTime e.nextResendTime⟩ =
            s.pass t iter := by
          rw [pass, pass, hn, hn', passFrom_of_not_due he hdue]
        have hscan := ih ⟨iter.seqNo + 1, min iter.nextTime e.nextResendTime⟩ hn'
        generalize serviceScan t n ⟨iter.seqNo + 1, min iter.nextTime e.nextResendTime⟩ s = r
          at hscan ⊢
        cases hscan with
        | done m h => exact .done m (hpass ▸ h)
        | resend p iter' w hlt h => exact .resend p iter' w (by rw [hn'] at hlt; omega) (hpass ▸ h)

/-- The loop makes the whole walk. -/
theorem serviceLoop_eq_pass {fuel : ℕ} {iter : ServiceIter}
    (hfuel : (s.nextSendSeqNo - iter.seqNo).toNat < fuel) (hdue : s.nextServiceTimestamp ≤ t) :
    serviceLoop t fuel (some iter) s = ((s.pass t iter).1,
      { s with
        nextServiceTimestamp := (s.pass t iter).2.1
        sendWindow := (s.pass t iter).2.2 }) := by
  induction fuel generalizing iter s with
  | zero => exact absurd hfuel (Nat.not_lt_zero _)
  | succ fuel ih =>
    have hscan := serviceScan_scanned t _ iter s rfl
    rw [serviceLoop, serviceDirect, if_pos hdue, Option.getD_some]
    dsimp only
    generalize serviceScan t (s.nextSendSeqNo - iter.seqNo).toNat iter s = r at hscan ⊢
    cases hscan with
    | done m hpass => simp only [hpass]
    | resend p iter' w hlt hpass =>
      simp only [hpass]
      rw [ih (s := { s with sendWindow := w }) (by dsimp only; omega) hdue]

/-- Where a fresh iterator starts. -/
def firstSeqNo (s : SeqEx S R CAP) : SeqNo := s.nextSendSeqNo - lenU32 CAP

omit [NeZero CAP] in
/-- A pass visits `CAP as SeqNo` numbers. -/
theorem sub_firstSeqNo (s : SeqEx S R CAP) :
    (s.nextSendSeqNo - s.firstSeqNo).toNat = CAP % 2 ^ 32 := by
  have hsub : s.nextSendSeqNo - s.firstSeqNo = lenU32 CAP := by
    rw [firstSeqNo, sub_sub_cancel]
  rw [hsub, lenU32, UInt32.toNat_ofNat']

/-- The walk of a fresh iterator. -/
def fullPass (s : SeqEx S R CAP) (t : Int64) :
    List (Packet S) × Int64 × (Fin CAP → Option (SendEntry S)) :=
  passFrom t s.resendInterval (CAP % 2 ^ 32) s.firstSeqNo Int64.maxValue s.sendWindow

/-- `service` when its deadline has come, with any bound on its loop that is
large enough. -/
theorem serviceLoop_none {fuel : ℕ} (hfuel : CAP % 2 ^ 32 < fuel)
    (hdue : s.nextServiceTimestamp ≤ t) :
    serviceLoop t fuel none s = ((s.fullPass t).1,
      { s with nextServiceTimestamp := (s.fullPass t).2.1, sendWindow := (s.fullPass t).2.2 }) := by
  have hstart : serviceLoop t fuel none s =
      serviceLoop t fuel (some ⟨s.firstSeqNo, Int64.maxValue⟩) s := by
    cases fuel with
    | zero => rfl
    | succ fuel =>
      have hdirect : s.serviceDirect t none =
          s.serviceDirect t (some ⟨s.firstSeqNo, Int64.maxValue⟩) := by
        rw [serviceDirect, serviceDirect, if_pos hdue, if_pos hdue]
        rfl
      rw [serviceLoop, serviceLoop, hdirect]
  have hdist := s.sub_firstSeqNo
  rw [hstart, serviceLoop_eq_pass (by rw [hdist]; exact hfuel) hdue, pass]
  simp only [hdist]
  rfl

/-- Before its deadline a pass does nothing. -/
theorem serviceLoop_of_not_due {fuel : ℕ} (hdue : ¬ s.nextServiceTimestamp ≤ t) :
    serviceLoop t fuel none s = ([], s) := by
  cases fuel with
  | zero => rfl
  | succ fuel =>
    have hdirect : s.serviceDirect t none = (none, none, s) := if_neg hdue
    rw [serviceLoop, hdirect]

/-- A due service is a full pass. -/
theorem service_of_due (hdue : s.nextServiceTimestamp ≤ t) :
    (s.service t).1 = (s.fullPass t).1 ∧
      (s.service t).2.2 = { s with
        nextServiceTimestamp := (s.fullPass t).2.1, sendWindow := (s.fullPass t).2.2 } := by
  have hfuel : CAP % 2 ^ 32 < (lenU32 CAP).toNat + 1 := by
    rw [lenU32, UInt32.toNat_ofNat']
    omega
  rw [service, serviceLoop_none hfuel hdue]
  exact ⟨rfl, rfl⟩

/-- Otherwise nothing is done. -/
theorem service_of_not_due (hdue : ¬ s.nextServiceTimestamp ≤ t) :
    (s.service t).1 = [] ∧ (s.service t).2.2 = s := by
  rw [service, serviceLoop_of_not_due hdue]
  exact ⟨rfl, rfl⟩

/-- The delay that a pass returns. -/
theorem service_delay (s : SeqEx S R CAP) (t : Int64) :
    (s.service t).2.1 = min (s.service t).2.2.resendInterval
      ((s.service t).2.2.nextServiceTimestamp - t) := rfl

/-! ## Rings that divide the number space -/

/-- A full walk visits different cells. -/
theorem fullPass_inj (hC : ∃ e, CAP = 2 ^ e) (q : SeqNo) {j k : ℕ} (hj : j < CAP % 2 ^ 32)
    (hk : k < CAP % 2 ^ 32) (h : cell CAP (number q j) = cell CAP (number q k)) : j = k := by
  have hperiod : CAP % 2 ^ 32 ≤ period CAP :=
    le_min (Nat.mod_le _ _) (Nat.mod_lt _ (by decide)).le
  have hmod := (cell_number_eq_iff hC q j k).mp h
  rcases Nat.le_total j k with hle | hle
  · exact eq_of_modEq_of_lt hmod hle (by omega)
  · exact (eq_of_modEq_of_lt hmod.symm hle (by omega)).symm

/-- Below `2^32` cells a full walk visits them all. -/
theorem visits_all (hC : ∃ e, CAP = 2 ^ e) (hcap : CAP < 2 ^ 32) (q : SeqNo) (i : Fin CAP) :
    Visits CAP (CAP % 2 ^ 32) q i := by
  have hmod : CAP % 2 ^ 32 = CAP := Nat.mod_eq_of_lt hcap
  have hinj : Function.Injective fun j : Fin CAP => cell CAP (number q j) := fun j k h =>
    Fin.val_inj.mp (fullPass_inj hC q (hmod.symm ▸ j.isLt) (hmod.symm ▸ k.isLt) h)
  obtain ⟨j, hj⟩ := Finite.surjective_of_injective hinj i
  exact ⟨j, hmod.symm ▸ j.isLt, hj⟩

/-- At the end of time everything in the window is due. -/
theorem mem_service_maxValue (hC : ∃ e, CAP = 2 ^ e) (hcap : CAP < 2 ^ 32) {i : Fin CAP}
    {p : Packet S} (hp : s.pending i = some p) : p ∈ (s.service Int64.maxValue).1 := by
  obtain ⟨e, he, rfl⟩ := Option.map_eq_some_iff.mp hp
  obtain ⟨j, hj, rfl⟩ := visits_all hC hcap s.firstSeqNo i
  have hlate (x : Int64) : x ≤ Int64.maxValue := Int64.le_iff_toInt_le.mpr x.toInt_le
  rw [(service_of_due (hlate _)).1, fullPass,
    passFrom_resent fun j hj k hk => fullPass_inj hC _ hj hk]
  refine List.mem_filterMap.mpr ⟨j, List.mem_range.mpr hj, ?_⟩
  simp [dueAt, he, hlate]

end SeqEx

end SequentialExchange
