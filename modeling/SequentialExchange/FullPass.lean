import SequentialExchange.Deadlines

/-!
# One pass resends exactly what is due

The entries of the send window carry the last `CAP` numbers, each in its own
cell. So the walk of a fresh iterator meets every entry once, the oldest number
first. Together with the timely deadline, which justifies skipping a pass
altogether, a service call resends what is due and nothing else.
-/

namespace SequentialExchange

open WrapNumbering GuardedRuns

variable {S R : Type*} {CAP : ℕ} [NeZero CAP] {t : Int64}

namespace SeqEx

variable {s s' : SeqEx S R CAP}

/-- Every entry is in the cell of its number, one of the last `CAP` drawn. -/
def Recent (s : SeqEx S R CAP) : Prop :=
  ∀ i e, s.sendWindow i = some e → i = cell CAP e.seqNo ∧
    1 ≤ (s.nextSendSeqNo - e.seqNo).toNat ∧ (s.nextSendSeqNo - e.seqNo).toNat ≤ CAP

/-- The entries that are left are as recent as before. -/
theorem Recent.shrinks (hs : s.Recent) (h : s.Shrinks s') : s'.Recent := fun i e he => by
  rw [h.nextSend]
  exact hs i e (h.window i e he)

/-- A new time makes an entry no older. -/
theorem Recent.rises (hs : s.Recent) (h : s.Rises s') : s'.Recent := fun i e' he' => by
  obtain ⟨e, he, hseq, -⟩ := h.window i e' he'
  rw [h.nextSend, hseq]
  exact hs i e he

/-- The number `CAP` draws back has the cell of the next number. -/
theorem cell_of_sub_eq (hC : ∃ e, CAP = 2 ^ e) (hcap : CAP < 2 ^ 32) {a b : SeqNo}
    (h : (a - b).toNat = CAP) : cell CAP b = cell CAP a := by
  have hnum : number b CAP = a := by
    rw [← h]
    exact number_sub_toNat a b
  have hmod : 0 ≡ CAP [MOD period CAP] := by
    rw [period_eq hcap.le, Nat.ModEq, Nat.mod_self, Nat.zero_mod]
  have hcell := (cell_number_eq_iff hC b 0 CAP).mpr hmod
  rwa [number_zero, hnum] at hcell

/-- The entry that leaves the range of the last `CAP` numbers is the one that is
overwritten. -/
theorem Recent.draws (hC : ∃ e, CAP = 2 ^ e) (hcap : CAP < 2 ^ 32) (hs : s.Recent)
    (h : s.Draws t s') : s'.Recent := fun i e he => by
  have hpos : 0 < CAP := Nat.pos_of_ne_zero (NeZero.ne CAP)
  rw [h.nextSend]
  by_cases hi : i = cell CAP s.nextSendSeqNo
  · obtain ⟨e', he', hseq, -⟩ := h.drawn
    subst hi
    rw [he'] at he
    cases he
    have hone : (s.nextSendSeqNo + 1 - s.nextSendSeqNo).toNat = 1 := by
      rw [add_sub_cancel_left, UInt32.toNat_one]
    rw [hseq, hone]
    exact ⟨rfl, le_rfl, hpos⟩
  · rw [h.others i hi] at he
    obtain ⟨hcell, hlow, hhigh⟩ := hs i e he
    have hlt : (s.nextSendSeqNo - e.seqNo).toNat ≠ CAP := fun heq =>
      hi (hcell.trans (cell_of_sub_eq hC hcap heq))
    have hne : e.seqNo ≠ s.nextSendSeqNo + 1 := fun heq => by
      have hback : (s.nextSendSeqNo - e.seqNo).toNat = 2 ^ 32 - 1 := by
        rw [heq, UInt32.toNat_sub, UInt32.toNat_add, UInt32.toNat_one]
        have := s.nextSendSeqNo.toNat_lt
        omega
      omega
    rw [sub_succ_toNat hne]
    exact ⟨hcell, by omega, by omega⟩

/-! ## The walk of a fresh iterator -/

omit [NeZero CAP] in
/-- The window starts `CAP` numbers back. -/
theorem number_firstSeqNo (s : SeqEx S R CAP) : number s.firstSeqNo CAP = s.nextSendSeqNo :=
  sub_add_cancel s.nextSendSeqNo (lenU32 CAP)

/-- The entry met at a step of the walk carries the number of that step. -/
theorem Recent.seqNo_eq (hC : ∃ e, CAP = 2 ^ e) (hcap : CAP < 2 ^ 32) (hs : s.Recent) {j : ℕ}
    (hj : j < CAP) {e : SendEntry S}
    (he : s.sendWindow (cell CAP (number s.firstSeqNo j)) = some e) :
    e.seqNo = number s.firstSeqNo j := by
  obtain ⟨hcell, hlow, hhigh⟩ := hs _ e he
  have hseq : e.seqNo = number s.firstSeqNo (CAP - (s.nextSendSeqNo - e.seqNo).toNat) := by
    have hfirst :
        s.firstSeqNo.toNat = (2 ^ 32 - CAP % 2 ^ 32 + s.nextSendSeqNo.toNat) % 2 ^ 32 := by
      rw [firstSeqNo, UInt32.toNat_sub, lenU32, UInt32.toNat_ofNat']
    have he := e.seqNo.toNat_lt
    rw [UInt32.toNat_sub] at hlow hhigh
    apply UInt32.toNat_inj.mp
    rw [number_toNat, hfirst, UInt32.toNat_sub]
    omega
  rw [hseq] at hcell
  have hmod : CAP % 2 ^ 32 = CAP := Nat.mod_eq_of_lt hcap
  have hsame := fullPass_inj hC s.firstSeqNo (by rw [hmod]; exact hj) (by rw [hmod]; omega) hcell
  rw [hseq, ← hsame]

/-- The first entry was sent before the second one. -/
def Older (s : SeqEx S R CAP) (a b : SendEntry S) : Prop :=
  (s.nextSendSeqNo - b.seqNo).toNat < (s.nextSendSeqNo - a.seqNo).toNat

/-- The due entries in the order in which they were sent. -/
def dueEntries (s : SeqEx S R CAP) (t : Int64) : List (SendEntry S) :=
  (List.range CAP).filterMap fun j => dueAt t s.sendWindow (number s.firstSeqNo j)

/-- The entry that is due at a number. -/
theorem dueAt_eq_some {w : Fin CAP → Option (SendEntry S)} {k : SeqNo}
    {e : SendEntry S} :
    dueAt t w k = some e ↔ w (cell CAP k) = some e ∧ e.nextResendTime ≤ t := by
  simp [dueAt, Option.filter_eq_some_iff]

/-- The due entries come oldest first. -/
theorem dueEntries_pairwise (hC : ∃ e, CAP = 2 ^ e) (hcap : CAP < 2 ^ 32) (hs : s.Recent) :
    (s.dueEntries t).Pairwise s.Older := by
  refine List.pairwise_filterMap.mpr (List.pairwise_lt_range.imp_of_mem ?_)
  intro j k hj hk hjk a ha b hb
  rw [List.mem_range] at hj hk
  have haj := hs.seqNo_eq hC hcap hj (dueAt_eq_some.mp ha).1
  have hbk := hs.seqNo_eq hC hcap hk (dueAt_eq_some.mp hb).1
  have hnext := s.number_firstSeqNo
  rw [Older, haj, hbk, ← hnext, number_sub_of_le hj.le (by omega),
    number_sub_of_le hk.le (by omega)]
  omega

/-- Every due entry of the window is listed, and no other. -/
theorem mem_dueEntries (hC : ∃ e, CAP = 2 ^ e) (hcap : CAP < 2 ^ 32) {e : SendEntry S} :
    e ∈ s.dueEntries t ↔ ∃ i, s.sendWindow i = some e ∧ e.nextResendTime ≤ t := by
  rw [dueEntries, List.mem_filterMap]
  constructor
  · intro h
    obtain ⟨j, -, hdue⟩ := h
    exact ⟨_, dueAt_eq_some.mp hdue⟩
  · intro h
    obtain ⟨i, he, hdue⟩ := h
    obtain ⟨j, hj, rfl⟩ := visits_all hC hcap s.firstSeqNo i
    rw [Nat.mod_eq_of_lt hcap] at hj
    exact ⟨j, List.mem_range.mpr hj, dueAt_eq_some.mpr ⟨he, hdue⟩⟩

/-! ## The contract of a pass -/

/-- `service_direct` is called with one iterator until it returns `None`. -/
inductive UntilNone (t : Int64) :
    Option ServiceIter → SeqEx S R CAP → List (Packet S) → SeqEx S R CAP → Prop where
  /-- It returns `None`. -/
  | stop {iter : Option ServiceIter} {s : SeqEx S R CAP} (h : (s.serviceDirect t iter).1 = none) :
      UntilNone t iter s [] (s.serviceDirect t iter).2.2
  /-- It returns a packet and is called again. -/
  | more {iter : Option ServiceIter} {s s' : SeqEx S R CAP} {p : Packet S} {ps : List (Packet S)}
      (h : (s.serviceDirect t iter).1 = some p)
      (rest : UntilNone t (s.serviceDirect t iter).2.1 (s.serviceDirect t iter).2.2 ps s') :
      UntilNone t iter s (p :: ps) s'

/-- What one uninterrupted service call at time `t` does. -/
structure ExactPass (s : SeqEx S R CAP) (t : Int64) : Prop where
  terminates : UntilNone t none s (s.service t).1 (s.service t).2.2
  emits : ∃ l : List (SendEntry S), (s.service t).1 = l.map SendEntry.toPacket ∧
    l.Pairwise s.Older ∧ ∀ e, e ∈ l ↔ ∃ i, s.sendWindow i = some e ∧ e.nextResendTime ≤ t
  rearms : (s.service t).2.2 = { s with
    nextServiceTimestamp := (s.service t).2.2.nextServiceTimestamp
    sendWindow := fun i => (s.sendWindow i).map (SendEntry.rearm t s.resendInterval) }
  least : s.nextServiceTimestamp ≤ t → (s.service t).2.2.Timely ∧
    ((∀ i, (s.service t).2.2.sendWindow i = none) ∧
        (s.service t).2.2.nextServiceTimestamp = Int64.maxValue ∨
      ∃ i e, (s.service t).2.2.sendWindow i = some e ∧
        (s.service t).2.2.nextServiceTimestamp = e.nextResendTime)
  skips : t < s.nextServiceTimestamp →
    (∀ i e, s.sendWindow i = some e → t < e.nextResendTime) ∧ (s.service t).1 = [] ∧
      (s.service t).2.2 = s
  delay : (s.service t).2.2.nextServiceTimestamp.toInt - t.toInt < 2 ^ 63 →
    (s.service t).2.1 ≤ s.resendInterval ∧
      t + (s.service t).2.1 ≤ (s.service t).2.2.nextServiceTimestamp

/-- The pass from an iterator ends when every cell before the next number was visited. -/
theorem untilNone_some {fuel : ℕ} {iter : ServiceIter}
    (hfuel : (s.nextSendSeqNo - iter.seqNo).toNat < fuel) :
    UntilNone t (some iter) s (serviceLoop t fuel (some iter) s).1
      (serviceLoop t fuel (some iter) s).2 := by
  induction fuel generalizing iter s with
  | zero => exact absurd hfuel (Nat.not_lt_zero _)
  | succ fuel ih =>
    rw [serviceLoop]
    dsimp only
    cases hp : (s.serviceDirect t (some iter)).1 with
    | none => exact .stop hp
    | some p =>
      refine .more hp ?_
      by_cases hdue : s.nextServiceTimestamp ≤ t
      · have hscan := serviceScan_scanned t _ iter s rfl
        rw [serviceDirect, if_pos hdue, Option.getD_some] at hp ⊢
        dsimp only at hp ⊢
        generalize serviceScan t (s.nextSendSeqNo - iter.seqNo).toNat iter s = r at hscan hp ⊢
        cases hscan with
        | done m _ => cases hp
        | resend q iter' w hlt _ => exact ih (by dsimp only; omega)
      · rw [serviceDirect, if_neg hdue] at hp
        cases hp

/-- A pass ends, whatever the state. -/
theorem service_terminates (s : SeqEx S R CAP) (t : Int64) :
    UntilNone t none s (s.service t).1 (s.service t).2.2 := by
  rw [service]
  dsimp only
  rw [serviceLoop]
  dsimp only
  cases hp : (s.serviceDirect t none).1 with
  | none => exact .stop hp
  | some p =>
    refine .more hp ?_
    by_cases hdue : s.nextServiceTimestamp ≤ t
    · have hdist := s.sub_firstSeqNo
      have hlen : (lenU32 CAP).toNat = CAP % 2 ^ 32 := UInt32.toNat_ofNat'
      have hscan := serviceScan_scanned t _ ⟨s.firstSeqNo, Int64.maxValue⟩ s rfl
      rw [serviceDirect, if_pos hdue, Option.getD_none] at hp ⊢
      dsimp only [firstSeqNo] at hp hscan hdist ⊢
      generalize serviceScan t _ _ s = r at hscan hp ⊢
      cases hscan with
      | done m _ => cases hp
      | resend q iter' w hlt _ => exact untilNone_some (by dsimp only at hlt ⊢; omega)
    · rw [serviceDirect, if_neg hdue] at hp
      cases hp

/-- A full walk arms every due entry again. -/
theorem fullPass_window (hC : ∃ e, CAP = 2 ^ e) (hcap : CAP < 2 ^ 32) (s : SeqEx S R CAP)
    (t : Int64) :
    (s.fullPass t).2.2 = fun i => (s.sendWindow i).map (SendEntry.rearm t s.resendInterval) :=
  funext fun i => (passFrom_window i).1 (visits_all hC hcap s.firstSeqNo i)

/-- A full walk ends with the least resend time, or at the end of time. -/
theorem fullPass_least (hC : ∃ e, CAP = 2 ^ e) (hcap : CAP < 2 ^ 32) (s : SeqEx S R CAP)
    (t : Int64) :
    (∀ i e, (s.fullPass t).2.2 i = some e → (s.fullPass t).2.1 ≤ e.nextResendTime) ∧
      ((∀ i, (s.fullPass t).2.2 i = none) ∧ (s.fullPass t).2.1 = Int64.maxValue ∨
        ∃ i e, (s.fullPass t).2.2 i = some e ∧ (s.fullPass t).2.1 = e.nextResendTime) := by
  obtain ⟨-, hbound, hleast⟩ := passFrom_least t s.resendInterval (CAP % 2 ^ 32)
    s.firstSeqNo Int64.maxValue s.sendWindow
  have hentry (i : Fin CAP) (e' : SendEntry S) (he' : (s.fullPass t).2.2 i = some e') :
      (s.fullPass t).2.1 ≤ e'.nextResendTime := by
    rw [fullPass_window hC hcap] at he'
    obtain ⟨e, he, rfl⟩ := Option.map_eq_some_iff.mp he'
    exact hbound i e (visits_all hC hcap _ i) he
  refine ⟨hentry, ?_⟩
  rcases hleast with hmax | ⟨i, e, -, he, hmin⟩
  · by_cases hempty : ∀ i, (s.fullPass t).2.2 i = none
    · exact .inl ⟨hempty, hmax⟩
    · obtain ⟨i, hi⟩ := not_forall.mp hempty
      obtain ⟨e, he⟩ := Option.ne_none_iff_exists'.mp hi
      have hle := hentry i e he
      rw [show (s.fullPass t).2.1 = Int64.maxValue from hmax] at hle
      have htop : e.nextResendTime ≤ Int64.maxValue :=
        Int64.le_iff_toInt_le.mpr e.nextResendTime.toInt_le
      exact .inr ⟨i, e, he, hmax.trans (Int64.le_antisymm hle htop)⟩
  · refine .inr ⟨i, e.rearm t s.resendInterval, ?_, hmin⟩
    rw [fullPass_window hC hcap]
    exact congrArg (Option.map (SendEntry.rearm t s.resendInterval)) he

/-- After a pass nothing is due before its time. -/
theorem le_nextServiceTimestamp (hC : ∃ e, CAP = 2 ^ e) (hcap : CAP < 2 ^ 32)
    (ht : t ≤ t + s.resendInterval) (hdue : s.nextServiceTimestamp ≤ t) :
    t ≤ (s.service t).2.2.nextServiceTimestamp := by
  have hstate := (service_of_due hdue).2
  rw [hstate]
  rcases (s.fullPass_least hC hcap t).2 with ⟨-, hmax⟩ | ⟨i, e', he', hmin⟩
  · show t ≤ (s.fullPass t).2.1
    rw [hmax]
    exact Int64.le_iff_toInt_le.mpr t.toInt_le
  · show t ≤ (s.fullPass t).2.1
    rw [hmin]
    rw [fullPass_window hC hcap] at he'
    obtain ⟨e, -, rfl⟩ := Option.map_eq_some_iff.mp he'
    by_cases hle : e.nextResendTime ≤ t
    · rw [SendEntry.rearm_of_le hle]
      exact ht
    · rw [SendEntry.rearm_of_not_le hle]
      exact Int64.le_of_lt (Int64.not_le.mp hle)

omit [NeZero CAP] in
/-- Nothing is armed again when nothing is due. -/
theorem map_rearm_of_lt {i : Fin CAP}
    (h : ∀ e, s.sendWindow i = some e → t < e.nextResendTime) :
    (s.sendWindow i).map (SendEntry.rearm t s.resendInterval) = s.sendWindow i := by
  cases he : s.sendWindow i with
  | none => rfl
  | some e => rw [Option.map_some, SendEntry.rearm_of_not_le (Int64.not_le.mpr (h e he))]

/-- The delay never reaches past the deadline. -/
theorem service_delay_le (h0 : 0 ≤ s.resendInterval) (ht : NoOverflow t s.resendInterval)
    (hle : t ≤ (s.service t).2.2.nextServiceTimestamp)
    (hinterval : (s.service t).2.2.resendInterval = s.resendInterval)
    (hsub : (s.service t).2.2.nextServiceTimestamp.toInt - t.toInt < 2 ^ 63) :
    (s.service t).2.1 ≤ s.resendInterval ∧
      t + (s.service t).2.1 ≤ (s.service t).2.2.nextServiceTimestamp := by
  rw [service_delay, hinterval]
  generalize (s.service t).2.2.nextServiceTimestamp = m at hle hsub ⊢
  have hpos : 0 ≤ s.resendInterval.toInt := Int64.le_iff_toInt_le.mp h0
  have hlow := t.le_toInt
  have hle' : t.toInt ≤ m.toInt := Int64.le_iff_toInt_le.mp hle
  have hdiff : (m - t).toInt = m.toInt - t.toInt := by
    rw [Int64.toInt_sub]
    exact Int.bmod_eq_of_le (by omega) (by omega)
  have hmin := Std.le_min_iff.mp (Int64.le_refl (min s.resendInterval (m - t)))
  refine ⟨hmin.1, ?_⟩
  generalize hd : min s.resendInterval (m - t) = d at hmin ⊢
  have hd1 : d.toInt ≤ s.resendInterval.toInt := Int64.le_iff_toInt_le.mp hmin.1
  have hd2 : d.toInt ≤ m.toInt - t.toInt := hdiff ▸ Int64.le_iff_toInt_le.mp hmin.2
  have hd0 : 0 ≤ d.toInt := by
    rcases Std.min_eq_or (a := s.resendInterval) (b := m - t) with heq | heq
    · rw [← hd, heq]
      exact hpos
    · rw [← hd, heq, hdiff]
      omega
  have hsum : t.toInt + s.resendInterval.toInt < 2 ^ 63 := ht
  rw [Int64.le_iff_toInt_le, Int64.toInt_add, Int.bmod_eq_of_le (by omega) (by omega)]
  omega

/-- A call that sends nothing while a packet is due is not exact. -/
theorem not_exactPass_of_silent {i : Fin CAP} {e : SendEntry S} (he : s.sendWindow i = some e)
    (hdue : e.nextResendTime ≤ t) (hsilent : (s.service t).1 = []) : ¬ s.ExactPass t := by
  intro hpass
  obtain ⟨l, hout, -, hmem⟩ := hpass.emits
  rw [hsilent] at hout
  have hnil : l = [] := List.map_eq_nil_iff.mp hout.symm
  have hel : e ∈ l := (hmem e).mpr ⟨i, he, hdue⟩
  rw [hnil] at hel
  exact List.not_mem_nil hel

/-- Below `2 ^ 32` cells every pass is exact. -/
theorem exactPass_of_small (hC : ∃ e, CAP = 2 ^ e) (hcap : CAP < 2 ^ 32) (htimely : s.Timely)
    (hrecent : s.Recent) (h0 : 0 ≤ s.resendInterval) (ht : NoOverflow t s.resendInterval) :
    s.ExactPass t := by
  have harm := ht.le h0
  by_cases hdue : s.nextServiceTimestamp ≤ t
  · obtain ⟨hout, hstate⟩ := service_of_due hdue
    have hwindow := s.fullPass_window hC hcap t
    have hleast := s.fullPass_least hC hcap t
    have hinterval : (s.service t).2.2.resendInterval = s.resendInterval := by rw [hstate]
    refine ⟨s.service_terminates t, ⟨s.dueEntries t, ?_, dueEntries_pairwise hC hcap hrecent,
      fun e => mem_dueEntries hC hcap⟩, ?_, fun _ => ?_, fun hlt => ?_, ?_⟩
    · rw [hout, fullPass, passFrom_resent fun j hj k hk => fullPass_inj hC _ hj hk, dueEntries,
        List.map_filterMap, Nat.mod_eq_of_lt hcap]
    · rw [hstate, hwindow]
    · rw [hstate]
      exact hleast
    · exact absurd hdue (Int64.not_le.mpr hlt)
    · exact service_delay_le h0 ht (le_nextServiceTimestamp hC hcap harm hdue) hinterval
  · obtain ⟨hout, hstate⟩ := service_of_not_due hdue
    have hlater (i : Fin CAP) (e : SendEntry S) (he : s.sendWindow i = some e) :
        t < e.nextResendTime := by
      rw [← Int64.not_le]
      exact fun hle => hdue (Int64.le_trans (htimely i e he) hle)
    have hwindow : (fun i => (s.sendWindow i).map (SendEntry.rearm t s.resendInterval)) =
        s.sendWindow := funext fun i => map_rearm_of_lt fun e he => hlater i e he
    refine ⟨s.service_terminates t, ⟨[], by rw [hout]; rfl, .nil, fun e => ?_⟩, ?_, fun hle => ?_,
      fun _ => ⟨hlater, hout, hstate⟩, ?_⟩
    · constructor
      · exact fun h => absurd h List.not_mem_nil
      · intro h
        obtain ⟨i, he, hle⟩ := h
        exact absurd hle (Int64.not_le.mpr (hlater i e he))
    · rw [hstate, hwindow]
    · exact absurd hle hdue
    · refine service_delay_le h0 ht ?_ (by rw [hstate])
      rw [hstate]
      exact Int64.le_of_lt (Int64.not_le.mp hdue)

end SeqEx

namespace Serviced

variable {s : Serviced S R CAP}

/-- Every possible step keeps the entries recent. -/
theorem Recent.perform (hC : ∃ e, CAP = 2 ^ e) (hcap : CAP < 2 ^ 32) (hsound : s.Sound)
    (hs : s.seqEx.Recent) {op : ServiceOp S R} (hpossible : s.Possible op) :
    (s.perform op).seqEx.Recent := by
  have hserve {t : Int64} (ht : NoOverflow t s.seqEx.resendInterval) (iter : Option ServiceIter)
      (hiter : ∀ it ∈ iter, it ∈ s.iters) : (s.seqEx.serviceDirect t iter).2.2.Recent :=
    hs.rises (SeqEx.serviceDirect_timely hC hcap (ht.le hsound.interval) hsound.timely
      fun it hit => hsound.covers it (hiter it hit)).1
  cases op with
  | call c =>
    have hcall (hserves : c.servesAt? = none) : (s.perform (.call c)).seqEx.Recent := by
      rcases s.seqEx.call_timing hserves with h | ⟨-, t, -, h⟩
      · exact hs.shrinks h
      · exact hs.draws hC hcap h
    cases c with
    | serviceDirect t iter => exact hpossible.elim
    | service t =>
      exact hs.rises (SeqEx.serviceLoop_timely hC hcap ((SeqEx.lenU32 CAP).toNat + 1)
        (NoOverflow.le hpossible hsound.interval) hsound.timely none nofun).1
    | _ => exact hcall rfl
  | begin t => exact hserve hpossible none nofun
  | resume k t => exact hserve hpossible.2 _ fun it hit => List.mem_of_getElem? hit
  | clone k => exact hs
  | abandon k => exact hs
  | setInterval d => exact hs

/-- The entries are recent in every reachable state. -/
theorem reaches_recent (hC : ∃ e, CAP = 2 ^ e) (hcap : CAP < 2 ^ 32) {interval : Int64}
    (h0 : 0 ≤ interval) {initialSeqNo : SeqNo}
    (hrun : Reaches Paced perform (new interval initialSeqNo : Serviced S R CAP) s) :
    s.seqEx.Recent := by
  refine hrun.invariant (I := fun u => u.seqEx.Recent) nofun fun u op hu hrecent hop => ?_
  exact Recent.perform hC hcap (reaches_sound hC hcap h0 hu) hrecent hop.1

/-- In every state of the runs that lap no iterator a pass is exact, at every
time, precisely for the capacities below `2^32`. -/
theorem exactPass_iff_small [Inhabited S] (hC : ∃ e ≥ 2, CAP = 2 ^ e) (interval : Int64)
    (h0 : 0 ≤ interval) (initialSeqNo : SeqNo) :
    (∀ s : Serviced S R CAP, Reaches Paced perform (new interval initialSeqNo) s →
      ∀ t, NoOverflow t s.seqEx.resendInterval → s.seqEx.ExactPass t) ↔ CAP < 2 ^ 32 := by
  have hpow : ∃ e, CAP = 2 ^ e := hC.imp fun _ h => h.2
  constructor
  · intro h
    by_contra hcap
    have hmod := mod_eq_zero_of_le hpow (not_lt.mp hcap)
    obtain ⟨hrun, hinterval, hdue, e, he, hzero⟩ := firstSent_spec (R := R) (by omega : 2 < CAP)
      h0 initialSeqNo (default : S)
    have hpossible : NoOverflow 0
        (firstSent interval initialSeqNo default : Serviced S R CAP).seqEx.resendInterval := by
      rw [hinterval]
      exact noOverflow_zero interval
    exact SeqEx.not_exactPass_of_silent he (Int64.le_of_eq hzero) (service_misses hmod hdue).1
      (h _ hrun 0 hpossible)
  · intro hcap s hrun t ht
    have hsound := reaches_sound hpow hcap h0 hrun
    exact SeqEx.exactPass_of_small hpow hcap hsound.timely (reaches_recent hpow hcap h0 hrun)
      hsound.interval ht

/-- Two packets are due and the one between them is not. -/
def dueAround : List (ServiceOp ℕ ℕ) :=
  [.call (.trySend 0 true fun _ => 70), .call (.trySend 90 false fun _ => 71),
    .call (.trySend 10 true fun _ => 72)]

/-- The pass emits the two packets that are due. -/
theorem exactPass_iff_small_dueAround :
    (dueAround.foldl perform (new 100 0 : Serviced ℕ ℕ 4)).seqEx.ExactPass 120 :=
  (exactPass_iff_small ⟨2, le_rfl, rfl⟩ 100 (by decide) 0).mpr (by decide) _
    (Allowed.reaches (l := dueAround) (by decide)) 120 (by decide)

/-- With `2^32` cells a due packet is not resent. -/
theorem full_ring_resends_nothing :
    ∃ s : Serviced ℕ ℕ (2 ^ 32), Reaches Paced perform (new 100 0) s ∧
      s.seqEx.nextServiceTimestamp ≤ 0 ∧
      (∃ e, s.seqEx.sendWindow 0 = some e ∧ e.nextResendTime = 0) ∧
      (s.seqEx.service 0).1 = [] ∧ ¬ s.seqEx.ExactPass 0 := by
  obtain ⟨hrun, -, hdue, e, he, hzero⟩ :=
    firstSent_spec (R := ℕ) (by decide : 2 < 2 ^ 32) (by decide : (0 : Int64) ≤ 100) 0 (70 : ℕ)
  have hnone := (service_misses (by decide) hdue).1
  exact ⟨_, hrun, hdue, ⟨e, he, hzero⟩, hnone,
    SeqEx.not_exactPass_of_silent he (Int64.le_of_eq hzero) hnone⟩

end Serviced

end SequentialExchange
