import SequentialExchange.ServicePass

/-!
# What a call does to the resend times

A call that resends nothing either draws a number, which arms one new entry and
may lower the deadline, or at most takes entries out. A call of the service
loop draws nothing and lets no resend time get earlier.
-/

namespace SequentialExchange

open WrapNumbering

variable {S R : Type*} {CAP : ℕ} {t interval : Int64}

/-- The sum of the time and the interval does not wrap. -/
def NoOverflow (t interval : Int64) : Prop := t.toInt + interval.toInt < 2 ^ 63

/-- Overflow is a comparison of integers. -/
instance decidableNoOverflow (t interval : Int64) : Decidable (NoOverflow t interval) :=
  inferInstanceAs (Decidable (_ < _))

/-- Then the machine addition is the addition of integers. -/
theorem NoOverflow.toInt_add (h : NoOverflow t interval) (h0 : 0 ≤ interval) :
    (t + interval).toInt = t.toInt + interval.toInt := by
  have hlow := t.le_toInt
  have hpos : 0 ≤ interval.toInt := Int64.le_iff_toInt_le.mp h0
  have hhigh : t.toInt + interval.toInt < 2 ^ 63 := h
  rw [Int64.toInt_add]
  exact Int.bmod_eq_of_le (by omega) (by omega)

/-- Then arming is for a time to come. -/
theorem NoOverflow.le (h : NoOverflow t interval) (h0 : 0 ≤ interval) : t ≤ t + interval := by
  have hpos : 0 ≤ interval.toInt := Int64.le_iff_toInt_le.mp h0
  rw [Int64.le_iff_toInt_le, h.toInt_add h0]
  omega

/-- A packet sent at this time is due at time zero. -/
theorem noOverflow_neg (h0 : 0 ≤ interval) : NoOverflow (-interval) interval := by
  have hpos : 0 ≤ interval.toInt := Int64.le_iff_toInt_le.mp h0
  have hlt := interval.toInt_lt
  have hneg : (-interval).toInt = -interval.toInt := by
    rw [Int64.toInt_neg]
    exact Int.bmod_eq_of_le (by omega) (by omega)
  rw [NoOverflow, hneg]
  omega

/-- Nothing overflows at time zero. -/
theorem noOverflow_zero (interval : Int64) : NoOverflow 0 interval := by
  rw [NoOverflow, Int64.toInt_zero, Int.zero_add]
  exact interval.toInt_lt

/-- The time at which a call draws a sequence number. -/
def Call.drawsAt? : Call S R → Option Int64
  | .trySend t _ _ | .reply t _ _ _ _ => some t
  | .receive _ | .pump | .ack _ _ | .unlock | .serviceDirect _ _ | .service _ => none

/-- The call draws a sequence number in this state. -/
def SeqEx.Accepts [NeZero CAP] (s : SeqEx S R CAP) : Call S R → Prop
  | .trySend _ _ _ => s.isFullInner none = .ok ()
  | .reply _ r _ _ _ => r ∈ s.concurrentReplies
  | .receive _ | .pump | .ack _ _ | .unlock | .serviceDirect _ _ | .service _ => False

/-- Whether a call is accepted is read off the state. -/
instance SeqEx.decidableAccepts [NeZero CAP] (s : SeqEx S R CAP) : ∀ c, Decidable (s.Accepts c)
  | .trySend _ _ _ => inferInstanceAs (Decidable (_ = _))
  | .reply _ r _ _ _ => inferInstanceAs (Decidable (r ∈ _))
  | .receive _ | .pump | .ack _ _ | .unlock | .serviceDirect _ _ | .service _ => isFalse id

/-- The time at which a call resends. -/
def Call.servesAt? : Call S R → Option Int64
  | .serviceDirect t _ | .service t => some t
  | .trySend _ _ _ | .receive _ | .pump | .reply _ _ _ _ _ | .ack _ _ | .unlock => none

namespace SeqEx

/-- Entries are at most taken out. -/
structure Shrinks (s s' : SeqEx S R CAP) : Prop where
  nextSend : s'.nextSendSeqNo = s.nextSendSeqNo
  deadline : s'.nextServiceTimestamp = s.nextServiceTimestamp
  interval : s'.resendInterval = s.resendInterval
  window : ∀ i e, s'.sendWindow i = some e → s.sendWindow i = some e

/-- Resend times at most get later. -/
structure Rises (s s' : SeqEx S R CAP) : Prop where
  nextSend : s'.nextSendSeqNo = s.nextSendSeqNo
  interval : s'.resendInterval = s.resendInterval
  window : ∀ i e', s'.sendWindow i = some e' → ∃ e, s.sendWindow i = some e ∧
    e'.seqNo = e.seqNo ∧ e.nextResendTime ≤ e'.nextResendTime

/-- Nothing rises when nothing is done. -/
theorem Rises.rfl' (s : SeqEx S R CAP) : s.Rises s :=
  ⟨rfl, rfl, fun _ e he => ⟨e, he, rfl, Int64.le_refl _⟩⟩

/-- Times that rise twice have risen. -/
theorem Rises.trans {s u v : SeqEx S R CAP} (h : s.Rises u) (h' : u.Rises v) : s.Rises v where
  nextSend := h'.nextSend.trans h.nextSend
  interval := h'.interval.trans h.interval
  window i e'' hv := by
    obtain ⟨e', hu, hseq', hle'⟩ := h'.window i e'' hv
    obtain ⟨e, hs, hseq, hle⟩ := h.window i e' hu
    exact ⟨e, hs, hseq'.trans hseq, Int64.le_trans hle hle'⟩

/-- Nothing leaves the window when nothing is done. -/
theorem Shrinks.rfl' (s : SeqEx S R CAP) : s.Shrinks s := ⟨rfl, rfl, rfl, fun _ _ he => he⟩

/-- What leaves the window in two calls. -/
theorem Shrinks.trans {s u v : SeqEx S R CAP} (h : s.Shrinks u) (h' : u.Shrinks v) :
    s.Shrinks v where
  nextSend := h'.nextSend.trans h.nextSend
  deadline := h'.deadline.trans h.deadline
  interval := h'.interval.trans h.interval
  window i e he := h.window i e (h'.window i e he)

/-- Taking an entry out. -/
theorem shrinks_of_update {s s' : SeqEx S R CAP} {i : Fin CAP}
    (hnext : s'.nextSendSeqNo = s.nextSendSeqNo)
    (hdeadline : s'.nextServiceTimestamp = s.nextServiceTimestamp)
    (hinterval : s'.resendInterval = s.resendInterval)
    (hwindow : s'.sendWindow = Function.update s.sendWindow i none) : s.Shrinks s' where
  nextSend := hnext
  deadline := hdeadline
  interval := hinterval
  window j e he := by
    rw [hwindow] at he
    by_cases hj : j = i
    · subst hj
      rw [Function.update_self] at he
      cases he
    · rwa [Function.update_of_ne hj] at he

/-- What is handed over was placed without touching the send side. -/
theorem Shrinks.of_placed {s u v : SeqEx S R CAP} (h : u.Shrinks v)
    (hnext : u.nextSendSeqNo = s.nextSendSeqNo)
    (hdeadline : u.nextServiceTimestamp = s.nextServiceTimestamp)
    (hinterval : u.resendInterval = s.resendInterval) (hwindow : u.sendWindow = s.sendWindow) :
    s.Shrinks v :=
  ⟨h.nextSend.trans hnext, h.deadline.trans hdeadline, h.interval.trans hinterval,
    fun i e he => hwindow ▸ h.window i e he⟩

/-- The code lowers a deadline by a comparison. -/
theorem lower_eq_min (a b : Int64) : (if a > b then b else a) = min a b := by
  rw [Std.min_eq_if]
  by_cases h : a ≤ b
  · rw [if_pos h, if_neg (Int64.not_lt.mpr h)]
  · rw [if_neg h, if_pos (Int64.not_le.mp h)]

variable [NeZero CAP]

/-- A number is drawn at time `t`. -/
structure Draws (t : Int64) (s s' : SeqEx S R CAP) : Prop where
  nextSend : s'.nextSendSeqNo = s.nextSendSeqNo + 1
  deadline : s'.nextServiceTimestamp = min s.nextServiceTimestamp (t + s.resendInterval)
  interval : s'.resendInterval = s.resendInterval
  drawn : ∃ e, s'.sendWindow (cell CAP s.nextSendSeqNo) = some e ∧ e.seqNo = s.nextSendSeqNo ∧
    e.nextResendTime = t + s.resendInterval
  others : ∀ i, i ≠ cell CAP s.nextSendSeqNo → s'.sendWindow i = s.sendWindow i

/-- An entry is added with its time, and the deadline is lowered to it. -/
theorem insertEntry_draws (s : SeqEx S R CAP) (t : Int64) (r : Option SeqNo) (b : Bool) (d : S) :
    s.Draws t (s.insertEntry t r b d).2 where
  nextSend := rfl
  deadline := lower_eq_min _ _
  interval := rfl
  drawn := ⟨_, Function.update_self .., rfl, rfl⟩
  others _ hi := Function.update_of_ne hi _ _

/-- A delivery takes out the packet that is answered, at most. -/
theorem handOver_shrinks (s : SeqEx S R CAP) (n : SeqNo) (r : Option SeqNo) (b : Bool) (d : R) :
    s.Shrinks (s.handOver n r b d).2 := by
  rcases s.handOver_cases n r b d with ⟨_, _, -, -, -, h⟩ | ⟨-, h⟩
  · rw [h]
    exact shrinks_of_update rfl rfl rfl rfl
  · rw [h]
    exact ⟨rfl, rfl, rfl, fun _ _ he => he⟩

/-- A receipt takes packets out of the window at most. -/
theorem receive_shrinks (s : SeqEx S R CAP) (p : Packet R) :
    s.Shrinks (s.call (.receive p)).2 := by
  rcases p.eq_ack_or_newWithData with ⟨r, rfl⟩ | ⟨n, r, b, d, rfl⟩
  · simp only [call, tryReceiveRawAndDirect]
    rcases s.takeSend_cases r with ⟨e, -, -, ht⟩ | ⟨-, ht⟩
    · rw [ht]
      exact shrinks_of_update rfl rfl rfl rfl
    · rw [ht]
      exact Shrinks.rfl' s
  · have hcases := receiveData_cases id s n r b d
    simp only [call, tryReceive_newWithData]
    generalize s.receiveData id n r b d = res at hcases ⊢
    cases hcases with
    | next _ _ _ _ => exact (handOver_shrinks _ n r b d).of_placed rfl rfl rfl rfl
    | ahead _ _ _ _ => exact (handOver_shrinks _ n r b d).of_placed rfl rfl rfl rfl
    | waits _ _ _ _ _ => exact ⟨rfl, rfl, rfl, fun _ _ he => he⟩
    | _ => exact Shrinks.rfl' s

/-- So does `try_pump`. -/
theorem pump_shrinks (s : SeqEx S R CAP) : s.Shrinks (s.call .pump).2 := by
  have hcases := s.tryPumpRaw_cases
  simp only [call]
  generalize s.tryPumpRaw = res at hcases ⊢
  cases hcases with
  | next n r b d _ _ _ => exact (handOver_shrinks _ n r b d).of_placed rfl rfl rfl rfl
  | _ => exact Shrinks.rfl' s

/-- A call outside the service loop draws a number or at most takes entries out. -/
theorem call_timing (s : SeqEx S R CAP) {c : Call S R} (hc : c.servesAt? = none) :
    s.Shrinks (s.call c).2 ∨ s.Accepts c ∧ ∃ t ∈ c.drawsAt?, s.Draws t (s.call c).2 := by
  cases c with
  | trySend t b f =>
    simp only [call, trySendDirectWith]
    cases hfull : s.isFullInner none with
    | ok u => exact .inr ⟨hfull, t, rfl, insertEntry_draws s t none b _⟩
    | error e => exact .inl (Shrinks.rfl' s)
  | receive p => exact .inl (s.receive_shrinks p)
  | pump => exact .inl s.pump_shrinks
  | reply t r u b d =>
    simp only [call, replyRawAndDirect]
    rcases s.removeReservation_cases r with ⟨l, hl, ht⟩ | ⟨-, ht⟩
    · rw [ht]
      have hmem : r ∈ s.concurrentReplies := hl.mem_iff.mpr (List.mem_cons_self ..)
      have hdraws := insertEntry_draws
        { s with concurrentReplies := l, isLocked := s.isLocked && !u } t (some r) b d
      exact .inr ⟨hmem, t, rfl, hdraws.nextSend, hdraws.deadline, hdraws.interval, hdraws.drawn,
        hdraws.others⟩
    · rw [ht]
      exact .inl (Shrinks.rfl' s)
  | ack r u =>
    simp only [call, ackRawAndDirect]
    rcases s.removeReservation_cases r with ⟨l, -, ht⟩ | ⟨-, ht⟩
    · rw [ht]
      exact .inl ⟨rfl, rfl, rfl, fun _ _ he => he⟩
    · rw [ht]
      exact .inl (Shrinks.rfl' s)
  | unlock => exact .inl ⟨rfl, rfl, rfl, fun _ _ he => he⟩
  | serviceDirect t iter => cases hc
  | service t => cases hc

end SeqEx

end SequentialExchange
