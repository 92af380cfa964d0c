import SequentialExchange.Reassembly
import SequentialExchange.Reservations

/-!
# The flag that asks for a pump

An accepted packet comes with a flag that tells whether a stored packet can be
pumped now. At the cursor, and when pumping, it is exact. For an acknowledgement
and for a packet ahead of the cursor it is always false, also when the emptied
cell of the send window was all that the stored packet at the cursor waited for.
-/

namespace SequentialExchange

open WrapNumbering GuardedRuns

variable {S R : Type*} {CAP : ℕ} [NeZero CAP]

/-- The view of the receive window goes on over every call. -/
theorem ReceiveView.call {base : SeqNo} {s : SeqEx S R CAP} {cursor : ℕ} {early : Set ℕ}
    (hC : ∃ e, CAP = 2 ^ e) (hv : ReceiveView base s cursor early) (c : Call S R) :
    ∃ cursor' early', ReceiveView base (s.call c).2 cursor' early' := by
  have heff := s.call_effect c
  generalize (s.call c).1 = a, (s.call c).2 = s' at heff ⊢
  cases heff with
  | reply _ _ _ _ _ _ _ _ s1 hs1 =>
    subst hs1
    exact ⟨cursor, early, hv.congr rfl rfl⟩
  | hold n r b d _ _ hrange hdup _ => exact ⟨cursor, early, hv.store hC hrange hdup r b d⟩
  | hand n r b d _ t hin hplaced hfull _ =>
    obtain ⟨k, -, -, -, hdeliver⟩ := ReceiveView.placed (I := ⟨cursor, early, []⟩) hC hv hin hfull
      hplaced
    obtain ⟨J, -, hview⟩ := hdeliver (fun _ => b) rfl
    obtain ⟨hrecv, hwin⟩ := t.handOver_receive n r b d
    exact ⟨J.cursor, J.early, hview.congr hrecv hwin⟩
  | resend _ _ hre _ _ _ => exact ⟨cursor, early, hv.congr hre.nextRecv hre.recvWindow⟩
  | _ => exact ⟨cursor, early, hv.congr rfl rfl⟩

namespace SeqEx

variable {s : SeqEx S R CAP}

/-- The packet stored at the cursor can be pumped. -/
def Pumpable (s : SeqEx S R CAP) : Prop :=
  ∃ n r b d, s.recvWindow (cell CAP s.nextRecvSeqNo) = .occupied n r b d ∧
    s.isFullInner r = .ok () ∧ (b = true → s.isLocked = false)

/-- A packet is ready when `try_pump` returns one. -/
theorem pumpable_iff (s : SeqEx S R CAP) : s.Pumpable ↔ ∃ o, s.tryPumpRaw.1 = .ok o := by
  constructor
  · rintro ⟨n, r, b, d, hcell, hfull, hlock⟩
    exact ⟨_, congrArg Prod.fst (tryPumpRaw_next hcell hfull hlock)⟩
  · rintro ⟨o, ho⟩
    have hcases := s.tryPumpRaw_cases
    generalize s.tryPumpRaw = res at hcases ho
    cases hcases with
    | next n r b d hcell hfull hlock => exact ⟨n, r, b, d, hcell, hfull, hlock⟩
    | _ => cases ho

/-- Otherwise it returns an error. -/
theorem not_pumpable_iff (s : SeqEx S R CAP) : ¬ s.Pumpable ↔ ∃ e, s.tryPumpRaw.1 = .error e := by
  rw [pumpable_iff]
  cases s.tryPumpRaw.1 with
  | ok o => exact ⟨fun h => absurd ⟨o, rfl⟩ h, nofun⟩
  | error e => exact ⟨fun _ => ⟨e, rfl⟩, fun _ => nofun⟩

/-- The flag of an `Ok` is true only when the packet at the cursor is stored, and
false only when a pump fails. -/
def FlagTruthful (s : SeqEx S R CAP) (c : Call S R) : Prop :=
  ∀ ok doPump, (s.call c).1 = .received ok doPump ∨ (s.call c).1 = .pumped ok doPump →
    (doPump = true → ∃ r b d, (s.call c).2.recvWindow (cell CAP (s.call c).2.nextRecvSeqNo) =
      .occupied (s.call c).2.nextRecvSeqNo r b d) ∧
    (doPump = false → ∃ e, (s.call c).2.tryPumpRaw.1 = .error e)

/-- The cell of the send window that taking the packet in empties. -/
def freed? (s : SeqEx S R CAP) (p : Packet R) : Option (Fin CAP) :=
  p.replyNo?.bind fun r =>
    ((s.sendWindow (cell CAP r)).filter fun e => e.seqNo = r).map fun _ => cell CAP r

/-- The packet is an acknowledgement of a packet in the window, or it is
processed ahead of the cursor. -/
def TakenAside (s : SeqEx S R CAP) (p : Packet R) : Prop :=
  match p.seqNo? with
  | none => (s.freed? p).isSome = true
  | some n => s.InRange n ∧ n ≠ s.nextRecvSeqNo ∧ p.isSeqCst = false ∧
    s.isFullInner p.replyNo? = .ok ()

/-- The packet stored at the cursor has the lock and the reservation it needs,
also counting one for the packet `p`, and no cell in its way but the one that
`p` empties. -/
def Uncovers (s : SeqEx S R CAP) (p : Packet R) : Prop :=
  ∃ n r b d, s.recvWindow (cell CAP s.nextRecvSeqNo) = .occupied n r b d ∧
    (b = true → s.isLocked = false) ∧
    s.concurrentReplies.length + p.seqNo?.toList.length < CAP - 2 ∧
    ∀ i ≤ s.concurrentReplies.length + p.seqNo?.toList.length,
      s.isBlockedAt r i = true → s.freed? p = some (s.sendCell i)

/-- A packet is taken in aside of the cursor, and the stored packet at the cursor
is left for nobody to pump. -/
def Overlooks (s : SeqEx S R CAP) : Call S R → Prop
  | .receive p => s.TakenAside p ∧ s.Uncovers p
  | _ => False

/-! ## After a packet was taken in -/

/-- The place that the answered packet holds does not block its own answer. -/
theorem isBlockedAt_eq (s : SeqEx S R CAP) (r : Option SeqNo) (i : ℕ) :
    s.isBlockedAt r i =
      ((s.sendWindow (s.sendCell i)).isSome && r.map (cell CAP) != some (s.sendCell i)) := rfl

/-- Emptying a cell unblocks what it blocked. -/
theorem isBlockedAt_of_freed {t : SeqEx S R CAP} {o : Option (Fin CAP)} {r : Option SeqNo} {i : ℕ}
    (hnext : t.nextSendSeqNo = s.nextSendSeqNo)
    (hin : ∀ j, o = some j → t.sendWindow j = none)
    (hout : ∀ j, o ≠ some j → t.sendWindow j = s.sendWindow j) :
    t.isBlockedAt r i = false ↔ (s.isBlockedAt r i = true → o = some (s.sendCell i)) := by
  have hcell : t.sendCell i = s.sendCell i := by rw [sendCell, sendCell, hnext]
  rw [isBlockedAt_eq, isBlockedAt_eq, hcell]
  by_cases ho : o = some (s.sendCell i)
  · rw [hin _ ho]
    exact ⟨fun _ _ => ho, fun _ => rfl⟩
  · rw [hout _ ho]
    simp [ho]

/-- When taking `p` in leaves the cell at the cursor and the lock alone, the
stored packet becomes pumpable exactly as the windows before tell. -/
theorem pumpable_after_iff {t : SeqEx S R CAP} {p : Packet R}
    (hlen : t.concurrentReplies.length + 1 < 2 ^ 32)
    (hcursor : t.recvWindow (cell CAP t.nextRecvSeqNo) = s.recvWindow (cell CAP s.nextRecvSeqNo))
    (hlock : t.isLocked = s.isLocked) (hnext : t.nextSendSeqNo = s.nextSendSeqNo)
    (hreplies : t.concurrentReplies.length =
      s.concurrentReplies.length + p.seqNo?.toList.length)
    (hin : ∀ j, s.freed? p = some j → t.sendWindow j = none)
    (hout : ∀ j, s.freed? p ≠ some j → t.sendWindow j = s.sendWindow j) :
    t.Pumpable ↔ s.Uncovers p := by
  unfold Pumpable Uncovers
  rw [hcursor, hlock]
  refine exists_congr fun n => exists_congr fun r => exists_congr fun b => exists_congr fun d => ?_
  rw [isFullInner_eq_ok_iff hlen, hreplies]
  have hblocked := fun i => isBlockedAt_of_freed (s := s) (r := r) (i := i) hnext hin hout
  constructor
  · intro h
    obtain ⟨hcell, ⟨hroom, hfree⟩, hfreelock⟩ := h
    exact ⟨hcell, hfreelock, hroom, fun i hi => (hblocked i).mp (hfree i hi)⟩
  · intro h
    obtain ⟨hcell, hfreelock, hroom, hfree⟩ := h
    exact ⟨hcell, ⟨hroom, fun i hi => (hblocked i).mpr (hfree i hi)⟩, hfreelock⟩

/-- The place that a packet frees is that of the pending packet it answers. -/
theorem freed?_eq_some {p : Packet R} {j : Fin CAP} :
    s.freed? p = some j ↔ ∃ r, p.replyNo? = some r ∧ j = cell CAP r ∧
      ∃ e, s.sendWindow (cell CAP r) = some e ∧ e.seqNo = r := by
  unfold freed?
  cases p.replyNo? with
  | none => simp
  | some r =>
    rw [Option.bind_some, Option.map_eq_some_iff]
    constructor
    · intro h
      obtain ⟨e, he, rfl⟩ := h
      obtain ⟨hcell, hseq⟩ := Option.filter_eq_some_iff.mp he
      exact ⟨r, rfl, rfl, e, hcell, by simpa using hseq⟩
    · intro h
      obtain ⟨q, hq, rfl, e, he, hseq⟩ := h
      cases hq
      exact ⟨e, Option.filter_eq_some_iff.mpr ⟨he, by simpa using hseq⟩, rfl⟩

/-- Handing a packet over empties the cell of what it replies to. -/
theorem handOver_window (s : SeqEx S R CAP) (n : SeqNo) (r : Option SeqNo) (b : Bool) (d : R) :
    (∀ j, s.freed? (.newWithData n r b d) = some j →
      (s.handOver n r b d).2.sendWindow j = none) ∧
    (∀ j, s.freed? (.newWithData n r b d) ≠ some j →
      (s.handOver n r b d).2.sendWindow j = s.sendWindow j) := by
  rcases s.handOver_cases n r b d with ⟨q, e, rfl, he, hseq, h⟩ | ⟨hnot, h⟩
  · have hfreed : s.freed? (.newWithData n (some q) b d) = some (cell CAP q) :=
      freed?_eq_some.mpr ⟨q, by simp, rfl, e, he, hseq⟩
    rw [h, hfreed]
    constructor
    · intro j hj
      cases hj
      exact Function.update_self ..
    · intro j hj
      exact Function.update_of_ne (fun heq => hj (congrArg some heq.symm)) _ _
  · have hfreed : s.freed? (.newWithData n r b d) = none := by
      rw [Option.eq_none_iff_forall_ne_some]
      intro j hj
      obtain ⟨q, hq, -, e, he, hseq⟩ := freed?_eq_some.mp hj
      rw [Packet.replyNo?_newWithData] at hq
      exact hnot q e hq he hseq
    rw [h, hfreed]
    exact ⟨nofun, fun _ _ => rfl⟩

/-! ## The flag call by call -/

/-- At the cursor the flag is exact. -/
theorem flag_next {base : SeqNo} {cursor : ℕ} {early : Set ℕ} (hC : ∃ e, CAP = 2 ^ e)
    (hv : ReceiveView base s cursor early) (n : SeqNo) (r : Option SeqNo) (b : Bool) (d : R) :
    let t := ((s.advance s.nextRecvSeqNo).2.handOver n r b d).2
    ((s.advance s.nextRecvSeqNo).1 = true → ∃ r' b' d',
      t.recvWindow (cell CAP t.nextRecvSeqNo) = .occupied t.nextRecvSeqNo r' b' d') ∧
    ((s.advance s.nextRecvSeqNo).1 = false → ∃ e, t.tryPumpRaw.1 = .error e) := by
  obtain ⟨c, -, -, -, hview, hflag⟩ := hv.advance hC
  obtain ⟨hrecv, hwin⟩ := (s.advance s.nextRecvSeqNo).2.handOver_receive n r b d
  dsimp only
  rw [← not_pumpable_iff, hrecv, hwin]
  constructor
  · intro h
    obtain ⟨n', r', b', d', hcell⟩ := hflag.mp h
    have hn := hview.stored_number hC hcell
    subst hn
    exact ⟨r', b', d', hcell⟩
  · intro h hpump
    obtain ⟨n', r', b', d', hcell, -⟩ := hpump
    rw [hrecv, hwin] at hcell
    rw [hflag.mpr ⟨n', r', b', d', hcell⟩] at h
    cases h

/-- The flag of `try_pump` is right. -/
theorem flagTruthful_pump {base : SeqNo} {cursor : ℕ} {early : Set ℕ} (hC : ∃ e, CAP = 2 ^ e)
    (hv : ReceiveView base s cursor early) : s.FlagTruthful .pump := by
  intro ok doPump h
  have hcases := s.tryPumpRaw_cases
  simp only [call] at h ⊢
  generalize s.tryPumpRaw = res at hcases h ⊢
  cases hcases with
  | next n r b d _ _ _ =>
    have hflag := flag_next hC hv n r b d
    rcases h with h | h
    · cases h
    · cases h
      exact hflag
  | _ => rcases h with h | h <;> cases h

/-- A refused packet has no flag. -/
theorem flagTruthful_of_dropped {c : Call S R} {e : TryRawRecvError}
    (h : (s.call c).1 = .dropped e) : s.FlagTruthful c := by
  intro ok doPump hanswer
  rw [h] at hanswer
  rcases hanswer with hanswer | hanswer <;> cases hanswer

/-- A false flag is truthful when nothing can be pumped afterwards. -/
theorem flagTruthful_of_received {c : Call S R} {ok : RecvOkRaw S R} {t : SeqEx S R CAP}
    (h : s.call c = (.received ok false, t)) : s.FlagTruthful c ↔ ¬ t.Pumpable := by
  rw [FlagTruthful, h, not_pumpable_iff]
  constructor
  · intro hflag
    exact (hflag ok false (.inl rfl)).2 rfl
  · intro herr ok' doPump hanswer
    rcases hanswer with hanswer | hanswer
    · cases hanswer
      exact ⟨by simp, fun _ => herr⟩
    · cases hanswer

/-- The flag of an accepted acknowledgement is false, and so truthful when no
stored packet is uncovered. -/
theorem flagTruthful_ack_iff (hfits : s.Fits) (r : SeqNo) :
    s.FlagTruthful (.receive (.ack r)) ↔ ¬ s.Overlooks (.receive (.ack r)) := by
  rcases s.takeSend_cases r with ⟨e, he, hseq, -⟩ | ⟨hnot, ht⟩
  · have hfreed : s.freed? (.ack r) = some (cell CAP r) :=
      freed?_eq_some.mpr ⟨r, rfl, rfl, e, he, hseq⟩
    have hafter : Pumpable { s with sendWindow := Function.update s.sendWindow (cell CAP r) none } ↔
        s.Uncovers (.ack r) := by
      refine pumpable_after_iff (p := .ack r) hfits.length_lt rfl rfl rfl rfl (fun j hj => ?_)
        fun j hj => ?_
      · rw [hfreed] at hj
        cases hj
        exact Function.update_self ..
      · rw [hfreed] at hj
        exact Function.update_of_ne (fun heq => hj (congrArg some heq.symm)) _ _
    rw [flagTruthful_of_received (call_receive_ack he hseq), hafter]
    simp only [Overlooks, TakenAside, Packet.seqNo?, hfreed, Option.isSome_some, true_and]
  · have hfreed : s.freed? (.ack r) = none := by
      rw [Option.eq_none_iff_forall_ne_some]
      intro j hj
      obtain ⟨q, hq, -, e, he, hseq⟩ := freed?_eq_some.mp hj
      cases hq
      exact hnot e he hseq
    have hcall : (s.call (.receive (.ack r))).1 = .dropped .droppedDuplicate := by
      simp only [call, tryReceiveRawAndDirect, ht]
    refine ⟨fun _ h => absurd h.1 ?_, fun _ => flagTruthful_of_dropped hcall⟩
    simp [TakenAside, Packet.seqNo?, hfreed]

/-- A packet that has to wait is not taken in. -/
theorem mustWait_of_takenAside {n : SeqNo} {r : Option SeqNo} {b : Bool} {d : R}
    (h : s.TakenAside (.newWithData n r b d)) : s.mustWait n r b = (false, false) := by
  simp only [TakenAside, Packet.seqNo?_newWithData, Packet.isSeqCst_newWithData,
    Packet.replyNo?_newWithData] at h
  obtain ⟨-, -, rfl, hfull⟩ := h
  simp [mustWait, hfull]

/-- The flag of a received data packet is right unless a ready packet is overlooked. -/
theorem flagTruthful_data_iff {base : SeqNo} {cursor : ℕ} {early : Set ℕ} (hC : ∃ e, CAP = 2 ^ e)
    (htwo : 2 ≤ CAP) (hv : ReceiveView base s cursor early) (hfits : s.Fits) (n : SeqNo)
    (r : Option SeqNo) (b : Bool) (d : R) :
    s.FlagTruthful (.receive (.newWithData n r b d)) ↔
      ¬ s.Overlooks (.receive (.newWithData n r b d)) := by
  have hrefused (e : TryRawRecvError) (s' : SeqEx S R CAP)
      (hres : s.receiveData id n r b d = (.error e, s'))
      (hnot : ¬ s.TakenAside (.newWithData n r b d)) :
      s.FlagTruthful (.receive (.newWithData n r b d)) ↔
        ¬ s.Overlooks (.receive (.newWithData n r b d)) := by
    refine ⟨fun _ h => hnot h.1, fun _ => flagTruthful_of_dropped (e := e) ?_⟩
    simp only [call, tryReceive_newWithData, hres]
  have haside : s.TakenAside (.newWithData n r b d) ↔
      s.InRange n ∧ n ≠ s.nextRecvSeqNo ∧ b = false ∧ s.isFullInner r = .ok () := by
    simp [TakenAside]
  have hfitsafter := hfits.call hC htwo (.receive (.newWithData n r b d))
  have hcases := receiveData_cases id s n r b d
  have hok (o : RecvOkRaw S R × Bool) (s' : SeqEx S R CAP)
      (h : s.receiveData id n r b d = (.ok o, s')) :
      s.call (.receive (.newWithData n r b d)) = (.received o.1 o.2, s') := by
    simp only [call, tryReceive_newWithData, h]
  generalize hres : s.receiveData id n r b d = res at hcases
  cases hcases with
  | duplicate hbelow _ =>
    exact hrefused _ _ hres fun h => by simp [(haside.mp h).1.1] at hbelow
  | resendAck hbelow _ _ =>
    exact hrefused _ _ hres fun h => by simp [(haside.mp h).1.1] at hbelow
  | tooEarly _ habove =>
    exact hrefused _ _ hres fun h => by simp [(haside.mp h).1.2] at habove
  | waitsDuplicate _ e _ _ hwait =>
    exact hrefused _ _ hres fun h => by simp [mustWait_of_takenAside h] at hwait
  | waits _ e _ _ hwait =>
    exact hrefused _ _ hres fun h => by simp [mustWait_of_takenAside h] at hwait
  | next _ _ _ hnext =>
    have hflag := flag_next hC hv n r b d
    have hcall := hok _ _ hres
    subst hnext
    refine ⟨fun _ h => (haside.mp h.1).2.1 rfl, fun _ ok doPump hanswer => ?_⟩
    rw [hcall] at hanswer ⊢
    rcases hanswer with hanswer | hanswer
    · cases hanswer
      exact hflag
    · cases hanswer
  | ahead hrange hfull hcst hnext =>
    have hcall := hok _ _ hres
    rw [hcall] at hfitsafter
    have hcell : cell CAP n ≠ cell CAP s.nextRecvSeqNo := by
      obtain ⟨k, hk1, hk2, -, rfl⟩ := hv.position hC hrange
      rw [hv.cursor_eq] at hnext ⊢
      have hne : cursor ≠ k := fun h => hnext (by rw [h])
      exact (Marks.cell_ne hC (lt_of_le_of_ne hk1 hne) hk2).symm
    obtain ⟨hin, hout⟩ := (s.setRecvEntry n (.unlocked n)).handOver_window n r b d
    obtain ⟨hrecv, hwin⟩ := (s.setRecvEntry n (.unlocked n)).handOver_receive n r b d
    obtain ⟨hsend, -⟩ := (s.setRecvEntry n (.unlocked n)).handOver_send n r b d
    have hafter : ((s.setRecvEntry n (.unlocked n)).handOver n r b d).2.Pumpable ↔
        s.Uncovers (.newWithData n r b d) := by
      refine pumpable_after_iff (p := .newWithData n r b d) hfitsafter.length_lt ?_ ?_ hsend ?_
        hin hout
      · rw [hrecv, hwin]
        exact Function.update_of_ne hcell.symm _ _
      · rw [handOver_isLocked, hcst, Bool.or_false]
        rfl
      · rw [handOver_replies, List.length_append, Packet.seqNo?_newWithData]
        rfl
    have htaken := haside.mpr ⟨hrange, hnext, hcst, hfull⟩
    rw [flagTruthful_of_received hcall, hafter]
    simp only [Overlooks, htaken, true_and]

/-- In every reached state the flag of a call is truthful exactly when the call
overlooks no stored packet. -/
theorem flagTruthful_iff (hC : ∃ e ≥ 2, CAP = 2 ^ e) (interval : Int64) (initialSeqNo : SeqNo)
    {s : SeqEx S R CAP}
    (hrun : Reaches (fun _ _ => True) (fun (u : SeqEx S R CAP) c => (u.call c).2)
      (SeqEx.new interval initialSeqNo) s) (c : Call S R) :
    s.FlagTruthful c ↔ ¬ s.Overlooks c := by
  have hpow : ∃ e, CAP = 2 ^ e := hC.imp fun _ h => h.2
  have htwo : 2 ≤ CAP := by
    obtain ⟨e, he, rfl⟩ := hC
    exact le_trans (by decide) (Nat.pow_le_pow_right (by decide) he)
  have hinv : s.Fits ∧ ∃ cursor early, ReceiveView initialSeqNo s cursor early := by
    refine hrun.invariant (I := fun u : SeqEx S R CAP =>
      u.Fits ∧ ∃ cursor early, ReceiveView initialSeqNo u cursor early)
      ⟨Fits.start _ _, 0, ∅, ReceiveView.start _ _⟩ ?_
    intro u c _ hu _
    obtain ⟨hfits, cursor, early, hv⟩ := hu
    exact ⟨hfits.call hpow htwo c, hv.call hpow c⟩
  obtain ⟨hfits, cursor, early, hv⟩ := hinv
  cases c with
  | receive p =>
    rcases p.eq_ack_or_newWithData with ⟨r, rfl⟩ | ⟨n, r, b, d, rfl⟩
    · exact flagTruthful_ack_iff hfits r
    · exact flagTruthful_data_iff hpow htwo hv hfits n r b d
  | pump => exact ⟨fun _ h => h, fun _ => flagTruthful_pump hpow hv⟩
  | trySend t b f =>
    refine ⟨fun _ h => h, fun _ ok doPump hanswer => ?_⟩
    simp only [call] at hanswer
    split at hanswer <;> rcases hanswer with hanswer | hanswer <;> cases hanswer
  | _ =>
    refine ⟨fun _ h => h, fun _ ok doPump hanswer => ?_⟩
    rcases hanswer with hanswer | hanswer <;> cases hanswer

/-- A SeqCst packet is handed over while the next one is stored, and the lock is
given up. -/
def unlockedNext : List (Call ℕ ℕ) :=
  [.receive (.seqCstPayload 1 81), .receive (.seqCstPayload 0 80), .unlock]

/-- The flag of the next `try_pump` is right. -/
theorem flagTruthful_iff_unlockedNext :
    ((unlockedNext.foldl (fun u c => (u.call c).2) (new 100 0 : SeqEx ℕ ℕ 8)).FlagTruthful
      .pump) :=
  (flagTruthful_iff ⟨3, by decide, rfl⟩ 100 0
    (Allowed.reaches (l := unlockedNext) (by decide)) .pump).mpr id

/-- The send window is full when a packet arrives, which is stored. -/
def storedBehindFull : List (Call ℕ ℕ) :=
  List.replicate 4 (.trySend 0 false fun _ => 70) ++ [.receive (.payload 0 80)]

/-- An acknowledgement makes room for the stored packet, and its flag is false. -/
theorem ack_hides_stored :
    ∃ s : SeqEx ℕ ℕ 4,
      Reaches (fun _ _ => True) (fun u c => (u.call c).2) (new 100 0) s ∧
        (s.call (.receive (.ack 0))).1 = .received (.ack 70) false ∧
        (s.call (.receive (.ack 0))).2.tryPumpRaw.1 = .ok (.payload 0 false 80, false) ∧
        ¬ s.FlagTruthful (.receive (.ack 0)) := by
  let s : SeqEx ℕ ℕ 4 := storedBehindFull.foldl (fun u c => (u.call c).2) (new 100 0)
  have hanswer : (s.call (.receive (.ack 0))).1 = .received (.ack 70) false := by rfl
  have hpump : (s.call (.receive (.ack 0))).2.tryPumpRaw.1 = .ok (.payload 0 false 80, false) := by
    have h : (s.call (.receive (.ack 0))).2.tryPumpRaw.1.toOption =
        some (.payload 0 false 80, false) := by decide
    generalize (s.call (.receive (.ack 0))).2.tryPumpRaw.1 = res at h ⊢
    cases res with
    | ok o => exact congrArg Except.ok (Option.some.inj h)
    | error e => cases h
  refine ⟨s, Allowed.reaches (l := storedBehindFull) (by decide), hanswer, hpump, fun h => ?_⟩
  obtain ⟨e, he⟩ := (h _ _ (.inl hanswer)).2 rfl
  rw [hpump] at he
  cases he

end SeqEx

end SequentialExchange
