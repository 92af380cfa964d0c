import SequentialExchange.Endpoint

/-!
# What the operations of an endpoint can do

One inversion lemma for each operation of `Endpoint`, with the guards it has
passed and the exact next state. Later modules use these and do not unfold the
operations again.
-/

namespace SequentialExchange

open WrapNumbering

variable {S R P : Type*}

/-- The packet of an entry carries what the entry holds. -/
theorem SendEntry.toPacket_eq (e : SendEntry S) :
    e.toPacket = Packet.newWithData e.seqNo e.replyNo e.seqCst e.data := by
  obtain ⟨seqNo, replyNo, seqCst, time, data⟩ := e
  cases replyNo <;> cases seqCst <;> rfl

/-- Its number. -/
@[simp] theorem SendEntry.seqNo?_toPacket (e : SendEntry S) :
    e.toPacket.seqNo? = some e.seqNo := by
  rw [toPacket_eq, Packet.seqNo?_newWithData]

/-- The number it answers. -/
@[simp] theorem SendEntry.replyNo?_toPacket (e : SendEntry S) :
    e.toPacket.replyNo? = e.replyNo := by
  rw [toPacket_eq, Packet.replyNo?_newWithData]

/-- Its data. -/
@[simp] theorem SendEntry.payload?_toPacket (e : SendEntry S) :
    e.toPacket.payload? = some e.data := by
  rw [toPacket_eq, Packet.payload?_newWithData]

/-- Swap-remove takes out the value it was pointed at. -/
theorem swapRemove_perm {α : Type*} {l : List α} {i : ℕ} (hi : i < l.length) :
    l.Perm (l[i] :: swapRemove l i) := by
  induction l using List.reverseRecOn with
  | nil => simp at hi
  | append_singleton l a _ =>
    have hs : swapRemove (l ++ [a]) i = ((l ++ [a]).set i a).dropLast := by
      simp [swapRemove]
    rw [hs]
    rw [List.length_append, List.length_singleton] at hi
    rcases Nat.lt_succ_iff_lt_or_eq.mp hi with hlt | rfl
    · rw [List.set_append_left i a hlt, List.dropLast_concat, List.getElem_append_left hlt]
      have hset : (l[i] :: l.set i a).Perm (a :: l) := by
        conv_rhs => rw [← List.take_append_drop i l, List.drop_eq_getElem_cons hlt]
        rw [List.set_eq_take_append_cons_drop, if_pos hlt]
        exact (List.perm_middle.cons _).trans
          ((List.Perm.swap _ _ _).trans (List.perm_middle.symm.cons _))
      exact (List.perm_append_singleton a l).trans hset.symm
    · have hlast : (l ++ [a]).set l.length a = l ++ [a] := by simp
      rw [hlast, List.dropLast_concat]
      simp

namespace SeqEx

variable {CAP : ℕ} [NeZero CAP] {s : SeqEx S R CAP}

/-! ## Admission -/

/-- As many cells are looked at as there are reservations, and one more. -/
theorem scan_length {n : ℕ} (h : n + 1 < 2 ^ 32) : (1 + UInt32.ofNat n).toNat = n + 1 := by
  rw [UInt32.toNat_add, UInt32.toNat_ofNat', UInt32.toNat_one]
  omega

/-- The fullness test passes exactly when a reservation is left and no cell it
looks at is taken, the replied-to cell excepted. -/
theorem isFullInner_eq_ok_iff {replyNo : Option SeqNo}
    (hlen : s.concurrentReplies.length + 1 < 2 ^ 32) :
    s.isFullInner replyNo = .ok () ↔
      s.concurrentReplies.length < CAP - 2 ∧
        ∀ i ≤ s.concurrentReplies.length, s.isBlockedAt replyNo i = false := by
  unfold isFullInner
  rw [scan_length hlen]
  split
  · rename_i hfull
    exact ⟨nofun, fun h => absurd h.1 (Nat.not_lt.mpr hfull)⟩
  · rename_i hroom
    have hscan :
        (List.range (s.concurrentReplies.length + 1)).find? (s.isBlockedAt replyNo) = none ↔
          ∀ i ≤ s.concurrentReplies.length, s.isBlockedAt replyNo i = false := by
      simp [List.find?_eq_none]
    rw [← hscan]
    split
    · rename_i hfind
      exact ⟨fun _ => ⟨Nat.not_le.mp hroom, hfind⟩, fun _ => rfl⟩
    all_goals
      rename_i hfind
      exact ⟨nofun, fun h => absurd h.2 (by simp [hfind])⟩

/-- Without reservations only the next cell can block a packet. -/
theorem isFullInner_of_nil (hCAP : 2 < CAP) (h : s.concurrentReplies = [])
    (r : Option SeqNo) :
    s.isFullInner r = if s.isBlockedAt r 0 then .error .waitingForRecv else .ok () := by
  have hroom : ¬ CAP - 2 ≤ 0 := by omega
  have hone : (1 + UInt32.ofNat 0).toNat = 1 := rfl
  unfold isFullInner
  rw [h, List.length_nil, if_neg hroom, hone, List.range_one, List.find?_singleton]
  cases s.isBlockedAt r 0 with
  | true => rfl
  | false => rfl

/-! ## The send window -/

/-- `take_send` empties the cell of a packet that is in the window, and does
nothing otherwise. -/
theorem takeSend_cases (s : SeqEx S R CAP) (r : SeqNo) :
    (∃ e, s.sendWindow (cell CAP r) = some e ∧ e.seqNo = r ∧
      s.takeSend r = (some e.data,
        { s with sendWindow := Function.update s.sendWindow (cell CAP r) none })) ∨
    ((∀ e, s.sendWindow (cell CAP r) = some e → e.seqNo ≠ r) ∧ s.takeSend r = (none, s)) := by
  unfold takeSend
  cases he : s.sendWindow (cell CAP r) with
  | none => exact .inr ⟨nofun, rfl⟩
  | some e =>
    by_cases hr : e.seqNo = r
    · exact .inl ⟨e, rfl, hr, by simp [hr]⟩
    · refine .inr ⟨?_, by simp [hr]⟩
      rintro _ ⟨rfl⟩
      exact hr

omit [NeZero CAP] in
/-- A successful removal takes one occurrence of the number out of the
reservations and changes nothing else. -/
theorem removeReservation_cases (s : SeqEx S R CAP) (r : SeqNo) :
    (∃ l, s.concurrentReplies.Perm (r :: l) ∧
      s.removeReservation r = (true, { s with concurrentReplies := l })) ∨
    (r ∉ s.concurrentReplies ∧ s.removeReservation r = (false, s)) := by
  unfold removeReservation
  cases hi : s.concurrentReplies.idxOf? r with
  | none =>
    refine .inr ⟨?_, rfl⟩
    intro hmem
    simp [List.idxOf?_eq_none_iff, hmem] at hi
  | some i =>
    obtain ⟨hlt, hget, -⟩ := List.idxOf?_eq_some_iff.mp hi
    refine .inl ⟨_, ?_, rfl⟩
    have hp := swapRemove_perm hlt
    rwa [hget] at hp

omit [NeZero CAP] in
/-- An outstanding reply number is found and taken off the list. -/
theorem removeReservation_of_mem {r : SeqNo} (hr : r ∈ s.concurrentReplies) :
    ∃ l, s.concurrentReplies.Perm (r :: l) ∧
      s.removeReservation r = (true, { s with concurrentReplies := l }) :=
  (s.removeReservation_cases r).resolve_right fun h => h.1 hr

/-! ## Delivery -/

/-- The bookkeeping of a delivery before the pairing: one more outstanding
reply number, and the lock for a SeqCst packet. -/
def reserve (s : SeqEx S R CAP) (seqNo : SeqNo) (seqCst : Bool) : SeqEx S R CAP :=
  { s with
    concurrentReplies := s.concurrentReplies ++ [seqNo]
    isLocked := s.isLocked || seqCst }

/-- A delivery is paired when the packet it replies to is in the window, and
then that packet leaves the window. -/
theorem handOver_cases (s : SeqEx S R CAP) (seqNo : SeqNo) (replyNo : Option SeqNo) (seqCst : Bool)
    (data : P) :
    (∃ r e, replyNo = some r ∧ s.sendWindow (cell CAP r) = some e ∧ e.seqNo = r ∧
      s.handOver seqNo replyNo seqCst data = (.reply seqNo seqCst data e.data,
        { s.reserve seqNo seqCst with
          sendWindow := Function.update s.sendWindow (cell CAP r) none })) ∨
    ((∀ r e, replyNo = some r → s.sendWindow (cell CAP r) = some e → e.seqNo ≠ r) ∧
      s.handOver seqNo replyNo seqCst data =
        (.payload seqNo seqCst data, s.reserve seqNo seqCst)) := by
  cases replyNo with
  | none => exact .inr ⟨nofun, rfl⟩
  | some r =>
    rcases takeSend_cases (s.reserve seqNo seqCst) r with ⟨e, he, hr, ht⟩ | ⟨hn, ht⟩
    · refine .inl ⟨r, e, rfl, he, hr, ?_⟩
      unfold handOver
      simp only [reserve] at ht ⊢
      rw [ht]
    · refine .inr ⟨?_, ?_⟩
      · rintro r' e ⟨rfl⟩ he
        exact hn e he
      · unfold handOver
        simp only [reserve] at ht ⊢
        rw [ht]

/-- A delivery reserves the number of its packet. -/
@[simp] theorem handOver_replies (s : SeqEx S R CAP) (seqNo : SeqNo) (replyNo : Option SeqNo)
    (seqCst : Bool) (data : P) :
    (s.handOver seqNo replyNo seqCst data).2.concurrentReplies =
      s.concurrentReplies ++ [seqNo] := by
  rcases s.handOver_cases seqNo replyNo seqCst data with ⟨_, _, -, -, -, h⟩ | ⟨-, h⟩ <;>
    rw [h] <;> rfl

/-- A delivery takes the lock for a SeqCst packet. -/
@[simp] theorem handOver_isLocked (s : SeqEx S R CAP) (seqNo : SeqNo) (replyNo : Option SeqNo)
    (seqCst : Bool) (data : P) :
    (s.handOver seqNo replyNo seqCst data).2.isLocked = (s.isLocked || seqCst) := by
  rcases s.handOver_cases seqNo replyNo seqCst data with ⟨_, _, -, -, -, h⟩ | ⟨-, h⟩ <;>
    rw [h] <;> rfl

/-- The number lies in the receive window. -/
def InRange (s : SeqEx S R CAP) (seqNo : SeqNo) : Prop :=
  s.isBelowRange seqNo = false ∧ s.isAboveRange seqNo = false

omit [NeZero CAP] in
/-- Half of the number space lies below the cursor. -/
theorem isBelowRange_iff {seqNo : SeqNo} :
    s.isBelowRange seqNo = true ↔ 2 ^ 31 ≤ (seqNo - s.nextRecvSeqNo).toNat := by
  have hmax : (UInt32.ofNat (2 ^ 32 - 1) / 2).toNat = 2 ^ 31 - 1 := by decide
  simp only [isBelowRange, gt_iff_lt, decide_eq_true_eq, UInt32.lt_iff_toNat_lt, hmax]
  omega

omit [NeZero CAP] in
/-- The other half does not. -/
theorem isBelowRange_eq_false_iff {seqNo : SeqNo} :
    s.isBelowRange seqNo = false ↔ (seqNo - s.nextRecvSeqNo).toNat < 2 ^ 31 := by
  rw [← Bool.not_eq_true, isBelowRange_iff, Nat.not_le]

omit [NeZero CAP] in
/-- The numbers that have a slot: `CAP as SeqNo` from the cursor on. -/
theorem inRange_iff {seqNo : SeqNo} :
    s.InRange seqNo ↔ (seqNo - s.nextRecvSeqNo).toNat < 2 ^ 31 ∧
      (seqNo - s.nextRecvSeqNo).toNat < CAP % 2 ^ 32 := by
  have hlen : (lenU32 CAP).toNat = CAP % 2 ^ 32 := by simp [lenU32, UInt32.toNat_ofNat']
  unfold InRange isAboveRange
  rw [isBelowRange_eq_false_iff]
  constructor
  · rintro ⟨hb, ha⟩
    rw [isBelowRange_eq_false_iff.mpr hb] at ha
    simp only [Bool.not_false, Bool.true_and, ge_iff_le, decide_eq_false_iff_not,
      UInt32.le_iff_toNat_le, hlen] at ha
    omega
  · rintro ⟨hb, ha⟩
    refine ⟨hb, ?_⟩
    rw [isBelowRange_eq_false_iff.mpr hb]
    simp only [Bool.not_false, Bool.true_and, ge_iff_le, decide_eq_false_iff_not,
      UInt32.le_iff_toNat_le, hlen]
    omega

omit [NeZero CAP] in
/-- An admitted number is less than one ring period ahead of the cursor. -/
theorem InRange.lt_period {seqNo : SeqNo} (hC : ∃ e, CAP = 2 ^ e) (h : s.InRange seqNo) :
    CAP < 2 ^ 32 ∧ (seqNo - s.nextRecvSeqNo).toNat < period CAP := by
  obtain ⟨-, h⟩ := inRange_iff.mp h
  obtain ⟨e, rfl⟩ := hC
  rcases Nat.lt_or_ge e 32 with he | he
  · have hlt : 2 ^ e < 2 ^ 32 := Nat.pow_lt_pow_right (by decide) he
    rw [Nat.mod_eq_of_lt hlt] at h
    exact ⟨hlt, by rwa [period_eq hlt.le]⟩
  · -- a ring of `2^32` cells or more has length zero as a 32-bit word
    rw [Nat.mod_eq_zero_of_dvd (Nat.pow_dvd_pow 2 he)] at h
    exact absurd h (Nat.not_lt_zero _)

/-- Only the slot of the number changes. -/
@[simp] theorem setRecvEntry_recvWindow (s : SeqEx S R CAP) (seqNo : SeqNo) (e : RecvEntry R) :
    (s.setRecvEntry seqNo e).recvWindow = Function.update s.recvWindow (cell CAP seqNo) e := rfl

/-- The state at the moment a packet at the cursor is handed over. -/
def advance (s : SeqEx S R CAP) (seqNo : SeqNo) : Bool × SeqEx S R CAP :=
  fastForward { s.setRecvEntry seqNo .empty with nextRecvSeqNo := seqNo + 1 }

/-- Everything that `try_receive_raw_and_direct` can do with a data packet. -/
inductive Received (into : P → R) (s : SeqEx S R CAP) (seqNo : SeqNo) (replyNo : Option SeqNo)
    (seqCst : Bool) (data : P) :
    Except TryRawRecvError (RecvOkRaw S P × Bool) × SeqEx S R CAP → Prop where
  /-- Below the window, and its answer is on the way. -/
  | duplicate (hbelow : s.isBelowRange seqNo = true)
      (hanswer : s.isReplyPending seqNo = true ∨ seqNo ∈ s.concurrentReplies) :
      Received into s seqNo replyNo seqCst data (.error .droppedDuplicate, s)
  /-- Below the window, and answered for good. -/
  | resendAck (hbelow : s.isBelowRange seqNo = true) (hpending : s.isReplyPending seqNo = false)
      (howed : seqNo ∉ s.concurrentReplies) :
      Received into s seqNo replyNo seqCst data (.error (.droppedDuplicateResendAck seqNo), s)
  /-- Beyond the window. -/
  | tooEarly (hbelow : s.isBelowRange seqNo = false) (habove : s.isAboveRange seqNo = true) :
      Received into s seqNo replyNo seqCst data (.error .droppedTooEarly, s)
  /-- It has to wait, and a copy is in the window. -/
  | waitsDuplicate (hrange : s.InRange seqNo) (e : TryRawRecvError)
      (he : e = .waitingForRecv ∨ e = .waitingForReply) (hdup : s.isDuplicate seqNo = true)
      (hwait : (s.mustWait seqNo replyNo seqCst).1 ∨ (s.mustWait seqNo replyNo seqCst).2) :
      Received into s seqNo replyNo seqCst data (.error e, s)
  /-- It has to wait and is stored. -/
  | waits (hrange : s.InRange seqNo) (e : TryRawRecvError)
      (he : e = .waitingForRecv ∨ e = .waitingForReply) (hdup : s.isDuplicate seqNo = false)
      (hwait : (s.mustWait seqNo replyNo seqCst).1 ∨ (s.mustWait seqNo replyNo seqCst).2) :
      Received into s seqNo replyNo seqCst data (.error e,
        s.setRecvEntry seqNo (.occupied seqNo replyNo seqCst (into data)))
  /-- It is handed over at the cursor. -/
  | next (hrange : s.InRange seqNo) (hfull : s.isFullInner replyNo = .ok ())
      (hlock : seqCst = true → s.isLocked = false) (hnext : seqNo = s.nextRecvSeqNo) :
      Received into s seqNo replyNo seqCst data
        (.ok (((s.advance seqNo).2.handOver seqNo replyNo seqCst data).1, (s.advance seqNo).1),
          ((s.advance seqNo).2.handOver seqNo replyNo seqCst data).2)
  /-- It is handed over ahead of a gap and leaves a marker. -/
  | ahead (hrange : s.InRange seqNo) (hfull : s.isFullInner replyNo = .ok ())
      (hcst : seqCst = false) (hnext : seqNo ≠ s.nextRecvSeqNo) :
      Received into s seqNo replyNo seqCst data
        (.ok (((s.setRecvEntry seqNo (.unlocked seqNo)).handOver seqNo replyNo seqCst data).1,
            false),
          ((s.setRecvEntry seqNo (.unlocked seqNo)).handOver seqNo replyNo seqCst data).2)

/-- Distance zero is equality. -/
theorem sub_eq_zero_iff {a b : SeqNo} : a - b = 0 ↔ a = b := by
  constructor
  · intro h
    have hb : a = 0 + b := by rw [← h]; simp
    simpa using hb
  · rintro rfl
    simp

/-- Whoever need not wait passed the fullness test, and a SeqCst packet is at
the cursor with the lock free. -/
theorem mustWait_eq_false {seqNo : SeqNo} {replyNo : Option SeqNo} {seqCst : Bool}
    (h : ((s.mustWait seqNo replyNo seqCst).1 || (s.mustWait seqNo replyNo seqCst).2) = false) :
    s.isFullInner replyNo = .ok () ∧
      (seqCst = true → seqNo = s.nextRecvSeqNo ∧ s.isLocked = false) := by
  unfold mustWait at h
  cases hfull : s.isFullInner replyNo with
  | error e => cases e <;> simp [hfull] at h
  | ok u =>
    rw [hfull] at h
    refine ⟨rfl, ?_⟩
    rintro rfl
    simpa [sub_eq_zero_iff] using h

/-- Every receipt of a data packet is one of these. -/
theorem receiveData_cases (into : P → R) (s : SeqEx S R CAP) (seqNo : SeqNo)
    (replyNo : Option SeqNo) (seqCst : Bool) (data : P) :
    Received into s seqNo replyNo seqCst data (s.receiveData into seqNo replyNo seqCst data) := by
  unfold receiveData
  split
  · rename_i hbelow
    split
    · rename_i hp
      exact .duplicate hbelow (.inl hp)
    · split
      · rename_i ho
        exact .duplicate hbelow (.inr ho)
      · rename_i hp ho
        exact .resendAck hbelow (by simpa using hp) ho
  · rename_i hbelow
    replace hbelow : s.isBelowRange seqNo = false := by simpa using hbelow
    split
    · rename_i habove
      exact .tooEarly hbelow habove
    · rename_i habove
      have hrange : s.InRange seqNo := ⟨hbelow, by simpa using habove⟩
      dsimp only
      split
      · rename_i hwait
        have he : ∀ b : Bool, (if b then TryRawRecvError.waitingForRecv else .waitingForReply) =
            .waitingForRecv ∨ (if b then TryRawRecvError.waitingForRecv else .waitingForReply) =
            .waitingForReply := by decide
        rw [Bool.or_eq_true] at hwait
        cases hdup : s.isDuplicate seqNo with
        | true => exact .waitsDuplicate hrange _ (he _) hdup hwait
        | false => exact .waits hrange _ (he _) hdup hwait
      · rename_i hwait
        obtain ⟨hfull, hcst⟩ := mustWait_eq_false (by simpa using hwait)
        split
        · rename_i hnext
          exact .next hrange hfull (fun h => (hcst h).2) (sub_eq_zero_iff.mp hnext)
        · rename_i hnext
          have hne : seqNo ≠ s.nextRecvSeqNo := fun h => hnext (sub_eq_zero_iff.mpr h)
          refine .ahead hrange hfull ?_ hne
          cases seqCst with
          | false => rfl
          | true => exact absurd (hcst rfl).1 hne

/-- A number out of range and not below it is too early. -/
theorem receiveData_tooEarly {seqNo : SeqNo} (hrange : ¬ s.InRange seqNo)
    (hbelow : s.isBelowRange seqNo = false) (into : P → R) (replyNo : Option SeqNo) (seqCst : Bool)
    (data : P) :
    s.receiveData into seqNo replyNo seqCst data = (.error .droppedTooEarly, s) := by
  have habove : s.isAboveRange seqNo = true := by
    by_contra h
    exact hrange ⟨hbelow, eq_false_of_ne_true h⟩
  simp [receiveData, hbelow, habove]

/-- A packet that is out of range is dropped. -/
theorem receiveData_outside {seqNo : SeqNo} (hrange : ¬ s.InRange seqNo) (into : P → R)
    (replyNo : Option SeqNo) (seqCst : Bool) (data : P) :
    ∃ e, s.receiveData into seqNo replyNo seqCst data = (.error e, s) := by
  have hcases := receiveData_cases into s seqNo replyNo seqCst data
  generalize s.receiveData into seqNo replyNo seqCst data = res at hcases ⊢
  cases hcases with
  | duplicate _ _ => exact ⟨_, rfl⟩
  | resendAck _ _ _ => exact ⟨_, rfl⟩
  | tooEarly _ _ => exact ⟨_, rfl⟩
  | waitsDuplicate h _ _ _ _ => exact absurd h hrange
  | waits h _ _ _ _ => exact absurd h hrange
  | next h _ _ _ => exact absurd h hrange
  | ahead h _ _ _ => exact absurd h hrange

/-- On a packet given by its raw parts the variants make no difference. -/
theorem tryReceive_newWithData (into : P → R) (s : SeqEx S R CAP) (seqNo : SeqNo)
    (replyNo : Option SeqNo) (seqCst : Bool) (data : P) :
    s.tryReceiveRawAndDirect into (.newWithData seqNo replyNo seqCst data) =
      s.receiveData into seqNo replyNo seqCst data := by
  cases replyNo <;> cases seqCst <;> rfl

/-- Everything that `try_pump_raw` can do. -/
inductive Pumped (s : SeqEx S R CAP) :
    Except TryError (RecvOkRaw S R × Bool) × SeqEx S R CAP → Prop where
  /-- Nothing is stored at the cursor. -/
  | nothing (hcell : ∀ n r c d, s.recvWindow (cell CAP s.nextRecvSeqNo) ≠ .occupied n r c d) :
      Pumped s (.error .waitingForRecv, s)
  /-- No reply number can be reserved for the stored packet. -/
  | full (seqNo : SeqNo) (replyNo : Option SeqNo) (seqCst : Bool) (data : R) (e : TryError)
      (hcell : s.recvWindow (cell CAP s.nextRecvSeqNo) = .occupied seqNo replyNo seqCst data)
      (hfull : s.isFullInner replyNo = .error e) : Pumped s (.error e, s)
  /-- Another SeqCst packet is being processed. -/
  | locked (seqNo : SeqNo) (replyNo : Option SeqNo) (data : R)
      (hcell : s.recvWindow (cell CAP s.nextRecvSeqNo) = .occupied seqNo replyNo true data)
      (hfull : s.isFullInner replyNo = .ok ()) (hlock : s.isLocked = true) :
      Pumped s (.error .waitingForReply, s)
  /-- The stored packet is handed over. -/
  | next (seqNo : SeqNo) (replyNo : Option SeqNo) (seqCst : Bool) (data : R)
      (hcell : s.recvWindow (cell CAP s.nextRecvSeqNo) = .occupied seqNo replyNo seqCst data)
      (hfull : s.isFullInner replyNo = .ok ()) (hlock : seqCst = true → s.isLocked = false) :
      Pumped s
        (.ok (((s.advance s.nextRecvSeqNo).2.handOver seqNo replyNo seqCst data).1,
            (s.advance s.nextRecvSeqNo).1),
          ((s.advance s.nextRecvSeqNo).2.handOver seqNo replyNo seqCst data).2)

/-- Every `try_pump` is one of these. -/
theorem tryPumpRaw_cases (s : SeqEx S R CAP) : Pumped s s.tryPumpRaw := by
  unfold tryPumpRaw
  split
  · rename_i seqNo replyNo seqCst data hcell
    split
    · rename_i e hfull
      exact .full seqNo replyNo seqCst data e hcell hfull
    · rename_i hfull
      split
      · rename_i hlock
        refine .next seqNo replyNo seqCst data hcell hfull ?_
        rintro rfl
        simpa using hlock
      · rename_i hlock
        simp only [Bool.or_eq_true, Bool.not_eq_true', not_or, Bool.not_eq_false] at hlock
        obtain ⟨rfl, hlocked⟩ := hlock
        exact .locked seqNo replyNo data hcell hfull hlocked
  all_goals
    rename_i hcell
    refine .nothing fun n r c d h => ?_
    rw [hcell] at h
    cases h

/-- A stored packet that passes the tests is handed over. -/
theorem tryPumpRaw_next {n : SeqNo} {r : Option SeqNo} {b : Bool} {d : R}
    (hcell : s.recvWindow (cell CAP s.nextRecvSeqNo) = .occupied n r b d)
    (hfull : s.isFullInner r = .ok ()) (hlock : b = true → s.isLocked = false) :
    s.tryPumpRaw = (.ok (((s.advance s.nextRecvSeqNo).2.handOver n r b d).1,
        (s.advance s.nextRecvSeqNo).1), ((s.advance s.nextRecvSeqNo).2.handOver n r b d).2) := by
  have hcases := s.tryPumpRaw_cases
  generalize s.tryPumpRaw = res at hcases ⊢
  cases hcases with
  | nothing hnone => exact absurd hcell (hnone n r b d)
  | full n' r' b' d' e hcell' hfull' =>
    rw [hcell] at hcell'
    cases hcell'
    rw [hfull] at hfull'
    cases hfull'
  | locked n' r' d' hcell' _ hlocked =>
    rw [hcell] at hcell'
    cases hcell'
    rw [hlock rfl] at hlocked
    cases hlocked
  | next n' r' b' d' hcell' _ _ =>
    rw [hcell] at hcell'
    cases hcell'
    rfl

end SeqEx

end SequentialExchange
