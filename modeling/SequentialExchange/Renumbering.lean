import SequentialExchange.GuardedRuns
import SequentialExchange.ServicePass

/-!
# Renumbering a run

Adding a constant to every number of a run gives a run with the same results up
to that constant, whenever the cells of the ring can be permuted accordingly. The
permutation has to fit only the numbers that the calls of the run look up.
-/

namespace SequentialExchange

open WrapNumbering GuardedRuns

variable {S R : Type*} {CAP : ℕ} [NeZero CAP]

/-! ## Renumbered data -/

/-- `δ` is added to the numbers of the packet. -/
def Packet.renumber {D : Type*} (δ : SeqNo) : Packet D → Packet D
  | .payload s d => .payload (s + δ) d
  | .seqCstPayload s d => .seqCstPayload (s + δ) d
  | .reply s r d => .reply (s + δ) (r + δ) d
  | .seqCstReply s r d => .seqCstReply (s + δ) (r + δ) d
  | .ack r => .ack (r + δ)

/-- `δ` is added to the numbers of the entry. -/
def SendEntry.renumber (δ : SeqNo) (e : SendEntry S) : SendEntry S :=
  { e with seqNo := e.seqNo + δ, replyNo := e.replyNo.map (· + δ) }

/-- `δ` is added to the numbers of the cell content. -/
def RecvEntry.renumber (δ : SeqNo) : RecvEntry R → RecvEntry R
  | .occupied s r c d => .occupied (s + δ) (r.map (· + δ)) c d
  | .unlocked s => .unlocked (s + δ)
  | .empty => .empty

/-- `δ` is added to the issued reply number. -/
def RecvOkRaw.renumber {D E : Type*} (δ : SeqNo) : RecvOkRaw D E → RecvOkRaw D E
  | .payload n c d => .payload (n + δ) c d
  | .reply n c d e => .reply (n + δ) c d e
  | .ack e => .ack e

/-- `δ` is added to the number that has to be acknowledged again. -/
def TryRawRecvError.renumber (δ : SeqNo) : TryRawRecvError → TryRawRecvError
  | .droppedDuplicateResendAck n => .droppedDuplicateResendAck (n + δ)
  | e => e

/-- `δ` is added to the position of the iterator. -/
def ServiceIter.renumber (δ : SeqNo) (i : ServiceIter) : ServiceIter :=
  { i with seqNo := i.seqNo + δ }

/-- The same call with `δ` added to every number; the closure of a `try_send` is
given the number it was given before. -/
def Call.renumber (δ : SeqNo) : Call S R → Call S R
  | .trySend t c f => .trySend t c fun n => f (n - δ)
  | .receive p => .receive (p.renumber δ)
  | .pump => .pump
  | .reply t n u c d => .reply t (n + δ) u c d
  | .ack n u => .ack (n + δ) u
  | .unlock => .unlock
  | .serviceDirect t i => .serviceDirect t (i.map (ServiceIter.renumber δ))
  | .service t => .service t

/-- The same answer with `δ` added to every number. -/
def Answer.renumber (δ : SeqNo) : Answer S R → Answer S R
  | .sent p => .sent (p.renumber δ)
  | .refused e => .refused e
  | .received ok b => .received (ok.renumber δ) b
  | .dropped e => .dropped (e.renumber δ)
  | .pumped ok b => .pumped (ok.renumber δ) b
  | .notPumped e => .notPumped e
  | .replied p => .replied (p.map (Packet.renumber δ))
  | .acked p => .acked (p.map (Packet.renumber δ))
  | .unlocked => .unlocked
  | .serviced p i => .serviced (p.map (Packet.renumber δ)) (i.map (ServiceIter.renumber δ))
  | .servicedAll ps d => .servicedAll (ps.map (Packet.renumber δ)) d

/-- Both numbers of a packet are shifted, its data is not. -/
@[simp] theorem Packet.renumber_newWithData {D : Type*} (δ n : SeqNo) (r : Option SeqNo) (c : Bool)
    (d : D) : (Packet.newWithData n r c d).renumber δ =
      .newWithData (n + δ) (r.map (· + δ)) c d := by
  cases r <;> cases c <;> rfl

/-- The packet of a shifted entry is the shifted packet. -/
theorem SendEntry.renumber_toPacket (δ : SeqNo) (e : SendEntry S) :
    (e.renumber δ).toPacket = e.toPacket.renumber δ := by
  rw [toPacket_eq, toPacket_eq, Packet.renumber_newWithData]
  rfl

/-! ## The numbers that a call looks up -/

/-- The permutation takes the cell of the number to the cell of the shifted number. -/
def Tracks (δ : SeqNo) (π : Fin CAP ≃ Fin CAP) (n : SeqNo) : Prop :=
  π (cell CAP n) = cell CAP (n + δ)

/-- The number that a stored packet answers. -/
def RecvEntry.replyNo? : RecvEntry R → Option SeqNo
  | .occupied _ r _ _ => r
  | .unlocked _ | .empty => none

namespace SeqEx

variable {Z Z' : SeqNo → Prop} {s : SeqEx S R CAP}

omit [NeZero CAP] in
/-- The numbers that the window check looks at are in `Z`. -/
def AheadIn (Z : SeqNo → Prop) (s : SeqEx S R CAP) : Prop :=
  ∀ i ≤ s.concurrentReplies.length, Z (number s.nextSendSeqNo i)

omit [NeZero CAP] in
/-- The numbers that the cursor may come to are in `Z`. -/
def SlotsIn (Z : SeqNo → Prop) (s : SeqEx S R CAP) : Prop :=
  ∀ j ≤ CAP + 1, Z (number s.nextRecvSeqNo j)

omit [NeZero CAP] in
/-- The numbers from `start` up to the next one are in `Z`. -/
def VisitsIn (Z : SeqNo → Prop) (s : SeqEx S R CAP) (start : SeqNo) : Prop :=
  ∀ k ≤ (s.nextSendSeqNo - start).toNat, Z (s.nextSendSeqNo - UInt32.ofNat k)

/-- All numbers under which the call looks up a cell are in `Z`. -/
def LooksIn (Z : SeqNo → Prop) (s : SeqEx S R CAP) : Call S R → Prop
  | .trySend _ _ _ | .reply _ _ _ _ _ => s.AheadIn Z
  | .receive p => s.AheadIn Z ∧ s.SlotsIn Z ∧ ∀ r ∈ p.replyNo?, Z r
  | .pump => s.AheadIn Z ∧ s.SlotsIn Z ∧
    ∀ r ∈ (s.recvWindow (cell CAP s.nextRecvSeqNo)).replyNo?, Z r
  | .ack _ _ | .unlock => True
  | .serviceDirect _ iter => s.VisitsIn Z ((iter.map ServiceIter.seqNo).getD s.firstSeqNo)
  | .service _ => s.VisitsIn Z s.firstSeqNo

/-- The windows and the packet are looked through. -/
instance decidableLooksIn [DecidablePred Z] (s : SeqEx S R CAP) : ∀ c, Decidable (s.LooksIn Z c)
  | .trySend _ _ _ | .reply _ _ _ _ _ => inferInstanceAs (Decidable (∀ i ≤ _, Z _))
  | .receive p =>
    have := Option.decidableForallMem (p := Z) p.replyNo?
    inferInstanceAs (Decidable ((∀ i ≤ _, Z _) ∧ (∀ j ≤ CAP + 1, Z _) ∧ ∀ r ∈ p.replyNo?, Z r))
  | .pump =>
    have := Option.decidableForallMem (p := Z) (s.recvWindow (cell CAP s.nextRecvSeqNo)).replyNo?
    inferInstanceAs (Decidable ((∀ i ≤ _, Z _) ∧ (∀ j ≤ CAP + 1, Z _) ∧
      ∀ r ∈ (s.recvWindow (cell CAP s.nextRecvSeqNo)).replyNo?, Z r))
  | .ack _ _ | .unlock => isTrue trivial
  | .serviceDirect _ _ | .service _ => inferInstanceAs (Decidable (∀ k ≤ _, Z _))

omit [NeZero CAP] in
/-- The next number itself. -/
theorem AheadIn.next (h : s.AheadIn Z) : Z s.nextSendSeqNo :=
  number_zero s.nextSendSeqNo ▸ h 0 (Nat.zero_le _)

omit [NeZero CAP] in
/-- The number of the cursor itself. -/
theorem SlotsIn.cursor (h : s.SlotsIn Z) : Z s.nextRecvSeqNo :=
  number_zero s.nextRecvSeqNo ▸ h 0 (Nat.zero_le _)

omit [NeZero CAP] in
/-- The numbers that have a slot. -/
theorem SlotsIn.inRange (h : s.SlotsIn Z) {n : SeqNo} (hn : s.InRange n) : Z n := by
  have hlt := (inRange_iff.mp hn).2
  have hle := Nat.mod_le CAP (2 ^ 32)
  have hz := h (n - s.nextRecvSeqNo).toNat (by omega)
  rwa [number, UInt32.ofNat_toNat, UInt32.add_comm, UInt32.sub_add_cancel] at hz

omit [NeZero CAP] in
/-- The numbers that lie no further behind than `start`. -/
theorem VisitsIn.behind {start n : SeqNo} (h : s.VisitsIn Z start)
    (hn : (s.nextSendSeqNo - n).toNat ≤ (s.nextSendSeqNo - start).toNat) : Z n := by
  have hz := h _ hn
  rwa [UInt32.ofNat_toNat, sub_sub_cancel] at hz

omit [NeZero CAP] in
/-- A shorter pass visits fewer numbers. -/
theorem VisitsIn.mono {start start' : SeqNo} {s' : SeqEx S R CAP} (h : s.VisitsIn Z start)
    (hnext : s'.nextSendSeqNo = s.nextSendSeqNo)
    (hle : (s.nextSendSeqNo - start').toNat ≤ (s.nextSendSeqNo - start).toNat) :
    s'.VisitsIn Z start' := by
  intro k hk
  rw [hnext] at hk ⊢
  exact h k (hk.trans hle)

/-- A call may look up all numbers. -/
theorem looksIn_of_forall (h : ∀ n, Z n) (c : Call S R) : s.LooksIn Z c := by
  cases c with
  | trySend t b f => exact fun i _ => h _
  | receive p => exact ⟨fun i _ => h _, fun j _ => h _, fun r _ => h r⟩
  | pump => exact ⟨fun i _ => h _, fun j _ => h _, fun r _ => h r⟩
  | reply t n u b d => exact fun i _ => h _
  | ack n u => exact trivial
  | unlock => exact trivial
  | serviceDirect t iter => exact fun k _ => h _
  | service t => exact fun k _ => h _

/-- A larger set of numbers. -/
theorem LooksIn.mono (hZ : ∀ n, Z n → Z' n) {c : Call S R} (h : s.LooksIn Z c) :
    s.LooksIn Z' c := by
  cases c with
  | trySend t b f => exact fun i hi => hZ _ (h i hi)
  | receive p => exact ⟨fun i hi => hZ _ (h.1 i hi), fun j hj => hZ _ (h.2.1 j hj),
      fun r hr => hZ r (h.2.2 r hr)⟩
  | pump => exact ⟨fun i hi => hZ _ (h.1 i hi), fun j hj => hZ _ (h.2.1 j hj),
      fun r hr => hZ r (h.2.2 r hr)⟩
  | reply t n u b d => exact fun i hi => hZ _ (h i hi)
  | ack n u => exact trivial
  | unlock => exact trivial
  | serviceDirect t iter => exact fun k hk => hZ _ (h k hk)
  | service t => exact fun k hk => hZ _ (h k hk)

/-! ## The renumbered endpoint -/

/-- The endpoint with `δ` added to every number and the cells permuted by `π`. -/
def renumber (δ : SeqNo) (π : Fin CAP ≃ Fin CAP) (s : SeqEx S R CAP) : SeqEx S R CAP :=
  { s with
    nextSendSeqNo := s.nextSendSeqNo + δ
    nextRecvSeqNo := s.nextRecvSeqNo + δ
    sendWindow := fun i => (s.sendWindow (π.symm i)).map (SendEntry.renumber δ)
    recvWindow := fun i => (s.recvWindow (π.symm i)).renumber δ
    concurrentReplies := s.concurrentReplies.map (· + δ) }

section Commutes

variable {δ : SeqNo} {π : Fin CAP ≃ Fin CAP} (s : SeqEx S R CAP)

/-- Back from the cell of a shifted number. -/
theorem symm_cell {n : SeqNo} (hn : Tracks δ π n) : π.symm (cell CAP (n + δ)) = cell CAP n := by
  rw [← hn, Equiv.symm_apply_apply]

/-- Shifted numbers share a cell when the numbers do. -/
theorem cell_add_inj {m n : SeqNo} (hm : Tracks δ π m) (hn : Tracks δ π n) :
    cell CAP (m + δ) = cell CAP (n + δ) ↔ cell CAP m = cell CAP n := by
  rw [← hm, ← hn, π.injective.eq_iff]

/-- The entry of a shifted number in the send window. -/
theorem renumber_sendWindow {n : SeqNo} (hn : Tracks δ π n) :
    (s.renumber δ π).sendWindow (cell CAP (n + δ)) =
      (s.sendWindow (cell CAP n)).map (SendEntry.renumber δ) := by
  simp only [renumber, symm_cell hn]

/-- The slot of a shifted number in the receive window. -/
theorem renumber_recvWindow {n : SeqNo} (hn : Tracks δ π n) :
    (s.renumber δ π).recvWindow (cell CAP (n + δ)) = (s.recvWindow (cell CAP n)).renumber δ := by
  simp only [renumber, symm_cell hn]

/-- Writing a cell and renumbering a window commute. -/
theorem renumber_update {α : Type*} (f : α → α) (w : Fin CAP → α) {n : SeqNo}
    (hn : Tracks δ π n) (v : α) :
    (fun i => f (Function.update w (cell CAP n) v (π.symm i))) =
      Function.update (fun i => f (w (π.symm i))) (cell CAP (n + δ)) (f v) := by
  funext i
  by_cases hi : π.symm i = cell CAP n
  · have hi' : i = cell CAP (n + δ) := by rw [← hn, ← hi, Equiv.apply_symm_apply]
    rw [hi, Function.update_self, hi', Function.update_self]
  · have hi' : i ≠ cell CAP (n + δ) := fun h => hi (by rw [h, symm_cell hn])
    rw [Function.update_of_ne hi, Function.update_of_ne hi']

omit [NeZero CAP] in
/-- The numbers ahead are shifted alike. -/
theorem number_add_right (n δ : SeqNo) (i : ℕ) : number (n + δ) i = number n i + δ := by
  rw [number, number, UInt32.add_assoc, UInt32.add_comm δ, ← UInt32.add_assoc]

/-- The same places block. -/
theorem renumber_isBlockedAt {r : Option SeqNo} {i : ℕ} (hr : ∀ q ∈ r, Tracks δ π q)
    (hi : Tracks δ π (number s.nextSendSeqNo i)) :
    (s.renumber δ π).isBlockedAt (r.map (· + δ)) i = s.isBlockedAt r i := by
  have hnext : (s.renumber δ π).nextSendSeqNo + UInt32.ofNat i =
      number s.nextSendSeqNo i + δ := number_add_right s.nextSendSeqNo δ i
  have hcell :
      ((r.map (· + δ)).map (cell CAP) != some (cell CAP (number s.nextSendSeqNo i + δ))) =
      (r.map (cell CAP) != some (cell CAP (number s.nextSendSeqNo i))) := by
    cases r with
    | none => rfl
    | some r =>
      simp only [Option.map_some]
      rw [Bool.eq_iff_iff, bne_iff_ne, bne_iff_ne, ne_eq, ne_eq, Option.some_inj, Option.some_inj,
        cell_add_inj (hr r rfl) hi]
  simp only [isBlockedAt, hnext, renumber_sendWindow s hi, Option.isSome_map, hcell]
  rfl

/-- So the window check gives the same verdict. -/
theorem renumber_isFullInner (hahead : s.AheadIn (Tracks δ π)) {r : Option SeqNo}
    (hr : ∀ q ∈ r, Tracks δ π q) :
    (s.renumber δ π).isFullInner (r.map (· + δ)) = s.isFullInner r := by
  have hlen : (s.renumber δ π).concurrentReplies.length = s.concurrentReplies.length := by
    simp [renumber]
  have hfind : (List.range (1 + UInt32.ofNat s.concurrentReplies.length).toNat).find?
      ((s.renumber δ π).isBlockedAt (r.map (· + δ))) =
        (List.range (1 + UInt32.ofNat s.concurrentReplies.length).toNat).find?
          (s.isBlockedAt r) := by
    refine List.find?_congr fun i hi => renumber_isBlockedAt s hr (hahead i ?_)
    have hlt := List.mem_range.mp hi
    rw [UInt32.toNat_add, UInt32.toNat_one, UInt32.toNat_ofNat'] at hlt
    have hle := Nat.mod_le (1 + s.concurrentReplies.length % 2 ^ 32) (2 ^ 32)
    have hle' := Nat.mod_le s.concurrentReplies.length (2 ^ 32)
    omega
  simp only [isFullInner, hlen, hfind]

/-- The shifted number takes out the same data. -/
theorem renumber_takeSend {r : SeqNo} (hr : Tracks δ π r) :
    (s.renumber δ π).takeSend (r + δ) = ((s.takeSend r).1, (s.takeSend r).2.renumber δ π) := by
  simp only [takeSend, renumber_sendWindow s hr]
  cases he : s.sendWindow (cell CAP r) with
  | none => rfl
  | some e =>
    simp only [Option.map_some, SendEntry.renumber]
    have hseq : e.seqNo + δ = r + δ ↔ e.seqNo = r := by simp
    by_cases heq : e.seqNo = r
    · rw [if_pos (hseq.mpr heq), if_pos heq]
      simp only [renumber, renumber_update (Option.map (SendEntry.renumber δ)) _ hr,
        Option.map_none]
    · rw [if_neg fun h => heq (hseq.mp h), if_neg heq]

omit [NeZero CAP] in
/-- Removing an element does not look at it. -/
theorem swapRemove_map {α β : Type*} (f : α → β) (l : List α) (i : ℕ) :
    swapRemove (l.map f) i = (swapRemove l i).map f := by
  unfold swapRemove
  rw [List.getLast?_map]
  cases l.getLast? with
  | none => rfl
  | some a => simp [List.map_set, List.map_dropLast]

omit [NeZero CAP] in
/-- A shifted number stands where the number did. -/
theorem idxOf?_map_add (δ r : SeqNo) (l : List SeqNo) :
    (l.map (· + δ)).idxOf? (r + δ) = l.idxOf? r := by
  have hpred : ((· == r + δ) ∘ (· + δ)) = (· == r) := funext fun n => by
    rw [Function.comp_apply, Bool.eq_iff_iff, beq_iff_eq, beq_iff_eq, UInt32.add_left_inj]
  rw [List.idxOf?, List.findIdx?_map, hpred, List.idxOf?]

omit [NeZero CAP] in
/-- The shifted reservation is found and removed. -/
theorem renumber_removeReservation (r : SeqNo) :
    (s.renumber δ π).removeReservation (r + δ) =
      ((s.removeReservation r).1, (s.removeReservation r).2.renumber δ π) := by
  have hidx : (s.renumber δ π).concurrentReplies.idxOf? (r + δ) = s.concurrentReplies.idxOf? r :=
    idxOf?_map_add δ r s.concurrentReplies
  simp only [removeReservation, hidx]
  cases s.concurrentReplies.idxOf? r with
  | none => rfl
  | some i => simp only [renumber, swapRemove_map]

/-- The new packet and its entry, shifted. -/
theorem renumber_insertEntry (hn : Tracks δ π s.nextSendSeqNo) (t : Int64) (r : Option SeqNo)
    (c : Bool) (d : S) :
    (s.renumber δ π).insertEntry t (r.map (· + δ)) c d =
      ((s.insertEntry t r c d).1.renumber δ, (s.insertEntry t r c d).2.renumber δ π) := by
  have hnext : s.nextSendSeqNo + δ + 1 = s.nextSendSeqNo + 1 + δ := by
    rw [UInt32.add_assoc, UInt32.add_comm δ, ← UInt32.add_assoc]
  refine Prod.ext ?_ ?_
  · exact SendEntry.renumber_toPacket δ ⟨s.nextSendSeqNo, r, c, t + s.resendInterval, d⟩
  · simp only [insertEntry, renumber, hnext,
      renumber_update (Option.map (SendEntry.renumber δ)) _ hn, Option.map_some, SendEntry.renumber]
    rfl

/-- The cursor passes over the same markers. -/
theorem renumber_fastForwardLoop (fuel : ℕ) (w : Fin CAP → RecvEntry R) (n : SeqNo)
    (hslots : ∀ j < fuel, Tracks δ π (number n j)) :
    fastForwardLoop fuel (fun i => (w (π.symm i)).renumber δ) (n + δ) =
      (fun i => ((fastForwardLoop fuel w n).1 (π.symm i)).renumber δ,
        (fastForwardLoop fuel w n).2.1 + δ, (fastForwardLoop fuel w n).2.2) := by
  induction fuel generalizing w n with
  | zero => rfl
  | succ fuel ih =>
    have hn : Tracks δ π n := number_zero n ▸ hslots 0 (Nat.succ_pos fuel)
    have hcell : (w (π.symm (cell CAP (n + δ)))).renumber δ = (w (cell CAP n)).renumber δ := by
      rw [symm_cell hn]
    unfold fastForwardLoop
    dsimp only
    rw [hcell]
    cases hw : w (cell CAP n) with
    | unlocked m =>
      simp only [RecvEntry.renumber]
      have hnext : n + δ + 1 = n + 1 + δ := by
        rw [UInt32.add_assoc, UInt32.add_comm δ, ← UInt32.add_assoc]
      have hupdate := renumber_update (RecvEntry.renumber δ) w hn .empty
      simp only [RecvEntry.renumber] at hupdate
      rw [hnext, ← hupdate]
      refine ih _ _ fun j hj => ?_
      rw [number_add_one]
      exact hslots (j + 1) (Nat.succ_lt_succ hj)
    | occupied _ _ _ _ => rfl
    | empty => rfl

/-- A slot is overwritten under its shifted number. -/
theorem renumber_setRecvEntry {n : SeqNo} (hn : Tracks δ π n) (e : RecvEntry R) :
    (s.renumber δ π).setRecvEntry (n + δ) (e.renumber δ) = (s.setRecvEntry n e).renumber δ π := by
  simp only [setRecvEntry, renumber, renumber_update (RecvEntry.renumber δ) _ hn]

/-- The jump of the cursor, shifted. -/
theorem renumber_fastForward (hslots : ∀ j < CAP + 1, Tracks δ π (number s.nextRecvSeqNo j)) :
    (s.renumber δ π).fastForward = (s.fastForward.1, s.fastForward.2.renumber δ π) := by
  have h := renumber_fastForwardLoop (CAP + 1) s.recvWindow s.nextRecvSeqNo hslots
  simp only [fastForward, renumber, h]

/-- The advance of the cursor, shifted. -/
theorem renumber_advance {n : SeqNo} (hslots : ∀ j ≤ CAP + 1, Tracks δ π (number n j)) :
    (s.renumber δ π).advance (n + δ) = ((s.advance n).1, (s.advance n).2.renumber δ π) := by
  have hnext : n + δ + 1 = n + 1 + δ := by
    rw [UInt32.add_assoc, UInt32.add_comm δ, ← UInt32.add_assoc]
  have hset := renumber_setRecvEntry s (number_zero n ▸ hslots 0 (Nat.zero_le _)) .empty
  simp only [RecvEntry.renumber] at hset
  rw [advance, advance, ← renumber_fastForward, hset, hnext]
  · rfl
  · intro j hj
    rw [number_add_one]
    exact hslots (j + 1) hj

/-- The delivery of a packet, shifted. -/
theorem renumber_handOver {D : Type*} (n : SeqNo) {r : Option SeqNo}
    (hr : ∀ q ∈ r, Tracks δ π q) (c : Bool) (d : D) :
    (s.renumber δ π).handOver (n + δ) (r.map (· + δ)) c d =
      ((s.handOver n r c d).1.renumber δ, (s.handOver n r c d).2.renumber δ π) := by
  have hreserve : (s.renumber δ π).reserve (n + δ) c = (s.reserve n c).renumber δ π := by
    simp [reserve, renumber]
  cases r with
  | none => exact Prod.ext rfl hreserve
  | some r =>
    have htake := renumber_takeSend (s.reserve n c) (hr r rfl)
    rw [← hreserve] at htake
    simp only [handOver, Option.map_some]
    simp only [reserve] at htake
    rw [htake]
    cases (takeSend { s with
      concurrentReplies := s.concurrentReplies ++ [n], isLocked := s.isLocked || c } r).1 <;> rfl

omit [NeZero CAP] in
/-- Distances from the cursor are the same. -/
theorem renumber_sub (n : SeqNo) :
    n + δ - (s.renumber δ π).nextRecvSeqNo = n - s.nextRecvSeqNo := by
  simp [renumber]

omit [NeZero CAP] in
/-- So the same packets are below the range. -/
theorem renumber_isBelowRange (n : SeqNo) :
    (s.renumber δ π).isBelowRange (n + δ) = s.isBelowRange n := by
  simp only [isBelowRange, renumber_sub]

omit [NeZero CAP] in
/-- And the same packets are above it. -/
theorem renumber_isAboveRange (n : SeqNo) :
    (s.renumber δ π).isAboveRange (n + δ) = s.isAboveRange n := by
  simp only [isAboveRange, renumber_isBelowRange, renumber_sub]

omit [NeZero CAP] in
/-- The same replies are pending. -/
theorem renumber_isReplyPending (n : SeqNo) :
    (s.renumber δ π).isReplyPending (n + δ) = s.isReplyPending n := by
  have hentry (i : Fin CAP) :
      ((s.renumber δ π).sendWindow (π i)).bind SendEntry.replyNo = some (n + δ) ↔
        (s.sendWindow i).bind SendEntry.replyNo = some n := by
    simp only [renumber, Equiv.symm_apply_apply]
    cases s.sendWindow i with
    | none => simp
    | some e => cases hr : e.replyNo <;> simp [SendEntry.renumber, hr]
  rw [isReplyPending, isReplyPending, decide_eq_decide]
  exact (π.exists_congr fun i => (hentry i).symm).symm

/-- The same packets are duplicates. -/
theorem renumber_isDuplicate {n : SeqNo} (hn : Tracks δ π n) :
    (s.renumber δ π).isDuplicate (n + δ) = s.isDuplicate n := by
  simp only [isDuplicate, renumber_recvWindow s hn]
  cases s.recvWindow (cell CAP n) <;> rfl

/-- The same packets have to wait. -/
theorem renumber_mustWait (hahead : s.AheadIn (Tracks δ π)) (n : SeqNo) {r : Option SeqNo}
    (hr : ∀ q ∈ r, Tracks δ π q) (c : Bool) :
    (s.renumber δ π).mustWait (n + δ) (r.map (· + δ)) c = s.mustWait n r c := by
  simp only [mustWait, renumber_isFullInner s hahead hr, renumber_sub]
  rfl

omit [NeZero CAP] in
/-- The same numbers are outstanding. -/
theorem renumber_mem_replies (n : SeqNo) :
    n + δ ∈ (s.renumber δ π).concurrentReplies ↔ n ∈ s.concurrentReplies := by
  simp [renumber]

/-- The receipt of a data packet, shifted with its errors. -/
theorem renumber_receiveData (hahead : s.AheadIn (Tracks δ π)) (hslots : s.SlotsIn (Tracks δ π))
    (n : SeqNo) {r : Option SeqNo} (hr : ∀ q ∈ r, Tracks δ π q) (c : Bool) (d : R) :
    (s.renumber δ π).receiveData id (n + δ) (r.map (· + δ)) c d =
      (((s.receiveData id n r c d).1.mapError (TryRawRecvError.renumber δ)).map
          fun o => (o.1.renumber δ, o.2),
        (s.receiveData id n r c d).2.renumber δ π) := by
  simp only [receiveData, renumber_isBelowRange, renumber_isAboveRange, renumber_isReplyPending,
    renumber_mem_replies, renumber_mustWait s hahead n hr, renumber_sub]
  split
  · split
    · rfl
    · split <;> rfl
  · rename_i hbelow
    split
    · rfl
    · rename_i habove
      -- the number has a slot
      have hn : Tracks δ π n :=
        hslots.inRange ⟨eq_false_of_ne_true hbelow, eq_false_of_ne_true habove⟩
      split
      · -- the packet has to wait
        have hset := renumber_setRecvEntry s hn (.occupied n r c d)
        simp only [RecvEntry.renumber] at hset
        simp only [id_eq, hset, renumber_isDuplicate s hn]
        cases s.isDuplicate n <;> cases (s.mustWait n r c).1 <;> rfl
      · split
        · rename_i hfirst
          obtain rfl : n = s.nextRecvSeqNo := sub_eq_zero_iff.mp hfirst
          have hadvance := renumber_advance s hslots
          simp only [advance] at hadvance
          rw [hadvance, renumber_handOver _ _ hr]
          rfl
        · have hset := renumber_setRecvEntry s hn (.unlocked n)
          simp only [RecvEntry.renumber] at hset
          rw [hset, renumber_handOver _ _ hr]
          rfl

/-- The receipt of any packet, shifted. -/
theorem renumber_tryReceive (hahead : s.AheadIn (Tracks δ π)) (hslots : s.SlotsIn (Tracks δ π))
    (p : Packet R) (hr : ∀ r ∈ p.replyNo?, Tracks δ π r) :
    (s.renumber δ π).tryReceiveRawAndDirect id (p.renumber δ) =
      (((s.tryReceiveRawAndDirect id p).1.mapError (TryRawRecvError.renumber δ)).map
          fun o => (o.1.renumber δ, o.2),
        (s.tryReceiveRawAndDirect id p).2.renumber δ π) := by
  rcases p.eq_ack_or_newWithData with ⟨r, rfl⟩ | ⟨n, r, c, d, rfl⟩
  · simp only [Packet.renumber, tryReceiveRawAndDirect, renumber_takeSend s (hr r rfl)]
    cases (s.takeSend r).1 <;> rfl
  · rw [Packet.replyNo?_newWithData] at hr
    rw [Packet.renumber_newWithData, tryReceive_newWithData, tryReceive_newWithData,
      renumber_receiveData s hahead hslots n hr]

/-- `try_pump`, shifted. -/
theorem renumber_tryPump (hahead : s.AheadIn (Tracks δ π)) (hslots : s.SlotsIn (Tracks δ π))
    (hstored : ∀ r ∈ (s.recvWindow (cell CAP s.nextRecvSeqNo)).replyNo?, Tracks δ π r) :
    (s.renumber δ π).tryPumpRaw =
      (s.tryPumpRaw.1.map fun o => (o.1.renumber δ, o.2), s.tryPumpRaw.2.renumber δ π) := by
  have hcell : (s.renumber δ π).recvWindow (cell CAP (s.renumber δ π).nextRecvSeqNo) =
      (s.recvWindow (cell CAP s.nextRecvSeqNo)).renumber δ :=
    renumber_recvWindow s hslots.cursor
  unfold tryPumpRaw
  rw [hcell]
  cases hw : s.recvWindow (cell CAP s.nextRecvSeqNo) with
  | occupied n r c d =>
    have hr : ∀ q ∈ r, Tracks δ π q := by
      rw [hw] at hstored
      exact hstored
    simp only [RecvEntry.renumber, renumber_isFullInner s hahead hr]
    cases s.isFullInner r with
    | error e => rfl
    | ok u =>
      have hlocked : (s.renumber δ π).isLocked = s.isLocked := rfl
      simp only [hlocked]
      split
      · have hadvance := renumber_advance s hslots
        simp only [advance] at hadvance
        have hnext : (s.renumber δ π).nextRecvSeqNo = s.nextRecvSeqNo + δ := rfl
        rw [hnext, hadvance, renumber_handOver _ _ hr]
        rfl
      · rfl
  | unlocked _ => rfl
  | empty => rfl

/-- A reply, shifted. -/
theorem renumber_reply (hn : Tracks δ π s.nextSendSeqNo) (t : Int64) (n : SeqNo) (u c : Bool)
    (d : S) :
    (s.renumber δ π).replyRawAndDirect t (n + δ) u c d =
      ((s.replyRawAndDirect t n u c d).1.map (Packet.renumber δ),
        (s.replyRawAndDirect t n u c d).2.renumber δ π) := by
  simp only [replyRawAndDirect, renumber_removeReservation]
  split
  · have hsame : (s.removeReservation n).2.nextSendSeqNo = s.nextSendSeqNo := by
      unfold removeReservation
      split <;> rfl
    have hinsert := renumber_insertEntry
      { (s.removeReservation n).2 with isLocked := (s.removeReservation n).2.isLocked && !u }
      (hsame.symm ▸ hn) t (some n) c d
    simp only [Option.map_some] at hinsert ⊢
    exact congrArg (fun x => (some x.1, x.2)) hinsert
  · rfl

omit [NeZero CAP] in
/-- An acknowledgement, shifted. -/
theorem renumber_ack (n : SeqNo) (u : Bool) :
    (s.renumber δ π).ackRawAndDirect (n + δ) u =
      ((s.ackRawAndDirect n u).1.map (Packet.renumber δ),
        (s.ackRawAndDirect n u).2.renumber δ π) := by
  simp only [ackRawAndDirect, renumber_removeReservation]
  split <;> rfl

/-- The scan visits the same entries under their shifted numbers. -/
theorem renumber_serviceScan (t : Int64) (k : ℕ) (iter : ServiceIter)
    (hk : (s.nextSendSeqNo - iter.seqNo).toNat = k)
    (hvisits : s.VisitsIn (Tracks δ π) iter.seqNo) :
    serviceScan t k (iter.renumber δ) (s.renumber δ π) =
      ((serviceScan t k iter s).1.map (Packet.renumber δ),
        (serviceScan t k iter s).2.1.renumber δ, (serviceScan t k iter s).2.2.renumber δ π) := by
  induction k generalizing iter with
  | zero => rfl
  | succ k ih =>
    have hnext : iter.seqNo + δ + 1 = iter.seqNo + 1 + δ := by
      rw [UInt32.add_assoc, UInt32.add_comm δ, ← UInt32.add_assoc]
    have hk' := sub_add_one_toNat hk
    have hn : Tracks δ π iter.seqNo := hvisits.behind le_rfl
    have hvisits' : s.VisitsIn (Tracks δ π) (iter.seqNo + 1) :=
      hvisits.mono rfl (by rw [hk, hk']; exact Nat.le_succ k)
    unfold serviceScan
    simp only [ServiceIter.renumber, renumber_sendWindow s hn, hnext]
    cases he : s.sendWindow (cell CAP iter.seqNo) with
    | none => exact ih { iter with seqNo := iter.seqNo + 1 } hk' hvisits'
    | some e =>
      simp only [Option.map_some]
      have htime : (e.renumber δ).nextResendTime = e.nextResendTime := rfl
      rw [htime]
      split
      · have hupdate := renumber_update (Option.map (SendEntry.renumber δ)) s.sendWindow hn
          (some { e with nextResendTime := t + s.resendInterval })
        have hpacket := SendEntry.renumber_toPacket δ
          { e with nextResendTime := t + s.resendInterval }
        simp only [renumber, hupdate, Option.map_some, ← hpacket]
        rfl
      · exact ih ⟨iter.seqNo + 1, min iter.nextTime e.nextResendTime⟩ hk' hvisits'

omit [NeZero CAP] in
/-- A fresh iterator starts at the shifted number. -/
theorem renumber_firstSeqNo : (s.renumber δ π).firstSeqNo = s.firstSeqNo + δ := by
  simp only [firstSeqNo, renumber]
  rw [UInt32.sub_eq_add_neg, UInt32.sub_eq_add_neg, UInt32.add_assoc, UInt32.add_comm δ,
    ← UInt32.add_assoc]

/-- One step of `service`, shifted. -/
theorem renumber_serviceDirect (t : Int64) (iter : Option ServiceIter)
    (hvisits : s.VisitsIn (Tracks δ π) ((iter.map ServiceIter.seqNo).getD s.firstSeqNo)) :
    (s.renumber δ π).serviceDirect t (iter.map (ServiceIter.renumber δ)) =
      ((s.serviceDirect t iter).1.map (Packet.renumber δ),
        (s.serviceDirect t iter).2.1.map (ServiceIter.renumber δ),
        (s.serviceDirect t iter).2.2.renumber δ π) := by
  have htime : (s.renumber δ π).nextServiceTimestamp = s.nextServiceTimestamp := rfl
  have hiter : (iter.map (ServiceIter.renumber δ)).getD
      ⟨(s.renumber δ π).firstSeqNo, Int64.maxValue⟩ =
      (iter.getD ⟨s.firstSeqNo, Int64.maxValue⟩).renumber δ := by
    rw [renumber_firstSeqNo]
    cases iter <;> rfl
  have hstart : (iter.getD ⟨s.firstSeqNo, Int64.maxValue⟩).seqNo =
      (iter.map ServiceIter.seqNo).getD s.firstSeqNo := by
    cases iter <;> rfl
  have hdist (i : ServiceIter) :
      (s.renumber δ π).nextSendSeqNo - (i.renumber δ).seqNo = s.nextSendSeqNo - i.seqNo := by
    simp [renumber, ServiceIter.renumber]
  have hscan := renumber_serviceScan s t _ (iter.getD ⟨s.firstSeqNo, Int64.maxValue⟩) rfl
    (hstart ▸ hvisits)
  rw [firstSeqNo] at hiter
  simp only [serviceDirect, htime]
  split
  · simp only [hiter, hdist]
    exact congrArg (fun x => (x.1, some x.2.1, x.2.2)) hscan
  · rfl

/-- What is left of a pass is part of it. -/
theorem visitsIn_serviceDirect {Z : SeqNo → Prop} {t : Int64} {iter : Option ServiceIter}
    {p : Packet S} (hsome : (s.serviceDirect t iter).1 = some p)
    (hvisits : s.VisitsIn Z ((iter.map ServiceIter.seqNo).getD s.firstSeqNo)) :
    (s.serviceDirect t iter).2.2.VisitsIn Z
      (((s.serviceDirect t iter).2.1.map ServiceIter.seqNo).getD
        (s.serviceDirect t iter).2.2.firstSeqNo) := by
  have hstart : (iter.getD ⟨s.firstSeqNo, Int64.maxValue⟩).seqNo =
      (iter.map ServiceIter.seqNo).getD s.firstSeqNo := by
    cases iter <;> rfl
  rw [← hstart] at hvisits
  rw [firstSeqNo] at hvisits
  unfold serviceDirect at hsome ⊢
  split
  · rename_i hdue
    rw [if_pos hdue] at hsome
    have hscan := serviceScan_scanned t _
      (iter.getD ⟨s.nextSendSeqNo - lenU32 CAP, Int64.maxValue⟩) s rfl
    dsimp only at hsome ⊢
    generalize serviceScan t _ (iter.getD ⟨s.nextSendSeqNo - lenU32 CAP, Int64.maxValue⟩) s = r
      at hscan hsome ⊢
    cases hscan with
    | done m hpass => cases hsome
    | resend p iter' w hlt hpass => exact hvisits.mono rfl hlt.le
  · rename_i hdue
    rw [if_neg hdue] at hsome
    cases hsome

/-- The whole pass, shifted. -/
theorem renumber_serviceLoop (t : Int64) (fuel : ℕ) (iter : Option ServiceIter)
    (hvisits : s.VisitsIn (Tracks δ π) ((iter.map ServiceIter.seqNo).getD s.firstSeqNo)) :
    serviceLoop t fuel (iter.map (ServiceIter.renumber δ)) (s.renumber δ π) =
      ((serviceLoop t fuel iter s).1.map (Packet.renumber δ),
        (serviceLoop t fuel iter s).2.renumber δ π) := by
  induction fuel generalizing iter s with
  | zero => rfl
  | succ fuel ih =>
    unfold serviceLoop
    simp only [renumber_serviceDirect s t iter hvisits]
    cases hres : (s.serviceDirect t iter).1 with
    | none => rfl
    | some p =>
      simp only [Option.map_some]
      rw [ih _ _ (visitsIn_serviceDirect s hres hvisits)]
      rfl

/-- A renumbered call on the renumbered endpoint has the renumbered answer, when the
permutation fits the numbers it looks up. -/
theorem renumber_call {c : Call S R} (hlooks : s.LooksIn (Tracks δ π) c) :
    (s.renumber δ π).call (c.renumber δ) =
      ((s.call c).1.renumber δ, (s.call c).2.renumber δ π) := by
  cases c with
  | trySend t b f =>
    have hfull := renumber_isFullInner s hlooks (r := none) (by simp)
    simp only [Option.map_none] at hfull
    simp only [Call.renumber, call, trySendDirectWith, hfull]
    cases s.isFullInner none with
    | error e => rfl
    | ok u =>
      have hinsert := renumber_insertEntry s hlooks.next t none b (f s.nextSendSeqNo)
      have harg : (s.renumber δ π).nextSendSeqNo - δ = s.nextSendSeqNo := by simp [renumber]
      simp only [Option.map_none] at hinsert
      simp only [harg, hinsert]
      rfl
  | receive p =>
    obtain ⟨hahead, hslots, hr⟩ := hlooks
    simp only [Call.renumber, call, renumber_tryReceive s hahead hslots p hr]
    cases (s.tryReceiveRawAndDirect id p).1 <;> rfl
  | pump =>
    obtain ⟨hahead, hslots, hstored⟩ := hlooks
    simp only [Call.renumber, call, renumber_tryPump s hahead hslots hstored]
    cases s.tryPumpRaw.1 <;> rfl
  | reply t n u b d =>
    simp only [Call.renumber, call, renumber_reply s hlooks.next]
    rfl
  | ack n u =>
    simp only [Call.renumber, call, renumber_ack]
    rfl
  | unlock => rfl
  | serviceDirect t iter =>
    simp only [Call.renumber, call, renumber_serviceDirect s t iter hlooks]
    rfl
  | service t =>
    have hloop := renumber_serviceLoop s t ((lenU32 CAP).toNat + 1) none hlooks
    simp only [Option.map_none] at hloop
    simp only [Call.renumber, call, service, hloop]
    rfl

end Commutes

/-! ## Runs -/

/-- The results of a sequence of calls, each with the deadline it leaves. -/
def trace (s : SeqEx S R CAP) : List (Call S R) → List (Answer S R × Int64)
  | [] => []
  | c :: cs => ((s.call c).1, (s.call c).2.nextServiceTimestamp) :: (s.call c).2.trace cs

/-- A renumbered run has the renumbered results, when the permutation fits the numbers
that its calls look up. -/
theorem trace_renumber {δ : SeqNo} {π : Fin CAP ≃ Fin CAP} (s : SeqEx S R CAP)
    (cs : List (Call S R))
    (hlooks : Allowed (fun (u : SeqEx S R CAP) c => u.LooksIn (Tracks δ π) c)
      (fun u c => (u.call c).2) s cs) :
    (s.renumber δ π).trace (cs.map (Call.renumber δ)) =
      (s.trace cs).map fun a => (a.1.renumber δ, a.2) := by
  induction cs generalizing s with
  | nil => rfl
  | cons c cs ih =>
    obtain ⟨hc, hrest⟩ := hlooks
    rw [List.map_cons, trace, trace, List.map_cons, renumber_call s hc, ih _ hrest]
    rfl

end SeqEx

end SequentialExchange
