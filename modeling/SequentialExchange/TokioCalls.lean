import SequentialExchange.GuardLedger
import SequentialExchange.TokioRuns
import SequentialExchange.Traffic

/-!
# The sections of the futures as calls

Every section of `tokio.rs` makes calls on the state machine. `receive` wraps the
data of a packet when it is stored, which comes to the same as receiving a packet
with wrapped data. Then it pumps, and what it pumps goes to the futures that wait
or is acknowledged; the loop ends by itself.
-/

namespace SequentialExchange

open WrapNumbering

variable {S P R : Type*} {CAP : ℕ} [NeZero CAP]

/-- The data of the received packet is converted. -/
def RecvOkRaw.convert (into : P → R) : RecvOkRaw S P → RecvOkRaw S R
  | .payload n b d => .payload n b (into d)
  | .reply n b d e => .reply n b (into d) e
  | .ack e => .ack e

namespace SeqEx

/-- A delivery carries its data unread. -/
theorem handOver_convert (into : P → R) (s : SeqEx S R CAP) (n : SeqNo) (r : Option SeqNo)
    (b : Bool) (d : P) :
    s.handOver n r b (into d) = ((s.handOver n r b d).1.convert into, (s.handOver n r b d).2) := by
  unfold handOver
  cases r with
  | none => rfl
  | some r =>
    dsimp only
    split <;> rfl

/-- What `try_receive_raw_and_direct` returns is the answer of a call, but for the
conversion. -/
def heard (into : P → R) : Except TryRawRecvError (RecvOkRaw S P × Bool) → Answer S R
  | .ok (ok, doPump) => .received (ok.convert into) doPump
  | .error e => .dropped e

/-- So does the receipt of a data packet. -/
theorem receiveData_convert (into : P → R) (s : SeqEx S R CAP) (n : SeqNo) (r : Option SeqNo)
    (b : Bool) (d : P) :
    s.receiveData id n r b (into d) =
      ((s.receiveData into n r b d).1.map fun o => (o.1.convert into, o.2),
        (s.receiveData into n r b d).2) := by
  simp only [receiveData, handOver_convert, id]
  split_ifs <;> rfl

/-- Data can be converted when it is stored or before. -/
theorem receive_convert (into : P → R) (s : SeqEx S R CAP) (p : Packet P) :
    s.call (.receive (p.map into)) =
      (heard into (s.tryReceiveRawAndDirect into p).1, (s.tryReceiveRawAndDirect into p).2) := by
  rcases p.eq_ack_or_newWithData with ⟨r, rfl⟩ | ⟨n, r, b, d, rfl⟩
  · simp only [Packet.map, call, tryReceiveRawAndDirect]
    cases (s.takeSend r).1 <;> rfl
  · simp only [Packet.map_newWithData, call, tryReceive_newWithData, receiveData_convert]
    cases (receiveData into s n r b d).1 <;> rfl

/-- The number of stored packets. -/
def storedCount (s : SeqEx S R CAP) : ℕ := (Finset.univ.filter fun i => (s.stored i).isSome).card

omit [NeZero CAP] in
/-- The count is read off the receive window. -/
theorem storedCount_congr {s s' : SeqEx S R CAP} (h : s'.recvWindow = s.recvWindow) :
    s'.storedCount = s.storedCount := by
  have hstored : s'.stored = s.stored := by
    funext i
    rw [stored, stored, h]
  rw [storedCount, storedCount, hstored]

/-- A pumped packet is not stored any more. -/
theorem storedCount_pump_lt {s : SeqEx S R CAP} {o : RecvOkRaw S R × Bool}
    (h : s.tryPumpRaw.1 = .ok o) : s.tryPumpRaw.2.storedCount < s.storedCount := by
  have hkeep (i : Fin CAP) (p : Packet R) (hp : s.tryPumpRaw.2.stored i = some p) :
      s.stored i = some p := (call_stored .pump hp).resolve_right nofun
  have hcases := s.tryPumpRaw_cases
  generalize s.tryPumpRaw = res at hcases h hkeep ⊢
  cases hcases with
  | nothing _ => cases h
  | full _ _ _ _ _ _ _ => cases h
  | locked _ _ _ _ _ _ => cases h
  | next n r b d hcell _ _ =>
    -- the cell of the cursor was occupied and is not any more
    have hgone : ((s.advance s.nextRecvSeqNo).2.handOver n r b d).2.stored
        (cell CAP s.nextRecvSeqNo) = none := by
      refine Option.eq_none_iff_forall_ne_some.mpr fun p hp => ?_
      obtain ⟨n', r', b', d', hcell', -⟩ := stored_eq_some hp
      rw [(handOver_receive _ n r b d).2] at hcell'
      have hset : (s.setRecvEntry s.nextRecvSeqNo .empty).recvWindow (cell CAP s.nextRecvSeqNo) =
          .occupied n' r' b' d' := fastForwardLoop_occupied hcell'
      simp at hset
    refine Finset.card_lt_card ((Finset.ssubset_iff_of_subset fun i hi => ?_).mpr
      ⟨cell CAP s.nextRecvSeqNo, ?_, ?_⟩)
    · obtain ⟨p, hp⟩ := Option.isSome_iff_exists.mp (by simpa using hi)
      simp [hkeep i p hp]
    · simp [stored_of_occupied hcell]
    · simp [hgone]

end SeqEx

namespace Tokio

/-! ## The list of futures -/

section Futures

variable {α β : Type*} {l : List α} {k : ℕ} {a : α}

/-- An element and the rest of its list. -/
theorem perm_of_getElem? (h : l[k]? = some a) : l.Perm (a :: l.eraseIdx k) := by
  obtain ⟨hlt, rfl⟩ := List.getElem?_eq_some_iff.mp h
  exact (List.getElem_cons_eraseIdx_perm hlt).symm

/-- A changed element and the rest of its list. -/
theorem modify_perm (h : l[k]? = some a) (f : α → α) :
    (l.modify k f).Perm (f a :: l.eraseIdx k) := by
  obtain ⟨hlt, rfl⟩ := List.getElem?_eq_some_iff.mp h
  rw [List.modify_eq_take_cons_drop hlt, List.eraseIdx_eq_take_drop_succ]
  exact List.perm_middle

/-- A change that the map does not see. -/
theorem map_modify_of_comp {f : α → β} {g : α → α} (h : ∀ a, f (g a) = f a) (l : List α) (k : ℕ) :
    (l.modify k g).map f = l.map f := by
  refine List.ext_getElem? fun i => ?_
  rw [List.getElem?_map, List.getElem?_map, List.getElem?_modify]
  split
  · cases l[i]? <;> simp [h]
  · cases l[i]? <;> rfl

end Futures

/-! ## What `receive_inner` does -/

/-- A value that cannot be sent is awaited by nobody; otherwise it waits with a
future that awaited it. -/
theorem post_cases (chan : ℕ) (value : Option (Mail R)) (tasks : List (Task S R)) :
    (∀ task ∈ tasks, task.awaits chan = false) ∧ post chan value tasks = none ∨
      ∃ xs stage ys, tasks = xs ++ ⟨chan, stage, none⟩ :: ys ∧
        post chan value tasks = some (xs ++ ⟨chan, stage, some value⟩ :: ys) := by
  unfold post
  split
  · rename_i hany
    have hlt : tasks.findIdx (·.awaits chan) < tasks.length := by
      simpa [List.findIdx_lt_length] using hany
    have hawaits : tasks[tasks.findIdx (·.awaits chan)].awaits chan = true :=
      List.findIdx_getElem (p := fun task : Task S R => task.awaits chan) (w := hlt)
    generalize tasks.findIdx (·.awaits chan) = k at hlt hawaits ⊢
    obtain ⟨hchan, hinbox⟩ : tasks[k].chan = chan ∧ tasks[k].inbox = none := by
      simpa [Task.awaits] using hawaits
    refine .inr ⟨tasks.take k, tasks[k].stage, tasks.drop (k + 1), ?_, ?_⟩
    · rw [← hchan, ← hinbox, List.getElem_cons_drop, List.take_append_drop]
    · rw [List.modify_eq_take_cons_drop hlt, hchan]
  · rename_i hany
    exact .inl ⟨by simpa using hany, rfl⟩

namespace Work

/-- The futures stay where they are, and calls that neither send nor service lead
from one state machine to the other. -/
structure Follows (w w' : Work S R CAP) : Prop where
  stages : w'.tasks.map Task.stage = w.tasks.map Task.stage
  calls : ∃ cs : List (Call (Sender S) (Receiver R)),
    (∀ c ∈ cs, (∃ p, c = .receive p) ∨ c = .pump ∨ ∃ n u, c = .ack n u) ∧
      w'.seq = cs.foldl (fun q c => (q.call c).2) w.seq

variable {w w' w'' : Work S R CAP}

/-- No call was made. -/
theorem Follows.rfl' (w : Work S R CAP) : w.Follows w := ⟨rfl, [], nofun, rfl⟩

/-- The calls of one part and then of the next. -/
theorem Follows.trans (h : w.Follows w') (h' : w'.Follows w'') : w.Follows w'' := by
  obtain ⟨cs, hcs, hseq⟩ := h.calls
  obtain ⟨cs', hcs', hseq'⟩ := h'.calls
  refine ⟨h'.stages.trans h.stages, cs ++ cs', fun c hc => ?_, ?_⟩
  · exact (List.mem_append.mp hc).elim (hcs c) (hcs' c)
  · rw [hseq', hseq, List.foldl_append]

/-- One call that takes in or gives back. -/
theorem Follows.single {q : SeqEx (Sender S) (Receiver R) CAP} {tasks : List (Task S R)}
    (c : Call (Sender S) (Receiver R))
    (hc : (∃ p, c = .receive p) ∨ c = .pump ∨ ∃ n u, c = .ack n u) :
    Follows ⟨q, tasks⟩ ⟨(q.call c).2, tasks⟩ :=
  ⟨rfl, [c], by simpa using hc, rfl⟩

/-- A value that nobody receives is acknowledged. -/
theorem hand_follows (w : Work S R CAP) (chan : ℕ) (mail : Mail R) :
    w.Follows (w.hand chan mail) := by
  unfold hand
  rcases post_cases chan (some mail) w.tasks with ⟨-, hpost⟩ | ⟨xs, stage, ys, htasks, hpost⟩
  · rw [hpost]
    exact .single (.ack mail.replyNo mail.locked) (.inr (.inr ⟨_, _, rfl⟩))
  · rw [hpost]
    exact ⟨by simp [htasks], [], nofun, rfl⟩

/-- The end of an exchange calls nothing. -/
theorem endExchange_follows (w : Work S R CAP) (chan : ℕ) : w.Follows (w.endExchange chan) := by
  refine ⟨?_, [], nofun, rfl⟩
  unfold endExchange
  rcases post_cases chan (none : Option (Mail R)) w.tasks with
    ⟨-, hpost⟩ | ⟨xs, stage, ys, htasks, hpost⟩
  · rw [hpost, Option.getD_none]
  · rw [hpost]
    simp [htasks]

/-- A pumped packet is handed to its future, or the exchange ends. -/
theorem dispatch_follows (w : Work S R CAP) (ok : RecvOkRaw (Sender S) (Receiver R)) :
    w.Follows (w.dispatch ok) := by
  cases ok with
  | payload n b d => exact w.hand_follows _ _
  | reply n b d e => exact w.hand_follows _ _
  | ack e => exact w.endExchange_follows _

/-- The loop pumps and hands over. -/
theorem pumpLoop_follows (fuel : ℕ) (w : Work S R CAP) : w.Follows (pumpLoop fuel w).2 := by
  induction fuel generalizing w with
  | zero => exact .rfl' w
  | succ fuel ih =>
    have hpump : w.Follows { w with seq := w.seq.tryPumpRaw.2 } := .single .pump (.inr (.inl rfl))
    unfold pumpLoop
    dsimp only
    split
    · rename_i data doPump _
      have hnext := hpump.trans (dispatch_follows _ data)
      split
      · exact hnext.trans (ih _)
      · exact hnext
    · exact hpump

omit [NeZero CAP] in
/-- Neither sending to a future nor acknowledging touches the windows. -/
theorem hand_windows (w : Work S R CAP) (chan : ℕ) (mail : Mail R) :
    (w.hand chan mail).seq.recvWindow = w.seq.recvWindow ∧
      (w.hand chan mail).seq.sendWindow = w.seq.sendWindow := by
  unfold hand
  split
  · exact ⟨rfl, rfl⟩
  · simp only [SeqEx.ackRawAndDirect]
    rcases w.seq.removeReservation_cases mail.replyNo with ⟨l, -, ht⟩ | ⟨-, ht⟩ <;> rw [ht] <;>
      exact ⟨rfl, rfl⟩

omit [NeZero CAP] in
/-- Handing over stores nothing. -/
theorem dispatch_recvWindow (w : Work S R CAP) (ok : RecvOkRaw (Sender S) (Receiver R)) :
    (w.dispatch ok).seq.recvWindow = w.seq.recvWindow := by
  cases ok with
  | payload n b d => exact (w.hand_windows _ _).1
  | reply n b d e => exact (w.hand_windows _ _).1
  | ack e => rfl

/-- More iterations than packets are stored make no difference. -/
theorem pumpLoop_fuel {fuel n : ℕ} {w : Work S R CAP} (h : w.seq.storedCount < fuel)
    (h' : w.seq.storedCount < n) : pumpLoop fuel w = pumpLoop n w := by
  induction fuel generalizing n w with
  | zero => omega
  | succ fuel ih =>
    obtain ⟨n, rfl⟩ : ∃ m, n = m + 1 := ⟨n - 1, by omega⟩
    unfold pumpLoop
    dsimp only
    split
    · rename_i data doPump hok
      have hless := SeqEx.storedCount_pump_lt hok
      have hsame : ({ w with seq := w.seq.tryPumpRaw.2 }.dispatch data).seq.storedCount =
          w.seq.tryPumpRaw.2.storedCount :=
        SeqEx.storedCount_congr (dispatch_recvWindow _ data)
      rw [ih (n := n) (by omega) (by omega)]
    · rfl

omit [NeZero CAP] in
/-- There are as many slots as the window has cells. -/
theorem storedCount_le (q : SeqEx (Sender S) (Receiver R) CAP) : q.storedCount ≤ CAP :=
  (Finset.card_le_univ _).trans (Fintype.card_fin CAP).le

/-- The bound of the loop is never used up. -/
theorem pumpLoop_terminates {fuel : ℕ} (w : Work S R CAP) (h : CAP < fuel) :
    pumpLoop fuel w = pumpLoop (CAP + 1) w := by
  have hle := storedCount_le w.seq
  exact pumpLoop_fuel (by omega) (by omega)

end Work

/-- What `receive_inner` does besides returning: the counter of `wait_on_recv` goes
down by the number of notifications. -/
theorem SeqExInner.receiveInner_spec (i : SeqExInner S R CAP) (tasks : List (Task S R))
    (fresh : ℕ) (packet : Packet R) :
    Work.Follows ⟨i.seq, tasks⟩
        ⟨(i.receiveInner tasks fresh packet).1.inner.seq, (i.receiveInner tasks fresh packet).2⟩ ∧
      (i.receiveInner tasks fresh packet).1.inner.recvWaiters +
        (i.receiveInner tasks fresh packet).1.recvWakes = i.recvWaiters ∧
      (i.receiveInner tasks fresh packet).1.inner.replyWaiters = i.replyWaiters ∧
      (i.receiveInner tasks fresh packet).1.replyWake = false := by
  have hreceive : Work.Follows ⟨i.seq, tasks⟩
      ⟨(i.seq.tryReceiveRawAndDirect (fun data => (fresh, data)) packet).2, tasks⟩ := by
    have hcall : Work.Follows ⟨i.seq, tasks⟩
        ⟨(i.seq.call (.receive (packet.map fun data => (fresh, data)))).2, tasks⟩ :=
      .single _ (.inl ⟨_, rfl⟩)
    rwa [SeqEx.receive_convert] at hcall
  unfold receiveInner
  dsimp only
  split
  · rename_i recvData doPump _
    have hpump : Work.Follows ⟨i.seq, tasks⟩ (if doPump then Work.pumpLoop (CAP + 1)
        ⟨(i.seq.tryReceiveRawAndDirect (fun data => (fresh, data)) packet).2, tasks⟩
        else (0, ⟨(i.seq.tryReceiveRawAndDirect (fun data => (fresh, data)) packet).2,
          tasks⟩)).2 := by
      split
      · exact hreceive.trans (Work.pumpLoop_follows _ _)
      · exact hreceive
    refine ⟨?_, Nat.sub_add_cancel (min_le_left _ _), rfl, rfl⟩
    cases recvData with
    | payload n b d => exact hpump
    | reply n b d e => exact hpump.trans (Work.hand_follows _ _ _)
    | ack e => exact hpump.trans (Work.endExchange_follows _ _)
  all_goals exact ⟨hreceive, rfl, rfl, rfl⟩

/-! ## The other sections -/

namespace SeqExInner

open Sync (ReplyGuard)

variable (i : SeqExInner S R CAP)

/-- `send_with_inner` calls `try_send` with a fresh oneshot. -/
theorem sendWithInner_seq (t : Int64) (b : Bool) (chan : ℕ) (f : SeqNo → S) :
    (i.sendWithInner t b chan f).inner.seq =
      (i.seq.call (.trySend t b fun n => (chan, f n))).2 := by
  simp only [sendWithInner, SeqEx.call]
  split <;> rfl

omit [NeZero CAP] in
/-- `unlock` releases the lock if the guard holds it. -/
theorem unlock_seq (g : ReplyGuard) :
    (i.unlock g).inner.seq = if g.isHoldingLock then i.seq.unlockRaw else i.seq := by
  unfold unlock
  split <;> rfl

/-- `ack` makes a `SeqCstGuard` of a guard that holds the lock. -/
theorem ack_spec (g : ReplyGuard) :
    (i.ack g).inner.seq = (i.seq.call (.ack g.replyNo false)).2 ∧
      (i.ack g).result = g.isHoldingLock := by
  unfold ack
  dsimp only
  cases g.isHoldingLock <;> exact ⟨rfl, rfl⟩

end SeqExInner

end Tokio

end SequentialExchange
