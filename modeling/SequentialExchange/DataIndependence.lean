import SequentialExchange.WindowInvariant

/-!
# Endpoints with other data

Applying a function to all the data that an endpoint holds and is given commutes
with every call: numbers, results, deadlines and windows stay the same. Stripping
the oneshots off the data in the windows of `tokio.rs` is such a function.
-/

namespace SequentialExchange

open WrapNumbering GuardedRuns

variable {S S' R R' : Type*} {CAP : ℕ} (f : S → S') (g : R → R')

/-! ## Mapped data -/

/-- The entry with other data. -/
def SendEntry.mapData (e : SendEntry S) : SendEntry S' :=
  ⟨e.seqNo, e.replyNo, e.seqCst, e.nextResendTime, f e.data⟩

/-- The cell content with other data. -/
def RecvEntry.mapData : RecvEntry R → RecvEntry R'
  | .occupied n r c d => .occupied n r c (g d)
  | .unlocked n => .unlocked n
  | .empty => .empty

/-- The result with other data. -/
def RecvOkRaw.mapData : RecvOkRaw S R → RecvOkRaw S' R'
  | .payload n c d => .payload n c (g d)
  | .reply n c d e => .reply n c (g d) (f e)
  | .ack e => .ack (f e)

/-- The same call with other data. -/
def Call.mapData : Call S R → Call S' R'
  | .trySend t c h => .trySend t c fun n => f (h n)
  | .receive p => .receive (p.map g)
  | .pump => .pump
  | .reply t n u c d => .reply t n u c (f d)
  | .ack n u => .ack n u
  | .unlock => .unlock
  | .serviceDirect t i => .serviceDirect t i
  | .service t => .service t

/-- The same answer with other data. -/
def Answer.mapData : Answer S R → Answer S' R'
  | .sent p => .sent (p.map f)
  | .refused e => .refused e
  | .received ok b => .received (ok.mapData f g) b
  | .dropped e => .dropped e
  | .pumped ok b => .pumped (ok.mapData f g) b
  | .notPumped e => .notPumped e
  | .replied p => .replied (p.map (Packet.map f))
  | .acked p => .acked (p.map (Packet.map f))
  | .unlocked => .unlocked
  | .serviced p i => .serviced (p.map (Packet.map f)) i
  | .servicedAll ps d => .servicedAll (ps.map (Packet.map f)) d

/-- The packet of an entry with other data. -/
theorem SendEntry.toPacket_mapData (e : SendEntry S) :
    (e.mapData f).toPacket = e.toPacket.map f := by
  rw [toPacket_eq, toPacket_eq, Packet.map_newWithData]
  rfl

/-- The packets that an answer emits, with other data. -/
theorem Answer.emitted_mapData (a : Answer S R) :
    (a.mapData f g).emitted = a.emitted.map (Packet.map f) := by
  cases a with
  | dropped e => cases e <;> rfl
  | replied p => cases p <;> rfl
  | acked p => cases p <;> rfl
  | serviced p i => cases p <;> rfl
  | _ => rfl

namespace SeqEx

/-- The endpoint with other data in both windows. -/
def mapData (s : SeqEx S R CAP) : SeqEx S' R' CAP where
  resendInterval := s.resendInterval
  nextServiceTimestamp := s.nextServiceTimestamp
  nextSendSeqNo := s.nextSendSeqNo
  nextRecvSeqNo := s.nextRecvSeqNo
  sendWindow i := (s.sendWindow i).map (SendEntry.mapData f)
  recvWindow i := (s.recvWindow i).mapData g
  concurrentReplies := s.concurrentReplies
  isLocked := s.isLocked

section Calls

variable [NeZero CAP] (s : SeqEx S R CAP)

omit [NeZero CAP] in
/-- Writing a cell and mapping a window commute. -/
theorem map_update {α β : Type*} (h : α → β) (w : Fin CAP → α) (i : Fin CAP) (v : α) :
    (fun j => h (Function.update w i v j)) = Function.update (fun j => h (w j)) i (h v) := by
  funext j
  exact Function.apply_update (fun _ => h) w i v j

/-- The window check reads no data. -/
theorem isFullInner_mapData (r : Option SeqNo) :
    (s.mapData f g).isFullInner r = s.isFullInner r := by
  have hblocked : (s.mapData f g).isBlockedAt r = s.isBlockedAt r := by
    funext i
    simp only [isBlockedAt, mapData, Option.isSome_map]
  simp only [isFullInner, hblocked]
  rfl

/-- The packet taken out of the window carries its own data. -/
theorem takeSend_mapData (r : SeqNo) :
    (s.mapData f g).takeSend r = ((s.takeSend r).1.map f, (s.takeSend r).2.mapData f g) := by
  simp only [takeSend, mapData]
  cases s.sendWindow (cell CAP r) with
  | none => rfl
  | some e =>
    simp only [Option.map_some, SendEntry.mapData]
    split
    · simp only [map_update (Option.map (SendEntry.mapData f)), Option.map_some, Option.map_none]
    · rfl

omit [NeZero CAP] in
/-- Reply numbers carry no data. -/
theorem removeReservation_mapData (r : SeqNo) :
    (s.mapData f g).removeReservation r =
      ((s.removeReservation r).1, (s.removeReservation r).2.mapData f g) := by
  simp only [removeReservation, mapData]
  cases s.concurrentReplies.idxOf? r <;> rfl

/-- The data that is stored is the data that was given. -/
theorem insertEntry_mapData (t : Int64) (r : Option SeqNo) (c : Bool) (d : S) :
    (s.mapData f g).insertEntry t r c (f d) =
      ((s.insertEntry t r c d).1.map f, (s.insertEntry t r c d).2.mapData f g) := by
  refine Prod.ext ?_ ?_
  · exact SendEntry.toPacket_mapData f ⟨s.nextSendSeqNo, r, c, t + s.resendInterval, d⟩
  · simp only [insertEntry, mapData, map_update (Option.map (SendEntry.mapData f)),
      Option.map_some]
    rfl

/-- The slots that the cursor passes are told apart by their constructors. -/
theorem fastForwardLoop_mapData (fuel : ℕ) (w : Fin CAP → RecvEntry R) (n : SeqNo) :
    fastForwardLoop fuel (fun i => (w i).mapData g) n =
      (fun i => ((fastForwardLoop fuel w n).1 i).mapData g, (fastForwardLoop fuel w n).2) := by
  induction fuel generalizing w n with
  | zero => rfl
  | succ fuel ih =>
    unfold fastForwardLoop
    dsimp only
    cases hw : w (cell CAP n) with
    | unlocked m =>
      have hupdate : (fun i => RecvEntry.mapData g (Function.update w (cell CAP n) .empty i)) =
          Function.update (fun i => (w i).mapData g) (cell CAP n) .empty := map_update _ w _ _
      have hnext := ih (Function.update w (cell CAP n) .empty) (n + 1)
      rw [hupdate] at hnext
      exact hnext
    | occupied _ _ _ _ => rfl
    | empty => rfl

/-- A slot is overwritten whatever its data. -/
theorem setRecvEntry_mapData (n : SeqNo) (e : RecvEntry R) :
    (s.mapData f g).setRecvEntry n (e.mapData g) = (s.setRecvEntry n e).mapData f g := by
  simp only [setRecvEntry, mapData, map_update (RecvEntry.mapData g)]

/-- The jump of the cursor reads no data. -/
theorem fastForward_mapData :
    (s.mapData f g).fastForward = (s.fastForward.1, s.fastForward.2.mapData f g) := by
  have h := fastForwardLoop_mapData g (CAP + 1) s.recvWindow s.nextRecvSeqNo
  simp only [fastForward, mapData, h]

/-- Nor does a single advance. -/
theorem advance_mapData (n : SeqNo) :
    (s.mapData f g).advance n = ((s.advance n).1, (s.advance n).2.mapData f g) := by
  have hset := setRecvEntry_mapData f g s n .empty
  simp only [RecvEntry.mapData] at hset
  rw [advance, advance, ← fastForward_mapData, hset]
  rfl

/-- A delivery hands over the data that came in. -/
theorem handOver_mapData {P P' : Type*} (h : P → P') (n : SeqNo) (r : Option SeqNo) (c : Bool)
    (d : P) :
    (s.mapData f g).handOver n r c (h d) =
      ((s.handOver n r c d).1.mapData f h, (s.handOver n r c d).2.mapData f g) := by
  cases r with
  | none => rfl
  | some r =>
    have htake := takeSend_mapData f g { s with
      concurrentReplies := s.concurrentReplies ++ [n], isLocked := s.isLocked || c } r
    simp only [mapData] at htake
    simp only [handOver, mapData, htake]
    cases (takeSend { s with
      concurrentReplies := s.concurrentReplies ++ [n], isLocked := s.isLocked || c } r).1 <;> rfl

omit [NeZero CAP] in
/-- Whether a reply is pending depends on numbers only. -/
theorem isReplyPending_mapData (n : SeqNo) :
    (s.mapData f g).isReplyPending n = s.isReplyPending n := by
  have hentry (i : Fin CAP) : ((s.mapData f g).sendWindow i).bind SendEntry.replyNo =
      (s.sendWindow i).bind SendEntry.replyNo := by
    simp only [mapData]
    cases s.sendWindow i <;> rfl
  simp only [isReplyPending, hentry]

/-- So does whether a packet is a duplicate. -/
theorem isDuplicate_mapData (n : SeqNo) : (s.mapData f g).isDuplicate n = s.isDuplicate n := by
  simp only [isDuplicate, mapData]
  cases s.recvWindow (cell CAP n) <;> rfl

/-- The data branch of the receipt looks at no data. -/
theorem receiveData_mapData (n : SeqNo) (r : Option SeqNo) (c : Bool) (d : R) :
    (s.mapData f g).receiveData id n r c (g d) =
      ((s.receiveData id n r c d).1.map fun o => (o.1.mapData f g, o.2),
        (s.receiveData id n r c d).2.mapData f g) := by
  have hbelow : (s.mapData f g).isBelowRange n = s.isBelowRange n := rfl
  have habove : (s.mapData f g).isAboveRange n = s.isAboveRange n := rfl
  have hwait : (s.mapData f g).mustWait n r c = s.mustWait n r c := by
    simp only [mustWait, isFullInner_mapData]
    rfl
  simp only [receiveData, hbelow, habove, hwait, isReplyPending_mapData, isDuplicate_mapData]
  split
  · have hreplies : (s.mapData f g).concurrentReplies = s.concurrentReplies := rfl
    simp only [hreplies]
    split
    · rfl
    · split <;> rfl
  · split
    · rfl
    · split
      · -- the packet has to wait
        have hset := setRecvEntry_mapData f g s n (.occupied n r c d)
        simp only [RecvEntry.mapData] at hset
        simp only [id_eq, hset]
        cases s.isDuplicate n <;> rfl
      · have hnext : (s.mapData f g).nextRecvSeqNo = s.nextRecvSeqNo := rfl
        rw [hnext]
        split
        · have hadvance := advance_mapData f g s n
          simp only [advance] at hadvance
          rw [hadvance, handOver_mapData]
          rfl
        · have hset := setRecvEntry_mapData f g s n (.unlocked n)
          simp only [RecvEntry.mapData] at hset
          rw [hset, handOver_mapData]
          rfl

/-- The receipt of a packet with other data. -/
theorem tryReceive_mapData (p : Packet R) :
    (s.mapData f g).tryReceiveRawAndDirect id (p.map g) =
      ((s.tryReceiveRawAndDirect id p).1.map fun o => (o.1.mapData f g, o.2),
        (s.tryReceiveRawAndDirect id p).2.mapData f g) := by
  rcases p.eq_ack_or_newWithData with ⟨r, rfl⟩ | ⟨n, r, c, d, rfl⟩
  · simp only [Packet.map, tryReceiveRawAndDirect, takeSend_mapData]
    cases (s.takeSend r).1 <;> rfl
  · rw [Packet.map_newWithData, tryReceive_newWithData, tryReceive_newWithData,
      receiveData_mapData]

/-- `try_pump` on a window with other data. -/
theorem tryPump_mapData :
    (s.mapData f g).tryPumpRaw =
      (s.tryPumpRaw.1.map fun o => (o.1.mapData f g, o.2), s.tryPumpRaw.2.mapData f g) := by
  have hcell : (s.mapData f g).recvWindow (cell CAP (s.mapData f g).nextRecvSeqNo) =
      (s.recvWindow (cell CAP s.nextRecvSeqNo)).mapData g := rfl
  unfold tryPumpRaw
  rw [hcell]
  cases s.recvWindow (cell CAP s.nextRecvSeqNo) with
  | occupied n r c d =>
    simp only [RecvEntry.mapData, isFullInner_mapData]
    cases s.isFullInner r with
    | error e => rfl
    | ok u =>
      have hlocked : (s.mapData f g).isLocked = s.isLocked := rfl
      have hnext : (s.mapData f g).nextRecvSeqNo = s.nextRecvSeqNo := rfl
      simp only [hlocked, hnext]
      split
      · have hadvance := advance_mapData f g s s.nextRecvSeqNo
        simp only [advance] at hadvance
        rw [hadvance, handOver_mapData]
        rfl
      · rfl
  | unlocked _ => rfl
  | empty => rfl

/-- A reply with other data. -/
theorem reply_mapData (t : Int64) (n : SeqNo) (u c : Bool) (d : S) :
    (s.mapData f g).replyRawAndDirect t n u c (f d) =
      ((s.replyRawAndDirect t n u c d).1.map (Packet.map f),
        (s.replyRawAndDirect t n u c d).2.mapData f g) := by
  simp only [replyRawAndDirect, removeReservation_mapData]
  split
  · have hinsert := insertEntry_mapData f g
      { (s.removeReservation n).2 with isLocked := (s.removeReservation n).2.isLocked && !u }
      t (some n) c d
    exact congrArg (fun x => (some x.1, x.2)) hinsert
  · rfl

omit [NeZero CAP] in
/-- An acknowledgement carries no data. -/
theorem ack_mapData (n : SeqNo) (u : Bool) :
    (s.mapData f g).ackRawAndDirect n u =
      ((s.ackRawAndDirect n u).1.map (Packet.map f), (s.ackRawAndDirect n u).2.mapData f g) := by
  simp only [ackRawAndDirect, removeReservation_mapData]
  split <;> rfl

/-- The scan compares times, not data. -/
theorem serviceScan_mapData (t : Int64) (k : ℕ) (iter : ServiceIter) :
    serviceScan t k iter (s.mapData f g) =
      ((serviceScan t k iter s).1.map (Packet.map f), (serviceScan t k iter s).2.1,
        (serviceScan t k iter s).2.2.mapData f g) := by
  induction k generalizing iter with
  | zero => rfl
  | succ k ih =>
    have hcell : (s.mapData f g).sendWindow (cell CAP iter.seqNo) =
        (s.sendWindow (cell CAP iter.seqNo)).map (SendEntry.mapData f) := rfl
    unfold serviceScan
    simp only [hcell]
    cases s.sendWindow (cell CAP iter.seqNo) with
    | none => exact ih { iter with seqNo := iter.seqNo + 1 }
    | some e =>
      have htime : (e.mapData f).nextResendTime = e.nextResendTime := rfl
      simp only [Option.map_some, htime]
      split
      · have hpacket := SendEntry.toPacket_mapData f
          { e with nextResendTime := t + s.resendInterval }
        simp only [mapData, map_update (Option.map (SendEntry.mapData f)), Option.map_some,
          ← hpacket]
        rfl
      · exact ih ⟨iter.seqNo + 1, min iter.nextTime e.nextResendTime⟩

/-- One step of `service` on a window with other data. -/
theorem serviceDirect_mapData (t : Int64) (iter : Option ServiceIter) :
    (s.mapData f g).serviceDirect t iter =
      ((s.serviceDirect t iter).1.map (Packet.map f), (s.serviceDirect t iter).2.1,
        (s.serviceDirect t iter).2.2.mapData f g) := by
  have htime : (s.mapData f g).nextServiceTimestamp = s.nextServiceTimestamp := rfl
  have hnext : (s.mapData f g).nextSendSeqNo = s.nextSendSeqNo := rfl
  simp only [serviceDirect, htime, hnext, serviceScan_mapData]
  split <;> rfl

/-- The whole pass on a window with other data. -/
theorem serviceLoop_mapData (t : Int64) (fuel : ℕ) (iter : Option ServiceIter) :
    serviceLoop t fuel iter (s.mapData f g) =
      ((serviceLoop t fuel iter s).1.map (Packet.map f),
        (serviceLoop t fuel iter s).2.mapData f g) := by
  induction fuel generalizing iter s with
  | zero => rfl
  | succ fuel ih =>
    unfold serviceLoop
    simp only [serviceDirect_mapData]
    cases (s.serviceDirect t iter).1 with
    | none => rfl
    | some p =>
      simp only [Option.map_some]
      rw [ih]
      rfl

/-- A call with other data has the answer with other data. -/
theorem call_mapData (c : Call S R) :
    (s.mapData f g).call (c.mapData f g) =
      ((s.call c).1.mapData f g, (s.call c).2.mapData f g) := by
  cases c with
  | trySend t b h =>
    simp only [Call.mapData, call, trySendDirectWith, isFullInner_mapData]
    cases s.isFullInner none with
    | error e => rfl
    | ok u =>
      have hnext : (s.mapData f g).nextSendSeqNo = s.nextSendSeqNo := rfl
      simp only [hnext, insertEntry_mapData]
      rfl
  | receive p =>
    simp only [Call.mapData, call, tryReceive_mapData]
    cases (s.tryReceiveRawAndDirect id p).1 <;> rfl
  | pump =>
    simp only [Call.mapData, call, tryPump_mapData]
    cases s.tryPumpRaw.1 <;> rfl
  | reply t n u b d =>
    simp only [Call.mapData, call, reply_mapData]
    rfl
  | ack n u =>
    simp only [Call.mapData, call, ack_mapData]
    rfl
  | unlock => rfl
  | serviceDirect t iter =>
    simp only [Call.mapData, call, serviceDirect_mapData]
    rfl
  | service t =>
    simp only [Call.mapData, call, service, serviceLoop_mapData]
    rfl

end Calls

/-! ## Histories -/

variable [NeZero CAP]

/-- The packet that a call takes in, with other data. -/
theorem input?_mapData (s : SeqEx S R CAP) (c : Call S R) :
    (s.mapData f g).input? (c.mapData f g) = (s.input? c).map (Packet.map g) := by
  cases c with
  | pump =>
    have hcell : (s.mapData f g).recvWindow (cell CAP (s.mapData f g).nextRecvSeqNo) =
        (s.recvWindow (cell CAP s.nextRecvSeqNo)).mapData g := rfl
    simp only [Call.mapData, input?, storedPacket?, hcell]
    cases s.recvWindow (cell CAP s.nextRecvSeqNo) with
    | occupied n r c d => exact congrArg some (Packet.map_newWithData n r c d g).symm
    | _ => rfl
  | _ => rfl

end SeqEx

/-- The history with other data. -/
def History.mapData (h : History S R) : History S' R' where
  sent := h.sent.map (Packet.map f)
  deliveries := h.deliveries.map fun d => (d.1.map g, d.2.mapData f g)
  acks := h.acks.map fun a => (a.1, f a.2)

/-- Taking in a packet with other data. -/
theorem History.take_mapData (h : History S R) (p : Packet R) (ok : RecvOkRaw S R) :
    (h.mapData f g).take (p.map g) (ok.mapData f g) = (h.take p ok).mapData f g := by
  cases ok with
  | ack e => cases p <;> simp [take, mapData, RecvOkRaw.mapData, Packet.map, Packet.replyNo?]
  | payload n c d | reply n c d e => simp [take, mapData, RecvOkRaw.mapData]

/-- Recording an answer with other data. -/
theorem History.record_mapData (h : History S R) (p : Option (Packet R)) (a : Answer S R) :
    (h.mapData f g).record (p.map (Packet.map g)) (a.mapData f g) =
      (h.record p a).mapData f g := by
  cases a with
  | sent q => simp [record, mapData, Answer.mapData]
  | replied q => cases q <;> simp [record, mapData, Answer.mapData]
  | received ok b | pumped ok b =>
    cases p with
    | none => rfl
    | some p => exact take_mapData f g h p ok
  | _ => rfl

end SequentialExchange
