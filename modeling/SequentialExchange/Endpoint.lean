import SequentialExchange.Packet

/-!
# The protocol state machine of one peer

`SeqEx` of `no_std.rs` with every operation on it. Sequence numbers are
wrapping 32-bit words and times wrapping 64-bit words, as in a release build.
Debug assertions are not part of a step; the theorems that concern one state
it as a property of the states in which it is evaluated. The two windows are
functions on the `CAP` cells of the arrays, and `concurrentReplies` is the used
prefix of the array of that name, so its length is `concurrent_replies_total`.
-/

namespace SequentialExchange

open WrapNumbering

/-- `SendEntry<SendData>`: a packet awaiting acknowledgement. -/
structure SendEntry (SendData : Type*) where
  /-- The number of the packet. -/
  seqNo : SeqNo
  /-- The number it replies to, if it is a reply. -/
  replyNo : Option SeqNo
  /-- Whether the packet is SeqCst. -/
  seqCst : Bool
  /-- When it is due to be sent again. -/
  nextResendTime : Int64
  /-- The data of the application. -/
  data : SendData
  deriving DecidableEq, Repr

/-- `SendEntry::to_packet`. -/
def SendEntry.toPacket {S : Type*} (e : SendEntry S) : Packet S :=
  let p := match e.replyNo with
    | some replyNo => Packet.reply e.seqNo replyNo e.data
    | none => Packet.payload e.seqNo e.data
  p.setSeqCst e.seqCst

/-- `RecvEntry<RecvData>`: a cell of the receive window. -/
inductive RecvEntry (RecvData : Type*) where
  /-- A stored packet that could not be processed yet. -/
  | occupied (seqNo : SeqNo) (replyNo : Option SeqNo) (seqCst : Bool) (data : RecvData)
  /-- The marker of a packet processed ahead of a gap. -/
  | unlocked (seqNo : SeqNo)
  /-- Nothing received. -/
  | empty
  deriving DecidableEq, Repr

/-- `TryError`. -/
inductive TryError where
  /-- A packet of the remote peer has to be received first. -/
  | waitingForRecv
  /-- An issued reply number has to be returned first. -/
  | waitingForReply
  deriving DecidableEq, Repr

/-- `TryRawRecvError`. -/
inductive TryRawRecvError where
  /-- The number lies beyond the receive window. -/
  | droppedTooEarly
  /-- The packet was received before and needs no answer now. -/
  | droppedDuplicate
  /-- The packet was received before and its acknowledgement has to be resent. -/
  | droppedDuplicateResendAck (seqNo : SeqNo)
  /-- Some other packet has to be received first. -/
  | waitingForRecv
  /-- Some issued reply number has to be returned first. -/
  | waitingForReply
  deriving DecidableEq, Repr

/-- `RecvOkRaw<SendData, RecvData>`. -/
inductive RecvOkRaw (SendData RecvData : Type*) where
  /-- A packet that is paired with nothing this peer sent. -/
  | payload (replyNo : SeqNo) (seqCst : Bool) (recvData : RecvData)
  /-- A reply, with the data of the packet it replies to. -/
  | reply (replyNo : SeqNo) (seqCst : Bool) (recvData : RecvData) (sendData : SendData)
  /-- The data of an acknowledged packet. -/
  | ack (sendData : SendData)
  deriving DecidableEq, Repr

/-- `ServiceIter`: the position of an unfinished service pass. -/
structure ServiceIter where
  /-- The next number to visit. -/
  seqNo : SeqNo
  /-- The least resend time met so far. -/
  nextTime : Int64
  deriving DecidableEq, Repr

/-- `SeqEx<SendData, RecvData, CAP>` of `no_std.rs`. -/
structure SeqEx (SendData RecvData : Type*) (CAP : ℕ) where
  /-- How long to wait before a packet is resent. -/
  resendInterval : Int64
  /-- When `serviceDirect` has work to do. -/
  nextServiceTimestamp : Int64
  /-- The number of the next packet to send. -/
  nextSendSeqNo : SeqNo
  /-- The lowest number not yet processed. -/
  nextRecvSeqNo : SeqNo
  /-- The packets awaiting acknowledgement. -/
  sendWindow : Fin CAP → Option (SendEntry SendData)
  /-- Stored packets and markers at and above `nextRecvSeqNo`. -/
  recvWindow : Fin CAP → RecvEntry RecvData
  /-- The issued reply numbers that were not returned yet. -/
  concurrentReplies : List SeqNo
  /-- Whether a SeqCst packet is being processed. -/
  isLocked : Bool

/-- Swap-remove: cell `i` takes the last value and the list loses its end. -/
def swapRemove {α : Type*} (l : List α) (i : ℕ) : List α :=
  match l.getLast? with
  | some last => (l.set i last).dropLast
  | none => l

namespace SeqEx

variable {S R P : Type*} {CAP : ℕ} [NeZero CAP]

/-- `SeqEx::new`, whose debug assertion asks for `CAP > 1`. -/
def new (retryInterval : Int64) (initialSeqNo : SeqNo) : SeqEx S R CAP where
  resendInterval := retryInterval
  nextServiceTimestamp := Int64.maxValue
  nextSendSeqNo := initialSeqNo
  nextRecvSeqNo := initialSeqNo
  sendWindow := fun _ => none
  recvWindow := fun _ => .empty
  concurrentReplies := []
  isLocked := false

/-- `self.send_window.len() as u32`, which drops the high bits. -/
def lenU32 (CAP : ℕ) : SeqNo := UInt32.ofNat CAP

/-- The cells `is_full_inner` looks at, in the order of its loop. -/
def isBlockedAt (s : SeqEx S R CAP) (replyNo : Option SeqNo) (i : ℕ) : Bool :=
  let idx := cell CAP (s.nextSendSeqNo + UInt32.ofNat i)
  (s.sendWindow idx).isSome && replyNo.map (cell CAP) != some idx

/-- `is_full_inner`: whether one more reply number can be reserved, counting
the cell of the replied-to packet as free. -/
def isFullInner (s : SeqEx S R CAP) (replyNo : Option SeqNo) : Except TryError Unit :=
  if CAP - 2 ≤ s.concurrentReplies.length then .error .waitingForReply
  else
    match (List.range (1 + UInt32.ofNat s.concurrentReplies.length).toNat).find?
        (s.isBlockedAt replyNo) with
    | none => .ok ()
    | some 0 => .error .waitingForRecv
    | some (_ + 1) => .error .waitingForReply

/-- `take_send`: empties the cell of `replyNo` when it holds that packet. -/
def takeSend (s : SeqEx S R CAP) (replyNo : SeqNo) : Option S × SeqEx S R CAP :=
  match s.sendWindow (cell CAP replyNo) with
  | some e =>
    if e.seqNo = replyNo then
      (some e.data, { s with sendWindow := Function.update s.sendWindow (cell CAP replyNo) none })
    else (none, s)
  | none => (none, s)

/-- `remove_reservation`: swap-removes the first occurrence. -/
def removeReservation (s : SeqEx S R CAP) (replyNo : SeqNo) : Bool × SeqEx S R CAP :=
  match s.concurrentReplies.idxOf? replyNo with
  | some i => (true, { s with concurrentReplies := swapRemove s.concurrentReplies i })
  | none => (false, s)

/-- The common tail of `try_send_direct_with` and `reply_raw_and_direct`: draw
the next number, lower the deadline and insert the entry at its cell. -/
def insertEntry (s : SeqEx S R CAP) (currentTime : Int64) (replyNo : Option SeqNo)
    (seqCst : Bool) (data : S) : Packet S × SeqEx S R CAP :=
  let seqNo := s.nextSendSeqNo
  let nextResendTime := currentTime + s.resendInterval
  let entry : SendEntry S := ⟨seqNo, replyNo, seqCst, nextResendTime, data⟩
  (entry.toPacket,
    { s with
      nextSendSeqNo := seqNo + 1
      nextServiceTimestamp :=
        if s.nextServiceTimestamp > nextResendTime then nextResendTime else s.nextServiceTimestamp
      sendWindow := Function.update s.sendWindow (cell CAP seqNo) (some entry) })

/-- `try_send_direct_with`; a refusal hands the closure back. -/
def trySendDirectWith (s : SeqEx S R CAP) (currentTime : Int64) (seqCst : Bool) (f : SeqNo → S) :
    Except (TryError × (SeqNo → S)) (Packet S) × SeqEx S R CAP :=
  match s.isFullInner none with
  | .error e => (.error (e, f), s)
  | .ok () =>
    let r := s.insertEntry currentTime none seqCst (f s.nextSendSeqNo)
    (.ok r.1, r.2)

/-- `try_send_direct`; a refusal hands the data back. -/
def trySendDirect (s : SeqEx S R CAP) (currentTime : Int64) (seqCst : Bool) (packetData : S) :
    Except (TryError × S) (Packet S) × SeqEx S R CAP :=
  match s.trySendDirectWith currentTime seqCst (fun _ => packetData) with
  | (.ok packet, s') => (.ok packet, s')
  | (.error (e, _), s') => (.error (e, packetData), s')

/-- The loop of `fast_forward` on the receive window and its cursor. The first
argument bounds the iterations; `CAP + 1` is never used up. -/
def fastForwardLoop : ℕ → (Fin CAP → RecvEntry R) → SeqNo → (Fin CAP → RecvEntry R) × SeqNo × Bool
  | 0, window, next => (window, next, false)
  | fuel + 1, window, next =>
    match window (cell CAP next) with
    | .unlocked _ => fastForwardLoop fuel (Function.update window (cell CAP next) .empty) (next + 1)
    | .occupied _ _ _ _ => (window, next, true)
    | .empty => (window, next, false)

/-- `fast_forward`: moves the cursor past markers and tells whether a stored
packet stopped it. -/
def fastForward (s : SeqEx S R CAP) : Bool × SeqEx S R CAP :=
  let r := fastForwardLoop (CAP + 1) s.recvWindow s.nextRecvSeqNo
  (r.2.2, { s with recvWindow := r.1, nextRecvSeqNo := r.2.1 })

/-- The common tail of the two delivery paths: reserve the reply number, take
the lock for a SeqCst packet and pair a reply with what it replies to. -/
def handOver (s : SeqEx S R CAP) (seqNo : SeqNo) (replyNo : Option SeqNo) (seqCst : Bool)
    (data : P) : RecvOkRaw S P × SeqEx S R CAP :=
  let s1 : SeqEx S R CAP :=
    { s with
      concurrentReplies := s.concurrentReplies ++ [seqNo]
      isLocked := s.isLocked || seqCst }
  match replyNo with
  | none => (.payload seqNo seqCst data, s1)
  | some r =>
    let t := s1.takeSend r
    match t.1 with
    | some sendData => (.reply seqNo seqCst data sendData, t.2)
    | none => (.payload seqNo seqCst data, t.2)

/-- `normalized_seq_no > SeqNo::MAX / 2`: the number was passed by the cursor. -/
def isBelowRange (s : SeqEx S R CAP) (seqNo : SeqNo) : Bool :=
  seqNo - s.nextRecvSeqNo > UInt32.ofNat (2 ^ 32 - 1) / 2

/-- `normalized_seq_no >= self.recv_window.len() as u32`. -/
def isAboveRange (s : SeqEx S R CAP) (seqNo : SeqNo) : Bool :=
  !s.isBelowRange seqNo && seqNo - s.nextRecvSeqNo ≥ lenU32 CAP

/-- Whether some reply to `seqNo` is still in the send window. -/
def isReplyPending (s : SeqEx S R CAP) (seqNo : SeqNo) : Bool :=
  decide (∃ i, (s.sendWindow i).bind SendEntry.replyNo = some seqNo)

/-- Whether the cell of `seqNo` is not `Empty`. -/
def isDuplicate (s : SeqEx S R CAP) (seqNo : SeqNo) : Bool :=
  match s.recvWindow (cell CAP seqNo) with
  | .occupied _ _ _ _ | .unlocked _ => true
  | .empty => false

/-- `self.recv_window[seq_no % len] = entry`. -/
def setRecvEntry (s : SeqEx S R CAP) (seqNo : SeqNo) (entry : RecvEntry R) : SeqEx S R CAP :=
  { s with recvWindow := Function.update s.recvWindow (cell CAP seqNo) entry }

/-- The pair `(wait_recv, wait_reply)` of `try_receive_raw_and_direct`. -/
def mustWait (s : SeqEx S R CAP) (seqNo : SeqNo) (replyNo : Option SeqNo) (seqCst : Bool) :
    Bool × Bool :=
  match s.isFullInner replyNo with
  | .ok () => (seqCst && seqNo - s.nextRecvSeqNo != 0, seqCst && s.isLocked)
  | .error .waitingForRecv => (true, false)
  | .error .waitingForReply => (false, true)

/-- `try_receive_raw_and_direct` on a packet with data, after the variants have
been taken apart. -/
def receiveData (into : P → R) (s : SeqEx S R CAP) (seqNo : SeqNo) (replyNo : Option SeqNo)
    (seqCst : Bool) (recvData : P) :
    Except TryRawRecvError (RecvOkRaw S P × Bool) × SeqEx S R CAP :=
  if s.isBelowRange seqNo then
    if s.isReplyPending seqNo then (.error .droppedDuplicate, s)
    else if seqNo ∈ s.concurrentReplies then (.error .droppedDuplicate, s)
    else (.error (.droppedDuplicateResendAck seqNo), s)
  else if s.isAboveRange seqNo then (.error .droppedTooEarly, s)
  else
    let wait := s.mustWait seqNo replyNo seqCst
    if wait.1 || wait.2 then
      (.error (if wait.1 then .waitingForRecv else .waitingForReply),
        if s.isDuplicate seqNo then s
        else s.setRecvEntry seqNo (.occupied seqNo replyNo seqCst (into recvData)))
    else if seqNo - s.nextRecvSeqNo = 0 then
      let s1 := { s.setRecvEntry seqNo .empty with nextRecvSeqNo := seqNo + 1 }
      let f := s1.fastForward
      let h := f.2.handOver seqNo replyNo seqCst recvData
      (.ok (h.1, f.1), h.2)
    else
      let h := (s.setRecvEntry seqNo (.unlocked seqNo)).handOver seqNo replyNo seqCst recvData
      (.ok (h.1, false), h.2)

/-- `try_receive_raw_and_direct`; `into` is the conversion into the stored type. -/
def tryReceiveRawAndDirect (into : P → R) (s : SeqEx S R CAP) (packet : Packet P) :
    Except TryRawRecvError (RecvOkRaw S P × Bool) × SeqEx S R CAP :=
  match packet with
  | .payload seqNo recvData => s.receiveData into seqNo none false recvData
  | .seqCstPayload seqNo recvData => s.receiveData into seqNo none true recvData
  | .reply seqNo replyNo recvData => s.receiveData into seqNo (some replyNo) false recvData
  | .seqCstReply seqNo replyNo recvData => s.receiveData into seqNo (some replyNo) true recvData
  | .ack replyNo =>
    let t := s.takeSend replyNo
    match t.1 with
    | some sendData => (.ok (.ack sendData, false), t.2)
    | none => (.error .droppedDuplicate, t.2)

/-- `try_pump_raw`: processes the stored packet at the cursor. -/
def tryPumpRaw (s : SeqEx S R CAP) :
    Except TryError (RecvOkRaw S R × Bool) × SeqEx S R CAP :=
  match s.recvWindow (cell CAP s.nextRecvSeqNo) with
  | .occupied seqNo replyNo seqCst data =>
    match s.isFullInner replyNo with
    | .error e => (.error e, s)
    | .ok () =>
      if !seqCst || !s.isLocked then
        let s1 := { s.setRecvEntry s.nextRecvSeqNo .empty with
          nextRecvSeqNo := s.nextRecvSeqNo + 1 }
        let f := s1.fastForward
        let h := f.2.handOver seqNo replyNo seqCst data
        (.ok (h.1, f.1), h.2)
      else (.error .waitingForReply, s)
  | .unlocked _ | .empty => (.error .waitingForRecv, s)

/-- `reply_raw_and_direct`. -/
def replyRawAndDirect (s : SeqEx S R CAP) (currentTime : Int64) (replyNo : SeqNo)
    (unlock seqCst : Bool) (packetData : S) : Option (Packet S) × SeqEx S R CAP :=
  let t := s.removeReservation replyNo
  if t.1 then
    let s1 := { t.2 with isLocked := t.2.isLocked && !unlock }
    let r := s1.insertEntry currentTime (some replyNo) seqCst packetData
    (some r.1, r.2)
  else (none, t.2)

/-- `ack_raw_and_direct`. -/
def ackRawAndDirect (s : SeqEx S R CAP) (replyNo : SeqNo) (unlock : Bool) :
    Option (Packet S) × SeqEx S R CAP :=
  let t := s.removeReservation replyNo
  if t.1 then (some (.ack replyNo), { t.2 with isLocked := t.2.isLocked && !unlock })
  else (none, t.2)

/-- `unlock_raw`. -/
def unlockRaw (s : SeqEx S R CAP) : SeqEx S R CAP := { s with isLocked := false }

/-- The scan of `service_direct`; the first argument is the distance of the
iterator from `nextSendSeqNo`, so zero is where its loop ends. -/
def serviceScan (currentTime : Int64) :
    ℕ → ServiceIter → SeqEx S R CAP → Option (Packet S) × ServiceIter × SeqEx S R CAP
  | 0, iter, s => (none, iter, { s with nextServiceTimestamp := iter.nextTime })
  | n + 1, iter, s =>
    let idx := cell CAP iter.seqNo
    match s.sendWindow idx with
    | none => serviceScan currentTime n { iter with seqNo := iter.seqNo + 1 } s
    | some entry =>
      if entry.nextResendTime ≤ currentTime then
        let entry' := { entry with nextResendTime := currentTime + s.resendInterval }
        (some entry'.toPacket,
          ⟨iter.seqNo + 1, min iter.nextTime entry'.nextResendTime⟩,
          { s with sendWindow := Function.update s.sendWindow idx (some entry') })
      else
        serviceScan currentTime n ⟨iter.seqNo + 1, min iter.nextTime entry.nextResendTime⟩ s

/-- `service_direct`: resends at most one due packet and advances `iter`. -/
def serviceDirect (s : SeqEx S R CAP) (currentTime : Int64) (iter : Option ServiceIter) :
    Option (Packet S) × Option ServiceIter × SeqEx S R CAP :=
  if s.nextServiceTimestamp ≤ currentTime then
    let it := iter.getD ⟨s.nextSendSeqNo - lenU32 CAP, Int64.maxValue⟩
    let r := serviceScan currentTime (s.nextSendSeqNo - it.seqNo).toNat it s
    (r.1, some r.2.1, r.2.2)
  else (none, iter, s)

/-- Calls `service_direct` with one iterator until it returns `None`. -/
def serviceLoop (currentTime : Int64) :
    ℕ → Option ServiceIter → SeqEx S R CAP → List (Packet S) × SeqEx S R CAP
  | 0, _, s => ([], s)
  | fuel + 1, iter, s =>
    let r := s.serviceDirect currentTime iter
    match r.1 with
    | some packet =>
      let rest := serviceLoop currentTime fuel r.2.1 r.2.2
      (packet :: rest.1, rest.2)
    | none => ([], r.2.2)

/-- `service` of `single_thread.rs`: one full pass. It returns the resent
packets and how long to wait before the next call. -/
def service (s : SeqEx S R CAP) (currentTime : Int64) :
    List (Packet S) × Int64 × SeqEx S R CAP :=
  let r := serviceLoop currentTime ((lenU32 CAP).toNat + 1) none s
  (r.1, min r.2.resendInterval (r.2.nextServiceTimestamp - currentTime), r.2)

end SeqEx

end SequentialExchange
