import SequentialExchange.Endpoint

/-!
# Calls on one endpoint and the history they leave

Every public operation of `no_std.rs` is one `Call`, with the value it returns
as its `Answer`. The history collects what the application sees of a run: the
packets accepted from it, the packets handed to it and the data handed back by
acknowledgements. `Answer.emitted` is what a call puts on the wire, as the
wrappers of `single_thread.rs` do.
-/

namespace SequentialExchange

open WrapNumbering

/-- A call on an endpoint. -/
inductive Call (S R : Type*) where
  /-- `try_send_direct_with`. -/
  | trySend (currentTime : Int64) (seqCst : Bool) (f : SeqNo → S)
  /-- `try_receive_raw_and_direct`. -/
  | receive (packet : Packet R)
  /-- `try_pump_raw`. -/
  | pump
  /-- `reply_raw_and_direct`. -/
  | reply (currentTime : Int64) (replyNo : SeqNo) (unlock seqCst : Bool) (packetData : S)
  /-- `ack_raw_and_direct`. -/
  | ack (replyNo : SeqNo) (unlock : Bool)
  /-- `unlock_raw`. -/
  | unlock
  /-- One step of `service_direct` with any iterator. -/
  | serviceDirect (currentTime : Int64) (iter : Option ServiceIter)
  /-- A full `service` pass. -/
  | service (currentTime : Int64)

/-- What a call returns. -/
inductive Answer (S R : Type*) where
  /-- An accepted `try_send`, with its first transmission. -/
  | sent (packet : Packet S)
  /-- A refused `try_send`. -/
  | refused (e : TryError)
  /-- `Ok` of `try_receive`. -/
  | received (ok : RecvOkRaw S R) (doPump : Bool)
  /-- `Err` of `try_receive`. -/
  | dropped (e : TryRawRecvError)
  /-- `Ok` of `try_pump`. -/
  | pumped (ok : RecvOkRaw S R) (doPump : Bool)
  /-- `Err` of `try_pump`. -/
  | notPumped (e : TryError)
  /-- `reply_raw`, with the first transmission when the number was outstanding. -/
  | replied (packet : Option (Packet S))
  /-- `ack_raw`, with the acknowledgement when the number was outstanding. -/
  | acked (packet : Option (Packet S))
  /-- `unlock_raw`. -/
  | unlocked
  /-- One step of `service_direct`. -/
  | serviced (packet : Option (Packet S)) (iter : Option ServiceIter)
  /-- A full `service` pass with the returned delay. -/
  | servicedAll (packets : List (Packet S)) (delay : Int64)

variable {S R : Type*} {CAP : ℕ} [NeZero CAP]

/-- Perform one call. -/
def SeqEx.call (s : SeqEx S R CAP) : Call S R → Answer S R × SeqEx S R CAP
  | .trySend t c f =>
    let r := s.trySendDirectWith t c f
    (match r.1 with
      | .ok p => .sent p
      | .error e => .refused e.1, r.2)
  | .receive p =>
    let r := s.tryReceiveRawAndDirect id p
    (match r.1 with
      | .ok o => .received o.1 o.2
      | .error e => .dropped e, r.2)
  | .pump =>
    let r := s.tryPumpRaw
    (match r.1 with
      | .ok o => .pumped o.1 o.2
      | .error e => .notPumped e, r.2)
  | .reply t n u c d =>
    let r := s.replyRawAndDirect t n u c d
    (.replied r.1, r.2)
  | .ack n u =>
    let r := s.ackRawAndDirect n u
    (.acked r.1, r.2)
  | .unlock => (.unlocked, s.unlockRaw)
  | .serviceDirect t i =>
    let r := s.serviceDirect t i
    (.serviced r.1 r.2.1, r.2.2)
  | .service t =>
    let r := s.service t
    (.servicedAll r.1 r.2.1, r.2.2)

/-- The packets a call puts on the wire. -/
def Answer.emitted : Answer S R → List (Packet S)
  | .sent p => [p]
  | .dropped (.droppedDuplicateResendAck r) => [.ack r]
  | .replied p | .acked p | .serviced p _ => p.toList
  | .servicedAll ps _ => ps
  | _ => []

/-- The stored packet at the cursor, which `try_pump_raw` looks at. -/
def SeqEx.storedPacket? (s : SeqEx S R CAP) : Option (Packet R) :=
  match s.recvWindow (cell CAP s.nextRecvSeqNo) with
  | .occupied seqNo replyNo seqCst data => some (.newWithData seqNo replyNo seqCst data)
  | .unlocked _ | .empty => none

/-- The packet a receive or pump call works on. -/
def SeqEx.input? (s : SeqEx S R CAP) : Call S R → Option (Packet R)
  | .receive p => some p
  | .pump => s.storedPacket?
  | _ => none

/-- What the application has seen of a run. -/
structure History (S R : Type*) where
  /-- First transmissions, in the order of acceptance. -/
  sent : List (Packet S)
  /-- Packets handed over by receive or pump, each with the result, in order. -/
  deliveries : List (Packet R × RecvOkRaw S R)
  /-- The numbers of packets whose data an acknowledgement handed back. -/
  acks : List (SeqNo × S)

/-- No call was made. -/
def History.empty : History S R := ⟨[], [], []⟩

/-- Note what the application learns from a result on an input packet. -/
def History.take (h : History S R) (input : Packet R) : RecvOkRaw S R → History S R
  | .ack d => { h with acks := h.acks ++ input.replyNo?.toList.map (·, d) }
  | ok => { h with deliveries := h.deliveries ++ [(input, ok)] }

/-- Extend the history by one call. -/
def History.record (h : History S R) (input : Option (Packet R)) : Answer S R → History S R
  | .sent p | .replied (some p) => { h with sent := h.sent ++ [p] }
  | .received ok _ | .pumped ok _ =>
    match input with
    | some p => h.take p ok
    | none => h
  | _ => h

/-- The numbers of the packets handed to the application, in order. -/
def History.deliveredNumbers (h : History S R) : List SeqNo :=
  h.deliveries.filterMap fun d => d.1.seqNo?

end SequentialExchange
