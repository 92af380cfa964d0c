import SequentialExchange.Accounting
import SequentialExchange.TokioLedger
import SequentialExchange.TokioReceive

/-!
# The calls of each section

What a section of `tokio.rs` does to the state machine is written down as a list of
calls: those of `receive_inner` with the pumps and acknowledgements it goes on to,
and those of every other step. Performing them leaves the state that the section
leaves.
-/

namespace SequentialExchange.Tokio

open WrapNumbering GuardedRuns
open Sync (ReplyGuard)

deriving instance DecidableEq for Outcome

variable {S R : Type*} {CAP : ℕ}

/-! ## The calls of a section -/

namespace Work

/-- The packet is acknowledged when nobody is receiving it. -/
def handCalls (w : Work S R CAP) (chan : ℕ) (mail : Mail R) : List (Call (Sender S) (Receiver R)) :=
  match post chan (some mail) w.tasks with
  | some _ => []
  | none => [.ack mail.replyNo mail.locked]

/-- The calls of `dispatch`. -/
def dispatchCalls (w : Work S R CAP) :
    RecvOkRaw (Sender S) (Receiver R) → List (Call (Sender S) (Receiver R))
  | .payload replyNo seqCst (chan, data) => w.handCalls chan ⟨replyNo, seqCst, data⟩
  | .reply replyNo seqCst (_, data) (chan, _) => w.handCalls chan ⟨replyNo, seqCst, data⟩
  | .ack _ => []

/-- The calls of `settle`. -/
def settleCalls (w : Work S R CAP) : RecvOkRaw (Sender S) R → List (Call (Sender S) (Receiver R))
  | .payload _ _ _ => []
  | .reply replyNo seqCst data (chan, _) => w.handCalls chan ⟨replyNo, seqCst, data⟩
  | .ack _ => []

variable [NeZero CAP]

/-- The calls of `pumpLoop`. -/
def pumpCalls : ℕ → Work S R CAP → List (Call (Sender S) (Receiver R))
  | 0, _ => []
  | fuel + 1, w =>
    let r := w.seq.tryPumpRaw
    .pump :: match r.1 with
      | .ok (data, doPump) =>
        let w' := { w with seq := r.2 }
        w'.dispatchCalls data ++ if doPump then pumpCalls fuel (w'.dispatch data) else []
      | .error _ => []

end Work

section Calls

variable [NeZero CAP]

/-- The calls of `receive_inner`, in their order. -/
def SeqExInner.receiveCalls (i : SeqExInner S R CAP) (tasks : List (Task S R)) (fresh : ℕ)
    (packet : Packet R) : List (Call (Sender S) (Receiver R)) :=
  let r := i.seq.tryReceiveRawAndDirect (fun data => (fresh, data)) packet
  .receive (packet.map fun data => (fresh, data)) :: match r.1 with
    | .ok (recvData, doPump) =>
      (if doPump then Work.pumpCalls (CAP + 1) ⟨r.2, tasks⟩ else []) ++
        (if doPump then Work.pumpLoop (CAP + 1) ⟨r.2, tasks⟩
          else (0, ⟨r.2, tasks⟩)).2.settleCalls recvData
    | .error _ => []

namespace Shared

omit [NeZero CAP] in
/-- The call of a section of `send_with`. -/
def sendCall (t : Int64) (b : Bool) (chan : ℕ) (f : SeqNo → S) : Call (Sender S) (Receiver R) :=
  .trySend t b fun n => (chan, f n)

/-- The calls on the state machine in a step. -/
def innerCalls (s : Shared S R CAP) : Op S R → List (Call (Sender S) (Receiver R))
  | .receive packet => s.inner.receiveCalls s.tasks s.nextChan packet
  | .send t b f => [sendCall t b s.nextChan f]
  | .resume k t =>
    match s.tasks[k]? with
    | some ⟨chan, .sending b f _ _, _⟩ => [sendCall t b chan f]
    | _ => []
  | .replyWith g t b f =>
    [.reply t g.replyNo g.isHoldingLock b (s.nextChan, f s.inner.seq.nextSendSeqNo g.replyNo)]
  | .ack g => [.ack g.replyNo false]
  | .unlock g => if g.isHoldingLock then [.unlock] else []
  | .dropReplyGuard g => [.ack g.replyNo g.isHoldingLock]
  | .dropSeqCstGuard => [.unlock]
  | .service t => [.service t]
  | .listen _ | .enqueue _ | .resolve _ | .closed _ | .drop .. | .notifyOne _ | .notifyWaiters
  | .toComponents _ | .fromComponents _ | .takeUpdate _ => []

end Shared

/-- Calls one after the other on a state machine. -/
def run (q : SeqEx (Sender S) (Receiver R) CAP) (cs : List (Call (Sender S) (Receiver R))) :
    SeqEx (Sender S) (Receiver R) CAP := cs.foldl (fun q c => (q.call c).2) q

/-- Calls are run one list after the other. -/
theorem run_append (q : SeqEx (Sender S) (Receiver R) CAP)
    (cs cs' : List (Call (Sender S) (Receiver R))) : run q (cs ++ cs') = run (run q cs) cs' :=
  List.foldl_append

namespace Work

/-- The calls of handing over a value. -/
theorem hand_run (w : Work S R CAP) (chan : ℕ) (mail : Mail R) :
    (w.hand chan mail).seq = run w.seq (w.handCalls chan mail) := by
  unfold hand handCalls
  cases post chan (some mail) w.tasks <;> rfl

/-- The calls of a dispatch. -/
theorem dispatch_run (w : Work S R CAP) (ok : RecvOkRaw (Sender S) (Receiver R)) :
    (w.dispatch ok).seq = run w.seq (w.dispatchCalls ok) := by
  cases ok with
  | payload n b d => exact w.hand_run _ _
  | reply n b d e => exact w.hand_run _ _
  | ack e => rfl

/-- The calls after a received packet. -/
theorem settle_run (w : Work S R CAP) (ok : RecvOkRaw (Sender S) R) :
    (w.settle ok).seq = run w.seq (w.settleCalls ok) := by
  cases ok with
  | payload n b d => rfl
  | reply n b d e => exact w.hand_run _ _
  | ack e => rfl

/-- The calls of the pump loop. -/
theorem pumpLoop_run (fuel : ℕ) (w : Work S R CAP) :
    (pumpLoop fuel w).2.seq = run w.seq (pumpCalls fuel w) := by
  induction fuel generalizing w with
  | zero => rfl
  | succ fuel ih =>
    have hpump (cs : List (Call (Sender S) (Receiver R))) :
        run w.seq (.pump :: cs) = run w.seq.tryPumpRaw.2 cs := rfl
    unfold pumpLoop pumpCalls
    dsimp only
    rw [hpump]
    cases hok : w.seq.tryPumpRaw.1 with
    | error e => rfl
    | ok res =>
      obtain ⟨data, doPump⟩ := res
      have hdispatch := dispatch_run { w with seq := w.seq.tryPumpRaw.2 } data
      cases doPump with
      | false =>
        dsimp only
        rw [if_neg Bool.false_ne_true, if_neg Bool.false_ne_true, List.append_nil]
        exact hdispatch
      | true =>
        dsimp only
        rw [if_pos rfl, if_pos rfl, run_append, ← hdispatch]
        exact ih _

end Work

/-- The calls of a `receive` lead to the state it leaves. -/
theorem SeqExInner.receiveInner_run (i : SeqExInner S R CAP) (tasks : List (Task S R))
    (fresh : ℕ) (packet : Packet R) :
    (i.receiveInner tasks fresh packet).1.inner.seq =
      run i.seq (i.receiveCalls tasks fresh packet) := by
  have hreceive (cs : List (Call (Sender S) (Receiver R))) :
      run i.seq (.receive (packet.map fun data => (fresh, data)) :: cs) =
        run (i.seq.tryReceiveRawAndDirect (fun data => (fresh, data)) packet).2 cs := by
    have hcall := SeqEx.receive_convert (fun data => (fresh, data)) i.seq packet
    rw [run, List.foldl_cons, hcall]
    rfl
  unfold receiveCalls
  dsimp only
  rw [hreceive]
  cases hok : (i.seq.tryReceiveRawAndDirect (fun data => (fresh, data)) packet).1 with
  | error e =>
    unfold receiveInner
    dsimp only
    rw [hok]
    cases e <;> rfl
  | ok res =>
    obtain ⟨recvData, doPump⟩ := res
    obtain ⟨u, hu, hsettle, -⟩ := receiveInner_of_ok tasks hok
    have hseq := congrArg Work.seq hsettle
    dsimp only at hseq ⊢
    rw [hseq, Work.settle_run, hu, run_append]
    cases doPump with
    | false => rfl
    | true =>
      simp only [if_true]
      rw [Work.pumpLoop_run]

namespace Shared

/-- The calls of a step lead to the state it leaves. -/
theorem next_run (s : Shared S R CAP) (op : Op S R) :
    (s.next op).inner.seq = run s.inner.seq (s.innerCalls op) := by
  cases op with
  | receive packet =>
    have hrun := s.inner.receiveInner_run s.tasks s.nextChan packet
    have hseq : (s.next (.receive packet)).inner.seq =
        (s.inner.receiveInner s.tasks s.nextChan packet).1.inner.seq := by
      simp only [next, perform, receive]
      split
      · rfl
      · rfl
      · split <;> rfl
    rw [hseq, hrun]
    rfl
  | send t b f => exact s.inner.sendWithInner_seq t b s.nextChan f
  | resume k t =>
    cases htask : s.tasks[k]? with
    | none => simp only [next, perform, innerCalls, htask, run, List.foldl_nil]
    | some task =>
      obtain ⟨chan, stage, inbox⟩ := task
      simp only [next, perform, innerCalls, htask]
      cases stage with
      | sending b f on wait => exact s.inner.sendWithInner_seq t b chan f
      | _ => rfl
  | unlock g =>
    simp only [innerCalls]
    refine (s.inner.unlock_seq g).trans ?_
    split <;> rfl
  | ack g => exact (s.inner.ack_spec g).1
  | listen k =>
    simp only [next, perform, listen]
    repeat' split
    all_goals rfl
  | enqueue k | closed k | takeUpdate t =>
    simp only [next, perform]
    split <;> rfl
  | resolve k | drop k choice =>
    simp only [next, perform]
    repeat' split
    all_goals rfl
  | _ => rfl

end Shared

end Calls

end SequentialExchange.Tokio
