import SequentialExchange.TokioRouting

/-!
# The values of a `receive`

A `receive` hands a packet over and pumps what was stored behind it. Each value goes
into the oneshot it belongs to or is acknowledged, so the routes stay sound and no
value appears twice.
-/

namespace SequentialExchange.Tokio

open WrapNumbering GuardedRuns
open Sync (ReplyGuard)

variable {S R : Type*} {CAP : ℕ}

/-! ## Pumping -/

section Pump

variable [NeZero CAP] {bound : ℕ} {h : History (Sender S) (Receiver R)} {w : Work S R CAP}
  {o : Multiset (Mail R)}

/-- The history after calls on the state machine. -/
def recorded (w : Work S R CAP) (h : History (Sender S) (Receiver R))
    (cs : List (Call (Sender S) (Receiver R))) : History (Sender S) (Receiver R) :=
  (Node.performAll ⟨w.seq, h⟩ cs).history

/-- The node's endpoint after the calls. -/
theorem performAll_seqEx (n : Node (Sender S) (Receiver R) CAP)
    (cs : List (Call (Sender S) (Receiver R))) : (n.performAll cs).seqEx = run n.seqEx cs := by
  induction cs generalizing n with
  | nil => rfl
  | cons c cs ih => exact ih (n.perform c)

/-- Calls are recorded one list after the other. -/
theorem recorded_append {w' : Work S R CAP} {cs : List (Call (Sender S) (Receiver R))}
    (hseq : w'.seq = run w.seq cs) (cs' : List (Call (Sender S) (Receiver R))) :
    recorded w h (cs ++ cs') = recorded w' (recorded w h cs) cs' := by
  have hnode : Node.performAll ⟨w.seq, h⟩ cs = ⟨w'.seq, recorded w h cs⟩ := by
    rw [hseq, ← performAll_seqEx ⟨w.seq, h⟩ cs]
    rfl
  rw [recorded, Node.performAll, List.foldl_append]
  exact congrArg (fun n => (Node.performAll n cs').history) hnode

/-- Passing a value on records nothing. -/
theorem recorded_handCalls (w : Work S R CAP) (h : History (Sender S) (Receiver R)) (chan : ℕ)
    (mail : Mail R) : recorded w h (w.handCalls chan mail) = h := by
  unfold Work.handCalls
  cases post chan (some mail) w.tasks <;> rfl

/-- The acknowledgements of a dispatch leave the history as it is. -/
theorem recorded_dispatchCalls (w : Work S R CAP) (h : History (Sender S) (Receiver R))
    (ok : RecvOkRaw (Sender S) (Receiver R)) : recorded w h (w.dispatchCalls ok) = h := by
  cases ok with
  | payload n b d => exact recorded_handCalls w h _ _
  | reply n b d e => exact recorded_handCalls w h _ _
  | ack e => rfl

/-- A value goes to its future, or its packet is acknowledged. -/
theorem Routed.hand (hr : Routed bound h w) {chan : ℕ} {mail : Mail R}
    (hvalue : ∀ task ∈ w.tasks, task.chan = chan → task.stage.isReceiving = false →
      Answers h chan (some mail)) :
    Routed bound h (w.hand chan mail) := by
  have htasks := hand_tasks w chan mail
  have hwindows := (w.hand_windows chan mail).1
  generalize w.hand chan mail = w' at htasks hwindows ⊢
  obtain ⟨q, tasks⟩ := w'
  subst htasks
  exact (hr.post hvalue).windows fun i n r b d hw => hwindows ▸ hw

/-- The value under way is posted, or acknowledged and dropped. -/
theorem Delivers.hand {mail : Mail R} (hd : Delivers (mail ::ₘ o) h w.tasks) (chan : ℕ) :
    Delivers o h (w.hand chan mail).tasks := by
  rw [hand_tasks]
  exact hd.post chan

/-- A pumped packet is handed over, and goes to the future that waits for it. -/
theorem pump_routed (hr : Routed bound h w)
    (hd : Delivers o h w.tasks) {ok : RecvOkRaw (Sender S) (Receiver R)} {doPump : Bool}
    (hok : w.seq.tryPumpRaw.1 = .ok (ok, doPump)) :
    Routed bound (recorded w h [.pump]) ({ w with seq := w.seq.tryPumpRaw.2 }.dispatch ok) ∧
      Delivers o (recorded w h [.pump])
        ({ w with seq := w.seq.tryPumpRaw.2 }.dispatch ok).tasks ∧
      h.Hears (recorded w h [.pump]) := by
  have hrecord : recorded w h [.pump] =
      h.record w.seq.storedPacket? (.pumped ok doPump) := by
    simp only [recorded, Node.performAll, List.foldl_cons, List.foldl_nil, Node.perform,
      SeqEx.call, hok]
    rfl
  have hpump := w.seq.tryPumpRaw_cases
  generalize w.seq.tryPumpRaw = res at hpump hok ⊢
  cases hpump with
  | nothing _ => cases hok
  | full _ _ _ _ _ _ _ => cases hok
  | locked _ _ _ _ _ _ => cases hok
  | next n r b data hcell hfull hlock =>
    obtain ⟨chan, d⟩ := data
    have hfrees := frees_next w.seq w.seq.nextRecvSeqNo n r b (chan, d)
    have hstored : w.seq.storedPacket? = some (.newWithData n r b (chan, d)) := by
      rw [SeqEx.storedPacket?, hcell]
    cases hok
    rw [hstored] at hrecord
    have htake : recorded w h [.pump] = h.take (.newWithData n r b (chan, d))
        ((w.seq.advance w.seq.nextRecvSeqNo).2.handOver n r b (chan, d)).1 := hrecord
    have hhears := h.hears_take (.newWithData n r b (chan, d))
      ((w.seq.advance w.seq.nextRecvSeqNo).2.handOver n r b (chan, d)).1
    have hrouted := (hr.windows fun i n' r' b' d' hw =>
      ((hfrees.stored i n' r' b' d').mp hw).1).hears hhears
    have hdelivers := hd.take (.newWithData n r b (chan, d))
      ((w.seq.advance w.seq.nextRecvSeqNo).2.handOver n r b (chan, d)).1
    rw [htake]
    refine ⟨?_, ?_, hhears⟩
    · rcases handOver_pairs (w.seq.advance w.seq.nextRecvSeqNo).2 n r b (chan, d) with
        ⟨m, hm, e, he, hnum, hres⟩ | ⟨hno, hres⟩
      · -- the reply goes to the future that waits for it
        rw [hres] at hrouted ⊢
        refine hrouted.hand fun task hmem hchan hreceiving => ?_
        refine ⟨.newWithData n r b (chan, d), chan, e.data.2, ?_⟩
        simp [History.take]
      · -- the packet goes to the future of its `receive`
        rw [hres] at hrouted ⊢
        refine hrouted.hand fun task hmem hchan hreceiving => ?_
        rw [(hr.stored _ n r b chan d hcell).2 task hmem hchan] at hreceiving
        cases hreceiving
    · rcases handOver_pairs (w.seq.advance w.seq.nextRecvSeqNo).2 n r b (chan, d) with
        ⟨m, hm, e, he, hnum, hres⟩ | ⟨hno, hres⟩
      · rw [hres] at hdelivers ⊢
        refine Delivers.hand ?_ e.data.1
        exact hdelivers
      · rw [hres] at hdelivers ⊢
        refine Delivers.hand ?_ chan
        exact hdelivers

/-- What a pump that hands a packet over keeps, the loop keeps. -/
theorem pumpLoop_keeps {P : History (Sender S) (Receiver R) → Work S R CAP → Prop}
    (hpump : ∀ h w ok doPump, P h w → w.seq.tryPumpRaw.1 = .ok (ok, doPump) →
      P (recorded w h [.pump]) ({ w with seq := w.seq.tryPumpRaw.2 }.dispatch ok))
    (fuel : ℕ) (hP : P h w) :
    P (recorded w h (Work.pumpCalls fuel w)) (Work.pumpLoop fuel w).2 := by
  induction fuel generalizing w h with
  | zero => exact hP
  | succ fuel ih =>
    cases hok : w.seq.tryPumpRaw.1 with
    | error e =>
      have hcalls : Work.pumpCalls (fuel + 1) w = [.pump] := by simp only [Work.pumpCalls, hok]
      have hloop : (Work.pumpLoop (fuel + 1) w).2 = { w with seq := w.seq.tryPumpRaw.2 } := by
        simp only [Work.pumpLoop, hok]
      have hrecord : recorded w h [.pump] = h := by
        simp only [recorded, Node.performAll, List.foldl_cons, List.foldl_nil, Node.perform,
          SeqEx.call, hok]
        rfl
      obtain ⟨hseq, -⟩ := pump_refused hok
      rw [hcalls, hloop, hrecord, hseq]
      exact hP
    | ok res =>
      obtain ⟨ok, doPump⟩ := res
      have hP' := hpump h w ok doPump hP hok
      have hdispatch : recorded w h
          (.pump :: Work.dispatchCalls { w with seq := w.seq.tryPumpRaw.2 } ok) =
            recorded w h [.pump] := by
        have hseq : ({ w with seq := w.seq.tryPumpRaw.2 } : Work S R CAP).seq =
            run w.seq [.pump] := rfl
        have hsplit := recorded_append (h := h) hseq
          (Work.dispatchCalls { w with seq := w.seq.tryPumpRaw.2 } ok)
        rwa [recorded_dispatchCalls] at hsplit
      cases doPump with
      | false =>
        have hcalls : Work.pumpCalls (fuel + 1) w =
            .pump :: Work.dispatchCalls { w with seq := w.seq.tryPumpRaw.2 } ok := by
          simp only [Work.pumpCalls, hok, Bool.false_eq_true, if_false, List.append_nil]
        have hloop : (Work.pumpLoop (fuel + 1) w).2 =
            { w with seq := w.seq.tryPumpRaw.2 }.dispatch ok := by
          simp only [Work.pumpLoop, hok, Bool.false_eq_true, if_false]
        rw [hcalls, hloop, hdispatch]
        exact hP'
      | true =>
        have hcalls : Work.pumpCalls (fuel + 1) w =
            (.pump :: Work.dispatchCalls { w with seq := w.seq.tryPumpRaw.2 } ok) ++
              Work.pumpCalls fuel ({ w with seq := w.seq.tryPumpRaw.2 }.dispatch ok) := by
          simp only [Work.pumpCalls, hok, if_true, List.cons_append]
        have hloop : (Work.pumpLoop (fuel + 1) w).2 =
            (Work.pumpLoop fuel ({ w with seq := w.seq.tryPumpRaw.2 }.dispatch ok)).2 := by
          simp only [Work.pumpLoop, hok, if_true]
        have hseq : ({ w with seq := w.seq.tryPumpRaw.2 }.dispatch ok).seq = run w.seq
            (.pump :: Work.dispatchCalls { w with seq := w.seq.tryPumpRaw.2 } ok) :=
          Work.dispatch_run _ ok
        rw [hcalls, hloop, recorded_append hseq, hdispatch]
        exact ih hP'

/-- The pump loop keeps the routes, and every value it hands over is a new one. -/
theorem pumpLoop_routed (fuel : ℕ) (hr : Routed bound h w) (hd : Delivers o h w.tasks) :
    Routed bound (recorded w h (Work.pumpCalls fuel w)) (Work.pumpLoop fuel w).2 ∧
      Delivers o (recorded w h (Work.pumpCalls fuel w)) (Work.pumpLoop fuel w).2.tasks ∧
      h.Hears (recorded w h (Work.pumpCalls fuel w)) := by
  refine pumpLoop_keeps (P := fun h' w' => Routed bound h' w' ∧ Delivers o h' w'.tasks ∧ h.Hears h')
    (fun h' w' ok doPump ⟨hr', hd', hhears⟩ hok => ?_) fuel ⟨hr, hd, .refl h⟩
  obtain ⟨hr'', hd'', hhears'⟩ := pump_routed hr' hd' hok
  exact ⟨hr'', hd'', hhears.trans hhears'⟩

/-- The endpoint after the loop, if it runs. -/
theorem pumped_run (doPump : Bool) (w : Work S R CAP) :
    (if doPump then Work.pumpLoop (CAP + 1) w else (0, w)).2.seq =
      run w.seq (if doPump then Work.pumpCalls (CAP + 1) w else []) := by
  cases doPump with
  | false => rfl
  | true => exact Work.pumpLoop_run (CAP + 1) w

/-- The routes after the loop, if it runs. -/
theorem pumped_routed (doPump : Bool) (hr : Routed bound h w) (hd : Delivers o h w.tasks) :
    Routed bound (recorded w h (if doPump then Work.pumpCalls (CAP + 1) w else []))
        (if doPump then Work.pumpLoop (CAP + 1) w else (0, w)).2 ∧
      Delivers o (recorded w h (if doPump then Work.pumpCalls (CAP + 1) w else []))
        (if doPump then Work.pumpLoop (CAP + 1) w else (0, w)).2.tasks ∧
      h.Hears (recorded w h (if doPump then Work.pumpCalls (CAP + 1) w else [])) := by
  cases doPump with
  | false => exact ⟨hr, hd, .refl h⟩
  | true => exact pumpLoop_routed (CAP + 1) hr hd

end Pump

/-! ## The section of a `receive` -/

/-- The guard and the data that are returned. -/
def Outcome.mail? : Outcome R → Option (Mail R)
  | .received (.ok (g, d)) | .exchanged (.ok (g, d)) => some ⟨g.replyNo, g.isHoldingLock, d⟩
  | _ => none

section Receive

variable [NeZero CAP] {bound : ℕ} {h : History (Sender S) (Receiver R)}
  {i : SeqExInner S R CAP} {tasks : List (Task S R)} {o : Multiset (Mail R)}

namespace SeqExInner

/-- What `receive_inner` returns for a packet that is handed over. -/
theorem receiveInner_result (tasks : List (Task S R)) {fresh : ℕ} {packet : Packet R}
    {ok : RecvOkRaw (Sender S) R} {doPump : Bool}
    (hok : (i.seq.tryReceiveRawAndDirect (fun data => (fresh, data)) packet).1 =
      .ok (ok, doPump)) :
    (i.receiveInner tasks fresh packet).1.result = match ok with
      | .payload n b d => .ok (⟨n, b⟩, d)
      | _ => .error (some .asyncReply) := by
  simp only [receiveInner, hok]
  cases ok <;> rfl

/-- The history of a `receive` whose packet is handed over. -/
theorem recorded_receiveCalls {fresh : ℕ} {packet : Packet R} {ok : RecvOkRaw (Sender S) R}
    {doPump : Bool} {q : SeqEx (Sender S) (Receiver R) CAP}
    (hok : i.seq.tryReceiveRawAndDirect (fun data => (fresh, data)) packet = (.ok (ok, doPump), q))
    {h' : History (Sender S) (Receiver R)}
    (hh : h' = h.take (packet.map fun data => (fresh, data))
      (ok.convert fun data => (fresh, data))) :
    recorded ⟨i.seq, tasks⟩ h (i.receiveCalls tasks fresh packet) =
      recorded ⟨q, tasks⟩ h'
        ((if doPump then Work.pumpCalls (CAP + 1) ⟨q, tasks⟩ else []) ++
          (if doPump then Work.pumpLoop (CAP + 1) ⟨q, tasks⟩
            else (0, ⟨q, tasks⟩)).2.settleCalls ok) := by
  have hcall := SeqEx.receive_convert (fun data => (fresh, data)) i.seq packet
  rw [hok] at hcall
  have hnode : Node.perform ⟨i.seq, h⟩ (.receive (packet.map fun data => (fresh, data))) =
      ⟨q, h'⟩ := by
    simp only [Node.perform, hcall, hh]
    rfl
  have hcalls : i.receiveCalls tasks fresh packet =
      .receive (packet.map fun data => (fresh, data)) ::
        ((if doPump then Work.pumpCalls (CAP + 1) ⟨q, tasks⟩ else []) ++
          (if doPump then Work.pumpLoop (CAP + 1) ⟨q, tasks⟩
            else (0, ⟨q, tasks⟩)).2.settleCalls ok) := by
    simp only [receiveCalls, hok]
  rw [hcalls, recorded, Node.performAll, List.foldl_cons, hnode]
  rfl

end SeqExInner

/-- The acknowledgements of the received packet leave the history as it is. -/
theorem recorded_settleCalls (w : Work S R CAP) (h : History (Sender S) (Receiver R))
    (ok : RecvOkRaw (Sender S) R) : recorded w h (w.settleCalls ok) = h := by
  cases ok with
  | payload n b d => rfl
  | reply n b d e => exact recorded_handCalls w h _ _
  | ack e => rfl

/-- The history of a `receive` is that of its packet and of the pumped ones. -/
theorem recorded_receive {fresh : ℕ} {packet : Packet R} {ok : RecvOkRaw (Sender S) R}
    {doPump : Bool} {q : SeqEx (Sender S) (Receiver R) CAP}
    (hok : i.seq.tryReceiveRawAndDirect (fun data => (fresh, data)) packet = (.ok (ok, doPump), q))
    {h' : History (Sender S) (Receiver R)}
    (hh : h' = h.take (packet.map fun data => (fresh, data))
      (ok.convert fun data => (fresh, data))) :
    recorded ⟨i.seq, tasks⟩ h (i.receiveCalls tasks fresh packet) =
      recorded ⟨q, tasks⟩ h' (if doPump then Work.pumpCalls (CAP + 1) ⟨q, tasks⟩ else []) := by
  rw [SeqExInner.recorded_receiveCalls hok hh, recorded_append (pumped_run doPump ⟨q, tasks⟩),
    recorded_settleCalls]

/-- What `receive_inner` returns to its caller. -/
def directMail? : RecvOkRaw (Sender S) R → Option (Mail R)
  | .payload n b d => some ⟨n, b, d⟩
  | .reply .. | .ack _ => none

/-- What `receive_inner` sends to a future is the answer to its packet. -/
def Settles (h : History (Sender S) (Receiver R)) : RecvOkRaw (Sender S) R → Prop
  | .payload .. => True
  | .reply n b d (chan, _) => Answers h chan (some ⟨n, b, d⟩)
  | .ack (chan, _) => Answers h chan none

/-- The window is pumped, and then the received packet goes where it belongs. -/
theorem Routed.settle {q : SeqEx (Sender S) (Receiver R) CAP} {ok : RecvOkRaw (Sender S) R}
    {fresh : ℕ} (hr : Routed bound h ⟨q, tasks⟩)
    (hd : Delivers (((mail? (ok.convert fun data => (fresh, data))).toList : Multiset (Mail R)) + o)
      h tasks)
    (hs : Settles h ok) (doPump : Bool) {u : Work S R CAP}
    (hu : u = (if doPump then Work.pumpLoop (CAP + 1) ⟨q, tasks⟩ else (0, ⟨q, tasks⟩)).2)
    {h' : History (Sender S) (Receiver R)}
    (hh : h' = recorded ⟨q, tasks⟩ h
      (if doPump then Work.pumpCalls (CAP + 1) ⟨q, tasks⟩ else [])) :
    Routed bound h' (u.settle ok) ∧
      Delivers (((directMail? ok).toList : Multiset (Mail R)) + o) h' (u.settle ok).tasks ∧
      h.Hears h' := by
  obtain ⟨hr', hd', hhears⟩ := pumped_routed doPump hr hd
  rw [← hu] at hr' hd'
  rw [← hh] at hr' hd' hhears
  cases ok with
  | payload n b d => exact ⟨hr', hd', hhears⟩
  | reply n b d e =>
    refine ⟨hr'.hand fun _ _ _ _ => Answers.hears hs hhears, ?_, hhears⟩
    have hnone : (((directMail? (.reply n b d e)).toList : List (Mail R)) : Multiset (Mail R)) + o =
        o := zero_add o
    refine Delivers.hand ?_ e.1
    rw [hnone, ← Multiset.singleton_add]
    exact hd'
  | ack e =>
    exact ⟨hr'.post fun _ _ _ _ => Answers.hears hs hhears, hd'.post_none e.1, hhears⟩

/-- A `receive` whose packet is handed over. -/
theorem Routed.receive {packet : Packet R} {ok : RecvOkRaw (Sender S) R} {doPump : Bool}
    {fresh : ℕ} (hr : Routed bound h ⟨i.seq, tasks⟩) (hd : Delivers o h tasks)
    (hok : (i.seq.tryReceiveRawAndDirect (fun data => (fresh, data)) packet).1 =
      .ok (ok, doPump))
    {h' : History (Sender S) (Receiver R)}
    (hh : h' = recorded ⟨i.seq, tasks⟩ h (i.receiveCalls tasks fresh packet)) :
    Routed bound h'
        ⟨(i.receiveInner tasks fresh packet).1.inner.seq, (i.receiveInner tasks fresh packet).2⟩ ∧
      Delivers (((directMail? ok).toList : Multiset (Mail R)) + o) h'
        (i.receiveInner tasks fresh packet).2 ∧
      h.Hears h' := by
  obtain ⟨u, hu, hv, -⟩ := SeqExInner.receiveInner_of_ok tasks hok
  have htasks : (i.receiveInner tasks fresh packet).2 = (u.settle ok).tasks :=
    congrArg Work.tasks hv
  have hcall : i.seq.tryReceiveRawAndDirect (fun data => (fresh, data)) packet =
      (.ok (ok, doPump), (i.seq.tryReceiveRawAndDirect (fun data => (fresh, data)) packet).2) :=
    Prod.ext hok rfl
  have hrecord : recorded ⟨i.seq, tasks⟩ h _ = _ := recorded_receive hcall rfl
  rw [hrecord] at hh
  rw [hv, htasks]
  have hhears := h.hears_take (packet.map fun data => (fresh, data))
    (ok.convert fun data => (fresh, data))
  have hdelivers := hd.take (packet.map fun data => (fresh, data))
    (ok.convert fun data => (fresh, data))
  suffices hsuff :
      (∀ j n r b d, (i.seq.tryReceiveRawAndDirect (fun data => (fresh, data)) packet).2.recvWindow
        j = .occupied n r b d → i.seq.recvWindow j = .occupied n r b d) ∧
      Settles (h.take (packet.map fun data => (fresh, data))
        (ok.convert fun data => (fresh, data))) ok by
    obtain ⟨hr', hd', hhears'⟩ := Routed.settle ((hr.windows hsuff.1).hears hhears) hdelivers
      hsuff.2 doPump hu hh
    exact ⟨hr', hd', hhears.trans hhears'⟩
  rcases packet.eq_ack_or_newWithData with ⟨m, rfl⟩ | ⟨n, r, b, d, rfl⟩
  · rcases tryReceive_ack (fun data => (fresh, data)) i.seq m with ⟨e, he, hack⟩ | hack
    · rw [hack] at hok ⊢
      cases hok
      refine ⟨fun _ _ _ _ _ hw => hw, m, e.data.2, ?_⟩
      simp [History.take, RecvOkRaw.convert, Packet.map, Packet.replyNo?]
    · rw [hack] at hok
      cases hok
  · have hpaired {t : SeqEx (Sender S) (Receiver R) CAP} :
        Settles (h.take ((Packet.newWithData n r b d).map fun data => (fresh, data))
          ((t.handOver n r b d).1.convert fun data => (fresh, data))) (t.handOver n r b d).1 := by
      rcases handOver_pairs t n r b d with ⟨m, -, e, -, -, hres⟩ | ⟨-, hres⟩
      · rw [hres]
        refine ⟨(Packet.newWithData n r b d).map fun data => (fresh, data), fresh, e.data.2, ?_⟩
        simp [History.take, RecvOkRaw.convert]
      · rw [hres]
        trivial
    rw [SeqEx.tryReceive_newWithData] at hok ⊢
    have hrecv := SeqEx.receiveData_cases (fun data => (fresh, data)) i.seq n r b d
    generalize i.seq.receiveData (fun data => (fresh, data)) n r b d = res at hrecv hok ⊢
    cases hrecv with
    | next hrange hfull hlock hnext =>
      cases hok
      exact ⟨fun j n' r' b' d' hw => (((frees_next i.seq n n r b d).stored j n' r' b' d').mp hw).1,
        hpaired⟩
    | ahead hrange hfull hcst hnext =>
      cases hok
      exact ⟨fun j n' r' b' d' hw => (((frees_ahead i.seq n r b d).stored j n' r' b' d').mp hw).1,
        hpaired⟩
    | _ => cases hok

end Receive

end SequentialExchange.Tokio
