import SequentialExchange.TokioOrder

/-!
# The packet of a future that waits for its answer

A future of `send` or `reply` waits at its oneshot until its packet is acknowledged or
replied to. Its packet stays in the send window until then, so that it is sent again
and can be answered. Only a packet processed under a false exemption of
`is_full_inner` would let a reply push it out of its cell, and the future would report
a closed endpoint.
-/

namespace SequentialExchange.Tokio

open WrapNumbering GuardedRuns ReservationLedger
open Sync (ReplyGuard Owner)

variable {S R : Type*} {CAP : ℕ}

/-! ## Futures without an answer -/

/-- The future of an exchange has no answer yet. -/
def Task.isUnanswered (task : Task S R) : Bool := task.stage.isExchanging && task.inbox.isNone

/-- The oneshot of the packet that is answered. -/
def answered? {D : Type*} : RecvOkRaw (Sender S) D → Option ℕ
  | .reply _ _ _ (chan, _) | .ack (chan, _) => some chan
  | .payload .. => none

/-- What a packet answers does not depend on its data. -/
theorem answered?_convert {P : Type*} (into : P → R) (ok : RecvOkRaw (Sender S) P) :
    answered? (ok.convert into) = answered? ok := by
  cases ok <;> rfl

/-- A future without an answer has sent its packet, and no answer came in. The answers for
the oneshots `under` are under way. -/
structure Unanswered (under : List ℕ) (h : History (Sender S) (Receiver R))
    (tasks : List (Task S R)) : Prop where
  nodup : (tasks.map Task.chan).Nodup
  sent : ∀ task ∈ tasks, task.isUnanswered = true → task.chan ∈ channels h
  silent : ∀ task ∈ tasks, task.isUnanswered = true → task.chan ∉ under →
    ∀ value, ¬ Answers h task.chan value

/-- A value is an answer for the future that gets it, and for no other. -/
theorem unanswered_of_posted {chan : ℕ} {value : Option (Mail R)} {tasks : List (Task S R)}
    (hnodup : (tasks.map Task.chan).Nodup) {task : Task S R}
    (hmem : task ∈ posted chan value tasks) (hun : task.isUnanswered = true) :
    task ∈ tasks ∧ task.chan ≠ chan := by
  obtain ⟨-, hinbox⟩ := (Bool.and_eq_true _ _).mp hun
  have hinbox := Option.isNone_iff_eq_none.mp hinbox
  unfold posted at hmem
  rcases post_cases chan value tasks with ⟨hnone, hpost⟩ | ⟨xs, stage, ys, rfl, hpost⟩
  · rw [hpost, Option.getD_none] at hmem
    refine ⟨hmem, fun hchan => ?_⟩
    have hawaits := hnone task hmem
    simp [Task.awaits, hchan, hinbox] at hawaits
  · rw [hpost, Option.getD_some] at hmem
    rw [List.map_append, List.map_cons, List.nodup_append] at hnodup
    obtain ⟨-, hys, hdisjoint⟩ := hnodup
    rcases List.mem_append.mp hmem with hxs | hmem
    · exact ⟨List.mem_append_left _ hxs,
        hdisjoint _ (List.mem_map_of_mem hxs) _ List.mem_cons_self⟩
    · rcases List.mem_cons.mp hmem with rfl | hmem
      · cases hinbox
      · refine ⟨List.mem_append_right _ (List.mem_cons_of_mem _ hmem), fun hchan => ?_⟩
        have hagain : task.chan ∈ ys.map Task.chan := List.mem_map_of_mem hmem
        rw [hchan] at hagain
        exact (List.nodup_cons.mp hys).1 hagain

section History

variable {h h' : History (Sender S) (Receiver R)} {tasks : List (Task S R)} {l : List ℕ}

/-- What is handed over answers the packet it is paired with, and no other. -/
theorem answers_of_take {p : Packet (Receiver R)} {ok : RecvOkRaw (Sender S) (Receiver R)}
    {chan : ℕ} {value : Option (Mail R)} (ha : Answers (h.take p ok) chan value) :
    Answers h chan value ∨ answered? ok = some chan := by
  cases value with
  | some mail =>
    obtain ⟨p', c, w, hmem⟩ := ha
    cases ok with
    | ack d => exact .inl ⟨p', c, w, hmem⟩
    | payload n b d | reply n b d e =>
      rcases List.mem_append.mp hmem with hmem | hmem
      · exact .inl ⟨p', c, w, hmem⟩
      · cases List.mem_singleton.mp hmem
        try exact .inr rfl
  | none =>
    obtain ⟨n, w, hmem⟩ := ha
    cases ok with
    | payload n' b d | reply n' b d e => exact .inl ⟨n, w, hmem⟩
    | ack d =>
      rcases List.mem_append.mp hmem with hmem | hmem
      · exact .inl ⟨n, w, hmem⟩
      · obtain ⟨m, -, hm⟩ := List.mem_map.mp hmem
        cases hm
        exact .inr rfl

/-- A packet that is taken in sends nothing. -/
theorem channels_take (p : Packet (Receiver R)) (ok : RecvOkRaw (Sender S) (Receiver R)) :
    channels (h.take p ok) = channels h := by
  cases ok <;> rfl

namespace Unanswered

/-- More answers may be under way. -/
theorem weaken (hu : Unanswered l h tasks) {l' : List ℕ} (hl : l ⊆ l') :
    Unanswered l' h tasks :=
  ⟨hu.nodup, hu.sent, fun task hmem hun hnot =>
    hu.silent task hmem hun fun hin => hnot (hl hin)⟩

/-- The answer for a oneshot gets there. -/
theorem post {chan : ℕ} (hu : Unanswered (chan :: l) h tasks) (value : Option (Mail R)) :
    Unanswered l h (posted chan value tasks) where
  nodup := by
    rw [map_posted fun _ _ => rfl]
    exact hu.nodup
  sent task hmem hun := hu.sent task (unanswered_of_posted hu.nodup hmem hun).1 hun
  silent task hmem hun hnot := by
    obtain ⟨hold, hne⟩ := unanswered_of_posted hu.nodup hmem hun
    exact hu.silent task hold hun fun hin => (List.mem_cons.mp hin).elim hne hnot

/-- A packet is handed over. -/
theorem take (hu : Unanswered l h tasks) (p : Packet (Receiver R))
    (ok : RecvOkRaw (Sender S) (Receiver R)) :
    Unanswered ((answered? ok).toList ++ l) (h.take p ok) tasks where
  nodup := hu.nodup
  sent task hmem hun := by
    rw [channels_take]
    exact hu.sent task hmem hun
  silent task hmem hun hnot value ha := by
    rw [List.mem_append, Option.mem_toList, not_or] at hnot
    rcases answers_of_take ha with ha | hans
    · exact hu.silent task hmem hun hnot.2 value ha
    · exact hnot.1 hans

/-- Futures go on or are gone. -/
theorem sublist (hu : Unanswered l h tasks) {tasks' : List (Task S R)}
    (htasks : (tasks'.map Task.port).Sublist (tasks.map Task.port)) : Unanswered l h tasks' := by
  have hold {task' : Task S R} (hmem : task' ∈ tasks') (hun : task'.isUnanswered = true) :
      ∃ task ∈ tasks, task.isUnanswered = true ∧ task.chan = task'.chan := by
    obtain ⟨task, htask, hport⟩ := List.mem_map.mp (htasks.subset (List.mem_map_of_mem hmem))
    obtain ⟨hchan, -, hexchanging, hinbox⟩ := by
      simpa only [Task.port, Prod.mk.injEq] using hport
    refine ⟨task, htask, ?_, hchan⟩
    rw [Task.isUnanswered, hexchanging, hinbox]
    exact hun
  refine ⟨?_, fun task' hmem hun => ?_, fun task' hmem hun hnot => ?_⟩
  · have hchans : (tasks'.map Task.chan).Sublist (tasks.map Task.chan) := by
      simpa only [List.map_map, Function.comp_def, Task.port] using htasks.map Prod.fst
    exact hchans.nodup hu.nodup
  · obtain ⟨task, htask, hun', hchan⟩ := hold hmem hun
    exact hchan ▸ hu.sent task htask hun'
  · obtain ⟨task, htask, hun', hchan⟩ := hold hmem hun
    rw [← hchan] at hnot ⊢
    exact hu.silent task htask hun' hnot

end Unanswered

end History

/-! ## The section of a `receive` -/

section Receive

variable [NeZero CAP] {h : History (Sender S) (Receiver R)} {w : Work S R CAP} {l : List ℕ}

/-- The answer under way reaches its oneshot. -/
theorem Unanswered.dispatch {ok : RecvOkRaw (Sender S) (Receiver R)}
    (hu : Unanswered ((answered? ok).toList ++ l) h w.tasks) :
    Unanswered l h (w.dispatch ok).tasks := by
  cases ok with
  | payload n b d =>
    rw [Work.dispatch, hand_tasks]
    exact (hu.weaken (List.subset_cons_self d.1 _)).post _
  | reply n b d e =>
    rw [Work.dispatch, hand_tasks]
    exact hu.post _
  | ack e => exact hu.post none

/-- A pumped packet that answers is dispatched at once. -/
theorem pump_unanswered (hu : Unanswered l h w.tasks) {ok : RecvOkRaw (Sender S) (Receiver R)}
    {doPump : Bool} (hok : w.seq.tryPumpRaw.1 = .ok (ok, doPump)) :
    Unanswered l (recorded w h [.pump])
      ({ w with seq := w.seq.tryPumpRaw.2 }.dispatch ok).tasks := by
  have hrecord : recorded w h [.pump] =
      h.record w.seq.storedPacket? (.pumped ok doPump) := by
    simp only [recorded, Node.performAll, List.foldl_cons, List.foldl_nil, Node.perform,
      SeqEx.call, hok]
    rfl
  rw [hrecord]
  refine Unanswered.dispatch (w := { w with seq := w.seq.tryPumpRaw.2 }) ?_
  cases w.seq.storedPacket? with
  | none => exact hu.weaken (List.subset_append_right _ _)
  | some p => exact hu.take p ok

/-- So no answer is under way after the pump loop. -/
theorem pumped_unanswered (doPump : Bool) (hu : Unanswered l h w.tasks) :
    Unanswered l (recorded w h (if doPump then Work.pumpCalls (CAP + 1) w else []))
      (if doPump then Work.pumpLoop (CAP + 1) w else (0, w)).2.tasks := by
  cases doPump with
  | false => exact hu
  | true =>
    exact pumpLoop_keeps (P := fun h w => Unanswered l h w.tasks)
      (fun _ _ _ _ hu hok => pump_unanswered hu hok) (CAP + 1) hu

/-- The received packet goes on after the pumped ones. -/
theorem Unanswered.settle {ok : RecvOkRaw (Sender S) R}
    (hu : Unanswered ((answered? ok).toList ++ l) h w.tasks) :
    Unanswered l h (w.settle ok).tasks := by
  cases ok with
  | payload n b d => exact hu
  | reply n b d e =>
    rw [Work.settle, hand_tasks]
    exact hu.post _
  | ack e => exact hu.post none

/-- A `receive` whose packet is handed over. -/
theorem Unanswered.receive {i : SeqExInner S R CAP} {tasks : List (Task S R)} {packet : Packet R}
    {ok : RecvOkRaw (Sender S) R} {doPump : Bool} {fresh : ℕ} (hu : Unanswered l h tasks)
    (hok : (i.seq.tryReceiveRawAndDirect (fun data => (fresh, data)) packet).1 =
      .ok (ok, doPump)) :
    Unanswered l (recorded ⟨i.seq, tasks⟩ h (i.receiveCalls tasks fresh packet))
      (i.receiveInner tasks fresh packet).2 := by
  obtain ⟨u, hpumped, hv, -⟩ := SeqExInner.receiveInner_of_ok tasks hok
  have htasks : (i.receiveInner tasks fresh packet).2 = (u.settle ok).tasks :=
    congrArg Work.tasks hv
  have hrun : i.seq.tryReceiveRawAndDirect (fun data => (fresh, data)) packet =
      (.ok (ok, doPump), (i.seq.tryReceiveRawAndDirect (fun data => (fresh, data)) packet).2) :=
    Prod.ext hok rfl
  have hfirst := hu.take (packet.map fun data => (fresh, data))
    (ok.convert fun data => (fresh, data))
  rw [answered?_convert] at hfirst
  generalize (i.seq.tryReceiveRawAndDirect (fun data => (fresh, data)) packet).2 = q
    at hrun hpumped
  rw [recorded_receive hrun rfl, htasks, hpumped]
  exact (pumped_unanswered doPump (w := ⟨q, tasks⟩) hfirst).settle

end Receive

/-! ## Steps that send -/

/-- A packet is sent for a future that had no packet yet. -/
theorem Unanswered.records {h h' : History (Sender S) (Receiver R)} {tasks tasks' : List (Task S R)}
    {chan : ℕ} {sent : Bool} (hu : Unanswered [] h tasks) (hrec : Records h chan h' sent)
    (hknown : ∀ value, ¬ Answers h chan value) (hnodup : (tasks'.map Task.chan).Nodup)
    (htasks : ∀ task ∈ tasks', task.isUnanswered = true →
      task ∈ tasks ∨ task.chan = chan ∧ sent = true) :
    Unanswered [] h' tasks' := by
  obtain ⟨hdel, hacks⟩ := hrec.handedOver
  have hback {c : ℕ} {value : Option (Mail R)} (ha : Answers h' c value) : Answers h c value :=
    Recorded.Answers.grow ha (fun d hd => hdel ▸ hd) fun a ha => hacks ▸ ha
  have hchannels : channels h ⊆ channels h' ∧ (sent = true → chan ∈ channels h') := by
    cases hrec with
    | nothing => exact ⟨fun _ hc => hc, fun hsent => by cases hsent⟩
    | sent p d hp =>
      have hmore : channels { h with sent := h.sent ++ [p] } = channels h ++ [chan] := by
        simp [channels, hp]
      rw [hmore]
      exact ⟨List.subset_append_left _ _, fun _ => List.mem_append_right _ List.mem_cons_self⟩
  refine ⟨hnodup, fun task hmem hun => ?_, fun task hmem hun _ value ha => ?_⟩
  · rcases htasks task hmem hun with hold | ⟨hchan, hsent⟩
    · exact hchannels.1 (hu.sent task hold hun)
    · rw [hchan]
      exact hchannels.2 hsent
  · rcases htasks task hmem hun with hold | ⟨hchan, -⟩
    · exact hu.silent task hold hun List.not_mem_nil value (hback ha)
    · rw [hchan] at ha
      exact hknown value (hback ha)

namespace Shared

variable [NeZero CAP] {s : Shared S R CAP} {h : History (Sender S) (Receiver R)}
  {packets : ℕ → Option (Packet R)}

/-- A guard replies with its number, which is outstanding. -/
theorem replyWith_records {g : ReplyGuard} (hlost : ∃ lost, s.ledger.Lost lost)
    (hpos : ⟨.guard, g⟩ ∈ s.owners) (t : Int64) (b : Bool) (f : SeqNo → SeqNo → S) :
    Records h s.nextChan (recorded s.work h (s.innerCalls (.replyWith g t b f))) true := by
  obtain ⟨lost, hlost⟩ := hlost
  rw [ledger_of_mem hpos] at hlost
  have hmem : g.replyNo ∈ s.inner.seq.concurrentReplies := by
    have hreserved : (s.inner.seq.concurrentReplies : Multiset SeqNo) =
        (g.token ::ₘ s.others ⟨.guard, g⟩).map Prod.fst + lost := hlost
    rw [← Multiset.mem_coe, hreserved, Multiset.map_cons, Multiset.cons_add]
    exact Multiset.mem_cons_self ..
  obtain ⟨l, -, hremove⟩ := SeqEx.removeReservation_of_mem hmem
  simp only [innerCalls, recorded, Node.performAll, List.foldl_cons, List.foldl_nil, Node.perform,
    SeqEx.call, SeqEx.replyRawAndDirect, work, hremove, if_true, SeqEx.insertEntry_packet]
  exact .sent _ (f s.inner.seq.nextSendSeqNo g.replyNo) (by simp)

/-- Only a packet that is sent makes its future wait for an answer. -/
theorem next_sending_unanswered (hr : Routed s.nextChan h s.work)
    (hc : Custody packets s.nextChan s.work) (hlost : ∃ lost, s.ledger.Lost lost)
    (hknown : ∀ chan value, Answers h chan value → chan ∈ channels h)
    (hu : Unanswered [] h s.tasks) {op : Op S R} (hpos : s.Possible op) (hop : quiet op = false)
    (hreceive : ∀ packet, op ≠ .receive packet) :
    Unanswered [] (recorded s.work h (s.innerCalls op)) (s.next op).tasks := by
  have hnodup : ((s.next op).tasks.map Task.chan).Nodup := (next_custody hc hpos hreceive).1.nodup
  have hunsent {chan : ℕ} (hnew : chan ∉ channels h) (value : Option (Mail R)) :
      ¬ Answers h chan value := fun ha => hnew (hknown chan value ha)
  have hfresh : s.nextChan ∉ channels h := fun hin => (hr.bounded _ hin).false
  -- a new future
  have hentered {h' : History (Sender S) (Receiver R)} {stage : Stage S} {sent : Bool}
      (htasks : (s.next op).tasks = s.tasks ++ [⟨s.nextChan, stage, none⟩])
      (hrec : Records h s.nextChan h' sent) (hstage : stage.isExchanging = true → sent = true) :
      Unanswered [] h' (s.next op).tasks := by
    refine hu.records hrec (hunsent hfresh) hnodup fun task hmem hun => ?_
    rw [htasks] at hmem
    rcases List.mem_append.mp hmem with hold | hmem
    · exact .inl hold
    · rw [List.mem_singleton.mp hmem] at hun ⊢
      exact .inr ⟨rfl, hstage ((Bool.and_eq_true _ _).mp hun).1⟩
  cases op with
  | receive packet => exact absurd rfl (hreceive packet)
  | send t b f => exact hentered rfl (sendWithInner_records s.inner s.tasks h t b s.nextChan f) id
  | replyWith g t b f => exact hentered rfl (replyWith_records hlost hpos t b f) fun _ => rfl
  | resume k t =>
    obtain ⟨⟨chan, stage, inbox⟩, htask, on, hwoken⟩ := hpos.resume
    obtain ⟨b, f, hstage⟩ := Task.isWaiting_iff.mp hwoken
    obtain rfl : stage = .sending b f on (.listening true) := hstage
    have htask := Option.mem_def.mp htask
    have hcalls : s.innerCalls (.resume k t) = [sendCall t b chan f] := by
      simp only [innerCalls, htask]
    have htasks : (s.next (.resume k t)).tasks = s.tasks.modify k
        (·.goTo (.ofSend b f (s.inner.sendWithInner t b chan f).result)) := by
      simp only [next, perform, htask, moveTo]
      rfl
    rw [hcalls]
    refine hu.records (sendWithInner_records s.inner s.tasks h t b chan f)
      (hunsent (hr.unsent _ (List.mem_of_getElem? htask) rfl)) hnodup fun task' hmem hun => ?_
    rw [htasks] at hmem
    rcases mem_modify htask hmem with rfl | ⟨j, -, hj⟩
    · exact .inr ⟨rfl, ((Bool.and_eq_true _ _).mp hun).1⟩
    · exact .inl (List.mem_of_getElem? hj)
  | _ => cases hop

/-- An answer that is received goes to the future it answers. -/
theorem receive_unanswered (hc : Custody packets s.nextChan s.work)
    (hknown : ∀ value, ¬ Answers h s.nextChan value) (hu : Unanswered [] h s.tasks)
    (packet : Packet R) :
    Unanswered [] (recorded s.work h (s.inner.receiveCalls s.tasks s.nextChan packet))
      (s.receive packet).2.tasks := by
  have hnodup : ((s.receive packet).2.tasks.map Task.chan).Nodup :=
    (receive_custody hc packet).1.nodup
  cases hres : (s.inner.seq.tryReceiveRawAndDirect (fun data => (s.nextChan, data)) packet).1 with
  | ok res =>
    obtain ⟨ok, doPump⟩ := res
    have hreceive := hu.receive hres
    have htasks : (s.receive packet).2.tasks =
        (s.inner.receiveInner s.tasks s.nextChan packet).2 := by
      have hresult := SeqExInner.receiveInner_result s.tasks hres
      unfold receive
      dsimp only
      cases ok with
      | payload n b d | reply n b d e | ack e =>
        rw [hresult]
        rfl
    rw [htasks]
    exact hreceive
  | error e =>
    obtain ⟨hsame, -, -, -⟩ := SeqExInner.receiveInner_refused s.tasks hres
    have hhistory : recorded s.work h (s.inner.receiveCalls s.tasks s.nextChan packet) = h :=
      recorded_refused hres
    rw [hhistory]
    refine hu.records .nothing hknown hnodup fun task hmem hun => .inl ?_
    have htasks : (s.receive packet).2.tasks = s.tasks ∨
        (s.receive packet).2.tasks = s.tasks ++ [⟨s.nextChan, .receiving, none⟩] := by
      unfold receive
      dsimp only
      repeat' split
      · exact .inl hsame
      · exact .inl hsame
      · refine .inr ?_
        simp only [suspend, finish, hsame]
      · exact .inl hsame
    rcases htasks with htasks | htasks
    · rwa [htasks] at hmem
    · rw [htasks] at hmem
      rcases List.mem_append.mp hmem with hold | hmem
      · exact hold
      · rw [List.mem_singleton.mp hmem] at hun
        cases hun

end Shared

/-! ## Whole runs -/

namespace Recorded

variable [NeZero CAP] {u : Recorded S R CAP} {base : SeqNo}

/-- No packet of this step is processed under a false exemption. -/
def NoFalseExemption (u : Recorded S R CAP) (op : Op S R) : Prop :=
  Allowed (fun (n : Node (Sender S) (Receiver R) CAP) c => n.seqEx.NoFalseExemption c) Node.perform
    u.node (u.shared.innerCalls op)

/-- The packets that a step takes in are known before it. -/
instance [DecidableEq R] (u : Recorded S R CAP) (op : Op S R) : Decidable (u.NoFalseExemption op) :=
  inferInstanceAs (Decidable (Allowed _ _ _ _))

/-- The futures that wait, their packets, and what was returned. -/
structure Open (base : SeqNo) (u : Recorded S R CAP) : Prop where
  sound : u.Sound base
  inOrder : u.InOrder
  unanswered : Unanswered [] u.history u.shared.tasks
  pending : u.node.Pending base
  returned : ∀ chan, (some chan, .exchanged (.error .seqExClosed)) ∉ u.returned

/-- Nothing was sent and nobody waits. -/
theorem Open.start (interval : Int64) (base : SeqNo) :
    (new interval base : Recorded S R CAP).Open base where
  sound := Sound.start interval base
  inOrder := InOrder.start interval base
  unanswered := ⟨List.nodup_nil, fun _ hmem => absurd hmem List.not_mem_nil,
    fun _ hmem => absurd hmem List.not_mem_nil⟩
  pending := Node.Pending.start interval base
  returned _ := List.not_mem_nil

omit [NeZero CAP] in
/-- A oneshot in the list was sent with a packet. -/
theorem mem_channels {h : History (Sender S) (Receiver R)} {chan : ℕ} :
    chan ∈ channels h ↔
      ∃ (k : ℕ) (q : Packet (Sender S)), h.sent[k]? = some q ∧
        q.payload?.map Prod.fst = some chan := by
  rw [channels, List.mem_filterMap]
  constructor
  · rintro ⟨q, hmem, hchan⟩
    obtain ⟨k, hk⟩ := List.mem_iff_getElem?.mp hmem
    exact ⟨k, q, hk, hchan⟩
  · rintro ⟨k, q, hk, hchan⟩
    exact ⟨q, List.mem_of_getElem? hk, hchan⟩

/-- What is answered was sent. -/
theorem Sound.known (h : u.Sound base) (chan : ℕ) (value : Option (Mail R))
    (ha : Answers u.history chan value) : chan ∈ channels u.history := by
  cases value with
  | some mail =>
    obtain ⟨k, q, -, -, ⟨hq, hchan, -⟩, -⟩ := h.answer ha
    exact mem_channels.mpr ⟨k, q, hq, hchan⟩
  | none =>
    obtain ⟨k, q, -, ⟨hq, hchan, -⟩, -⟩ := h.ending ha
    exact mem_channels.mpr ⟨k, q, hq, hchan⟩

/-- A possible step leaves no future with an answer that came in. -/
theorem Open.next_unanswered (h : u.Open base) {op : Op S R} (hpos : u.Possible op) :
    Unanswered [] (u.next op).history (u.next op).shared.tasks := by
  obtain ⟨packets, hcustody⟩ := h.sound.custody
  by_cases hreceive : ∃ packet, op = .receive packet
  · obtain ⟨packet, rfl⟩ := hreceive
    refine Shared.receive_unanswered hcustody (fun value ha => ?_) h.unanswered packet
    exact (h.sound.routed.bounded _ (h.sound.known _ _ ha)).false
  have hother (packet : Packet R) : op ≠ .receive packet := fun heq => hreceive ⟨packet, heq⟩
  cases hquiet : Shared.quiet op with
  | true =>
    obtain ⟨hhistory, -, hports, -⟩ := Shared.next_quiet hquiet hpos u.history
    have hsame : (u.next op).history = u.history := hhistory
    rw [hsame]
    exact h.unanswered.sublist hports
  | false =>
    exact Shared.next_sending_unanswered h.sound.routed hcustody h.inOrder.lost h.sound.known
      h.unanswered hpos hquiet hother

/-- The packet of a future without an answer is pending. -/
theorem Open.waits (h : u.Open base) {task : Task S R} (hmem : task ∈ u.shared.tasks)
    (hun : task.isUnanswered = true) :
    ∃ k q, SentWith u.history task.chan k q ∧
      u.shared.inner.seq.pending (cell CAP (number base k)) = some q := by
  obtain ⟨k, q, hq, hchan⟩ := mem_channels.mp (h.unanswered.sent task hmem hun)
  have hwith := sentWith_of_nodup h.sound.routed.nodup hq hchan
  obtain ⟨acked, replied, hbooks, hcomplete⟩ := h.pending.books
  refine ⟨k, q, hwith, hcomplete.pending k q hq fun hback => ?_⟩
  -- what was handed back was an answer for this future
  have hsilent := h.unanswered.silent task hmem hun List.not_mem_nil
  have hsame {a : SeqNo × Sender S} (ha : SentAs base u.history.sent k a) :
      a.2.1 = task.chan := by
    obtain ⟨-, p, hp, hdata⟩ := ha
    rw [hq] at hp
    cases hp
    rw [hdata] at hchan
    exact Option.some_inj.mp hchan
  rcases List.mem_append.mp hback with hacked | hreplied
  · obtain ⟨a, ha, hsent⟩ := exists_left_of_forall₂ hbooks.acks.flip hacked
    refine hsilent none ⟨a.1, a.2.2, ?_⟩
    rw [← hsame hsent]
    exact ha
  · obtain ⟨a, ha, hsent⟩ := exists_left_of_forall₂ hbooks.replies.flip hreplied
    obtain ⟨⟨p, ok⟩, hdelivery, hpair⟩ := List.mem_filterMap.mp ha
    cases ok with
    | payload n b d => cases hpair
    | ack d => cases hpair
    | reply n b d w =>
      obtain ⟨m, rfl⟩ : ∃ m, p = .newWithData n (some m) b d := h.sound.matched _ hdelivery
      obtain rfl : (m, w) = a := by simpa [RecvOkRaw.paired?] using hpair
      refine hsilent (some ⟨n, b, d.2⟩) ⟨.newWithData n (some m) b d, d.1, w.2, ?_⟩
      rw [← hsame hsent]
      exact hdelivery

/-- Only a future that waits reports a closed endpoint, and its packet is pending. -/
theorem Open.next_returned (h : u.Open base) {op : Op S R} (hpos : u.Possible op) (chan : ℕ) :
    (some chan, .exchanged (.error .seqExClosed)) ∉ (u.next op).returned := by
  intro hmem
  rcases List.mem_append.mp hmem with hold | hnew
  · exact h.returned chan hold
  obtain ⟨hreturning, hclosed⟩ := Prod.mk.inj (List.mem_singleton.mp hnew)
  cases op with
  | resolve k =>
    obtain ⟨task, htask, -, hinbox⟩ := hpos
    obtain ⟨value, hinbox⟩ := Option.isSome_iff_exists.mp hinbox
    simp only [Shared.perform, Option.mem_def.mp htask, hinbox, Shared.complete] at hclosed
    unfold Task.returns at hclosed
    cases hstage : task.stage <;> cases value <;> rw [hstage] at hclosed <;> cases hclosed
  | closed k =>
    obtain ⟨task, htask, hwaits, hinbox, hnot⟩ := hpos
    have htask := Option.mem_def.mp htask
    simp only [Shared.perform, htask, Shared.complete] at hclosed
    have hexchanging : task.stage.isExchanging = true := by
      unfold Task.returnsClosed at hclosed
      cases hstage : task.stage with
      | enqueuing _ | exchanging => rfl
      | receiving =>
        rw [hstage] at hclosed
        cases hclosed
      | sending _ _ _ _ =>
        rw [hstage] at hwaits
        cases hwaits
    obtain ⟨k, q, ⟨-, hchan, -⟩, hpending⟩ := h.waits (List.mem_of_getElem? htask)
      ((Bool.and_eq_true _ _).mpr ⟨hexchanging, hinbox⟩)
    obtain ⟨e, he, rfl⟩ := Option.map_eq_some_iff.mp hpending
    refine hnot (holds_iff.mpr (.inl ⟨_, e, he, ?_⟩))
    simpa using hchan
  | _ => cases hreturning

/-- A possible step without a false exemption keeps the exchanges open. -/
theorem Open.next (hC : ∃ e, CAP = 2 ^ e) (htwo : 2 ≤ CAP) (h : u.Open base) {op : Op S R}
    (hpos : u.Possible op) (hexempt : u.NoFalseExemption op) : (u.next op).Open base where
  sound := h.sound.next hpos
  inOrder := h.inOrder.next h.sound hpos
  unanswered := h.next_unanswered hpos
  pending := by
    rw [u.next_node op]
    exact h.pending.performAll hC htwo hexempt
  returned := h.next_returned hpos

/-- In a run in which no packet is processed under a false exemption of `is_full_inner`,
the packet of every future of an exchange stays in the send window until its answer is
there, and no such future reports a closed endpoint. -/
theorem exchanges_stay_open (hC : ∃ e ≥ 2, CAP = 2 ^ e) {interval : Int64}
    (hreach : Reaches (fun (u : Recorded S R CAP) op => u.Possible op ∧ u.NoFalseExemption op) next
      (new interval base) u) :
    (∀ task ∈ u.shared.tasks, task.isUnanswered = true →
      ∃ k q, SentWith u.history task.chan k q ∧
        u.shared.inner.seq.pending (cell CAP (number base k)) = some q) ∧
      ∀ chan, (some chan, .exchanged (.error .seqExClosed)) ∉ u.returned := by
  obtain ⟨e, he, rfl⟩ := hC
  have htwo : 2 ≤ 2 ^ e := le_trans (by decide) (Nat.pow_le_pow_right (by decide) he)
  have h : u.Open base := hreach.invariant (Open.start interval base)
    fun _ _ _ h hop => h.next ⟨e, rfl⟩ htwo hop.1 hop.2
  exact ⟨fun _ hmem hun => h.waits hmem hun, h.returned⟩

/-- Two packets are sent. The second is replied to and a packet of the peer comes in,
while the first waits. -/
def answeredAround : List (Op ℕ ℕ) :=
  [.send 0 false fun _ => 70, .send 0 false fun _ => 71, .enqueue 0, .receive (.reply 0 1 80),
    .receive (.payload 1 81), .resolve 1, .dropReplyGuard ⟨1, false⟩]

/-- The exchange of the first packet stays open. -/
theorem exchanges_stay_open_answeredAround :
    (∀ task ∈ (answeredAround.foldl next (new 100 0 : Recorded ℕ ℕ 4)).shared.tasks,
      task.isUnanswered = true → ∃ k q,
        SentWith (answeredAround.foldl next (new 100 0 : Recorded ℕ ℕ 4)).history task.chan k q ∧
          (answeredAround.foldl next (new 100 0 : Recorded ℕ ℕ 4)).shared.inner.seq.pending
            (cell 4 (number 0 k)) = some q) ∧
      ∀ chan, (some chan, .exchanged (.error .seqExClosed)) ∉
        (answeredAround.foldl next (new 100 0 : Recorded ℕ ℕ 4)).returned :=
  exchanges_stay_open ⟨2, le_rfl, rfl⟩ (Allowed.reaches (l := answeredAround)
    (show Allowed (fun u op => u.Possible op ∧ u.NoFalseExemption op) next
      (new 100 0 : Recorded ℕ ℕ 4) _ by decide +kernel))

/-- Two packets name a number that was not sent yet, and the second of them is processed
under a false exemption. The replies to both take the last free cell and one that is
taken. -/
def pushedOut : List (Op ℕ ℕ) :=
  [.send 0 false fun _ => 70, .send 0 false fun _ => 71, .send 0 false fun _ => 72, .enqueue 0,
    .receive (.reply 0 4 80), .receive (.reply 1 4 81), .replyWith ⟨0, false⟩ 0 false fun _ _ => 73,
    .replyWith ⟨1, false⟩ 0 false fun _ _ => 74, .closed 0]

example : Allowed Possible next (new 100 0 : Recorded ℕ ℕ 4) pushedOut ∧
    (some 0, .exchanged (.error .seqExClosed)) ∈
      (pushedOut.foldl next (new 100 0 : Recorded ℕ ℕ 4)).returned := by decide +kernel

end Recorded

end SequentialExchange.Tokio
