import SequentialExchange.TokioHanding

/-!
# The values in each step

Most steps leave the oneshots alone or drop some. A step that sends opens a new one,
and a `receive` puts values into those that are there.
-/

namespace SequentialExchange.Tokio

open WrapNumbering GuardedRuns
open Sync (ReplyGuard)

variable {S R : Type*} {CAP : ℕ}

/-! ## Steps that neither send nor receive -/

/-- A future that waits elsewhere exchanges as before. -/
theorem Stage.isExchanging_waitAt (wait : Wait) (stage : Stage S) :
    (stage.waitAt wait).isExchanging = stage.isExchanging := by
  cases stage <;> rfl

/-- Who replies exchanges. -/
theorem Stage.isExchanging_ofUpdate (update : Option Int64) :
    (Stage.ofUpdate update : Stage S).isExchanging = true := by
  cases update <;> rfl

/-- A woken future has the same port. -/
theorem port_wake (task : Task S R) : task.wake.port = task.port := by
  unfold Task.port Task.wake Task.goTo
  rw [Stage.isReceiving_waitAt, Stage.isExchanging_waitAt]

/-- A notification changes no port. -/
theorem ports_notifyOne (choice : ℕ) (permit : Bool) (tasks : List (Task S R)) :
    (notifyOne choice permit tasks).2.map Task.port = tasks.map Task.port := by
  unfold notifyOne
  dsimp only
  split
  · exact map_modify_of_comp port_wake tasks _
  · rfl

/-- Nor does one to all waiters. -/
theorem ports_notifyWaiters (tasks : List (Task S R)) :
    (notifyWaiters tasks).map Task.port = tasks.map Task.port := by
  rw [notifyWaiters, List.map_map]
  refine List.map_congr_left fun task _ => ?_
  rw [Function.comp_apply]
  split
  · exact port_wake task
  · rfl

/-- Fewer ports hold fewer values. -/
theorem mails_sublist {tasks tasks' : List (Task S R)}
    (h : (tasks'.map Task.port).Sublist (tasks.map Task.port)) :
    (mails tasks').Sublist (mails tasks) := by
  have hmails (l : List (Task S R)) :
      mails l = (l.map Task.port).filterMap fun p => p.2.2.2.join := by
    rw [mails, List.filterMap_map]
    rfl
  rw [hmails, hmails]
  exact h.filterMap _

namespace Shared

variable {s s' : Shared S R CAP} {k : ℕ} {task : Task S R}

/-- A future that moves on within its kind has the same port. -/
theorem ports_moveTo (htask : s.tasks[k]? = some task) {stage : Stage S}
    (hreceiving : stage.isReceiving = task.stage.isReceiving)
    (hexchanging : stage.isExchanging = task.stage.isExchanging) :
    (s.moveTo k stage).tasks.map Task.port = s.tasks.map Task.port := by
  refine List.ext_getElem? fun i => ?_
  rw [List.getElem?_map, List.getElem?_map, moveTo, List.getElem?_modify]
  split
  · rename_i hi
    subst hi
    simp [htask, Task.port, Task.goTo, hreceiving, hexchanging]
  · cases s.tasks[i]? <;> rfl

/-- A step that neither sends nor receives. -/
def quiet : Op S R → Bool
  | .receive _ | .send .. | .resume .. | .replyWith .. => false
  | _ => true

variable [NeZero CAP]

/-- Such a step leaves the history and the stored packets alone, and the futures go on
or are gone. -/
theorem next_quiet {op : Op S R} (hop : quiet op = true) (hpos : s.Possible op)
    (h : History (Sender S) (Receiver R)) :
    recorded s.work h (s.innerCalls op) = h ∧
      (s.next op).inner.seq.recvWindow = s.inner.seq.recvWindow ∧
      ((s.next op).tasks.map Task.port).Sublist (s.tasks.map Task.port) ∧
      (s.next op).nextChan = s.nextChan := by
  have hremoved (k : ℕ) : ((s.tasks.eraseIdx k).map Task.port).Sublist (s.tasks.map Task.port) :=
    (List.eraseIdx_sublist ..).map _
  have hsame {tasks' : List (Task S R)} (htasks : tasks'.map Task.port = s.tasks.map Task.port) :
      (tasks'.map Task.port).Sublist (s.tasks.map Task.port) := by rw [htasks]
  cases op with
  | receive _ | send _ _ _ | resume _ _ | replyWith _ _ _ _ => cases hop
  | listen k =>
    obtain ⟨task, htask, -⟩ := hpos
    have hmove := ports_moveTo (Option.mem_def.mp htask) (s := s)
      (Stage.isReceiving_waitAt (.listening true) _) (Stage.isExchanging_waitAt (.listening true) _)
    have hmove' := ports_moveTo (Option.mem_def.mp htask) (s := s)
      (Stage.isReceiving_waitAt (.listening false) _)
      (Stage.isExchanging_waitAt (.listening false) _)
    simp only [next, perform, Option.mem_def.mp htask, listen]
    split
    · exact ⟨rfl, rfl, hsame hmove, rfl⟩
    · exact ⟨rfl, rfl, hsame hmove', rfl⟩
  | enqueue k =>
    simp only [next, perform]
    split
    · rename_i htask
      exact ⟨rfl, rfl, hsame (ports_moveTo htask rfl rfl), rfl⟩
    · exact ⟨rfl, rfl, .refl _, rfl⟩
  | resolve k =>
    simp only [next, perform]
    split
    · split
      · exact ⟨rfl, rfl, hremoved k, rfl⟩
      · exact ⟨rfl, rfl, .refl _, rfl⟩
    · exact ⟨rfl, rfl, .refl _, rfl⟩
  | closed k =>
    simp only [next, perform]
    split
    · exact ⟨rfl, rfl, hremoved k, rfl⟩
    · exact ⟨rfl, rfl, .refl _, rfl⟩
  | drop k choice =>
    simp only [next, perform]
    split
    · split
      · refine ⟨rfl, rfl, ?_, rfl⟩
        rw [callOne, ports_notifyOne]
        exact hremoved k
      · exact ⟨rfl, rfl, hremoved k, rfl⟩
    · exact ⟨rfl, rfl, .refl _, rfl⟩
  | notifyOne choice => exact ⟨rfl, rfl, hsame (ports_notifyOne ..), rfl⟩
  | notifyWaiters => exact ⟨rfl, rfl, hsame (ports_notifyWaiters _), rfl⟩
  | ack g =>
    refine ⟨rfl, ?_, .refl _, rfl⟩
    show (s.inner.ack g).inner.seq.recvWindow = _
    rw [(s.inner.ack_spec g).1]
    exact (ack_sendsOn ..).recv
  | unlock g =>
    refine ⟨?_, ?_, .refl _, rfl⟩
    · simp only [innerCalls]
      split <;> rfl
    · show (s.inner.unlock g).inner.seq.recvWindow = _
      rw [s.inner.unlock_seq]
      split <;> rfl
  | dropReplyGuard g => exact ⟨rfl, (ack_sendsOn ..).recv, .refl _, rfl⟩
  | toComponents g | fromComponents g => exact ⟨rfl, rfl, .refl _, rfl⟩
  | dropSeqCstGuard => exact ⟨rfl, rfl, .refl _, rfl⟩
  | takeUpdate t =>
    simp only [next, perform]
    split <;> exact ⟨rfl, rfl, .refl _, rfl⟩
  | service t => exact ⟨rfl, (service_sendsOn s.inner.seq t).recv, .refl _, rfl⟩

end Shared

/-! ## Steps that send -/

section Send

variable [NeZero CAP] {w : Work S R CAP} {bound : ℕ}

/-- A packet is sent with this oneshot, or none is. -/
inductive Records (h : History (Sender S) (Receiver R)) (chan : ℕ) :
    History (Sender S) (Receiver R) → Bool → Prop where
  /-- A packet is sent. -/
  | sent (p : Packet (Sender S)) (d : S) (hp : p.payload? = some (chan, d)) :
    Records h chan { h with sent := h.sent ++ [p] } true
  /-- No packet is sent. -/
  | nothing : Records h chan h false

/-- `send_with_inner` records the packet with its oneshot, if it is sent. -/
theorem sendWithInner_records (i : SeqExInner S R CAP) (tasks : List (Task S R))
    (h : History (Sender S) (Receiver R)) (t : Int64) (b : Bool) (chan : ℕ) (f : SeqNo → S) :
    Records h chan (recorded ⟨i.seq, tasks⟩ h [Shared.sendCall t b chan f])
      (Stage.ofSend b f (i.sendWithInner t b chan f).result).isExchanging := by
  simp only [recorded, Node.performAll, List.foldl_cons, List.foldl_nil, Node.perform,
    Shared.sendCall, SeqExInner.sendWithInner, SeqEx.call, SeqEx.trySendDirectWith]
  cases i.seq.isFullInner none with
  | ok _ =>
    dsimp only
    rw [Stage.ofSend, Stage.isExchanging_ofUpdate, SeqEx.insertEntry_packet]
    exact .sent _ (f i.seq.nextSendSeqNo) (by simp)
  | error e => cases e <;> exact .nothing

/-- So does a reply. -/
theorem reply_records (w : Work S R CAP) (h : History (Sender S) (Receiver R)) (t : Int64)
    (n : SeqNo) (u b : Bool) (data : Sender S) :
    ∃ sent, Records h data.1 (recorded w h [.reply t n u b data]) sent := by
  simp only [recorded, Node.performAll, List.foldl_cons, List.foldl_nil, Node.perform,
    SeqEx.call, SeqEx.replyRawAndDirect]
  rcases w.seq.removeReservation_cases n with ⟨l, -, hremove⟩ | ⟨-, hremove⟩
  · rw [hremove]
    simp only [if_true, SeqEx.insertEntry_packet]
    exact ⟨true, .sent _ data.2 (by simp)⟩
  · rw [hremove]
    exact ⟨false, .nothing⟩

omit [NeZero CAP] in
/-- The routes stay when a packet with a fresh oneshot is recorded. -/
theorem Routed.records {h h' : History (Sender S) (Receiver R)} {chan : ℕ} {sent : Bool}
    (hr : Routed bound h w) (hrec : Records h chan h' sent) (hlt : chan < bound)
    (hnew : chan ∉ channels h)
    (hown : sent = true → ∀ task ∈ w.tasks, task.chan = chan → task.stage.isExchanging = true) :
    Routed bound h' w := by
  cases hrec with
  | sent p d hp => exact hr.send hlt hnew (hown rfl) hp
  | nothing => exact hr

/-- A recorded packet is handed to nobody. -/
theorem Records.handedOver {h h' : History (Sender S) (Receiver R)} {chan : ℕ} {sent : Bool}
    (hrec : Records h chan h' sent) :
    h'.deliveries = h.deliveries ∧ h'.acks = h.acks := by
  cases hrec <;> exact ⟨rfl, rfl⟩

end Send

/-- The changed element, or another one. -/
theorem mem_modify {α : Type*} {l : List α} {k : ℕ} {a x : α} {f : α → α} (ha : l[k]? = some a)
    (hx : x ∈ l.modify k f) : x = f a ∨ ∃ j ≠ k, l[j]? = some x := by
  obtain ⟨j, hj⟩ := List.mem_iff_getElem?.mp hx
  rw [List.getElem?_modify] at hj
  obtain ⟨y, hy, rfl⟩ := Option.map_eq_some_iff.mp hj
  by_cases hjk : k = j
  · subst hjk
    rw [ha] at hy
    cases hy
    exact .inl (if_pos rfl)
  · rw [if_neg hjk]
    exact .inr ⟨j, Ne.symm hjk, hy⟩

namespace Shared

variable [NeZero CAP] {s : Shared S R CAP} {h : History (Sender S) (Receiver R)}
  {packets : ℕ → Option (Packet R)}

omit [NeZero CAP] in
/-- A section ends with a new future and, perhaps, a packet sent for it. -/
theorem enter_routed (hr : Routed s.nextChan h s.work)
    (hc : Custody packets s.nextChan s.work) {stage : Stage S} {s' : Shared S R CAP}
    (hrecv : s'.inner.seq.recvWindow = s.inner.seq.recvWindow)
    (htasks : s'.tasks = s.tasks ++ [⟨s.nextChan, stage, none⟩])
    (hnext : s'.nextChan = s.nextChan + 1) {h' : History (Sender S) (Receiver R)} {sent : Bool}
    (hrec : Records h s.nextChan h' sent) (hstage : sent = true → stage.isExchanging = true) :
    Routed s'.nextChan h' s'.work := by
  have hentered : Routed (s.nextChan + 1) h s'.work := by
    rw [work, htasks]
    exact (hr.enter stage).windows fun i n r b d hw => hrecv ▸ hw
  rw [hnext]
  refine hentered.records hrec (Nat.lt_succ_self _) (fun hin => (hr.bounded _ hin).false)
    fun hsent task hmem hchan => ?_
  rw [work, htasks] at hmem
  rcases List.mem_append.mp hmem with hmem | hmem
  · exact absurd hchan (hc.bounded task hmem).ne
  · rw [List.mem_singleton.mp hmem]
    exact hstage hsent

/-- Only a future that sends or receives goes out of the way of `next_quiet`. -/
theorem next_sending (hr : Routed s.nextChan h s.work) (hc : Custody packets s.nextChan s.work)
    {op : Op S R} (hpos : s.Possible op) (hop : quiet op = false)
    (hreceive : ∀ packet, op ≠ .receive packet) :
    Routed (s.next op).nextChan (recorded s.work h (s.innerCalls op)) (s.next op).work ∧
      (recorded s.work h (s.innerCalls op)).deliveries = h.deliveries ∧
      (recorded s.work h (s.innerCalls op)).acks = h.acks ∧
      mails (s.next op).tasks = mails s.tasks := by
  have hadded (stage : Stage S) : mails (s.tasks ++ [⟨s.nextChan, stage, none⟩]) =
      mails s.tasks := by
    simp [mails, List.filterMap_append]
  cases op with
  | receive packet => exact absurd rfl (hreceive packet)
  | send t b f =>
    have hrec := sendWithInner_records s.inner s.tasks h t b s.nextChan f
    obtain ⟨hdel, hacks⟩ := hrec.handedOver
    exact ⟨enter_routed hr hc (sendWithInner_sendsOn s.inner t b s.nextChan f).recv rfl rfl hrec id,
      hdel, hacks, hadded _⟩
  | replyWith g t b f =>
    obtain ⟨sent, hrec⟩ := reply_records s.work h t g.replyNo g.isHoldingLock b
      (s.nextChan, f s.inner.seq.nextSendSeqNo g.replyNo)
    obtain ⟨hdel, hacks⟩ := hrec.handedOver
    exact ⟨enter_routed hr hc (reply_sendsOn s.inner.seq t g.replyNo g.isHoldingLock b
      (s.nextChan, f s.inner.seq.nextSendSeqNo g.replyNo)).recv rfl rfl hrec fun _ =>
        Stage.isExchanging_ofUpdate _, hdel, hacks, hadded _⟩
  | resume k t =>
    obtain ⟨⟨chan, stage, inbox⟩, htask, on, hwoken⟩ := hpos.resume
    obtain ⟨b, f, hstage⟩ := Task.isWaiting_iff.mp hwoken
    obtain rfl : stage = .sending b f on (.listening true) := hstage
    have htask := Option.mem_def.mp htask
    have hmem := List.mem_of_getElem? htask
    have hrec := sendWithInner_records s.inner s.tasks h t b chan f
    obtain ⟨hdel, hacks⟩ := hrec.handedOver
    have hcalls : s.innerCalls (.resume k t) = [sendCall t b chan f] := by
      simp only [innerCalls, htask]
    have hnext : s.next (.resume k t) = (s.finish (s.inner.sendWithInner t b chan f)).moveTo k
        (.ofSend b f (s.inner.sendWithInner t b chan f).result) := by
      simp only [next, perform, htask]
    rw [hcalls, hnext]
    refine ⟨?_, hdel, hacks, ?_⟩
    · have hold : Routed s.nextChan h ((s.finish (s.inner.sendWithInner t b chan f)).moveTo k
          (.ofSend b f (s.inner.sendWithInner t b chan f).result)).work := by
        refine (hr.onward fun task' hmem' => ?_).windows fun i n r b' d hw =>
          (sendWithInner_sendsOn s.inner t b chan f).recv ▸ hw
        rcases mem_modify htask hmem' with rfl | ⟨j, -, hj⟩
        · exact ⟨_, hmem, rfl, (Stage.isReceiving_ofSend b f _).symm, rfl, fun _ => rfl⟩
        · exact ⟨task', List.mem_of_getElem? hj, rfl, rfl, rfl, id⟩
      refine hold.records hrec (hc.bounded _ hmem) (hr.unsent _ hmem rfl)
        fun hsent task' hmem' hchan => ?_
      rcases mem_modify htask hmem' with rfl | ⟨j, hjk, hj⟩
      · exact hsent
      · -- no other future has this oneshot
        have hlt : j < (s.tasks.map Task.chan).length := by
          simpa using (List.getElem?_eq_some_iff.mp hj).1
        have hsame : (s.tasks.map Task.chan)[j]? = (s.tasks.map Task.chan)[k]? := by
          rw [List.getElem?_map, List.getElem?_map, hj, htask, Option.map_some, Option.map_some,
            hchan]
        exact absurd ((List.getElem?_inj hlt hc.nodup).mp hsame) hjk
    · have hinbox (task : Task S R) : (task.goTo
          (.ofSend b f (s.inner.sendWithInner t b chan f).result)).inbox = task.inbox := rfl
      exact mails_congr (map_modify_of_comp hinbox s.tasks k)
  | _ => cases hop

end Shared

/-! ## A `receive` -/

namespace Shared

variable [NeZero CAP] {s : Shared S R CAP} {h : History (Sender S) (Receiver R)}
  {packets : ℕ → Option (Packet R)} {o : Multiset (Mail R)}

/-- A packet that is not handed over leaves no trace in the history. -/
theorem recorded_refused {i : SeqExInner S R CAP} {tasks : List (Task S R)} {fresh : ℕ}
    {packet : Packet R} {e : TryRawRecvError}
    (hres : (i.seq.tryReceiveRawAndDirect (fun data => (fresh, data)) packet).1 = .error e) :
    recorded ⟨i.seq, tasks⟩ h (i.receiveCalls tasks fresh packet) = h := by
  have hcall := SeqEx.receive_convert (fun data => (fresh, data)) i.seq packet
  have hcalls : i.receiveCalls tasks fresh packet =
      [.receive (packet.map fun data => (fresh, data))] := by
    simp only [SeqExInner.receiveCalls, hres]
  rw [hcalls]
  simp only [recorded, Node.performAll, List.foldl_cons, List.foldl_nil, Node.perform, hcall, hres]
  rfl

omit [NeZero CAP] in
/-- A stored packet gets the oneshot of a new future of `receive`. -/
theorem store_routed {w : Work S R CAP} {bound : ℕ} [NeZero CAP] (hr : Routed bound h w)
    (hc : Custody packets bound w) (n : SeqNo) (r : Option SeqNo) (b : Bool) (d : R) :
    Routed (bound + 1) h ⟨w.seq.setRecvEntry n (.occupied n r b (bound, d)),
      w.tasks ++ [⟨bound, .receiving, none⟩]⟩ := by
  have hentered := hr.enter (.receiving : Stage S)
  refine ⟨hentered.bounded, hentered.nodup, hentered.unsent, fun i n' r' b' chan d' hw => ?_,
    hentered.inbox⟩
  rw [SeqEx.setRecvEntry_recvWindow] at hw
  by_cases hi : i = cell CAP n
  · subst hi
    rw [Function.update_self] at hw
    cases hw
    refine ⟨Nat.lt_succ_self _, fun task hmem hchan => ?_⟩
    rcases List.mem_append.mp hmem with hmem | hmem
    · exact absurd hchan (hc.bounded task hmem).ne
    · rw [List.mem_singleton.mp hmem]
      rfl
  · rw [Function.update_of_ne hi] at hw
    exact hentered.stored i n' r' b' chan d' hw

/-- Whatever becomes of a received packet, values go to the futures they answer. -/
theorem receive_routed (hr : Routed s.nextChan h s.work) (hc : Custody packets s.nextChan s.work)
    (hd : Delivers o h s.tasks) (packet : Packet R) :
    Routed (s.receive packet).2.nextChan
        (recorded s.work h (s.inner.receiveCalls s.tasks s.nextChan packet))
        (s.receive packet).2.work ∧
      Delivers (((s.receive packet).1.mail?.toList : Multiset (Mail R)) + o)
        (recorded s.work h (s.inner.receiveCalls s.tasks s.nextChan packet))
        (s.receive packet).2.tasks ∧
      h.Hears (recorded s.work h (s.inner.receiveCalls s.tasks s.nextChan packet)) := by
  unfold receive
  dsimp only
  cases hres : (s.inner.seq.tryReceiveRawAndDirect (fun data => (s.nextChan, data)) packet).1 with
  | ok res =>
    obtain ⟨ok, doPump⟩ := res
    have hresult := SeqExInner.receiveInner_result s.tasks hres
    obtain ⟨hr', hd', hhears⟩ := Routed.receive hr hd hres rfl
    cases ok with
    | payload n b d =>
      rw [hresult]
      exact ⟨hr', hd', hhears⟩
    | reply n b d e =>
      rw [hresult]
      exact ⟨hr', hd', hhears⟩
    | ack e =>
      rw [hresult]
      exact ⟨hr', hd', hhears⟩
  | error e =>
    obtain ⟨htasks, -, -, hleft⟩ := SeqExInner.receiveInner_refused s.tasks hres
    have hhistory : recorded s.work h (s.inner.receiveCalls s.tasks s.nextChan packet) = h :=
      recorded_refused hres
    rw [hhistory]
    obtain ⟨e', hresult⟩ :
        ∃ e', (s.inner.receiveInner s.tasks s.nextChan packet).1.result = .error e' := by
      simp only [SeqExInner.receiveInner, hres]
      cases e <;> exact ⟨_, rfl⟩
    generalize s.inner.receiveInner s.tasks s.nextChan packet = p at htasks hleft hresult ⊢
    have hzero : (0 : Multiset (Mail R)) + o = o := zero_add o
    have hsuspended : mails (s.tasks ++ [⟨s.nextChan, .receiving, none⟩]) = mails s.tasks := by
      simp [mails, List.filterMap_append]
    rcases hleft with ⟨hseq, -⟩ | ⟨n, r, b, d, rfl, hdup, hseq, hwaits⟩
    · have hsame : Routed s.nextChan h ⟨p.1.inner.seq, p.2⟩ := by
        rw [hseq, htasks]
        exact hr
      have hkept : Delivers ((0 : Multiset (Mail R)) + o) h p.2 := by
        rw [hzero, htasks]
        exact hd
      rw [hresult]
      cases e' with
      | some e' => exact ⟨hsame, hkept, .refl h⟩
      | none =>
        dsimp only
        split
        · refine ⟨hsame.enter .receiving, ?_, .refl h⟩
          simp only [suspend, finish, htasks]
          show (0 : Multiset (Mail R)) + o + _ ≤ _
          rw [hzero, hsuspended]
          exact hd
        · exact ⟨hsame, hkept, .refl h⟩
    · have hcreated : p.1.inner.created s.nextChan (.newWithData n r b d) = true := by
        simp [SeqExInner.created, hseq]
      rw [hwaits]
      dsimp only
      rw [hcreated]
      refine ⟨?_, ?_, .refl h⟩
      · simp only [if_true, suspend, finish, work, htasks, hseq]
        exact store_routed hr hc n r b d
      · simp only [if_true, suspend, finish, htasks]
        show (0 : Multiset (Mail R)) + o + _ ≤ _
        rw [hzero, hsuspended]
        exact hd

end Shared

end SequentialExchange.Tokio
