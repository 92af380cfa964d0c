import SequentialExchange.TokioCalls

/-!
# Who owns a oneshot

A oneshot has two halves. A future waits at the one, and the other is kept with a
packet: with a stored packet for the future that received it, and with a packet in
the send window for the future that sent it. A future whose other half is gone
reports a closed endpoint. Two branches of a `receive` let go of the half of a
stored packet, and these are named here.
-/

namespace SequentialExchange.Tokio

open WrapNumbering GuardedRuns
open Sync (ReplyGuard)

variable {S R : Type*} {CAP : ℕ}

/-! ## The branches that let go of a oneshot -/

/-- A future of `receive`. -/
def Stage.isReceiving : Stage S → Bool
  | .receiving => true
  | _ => false

/-- A future of `receive` has this oneshot. -/
def receives (tasks : List (Task S R)) (chan : ℕ) : Bool :=
  tasks.any fun task => task.chan == chan && task.stage.isReceiving

/-- A future of `receive` still waits at this oneshot. -/
def awaited (tasks : List (Task S R)) (chan : ℕ) : Bool :=
  tasks.any fun task => task.awaits chan && task.stage.isReceiving

namespace Work

/-- A future waits for the packet that is stored in this cell. -/
def waitedAt (w : Work S R CAP) (i : Fin CAP) : Bool :=
  match w.seq.recvWindow i with
  | .occupied _ _ _ data => awaited w.tasks data.1
  | .unlocked _ | .empty => false

variable [NeZero CAP]

/-- `try_pump_raw` would pair the stored packet with what it replies to, and a future
of `receive` waits for it. -/
def Unseats (w : Work S R CAP) : Prop :=
  w.waitedAt (cell CAP w.seq.nextRecvSeqNo) = true ∧
    ∃ p ∈ w.seq.storedPacket?, w.seq.isFullInner p.replyNo? = .ok () ∧
      (p.isSeqCst = true → w.seq.isLocked = false) ∧
        ∃ r ∈ p.replyNo?, ∃ e ∈ w.seq.sendWindow (cell CAP r), e.seqNo = r

/-- The states in which the loop calls `try_pump_raw`. -/
def pumpStates : ℕ → Work S R CAP → List (Work S R CAP)
  | 0, _ => []
  | fuel + 1, w => w ::
    match w.seq.tryPumpRaw.1 with
    | .ok (data, true) => pumpStates fuel ({ w with seq := w.seq.tryPumpRaw.2 }.dispatch data)
    | .ok (_, false) | .error _ => []

end Work

namespace SeqExInner

variable [NeZero CAP]

/-- The packet is processed at once, and a future waits for a copy in its cell. -/
def Displaces (i : SeqExInner S R CAP) (tasks : List (Task S R)) (packet : Packet R) : Prop :=
  ∃ n ∈ packet.seqNo?, i.seq.InRange n ∧
    i.seq.mustWait n packet.replyNo? packet.isSeqCst = (false, false) ∧
      Work.waitedAt ⟨i.seq, tasks⟩ (cell CAP n) = true

/-- The states in which `receive_inner` calls `try_pump_raw`. -/
def pumpStates (i : SeqExInner S R CAP) (tasks : List (Task S R)) (fresh : ℕ)
    (packet : Packet R) : List (Work S R CAP) :=
  let r := i.seq.tryReceiveRawAndDirect (fun data => (fresh, data)) packet
  match r.1 with
  | .ok (_, true) => Work.pumpStates (CAP + 1) ⟨r.2, tasks⟩
  | .ok (_, false) | .error _ => []

end SeqExInner

/-- The section of a `receive` lets go of no oneshot at which a future waits. -/
def Shared.Spares [NeZero CAP] (s : Shared S R CAP) : Op S R → Prop
  | .receive packet => ¬ s.inner.Displaces s.tasks packet ∧
    ∀ w ∈ s.inner.pumpStates s.tasks s.nextChan packet, ¬ w.Unseats
  | _ => True

/-- The stored packet at the cursor and the futures are looked up. -/
instance Work.decidableUnseats [NeZero CAP] (w : Work S R CAP) : Decidable w.Unseats :=
  inferInstanceAs (Decidable (_ ∧ _))

/-- The cell of the packet and the futures are looked up. -/
instance SeqExInner.decidableDisplaces [NeZero CAP] (i : SeqExInner S R CAP)
    (tasks : List (Task S R)) (packet : Packet R) : Decidable (i.Displaces tasks packet) :=
  inferInstanceAs (Decidable (∃ n ∈ packet.seqNo?, _ ∧ _ = _ ∧ _ = _))

/-- The condition is read off the states of the step. -/
instance Shared.decidableSpares [NeZero CAP] (s : Shared S R CAP) : ∀ op, Decidable (s.Spares op)
  | .receive _ => inferInstanceAs (Decidable (_ ∧ _))
  | .send .. | .listen _ | .resume .. | .enqueue _ | .resolve _ | .closed _ | .drop ..
  | .notifyOne _ | .notifyWaiters | .replyWith .. | .ack _ | .unlock _ | .dropReplyGuard _
  | .toComponents _ | .fromComponents _ | .dropSeqCstGuard | .takeUpdate _ | .service _ =>
    isTrue trivial

/-! ## Who owns a oneshot -/

/-- The oneshot of a packet in the send window. -/
def SentOn (q : SeqEx (Sender S) (Receiver R) CAP) (chan : ℕ) : Prop :=
  ∃ i e, q.sendWindow i = some e ∧ e.data.1 = chan

/-- The oneshot of a packet that is stored. -/
def StoredOn (q : SeqEx (Sender S) (Receiver R) CAP) (chan : ℕ) : Prop :=
  ∃ i n r b d, q.recvWindow i = .occupied n r b (chan, d)

/-- What is sent with a packet is sent with what became of it. -/
theorem SentOn.of_pending {q q' : SeqEx (Sender S) (Receiver R) CAP} {chan : ℕ}
    (h : SentOn q' chan) (hsub : ∀ i p, q'.pending i = some p → q.pending i = some p) :
    SentOn q chan := by
  obtain ⟨i, e', he', hchan⟩ := h
  obtain ⟨e, he, hpacket⟩ : ∃ e, q.sendWindow i = some e ∧ e.toPacket = e'.toPacket :=
    Option.map_eq_some_iff.mp (hsub i e'.toPacket (by rw [SeqEx.pending, he', Option.map_some]))
  have hdata : e.data = e'.data := by
    have := congrArg Packet.payload? hpacket
    simpa using this
  exact ⟨i, e, he, hdata ▸ hchan⟩

/-- What of a future matters here. -/
def Task.view (task : Task S R) : ℕ × Bool × Option (Option (Mail R)) :=
  (task.chan, task.stage.isReceiving, task.inbox)

/-- Oneshots are numbered below `bound`, each belongs to one future and to one window,
and one of `receive` belongs to the packet that is noted for it. -/
structure Custody (packets : ℕ → Option (Packet R)) (bound : ℕ) (w : Work S R CAP) : Prop where
  nodup : (w.tasks.map Task.chan).Nodup
  bounded : ∀ task ∈ w.tasks, task.chan < bound
  sent : ∀ chan, SentOn w.seq chan → chan < bound ∧ receives w.tasks chan = false
  stored : ∀ i n r b chan d, w.seq.recvWindow i = .occupied n r b (chan, d) →
    chan < bound ∧ packets chan = some (.newWithData n r b d)
  once : ∀ i j n r b n' r' b' chan d d', w.seq.recvWindow i = .occupied n r b (chan, d) →
    w.seq.recvWindow j = .occupied n' r' b' (chan, d') → i = j
  mail : ∀ task ∈ w.tasks, task.stage.isReceiving = true →
    ∃ n r b d, packets task.chan = some (.newWithData n r b d) ∧
      ∀ value ∈ task.inbox, value = some ⟨n, b, d⟩

/-- The packet of a future of `receive` that still waits is stored. -/
def Kept (w : Work S R CAP) : Prop := ∀ chan, awaited w.tasks chan = true → StoredOn w.seq chan

/-- Some future of `receive` has this oneshot. -/
theorem receives_iff {tasks : List (Task S R)} {chan : ℕ} :
    receives tasks chan = true ↔
      ∃ task ∈ tasks, task.chan = chan ∧ task.stage.isReceiving = true := by
  simp [receives]

/-- And nothing was sent through it. -/
theorem awaited_iff {tasks : List (Task S R)} {chan : ℕ} :
    awaited tasks chan = true ↔
      ∃ task ∈ tasks, task.chan = chan ∧ task.inbox = none ∧ task.stage.isReceiving = true := by
  simp [awaited, Task.awaits, and_assoc]

/-- Who waits for a packet receives. -/
theorem receives_of_awaited {tasks : List (Task S R)} {chan : ℕ} (h : awaited tasks chan = true) :
    receives tasks chan = true := by
  obtain ⟨task, hmem, hchan, -, hreceiving⟩ := awaited_iff.mp h
  exact receives_iff.mpr ⟨task, hmem, hchan, hreceiving⟩

/-- The packet in the cell and the future that waits for it. -/
theorem Work.waitedAt_iff {w : Work S R CAP} {i : Fin CAP} :
    w.waitedAt i = true ↔
      ∃ n r b chan d, w.seq.recvWindow i = .occupied n r b (chan, d) ∧
        awaited w.tasks chan = true := by
  unfold waitedAt
  cases w.seq.recvWindow i with
  | occupied n r b data =>
    constructor
    · exact fun h => ⟨n, r, b, data.1, data.2, rfl, h⟩
    · rintro ⟨n', r', b', chan, d, hw, h⟩
      cases hw
      exact h
  | unlocked n => simp
  | empty => simp

/-! ## Futures that go on, return or are dropped -/

/-- Every future was there before, as far as its view goes. -/
theorem exists_view {tasks tasks' : List (Task S R)}
    (h : (tasks'.map Task.view).Sublist (tasks.map Task.view)) {task' : Task S R}
    (hmem : task' ∈ tasks') : ∃ task ∈ tasks, task.view = task'.view :=
  List.mem_map.mp (h.subset (List.mem_map_of_mem hmem))

/-- Fewer futures wait for fewer packets. -/
theorem awaited_of_sublist {tasks tasks' : List (Task S R)}
    (h : (tasks'.map Task.view).Sublist (tasks.map Task.view)) {chan : ℕ}
    (hawaited : awaited tasks' chan = true) : awaited tasks chan = true := by
  obtain ⟨task', hmem', hchan, hinbox, hreceiving⟩ := awaited_iff.mp hawaited
  obtain ⟨task, hmem, hview⟩ := exists_view h hmem'
  obtain ⟨h1, h2, h3⟩ := by simpa only [Task.view, Prod.mk.injEq] using hview
  exact awaited_iff.mpr ⟨task, hmem, h1.trans hchan, h3.trans hinbox, h2.trans hreceiving⟩

/-- Fewer futures receive fewer packets. -/
theorem receives_of_sublist {tasks tasks' : List (Task S R)}
    (h : (tasks'.map Task.view).Sublist (tasks.map Task.view)) {chan : ℕ}
    (hreceives : receives tasks' chan = true) : receives tasks chan = true := by
  obtain ⟨task', hmem', hchan, hreceiving⟩ := receives_iff.mp hreceives
  obtain ⟨task, hmem, hview⟩ := exists_view h hmem'
  obtain ⟨h1, h2, -⟩ := by simpa only [Task.view, Prod.mk.injEq] using hview
  exact receives_iff.mpr ⟨task, hmem, h1.trans hchan, h2.trans hreceiving⟩

variable {packets : ℕ → Option (Packet R)} {bound : ℕ} {w w' : Work S R CAP}

/-- Futures go on to another stage or are gone. -/
theorem Custody.sublist (h : Custody packets bound w) {tasks : List (Task S R)}
    (htasks : (tasks.map Task.view).Sublist (w.tasks.map Task.view)) :
    Custody packets bound ⟨w.seq, tasks⟩ where
  nodup := by
    have hchans : (tasks.map Task.chan).Sublist (w.tasks.map Task.chan) := by
      simpa only [List.map_map, Function.comp_def, Task.view] using htasks.map Prod.fst
    exact hchans.nodup h.nodup
  bounded task' hmem' := by
    obtain ⟨task, hmem, hview⟩ := exists_view htasks hmem'
    have hchan : task.chan = task'.chan := congrArg Prod.fst hview
    exact hchan ▸ h.bounded task hmem
  sent chan hchan := by
    obtain ⟨hlt, hnot⟩ := h.sent chan hchan
    refine ⟨hlt, eq_false_of_ne_true fun hreceives => ?_⟩
    rw [receives_of_sublist htasks hreceives] at hnot
    cases hnot
  stored := h.stored
  once := h.once
  mail task' hmem' hreceiving := by
    obtain ⟨task, hmem, hview⟩ := exists_view htasks hmem'
    obtain ⟨h1, h2, h3⟩ := by simpa only [Task.view, Prod.mk.injEq] using hview
    rw [← h1, ← h3]
    exact h.mail task hmem (h2.trans hreceiving)

/-- Packets are sent for futures that do not receive, and none is stored. -/
theorem Custody.windows (h : Custody packets bound w) {q : SeqEx (Sender S) (Receiver R) CAP}
    (hsent : ∀ chan, SentOn q chan → chan < bound ∧ receives w.tasks chan = false)
    (hstored : ∀ i n r b d, q.recvWindow i = .occupied n r b d →
      w.seq.recvWindow i = .occupied n r b d) : Custody packets bound ⟨q, w.tasks⟩ where
  nodup := h.nodup
  bounded := h.bounded
  sent := hsent
  stored i n r b c d hw := h.stored i n r b c d (hstored _ _ _ _ _ hw)
  once i j n r b n' r' b' c d d' hw hw' :=
    h.once i j n r b n' r' b' c d d' (hstored _ _ _ _ _ hw) (hstored _ _ _ _ _ hw')
  mail := h.mail

/-- The packets stay kept when futures go. -/
theorem Kept.sublist (h : Kept w) (hrecv : w'.seq.recvWindow = w.seq.recvWindow)
    (htasks : (w'.tasks.map Task.view).Sublist (w.tasks.map Task.view)) : Kept w' :=
  fun chan hawaited => by
    rw [StoredOn, hrecv]
    exact h chan (awaited_of_sublist htasks hawaited)

/-- A packet is noted for a oneshot that does not exist yet. -/
theorem Custody.note (h : Custody packets bound w) (packet : Option (Packet R)) :
    Custody (Function.update packets bound packet) bound w where
  nodup := h.nodup
  bounded := h.bounded
  sent := h.sent
  stored i n r b chan d hw := by
    obtain ⟨hlt, hpacket⟩ := h.stored i n r b chan d hw
    exact ⟨hlt, by rwa [Function.update_of_ne hlt.ne]⟩
  once := h.once
  mail task hmem hreceiving := by
    rw [Function.update_of_ne (h.bounded task hmem).ne]
    exact h.mail task hmem hreceiving

/-- A future gets a new oneshot. -/
theorem Custody.enter (h : Custody packets bound w) {stage : Stage S}
    (hstage : stage.isReceiving = true →
      ∃ n r b d, packets bound = some (.newWithData n r b d)) :
    Custody packets (bound + 1) ⟨w.seq, w.tasks ++ [⟨bound, stage, none⟩]⟩ where
  nodup := by
    rw [List.map_append, List.map_singleton, List.nodup_append]
    refine ⟨h.nodup, List.nodup_singleton _, ?_⟩
    rintro chan hchan _ hbound rfl
    obtain ⟨task, hmem, rfl⟩ := List.mem_map.mp hchan
    exact (h.bounded task hmem).ne (List.mem_singleton.mp hbound)
  bounded task hmem := by
    rcases List.mem_append.mp hmem with hmem | hmem
    · exact (h.bounded task hmem).trans (Nat.lt_succ_self _)
    · rw [List.mem_singleton.mp hmem]
      exact Nat.lt_succ_self _
  sent chan hchan := by
    obtain ⟨hlt, hnot⟩ := h.sent chan hchan
    refine ⟨hlt.trans (Nat.lt_succ_self _), ?_⟩
    rw [receives, List.any_append, ← receives, hnot]
    simp [hlt.ne']
  stored i n r b chan d hw := (h.stored i n r b chan d hw).imp_left fun hlt =>
    hlt.trans (Nat.lt_succ_self _)
  once := h.once
  mail task hmem hreceiving := by
    rcases List.mem_append.mp hmem with hmem | hmem
    · exact h.mail task hmem hreceiving
    · rw [List.mem_singleton.mp hmem] at hreceiving ⊢
      obtain ⟨n, r, b, d, hpacket⟩ := hstage hreceiving
      exact ⟨n, r, b, d, hpacket, nofun⟩

/-! ## Values that are sent -/

/-- The futures after `oneshot::Sender::send`, whether it fails or not. -/
def posted (chan : ℕ) (value : Option (Mail R)) (tasks : List (Task S R)) : List (Task S R) :=
  (post chan value tasks).getD tasks

/-- Handing over a value posts it. -/
theorem hand_tasks (w : Work S R CAP) [NeZero CAP] (chan : ℕ) (mail : Mail R) :
    (w.hand chan mail).tasks = posted chan (some mail) w.tasks := by
  unfold Work.hand posted
  cases post chan (some mail) w.tasks <;> rfl

/-- Posting changes nothing but the inbox. -/
theorem map_posted {β : Type*} {f : Task S R → β}
    (hf : ∀ task inbox, f { task with inbox } = f task) (chan : ℕ) (value : Option (Mail R))
    (tasks : List (Task S R)) :
    (posted chan value tasks).map f = tasks.map f := by
  unfold posted
  rcases post_cases chan value tasks with ⟨-, hpost⟩ | ⟨xs, stage, ys, rfl, hpost⟩
  · rw [hpost, Option.getD_none]
  · rw [hpost, Option.getD_some, List.map_append, List.map_append, List.map_cons, List.map_cons]
    rw [hf ⟨chan, stage, none⟩ (some value)]

/-- Posting changes nobody's stage. -/
theorem receives_posted (chan : ℕ) (value : Option (Mail R)) (tasks : List (Task S R)) (c : ℕ) :
    receives (posted chan value tasks) c = receives tasks c := by
  have hany (l : List (Task S R)) : receives l c =
      (l.map fun task => task.chan == c && task.stage.isReceiving).any id := by
    simp [receives, List.any_map]
  rw [hany, hany, map_posted fun _ _ => rfl]

/-- A value ends the waiting at its oneshot and no other. -/
theorem awaited_posted {tasks : List (Task S R)} (h : (tasks.map Task.chan).Nodup) (chan : ℕ)
    (value : Option (Mail R)) (c : ℕ) :
    awaited (posted chan value tasks) c = true ↔ awaited tasks c = true ∧ c ≠ chan := by
  unfold posted
  rcases post_cases chan value tasks with ⟨hnone, hpost⟩ | ⟨xs, stage, ys, rfl, hpost⟩
  · rw [hpost, Option.getD_none]
    refine ⟨fun hc => ⟨hc, ?_⟩, And.left⟩
    rintro rfl
    obtain ⟨task, hmem, hawaits⟩ := List.any_eq_true.mp hc
    rw [hnone task hmem] at hawaits
    cases hawaits
  · rw [hpost, Option.getD_some, awaited_iff, awaited_iff]
    rw [List.map_append, List.map_cons, List.nodup_append] at h
    obtain ⟨-, hys, hdisjoint⟩ := h
    constructor
    · rintro ⟨task, hmem, rfl, hinbox, hreceiving⟩
      rcases List.mem_append.mp hmem with hxs | hmem
      · exact ⟨⟨task, List.mem_append_left _ hxs, rfl, hinbox, hreceiving⟩,
          hdisjoint _ (List.mem_map_of_mem hxs) _ List.mem_cons_self⟩
      · rcases List.mem_cons.mp hmem with rfl | hys'
        · cases hinbox
        · refine ⟨⟨task, List.mem_append_right _ (List.mem_cons_of_mem _ hys'), rfl, hinbox,
            hreceiving⟩, fun heq => ?_⟩
          have hagain : task.chan ∈ ys.map Task.chan := List.mem_map_of_mem hys'
          rw [heq] at hagain
          exact (List.nodup_cons.mp hys).1 hagain
    · rintro ⟨⟨task, hmem, rfl, hinbox, hreceiving⟩, hne⟩
      refine ⟨task, ?_, rfl, hinbox, hreceiving⟩
      rcases List.mem_append.mp hmem with hxs | hmem
      · exact List.mem_append_left _ hxs
      · rcases List.mem_cons.mp hmem with rfl | hys'
        · exact absurd rfl hne
        · exact List.mem_append_right _ (List.mem_cons_of_mem _ hys')

/-- A future of `receive` is sent its own packet or nothing. -/
theorem Custody.post (h : Custody packets bound w) {chan : ℕ} {value : Option (Mail R)}
    (hvalue : receives w.tasks chan = true →
      ∃ n r b d, packets chan = some (.newWithData n r b d) ∧ value = some ⟨n, b, d⟩) :
    Custody packets bound ⟨w.seq, posted chan value w.tasks⟩ where
  nodup := by
    rw [map_posted fun _ _ => rfl]
    exact h.nodup
  bounded task hmem := by
    have hchan : task.chan ∈ w.tasks.map Task.chan := by
      rw [← map_posted (fun _ _ => rfl) chan value]
      exact List.mem_map_of_mem hmem
    obtain ⟨task', hmem', heq⟩ := List.mem_map.mp hchan
    exact heq ▸ h.bounded task' hmem'
  sent c hc := by
    rw [receives_posted]
    exact h.sent c hc
  stored := h.stored
  once := h.once
  mail task hmem hreceiving := by
    rw [posted] at hmem
    rcases post_cases chan value w.tasks with ⟨-, hpost⟩ | ⟨xs, stage, ys, hsplit, hpost⟩
    · rw [hpost, Option.getD_none] at hmem
      exact h.mail task hmem hreceiving
    · rw [hpost, Option.getD_some] at hmem
      have hother (hmem' : task ∈ xs ++ ys) : task ∈ w.tasks := by
        rw [hsplit]
        exact (List.mem_append.mp hmem').elim (List.mem_append_left _) fun hys =>
          List.mem_append_right _ (List.mem_cons_of_mem _ hys)
      rcases List.mem_append.mp hmem with hxs | hmem
      · exact h.mail task (hother (List.mem_append_left _ hxs)) hreceiving
      · rcases List.mem_cons.mp hmem with rfl | hys
        · obtain ⟨n, r, b, d, hpacket, rfl⟩ := hvalue (receives_iff.mpr
            ⟨⟨chan, stage, none⟩, by simp [hsplit], rfl, hreceiving⟩)
          exact ⟨n, r, b, d, hpacket, by simp⟩
        · exact h.mail task (hother (List.mem_append_right _ hys)) hreceiving

/-- A value for a future that does not receive. -/
theorem Custody.post_other (h : Custody packets bound w) {chan : ℕ}
    (hnot : receives w.tasks chan = false) (value : Option (Mail R)) :
    Custody packets bound ⟨w.seq, posted chan value w.tasks⟩ ∧
      ∀ c, awaited (posted chan value w.tasks) c = true ↔ awaited w.tasks c = true := by
  refine ⟨h.post fun hreceives => ?_, fun c => ?_⟩
  · rw [hnot] at hreceives
    cases hreceives
  · rw [awaited_posted h.nodup, and_iff_left_iff_imp]
    rintro hc rfl
    rw [receives_of_awaited hc] at hnot
    cases hnot

end SequentialExchange.Tokio
