import SequentialExchange.TokioTraces

/-!
# Where the values go

Every packet that was sent carries a oneshot of its own, and a future of an exchange
waits at it until an answer to that packet is put in. The values that are under way,
in oneshots or handed to a future, are among those that were handed over.
-/

namespace SequentialExchange.Tokio

open WrapNumbering GuardedRuns
open Sync (ReplyGuard)

variable {S R : Type*} {CAP : ℕ}

/-! ## The oneshots of the packets sent -/

/-- The oneshots that were sent, with the packets in front of them. -/
def channels (h : History (Sender S) (Receiver R)) : List ℕ :=
  h.sent.filterMap fun p => p.payload?.map Prod.fst

/-- The value that a reply or an acknowledgement has for the future of this oneshot. -/
def Answers (h : History (Sender S) (Receiver R)) (chan : ℕ) : Option (Mail R) → Prop
  | some mail => ∃ p c w,
    (p, RecvOkRaw.reply mail.replyNo mail.locked (c, mail.data) (chan, w)) ∈ h.deliveries
  | none => ∃ n w, (n, (chan, w)) ∈ h.acks

section Hears

variable {h h' : History (Sender S) (Receiver R)}

/-- An answer stays one when more is taken in. -/
theorem Answers.hears {chan : ℕ} {value : Option (Mail R)} (ha : Answers h chan value)
    (hh : h.Hears h') : Answers h' chan value := by
  cases value with
  | some mail =>
    obtain ⟨p, c, w, hmem⟩ := ha
    exact ⟨p, c, w, hh.deliveries _ hmem⟩
  | none =>
    obtain ⟨n, w, hmem⟩ := ha
    exact ⟨n, w, hh.acks _ hmem⟩

/-- Taking in sends no oneshot. -/
theorem channels_hears (hh : h.Hears h') : channels h' = channels h := by
  rw [channels, hh.sent, channels]

end Hears

/-- The packet of the future is sent, or was meant to be. -/
def Stage.isExchanging : Stage S → Bool
  | .enqueuing _ | .exchanging => true
  | .receiving | .sending .. => false

/-- Each packet is sent with a oneshot of its own, which no future has that did not send
it. A stored packet has the oneshot of a `receive`, and a value for any other future
is the answer to its packet. -/
structure Routed (bound : ℕ) (h : History (Sender S) (Receiver R)) (w : Work S R CAP) : Prop where
  bounded : ∀ chan ∈ channels h, chan < bound
  nodup : (channels h).Nodup
  unsent : ∀ task ∈ w.tasks, task.stage.isExchanging = false → task.chan ∉ channels h
  stored : ∀ i n r b chan d, w.seq.recvWindow i = .occupied n r b (chan, d) →
    chan < bound ∧ ∀ task ∈ w.tasks, task.chan = chan → task.stage.isReceiving = true
  inbox : ∀ task ∈ w.tasks, task.stage.isReceiving = false →
    ∀ value ∈ task.inbox, Answers h task.chan value

/-- What of a future matters here. -/
def Task.port (task : Task S R) : ℕ × Bool × Bool × Option (Option (Mail R)) :=
  (task.chan, task.stage.isReceiving, task.stage.isExchanging, task.inbox)

namespace Routed

variable {bound : ℕ} {h h' : History (Sender S) (Receiver R)} {w : Work S R CAP}
  {q : SeqEx (Sender S) (Receiver R) CAP} {tasks : List (Task S R)}

/-- The routes stay when more is taken in. -/
theorem hears (hr : Routed bound h w) (hh : h.Hears h') : Routed bound h' w := by
  have hchannels := channels_hears hh
  refine ⟨?_, ?_, ?_, hr.stored, fun task hmem hreceiving value hvalue => ?_⟩
  · rw [hchannels]
    exact hr.bounded
  · rw [hchannels]
    exact hr.nodup
  · rw [hchannels]
    exact hr.unsent
  · exact (hr.inbox task hmem hreceiving value hvalue).hears hh

/-- No packet is stored. -/
theorem windows (hr : Routed bound h w)
    (hstored : ∀ i n r b d, q.recvWindow i = .occupied n r b d →
      w.seq.recvWindow i = .occupied n r b d) : Routed bound h ⟨q, w.tasks⟩ where
  bounded := hr.bounded
  nodup := hr.nodup
  unsent := hr.unsent
  stored i n r b chan d hw := hr.stored i n r b chan d (hstored i n r b _ hw)
  inbox := hr.inbox

/-- Futures go on or are gone. -/
theorem onward (hr : Routed bound h w)
    (htasks : ∀ task' ∈ tasks, ∃ task ∈ w.tasks, task.chan = task'.chan ∧
      task.stage.isReceiving = task'.stage.isReceiving ∧ task.inbox = task'.inbox ∧
      (task'.stage.isExchanging = false → task.stage.isExchanging = false)) :
    Routed bound h ⟨w.seq, tasks⟩ := by
  refine ⟨hr.bounded, hr.nodup, fun task' hmem hex => ?_, fun i n r b chan d hw =>
    ⟨(hr.stored i n r b chan d hw).1, fun task' hmem hchan => ?_⟩,
    fun task' hmem hreceiving value hvalue => ?_⟩
  · obtain ⟨task, htask, hchan, -, -, hstage⟩ := htasks task' hmem
    exact hchan ▸ hr.unsent task htask (hstage hex)
  · obtain ⟨task, htask, hsame, hreceiving, -⟩ := htasks task' hmem
    exact hreceiving.symm.trans
      ((hr.stored i n r b chan d hw).2 task htask (hsame.trans hchan))
  · obtain ⟨task, htask, hchan, hsame, hinbox, -⟩ := htasks task' hmem
    exact hchan ▸ hr.inbox task htask (hsame.trans hreceiving) value (by rw [hinbox]; exact hvalue)

/-- They stay when futures go. -/
theorem sublist (hr : Routed bound h w)
    (htasks : (tasks.map Task.port).Sublist (w.tasks.map Task.port)) :
    Routed bound h ⟨w.seq, tasks⟩ := by
  refine hr.onward fun task' hmem => ?_
  obtain ⟨task, htask, hport⟩ := List.mem_map.mp (htasks.subset (List.mem_map_of_mem hmem))
  obtain ⟨hchan, hreceiving, hexchanging, hinbox⟩ := by
    simpa only [Task.port, Prod.mk.injEq] using hport
  exact ⟨task, htask, hchan, hreceiving, hinbox, hexchanging.trans⟩

/-- A future gets a new oneshot. -/
theorem enter (hr : Routed bound h w) (stage : Stage S) :
    Routed (bound + 1) h ⟨w.seq, w.tasks ++ [⟨bound, stage, none⟩]⟩ where
  bounded chan hchan := (hr.bounded chan hchan).trans (Nat.lt_succ_self _)
  nodup := hr.nodup
  unsent task hmem hex := by
    rcases List.mem_append.mp hmem with hmem | hmem
    · exact hr.unsent task hmem hex
    · rw [List.mem_singleton.mp hmem]
      exact fun hin => (hr.bounded bound hin).false
  stored i n r b chan d hw := by
    obtain ⟨hlt, hown⟩ := hr.stored i n r b chan d hw
    refine ⟨hlt.trans (Nat.lt_succ_self _), fun task hmem hchan => ?_⟩
    rcases List.mem_append.mp hmem with hmem | hmem
    · exact hown task hmem hchan
    · rw [List.mem_singleton.mp hmem] at hchan
      exact absurd hchan hlt.ne'
  inbox task hmem hreceiving value hvalue := by
    rcases List.mem_append.mp hmem with hmem | hmem
    · exact hr.inbox task hmem hreceiving value hvalue
    · rw [List.mem_singleton.mp hmem] at hvalue
      cases hvalue

/-- A packet is sent with a oneshot that no packet was sent with. -/
theorem send (hr : Routed bound h w) {chan : ℕ} (hlt : chan < bound) (hnew : chan ∉ channels h)
    (hown : ∀ task ∈ w.tasks, task.chan = chan → task.stage.isExchanging = true)
    {p : Packet (Sender S)} {d : S} (hp : p.payload? = some (chan, d)) :
    Routed bound { h with sent := h.sent ++ [p] } w := by
  have hchannels : channels { h with sent := h.sent ++ [p] } =
      channels h ++ [chan] := by
    simp [channels, hp]
  refine ⟨?_, ?_, fun task hmem hex => ?_, hr.stored, fun task hmem hreceiving value hvalue => ?_⟩
  · rw [hchannels]
    intro c hc
    rcases List.mem_append.mp hc with hc | hc
    · exact hr.bounded c hc
    · rwa [List.mem_singleton.mp hc]
  · rw [hchannels]
    exact List.nodup_append.mpr ⟨hr.nodup, List.nodup_singleton _, fun c hc c' hc' heq =>
      hnew (List.mem_singleton.mp hc' ▸ heq ▸ hc)⟩
  · rw [hchannels, List.mem_append, List.mem_singleton, not_or]
    refine ⟨hr.unsent task hmem hex, fun hchan => ?_⟩
    rw [hown task hmem hchan] at hex
    cases hex
  · have ha := hr.inbox task hmem hreceiving value hvalue
    cases value with
    | some mail => exact ha
    | none => exact ha

end Routed

/-- A future after posting, and before. -/
theorem mem_posted {chan : ℕ} {value : Option (Mail R)} {tasks : List (Task S R)} {task : Task S R}
    (h : task ∈ posted chan value tasks) :
    task ∈ tasks ∨ ∃ stage, ⟨chan, stage, none⟩ ∈ tasks ∧ task = ⟨chan, stage, some value⟩ := by
  unfold posted at h
  rcases post_cases chan value tasks with ⟨-, hpost⟩ | ⟨xs, stage, ys, rfl, hpost⟩
  · rw [hpost] at h
    exact .inl h
  · rw [hpost, Option.getD_some] at h
    rcases List.mem_append.mp h with hxs | h
    · exact .inl (List.mem_append_left _ hxs)
    · rcases List.mem_cons.mp h with rfl | hys
      · exact .inr ⟨stage, List.mem_append_right _ List.mem_cons_self, rfl⟩
      · exact .inl (List.mem_append_right _ (List.mem_cons_of_mem _ hys))

/-- A value for a future that does not receive has to be the answer to its packet. -/
theorem Routed.post {bound : ℕ} {h : History (Sender S) (Receiver R)} {w : Work S R CAP}
    (hr : Routed bound h w) {chan : ℕ} {value : Option (Mail R)}
    (hvalue : ∀ task ∈ w.tasks, task.chan = chan → task.stage.isReceiving = false →
      Answers h chan value) :
    Routed bound h ⟨w.seq, posted chan value w.tasks⟩ where
  bounded := hr.bounded
  nodup := hr.nodup
  unsent task hmem hex := by
    rcases mem_posted hmem with hold | ⟨stage, hold, rfl⟩
    · exact hr.unsent task hold hex
    · exact hr.unsent ⟨chan, stage, none⟩ hold hex
  stored i n r b c d hw := by
    obtain ⟨hlt, hown⟩ := hr.stored i n r b c d hw
    refine ⟨hlt, fun task hmem hchan => ?_⟩
    rcases mem_posted hmem with hold | ⟨stage, hold, rfl⟩
    · exact hown task hold hchan
    · exact hown ⟨chan, stage, none⟩ hold hchan
  inbox task hmem hreceiving value' hvalue' := by
    rcases mem_posted hmem with hold | ⟨stage, hold, rfl⟩
    · exact hr.inbox task hold hreceiving value' hvalue'
    · obtain rfl := Option.mem_some_iff.mp hvalue'
      exact hvalue ⟨chan, stage, none⟩ hold rfl hreceiving

/-! ## The values that are under way -/

/-- The guard and the data of a packet that is handed over. -/
def mail? : RecvOkRaw (Sender S) (Receiver R) → Option (Mail R)
  | .payload n b (_, d) | .reply n b (_, d) _ => some ⟨n, b, d⟩
  | .ack _ => none

/-- The guards and the data of the packets handed over. -/
def handedOver (h : History (Sender S) (Receiver R)) : List (Mail R) :=
  h.deliveries.filterMap fun d => mail? d.2

/-- The values in the oneshots, and others, are those of distinct packets handed over. -/
def Delivers (o : Multiset (Mail R)) (h : History (Sender S) (Receiver R))
    (tasks : List (Task S R)) : Prop :=
  o + (mails tasks : Multiset (Mail R)) ≤ (handedOver h : Multiset (Mail R))

section Delivers

variable {o : Multiset (Mail R)} {h : History (Sender S) (Receiver R)} {tasks : List (Task S R)}

/-- A packet that is handed over can be passed on. -/
theorem Delivers.take (hd : Delivers o h tasks) (p : Packet (Receiver R))
    (ok : RecvOkRaw (Sender S) (Receiver R)) :
    Delivers (((mail? ok).toList : Multiset (Mail R)) + o) (h.take p ok) tasks := by
  have hmore : (handedOver (h.take p ok) : Multiset (Mail R)) =
      ((mail? ok).toList : Multiset (Mail R)) + (handedOver h : Multiset (Mail R)) := by
    cases ok with
    | ack d => rfl
    | payload n b d | reply n b d e =>
      simp only [handedOver, History.take, List.filterMap_append, ← Multiset.coe_add]
      rw [add_comm]
      rfl
  rw [Delivers, hmore, add_assoc]
  exact add_le_add_right hd _

/-- A value that is passed on waits in the oneshot of a future, or is gone. -/
theorem Delivers.post {mail : Mail R} (hd : Delivers (mail ::ₘ o) h tasks) (chan : ℕ) :
    Delivers o h (posted chan (some mail) tasks) := by
  unfold Delivers posted
  rw [Delivers, Multiset.cons_add] at hd
  rcases post_cases chan (some mail) tasks with ⟨-, hpost⟩ | ⟨xs, stage, ys, rfl, hpost⟩
  · rw [hpost, Option.getD_none]
    exact (Multiset.le_cons_self _ _).trans hd
  · rw [hpost, Option.getD_some]
    have hmails : (mails (xs ++ ⟨chan, stage, some (some mail)⟩ :: ys) : Multiset (Mail R)) =
        mail ::ₘ (mails (xs ++ ⟨chan, stage, none⟩ :: ys) : Multiset (Mail R)) := by
      simp only [mails, List.filterMap_append, List.filterMap_cons, Option.join,
        Option.bind_some, Option.bind_none, id, ← Multiset.coe_add, ← Multiset.cons_coe,
        Multiset.add_cons]
    rw [hmails, Multiset.add_cons]
    exact hd

/-- Closing a oneshot delivers nothing. -/
theorem Delivers.post_none (hd : Delivers o h tasks) (chan : ℕ) :
    Delivers o h (posted chan none tasks) := by
  unfold Delivers posted
  rcases post_cases chan (none : Option (Mail R)) tasks with
    ⟨-, hpost⟩ | ⟨xs, stage, ys, rfl, hpost⟩
  · rw [hpost, Option.getD_none]
    exact hd
  · rw [Delivers] at hd
    rw [hpost, Option.getD_some]
    simpa [mails, Option.join] using hd

end Delivers

end SequentialExchange.Tokio
