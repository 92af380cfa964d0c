import SequentialExchange.TokioSteps

/-!
# What a future of an exchange comes back with

A future of `send` or `reply` has a oneshot of its own, whose other half goes into the
send window with the packet. In every run, whatever packets arrive, the future comes
back with what was received as the answer to that packet and to no other one: with a
reply that names its number, or with the end of the exchange after an
acknowledgement of its number. No packet comes back from two futures.
-/

namespace SequentialExchange.Tokio

open WrapNumbering GuardedRuns
open Sync (ReplyGuard)

variable {S R : Type*} {CAP : ℕ}

/-! ## Whole runs -/

/-- The oneshot of the future that returns. -/
def Shared.returning? (s : Shared S R CAP) : Op S R → Option ℕ
  | .resolve k | .closed k => s.tasks[k]?.map Task.chan
  | _ => none

/-- The shared instance with what its state machine has done and what was returned. -/
structure Recorded (S R : Type*) (CAP : ℕ) where
  /-- The shared instance. -/
  shared : Shared S R CAP
  /-- What the state machine has done. -/
  history : History (Sender S) (Receiver R)
  /-- What the steps returned, with the oneshot of the future that returned it. -/
  returned : List (Option ℕ × Outcome R)

/-- The packet at this position was sent with this oneshot, and no other packet was. -/
def SentWith (h : History (Sender S) (Receiver R)) (chan k : ℕ) (q : Packet (Sender S)) : Prop :=
  h.sent[k]? = some q ∧ q.payload?.map Prod.fst = some chan ∧
    ∀ j p, h.sent[j]? = some p → p.payload?.map Prod.fst = some chan → j = k

/-- A oneshot that no other packet has belongs to its packet alone. -/
theorem sentWith_of_nodup {h : History (Sender S) (Receiver R)} (hnodup : (channels h).Nodup)
    {chan k : ℕ} {q : Packet (Sender S)} (hq : h.sent[k]? = some q)
    (hchan : q.payload?.map Prod.fst = some chan) : SentWith h chan k q := by
  refine ⟨hq, hchan, fun j p hp hchan' => ?_⟩
  have hpairs := List.pairwise_iff_getElem.mp (List.pairwise_filterMap.mp hnodup)
  obtain ⟨hk, rfl⟩ := List.getElem?_eq_some_iff.mp hq
  obtain ⟨hj, rfl⟩ := List.getElem?_eq_some_iff.mp hp
  rcases Nat.lt_trichotomy j k with hlt | heq | hgt
  · exact absurd rfl (hpairs j k hj hk hlt chan hchan' chan hchan)
  · exact heq
  · exact absurd rfl (hpairs k j hk hj hgt chan hchan chan hchan')

/-- What a future of an exchange returned came out of its oneshot. -/
def Outcome.value? : Outcome R → Option (Option (Mail R))
  | .exchanged (.ok (g, d)) => some (some ⟨g.replyNo, g.isHoldingLock, d⟩)
  | .exchanged (.error .endOfExchange) => some none
  | _ => none

/-- What a future returns with a value is that value. -/
theorem mail?_returns (task : Task S R) (value : Option (Mail R)) :
    (task.returns value).mail? = value := by
  unfold Task.returns
  cases task.stage <;> cases value <;> rfl

/-- A future that returns an answer did not receive. -/
theorem value?_returns {task : Task S R} {value value' : Option (Mail R)}
    (h : (task.returns value).value? = some value') :
    task.stage.isReceiving = false ∧ value' = value := by
  unfold Task.returns at h
  cases hstage : task.stage <;> cases value <;> rw [hstage] at h <;> cases h <;> exact ⟨rfl, rfl⟩

/-- A closed exchange returns neither a value nor an answer. -/
theorem silent_returnsClosed (task : Task S R) :
    task.returnsClosed.mail? = none ∧ task.returnsClosed.value? = none := by
  unfold Task.returnsClosed
  cases task.stage <;> exact ⟨rfl, rfl⟩

/-- A value leaves its oneshot with the future. -/
theorem mails_eraseIdx {tasks : List (Task S R)} {k : ℕ} {task : Task S R}
    (htask : tasks[k]? = some task) {value : Option (Mail R)} (hinbox : task.inbox = some value) :
    (mails tasks : Multiset (Mail R)) =
      (value.toList : Multiset (Mail R)) + (mails (tasks.eraseIdx k) : Multiset (Mail R)) := by
  have hperm := (perm_of_getElem? htask).filterMap fun task : Task S R => task.inbox.join
  rw [mails, mails, Multiset.coe_eq_coe.mpr hperm, Multiset.coe_add, List.filterMap_cons, hinbox]
  cases value <;> rfl

namespace Shared

variable [NeZero CAP] {s : Shared S R CAP}

/-- Only `receive` and a future at its oneshot return data. -/
theorem perform_silent {op : Op S R} (hreceive : ∀ packet, op ≠ .receive packet)
    (hresolve : ∀ k, op ≠ .resolve k) :
    (s.perform op).1.mail? = none ∧ (s.perform op).1.value? = none := by
  cases op with
  | receive packet => exact absurd rfl (hreceive packet)
  | resolve k => exact absurd rfl (hresolve k)
  | closed k =>
    simp only [perform]
    split
    · exact silent_returnsClosed _
    · exact ⟨rfl, rfl⟩
  | listen k | resume k _ | enqueue k | takeUpdate _ =>
    simp only [perform]
    split <;> exact ⟨rfl, rfl⟩
  | drop k choice =>
    simp only [perform]
    split
    · split <;> exact ⟨rfl, rfl⟩
    · exact ⟨rfl, rfl⟩
  | _ => exact ⟨rfl, rfl⟩

end Shared

namespace Recorded

variable [NeZero CAP] {u : Recorded S R CAP} {base : SeqNo}

/-- `SeqEx::new` of `tokio.rs`. -/
def new (retryInterval : Int64) (initialSeqNo : SeqNo) : Recorded S R CAP :=
  ⟨Shared.new retryInterval initialSeqNo, History.empty, []⟩

/-- A step, with its calls and what it returns. -/
def next (u : Recorded S R CAP) (op : Op S R) : Recorded S R CAP where
  shared := u.shared.next op
  history := recorded u.shared.work u.history (u.shared.innerCalls op)
  returned := u.returned ++ [(u.shared.returning? op, (u.shared.perform op).1)]

/-- A step can be made. -/
def Possible (u : Recorded S R CAP) (op : Op S R) : Prop := u.shared.Possible op

/-- Possibility is that of the instance. -/
instance : ∀ (u : Recorded S R CAP) op, Decidable (u.Possible op) :=
  fun u op => inferInstanceAs (Decidable (u.shared.Possible op))

/-- The state machine with what it has done. -/
def node (u : Recorded S R CAP) : Node (Sender S) (Receiver R) CAP :=
  ⟨u.shared.inner.seq, u.history⟩

/-- The guards and the data that were returned. -/
def mailsReturned (u : Recorded S R CAP) : List (Mail R) := u.returned.filterMap (·.2.mail?)

/-- A step adds what it returns. -/
theorem mailsReturned_next (u : Recorded S R CAP) (op : Op S R) :
    (u.next op).mailsReturned = u.mailsReturned ++ (u.shared.perform op).1.mail?.toList := by
  rw [mailsReturned, Recorded.next, List.filterMap_append]
  cases hmail : (u.shared.perform op).1.mail? <;> simp [hmail, mailsReturned]

/-- Values are where they belong, and were returned where they belong. -/
structure Sound (base : SeqNo) (u : Recorded S R CAP) : Prop where
  custody : ∃ packets, Custody packets u.shared.nextChan u.shared.work
  routed : Routed u.shared.nextChan u.history u.shared.work
  delivers : Delivers (u.mailsReturned : Multiset (Mail R)) u.history u.shared.tasks
  answered : ∀ chan o value, (some chan, o) ∈ u.returned → o.value? = some value →
    Answers u.history chan value
  matched : ∀ d ∈ u.history.deliveries, d.2.Matches d.1
  books : ∃ acked replied, Books base u.node acked replied

/-- There are no futures at first. -/
theorem Sound.start (interval : Int64) (base : SeqNo) :
    (new interval base : Recorded S R CAP).Sound base where
  custody := ⟨_, (Traced.new_custody interval base).1⟩
  routed := {
    bounded := by simp [channels, new, History.empty]
    nodup := by simp [channels, new, History.empty]
    unsent := fun task hmem => absurd hmem List.not_mem_nil
    stored := fun i n r b chan d hw => by cases hw
    inbox := fun task hmem => absurd hmem List.not_mem_nil }
  delivers := le_rfl
  answered chan o value hmem := absurd hmem List.not_mem_nil
  matched d hmem := absurd hmem List.not_mem_nil
  books := ⟨[], [], Books.start interval base⟩

/-- A step is the calls that it makes. -/
theorem next_node (u : Recorded S R CAP) (op : Op S R) :
    (u.next op).node = u.node.performAll (u.shared.innerCalls op) := by
  have hseq : (u.next op).node.seqEx = (u.node.performAll (u.shared.innerCalls op)).seqEx := by
    rw [performAll_seqEx]
    exact u.shared.next_run op
  have hhistory : (u.next op).node.history =
      (u.node.performAll (u.shared.innerCalls op)).history := rfl
  generalize u.node.performAll (u.shared.innerCalls op) = n at hseq hhistory
  cases n
  cases hnode : (u.next op).node
  rw [hnode] at hseq hhistory
  cases hseq
  cases hhistory
  rfl

/-- Packets match what is handed over, and the books are kept, through any calls. -/
theorem performAll_kept {n : Node (Sender S) (Receiver R) CAP}
    (hm : ∀ d ∈ n.history.deliveries, d.2.Matches d.1)
    (hb : ∃ acked replied, Books base n acked replied)
    (cs : List (Call (Sender S) (Receiver R))) :
    (∀ d ∈ (n.performAll cs).history.deliveries, d.2.Matches d.1) ∧
      ∃ acked replied, Books base (n.performAll cs) acked replied := by
  obtain ⟨acked, replied, hb⟩ := hb
  refine ⟨?_, hb.performAll cs⟩
  clear hb
  induction cs generalizing n with
  | nil => exact hm
  | cons c cs ih => exact ih (n.perform_matches hm c)

omit [NeZero CAP] in
/-- The history only hears more, or sends. -/
theorem Answers.grow {h h' : History (Sender S) (Receiver R)} {chan : ℕ} {value : Option (Mail R)}
    (ha : Answers h chan value) (hdel : ∀ d ∈ h.deliveries, d ∈ h'.deliveries)
    (hacks : ∀ a ∈ h.acks, a ∈ h'.acks) : Answers h' chan value := by
  cases value with
  | some mail =>
    obtain ⟨p, c, w, hmem⟩ := ha
    exact ⟨p, c, w, hdel _ hmem⟩
  | none =>
    obtain ⟨n, w, hmem⟩ := ha
    exact ⟨n, w, hacks _ hmem⟩

/-- What a step does to the oneshots, and what it returns. -/
structure Advances (u : Recorded S R CAP) (op : Op S R) : Prop where
  routed : Routed (u.next op).shared.nextChan (u.next op).history (u.next op).shared.work
  delivers : Delivers
    (((u.shared.perform op).1.mail?.toList : Multiset (Mail R)) +
      (u.mailsReturned : Multiset (Mail R)))
    (u.next op).history (u.next op).shared.tasks
  deliveries : ∀ d ∈ u.history.deliveries, d ∈ (u.next op).history.deliveries
  acks : ∀ a ∈ u.history.acks, a ∈ (u.next op).history.acks
  answers : ∀ chan ∈ u.shared.returning? op, ∀ value,
    (u.shared.perform op).1.value? = some value → Answers (u.next op).history chan value

section Advances

variable {op : Op S R}

/-- The steps that send. -/
theorem Sound.advances_sending (h : u.Sound base) (hpos : u.Possible op)
    (hquiet : Shared.quiet op = false) (hreceive : ∀ packet, op ≠ .receive packet) :
    u.Advances op := by
  obtain ⟨packets, hcustody⟩ := h.custody
  have hresolve (k : ℕ) : op ≠ .resolve k := by
    rintro rfl
    cases hquiet
  obtain ⟨hmail, hvalue⟩ := Shared.perform_silent (s := u.shared) hreceive hresolve
  obtain ⟨hrouted, hdel, hacks, hmails⟩ :=
    Shared.next_sending h.routed hcustody hpos hquiet hreceive
  have hover : handedOver (u.next op).history = handedOver u.history :=
    congrArg (List.filterMap fun d : Packet (Receiver R) × RecvOkRaw (Sender S) (Receiver R) =>
      mail? d.2) hdel
  have htasks : mails (u.next op).shared.tasks = mails u.shared.tasks := hmails
  refine ⟨hrouted, ?_, fun d hd => ?_, fun a ha => ?_, fun chan _ value hv => ?_⟩
  · rw [hmail, Delivers, hover, htasks]
    exact (congrArg (· + (mails u.shared.tasks : Multiset (Mail R))) (zero_add _)).trans_le
      h.delivers
  · exact hdel.symm ▸ hd
  · exact hacks.symm ▸ ha
  · rw [hvalue] at hv
    cases hv

/-- The steps that call nothing. -/
theorem Sound.advances_quiet (h : u.Sound base) (hpos : u.Possible op)
    (hquiet : Shared.quiet op = true) : u.Advances op := by
  have hreceive (packet : Packet R) : op ≠ .receive packet := by
    rintro rfl
    cases hquiet
  obtain ⟨hhistory, hrecv, hports, hnext⟩ := Shared.next_quiet hquiet hpos u.history
  have hsame : (u.next op).history = u.history := hhistory
  have hbound : (u.next op).shared.nextChan = u.shared.nextChan := hnext
  have hrouted : Routed (u.next op).shared.nextChan (u.next op).history
      (u.next op).shared.work := by
    rw [hsame, hbound]
    exact (h.routed.sublist hports).windows fun i n r b d hw => hrecv ▸ hw
  by_cases hresolve : ∃ k, op = .resolve k
  · -- a value goes from its oneshot to the caller
    obtain ⟨k, rfl⟩ := hresolve
    obtain ⟨task, htask, -, hinbox⟩ := hpos
    have htask := Option.mem_def.mp htask
    obtain ⟨value, hinbox⟩ := Option.isSome_iff_exists.mp hinbox
    have hperform : u.shared.perform (.resolve k) =
        u.shared.complete k (task.returns value) := by
      simp only [Shared.perform, htask, hinbox]
    have htasks : (u.next (.resolve k)).shared.tasks = u.shared.tasks.eraseIdx k := by
      show (u.shared.perform (.resolve k)).2.tasks = _
      rw [hperform]
      rfl
    refine ⟨hrouted, ?_, fun d hd => hsame.symm ▸ hd, fun a ha => hsame.symm ▸ ha,
      fun chan hchan value' hvalue' => ?_⟩
    · have hd := h.delivers
      rw [Delivers, mails_eraseIdx htask hinbox, add_left_comm, ← add_assoc] at hd
      rw [hperform, Shared.complete, mail?_returns, Delivers, hsame, htasks]
      exact hd
    · rw [hperform] at hvalue'
      obtain ⟨hstage, rfl⟩ := value?_returns hvalue'
      rw [Shared.returning?, htask] at hchan
      cases hchan
      rw [hsame]
      exact h.routed.inbox task (List.mem_of_getElem? htask) hstage _ hinbox
  · obtain ⟨hmail, hvalue⟩ := Shared.perform_silent (s := u.shared) hreceive
      fun k heq => hresolve ⟨k, heq⟩
    refine ⟨hrouted, ?_, fun d hd => hsame.symm ▸ hd, fun a ha => hsame.symm ▸ ha,
      fun chan hchan value hv => ?_⟩
    · rw [hmail, Delivers, hsame]
      refine le_trans ?_ h.delivers
      exact add_le_add (zero_add _).le (mails_sublist hports).subperm
    · rw [hvalue] at hv
      cases hv

/-- Every possible step. -/
theorem Sound.advances (h : u.Sound base) (hpos : u.Possible op) : u.Advances op := by
  by_cases hreceive : ∃ packet, op = .receive packet
  · obtain ⟨packet, rfl⟩ := hreceive
    obtain ⟨packets, hcustody⟩ := h.custody
    obtain ⟨hrouted, hdelivers, hhears⟩ :=
      Shared.receive_routed h.routed hcustody h.delivers packet
    exact ⟨hrouted, hdelivers, hhears.deliveries, hhears.acks, fun chan hchan => by cases hchan⟩
  · have hother (packet : Packet R) : op ≠ .receive packet := fun heq => hreceive ⟨packet, heq⟩
    cases hquiet : Shared.quiet op with
    | true => exact h.advances_quiet hpos hquiet
    | false => exact h.advances_sending hpos hquiet hother

end Advances

/-- The exchanges stay sound through every possible step. -/
theorem Sound.next (h : u.Sound base) {op : Op S R} (hpos : u.Possible op) :
    (u.next op).Sound base := by
  obtain ⟨hrouted, hdelivers, hdeliveries, hacks, hanswers⟩ := h.advances hpos
  obtain ⟨packets, hcustody⟩ := h.custody
  obtain ⟨hmatched, hbooks⟩ := performAll_kept h.matched h.books (u.shared.innerCalls op)
  refine ⟨?_, hrouted, ?_, fun chan o value hmem hvalue => ?_, hmatched, ?_⟩
  · by_cases hreceive : ∃ packet, op = .receive packet
    · obtain ⟨packet, rfl⟩ := hreceive
      exact ⟨_, (Shared.receive_custody hcustody packet).1⟩
    · exact ⟨packets, (Shared.next_custody hcustody hpos fun packet heq =>
        hreceive ⟨packet, heq⟩).1⟩
  · rw [mailsReturned_next, ← Multiset.coe_add, add_comm]
    exact hdelivers
  · rcases List.mem_append.mp hmem with hmem | hmem
    · exact Answers.grow (h.answered chan o value hmem hvalue) hdeliveries hacks
    · obtain ⟨hchan, rfl⟩ := Prod.mk.inj (List.mem_singleton.mp hmem)
      exact hanswers chan (Option.mem_def.mpr hchan.symm) value hvalue
  · rw [u.next_node op]
    exact hbooks

/-- The answer to a packet names its number. -/
theorem Sound.answer (h : u.Sound base) {chan : ℕ} {mail : Mail R}
    (ha : Answers u.history chan (some mail)) :
    ∃ k q c w, SentWith u.history chan k q ∧
      (.newWithData mail.replyNo (some (number base k)) mail.locked (c, mail.data),
        .reply mail.replyNo mail.locked (c, mail.data) (chan, w)) ∈ u.history.deliveries := by
  obtain ⟨p, c, w, hmem⟩ := ha
  obtain ⟨acked, replied, hbooks⟩ := h.books
  obtain ⟨m, hp⟩ := h.matched _ hmem
  dsimp only at hp
  subst hp
  have hreply : (m, (chan, w)) ∈ u.history.replies := by
    refine List.mem_filterMap.mpr ⟨_, hmem, ?_⟩
    simp [RecvOkRaw.paired?]
  obtain ⟨k, -, hnum, q, hq, hdata⟩ := exists_left_of_forall₂ hbooks.replies hreply
  dsimp only at hnum
  subst hnum
  exact ⟨k, q, c, w, sentWith_of_nodup h.routed.nodup hq (by rw [hdata]; rfl), hmem⟩

/-- The exchange of a packet ends with an acknowledgement of its number. -/
theorem Sound.ending (h : u.Sound base) {chan : ℕ} (ha : Answers u.history chan none) :
    ∃ k q w, SentWith u.history chan k q ∧ (number base k, (chan, w)) ∈ u.history.acks := by
  obtain ⟨n, w, hmem⟩ := ha
  obtain ⟨acked, replied, hbooks⟩ := h.books
  obtain ⟨k, -, hnum, q, hq, hdata⟩ := exists_left_of_forall₂ hbooks.acks hmem
  dsimp only at hnum
  subst hnum
  exact ⟨k, q, w, sentWith_of_nodup h.routed.nodup hq (by rw [hdata]; rfl), hmem⟩

/-- A run keeps values where they belong. -/
theorem reaches_sound {interval : Int64}
    (hreach : Reaches Possible next (new interval base : Recorded S R CAP) u) : u.Sound base :=
  hreach.invariant (Sound.start interval base) fun _ _ _ h hpos => h.next hpos

/-- Whatever packets arrive, the future of an exchange comes back with a reply to the
packet that it sent: the reply names the number of that packet. It comes back with
the end of the exchange when an acknowledgement of that number arrived. -/
theorem exchanged_own {interval : Int64}
    (hreach : Reaches Possible next (new interval base : Recorded S R CAP) u) {chan : ℕ}
    {r : Except AsyncError (ReplyGuard × R)} (hreturned : (some chan, .exchanged r) ∈ u.returned) :
    (∀ g d, r = .ok (g, d) → ∃ k q c w, SentWith u.history chan k q ∧
      q.seqNo? = some (number base k) ∧
      (.newWithData g.replyNo (some (number base k)) g.isHoldingLock (c, d),
        .reply g.replyNo g.isHoldingLock (c, d) (chan, w)) ∈ u.history.deliveries) ∧
    (r = .error .endOfExchange → ∃ k q w, SentWith u.history chan k q ∧
      q.seqNo? = some (number base k) ∧ (number base k, (chan, w)) ∈ u.history.acks) := by
  have h := reaches_sound hreach
  have hnumbered {k : ℕ} {q : Packet (Sender S)} (hsent : SentWith u.history chan k q) :
      q.seqNo? = some (number base k) := by
    obtain ⟨acked, replied, hbooks⟩ := h.books
    exact hbooks.sends.numbered k q hsent.1
  constructor
  · rintro g d rfl
    obtain ⟨k, q, c, w, hsent, hmem⟩ := h.answer (h.answered chan _ _ hreturned rfl)
    exact ⟨k, q, c, w, hsent, hnumbered hsent, hmem⟩
  · rintro rfl
    obtain ⟨k, q, w, hsent, hmem⟩ := h.ending (h.answered chan _ _ hreturned rfl)
    exact ⟨k, q, w, hsent, hnumbered hsent, hmem⟩

/-- Two packets are sent by two futures; the second one is replied to, and then the first
one is acknowledged. -/
def answeredCrosswise : List (Op ℕ ℕ) :=
  [.send 0 false fun _ => 70, .send 0 false fun _ => 71, .enqueue 0, .receive (.reply 0 1 80),
    .receive (.ack 0), .resolve 1, .resolve 0]

/-- Two packets are answered in the other order. -/
theorem exchanged_own_answeredCrosswise :
    ∃ k q c w, SentWith (answeredCrosswise.foldl next (new 100 0 : Recorded ℕ ℕ 4)).history 1 k q ∧
      q.seqNo? = some (number 0 k) ∧
      (.newWithData 0 (some (number 0 k)) false (c, 80), .reply 0 false (c, 80) (1, w)) ∈
        (answeredCrosswise.foldl next (new 100 0 : Recorded ℕ ℕ 4)).history.deliveries :=
  (exchanged_own (r := .ok (⟨0, false⟩, 80)) (Allowed.reaches (l := answeredCrosswise)
    (show Allowed Possible next (new 100 0 : Recorded ℕ ℕ 4) _ by decide +kernel))
    (by decide +kernel)).1 _ _ rfl

/-- Whatever packets arrive, what the futures and `receive` return are distinct packets
among those that were handed over. -/
theorem returned_distinct {interval : Int64}
    (hreach : Reaches Possible next (new interval base : Recorded S R CAP) u) :
    (u.mailsReturned ++ mails u.shared.tasks).Subperm (handedOver u.history) := by
  have h := (reaches_sound hreach).delivers
  rwa [Delivers, Multiset.coe_add, Multiset.coe_le] at h

/-- The two answers and what waits are of distinct packets. -/
theorem returned_distinct_answeredCrosswise :
    ((answeredCrosswise.foldl next (new 100 0 : Recorded ℕ ℕ 4)).mailsReturned ++
        mails (answeredCrosswise.foldl next (new 100 0 : Recorded ℕ ℕ 4)).shared.tasks).Subperm
      (handedOver (answeredCrosswise.foldl next (new 100 0 : Recorded ℕ ℕ 4)).history) :=
  returned_distinct (Allowed.reaches (l := answeredCrosswise)
    (show Allowed Possible next (new 100 0 : Recorded ℕ ℕ 4) _ by decide +kernel))

end Recorded

end SequentialExchange.Tokio
