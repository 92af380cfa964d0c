import SequentialExchange.ArrivalOrder
import SequentialExchange.MutualExclusion
import SequentialExchange.Ordering

/-!
# Two shared endpoints over an unreliable network

At either end any number of threads share a `SeqEx` of `sync.rs`. What a step of
a thread puts on the wire is in flight until the network loses it, and may be
given to a `try_receive` at the other end any number of times. Seen through the
two state machines this is a session, so what holds of every session holds of
what the threads are given. With the lock it follows that the threads of a side
go through their critical sections in the order in which the packets were sent.
-/

namespace SequentialExchange

open WrapNumbering GuardedRuns

variable {S R : Type*}

/-- The data that an acknowledgement hands back. -/
def RecvOkRaw.acked? : RecvOkRaw S R → Option S
  | .ack d => some d
  | .payload .. | .reply .. => none

/-- What is handed over has the flag of its packet. -/
theorem isSeqCst_of_item? {p : Packet R} {ok : RecvOkRaw S R} (h : p.item? = ok.item?) :
    p.isSeqCst = ok.isSeqCst := by
  cases p <;> cases ok <;> simp_all [Packet.item?, RecvOkRaw.item?, Packet.isSeqCst,
    RecvOkRaw.isSeqCst]

section Endpoint

variable {CAP : ℕ} [NeZero CAP]

/-- What a call returns is added to the history: a packet with the result it came
with, or the data that was acknowledged. -/
theorem History.record_returned (s : SeqEx S R CAP) (c : Call S R) (h : History S R) :
    (∃ l, (h.record (s.input? c) (s.call c).1).deliveries = h.deliveries ++ l ∧
      l.map Prod.snd = (s.call c).1.delivery?.toList.filter (·.acked?.isNone) ∧
      ∀ d ∈ l, s.input? c = some d.1 ∧ d.1.item? = d.2.item?) ∧
    (h.record (s.input? c) (s.call c).1).acks.map Prod.snd =
      h.acks.map Prod.snd ++ (s.call c).1.delivery?.toList.filterMap RecvOkRaw.acked? := by
  have heff := s.call_effect c
  generalize (s.call c).1 = a, (s.call c).2 = s' at heff ⊢
  have hignored (hrec : ∀ (h : History S R) i, h.record i a = h) :
      (∃ l, (h.record (s.input? c) a).deliveries = h.deliveries ++ l ∧
        l.map Prod.snd = a.delivery?.toList.filter (·.acked?.isNone) ∧
        ∀ d ∈ l, s.input? c = some d.1 ∧ d.1.item? = d.2.item?) ∧
      (h.record (s.input? c) a).acks.map Prod.snd =
        h.acks.map Prod.snd ++ a.delivery?.toList.filterMap RecvOkRaw.acked? := by
    rw [hrec, Answer.delivery?_eq_none hrec]
    exact ⟨⟨[], by simp, by simp, by simp⟩, by simp⟩
  cases heff with
  | heed r hc e he hr =>
    subst hc
    exact ⟨⟨[], by simp [SeqEx.input?, History.record, History.take],
      by simp [Answer.delivery?, RecvOkRaw.acked?], by simp⟩,
      by simp [SeqEx.input?, History.record, History.take, Answer.delivery?, RecvOkRaw.acked?,
        Packet.replyNo?]⟩
  | hand n r b d doPump t hin hplaced hfull hlock =>
    have hok := t.handOver_ne_ack n r b d
    have hitem : (t.handOver n r b d).1.item? = some (n, b, d) := by
      rcases t.handOver_cases n r b d with ⟨_, _, -, -, -, h⟩ | ⟨-, h⟩ <;> rw [h] <;> rfl
    have hdel : (c.handing (t.handOver n r b d).1 doPump).delivery? =
        some (t.handOver n r b d).1 := by cases c <;> rfl
    have hnone : (t.handOver n r b d).1.acked? = none := by
      cases hres : (t.handOver n r b d).1 with
      | ack d' => exact absurd hres (hok d')
      | _ => rfl
    rw [hin, History.record_handing, History.take_delivery hok, hdel]
    refine ⟨⟨[(.newWithData n r b d, (t.handOver n r b d).1)], rfl, by simp [hnone], ?_⟩,
      by simp [hnone]⟩
    intro d' hd'
    rw [List.mem_singleton.mp hd']
    exact ⟨rfl, by rw [Packet.item?_newWithData, hitem]⟩
  | send => exact ⟨⟨[], by simp [History.record], by simp [Answer.delivery?], by simp⟩,
      by simp [History.record, Answer.delivery?]⟩
  | reply => exact ⟨⟨[], by simp [History.record], by simp [Answer.delivery?], by simp⟩,
      by simp [History.record, Answer.delivery?]⟩
  | ack => exact hignored fun _ _ => rfl
  | unlock => exact hignored fun _ _ => rfl
  | resendAck => exact hignored fun _ _ => rfl
  | hold n r b d e _ _ _ hquiet => exact hignored hquiet.2
  | resend _ _ _ _ hrec _ => exact hignored hrec
  | idle _ hquiet => exact hignored hquiet.2

end Endpoint

namespace Sync

namespace Shared

variable {CAP : ℕ} [NeZero CAP]

/-- What a step puts on the wire. -/
def emitted (s : Shared S R CAP) (op : Op S R) : List (Packet S) :=
  match s.innerCall? op with
  | some c => (s.inner.seq.call c).1.emitted
  | none => []

/-- What the state machine makes of a step. -/
def record (s : Shared S R CAP) (h : History S R) (op : Op S R) : History S R :=
  match s.innerCall? op with
  | some c => h.record (s.inner.seq.input? c) (s.inner.seq.call c).1
  | none => h

end Shared

/-- Two shared endpoints and the packets in flight. -/
structure Network (S R : Type*) (cap : Side → ℕ) where
  /-- The instance at each side, with its threads. -/
  shared : (x : Side) → Shared S R (cap x)
  /-- What the state machine of each side has done. -/
  history : Side → History S R
  /-- What `try_receive`, `try_pump` and `pump` returned to the threads of each side. -/
  returned : Side → List (RecvOkRaw S R)
  /-- For each side, the packets it sent that are in flight. -/
  net : Side → List (Packet R)

/-- What can happen in a network. -/
inductive Step (S R : Type*) where
  /-- A thread of a side makes a step; `choice` is the sleeper that a `notify_one` picks. -/
  | thread (x : Side) (choice : ℕ) (op : Op S R)
  /-- A packet that was sent by a side is lost. -/
  | lose (x : Side) (i : ℕ)

namespace Network

variable {cap : Side → ℕ} [∀ x, NeZero (cap x)]

/-- Two new instances that were given the same initial number. -/
def start (interval : Side → Int64) (initialSeqNo : SeqNo) : Network S R cap where
  shared x := Shared.new (interval x) initialSeqNo
  history _ := History.empty
  returned _ := []
  net _ := []

/-- One step; `encode` is the serialization of the user. -/
def perform (encode : S → R) (s : Network S R cap) : Step S R → Network S R cap
  | .thread x choice op =>
    let r := (s.shared x).perform choice op
    { shared := Function.update s.shared x r.2
      history := Function.update s.history x ((s.shared x).record (s.history x) op)
      returned := Function.update s.returned x (s.returned x ++ r.1.delivery?.toList)
      net := Function.update s.net x
        (s.net x ++ ((s.shared x).emitted op).map (Packet.map encode)) }
  | .lose x i => { s with net := Function.update s.net x ((s.net x).eraseIdx i) }

/-- A received packet is in flight. -/
def Arrives (s : Network S R cap) (x : Side) : Op S R → Prop
  | .tryReceive p => p ∈ s.net x.peer
  | _ => True

/-- What a thread can do, with packets that are in flight. -/
def Possible (s : Network S R cap) : Step S R → Prop
  | .thread x _ op => (s.shared x).Possible op ∧ s.Arrives x op
  | .lose .. => True

/-- A received packet is looked up among those under way. -/
instance decidableArrives [DecidableEq R] (s : Network S R cap) (x : Side) :
    ∀ op, Decidable (s.Arrives x op)
  | .tryReceive p => inferInstanceAs (Decidable (p ∈ s.net x.peer))
  | .tryPump | .pump | .trySend .. | .send .. | .resume .. | .replyWith .. | .finishReply _
  | .ack _ | .unlock _ | .replyWithStayLocked .. | .dropReplyGuard _ | .toComponents _
  | .fromComponents _ | .dropSeqCstGuard | .close | .service _ | .serviceScheduled _ =>
    isTrue trivial

/-- A step is possible if its thread is free and its packet there. -/
instance decidablePossible [DecidableEq R] (s : Network S R cap) : ∀ e, Decidable (s.Possible e)
  | .thread x _ op => inferInstanceAs (Decidable ((s.shared x).Possible op ∧ s.Arrives x op))
  | .lose .. => isTrue trivial

/-- The packets sent by `x` so far. -/
def sentBy (s : Network S R cap) (x : Side) : List (Packet S) := (s.history x).sent

/-- The two state machines with the network between them. -/
def session (s : Network S R cap) : Session S R cap where
  node x := ⟨(s.shared x).inner.seq, s.history x⟩
  net := s.net

/-- The event of the session in a step. -/
def event? (s : Network S R cap) : Step S R → Option (Event S R)
  | .thread x _ op => ((s.shared x).innerCall? op).map (.call x)
  | .lose x i => some (.lose x i)

/-! ## The session of a network -/

variable {encode : S → R} {s : Network S R cap}

/-- A thread acts on the instance of its own side. -/
theorem perform_shared_self (x : Side) (k : ℕ) (op : Op S R) :
    (s.perform encode (.thread x k op)).shared x = ((s.shared x).perform k op).2 := by
  simp [perform]

/-- The other instance stays as it is. -/
theorem perform_shared_ne {x y : Side} (h : y ≠ x) (k : ℕ) (op : Op S R) :
    (s.perform encode (.thread x k op)).shared y = s.shared y := by
  simp [perform, h]

/-- A step is one event of the session, or none. -/
theorem session_perform (e : Step S R) :
    (s.perform encode e).session =
      match s.event? e with
      | some ev => s.session.perform encode ev
      | none => s.session := by
  cases e with
  | lose x i => rfl
  | thread x k op =>
    obtain ⟨hseq, -, -⟩ := (s.shared x).perform_spec k op
    have hnode (y : Side) : (s.perform encode (.thread x k op)).session.node y =
        Function.update s.session.node x
          ⟨(s.shared x).after op, (s.shared x).record (s.history x) op⟩ y := by
      by_cases hy : y = x
      · subst hy
        simp [session, perform, hseq]
      · simp [session, perform, hy]
    have hnet : (s.perform encode (.thread x k op)).session.net = Function.update s.net x
        (s.net x ++ ((s.shared x).emitted op).map (Packet.map encode)) := rfl
    have heq : (s.perform encode (.thread x k op)).session =
        ⟨Function.update s.session.node x
          ⟨(s.shared x).after op, (s.shared x).record (s.history x) op⟩,
          Function.update s.net x
            (s.net x ++ ((s.shared x).emitted op).map (Packet.map encode))⟩ := by
      rw [← hnet, ← funext hnode]
    rw [heq]
    simp only [event?, Shared.after, Shared.record, Shared.emitted]
    cases hc : (s.shared x).innerCall? op with
    | some c => rfl
    | none =>
      simp only [Option.map_none, List.map_nil, List.append_nil, Function.update_eq_self]
      have hsame : (⟨(s.shared x).inner.seq, s.history x⟩ : Node S R (cap x)) =
          s.session.node x := rfl
      rw [hsame, Function.update_eq_self]
      rfl

omit [∀ x, NeZero (cap x)] in
/-- A packet that is given to the state machine was given to the step. -/
theorem innerCall?_receive {x : Side} {op : Op S R} {p : Packet R}
    (h : (s.shared x).innerCall? op = some (.receive p)) : op = .tryReceive p := by
  cases op with
  | tryReceive q =>
    simp only [Shared.innerCall?] at h
    split at h <;> cases h
    rfl
  | resume w t0 t =>
    simp only [Shared.innerCall?] at h
    split at h
    · split at h <;> cases h
    · cases h
    · cases h
  | tryPump | dropSeqCstGuard | toComponents g | fromComponents g | close | service t => cases h
  | _ =>
    simp only [Shared.innerCall?] at h
    split at h <;> cases h

omit [∀ x, NeZero (cap x)] in
/-- The event of a possible step is possible. -/
theorem Possible.event {e : Step S R} (h : s.Possible e) :
    ∀ ev ∈ s.event? e, s.session.Possible ev := by
  intro ev hev
  cases e with
  | lose x i =>
    cases hev
    trivial
  | thread x k op =>
    obtain ⟨c, hc, rfl⟩ := Option.map_eq_some_iff.mp hev
    cases c with
    | receive p =>
      obtain rfl := innerCall?_receive hc
      exact h.2
    | _ => trivial

/-- A step is a run of the session. -/
theorem Possible.reaches {e : Step S R} (h : s.Possible e) :
    Reaches Session.Possible (Session.perform encode) s.session (s.perform encode e).session := by
  rw [session_perform]
  cases hev : s.event? e with
  | some ev => exact Reaches.single (h.event ev hev)
  | none => exact Reaches.refl

/-- A call adds what it returns. -/
theorem returned_perform (x : Side) (k : ℕ) (op : Op S R) :
    (s.perform encode (.thread x k op)).returned x =
      s.returned x ++ ((s.shared x).perform k op).1.delivery?.toList := by
  simp [perform]

/-- The threads of `x` were returned what the state machine handed over. -/
structure Returns (s : Network S R cap) (x : Side) : Prop where
  deliveries : (s.history x).deliveries.map Prod.snd =
    (s.returned x).filter (·.acked?.isNone)
  acks : (s.history x).acks.map Prod.snd = (s.returned x).filterMap RecvOkRaw.acked?
  items : ∀ d ∈ (s.history x).deliveries, d.1.item? = d.2.item?

omit [∀ x, NeZero (cap x)] in
/-- Nothing was returned at first. -/
theorem Returns.start (interval : Side → Int64) (base : SeqNo) (x : Side) :
    (start interval base : Network S R cap).Returns x :=
  ⟨rfl, rfl, fun _ hd => absurd hd List.not_mem_nil⟩

/-- Every step returns what its instance delivers. -/
theorem Returns.perform {x : Side} (h : s.Returns x) (e : Step S R) :
    (s.perform encode e).Returns x := by
  cases e with
  | lose y i => exact ⟨h.deliveries, h.acks, h.items⟩
  | thread y k op =>
    by_cases hxy : x = y
    swap
    · have hhistory : (s.perform encode (.thread y k op)).history x = s.history x := by
        simp [Network.perform, hxy]
      have hreturned : (s.perform encode (.thread y k op)).returned x = s.returned x := by
        simp [Network.perform, hxy]
      exact ⟨by rw [hhistory, hreturned, h.deliveries], by rw [hhistory, hreturned, h.acks],
        hhistory ▸ h.items⟩
    subst hxy
    have hhistory : (s.perform encode (.thread x k op)).history x =
        (s.shared x).record (s.history x) op := by simp [Network.perform]
    have hreturned : (s.perform encode (.thread x k op)).returned x = _ := s.returned_perform x k op
    rw [((s.shared x).perform_spec k op).2.1] at hreturned
    unfold Shared.record at hhistory
    cases hc : (s.shared x).innerCall? op with
    | none =>
      rw [hc] at hhistory hreturned
      rw [Option.bind_none, Option.toList_none, List.append_nil] at hreturned
      exact ⟨by rw [hhistory, hreturned, h.deliveries], by rw [hhistory, hreturned, h.acks],
        hhistory ▸ h.items⟩
    | some c =>
      rw [hc] at hhistory hreturned
      obtain ⟨⟨l, hl, hresults, hitems⟩, hacks⟩ :=
        History.record_returned (s.shared x).inner.seq c (s.history x)
      refine ⟨?_, ?_, fun d hd => ?_⟩
      · rw [hhistory, hreturned, hl, List.map_append, hresults, h.deliveries, List.filter_append]
        rfl
      · rw [hhistory, hreturned, hacks, h.acks, List.filterMap_append]
        rfl
      · rw [hhistory, hl] at hd
        exact (List.mem_append.mp hd).elim (h.items d) fun hd => (hitems d hd).2

section Runs

variable {interval : Side → Int64} {base : SeqNo}

/-- The session of a run. -/
theorem reaches_session (hrun : Reaches Possible (perform encode) (start interval base) s) :
    Reaches Session.Possible (Session.perform encode) (Session.start interval base) s.session :=
  hrun.refines session fun _ _ _ h => h.reaches

/-- The values returned are the deliveries, in every state of a run. -/
theorem reaches_returns (hrun : Reaches Possible (perform encode) (start interval base) s)
    (x : Side) : s.Returns x :=
  hrun.invariant (I := fun u => u.Returns x) (Returns.start interval base x)
    fun _ e _ h _ => h.perform e

/-- The threads of a side alone make a run of its instance. -/
theorem reaches_shared (hrun : Reaches Possible (perform encode) (start interval base) s)
    (x : Side) :
    Reaches Shared.Enabled Shared.next (Shared.new (interval x) base) (s.shared x) := by
  refine hrun.refines (fun u => u.shared x) fun u e _ he => ?_
  cases e with
  | lose y i => exact Reaches.refl
  | thread y k op =>
    by_cases hxy : x = y
    · subst hxy
      rw [perform_shared_self]
      exact Reaches.single (a := (k, op)) he.1
    · rw [perform_shared_ne hxy]
      exact Reaches.refl

end Runs

/-- Two shared endpoints with any number of threads are a session: the state
machines and the network go through a run of it, and what the threads were
returned is what the endpoints of that session delivered and handed back. -/
theorem network_refines_session (encode : S → R) (interval : Side → Int64)
    (initialSeqNo : SeqNo) {s : Network S R cap}
    (hrun : Reaches Possible (perform encode) (start interval initialSeqNo) s) :
    Reaches Session.Possible (Session.perform encode) (Session.start interval initialSeqNo)
        s.session ∧
      ∀ x, (s.session.node x).history.deliveries.map Prod.snd =
          (s.returned x).filter (·.acked?.isNone) ∧
        (s.session.node x).history.acks.map Prod.snd =
          (s.returned x).filterMap RecvOkRaw.acked? :=
  ⟨reaches_session hrun, fun x =>
    ⟨(reaches_returns hrun x).deliveries, (reaches_returns hrun x).acks⟩⟩

/-- Two SeqCst packets arrive in the wrong order, and the first is processed. -/
def overtaken : List (Step ℕ ℕ) :=
  [.thread .a 0 (.trySend 0 true fun _ => 70), .thread .a 0 (.send 0 0 true (fun _ => 71) none),
    .thread .b 0 (.tryReceive (.seqCstPayload 1 71)),
    .thread .b 0 (.tryReceive (.seqCstPayload 0 70)), .thread .b 0 (.dropReplyGuard ⟨0, true⟩),
    .thread .a 0 (.tryReceive (.ack 0))]

/-- The network after these steps. -/
def afterOvertaken : Network ℕ ℕ cap := overtaken.foldl (perform id) (start (fun _ => 100) 0)

/-- The acknowledged data reach the thread and the session alike. -/
theorem network_refines_session_afterOvertaken :
    ((afterOvertaken : Network ℕ ℕ fun _ => 4).returned .a).filterMap RecvOkRaw.acked? = [70] ∧
      ((afterOvertaken : Network ℕ ℕ fun _ => 4).session.node .a).history.acks.map Prod.snd =
        [70] :=
  have h := (network_refines_session id (fun _ => 100) 0
    (Allowed.reaches (l := overtaken) (by decide))).2 .a
  ⟨h.2.symm.trans (by decide), h.2.trans (by decide)⟩

/-! ## Critical sections -/

/-- While the state machine is not locked, nobody is in a critical section. -/
theorem tokens_eq_zero {CAP : ℕ} [NeZero CAP] {interval : Int64} {base : SeqNo}
    {s : Shared S R CAP} (h : Reaches Shared.Enabled Shared.next (Shared.new interval base) s)
    (hfree : s.inner.seq.isLocked = false) : s.tokens = 0 := by
  obtain ⟨⟨-, hlocked⟩, -⟩ := Shared.reaches_exclusive h
  rw [Shared.holders_ledger] at hlocked
  by_contra hne
  have htaken : s.inner.seq.isLocked = true := hlocked (Nat.pos_of_ne_zero hne)
  simp [hfree] at htaken

omit [∀ x, NeZero (cap x)] in
/-- The SeqCst results that were returned are the SeqCst packets delivered. -/
theorem Returns.seqCst {x : Side} (h : s.Returns x) :
    ((s.returned x).filter RecvOkRaw.isSeqCst).map RecvOkRaw.item? =
      (((s.history x).deliveries.map Prod.fst).filter Packet.isSeqCst).map Packet.item? := by
  have hkept : (s.returned x).filter RecvOkRaw.isSeqCst =
      ((s.history x).deliveries.map Prod.snd).filter RecvOkRaw.isSeqCst := by
    rw [h.deliveries, List.filter_filter]
    refine List.filter_congr fun ok _ => ?_
    cases ok <;> simp [RecvOkRaw.isSeqCst, RecvOkRaw.acked?]
  have hitems := h.items
  rw [hkept]
  generalize (s.history x).deliveries = ds at hitems
  induction ds with
  | nil => rfl
  | cons d ds ih =>
    have hd := hitems d List.mem_cons_self
    have htail := ih fun d' hd' => hitems d' (List.mem_cons_of_mem d hd')
    simp only [List.map_cons, List.filter_cons, isSeqCst_of_item? hd]
    split
    · rw [List.map_cons, List.map_cons, hd, htail]
    · exact htail

/-- When a step returns a SeqCst packet, it is the packet at some position `j` of
what the peer sent. Nobody at this side is in a critical section then, the sections
entered before are those of the SeqCst packets below `j`, in their order, and
every packet below `j` was returned before. -/
theorem criticalSections_inOrder {x : Side} (hC : ∃ e, cap x = 2 ^ e) (encode : S → R)
    (interval : Side → Int64) (initialSeqNo : SeqNo) {s : Network S R cap}
    (hrun : Reaches Possible (perform encode) (start interval initialSeqNo) s)
    (hcount : (s.sentBy x.peer).length < 2 ^ 31) {k : ℕ} {op : Op S R}
    (hpos : s.Possible (.thread x k op)) {ok : RecvOkRaw S R}
    (hok : ((s.shared x).perform k op).1.delivery? = some ok) (hcst : ok.isSeqCst = true) :
    (s.shared x).tokens = 0 ∧
      ∃ j p, wire? encode (s.sentBy x.peer) j = some p ∧ p.item? = ok.item? ∧
        ((s.returned x).filter RecvOkRaw.isSeqCst).map RecvOkRaw.item? =
          ((((s.sentBy x.peer).take j).map (Packet.map encode)).filter Packet.isSeqCst).map
            Packet.item? ∧
        ∀ i < j, ∀ q, wire? encode (s.sentBy x.peer) i = some q →
          ∃ ok' ∈ s.returned x, ok'.item? = q.item? := by
  have hsession := reaches_session hrun
  have hreturns := reaches_returns hrun x
  rw [((s.shared x).perform_spec k op).2.1] at hok
  obtain ⟨c, hc, hdel⟩ := Option.bind_eq_some_iff.mp hok
  have hfree := (s.shared x).inner.seq.isLocked_of_delivery c ok hdel hcst
  refine ⟨tokens_eq_zero (reaches_shared hrun x) hfree, ?_⟩
  have hcarries := Session.reaches_carries (fun _ _ h => h) hsession x.peer
  obtain ⟨I, hI, hkeeps⟩ := Session.reaches_keepsOrder hC hsession hcount
  have hevent : s.session.Possible (.call x c) := hpos.event _ (by simp [event?, hc])
  obtain ⟨J, -, htakes⟩ := hI.call hC hcarries.sends hcount fun n r b d hin =>
    hcarries.input hevent hin
  -- the step adds one delivery, with the result `ok`
  obtain ⟨⟨l, hl, hresults, hitems⟩, -⟩ :=
    History.record_returned (s.shared x).inner.seq c (s.history x)
  have hsome : ok.acked?.isNone = true := by
    cases ok with
    | ack d => cases hcst
    | _ => rfl
  rw [hdel, Option.toList_some, List.filter_singleton, hsome, cond_true,
    List.map_eq_singleton_iff] at hresults
  obtain ⟨d, rfl, hd⟩ := hresults
  obtain ⟨-, hitem⟩ := hitems d (List.mem_singleton_self d)
  rw [hd] at hitem
  cases htakes with
  | nothing _ hsame =>
    have hlength := congrArg List.length (hsame.symm.trans hl)
    simp [session] at hlength
  | position j d' _ hj hdel' hdeliver _ =>
    obtain rfl : d' = d := by simpa using (List.append_cancel_left (hdel'.symm.trans hl))
    have hord : orderedAt (s.sentBy x.peer) j = true :=
      (orderedAt_of_wire hj).trans ((isSeqCst_of_item? hitem).trans hcst)
    have hcursor : j = I.cursor := hdeliver.eq_cursor hord
    refine ⟨j, d'.1, hj, hitem, ?_, fun i hi q hq => ?_⟩
    · rw [hreturns.seqCst, hcursor]
      exact congrArg _ (hI.seqCst_deliveries hkeeps.initial)
    · -- the positions below the cursor were delivered
      have hmem : i ∈ I.log := (hI.sound.mem_log i).mpr (.inl (hcursor ▸ hi))
      obtain ⟨d'', hd'', hwire⟩ := hI.delivery_of_mem_log hmem
      obtain rfl : q = d''.1 := Option.some.inj (hq.symm.trans hwire)
      refine ⟨d''.2, ?_, (hreturns.items d'' hd'').symm⟩
      have hmem' : d''.2 ∈ (s.history x).deliveries.map Prod.snd := List.mem_map_of_mem hd''
      rw [hreturns.deliveries] at hmem'
      exact List.mem_of_mem_filter hmem'

/-- The second SeqCst packet, pumped after the first was consumed. -/
theorem criticalSections_inOrder_afterOvertaken :
    (((afterOvertaken : Network ℕ ℕ fun _ => 4).shared .b).perform 0 .tryPump).1.delivery? =
        some (.payload 1 true 71) ∧
      ((afterOvertaken : Network ℕ ℕ fun _ => 4).shared .b).tokens = 0 :=
  ⟨by decide, (criticalSections_inOrder ⟨2, rfl⟩ id (fun _ => 100) 0
    (Allowed.reaches (l := overtaken) (by decide)) (by decide)
    (show (afterOvertaken : Network ℕ ℕ fun _ => 4).Possible (.thread .b 0 .tryPump) by decide)
    (show (((afterOvertaken : Network ℕ ℕ fun _ => 4).shared .b).perform 0 .tryPump).1.delivery? =
      some (.payload 1 true 71) by decide) rfl).1⟩

/-! ## After `close` -/

/-- The state machine `t` was left by `s` by handing over the stored packets of
`cells`, one after the other, and by resending. -/
structure Empties {CAP : ℕ} (s t : SeqEx S R CAP) (h h' : History S R)
    (cells : List (Fin CAP)) : Prop where
  sent : h'.sent = h.sent
  acks : h'.acks = h.acks
  nextSend : t.nextSendSeqNo = s.nextSendSeqNo
  deliveries : ∃ l, h'.deliveries = h.deliveries ++ l ∧
    List.Forall₂ (fun i d => s.stored i = some d.1) cells l
  pending : ∀ i p, t.pending i = some p → s.pending i = some p
  stored : ∀ i p, t.stored i = some p → s.stored i = some p ∧ i ∉ cells
  once : cells.Nodup

namespace Empties

variable {CAP : ℕ} {s t : SeqEx S R CAP} {h h' : History S R} {cells : List (Fin CAP)}

/-- Nothing was done yet. -/
theorem refl (s : SeqEx S R CAP) (h : History S R) : Empties s s h h [] where
  sent := rfl
  acks := rfl
  nextSend := rfl
  deliveries := ⟨[], by simp, .nil⟩
  pending _ _ hp := hp
  stored _ _ hp := ⟨hp, List.not_mem_nil⟩
  once := List.nodup_nil

variable [NeZero CAP]

/-- Such a call hands over one more stored packet, or none. What it puts on the
wire was pending. -/
theorem call (he : Empties s t h h' cells) {c : Call S R}
    (hc : c = .pump ∨ c = .unlock ∨ ∃ time, c = .service time) :
    (∃ cells', cells <+: cells' ∧
      Empties s (t.call c).2 h (h'.record (t.input? c) (t.call c).1) cells') ∧
      ∀ p ∈ (t.call c).1.emitted, ∃ i, s.pending i = some p := by
  have hreceive (p : Packet R) : c ≠ .receive p := by
    rcases hc with rfl | rfl | ⟨time, rfl⟩ <;> simp
  have heff := t.call_effect c
  have hstores {i : Fin CAP} {p : Packet R} (hp : (t.call c).2.stored i = some p) :
      t.stored i = some p := (SeqEx.call_stored c hp).resolve_right (hreceive p)
  generalize (t.call c).1 = a, (t.call c).2 = t' at heff hstores ⊢
  cases heff with
  | send _ _ _ hc' | reply _ _ _ _ _ hc' | ack _ _ hc' =>
    rcases hc with rfl | rfl | ⟨time, rfl⟩ <;> cases hc'
  | heed r hc' | hold n r b d e hc' => exact absurd hc' (hreceive _)
  | resendAck n r b d hc' => exact absurd hc' (hreceive _)
  | unlock _ =>
    exact ⟨⟨cells, List.prefix_rfl, { he with }⟩, List.forall_mem_nil _⟩
  | idle _ hquiet =>
    rw [hquiet.1, hquiet.2]
    exact ⟨⟨cells, List.prefix_rfl, he⟩, List.forall_mem_nil _⟩
  | resend _ _ hre _ hrec hout =>
    rw [hrec]
    refine ⟨⟨cells, List.prefix_rfl, { he with
      nextSend := hre.nextSend.trans he.nextSend
      pending := fun i p hp => he.pending i p (hre.pending ▸ hp)
      stored := fun i p hp => he.stored i p (hstores hp) }⟩, fun p hp => ?_⟩
    obtain ⟨i, hi⟩ := hout p hp
    exact ⟨i, he.pending i p hi⟩
  | hand n r b d doPump u hin hplaced hfull hlock =>
    have hpump : c = .pump := by
      rcases hc with rfl | rfl | ⟨time, rfl⟩
      · rfl
      all_goals cases hin
    subst hpump
    obtain ⟨l, hl, hcells⟩ := he.deliveries
    have hok := u.handOver_ne_ack n r b d
    obtain ⟨hwin, hnext, -, -⟩ := hplaced.frame
    obtain ⟨hn, hw⟩ := u.handOver_send n r b d
    have hcell : t.stored (cell CAP t.nextRecvSeqNo) = some (.newWithData n r b d) := hin
    -- the cell of the cursor is empty afterwards
    have hgone (p : Packet R) :
        (u.handOver n r b d).2.stored (cell CAP t.nextRecvSeqNo) ≠ some p := by
      intro hp
      obtain ⟨n', r', b', d', hocc, -⟩ := SeqEx.stored_eq_some hp
      rw [(u.handOver_receive n r b d).2] at hocc
      cases hplaced with
      | next _ =>
        have hset : (t.setRecvEntry t.nextRecvSeqNo .empty).recvWindow
            (cell CAP t.nextRecvSeqNo) = .occupied n' r' b' d' :=
          SeqEx.fastForwardLoop_occupied hocc
        simp at hset
      | ahead hne _ _ _ => exact absurd rfl hne
    rw [hin, History.record_handing, History.take_delivery hok, Call.handing_emitted]
    refine ⟨⟨cells ++ [cell CAP t.nextRecvSeqNo], List.prefix_append _ _, ?_⟩,
      List.forall_mem_nil _⟩
    exact {
      sent := he.sent
      acks := he.acks
      nextSend := (hn.trans hnext).trans he.nextSend
      deliveries := ⟨l ++ [_], by rw [hl, List.append_assoc],
        List.rel_append hcells (.cons (he.stored _ _ hcell).1 .nil)⟩
      pending := fun i p hp => he.pending i p (by
        rw [← SeqEx.pending_congr hwin]
        exact hw i p hp)
      stored := fun i p hp => by
        obtain ⟨hs, hnot⟩ := he.stored i p (hstores hp)
        refine ⟨hs, fun hmem => ?_⟩
        rcases List.mem_append.mp hmem with hmem | hmem
        · exact hnot hmem
        · rw [List.mem_singleton.mp hmem] at hp
          exact hgone p hp
      once := by
        refine List.nodup_append.mpr ⟨he.once, List.nodup_singleton _, ?_⟩
        rintro i hi _ hj rfl
        rw [List.mem_singleton.mp hj] at hi
        exact (he.stored _ _ hcell).2 hi }

end Empties

end Network

end Sync

end SequentialExchange
