import SequentialExchange.DataIndependence
import SequentialExchange.Links
import SequentialExchange.TokioExchanges

/-!
# Two endpoints with futures

The state machines of two instances of `tokio.rs` keep the oneshots of their futures in
their windows. Without the oneshots they are a session of two peers, so that everything
proved about sessions holds of them: a future of an exchange comes back with the reply
that the remote application made to its packet, or learns that it was acknowledged.
-/

namespace SequentialExchange

open WrapNumbering GuardedRuns Exchange

section Nodes

variable {S S' R R' : Type*} {CAP : ℕ} (f : S → S') (g : R → R')

/-- The node with other data. -/
def Node.mapData (n : Node S R CAP) : Node S' R' CAP :=
  ⟨n.seqEx.mapData f g, n.history.mapData f g⟩

/-- A call on a node with other data. -/
theorem Node.perform_mapData [NeZero CAP] (n : Node S R CAP) (c : Call S R) :
    (n.mapData f g).perform (c.mapData f g) = (n.perform c).mapData f g := by
  simp only [Node.mapData, Node.perform, SeqEx.call_mapData, SeqEx.input?_mapData,
    History.record_mapData]

/-- The numbers delivered are no data. -/
theorem History.deliveredNumbers_mapData (h : History S R) :
    (h.mapData f g).deliveredNumbers = h.deliveredNumbers := by
  rw [deliveredNumbers, mapData, List.filterMap_map]
  refine List.filterMap_congr fun d _ => ?_
  exact Packet.seqNo?_map g d.1

end Nodes

namespace Tokio

open Sync (ReplyGuard)

variable {S R : Type*}

/-! ## What goes on the wire -/

section Wire

variable {CAP : ℕ} [NeZero CAP]

/-- The packets that the calls give to `TransportLayer::send`. -/
def emittedBy (q : SeqEx (Sender S) (Receiver R) CAP) :
    List (Call (Sender S) (Receiver R)) → List (Packet (Sender S))
  | [] => []
  | c :: cs => (q.call c).1.emitted ++ emittedBy (q.call c).2 cs

/-! Only the first call of a `receive` receives. -/

namespace Work

omit [NeZero CAP] in
/-- Handing over a value receives no packet. -/
theorem receive_notMem_handCalls (w : Work S R CAP) (chan : ℕ) (mail : Mail R)
    (p : Packet (Receiver R)) : .receive p ∉ w.handCalls chan mail := by
  unfold handCalls
  cases post chan (some mail) w.tasks <;> simp

omit [NeZero CAP] in
/-- Nor does a dispatch. -/
theorem receive_notMem_dispatchCalls (w : Work S R CAP) (ok : RecvOkRaw (Sender S) (Receiver R))
    (p : Packet (Receiver R)) : .receive p ∉ w.dispatchCalls ok := by
  cases ok with
  | payload n b d => exact w.receive_notMem_handCalls _ _ p
  | reply n b d e => exact w.receive_notMem_handCalls _ _ p
  | ack e => exact List.not_mem_nil

omit [NeZero CAP] in
/-- Nor does what follows a received packet. -/
theorem receive_notMem_settleCalls (w : Work S R CAP) (ok : RecvOkRaw (Sender S) R)
    (p : Packet (Receiver R)) : .receive p ∉ w.settleCalls ok := by
  cases ok with
  | payload n b d => exact List.not_mem_nil
  | reply n b d e => exact w.receive_notMem_handCalls _ _ p
  | ack e => exact List.not_mem_nil

/-- Nor does the pump loop. -/
theorem receive_notMem_pumpCalls (fuel : ℕ) (w : Work S R CAP) (p : Packet (Receiver R)) :
    .receive p ∉ pumpCalls fuel w := by
  induction fuel generalizing w with
  | zero => exact List.not_mem_nil
  | succ fuel ih =>
    unfold pumpCalls
    dsimp only
    rw [List.mem_cons, not_or]
    refine ⟨by simp, ?_⟩
    cases w.seq.tryPumpRaw.1 with
    | error e => exact List.not_mem_nil
    | ok res =>
      dsimp only
      rw [List.mem_append, not_or]
      refine ⟨receive_notMem_dispatchCalls _ _ p, ?_⟩
      split
      · exact ih _
      · exact List.not_mem_nil

end Work

/-- `receive_inner` receives its packet first, and no other. -/
theorem receiveCalls_eq (i : SeqExInner S R CAP) (tasks : List (Task S R)) (fresh : ℕ)
    (packet : Packet R) :
    ∃ cs, i.receiveCalls tasks fresh packet =
        .receive (packet.map fun data => (fresh, data)) :: cs ∧ ∀ p, .receive p ∉ cs := by
  unfold SeqExInner.receiveCalls
  refine ⟨_, rfl, fun p => ?_⟩
  split
  · rw [List.mem_append, not_or]
    refine ⟨?_, Work.receive_notMem_settleCalls _ _ p⟩
    split
    · exact Work.receive_notMem_pumpCalls _ _ p
    · exact List.not_mem_nil
  · exact List.not_mem_nil

/-- No other step receives a packet. -/
theorem Shared.receive_notMem_innerCalls (s : Shared S R CAP) {op : Op S R}
    (hop : ∀ packet, op ≠ .receive packet) (p : Packet (Receiver R)) :
    .receive p ∉ s.innerCalls op := by
  cases op with
  | receive packet => exact absurd rfl (hop packet)
  | resume k t =>
    simp only [innerCalls]
    split <;> simp [sendCall]
  | unlock g =>
    simp only [innerCalls]
    split <;> simp
  | _ => simp [innerCalls, sendCall]

/-- What a step gives to `TokioLayer::send`: the oneshots stay behind. -/
def Shared.emitted (s : Shared S R CAP) (op : Op S R) : List (Packet S) :=
  (emittedBy s.inner.seq (s.innerCalls op)).map (Packet.map Prod.snd)

end Wire

/-- Two shared endpoints and the packets in flight. -/
structure Network (S R : Type*) (cap : Side → ℕ) where
  /-- The instance at each side, with what it has done. -/
  side : (x : Side) → Recorded S R (cap x)
  /-- For each side, the packets it sent that are in flight. -/
  net : Side → List (Packet R)

/-- What can happen in a network. -/
inductive Step (S R : Type*) where
  /-- A future, a guard or the service task of a side makes a step. -/
  | act (x : Side) (op : Op S R)
  /-- A packet that was sent by a side is lost. -/
  | lose (x : Side) (i : ℕ)

namespace Network

variable {cap : Side → ℕ} [∀ x, NeZero (cap x)]

/-- Two new instances that were given the same initial number. -/
def start (interval : Side → Int64) (initialSeqNo : SeqNo) : Network S R cap where
  side x := Recorded.new (interval x) initialSeqNo
  net _ := []

/-- One step; `encode` is the serialization of the user. -/
def perform (encode : S → R) (s : Network S R cap) : Step S R → Network S R cap
  | .act x op =>
    { side := Function.update s.side x ((s.side x).next op)
      net := Function.update s.net x
        (s.net x ++ ((s.side x).shared.emitted op).map (Packet.map encode)) }
  | .lose x i => { s with net := Function.update s.net x ((s.net x).eraseIdx i) }

/-- A received packet is in flight. -/
def Arrives (s : Network S R cap) (x : Side) : Op S R → Prop
  | .receive p => p ∈ s.net x.peer
  | _ => True

/-- What can go on, with packets that are in flight. -/
def Possible (s : Network S R cap) : Step S R → Prop
  | .act x op => (s.side x).Possible op ∧ s.Arrives x op
  | .lose .. => True

/-- A received packet is looked up among those under way. -/
instance decidableArrives [DecidableEq R] (s : Network S R cap) (x : Side) :
    ∀ op, Decidable (s.Arrives x op)
  | .receive p => inferInstanceAs (Decidable (p ∈ s.net x.peer))
  | .send .. | .listen _ | .resume .. | .enqueue _ | .resolve _ | .closed _ | .drop ..
  | .notifyOne _ | .notifyWaiters | .replyWith .. | .ack _ | .unlock _ | .dropReplyGuard _
  | .toComponents _ | .fromComponents _ | .dropSeqCstGuard | .takeUpdate _ | .service _ =>
    isTrue trivial

/-- A step is possible if its instance can make it and its packet is there. -/
instance decidablePossible [DecidableEq R] (s : Network S R cap) : ∀ e, Decidable (s.Possible e)
  | .act x op => inferInstanceAs (Decidable ((s.side x).Possible op ∧ s.Arrives x op))
  | .lose .. => isTrue trivial

/-- The packets sent by `x` so far, each with its oneshot. -/
def sentBy (s : Network S R cap) (x : Side) : List (Packet (Sender S)) := (s.side x).history.sent

/-- The two state machines without the oneshots, and the network between them. -/
def session (s : Network S R cap) : Session S R cap where
  node x := (s.side x).node.mapData Prod.snd Prod.snd
  net := s.net

/-! ## The session of a network -/

variable {encode : S → R} {s : Network S R cap}

omit [∀ x, NeZero (cap x)] in
/-- New instances are new endpoints. -/
theorem session_start (interval : Side → Int64) (base : SeqNo) :
    (start interval base : Network S R cap).session = Session.start interval base := rfl

omit [∀ x, NeZero (cap x)] in
/-- The packets sent, without their oneshots. -/
theorem session_sentBy (x : Side) :
    s.session.sentBy x = (s.sentBy x).map (Packet.map Prod.snd) := rfl

omit [∀ x, NeZero (cap x)] in
/-- As many were sent. -/
theorem session_sentCount (x : Side) : s.session.sentCount x = (s.sentBy x).length :=
  List.length_map _

/-- The session after calls of `x` on its node `n`. -/
def afterCalls (encode : S → R) (u : Session S R cap) (x : Side)
    (n : Node (Sender S) (Receiver R) (cap x)) (cs : List (Call (Sender S) (Receiver R))) :
    Session S R cap where
  node := Function.update u.node x ((n.performAll cs).mapData Prod.snd Prod.snd)
  net := Function.update u.net x
    (u.net x ++ ((emittedBy n.seqEx cs).map (Packet.map Prod.snd)).map (Packet.map encode))

section Calls

variable {u : Session S R cap} {x : Side} {n : Node (Sender S) (Receiver R) (cap x)}

/-- Nothing happens without a call. -/
theorem afterCalls_nil (hn : u.node x = n.mapData Prod.snd Prod.snd) :
    afterCalls encode u x n [] = u := by
  have hnode : Function.update u.node x (n.mapData Prod.snd Prod.snd) = u.node := by
    rw [← hn, Function.update_eq_self]
  have hnet : Function.update u.net x (u.net x ++ []) = u.net := by
    rw [List.append_nil, Function.update_eq_self]
  show (⟨Function.update u.node x (n.mapData Prod.snd Prod.snd),
    Function.update u.net x (u.net x ++ [])⟩ : Session S R cap) = u
  rw [hnode, hnet]

/-- The first call is an event of the session. -/
theorem afterCalls_cons (encode : S → R) (hn : u.node x = n.mapData Prod.snd Prod.snd)
    (c : Call (Sender S) (Receiver R)) (cs : List (Call (Sender S) (Receiver R))) :
    (u.perform encode (.call x (c.mapData Prod.snd Prod.snd))).node x =
        (n.perform c).mapData Prod.snd Prod.snd ∧
      afterCalls encode u x n (c :: cs) = afterCalls encode
        (u.perform encode (.call x (c.mapData Prod.snd Prod.snd))) x (n.perform c) cs := by
  have hnode : (u.perform encode (.call x (c.mapData Prod.snd Prod.snd))).node x =
      (n.perform c).mapData Prod.snd Prod.snd := by
    rw [Session.perform_node_self, ← Node.perform_mapData, ← hn]
    rfl
  have hnodes : (u.perform encode (.call x (c.mapData Prod.snd Prod.snd))).node =
      Function.update u.node x ((n.perform c).mapData Prod.snd Prod.snd) := by
    rw [← hnode, Session.perform_node_self]
    rfl
  have hnet : (u.perform encode (.call x (c.mapData Prod.snd Prod.snd))).net =
      Function.update u.net x (u.net x ++
        ((n.seqEx.call c).1.emitted.map (Packet.map Prod.snd)).map (Packet.map encode)) := by
    rw [← Answer.emitted_mapData Prod.snd Prod.snd]
    simp only [Session.perform, hn, Node.mapData, SeqEx.call_mapData]
  refine ⟨hnode, ?_⟩
  unfold afterCalls
  rw [hnodes, hnet, Function.update_idem, Function.update_idem, Function.update_self,
    List.append_assoc, ← List.map_append, ← List.map_append]
  rfl

/-- Calls that receive nothing are a run of the session. -/
theorem calls_reach {guard : Session S R cap → Event S R → Prop}
    (hg : ∀ u (c : Call (Sender S) (Receiver R)), (∀ p, c ≠ .receive p) →
      guard u (.call x (c.mapData Prod.snd Prod.snd)))
    {cs : List (Call (Sender S) (Receiver R))} (hcs : ∀ p, .receive p ∉ cs)
    (hn : u.node x = n.mapData Prod.snd Prod.snd) :
    Reaches guard (Session.perform encode) u (afterCalls encode u x n cs) := by
  induction cs generalizing u n with
  | nil =>
    rw [afterCalls_nil hn]
    exact Reaches.refl
  | cons c cs ih =>
    obtain ⟨hnode, hafter⟩ := afterCalls_cons encode hn c cs
    rw [hafter]
    have hfirst := hg u c fun p hp => hcs p (hp ▸ List.mem_cons_self)
    exact (Reaches.single hfirst).trans (ih (fun p hp => hcs p (List.mem_cons_of_mem _ hp)) hnode)

end Calls

/-- The event that a packet is received, if one is. -/
def receiving? (x : Side) : Op S R → Option (Event S R)
  | .receive p => some (.call x (.receive p))
  | _ => none

/-- The session after a step of a side. -/
theorem session_act (x : Side) (op : Op S R) :
    (s.perform encode (.act x op)).session = afterCalls encode s.session x (s.side x).node
      ((s.side x).shared.innerCalls op) := by
  have hnode : (s.side x).node.performAll ((s.side x).shared.innerCalls op) =
      ((s.side x).next op).node := ((s.side x).next_node op).symm
  have hnodes : (s.perform encode (.act x op)).session.node = Function.update s.session.node x
      (((s.side x).next op).node.mapData Prod.snd Prod.snd) := by
    funext y
    rcases eq_or_ne y x with rfl | hy
    · simp [session, perform]
    · simp [session, perform, hy]
  rw [afterCalls, hnode, ← hnodes]
  rfl

/-- A step of a side is a run of the session, under any guard that allows the calls
that receive nothing. -/
theorem act_reaches {guard : Session S R cap → Event S R → Prop} {x : Side}
    (hg : ∀ u (c : Call (Sender S) (Receiver R)), (∀ p, c ≠ .receive p) →
      guard u (.call x (c.mapData Prod.snd Prod.snd)))
    {op : Op S R} (hreceive : ∀ e ∈ receiving? x op, guard s.session e) :
    Reaches guard (Session.perform encode) s.session
      (s.perform encode (.act x op)).session := by
  rw [session_act]
  by_cases hop : ∃ packet, op = .receive packet
  · obtain ⟨packet, rfl⟩ := hop
    obtain ⟨cs, hcs, hno⟩ := receiveCalls_eq (s.side x).shared.inner (s.side x).shared.tasks
      (s.side x).shared.nextChan packet
    have hcalls : (s.side x).shared.innerCalls (.receive packet) =
        .receive (packet.map fun data => ((s.side x).shared.nextChan, data)) :: cs := hcs
    have hpacket : (packet.map fun data => ((s.side x).shared.nextChan, data)).map Prod.snd =
        packet := by cases packet <;> rfl
    obtain ⟨hnode, hafter⟩ := afterCalls_cons encode (u := s.session)
      (n := (s.side x).node) rfl
      (.receive (packet.map fun data => ((s.side x).shared.nextChan, data))) cs
    rw [hcalls, hafter]
    have hfirst := hreceive _ rfl
    rw [← hpacket] at hfirst
    exact (Reaches.single hfirst).trans (calls_reach hg hno hnode)
  · have hother (packet : Packet R) : op ≠ .receive packet := fun heq => hop ⟨packet, heq⟩
    exact calls_reach hg ((s.side x).shared.receive_notMem_innerCalls hother) rfl

/-- The step does not process an early copy of a packet. -/
def NoEarlyCopy (s : Network S R cap) : Step S R → Prop
  | .act x op => ∀ e ∈ receiving? x op, ∀ y, s.session.NoEarlyCopy y e
  | .lose .. => True

/-- The condition is read off the state before the step. -/
instance decidableNoEarlyCopy (s : Network S R cap) : ∀ e, Decidable (s.NoEarlyCopy e)
  | .act x op =>
    match h : receiving? x op with
    | some e => decidable_of_iff (∀ y, s.session.NoEarlyCopy y e) (by simp [NoEarlyCopy, h])
    | none => isTrue (by simp [NoEarlyCopy, h])
  | .lose .. => isTrue trivial

/-- A possible step is a run of the session, without early copies when the step
processes none. -/
theorem Possible.reaches (encode : S → R) {e : Step S R} (h : s.Possible e) :
    Reaches Session.Possible (Session.perform encode) s.session (s.perform encode e).session ∧
      (s.NoEarlyCopy e → Reaches (fun u e => u.Possible e ∧ ∀ y, u.NoEarlyCopy y e)
        (Session.perform encode) s.session (s.perform encode e).session) := by
  cases e with
  | lose x i =>
    have hlose : (s.perform encode (.lose x i)).session =
        s.session.perform encode (.lose x i) := rfl
    rw [hlose]
    exact ⟨Reaches.single trivial, fun _ => Reaches.single ⟨trivial, fun _ => trivial⟩⟩
  | act x op =>
    have hpossible : ∀ e ∈ receiving? x op, s.session.Possible e := by
      intro e he
      cases op with
      | receive packet =>
        cases he
        exact h.2
      | _ => cases he
    have hquiet (c : Call (Sender S) (Receiver R)) (hc : ∀ p, c ≠ .receive p)
        (u : Session S R cap) : u.Possible (.call x (c.mapData Prod.snd Prod.snd)) ∧
          ∀ y, u.NoEarlyCopy y (.call x (c.mapData Prod.snd Prod.snd)) := by
      cases c with
      | receive p => exact absurd rfl (hc p)
      | _ => exact ⟨trivial, fun _ => trivial⟩
    exact ⟨act_reaches (fun u c hc => (hquiet c hc u).1) hpossible, fun hearly =>
      act_reaches (fun u c hc => hquiet c hc u) fun e he => ⟨hpossible e he, hearly e he⟩⟩

/-- Every run of two instances with futures is a run of the session of their state
machines, with the packets as the network sees them. -/
theorem futures_refine_session (encode : S → R) (interval : Side → Int64) (initialSeqNo : SeqNo)
    (hrun : Reaches Possible (perform encode) (start interval initialSeqNo) s) :
    Reaches Session.Possible (Session.perform encode) (Session.start interval initialSeqNo)
      s.session := by
  have h := hrun.refines session fun u e _ he => (he.reaches encode).1
  rwa [session_start] at h

/-- Each instance keeps its values where they belong. -/
theorem reaches_sound (encode : S → R) (interval : Side → Int64) (initialSeqNo : SeqNo)
    (hrun : Reaches Possible (perform encode) (start interval initialSeqNo) s) (x : Side) :
    (s.side x).Sound initialSeqNo := by
  refine hrun.invariant (I := fun u => (u.side x).Sound initialSeqNo)
    (Recorded.Sound.start (interval x) initialSeqNo) fun u e _ h he => ?_
  cases e with
  | lose y i => exact h
  | act y op =>
    rcases eq_or_ne x y with rfl | hxy
    · simp only [perform, Function.update_self]
      exact h.next he.1
    · simp only [perform, Function.update_of_ne hxy]
      exact h

section Peer

variable {base : SeqNo} {W : Side → Party} {x : Side} {chan : ℕ}

omit [∀ x, NeZero (cap x)] in
/-- A packet on the wire was sent with a oneshot. -/
theorem exists_sent {k : ℕ} {p : Packet R} (h : wire? encode (s.session.sentBy x) k = some p) :
    ∃ q, (s.sentBy x)[k]? = some q ∧ q.map (fun d => encode d.2) = p := by
  obtain ⟨q, hq, rfl⟩ := Option.map_eq_some_iff.mp h
  rw [session_sentBy, List.getElem?_map] at hq
  obtain ⟨q', hq', rfl⟩ := Option.map_eq_some_iff.mp hq
  exact ⟨q', hq', by cases q' <;> rfl⟩

omit [∀ x, NeZero (cap x)] in
/-- The same numbers were delivered. -/
theorem deliveredNumbers_session (x : Side) :
    (s.session.node x).history.deliveredNumbers = (s.side x).history.deliveredNumbers :=
  History.deliveredNumbers_mapData Prod.snd Prod.snd (s.side x).history

/-- The position that a reply was paired with was delivered by the peer. -/
theorem answer_from_peer (hW : Session.Follows encode base s.session W)
    (hcarries : ∀ x, Session.Carries encode base s.session x)
    (hs : (s.side x).Sound base) {mail : Mail R}
    (ha : Answers (s.side x).history chan (some mail)) :
    ∃ k q, SentWith (s.side x).history chan k q ∧
      number base k ∈ (s.side x.peer).history.deliveredNumbers ∧
      ∃ (j : ℕ) (q' : Packet (Sender S)), (s.sentBy x.peer)[j]? = some q' ∧
        q'.map (fun d => encode d.2) =
          .newWithData mail.replyNo (some (number base k)) mail.locked mail.data := by
  obtain ⟨k, q, c, w, hsent, hmem⟩ := hs.answer ha
  have hd : (Packet.newWithData mail.replyNo (some (number base k)) mail.locked mail.data,
      RecvOkRaw.reply mail.replyNo mail.locked mail.data w) ∈
        (s.session.node x).history.deliveries :=
    List.mem_map.mpr ⟨_, hmem, by simp [RecvOkRaw.mapData]⟩
  obtain ⟨j, r, hlog, hwire, ⟨-, hno, -⟩, -⟩ := (hW.shows x).paired_of_reply hd rfl
  obtain ⟨q', hq', hpacket⟩ := exists_sent hwire
  have hback := hW.consistent x.peer
  rw [Side.peer_peer] at hback
  have hdelivered := List.mem_map_of_mem (f := number base)
    ((hW.consistent x).paired_delivered hback hlog)
  rw [← (hW.shows x.peer).deliveredNumbers_eq (hcarries x.peer.peer).sends,
    deliveredNumbers_session] at hdelivered
  rw [Packet.replyNo?_newWithData] at hno
  exact ⟨k, q, hsent, Option.some.inj hno ▸ hdelivered, j, q', hq', hpacket⟩

/-- The position that was acknowledged was delivered by the peer. -/
theorem ending_from_peer (hW : Session.Follows encode base s.session W)
    (hcarries : ∀ x, Session.Carries encode base s.session x)
    (hs : (s.side x).Sound base) (ha : Answers (s.side x).history chan none) :
    ∃ k q, SentWith (s.side x).history chan k q ∧
      number base k ∈ (s.side x.peer).history.deliveredNumbers ∧ ∃ a ∈
        (s.session.node x).history.acks, a.1 = number base k := by
  obtain ⟨k, q, w, hsent, hmem⟩ := hs.ending ha
  have hack : (number base k, w) ∈ (s.session.node x).history.acks :=
    List.mem_map.mpr ⟨_, hmem, rfl⟩
  obtain ⟨r, hr, hnum, -⟩ := (hW.shows x).heard_of_ack hack
  have hdelivered := List.mem_map_of_mem (f := number base)
    ((hW.consistent x).heard_delivered r hr)
  rw [← (hW.shows x.peer).deliveredNumbers_eq (hcarries x.peer.peer).sends,
    deliveredNumbers_session] at hdelivered
  dsimp only at hnum
  exact ⟨k, q, hsent, hnum ▸ hdelivered, _, hack, rfl⟩

end Peer

/-- In every run with fewer than `2^31` packets in each direction: the future of an exchange
returns a reply that the remote peer made, as it made it, to the packet that the future
sent; and it returns at all only after the remote peer was handed that packet. -/
theorem exchanged_endToEnd (hC : ∀ x, ∃ e ≥ 2, cap x = 2 ^ e) (encode : S → R)
    (interval : Side → Int64) (initialSeqNo : SeqNo)
    (hrun : Reaches Possible (perform encode) (start interval initialSeqNo) s)
    (hcount : ∀ x, (s.sentBy x).length < 2 ^ 31) (x : Side) {chan : ℕ}
    {r : Except AsyncError (ReplyGuard × R)}
    (hreturned : (some chan, .exchanged r) ∈ (s.side x).returned) :
    (∀ g d, r = .ok (g, d) → ∃ k q, SentWith (s.side x).history chan k q ∧
      number initialSeqNo k ∈ (s.side x.peer).history.deliveredNumbers ∧
      ∃ q' ∈ s.sentBy x.peer, q'.map (fun d => encode d.2) =
        .newWithData g.replyNo (some (number initialSeqNo k)) g.isHoldingLock d) ∧
    (r = .error .endOfExchange → ∃ k q, SentWith (s.side x).history chan k q ∧
      number initialSeqNo k ∈ (s.side x.peer).history.deliveredNumbers) := by
  have hs := reaches_sound encode interval initialSeqNo hrun x
  have hsession := hrun.refines session fun u e _ he => (he.reaches encode).1
  rw [session_start] at hsession
  obtain ⟨W, hW, -⟩ := Session.reaches_follows (Q := fun _ => True) hC (fun _ _ h => h) trivial
    (fun _ _ _ _ _ _ _ _ _ _ => trivial) hsession (fun y => by
      rw [session_sentCount]
      exact hcount y)
  have hcarries := Session.reaches_carries (fun _ _ h => h) hsession
  constructor
  · rintro g d rfl
    obtain ⟨k, q, hsent, hdelivered, j, q', hq', hpacket⟩ :=
      answer_from_peer hW hcarries hs (hs.answered chan _ _ hreturned rfl)
    exact ⟨k, q, hsent, hdelivered, q', List.mem_of_getElem? hq', hpacket⟩
  · rintro rfl
    obtain ⟨k, q, hsent, hdelivered, -⟩ :=
      ending_from_peer hW hcarries hs (hs.answered chan _ _ hreturned rfl)
    exact ⟨k, q, hsent, hdelivered⟩

/-- A packet that names a number answers the position of that number. -/
theorem answers_of_reply {base : SeqNo} {W : Side → Party} {x : Side}
    (hW : Session.Follows encode base s.session W) (hcount : ∀ x, (s.sentBy x).length < 2 ^ 31)
    {k i : ℕ} {p : Packet (Sender S)} (hp : (s.sentBy x.peer)[i]? = some p)
    (hno : p.replyNo? = some (number base k)) (hk : k < (s.sentBy x).length) :
    (W x.peer).answers i = some k := by
  have hsession (y : Side) : s.session.sentCount y < 2 ^ 31 := by
    rw [session_sentCount]
    exact hcount y
  refine hW.answers_of_replyNo hsession (x := x.peer) (q := p.map Prod.snd) ?_ ?_ ?_
  · rw [session_sentBy, List.getElem?_map, hp]
    rfl
  · rw [Side.peer_peer, session_sentCount]
    exact hk
  · rw [Packet.replyNo?_map]
    exact hno

/-- While no early copy is processed the two peers agree on an exchange: the future returns
the only reply that the remote peer made to the packet, and when it returns that the
exchange has ended the remote peer made no reply to it. -/
theorem exchanged_agrees (hC : ∀ x, ∃ e ≥ 2, cap x = 2 ^ e) (encode : S → R)
    (interval : Side → Int64) (initialSeqNo : SeqNo)
    (hrun : Reaches (fun u e => u.Possible e ∧ u.NoEarlyCopy e) (perform encode)
      (start interval initialSeqNo) s)
    (hcount : ∀ x, (s.sentBy x).length < 2 ^ 31) (x : Side) {chan : ℕ}
    {r : Except AsyncError (ReplyGuard × R)}
    (hreturned : (some chan, .exchanged r) ∈ (s.side x).returned) :
    (∀ g d, r = .ok (g, d) → ∃ (k : ℕ) (q : Packet (Sender S)) (j : ℕ) (q' : Packet (Sender S)),
      SentWith (s.side x).history chan k q ∧ (s.sentBy x.peer)[j]? = some q' ∧
      q'.map (fun d => encode d.2) =
        .newWithData g.replyNo (some (number initialSeqNo k)) g.isHoldingLock d ∧
      ∀ i p, (s.sentBy x.peer)[i]? = some p →
        p.replyNo? = some (number initialSeqNo k) → i = j) ∧
    (r = .error .endOfExchange → ∃ k q, SentWith (s.side x).history chan k q ∧
      ∀ p ∈ s.sentBy x.peer, p.replyNo? ≠ some (number initialSeqNo k)) := by
  have hs := reaches_sound encode interval initialSeqNo (hrun.weaken fun _ _ _ h => h.1) x
  have hsession := hrun.refines session fun u e _ he =>
    (he.1.reaches encode).2 he.2
  rw [session_start] at hsession
  obtain ⟨W, hW, hlinked⟩ := Session.reaches_linked hC (fun _ _ h => h) hsession (fun y => by
    rw [session_sentCount]
    exact hcount y)
  have hcarries := Session.reaches_carries (fun _ _ h => h.1) hsession
  constructor
  · rintro g d rfl
    obtain ⟨k, q, hsent, -, j, q', hq', hpacket⟩ :=
      answer_from_peer hW hcarries hs (hs.answered chan _ _ hreturned rfl)
    refine ⟨k, q, j, q', hsent, hq', hpacket, fun i p hp hno => ?_⟩
    have hlt := (List.getElem?_eq_some_iff.mp hsent.1).1
    have hno' : q'.replyNo? = some (number initialSeqNo k) := by
      rw [← Packet.replyNo?_map, hpacket, Packet.replyNo?_newWithData]
    exact (hlinked x.peer).answers_inj i j k (answers_of_reply hW hcount hp hno hlt)
      (answers_of_reply hW hcount hq' hno' hlt)
  · rintro rfl
    obtain ⟨k, q, hsent, -, a, ha, hnum⟩ :=
      ending_from_peer hW hcarries hs (hs.answered chan _ _ hreturned rfl)
    refine ⟨k, q, hsent, fun p hp hno => ?_⟩
    obtain ⟨m, hm, hnum', q', hq', -⟩ := (hW.shows x).heard_of_ack ha
    obtain ⟨i, hi⟩ := List.mem_iff_getElem?.mp hp
    have hlt := (List.getElem?_eq_some_iff.mp hq').1
    rw [hnum] at hnum'
    rw [hnum'] at hno
    refine ((hlinked x).heard_acked m hm).2 i (answers_of_reply hW hcount hi hno ?_)
    rw [← session_sentCount]
    exact hlt

/-- A packet is sent, handed to a future of `receive` and replied to, with the reply
delivered; another one is acknowledged. -/
def answeredAndEnded : List (Step ℕ ℕ) :=
  [.act .a (.send 0 false fun _ => 70), .act .a (.send 0 false fun _ => 71),
    .act .b (.receive (.payload 0 70)), .act .b (.receive (.payload 1 71)),
    .act .b (.replyWith ⟨0, false⟩ 0 false fun _ _ => 80), .act .b (.dropReplyGuard ⟨1, false⟩),
    .act .a (.receive (.reply 0 0 80)), .act .a (.receive (.ack 1)), .act .a (.enqueue 0),
    .act .a (.resolve 0), .act .a (.resolve 0)]

/-- The state after these steps. -/
def afterAnsweredAndEnded : Network ℕ ℕ cap :=
  answeredAndEnded.foldl (perform id) (start (fun _ => 100) 0)

/-- One exchange answered and one ended, as a run of the session. -/
theorem futures_refine_session_afterAnsweredAndEnded :
    Reaches Session.Possible (Session.perform id) (Session.start (fun _ => 100) 0)
      (afterAnsweredAndEnded : Network ℕ ℕ fun _ => 4).session :=
  futures_refine_session id (fun _ => 100) 0
    (Allowed.reaches (l := answeredAndEnded) (by decide +kernel))

/-- The answer was sent by the peer for the packet it received. -/
theorem exchanged_endToEnd_afterAnsweredAndEnded :
    ∃ k q, SentWith ((afterAnsweredAndEnded : Network ℕ ℕ fun _ => 4).side .a).history 0 k q ∧
      number 0 k ∈
        ((afterAnsweredAndEnded : Network ℕ ℕ fun _ => 4).side .b).history.deliveredNumbers ∧
      ∃ q' ∈ (afterAnsweredAndEnded : Network ℕ ℕ fun _ => 4).sentBy .b,
        q'.map (fun d => d.2) = .newWithData 0 (some (number 0 k)) false 80 :=
  (exchanged_endToEnd (fun _ => ⟨2, le_rfl, rfl⟩) id (fun _ => 100) 0
    (Allowed.reaches (l := answeredAndEnded) (by decide +kernel)) (by decide +kernel) .a
    (r := .ok (⟨0, false⟩, 80)) (by decide +kernel)).1 _ _ rfl

/-- The peer sent nothing for the exchange that it ended. -/
theorem exchanged_agrees_afterAnsweredAndEnded :
    ∃ k q, SentWith ((afterAnsweredAndEnded : Network ℕ ℕ fun _ => 4).side .a).history 1 k q ∧
      ∀ p ∈ (afterAnsweredAndEnded : Network ℕ ℕ fun _ => 4).sentBy .b,
        p.replyNo? ≠ some (number 0 k) :=
  (exchanged_agrees (fun _ => ⟨2, le_rfl, rfl⟩) id (fun _ => 100) 0
    (Allowed.reaches (l := answeredAndEnded) (by decide +kernel)) (by decide +kernel) .a
    (r := .error .endOfExchange) (by decide +kernel)).2 rfl

end Network

end Tokio

end SequentialExchange
