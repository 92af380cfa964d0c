import SequentialExchange.Emptying
import SequentialExchange.SingleThread
import SequentialExchange.TokioCalls

/-!
# The loop over `receive_all`

`receive_all` and `try_receive_all` of `sync.rs` return an iterator that pumps the
window between the packets. A program that is the only user of its endpoint runs
the body of a `for` loop over it, and the guard of each packet is dropped at the end
of the body. The loop always comes to its end, and the blocking iterator does what
the non-blocking one does.
-/

namespace SequentialExchange

open WrapNumbering GuardedRuns
open SingleThread (Idle)

variable {S R : Type*} {CAP : ℕ} [NeZero CAP]

/-! ## Handing over on an idle endpoint -/

/-- What is handed over and then acknowledged leaves the endpoint idle. -/
theorem SingleThread.Idle.delivered {q : SeqEx S R CAP} (h : Idle q) {c : Call S R}
    (hc : Sync.givesBack c = false) {ok : RecvOkRaw S R}
    (hok : (q.call c).1.delivery? = some ok) : Idle ((q.call c).2.ackDelivered ok) := by
  have hguard : Sync.guardOf? (q.call c).1 = Sync.ReplyGuard.ofRaw? ok := by
    rw [Sync.guardOf?, hok, Option.bind_some]
  have hsettled {n : SeqNo} {b : Bool} (hg : Sync.ReplyGuard.ofRaw? ok = some ⟨n, b⟩) :
      Idle ((q.call c).2.ackRawAndDirect n b).2 := by
    rcases Sync.call_issues q hc with ⟨g, hissued, hreplies, hlocked, -⟩ | ⟨hnone, -, -⟩
    · rw [hguard, hg] at hissued
      cases hissued
      rw [h.replies, List.nil_append] at hreplies
      rw [h.unlocked, Bool.false_or] at hlocked
      obtain ⟨hrest, hfree⟩ := Sync.call_settles (q.call c).2 (c := .ack n b) (.inl rfl)
        (r := 0) (by rw [hreplies]; rfl)
      refine ⟨(Multiset.coe_eq_zero _).mp hrest, hfree.trans ?_⟩
      rw [hlocked, Bool.and_not_self]
    · rw [hguard, hg] at hnone
      cases hnone
  cases ok with
  | payload n b d => exact hsettled rfl
  | reply n b d e => exact hsettled rfl
  | ack e =>
    rcases Sync.call_issues q hc with ⟨g, hissued, -, -, -⟩ | ⟨-, hreplies, hlocked⟩
    · rw [hguard] at hissued
      cases hissued
    · exact ⟨hreplies.trans h.replies, hlocked.trans h.unlocked⟩

namespace SeqEx

variable {s : SeqEx S R CAP}

omit [NeZero CAP] in
/-- Acknowledging touches no stored packet. -/
theorem ackDelivered_recvWindow (ok : RecvOkRaw S R) :
    (s.ackDelivered ok).recvWindow = s.recvWindow := by
  have hacked (n : SeqNo) (b : Bool) : (s.ackRawAndDirect n b).2.recvWindow = s.recvWindow := by
    simp only [ackRawAndDirect]
    rcases s.removeReservation_cases n with ⟨l, -, ht⟩ | ⟨-, ht⟩ <;> rw [ht] <;> rfl
  cases ok with
  | payload n b d | reply n b d e => exact hacked n b
  | ack e => rfl

/-- The cell of a packet that was handed over stores nothing. -/
theorem advance_stored_self (n : SeqNo) : (s.advance n).2.stored (cell CAP n) = none := by
  refine Option.eq_none_iff_forall_ne_some.mpr fun p hp => ?_
  obtain ⟨n', r, b, d, hw, -⟩ := stored_eq_some hp
  have hset : (s.setRecvEntry n .empty).recvWindow (cell CAP n) = .occupied n' r b d :=
    fastForwardLoop_occupied hw
  simp at hset

/-- After a `receive` that asks for pumping, one cell stores nothing. -/
theorem storedCount_receive_lt {packet : Packet R} {ok : RecvOkRaw S R}
    (h : (s.tryReceiveRawAndDirect id packet).1 = .ok (ok, true)) :
    (s.tryReceiveRawAndDirect id packet).2.storedCount < CAP := by
  have hcard {t : SeqEx S R CAP} {i : Fin CAP} (hi : t.stored i = none) : t.storedCount < CAP := by
    refine (Finset.card_lt_univ_of_notMem (x := i) ?_).trans_eq (Fintype.card_fin CAP)
    simp [hi]
  rcases packet.eq_ack_or_newWithData with ⟨m, rfl⟩ | ⟨n, r, b, d, rfl⟩
  · simp only [tryReceiveRawAndDirect] at h
    split at h <;> cases h
  · rw [tryReceive_newWithData] at h ⊢
    have hrecv := receiveData_cases id s n r b d
    generalize s.receiveData id n r b d = res at hrecv h ⊢
    cases hrecv with
    | next hrange hfull hlock hnext =>
      refine hcard (i := cell CAP n) ?_
      rw [stored, ((s.advance n).2.handOver_receive n r b d).2, ← stored]
      exact advance_stored_self n
    | _ => cases h

end SeqEx

namespace Sync

/-! ## `RecvIter` -/

/-- `RecvError`. -/
inductive RecvError where
  /-- The packet cannot be processed now, or was dropped. -/
  | outOfSequence
  /-- The instance was closed. -/
  | closed
  deriving DecidableEq, Repr

/-- `RecvIter`. -/
structure RecvIter (S R : Type*) where
  /-- Whether it refers to the instance, to pump it. -/
  seq : Bool
  /-- What the call that made it was returned. -/
  first : Option (RecvOkRaw S R)
  /-- Whether it pumps with `pump`, not with `try_pump`. -/
  blocking : Bool

namespace SeqExInner

/-- `receive`; `none` when it goes to sleep. -/
def receive (i : SeqExInner S R CAP) (packet : Packet R) :
    Option (Except RecvError (RecvOkRaw S R × Bool) × SeqExInner S R CAP) :=
  let r := i.tryReceive packet
  match r.result with
  | .ok o => some (.ok o, r.inner)
  | .error .waitingForReply =>
    let p := r.inner.pump
    match p.result with
    | .returned (some o) => some (.ok o, p.inner)
    | .returned none => some (.error .outOfSequence, p.inner)
    | .waits => none
  | .error .outOfSequence => some (.error .outOfSequence, r.inner)
  | .error .closed => some (.error .closed, r.inner)

/-- `receive_all`; `none` when it goes to sleep. -/
def receiveAll (i : SeqExInner S R CAP) (packet : Packet R) :
    Option (RecvIter S R × SeqExInner S R CAP) :=
  match i.receive packet with
  | some (.ok (first, doPump), i') => some (⟨doPump, some first, true⟩, i')
  | some (.error _, i') => some (⟨false, none, true⟩, i')
  | none => none

/-- `try_receive_all`. -/
def tryReceiveAll (i : SeqExInner S R CAP) (packet : Packet R) :
    RecvIter S R × SeqExInner S R CAP :=
  let r := i.tryReceive packet
  match r.result with
  | .ok (first, doPump) => (⟨doPump, some first, false⟩, r.inner)
  | .error _ => (⟨false, none, false⟩, r.inner)

end SeqExInner

namespace RecvIter

/-- `Iterator::next`; `none` when it goes to sleep. -/
def next (it : RecvIter S R) (i : SeqExInner S R CAP) :
    Option (Option (RecvOkRaw S R) × RecvIter S R × SeqExInner S R CAP) :=
  match it.first with
  | some item => some (some item, { it with first := none }, i)
  | none =>
    if it.seq then
      if it.blocking then
        let p := i.pump
        match p.result with
        | .returned (some (item, doPump)) => some (some item, { it with seq := doPump }, p.inner)
        | .returned none => some (none, it, p.inner)
        | .waits => none
      else
        let p := i.tryPump
        match p.result with
        | .ok (item, doPump) => some (some item, { it with seq := doPump }, p.inner)
        | .error _ => some (none, it, p.inner)
    else some (none, it, i)

/-- The items of a `for` loop that drops their guards, and the instance it leaves. The
first argument bounds the calls of `next`; `none` when it is used up, or when the
loop goes to sleep. -/
def forEach : ℕ → RecvIter S R → SeqExInner S R CAP →
    Option (List (RecvOkRaw S R) × SeqExInner S R CAP)
  | 0, _, _ => none
  | fuel + 1, it, i =>
    match it.next i with
    | some (some item, it', i') =>
      (forEach fuel it' (i'.dropItem item)).map fun r => (item :: r.1, r.2)
    | some (none, _, i') => some ([], i')
    | none => none

end RecvIter

namespace SeqExInner

/-- A `for` loop over `receive_all` or `try_receive_all`. -/
def forReceived (blocking : Bool) (i : SeqExInner S R CAP) (packet : Packet R) :
    Option (List (RecvOkRaw S R) × SeqExInner S R CAP) :=
  if blocking then (i.receiveAll packet).bind fun r => r.1.forEach (CAP + 2) r.2
  else (i.tryReceiveAll packet).1.forEach (CAP + 2) (i.tryReceiveAll packet).2

/-- The loop for each packet that comes in. -/
def forReceivedEach (blocking : Bool) (i : SeqExInner S R CAP) :
    List (Packet R) → Option (List (RecvOkRaw S R) × SeqExInner S R CAP)
  | [] => some ([], i)
  | p :: ps => (i.forReceived blocking p).bind fun r =>
    (r.2.forReceivedEach blocking ps).map fun r' => (r.1 ++ r'.1, r'.2)

/-- An open instance that nobody else uses, between two loops. -/
structure Unshared (i : SeqExInner S R CAP) : Prop where
  idle : Idle i.seq
  alone : i.replyReceiverWaiters = false
  opened : i.closed = false

variable {i : SeqExInner S R CAP}

omit [NeZero CAP] in
/-- Another idle state machine in the same instance. -/
theorem Unshared.next (h : i.Unshared) {q : SeqEx S R CAP} (hq : Idle q) :
    Unshared { i with seq := q } := ⟨hq, h.alone, h.opened⟩

omit [NeZero CAP] in
/-- Dropping the guard acknowledges the packet. -/
theorem dropItem_spec (hopened : i.closed = false) (item : RecvOkRaw S R) :
    (i.dropItem item).seq = i.seq.ackDelivered item ∧
      (i.dropItem item).replyReceiverWaiters = i.replyReceiverWaiters ∧
      (i.dropItem item).closed = false := by
  have hdropped (g : ReplyGuard) :
      (i.dropReplyGuard g).inner.seq = (i.seq.ackRawAndDirect g.replyNo g.isHoldingLock).2 ∧
        (i.dropReplyGuard g).inner.replyReceiverWaiters = i.replyReceiverWaiters ∧
        (i.dropReplyGuard g).inner.closed = false := by
    unfold dropReplyGuard notifyReply
    rw [if_neg (by rw [hopened]; exact Bool.false_ne_true)]
    split <;> exact ⟨rfl, rfl, hopened⟩
  cases item with
  | payload n b d => exact hdropped ⟨n, b⟩
  | reply n b d e => exact hdropped ⟨n, b⟩
  | ack e => exact ⟨rfl, rfl, hopened⟩

/-- The guard of the item is dropped at once, so nobody shares the instance. -/
theorem Unshared.handed (h : i.Unshared) {c : Call S R} (hc : givesBack c = false)
    (item : RecvOkRaw S R) (hok : (i.seq.call c).1.delivery? = some item) :
    Unshared (dropItem { i with seq := (i.seq.call c).2 } item) := by
  obtain ⟨hseq, halone, hopened⟩ :=
    dropItem_spec (i := { i with seq := (i.seq.call c).2 }) h.opened item
  refine ⟨?_, halone.trans h.alone, hopened⟩
  rw [hseq]
  exact h.idle.delivered hc hok

/-- `pump` and `try_pump` agree when nobody has to be waited for. -/
theorem next_of_pumping (hCAP : 2 < CAP) (h : i.Unshared) (blocking : Bool) :
    RecvIter.next ⟨true, none, blocking⟩ i =
      match i.seq.tryPumpRaw.1 with
      | .ok (item, doPump) =>
        some (some item, ⟨doPump, none, blocking⟩, { i with seq := i.seq.tryPumpRaw.2 })
      | .error _ => some (none, ⟨true, none, blocking⟩, { i with seq := i.seq.tryPumpRaw.2 }) := by
  have hne := h.idle.tryPump hCAP
  cases blocking with
  | true =>
    simp only [RecvIter.next, pump, h.alone, pumpLoop]
    cases hr : i.seq.tryPumpRaw.1 with
    | ok o => rfl
    | error e =>
      cases e with
      | waitingForRecv => rfl
      | waitingForReply => exact absurd hr hne
  | false =>
    simp only [RecvIter.next, tryPump]
    cases hr : i.seq.tryPumpRaw.1 <;> rfl

/-- A pump that fails changes nothing. -/
theorem tryPumpRaw_refused {q : SeqEx S R CAP} {e : TryError} (hres : q.tryPumpRaw.1 = .error e) :
    q.tryPumpRaw.2 = q := by
  have hpump := q.tryPumpRaw_cases
  generalize q.tryPumpRaw = res at hpump hres ⊢
  cases hpump with
  | next _ _ _ _ _ _ _ => cases hres
  | _ => rfl

/-- The iterator pumps what `pumpAll` pumps. -/
theorem forEach_pumping (hCAP : 2 < CAP) (blocking : Bool) (fuel : ℕ) (h : i.Unshared)
    (hless : i.seq.storedCount < fuel) :
    ∃ ds i', i.seq.pumpAll fuel = some (ds, i'.seq) ∧
      RecvIter.forEach (fuel + 1) ⟨true, none, blocking⟩ i = some (ds, i') ∧ i'.Unshared := by
  induction fuel generalizing i with
  | zero => exact absurd hless (Nat.not_lt_zero _)
  | succ fuel ih =>
    have hnext := next_of_pumping hCAP h blocking
    cases hr : i.seq.tryPumpRaw.1 with
    | error e =>
      have hsame := tryPumpRaw_refused hr
      have hpair : i.seq.tryPumpRaw = (.error e, i.seq) := Prod.ext hr hsame
      rw [hr, hsame] at hnext
      refine ⟨[], i, ?_, ?_, h⟩
      · simp only [SeqEx.pumpAll, hpair]
      · rw [RecvIter.forEach, hnext]
    | ok o =>
      obtain ⟨item, doPump⟩ := o
      have hpair : i.seq.tryPumpRaw = (.ok (item, doPump), i.seq.tryPumpRaw.2) := Prod.ext hr rfl
      have hcall : i.seq.call .pump = (.pumped item doPump, i.seq.tryPumpRaw.2) := by
        simp only [SeqEx.call, hr]
      have hkept := h.handed (c := .pump) rfl item (by rw [hcall]; rfl)
      rw [hcall] at hkept
      dsimp only at hkept
      obtain ⟨hseq, -, -⟩ :=
        dropItem_spec (i := { i with seq := i.seq.tryPumpRaw.2 }) h.opened item
      have hcount : (dropItem { i with seq := i.seq.tryPumpRaw.2 } item).seq.storedCount <
          i.seq.storedCount := by
        rw [hseq, SeqEx.storedCount_congr (SeqEx.ackDelivered_recvWindow item)]
        exact SeqEx.storedCount_pump_lt hr
      rw [hr] at hnext
      rw [SeqEx.pumpAll, hpair, RecvIter.forEach, hnext]
      dsimp only
      rw [← hseq]
      cases doPump with
      | true =>
        obtain ⟨ds, i', hpumped, hlooped, hunshared⟩ := ih hkept (by omega)
        refine ⟨item :: ds, i', ?_, ?_, hunshared⟩
        · rw [if_pos rfl, hpumped, Option.map_some]
        · exact congrArg (Option.map fun r => (item :: r.1, r.2)) hlooped
      | false => exact ⟨[item], _, rfl, rfl, hkept⟩

/-- `receive` does not sleep, and what it returns is what `try_receive` returns. -/
theorem receive_eq (hCAP : 2 < CAP) (h : i.Unshared) (packet : Packet R) :
    i.receive packet = some (match (i.seq.tryReceiveRawAndDirect id packet).1 with
      | .ok o => (.ok o, { i with seq := (i.seq.tryReceiveRawAndDirect id packet).2 })
      | .error _ => (.error .outOfSequence,
        { i with seq := (i.seq.tryReceiveRawAndDirect id packet).2 })) := by
  have hne := h.idle.tryReceive hCAP packet
  simp only [receive, tryReceive, h.opened, Bool.false_eq_true, if_false]
  cases hr : (i.seq.tryReceiveRawAndDirect id packet).1 with
  | ok o => rfl
  | error e =>
    cases e with
    | waitingForReply => exact absurd hr hne
    | _ => rfl

/-- The iterator that both variants make. -/
theorem forReceived_eq (hCAP : 2 < CAP) (h : i.Unshared) (blocking : Bool) (packet : Packet R) :
    i.forReceived blocking packet = RecvIter.forEach (CAP + 2)
      (match (i.seq.tryReceiveRawAndDirect id packet).1 with
        | .ok (first, doPump) => ⟨doPump, some first, blocking⟩
        | .error _ => ⟨false, none, blocking⟩)
      { i with seq := (i.seq.tryReceiveRawAndDirect id packet).2 } := by
  have hreceive := receive_eq hCAP h packet
  cases blocking with
  | true =>
    rw [forReceived, if_pos rfl, receiveAll, hreceive]
    cases (i.seq.tryReceiveRawAndDirect id packet).1 <;> rfl
  | false =>
    simp only [forReceived, tryReceiveAll, tryReceive, h.opened, Bool.false_eq_true, if_false]
    cases (i.seq.tryReceiveRawAndDirect id packet).1 <;> rfl

/-- One loop hands over what `feed` hands over. -/
theorem forReceived_feeds (hCAP : 2 < CAP) (h : i.Unshared) (blocking : Bool) (packet : Packet R) :
    ∃ ds i', i.seq.feed packet = some (ds, i'.seq) ∧
      i.forReceived blocking packet = some (ds, i') ∧ i'.Unshared := by
  rw [forReceived_eq hCAP h]
  cases hr : (i.seq.tryReceiveRawAndDirect id packet).1 with
  | error e =>
    have hpair : i.seq.tryReceiveRawAndDirect id packet =
        (.error e, (i.seq.tryReceiveRawAndDirect id packet).2) := Prod.ext hr rfl
    refine ⟨[], _, ?_, rfl, h.next ?_⟩
    · rw [SeqEx.feed, hpair]
    · have hcall : i.seq.call (.receive packet) =
          (.dropped e, (i.seq.tryReceiveRawAndDirect id packet).2) := by
        simp only [SeqEx.call, hr]
      rcases call_issues i.seq (c := .receive packet) rfl with ⟨g, hissued, -⟩ |
        ⟨-, hreplies, hlocked⟩
      · rw [hcall] at hissued
        cases hissued
      · rw [hcall] at hreplies hlocked
        exact ⟨hreplies.trans h.idle.replies, hlocked.trans h.idle.unlocked⟩
  | ok o =>
    obtain ⟨first, doPump⟩ := o
    have hpair : i.seq.tryReceiveRawAndDirect id packet =
        (.ok (first, doPump), (i.seq.tryReceiveRawAndDirect id packet).2) := Prod.ext hr rfl
    have hcall : i.seq.call (.receive packet) =
        (.received first doPump, (i.seq.tryReceiveRawAndDirect id packet).2) := by
      simp only [SeqEx.call, hr]
    have hkept := h.handed (c := .receive packet) rfl first (by rw [hcall]; rfl)
    rw [hcall] at hkept
    dsimp only at hkept
    obtain ⟨hseq, -, -⟩ := dropItem_spec
      (i := { i with seq := (i.seq.tryReceiveRawAndDirect id packet).2 }) h.opened first
    have hloop : RecvIter.forEach (CAP + 2) ⟨doPump, some first, blocking⟩
        { i with seq := (i.seq.tryReceiveRawAndDirect id packet).2 } =
          (RecvIter.forEach (CAP + 1) ⟨doPump, none, blocking⟩
            (dropItem { i with seq := (i.seq.tryReceiveRawAndDirect id packet).2 } first)).map
              fun r => (first :: r.1, r.2) := rfl
    rw [SeqEx.feed, hpair]
    dsimp only
    rw [hloop, ← hseq]
    cases doPump with
    | true =>
      have hless : (dropItem { i with seq := (i.seq.tryReceiveRawAndDirect id packet).2 }
          first).seq.storedCount < CAP := by
        rw [hseq, SeqEx.storedCount_congr (SeqEx.ackDelivered_recvWindow first)]
        exact SeqEx.storedCount_receive_lt hr
      obtain ⟨ds, i', hpumped, hlooped, hunshared⟩ := forEach_pumping hCAP blocking CAP hkept hless
      refine ⟨first :: ds, i', ?_, ?_, hunshared⟩
      · rw [if_pos rfl, hpumped, Option.map_some]
      · rw [hlooped, Option.map_some]
    | false => exact ⟨[first], _, rfl, rfl, hkept⟩

/-- The loop of the caller and `feedAll` return the same items. -/
theorem forReceivedEach_feed (hCAP : 2 < CAP) (h : i.Unshared) (blocking : Bool)
    (packets : List (Packet R)) :
    ∃ ds i', i.seq.feedAll packets = some (ds, i'.seq) ∧
      i.forReceivedEach blocking packets = some (ds, i') ∧ i'.Unshared := by
  induction packets generalizing i with
  | nil => exact ⟨[], i, rfl, rfl, h⟩
  | cons p ps ih =>
    obtain ⟨ds, i', hfed, hlooped, hunshared⟩ := forReceived_feeds hCAP h blocking p
    obtain ⟨ds', i'', hfed', hlooped', hunshared'⟩ := ih hunshared
    refine ⟨ds ++ ds', i'', ?_, ?_, hunshared'⟩
    · rw [SeqEx.feedAll, hfed, Option.bind_some, hfed', Option.map_some]
    · rw [forReceivedEach, hlooped, Option.bind_some, hlooped', Option.map_some]

/-- On an open instance that nobody else uses: the loops over `receive_all` for any packets
end without going to sleep, so do those over `try_receive_all`, and both hand over what
`feedAll` hands over and leave the instance ready for the next packet. -/
theorem forReceivedEach_feeds (hCAP : 2 < CAP) (h : i.Unshared) (packets : List (Packet R)) :
    ∃ ds t, i.seq.feedAll packets = some (ds, t) ∧ ∀ blocking, ∃ i',
      i.forReceivedEach blocking packets = some (ds, i') ∧ i'.seq = t ∧ i'.Unshared := by
  obtain ⟨ds, i', hfed, -⟩ := forReceivedEach_feed hCAP h false packets
  refine ⟨ds, i'.seq, hfed, fun blocking => ?_⟩
  obtain ⟨ds', i'', hfed', hlooped, hunshared⟩ := forReceivedEach_feed hCAP h blocking packets
  obtain ⟨rfl, hseq⟩ := Prod.mk.inj (Option.some.inj (hfed.symm.trans hfed'))
  exact ⟨i'', hlooped, hseq.symm, hunshared⟩

/-- The packets of a shuffled window, each twice. -/
theorem forReceivedEach_feeds_shuffled :
    ∃ ds t, (SeqEx.new 100 4294967294 : SeqEx ℕ ℕ 4).feedAll (shuffled ++ shuffled) =
      some (ds, t) ∧ ∀ blocking, ∃ i' : SeqExInner ℕ ℕ 4,
        (new 100 4294967294).forReceivedEach blocking (shuffled ++ shuffled) = some (ds, i') ∧
          i'.seq = t ∧ i'.Unshared :=
  forReceivedEach_feeds (i := new 100 4294967294) (by decide) ⟨⟨rfl, rfl⟩, rfl, rfl⟩
    (shuffled ++ shuffled)

end SeqExInner

end Sync

end SequentialExchange
