import SequentialExchange.SyncNetwork
import SequentialExchange.TokioNetwork

/-!
# The order of SeqCst packets among the futures

A SeqCst packet reaches its future through a oneshot, or it is returned by `receive`
at once. It takes the lock when it is handed over, and the lock stays with the value
while it waits in the oneshot and with the guard that is made of it. So there is
never more than one such value, and the futures return SeqCst packets in the order
in which they were sent, although each of them is polled at any time.
-/

namespace SequentialExchange.Tokio

open WrapNumbering GuardedRuns ReservationLedger
open Sync (ReplyGuard Owner guardOf?)

variable {S R : Type*} {CAP : ℕ}

/-! ## Values that hold the lock -/

/-- The values whose guards hold the lock. -/
def locking (l : List (Mail R)) : List (Mail R) := l.filter Mail.locked

/-- The tokens of the guards made of these values. -/
def tokensOf (l : List (Mail R)) : Multiset (SeqNo × Bool) :=
  (l.map fun mail => mail.guard.token : List (SeqNo × Bool))

/-- Nothing holds no lock. -/
@[simp] theorem locking_nil : locking ([] : List (Mail R)) = [] := rfl

/-- The values that hold the lock in two lists. -/
@[simp] theorem locking_append (l l' : List (Mail R)) :
    locking (l ++ l') = locking l ++ locking l' := List.filter_append ..

/-- One value more. -/
theorem locking_cons (mail : Mail R) (l : List (Mail R)) :
    locking (mail :: l) = if mail.locked then mail :: locking l else locking l :=
  List.filter_cons ..

/-- The values that hold the lock are those whose guards do. -/
theorem mem_locking {mail : Mail R} {l : List (Mail R)} :
    mail ∈ locking l ↔ mail ∈ l ∧ mail.locked = true := List.mem_filter

/-- Each of these values is a holder. -/
theorem sum_tokensOf (l : List (Mail R)) :
    ((tokensOf l).map fun g => g.2.toNat).sum = (locking l).length :=
  (Ledger.sum_locks (fun mail : Mail R => mail.guard.token) l).trans List.countP_eq_length_filter

/-- In the middle of a section: the values `o` are under way, the guards have the tokens
`g`, there are `k` `SeqCstGuard`s, and the values `out` were returned. The lock has one
holder, and the values that hold it are under way in the order of the packets. -/
structure InTurn (g : Multiset (SeqNo × Bool)) (k : ℕ) (out o : List (Mail R))
    (h : History (Sender S) (Receiver R)) (w : Work S R CAP) : Prop where
  exclusive : (w.ledger (tokensOf o + g) k).Exclusive
  lost : ∃ lost, (w.ledger (tokensOf o + g) k).Lost lost
  inOrder : (locking out ++ (locking o ++ locking (mails w.tasks))).Sublist
    (locking (handedOver h))

namespace InTurn

variable {g : Multiset (SeqNo × Bool)} {k : ℕ} {out o : List (Mail R)}
  {h : History (Sender S) (Receiver R)} {w : Work S R CAP}

/-- Each value under way that holds the lock is a holder. -/
theorem length_le_holders (g : Multiset (SeqNo × Bool)) (k : ℕ) (o : List (Mail R))
    (w : Work S R CAP) :
    (locking o ++ locking (mails w.tasks)).length ≤ (w.ledger (tokensOf o + g) k).holders := by
  have hholders : (w.ledger (tokensOf o + g) k).holders =
      (locking o).length + (g.map fun g => g.2.toNat).sum +
        (locking (mails w.tasks)).length + k := by
    have hmails : mailTokens w.tasks = tokensOf (mails w.tasks) := rfl
    simp only [Ledger.holders, Work.ledger, Multiset.map_add, Multiset.sum_add, hmails,
      sum_tokensOf]
  rw [hholders, List.length_append]
  omega

/-- At most one value holds the lock. -/
theorem length_le_one (hf : InTurn g k out o h w) :
    (locking o ++ locking (mails w.tasks)).length ≤ 1 :=
  (length_le_holders g k o w).trans hf.exclusive.1

/-- While the lock is free no value holds it. -/
theorem vacant (hf : InTurn g k out o h w) (hfree : w.seq.isLocked = false) :
    locking o ++ locking (mails w.tasks) = [] := by
  refine List.eq_nil_of_length_eq_zero (Nat.eq_zero_of_not_pos fun hpos => ?_)
  have hlocked : w.seq.isLocked = true :=
    hf.exclusive.2 (hpos.trans_le (length_le_holders g k o w))
  rw [hfree] at hlocked
  cases hlocked

/-- A value under way that holds the lock is the only one. -/
theorem alone {mail : Mail R} (hf : InTurn g k out (mail :: o) h w)
    (hlock : mail.locked = true) : locking o = [] ∧ locking (mails w.tasks) = [] := by
  have hone := hf.length_le_one
  rw [locking_cons, if_pos hlock, List.cons_append, List.length_cons] at hone
  exact List.append_eq_nil_iff.mp (List.eq_nil_of_length_eq_zero (by omega))

end InTurn

/-! ## Calls that hand packets over -/

/-- The token of a packet that is handed over. -/
theorem token_of_mail? (ok : RecvOkRaw (Sender S) (Receiver R)) :
    (ReplyGuard.ofRaw? ok).map ReplyGuard.token = (mail? ok).map fun mail => mail.guard.token := by
  cases ok <;> rfl

/-- The guard of a value holds the lock if its packet is SeqCst. -/
theorem isSeqCst_of_mail? {ok : RecvOkRaw (Sender S) (Receiver R)} {mail : Mail R}
    (h : mail? ok = some mail) : ok.isSeqCst = mail.locked := by
  cases ok <;> cases h <;> rfl

section Calls

variable [NeZero CAP] {g : Multiset (SeqNo × Bool)} {k : ℕ} {out o : List (Mail R)}
  {h : History (Sender S) (Receiver R)} {w : Work S R CAP}

/-- What a call hands over is added. -/
theorem handedOver_recorded (w : Work S R CAP) (h : History (Sender S) (Receiver R))
    (c : Call (Sender S) (Receiver R)) :
    handedOver (recorded w h [c]) =
      handedOver h ++ ((w.seq.call c).1.delivery?.bind mail?).toList := by
  obtain ⟨⟨l, hl, hresults, -⟩, -⟩ := History.record_returned w.seq c h
  have hrecord : recorded w h [c] = h.record (w.seq.input? c) (w.seq.call c).1 := rfl
  have hmails : (l.filterMap fun d => mail? d.2) = (l.map Prod.snd).filterMap mail? := by
    rw [List.filterMap_map]
    rfl
  rw [handedOver, hrecord, hl, List.filterMap_append, hmails, hresults]
  refine congrArg _ ?_
  cases (w.seq.call c).1.delivery? with
  | none => rfl
  | some ok => cases ok <;> rfl

/-- A packet with the lock is handed over only when no value holds it. -/
theorem InTurn.call (hf : InTurn g k out o h w) {c : Call (Sender S) (Receiver R)}
    (hc : Sync.givesBack c = false) :
    InTurn g k out (((w.seq.call c).1.delivery?.bind mail?).toList ++ o) (recorded w h [c])
      { w with seq := (w.seq.call c).2 } := by
  have hturn := w.issue_turn hc (tokensOf o + g) k
  have htokens : (((guardOf? (w.seq.call c).1).map ReplyGuard.token).toList :
      Multiset (SeqNo × Bool)) + (tokensOf o + g) =
        tokensOf (((w.seq.call c).1.delivery?.bind mail?).toList ++ o) + g := by
    have hguard : (guardOf? (w.seq.call c).1).map ReplyGuard.token =
        ((w.seq.call c).1.delivery?.bind mail?).map fun mail => mail.guard.token := by
      rw [guardOf?]
      cases (w.seq.call c).1.delivery? with
      | none => rfl
      | some ok => exact token_of_mail? ok
    rw [hguard, ← add_assoc]
    cases (w.seq.call c).1.delivery?.bind mail? <;> rfl
  rw [htokens] at hturn
  refine ⟨hturn.exclusive hf.exclusive, hf.lost.imp fun _ => hturn.loses_nothing, ?_⟩
  rw [handedOver_recorded, locking_append, locking_append, List.append_assoc]
  cases hmail : (w.seq.call c).1.delivery?.bind mail? with
  | none =>
    rw [Option.toList_none, locking_nil, List.nil_append, List.append_nil]
    exact hf.inOrder
  | some mail =>
    rw [Option.toList_some, locking_cons, locking_nil]
    cases hlock : mail.locked with
    | false =>
      rw [if_neg Bool.false_ne_true, List.nil_append, List.append_nil]
      exact hf.inOrder
    | true =>
      obtain ⟨ok, hok, hmail⟩ := Option.bind_eq_some_iff.mp hmail
      have hnone := hf.vacant (w.seq.isLocked_of_delivery c ok hok
        ((isSeqCst_of_mail? hmail).trans hlock))
      have horder := hf.inOrder
      rw [hnone, List.append_nil] at horder
      rw [if_pos rfl, hnone, List.append_nil]
      exact horder.append_right [mail]

/-- Posting puts the value among the others or leaves them as they are. -/
theorem mails_posted (chan : ℕ) (value : Option (Mail R)) (tasks : List (Task S R)) :
    ∃ xs ys, mails tasks = xs ++ ys ∧ (mails (posted chan value tasks) = mails tasks ∨
      mails (posted chan value tasks) = xs ++ (value.toList ++ ys)) := by
  unfold posted
  rcases post_cases chan value tasks with ⟨-, hpost⟩ | ⟨xs, stage, ys, rfl, hpost⟩
  · rw [hpost]
    exact ⟨mails tasks, [], by simp, .inl rfl⟩
  · rw [hpost]
    refine ⟨mails xs, mails ys, ?_, .inr ?_⟩
    · simp [mails, Option.join]
    · cases value <;> simp [mails, Option.join]

/-- A value goes on to its future. -/
theorem InTurn.hand {mail : Mail R} (hf : InTurn g k out (mail :: o) h w) (chan : ℕ) :
    InTurn g k out o h (w.hand chan mail) := by
  obtain ⟨lost, hlost⟩ := hf.lost
  have hcons : tokensOf (mail :: o) + g = mail.guard.token ::ₘ (tokensOf o + g) :=
    Multiset.cons_add mail.guard.token (tokensOf o) g
  have hexclusive := hf.exclusive
  rw [hcons] at hlost hexclusive
  have hturns := Work.hand_turns chan mail hlost
  refine ⟨hturns.exclusive hexclusive, ⟨lost, hturns.loses_nothing hlost⟩, ?_⟩
  refine List.Sublist.trans (List.Sublist.append_left ?_ _) hf.inOrder
  rw [hand_tasks, locking_cons]
  obtain ⟨xs, ys, hmails, hposted⟩ := mails_posted chan (some mail) w.tasks
  cases hlock : mail.locked with
  | false =>
    -- the value does not hold the lock
    have hsame : locking (mails (posted chan (some mail) w.tasks)) = locking (mails w.tasks) := by
      rcases hposted with hposted | hposted
      · rw [hposted]
      · rw [hposted, hmails, Option.toList_some, locking_append, locking_append, locking_append,
          locking_cons, locking_nil, hlock, if_neg Bool.false_ne_true, List.nil_append]
    rw [hsame, if_neg Bool.false_ne_true]
  | true =>
    obtain ⟨hnone, hothers⟩ := hf.alone hlock
    rw [if_pos rfl, hnone, hothers, List.nil_append, List.append_nil]
    rcases hposted with hposted | hposted
    · rw [hposted, hothers]
      exact List.nil_sublist _
    · rw [hmails, locking_append, List.append_eq_nil_iff] at hothers
      rw [hposted, Option.toList_some, locking_append, locking_append, hothers.1, hothers.2,
        locking_cons, locking_nil, if_pos hlock, List.nil_append, List.append_nil]

omit [NeZero CAP] in
/-- The end of an exchange concerns no value. -/
theorem InTurn.endExchange (hf : InTurn g k out o h w) (chan : ℕ) :
    InTurn g k out o h (w.endExchange chan) := by
  obtain ⟨hexclusive, hlost, horder⟩ := hf
  rw [← Work.ledger_endExchange w chan] at hexclusive hlost
  refine ⟨hexclusive, hlost, ?_⟩
  have hmails : mails (w.endExchange chan).tasks = mails w.tasks := by
    obtain ⟨xs, ys, hmails, hposted⟩ := mails_posted chan (none : Option (Mail R)) w.tasks
    rcases hposted with hposted | hposted
    · exact hposted
    · exact hposted.trans hmails.symm
  rwa [hmails]

end Calls

/-! ## The section of a `receive` -/

section Receive

variable [NeZero CAP] {g : Multiset (SeqNo × Bool)} {k : ℕ} {out o : List (Mail R)}
  {h : History (Sender S) (Receiver R)} {w : Work S R CAP}

/-- A packet that was handed over goes on to its future. -/
theorem InTurn.dispatch {ok : RecvOkRaw (Sender S) (Receiver R)}
    (hf : InTurn g k out ((mail? ok).toList ++ o) h w) :
    InTurn g k out o h (w.dispatch ok) := by
  cases ok with
  | payload n b d => exact hf.hand d.1
  | reply n b d e => exact hf.hand e.1
  | ack e => exact hf.endExchange e.1

/-- A pumped packet takes its turn. -/
theorem pump_inTurn (hf : InTurn g k out o h w) {ok : RecvOkRaw (Sender S) (Receiver R)}
    {doPump : Bool} (hok : w.seq.tryPumpRaw.1 = .ok (ok, doPump)) :
    InTurn g k out o (recorded w h [.pump])
      ({ w with seq := w.seq.tryPumpRaw.2 }.dispatch ok) := by
  have hcall := hf.call (c := .pump) rfl
  have hdel : (w.seq.call .pump).1.delivery? = some ok := by
    simp only [SeqEx.call, hok, Answer.delivery?]
  rw [hdel, Option.bind_some] at hcall
  exact hcall.dispatch

/-- Pumping keeps the order, also when nothing is pumped. -/
theorem pumped_inTurn (doPump : Bool) (hf : InTurn g k out o h w) :
    InTurn g k out o (recorded w h (if doPump then Work.pumpCalls (CAP + 1) w else []))
      (if doPump then Work.pumpLoop (CAP + 1) w else (0, w)).2 := by
  cases doPump with
  | false => exact hf
  | true =>
    exact pumpLoop_keeps (P := InTurn g k out o) (fun _ _ _ _ hf hok => pump_inTurn hf hok)
      (CAP + 1) hf

/-- The received packet goes on after the pumped ones. -/
theorem InTurn.settle {ok : RecvOkRaw (Sender S) R} {fresh : ℕ}
    (hf : InTurn g k out ((mail? (ok.convert fun data => (fresh, data))).toList ++ o) h w) :
    InTurn g k out ((directMail? ok).toList ++ o) h (w.settle ok) := by
  cases ok with
  | payload n b d => exact hf
  | reply n b d e => exact hf.hand e.1
  | ack e => exact hf.endExchange e.1

/-- A `receive` whose packet is handed over. -/
theorem InTurn.receive {i : SeqExInner S R CAP} {tasks : List (Task S R)} {packet : Packet R}
    {ok : RecvOkRaw (Sender S) R} {doPump : Bool} {fresh : ℕ}
    (hf : InTurn g k out o h ⟨i.seq, tasks⟩)
    (hok : (i.seq.tryReceiveRawAndDirect (fun data => (fresh, data)) packet).1 =
      .ok (ok, doPump)) :
    InTurn g k out ((directMail? ok).toList ++ o)
      (recorded ⟨i.seq, tasks⟩ h (i.receiveCalls tasks fresh packet))
      ⟨(i.receiveInner tasks fresh packet).1.inner.seq, (i.receiveInner tasks fresh packet).2⟩ := by
  obtain ⟨u, hu, hv, -⟩ := SeqExInner.receiveInner_of_ok tasks hok
  have hcall := SeqEx.receive_convert (fun data => (fresh, data)) i.seq packet
  have hfirst := hf.call (c := .receive (packet.map fun data => (fresh, data))) rfl
  have hrun : i.seq.tryReceiveRawAndDirect (fun data => (fresh, data)) packet =
      (.ok (ok, doPump), (i.seq.tryReceiveRawAndDirect (fun data => (fresh, data)) packet).2) :=
    Prod.ext hok rfl
  generalize (i.seq.tryReceiveRawAndDirect (fun data => (fresh, data)) packet).2 = q at hrun hu
  rw [hrun] at hcall
  have hrecord : recorded ⟨i.seq, tasks⟩ h [.receive (packet.map fun data => (fresh, data))] =
      h.take (packet.map fun data => (fresh, data)) (ok.convert fun data => (fresh, data)) := by
    simp only [recorded, Node.performAll, List.foldl_cons, List.foldl_nil, Node.perform, hcall]
    rfl
  rw [hrecord, hcall] at hfirst
  have hpumped := pumped_inTurn doPump hfirst
  rw [hv, recorded_receive hrun rfl, hu]
  exact hpumped.settle

end Receive

/-! ## Whole runs -/

namespace Shared

/-- The holders of the SeqCst lock: guards or their components, `SeqCstGuard`s, and
values that wait in oneshots. -/
def tokens (s : Shared S R CAP) : ℕ :=
  s.owners.countP (fun o => o.guard.isHoldingLock) + (mails s.tasks).countP Mail.locked +
    s.seqCstGuards

/-- The ledger counts the tokens. -/
theorem holders_ledger (s : Shared S R CAP) : s.ledger.holders = s.tokens := by
  have howners := Ledger.sum_locks (fun o : Owner => o.guard.token) s.owners
  have hmails : mailTokens s.tasks = tokensOf (mails s.tasks) := rfl
  have hlocking : (locking (mails s.tasks)).length = (mails s.tasks).countP Mail.locked :=
    List.countP_eq_length_filter.symm
  simp only [Ledger.holders, ledger, Work.ledger, Multiset.map_add, Multiset.sum_add, hmails,
    sum_tokensOf, hlocking, howners, tokens]
  rfl

variable [NeZero CAP] {s : Shared S R CAP}

/-- The lock has one holder, and reservations belong to somebody or are lost. -/
theorem perform_exclusive {op : Op S R} (hex : s.ledger.Exclusive)
    (hlost : ∃ lost, s.ledger.Lost lost) (hpos : s.Possible op) :
    (s.perform op).2.ledger.Exclusive ∧ ∃ lost, (s.perform op).2.ledger.Lost lost := by
  obtain ⟨lost, hlost⟩ := hlost
  by_cases hforgets : s.Forgets op
  · have hleak := perform_leak hforgets
    exact ⟨hleak.exclusive hex, (hleak.loses_one hlost).imp' (· ::ₘ lost) fun _ h => h⟩
  · have hturns := perform_turns hlost hpos hforgets
    exact ⟨hturns.exclusive hex, lost, hturns.loses_nothing hlost⟩

/-- What `receive` returns is under way when the section ends. -/
theorem receive_inTurn {g : Multiset (SeqNo × Bool)} {k : ℕ} {out : List (Mail R)}
    {h : History (Sender S) (Receiver R)} (hf : InTurn g k out [] h s.work) (packet : Packet R) :
    (locking out ++ (locking (s.receive packet).1.mail?.toList ++
      locking (mails (s.receive packet).2.tasks))).Sublist
        (locking (handedOver (recorded s.work h
          (s.inner.receiveCalls s.tasks s.nextChan packet)))) := by
  unfold receive
  dsimp only
  cases hres : (s.inner.seq.tryReceiveRawAndDirect (fun data => (s.nextChan, data)) packet).1 with
  | ok res =>
    obtain ⟨ok, doPump⟩ := res
    have hresult := SeqExInner.receiveInner_result s.tasks hres
    have horder := (hf.receive hres).inOrder
    rw [List.append_nil] at horder
    cases ok with
    | payload n b d | reply n b d e | ack e =>
      rw [hresult]
      exact horder
  | error e =>
    obtain ⟨htasks, -, -, -⟩ := SeqExInner.receiveInner_refused s.tasks hres
    obtain ⟨e', hresult⟩ :
        ∃ e', (s.inner.receiveInner s.tasks s.nextChan packet).1.result = .error e' := by
      simp only [SeqExInner.receiveInner, hres]
      cases e <;> exact ⟨_, rfl⟩
    have hsame : (locking out ++ (locking [] ++ locking (mails
        (s.inner.receiveInner s.tasks s.nextChan packet).2))).Sublist (locking (handedOver h)) := by
      rw [htasks]
      exact hf.inOrder
    have hhistory : recorded s.work h (s.inner.receiveCalls s.tasks s.nextChan packet) = h :=
      recorded_refused hres
    rw [hhistory, hresult]
    cases e' with
    | some e' => exact hsame
    | none =>
      dsimp only
      split
      · rw [mails_suspend]
        exact hsame
      · exact hsame

end Shared

namespace Recorded

variable [NeZero CAP] {u : Recorded S R CAP} {base : SeqNo}

/-- The lock has one holder, and its packets were returned in order. -/
structure InOrder (u : Recorded S R CAP) : Prop where
  exclusive : u.shared.ledger.Exclusive
  lost : ∃ lost, u.shared.ledger.Lost lost
  returned : (locking u.mailsReturned ++ locking (mails u.shared.tasks)).Sublist
    (locking (handedOver u.history))

omit [NeZero CAP] in
/-- There are no values at first. -/
theorem InOrder.start (interval : Int64) (base : SeqNo) :
    (new interval base : Recorded S R CAP).InOrder where
  exclusive := ⟨Nat.zero_le 1, fun hpos => absurd hpos (Nat.lt_irrefl 0)⟩
  lost := ⟨0, rfl⟩
  returned := List.Sublist.refl []

omit [NeZero CAP] in
/-- Between two sections no value is under way. -/
theorem InOrder.inTurn (h : u.InOrder) :
    InTurn (u.shared.owners.map fun o => o.guard.token : List (SeqNo × Bool))
      u.shared.seqCstGuards u.mailsReturned [] u.history u.shared.work := by
  refine ⟨?_, ?_, h.returned⟩
  · rw [show tokensOf ([] : List (Mail R)) = 0 from rfl, zero_add]
    exact h.exclusive
  · rw [show tokensOf ([] : List (Mail R)) = 0 from rfl, zero_add]
    exact h.lost

omit [NeZero CAP] in
/-- The value of a future that returns was the only one with the lock. -/
theorem locking_eraseIdx {tasks : List (Task S R)} {k : ℕ} {task : Task S R}
    {value : Option (Mail R)} (htask : tasks[k]? = some task) (hinbox : task.inbox = some value)
    (hone : (locking (mails tasks)).length ≤ 1) :
    (locking value.toList ++ locking (mails (tasks.eraseIdx k))).Sublist
      (locking (mails tasks)) := by
  have hperm : (mails tasks).Perm (value.toList ++ mails (tasks.eraseIdx k)) := by
    rw [← Multiset.coe_eq_coe, ← Multiset.coe_add]
    exact mails_eraseIdx htask hinbox
  have hlocking : (locking (mails tasks)).Perm
      (locking value.toList ++ locking (mails (tasks.eraseIdx k))) := by
    rw [← locking_append]
    exact hperm.filter Mail.locked
  -- lists of at most one element are equal when they are permutations
  have heq : locking (mails tasks) =
      locking value.toList ++ locking (mails (tasks.eraseIdx k)) := by
    rcases Nat.le_one_iff_eq_zero_or_eq_one.mp hone with hzero | hsingle
    · rw [List.eq_nil_of_length_eq_zero hzero] at hlocking ⊢
      exact (List.nil_perm.mp hlocking).symm
    · obtain ⟨mail, hmail⟩ := List.length_eq_one_iff.mp hsingle
      rw [hmail] at hlocking ⊢
      exact List.singleton_perm.mp hlocking
  rw [heq]

/-- A step keeps the order. -/
theorem InOrder.next (h : u.InOrder) (hs : u.Sound base) {op : Op S R} (hpos : u.Possible op) :
    (u.next op).InOrder := by
  obtain ⟨hex, hlost⟩ := u.shared.perform_exclusive h.exclusive h.lost hpos
  refine ⟨hex, hlost, ?_⟩
  rw [mailsReturned_next, locking_append, List.append_assoc]
  by_cases hreceive : ∃ packet, op = .receive packet
  · obtain ⟨packet, rfl⟩ := hreceive
    exact Shared.receive_inTurn h.inTurn packet
  have hother (packet : Packet R) : op ≠ .receive packet := fun heq => hreceive ⟨packet, heq⟩
  suffices hsuff : handedOver (u.next op).history = handedOver u.history ∧
      (locking (u.shared.perform op).1.mail?.toList ++
        locking (mails (u.next op).shared.tasks)).Sublist (locking (mails u.shared.tasks)) by
    rw [hsuff.1]
    exact (hsuff.2.append_left _).trans h.returned
  cases hquiet : Shared.quiet op with
  | false =>
    obtain ⟨packets, hcustody⟩ := hs.custody
    have hresolve (k : ℕ) : op ≠ .resolve k := by
      intro heq
      rw [heq] at hquiet
      cases hquiet
    obtain ⟨hmail, -⟩ := Shared.perform_silent (s := u.shared) hother hresolve
    obtain ⟨-, hdel, -, hmails⟩ := Shared.next_sending hs.routed hcustody hpos hquiet hother
    refine ⟨congrArg (List.filterMap fun d : Packet (Receiver R) ×
      RecvOkRaw (Sender S) (Receiver R) => mail? d.2) hdel, ?_⟩
    rw [hmail]
    show (locking (mails (u.shared.next op).tasks)).Sublist _
    rw [hmails]
  | true =>
    obtain ⟨hhistory, -, hports, -⟩ := Shared.next_quiet hquiet hpos u.history
    refine ⟨congrArg handedOver hhistory, ?_⟩
    by_cases hresolve : ∃ k, op = .resolve k
    · -- a value goes from its oneshot to the caller
      obtain ⟨k, rfl⟩ := hresolve
      obtain ⟨task, htask, -, hinbox⟩ := hpos
      have htask := Option.mem_def.mp htask
      obtain ⟨value, hinbox⟩ := Option.isSome_iff_exists.mp hinbox
      have hperform : u.shared.perform (.resolve k) =
          u.shared.complete k (task.returns value) := by
        simp only [Shared.perform, htask, hinbox]
      have htasks : (u.next (.resolve k)).shared.tasks = u.shared.tasks.eraseIdx k := by
        show (u.shared.perform (.resolve k)).2.tasks = _
        rw [hperform]
        rfl
      rw [htasks, hperform, Shared.complete, mail?_returns]
      exact locking_eraseIdx htask hinbox h.inTurn.length_le_one
    · obtain ⟨hmail, -⟩ := Shared.perform_silent (s := u.shared) hother
        fun k heq => hresolve ⟨k, heq⟩
      rw [hmail]
      exact (mails_sublist hports).filter _

/-- The values are in order in every reachable state. -/
theorem reaches_inOrder {interval : Int64}
    (hreach : Reaches Possible next (new interval base : Recorded S R CAP) u) : u.InOrder := by
  refine (hreach.invariant (I := fun u => u.Sound base ∧ u.InOrder)
    ⟨Sound.start interval base, InOrder.start interval base⟩ fun v op _ hv hpos => ?_).2
  exact ⟨hv.1.next hpos, hv.2.next hv.1 hpos⟩

/-- Whatever packets arrive, at most one guard, `SeqCstGuard` or waiting value holds the
lock, and while one does the state machine is locked. The SeqCst packets are returned
in the order in which the state machine handed them over. -/
theorem lock_passed_on {interval : Int64}
    (hreach : Reaches Possible next (new interval base : Recorded S R CAP) u) :
    u.shared.tokens ≤ 1 ∧ (0 < u.shared.tokens → u.shared.inner.seq.isLocked = true) ∧
      (locking u.mailsReturned ++ locking (mails u.shared.tasks)).Sublist
        (locking (handedOver u.history)) := by
  obtain ⟨⟨hle, hlocked⟩, -, horder⟩ := reaches_inOrder hreach
  rw [Shared.holders_ledger] at hle hlocked
  exact ⟨hle, hlocked, horder⟩

/-- A SeqCst packet overtakes a normal one and is pumped; its future is polled, and the
next SeqCst packet comes when the lock is free again. -/
def overtaking : List (Op ℕ ℕ) :=
  [.receive (.seqCstPayload 1 71), .receive (.payload 0 70), .resolve 0,
    .dropReplyGuard ⟨1, true⟩, .receive (.seqCstPayload 2 72)]

/-- A SeqCst packet that overtook another has the only lock. -/
theorem lock_passed_on_overtaking :
    (overtaking.foldl next (new 100 0 : Recorded ℕ ℕ 4)).shared.tokens ≤ 1 :=
  (lock_passed_on (Allowed.reaches (l := overtaking)
    (show Allowed Possible next (new 100 0 : Recorded ℕ ℕ 4) _ by decide +kernel))).1

end Recorded

/-! ## Two instances -/

/-- What a packet becomes for the application. -/
def packetMail? (p : Packet R) : Option (Mail R) := p.item?.map fun t => ⟨t.1, t.2.1, t.2.2⟩

/-- What has the lock when it is handed over are the SeqCst packets. -/
theorem locking_handedOver {h : History (Sender S) (Receiver R)}
    (hm : ∀ d ∈ h.deliveries, d.2.Matches d.1) :
    locking (handedOver h) = (((h.deliveries.map Prod.fst).filter Packet.isSeqCst).map
      (Packet.map Prod.snd)).filterMap packetMail? := by
  rw [handedOver]
  generalize h.deliveries = ds at hm
  induction ds with
  | nil => rfl
  | cons d ds ih =>
    have hd := hm d List.mem_cons_self
    have htail := ih fun d' hd' => hm d' (List.mem_cons_of_mem d hd')
    obtain ⟨mail, hmail, hcst, hpacket⟩ : ∃ mail, mail? d.2 = some mail ∧
        d.1.isSeqCst = mail.locked ∧ packetMail? (d.1.map Prod.snd) = some mail := by
      obtain ⟨p, ok⟩ := d
      cases ok with
      | ack e => exact hd.elim
      | payload n b d =>
        obtain ⟨r, rfl⟩ := hd
        exact ⟨⟨n, b, d.2⟩, rfl, by simp, by simp [packetMail?]⟩
      | reply n b d e =>
        obtain ⟨m, rfl⟩ := hd
        exact ⟨⟨n, b, d.2⟩, rfl, by simp, by simp [packetMail?]⟩
    have hcons : ((d :: ds).filterMap fun d => mail? d.2) =
        mail :: ds.filterMap fun d => mail? d.2 := List.filterMap_cons_some hmail
    rw [hcons, locking_cons, htail, List.map_cons, List.filter_cons, hcst]
    split
    · rw [List.map_cons, List.filterMap_cons_some hpacket]
    · rfl

namespace Network

variable {cap : Side → ℕ} [∀ x, NeZero (cap x)] {encode : S → R} {s : Network S R cap}

/-- So they are on both sides of a network. -/
theorem reaches_inOrder (encode : S → R) (interval : Side → Int64) (initialSeqNo : SeqNo)
    (hrun : Reaches Possible (perform encode) (start interval initialSeqNo) s) (x : Side) :
    (s.side x).InOrder := by
  refine (hrun.invariant
    (I := fun u => (u.side x).Sound initialSeqNo ∧ (u.side x).InOrder)
    ⟨Recorded.Sound.start (interval x) initialSeqNo,
      Recorded.InOrder.start (interval x) initialSeqNo⟩ fun u e _ h he => ?_).2
  cases e with
  | lose y i => exact h
  | act y op =>
    rcases eq_or_ne x y with rfl | hxy
    · simp only [perform, Function.update_self]
      exact ⟨h.1.next he.1, h.2.next h.1 he.1⟩
    · simp only [perform, Function.update_of_ne hxy]
      exact h

/-- In every run with fewer than `2^31` packets from the peer: the futures return its
SeqCst packets in the order in which it sent them, and when one of them is returned or
waits for its future, everything that the peer sent before it was handed over. -/
theorem seqCst_reachFutures_inOrder {x : Side} (hC : ∃ e, cap x = 2 ^ e) (encode : S → R)
    (interval : Side → Int64) (initialSeqNo : SeqNo)
    (hrun : Reaches Possible (perform encode) (start interval initialSeqNo) s)
    (hcount : (s.sentBy x.peer).length < 2 ^ 31) :
    ∃ m ≤ (s.sentBy x.peer).length,
      (locking (s.side x).mailsReturned ++ locking (mails (s.side x).shared.tasks)).Sublist
        ((((s.sentBy x.peer).take m).filter Packet.isSeqCst).filterMap fun p =>
          packetMail? (p.map fun d => encode d.2)) ∧
      ∀ k < m, number initialSeqNo k ∈ (s.side x).history.deliveredNumbers := by
  have hsession := hrun.refines session fun u e _ he => (he.reaches encode).1
  rw [session_start] at hsession
  have hcarries := Session.reaches_carries (fun _ _ h => h) hsession x.peer
  obtain ⟨I, hI, hkeeps⟩ := Session.reaches_keepsOrder hC hsession (by
    rw [session_sentCount]
    exact hcount)
  have hcursor := hI.cursor_le
  rw [session_sentBy, List.length_map] at hcursor
  refine ⟨I.cursor, hcursor, ?_, fun k hk => ?_⟩
  · refine (reaches_inOrder encode interval initialSeqNo hrun x).returned.trans ?_
    rw [locking_handedOver (reaches_sound encode interval initialSeqNo hrun x).matched]
    have hdeliveries : (((s.side x).history.deliveries.map Prod.fst).filter
        Packet.isSeqCst).map (Packet.map Prod.snd) =
          ((s.session.node x).history.deliveries.map Prod.fst).filter Packet.isSeqCst := by
      show _ = (((s.side x).history.deliveries.map fun d =>
        (d.1.map Prod.snd, d.2.mapData Prod.snd Prod.snd)).map Prod.fst).filter Packet.isSeqCst
      rw [List.map_map, List.filter_map, List.filter_map, List.map_map]
      simp [Function.comp_def]
    have hwire : (((s.session.sentBy x.peer).take I.cursor).map (Packet.map encode)).filter
        Packet.isSeqCst = (((s.sentBy x.peer).take I.cursor).filter Packet.isSeqCst).map
          (Packet.map fun d => encode d.2) := by
      have hmap : Packet.map encode ∘ Packet.map Prod.snd =
          Packet.map fun d : Sender S => encode d.2 :=
        funext fun p => by cases p <;> rfl
      rw [session_sentBy, ← List.map_take, List.map_map, hmap, List.filter_map]
      simp [Function.comp_def]
    rw [hdeliveries, hI.seqCst_deliveries hkeeps.initial, hwire, List.filterMap_map]
    exact List.Sublist.refl _
  · have hmem : k ∈ I.log := (hI.sound.mem_log k).mpr (.inl hk)
    rw [← deliveredNumbers_session, hI.deliveredNumbers_eq hcarries.sends]
    exact List.mem_map_of_mem hmem

/-- A normal packet and two SeqCst packets are sent; the first SeqCst packet arrives first,
and the second one after the guard of the first is gone. -/
def twoOrdered : List (Step ℕ ℕ) :=
  [.act .a (.send 0 false fun _ => 70), .act .a (.send 0 true fun _ => 71),
    .act .a (.send 0 true fun _ => 72), .act .b (.receive (.seqCstPayload 1 71)),
    .act .b (.receive (.payload 0 70)), .act .b (.resolve 0),
    .act .b (.dropReplyGuard ⟨1, true⟩), .act .b (.receive (.seqCstPayload 2 72))]

/-- The state after these steps. -/
def afterTwoOrdered : Network ℕ ℕ cap := twoOrdered.foldl (perform id) (start (fun _ => 100) 0)

/-- Two SeqCst packets reach their futures in order. -/
theorem seqCst_reachFutures_inOrder_afterTwoOrdered :
    ∃ m ≤ ((afterTwoOrdered : Network ℕ ℕ fun _ => 4).sentBy .a).length,
      (locking ((afterTwoOrdered : Network ℕ ℕ fun _ => 4).side .b).mailsReturned ++
        locking (mails ((afterTwoOrdered : Network ℕ ℕ fun _ => 4).side .b).shared.tasks)).Sublist
        (((((afterTwoOrdered : Network ℕ ℕ fun _ => 4).sentBy .a).take m).filter
          Packet.isSeqCst).filterMap fun p => packetMail? (p.map fun d => d.2)) ∧
      ∀ k < m, number 0 k ∈
        ((afterTwoOrdered : Network ℕ ℕ fun _ => 4).side .b).history.deliveredNumbers :=
  seqCst_reachFutures_inOrder (x := .b) ⟨2, rfl⟩ id (fun _ => 100) 0
    (Allowed.reaches (l := twoOrdered) (by decide +kernel)) (by decide +kernel)

end Network

end SequentialExchange.Tokio
