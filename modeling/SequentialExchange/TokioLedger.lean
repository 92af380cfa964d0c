import SequentialExchange.TokioCalls

/-!
# The ledger of the futures

The reply numbers of `tokio.rs` are kept in a ledger. Its tokens are the guards,
their components, and the values that wait in the oneshots of live futures; the
`SeqCstGuard`s are its keys. Receiving, pumping and sending to a future are turns
of the ledger, also when that future is gone. A future that is dropped while a
value waits in its oneshot loses a token, and that is the only way to lose one.
-/

namespace SequentialExchange.Tokio

open GuardedRuns ReservationLedger
open Sync (ReplyGuard Place Owner guardOf? call_issue_turn call_settle_turn)

variable {S R : Type*} {CAP : ℕ}

/-- The guard that will be made of a value in a oneshot. -/
def Mail.guard (mail : Mail R) : ReplyGuard := ⟨mail.replyNo, mail.locked⟩

/-- The values that wait in the oneshots of live futures. -/
def mails (tasks : List (Task S R)) : List (Mail R) := tasks.filterMap (·.inbox.join)

/-- The tokens of those values. -/
def mailTokens (tasks : List (Task S R)) : Multiset (SeqNo × Bool) :=
  ((mails tasks).map fun mail => mail.guard.token : List (SeqNo × Bool))

/-- Only the oneshots matter. -/
theorem mails_congr {tasks tasks' : List (Task S R)}
    (h : tasks'.map Task.inbox = tasks.map Task.inbox) : mails tasks' = mails tasks := by
  have hmails (l : List (Task S R)) : mails l = (l.map Task.inbox).filterMap Option.join := by
    rw [mails, List.filterMap_map]
    rfl
  rw [hmails, hmails, h]

/-- The ledger in the middle of a section, with other tokens `o` and `k` keys. -/
def Work.ledger (w : Work S R CAP) (o : Multiset (SeqNo × Bool)) (k : ℕ) : Ledger SeqNo where
  owed := o + mailTokens w.tasks
  keys := k
  reserved := w.seq.concurrentReplies
  locked := w.seq.isLocked

namespace Work

variable [NeZero CAP] {w : Work S R CAP} {o : Multiset (SeqNo × Bool)} {k : ℕ}
  {lost : Multiset SeqNo}

/-- A token goes to a future, or is settled when that future is gone. -/
theorem hand_turns (chan : ℕ) (mail : Mail R)
    (hlost : (w.ledger (mail.guard.token ::ₘ o) k).Lost lost) :
    (w.ledger (mail.guard.token ::ₘ o) k).Turns ((w.hand chan mail).ledger o k) := by
  unfold hand
  rcases post_cases chan (some mail) w.tasks with ⟨-, hpost⟩ | ⟨xs, stage, ys, htasks, hpost⟩
  · rw [hpost]
    simp only [ledger, Multiset.cons_add] at hlost ⊢
    have hsettled := call_settle_turn w.seq hlost false (c := .ack mail.replyNo mail.locked)
      (.inl (by simp [Mail.guard]))
    rw [Bool.and_false, Bool.toNat_false, Nat.add_zero] at hsettled
    exact .single hsettled
  · rw [hpost]
    have hsame : (Work.mk w.seq (xs ++ ⟨chan, stage, some (some mail)⟩ :: ys)).ledger o k =
        w.ledger (mail.guard.token ::ₘ o) k := by
      simp only [ledger, mailTokens, mails, htasks, List.filterMap_append, List.filterMap_cons,
        Option.join, Option.bind_some, Option.bind_none, id, List.map_append, List.map_cons,
        ← Multiset.coe_add, ← Multiset.cons_coe, Multiset.add_cons, Multiset.cons_add]
    rw [hsame]

omit [NeZero CAP] in
/-- The end of an exchange is no token. -/
theorem ledger_endExchange (w : Work S R CAP) (chan : ℕ) :
    (w.endExchange chan).ledger o k = w.ledger o k := by
  unfold endExchange
  rcases post_cases chan (none : Option (Mail R)) w.tasks with
    ⟨-, hpost⟩ | ⟨xs, stage, ys, htasks, hpost⟩
  · rw [hpost, Option.getD_none]
  · rw [hpost]
    simp [ledger, mailTokens, mails, htasks, Option.join]

/-- What was pumped reaches a future or is settled. -/
theorem dispatch_turns {ok : RecvOkRaw (Sender S) (Receiver R)}
    (hlost : (w.ledger
      ((((ReplyGuard.ofRaw? ok).map ReplyGuard.token).toList : List (SeqNo × Bool)) + o) k).Lost
        lost) :
    (w.ledger ((((ReplyGuard.ofRaw? ok).map ReplyGuard.token).toList : List (SeqNo × Bool)) + o)
      k).Turns ((w.dispatch ok).ledger o k) := by
  cases ok with
  | payload n b d => exact hand_turns d.1 ⟨n, b, d.2⟩ hlost
  | reply n b d e => exact hand_turns e.1 ⟨n, b, d.2⟩ hlost
  | ack e =>
    show (w.ledger ((0 : Multiset (SeqNo × Bool)) + o) k).Turns ((w.endExchange e.1).ledger o k)
    rw [zero_add, ledger_endExchange]

/-- A call that settles nothing, in the middle of a section. -/
theorem issue_turn (w : Work S R CAP) {c : Call (Sender S) (Receiver R)}
    (hc : Sync.givesBack c = false) (o : Multiset (SeqNo × Bool)) (k : ℕ) :
    (w.ledger o k).Turn (ledger { w with seq := (w.seq.call c).2 }
      ((((guardOf? (w.seq.call c).1).map ReplyGuard.token).toList : List (SeqNo × Bool)) + o)
        k) := by
  have hissued := call_issue_turn w.seq hc (o + mailTokens w.tasks) k
  rw [← add_assoc] at hissued
  exact hissued

/-- The pump loop is a series of turns. -/
theorem pumpLoop_turns (fuel : ℕ) (hlost : (w.ledger o k).Lost lost) :
    (w.ledger o k).Turns ((pumpLoop fuel w).2.ledger o k) := by
  induction fuel generalizing w with
  | zero => exact .refl
  | succ fuel ih =>
    have hissued : (w.ledger o k).Turns _ := .single (w.issue_turn (c := .pump) rfl o k)
    have hlost' := hissued.loses_nothing hlost
    unfold pumpLoop
    simp only [SeqEx.call] at hissued hlost' ⊢
    cases hok : w.seq.tryPumpRaw.1 with
    | error e => simpa only [hok, guardOf?, Answer.delivery?, Option.bind_none, Option.map_none,
        Option.toList_none, Multiset.coe_nil, zero_add] using hissued
    | ok r =>
      obtain ⟨data, doPump⟩ := r
      simp only [hok, guardOf?, Answer.delivery?, Option.bind_some] at hissued hlost'
      have hnext := hissued.trans (dispatch_turns hlost')
      cases doPump with
      | false => exact hnext
      | true => exact hnext.trans (ih (Ledger.Turns.loses_nothing hnext hlost))

end Work

/-- The guard of a packet does not depend on its data. -/
theorem ofRaw?_convert {P : Type*} (into : P → R) (ok : RecvOkRaw S P) :
    ReplyGuard.ofRaw? (ok.convert into) = ReplyGuard.ofRaw? ok := by
  cases ok <;> rfl

/-- `receive_inner` issues the token of the guard it returns. -/
theorem SeqExInner.receiveInner_turns [NeZero CAP] (i : SeqExInner S R CAP)
    (tasks : List (Task S R)) (fresh : ℕ) (packet : Packet R) {o : Multiset (SeqNo × Bool)} {k : ℕ}
    {lost : Multiset SeqNo} (hlost : (Work.ledger ⟨i.seq, tasks⟩ o k).Lost lost) :
    (Work.ledger ⟨i.seq, tasks⟩ o k).Turns
      (Work.ledger
        ⟨(i.receiveInner tasks fresh packet).1.inner.seq, (i.receiveInner tasks fresh packet).2⟩
        ((((i.receiveInner tasks fresh packet).1.result.toOption.map
          fun ret => ret.1.token).toList : List (SeqNo × Bool)) + o) k) := by
  have hissued := Work.issue_turn ⟨i.seq, tasks⟩
    (c := .receive (packet.map fun data => (fresh, data))) rfl o k
  simp only [SeqEx.receive_convert] at hissued
  unfold receiveInner
  dsimp only
  cases hr : (i.seq.tryReceiveRawAndDirect (fun data => (fresh, data)) packet).1 with
  | error e =>
    simp only [hr, SeqEx.heard, guardOf?, Answer.delivery?, Option.bind_none, Option.map_none,
      Option.toList_none] at hissued
    cases e <;> exact .single hissued
  | ok res =>
    obtain ⟨recvData, doPump⟩ := res
    simp only [hr, SeqEx.heard, guardOf?, Answer.delivery?, Option.bind_some,
      ofRaw?_convert] at hissued
    have hpumped : (Work.ledger ⟨i.seq, tasks⟩ o k).Turns ((if doPump then Work.pumpLoop (CAP + 1)
        ⟨(i.seq.tryReceiveRawAndDirect (fun data => (fresh, data)) packet).2, tasks⟩
        else (0, ⟨(i.seq.tryReceiveRawAndDirect (fun data => (fresh, data)) packet).2,
          tasks⟩)).2.ledger ((((ReplyGuard.ofRaw? recvData).map ReplyGuard.token).toList :
            List (SeqNo × Bool)) + o) k) := by
      cases doPump with
      | false => exact .single hissued
      | true =>
        exact Relation.ReflTransGen.head hissued
          (Work.pumpLoop_turns (CAP + 1) (hissued.loses_nothing hlost))
    cases recvData with
    | payload n b d => exact hpumped
    | reply n b d e =>
      have hhanded := Work.hand_turns e.1 ⟨n, b, d⟩ (Ledger.Turns.loses_nothing hpumped hlost)
      show Ledger.Turns _ (Work.ledger _ ((0 : Multiset (SeqNo × Bool)) + o) k)
      rw [zero_add]
      exact hpumped.trans hhanded
    | ack e =>
      show Ledger.Turns _
        (Work.ledger (Work.endExchange _ e.1) ((0 : Multiset (SeqNo × Bool)) + o) k)
      rw [Work.ledger_endExchange]
      exact hpumped

/-! ## The oneshots after a step -/

/-- A woken future keeps its inbox. -/
theorem inbox_wake (task : Task S R) : task.wake.inbox = task.inbox := rfl

/-- A notification posts nothing. -/
theorem inboxes_notifyOne (choice : ℕ) (permit : Bool) (tasks : List (Task S R)) :
    (notifyOne choice permit tasks).2.map Task.inbox = tasks.map Task.inbox := by
  unfold notifyOne
  dsimp only
  split
  · exact map_modify_of_comp inbox_wake tasks _
  · rfl

/-- Nor does one to all waiters. -/
theorem inboxes_notifyWaiters (tasks : List (Task S R)) :
    (notifyWaiters tasks).map Task.inbox = tasks.map Task.inbox := by
  rw [notifyWaiters, List.map_map]
  refine List.map_congr_left fun task _ => ?_
  rw [Function.comp_apply]
  split
  · rfl
  · rfl

/-- A future is taken out with what waits in its oneshot. -/
theorem mailTokens_eraseIdx {tasks : List (Task S R)} {k : ℕ} {task : Task S R}
    (h : tasks[k]? = some task) :
    mailTokens tasks = ((task.inbox.join.map fun mail => mail.guard.token).toList :
      List (SeqNo × Bool)) + mailTokens (tasks.eraseIdx k) := by
  have hperm := ((perm_of_getElem? h).filterMap fun task => task.inbox.join).map
    fun mail => mail.guard.token
  rw [mailTokens, mailTokens, mails, mails, Multiset.coe_eq_coe.mpr hperm, Multiset.coe_add,
    List.filterMap_cons]
  cases task.inbox.join <;> rfl

/-- What a future returns with a value is the guard made of it. -/
theorem guard?_returns (task : Task S R) (value : Option (Mail R)) :
    (task.returns value).guard? = value.map Mail.guard := by
  unfold Task.returns
  cases task.stage <;> cases value <;> rfl

/-- A closed exchange returns no guard. -/
theorem guard?_returnsClosed (task : Task S R) : task.returnsClosed.guard? = none := by
  unfold Task.returnsClosed
  cases task.stage <;> rfl

namespace Shared

/-- The ledger of the guards and the futures. -/
def ledger (s : Shared S R CAP) : Ledger SeqNo :=
  Work.ledger ⟨s.inner.seq, s.tasks⟩
    (s.owners.map fun o => o.guard.token : List (SeqNo × Bool)) s.seqCstGuards

variable {s s' : Shared S R CAP}

/-- A step that leaves the reply numbers, the oneshots and the guards alone. -/
theorem ledger_congr (hreplies : s'.inner.seq.concurrentReplies = s.inner.seq.concurrentReplies)
    (hlocked : s'.inner.seq.isLocked = s.inner.seq.isLocked)
    (hmails : mails s'.tasks = mails s.tasks) (howners : s'.owners = s.owners)
    (hkeys : s'.seqCstGuards = s.seqCstGuards) : s'.ledger = s.ledger := by
  simp only [ledger, Work.ledger, mailTokens, hmails, hreplies, hlocked, howners, hkeys]

/-- The tokens without a guard. -/
def others (s : Shared S R CAP) (o : Owner) : Multiset (SeqNo × Bool) :=
  ((s.owners.erase o).map fun o => o.guard.token : List (SeqNo × Bool)) + mailTokens s.tasks

/-- A guard that exists is a token of the ledger. -/
theorem ledger_of_mem {o : Owner} (ho : o ∈ s.owners) :
    s.ledger = ⟨o.guard.token ::ₘ s.others o, s.seqCstGuards, s.inner.seq.concurrentReplies,
      s.inner.seq.isLocked⟩ := by
  have howed : ((s.owners.map fun o => o.guard.token : List (SeqNo × Bool)) :
      Multiset (SeqNo × Bool)) =
        o.guard.token ::ₘ
          ((s.owners.erase o).map fun o => o.guard.token : List (SeqNo × Bool)) := by
    rw [Multiset.cons_coe]
    exact Multiset.coe_eq_coe.mpr ((List.perm_cons_erase ho).map _)
  rw [ledger, Work.ledger, howed, Multiset.cons_add]
  rfl

variable [NeZero CAP]

/-- A call that issues no guard. -/
theorem turn_of_call {c : Call (Sender S) (Receiver R)} (hc : Sync.givesBack c = false)
    (hnone : guardOf? (s.inner.seq.call c).1 = none)
    (hseq : s'.inner.seq = (s.inner.seq.call c).2)
    (hmails : mails s'.tasks = mails s.tasks) (howners : s'.owners = s.owners)
    (hkeys : s'.seqCstGuards = s.seqCstGuards) : s.ledger.Turn s'.ledger := by
  have hissued := call_issue_turn s.inner.seq hc s.ledger.owed s.seqCstGuards
  rw [hnone, Option.map_none, Option.toList_none, Multiset.coe_nil, zero_add] at hissued
  have hafter : s'.ledger = ⟨s.ledger.owed, s.seqCstGuards,
      (s.inner.seq.call c).2.concurrentReplies, (s.inner.seq.call c).2.isLocked⟩ := by
    simp only [ledger, Work.ledger, mailTokens, hmails, hseq, howners, hkeys]
  rw [hafter]
  exact hissued

/-- A guard is settled; with `stay` a `SeqCstGuard` takes over its lock. -/
theorem turn_of_settle {lost : Multiset SeqNo} (hlost : s.ledger.Lost lost) {place : Place}
    {g : ReplyGuard} (ho : ⟨place, g⟩ ∈ s.owners) (stay : Bool)
    {c : Call (Sender S) (Receiver R)}
    (hc : c = .ack g.replyNo (g.isHoldingLock && !stay) ∨
      ∃ t b d, c = .reply t g.replyNo (g.isHoldingLock && !stay) b d)
    (hseq : s'.inner.seq = (s.inner.seq.call c).2)
    (hmails : mails s'.tasks = mails s.tasks)
    (howners : s'.owners = s.owners.erase ⟨place, g⟩)
    (hkeys : s'.seqCstGuards = s.seqCstGuards + (g.isHoldingLock && stay).toNat) :
    s.ledger.Turn s'.ledger := by
  rw [ledger_of_mem ho] at hlost ⊢
  have hafter : s'.ledger = ⟨s.others ⟨place, g⟩, s.seqCstGuards + (g.isHoldingLock && stay).toNat,
      (s.inner.seq.call c).2.concurrentReplies, (s.inner.seq.call c).2.isLocked⟩ := by
    simp only [ledger, Work.ledger, others, mailTokens, hmails, howners, hkeys, hseq]
  rw [hafter]
  exact call_settle_turn s.inner.seq hlost stay hc

omit [NeZero CAP] in
/-- A guard changes its place. -/
theorem ledger_of_move {place place' : Place} {g : ReplyGuard} (ho : ⟨place, g⟩ ∈ s.owners)
    (hseq : s'.inner.seq = s.inner.seq) (hmails : mails s'.tasks = mails s.tasks)
    (howners : s'.owners = ⟨place', g⟩ :: s.owners.erase ⟨place, g⟩)
    (hkeys : s'.seqCstGuards = s.seqCstGuards) : s'.ledger = s.ledger := by
  rw [ledger_of_mem ho]
  simp only [ledger, Work.ledger, others, mailTokens, hmails, howners, hkeys, hseq, List.map_cons,
    ← Multiset.cons_coe, Multiset.cons_add]

omit [NeZero CAP] in
/-- A future is removed with a guard for what waited in its oneshot. -/
theorem ledger_of_take {k : ℕ} {task : Task S R} (htask : s.tasks[k]? = some task)
    (hseq : s'.inner.seq = s.inner.seq) (hmails : mails s'.tasks = mails (s.tasks.eraseIdx k))
    (howners : s'.owners =
      ((task.inbox.join.map Mail.guard).map (Owner.mk .guard)).toList ++ s.owners)
    (hkeys : s'.seqCstGuards = s.seqCstGuards) : s'.ledger = s.ledger := by
  have htokens := mailTokens_eraseIdx htask
  have hmove : ((task.inbox.join.map Mail.guard).map (Owner.mk .guard)).toList.map
      (fun o => o.guard.token) = (task.inbox.join.map fun mail => mail.guard.token).toList := by
    cases task.inbox.join <;> rfl
  simp only [ledger, Work.ledger, mailTokens, hmails, howners, hkeys, hseq] at htokens ⊢
  rw [htokens, List.map_append, ← Multiset.coe_add, hmove, add_assoc, add_left_comm]

/-- `receive` issues a guard to its caller or leaves it to a future. -/
theorem receive_turns {lost : Multiset SeqNo} (hlost : s.ledger.Lost lost) (packet : Packet R) :
    s.ledger.Turns (s.receive packet).2.ledger := by
  have hturns := s.inner.receiveInner_turns s.tasks s.nextChan packet hlost
  unfold receive
  dsimp only
  generalize s.inner.receiveInner s.tasks s.nextChan packet = r at hturns ⊢
  cases hres : r.1.result with
  | ok ret =>
    rw [hres] at hturns
    exact hturns
  | error e =>
    rw [hres] at hturns
    simp only [Except.toOption, Option.map_none, Option.toList_none, Multiset.coe_nil,
      zero_add] at hturns
    cases e with
    | some e => exact hturns
    | none =>
      dsimp only
      split
      · have hmails : mails (r.2 ++ [⟨s.nextChan, Stage.receiving, none⟩]) = mails r.2 := by
          simp [mails]
        simp only [Shared.ledger, suspend, finish, Work.ledger, mailTokens, hmails]
        exact hturns
      · exact hturns

/-- A future is dropped while a value waits in its oneshot. -/
def Forgets (s : Shared S R CAP) : Op S R → Prop
  | .drop k _ => s.At k fun task => task.inbox.join.isSome = true
  | _ => False

omit [NeZero CAP] in
/-- The inbox of the dropped future is looked up. -/
instance decidableForgets (s : Shared S R CAP) : ∀ op, Decidable (s.Forgets op)
  | .drop k _ => s.decidableAt k _
  | .receive _ | .send .. | .listen _ | .resume .. | .enqueue _ | .resolve _ | .closed _
  | .notifyOne _ | .notifyWaiters | .replyWith .. | .ack _ | .unlock _ | .dropReplyGuard _
  | .toComponents _ | .fromComponents _ | .dropSeqCstGuard | .takeUpdate _ | .service _ =>
    isFalse not_false

/-- What becomes of a dropped future. -/
theorem perform_drop {k : ℕ} (choice : ℕ) {task : Task S R} (htask : s.tasks[k]? = some task) :
    (s.perform (.drop k choice)).2.inner = s.inner ∧
      mails (s.perform (.drop k choice)).2.tasks = mails (s.tasks.eraseIdx k) ∧
      (s.perform (.drop k choice)).2.owners = s.owners ∧
      (s.perform (.drop k choice)).2.seqCstGuards = s.seqCstGuards := by
  simp only [perform, htask]
  split
  · exact ⟨rfl, mails_congr (inboxes_notifyOne ..), rfl, rfl⟩
  · exact ⟨rfl, rfl, rfl, rfl⟩

/-- The value in the oneshot of a dropped future is lost. -/
theorem perform_leak {op : Op S R} (hforgets : s.Forgets op) :
    s.ledger.Leak (s.perform op).2.ledger := by
  cases op with
  | drop k choice =>
    obtain ⟨task, htask, hmail⟩ := hforgets
    obtain ⟨mail, hmail⟩ := Option.isSome_iff_exists.mp hmail
    obtain ⟨hinner, hmails, howners, hkeys⟩ := s.perform_drop choice htask
    have htokens := mailTokens_eraseIdx htask
    rw [hmail] at htokens
    have hbefore : s.ledger = ⟨mail.guard.token ::ₘ (s.perform (.drop k choice)).2.ledger.owed,
        s.seqCstGuards, s.inner.seq.concurrentReplies, s.inner.seq.isLocked⟩ := by
      rw [mailTokens, mailTokens] at htokens
      simp only [ledger, Work.ledger, mailTokens, hmails, howners, htokens, Option.map_some,
        Option.toList_some, Multiset.coe_singleton, Multiset.singleton_add, Multiset.add_cons]
    have hlost := Ledger.Leak.lose mail.guard.token (s.perform (.drop k choice)).2.ledger.owed
      s.seqCstGuards (s.inner.seq.concurrentReplies : Multiset SeqNo) s.inner.seq.isLocked false
    rw [← hbefore, Bool.and_false, Bool.toNat_false, Nat.add_zero] at hlost
    have hafter : (s.perform (.drop k choice)).2.ledger =
        ⟨(s.perform (.drop k choice)).2.ledger.owed, s.seqCstGuards,
          s.inner.seq.concurrentReplies, s.inner.seq.isLocked⟩ := by
      simp only [ledger, Work.ledger, hinner, hkeys]
    rw [hafter]
    exact hlost
  | _ => exact hforgets.elim

omit [NeZero CAP] in
/-- A new future has an empty oneshot. -/
theorem mails_suspend (s : Shared S R CAP) (stage : Stage S) :
    mails (s.suspend stage).tasks = mails s.tasks := by
  simp [suspend, mails]

omit [NeZero CAP] in
/-- A future that moves on keeps its inbox. -/
theorem mails_moveTo (s : Shared S R CAP) (k : ℕ) (stage : Stage S) :
    mails (s.moveTo k stage).tasks = mails s.tasks :=
  mails_congr (map_modify_of_comp (g := (·.goTo stage)) (fun _ => rfl) s.tasks k)

omit [NeZero CAP] in
/-- So does one that starts to listen. -/
theorem mails_listen (s : Shared S R CAP) (k : ℕ) (stage : Stage S) :
    mails (s.listen k stage).tasks = mails s.tasks := by
  unfold listen
  split <;> exact s.mails_moveTo k _

omit [NeZero CAP] in
/-- The steps of a future that change its stage only. -/
theorem ledger_moveTo (s : Shared S R CAP) (k : ℕ) (stage : Stage S) :
    (s.moveTo k stage).ledger = s.ledger :=
  ledger_congr rfl rfl (s.mails_moveTo k stage) rfl rfl

/-! ## The steps of a future -/

/-- `send` hands over no guard. -/
theorem send_turn (t : Int64) (b : Bool) (f : SeqNo → S) :
    s.ledger.Turn (s.perform (.send t b f)).2.ledger := by
  refine turn_of_call (c := .trySend t b fun n => (s.nextChan, f n)) rfl ?_
    (s.inner.sendWithInner_seq t b s.nextChan f) (mails_suspend _ _) rfl rfl
  simp only [SeqEx.call]
  split <;> rfl

omit [NeZero CAP] in
/-- A future that starts to listen changes its stage only. -/
theorem ledger_listen (k : ℕ) (stage : Stage S) : (s.listen k stage).ledger = s.ledger := by
  refine ledger_congr ?_ ?_ (s.mails_listen k stage) ?_ ?_ <;>
    simp only [listen] <;> split <;> rfl

/-- A woken sender tries again, and is handed no guard. -/
theorem resume_turns (k : ℕ) (t : Int64) :
    s.ledger.Turns (s.perform (.resume k t)).2.ledger := by
  simp only [perform]
  split
  · rename_i chan b f _ _ _ _
    refine .single (turn_of_call (c := .trySend t b fun n => (chan, f n)) rfl ?_
      (s.inner.sendWithInner_seq t b chan f) (mails_moveTo _ k _) rfl rfl)
    simp only [SeqEx.call]
    split <;> rfl
  · exact .refl

/-- The value in the oneshot becomes the guard that the future returns. -/
theorem ledger_resolve {k : ℕ} (hpos : s.Possible (.resolve k : Op S R)) :
    (s.perform (.resolve k)).2.ledger = s.ledger := by
  obtain ⟨task, htask, -, hinbox⟩ := hpos
  obtain ⟨value, hinbox⟩ := Option.isSome_iff_exists.mp hinbox
  simp only [perform, Option.mem_def.mp htask, hinbox]
  refine ledger_of_take htask rfl rfl ?_ rfl
  simp only [complete, grant, remove, guard?_returns, hinbox, Option.join, Option.bind_some, id]

/-- A future whose exchange was closed returns no guard. -/
theorem ledger_closed {k : ℕ} (hpos : s.Possible (.closed k : Op S R)) :
    (s.perform (.closed k)).2.ledger = s.ledger := by
  obtain ⟨task, htask, -, hinbox, -⟩ := hpos
  simp only [perform, Option.mem_def.mp htask]
  refine ledger_of_take htask rfl rfl ?_ rfl
  simp only [complete, grant, remove, guard?_returnsClosed, Option.isNone_iff_eq_none.mp hinbox]
  rfl

/-- A future that is dropped with an empty oneshot takes no obligation along. -/
theorem ledger_drop {k choice : ℕ} (hpos : s.Possible (.drop k choice : Op S R))
    (hforgets : ¬ s.Forgets (.drop k choice)) :
    (s.perform (.drop k choice)).2.ledger = s.ledger := by
  obtain ⟨task, htask, -⟩ := hpos
  obtain ⟨hinner, hmails, howners, hkeys⟩ := s.perform_drop choice (Option.mem_def.mp htask)
  have hnone : task.inbox.join = none :=
    Option.not_isSome_iff_eq_none.mp fun hmail => hforgets ⟨task, htask, hmail⟩
  refine ledger_of_take htask (by rw [hinner]) hmails ?_ hkeys
  rw [howners, hnone]
  rfl

/-! ## The steps of a guard -/

/-- `ReplyGuard::reply_with` settles the guard and releases its lock. -/
theorem replyWith_turn {lost : Multiset SeqNo} (hlost : s.ledger.Lost lost) {g : ReplyGuard}
    (ho : ⟨.guard, g⟩ ∈ s.owners) (t : Int64) (b : Bool) (f : SeqNo → SeqNo → S) :
    s.ledger.Turn (s.perform (.replyWith g t b f)).2.ledger :=
  turn_of_settle hlost ho false
    (c := .reply t g.replyNo g.isHoldingLock b
      (s.nextChan, f s.inner.seq.nextSendSeqNo g.replyNo))
    (.inr ⟨t, b, (s.nextChan, f s.inner.seq.nextSendSeqNo g.replyNo), by simp⟩) rfl
    (mails_suspend _ _) rfl (by simp [perform, suspend, finish, release])

/-- `ReplyGuard::ack` settles the guard and passes its lock on. -/
theorem ack_turn {lost : Multiset SeqNo} (hlost : s.ledger.Lost lost) {g : ReplyGuard}
    (ho : ⟨.guard, g⟩ ∈ s.owners) : s.ledger.Turn (s.perform (.ack g)).2.ledger := by
  obtain ⟨hseq, hresult⟩ := s.inner.ack_spec g
  refine turn_of_settle hlost ho true (.inl (by simp)) hseq rfl rfl ?_
  simp [perform, addSeqCstGuard, finish, release, hresult]

/-- `ReplyGuard::unlock` releases the lock and keeps the obligation. -/
theorem unlock_turns {g : ReplyGuard} (ho : ⟨.guard, g⟩ ∈ s.owners) :
    s.ledger.Turns (s.perform (.unlock g)).2.ledger := by
  have hseq := s.inner.unlock_seq g
  obtain ⟨n, holds⟩ := g
  cases holds with
  | false =>
    have hsame : (s.perform (.unlock ⟨n, false⟩)).2.ledger = s.ledger :=
      ledger_of_move ho hseq rfl rfl rfl
    rw [hsame]
  | true =>
    have hafter : (s.perform (.unlock ⟨n, true⟩)).2.ledger =
        ⟨(n, false) ::ₘ s.others ⟨.guard, ⟨n, true⟩⟩, s.seqCstGuards,
          s.inner.seq.concurrentReplies, false⟩ := by
      simp only [ledger, Work.ledger, others, perform, finish, keep, release, hseq, List.map_cons,
        ← Multiset.cons_coe, Multiset.cons_add]
      rfl
    rw [ledger_of_mem ho, hafter]
    exact .single (.unlock n _ _ _ _)

/-- A dropped guard acknowledges its packet and releases the lock it holds. -/
theorem dropReplyGuard_turn {lost : Multiset SeqNo} (hlost : s.ledger.Lost lost) {g : ReplyGuard}
    (ho : ⟨.guard, g⟩ ∈ s.owners) : s.ledger.Turn (s.perform (.dropReplyGuard g)).2.ledger :=
  turn_of_settle hlost ho false (c := .ack g.replyNo g.isHoldingLock) (.inl (by simp)) rfl rfl rfl
    (by simp [perform, finish, release])

/-- A dropped `SeqCstGuard` releases the lock. -/
theorem dropSeqCstGuard_turn (hpos : 0 < s.seqCstGuards) :
    s.ledger.Turn (s.perform .dropSeqCstGuard).2.ledger := by
  have hkey : s.ledger = ⟨s.ledger.owed, (s.seqCstGuards - 1) + 1,
      s.inner.seq.concurrentReplies, s.inner.seq.isLocked⟩ := by
    rw [Nat.sub_add_cancel hpos]
    rfl
  have hafter : (s.perform .dropSeqCstGuard).2.ledger =
      ⟨s.ledger.owed, s.seqCstGuards - 1, s.inner.seq.concurrentReplies, false⟩ := rfl
  rw [hkey, hafter]
  exact .turnKey _ _ _ _

/-- Every step that does not drop such a future is a series of turns of the ledger. -/
theorem perform_turns {op : Op S R} {lost : Multiset SeqNo} (hlost : s.ledger.Lost lost)
    (hpos : s.Possible op) (hforgets : ¬ s.Forgets op) :
    s.ledger.Turns (s.perform op).2.ledger := by
  have hsame {s' : Shared S R CAP} (h : s'.ledger = s.ledger) : s.ledger.Turns s'.ledger := by
    rw [h]
  cases op with
  | receive packet => exact receive_turns hlost packet
  | send t b f => exact .single (send_turn t b f)
  | listen k =>
    simp only [perform]
    split
    · exact hsame (ledger_listen k _)
    · exact .refl
  | resume k t => exact resume_turns k t
  | enqueue k =>
    simp only [perform]
    split
    · exact hsame (s.ledger_moveTo k .exchanging)
    · exact .refl
  | resolve k => exact hsame (ledger_resolve hpos)
  | closed k => exact hsame (ledger_closed hpos)
  | drop k choice => exact hsame (ledger_drop hpos hforgets)
  | notifyOne choice =>
    exact hsame (ledger_congr rfl rfl (mails_congr (inboxes_notifyOne ..)) rfl rfl)
  | notifyWaiters =>
    exact hsame (ledger_congr rfl rfl (mails_congr (inboxes_notifyWaiters s.tasks)) rfl rfl)
  | replyWith g t b f => exact .single (replyWith_turn hlost hpos t b f)
  | ack g => exact .single (ack_turn hlost hpos)
  | unlock g => exact unlock_turns hpos
  | dropReplyGuard g => exact .single (dropReplyGuard_turn hlost hpos)
  | toComponents g => exact hsame (ledger_of_move hpos rfl rfl rfl rfl)
  | fromComponents g => exact hsame (ledger_of_move hpos rfl rfl rfl rfl)
  | dropSeqCstGuard => exact .single (dropSeqCstGuard_turn hpos)
  | takeUpdate t =>
    simp only [perform]
    split <;> exact .refl
  | service t => exact .single (turn_of_call (c := .service t) rfl rfl rfl rfl rfl rfl)

/-! ## No obligation is lost -/

omit [NeZero CAP] in
/-- Every outstanding reply number belongs to a guard, or to its components, or waits
in the oneshot of a live future; and the lock is held by one of these or by a
`SeqCstGuard`. -/
structure Balanced (s : Shared S R CAP) : Prop where
  replies : (s.inner.seq.concurrentReplies : Multiset SeqNo) =
    (s.owners.map fun o => o.guard.replyNo : List SeqNo) +
      ((mails s.tasks).map fun mail => mail.replyNo : List SeqNo)
  lock : s.inner.seq.isLocked = true → (∃ o ∈ s.owners, o.guard.isHoldingLock = true) ∨
    (∃ mail ∈ mails s.tasks, mail.locked = true) ∨ 0 < s.seqCstGuards

omit [NeZero CAP] in
/-- The balance in terms of the ledger. -/
theorem balanced_iff : s.Balanced ↔ s.ledger.Lost 0 ∧ s.ledger.Accounted := by
  have hlost : s.ledger.Lost 0 ↔ (s.inner.seq.concurrentReplies : Multiset SeqNo) =
      (s.owners.map fun o => o.guard.replyNo : List SeqNo) +
        ((mails s.tasks).map fun mail => mail.replyNo : List SeqNo) := by
    simp only [Ledger.Lost, ledger, Work.ledger, mailTokens, Multiset.map_add, Multiset.map_coe,
      List.map_map, add_zero]
    rfl
  have hheld : s.ledger.Accounted ↔ (s.inner.seq.isLocked = true →
      (∃ o ∈ s.owners, o.guard.isHoldingLock = true) ∨
        (∃ mail ∈ mails s.tasks, mail.locked = true) ∨ 0 < s.seqCstGuards) := by
    simp only [Ledger.Accounted, Ledger.holders_pos_iff, ledger, Work.ledger, mailTokens,
      Multiset.mem_add, Multiset.mem_coe, List.mem_map, or_and_right, exists_or, or_assoc,
      exists_exists_and_eq_and]
    rfl
  exact ⟨fun h => ⟨hlost.mpr h.replies, hheld.mpr h.lock⟩,
    fun h => ⟨hlost.mp h.1, hheld.mp h.2⟩⟩

omit [NeZero CAP] in
/-- The balance is read off the state. -/
instance decidableBalanced (s : Shared S R CAP) : Decidable s.Balanced :=
  decidable_of_iff (_ ∧ _) ⟨fun h => ⟨h.1, h.2⟩, fun h => ⟨h.replies, h.lock⟩⟩

/-- A step keeps the balance exactly when it forgets nothing. -/
theorem balanced_perform_iff {op : Op S R} (hs : s.Balanced) (hpos : s.Possible op) :
    (s.next op).Balanced ↔ ¬ s.Forgets op := by
  obtain ⟨hlost, haccounted⟩ := balanced_iff.mp hs
  rw [balanced_iff]
  refine ⟨fun ⟨hafter, _⟩ hforgets => ?_, fun hforgets => ?_⟩
  · obtain ⟨a, ha⟩ := (perform_leak hforgets).loses_one hlost
    have hnil : ({a} : Multiset SeqNo) = 0 := add_left_cancel (ha.symm.trans hafter)
    exact absurd hnil (Multiset.singleton_ne_zero a)
  · have hturns := perform_turns hlost hpos hforgets
    exact ⟨hturns.loses_nothing hlost, hturns.accounted haccounted⟩

/-- Nothing is lost in a run exactly when no future is dropped while a value waits
in its oneshot. -/
theorem balanced_iff_remembers (interval : Int64) (initialSeqNo : SeqNo) {l : List (Op S R)}
    (hl : Allowed Possible next (new interval initialSeqNo : Shared S R CAP) l) :
    (∀ l', l' <+: l → (l'.foldl next (new interval initialSeqNo : Shared S R CAP)).Balanced) ↔
      Allowed (fun s op => ¬ s.Forgets op) next (new interval initialSeqNo : Shared S R CAP) l :=
  forall_prefix_iff_allowed (I := fun _ => True) (fun _ _ _ _ => trivial)
    (fun _ _ _ hs hpos => balanced_perform_iff hs hpos) trivial
    ⟨rfl, fun h => nomatch h⟩ hl

/-- The future of a stored packet is dropped before the packet is pumped, and a
future that waits for a reply before the reply arrives. -/
def droppedInTime : List (Op ℕ ℕ) :=
  [.receive (.seqCstPayload 1 71), .send 5 false (fun _ => 50), .enqueue 1, .drop 0 0,
    .receive (.payload 0 70), .drop 0 0, .receive (.seqCstReply 2 0 72),
    .replyWith ⟨0, false⟩ 6 true (fun _ _ => 51), .receive (.ack 1), .resolve 0]

/-- Futures that are dropped in time take no obligation along. -/
theorem balanced_iff_remembers_droppedInTime :
    (droppedInTime.foldl next (new 100 0 : Shared ℕ ℕ 4)).Balanced :=
  (balanced_iff_remembers 100 0 (by decide)).mpr (by decide) droppedInTime List.prefix_rfl

/-- A packet waits for the one before it, and its future is dropped between the
time it is pumped and the time the future is polled. -/
def droppedTooLate : List (Op ℕ ℕ) :=
  [.receive (.seqCstPayload 1 71), .receive (.payload 0 70), .drop 0 0]

/-- The number of the pumped packet stays reserved, and the lock taken. -/
theorem dropped_mail_leaks :
    Allowed Possible next (new 100 0 : Shared ℕ ℕ 4) droppedTooLate ∧
      ¬ (droppedTooLate.foldl next (new 100 0 : Shared ℕ ℕ 4)).Balanced := by
  decide

end Shared

end SequentialExchange.Tokio
