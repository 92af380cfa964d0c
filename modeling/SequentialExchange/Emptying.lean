import SequentialExchange.ArrivalOrder
import SequentialExchange.GuardLedger
import SequentialExchange.PumpFlag

/-!
# Emptying the receive window of a closed instance

On a closed instance a thread can still pump, drop the guard of what it gets and
pump again. The dropped guard gives nothing back, so every packet that is pumped
leaves its reservation, and a SeqCst packet the lock, in the way of the packets
behind it. This module follows the loop over the queue of stored packets and says
for which queues and send windows it gets to the end.
-/

namespace SequentialExchange

open WrapNumbering

variable {S R : Type*} {CAP : ℕ} [NeZero CAP]

/-! ## The queue of stored packets -/

/-- The cell is not empty. -/
def RecvEntry.isUsed : RecvEntry R → Bool
  | .occupied _ _ _ _ | .unlocked _ => true
  | .empty => false

namespace SeqEx

variable {s t : SeqEx S R CAP}

/-- The packets stored from this number on, up to the first empty cell. Markers are
passed over, and no cell is read twice. -/
def collect : ℕ → (Fin CAP → RecvEntry R) → SeqNo → List (Packet R)
  | 0, _, _ => []
  | fuel + 1, window, next =>
    match window (cell CAP next) with
    | .occupied n r b d =>
      .newWithData n r b d ::
        collect fuel (Function.update window (cell CAP next) .empty) (next + 1)
    | .unlocked _ => collect fuel (Function.update window (cell CAP next) .empty) (next + 1)
    | .empty => []

/-- The consecutive packets that are stored from the cursor on. -/
def queue (s : SeqEx S R CAP) : List (Packet R) := collect CAP s.recvWindow s.nextRecvSeqNo

/-- The number of cells that are not empty. -/
def usedCount (window : Fin CAP → RecvEntry R) : ℕ :=
  (Finset.univ.filter fun i => (window i).isUsed = true).card

omit [NeZero CAP] in
/-- A window has no more used cells than cells. -/
theorem usedCount_le (window : Fin CAP → RecvEntry R) : usedCount window ≤ CAP :=
  (Finset.card_le_univ _).trans (Fintype.card_fin CAP).le

omit [NeZero CAP] in
/-- Emptying a used cell leaves one fewer. -/
theorem usedCount_clear {w : Fin CAP → RecvEntry R} {i : Fin CAP}
    (h : (w i).isUsed = true) :
    usedCount (Function.update w i .empty) < usedCount w := by
  refine Finset.card_lt_card ((Finset.ssubset_iff_of_subset fun j hj => ?_).mpr ⟨i, ?_, ?_⟩)
  · rw [Finset.mem_filter_univ] at hj ⊢
    by_cases hji : j = i
    · subst hji
      exact h
    · rwa [Function.update_of_ne hji] at hj
  · rwa [Finset.mem_filter_univ]
  · rw [Finset.mem_filter_univ, Function.update_self]
    exact Bool.false_ne_true

/-- As many steps as there are used cells read the whole queue. -/
theorem collect_fuel {f g : ℕ} {window : Fin CAP → RecvEntry R} (hf : usedCount window ≤ f)
    (hg : usedCount window ≤ g) (next : SeqNo) : collect f window next = collect g window next := by
  have hnone {window : Fin CAP → RecvEntry R} (h : usedCount window ≤ 0) (next : SeqNo) (k : ℕ) :
      collect k window next = [] := by
    cases k with
    | zero => rfl
    | succ k =>
      cases hw : window (cell CAP next) with
      | empty => simp only [collect, hw]
      | _ =>
        have := usedCount_clear (w := window) (i := cell CAP next) (by rw [hw]; rfl)
        omega
  induction f generalizing g window next with
  | zero => rw [hnone hf, hnone hf]
  | succ f ih =>
    cases g with
    | zero => rw [hnone hg, hnone hg]
    | succ g =>
      simp only [collect]
      cases hw : window (cell CAP next) with
      | empty => rfl
      | occupied n r b d =>
        have hless := usedCount_clear (w := window) (i := cell CAP next) (by rw [hw]; rfl)
        rw [ih (by omega) (show _ ≤ g by omega)]
      | unlocked n =>
        have hless := usedCount_clear (w := window) (i := cell CAP next) (by rw [hw]; rfl)
        exact ih (by omega) (by omega) _

/-- Every step reads one packet at most. -/
theorem length_collect_le (f : ℕ) (window : Fin CAP → RecvEntry R) (next : SeqNo) :
    (collect f window next).length ≤ f := by
  induction f generalizing window next with
  | zero => exact le_rfl
  | succ f ih =>
    simp only [collect]
    cases window (cell CAP next) with
    | occupied n r b d => exact Nat.succ_le_succ (ih _ _)
    | unlocked n => exact (ih _ _).trans (Nat.le_succ f)
    | empty => exact Nat.zero_le _

/-- `fast_forward` passes over markers, so the queue stays the same. -/
theorem collect_fastForwardLoop {f : ℕ} {window : Fin CAP → RecvEntry R}
    (hf : usedCount window ≤ f) (g : ℕ) (next : SeqNo) :
    collect f (fastForwardLoop g window next).1 (fastForwardLoop g window next).2.1 =
      collect f window next := by
  induction g generalizing window next with
  | zero => rfl
  | succ g ih =>
    cases hw : window (cell CAP next) with
    | occupied n r b d => simp only [fastForwardLoop, hw]
    | empty => simp only [fastForwardLoop, hw]
    | unlocked n =>
      have hless := usedCount_clear (w := window) (i := cell CAP next) (by rw [hw]; rfl)
      obtain ⟨f, rfl⟩ : ∃ k, f = k + 1 := ⟨f - 1, by omega⟩
      simp only [fastForwardLoop, hw]
      rw [ih (by omega), collect_fuel (f := f + 1) (g := f) (by omega) (by omega)]
      simp only [collect, hw]

/-- The packet at the cursor is the first of the queue, and the others are left when it is
handed over. -/
theorem queue_advance {n : SeqNo} {r : Option SeqNo} {b : Bool} {d : R}
    (h : s.recvWindow (cell CAP s.nextRecvSeqNo) = .occupied n r b d) :
    s.queue = .newWithData n r b d :: (s.advance s.nextRecvSeqNo).2.queue := by
  have hless := usedCount_clear (w := s.recvWindow) (i := cell CAP s.nextRecvSeqNo)
    (by rw [h]; rfl)
  have hle := usedCount_le s.recvWindow
  obtain ⟨C, hC⟩ : ∃ k, CAP = k + 1 := ⟨CAP - 1, by omega⟩
  have hrest : (s.advance s.nextRecvSeqNo).2.queue = collect C
      (Function.update s.recvWindow (cell CAP s.nextRecvSeqNo) .empty) (s.nextRecvSeqNo + 1) := by
    rw [collect_fuel (f := C) (g := CAP) (by omega) (by omega)]
    exact collect_fastForwardLoop (usedCount_le _) (CAP + 1) _
  have hfirst : s.queue = collect (C + 1) s.recvWindow s.nextRecvSeqNo := by
    rw [queue, collect_fuel (f := CAP) (g := C + 1) (by omega) (by omega)]
  rw [hrest, hfirst]
  simp only [collect, h]

/-- Nothing is stored from the cursor on when its cell is empty. -/
theorem queue_of_empty (h : s.recvWindow (cell CAP s.nextRecvSeqNo) = .empty) : s.queue = [] := by
  obtain ⟨C, hC⟩ : ∃ k, CAP = k + 1 := ⟨CAP - 1, by have := NeZero.ne CAP; omega⟩
  rw [queue, collect_fuel (f := CAP) (g := C + 1) (usedCount_le _)
    (hC ▸ usedCount_le _)]
  simp only [collect, h]

/-! ## Whose turn comes -/

/-- The packet replied to has left the send window, if it was in there. -/
def pairOff (s : SeqEx S R CAP) : Option SeqNo → SeqEx S R CAP
  | some r => (s.takeSend r).2
  | none => s

/-- All packets that these reply to have left the send window. -/
def answeredBy (s : SeqEx S R CAP) (ps : List (Packet R)) : SeqEx S R CAP :=
  ps.foldl (fun t p => t.pairOff p.replyNo?) s

/-- The number that packet `k` of the queue replies to. -/
def queueReply (s : SeqEx S R CAP) (k : ℕ) : Option SeqNo := s.queue[k]?.bind Packet.replyNo?

/-- Packet `k` of the queue meets a full send window: the next cell to send is taken, and
neither by the packet it replies to nor by one that those before it reply to. -/
def meetsFull (s : SeqEx S R CAP) (k : ℕ) : Bool :=
  (s.answeredBy (s.queue.take k)).isBlockedAt (s.queueReply k) 0

/-- Packet `k` of the queue can be handed over although none of those before it has given
anything back: the cells for their replies and its own are free, and it is not the second
SeqCst packet. -/
structure HasTurn (s : SeqEx S R CAP) (k : ℕ) : Prop where
  cells : ∀ i ≤ k, (s.answeredBy (s.queue.take k)).isBlockedAt (s.queueReply k) i = false
  lock : s.queue[k]?.any Packet.isSeqCst = true → (s.queue.take k).any Packet.isSeqCst = false

/-- Up to the first packet that meets a full send window, the queue is no longer than there
are reply numbers, and every packet before that one has its turn. -/
def Clearable (s : SeqEx S R CAP) : Prop :=
  ∀ k < s.queue.length, (∀ j < k, s.meetsFull j = false) →
    k + 2 < CAP ∧ (s.meetsFull k = true ∨ s.HasTurn k)

/-- A bounded search through the outstanding reply numbers. -/
instance (s : SeqEx S R CAP) (k : ℕ) : Decidable (s.HasTurn k) :=
  decidable_of_iff ((∀ i ≤ k, (s.answeredBy (s.queue.take k)).isBlockedAt (s.queueReply k) i =
      false) ∧ (s.queue[k]?.any Packet.isSeqCst = true →
        (s.queue.take k).any Packet.isSeqCst = false))
    ⟨fun h => ⟨h.1, h.2⟩, fun h => ⟨h.cells, h.lock⟩⟩

/-- A bounded search through the stored packets. -/
instance (s : SeqEx S R CAP) : Decidable s.Clearable :=
  inferInstanceAs (Decidable (∀ k < s.queue.length, _ → _))

/-- No packet answers nothing. -/
@[simp] theorem answeredBy_nil : s.answeredBy [] = s := rfl

/-- The last packet answers what the others left. -/
theorem answeredBy_concat (ps : List (Packet R)) (p : Packet R) :
    s.answeredBy (ps ++ [p]) = (s.answeredBy ps).pairOff p.replyNo? := by
  rw [answeredBy, List.foldl_append]
  rfl

/-- Answering draws no number. -/
@[simp] theorem pairOff_nextSendSeqNo (r : Option SeqNo) :
    (s.pairOff r).nextSendSeqNo = s.nextSendSeqNo := by
  cases r with
  | none => rfl
  | some r =>
    rcases s.takeSend_cases r with ⟨e, -, -, h⟩ | ⟨-, h⟩ <;> rw [pairOff, h]

/-- However many packets answer. -/
@[simp] theorem answeredBy_nextSendSeqNo (ps : List (Packet R)) :
    (s.answeredBy ps).nextSendSeqNo = s.nextSendSeqNo := by
  induction ps using List.reverseRecOn with
  | nil => rfl
  | append_singleton ps p ih => rw [answeredBy_concat, pairOff_nextSendSeqNo, ih]

/-- Pairing reads and changes the send window only. -/
theorem pairOff_sendWindow (h : t.sendWindow = s.sendWindow) (r : Option SeqNo) :
    (t.pairOff r).sendWindow = (s.pairOff r).sendWindow := by
  cases r with
  | none => exact h
  | some r =>
    simp only [pairOff, takeSend, h]
    cases s.sendWindow (cell CAP r) with
    | none => exact h
    | some e =>
      dsimp only
      split
      · rfl
      · exact h

/-- A delivery leaves the send window that its pairing leaves. -/
theorem handOver_sendWindow (n : SeqNo) (r : Option SeqNo) (b : Bool) (d : R) :
    (s.handOver n r b d).2.sendWindow = (s.pairOff r).sendWindow := by
  cases r with
  | none => rfl
  | some r =>
    have hpair := pairOff_sendWindow (s := s) (t := s.reserve n b) rfl (some r)
    rw [← hpair, handOver, pairOff]
    simp only [reserve]
    split <;> rfl

/-- The cells that the fullness test looks at depend on the send window only. -/
theorem isBlockedAt_congr (hnext : t.nextSendSeqNo = s.nextSendSeqNo)
    (hw : t.sendWindow = s.sendWindow) (r : Option SeqNo) (i : ℕ) :
    t.isBlockedAt r i = s.isBlockedAt r i := by
  simp only [isBlockedAt, hnext, hw]

/-- The fullness test reports a full send window when a reply number is left and the next
cell is taken. -/
theorem isFullInner_eq_waitingForRecv_iff {r : Option SeqNo}
    (hlen : s.concurrentReplies.length + 1 < 2 ^ 32) :
    s.isFullInner r = .error .waitingForRecv ↔
      s.concurrentReplies.length + 2 < CAP ∧ s.isBlockedAt r 0 = true := by
  have hscan : (List.range (s.concurrentReplies.length + 1)).find? (s.isBlockedAt r) = some 0 ↔
      s.isBlockedAt r 0 = true := by
    rw [List.range_succ_eq_map, List.find?_cons]
    cases s.isBlockedAt r 0 with
    | true => simp
    | false => simp [List.find?_eq_some_iff_append]
  unfold isFullInner
  rw [scan_length hlen]
  split
  · rename_i hfull
    exact ⟨by simp, fun h => absurd h.1 (by omega)⟩
  · rename_i hroom
    rw [← hscan]
    cases hfind : (List.range (s.concurrentReplies.length + 1)).find? (s.isBlockedAt r) with
    | none => simp
    | some i =>
      cases i with
      | zero => simpa using by omega
      | succ i => simp

/-! ## One pump after the other -/

/-- What is left of `s` after these packets of its queue were pumped and nothing was given
back. -/
structure Emptied (base : SeqNo) (s : SeqEx S R CAP) (ps : List (Packet R))
    (t : SeqEx S R CAP) : Prop where
  fits : t.Fits
  view : ∃ cursor early, ReceiveView base t cursor early
  queue : s.queue = ps ++ t.queue
  replies : t.concurrentReplies.length = ps.length
  lock : t.isLocked = ps.any Packet.isSeqCst
  nextSend : t.nextSendSeqNo = s.nextSendSeqNo
  sendWindow : t.sendWindow = (s.answeredBy ps).sendWindow

namespace Emptied

variable {base : SeqNo} {ps : List (Packet R)}

/-- Nothing was pumped yet. -/
theorem start (hfits : s.Fits) (hview : ∃ cursor early, ReceiveView base s cursor early)
    (hreplies : s.concurrentReplies = []) (hlock : s.isLocked = false) : Emptied base s [] s :=
  ⟨hfits, hview, rfl, by rw [hreplies]; rfl, hlock, rfl, rfl⟩

/-- The packets that were pumped are the first of the queue. -/
theorem take_queue (h : Emptied base s ps t) : s.queue.take ps.length = ps := by
  rw [h.queue, List.take_left]

/-- The next packet is at their number. -/
theorem queue_get (h : Emptied base s ps t) (k : ℕ) :
    s.queue[ps.length + k]? = t.queue[k]? := by
  rw [h.queue, List.getElem?_append_right (Nat.le_add_right _ _), Nat.add_sub_cancel_left]

/-- The cells the next packet needs are those that the queue tells. -/
theorem isBlockedAt (h : Emptied base s ps t) (r : Option SeqNo) (i : ℕ) :
    t.isBlockedAt r i = (s.answeredBy ps).isBlockedAt r i :=
  isBlockedAt_congr (h.nextSend.trans (answeredBy_nextSendSeqNo ps).symm) h.sendWindow r i

/-- The window meets the next packet as it is after the packets before. -/
theorem meetsFull (h : Emptied base s ps t) :
    s.meetsFull ps.length = t.isBlockedAt (t.queue[0]?.bind Packet.replyNo?) 0 := by
  rw [SeqEx.meetsFull, queueReply, h.take_queue, h.isBlockedAt, ← h.queue_get 0, Nat.add_zero]

/-- The next packet has its turn when no guard in its way is left to drop. -/
theorem hasTurn_iff (h : Emptied base s ps t) :
    s.HasTurn ps.length ↔
      (∀ i ≤ t.concurrentReplies.length,
        t.isBlockedAt (t.queue[0]?.bind Packet.replyNo?) i = false) ∧
        (t.queue[0]?.any Packet.isSeqCst = true → t.isLocked = false) := by
  have hcells (i : ℕ) : (s.answeredBy (s.queue.take ps.length)).isBlockedAt (s.queueReply ps.length)
      i = t.isBlockedAt (t.queue[0]?.bind Packet.replyNo?) i := by
    rw [queueReply, h.take_queue, h.isBlockedAt, ← h.queue_get 0, Nat.add_zero]
  have hlock : (s.queue.take ps.length).any Packet.isSeqCst = t.isLocked := by
    rw [h.take_queue, h.lock]
  have hget : s.queue[ps.length]? = t.queue[0]? := h.queue_get 0
  rw [h.replies]
  constructor
  · intro hturn
    refine ⟨fun i hi => (hcells i).symm.trans (hturn.cells i hi), fun hcst => ?_⟩
    exact hlock.symm.trans (hturn.lock (hget ▸ hcst))
  · rintro ⟨hfree, hunlocked⟩
    refine ⟨fun i hi => (hcells i).trans (hfree i hi), fun hcst => ?_⟩
    exact hlock.trans (hunlocked (hget ▸ hcst))

/-- What pumping comes to: the next packet of the queue is handed over when it has its turn,
nothing is when the queue is at its end or meets a full send window, and otherwise a guard
would have to be dropped. -/
inductive Next (base : SeqNo) (s : SeqEx S R CAP) (ps : List (Packet R)) (t : SeqEx S R CAP) :
    Except TryError (RecvOkRaw S R × Bool) × SeqEx S R CAP → Prop where
  /-- The next packet has its turn. -/
  | handed (p : Packet R) (ok : RecvOkRaw S R) (doPump : Bool) (u : SeqEx S R CAP)
      (hitem : ok.item? = p.item?) (hroom : ps.length + 2 < CAP)
      (hfull : s.meetsFull ps.length = false) (hturn : s.HasTurn ps.length)
      (hqueue : t.queue = p :: u.queue) (hu : Emptied base s (ps ++ [p]) u) :
      Next base s ps t (.ok (ok, doPump), u)
  /-- The queue is at its end. -/
  | done (hqueue : t.queue = []) : Next base s ps t (.error .waitingForRecv, t)
  /-- The next packet meets a full send window. -/
  | full (p : Packet R) (rest : List (Packet R)) (hqueue : t.queue = p :: rest)
      (hroom : ps.length + 2 < CAP) (hfull : s.meetsFull ps.length = true)
      (hblocked : t.isBlockedAt p.replyNo? 0 = true) :
      Next base s ps t (.error .waitingForRecv, t)
  /-- The next packet waits for a guard. -/
  | stuck (p : Packet R) (rest : List (Packet R)) (hqueue : t.queue = p :: rest)
      (hnot : ¬ (ps.length + 2 < CAP ∧ (s.meetsFull ps.length = true ∨ s.HasTurn ps.length))) :
      Next base s ps t (.error .waitingForReply, t)

/-- A packet that is handed over is paired off, and nothing is given back. -/
theorem handOver (hC : ∃ e, CAP = 2 ^ e) (htwo : 2 ≤ CAP) (h : Emptied base s ps t) {n : SeqNo}
    {r : Option SeqNo} {b : Bool} {d : R}
    (hcell : t.recvWindow (cell CAP t.nextRecvSeqNo) = .occupied n r b d)
    (hfull : t.isFullInner r = .ok ()) (hlock : b = true → t.isLocked = false) :
    Emptied base s (ps ++ [.newWithData n r b d])
        ((t.advance t.nextRecvSeqNo).2.handOver n r b d).2 ∧
      t.queue = .newWithData n r b d ::
        ((t.advance t.nextRecvSeqNo).2.handOver n r b d).2.queue := by
  have hqueue := queue_advance hcell
  obtain ⟨hrecv, hwindow⟩ := (t.advance t.nextRecvSeqNo).2.handOver_receive n r b d
  have hsame : ((t.advance t.nextRecvSeqNo).2.handOver n r b d).2.queue =
      (t.advance t.nextRecvSeqNo).2.queue := by rw [SeqEx.queue, hrecv, hwindow, ← SeqEx.queue]
  have hcall : (t.call .pump).2 = ((t.advance t.nextRecvSeqNo).2.handOver n r b d).2 := by
    simp only [call, tryPumpRaw_next hcell hfull hlock]
  have hfits := h.fits.call hC htwo .pump
  obtain ⟨cursor, early, hview⟩ := h.view
  have hviewed := hview.call hC .pump
  rw [hcall] at hfits hviewed
  refine ⟨⟨hfits, hviewed, ?_, ?_, ?_, ?_, ?_⟩, by rw [hqueue, hsame]⟩
  · rw [h.queue, hqueue, hsame, List.append_assoc, List.singleton_append]
  · rw [handOver_replies, List.length_append, List.length_append]
    exact congrArg (· + 1) h.replies
  · rw [handOver_isLocked, List.any_append]
    show (t.isLocked || b) = _
    rw [h.lock]
    simp
  · rw [((t.advance t.nextRecvSeqNo).2.handOver_send n r b d).1]
    exact h.nextSend
  · rw [handOver_sendWindow, answeredBy_concat, Packet.replyNo?_newWithData]
    exact pairOff_sendWindow (t := (t.advance t.nextRecvSeqNo).2) h.sendWindow r

/-- The next pump does what the queue and the send window tell. -/
theorem next (hC : ∃ e, CAP = 2 ^ e) (htwo : 2 ≤ CAP) (h : Emptied base s ps t) :
    Next base s ps t t.tryPumpRaw := by
  have hlen := h.fits.length_lt
  have hhead {n : SeqNo} {r : Option SeqNo} {b : Bool} {d : R} {rest : List (Packet R)}
      (hq : t.queue = .newWithData n r b d :: rest) :
      s.meetsFull ps.length = t.isBlockedAt r 0 ∧ (s.HasTurn ps.length ↔
        (∀ i ≤ t.concurrentReplies.length, t.isBlockedAt r i = false) ∧
          (b = true → t.isLocked = false)) := by
    rw [h.meetsFull, h.hasTurn_iff, hq]
    simp
  have hpump := t.tryPumpRaw_cases
  generalize t.tryPumpRaw = res at hpump ⊢
  cases hpump with
  | nothing hcell =>
    refine .done (queue_of_empty ?_)
    cases hw : t.recvWindow (cell CAP t.nextRecvSeqNo) with
    | empty => rfl
    | occupied n r b d => exact absurd hw (hcell n r b d)
    | unlocked n =>
      -- `fast_forward` never leaves the cursor at a marker
      obtain ⟨cursor, early, hview⟩ := h.view
      have hperiod := period_pos (Nat.pos_of_ne_zero (NeZero.ne CAP))
      refine absurd ((hview.marks.mem_iff hC le_rfl (Nat.lt_add_of_pos_right hperiod)).mpr ?_)
        hview.stopped
      exact ⟨n, hview.cursor_eq ▸ hw⟩
  | full n r b d e hcell hfull =>
    obtain ⟨hmeets, hturn⟩ := hhead (queue_advance hcell)
    have hrecv := isFullInner_eq_waitingForRecv_iff (r := r) hlen
    have hok : t.isFullInner r = .ok () ↔ _ := isFullInner_eq_ok_iff hlen
    rw [hfull] at hrecv hok
    rw [h.replies] at hrecv hok hturn
    cases e with
    | waitingForRecv =>
      obtain ⟨hroom, hblocked⟩ := hrecv.mp rfl
      exact .full _ _ (queue_advance hcell) hroom (hmeets.trans hblocked) (by simpa using hblocked)
    | waitingForReply =>
      refine .stuck _ _ (queue_advance hcell) ?_
      rintro ⟨hroom, hblocked | hhas⟩
      · exact absurd (hrecv.mpr ⟨hroom, hmeets.symm.trans hblocked⟩) (by simp)
      · exact absurd (hok.mpr ⟨by omega, (hturn.mp hhas).1⟩) (by simp)
  | locked n r d hcell hfull hlocked =>
    obtain ⟨hmeets, hturn⟩ := hhead (queue_advance hcell)
    have hfree := (isFullInner_eq_ok_iff hlen).mp hfull
    refine .stuck _ _ (queue_advance hcell) ?_
    rintro ⟨-, hblocked | hhas⟩
    · rw [hmeets, hfree.2 0 (Nat.zero_le _)] at hblocked
      cases hblocked
    · have hunlocked := (hturn.mp hhas).2 rfl
      simp [hlocked] at hunlocked
  | next n r b d hcell hfull hlock =>
    obtain ⟨hmeets, hturn⟩ := hhead (queue_advance hcell)
    obtain ⟨hroom, hfree⟩ := (isFullInner_eq_ok_iff hlen).mp hfull
    obtain ⟨hafter, hqueue⟩ := h.handOver hC htwo hcell hfull hlock
    rw [h.replies] at hroom
    refine .handed _ _ _ _ ?_ (by omega) (hmeets.trans (hfree 0 (Nat.zero_le _)))
      (hturn.mpr ⟨hfree, hlock⟩) hqueue hafter
    rw [Packet.item?_newWithData]
    rcases (t.advance t.nextRecvSeqNo).2.handOver_cases n r b d with
      ⟨_, _, -, -, -, hcall⟩ | ⟨-, hcall⟩ <;> rw [hcall] <;> rfl

end Emptied

/-- The condition of `Clearable` for the packets from this one on. -/
def ClearableFrom (s : SeqEx S R CAP) (m : ℕ) : Prop :=
  ∀ k, m ≤ k → k < s.queue.length → (∀ j, m ≤ j → j < k → s.meetsFull j = false) →
    k + 2 < CAP ∧ (s.meetsFull k = true ∨ s.HasTurn k)

/-- Clearable from the first stored packet on. -/
theorem clearable_iff : s.Clearable ↔ s.ClearableFrom 0 := by
  simp [Clearable, ClearableFrom]

/-- Nothing is asked of packets that are not there. -/
theorem clearableFrom_of_le {m : ℕ} (h : s.queue.length ≤ m) : s.ClearableFrom m :=
  fun k hk hlt _ => absurd hlt (by omega)

/-- Nor of those behind a packet that meets a full send window. -/
theorem clearableFrom_of_full {m : ℕ} (hroom : m + 2 < CAP) (hfull : s.meetsFull m = true) :
    s.ClearableFrom m := by
  intro k hk _ hbefore
  rcases Nat.eq_or_lt_of_le hk with rfl | hlt
  · exact ⟨hroom, .inl hfull⟩
  · rw [hbefore m le_rfl hlt] at hfull
    cases hfull

/-- A packet that has its turn leaves the question to the next one. -/
theorem clearableFrom_succ {m : ℕ} (hroom : m + 2 < CAP) (hfull : s.meetsFull m = false)
    (hturn : s.HasTurn m) : s.ClearableFrom m ↔ s.ClearableFrom (m + 1) := by
  constructor
  · intro h k hk hlt hbefore
    refine h k (by omega) hlt fun j hj hjk => ?_
    rcases Nat.eq_or_lt_of_le hj with rfl | hmj
    · exact hfull
    · exact hbefore j hmj hjk
  · intro h k hk hlt hbefore
    rcases Nat.eq_or_lt_of_le hk with rfl | hmk
    · exact ⟨hroom, .inr hturn⟩
    · exact h k hmk hlt fun j hj hjk => hbefore j (by omega) hjk

end SeqEx

/-! ## The loop over the window -/

namespace Sync

/-- What an attempt to pump comes to: `try_pump` returns where `pump` would sleep. -/
def PumpResult.ofTry : Except TryError (RecvOkRaw S R × Bool) → PumpResult S R
  | .ok o => .returned (some o)
  | .error .waitingForRecv => .returned none
  | .error .waitingForReply => .waits

namespace SeqExInner

/-- `pump` or `try_pump`. -/
def pumpOnce (blocking : Bool) (i : SeqExInner S R CAP) : PumpResult S R × SeqExInner S R CAP :=
  if blocking then (i.pump.result, i.pump.inner) else (.ofTry i.tryPump.result, i.tryPump.inner)

/-- The guard of an item is dropped, if it has one. -/
def dropItem (i : SeqExInner S R CAP) (item : RecvOkRaw S R) : SeqExInner S R CAP :=
  match ReplyGuard.ofRaw? item with
  | some g => (i.dropReplyGuard g).inner
  | none => i

/-- Pumps, drops the guard of what it gets and pumps again, until it gets nothing. Tells
what it got, whether the last attempt waits for a guard, and the state machine that is
left. The first argument bounds the attempts; `none` when it is used up. -/
def drain (blocking : Bool) :
    ℕ → SeqExInner S R CAP → Option (List (RecvOkRaw S R) × Bool × SeqEx S R CAP)
  | 0, _ => none
  | fuel + 1, i =>
    match i.pumpOnce blocking with
    | (.returned (some (item, _)), i') =>
      (drain blocking fuel (i'.dropItem item)).map fun r => (item :: r.1, r.2)
    | (.returned none, i') => some ([], false, i'.seq)
    | (.waits, i') => some ([], true, i'.seq)

/-- The loop comes to its end without waiting for a guard, and it got every consecutive
packet stored, in order, up to the first gap or to a packet that meets a full send window. -/
def Drains (blocking : Bool) (i : SeqExInner S R CAP) : Prop :=
  ∃ items t, i.drain blocking (CAP + 1) = some (items, false, t) ∧
    items.map RecvOkRaw.item? = (i.seq.queue.take items.length).map Packet.item? ∧
    (items.length = i.seq.queue.length ∨
      ∃ p, i.seq.queue[items.length]? = some p ∧ t.isBlockedAt p.replyNo? 0 = true)

/-- A closed instance on which no thread sleeps in `pump`. -/
structure Shut (i : SeqExInner S R CAP) : Prop where
  closed : i.closed = true
  alone : i.replyReceiverWaiters = false

variable {i : SeqExInner S R CAP}

/-- Then `pump` and `try_pump` come to the same. -/
theorem Shut.pumpOnce (h : i.Shut) (blocking : Bool) :
    ∃ i', i.pumpOnce blocking = (.ofTry i.seq.tryPumpRaw.1, i') ∧
      i'.seq = i.seq.tryPumpRaw.2 ∧ (∀ o, i.seq.tryPumpRaw.1 = .ok o → i'.Shut) := by
  cases blocking with
  | true =>
    simp only [SeqExInner.pumpOnce, if_true, pump, h.alone, Bool.false_eq_true, if_false,
      pumpLoop]
    cases hr : i.seq.tryPumpRaw.1 with
    | ok o => exact ⟨_, rfl, rfl, fun _ _ => ⟨h.closed, rfl⟩⟩
    | error e => cases e <;> exact ⟨_, rfl, rfl, by simp⟩
  | false =>
    simp only [SeqExInner.pumpOnce, Bool.false_eq_true, if_false, tryPump]
    cases hr : i.seq.tryPumpRaw.1 with
    | ok o => exact ⟨_, rfl, rfl, fun _ _ => ⟨h.closed, h.alone⟩⟩
    | error e => exact ⟨_, rfl, rfl, by simp⟩

omit [NeZero CAP] in
/-- Dropping a guard gives nothing back. -/
theorem Shut.dropItem (h : i.Shut) (item : RecvOkRaw S R) :
    (i.dropItem item).seq = i.seq ∧ (i.dropItem item).Shut := by
  have hdropped (g : ReplyGuard) : (i.dropReplyGuard g).inner.seq = i.seq ∧
      (i.dropReplyGuard g).inner.Shut := by
    unfold dropReplyGuard notifyReply
    rw [if_pos h.closed]
    split <;> exact ⟨rfl, h.closed, h.alone⟩
  cases item with
  | payload n b d => exact hdropped ⟨n, b⟩
  | reply n b d e => exact hdropped ⟨n, b⟩
  | ack e => exact ⟨rfl, h⟩

/-- The loop got the first packets of the queue, and it waits for no guard in the end exactly
when the packets that are left can be cleared. -/
theorem drain_spec {base : SeqNo} {s : SeqEx S R CAP} (hC : ∃ e, CAP = 2 ^ e) (htwo : 2 ≤ CAP)
    (blocking : Bool) {fuel : ℕ} {ps : List (Packet R)} (h : i.Shut)
    (hs : SeqEx.Emptied base s ps i.seq) (hfuel : i.seq.queue.length < fuel) :
    ∃ items stuck t, i.drain blocking fuel = some (items, stuck, t) ∧
      items.map RecvOkRaw.item? = (i.seq.queue.take items.length).map Packet.item? ∧
      (stuck = false ↔ s.ClearableFrom ps.length) ∧
      (stuck = false → items.length = i.seq.queue.length ∨
        ∃ p, i.seq.queue[items.length]? = some p ∧ t.isBlockedAt p.replyNo? 0 = true) := by
  induction fuel generalizing i ps with
  | zero => exact absurd hfuel (Nat.not_lt_zero _)
  | succ fuel ih =>
    obtain ⟨i', hpump, hseq, hshut⟩ := h.pumpOnce blocking
    have hlength : s.queue.length = ps.length + i.seq.queue.length := by
      rw [hs.queue, List.length_append]
    have hnext := hs.next hC htwo
    unfold drain
    rw [hpump]
    generalize i.seq.tryPumpRaw = res at hnext hseq hshut ⊢
    cases hnext with
    | handed p ok doPump u hitem hroom hfull hturn hqueue hu =>
      obtain ⟨hdropped, hshut'⟩ := (hshut _ rfl).dropItem ok
      have hleft : (i'.dropItem ok).seq = u := hdropped.trans hseq
      rw [hqueue, List.length_cons] at hfuel
      rw [← hleft] at hu hqueue hfuel
      obtain ⟨items, stuck, t, hrun, hgot, hclear, hend⟩ := ih hshut' hu (by omega)
      refine ⟨ok :: items, stuck, t, ?_, ?_, ?_, ?_⟩
      · simp only [PumpResult.ofTry, hrun, Option.map_some]
      · rw [hqueue, List.map_cons, hgot, List.length_cons, List.take_succ_cons, List.map_cons,
          hitem]
      · rw [hclear, List.length_append, List.length_singleton,
          SeqEx.clearableFrom_succ hroom hfull hturn]
      · intro hstuck
        rw [hqueue, List.length_cons, List.length_cons, List.getElem?_cons_succ]
        exact (hend hstuck).imp (congrArg (· + 1)) id
    | done hqueue =>
      refine ⟨[], false, i'.seq, rfl, rfl, ⟨fun _ => ?_, fun _ => rfl⟩, fun _ => .inl ?_⟩
      · exact SeqEx.clearableFrom_of_le (by rw [hlength, hqueue]; rfl)
      · rw [hqueue]
        rfl
    | full p rest hqueue hroom hfull hblocked =>
      refine ⟨[], false, i'.seq, rfl, rfl, ⟨fun _ => ?_, fun _ => rfl⟩, fun _ => .inr ⟨p, ?_, ?_⟩⟩
      · exact SeqEx.clearableFrom_of_full hroom hfull
      · rw [hqueue]
        rfl
      · rw [hseq]
        exact hblocked
    | stuck p rest hqueue hnot =>
      refine ⟨[], true, i'.seq, rfl, rfl, ⟨by simp, fun hclear => ?_⟩, by simp⟩
      refine absurd (hclear ps.length le_rfl ?_ fun j hj hlt => ?_) hnot
      · rw [hlength, hqueue, List.length_cons]
        omega
      · exact absurd hj (by omega)

/-- On a closed instance without reservations the loop drains the window exactly when the
queue is clearable. -/
theorem drains_iff {base : SeqNo} (hC : ∃ e, CAP = 2 ^ e) (htwo : 2 ≤ CAP) (blocking : Bool)
    (h : i.Shut) (hfits : i.seq.Fits) (hview : ∃ cursor early, ReceiveView base i.seq cursor early)
    (hreplies : i.seq.concurrentReplies = []) (hlock : i.seq.isLocked = false) :
    i.Drains blocking ↔ i.seq.Clearable := by
  have hlength : i.seq.queue.length < CAP + 1 :=
    Nat.lt_succ_of_le (SeqEx.length_collect_le CAP _ _)
  obtain ⟨items, stuck, t, hrun, hgot, hclear, hend⟩ :=
    drain_spec hC htwo blocking h (.start hfits hview hreplies hlock) hlength
  rw [SeqEx.clearable_iff]
  constructor
  · rintro ⟨items', t', hrun', -, -⟩
    rw [hrun, Option.some_inj] at hrun'
    cases hrun'
    exact hclear.mp rfl
  · intro hall
    obtain rfl := hclear.mpr hall
    exact ⟨items, t, hrun, hgot, hend rfl⟩

end SeqExInner

end Sync

end SequentialExchange
