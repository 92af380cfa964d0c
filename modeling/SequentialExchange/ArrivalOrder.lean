import SequentialExchange.Reassembly
import SequentialExchange.Reservations

/-!
# Arrival order does not matter for reassembly

A window of packets is fed in any order, each once. Whatever is handed over is
acknowledged at once and the window is pumped while the flag says so. Between
two packets the cursor is at the first position that did not arrive. Ahead of it
a normal packet has left its marker, and a SeqCst packet is stored. So when all
have arrived, all have been handed over, and nothing is left behind.
-/

namespace SequentialExchange

open WrapNumbering

variable {S R : Type*} {CAP : ℕ} [NeZero CAP]

/-! ## Feeding packets -/

namespace SeqEx

/-- `ack_raw` for what was just handed over, unlocking after a SeqCst packet. -/
def ackDelivered (s : SeqEx S R CAP) : RecvOkRaw S R → SeqEx S R CAP
  | .payload n b _ | .reply n b _ _ => (s.ackRawAndDirect n b).2
  | .ack _ => s

/-- Calls `try_pump_raw` while it returns `Ok` with `do_pump`, acknowledging what it
returns; `none` when that takes more than so many calls. -/
def pumpAll : ℕ → SeqEx S R CAP → Option (List (RecvOkRaw S R) × SeqEx S R CAP)
  | 0, _ => none
  | fuel + 1, s =>
    match s.tryPumpRaw with
    | (.ok (ok, doPump), s1) =>
      let s2 := s1.ackDelivered ok
      if doPump then (pumpAll fuel s2).map fun r => (ok :: r.1, r.2) else some ([ok], s2)
    | (.error _, s1) => some ([], s1)

/-- Receives one packet and pumps while `do_pump`. -/
def feed (s : SeqEx S R CAP) (p : Packet R) : Option (List (RecvOkRaw S R) × SeqEx S R CAP) :=
  match s.tryReceiveRawAndDirect id p with
  | (.ok (ok, doPump), s1) =>
    let s2 := s1.ackDelivered ok
    if doPump then (pumpAll CAP s2).map fun r => (ok :: r.1, r.2) else some ([ok], s2)
  | (.error _, s1) => some ([], s1)

/-- Feeds packets in this order and collects what is handed over. -/
def feedAll (s : SeqEx S R CAP) :
    List (Packet R) → Option (List (RecvOkRaw S R) × SeqEx S R CAP)
  | [] => some ([], s)
  | p :: ps => (s.feed p).bind fun r => (r.2.feedAll ps).map fun r' => (r.1 ++ r'.1, r'.2)

/-- No outstanding reply number, the lock free, and the next cell to send empty. -/
structure AtRest (s : SeqEx S R CAP) : Prop where
  replies : s.concurrentReplies = []
  unlocked : s.isLocked = false
  room : s.sendWindow (cell CAP s.nextSendSeqNo) = none

end SeqEx

/-- What identifies a packet with data to its receiver: number, kind and data. -/
def Packet.item? : Packet R → Option (SeqNo × Bool × R)
  | .payload n d | .reply n _ d => some (n, false, d)
  | .seqCstPayload n d | .seqCstReply n _ d => some (n, true, d)
  | .ack _ => none

/-- The same of what was handed over. -/
def RecvOkRaw.item? : RecvOkRaw S R → Option (SeqNo × Bool × R)
  | .payload n b d | .reply n b d _ => some (n, b, d)
  | .ack _ => none

/-- The packets carry consecutive numbers from `n` on. -/
def Consecutive (n : SeqNo) (ps : List (Packet R)) : Prop :=
  ∀ j p, ps[j]? = some p → p.seqNo? = some (number n j)

/-- The numbers are read off the list. -/
instance (n : SeqNo) (ps : List (Packet R)) : Decidable (Consecutive n ps) :=
  decidable_of_iff (∀ j : Fin ps.length, ps[j].seqNo? = some (number n j)) <| by
    constructor
    · intro h j p hp
      obtain ⟨hj, rfl⟩ := List.getElem?_eq_some_iff.mp hp
      exact h ⟨j, hj⟩
    · exact fun h j => h j _ (List.getElem?_eq_getElem j.isLt)

/-- From `s`, these deliveries and the state `t` are what `ps` should come to. -/
structure Sorts (s : SeqEx S R CAP) (ps : List (Packet R)) (ds : List (RecvOkRaw S R))
    (t : SeqEx S R CAP) : Prop where
  once : (ds.map RecvOkRaw.item?).Perm (ps.map Packet.item?)
  inOrder : ∀ l₁ x l₂, ds = l₁ ++ x :: l₂ → ∀ (j : ℕ) (p : Packet R),
    ps[j]? = some p → x.item? = p.item? → p.isSeqCst = true →
      ∀ i < j, ∀ q : Packet R, ps[i]? = some q → ∃ y ∈ l₁, y.item? = q.item?
  cursor : t.nextRecvSeqNo = number s.nextRecvSeqNo ps.length
  window : ∀ i, t.recvWindow i = .empty
  replies : t.concurrentReplies = []
  unlocked : t.isLocked = false

/-- What a data packet brings. -/
@[simp] theorem Packet.item?_newWithData (n : SeqNo) (r : Option SeqNo) (b : Bool) (d : R) :
    (Packet.newWithData n r b d).item? = some (n, b, d) := by
  cases r <;> cases b <;> rfl

/-! ## Handing over and acknowledging -/

namespace SeqEx

variable {s t : SeqEx S R CAP}

/-- At rest the window has room for one more packet. -/
theorem AtRest.isFullInner (hCAP : 2 < CAP) (h : s.AtRest) (r : Option SeqNo) :
    s.isFullInner r = .ok () := by
  have hfree : s.isBlockedAt r 0 = false := by simp [isBlockedAt, h.room]
  rw [isFullInner_of_nil hCAP h.replies, hfree]
  rfl

/-- Placing a packet keeps the endpoint at rest. -/
theorem AtRest.advance (h : s.AtRest) (n : SeqNo) : (s.advance n).2.AtRest :=
  ⟨h.replies, h.unlocked, h.room⟩

/-- Storing a packet leaves the send side at rest. -/
theorem AtRest.setRecvEntry (h : s.AtRest) (n : SeqNo) (entry : RecvEntry R) :
    (s.setRecvEntry n entry).AtRest :=
  ⟨h.replies, h.unlocked, h.room⟩

/-- A packet that is handed over at rest and acknowledged leaves the endpoint at
rest, and the receive side as it was placed. -/
theorem AtRest.handOver (h : t.AtRest) (n : SeqNo) (r : Option SeqNo) (b : Bool) (d : R) :
    (t.handOver n r b d).1.item? = some (n, b, d) ∧
      ((t.handOver n r b d).2.ackDelivered (t.handOver n r b d).1).AtRest ∧
      ((t.handOver n r b d).2.ackDelivered (t.handOver n r b d).1).nextRecvSeqNo =
        t.nextRecvSeqNo ∧
      ((t.handOver n r b d).2.ackDelivered (t.handOver n r b d).1).recvWindow = t.recvWindow := by
  have hitem : (t.handOver n r b d).1.item? = some (n, b, d) := by
    rcases t.handOver_cases n r b d with ⟨_, _, -, -, -, hcall⟩ | ⟨-, hcall⟩ <;> rw [hcall] <;> rfl
  have hack : (t.handOver n r b d).2.ackDelivered (t.handOver n r b d).1 =
      ((t.handOver n r b d).2.ackRawAndDirect n b).2 := by
    rcases t.handOver_cases n r b d with ⟨_, _, -, -, -, hcall⟩ | ⟨-, hcall⟩ <;> rw [hcall] <;> rfl
  obtain ⟨hsend, hpending⟩ := t.handOver_send n r b d
  obtain ⟨hrecv, hwindow⟩ := t.handOver_receive n r b d
  have hreplies := t.handOver_replies n r b d
  have hlocked := t.handOver_isLocked n r b d
  rw [hitem, hack]
  generalize (t.handOver n r b d).2 = u at hsend hpending hrecv hwindow hreplies hlocked ⊢
  rw [h.replies, List.nil_append] at hreplies
  rw [h.unlocked, Bool.false_or] at hlocked
  obtain ⟨l, hl, hremove⟩ := removeReservation_of_mem (hreplies ▸ List.mem_singleton_self n)
  have hnil : l = [] := by
    rw [hreplies] at hl
    exact List.length_eq_zero_iff.mp (Nat.succ_injective hl.length_eq).symm
  unfold ackRawAndDirect
  rw [hremove]
  refine ⟨rfl, ⟨hnil, ?_, ?_⟩, hrecv, hwindow⟩
  · simp [hlocked]
  · show u.sendWindow (cell CAP u.nextSendSeqNo) = none
    rw [hsend, ← pending_eq_none, Option.eq_none_iff_forall_ne_some]
    intro p hp
    have hnone := pending_eq_none.mpr h.room
    rw [hpending _ p hp] at hnone
    cases hnone

/-! ## Stored packets stay where they are -/

/-- Moving the cursor on keeps every stored packet but the one that was there. -/
theorem advance_stored {i : Fin CAP} {p : Packet R} (hi : i ≠ cell CAP s.nextRecvSeqNo)
    (h : s.stored i = some p) : (s.advance s.nextRecvSeqNo).2.stored i = some p := by
  obtain ⟨n, r, b, d, hw, rfl⟩ := stored_eq_some h
  refine stored_of_occupied (fastForwardLoop_keeps ?_)
  show (s.setRecvEntry s.nextRecvSeqNo .empty).recvWindow i = _
  rw [setRecvEntry_recvWindow, Function.update_of_ne hi, hw]

end SeqEx

/-! ## What the window shows between two packets -/

variable {n : SeqNo} {ps : List (Packet R)} {s t : SeqEx S R CAP} {arrived : Set ℕ} {I : Intake}

/-- The flag at a position is that of its packet. -/
theorem orderedAt_of_get {j : ℕ} {p : Packet R} (h : ps[j]? = some p) :
    orderedAt ps j = p.isSeqCst := by
  rw [orderedAt, h]
  rfl

/-- These positions of `ps` have arrived. The positions that are ahead of the cursor
are marked when they are normal and stored when they are SeqCst; one at the cursor
is stored. -/
structure Sorting (n : SeqNo) (ps : List (Packet R)) (s : SeqEx S R CAP) (arrived : Set ℕ)
    (I : Intake) : Prop where
  view : ReceiveView n s I.cursor I.early
  sound : I.Sound
  nodup : I.log.Nodup
  inOrder : I.InOrder (orderedAt ps)
  bound : ∀ j ∈ arrived, j < ps.length
  below : ∀ j < I.cursor, j ∈ arrived
  early : ∀ j, j ∈ I.early ↔ j ∈ arrived ∧ I.cursor < j ∧ orderedAt ps j = false
  stop : I.cursor ∈ arrived → orderedAt ps I.cursor = true
  stored : ∀ j p, ps[j]? = some p → j ∈ arrived → I.cursor ≤ j → p.isSeqCst = true →
    s.stored (cell CAP (number n j)) = some p
  only : ∀ i p, s.stored i = some p → ∃ j ∈ arrived, I.cursor ≤ j ∧ p.isSeqCst = true ∧
    ps[j]? = some p
  rest : s.AtRest

/-- A window has at most half as many cells as there are numbers. -/
theorem small_ring (hC : ∃ e, CAP = 2 ^ e) (hcap : CAP < 2 ^ 32) : CAP ≤ 2 ^ 31 := by
  obtain ⟨e, rfl⟩ := hC
  have he : e < 32 := (Nat.pow_lt_pow_iff_right (by decide)).mp hcap
  exact Nat.pow_le_pow_right (by decide) (by omega)

/-- Which position a packet has is told by its number. -/
theorem Consecutive.position (hps : Consecutive n ps) (hlen : ps.length ≤ 2 ^ 31) {j k : ℕ}
    {p : Packet R} (hp : ps[j]? = some p) (hnum : p.seqNo? = some (number n k))
    (hk : k < 2 ^ 32) : j = k := by
  have hj := (List.getElem?_eq_some_iff.mp hp).1
  rw [hps j p hp, Option.some_inj] at hnum
  exact (number_inj (by omega) hk).mp hnum

/-- Within half of the number space a number names one position. -/
theorem Consecutive.inj (hps : Consecutive n ps) (hlen : ps.length ≤ 2 ^ 31) {i j : ℕ}
    {p q : Packet R} (hi : ps[i]? = some p) (hj : ps[j]? = some q) (h : p.seqNo? = q.seqNo?) :
    i = j := by
  have hjlt := (List.getElem?_eq_some_iff.mp hj).1
  exact hps.position hlen hi (h.trans (hps j q hj)) (by omega)

namespace Sorting

/-- The cursor never leaves the list. -/
theorem cursor_le (h : Sorting n ps s arrived I) : I.cursor ≤ ps.length := by
  rcases Nat.eq_zero_or_pos I.cursor with h0 | hpos
  · omega
  · have := h.bound _ (h.below (I.cursor - 1) (by omega))
    omega

/-- What has arrived comes from the list. -/
theorem bound_insert (h : Sorting n ps s arrived I) {j : ℕ} (hj : j < ps.length) :
    ∀ i ∈ insert j arrived, i < ps.length := by
  intro i hi
  rcases hi with rfl | hi
  · exact hj
  · exact h.bound i hi

/-- Positions from the cursor on have cells of their own. -/
theorem cell_inj (hC : ∃ e, CAP = 2 ^ e) (hlen : ps.length ≤ CAP) (hhalf : CAP ≤ 2 ^ 31)
    {c i j : ℕ} (hi : c ≤ i) (hilen : i < ps.length) (hj : c ≤ j) (hjlen : j < ps.length)
    (h : cell CAP (number n i) = cell CAP (number n j)) : i = j := by
  have hperiod := period_eq (C := CAP) (by omega)
  exact Marks.cell_inj hC ⟨hi, by omega⟩ ⟨hj, by omega⟩ h

/-- The packet of the cursor is handed over, from the network or from the window. -/
theorem next (hC : ∃ e, CAP = 2 ^ e) (hps : Consecutive n ps) (hlen : ps.length ≤ CAP)
    (hhalf : CAP ≤ 2 ^ 31) (h : Sorting n ps s arrived I) {r : Option SeqNo} {b : Bool} {d : R}
    (hp : ps[I.cursor]? = some (.newWithData (number n I.cursor) r b d))
    (ht : t = ((s.advance s.nextRecvSeqNo).2.handOver (number n I.cursor) r b d).2.ackDelivered
      ((s.advance s.nextRecvSeqNo).2.handOver (number n I.cursor) r b d).1) :
    ∃ J, Sorting n ps t (insert I.cursor arrived) J ∧ J.log = I.log ++ [I.cursor] ∧
      I.cursor < J.cursor ∧
      ((s.advance s.nextRecvSeqNo).1 = true ↔ J.cursor ∈ insert I.cursor arrived) := by
  obtain ⟨c, hlt, hrun, hstop, hview, hflag⟩ := h.view.advance hC
  obtain ⟨-, hrest, hrecv, hwindow⟩ :=
    (h.rest.advance s.nextRecvSeqNo).handOver (number n I.cursor) r b d
  rw [← ht] at hrest hrecv hwindow
  have hview' : ReceiveView n t c {j ∈ I.early | c < j} := hview.congr hrecv hwindow
  have hperiod := period_le CAP
  have hclt := (List.getElem?_eq_some_iff.mp hp).1
  have hstored (i : Fin CAP) : t.stored i = (s.advance s.nextRecvSeqNo).2.stored i := by
    rw [SeqEx.stored, SeqEx.stored, hwindow]
  have hcell {j : ℕ} (hj : I.cursor < j) (hjlen : j < ps.length) :
      cell CAP (number n j) ≠ cell CAP s.nextRecvSeqNo := by
    rw [h.view.cursor_eq]
    exact fun hc => hj.ne' (cell_inj hC hlen hhalf hj.le hjlen le_rfl hclt hc)
  have hcle : c ≤ ps.length := by
    rcases Nat.lt_or_ge (I.cursor + 1) c with hfar | hnear
    · have := h.bound _ ((h.early (c - 1)).mp (hrun (c - 1) (by omega) (by omega))).1
      omega
    · omega
  have hnew {i : Fin CAP} {p : Packet R} (hi : t.stored i = some p) :
      ∃ j ∈ arrived, c ≤ j ∧ p.isSeqCst = true ∧ ps[j]? = some p := by
    rw [hstored] at hi
    obtain ⟨m, r', b', d', hw, rfl⟩ := SeqEx.stored_eq_some hi
    obtain ⟨j, hj, -, hord, hget⟩ :=
      h.only i _ (SeqEx.stored_of_occupied (SeqEx.advance_occupied hw))
    obtain ⟨k, hk1, hk2, -, rfl⟩ := hview.marks.occupied i m r' b' d' hw
    obtain rfl := hps.position (by omega) hget (by simp) (show k < 2 ^ 32 by omega)
    exact ⟨j, hj, hk1, hord, hget⟩
  have hnext (hc : c ∈ insert I.cursor arrived) : orderedAt ps c = true := by
    have hc' : c ∈ arrived := hc.resolve_left hlt.ne'
    by_contra hord
    exact hstop ((h.early c).mpr ⟨hc', hlt, by simpa using hord⟩)
  have hkept (j : ℕ) (p : Packet R) (hj : ps[j]? = some p) (hmem : j ∈ insert I.cursor arrived)
      (hle : c ≤ j) (hord : p.isSeqCst = true) : t.stored (cell CAP (number n j)) = some p := by
    have hjlt := (List.getElem?_eq_some_iff.mp hj).1
    have hmem' : j ∈ arrived := hmem.resolve_left (by omega)
    rw [hstored]
    exact SeqEx.advance_stored (hcell (by omega) hjlt) (h.stored j p hj hmem' (by omega) hord)
  have hdeliver : Intake.Deliver (orderedAt ps) I.cursor I
      ⟨c, {j ∈ I.early | c < j}, I.log ++ [I.cursor]⟩ := .next rfl hlt hrun hstop rfl rfl
  refine ⟨⟨c, {j ∈ I.early | c < j}, I.log ++ [I.cursor]⟩, ⟨hview', h.sound.deliver hdeliver,
    h.sound.deliver_nodup hdeliver h.view.stopped h.nodup, h.inOrder.deliver h.sound hdeliver,
    h.bound_insert hclt, ?_, ?_, hnext, hkept, fun i p hi => ?_, hrest⟩, rfl, hlt, ?_⟩
  · intro j hj
    rcases lt_trichotomy j I.cursor with hlow | rfl | hhigh
    · exact .inr (h.below j hlow)
    · exact .inl rfl
    · exact .inr ((h.early j).mp (hrun j hhigh hj)).1
  · intro j
    rw [Set.mem_ofPred_eq, h.early]
    constructor
    · rintro ⟨⟨hmem, -, hord⟩, hcj⟩
      exact ⟨.inr hmem, hcj, hord⟩
    · rintro ⟨hmem, hcj, hord⟩
      have hne : j ≠ I.cursor := by
        rintro rfl
        exact absurd (show c < I.cursor from hcj) (by omega)
      exact ⟨⟨hmem.resolve_left hne, hlt.trans hcj, hord⟩, hcj⟩
  · obtain ⟨j, hj, hcj, hord, hget⟩ := hnew hi
    exact ⟨j, .inr hj, hcj, hord, hget⟩
  · rw [hflag]
    constructor
    · rintro ⟨m, r', b', d', hw⟩
      obtain ⟨j, hj, -, -, hget⟩ := hnew ((hstored _).trans (SeqEx.stored_of_occupied hw))
      have hm := (hview.stored_number hC hw).trans hview.cursor_eq
      obtain rfl := hps.position (by omega) hget (by simp [hm]) (show c < 2 ^ 32 by omega)
      exact .inr hj
    · intro hc
      have hc' : c ∈ arrived := hc.resolve_left hlt.ne'
      obtain ⟨p, hget⟩ : ∃ p, ps[c]? = some p := ⟨_, List.getElem?_eq_getElem (h.bound c hc')⟩
      have hkeep := hkept c p hget hc le_rfl (orderedAt_of_get hget ▸ hnext hc)
      rw [hstored, ← hview.cursor_eq] at hkeep
      obtain ⟨m, r', b', d', hw, -⟩ := SeqEx.stored_eq_some hkeep
      exact ⟨m, r', b', d', hw⟩

end Sorting

/-! ## Pumping and feeding -/

/-- These were handed over, at these positions. -/
def HandsOver (ps : List (Packet R)) (ds : List (RecvOkRaw S R)) (l : List ℕ) : Prop :=
  List.Forall₂ (fun x j => ∃ p, ps[j]? = some p ∧ x.item? = p.item?) ds l

/-- These deliveries lead from `I` to a state in which the packet of the cursor has
not arrived. -/
def Settles (n : SeqNo) (ps : List (Packet R)) (arrived : Set ℕ) (I : Intake)
    (ds : List (RecvOkRaw S R)) (t : SeqEx S R CAP) : Prop :=
  ∃ J l, Sorting n ps t arrived J ∧ J.cursor ∉ arrived ∧ J.log = I.log ++ l ∧ HandsOver ps ds l

/-- One more packet is handed over before the rest. -/
theorem Settles.cons {J : Intake} {j : ℕ} {x : RecvOkRaw S R} {ds : List (RecvOkRaw S R)}
    {p : Packet R} (h : Settles n ps arrived J ds t) (hlog : J.log = I.log ++ [j])
    (hp : ps[j]? = some p) (hx : x.item? = p.item?) : Settles n ps arrived I (x :: ds) t := by
  obtain ⟨K, l, hK, hstop, hKlog, hover⟩ := h
  refine ⟨K, j :: l, hK, hstop, ?_, .cons ⟨p, hp, hx⟩ hover⟩
  rw [hKlog, hlog, List.append_assoc, List.singleton_append]

namespace Sorting

/-- Nothing more is handed over while the packet at the cursor is missing. -/
theorem settles (h : Sorting n ps s arrived I) (hstop : I.cursor ∉ arrived) :
    Settles n ps arrived I [] s :=
  ⟨I, [], h, hstop, (List.append_nil _).symm, .nil⟩

/-- After a delivery the window is pumped when the packet of the cursor has arrived. -/
theorem proceeds {J : Intake} (h : Sorting n ps t arrived J) {j : ℕ} {x : RecvOkRaw S R}
    {p : Packet R} (hlog : J.log = I.log ++ [j]) (hp : ps[j]? = some p) (hx : x.item? = p.item?)
    {doPump : Bool} (hflag : doPump = true ↔ J.cursor ∈ arrived) {fuel : ℕ}
    (hpump : J.cursor ∈ arrived →
      ∃ ds u, t.pumpAll fuel = some (ds, u) ∧ Settles n ps arrived J ds u) :
    ∃ ds u, (if doPump then (t.pumpAll fuel).map fun r => (x :: r.1, r.2) else some ([x], t)) =
      some (ds, u) ∧ Settles n ps arrived I ds u := by
  cases doPump with
  | true =>
    obtain ⟨ds, u, hrun, hsettles⟩ := hpump (hflag.mp rfl)
    refine ⟨x :: ds, u, ?_, hsettles.cons hlog hp hx⟩
    rw [if_pos rfl, hrun, Option.map_some]
  | false =>
    have hstop : J.cursor ∉ arrived := fun hm => Bool.false_ne_true (hflag.mpr hm)
    exact ⟨[x], t, rfl, (h.settles hstop).cons hlog hp hx⟩

/-- While the packet of the cursor is stored the window can be pumped, and the cursor
moves on each time. -/
theorem pumpAll (hC : ∃ e, CAP = 2 ^ e) (hCAP : 2 < CAP) (hps : Consecutive n ps)
    (hlen : ps.length ≤ CAP) (hhalf : CAP ≤ 2 ^ 31) (fuel : ℕ) (h : Sorting n ps s arrived I)
    (hc : I.cursor ∈ arrived) (hfuel : ps.length ≤ I.cursor + fuel) :
    ∃ ds t, s.pumpAll fuel = some (ds, t) ∧ Settles n ps arrived I ds t := by
  induction fuel generalizing s I with
  | zero =>
    have := h.bound _ hc
    omega
  | succ fuel ih =>
    obtain ⟨p, hp⟩ : ∃ p, ps[I.cursor]? = some p := ⟨_, List.getElem?_eq_getElem (h.bound _ hc)⟩
    have hcst := orderedAt_of_get hp ▸ h.stop hc
    have hstored := h.stored _ p hp hc le_rfl hcst
    rw [← h.view.cursor_eq] at hstored
    obtain ⟨m, r, b, d, hw, rfl⟩ := SeqEx.stored_eq_some hstored
    obtain rfl : m = number n I.cursor :=
      (h.view.stored_number hC hw).trans h.view.cursor_eq
    obtain ⟨hitem, -⟩ := (h.rest.advance s.nextRecvSeqNo).handOver (number n I.cursor) r b d
    obtain ⟨J, hJ, hlog, hlt, hflag⟩ := h.next hC hps hlen hhalf hp rfl
    rw [Set.insert_eq_of_mem hc] at hJ hflag
    unfold SeqEx.pumpAll
    rw [SeqEx.tryPumpRaw_next hw (h.rest.isFullInner hCAP r) fun _ => h.rest.unlocked]
    exact hJ.proceeds hlog hp (hitem.trans (by simp)) hflag fun hm => ih hJ hm (by omega)

/-- The cell of a position that has not arrived is empty. -/
theorem empty (hC : ∃ e, CAP = 2 ^ e) (hps : Consecutive n ps) (hlen : ps.length ≤ CAP)
    (hhalf : CAP ≤ 2 ^ 31) (h : Sorting n ps s arrived I) {j : ℕ} (hj : j ∉ arrived)
    (hjlen : j < ps.length) : s.isDuplicate (number n j) = false := by
  have hle : I.cursor ≤ j := Nat.le_of_not_lt fun hlt => hj (h.below j hlt)
  have hj' : I.cursor ≤ j ∧ j < I.cursor + period CAP := by
    rw [period_eq (by omega)]
    omega
  unfold SeqEx.isDuplicate
  cases hw : s.recvWindow (cell CAP (number n j)) with
  | empty => rfl
  | unlocked m =>
    have hmem := (h.view.marks.mem_iff hC hj'.1 hj'.2).mpr ⟨m, hw⟩
    exact absurd ((h.early j).mp hmem).1 hj
  | occupied m r b d =>
    obtain ⟨k, hk1, hk2, hcell, rfl⟩ := h.view.marks.occupied _ m r b d hw
    obtain rfl := Marks.cell_inj hC hj' ⟨hk1, hk2⟩ hcell
    obtain ⟨i, hi, -, -, hget⟩ := h.only _ _ (SeqEx.stored_of_occupied hw)
    obtain rfl := hps.position (by omega) hget (by simp) (show j < 2 ^ 32 by omega)
    exact absurd hi hj

/-- A normal packet ahead of the cursor leaves its marker. -/
theorem ahead (hC : ∃ e, CAP = 2 ^ e) (hlen : ps.length ≤ CAP) (hhalf : CAP ≤ 2 ^ 31)
    (h : Sorting n ps s arrived I) {j : ℕ} (hlt : I.cursor < j) (hj : j ∉ arrived)
    {r : Option SeqNo} {d : R} (hp : ps[j]? = some (.newWithData (number n j) r false d))
    (ht : t = ((s.setRecvEntry (number n j) (.unlocked (number n j))).handOver (number n j) r false
      d).2.ackDelivered ((s.setRecvEntry (number n j) (.unlocked (number n j))).handOver
        (number n j) r false d).1) :
    Sorting n ps t (insert j arrived) ⟨I.cursor, insert j I.early, I.log ++ [j]⟩ := by
  have hjlt := (List.getElem?_eq_some_iff.mp hp).1
  have hord : orderedAt ps j = false := by rw [orderedAt_of_get hp]; simp
  obtain ⟨-, hrest, hrecv, hwindow⟩ := (h.rest.setRecvEntry (number n j)
    (.unlocked (number n j))).handOver (number n j) r false d
  rw [← ht] at hrest hrecv hwindow
  have hview := (h.view.mark hC hlt (by rw [period_eq (by omega)]; omega)).congr hrecv hwindow
  have hdeliver : Intake.Deliver (orderedAt ps) j I ⟨I.cursor, insert j I.early, I.log ++ [j]⟩ :=
    .ahead hlt hord rfl rfl rfl
  have hearly : j ∉ I.early := fun hm => hj ((h.early j).mp hm).1
  have hcell (i : Fin CAP) (hi : i ≠ cell CAP (number n j)) : t.stored i = s.stored i := by
    rw [SeqEx.stored, SeqEx.stored, hwindow, SeqEx.setRecvEntry_recvWindow,
      Function.update_of_ne hi]
  have hself : t.stored (cell CAP (number n j)) = none := by
    rw [SeqEx.stored, hwindow, SeqEx.setRecvEntry_recvWindow, Function.update_self]
  refine ⟨hview, h.sound.deliver hdeliver, h.sound.deliver_nodup hdeliver hearly h.nodup,
    h.inOrder.deliver h.sound hdeliver, h.bound_insert hjlt, fun i hi => .inr (h.below i hi),
    fun i => ?_, ?_, ?_, ?_, hrest⟩
  · rw [Set.mem_insert_iff, Set.mem_insert_iff, h.early]
    constructor
    · rintro (rfl | ⟨hi, hci, hiord⟩)
      · exact ⟨.inl rfl, hlt, hord⟩
      · exact ⟨.inr hi, hci, hiord⟩
    · rintro ⟨rfl | hi, hci, hiord⟩
      · exact .inl rfl
      · exact .inr ⟨hi, hci, hiord⟩
  · rintro (heq | hc)
    · exact absurd heq hlt.ne
    · exact h.stop hc
  · intro i p hi hmem hle hcst
    have hne : i ≠ j := by
      rintro rfl
      rw [orderedAt_of_get hi, hcst] at hord
      cases hord
    have hilt := (List.getElem?_eq_some_iff.mp hi).1
    rw [hcell _ fun hc => hne (cell_inj hC hlen hhalf hle hilt hlt.le hjlt hc)]
    exact h.stored i p hi (hmem.resolve_left hne) hle hcst
  · intro i p hi
    by_cases hne : i = cell CAP (number n j)
    · rw [hne, hself] at hi
      cases hi
    · rw [hcell i hne] at hi
      obtain ⟨k, hk, hrest⟩ := h.only i p hi
      exact ⟨k, .inr hk, hrest⟩

/-- A SeqCst packet ahead of the cursor is stored. -/
theorem store (hC : ∃ e, CAP = 2 ^ e) (hlen : ps.length ≤ CAP) (hhalf : CAP ≤ 2 ^ 31)
    (h : Sorting n ps s arrived I) {j : ℕ} (hlt : I.cursor < j) {r : Option SeqNo} {d : R}
    (hp : ps[j]? = some (.newWithData (number n j) r true d)) (hrange : s.InRange (number n j))
    (hdup : s.isDuplicate (number n j) = false) :
    Sorting n ps (s.setRecvEntry (number n j) (.occupied (number n j) r true d))
      (insert j arrived) I := by
  have hjlt := (List.getElem?_eq_some_iff.mp hp).1
  have hord : orderedAt ps j = true := by rw [orderedAt_of_get hp]; simp
  have hself : (s.setRecvEntry (number n j) (.occupied (number n j) r true d)).stored
      (cell CAP (number n j)) = some (.newWithData (number n j) r true d) :=
    SeqEx.stored_of_occupied (by simp)
  have hcell (i : Fin CAP) (hi : i ≠ cell CAP (number n j)) :
      (s.setRecvEntry (number n j) (.occupied (number n j) r true d)).stored i = s.stored i := by
    rw [SeqEx.stored, SeqEx.stored, SeqEx.setRecvEntry_recvWindow, Function.update_of_ne hi]
  refine ⟨h.view.store hC hrange hdup r true d, h.sound, h.nodup, h.inOrder,
    h.bound_insert hjlt, fun i hi => .inr (h.below i hi), fun i => ?_, ?_, ?_, ?_,
    h.rest.setRecvEntry _ _⟩
  · rw [h.early]
    constructor
    · rintro ⟨hi, hci, hiord⟩
      exact ⟨.inr hi, hci, hiord⟩
    · rintro ⟨rfl | hi, hci, hiord⟩
      · rw [hord] at hiord
        cases hiord
      · exact ⟨hi, hci, hiord⟩
  · rintro (heq | hc)
    · exact absurd heq hlt.ne
    · exact h.stop hc
  · intro i p hi hmem hle hcst
    rcases eq_or_ne i j with rfl | hne
    · rw [hp] at hi
      cases hi
      exact hself
    · have hilt := (List.getElem?_eq_some_iff.mp hi).1
      rw [hcell _ fun hc => hne (cell_inj hC hlen hhalf hle hilt hlt.le hjlt hc)]
      exact h.stored i p hi (hmem.resolve_left hne) hle hcst
  · intro i p hi
    by_cases hne : i = cell CAP (number n j)
    · rw [hne, hself] at hi
      cases hi
      exact ⟨j, .inl rfl, hlt.le, by simp, hp⟩
    · rw [hcell i hne] at hi
      obtain ⟨k, hk, hrest⟩ := h.only i p hi
      exact ⟨k, .inr hk, hrest⟩

/-- Whatever packet arrives, the window settles again. -/
theorem feed (hC : ∃ e, CAP = 2 ^ e) (hCAP : 2 < CAP) (hps : Consecutive n ps)
    (hlen : ps.length ≤ CAP) (hhalf : CAP ≤ 2 ^ 31) (h : Sorting n ps s arrived I)
    (hstop : I.cursor ∉ arrived) {j : ℕ} (hj : j ∉ arrived) {p : Packet R} (hp : ps[j]? = some p) :
    ∃ ds t, s.feed p = some (ds, t) ∧ Settles n ps (insert j arrived) I ds t := by
  have hjlt := (List.getElem?_eq_some_iff.mp hp).1
  have hle : I.cursor ≤ j := Nat.le_of_not_lt fun hlt => hj (h.below j hlt)
  have hnum := hps j p hp
  rcases p.eq_ack_or_newWithData with ⟨m, rfl⟩ | ⟨m, r, b, d, rfl⟩
  · cases hnum
  rw [Packet.seqNo?_newWithData, Option.some_inj] at hnum
  subst hnum
  have hdist : (number n j - s.nextRecvSeqNo).toNat = j - I.cursor := by
    rw [h.view.cursor_eq, number_sub_of_le hle (by omega)]
  have hrange : s.InRange (number n j) := by
    rw [SeqEx.inRange_iff, hdist, Nat.mod_eq_of_lt (by omega)]
    omega
  have hdup := h.empty hC hps hlen hhalf hj hjlt
  have hfull := h.rest.isFullInner hCAP r
  have hcursor : number n j = s.nextRecvSeqNo → j = I.cursor := fun heq =>
    (number_inj (by omega) (by omega)).mp (heq.trans h.view.cursor_eq)
  have hrecv := SeqEx.receiveData_cases id s (number n j) r b d
  unfold SeqEx.feed
  rw [SeqEx.tryReceive_newWithData]
  generalize s.receiveData id (number n j) r b d = res at hrecv ⊢
  cases hrecv with
  | duplicate hbelow _ => simp [hrange.1] at hbelow
  | resendAck hbelow _ _ => simp [hrange.1] at hbelow
  | tooEarly _ habove => simp [hrange.2] at habove
  | waitsDuplicate _ _ _ hdup' _ =>
    rw [hdup] at hdup'
    cases hdup'
  | waits _ e _ _ hwait =>
    simp only [SeqEx.mustWait, hfull, h.rest.unlocked, Bool.and_false, or_false, Bool.false_eq_true,
      Bool.and_eq_true, bne_iff_ne, ne_eq] at hwait
    obtain ⟨rfl, hne⟩ := hwait
    have hlt : I.cursor < j := lt_of_le_of_ne hle fun heq => hne (by
      rw [h.view.cursor_eq, heq, sub_self])
    refine ⟨[], _, rfl, (h.store hC hlen hhalf hlt hp hrange hdup).settles ?_⟩
    rintro (heq | hc)
    · exact hlt.ne heq
    · exact hstop hc
  | next _ _ _ hnext =>
    obtain rfl := hcursor hnext
    obtain ⟨J, hJ, hlog, hlt, hflag⟩ := h.next hC hps hlen hhalf hp rfl
    obtain ⟨hitem, -⟩ := (h.rest.advance s.nextRecvSeqNo).handOver (number n I.cursor) r b d
    rw [hnext] at hp hJ hitem ⊢
    exact hJ.proceeds hlog hp (hitem.trans (by simp)) hflag fun hm =>
      hJ.pumpAll hC hCAP hps hlen hhalf CAP hm (by omega)
  | ahead _ _ hb hne =>
    subst hb
    have hlt : I.cursor < j := lt_of_le_of_ne hle fun heq => hne (by rw [h.view.cursor_eq, heq])
    obtain ⟨hitem, -⟩ := (h.rest.setRecvEntry (number n j)
      (.unlocked (number n j))).handOver (number n j) r false d
    have hJ := h.ahead hC hlen hhalf hlt hj hp rfl
    refine ⟨[_], _, rfl, (hJ.settles ?_).cons rfl hp (hitem.trans (by simp))⟩
    rintro (heq | hc)
    · exact hlt.ne heq
    · exact hstop hc

/-- So it does after any packets that have not arrived before, each once. -/
theorem feedAll (hC : ∃ e, CAP = 2 ^ e) (hCAP : 2 < CAP) (hps : Consecutive n ps)
    (hlen : ps.length ≤ CAP) (hhalf : CAP ≤ 2 ^ 31) (h : Sorting n ps s arrived I)
    (hstop : I.cursor ∉ arrived) {rest : List (Packet R)} (hnodup : rest.Nodup)
    (hrest : ∀ p ∈ rest, ∃ j ∉ arrived, ps[j]? = some p) :
    ∃ A ds t, s.feedAll rest = some (ds, t) ∧ Settles n ps A I ds t ∧ arrived ⊆ A ∧
      ∀ p ∈ rest, ∃ j ∈ A, ps[j]? = some p := by
  induction rest generalizing s arrived I with
  | nil => exact ⟨arrived, [], s, rfl, h.settles hstop, subset_rfl, nofun⟩
  | cons p rest ih =>
    obtain ⟨j, hj, hp⟩ := hrest p List.mem_cons_self
    obtain ⟨hpnot, hnodup⟩ := List.nodup_cons.mp hnodup
    obtain ⟨ds, t, hrun, J, l, hJ, hstop', hlog, hover⟩ :=
      h.feed hC hCAP hps hlen hhalf hstop hj hp
    -- the packets left are at other positions
    have hleft : ∀ q ∈ rest, ∃ i ∉ insert j arrived, ps[i]? = some q := by
      intro q hq
      obtain ⟨i, hi, hget⟩ := hrest q (List.mem_cons_of_mem _ hq)
      refine ⟨i, fun hm => ?_, hget⟩
      rcases hm with rfl | hm
      · rw [hp] at hget
        cases hget
        exact hpnot hq
      · exact hi hm
    obtain ⟨A, ds', t', hrun', ⟨K, l', hK, hstop'', hlog', hover'⟩, hsub, hall⟩ :=
      ih hJ hstop' hnodup hleft
    refine ⟨A, ds ++ ds', t', ?_, ⟨K, l ++ l', hK, hstop'', ?_, List.rel_append hover hover'⟩,
      (Set.subset_insert _ _).trans hsub, ?_⟩
    · rw [SeqEx.feedAll, hrun, Option.bind_some, hrun', Option.map_some]
    · rw [hlog', hlog, List.append_assoc]
    · intro q hq
      rcases List.mem_cons.mp hq with rfl | hq
      · exact ⟨j, hsub (Set.mem_insert _ _), hp⟩
      · exact hall q hq

/-- Nothing has arrived. -/
theorem start (h : s.AtRest) (hempty : ∀ i, s.recvWindow i = .empty) :
    Sorting s.nextRecvSeqNo ps s ∅ Intake.start where
  view := by
    refine ⟨(number_zero _).symm, ?_, nofun⟩
    rw [funext hempty]
    exact Marks.start _ _
  sound := Intake.start_sound
  nodup := List.nodup_nil
  inOrder := by
    intro l₁ k l₂ hl
    simp [Intake.start] at hl
  bound := nofun
  below := nofun
  early j := by simp [Intake.start]
  stop := nofun
  stored := nofun
  only i p hp := by simp [SeqEx.stored, hempty] at hp
  rest := h

/-- When everything has arrived, everything has been handed over. -/
theorem sorts (h : Sorting s.nextRecvSeqNo ps t arrived I) (hps : Consecutive s.nextRecvSeqNo ps)
    (hlen : ps.length ≤ 2 ^ 31) (hstop : I.cursor ∉ arrived)
    (hall : ∀ j < ps.length, j ∈ arrived) {ds : List (RecvOkRaw S R)}
    (hover : HandsOver ps ds I.log) : Sorts s ps ds t := by
  have hcursor : I.cursor = ps.length :=
    le_antisymm h.cursor_le (Nat.le_of_not_lt fun hlt => hstop (hall _ hlt))
  have hearly (j : ℕ) : j ∉ I.early := fun hj => by
    obtain ⟨hmem, hlt, -⟩ := (h.early j).mp hj
    have := h.bound j hmem
    omega
  have hmem (j : ℕ) : j ∈ I.log ↔ j < ps.length := by
    rw [h.sound.mem_log, hcursor]
    simp [hearly]
  have hperm : I.log.Perm (List.range ps.length) :=
    (List.perm_ext_iff_of_nodup h.nodup List.nodup_range).mpr fun j => by
      rw [hmem, List.mem_range]
  have hitems : ds.map RecvOkRaw.item? = I.log.map fun j => ps[j]?.bind Packet.item? := by
    rw [← List.forall₂_eq_eq_eq, List.forall₂_map_left_iff, List.forall₂_map_right_iff]
    exact hover.imp fun x j ⟨p, hp, hx⟩ => by rw [hp, hx, Option.bind_some]
  refine ⟨?_, ?_, ?_, fun i => ?_, h.rest.replies, h.rest.unlocked⟩
  · have hrange : (List.range ps.length).map (fun j => ps[j]?.bind Packet.item?) =
        ps.map Packet.item? := by
      refine List.ext_getElem (by simp) fun j h1 h2 => ?_
      rw [List.length_map] at h2
      simp [List.getElem?_eq_getElem h2]
    rw [hitems, ← hrange]
    exact hperm.map _
  · intro l₁ x l₂ hds j p hp hx hcst i hij q hq
    rw [hds] at hover
    have hm₁ := List.forall₂_take_append _ _ _ hover.flip
    obtain ⟨k, m₂, ⟨p', hp', hx'⟩, -, hdrop⟩ :=
      List.forall₂_cons_right_iff.mp (List.forall₂_drop_append _ _ _ hover.flip)
    have hlog : I.log = I.log.take l₁.length ++ k :: m₂ := by rw [← hdrop, List.take_append_drop]
    -- the delivery is that of position `j`
    obtain rfl : j = k := by
      have hsame : p.item? = p'.item? := hx.symm.trans hx'
      refine hps.inj hlen hp hp' ?_
      rcases p.eq_ack_or_newWithData with ⟨m, rfl⟩ | ⟨m, r, b, d, rfl⟩
      · cases hps j _ hp
      rcases p'.eq_ack_or_newWithData with ⟨m', rfl⟩ | ⟨m', r', b', d', rfl⟩
      · cases hps k _ hp'
      rw [Packet.item?_newWithData, Packet.item?_newWithData, Option.some_inj] at hsame
      obtain ⟨rfl, -⟩ := Prod.mk.inj hsame
      simp
    have hbefore := (h.inOrder _ j m₂ hlog (orderedAt_of_get hp ▸ hcst)).2.2 i hij
    obtain ⟨y, hy, p'', hp'', hyitem⟩ := exists_left_of_forall₂ hm₁.flip hbefore
    rw [hq] at hp''
    cases hp''
    exact ⟨y, hy, hyitem⟩
  · rw [← hcursor]
    exact h.view.cursor_eq
  · cases hw : t.recvWindow i with
    | empty => rfl
    | unlocked m =>
      obtain ⟨k, hk, -⟩ := h.view.marks.unlocked i m hw
      exact absurd hk (hearly k)
    | occupied m r b d =>
      obtain ⟨j, hj, hle, -⟩ := h.only i _ (SeqEx.stored_of_occupied hw)
      have := h.bound j hj
      omega

end Sorting

/-! ## Any order -/

/-- A list has no packet twice when its numbers are consecutive. -/
theorem Consecutive.nodup (hps : Consecutive n ps) (hlen : ps.length ≤ 2 ^ 31) : ps.Nodup := by
  rw [List.nodup_iff_injective_get]
  intro i j hij
  have hi : ps[(i : ℕ)]? = some (ps.get i) := List.getElem?_eq_getElem i.isLt
  have hj : ps[(j : ℕ)]? = some (ps.get j) := List.getElem?_eq_getElem j.isLt
  exact Fin.ext (hps.inj hlen hi hj (congrArg Packet.seqNo? hij))

/-- Fewer than `2^32` cells suffice for every order. -/
theorem sorts_of_small (hC : ∃ e ≥ 2, CAP = 2 ^ e) (hcap : CAP < 2 ^ 32) (hrest : s.AtRest)
    (hempty : ∀ i, s.recvWindow i = .empty) (hlen : ps.length ≤ CAP)
    (hps : Consecutive s.nextRecvSeqNo ps) {arrival : List (Packet R)}
    (hperm : arrival.Perm ps) : ∃ ds t, s.feedAll arrival = some (ds, t) ∧ Sorts s ps ds t := by
  have hpow : ∃ e, CAP = 2 ^ e := hC.imp fun _ he => he.2
  have hCAP : 2 < CAP := by
    obtain ⟨e, he, rfl⟩ := hC
    calc 2 < 2 ^ 2 := by decide
      _ ≤ 2 ^ e := Nat.pow_le_pow_right (by decide) he
  have hhalf := small_ring hpow hcap
  have hnodup := hperm.nodup_iff.mpr (hps.nodup (by omega))
  obtain ⟨A, ds, t, hrun, ⟨J, l, hJ, hstop, hlog, hover⟩, -, hall⟩ :=
    (Sorting.start hrest hempty).feedAll hpow hCAP hps hlen hhalf (Set.notMem_empty _) hnodup
      fun p hp => by
        obtain ⟨j, hj, rfl⟩ := List.mem_iff_getElem.mp (hperm.mem_iff.mp hp)
        exact ⟨j, Set.notMem_empty j, List.getElem?_eq_getElem hj⟩
  refine ⟨ds, t, hrun, hJ.sorts hps (by omega) hstop (fun j hj => ?_) ?_⟩
  · obtain ⟨i, hi, hget⟩ := hall _ (hperm.mem_iff.mpr (List.getElem_mem hj))
    obtain rfl := hps.inj (by omega) hget (List.getElem?_eq_getElem hj) rfl
    exact hi
  · rw [hlog]
    exact hover

/-- With `2^32` cells or more no packet with data gets past the range check. -/
theorem feed_of_huge (hC : ∃ e, CAP = 2 ^ e) (hcap : 2 ^ 32 ≤ CAP) {p : Packet R}
    (hp : p.seqNo? ≠ none) : s.feed p = some ([], s) := by
  rcases p.eq_ack_or_newWithData with ⟨m, rfl⟩ | ⟨m, r, b, d, rfl⟩
  · exact absurd rfl hp
  have hrange : ¬ s.InRange m := fun hrange => absurd (hrange.lt_period hC).1 (not_lt.mpr hcap)
  obtain ⟨e, hres⟩ := SeqEx.receiveData_outside hrange id r b d
  unfold SeqEx.feed
  rw [SeqEx.tryReceive_newWithData, hres]

/-- With `CAP as SeqNo` zero no data packet is in range, so none is handed over. -/
theorem feedAll_of_huge (hC : ∃ e, CAP = 2 ^ e) (hcap : 2 ^ 32 ≤ CAP) {arrival : List (Packet R)}
    (hdata : ∀ p ∈ arrival, p.seqNo? ≠ none) : s.feedAll arrival = some ([], s) := by
  induction arrival with
  | nil => rfl
  | cons p arrival ih =>
    rw [SeqEx.feedAll, feed_of_huge hC hcap (hdata p List.mem_cons_self), Option.bind_some,
      ih fun q hq => hdata q (List.mem_cons_of_mem _ hq)]
    rfl

/-- So then only no packets at all come to what they should. -/
theorem not_sorts_of_huge (hC : ∃ e, CAP = 2 ^ e) (hcap : 2 ^ 32 ≤ CAP) (hne : ps ≠ [])
    (hps : Consecutive n ps) {arrival : List (Packet R)} (hperm : arrival.Perm ps) :
    ¬ ∃ ds t, s.feedAll arrival = some (ds, t) ∧ Sorts s ps ds t := by
  rintro ⟨ds, t, hrun, hsorts⟩
  have hdata (p : Packet R) (hp : p ∈ arrival) : p.seqNo? ≠ none := by
    obtain ⟨j, hj, rfl⟩ := List.mem_iff_getElem.mp (hperm.mem_iff.mp hp)
    rw [hps j _ (List.getElem?_eq_getElem hj)]
    nofun
  rw [feedAll_of_huge hC hcap hdata] at hrun
  cases hrun
  exact hne (List.map_eq_nil_iff.mp hsorts.once.symm.eq_nil)

/-- A window of packets comes out as it should in every order of arrival exactly when
the number of cells fits in 32 bits, no packets at all apart. -/
theorem feedAll_sorts_iff (hC : ∃ e ≥ 2, CAP = 2 ^ e) (s : SeqEx S R CAP)
    (ps arrival : List (Packet R)) (hrest : s.AtRest) (hempty : ∀ i, s.recvWindow i = .empty)
    (hlen : ps.length ≤ CAP) (hps : Consecutive s.nextRecvSeqNo ps) (hperm : arrival.Perm ps) :
    (∃ ds t, s.feedAll arrival = some (ds, t) ∧ Sorts s ps ds t) ↔ CAP < 2 ^ 32 ∨ ps = [] := by
  have hpow : ∃ e, CAP = 2 ^ e := hC.imp fun _ he => he.2
  constructor
  · intro h
    by_contra hnot
    rw [not_or, Nat.not_lt] at hnot
    exact not_sorts_of_huge hpow hnot.1 hnot.2 hps hperm h
  · rintro (hcap | rfl)
    · exact sorts_of_small hC hcap hrest hempty hlen hps hperm
    · rw [hperm.eq_nil]
      exact ⟨[], s, rfl, .rfl, by simp, (number_zero _).symm, hempty, hrest.replies, hrest.unlocked⟩

/-- Four packets across the wrap. -/
def acrossWrap : List (Packet ℕ) :=
  [.seqCstPayload 4294967294 70, .payload 4294967295 71, .seqCstReply 0 8 72, .reply 1 9 73]

/-- The same in another order: the last one leaves a marker, the third is stored. -/
def shuffled : List (Packet ℕ) :=
  [.reply 1 9 73, .seqCstReply 0 8 72, .seqCstPayload 4294967294 70, .payload 4294967295 71]

/-- Packets on both sides of the wrap are sorted. -/
theorem feedAll_sorts_iff_acrossWrap :
    ∃ ds t, (SeqEx.new 100 4294967294 : SeqEx ℕ ℕ 4).feedAll shuffled = some (ds, t) ∧
      Sorts (SeqEx.new 100 4294967294) acrossWrap ds t :=
  (feedAll_sorts_iff ⟨2, le_rfl, rfl⟩ (SeqEx.new 100 4294967294) acrossWrap shuffled
    ⟨rfl, rfl, rfl⟩ (fun _ => rfl) (by decide) (by decide) (by decide)).mpr (.inl (by decide))

/-- With `2^32` cells the one packet that is expected is not handed over. -/
theorem full_ring_sorts_nothing :
    (SeqEx.new 100 0 : SeqEx ℕ ℕ (2 ^ 32)).AtRest ∧
      (∀ i, (SeqEx.new 100 0 : SeqEx ℕ ℕ (2 ^ 32)).recvWindow i = .empty) ∧
      Consecutive (SeqEx.new 100 0 : SeqEx ℕ ℕ (2 ^ 32)).nextRecvSeqNo [Packet.payload 0 70] ∧
      ¬ ∃ ds t, (SeqEx.new 100 0 : SeqEx ℕ ℕ (2 ^ 32)).feedAll [.payload 0 70] = some (ds, t) ∧
        Sorts (SeqEx.new 100 0) [.payload 0 70] ds t := by
  have hps : Consecutive (SeqEx.new 100 0 : SeqEx ℕ ℕ (2 ^ 32)).nextRecvSeqNo
    [Packet.payload 0 70] := by decide
  exact ⟨⟨rfl, rfl, rfl⟩, fun _ => rfl, hps,
    not_sorts_of_huge ⟨32, rfl⟩ le_rfl (List.cons_ne_nil _ _) hps (List.Perm.refl _)⟩

end SequentialExchange
