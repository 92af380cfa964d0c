import SequentialExchange.Reassembly

/-!
# The order of SeqCst packets

In a session with any mix of normal and SeqCst packets, a SeqCst packet is
handed over only after everything its sender sent before it, and the SeqCst
packets handed over are those of an initial segment of what was sent, in order.
Early copies of normal packets do not matter here.
-/

namespace SequentialExchange

open WrapNumbering GuardedRuns

variable {S R : Type*}

/-- The intake has respected the order of the SeqCst packets so far. -/
structure KeepsOrder (sent : List (Packet S)) (I : Intake) : Prop where
  unordered : I.MarksUnordered (orderedAt sent)
  inOrder : I.InOrder (orderedAt sent)
  initial : I.OrderedPrefix (orderedAt sent)

namespace KeepsOrder

variable {sent : List (Packet S)} {I J : Intake}

/-- Nothing has been handed over yet. -/
theorem start : KeepsOrder ([] : List (Packet S)) Intake.start where
  unordered := nofun
  inOrder l₁ k l₂ hl _ := by simp [Intake.start] at hl
  initial := rfl

/-- The order is kept when more packets are sent. -/
theorem mono (h : KeepsOrder sent I) {sent' : List (Packet S)} (hpre : sent <+: sent')
    (hlt : ∀ k ∈ I.log, k < sent.length) (hs : I.Sound) : KeepsOrder sent' I :=
  have hc : ∀ j ∈ I.log, orderedAt sent' j = orderedAt sent j := fun j hj =>
    orderedAt_mono hpre (hlt j hj)
  ⟨h.unordered.congr hs hc, h.inOrder.congr hc, h.initial.congr hs hc⟩

/-- A delivery keeps the order. -/
theorem deliver (h : KeepsOrder sent I) (hs : I.Sound) {k : ℕ}
    (hd : Intake.Deliver (orderedAt sent) k I J) : KeepsOrder sent J :=
  ⟨h.unordered.deliver hd, h.inOrder.deliver hs hd, h.initial.deliver h.unordered hd⟩

end KeepsOrder

section Endpoint

variable {CAP : ℕ} [NeZero CAP] {base : SeqNo} {s : SeqEx S R CAP} {sent : List (Packet S)}
  {encode : S → R} {h : History S R} {I : Intake}

/-- The packets handed over, read off the log. -/
theorem Receives.deliveries_eq (hr : Receives encode base sent s h I) :
    h.deliveries.map Prod.fst = I.log.filterMap (wire? encode sent) := by
  have hlog := hr.log
  generalize h.deliveries = ds, I.log = ks at hlog ⊢
  induction hlog with
  | nil => rfl
  | cons hk _ ih => simp [hk, ih]

/-- What was sent at the first positions. -/
theorem filterMap_wire_range (encode : S → R) (sent : List (Packet S)) {m : ℕ}
    (hm : m ≤ sent.length) :
    (List.range m).filterMap (wire? encode sent) = (sent.take m).map (Packet.map encode) := by
  induction m with
  | zero => rfl
  | succ m ih =>
    have hlt : m < sent.length := hm
    rw [List.range_succ, List.filterMap_append, ih hlt.le, List.take_add_one, List.map_append]
    simp [wire?, List.getElem?_eq_getElem hlt]

/-- Selecting SeqCst packets before or after looking them up. -/
theorem filter_filterMap_wire (encode : S → R) (sent : List (Packet S)) (l : List ℕ) :
    (l.filterMap (wire? encode sent)).filter Packet.isSeqCst =
      (l.filter (orderedAt sent)).filterMap (wire? encode sent) := by
  induction l with
  | nil => rfl
  | cons k l ih =>
    cases hk : wire? encode sent k with
    | none =>
      rw [List.filterMap_cons_none hk, ih, List.filter_cons]
      split
      · rw [List.filterMap_cons_none hk]
      · rfl
    | some p =>
      rw [List.filterMap_cons_some hk, List.filter_cons, List.filter_cons, ih,
        orderedAt_of_wire hk]
      split
      · rw [List.filterMap_cons_some hk]
      · rfl

/-- The SeqCst packets handed over are those sent below the cursor. -/
theorem Receives.seqCst_deliveries (hr : Receives encode base sent s h I)
    (hk : I.OrderedPrefix (orderedAt sent)) :
    (h.deliveries.map Prod.fst).filter Packet.isSeqCst =
      ((sent.take I.cursor).map (Packet.map encode)).filter Packet.isSeqCst := by
  rw [hr.deliveries_eq, filter_filterMap_wire, hk, ← filter_filterMap_wire,
    filterMap_wire_range encode sent hr.cursor_le]

/-- A SeqCst delivery comes after the deliveries of everything sent before it,
and no other delivery carries its number. -/
theorem Receives.seqCst_delivery {CAP' : ℕ} [NeZero CAP'] {peer : SeqEx S R CAP'}
    (hr : Receives encode base sent s h I) (hs : Sends base peer sent)
    (hcount : sent.length < 2 ^ 31) (hk : I.InOrder (orderedAt sent))
    {l₁ l₂ : List (Packet R × RecvOkRaw S R)} {d : Packet R × RecvOkRaw S R}
    (hsplit : h.deliveries = l₁ ++ d :: l₂) (hd : d.1.isSeqCst = true) :
    ∃ k, wire? encode sent k = some d.1 ∧
      (∀ j < k, ∃ d' ∈ l₁, wire? encode sent j = some d'.1) ∧
      ∀ d' ∈ l₁ ++ l₂, d'.1.seqNo? ≠ d.1.seqNo? := by
  have hlog := hr.log.flip
  rw [hsplit] at hlog
  -- split the log where the deliveries are split
  have h₁ := List.forall₂_take_append _ _ _ hlog
  obtain ⟨k, m₂, hk', h₂, hdrop⟩ :=
    List.forall₂_cons_right_iff.mp (List.forall₂_drop_append _ _ _ hlog)
  have hsplit' : I.log = I.log.take l₁.length ++ k :: m₂ := by
    rw [← hdrop, List.take_append_drop]
  have hord : orderedAt sent k = true := (orderedAt_of_wire hk').trans hd
  obtain ⟨hnot₁, hnot₂, hbefore⟩ := hk _ k m₂ hsplit' hord
  refine ⟨k, hk', fun j hj => exists_left_of_forall₂ h₁.flip (hbefore j hj), fun d' hd' hseq => ?_⟩
  -- another delivery of the same number would repeat the position
  have hpos : ∃ j ∈ I.log.take l₁.length ++ m₂, wire? encode sent j = some d'.1 :=
    exists_left_of_forall₂ (List.rel_append h₁ h₂) hd'
  obtain ⟨j, hj, hjd⟩ := hpos
  have hnum := hs.wire_seqNo hjd
  rw [hseq, hs.wire_seqNo hk'] at hnum
  have hjlt := wire?_lt hjd
  have hklt := wire?_lt hk'
  obtain rfl : k = j := (number_inj (by omega) (by omega)).mp (Option.some.inj hnum)
  exact (List.mem_append.mp hj).elim hnot₁ hnot₂

end Endpoint

/-! ## Sessions -/

namespace Session

variable {cap : Side → ℕ} [∀ x, NeZero (cap x)]

/-- Every run is followed by an intake that respects the order. -/
theorem reaches_keepsOrder {encode : S → R} {interval : Side → Int64} {base : SeqNo}
    {s : Session S R cap} {x : Side} (hC : ∃ e, cap x = 2 ^ e)
    (hrun : Reaches Possible (perform encode) (start interval base) s)
    (hcount : s.sentCount x.peer < 2 ^ 31) :
    ∃ I, Reassembles encode base s x I ∧ KeepsOrder (s.sentBy x.peer) I := by
  refine reaches_reassembles hC (fun _ _ h => h) KeepsOrder.start
    (fun _ _ _ hpre hlt hs h => h.mono hpre hlt hs) ?_ hrun hcount
  intro u c I J _ _ hI htakes hk
  cases htakes with
  | nothing hJ _ => exact hJ ▸ hk
  | position k d _ _ _ hdeliver _ => exact hk.deliver hI.sound hdeliver

/-- When a SeqCst packet was handed over, everything sent before it had been,
and it was handed over once; the SeqCst packets handed over are those of an
initial segment of what was sent, in the same order. -/
theorem seqCst_inOrder (hC : ∀ x, ∃ e ≥ 2, cap x = 2 ^ e) (encode : S → R)
    (interval : Side → Int64) (initialSeqNo : SeqNo) {s : Session S R cap}
    (hrun : Reaches Possible (perform encode) (start interval initialSeqNo) s)
    (hcount : ∀ x, s.sentCount x < 2 ^ 31) (x : Side) :
    (∀ l₁ d l₂, (s.node x).history.deliveries = l₁ ++ d :: l₂ → d.1.isSeqCst = true →
      ∃ k, wire? encode (s.sentBy x.peer) k = some d.1 ∧
        (∀ j < k, ∃ d' ∈ l₁, wire? encode (s.sentBy x.peer) j = some d'.1) ∧
        ∀ d' ∈ l₁ ++ l₂, d'.1.seqNo? ≠ d.1.seqNo?) ∧
      ∃ m ≤ s.sentCount x.peer,
        ((s.node x).history.deliveries.map Prod.fst).filter Packet.isSeqCst =
          (((s.sentBy x.peer).take m).map (Packet.map encode)).filter Packet.isSeqCst := by
  have hsends := (reaches_carries (fun _ _ h => h) hrun x.peer).sends
  obtain ⟨I, hI, hkeeps⟩ := reaches_keepsOrder ((hC x).imp fun _ h => h.2) hrun (hcount x.peer)
  refine ⟨fun l₁ d l₂ hsplit hd => ?_, I.cursor, hI.cursor_le, hI.seqCst_deliveries hkeeps.initial⟩
  exact hI.seqCst_delivery hsends (hcount x.peer) hkeeps.inOrder hsplit hd

/-- A SeqCst packet between two normal ones, arriving last, first and second. -/
def mixed : List (Event ℕ ℕ) :=
  [.call .a (.trySend 0 false fun _ => 70), .call .a (.trySend 0 true fun _ => 71),
    .call .a (.trySend 0 false fun _ => 72), .call .b (.receive (.payload 2 72)),
    .call .b (.receive (.seqCstPayload 1 71)), .call .b (.receive (.payload 0 70)),
    .call .b .pump]

/-- The state after these events, for windows of four and eight cells. -/
def afterMixed : Session ℕ ℕ fun x => if x = .a then 4 else 8 :=
  mixed.foldl (perform id) (start (fun _ => 100) 0)

/-- A SeqCst packet between two that are not. -/
theorem seqCst_inOrder_afterMixed :
    ((afterMixed.node .b).history.deliveries.map Prod.fst) =
        [.payload 2 72, .payload 0 70, .seqCstPayload 1 71] ∧
      ∃ m ≤ afterMixed.sentCount .a,
        ((afterMixed.node .b).history.deliveries.map Prod.fst).filter Packet.isSeqCst =
          (((afterMixed.sentBy .a).take m).map (Packet.map id)).filter Packet.isSeqCst :=
  ⟨by decide, (seqCst_inOrder (Side.forall.mpr ⟨⟨2, le_rfl, rfl⟩, ⟨3, by decide, rfl⟩⟩)
    id (fun _ => 100) 0 (Allowed.reaches (l := mixed) (by decide))
    (by decide) .b).2⟩

end Session

end SequentialExchange
