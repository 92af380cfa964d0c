import SequentialExchange.ExactlyOnce
import SequentialExchange.Resumption
import SequentialExchange.ServicePass

/-!
# Draining a session

A session that is not wedged can be drained. When nothing is outstanding and no
lock is held, some packet can be resent and taken or acknowledged once more, as
the exchange of the two parties tells. Each time the application of one peer is
told something new, which happens at most twice for every packet, and no wedge
comes about.
-/

namespace SequentialExchange

open WrapNumbering GuardedRuns Exchange

variable {S R : Type*}

/-! ## Single calls -/

section Endpoint

variable {CAP : ℕ} [NeZero CAP] {base : SeqNo} {encode : S → R} {sentB : List (Packet S)}
  {s : SeqEx S R CAP} {h : History S R} {A B : Party}

/-- A service pass changes times only, and nothing is delivered. -/
theorem SeqEx.call_service (s : SeqEx S R CAP) (t : Int64) :
    s.Retimed (s.call (.service t)).2 ∧ (s.call (.service t)).1.emitted = (s.service t).1 ∧
      ∀ i, h.record i (s.call (.service t)).1 = h :=
  ⟨(serviceLoop_retimed t ((lenU32 CAP).toNat + 1) none s).1, rfl, fun _ => rfl⟩

/-- A packet of a position that was not handed over is no early copy. -/
theorem Shows.not_earlyCopy (hC : ∃ e, CAP = 2 ^ e) (hs : Shows encode base sentB s h A)
    {CAP' : ℕ} [NeZero CAP'] {peer : SeqEx S R CAP'} (hpeer : Sends base peer sentB)
    (hcountB : sentB.length < 2 ^ 31) {k : ℕ} {p : Packet R} (hp : wire? encode sentB k = some p)
    (hk : k ∉ A.delivered) : ¬ s.EarlyCopy p := by
  intro hearly
  obtain ⟨n, hn, hseq⟩ := hs.receives.mem_of_earlyCopy hC hpeer hearly
  rw [hs.receives.deliveredNumbers_eq hpeer, List.mem_map] at hn
  obtain ⟨j, hj, rfl⟩ := hn
  have hjlt := hs.receives.lt_of_mem_log hj
  have hklt := wire?_lt hp
  have hnum := (hpeer.wire_seqNo hp).symm.trans hseq
  obtain rfl := (number_inj (by omega) (by omega)).mp (Option.some.inj hnum)
  exact hk hj

/-- A packet fits when its answer concerns the item that fills the ring, if any. -/
theorem Shows.isFullInner_of_fits (hC : ∃ e ≥ 2, CAP = 2 ^ e) (hs : Shows encode base sentB s h A)
    (hreplies : s.concurrentReplies = []) {r : Option SeqNo}
    (hfits : ∀ a, A.Fills (period CAP) a → r = some (number base a)) :
    s.isFullInner r = .ok () := by
  obtain ⟨e, he, hcape⟩ := hC
  have hfour : 2 ^ 2 ≤ CAP := hcape ▸ Nat.pow_le_pow_right (by decide) he
  rw [SeqEx.isFullInner_of_nil (by omega) hreplies, if_neg]
  simp only [SeqEx.isBlockedAt, Bool.not_eq_true, Bool.and_eq_false_iff]
  cases hb : s.blocker? with
  | none =>
    left
    rw [SeqEx.blocker?, SeqEx.pending_eq_none] at hb
    simpa using hb
  | some b =>
    right
    obtain ⟨a, ha, -⟩ := (hs.blocker_iff ⟨e, hcape⟩).mp hb
    have hcells : cell CAP (number base a) = cell CAP s.nextSendSeqNo := by
      rw [hs.sends.next, ← hs.next_eq]
      exact (cell_number_eq_iff ⟨e, hcape⟩ base a _).mpr ha.2
    rw [hfits a ha]
    simp [hcells]

/-- Handing such a packet over leaves the next cell free. -/
theorem Shows.blocker_handOver (hC : ∃ e, CAP = 2 ^ e) (hs : Shows encode base sentB s h A)
    {c : Call S R} {u : SeqEx S R CAP} {n : SeqNo} {r : Option SeqNo} {b doPump : Bool} {d : R}
    (hplaced : s.Placed c n b doPump u)
    (hfits : ∀ a, A.Fills (period CAP) a → r = some (number base a)) :
    (u.handOver n r b d).2.blocker? = none := by
  obtain ⟨hwin, hnext, -, -⟩ := hplaced.frame
  obtain ⟨hn, hpending⟩ := u.handOver_send n r b d
  rw [SeqEx.blocker?, Option.eq_none_iff_forall_ne_some, hn, hnext]
  intro p hp
  have hs₁ := hpending _ p hp
  rw [SeqEx.pending_congr hwin] at hs₁
  obtain ⟨a, ha, hsent⟩ := (hs.blocker_iff hC).mp hs₁
  have hreply := hfits a ha
  have hcells : cell CAP (number base a) = cell CAP s.nextSendSeqNo := by
    rw [hs.sends.next, ← hs.next_eq]
    exact (cell_number_eq_iff hC base a _).mpr ha.2
  obtain ⟨e, he, hnum⟩ := SeqEx.entry_of_pending hs₁ (hs.sends.numbered a _ hsent)
  rcases u.handOver_cases n r b d with ⟨r', e', hr', -, -, ht⟩ | ⟨hnone, -⟩
  · rw [ht, SeqEx.pending_eq_none.mpr] at hp
    · cases hp
    · rw [hreply] at hr'
      cases hr'
      dsimp only
      rw [← hcells, Function.update_self]
  · refine hnone _ e hreply ?_ hnum
    rw [hwin, hcells]
    exact he

/-- A position below the cursor whose answer is gone is acknowledged again. -/
theorem Shows.call_reack (hs : Shows encode base sentB s h A)
    {n : SeqNo} {r : Option SeqNo} {b : Bool} {d : R} {k : ℕ} (hk : n = number base k)
    (hcursor : k < A.cursor) (hfar : A.cursor < 2 ^ 31)
    (hback : ∀ j r, A.answers j = some r → r < 2 ^ 31)
    (hno : ∀ j ∈ A.live, A.answers j ≠ some k) (hreplies : s.concurrentReplies = []) :
    s.call (.receive (.newWithData n r b d)) = (.dropped (.droppedDuplicateResendAck n), s) := by
  have hbelow : s.isBelowRange n = true := by
    rw [SeqEx.isBelowRange_iff, hs.receives.view.cursor_eq, hk]
    have hlt : k < A.intake.cursor := hcursor
    have hle : A.intake.cursor < 2 ^ 31 := hfar
    rw [number_sub_of_lt hlt (by omega)]
    omega
  have hpending : s.isReplyPending n = false := by
    simp only [SeqEx.isReplyPending, decide_eq_false_iff_not, not_exists]
    intro i hi
    obtain ⟨e, he, hr⟩ := Option.bind_eq_some_iff.mp hi
    obtain ⟨j, hj, -, hsent⟩ := hs.pending_live i e.toPacket (by rw [SeqEx.pending, he]; rfl)
    have hreply := stands_replyNo hs.items hsent
    rw [SendEntry.replyNo?_toPacket, hr] at hreply
    obtain ⟨r', hr', hnum⟩ := Option.map_eq_some_iff.mp hreply.symm
    have hlt := hback j r' hr'
    rw [hk] at hnum
    obtain rfl := (number_inj (by omega) (by omega)).mp hnum
    exact hno j hj hr'
  have hcases := SeqEx.receiveData_cases id s n r b d
  simp only [SeqEx.call, SeqEx.tryReceive_newWithData]
  generalize s.receiveData id n r b d = res at hcases ⊢
  cases hcases with
  | duplicate _ hanswer => simp [hpending, hreplies] at hanswer
  | resendAck _ _ _ => rfl
  | tooEarly hnot _ => simp [hbelow] at hnot
  | waitsDuplicate hrange _ _ _ _ => simp [hrange.1] at hbelow
  | waits hrange _ _ _ _ => simp [hrange.1] at hbelow
  | next hrange _ _ _ => simp [hrange.1] at hbelow
  | ahead hrange _ _ _ => simp [hrange.1] at hbelow

end Endpoint

namespace Session

variable {cap : Side → ℕ} [∀ x, NeZero (cap x)] {encode : S → R} {base : SeqNo}
  {s t : Session S R cap} {W : Side → Party}

/-- What is known of a session all along. -/
structure Tracked (encode : S → R) (base : SeqNo) (s : Session S R cap) : Prop where
  carries : ∀ x, Carries encode base s x
  counts : ∀ x, s.sentCount x < 2 ^ 31
  follows : ∃ W, Follows encode base s W ∧ AllLinked cap W

/-- A continuation that takes no early copy. -/
def Careful (s : Session S R cap) (e : Event S R) : Prop :=
  s.Resumes e ∧ ∀ x, s.NoEarlyCopy x e

omit [∀ x, NeZero (cap x)] in
/-- Nothing is sent on the way to a later state. -/
theorem Later.sentCount (h : s.Later t) (x : Side) : t.sentCount x = s.sentCount x :=
  congrArg List.length (h.sentBy x)

/-- The numbering is kept by every careful step. -/
theorem Tracked.perform (hC : ∀ x, ∃ e ≥ 2, cap x = 2 ^ e) (h : Tracked encode base s)
    {e : Event S R} (he : s.Careful e) : Tracked encode base (s.perform encode e) := by
  obtain ⟨W, hW, hlinked⟩ := h.follows
  have hpossible := he.1.possible
  obtain ⟨W', hW', hadv, hfresh⟩ := hW.perform hC h.carries h.counts hpossible
  refine ⟨fun x => (h.carries x).perform hpossible, fun x => ?_, W', hW', ?_⟩
  · rw [he.1.later.sentCount]
    exact h.counts x
  · exact hlinked.advance hadv fun x => hfresh x (hlinked x).fresh (he.2 x)

/-- It holds in every state reached by careful steps. -/
theorem Tracked.reaches (hC : ∀ x, ∃ e ≥ 2, cap x = 2 ^ e) (h : Tracked encode base s)
    (hrun : Reaches Careful (Session.perform encode) s t) : Tracked encode base t :=
  hrun.invariant (I := fun u => Tracked encode base u) h fun _ _ _ hu he => hu.perform hC he

/-- Careful steps lead to a later state. -/
theorem Reaches.later_of_careful (hrun : Reaches Careful (perform encode) s t) : s.Later t :=
  Reaches.later (fun _ _ h => h.1) hrun

/-- Everything the applications can be told was counted. -/
theorem Tracked.progress_le (h : Tracked encode base s) :
    s.progress .a + s.progress .b ≤ 2 * (s.sentCount .a + s.sentCount .b) := by
  obtain ⟨W, hW, hlinked⟩ := h.follows
  have hside (x : Side) : s.progress x ≤ s.sentCount x + s.sentCount x.peer := by
    have hs := hW.shows x
    have hdeliveries : (s.node x).history.deliveries.length ≤ s.sentCount x.peer := by
      have hlen : (s.node x).history.deliveries.length = (W x).delivered.length := by
        rw [hs.links.length_eq, Party.delivered, List.length_map]
      rw [hlen, Session.sentCount, ← (hW.shows x.peer).next_eq]
      have hsub : (W x).delivered ⊆ List.range (W x.peer).next := fun k hk =>
        List.mem_range.mpr ((hW.consistent x).delivered_lt k hk)
      simpa using ((hlinked x).fresh.subperm hsub).length_le
    have hacks : (s.node x).history.acks.length ≤ s.sentCount x := by
      rw [hs.acks.length_eq, Session.sentCount, ← hs.next_eq]
      have hnodup : (W x).heard.Nodup := (List.nodup_append.mp (hlinked x).handedBack_nodup).1
      have hsub : (W x).heard ⊆ List.range (W x).next := fun k hk =>
        List.mem_range.mpr (((hlinked x).mem_handedBack k).mp (List.mem_append_left _ hk)).1
      simpa using (hnodup.subperm hsub).length_le
    unfold progress
    omega
  have ha := hside .a
  have hb := hside .b
  simp only [Side.peer] at ha hb
  omega

/-- Nothing is outstanding and no lock is held. -/
def Calm (s : Session S R cap) (x : Side) : Prop :=
  (s.node x).seqEx.concurrentReplies = [] ∧ (s.node x).seqEx.isLocked = false

/-- A peer can return all its reply numbers and give the lock up. -/
theorem settle (encode : S → R) (s : Session S R cap) (x : Side) :
    ∃ t, Reaches Careful (perform encode) s t ∧ t.Calm x ∧ t.node x.peer = s.node x.peer ∧
      (t.node x).seqEx.nextRecvSeqNo = (s.node x).seqEx.nextRecvSeqNo := by
  induction hn : (s.node x).seqEx.concurrentReplies.length generalizing s with
  | zero =>
    have hnil := List.length_eq_zero_iff.mp hn
    cases hlock : (s.node x).seqEx.isLocked with
    | false => exact ⟨s, Reaches.refl, ⟨hnil, hlock⟩, rfl, rfl⟩
    | true =>
      have hguard : s.Careful (.call x .unlock) := ⟨hlock, fun _ => trivial⟩
      refine ⟨_, Reaches.single hguard, ?_, perform_node_ne (Side.peer_ne x) _, ?_⟩
      · rw [Calm, perform_node_self]
        exact ⟨hnil, rfl⟩
      · rw [perform_node_self]
        rfl
  | succ n ih =>
    obtain ⟨r, hr⟩ := List.exists_mem_of_length_eq_add_one hn
    obtain ⟨l, hlen, hcall⟩ := SeqEx.call_ack hr
    have hguard : s.Careful (.call x (.ack r false)) := ⟨⟨hr, rfl⟩, fun _ => trivial⟩
    have hnode : ((s.perform encode (.call x (.ack r false))).node x).seqEx =
        { (s.node x).seqEx with concurrentReplies := l } := by
      rw [perform_node_self]
      exact hcall
    obtain ⟨t, hrun, hcalm, hpeer, hrecv⟩ :=
      ih (s.perform encode (.call x (.ack r false))) (by rw [hnode]; dsimp only; omega)
    refine ⟨t, (Reaches.single hguard).trans hrun, hcalm, ?_, ?_⟩
    · rw [hpeer, perform_node_ne (Side.peer_ne x)]
    · rw [hrecv, hnode]

/-- A peer can put everything that is in its send window on the wire. -/
theorem resend (encode : S → R) (hC : ∀ x, ∃ e, cap x = 2 ^ e) (hcap : ∀ x, cap x < 2 ^ 32)
    (s : Session S R cap) (y : Side) :
    ∃ t, Reaches Careful (perform encode) s t ∧ t.node y.peer = s.node y.peer ∧
      (s.node y).seqEx.Retimed (t.node y).seqEx ∧ (t.node y).history = (s.node y).history ∧
      ∀ i p, (s.node y).seqEx.pending i = some p → p.map encode ∈ t.net y := by
  have hguard : s.Careful (.call y (.service Int64.maxValue)) := ⟨trivial, fun _ => trivial⟩
  obtain ⟨hre, hout, hrec⟩ :=
    (s.node y).seqEx.call_service (h := (s.node y).history) Int64.maxValue
  refine ⟨_, Reaches.single hguard, perform_node_ne (Side.peer_ne y) _, ?_, ?_, fun i p hp => ?_⟩
  · rw [perform_node_self]
    exact hre
  · rw [perform_node_self]
    exact hrec none
  · rw [perform_net_self, hout]
    exact List.mem_append_right _ (List.mem_map_of_mem
      ((s.node y).seqEx.mem_service_maxValue (hC y) (hcap y) hp))

/-- `t` is a calm continuation of `s` in which some application was told more. -/
structure Advance (encode : S → R) (s t : Session S R cap) : Prop where
  run : Reaches Careful (perform encode) s t
  calm : ∀ x, t.Calm x
  wedged : t.Wedged → s.Wedged
  gain : s.progress .a + s.progress .b < t.progress .a + t.progress .b

omit [∀ x, NeZero (cap x)] in
/-- Progress on one side is progress of the session. -/
theorem gain_of_side {x : Side} (h : ∀ y, s.progress y ≤ t.progress y)
    (hx : s.progress x < t.progress x) :
    s.progress .a + s.progress .b < t.progress .a + t.progress .b := by
  have ha := h .a
  have hb := h .b
  cases x <;> omega

/-- A free next cell stays free. -/
theorem Later.blocker_eq_none (h : s.Later t) {x : Side}
    (hs : (s.node x).seqEx.blocker? = none) : (t.node x).seqEx.blocker? = none := by
  rw [SeqEx.blocker?, Option.eq_none_iff_forall_ne_some, h.nextSend x]
  intro p hp
  have hold := h.pending x _ p hp
  rw [show (s.node x).seqEx.pending _ = none from hs] at hold
  cases hold

/-- A live packet that was not handed over and lies in the window is processed,
when nothing is outstanding and it fits. -/
theorem Follows.processes (hC : ∀ x, ∃ e ≥ 2, cap x = 2 ^ e) (hcap : ∀ x, cap x < 2 ^ 32)
    (h : Tracked encode base s) (hW : Follows encode base s W) {x : Side} (hcalm : s.Calm x)
    {q : ℕ} (hlow : (W x).cursor ≤ q) (hhigh : q < (W x).cursor + cap x)
    (hord : (W x.peer).ordered q = true → q = (W x).cursor)
    (hfits : ∀ a, (W x).Fills (period (cap x)) a → (W x.peer).answers q = some a) {p : Packet S}
    (hsent : (s.sentBy x.peer)[q]? = some p) :
    (s.node x).seqEx.Processes (.receive (p.map encode)) (p.map encode) := by
  have hs := hW.shows x
  have hs' := hW.shows x.peer
  have hcount := h.counts x.peer
  have hqlt : q < s.sentCount x.peer := (List.getElem?_eq_some_iff.mp hsent).1
  have hseq : (p.map encode).seqNo? = some (number base q) := by
    rw [Packet.seqNo?_map, hs'.sends.numbered q p hsent]
  have hreply := stands_replyNo hs'.items hsent
  refine ⟨rfl, hs.isFullInner_of_fits (hC x) hcalm.1 fun a ha => ?_, fun _ => hcalm.2,
    .inr ⟨number base q, hseq, ?_, fun hcst => ?_⟩⟩
  · rw [Packet.replyNo?_map, hreply, hfits a ha]
    rfl
  · have hle : (W x).intake.cursor ≤ q := hlow
    have hlt : q < (W x).intake.cursor + cap x := hhigh
    rw [SeqEx.inRange_iff, hs.receives.view.cursor_eq, number_sub_of_le hle (by omega),
      Nat.mod_eq_of_lt (hcap x)]
    omega
  · rw [Packet.isSeqCst_map] at hcst
    have hqord : (W x.peer).ordered q = true := by
      rw [stands_ordered hs'.items, orderedAt, show (s.node x.peer).history.sent[q]? = _ from hsent]
      exact hcst
    rw [hs.receives.view.cursor_eq]
    exact congrArg (number base) (hord hqord)

/-- A packet that fits is resent, taken and acknowledged. -/
theorem advance_take (hC : ∀ x, ∃ e ≥ 2, cap x = 2 ^ e) (hcap : ∀ x, cap x < 2 ^ 32)
    (h : Tracked encode base s) (hcalm : ∀ x, s.Calm x) (hW : Follows encode base s W) {x : Side}
    {q : ℕ} (hq : q ∈ (W x.peer).live) (hnew : q ∉ (W x).delivered)
    (hlow : (W x).cursor ≤ q) (hhigh : q < (W x).cursor + cap x)
    (hord : (W x.peer).ordered q = true → q = (W x).cursor)
    (hfits : ∀ a, (W x).Fills (period (cap x)) a → (W x.peer).answers q = some a) :
    ∃ t, Advance encode s t := by
  have hpow : ∀ x, ∃ e, cap x = 2 ^ e := fun x => (hC x).imp fun _ h => h.2
  have hs := hW.shows x
  have hs' := hW.shows x.peer
  obtain ⟨p, hsent, hp⟩ := hs'.pending_of_live (hW.consistent x.peer) hq
  have hwire : wire? encode (s.sentBy x.peer) q = some (p.map encode) := by
    rw [wire?, sentBy, hsent]
    rfl
  obtain ⟨s₁, hrun₁, hnode₁, hre₁, -, hnet₁⟩ := resend encode hpow hcap s x.peer
  rw [Side.peer_peer] at hnode₁
  have hprocess := hW.processes hC hcap h (hcalm x) hlow hhigh hord hfits hsent
  have hcopy := hs.not_earlyCopy (hpow x) (h.carries x.peer).sends (h.counts x.peer) hwire hnew
  have hguard : s₁.Careful (.call x (.receive (p.map encode))) := by
    refine ⟨hnet₁ _ p hp, ?_⟩
    rintro _ rfl
    rwa [hnode₁]
  obtain ⟨n, r, b, d, doPump, u, hpacket, hplaced, hcall⟩ := hprocess.hand
  let s₂ := s₁.perform encode (.call x (.receive (p.map encode)))
  have hself : s₂.node x = ⟨(u.handOver n r b d).2,
      (s₁.node x).history.take (p.map encode) (u.handOver n r b d).1⟩ := by
    rw [perform_node_self, hnode₁, hcall]
    rfl
  have htold : s₁.progress x < s₂.progress x := by
    rw [progress, progress, hself, History.take_delivery (u.handOver_ne_ack n r b d)]
    simp only [List.length_append, List.length_singleton]
    omega
  obtain ⟨t, hrun₃, hcalm₃, hpeer₃, -⟩ := settle encode s₂ x
  have hrun : Reaches Careful (perform encode) s t := (hrun₁.snoc hguard).trans hrun₃
  have hpeer : t.node x.peer = s₁.node x.peer :=
    hpeer₃.trans (perform_node_ne (Side.peer_ne x) _)
  have hlater := Reaches.later_of_careful hrun
  have hlater₃ := Reaches.later_of_careful hrun₃
  refine ⟨t, hrun, fun y => ?_, fun hw => hw.of_later hlater fun y => ?_,
    gain_of_side (x := x) hlater.progress ?_⟩
  · rcases Side.eq_or_eq_peer x y with rfl | rfl
    · exact hcalm₃
    · rw [Calm, hpeer]
      exact ⟨hre₁.replies.trans (hcalm x.peer).1, hre₁.locked.trans (hcalm x.peer).2⟩
  · rcases Side.eq_or_eq_peer x y with rfl | rfl
    · refine .inl (hlater₃.blocker_eq_none ?_)
      rw [hself]
      refine hs.blocker_handOver (hpow y) hplaced fun a ha => ?_
      have hreply := stands_replyNo hs'.items hsent
      rw [← Packet.replyNo?_map encode, hpacket, Packet.replyNo?_newWithData, hfits a ha] at hreply
      exact hreply
    · exact .inr (by rw [hpeer, hre₁.nextRecv])
  · exact ((Reaches.later_of_careful hrun₁).progress x).trans_lt
      (htold.trans_le (hlater₃.progress x))

/-- The acknowledgement of a packet in the send window is heard. -/
theorem perform_heed (encode : S → R) (s : Session S R cap) {y : Side} {n : SeqNo} {p : Packet S}
    (hp : (s.node y).seqEx.pending (cell (cap y) n) = some p) (hn : p.seqNo? = some n) :
    ∃ d, (s.perform encode (.call y (.receive (.ack n)))).node y =
      ⟨{ (s.node y).seqEx with
          sendWindow := Function.update (s.node y).seqEx.sendWindow (cell (cap y) n) none },
        (s.node y).history.take (.ack n) (.ack d)⟩ := by
  obtain ⟨e, he, hseq⟩ := SeqEx.entry_of_pending hp hn
  refine ⟨e.data, ?_⟩
  rw [perform_node_self, SeqEx.call_receive_ack he hseq]
  rfl

/-- A packet below the cursor is resent and acknowledged once more. -/
theorem advance_reack (hC : ∀ x, ∃ e ≥ 2, cap x = 2 ^ e) (hcap : ∀ x, cap x < 2 ^ 32)
    (h : Tracked encode base s) (hcalm : ∀ x, s.Calm x) (hW : Follows encode base s W) {x : Side}
    {k : ℕ} (hk : k ∈ (W x.peer).live) (hcursor : k < (W x).cursor)
    (hno : ∀ j ∈ (W x).live, (W x).answers j ≠ some k) : ∃ t, Advance encode s t := by
  have hpow : ∀ x, ∃ e, cap x = 2 ^ e := fun x => (hC x).imp fun _ h => h.2
  have hs := hW.shows x
  have hs' := hW.shows x.peer
  have hcount := h.counts x.peer
  have hfar := hW.cursor_le x.peer
  rw [Side.peer_peer] at hfar
  have hback (j r : ℕ) (hans : (W x).answers j = some r) : r < 2 ^ 31 := by
    have hlt := (hW.consistent x).replied_lt hans
    rw [hs'.next_eq] at hlt
    exact lt_trans hlt hcount
  obtain ⟨p, hsent, hp⟩ := hs'.pending_of_live (hW.consistent x.peer) hk
  obtain ⟨e, he, rfl⟩ := Option.map_eq_some_iff.mp hp
  have hnum := hs'.sends.numbered k _ hsent
  rw [SendEntry.seqNo?_toPacket] at hnum
  have hseq : e.seqNo = number base k := Option.some.inj hnum
  obtain ⟨s₁, hrun₁, hnode₁, hre₁, hhist₁, hnet₁⟩ := resend encode hpow hcap s x.peer
  rw [Side.peer_peer] at hnode₁
  -- the packet is dropped as a duplicate, and its acknowledgement is sent
  have hinflight := hnet₁ _ _ hp
  rw [SendEntry.toPacket_eq, Packet.map_newWithData] at hinflight
  let c : Call S R := .receive (.newWithData e.seqNo e.replyNo e.seqCst (encode e.data))
  have hcall : (s₁.node x).seqEx.call c =
      (.dropped (.droppedDuplicateResendAck e.seqNo), (s.node x).seqEx) := by
    rw [hnode₁]
    exact hs.call_reack hseq hcursor (by omega) hback hno (hcalm x).1
  have hcopy : ¬ (s₁.node x).seqEx.EarlyCopy
      (.newWithData e.seqNo e.replyNo e.seqCst (encode e.data)) := fun hearly => by
    obtain ⟨ok, doPump, hok, -⟩ := hearly.received
    exact absurd (hok.symm.trans (congrArg Prod.fst hcall)) nofun
  have hguard₁ : s₁.Careful (.call x c) := by
    refine ⟨hinflight, ?_⟩
    rintro _ rfl
    exact hcopy
  let s₂ := s₁.perform encode (.call x c)
  have hself₂ : (s₂.node x).seqEx = (s.node x).seqEx := by
    rw [perform_node_self, hcall]
  have hpeer₂ : s₂.node x.peer = s₁.node x.peer := perform_node_ne (Side.peer_ne x) _
  have hnet₂ : .ack e.seqNo ∈ s₂.net x := by
    rw [perform_net_self, hcall]
    exact List.mem_append_right _ (List.mem_singleton_self _)
  -- the acknowledgement is heard
  have hguard₂ : s₂.Careful (.call x.peer (.receive (.ack e.seqNo))) := by
    refine ⟨?_, fun y _ => ?_⟩
    · show .ack e.seqNo ∈ s₂.net x.peer.peer
      rwa [Side.peer_peer]
    rintro ⟨-, n, hn, -⟩
    cases hn
  let t := s₂.perform encode (.call x.peer (.receive (.ack e.seqNo)))
  have hpending : (s₂.node x.peer).seqEx.pending (cell (cap x.peer) e.seqNo) = some e.toPacket := by
    rw [hpeer₂, hre₁.pending, hseq]
    exact hp
  obtain ⟨d, hselft⟩ : ∃ d, t.node x.peer = _ :=
    s₂.perform_heed encode hpending e.seqNo?_toPacket
  rw [hpeer₂] at hselft
  have hothert : t.node x = s₂.node x := perform_node_ne (Side.ne_peer x) _
  have hrun : Reaches Careful (perform encode) s t := (hrun₁.snoc hguard₁).snoc hguard₂
  have hlater := Reaches.later_of_careful hrun
  refine ⟨t, hrun, fun y => ?_, fun hw => hw.of_later hlater fun y => .inr ?_,
    gain_of_side (x := x.peer) hlater.progress ?_⟩
  · rcases Side.eq_or_eq_peer x y with rfl | rfl
    · rw [Calm, hothert, hself₂]
      exact hcalm y
    · rw [Calm, hselft]
      exact ⟨hre₁.replies.trans (hcalm x.peer).1, hre₁.locked.trans (hcalm x.peer).2⟩
  · rcases Side.eq_or_eq_peer x y with rfl | rfl
    · rw [hothert, hself₂]
    · rw [hselft]
      exact hre₁.nextRecv
  · rw [progress, progress, hselft, hhist₁]
    simp [History.take, Packet.replyNo?]

/-! ## Draining -/

/-- Every chance of the exchange is one of the session. -/
theorem advance_of_chance (hC : ∀ x, ∃ e ≥ 2, cap x = 2 ^ e) (hcap : ∀ x, cap x < 2 ^ 32)
    (hsame : ∀ x, cap x.peer ≤ cap x) (h : Tracked encode base s) (hcalm : ∀ x, s.Calm x)
    (hW : Follows encode base s W) (hlinked : AllLinked cap W) {x : Side}
    (hchance : Chance (period (cap x)) (W x) (W x.peer)) : ∃ t, Advance encode s t := by
  have hback := hlinked x.peer
  rw [Side.peer_peer] at hback
  have hsound := (hlinked x).sound
  have hpos : 0 < cap x := Nat.pos_of_ne_zero (NeZero.ne _)
  cases hchance with
  | takeNext hnext hfree =>
    have hnew : (W x).cursor ∉ (W x).delivered := hsound.cursor_not_mem_log
    exact advance_take hC hcap h hcalm hW (hback.live_of_fresh hnext hnew) hnew le_rfl (by omega)
      (fun _ => rfl) fun a ha => absurd ha (hfree a)
  | takeAnswer a q ha hq hans hord =>
    have hnew := (hlinked x).fresh_of_answers ha.1 hans
    have hlow : (W x).cursor ≤ q := by
      by_contra hlt
      exact hnew ((hsound.mem_log q).mpr (.inl (not_le.mp hlt)))
    have hahead := hback.ahead (hlinked x).toConsistent
    have hlt := hback.live_lt q hq
    have hperiod := period_le (cap x.peer)
    have hle := hsame x
    refine advance_take hC hcap h hcalm hW hq hnew hlow (by omega) hord fun a' ha' => ?_
    rw [hans, (hlinked x).live_inj ha'.1 ha.1 (ha'.2.trans ha.2.symm)]
  | reack k hk hcursor hno => exact advance_reack hC hcap h hcalm hW hk hcursor hno

/-- With both rings empty the session is finished. -/
theorem Follows.finished (hW : Follows encode base s W) (hlinked : AllLinked cap W)
    (hempty : ∀ x, (W x).live = ∅) : s.Finished encode := by
  intro x
  have hs := hW.shows x
  refine ⟨fun i => ?_, fun p hp => ?_⟩
  · rw [← SeqEx.pending_eq_none, Option.eq_none_iff_forall_ne_some]
    intro p hp
    obtain ⟨k, hk, -⟩ := hs.pending_live i p hp
    rw [hempty x] at hk
    exact hk
  · obtain ⟨k, hk⟩ := List.mem_iff_getElem?.mp hp
    have hklt : k < (W x).next := hs.next_eq ▸ (List.getElem?_eq_some_iff.mp hk).1
    have hdelivered := ((hlinked x).done k hklt (by rw [hempty x]; exact Set.notMem_empty k)).1
    obtain ⟨d, hd, hwire⟩ := (hW.shows x.peer).receives.delivery_of_mem_log hdelivered
    refine ⟨d, hd, ?_⟩
    rw [Side.peer_peer, wire?, hk] at hwire
    exact (Option.some.inj hwire).symm

/-- A calm session that is not wedged can be finished. -/
theorem Tracked.canFinish_of_calm (hC : ∀ x, ∃ e ≥ 2, cap x = 2 ^ e) (hcap : ∀ x, cap x < 2 ^ 32)
    (hsame : ∀ x, cap x.peer ≤ cap x) (h : Tracked encode base s) (hcalm : ∀ x, s.Calm x)
    (hwedged : ¬ s.Wedged) : s.CanFinish encode := by
  have hpow : ∀ x, ∃ e, cap x = 2 ^ e := fun x => (hC x).imp fun _ h => h.2
  induction hn : 2 * (s.sentCount .a + s.sentCount .b) - (s.progress .a + s.progress .b)
    using Nat.strong_induction_on generalizing s with
  | _ n ih =>
    obtain ⟨W, hW, hlinked⟩ := h.follows
    have hstuck := mt (hW.wedged_iff hpow h.counts .a).mpr hwedged
    have hgo : (∃ t, Advance encode s t) ∨ ∀ x, (W x).live = ∅ := by
      rcases (hlinked .a).chance_or_empty (hlinked .b) hstuck with hchance | hchance | hempty
      · exact .inl (advance_of_chance hC hcap hsame h hcalm hW hlinked hchance)
      · exact .inl (advance_of_chance (x := .b) hC hcap hsame h hcalm hW hlinked hchance)
      · exact .inr (Side.forall.mpr hempty)
    rcases hgo with ⟨t, hadv⟩ | hempty
    · have ht := h.reaches hC hadv.run
      have hlater := Reaches.later_of_careful hadv.run
      have hle := ht.progress_le
      have hgain := hadv.gain
      have hsent : ∀ x, t.sentCount x = s.sentCount x := fun x => hlater.sentCount x
      rw [hsent, hsent] at hle
      have hless : 2 * (t.sentCount .a + t.sentCount .b) - (t.progress .a + t.progress .b) < n := by
        rw [hsent, hsent]
        omega
      obtain ⟨u, hu, hfinished⟩ := ih _ hless ht hadv.calm (mt hadv.wedged hwedged) rfl
      exact ⟨u, (hadv.run.weaken fun _ _ _ hg => hg.1).trans hu, hfinished⟩
    · exact ⟨s, Reaches.refl, hW.finished hlinked hempty⟩

/-- A session that is not wedged can be finished. -/
theorem Tracked.canFinish (hC : ∀ x, ∃ e ≥ 2, cap x = 2 ^ e) (hcap : ∀ x, cap x < 2 ^ 32)
    (hsame : ∀ x, cap x.peer ≤ cap x) (h : Tracked encode base s) (hwedged : ¬ s.Wedged) :
    s.CanFinish encode := by
  -- first both peers return everything they were handed
  obtain ⟨s₁, hrun₁, hcalm₁, hpeer₁, hrecv₁⟩ := settle encode s .a
  obtain ⟨s₂, hrun₂, hcalm₂, hpeer₂, hrecv₂⟩ := settle encode s₁ .b
  have hrun := hrun₁.trans hrun₂
  have hkept : s₂.node .a = s₁.node .a := hpeer₂
  have hkept₁ : s₁.node .b = s.node .b := hpeer₁
  have hcalm : ∀ x, s₂.Calm x := Side.forall.mpr ⟨by rw [Calm, hkept]; exact hcalm₁, hcalm₂⟩
  have hnot : ¬ s₂.Wedged := fun hw => by
    refine hwedged (hw.of_later (Reaches.later_of_careful hrun) fun x => .inr ?_)
    cases x with
    | a => rw [hkept, hrecv₁]
    | b => rw [hrecv₂, hkept₁]
  obtain ⟨t, ht, hfinished⟩ := (h.reaches hC hrun).canFinish_of_calm hC hcap hsame hcalm hnot
  exact ⟨t, (hrun.weaken fun _ _ _ hg => hg.1).trans ht, hfinished⟩

end Session

end SequentialExchange
