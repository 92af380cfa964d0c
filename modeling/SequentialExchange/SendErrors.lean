import SequentialExchange.GuardLedger
import SequentialExchange.WindowInvariant

/-!
# What the error of a refused send says

`try_send` needs a cell for its packet and one for each outstanding reply. A
refusal names one event: a packet has to be received, or a reply number has to
be returned. The name is right when all of these cells are taken, or when the
reservations are used up. With some of them taken and some free, the other
event ends the refusal as well: an acknowledgement can free the taken cells, and
returned reply numbers can move the send cursor on to a free one.
-/

namespace SequentialExchange

open WrapNumbering GuardedRuns

variable {S R : Type*} {CAP : ℕ} [NeZero CAP]

namespace SeqEx

variable {s u : SeqEx S R CAP}

/-! ## The two continuations -/

/-- No `try_send` succeeds in this state. -/
def Refuses (s : SeqEx S R CAP) : Prop :=
  ∀ t b f, ∃ e, (s.call (.trySend t b f)).1 = .refused e

/-- Calls of `reply_raw`, `ack_raw` and `unlock_raw`, and receives and pumps that
fail. -/
def Answering (s : SeqEx S R CAP) : Call S R → Prop
  | .reply _ _ _ _ _ | .ack _ _ | .unlock => True
  | .receive p => (s.call (.receive p)).1.delivery? = none
  | .pump => (s.call .pump).1.delivery? = none
  | .trySend _ _ _ | .serviceDirect _ _ | .service _ => False

/-- Calls of `try_receive` and `try_pump`, and of `reply_raw` and `ack_raw` with
a number that is not outstanding. -/
def Taking (s : SeqEx S R CAP) : Call S R → Prop
  | .receive _ | .pump => True
  | .reply _ r _ _ _ | .ack r _ => r ∉ s.concurrentReplies
  | .trySend _ _ _ | .unlock | .serviceDirect _ _ | .service _ => False

/-- The error of a refused `try_send` names the event that is needed. -/
structure NamesEvent (s : SeqEx S R CAP) : Prop where
  recv : ∀ t b f, (s.call (.trySend t b f)).1 = .refused .waitingForRecv →
    ∀ u, Reaches Answering (fun v c => (v.call c).2) s u → u.Refuses
  reply : ∀ t b f, (s.call (.trySend t b f)).1 = .refused .waitingForReply →
    s.concurrentReplies ≠ [] ∧
      ∀ u, Reaches Taking (fun v c => (v.call c).2) s u → u.Refuses

/-- The reservations are used up, or the cells that `try_send` looks at are all
free or all taken. -/
def Uniform (s : SeqEx S R CAP) : Prop :=
  CAP - 2 ≤ s.concurrentReplies.length ∨
    (∀ i ≤ s.concurrentReplies.length, s.sendWindow (s.sendCell i) = none) ∨
      ∀ i ≤ s.concurrentReplies.length, s.sendWindow (s.sendCell i) ≠ none

/-- A bounded search through the cells ahead. -/
instance (s : SeqEx S R CAP) : Decidable s.Uniform :=
  inferInstanceAs (Decidable (_ ∨ _ ∨ _))

/-! ## The fullness test of a send -/

/-- Without a number to answer every taken cell blocks. -/
theorem isBlockedAt_none (s : SeqEx S R CAP) (i : ℕ) :
    s.isBlockedAt none i = (s.sendWindow (s.sendCell i)).isSome := by
  simp [isBlockedAt, sendCell]

/-- `try_send` is refused with the error of the window check. -/
theorem call_trySend_refused {t : Int64} {b : Bool} {f : SeqNo → S} {e : TryError} :
    (s.call (.trySend t b f)).1 = .refused e ↔ s.isFullInner none = .error e := by
  simp only [call, trySendDirectWith]
  cases s.isFullInner none with
  | ok _ => simp
  | error e' => simp

/-- A packet may be sent when a reservation is left and the cells ahead are free. -/
theorem isFullInner_ok_iff (hlen : s.concurrentReplies.length + 1 < 2 ^ 32) :
    s.isFullInner none = .ok () ↔ s.concurrentReplies.length < CAP - 2 ∧
      ∀ i ≤ s.concurrentReplies.length, s.sendWindow (s.sendCell i) = none := by
  simp only [isFullInner_eq_ok_iff hlen, isBlockedAt_none, Option.isSome_eq_false_iff,
    Option.isNone_iff_eq_none]

/-- An error of the window check refuses every `try_send`. -/
theorem refuses_of_error {e : TryError} (h : s.isFullInner none = .error e) : s.Refuses :=
  fun _ _ _ => ⟨e, call_trySend_refused.mpr h⟩

/-- A state that would accept does not refuse. -/
theorem not_refuses_of_ok (h : s.isFullInner none = .ok ()) (d : S) :
    ¬ s.Refuses := fun hrefuses => by
  obtain ⟨e, he⟩ := hrefuses 0 false fun _ => d
  rw [call_trySend_refused, h] at he
  cases he

/-- Which error is returned. -/
theorem isFullInner_error_iff (hlen : s.concurrentReplies.length + 1 < 2 ^ 32) :
    (s.isFullInner none = .error .waitingForRecv ↔
      s.concurrentReplies.length < CAP - 2 ∧ s.sendWindow (s.sendCell 0) ≠ none) ∧
    (s.isFullInner none = .error .waitingForReply ↔
      CAP - 2 ≤ s.concurrentReplies.length ∨ s.sendWindow (s.sendCell 0) = none ∧
        ∃ i ≤ s.concurrentReplies.length, s.sendWindow (s.sendCell i) ≠ none) := by
  have hok := isFullInner_ok_iff hlen
  by_cases hfull : CAP - 2 ≤ s.concurrentReplies.length
  · have herr : s.isFullInner none = .error .waitingForReply := by
      rw [isFullInner, if_pos hfull]
    rw [herr]
    exact ⟨⟨by simp, fun h => absurd h.1 (Nat.not_lt.mpr hfull)⟩,
      ⟨fun _ => .inl hfull, fun _ => rfl⟩⟩
  · have hroom := Nat.not_le.mp hfull
    by_cases hzero : s.sendWindow (s.sendCell 0) = none
    · -- the cell of the packet itself is free, so only a reservation can be short of one
      have hrecv : s.isFullInner none ≠ .error .waitingForRecv := by
        unfold isFullInner
        rw [if_neg hfull]
        intro herr
        split at herr
        · cases herr
        · rename_i hfind
          have htaken := List.find?_some hfind
          rw [isBlockedAt_none, hzero] at htaken
          cases htaken
        · cases herr
      refine ⟨⟨fun h => absurd h hrecv, fun h => absurd hzero h.2⟩, ?_⟩
      constructor
      · intro herr
        refine .inr ⟨hzero, ?_⟩
        by_contra hnone
        have hfree (i : ℕ) (hi : i ≤ s.concurrentReplies.length) :
            s.sendWindow (s.sendCell i) = none := by
          by_contra htaken
          exact hnone ⟨i, hi, htaken⟩
        rw [hok.mpr ⟨hroom, hfree⟩] at herr
        cases herr
      · intro h
        obtain ⟨-, i, hi, htaken⟩ := h.resolve_left hfull
        cases herr : s.isFullInner none with
        | ok _ => exact absurd ((hok.mp herr).2 i hi) htaken
        | error e =>
          cases e with
          | waitingForRecv => exact absurd herr hrecv
          | waitingForReply => rfl
    · have hfirst : s.isBlockedAt none 0 = true := by
        rwa [isBlockedAt_none, Option.isSome_iff_ne_none]
      have herr : s.isFullInner none = .error .waitingForRecv := by
        unfold isFullInner
        rw [if_neg hfull, scan_length hlen, List.range_succ_eq_map, List.find?_cons_of_pos hfirst]
      rw [herr]
      exact ⟨⟨fun _ => ⟨hroom, hzero⟩, fun _ => rfl⟩,
        ⟨by simp, fun h => h.elim (fun h => absurd h hfull) fun h => absurd h.1 hzero⟩⟩

/-! ## Where the named event is needed -/

/-- Giving back a number delivers nothing. -/
theorem Answering.delivery? {c : Call S R} (h : s.Answering c) :
    (s.call c).1.delivery? = none := by
  cases c with
  | receive p => exact h
  | pump => exact h
  | reply => rfl
  | ack => rfl
  | unlock => rfl
  | trySend => exact h.elim
  | serviceDirect => exact h.elim
  | service => exact h.elim

/-- Every cell that `try_send` looks at is taken. -/
def Taken (s : SeqEx S R CAP) : Prop :=
  ∀ i ≤ s.concurrentReplies.length, s.sendWindow (s.sendCell i) ≠ none

/-- The cells ahead stay taken when there are fewer reservations. -/
theorem Taken.shrink (h : s.Taken) (hnext : u.nextSendSeqNo = s.nextSendSeqNo)
    (hwindow : ∀ i, u.sendWindow i = none ↔ s.sendWindow i = none)
    (hlen : u.concurrentReplies.length ≤ s.concurrentReplies.length) : u.Taken := fun i hi => by
  rw [ne_eq, hwindow, sendCell, hnext]
  exact h i (hi.trans hlen)

/-- A reply is written into a cell that was taken, and the next one is taken too. -/
theorem Taken.insert (h : s.Taken) {l : List SeqNo}
    (hlen : s.concurrentReplies.length = l.length + 1)
    (hreplies : u.concurrentReplies = l) (hnext : u.nextSendSeqNo = s.nextSendSeqNo)
    (hwindow : u.sendWindow = s.sendWindow) (t : Int64) (r : Option SeqNo) (b : Bool) (d : S) :
    (u.insertEntry t r b d).2.Taken := fun i hi => by
  replace hi : i ≤ l.length := hreplies ▸ hi
  rw [ne_eq, insertEntry_sendCell, ← pending_eq_none, insertEntry_pending]
  by_cases hcell : u.sendCell (i + 1) = cell CAP u.nextSendSeqNo
  · rw [hcell, Function.update_self]
    nofun
  · rw [Function.update_of_ne hcell, pending_eq_none, hwindow, sendCell, hnext]
    exact h (i + 1) (by omega)

/-- Answering leaves a taken run of cells taken. -/
theorem Taken.answering (h : s.Taken) {c : Call S R} (hc : s.Answering c) :
    (s.call c).2.Taken := by
  have hnone := hc.delivery?
  have heff := s.call_effect c
  generalize (s.call c).1 = a, (s.call c).2 = s' at heff hnone ⊢
  cases heff with
  | send t b f hsend _ =>
    subst hsend
    exact hc.elim
  | reply t r v b d _ l hl s1 hs1 =>
    have hlen : s.concurrentReplies.length = l.length + 1 := hl.length_eq
    exact h.insert hlen (by rw [hs1]) (by rw [hs1]) (by rw [hs1]) t (some r) b d
  | ack r v _ l hl => exact h.shrink rfl (fun _ => Iff.rfl) (by simp [hl.length_eq])
  | unlock _ => exact h.shrink rfl (fun _ => Iff.rfl) le_rfl
  | heed _ _ e _ _ => cases hnone
  | resendAck _ _ _ _ _ _ _ _ => exact h
  | hold _ _ _ _ _ _ _ _ _ => exact h.shrink rfl (fun _ => Iff.rfl) le_rfl
  | hand _ _ _ _ _ _ _ _ _ _ => cases c <;> cases hnone
  | resend _ _ hre _ _ _ =>
    refine h.shrink hre.nextSend (fun i => ?_) (by rw [hre.replies])
    rw [← pending_eq_none, hre.pending, pending_eq_none]
  | idle _ _ => exact h

omit [NeZero CAP] in
/-- Every packet may be received. -/
theorem taking_receive (s : SeqEx S R CAP) (p : Packet R) : s.Taking (.receive p) := trivial

/-- Taking returns no reply number. -/
theorem Taking.replies_le {c : Call S R} (hc : s.Taking c) :
    s.concurrentReplies.length ≤ (s.call c).2.concurrentReplies.length := by
  have heff := s.call_effect c
  generalize (s.call c).1 = a, (s.call c).2 = s' at heff ⊢
  cases heff with
  | reply t r v b d hcall l hl _ _ =>
    subst hcall
    exact absurd (hl.mem_iff.mpr (List.mem_cons_self ..)) hc
  | ack r v hcall l hl =>
    subst hcall
    exact absurd (hl.mem_iff.mpr (List.mem_cons_self ..)) hc
  | hand _ _ _ _ _ t _ hplaced _ _ =>
    rw [handOver_replies, hplaced.frame.2.2.1, List.length_append]
    exact Nat.le_add_right _ _
  | resend _ _ hre _ _ _ => rw [hre.replies]
  | _ => exact le_rfl

/-- In a uniform state the error is right. -/
theorem Uniform.namesEvent (hlen : s.concurrentReplies.length + 1 < 2 ^ 32) (hfour : 4 ≤ CAP)
    (h : s.Uniform) (hfits : ∀ u, Reaches Answering (fun v c => (v.call c).2) s u →
      u.concurrentReplies.length + 1 < 2 ^ 32) : s.NamesEvent := by
  obtain ⟨hrecv, hreply⟩ := isFullInner_error_iff hlen
  refine ⟨fun t b f herr u hu => ?_, fun t b f herr => ?_⟩
  · rw [call_trySend_refused, hrecv] at herr
    have htaken : s.Taken := (h.resolve_left (Nat.not_le.mpr herr.1)).resolve_left fun hfree =>
      herr.2 (hfree 0 (Nat.zero_le _))
    have hu' : u.Taken := hu.invariant (I := Taken) htaken fun v c _ hv hc => hv.answering hc
    intro t' b' f'
    cases hfull : u.isFullInner none with
    | error e => exact ⟨e, call_trySend_refused.mpr hfull⟩
    | ok _ =>
      have hfree := ((isFullInner_ok_iff (hfits u hu)).mp hfull).2
      exact absurd (hfree 0 (Nat.zero_le _)) (hu' 0 (Nat.zero_le _))
  · rw [call_trySend_refused, hreply] at herr
    have hroom : CAP - 2 ≤ s.concurrentReplies.length := by
      by_contra hroom
      obtain ⟨hzero, i, hi, htaken⟩ := herr.resolve_left hroom
      rcases h.resolve_left hroom with hfree | hall
      · exact htaken (hfree i hi)
      · exact hall 0 (Nat.zero_le _) hzero
    refine ⟨fun hnil => ?_, fun u hu => ?_⟩
    · rw [hnil, List.length_nil] at hroom
      omega
    · have hu' : CAP - 2 ≤ u.concurrentReplies.length :=
        hu.invariant (I := fun v => CAP - 2 ≤ v.concurrentReplies.length) hroom
          fun v c _ hv hc => hv.trans hc.replies_le
      refine refuses_of_error (e := .waitingForReply) ?_
      rw [isFullInner, if_pos hu']

/-! ## Where the other event ends the refusal -/

/-- With a free cell among those of the outstanding replies, returning all the
numbers gives a state that accepts. -/
theorem exists_answering (hC : ∃ e, CAP = 2 ^ e) (hthree : 2 < CAP) (d : S) {j : ℕ}
    (hj : j ≤ s.concurrentReplies.length) (hperiod : s.concurrentReplies.length < period CAP)
    (hfree : s.sendWindow (s.sendCell j) = none) :
    ∃ u, Reaches Answering (fun v c => (v.call c).2) s u ∧ u.isFullInner none = .ok () := by
  generalize hn : s.concurrentReplies.length = n at hj hperiod
  induction n generalizing s j with
  | zero =>
    obtain rfl := Nat.le_zero.mp hj
    refine ⟨s, Reaches.refl, (isFullInner_ok_iff (by omega)).mpr ⟨by omega, fun i hi => ?_⟩⟩
    rw [hn, Nat.le_zero] at hi
    rwa [hi]
  | succ n ih =>
    have hne : s.concurrentReplies ≠ [] := fun hnil => by simp [hnil] at hn
    obtain ⟨r, hr⟩ := List.exists_mem_of_ne_nil _ hne
    rcases Nat.eq_zero_or_pos j with rfl | hpos
    · -- the next cell is free: acknowledge
      obtain ⟨l, hl, hstate⟩ := s.call_ack hr
      obtain ⟨u, hu, hok⟩ := ih (s := (s.call (.ack r false)).2) (j := 0)
        (by rw [hstate]; exact hfree) (by rw [hstate]; show l.length = n; omega)
        (Nat.zero_le n) (by omega)
      exact ⟨u, (Reaches.single (a := .ack r false) trivial).trans hu, hok⟩
    · -- a later cell is free: reply, which moves on by one cell
      obtain ⟨l, hl, hstate⟩ := s.call_reply hr 0 false d
      have hcell : (s.call (.reply 0 r false false d)).2.sendWindow
          ((s.call (.reply 0 r false false d)).2.sendCell (j - 1)) = none := by
        have hsucc : s.sendCell (j - 1 + 1) = s.sendCell j := by rw [Nat.sub_add_cancel hpos]
        have hzero : s.sendCell 0 = cell CAP s.nextSendSeqNo := by simp [sendCell]
        have hother : s.sendCell j ≠ cell CAP s.nextSendSeqNo := fun heq => by
          have := sendCell_inj hC (by omega) (by omega) (heq.trans hzero.symm)
          omega
        rw [hstate, insertEntry_sendCell, ← pending_eq_none, insertEntry_pending]
        show Function.update s.pending (cell CAP s.nextSendSeqNo) _ (s.sendCell (j - 1 + 1)) = none
        rw [hsucc, Function.update_of_ne hother, pending_eq_none]
        exact hfree
      obtain ⟨u, hu, hok⟩ := ih (s := (s.call (.reply 0 r false false d)).2) (j := j - 1) hcell
        (by rw [hstate]; show l.length = n; omega) (by omega) (by omega)
      exact ⟨u, (Reaches.single (a := .reply 0 r false false d) trivial).trans hu, hok⟩

/-- Acknowledgements can free the first cells that `try_send` looks at. -/
theorem exists_freeing (hfiled : s.Filed) (k : ℕ) :
    ∃ u, Reaches Taking (fun v c => (v.call c).2) s u ∧ u.nextSendSeqNo = s.nextSendSeqNo ∧
      u.concurrentReplies = s.concurrentReplies ∧ u.Filed ∧
      ∀ i < k, u.sendWindow (s.sendCell i) = none := by
  induction k with
  | zero => exact ⟨s, Reaches.refl, rfl, rfl, hfiled, fun i hi => absurd hi (Nat.not_lt_zero i)⟩
  | succ k ih =>
    obtain ⟨u, hu, hnext, hreplies, hfiled', hfree⟩ := ih
    cases he : u.sendWindow (s.sendCell k) with
    | none =>
      refine ⟨u, hu, hnext, hreplies, hfiled', fun i hi => ?_⟩
      rcases Nat.lt_succ_iff_lt_or_eq.mp hi with hlt | rfl
      · exact hfree i hlt
      · exact he
    | some e =>
      have hcell : s.sendCell k = cell CAP e.seqNo := hfiled' _ e he
      rw [hcell] at he
      have hstate := congrArg Prod.snd (call_receive_ack he rfl)
      have hshrinks : u.Shrinks (u.call (.receive (.ack e.seqNo))).2 :=
        u.receive_shrinks (.ack e.seqNo)
      refine ⟨(u.call (.receive (.ack e.seqNo))).2, hu.snoc (u.taking_receive (.ack e.seqNo)),
        hshrinks.nextSend.trans hnext, ?_, hfiled'.thins hshrinks.thins, fun i hi => ?_⟩
      · rw [hstate]
        exact hreplies
      · rw [hstate]
        dsimp only
        by_cases hi' : s.sendCell i = cell CAP e.seqNo
        · rw [hi', Function.update_self]
        · rw [Function.update_of_ne hi']
          rcases Nat.lt_succ_iff_lt_or_eq.mp hi with hlt | rfl
          · exact hfree i hlt
          · exact absurd hcell hi'

/-- The error names the event that is needed exactly when the reservations are
used up or the cells that `try_send` looks at are all free or all taken. -/
theorem namesEvent_iff_uniform (hC : ∃ e ≥ 2, CAP = 2 ^ e) (interval : Int64) (initialSeqNo : SeqNo)
    (hrun : Reaches (fun _ _ => True) (fun v c => (v.call c).2) (new interval initialSeqNo) s) :
    s.NamesEvent ↔ s.Uniform := by
  obtain ⟨e, he, hcape⟩ := hC
  have hpow : ∃ e, CAP = 2 ^ e := ⟨e, hcape⟩
  have hfour : 2 ^ 2 ≤ CAP := hcape ▸ Nat.pow_le_pow_right (by decide) he
  have hheld {u : SeqEx S R CAP}
      (hu : Reaches (fun _ _ => True) (fun v c => (v.call c).2) (new interval initialSeqNo) u) :
      u.WindowsHeld initialSeqNo :=
    hu.invariant (I := WindowsHeld initialSeqNo) (WindowsHeld.start interval initialSeqNo)
      fun v c _ hv _ => hv.call hpow (by omega) c
  have hlen := (hheld hrun).fits.length_lt
  obtain ⟨hrecv, hreply⟩ := isFullInner_error_iff hlen
  constructor
  · intro hnames
    by_contra hmixed
    obtain ⟨hroom, hmixed⟩ := not_or.mp hmixed
    obtain ⟨hsome, hall⟩ := not_or.mp hmixed
    push Not at hroom hsome hall
    obtain ⟨i, hi, htaken⟩ := hsome
    obtain ⟨j, hj, hfree⟩ := hall
    obtain ⟨entry, hentry⟩ := Option.ne_none_iff_exists'.mp htaken
    by_cases hzero : s.sendWindow (s.sendCell 0) = none
    · -- acknowledgements free every taken cell
      obtain ⟨u, hu, hnext, hreplies, -, hcells⟩ :=
        exists_freeing (hheld hrun).filed (s.concurrentReplies.length + 1)
      have herr := hreply.mpr (.inr ⟨hzero, i, hi, htaken⟩)
      have hrefuses := (hnames.reply 0 false (fun _ => entry.data)
        (call_trySend_refused.mpr herr)).2 u hu
      refine not_refuses_of_ok ((isFullInner_ok_iff (by rwa [hreplies])).mpr ?_) entry.data hrefuses
      rw [hreplies]
      refine ⟨hroom, fun k hk => ?_⟩
      rw [sendCell, hnext]
      exact hcells k (Nat.lt_succ_of_le hk)
    · -- returned numbers move the send cursor to the free cell
      have hperiod : s.concurrentReplies.length < period CAP := by
        rcases (hheld hrun).fits with ⟨hcap, hfit⟩ | ⟨-, hnil⟩
        · rw [period_eq hcap.le]
          omega
        · rw [hnil]
          exact period_pos (by omega)
      obtain ⟨u, hu, hok⟩ := exists_answering hpow (by omega) entry.data hj hperiod hfree
      have herr := hrecv.mpr ⟨hroom, hzero⟩
      exact not_refuses_of_ok hok entry.data
        (hnames.recv 0 false (fun _ => entry.data) (call_trySend_refused.mpr herr) u hu)
  · intro huniform
    refine huniform.namesEvent hlen hfour fun u hu => ?_
    exact (hheld (hrun.trans (hu.weaken fun _ _ _ _ => trivial))).fits.length_lt

/-- Four packets are sent and none is acknowledged. -/
def fourSent : List (Call ℕ ℕ) :=
  [.trySend 0 false fun _ => 70, .trySend 0 false fun _ => 71, .trySend 0 false fun _ => 72,
    .trySend 0 false fun _ => 73]

/-- A window of four packets with no reply outstanding names its event. -/
theorem namesEvent_iff_uniform_fourSent :
    (fourSent.foldl (fun v c => (v.call c).2) (new 100 0 : SeqEx ℕ ℕ 4)).NamesEvent := by
  have hrun : Reaches (fun _ _ => True) (fun v c => (v.call c).2) (new 100 0 : SeqEx ℕ ℕ 4)
      (fourSent.foldl (fun v c => (v.call c).2) (new 100 0)) := Allowed.reaches (by decide)
  exact (namesEvent_iff_uniform ⟨2, le_rfl, rfl⟩ 100 0 hrun).mpr (by decide)

end SeqEx

namespace Session

/-- One peer sends three packets and receives one, while the other peer
acknowledges the first of the three. -/
def oneUnanswered : List (Event ℕ ℕ) :=
  [.call .a (.trySend 0 false fun _ => 70), .call .a (.trySend 0 false fun _ => 71),
    .call .a (.trySend 0 false fun _ => 72), .call .b (.trySend 0 false fun _ => 80),
    .call .a (.receive (.payload 0 80)), .call .b (.receive (.payload 0 70)),
    .call .b (.ack 0 false)]

/-- A send is told to wait for a reply number to be returned, and succeeds when an
acknowledgement arrives. -/
theorem ack_ends_waitingForReply :
    ∃ s : Session ℕ ℕ fun _ => 4, Reaches Possible (perform id) (start (fun _ => 100) 0) s ∧
      ((s.node .a).seqEx.call (.trySend 0 false fun _ => 73)).1 = .refused .waitingForReply ∧
      s.Possible (.call .a (.receive (.ack 0))) ∧
      ((((s.node .a).seqEx.call (.receive (.ack 0))).2).call (.trySend 0 false fun _ => 73)).1 =
        .sent (.payload 3 73) ∧
      ¬ (s.node .a).seqEx.NamesEvent := by
  refine ⟨_, Allowed.reaches (l := oneUnanswered) (by decide), rfl, by decide, rfl,
    fun hnames => ?_⟩
  obtain ⟨e, he⟩ := (hnames.reply 0 false (fun _ => 73) rfl).2 _
    (Reaches.single (SeqEx.taking_receive _ (.ack 0))) 0 false fun _ => 73
  cases he

end Session

end SequentialExchange
