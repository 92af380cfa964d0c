import SequentialExchange.GuardedRuns
import SequentialExchange.Traffic

/-!
# Reserved cells of the send window

Every outstanding reply number has a cell of the send window reserved for its
reply, whatever packets arrive. The one exception is a reply whose `reply_no`
falls into a scanned cell that holds some other packet: `is_full_inner` counts
that cell as free, and `take_send` then does not free it.
-/

namespace SequentialExchange

open WrapNumbering GuardedRuns

variable {S R : Type*} {CAP : ℕ} [NeZero CAP]

namespace SeqEx

variable {s t : SeqEx S R CAP}

/-! ## The number of reservations -/

/-- The reservations leave two cells of the window. A ring of `2^32` cells or
more takes no packet in, since its length is zero as a 32-bit word. -/
def Fits (s : SeqEx S R CAP) : Prop :=
  CAP < 2 ^ 32 ∧ s.concurrentReplies.length + 2 ≤ CAP ∨
    (∀ i, s.recvWindow i = .empty) ∧ s.concurrentReplies = []

omit [NeZero CAP] in
/-- A new endpoint has reserved nothing. -/
theorem Fits.start (interval : Int64) (base : SeqNo) :
    (SeqEx.new interval base : SeqEx S R CAP).Fits := .inr ⟨fun _ => rfl, rfl⟩

omit [NeZero CAP] in
/-- There are fewer reservations than numbers. -/
theorem Fits.length_lt (h : s.Fits) : s.concurrentReplies.length + 1 < 2 ^ 32 := by
  rcases h with ⟨h1, h2⟩ | ⟨-, h⟩
  · omega
  · simp [h]

omit [NeZero CAP] in
/-- Fewer reservations fit as well. -/
theorem Fits.shrink (h : s.Fits) (hw : t.recvWindow = s.recvWindow)
    (hr : t.concurrentReplies.Subperm s.concurrentReplies) : t.Fits := by
  rcases h with ⟨h1, h2⟩ | ⟨h1, h2⟩
  · have := hr.length_le
    exact .inl ⟨h1, by omega⟩
  · rw [h2] at hr
    exact .inr ⟨fun i => by rw [hw, h1], List.subperm_nil.mp hr⟩

/-- A packet is taken in only by a ring smaller than the number space. -/
theorem Fits.small (hC : ∃ e, CAP = 2 ^ e) (h : s.Fits) {c : Call S R} {n : SeqNo}
    {r : Option SeqNo} {b doPump : Bool} {d : R}
    (hin : s.input? c = some (.newWithData n r b d)) (hplaced : s.Placed c n b doPump t) :
    CAP < 2 ^ 32 := by
  have hstored (hc : c = .pump) : CAP < 2 ^ 32 := by
    subst hc
    rcases h with ⟨h1, -⟩ | ⟨h1, -⟩
    · exact h1
    · simp [input?, storedPacket?, h1] at hin
  cases hplaced with
  | next hnext =>
    rcases hnext with hc | ⟨-, hrange⟩
    · exact hstored hc
    · exact (hrange.lt_period hC).1
  | ahead _ hrange _ _ => exact (hrange.lt_period hC).1

/-- No call reserves more cells than there are. -/
theorem Fits.call (hC : ∃ e, CAP = 2 ^ e) (htwo : 2 ≤ CAP) (h : s.Fits) (c : Call S R) :
    (s.call c).2.Fits := by
  have heff := s.call_effect c
  generalize (s.call c).1 = a, (s.call c).2 = s' at heff ⊢
  cases heff with
  | reply _ r _ _ _ _ l hl s1 hs1 =>
    subst hs1
    exact h.shrink rfl ((List.sublist_cons_self r l).subperm.trans hl.symm.subperm)
  | ack r _ _ l hl =>
    exact h.shrink rfl ((List.sublist_cons_self r l).subperm.trans hl.symm.subperm)
  | hold n r b d _ _ hrange _ _ =>
    refine .inl ⟨(hrange.lt_period hC).1, ?_⟩
    rcases h with ⟨-, h2⟩ | ⟨-, h2⟩
    · exact h2
    · simpa [setRecvEntry, h2] using htwo
  | hand n r b d _ t hin hplaced hfull _ =>
    have hroom := ((isFullInner_eq_ok_iff h.length_lt).mp hfull).1
    refine .inl ⟨h.small hC hin hplaced, ?_⟩
    rw [handOver_replies, hplaced.frame.2.2.1, List.length_append, List.length_singleton]
    omega
  | resend _ _ hre _ _ _ => exact h.shrink hre.recvWindow (hre.replies ▸ List.Subperm.refl _)
  | idle _ _ => exact h
  | _ => exact h.shrink rfl (List.Subperm.refl _)

/-! ## The reserved cells -/

/-- The cell of the number that lies `i` ahead of the next one to send. -/
def sendCell (s : SeqEx S R CAP) (i : ℕ) : Fin CAP := cell CAP (s.nextSendSeqNo + UInt32.ofNat i)

omit [NeZero CAP] in
/-- No packet is pending in an empty cell. -/
theorem pending_eq_none {i : Fin CAP} : s.pending i = none ↔ s.sendWindow i = none :=
  Option.map_eq_none_iff

/-- Every outstanding reply number has an empty cell waiting for its reply. -/
def Reserved (s : SeqEx S R CAP) : Prop :=
  ∀ i < s.concurrentReplies.length, s.sendWindow (s.sendCell i) = none

/-- Some scanned cell is counted as free because the packet's reply number falls
into it, although it holds another packet. -/
def FalseExemption (s : SeqEx S R CAP) (p : Packet R) : Prop :=
  ∃ r ∈ p.replyNo?, ∃ i ≤ s.concurrentReplies.length, cell CAP r = s.sendCell i ∧
    ∃ e ∈ s.sendWindow (cell CAP r), e.seqNo ≠ r

/-- The call processes no packet under a false exemption. -/
def NoFalseExemption (s : SeqEx S R CAP) (c : Call S R) : Prop :=
  ∀ p ∈ s.input? c, s.Processes c p → ¬ s.FalseExemption p

/-- A false exemption is recognised from the state and the packet. -/
instance (s : SeqEx S R CAP) (p : Packet R) : Decidable (s.FalseExemption p) :=
  inferInstanceAs (Decidable (∃ r ∈ p.replyNo?, _))

/-- The packet that a call takes in is known before the call. -/
instance [DecidableEq R] (s : SeqEx S R CAP) (c : Call S R) : Decidable (s.NoFalseExemption c) :=
  inferInstanceAs (Decidable (∀ p ∈ s.input? c, _))

/-- The next numbers of a period have different cells. -/
theorem sendCell_inj (hC : ∃ e, CAP = 2 ^ e) {i j : ℕ} (hi : i < period CAP) (hj : j < period CAP)
    (h : s.sendCell i = s.sendCell j) : i = j := by
  have hmod := (cell_number_eq_iff hC s.nextSendSeqNo i j).mp h
  rcases Nat.le_total i j with hle | hle
  · exact eq_of_modEq_of_lt hmod hle (by omega)
  · exact (eq_of_modEq_of_lt hmod.symm hle (by omega)).symm

/-- After a packet is sent the cells ahead are one step nearer. -/
theorem insertEntry_sendCell (time : Int64) (r : Option SeqNo) (b : Bool) (d : S) (i : ℕ) :
    (s.insertEntry time r b d).2.sendCell i = s.sendCell (i + 1) := by
  have hnext : (s.insertEntry time r b d).2.nextSendSeqNo = s.nextSendSeqNo + 1 := rfl
  rw [sendCell, sendCell, hnext, Nat.add_comm, UInt32.ofNat_add]
  simp [UInt32.add_assoc]

/-- Inserting uses the first reserved cell up. -/
theorem Reserved.insert (hC : ∃ e, CAP = 2 ^ e) (time : Int64) (r : Option SeqNo) (b : Bool) (d : S)
    (hlen : s.concurrentReplies.length + 1 < period CAP)
    (hfree : ∀ i ≤ s.concurrentReplies.length, s.sendWindow (s.sendCell i) = none) :
    (s.insertEntry time r b d).2.Reserved := by
  intro i hi
  have hi' : i < s.concurrentReplies.length := hi
  have hne : s.sendCell (i + 1) ≠ s.sendCell 0 := fun h => by
    have := sendCell_inj hC (by omega) (by omega) h
    omega
  have hzero : s.sendCell 0 = cell CAP s.nextSendSeqNo := by simp [sendCell]
  rw [← pending_eq_none, insertEntry_sendCell, insertEntry_pending, ← hzero,
    Function.update_of_ne hne, pending_eq_none]
  exact hfree (i + 1) (by omega)

/-- Passing the fullness test means that the scanned cells are empty, but for a
packet in the cell of the reply number. -/
theorem free_of_isFullInner (hlen : s.concurrentReplies.length + 1 < 2 ^ 32) {r : Option SeqNo}
    (hfull : s.isFullInner r = .ok ()) :
    ∀ i ≤ s.concurrentReplies.length,
      s.sendWindow (s.sendCell i) = none ∨ ∃ r' ∈ r, cell CAP r' = s.sendCell i := by
  intro i hi
  have hblocked := ((isFullInner_eq_ok_iff hlen).mp hfull).2 i hi
  simp only [isBlockedAt, Bool.and_eq_false_iff, Option.isSome_eq_false_iff,
    Option.isNone_iff_eq_none, bne_eq_false_iff_eq, Option.map_eq_some_iff] at hblocked
  exact hblocked

/-- When a fresh packet may be sent, the cells that replies need are free. -/
theorem free_of_isFullInner_none (hlen : s.concurrentReplies.length + 1 < 2 ^ 32)
    (hfull : s.isFullInner none = .ok ()) :
    ∀ i ≤ s.concurrentReplies.length, s.sendWindow (s.sendCell i) = none :=
  fun i hi => (free_of_isFullInner hlen hfull i hi).resolve_right (by simp)

/-- A handed-over packet that was not falsely exempted leaves a free cell for
each reservation, its own included. -/
theorem handOver_free {n : SeqNo} {r : Option SeqNo} {b : Bool} {d : R}
    (hwin : t.sendWindow = s.sendWindow) (hlen : s.concurrentReplies.length + 1 < 2 ^ 32)
    (hfull : s.isFullInner r = .ok ()) (hexempt : ¬ s.FalseExemption (.newWithData n r b d)) :
    ∀ i ≤ s.concurrentReplies.length,
      (t.handOver n r b d).2.sendWindow (s.sendCell i) = none := by
  intro i hi
  have hfree := free_of_isFullInner hlen hfull i hi
  have hmatch {r' : SeqNo} {e : SendEntry S} (hr' : r' ∈ r) (hc : cell CAP r' = s.sendCell i)
      (he : s.sendWindow (cell CAP r') = some e) : e.seqNo = r' := by
    by_contra hne
    exact hexempt ⟨r', by simpa using hr', i, hi, hc, e, he, hne⟩
  rcases t.handOver_cases n r b d with ⟨r', e, hr', he, -, ht⟩ | ⟨hnone, ht⟩
  · rw [ht]
    dsimp only
    by_cases hc : s.sendCell i = cell CAP r'
    · rw [hc, Function.update_self]
    · rw [Function.update_of_ne hc]
      show t.sendWindow _ = none
      rw [hwin]
      refine hfree.resolve_right ?_
      rintro ⟨r'', hr'', hc'⟩
      rw [hr'] at hr''
      cases hr''
      exact hc hc'.symm
  · rw [ht]
    show t.sendWindow _ = none
    rw [hwin]
    rcases hfree with hfree | ⟨r', hr', hc⟩
    · exact hfree
    · rw [← hc]
      cases he : s.sendWindow (cell CAP r') with
      | none => rfl
      | some e => exact absurd (hmatch hr' hc he) (hnone r' e hr' (hwin ▸ he))

/-- Every call that processes no packet under a false exemption keeps the
reserved cells empty. -/
theorem Reserved.call (hC : ∃ e, CAP = 2 ^ e) (htwo : 2 ≤ CAP) (hfits : s.Fits) (h : s.Reserved)
    (c : Call S R) (hc : s.NoFalseExemption c) : (s.call c).2.Reserved := by
  have hlen := hfits.length_lt
  have hperiod : s.concurrentReplies.length + 2 ≤ period CAP := by
    unfold period
    rcases hfits with ⟨h1, h2⟩ | ⟨-, h2⟩
    · omega
    · simp only [h2, List.length_nil]
      omega
  have heff := s.call_effect c
  generalize (s.call c).1 = a, (s.call c).2 = s' at heff ⊢
  cases heff with
  | send time b f _ hfull =>
    refine Reserved.insert hC time none b _ (by omega) fun i hi => ?_
    exact free_of_isFullInner_none hlen hfull i hi
  | reply time r u b d _ l hl s1 hs1 =>
    have hlen' : s.concurrentReplies.length = l.length + 1 := hl.length_eq
    subst hs1
    exact Reserved.insert hC time (some r) b d (by dsimp only; omega)
      fun i hi => h i (by dsimp only at hi; omega)
  | ack r u _ l hl =>
    have hlen' : s.concurrentReplies.length = l.length + 1 := hl.length_eq
    exact fun i hi => h i (by dsimp only at hi; omega)
  | heed r _ e _ _ =>
    intro i hi
    have hfree := h i hi
    by_cases hcell : s.sendCell i = cell CAP r
    · exact (congrArg _ hcell).trans (Function.update_self ..)
    · exact (Function.update_of_ne hcell _ _).trans hfree
  | hand n r b d _ t hin hplaced hfull hlock =>
    obtain ⟨hwin, hnext, hreplies, -⟩ := hplaced.frame
    have hexempt : ¬ s.FalseExemption (.newWithData n r b d) :=
      hc _ hin (hplaced.processes hin hfull hlock)
    intro i hi
    rw [handOver_replies, hreplies, List.length_append, List.length_singleton] at hi
    have hcell : (t.handOver n r b d).2.sendCell i = s.sendCell i := by
      rw [sendCell, sendCell, (t.handOver_send n r b d).1, hnext]
    rw [hcell]
    exact handOver_free hwin hlen hfull hexempt i (by omega)
  | resend _ _ hre _ _ _ =>
    intro i hi
    rw [hre.replies] at hi
    rw [← pending_eq_none, hre.pending, sendCell, hre.nextSend, pending_eq_none]
    exact h i hi
  | _ => exact h

/-- A packet processed under a false exemption is left without a free cell. -/
theorem Processes.not_reserved {c : Call S R} {p : Packet R} (hp : s.Processes c p)
    (hexempt : s.FalseExemption p) : ¬ (s.call c).2.Reserved := by
  obtain ⟨n, r, b, d, doPump, t, rfl, hplaced, hcall⟩ := hp.hand
  obtain ⟨r', hr', i, hi, hcell, e, he, hne⟩ := hexempt
  obtain ⟨hwin, hnext, hreplies, -⟩ := hplaced.frame
  rw [Packet.replyNo?_newWithData] at hr'
  rw [hcall]
  intro hreserved
  have hi' : i < (t.handOver n r b d).2.concurrentReplies.length := by
    rw [handOver_replies, hreplies, List.length_append, List.length_singleton]
    omega
  have hfree := hreserved i hi'
  rw [sendCell, (t.handOver_send n r b d).1, hnext, ← sendCell, ← hcell] at hfree
  rcases t.handOver_cases n r b d with ⟨r'', e', hr'', he', heq, -⟩ | ⟨-, ht⟩
  · -- a paired packet frees the cell of its own reply number only
    rw [hr''] at hr'
    cases hr'
    rw [hwin, he] at he'
    cases he'
    exact hne heq
  · rw [ht] at hfree
    have hwindow : t.sendWindow (cell CAP r') = none := hfree
    rw [hwin, he] at hwindow
    cases hwindow

/-! ## Unacknowledged data -/

end SeqEx

/-- The data a call hands back to the application. -/
def Answer.handedBack : Answer S R → Option S
  | .received (.ack d) _ | .received (.reply _ _ _ d) _
  | .pumped (.ack d) _ | .pumped (.reply _ _ _ d) _ => some d
  | _ => none

namespace SeqEx

variable {s t : SeqEx S R CAP}

/-- Inserting into an empty cell keeps every entry. -/
theorem pending_insert {time : Int64} {r : Option SeqNo} {b : Bool} {d : S} {i : Fin CAP}
    {p : Packet S} (hfree : s.sendWindow (s.sendCell 0) = none) (hp : s.pending i = some p) :
    (s.insertEntry time r b d).2.pending i = some p := by
  have hzero : s.sendCell 0 = cell CAP s.nextSendSeqNo := by simp [sendCell]
  have hne : i ≠ cell CAP s.nextSendSeqNo := by
    rintro rfl
    rw [← hzero, pending_eq_none.mpr hfree] at hp
    cases hp
  rwa [insertEntry_pending, Function.update_of_ne hne]

/-- With the reserved cells empty, no call loses an entry of the send window:
it stays, or its data is handed back. -/
theorem Reserved.kept (hlen : s.concurrentReplies.length + 1 < 2 ^ 32) (h : s.Reserved)
    (c : Call S R) {i : Fin CAP} {p : Packet S} (hp : s.pending i = some p) :
    (s.call c).2.pending i = some p ∨ ∃ d ∈ p.payload?, (s.call c).1.handedBack = some d := by
  have hgone {j : Fin CAP} {e : SendEntry S} (he : s.sendWindow j = some e) {u : SeqEx S R CAP}
      (hu : u.sendWindow = Function.update s.sendWindow j none) :
      u.pending i = some p ∨ p.payload? = some e.data := by
    rw [pending_remove hu]
    by_cases hij : i = j
    · subst hij
      rw [pending, he] at hp
      cases hp
      exact .inr e.payload?_toPacket
    · rw [Function.update_of_ne hij]
      exact .inl hp
  have heff := s.call_effect c
  generalize (s.call c).1 = a, (s.call c).2 = s' at heff ⊢
  cases heff with
  | send time b f _ hfull =>
    have hfree := free_of_isFullInner_none hlen hfull 0 (Nat.zero_le _)
    exact .inl (pending_insert hfree hp)
  | reply time r u b d _ l hl s1 hs1 =>
    have hlen' : s.concurrentReplies.length = l.length + 1 := hl.length_eq
    subst hs1
    exact .inl (pending_insert (h 0 (by omega)) hp)
  | heed r _ e he _ => exact (hgone he rfl).imp_right fun hd => ⟨e.data, hd, rfl⟩
  | hand n r b d doPump t _ hplaced _ _ =>
    obtain ⟨hwin, -, -, -⟩ := hplaced.frame
    rcases t.handOver_cases n r b d with ⟨r', e, -, he, -, ht⟩ | ⟨-, ht⟩
    · rw [ht]
      rw [hwin] at he
      refine (hgone he (by rw [← hwin])).imp_right fun hd => ⟨e.data, hd, ?_⟩
      cases c <;> rfl
    · rw [ht]
      exact .inl (pending_congr (t := t.reserve n b) hwin ▸ hp)
  | resend _ _ hre _ _ _ => exact .inl (hre.pending ▸ hp)
  | _ => exact .inl hp

/-! ## Whole runs -/

/-- Along every run in which no packet is processed under a false exemption, with
arbitrary packets, each outstanding reply number has an empty cell of the send
window, returning it succeeds and writes into an empty cell, and no call loses
unacknowledged data. The first packet processed under a false exemption takes a
reserved cell away. -/
theorem reply_never_fails (hC : ∃ e ≥ 2, CAP = 2 ^ e) (interval : Int64) (initialSeqNo : SeqNo)
    {s : SeqEx S R CAP}
    (hrun : Reaches (fun (u : SeqEx S R CAP) c => u.NoFalseExemption c) (fun u c => (u.call c).2)
      (SeqEx.new interval initialSeqNo) s) :
    (∀ i < s.concurrentReplies.length, s.sendWindow (s.sendCell i) = none) ∧
      (∀ r ∈ s.concurrentReplies, s.sendWindow (cell CAP s.nextSendSeqNo) = none ∧
        ∀ t u b d, ∃ p, (s.replyRawAndDirect t r u b d).1 = some p) ∧
      (∀ c i p, s.pending i = some p → (s.call c).2.pending i = some p ∨
        ∃ d ∈ p.payload?, (s.call c).1.handedBack = some d) ∧
      ∀ c, s.NoFalseExemption c ↔ (s.call c).2.Reserved := by
  obtain ⟨e, he, rfl⟩ := hC
  have hC : ∃ k, 2 ^ e = 2 ^ k := ⟨e, rfl⟩
  have htwo : 2 ≤ 2 ^ e := le_trans (by decide) (Nat.pow_le_pow_right (by decide) he)
  have hinv : s.Fits ∧ s.Reserved := by
    refine hrun.invariant (I := fun u => u.Fits ∧ u.Reserved) ⟨Fits.start _ _, nofun⟩ ?_
    exact fun u c _ hu hc => ⟨hu.1.call hC htwo c, hu.2.call hC htwo hu.1 c hc⟩
  obtain ⟨hfits, hreserved⟩ := hinv
  refine ⟨hreserved, fun r hr => ⟨?_, fun t u b d => ?_⟩,
    fun c i p hp => hreserved.kept hfits.length_lt c hp,
    fun c => ⟨hreserved.call hC htwo hfits c, fun h p _ hp hexempt => hp.not_reserved hexempt h⟩⟩
  · have hzero : s.sendCell 0 = cell (2 ^ e) s.nextSendSeqNo := by simp [sendCell]
    rw [← hzero]
    exact hreserved 0 (List.length_pos_of_mem hr)
  · obtain ⟨l, -, hl⟩ := removeReservation_of_mem hr
    unfold replyRawAndDirect
    rw [hl]
    exact ⟨_, rfl⟩

/-- Two packets are sent and two replies to them taken in. -/
def answeredCalls : List (Call ℕ ℕ) :=
  [.trySend 0 false fun _ => 70, .trySend 0 false fun _ => 71, .receive (.reply 0 0 80),
    .receive (.reply 1 1 81), .ack 0 false]

/-- The endpoint after these calls. -/
def answered : SeqEx ℕ ℕ CAP := answeredCalls.foldl (fun u c => (u.call c).2) (SeqEx.new 100 0)

/-- The reply that is still owed does not fail. -/
theorem reply_never_fails_answered :
    (answered : SeqEx ℕ ℕ 4).concurrentReplies = [1] ∧
      ∃ p, ((answered : SeqEx ℕ ℕ 4).replyRawAndDirect 0 1 false false 90).1 = some p :=
  have h := reply_never_fails ⟨2, le_rfl, rfl⟩ 100 0
    (Allowed.reaches (l := answeredCalls) (by decide))
  ⟨by decide, (h.2.1 1 (by decide)).2 0 false false 90⟩

/-- Four packets are sent, then a reply to number 8 arrives, which was not sent
and shares the cell of number 4. -/
def forged : List (Call ℕ ℕ) :=
  [.trySend 0 false fun _ => 70, .trySend 0 false fun _ => 71, .trySend 0 false fun _ => 72,
    .trySend 0 false fun _ => 73, .receive (.reply 0 8 80)]

/-- The reply number 0 is issued although the cell of its reply is taken, and
the reply overwrites the unacknowledged packet there. -/
theorem forged_reply_overwrites :
    ∃ s : SeqEx ℕ ℕ 4,
      Reaches (fun _ _ => True) (fun u c => (u.call c).2) (SeqEx.new 100 0) s ∧
        s.concurrentReplies = [0] ∧ (s.pending (s.sendCell 0)) = some (.payload 0 70) ∧
        (s.call (.reply 0 0 false false 90)).2.pending (s.sendCell 0) = some (.reply 4 0 90) ∧
        (s.call (.reply 0 0 false false 90)).1.handedBack = none :=
  ⟨_, Allowed.reaches (l := forged) (by decide), by decide, by decide, by decide, by decide⟩

end SeqEx

end SequentialExchange
