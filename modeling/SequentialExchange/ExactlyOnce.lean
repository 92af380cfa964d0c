import SequentialExchange.Reassembly

/-!
# At-most-once delivery

An endpoint hands each packet of its peer over at most once as long as no early
copy is processed: a copy of a normal packet that was handed over ahead of a
gap, arriving again while the gap is open and a reply number can be reserved.
`try_receive_raw_and_direct` looks at the marker of such a packet only when the
packet has to wait, so the early copy is handed over once more.
-/

namespace SequentialExchange

open WrapNumbering GuardedRuns

variable {S R : Type*}

/-! ## Numbers of the deliveries -/

section Endpoint

variable {CAP : ℕ} [NeZero CAP] {base : SeqNo} {s : SeqEx S R CAP} {sent : List (Packet S)}
  {encode : S → R} {h : History S R} {I : Intake}

/-- The delivered numbers are those of the positions in the log. -/
theorem Receives.deliveredNumbers_eq {CAP' : ℕ} [NeZero CAP'] {peer : SeqEx S R CAP'}
    (hr : Receives encode base sent s h I) (hs : Sends base peer sent) :
    h.deliveredNumbers = I.log.map (number base) := by
  have hlog := hr.log
  unfold History.deliveredNumbers
  generalize h.deliveries = ds, I.log = ks at hlog ⊢
  induction hlog with
  | nil => rfl
  | cons hk _ ih => simp [hs.wire_seqNo hk, ih]

/-- Below `2^31` packets the numbers repeat exactly when the positions do. -/
theorem Receives.nodup_iff {CAP' : ℕ} [NeZero CAP'] {peer : SeqEx S R CAP'}
    (hr : Receives encode base sent s h I) (hs : Sends base peer sent)
    (hcount : sent.length < 2 ^ 31) : h.deliveredNumbers.Nodup ↔ I.log.Nodup := by
  rw [hr.deliveredNumbers_eq hs]
  refine ⟨List.Nodup.of_map _, fun hn => hn.map_on fun j hj k hk hjk => ?_⟩
  have hj' := hr.lt_of_mem_log hj
  have hk' := hr.lt_of_mem_log hk
  exact (number_inj (by omega) (by omega)).mp hjk

/-- An early copy is handed over. -/
theorem SeqEx.EarlyCopy.received {p : Packet R} (hp : s.EarlyCopy p) :
    ∃ ok doPump, (s.call (.receive p)).1 = .received ok doPump ∧ ∀ d, ok ≠ .ack d := by
  obtain ⟨hb, n, hn, hrange, -, hfull⟩ := hp
  have hprocess : s.Processes (.receive p) p :=
    ⟨rfl, hfull, by simp [hb], .inr ⟨n, hn, hrange, by simp [hb]⟩⟩
  obtain ⟨n', r, b, d, doPump, t, -, -, hcall⟩ := hprocess.hand
  exact ⟨_, doPump, congrArg Prod.fst hcall, t.handOver_ne_ack n' r b d⟩

/-- The number of an early copy was delivered before. -/
theorem Receives.mem_of_earlyCopy {CAP' : ℕ} [NeZero CAP'] {peer : SeqEx S R CAP'}
    (hC : ∃ e, CAP = 2 ^ e) (hr : Receives encode base sent s h I) (hs : Sends base peer sent)
    {p : Packet R} (hp : s.EarlyCopy p) : ∃ n ∈ h.deliveredNumbers, p.seqNo? = some n := by
  obtain ⟨-, n, hn, hrange, hmarked, -⟩ := hp
  obtain ⟨k, hk1, hk2, -, rfl⟩ := hr.view.position hC hrange
  have hearly : k ∈ I.early := by
    rw [hr.view.marks.mem_iff hC hk1 hk2]
    unfold SeqEx.isMarked at hmarked
    split at hmarked
    · exact ⟨_, ‹_›⟩
    all_goals cases hmarked
  refine ⟨number base k, ?_, hn⟩
  rw [hr.deliveredNumbers_eq hs]
  exact List.mem_map_of_mem ((hr.sound.mem_log k).mpr (.inr hearly))

/-- Processing an early copy delivers a number again. -/
theorem Receives.earlyCopy_repeats {CAP' : ℕ} [NeZero CAP'] {peer : SeqEx S R CAP'}
    (hC : ∃ e, CAP = 2 ^ e) (hr : Receives encode base sent s h I) (hs : Sends base peer sent)
    {p : Packet R} (hp : s.EarlyCopy p) :
    ¬ (h.record (some p) (s.call (.receive p)).1).deliveredNumbers.Nodup := by
  obtain ⟨ok, doPump, hcall, hok⟩ := hp.received
  obtain ⟨n, hn, hseq⟩ := hr.mem_of_earlyCopy hC hs hp
  have hmore : (h.record (some p) (s.call (.receive p)).1).deliveredNumbers =
      h.deliveredNumbers ++ [n] := by
    rw [hcall, History.record_received, History.take_delivery hok]
    simp [History.deliveredNumbers, hseq]
  rw [hmore]
  exact fun hnodup => (List.nodup_append.mp hnodup).2.2 n hn n (List.mem_singleton_self n) rfl

/-- Every outstanding reply number is that of a delivery, whatever the packets. -/
theorem replies_subperm_call (c : Call S R)
    (hsub : s.concurrentReplies.Subperm h.deliveredNumbers) :
    (s.call c).2.concurrentReplies.Subperm
      (h.record (s.input? c) (s.call c).1).deliveredNumbers := by
  have heff := s.call_effect c
  generalize (s.call c).1 = a, (s.call c).2 = s' at heff ⊢
  have hreturn {r : SeqNo} {l : List SeqNo} (hl : s.concurrentReplies.Perm (r :: l)) :
      l.Subperm h.deliveredNumbers :=
    ((List.sublist_cons_self r l).subperm.trans hl.symm.subperm).trans hsub
  cases heff with
  | reply _ _ _ _ _ _ l hl s1 hs1 =>
    subst hs1
    exact hreturn hl
  | ack _ _ _ l hl => exact hreturn hl
  | heed r hc e _ _ =>
    subst hc
    exact hsub
  | hold _ _ _ _ _ _ _ _ hq =>
    rw [hq.2]
    exact hsub
  | hand n r b d _ t hin hplaced _ _ =>
    rw [hin, History.record_handing, History.take_delivery (t.handOver_ne_ack n r b d),
      SeqEx.handOver_replies, hplaced.frame.2.2.1]
    simpa [History.deliveredNumbers] using (List.subperm_append_right [n]).mpr hsub
  | resend _ _ hre _ hrec _ =>
    rw [hrec, hre.replies]
    exact hsub
  | idle _ hq =>
    rw [hq.2]
    exact hsub
  | _ => exact hsub

end Endpoint

/-! ## Sessions -/

namespace Session

variable {cap : Side → ℕ} [∀ x, NeZero (cap x)]

/-- Along every run in which `x` processes no early copy, and whose peer has
sent fewer than `2^31` packets, `x` hands no number over twice and its
outstanding reply numbers are distinct. The first early copy ends that. -/
theorem delivered_atMostOnce (x : Side) (hC : ∃ e ≥ 2, cap x = 2 ^ e) (encode : S → R)
    (interval : Side → Int64) (initialSeqNo : SeqNo) {s : Session S R cap}
    (hrun : Reaches (fun u e => u.Possible e ∧ u.NoEarlyCopy x e) (perform encode)
      (start interval initialSeqNo) s)
    (hcount : s.sentCount x.peer < 2 ^ 31) :
    (s.node x).history.deliveredNumbers.Nodup ∧
      (s.node x).seqEx.concurrentReplies.Nodup ∧
      ∀ p, (s.node x).seqEx.EarlyCopy p →
        ¬ ((s.perform encode (.call x (.receive p))).node x).history.deliveredNumbers.Nodup := by
  obtain ⟨e, -, hcap⟩ := hC
  have hpossible : ∀ (u : Session S R cap) e, u.Possible e ∧ u.NoEarlyCopy x e → u.Possible e :=
    fun _ _ h => h.1
  have hsends := (reaches_carries hpossible hrun x.peer).sends
  -- the positions handed over stay distinct
  obtain ⟨I, hI, hnodup⟩ := reaches_reassembles (Q := fun _ I => I.log.Nodup) ⟨e, hcap⟩ hpossible
    List.nodup_nil (fun _ _ _ _ _ _ h => h)
    (by
      intro u c I J _ hguard hI htakes hn
      cases htakes with
      | nothing hJ _ => exact hJ ▸ hn
      | position k d _ _ _ hdeliver hearly =>
        refine hI.sound.deliver_nodup hdeliver (fun hm => ?_) hn
        obtain ⟨rfl, hcopy⟩ := hearly hm
        exact hguard.2 rfl hcopy)
    hrun hcount
  have hdelivered : (s.node x).history.deliveredNumbers.Nodup :=
    (hI.nodup_iff hsends hcount).mpr hnodup
  -- outstanding reply numbers are among the delivered ones
  have hsub : (s.node x).seqEx.concurrentReplies.Subperm (s.node x).history.deliveredNumbers := by
    refine hrun.invariant (I := fun u : Session S R cap =>
      (u.node x).seqEx.concurrentReplies.Subperm (u.node x).history.deliveredNumbers)
      List.nil_subperm fun u e _ hu _ => ?_
    cases e with
    | lose y i => exact hu
    | call y c =>
      by_cases hy : x = y
      · subst hy
        rw [perform_node_self]
        exact replies_subperm_call c hu
      · rw [perform_node_ne hy]
        exact hu
  refine ⟨hdelivered, ?_, fun p hp => ?_⟩
  · obtain ⟨l, hl, hsublist⟩ := hsub
    exact hl.nodup_iff.mp (hdelivered.sublist hsublist)
  · rw [perform_node_self]
    exact hI.earlyCopy_repeats ⟨e, hcap⟩ hsends hp

/-- Two packets arrive in the wrong order, then the first one again. -/
def overtaking : List (Event ℕ ℕ) :=
  [.call .a (.trySend 0 false fun _ => 70), .call .a (.trySend 0 false fun _ => 71),
    .call .b (.receive (.payload 1 71)), .call .b (.receive (.payload 0 70)),
    .call .b (.receive (.payload 0 70))]

/-- The state after these events, for windows of four cells. -/
def afterOvertaking : Session ℕ ℕ fun _ => 4 :=
  overtaking.foldl (perform id) (start (fun _ => 100) 0)

/-- A packet that was overtaken is delivered once. -/
theorem delivered_atMostOnce_afterOvertaking :
    (afterOvertaking.node .b).history.deliveredNumbers = [1, 0] ∧
      (afterOvertaking.node .b).history.deliveredNumbers.Nodup ∧
      (afterOvertaking.node .b).seqEx.concurrentReplies.Nodup :=
  have h := delivered_atMostOnce .b ⟨2, le_rfl, rfl⟩ id (fun _ => 100) 0
    (Allowed.reaches (l := overtaking) (by decide)) (by decide)
  ⟨by decide, h.1, h.2.1⟩

/-- The packet that was handed over ahead of the gap arrives once more. -/
def repeated : List (Event ℕ ℕ) :=
  [.call .a (.trySend 0 false fun _ => 70), .call .a (.trySend 0 false fun _ => 71),
    .call .b (.receive (.payload 1 71)), .call .b (.receive (.payload 1 71))]

/-- A run of possible events delivers number 1 twice and then has it
outstanding twice. -/
theorem early_copy_delivered_twice :
    ∃ s : Session ℕ ℕ fun _ => 4, Reaches Possible (perform id) (start (fun _ => 100) 0) s ∧
      s.sentCount .a < 2 ^ 31 ∧ (s.node .b).history.deliveredNumbers = [1, 1] ∧
      ¬ (s.node .b).history.deliveredNumbers.Nodup ∧
      ¬ (s.node .b).seqEx.concurrentReplies.Nodup :=
  ⟨_, Allowed.reaches (l := repeated) (by decide), by decide, by decide, by decide, by decide⟩

end Session

end SequentialExchange
