import SequentialExchange.TokioCustody

/-!
# Pumping for the futures that receive

The loop over `try_pump_raw` takes stored packets out of the window and gives each
to the future that waits for it, or for the reply that it is. It keeps the other
futures, unless it pumps a reply for another future than that of its own packet.
-/

namespace SequentialExchange.Tokio

open WrapNumbering GuardedRuns
open Sync (ReplyGuard)

variable {S R : Type*} {CAP : ℕ} {packets : ℕ → Option (Packet R)} {bound : ℕ}
  {w w' : Work S R CAP}

/-! ## Packets that leave the windows -/

/-- The packet in this cell leaves the receive window, and packets may leave the send
window. -/
structure Frees (q q' : SeqEx (Sender S) (Receiver R) CAP) (i₀ : Fin CAP) : Prop where
  stored : ∀ i n r b d, q'.recvWindow i = .occupied n r b d ↔
    q.recvWindow i = .occupied n r b d ∧ i ≠ i₀
  sent : ∀ chan, SentOn q' chan → SentOn q chan

section Frees

variable {q q' : SeqEx (Sender S) (Receiver R) CAP} {i₀ : Fin CAP} {tasks tasks' : List (Task S R)}

/-- Oneshots that leave a window leave it for good. -/
theorem Custody.frees (h : Custody packets bound ⟨q, tasks⟩) (hf : Frees q q' i₀) :
    Custody packets bound ⟨q', tasks⟩ :=
  h.windows (fun chan hchan => h.sent chan (hf.sent chan hchan)) fun i n r b d hw =>
    ((hf.stored i n r b d).mp hw).1

/-- Freeing a cell lets go of a oneshot exactly when a future waits at it. -/
theorem Frees.kept_iff (hf : Frees q q' i₀) (h : Custody packets bound ⟨q, tasks⟩)
    (hsame : ∀ chan, awaited tasks' chan = true ↔ awaited tasks chan = true) :
    Kept ⟨q', tasks'⟩ ↔ Kept ⟨q, tasks⟩ ∧ Work.waitedAt ⟨q, tasks⟩ i₀ = false := by
  constructor
  · intro hkept
    refine ⟨fun chan hchan => ?_, eq_false_of_ne_true fun hwaited => ?_⟩
    · obtain ⟨i, n, r, b, d, hw⟩ := hkept chan ((hsame chan).mpr hchan)
      exact ⟨i, n, r, b, d, ((hf.stored _ _ _ _ _).mp hw).1⟩
    · obtain ⟨n, r, b, chan, d, hw, hchan⟩ := Work.waitedAt_iff.mp hwaited
      obtain ⟨i, n', r', b', d', hw'⟩ := hkept chan ((hsame chan).mpr hchan)
      obtain ⟨hw'', hne⟩ := (hf.stored _ _ _ _ _).mp hw'
      exact hne (h.once _ _ _ _ _ _ _ _ _ _ _ hw'' hw)
  · rintro ⟨hkept, hnot⟩ chan hchan
    obtain ⟨i, n, r, b, d, hw⟩ := hkept chan ((hsame chan).mp hchan)
    refine ⟨i, n, r, b, d, (hf.stored _ _ _ _ _).mpr ⟨hw, ?_⟩⟩
    rintro rfl
    rw [Work.waitedAt_iff.mpr ⟨n, r, b, chan, d, hw, (hsame chan).mp hchan⟩] at hnot
    cases hnot

/-- Nothing is let go of when the packet goes to the future that waits for it. -/
theorem Frees.kept_iff_of_occupied (hf : Frees q q' i₀) {n : SeqNo} {r : Option SeqNo} {b : Bool}
    {chan : ℕ} {d : R} (hw : q.recvWindow i₀ = .occupied n r b (chan, d))
    (hends : ∀ c, awaited tasks' c = true ↔ awaited tasks c = true ∧ c ≠ chan) :
    Kept ⟨q', tasks'⟩ ↔ Kept ⟨q, tasks⟩ := by
  constructor
  · intro hkept c hc
    rcases eq_or_ne c chan with rfl | hne
    · exact ⟨i₀, n, r, b, d, hw⟩
    · obtain ⟨i, n', r', b', d', hw'⟩ := hkept c ((hends c).mpr ⟨hc, hne⟩)
      exact ⟨i, n', r', b', d', ((hf.stored _ _ _ _ _).mp hw').1⟩
  · intro hkept c hc
    obtain ⟨hc, hne⟩ := (hends c).mp hc
    obtain ⟨i, n', r', b', d', hw'⟩ := hkept c hc
    refine ⟨i, n', r', b', d', (hf.stored _ _ _ _ _).mpr ⟨hw', ?_⟩⟩
    rintro rfl
    change q.recvWindow i = _ at hw'
    rw [hw] at hw'
    cases hw'
    exact hne rfl

variable [NeZero CAP]

/-- A packet that is handed over at the cursor. -/
theorem frees_next {P : Type*} (q : SeqEx (Sender S) (Receiver R) CAP) (m n : SeqNo)
    (r : Option SeqNo) (b : Bool) (d : P) :
    Frees q ((q.advance m).2.handOver n r b d).2 (cell CAP m) where
  stored i n' r' b' d' := by
    rw [(SeqEx.handOver_receive _ n r b d).2]
    constructor
    · intro hw
      refine ⟨SeqEx.advance_occupied hw, ?_⟩
      rintro rfl
      have hset : (q.setRecvEntry m .empty).recvWindow (cell CAP m) = .occupied n' r' b' d' :=
        SeqEx.fastForwardLoop_occupied hw
      simp at hset
    · rintro ⟨hw, hne⟩
      refine SeqEx.fastForwardLoop_keeps ?_
      show (q.setRecvEntry m .empty).recvWindow i = _
      rw [SeqEx.setRecvEntry_recvWindow, Function.update_of_ne hne, hw]
  sent _ h := h.of_pending (SeqEx.handOver_send n r b d).2

/-- A packet that is handed over ahead of the cursor. -/
theorem frees_ahead {P : Type*} (q : SeqEx (Sender S) (Receiver R) CAP) (n : SeqNo)
    (r : Option SeqNo) (b : Bool) (d : P) :
    Frees q ((q.setRecvEntry n (.unlocked n)).handOver n r b d).2 (cell CAP n) where
  stored i n' r' b' d' := by
    rw [(SeqEx.handOver_receive _ n r b d).2, SeqEx.setRecvEntry_recvWindow]
    by_cases hi : i = cell CAP n
    · subst hi
      simp
    · simp [hi]
  sent _ h := h.of_pending (SeqEx.handOver_send n r b d).2

/-- A reply is paired with a packet of the send window, anything else with none. -/
theorem handOver_pairs {P : Type*} (q : SeqEx (Sender S) (Receiver R) CAP) (n : SeqNo)
    (r : Option SeqNo) (b : Bool) (d : P) :
    (∃ m ∈ r, ∃ e ∈ q.sendWindow (cell CAP m), e.seqNo = m ∧
        (q.handOver n r b d).1 = .reply n b d e.data) ∨
      ((¬ ∃ m ∈ r, ∃ e ∈ q.sendWindow (cell CAP m), e.seqNo = m) ∧
        (q.handOver n r b d).1 = .payload n b d) := by
  rcases q.handOver_cases n r b d with ⟨m, e, rfl, he, hm, hcall⟩ | ⟨hno, hcall⟩
  · rw [hcall]
    exact .inl ⟨m, rfl, e, he, hm, rfl⟩
  · rw [hcall]
    refine .inr ⟨?_, rfl⟩
    rintro ⟨m, hr, e, he, hm⟩
    exact hno m e hr he hm

end Frees

/-! ## The loop over `try_pump_raw` -/

section Pump

/-- The oneshot of an entry. -/
theorem SentOn.of_entry {q : SeqEx (Sender S) (Receiver R) CAP} {i : Fin CAP}
    {e : SendEntry (Sender S)} (h : q.sendWindow i = some e) : SentOn q e.data.1 := ⟨i, e, h, rfl⟩

variable [NeZero CAP]

/-- Sending to a future changes what the futures have, and no window. -/
theorem hand_kept (w : Work S R CAP) (chan : ℕ) (mail : Mail R)
    (h : Custody packets bound ⟨w.seq, posted chan (some mail) w.tasks⟩) :
    Custody packets bound (w.hand chan mail) ∧
      (Kept (w.hand chan mail) ↔ Kept ⟨w.seq, posted chan (some mail) w.tasks⟩) ∧
      ∀ c, receives (w.hand chan mail).tasks c = receives w.tasks c := by
  obtain ⟨hrecv, hsend⟩ := w.hand_windows chan mail
  have htasks := hand_tasks w chan mail
  generalize w.hand chan mail = w' at hrecv hsend htasks ⊢
  obtain ⟨q, tasks⟩ := w'
  subst htasks
  dsimp only at hrecv hsend
  refine ⟨h.windows (fun c hc => h.sent c ?_) fun i n r b d hw => ?_, ?_, fun c => ?_⟩
  · exact hc.of_pending fun i p hp => by rwa [SeqEx.pending_congr hsend] at hp
  · rwa [hrecv] at hw
  · simp only [Kept, StoredOn, hrecv]
  · exact receives_posted ..

/-- A pumped packet goes to its own future or, paired, to the one that waits for it. -/
theorem pump_dispatch (h : Custody packets bound w) {ok : RecvOkRaw (Sender S) (Receiver R)}
    {doPump : Bool} (hok : w.seq.tryPumpRaw.1 = .ok (ok, doPump)) :
    Custody packets bound ({ w with seq := w.seq.tryPumpRaw.2 }.dispatch ok) ∧
      (Kept ({ w with seq := w.seq.tryPumpRaw.2 }.dispatch ok) ↔ Kept w ∧ ¬ w.Unseats) ∧
      ∀ chan, receives ({ w with seq := w.seq.tryPumpRaw.2 }.dispatch ok).tasks chan =
        receives w.tasks chan := by
  have hpump := w.seq.tryPumpRaw_cases
  generalize w.seq.tryPumpRaw = res at hpump hok ⊢
  cases hpump with
  | nothing _ => cases hok
  | full _ _ _ _ _ _ _ => cases hok
  | locked _ _ _ _ _ _ => cases hok
  | next n r b data hcell hfull hlock =>
    obtain ⟨chan, d⟩ := data
    have hfrees := frees_next w.seq w.seq.nextRecvSeqNo n r b (chan, d)
    have hstored : w.seq.storedPacket? = some (.newWithData n r b (chan, d)) := by
      rw [SeqEx.storedPacket?, hcell]
    obtain ⟨hlt, hpacket⟩ := h.stored _ n r b chan d hcell
    have hfreed := h.frees hfrees
    cases hok
    rcases handOver_pairs (w.seq.advance w.seq.nextRecvSeqNo).2 n r b (chan, d) with
      ⟨m, hm, e, he, hnum, hres⟩ | ⟨hno, hres⟩
    · -- the reply goes to another future
      rw [hres]
      obtain ⟨hposted, hsame⟩ := hfreed.post_other
        (h.sent _ (SentOn.of_entry (Option.mem_def.mp he))).2 (some ⟨n, b, d⟩)
      obtain ⟨hcustody, hkept, hreceives⟩ := hand_kept _ _ _ hposted
      refine ⟨hcustody, hkept.trans ((hfrees.kept_iff h hsame).trans ?_), hreceives⟩
      refine and_congr_right fun _ => ?_
      rw [← Bool.not_eq_true, not_iff_not]
      exact ⟨fun hwaited => ⟨hwaited, _, hstored, by simpa using hfull, by simpa using hlock, m,
        by simpa using hm, e, he, hnum⟩, And.left⟩
    · -- the packet goes to its own future
      rw [hres]
      have hposted : Custody packets bound ⟨_, posted chan (some ⟨n, b, d⟩) w.tasks⟩ :=
        hfreed.post fun _ => ⟨n, r, b, d, hpacket, rfl⟩
      obtain ⟨hcustody, hkept, hreceives⟩ := hand_kept _ _ _ hposted
      have hends := awaited_posted h.nodup chan (some ⟨n, b, d⟩)
      refine ⟨hcustody, hkept.trans ((hfrees.kept_iff_of_occupied hcell hends).trans ?_),
        hreceives⟩
      refine (and_iff_left ?_).symm
      rintro ⟨-, p, hp, -, -, m, hm, e, he, hnum⟩
      rw [hstored, Option.mem_some_iff] at hp
      subst hp
      exact hno ⟨m, by simpa using hm, e, he, hnum⟩

/-- A pump that fails changes nothing and unseats nobody. -/
theorem pump_refused {e : TryError} (hres : w.seq.tryPumpRaw.1 = .error e) :
    w.seq.tryPumpRaw.2 = w.seq ∧ ¬ w.Unseats := by
  have hpump := w.seq.tryPumpRaw_cases
  generalize w.seq.tryPumpRaw = res at hpump hres ⊢
  cases hpump with
  | nothing hcell =>
    refine ⟨rfl, ?_⟩
    rintro ⟨hwaited, -⟩
    obtain ⟨n, r, b, chan, d, hw, -⟩ := Work.waitedAt_iff.mp hwaited
    exact hcell _ _ _ _ hw
  | full n r b d e hcell hfull =>
    refine ⟨rfl, ?_⟩
    rintro ⟨-, p, hp, hfull', -⟩
    rw [SeqEx.storedPacket?, hcell, Option.mem_some_iff] at hp
    subst hp
    simp [hfull] at hfull'
  | locked n r d hcell hfull hlock =>
    refine ⟨rfl, ?_⟩
    rintro ⟨-, p, hp, -, hunlocked, -⟩
    rw [SeqEx.storedPacket?, hcell, Option.mem_some_iff] at hp
    subst hp
    rw [hunlocked (by simp)] at hlock
    cases hlock
  | next _ _ _ _ _ _ _ => cases hres

/-- The loop lets go of no oneshot exactly when no pump of it does. -/
theorem pumpLoop_kept (fuel : ℕ) (h : Custody packets bound w) :
    Custody packets bound (Work.pumpLoop fuel w).2 ∧
      (Kept (Work.pumpLoop fuel w).2 ↔ Kept w ∧ ∀ u ∈ Work.pumpStates fuel w, ¬ u.Unseats) ∧
      ∀ chan, receives (Work.pumpLoop fuel w).2.tasks chan = receives w.tasks chan := by
  induction fuel generalizing w with
  | zero => exact ⟨h, by simp [Work.pumpStates, Work.pumpLoop], fun _ => rfl⟩
  | succ fuel ih =>
    cases hok : w.seq.tryPumpRaw.1 with
    | error e =>
      have hloop : (Work.pumpLoop (fuel + 1) w).2 = { w with seq := w.seq.tryPumpRaw.2 } := by
        simp only [Work.pumpLoop, hok]
      have hstates : Work.pumpStates (fuel + 1) w = [w] := by simp only [Work.pumpStates, hok]
      obtain ⟨hseq, hseated⟩ := pump_refused hok
      rw [hloop, hstates, hseq]
      exact ⟨h, by simp [hseated], fun _ => rfl⟩
    | ok res =>
      obtain ⟨ok, doPump⟩ := res
      obtain ⟨hcustody, hkept, hreceives⟩ := pump_dispatch h hok
      cases doPump with
      | false =>
        have hloop : (Work.pumpLoop (fuel + 1) w).2 =
            { w with seq := w.seq.tryPumpRaw.2 }.dispatch ok := by
          simp only [Work.pumpLoop, hok, Bool.false_eq_true, if_false]
        have hstates : Work.pumpStates (fuel + 1) w = [w] := by simp only [Work.pumpStates, hok]
        rw [hloop, hstates, List.forall_mem_singleton]
        exact ⟨hcustody, hkept, hreceives⟩
      | true =>
        have hloop : (Work.pumpLoop (fuel + 1) w).2 =
            (Work.pumpLoop fuel ({ w with seq := w.seq.tryPumpRaw.2 }.dispatch ok)).2 := by
          simp only [Work.pumpLoop, hok, if_true]
        have hstates : Work.pumpStates (fuel + 1) w =
            w :: Work.pumpStates fuel ({ w with seq := w.seq.tryPumpRaw.2 }.dispatch ok) := by
          simp only [Work.pumpStates, hok]
        obtain ⟨hcustody', hkept', hreceives'⟩ := ih hcustody
        rw [hkept, and_assoc] at hkept'
        rw [hloop, hstates, List.forall_mem_cons]
        exact ⟨hcustody', hkept', fun c => (hreceives' c).trans (hreceives c)⟩

end Pump

end SequentialExchange.Tokio
