import SequentialExchange.TokioPumped

/-!
# What a `receive` does to the other futures

A packet that comes in is stored together with a new oneshot, or it is handed over
and the window is pumped. The futures that receive keep their oneshots, unless the
packet takes the cell of a stored copy or the pump lets go of one.
-/

namespace SequentialExchange.Tokio

open WrapNumbering GuardedRuns
open Sync (ReplyGuard)

variable {S R : Type*} {CAP : ℕ} {packets : ℕ → Option (Packet R)} {bound : ℕ}
  {w w' : Work S R CAP}

/-! ## The section of a `receive` -/

section Receive

variable [NeZero CAP]

/-- A reply goes to the future that waits for it, and so does an acknowledgement. -/
def Work.settle (w : Work S R CAP) : RecvOkRaw (Sender S) R → Work S R CAP
  | .payload _ _ _ => w
  | .reply replyNo seqCst data (chan, _) => w.hand chan ⟨replyNo, seqCst, data⟩
  | .ack (chan, _) => w.endExchange chan

variable {q q' : SeqEx (Sender S) (Receiver R) CAP} {i₀ : Fin CAP}
  {tasks : List (Task S R)}

/-- A packet is handed over, and the window is pumped when the flag says so. -/
theorem Frees.pumped (hf : Frees q q' i₀) (h : Custody packets bound ⟨q, tasks⟩) (doPump : Bool) :
    Custody packets bound
        (if doPump then Work.pumpLoop (CAP + 1) ⟨q', tasks⟩ else (0, ⟨q', tasks⟩)).2 ∧
      (Kept (if doPump then Work.pumpLoop (CAP + 1) ⟨q', tasks⟩ else (0, ⟨q', tasks⟩)).2 ↔
        Kept ⟨q, tasks⟩ ∧ Work.waitedAt ⟨q, tasks⟩ i₀ = false ∧
          ∀ u ∈ if doPump then Work.pumpStates (CAP + 1) ⟨q', tasks⟩ else [], ¬ u.Unseats) ∧
      ∀ chan, receives
          (if doPump then Work.pumpLoop (CAP + 1) ⟨q', tasks⟩ else (0, ⟨q', tasks⟩)).2.tasks chan =
        receives tasks chan := by
  have hfreed := h.frees hf
  have hkept := hf.kept_iff h fun _ => .rfl
  cases doPump with
  | false => exact ⟨hfreed, by simpa using hkept, fun _ => rfl⟩
  | true =>
    obtain ⟨hcustody, hpumped, hreceives⟩ := pumpLoop_kept (CAP + 1) hfreed
    refine ⟨hcustody, hpumped.trans ?_, hreceives⟩
    rw [hkept, and_assoc]
    rfl

namespace SeqExInner

variable {i : SeqExInner S R CAP} {fresh : ℕ}

/-- After a packet that was accepted the loop runs if the flag says so. -/
theorem pumpStates_of_ok {packet : Packet R} {ok : RecvOkRaw (Sender S) R} {doPump : Bool}
    (h : (i.seq.tryReceiveRawAndDirect (fun data => (fresh, data)) packet).1 = .ok (ok, doPump)) :
    i.pumpStates tasks fresh packet = if doPump then Work.pumpStates (CAP + 1)
      ⟨(i.seq.tryReceiveRawAndDirect (fun data => (fresh, data)) packet).2, tasks⟩ else [] := by
  cases doPump <;> simp [pumpStates, h]

/-- What `receive_inner` does with a packet that is handed over. -/
theorem receiveInner_of_ok (tasks : List (Task S R)) {packet : Packet R}
    {ok : RecvOkRaw (Sender S) R} {doPump : Bool}
    (h : (i.seq.tryReceiveRawAndDirect (fun data => (fresh, data)) packet).1 = .ok (ok, doPump)) :
    ∃ u : Work S R CAP,
      u = (if doPump then Work.pumpLoop (CAP + 1)
        ⟨(i.seq.tryReceiveRawAndDirect (fun data => (fresh, data)) packet).2, tasks⟩
        else (0, ⟨(i.seq.tryReceiveRawAndDirect (fun data => (fresh, data)) packet).2,
          tasks⟩)).2 ∧
      Work.mk (i.receiveInner tasks fresh packet).1.inner.seq
          (i.receiveInner tasks fresh packet).2 =
        u.settle ok ∧
      ((i.receiveInner tasks fresh packet).1.result = .error (some .asyncReply) ∨
        ∃ ret, (i.receiveInner tasks fresh packet).1.result = .ok ret) := by
  refine ⟨_, rfl, ?_⟩
  simp only [receiveInner, h]
  cases ok with
  | payload n b d => exact ⟨rfl, .inr ⟨_, rfl⟩⟩
  | reply n b d e => exact ⟨rfl, .inl rfl⟩
  | ack e => exact ⟨rfl, .inl rfl⟩

end SeqExInner

/-- The future of a paired reply is not one of `receive`. -/
theorem Frees.handed {t : SeqEx (Sender S) (Receiver R) CAP} {n : SeqNo} {r : Option SeqNo}
    {b : Bool} {d : R} (hf : Frees q (t.handOver n r b d).2 i₀)
    (ht : t.sendWindow = q.sendWindow) (h : Custody packets bound ⟨q, tasks⟩) {doPump : Bool}
    {u v : Work S R CAP}
    (hu : u = (if doPump then Work.pumpLoop (CAP + 1) ⟨(t.handOver n r b d).2, tasks⟩
      else (0, ⟨(t.handOver n r b d).2, tasks⟩)).2)
    (hv : v = u.settle (t.handOver n r b d).1) :
    Custody packets bound v ∧
      (Kept v ↔ Kept ⟨q, tasks⟩ ∧ Work.waitedAt ⟨q, tasks⟩ i₀ = false ∧
        ∀ u ∈ if doPump then Work.pumpStates (CAP + 1) ⟨(t.handOver n r b d).2, tasks⟩ else [],
          ¬ u.Unseats) := by
  obtain ⟨hcustody, hkept, hreceives⟩ := hf.pumped h doPump
  rw [← hu] at hcustody hkept hreceives
  rcases handOver_pairs t n r b d with ⟨m, -, e, he, -, hres⟩ | ⟨-, hres⟩
  · rw [hres] at hv
    have hsent : SentOn q e.data.1 := ⟨_, e, ht ▸ Option.mem_def.mp he, rfl⟩
    have hnot : receives u.tasks e.data.1 = false := (hreceives _).trans (h.sent _ hsent).2
    obtain ⟨hposted, hsame⟩ := hcustody.post_other hnot (some ⟨n, b, d⟩)
    obtain ⟨hcustody', hkept', -⟩ := hand_kept u e.data.1 ⟨n, b, d⟩ hposted
    rw [hv]
    refine ⟨hcustody', hkept'.trans (Iff.trans ?_ hkept)⟩
    simp only [Kept, hsame]
  · rw [hres] at hv
    rw [hv]
    exact ⟨hcustody, hkept⟩

/-- An acknowledgement takes out its packet or is ignored. -/
theorem tryReceive_ack {P : Type*} (into : P → Receiver R) (q : SeqEx (Sender S) (Receiver R) CAP)
    (m : SeqNo) :
    (∃ e, q.sendWindow (cell CAP m) = some e ∧ q.tryReceiveRawAndDirect into (.ack m) =
      (.ok (.ack e.data, false),
        { q with sendWindow := Function.update q.sendWindow (cell CAP m) none })) ∨
      q.tryReceiveRawAndDirect into (.ack m) = (.error .droppedDuplicate, q) := by
  simp only [SeqEx.tryReceiveRawAndDirect]
  rcases q.takeSend_cases m with ⟨e, he, -, ht⟩ | ⟨-, ht⟩
  · rw [ht]
    exact .inl ⟨e, he, rfl⟩
  · rw [ht]
    exact .inr rfl

namespace SeqExInner

variable {i : SeqExInner S R CAP} {fresh : ℕ}

/-- A packet that need not wait displaces exactly a packet that a future waits for. -/
theorem displaces_iff {n : SeqNo} {r : Option SeqNo} {b : Bool} {d : R} (hrange : i.seq.InRange n)
    (hfull : i.seq.isFullInner r = .ok ())
    (hcst : b = true → n = i.seq.nextRecvSeqNo ∧ i.seq.isLocked = false) :
    i.Displaces tasks (.newWithData n r b d) ↔
      Work.waitedAt ⟨i.seq, tasks⟩ (cell CAP n) = true := by
  have hwait : i.seq.mustWait n r b = (false, false) := by
    cases b with
    | false => simp [SeqEx.mustWait, hfull]
    | true => simp [SeqEx.mustWait, hfull, hcst rfl]
  simp [Displaces, hrange, hwait]

/-- A packet that is handed over lets go of no oneshot exactly when neither branch is
taken that does. -/
theorem receiveInner_handed {packet : Packet R} {ok : RecvOkRaw (Sender S) R} {doPump : Bool}
    (h : Custody packets bound ⟨i.seq, tasks⟩)
    (hok : (i.seq.tryReceiveRawAndDirect (fun data => (fresh, data)) packet).1 =
      .ok (ok, doPump)) :
    Custody packets bound
        ⟨(i.receiveInner tasks fresh packet).1.inner.seq, (i.receiveInner tasks fresh packet).2⟩ ∧
      (Kept ⟨(i.receiveInner tasks fresh packet).1.inner.seq,
          (i.receiveInner tasks fresh packet).2⟩ ↔
        Kept ⟨i.seq, tasks⟩ ∧ ¬ i.Displaces tasks packet ∧
          ∀ u ∈ i.pumpStates tasks fresh packet, ¬ u.Unseats) := by
  obtain ⟨u, hu, hv, -⟩ := receiveInner_of_ok tasks hok
  rw [pumpStates_of_ok hok]
  generalize Work.mk (i.receiveInner tasks fresh packet).1.inner.seq
    (i.receiveInner tasks fresh packet).2 = v at hv ⊢
  rcases packet.eq_ack_or_newWithData with ⟨m, rfl⟩ | ⟨n, r, b, d, rfl⟩
  · -- an acknowledgement takes its packet out of the send window
    have hnot : ¬ i.Displaces tasks (.ack m) := by simp [Displaces, Packet.seqNo?]
    rcases tryReceive_ack (fun data => (fresh, data)) i.seq m with ⟨e, he, hcall⟩ | hcall
    · rw [hcall] at hok hu ⊢
      cases hok
      have hsub {chan : ℕ} (hchan : SentOn { i.seq with
          sendWindow := Function.update i.seq.sendWindow (cell CAP m) none } chan) :
          SentOn i.seq chan := hchan.of_pending fun j p hp => by
        rw [SeqEx.pending_remove (s := i.seq) (i := cell CAP m) rfl] at hp
        exact SeqEx.pending_of_remove hp
      have htaken : Custody packets bound ⟨{ i.seq with
          sendWindow := Function.update i.seq.sendWindow (cell CAP m) none }, tasks⟩ :=
        h.windows (fun chan hchan => h.sent chan (hsub hchan)) fun _ _ _ _ _ hw => hw
      obtain ⟨hposted, hsame⟩ := htaken.post_other (h.sent _ (SentOn.of_entry he)).2 none
      rw [hv, hu]
      refine ⟨hposted, ?_⟩
      have hkept : Kept ⟨{ i.seq with
          sendWindow := Function.update i.seq.sendWindow (cell CAP m) none },
          posted e.data.1 none tasks⟩ ↔ Kept ⟨i.seq, tasks⟩ := by
        simp only [Kept, hsame]
        rfl
      refine hkept.trans ?_
      simp [hnot]
    · rw [hcall] at hok
      cases hok
  · rw [SeqEx.tryReceive_newWithData] at hok hu ⊢
    have hrecv := SeqEx.receiveData_cases (fun data => (fresh, data)) i.seq n r b d
    generalize i.seq.receiveData (fun data => (fresh, data)) n r b d = res at hrecv hok hu ⊢
    cases hrecv with
    | next hrange hfull hlock hnext =>
      cases hok
      rw [displaces_iff hrange hfull fun hb => ⟨hnext, hlock hb⟩, Bool.not_eq_true]
      exact (frees_next i.seq n n r b d).handed rfl h hu hv
    | ahead hrange hfull hcst hnext =>
      cases hok
      rw [displaces_iff hrange hfull fun hb => by simp [hcst] at hb, Bool.not_eq_true]
      exact (frees_ahead i.seq n r b d).handed rfl h hu hv
    | _ => cases hok

/-- A packet that is not handed over is dropped, or has to wait and is stored when its
cell is empty. -/
theorem receiveInner_refused (tasks : List (Task S R)) {packet : Packet R} {e : TryRawRecvError}
    (hres : (i.seq.tryReceiveRawAndDirect (fun data => (fresh, data)) packet).1 = .error e) :
    (i.receiveInner tasks fresh packet).2 = tasks ∧ ¬ i.Displaces tasks packet ∧
      i.pumpStates tasks fresh packet = [] ∧
      ((i.receiveInner tasks fresh packet).1.inner.seq = i.seq ∧
          (i.receiveInner tasks fresh packet).1.result ≠ .error (some .seqExClosed) ∨
        ∃ n r b d, packet = .newWithData n r b d ∧ i.seq.isDuplicate n = false ∧
          (i.receiveInner tasks fresh packet).1.inner.seq =
            i.seq.setRecvEntry n (.occupied n r b (fresh, d)) ∧
          (i.receiveInner tasks fresh packet).1.result = .error none) := by
  have hstates : i.pumpStates tasks fresh packet = [] := by simp [pumpStates, hres]
  have hsection : (i.receiveInner tasks fresh packet).2 = tasks ∧
      (i.receiveInner tasks fresh packet).1.inner.seq =
        (i.seq.tryReceiveRawAndDirect (fun data => (fresh, data)) packet).2 ∧
      (i.receiveInner tasks fresh packet).1.result ≠ .error (some .seqExClosed) ∧
      (e = .waitingForRecv ∨ e = .waitingForReply →
        (i.receiveInner tasks fresh packet).1.result = .error none) := by
    simp only [receiveInner, hres]
    cases e <;> exact ⟨rfl, rfl, by simp, by simp⟩
  obtain ⟨htasks, hseq, hopen, hwaiting⟩ := hsection
  rw [hseq]
  refine ⟨htasks, ?_, hstates, ?_⟩
  · rintro ⟨n, hn, hrange, hwait, -⟩
    rcases packet.eq_ack_or_newWithData with ⟨m, rfl⟩ | ⟨n', r, b, d, rfl⟩
    · cases hn
    simp only [Packet.seqNo?_newWithData, Option.mem_some_iff, Packet.replyNo?_newWithData,
      Packet.isSeqCst_newWithData] at hn hwait
    subst hn
    rw [SeqEx.tryReceive_newWithData] at hres
    have hrecv := SeqEx.receiveData_cases (fun data => (fresh, data)) i.seq n' r b d
    generalize i.seq.receiveData (fun data => (fresh, data)) n' r b d = res at hrecv hres
    cases hrecv with
    | duplicate hbelow _ => simp [hrange.1] at hbelow
    | resendAck hbelow _ _ => simp [hrange.1] at hbelow
    | tooEarly _ habove => simp [hrange.2] at habove
    | waitsDuplicate _ _ _ _ hwait' => simp [hwait] at hwait'
    | waits _ _ _ _ hwait' => simp [hwait] at hwait'
    | _ => cases hres
  · rcases packet.eq_ack_or_newWithData with ⟨m, rfl⟩ | ⟨n, r, b, d, rfl⟩
    · rcases tryReceive_ack (fun data => (fresh, data)) i.seq m with ⟨e', -, hcall⟩ | hcall
      · rw [hcall] at hres
        cases hres
      · rw [hcall]
        exact .inl ⟨rfl, hopen⟩
    rw [SeqEx.tryReceive_newWithData] at hres ⊢
    have hrecv := SeqEx.receiveData_cases (fun data => (fresh, data)) i.seq n r b d
    generalize i.seq.receiveData (fun data => (fresh, data)) n r b d = res at hrecv hres ⊢
    cases hrecv with
    | waits _ e' he hdup _ =>
      cases hres
      exact .inr ⟨n, r, b, d, rfl, hdup, rfl, hwaiting he⟩
    | next _ _ _ _ => cases hres
    | ahead _ _ _ _ => cases hres
    | _ => exact .inl ⟨rfl, hopen⟩

end SeqExInner

/-- A packet is stored, and its future waits. -/
theorem Custody.store (h : Custody packets bound w) {n : SeqNo}
    (hdup : w.seq.isDuplicate n = false) (r : Option SeqNo) (b : Bool) (d : R) :
    Custody (Function.update packets bound (some (.newWithData n r b d))) (bound + 1)
        ⟨w.seq.setRecvEntry n (.occupied n r b (bound, d)),
          w.tasks ++ [⟨bound, .receiving, none⟩]⟩ ∧
      (Kept w → Kept ⟨w.seq.setRecvEntry n (.occupied n r b (bound, d)),
        w.tasks ++ [⟨bound, .receiving, none⟩]⟩) := by
  have hempty : w.seq.recvWindow (cell CAP n) = .empty := by
    unfold SeqEx.isDuplicate at hdup
    split at hdup
    · cases hdup
    · cases hdup
    · assumption
  have hcell {i : Fin CAP} {n' : SeqNo} {r' : Option SeqNo} {b' : Bool} {chan : ℕ} {d' : R}
      (hw : (w.seq.setRecvEntry n (.occupied n r b (bound, d))).recvWindow i =
        .occupied n' r' b' (chan, d')) :
      (i = cell CAP n ∧ chan = bound ∧ Packet.newWithData n' r' b' d' = .newWithData n r b d) ∨
        w.seq.recvWindow i = .occupied n' r' b' (chan, d') := by
    by_cases hi : i = cell CAP n
    · subst hi
      rw [SeqEx.setRecvEntry_recvWindow, Function.update_self] at hw
      cases hw
      exact .inl ⟨rfl, rfl, rfl⟩
    · rw [SeqEx.setRecvEntry_recvWindow, Function.update_of_ne hi] at hw
      exact .inr hw
  have hlt {i : Fin CAP} {n' : SeqNo} {r' : Option SeqNo} {b' : Bool} {chan : ℕ} {d' : R}
      (hw : w.seq.recvWindow i = .occupied n' r' b' (chan, d')) : chan < bound :=
    (h.stored i n' r' b' chan d' hw).1
  have henter : Custody (Function.update packets bound (some (.newWithData n r b d))) (bound + 1)
      ⟨w.seq, w.tasks ++ [⟨bound, .receiving, none⟩]⟩ :=
    (h.note _).enter fun _ => ⟨n, r, b, d, Function.update_self ..⟩
  refine ⟨⟨henter.nodup, henter.bounded, henter.sent, ?_, ?_, henter.mail⟩, ?_⟩
  · intro i n' r' b' chan d' hw
    rcases hcell hw with ⟨-, rfl, hpacket⟩ | hw
    · exact ⟨Nat.lt_succ_self _, by rw [Function.update_self, hpacket]⟩
    · rw [Function.update_of_ne (hlt hw).ne]
      exact ⟨(hlt hw).trans (Nat.lt_succ_self _), (h.stored i n' r' b' chan d' hw).2⟩
  · intro i j n₁ r₁ b₁ n₂ r₂ b₂ chan d₁ d₂ hi hj
    rcases hcell hi with ⟨rfl, rfl, -⟩ | hi <;> rcases hcell hj with ⟨rfl, heq, -⟩ | hj
    · rfl
    · exact absurd (hlt hj) (lt_irrefl _)
    · exact absurd (heq ▸ hlt hi) (lt_irrefl _)
    · exact h.once i j n₁ r₁ b₁ n₂ r₂ b₂ chan d₁ d₂ hi hj
  · intro hkept chan hawaited
    obtain ⟨task, hmem, hchan, hinbox, hreceiving⟩ := awaited_iff.mp hawaited
    rcases List.mem_append.mp hmem with hmem | hmem
    · obtain ⟨i, n', r', b', d', hw⟩ := hkept chan
        (awaited_iff.mpr ⟨task, hmem, hchan, hinbox, hreceiving⟩)
      refine ⟨i, n', r', b', d', ?_⟩
      have hne : i ≠ cell CAP n := by
        rintro rfl
        rw [hempty] at hw
        cases hw
      rw [SeqEx.setRecvEntry_recvWindow, Function.update_of_ne hne, hw]
    · rw [List.mem_singleton.mp hmem] at hchan
      exact ⟨cell CAP n, n, r, b, d, by rw [← hchan]; simp⟩

end Receive

end SequentialExchange.Tokio
