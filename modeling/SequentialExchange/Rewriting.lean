import SequentialExchange.Accounting
import SequentialExchange.Transmissions
import SequentialExchange.WindowInvariant

/-!
# What `iter_mut` writes is sent and handed back

Through `iter_mut` the application gets at the data of the packets in the send
window. What it writes goes out with every later transmission of the packet, and it
comes back when the packet is acknowledged or replied to. The number, the kind and
the reply number of a packet stay as they were in its first transmission.
-/

namespace SequentialExchange

open WrapNumbering

variable {S R : Type*} {CAP : ℕ} [NeZero CAP]

/-- The packet with the data that a use of `iter_mut` writes into its cell. -/
def Packet.rewrite (f : Fin CAP → S → S) (p : Packet S) : Packet S :=
  match p.seqNo? with
  | some n => p.map (f (cell CAP n))
  | none => p

/-- What the writes of these operations make of the data in a cell. -/
def written (i : Fin CAP) (ops : List (Operation S R CAP)) (d : S) : S :=
  ops.foldl (fun d op => match op with
    | .iterMut f => f i d
    | _ => d) d

variable {s : SeqEx S R CAP} {base : SeqNo} {sent : List (Packet S)}

namespace SeqEx

/-- The state after these operations. -/
def operateAll (s : SeqEx S R CAP) (ops : List (Operation S R CAP)) : SeqEx S R CAP :=
  ops.foldl operate s

/-- The packets that were sent, each with the data that was last written, after one more
operation. -/
def revise (s : SeqEx S R CAP) (sent : List (Packet S)) : Operation S R CAP → List (Packet S)
  | .call c => sent ++ (s.call c).1.first?.toList
  | .iterMut f => sent.map (Packet.rewrite f)
  | .setResendInterval _ | .setNextServiceTimestamp _ => sent

/-- The same after any operations. -/
def reviseAll (s : SeqEx S R CAP) (sent : List (Packet S)) :
    List (Operation S R CAP) → List (Packet S)
  | [] => sent
  | op :: ops => (s.operate op).reviseAll (s.revise sent op) ops

/-- The packets that a call hands back: their numbers, with the data. -/
def handsBack (s : SeqEx S R CAP) (c : Call S R) : List (SeqNo × S) :=
  (History.empty.record (s.input? c) (s.call c).1).acks ++
    (History.empty.record (s.input? c) (s.call c).1).replies

omit [NeZero CAP] in
/-- Writing changes the data of a pending packet and nothing else. -/
theorem iterMut_pending (s : SeqEx S R CAP) (f : Fin CAP → S → S) (i : Fin CAP) :
    (s.iterMut f).pending i = (s.pending i).map (Packet.map (f i)) := by
  simp only [pending, iterMut, Option.map_map]
  refine congrArg (fun g => (s.sendWindow i).map g) (funext fun e => ?_)
  exact (SendEntry.toPacket_eq _).trans (by
    rw [Function.comp_apply, SendEntry.toPacket_eq, Packet.map_newWithData])

/-- What is handed back was in the window, in the cell of its number. -/
theorem pending_of_handsBack (c : Call S R) {x : SeqNo × S} (hx : x ∈ s.handsBack c) :
    ∃ q, s.pending (cell CAP x.1) = some q ∧ q.seqNo? = some x.1 ∧ q.payload? = some x.2 := by
  have hentry {r : SeqNo} {e : SendEntry S} (he : s.sendWindow (cell CAP r) = some e)
      (hr : e.seqNo = r) : ∃ q, s.pending (cell CAP r) = some q ∧ q.seqNo? = some r ∧
        q.payload? = some e.data :=
    ⟨e.toPacket, by rw [pending, he, Option.map_some], by rw [SendEntry.seqNo?_toPacket, hr],
      e.payload?_toPacket⟩
  have hnothing {a : Answer S R} (ha : ∀ (h : History S R) i, h.record i a = h) :
      x ∉ (History.empty.record (s.input? c) a).acks ++
        (History.empty.record (s.input? c) a).replies := by
    rw [ha]
    exact List.not_mem_nil
  unfold handsBack at hx
  have heff := s.call_effect c
  generalize (s.call c).1 = a, (s.call c).2 = s' at heff hx
  cases heff with
  | heed r hc e he hr =>
    subst hc
    obtain rfl : x = (r, e.data) := by
      simpa [input?, History.record, History.take, History.empty, Packet.replyNo?,
        History.replies] using hx
    exact hentry he hr
  | hand n r b d doPump t hin hplaced hfull hlock =>
    rw [hin, History.record_handing] at hx
    obtain ⟨hwin, -⟩ := hplaced.frame
    rcases t.handOver_cases n r b d with ⟨m, e, rfl, he, hm, hcall⟩ | ⟨-, hcall⟩
    · rw [hcall] at hx
      obtain rfl : x = (m, e.data) := by
        simpa [History.take, History.empty, History.replies, RecvOkRaw.paired?] using hx
      exact hentry (hwin ▸ he) hm
    · rw [hcall] at hx
      simp [History.take, History.empty, History.replies, RecvOkRaw.paired?] at hx
  | resend _ _ _ _ hrec _ => exact absurd hx (hnothing hrec)
  | idle _ hquiet => exact absurd hx (hnothing hquiet.2)
  | _ => simp [History.record, History.empty, History.replies] at hx

end SeqEx

/-! ## Any operations -/

omit [NeZero CAP] in
/-- Rewriting twice is rewriting once with both functions. -/
theorem Packet.map_comp {D E F : Type*} (f : D → E) (g : E → F) (p : Packet D) :
    (p.map f).map g = p.map fun d => g (f d) := by cases p <;> rfl

/-- The number of a packet is not data. -/
theorem Packet.seqNo?_rewrite (f : Fin CAP → S → S) (p : Packet S) :
    (p.rewrite f).seqNo? = p.seqNo? := by cases p <;> rfl

/-- A packet with a number gets what is written into the cell of that number. -/
theorem Packet.rewrite_eq (f : Fin CAP → S → S) {p : Packet S} {n : SeqNo}
    (hp : p.seqNo? = some n) : p.rewrite f = p.map (f (cell CAP n)) := by
  rw [rewrite, hp]

/-- An operation keeps the sending side consistent with the packets as they are now. -/
theorem Sends.operate (hs : Sends base s sent) (op : Operation S R CAP) :
    Sends base (s.operate op) (s.revise sent op) := by
  cases op with
  | call c =>
    obtain ⟨hsends, -, -⟩ := Sends.call (h := ⟨sent, [], []⟩) hs c
    rwa [History.record_first] at hsends
  | iterMut f =>
    refine ⟨?_, fun k p hp => ?_, fun i p hp => ?_⟩
    · rw [SeqEx.revise, List.length_map]
      exact hs.next
    · rw [SeqEx.revise, List.getElem?_map] at hp
      obtain ⟨q, hq, rfl⟩ := Option.map_eq_some_iff.mp hp
      rw [Packet.seqNo?_rewrite, hs.numbered k q hq]
    · rw [SeqEx.operate, SeqEx.iterMut_pending] at hp
      obtain ⟨q, hq, rfl⟩ := Option.map_eq_some_iff.mp hp
      obtain ⟨k, hk, rfl⟩ := hs.window i q hq
      refine ⟨k, ?_, rfl⟩
      rw [SeqEx.revise, List.getElem?_map, hk, Option.map_some,
        Packet.rewrite_eq f (hs.numbered k q hk)]
  | setResendInterval d => exact hs.shrink rfl fun _ _ hp => hp
  | setNextServiceTimestamp t => exact hs.shrink rfl fun _ _ hp => hp

/-- So do all operations of a run. -/
theorem Sends.operateAll (hs : Sends base s sent) (ops : List (Operation S R CAP)) :
    Sends base (s.operateAll ops) (s.reviseAll sent ops) := by
  induction ops generalizing s sent with
  | nil => exact hs
  | cons op ops ih => exact ih (hs.operate op)

namespace SeqEx

/-- A packet keeps its place, with the data that the operation writes. -/
theorem revise_get {k : ℕ} {p : Packet S} {n : SeqNo} (hk : sent[k]? = some p)
    (hp : p.seqNo? = some n) (op : Operation S R CAP) :
    (s.revise sent op)[k]? = some (p.map (written (cell CAP n) [op])) := by
  have hsame : p.map (fun d => d) = p := by cases p <;> rfl
  cases op with
  | call c =>
    rw [revise, List.getElem?_append_left (List.getElem?_eq_some_iff.mp hk).1, hk]
    exact congrArg some hsame.symm
  | iterMut f =>
    rw [revise, List.getElem?_map, hk, Option.map_some, Packet.rewrite_eq f hp]
    rfl
  | setResendInterval d => exact hk.trans (congrArg some hsame.symm)
  | setNextServiceTimestamp t => exact hk.trans (congrArg some hsame.symm)

/-- After any operations it has the data that they wrote one after the other. -/
theorem reviseAll_get {k : ℕ} {p : Packet S} {n : SeqNo} (hk : sent[k]? = some p)
    (hp : p.seqNo? = some n) (ops : List (Operation S R CAP)) :
    (s.reviseAll sent ops)[k]? = some (p.map (written (cell CAP n) ops)) := by
  induction ops generalizing s sent p with
  | nil => exact hk.trans (congrArg some (by cases p <;> rfl))
  | cons op ops ih =>
    have hnext := revise_get (s := s) hk hp op
    have hnum : (p.map (written (cell CAP n) [op])).seqNo? = some n := by
      rw [← hp]
      cases p <;> rfl
    rw [reviseAll, ih hnext hnum, Packet.map_comp]
    rfl

omit [NeZero CAP] in
/-- Operations are carried out one list after the other. -/
theorem operateAll_append [NeZero CAP] (s : SeqEx S R CAP) (ops ops' : List (Operation S R CAP)) :
    s.operateAll (ops ++ ops') = (s.operateAll ops).operateAll ops' := List.foldl_append

/-- So are the revisions they make. -/
theorem reviseAll_append (s : SeqEx S R CAP) (sent : List (Packet S))
    (ops ops' : List (Operation S R CAP)) :
    s.reviseAll sent (ops ++ ops') = (s.operateAll ops).reviseAll (s.reviseAll sent ops) ops' := by
  induction ops generalizing s sent with
  | nil => rfl
  | cons op ops ih => exact ih (s.operate op) (s.revise sent op)

/-- In a run with fewer than `2^32` packets a packet is sent, and then there are other
operations. Whatever call comes next: if it transmits the packet, it does so with the data
written since, and if it hands the packet back, it is with these data. -/
theorem written_goesOut (interval : Int64) (initialSeqNo : SeqNo)
    (before after : List (Operation S R CAP)) (c c' : Call S R) {p : Packet S}
    (hp : (((new interval initialSeqNo : SeqEx S R CAP).operateAll before).call c).1.first? =
      some p)
    (hcount : ((new interval initialSeqNo : SeqEx S R CAP).reviseAll []
      (before ++ .call c :: after)).length < 2 ^ 32) :
    ∃ n, p.seqNo? = some n ∧
      (∀ q ∈ (((new interval initialSeqNo : SeqEx S R CAP).operateAll
          (before ++ .call c :: after)).call c').1.emitted, q.seqNo? = some n →
        q = p.map (written (cell CAP n) after)) ∧
      ∀ d, (n, d) ∈ ((new interval initialSeqNo : SeqEx S R CAP).operateAll
          (before ++ .call c :: after)).handsBack c' →
        some d = p.payload?.map (written (cell CAP n) after) := by
  have hstart : Sends initialSeqNo (new interval initialSeqNo : SeqEx S R CAP) [] :=
    Sends.start interval initialSeqNo
  have hbefore := hstart.operateAll before
  have hfinal := hstart.operateAll (before ++ .call c :: after)
  -- the position of the packet
  obtain ⟨k, hk, hnum⟩ : ∃ k, ((new interval initialSeqNo : SeqEx S R CAP).reviseAll []
      (before ++ .call c :: after))[k]? = some (p.map (written (cell CAP (number initialSeqNo k))
        after)) ∧ p.seqNo? = some (number initialSeqNo k) := by
    have hget : (((new interval initialSeqNo : SeqEx S R CAP).operateAll before).revise
        ((new interval initialSeqNo : SeqEx S R CAP).reviseAll [] before) (.call c))[
          ((new interval initialSeqNo : SeqEx S R CAP).reviseAll [] before).length]? = some p := by
      rw [revise, hp, List.getElem?_append_right le_rfl, Nat.sub_self]
      rfl
    have hnum := (hbefore.operate (.call c)).numbered _ p hget
    refine ⟨_, ?_, hnum⟩
    rw [reviseAll_append]
    exact reviseAll_get hget hnum after
  generalize (new interval initialSeqNo : SeqEx S R CAP).operateAll (before ++ .call c :: after) =
    s at hfinal ⊢
  generalize (new interval initialSeqNo : SeqEx S R CAP).reviseAll [] (before ++ .call c :: after) =
    sent at hcount hfinal hk
  have hlt := (List.getElem?_eq_some_iff.mp hk).1
  refine ⟨_, hnum, fun q hq hsame => ?_, fun d hd => ?_⟩
  · obtain ⟨hsends, -, hemitted⟩ := Sends.call (h := ⟨sent, [], []⟩) hfinal c'
    rw [History.record_first] at hsends hemitted
    dsimp only at hsends hemitted
    rcases hemitted q hq with ⟨r, rfl⟩ | hmem
    · cases hsame
    · obtain ⟨j, hj⟩ := List.mem_iff_getElem?.mp hmem
      have hjlt := (List.getElem?_eq_some_iff.mp hj).1
      have hone : (s.call c').1.first?.toList.length ≤ 1 := Option.length_toList_le
      rw [List.length_append] at hjlt
      rw [hsends.numbered j q hj, Option.some_inj, number_inj (by omega) (by omega)] at hsame
      rw [hsame, List.getElem?_append_left hlt, hk] at hj
      exact (Option.some.inj hj).symm
  · obtain ⟨q, hq, hqnum, hdata⟩ := pending_of_handsBack c' hd
    obtain ⟨j, hj, -⟩ := hfinal.window _ q hq
    have hjlt := (List.getElem?_eq_some_iff.mp hj).1
    rw [hfinal.numbered j q hj, Option.some_inj, number_inj (by omega) (by omega)] at hqnum
    rw [hqnum, hk] at hj
    obtain rfl := Option.some.inj hj
    rw [← hdata, Packet.payload?_map]

/-- A packet is sent and resent, and its data is written twice, before it is resent again and
after. -/
def overwritten : List (Operation ℕ ℕ 4) :=
  [.call (.service 150), .iterMut fun _ d => d + 1, .call (.receive (.seqCstPayload 3 80)),
    .iterMut fun i d => d * 10 + i.val]

/-- The packet goes out with number 7 and the data written into cell 3, and is handed back so. -/
theorem written_goesOut_overwritten :
    ((new 100 7 : SeqEx ℕ ℕ 4).operateAll ([] ++ .call (.trySend 0 true fun _ => 70) ::
        overwritten)).handsBack (.receive (.ack 7)) = [(7, 713)] ∧
      ∃ n, (Packet.seqCstPayload 7 70).seqNo? = some n ∧
        (∀ q ∈ (((new 100 7 : SeqEx ℕ ℕ 4).operateAll ([] ++ .call (.trySend 0 true fun _ => 70) ::
          overwritten)).call (.service 400)).1.emitted, q.seqNo? = some n →
            q = (Packet.seqCstPayload 7 70).map (written (cell 4 n) overwritten)) ∧
        ∀ d, (n, d) ∈ ((new 100 7 : SeqEx ℕ ℕ 4).operateAll ([] ++
          .call (.trySend 0 true fun _ => 70) :: overwritten)).handsBack (.service 400) →
            some d = (Packet.seqCstPayload 7 70).payload?.map (written (cell 4 n) overwritten) :=
  ⟨by decide, written_goesOut 100 7 [] overwritten (.trySend 0 true fun _ => 70) (.service 400)
    (by decide) (by decide)⟩

end SeqEx

end SequentialExchange
