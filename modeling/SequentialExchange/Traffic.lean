import SequentialExchange.ReceiveWindow
import SequentialExchange.Session

/-!
# Whatever is under way was sent

The packets a peer has sent form a list, and position `k` of it carries the
`k`-th number. Every packet in its send window, in flight, or stored at the
remote peer is an entry of that list. This needs no bound on the number of
packets and no assumption on the capacities.
-/

namespace SequentialExchange

open WrapNumbering GuardedRuns

variable {S R : Type*}

/-- Position `k` of the packets sent, as it looks on the wire. -/
def wire? (encode : S → R) (sent : List (Packet S)) (k : ℕ) : Option (Packet R) :=
  sent[k]?.map (Packet.map encode)

/-- What is on the wire stays there when more is sent. -/
theorem wire?_mono {encode : S → R} {sent sent' : List (Packet S)} (h : sent <+: sent') {k : ℕ}
    {p : Packet R} (hp : wire? encode sent k = some p) : wire? encode sent' k = some p := by
  obtain ⟨l, rfl⟩ := h
  obtain ⟨q, hq, rfl⟩ := Option.map_eq_some_iff.mp hp
  obtain ⟨hlt, -⟩ := List.getElem?_eq_some_iff.mp hq
  simp [wire?, List.getElem?_append_left hlt, hq]

/-- What is on the wire was sent. -/
theorem wire?_lt {encode : S → R} {sent : List (Packet S)} {k : ℕ} {p : Packet R}
    (hp : wire? encode sent k = some p) : k < sent.length := by
  obtain ⟨q, hq, -⟩ := Option.map_eq_some_iff.mp hp
  exact (List.getElem?_eq_some_iff.mp hq).1

/-! ## What the calls record -/

namespace History

variable {h : History S R}

/-- Taking in a packet sends nothing. -/
@[simp] theorem take_sent (p : Packet R) (ok : RecvOkRaw S R) : (h.take p ok).sent = h.sent := by
  cases ok <;> rfl

/-- A delivery is taken in. -/
theorem record_handing {c : Call S R} {p : Packet R} {ok : RecvOkRaw S R} {doPump : Bool} :
    h.record (some p) (c.handing ok doPump) = h.take p ok := by
  cases c <;> rfl

/-- A packet that is sent is written down. -/
@[simp] theorem record_sent (i : Option (Packet R)) (p : Packet S) :
    h.record i (.sent p) = { h with sent := h.sent ++ [p] } := rfl

/-- So is a reply. -/
@[simp] theorem record_replied (i : Option (Packet R)) (p : Packet S) :
    h.record i (.replied (some p)) = { h with sent := h.sent ++ [p] } := rfl

/-- An acknowledgement is not. -/
@[simp] theorem record_acked (i : Option (Packet R)) (p : Option (Packet S)) :
    h.record i (.acked p) = h := rfl

/-- Nor is an unlock. -/
@[simp] theorem record_unlocked (i : Option (Packet R)) : h.record i .unlocked = h := rfl

/-- Nor is a packet that is dropped. -/
@[simp] theorem record_dropped (i : Option (Packet R)) (e : TryRawRecvError) :
    h.record i (.dropped e) = h := rfl

/-- A received packet is taken in. -/
@[simp] theorem record_received (p : Packet R) (ok : RecvOkRaw S R) (doPump : Bool) :
    h.record (some p) (.received ok doPump) = h.take p ok := rfl

end History

/-- A delivery emits nothing. -/
theorem Call.handing_emitted (c : Call S R) (ok : RecvOkRaw S R) (doPump : Bool) :
    (c.handing ok doPump).emitted = [] := by
  cases c <;> rfl

/-! ## The sending side of an endpoint -/

section Sender

variable {CAP : ℕ} [NeZero CAP] {base : SeqNo} {s t : SeqEx S R CAP} {sent : List (Packet S)}

/-- The endpoint has sent exactly `sent`, numbered from `base`, and its window
holds packets of that list in the cells of their numbers. -/
structure Sends (base : SeqNo) (s : SeqEx S R CAP) (sent : List (Packet S)) : Prop where
  next : s.nextSendSeqNo = number base sent.length
  numbered : ∀ k p, sent[k]? = some p → p.seqNo? = some (number base k)
  window : ∀ i p, s.pending i = some p → ∃ k, sent[k]? = some p ∧ i = cell CAP (number base k)

/-- A new endpoint has sent nothing. -/
theorem Sends.start (interval : Int64) (base : SeqNo) :
    Sends base (SeqEx.new interval base : SeqEx S R CAP) [] :=
  ⟨(number_zero base).symm, nofun, nofun⟩

/-- Packets may leave the window. -/
theorem Sends.shrink (h : Sends base s sent) (hn : t.nextSendSeqNo = s.nextSendSeqNo)
    (hw : ∀ i p, t.pending i = some p → s.pending i = some p) : Sends base t sent :=
  ⟨hn.trans h.next, h.numbered, fun i p hp => h.window i p (hw i p hp)⟩

namespace SeqEx

/-- The new packet carries the next number. -/
theorem insertEntry_packet (time : Int64) (r : Option SeqNo) (b : Bool) (d : S) :
    (s.insertEntry time r b d).1 = .newWithData s.nextSendSeqNo r b d :=
  SendEntry.toPacket_eq _

/-- An inserted entry is the new content of its cell. -/
theorem insertEntry_pending (time : Int64) (r : Option SeqNo) (b : Bool) (d : S) :
    (s.insertEntry time r b d).2.pending =
      Function.update s.pending (cell CAP s.nextSendSeqNo)
        (some (s.insertEntry time r b d).1) := by
  funext i
  by_cases hi : i = cell CAP s.nextSendSeqNo
  · subst hi
    simp [pending, insertEntry]
  · simp [pending, insertEntry, Function.update_of_ne hi]

omit [NeZero CAP] in
/-- The pending packets are read off the send window. -/
theorem pending_congr (h : t.sendWindow = s.sendWindow) : t.pending = s.pending := by
  funext i
  rw [pending, pending, h]

omit [NeZero CAP] in
/-- The entry of a pending packet has its number. -/
theorem entry_of_pending {i : Fin CAP} {p : Packet S} {n : SeqNo} (hp : s.pending i = some p)
    (hn : p.seqNo? = some n) : ∃ e, s.sendWindow i = some e ∧ e.seqNo = n := by
  obtain ⟨e, he, rfl⟩ := Option.map_eq_some_iff.mp hp
  rw [SendEntry.seqNo?_toPacket] at hn
  exact ⟨e, he, Option.some.inj hn⟩

omit [NeZero CAP] in
/-- A cell that is emptied has no pending packet. -/
theorem pending_remove {i : Fin CAP} (h : t.sendWindow = Function.update s.sendWindow i none) :
    t.pending = Function.update s.pending i none := by
  funext j
  by_cases hj : j = i
  · subst hj
    simp [pending, h]
  · simp [pending, h, Function.update_of_ne hj]

omit [NeZero CAP] in
/-- The other packets were pending before. -/
theorem pending_of_remove {i j : Fin CAP} {p : Packet S}
    (h : Function.update s.pending i none j = some p) : s.pending j = some p := by
  by_cases hj : j = i
  · subst hj
    simp at h
  · rwa [Function.update_of_ne hj] at h

/-- Handing over draws no number and adds nothing to the send window. -/
theorem handOver_send {P : Type*} (n : SeqNo) (r : Option SeqNo) (b : Bool) (d : P) :
    (s.handOver n r b d).2.nextSendSeqNo = s.nextSendSeqNo ∧
      ∀ i p, (s.handOver n r b d).2.pending i = some p → s.pending i = some p := by
  rcases s.handOver_cases n r b d with ⟨r', e, -, -, -, h⟩ | ⟨-, h⟩
  · rw [h]
    refine ⟨rfl, fun i p hp => ?_⟩
    rw [pending_remove (s := s) (i := cell CAP r') rfl] at hp
    exact pending_of_remove hp
  · rw [h]
    exact ⟨rfl, fun i p hp => hp⟩

end SeqEx

/-- An accepted packet takes the next position. -/
theorem Sends.insert (h : Sends base s sent) (time : Int64) (r : Option SeqNo) (b : Bool) (d : S) :
    Sends base (s.insertEntry time r b d).2 (sent ++ [(s.insertEntry time r b d).1]) := by
  have hlast : (sent ++ [(s.insertEntry time r b d).1])[sent.length]? =
      some (s.insertEntry time r b d).1 := by simp
  refine ⟨?_, fun k p hk => ?_, fun i p hp => ?_⟩
  · rw [List.length_append, List.length_singleton, ← number_succ, ← h.next]
    rfl
  · rcases Nat.lt_trichotomy k sent.length with hlt | rfl | hgt
    · rw [List.getElem?_append_left hlt] at hk
      exact h.numbered k p hk
    · cases hlast.symm.trans hk
      rw [SeqEx.insertEntry_packet, Packet.seqNo?_newWithData, h.next]
    · rw [List.getElem?_eq_none (by simp; omega)] at hk
      cases hk
  · rw [SeqEx.insertEntry_pending] at hp
    by_cases hi : i = cell CAP s.nextSendSeqNo
    · subst hi
      rw [Function.update_self] at hp
      cases hp
      exact ⟨sent.length, hlast, by rw [h.next]⟩
    · rw [Function.update_of_ne hi] at hp
      obtain ⟨k, hk, hc⟩ := h.window i p hp
      obtain ⟨hlt, -⟩ := List.getElem?_eq_some_iff.mp hk
      exact ⟨k, by rw [List.getElem?_append_left hlt, hk], hc⟩

/-- Every call keeps the sending side consistent with the history, and emits
nothing but acknowledgements and packets of the list. -/
theorem Sends.call {h : History S R} (hs : Sends base s h.sent) (c : Call S R) :
    Sends base (s.call c).2 (h.record (s.input? c) (s.call c).1).sent ∧
      h.sent <+: (h.record (s.input? c) (s.call c).1).sent ∧
      ∀ p ∈ (s.call c).1.emitted,
        (∃ r, p = .ack r) ∨ p ∈ (h.record (s.input? c) (s.call c).1).sent := by
  have heff := s.call_effect c
  generalize (s.call c).1 = a, (s.call c).2 = s' at heff ⊢
  have hprefix : h.sent <+: h.sent := List.prefix_rfl
  cases heff with
  | send time b f _ _ =>
    refine ⟨hs.insert time none b _, List.prefix_append _ _, fun p hp => .inr ?_⟩
    exact List.mem_append_right _ hp
  | reply time r u b d _ l _ s1 hs1 =>
    have hs' : Sends base s1 h.sent := by
      subst hs1
      exact hs.shrink rfl fun _ _ hp => hp
    refine ⟨hs'.insert time (some r) b d, List.prefix_append _ _, fun p hp => .inr ?_⟩
    exact List.mem_append_right _ (by simpa [Answer.emitted] using hp)
  | ack r u _ l _ =>
    refine ⟨hs.shrink rfl fun _ _ hp => hp, hprefix, fun p hp => .inl ⟨r, ?_⟩⟩
    simpa [Answer.emitted] using hp
  | unlock _ => exact ⟨hs.shrink rfl fun _ _ hp => hp, hprefix, List.forall_mem_nil _⟩
  | heed r hc e he hr =>
    subst hc
    refine ⟨hs.shrink rfl fun i p hp => ?_, hprefix, List.forall_mem_nil _⟩
    rw [SeqEx.pending_remove (s := s) (i := cell CAP r) rfl] at hp
    exact SeqEx.pending_of_remove hp
  | resendAck n r b d _ _ _ _ =>
    exact ⟨hs, hprefix, fun p hp => .inl ⟨n, by simpa [Answer.emitted] using hp⟩⟩
  | hold n r b d e _ _ _ hquiet =>
    rw [hquiet.1]
    exact ⟨hs.shrink rfl fun _ _ hp => hp, hprefix, List.forall_mem_nil _⟩
  | hand n r b d _ t hin hplaced _ _ =>
    obtain ⟨hwin, hnext, -, -⟩ := hplaced.frame
    obtain ⟨hn, hw⟩ := t.handOver_send n r b d
    rw [hin, History.record_handing, History.take_sent, Call.handing_emitted]
    refine ⟨hs.shrink (hn.trans hnext) fun i p hp => ?_, hprefix, List.forall_mem_nil _⟩
    rw [← SeqEx.pending_congr hwin]
    exact hw i p hp
  | resend _ _ hre _ hrec hout =>
    rw [hrec]
    refine ⟨hs.shrink hre.nextSend fun i p hp => hre.pending ▸ hp, hprefix, fun p hp => .inr ?_⟩
    obtain ⟨i, hi⟩ := hout p hp
    obtain ⟨k, hk, -⟩ := hs.window i p hi
    exact List.mem_of_getElem? hk
  | idle _ hquiet =>
    rw [hquiet.1, hquiet.2]
    exact ⟨hs, hprefix, List.forall_mem_nil _⟩

/-! ## The stored packets of an endpoint -/

/-- Forwarding stores nothing. -/
theorem SeqEx.fastForwardLoop_occupied {fuel : ℕ} {w : Fin CAP → RecvEntry R} {lo : SeqNo}
    {i : Fin CAP} {n : SeqNo} {r : Option SeqNo} {b : Bool} {d : R}
    (h : (SeqEx.fastForwardLoop fuel w lo).1 i = .occupied n r b d) : w i = .occupied n r b d := by
  induction fuel generalizing w lo with
  | zero => exact h
  | succ fuel ih =>
    unfold SeqEx.fastForwardLoop at h
    split at h
    · have hw := ih h
      by_cases hi : i = cell CAP lo
      · subst hi
        simp at hw
      · rwa [Function.update_of_ne hi] at hw
    · exact h
    · exact h

/-- Nor does it lose anything. -/
theorem SeqEx.fastForwardLoop_keeps {fuel : ℕ} {w : Fin CAP → RecvEntry R} {lo : SeqNo}
    {i : Fin CAP} {n : SeqNo} {r : Option SeqNo} {b : Bool} {d : R} (h : w i = .occupied n r b d) :
    (SeqEx.fastForwardLoop fuel w lo).1 i = .occupied n r b d := by
  induction fuel generalizing w lo with
  | zero => exact h
  | succ fuel ih =>
    unfold SeqEx.fastForwardLoop
    split
    · rename_i m hw
      refine ih ?_
      by_cases hi : i = cell CAP lo
      · subst hi
        rw [hw] at h
        cases h
      · rwa [Function.update_of_ne hi]
    · exact h
    · exact h

/-- The cursor passes over markers and leaves stored packets. -/
theorem SeqEx.advance_occupied {m : SeqNo} {i : Fin CAP} {n : SeqNo} {r : Option SeqNo} {b : Bool}
    {d : R} (h : (s.advance m).2.recvWindow i = .occupied n r b d) :
    s.recvWindow i = .occupied n r b d := by
  have hw : (s.setRecvEntry m .empty).recvWindow i = .occupied n r b d :=
    SeqEx.fastForwardLoop_occupied h
  by_cases hi : i = cell CAP m
  · subst hi
    simp at hw
  · rwa [SeqEx.setRecvEntry_recvWindow, Function.update_of_ne hi] at hw

/-- Placing a packet stores no other. -/
theorem SeqEx.Placed.occupied {c : Call S R} {m : SeqNo} {b' doPump : Bool}
    (hplaced : s.Placed c m b' doPump t) {i : Fin CAP} {n : SeqNo} {r : Option SeqNo} {b : Bool}
    {d : R} (h : t.recvWindow i = .occupied n r b d) : s.recvWindow i = .occupied n r b d := by
  cases hplaced with
  | next _ => exact advance_occupied h
  | ahead _ _ _ _ =>
    by_cases hi : i = cell CAP m
    · subst hi
      simp at h
    · rwa [setRecvEntry_recvWindow, Function.update_of_ne hi] at h

/-- The packet kept in each cell of the receive window. -/
def SeqEx.stored (s : SeqEx S R CAP) (i : Fin CAP) : Option (Packet R) :=
  match s.recvWindow i with
  | .occupied n r b d => some (.newWithData n r b d)
  | .unlocked _ | .empty => none

omit [NeZero CAP] in
/-- What is stored has its slot. -/
theorem SeqEx.stored_eq_some {i : Fin CAP} {p : Packet R} (h : s.stored i = some p) :
    ∃ n r b d, s.recvWindow i = .occupied n r b d ∧ p = .newWithData n r b d := by
  unfold SeqEx.stored at h
  split at h
  · rename_i n r b d hw
    cases h
    exact ⟨n, r, b, d, hw, rfl⟩
  all_goals cases h

omit [NeZero CAP] in
/-- An occupied slot stores its packet. -/
theorem SeqEx.stored_of_occupied {i : Fin CAP} {n : SeqNo} {r : Option SeqNo} {b : Bool} {d : R}
    (h : s.recvWindow i = .occupied n r b d) : s.stored i = some (.newWithData n r b d) := by
  simp [SeqEx.stored, h]

/-- A call stores nothing but the packet it received. -/
theorem SeqEx.call_stored (c : Call S R) {i : Fin CAP} {p : Packet R}
    (h : (s.call c).2.stored i = some p) : s.stored i = some p ∨ c = .receive p := by
  obtain ⟨n', r', b', d', hw, rfl⟩ := SeqEx.stored_eq_some h
  have heff := s.call_effect c
  generalize (s.call c).1 = a, (s.call c).2 = s' at heff hw
  cases heff with
  | hold n r b d e hc _ _ _ =>
    by_cases hi : i = cell CAP n
    · subst hi
      rw [setRecvEntry_recvWindow, Function.update_self] at hw
      cases hw
      exact .inr hc
    · rw [setRecvEntry_recvWindow, Function.update_of_ne hi] at hw
      exact .inl (stored_of_occupied hw)
  | hand n r b d _ t _ hplaced _ _ =>
    rw [(t.handOver_receive n r b d).2] at hw
    exact .inl (stored_of_occupied (hplaced.occupied hw))
  | resend _ _ hre _ _ _ =>
    rw [hre.recvWindow] at hw
    exact .inl (stored_of_occupied hw)
  | reply _ _ _ _ _ _ _ _ s1 hs1 =>
    subst hs1
    exact .inl (stored_of_occupied hw)
  | _ => exact .inl (stored_of_occupied hw)

end Sender

/-! ## The session -/

namespace Session

variable {cap : Side → ℕ} [∀ x, NeZero (cap x)] {encode : S → R} {s : Session S R cap}

/-- A call concerns the endpoint it is made on. -/
@[simp] theorem perform_node_self (x : Side) (c : Call S R) :
    (s.perform encode (.call x c)).node x = ⟨((s.node x).seqEx.call c).2,
      (s.node x).history.record ((s.node x).seqEx.input? c) ((s.node x).seqEx.call c).1⟩ := by
  simp [perform]

/-- The other endpoint stays as it is. -/
theorem perform_node_ne {x y : Side} (h : y ≠ x) (c : Call S R) :
    (s.perform encode (.call x c)).node y = s.node y := by
  simp [perform, h]

/-- What the call emits is under way. -/
@[simp] theorem perform_net_self (x : Side) (c : Call S R) :
    (s.perform encode (.call x c)).net x =
      s.net x ++ ((s.node x).seqEx.call c).1.emitted.map (Packet.map encode) := by
  simp [perform]

/-- Nothing else changes on the other way. -/
theorem perform_net_ne {x y : Side} (h : y ≠ x) (c : Call S R) :
    (s.perform encode (.call x c)).net y = s.net y := by
  simp [perform, h]

/-- What is left after a loss was there before. -/
theorem mem_perform_lose_net {x y : Side} {i : ℕ} {p : Packet R}
    (h : p ∈ (s.perform encode (.lose x i)).net y) : p ∈ s.net y := by
  simp only [perform] at h
  by_cases hy : y = x
  · subst hy
    rw [Function.update_self] at h
    exact List.mem_of_mem_eraseIdx h
  · rwa [Function.update_of_ne hy] at h

/-- Whatever is under way from `y` was sent by `y`. -/
structure Carries (encode : S → R) (base : SeqNo) (s : Session S R cap) (y : Side) : Prop where
  sends : Sends base (s.node y).seqEx (s.node y).history.sent
  inFlight : ∀ p ∈ s.net y,
    (∃ r, p = .ack r) ∨ ∃ k, wire? encode (s.node y).history.sent k = some p
  stored : ∀ x, y = x.peer → ∀ i p, (s.node x).seqEx.stored i = some p →
    ∃ k, wire? encode (s.node y).history.sent k = some p

/-- Nothing is under way at first. -/
theorem Carries.start (encode : S → R) (interval : Side → Int64) (base : SeqNo) (y : Side) :
    Carries encode base (start interval base : Session S R cap) y :=
  ⟨Sends.start (interval y) base, nofun, fun _ _ _ _ h => nomatch h⟩

/-- A packet taken from the network or the receive window was sent by the peer. -/
theorem Carries.input {base : SeqNo} {x : Side} (h : Carries encode base s x.peer) {c : Call S R}
    (hp : s.Possible (.call x c)) {n : SeqNo} {r : Option SeqNo} {b : Bool} {d : R}
    (hin : (s.node x).seqEx.input? c = some (.newWithData n r b d)) :
    ∃ k, wire? encode (s.node x.peer).history.sent k = some (.newWithData n r b d) := by
  cases c with
  | receive p =>
    cases hin
    rcases h.inFlight _ hp with ⟨a, ha⟩ | hk
    · exact absurd ha (Packet.newWithData_ne_ack n r b d a)
    · exact hk
  | pump => exact h.stored x rfl _ _ hin
  | _ => cases hin

/-- No possible step puts anything else under way. -/
theorem Carries.perform {base : SeqNo} {y : Side} (h : Carries encode base s y)
    {e : Event S R} (hp : s.Possible e) : Carries encode base (s.perform encode e) y := by
  cases e with
  | lose x i =>
    exact ⟨h.sends, fun p hm => h.inFlight p (mem_perform_lose_net hm), h.stored⟩
  | call x c =>
    rcases Side.eq_or_eq_peer y x with rfl | rfl
    · -- the sender itself makes a call
      obtain ⟨hs, hpre, hout⟩ := h.sends.call (h := (s.node x).history) c
      refine ⟨by simpa using hs, fun p hm => ?_, fun z hz i p hst => ?_⟩
      · rw [perform_net_self, List.mem_append, List.mem_map] at hm
        rw [perform_node_self]
        rcases hm with hm | ⟨q, hq, rfl⟩
        · exact (h.inFlight p hm).imp_right (Exists.imp fun _ => wire?_mono hpre)
        · rcases hout q hq with ⟨r, rfl⟩ | hmem
          · exact .inl ⟨r, rfl⟩
          · obtain ⟨k, hk⟩ := List.mem_iff_getElem?.mp hmem
            exact .inr ⟨k, by simp [wire?, hk]⟩
      · have hne : z ≠ x := by
          rintro rfl
          exact Side.ne_peer z hz
        rw [perform_node_ne hne] at hst
        obtain ⟨k, hk⟩ := h.stored z hz i p hst
        rw [perform_node_self]
        exact ⟨k, wire?_mono hpre hk⟩
    · -- its peer makes a call
      have hnode : (s.perform encode (.call y.peer c)).node y = s.node y :=
        perform_node_ne (Side.ne_peer y) c
      have hnet : (s.perform encode (.call y.peer c)).net y = s.net y :=
        perform_net_ne (Side.ne_peer y) c
      refine ⟨hnode ▸ h.sends, fun p hm => ?_, fun x hx i p hst => ?_⟩
      · rw [hnet] at hm
        rw [hnode]
        exact h.inFlight p hm
      · obtain rfl : x = y.peer := by rw [hx, Side.peer_peer]
        rw [perform_node_self] at hst
        rw [hnode]
        rcases SeqEx.call_stored c hst with hst | rfl
        · exact h.stored _ hx i p hst
        · -- a stored packet came from the network
          obtain ⟨n, r, b, d, -, rfl⟩ := SeqEx.stored_eq_some hst
          rcases h.inFlight _ (by simpa [Possible] using hp) with ⟨a, ha⟩ | hk
          · exact absurd ha (Packet.newWithData_ne_ack n r b d a)
          · exact hk

end Session

end SequentialExchange
