import SequentialExchange.Traffic

/-!
# An endpoint reassembles what its peer sent

Along every run of a session the deliveries of an endpoint are those of an
intake over the positions of its peer's packets, provided the peer has sent
fewer than `2^31` of them: below that bound a packet in flight is told apart
from every other by its number. The number of packets the endpoint itself sends
plays no role, and neither do the capacities of the peer.
-/

namespace SequentialExchange

open WrapNumbering GuardedRuns

variable {S R : Type*}

/-- Whether position `k` of the sent packets is SeqCst. -/
def orderedAt (sent : List (Packet S)) (k : ℕ) : Bool := (sent[k]?.map Packet.isSeqCst).getD false

namespace Packet

/-- The flag is not data. -/
@[simp] theorem isSeqCst_map {D E : Type*} (f : D → E) (p : Packet D) :
    (p.map f).isSeqCst = p.isSeqCst := by
  cases p <;> rfl

/-- Nor is the number. -/
@[simp] theorem seqNo?_map {D E : Type*} (f : D → E) (p : Packet D) :
    (p.map f).seqNo? = p.seqNo? := by
  cases p <;> rfl

/-- Nor is the number that is answered. -/
@[simp] theorem replyNo?_map {D E : Type*} (f : D → E) (p : Packet D) :
    (p.map f).replyNo? = p.replyNo? := by
  cases p <;> rfl

/-- The data is what is mapped. -/
@[simp] theorem payload?_map {D E : Type*} (f : D → E) (p : Packet D) :
    (p.map f).payload? = p.payload?.map f := by
  cases p <;> rfl

end Packet

/-- What arrives has the flag it was sent with. -/
theorem orderedAt_of_wire {encode : S → R} {sent : List (Packet S)} {k : ℕ} {p : Packet R}
    (h : wire? encode sent k = some p) : orderedAt sent k = p.isSeqCst := by
  obtain ⟨q, hq, rfl⟩ := Option.map_eq_some_iff.mp h
  simp [orderedAt, hq]

/-- The flags of earlier packets stay. -/
theorem orderedAt_mono {sent sent' : List (Packet S)} (h : sent <+: sent') {k : ℕ}
    (hk : k < sent.length) : orderedAt sent' k = orderedAt sent k := by
  obtain ⟨l, rfl⟩ := h
  simp [orderedAt, List.getElem?_append_left hk]

/-- Related lists relate every member of the second to one of the first. -/
theorem exists_left_of_forall₂ {α β : Type*} {Q : α → β → Prop} {l₁ : List α} {l₂ : List β}
    (h : List.Forall₂ Q l₁ l₂) {b : β} (hb : b ∈ l₂) : ∃ a ∈ l₁, Q a b := by
  induction h with
  | nil => cases hb
  | cons hq _ ih =>
    rcases List.mem_cons.mp hb with rfl | hb
    · exact ⟨_, List.mem_cons_self, hq⟩
    · obtain ⟨a, ha, hq'⟩ := ih hb
      exact ⟨a, List.mem_cons_of_mem _ ha, hq'⟩

section Endpoint

variable {CAP : ℕ} [NeZero CAP] {base : SeqNo} {s t : SeqEx S R CAP} {sent : List (Packet S)}
  {encode : S → R}

/-- What arrives has the number of its position. -/
theorem Sends.wire_seqNo {CAP' : ℕ} [NeZero CAP'] {p : SeqEx S R CAP'} (h : Sends base p sent)
    {k : ℕ} {q : Packet R} (hq : wire? encode sent k = some q) :
    q.seqNo? = some (number base k) := by
  obtain ⟨p', hp', rfl⟩ := Option.map_eq_some_iff.mp hq
  rw [Packet.seqNo?_map]
  exact h.numbered k p' hp'

/-- The endpoint hands over what `I` hands over: positions of `sent`. -/
structure Receives (encode : S → R) (base : SeqNo) (sent : List (Packet S)) (s : SeqEx S R CAP)
    (h : History S R) (I : Intake) : Prop where
  view : ReceiveView base s I.cursor I.early
  sound : I.Sound
  log : List.Forall₂ (fun d k => wire? encode sent k = some d.1) h.deliveries I.log

namespace Receives

variable {h : History S R} {I : Intake}

/-- A new endpoint has received nothing. -/
theorem start (encode : S → R) (interval : Int64) (base : SeqNo) (sent : List (Packet S)) :
    Receives encode base sent (SeqEx.new interval base : SeqEx S R CAP) History.empty
      Intake.start :=
  ⟨ReceiveView.start interval base, Intake.start_sound, List.Forall₂.nil⟩

/-- The peer may send more. -/
theorem mono (hr : Receives encode base sent s h I) {sent' : List (Packet S)}
    (hpre : sent <+: sent') : Receives encode base sent' s h I :=
  ⟨hr.view, hr.sound, hr.log.imp fun _ _ hk => wire?_mono hpre hk⟩

/-- What is in the log was delivered. -/
theorem delivery_of_mem_log (hr : Receives encode base sent s h I) {k : ℕ} (hk : k ∈ I.log) :
    ∃ d ∈ h.deliveries, wire? encode sent k = some d.1 :=
  exists_left_of_forall₂ hr.log hk

/-- Only positions that were sent are delivered. -/
theorem lt_of_mem_log (hr : Receives encode base sent s h I) {k : ℕ} (hk : k ∈ I.log) :
    k < sent.length := by
  obtain ⟨d, -, hd⟩ := hr.delivery_of_mem_log hk
  exact wire?_lt hd

/-- Nothing is handed over that was not sent. -/
theorem cursor_le (hr : Receives encode base sent s h I) : I.cursor ≤ sent.length := by
  rcases Nat.eq_zero_or_pos I.cursor with h0 | hpos
  · omega
  · have hlast : I.cursor - 1 ∈ I.log := (hr.sound.mem_log _).mpr (.inl (by omega))
    have := hr.lt_of_mem_log hlast
    omega

end Receives

/-- Whether the cell of `seqNo` holds the marker of an early delivery. -/
def SeqEx.isMarked (s : SeqEx S R CAP) (seqNo : SeqNo) : Bool :=
  match s.recvWindow (cell CAP seqNo) with
  | .unlocked _ => true
  | .occupied _ _ _ _ | .empty => false

/-- A copy of a packet that was handed over ahead of a gap arrives again while
a reply number can be reserved for it. -/
def SeqEx.EarlyCopy (s : SeqEx S R CAP) (p : Packet R) : Prop :=
  p.isSeqCst = false ∧ ∃ n ∈ p.seqNo?, s.InRange n ∧ s.isMarked n = true ∧
    s.isFullInner p.replyNo? = .ok ()

/-- An early copy is recognised from the state and the packet. -/
instance (s : SeqEx S R CAP) (p : Packet R) : Decidable (s.EarlyCopy p) :=
  inferInstanceAs (Decidable (_ ∧ _))

/-- An early copy: a normal packet in range with room in the window, marked already. -/
theorem SeqEx.earlyCopy_newWithData {n : SeqNo} {r : Option SeqNo} {b : Bool} {d : R} :
    s.EarlyCopy (.newWithData n r b d) ↔
      b = false ∧ s.InRange n ∧ s.isMarked n = true ∧ s.isFullInner r = .ok () := by
  simp [SeqEx.EarlyCopy]

/-- Placing a packet delivers the position of its number, and a marked position
is delivered by an early copy only. -/
theorem ReceiveView.placed {I : Intake} (hC : ∃ e, CAP = 2 ^ e)
    (hv : ReceiveView base s I.cursor I.early) {c : Call S R} {n : SeqNo} {r : Option SeqNo}
    {b doPump : Bool} {d : R} (hin : s.input? c = some (.newWithData n r b d))
    (hfull : s.isFullInner r = .ok ()) (hplaced : s.Placed c n b doPump t) :
    ∃ k, n = number base k ∧ k < I.cursor + 2 ^ 31 ∧
      (k ∈ I.early → c = .receive (.newWithData n r b d) ∧ s.EarlyCopy (.newWithData n r b d)) ∧
      ∀ ordered : ℕ → Bool, ordered k = b →
        ∃ J, Intake.Deliver ordered k I J ∧ ReceiveView base t J.cursor J.early := by
  cases hplaced with
  | next hnext =>
    have hn : n = number base I.cursor := by
      rw [← hv.cursor_eq]
      rcases hnext with rfl | ⟨hn, -⟩
      · simp only [SeqEx.input?, SeqEx.storedPacket?] at hin
        split at hin
        · rename_i n' r' b' d' hcell
          obtain ⟨rfl, -, -, -⟩ := Packet.newWithData_inj.mp (Option.some.inj hin)
          exact hv.stored_number hC hcell
        all_goals cases hin
      · exact hn
    obtain ⟨c', hlt, hrun, hstop, hview, -⟩ := hv.advance hC
    refine ⟨I.cursor, hn, by omega, fun hm => absurd hm hv.stopped, fun ordered _ => ?_⟩
    exact ⟨⟨c', {j ∈ I.early | c' < j}, I.log ++ [I.cursor]⟩,
      .next rfl hlt hrun hstop rfl rfl, hview⟩
  | ahead hpump hrange hne hcst =>
    obtain ⟨k, hk1, hk2, hk3, rfl⟩ := hv.position hC hrange
    have hlt : I.cursor < k := by
      refine lt_of_le_of_ne hk1 fun hc => hne ?_
      rw [hv.cursor_eq, hc]
    refine ⟨k, rfl, hk3, fun hm => ?_, fun ordered hord => ?_⟩
    · have hc : c = .receive (.newWithData (number base k) r b d) := by
        cases c with
        | receive p => rw [Option.some.inj hin]
        | pump => exact absurd rfl hpump
        | _ => cases hin
      subst hcst
      have hmarked : s.isMarked (number base k) = true := by
        simp [SeqEx.isMarked, hv.marks.marked k hm]
      exact ⟨hc, SeqEx.earlyCopy_newWithData.mpr ⟨rfl, hrange, hmarked, hfull⟩⟩
    · exact ⟨⟨I.cursor, insert k I.early, I.log ++ [k]⟩,
        .ahead hlt (by rw [hord, hcst]) rfl rfl rfl, hv.mark hC hlt hk2⟩

/-! ## One call -/

namespace History

variable {h : History S R}

/-- A result that is not an acknowledgement is a delivery. -/
theorem take_delivery {p : Packet R} {ok : RecvOkRaw S R} (hok : ∀ d, ok ≠ .ack d) :
    h.take p ok = { h with deliveries := h.deliveries ++ [(p, ok)] } := by
  cases ok with
  | ack d => exact absurd rfl (hok d)
  | _ => rfl

end History

/-- A delivery is not taken for an acknowledgement. -/
theorem SeqEx.handOver_ne_ack (n : SeqNo) (r : Option SeqNo) (b : Bool) (d : R) (d' : S) :
    (s.handOver n r b d).1 ≠ .ack d' := by
  rcases s.handOver_cases n r b d with ⟨_, _, -, -, -, h⟩ | ⟨-, h⟩ <;> rw [h] <;> nofun

/-- What one call does to the intake of an endpoint. -/
inductive Takes (encode : S → R) (base : SeqNo) (sent : List (Packet S)) (s : SeqEx S R CAP)
    (c : Call S R) (h h' : History S R) (I J : Intake) : Prop where
  /-- Nothing is handed over. -/
  | nothing (hJ : J = I) (hdel : h'.deliveries = h.deliveries)
  /-- Position `k` is handed over. -/
  | position (k : ℕ) (d : Packet R × RecvOkRaw S R) (hin : s.input? c = some d.1)
      (hk : wire? encode sent k = some d.1) (hdel : h'.deliveries = h.deliveries ++ [d])
      (hdeliver : Intake.Deliver (orderedAt sent) k I J)
      (hearly : k ∈ I.early → c = .receive d.1 ∧ s.EarlyCopy d.1)

/-- A packet that is handed over is the next of the intake or one ahead of it. -/
theorem Receives.hand {h : History S R} {I : Intake} {CAP' : ℕ} [NeZero CAP']
    {peer : SeqEx S R CAP'} (hC : ∃ e, CAP = 2 ^ e) (hr : Receives encode base sent s h I)
    (hs : Sends base peer sent) (hcount : sent.length < 2 ^ 31) {c : Call S R} {n : SeqNo}
    {r : Option SeqNo} {b doPump : Bool} {d : R} (hin : s.input? c = some (.newWithData n r b d))
    (hplaced : s.Placed c n b doPump t) (hfull : s.isFullInner r = .ok ())
    (hsent : ∃ k, wire? encode sent k = some (.newWithData n r b d)) :
    ∃ k J, wire? encode sent k = some (.newWithData n r b d) ∧
      Intake.Deliver (orderedAt sent) k I J ∧
      (∀ d' : R, ReceiveView base (t.handOver n r b d').2 J.cursor J.early) ∧
      (k ∈ I.early → c = .receive (.newWithData n r b d) ∧ s.EarlyCopy (.newWithData n r b d)) := by
  obtain ⟨k, hn, hlt, hearly, hdeliver⟩ := hr.view.placed hC hin hfull hplaced
  obtain ⟨k', hk'⟩ := hsent
  -- the position in the window is the one that was sent
  have hnum : number base k = number base k' := by
    have := hs.wire_seqNo hk'
    rw [Packet.seqNo?_newWithData, hn] at this
    exact Option.some.inj this
  have hlt' : k' < sent.length := wire?_lt hk'
  have hcur := hr.cursor_le
  obtain rfl : k = k' := (number_inj (by omega) (by omega)).mp hnum
  have hord : orderedAt sent k = b := by
    rw [orderedAt_of_wire hk', Packet.isSeqCst_newWithData]
  obtain ⟨J, hJ, hview⟩ := hdeliver (orderedAt sent) hord
  refine ⟨k, J, hk', hJ, fun d' => ?_, hearly⟩
  obtain ⟨hrecv, hwin⟩ := t.handOver_receive n r b d'
  exact hview.congr hrecv hwin

/-- The deliveries of one call, when what it works on was sent by the peer. -/
theorem Receives.call {h : History S R} {I : Intake} {CAP' : ℕ} [NeZero CAP']
    {peer : SeqEx S R CAP'} (hC : ∃ e, CAP = 2 ^ e) (hr : Receives encode base sent s h I)
    (hs : Sends base peer sent) (hcount : sent.length < 2 ^ 31) {c : Call S R}
    (hin : ∀ n r b d, s.input? c = some (.newWithData n r b d) →
      ∃ k, wire? encode sent k = some (.newWithData n r b d)) :
    ∃ J, Receives encode base sent (s.call c).2 (h.record (s.input? c) (s.call c).1) J ∧
      Takes encode base sent s c h (h.record (s.input? c) (s.call c).1) I J := by
  have heff := s.call_effect c
  generalize (s.call c).1 = a, (s.call c).2 = s' at heff ⊢
  have hquiet {u : SeqEx S R CAP} {h' : History S R} (hv : ReceiveView base u I.cursor I.early)
      (hd : h'.deliveries = h.deliveries) :
      ∃ J, Receives encode base sent u h' J ∧ Takes encode base sent s c h h' I J :=
    ⟨I, ⟨hv, hr.sound, hd ▸ hr.log⟩, .nothing rfl hd⟩
  cases heff with
  | send _ _ _ _ _ => exact hquiet (hr.view.congr rfl rfl) rfl
  | reply _ _ _ _ _ _ _ _ s1 hs1 =>
    subst hs1
    exact hquiet (hr.view.congr rfl rfl) rfl
  | ack _ _ _ _ _ => exact hquiet (hr.view.congr rfl rfl) rfl
  | unlock _ => exact hquiet (hr.view.congr rfl rfl) rfl
  | heed r hc e _ _ =>
    subst hc
    exact hquiet (hr.view.congr rfl rfl) rfl
  | resendAck _ _ _ _ _ _ _ _ => exact hquiet hr.view rfl
  | hold n r b d e _ hrange hdup hq =>
    rw [hq.2]
    exact hquiet (hr.view.store hC hrange hdup r b d) rfl
  | hand n r b d doPump t hi hplaced hfull _ =>
    obtain ⟨k, J, hk, hJ, hview, hearly⟩ := hr.hand hC hs hcount hi hplaced hfull (hin n r b d hi)
    have hok := t.handOver_ne_ack n r b d
    rw [hi, History.record_handing, History.take_delivery hok]
    refine ⟨J, ⟨hview d, hr.sound.deliver hJ, ?_⟩, .position k _ hi hk rfl hJ hearly⟩
    rw [hJ.log_eq]
    exact List.rel_append hr.log (.cons hk .nil)
  | resend _ _ hre _ hrec _ =>
    rw [hrec]
    exact hquiet (hr.view.congr hre.nextRecv hre.recvWindow) rfl
  | idle _ hq =>
    rw [hq.2]
    exact hquiet hr.view rfl

end Endpoint

/-! ## Whole runs -/

namespace Session

variable {cap : Side → ℕ} [∀ x, NeZero (cap x)] {encode : S → R} {base : SeqNo}
  {interval : Side → Int64} {guard : Session S R cap → Event S R → Prop} {s : Session S R cap}

/-- Whatever is under way was sent, in every state of a run. -/
theorem reaches_carries (hg : ∀ u e, guard u e → u.Possible e)
    (hrun : Reaches guard (perform encode) (start interval base) s) (y : Side) :
    Carries encode base s y :=
  hrun.invariant (I := fun u => Carries encode base u y) (Carries.start encode interval base y)
    fun u e _ hu he => hu.perform (hg u e he)

/-- The packets sent by `y` so far. -/
def sentBy (s : Session S R cap) (y : Side) : List (Packet S) := (s.node y).history.sent

/-- No step takes back what was sent. -/
theorem Carries.sentBy_grows {y : Side} (h : Carries encode base s y) (e : Event S R) :
    s.sentBy y <+: (s.perform encode e).sentBy y := by
  cases e with
  | lose x i => exact List.prefix_rfl
  | call x c =>
    rcases Side.eq_or_eq_peer y x with rfl | rfl
    · rw [sentBy, sentBy, perform_node_self]
      exact (h.sends.call c).2.1
    · rw [sentBy, sentBy, perform_node_ne (Side.ne_peer y)]

/-- The endpoint of `x` hands over what the intake `I` hands over. -/
abbrev Reassembles (encode : S → R) (base : SeqNo) (s : Session S R cap) (x : Side) (I : Intake) :
    Prop :=
  Receives encode base (s.sentBy x.peer) (s.node x).seqEx (s.node x).history I

/-- Every run with fewer than `2^31` packets from the peer is followed by an
intake, and a property of the intake that deliveries keep holds at its end. -/
theorem reaches_reassembles {x : Side} (hC : ∃ e, cap x = 2 ^ e)
    (hg : ∀ u e, guard u e → u.Possible e) {Q : List (Packet S) → Intake → Prop}
    (hstart : Q [] Intake.start)
    (hmono : ∀ (sent sent' : List (Packet S)) (I : Intake), sent <+: sent' →
      (∀ k ∈ I.log, k < sent.length) → I.Sound → Q sent I → Q sent' I)
    (hstep : ∀ u c (I J : Intake), Reaches guard (perform encode) (start interval base) u →
      guard u (.call x c) → Reassembles encode base u x I →
      Takes encode base (u.sentBy x.peer) (u.node x).seqEx c (u.node x).history
        ((u.perform encode (.call x c)).node x).history I J →
      Q (u.sentBy x.peer) I → Q (u.sentBy x.peer) J)
    (hrun : Reaches guard (perform encode) (start interval base) s)
    (hcount : s.sentCount x.peer < 2 ^ 31) :
    ∃ I, Reassembles encode base s x I ∧ Q (s.sentBy x.peer) I := by
  revert hcount
  refine hrun.invariant (I := fun u => u.sentCount x.peer < 2 ^ 31 →
    ∃ I, Reassembles encode base u x I ∧ Q (u.sentBy x.peer) I)
    (fun _ => ⟨.start, Receives.start encode (interval x) base _, hstart⟩) ?_
  intro u e hu ih he hcount
  have hcarries := reaches_carries hg hu x.peer
  have hpre := hcarries.sentBy_grows e
  have hle : u.sentCount x.peer ≤ (u.perform encode e).sentCount x.peer := hpre.length_le
  obtain ⟨I, hI, hQ⟩ := ih (lt_of_le_of_lt hle hcount)
  cases e with
  | lose y i => exact ⟨I, hI, hQ⟩
  | call y c =>
    rcases Side.eq_or_eq_peer x y with rfl | rfl
    · -- the receiver itself makes a call
      have hpeer : (u.perform encode (.call y c)).node y.peer = u.node y.peer :=
        perform_node_ne (Side.peer_ne y) c
      obtain ⟨J, hJ, htakes⟩ := hI.call hC hcarries.sends (lt_of_le_of_lt hle hcount)
        fun n r b d hin => hcarries.input (hg u _ he) hin
      have hQ' := hstep u c I J hu he hI (by rw [perform_node_self]; exact htakes) hQ
      refine ⟨J, ?_, ?_⟩
      · rw [Reassembles, sentBy, hpeer, perform_node_self]
        exact hJ
      · rw [sentBy, hpeer]
        exact hQ'
    · -- the peer makes a call
      have hself : (u.perform encode (.call x.peer c)).node x = u.node x :=
        perform_node_ne (Side.ne_peer x) c
      refine ⟨I, ?_, hmono _ _ I hpre (fun k hk => hI.lt_of_mem_log hk) hI.sound hQ⟩
      rw [Reassembles, hself]
      exact hI.mono hpre

/-- The event is not the processing of an early copy by `x`. -/
def NoEarlyCopy (x : Side) (s : Session S R cap) : Event S R → Prop
  | .call y (.receive p) => y = x → ¬ (s.node x).seqEx.EarlyCopy p
  | _ => True

/-- The condition is read off the state before the step. -/
instance decidableNoEarlyCopy (x : Side) (s : Session S R cap) :
    ∀ e, Decidable (s.NoEarlyCopy x e)
  | .call y (.receive p) =>
    inferInstanceAs (Decidable (y = x → ¬ (s.node x).seqEx.EarlyCopy p))
  | .call _ (.trySend ..) | .call _ .pump | .call _ (.reply ..) | .call _ (.ack ..)
  | .call _ .unlock | .call _ (.serviceDirect ..) | .call _ (.service ..) | .lose .. =>
    isTrue trivial

end Session

end SequentialExchange
