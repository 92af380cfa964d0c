import SequentialExchange.ExchangeStandstill
import SequentialExchange.ExchangeRefinement

/-!
# Sessions that send nothing more

A session is resumed by resending, delivering, pumping, acknowledging whatever
is outstanding and giving a held lock up. It is finished when both send windows
are empty and every packet was delivered. A wedge is read off the windows and
cursors of both peers, and a wedged session is never finished.
-/

namespace SequentialExchange

open WrapNumbering GuardedRuns Exchange

variable {S R : Type*}

/-- The packet in the cell of the next number to send. -/
def SeqEx.blocker? {CAP : ℕ} [NeZero CAP] (s : SeqEx S R CAP) : Option (Packet S) :=
  s.pending (cell CAP s.nextSendSeqNo)

namespace Session

variable {cap : Side → ℕ} [∀ x, NeZero (cap x)]

/-- The continuation sends nothing new and acknowledges what is outstanding. -/
def Resumes (s : Session S R cap) : Event S R → Prop
  | .call x (.receive p) => p ∈ s.net x.peer
  | .call x (.ack r unlock) => r ∈ (s.node x).seqEx.concurrentReplies ∧ unlock = false
  | .call x .unlock => (s.node x).seqEx.isLocked = true
  | .call _ .pump | .call _ (.service _) | .call _ (.serviceDirect ..) => True
  | _ => False

/-- Both send windows are empty and everything sent was delivered. -/
def Finished (encode : S → R) (s : Session S R cap) : Prop :=
  ∀ x, (∀ i, (s.node x).seqEx.sendWindow i = none) ∧
    ∀ p ∈ s.sentBy x, ∃ d ∈ (s.node x.peer).history.deliveries, d.1 = p.map encode

/-- Some continuation finishes the session. -/
def CanFinish (encode : S → R) (s : Session S R cap) : Prop :=
  ∃ t, Reaches Resumes (perform encode) s t ∧ t.Finished encode

/-- The send window of `x` is full up to the packet that its peer waits for. -/
def Jams (s : Session S R cap) (x : Side) : Prop :=
  ∃ p, (s.node x).seqEx.blocker? = some p ∧ p.seqNo? = some (s.node x.peer).seqEx.nextRecvSeqNo

/-- The send window of `x` is full up to a packet that the peer has answered
with a SeqCst packet which is not the next one for `x`. -/
def Starves (s : Session S R cap) (x : Side) : Prop :=
  ∃ p, (s.node x).seqEx.blocker? = some p ∧
    ∃ i q, (s.node x.peer).seqEx.pending i = some q ∧ q.replyNo? = p.seqNo? ∧
      q.isSeqCst = true ∧ q.seqNo? ≠ some (s.node x).seqEx.nextRecvSeqNo

/-- The two peers wait for each other. -/
def Wedged (s : Session S R cap) : Prop := (∀ x, s.Jams x) ∨ ∃ x, s.Starves x

/-- A search through one optional value. -/
instance decidableExistsPending {α : Type*} (o : Option α) (p : α → Prop) [DecidablePred p] :
    Decidable (∃ a, o = some a ∧ p a) :=
  match o with
  | none => isFalse nofun
  | some a => decidable_of_iff (p a) ⟨fun h => ⟨a, rfl, h⟩, fun ⟨_, ha, h⟩ => by cases ha; exact h⟩

/-- A search through both sides. -/
instance decidableExistsSide {p : Side → Prop} [DecidablePred p] : Decidable (∃ x, p x) :=
  decidable_of_iff (p .a ∨ p .b)
    ⟨fun h => h.elim (fun h => ⟨.a, h⟩) fun h => ⟨.b, h⟩, fun ⟨x, h⟩ => by
      cases x
      exacts [.inl h, .inr h]⟩

/-- A jam is read off the two windows. -/
instance decidableJams (s : Session S R cap) (x : Side) : Decidable (s.Jams x) :=
  inferInstanceAs (Decidable (∃ _, _ = some _ ∧ _))

/-- So is a starved window. -/
instance decidableStarves (s : Session S R cap) (x : Side) : Decidable (s.Starves x) :=
  inferInstanceAs (Decidable (∃ _, _ = some _ ∧ ∃ _ _, _ = some _ ∧ _))

/-- And so is a wedged session. -/
instance decidableWedged (s : Session S R cap) : Decidable s.Wedged :=
  inferInstanceAs (Decidable (_ ∨ _))

end Session

/-! ## What a continuation leaves alone -/

section Endpoint

variable {CAP : ℕ} [NeZero CAP] {s : SeqEx S R CAP}

/-- A call that sends nothing new draws no number, only empties send cells and
adds to what the application was told. -/
structure SeqEx.Settles (s : SeqEx S R CAP) (h : History S R) (c : Call S R) : Prop where
  sent : (h.record (s.input? c) (s.call c).1).sent = h.sent
  nextSend : (s.call c).2.nextSendSeqNo = s.nextSendSeqNo
  pending : ∀ i p, (s.call c).2.pending i = some p → s.pending i = some p
  deliveries : h.deliveries.length ≤ (h.record (s.input? c) (s.call c).1).deliveries.length
  acks : h.acks.length ≤ (h.record (s.input? c) (s.call c).1).acks.length

/-- A call that neither sends nor replies settles what is under way. -/
theorem SeqEx.settles (s : SeqEx S R CAP) (h : History S R) {c : Call S R}
    (hsend : ∀ t b f, c ≠ .trySend t b f) (hreply : ∀ t r u b d, c ≠ .reply t r u b d) :
    s.Settles h c := by
  have heff := s.call_effect c
  suffices hall : ∀ a s', s.Effect c a s' →
      (h.record (s.input? c) a).sent = h.sent ∧ s'.nextSendSeqNo = s.nextSendSeqNo ∧
        (∀ i p, s'.pending i = some p → s.pending i = some p) ∧
        h.deliveries.length ≤ (h.record (s.input? c) a).deliveries.length ∧
        h.acks.length ≤ (h.record (s.input? c) a).acks.length by
    obtain ⟨h1, h2, h3, h4, h5⟩ := hall _ _ heff
    exact ⟨h1, h2, h3, h4, h5⟩
  intro a s' heff
  cases heff with
  | send t b f hc _ => exact absurd hc (hsend t b f)
  | reply t r u b d hc _ _ _ _ => exact absurd hc (hreply t r u b d)
  | ack r u _ l _ => exact ⟨rfl, rfl, fun _ _ hp => hp, le_rfl, le_rfl⟩
  | unlock _ => exact ⟨rfl, rfl, fun _ _ hp => hp, le_rfl, le_rfl⟩
  | heed r hc e _ _ =>
    subst hc
    refine ⟨rfl, rfl, fun i p hp => ?_, le_rfl, by simp [SeqEx.input?, History.take]⟩
    rw [pending_remove (s := s) (i := cell CAP r) rfl] at hp
    exact pending_of_remove hp
  | resendAck n r b d _ _ _ _ => exact ⟨rfl, rfl, fun _ _ hp => hp, le_rfl, le_rfl⟩
  | hold n r b d e _ _ _ hq =>
    rw [hq.2]
    exact ⟨rfl, rfl, fun _ _ hp => hp, le_rfl, le_rfl⟩
  | hand n r b d doPump t hin hplaced _ _ =>
    obtain ⟨hwin, hnext, -, -⟩ := hplaced.frame
    obtain ⟨hn, hw⟩ := t.handOver_send n r b d
    rw [hin, History.record_handing, History.take_delivery (t.handOver_ne_ack n r b d)]
    refine ⟨rfl, hn.trans hnext, fun i p hp => ?_, by simp, le_rfl⟩
    rw [← pending_congr hwin]
    exact hw i p hp
  | resend _ _ hre _ hrec _ =>
    rw [hrec]
    exact ⟨rfl, hre.nextSend, fun i p hp => hre.pending ▸ hp, le_rfl, le_rfl⟩
  | idle _ hq =>
    rw [hq.2]
    exact ⟨rfl, rfl, fun _ _ hp => hp, le_rfl, le_rfl⟩

end Endpoint

namespace Session

variable {cap : Side → ℕ} [∀ x, NeZero (cap x)] {encode : S → R} {base : SeqNo}
  {s t u : Session S R cap}

/-- What the application of `x` was told so far. -/
def progress (s : Session S R cap) (x : Side) : ℕ :=
  (s.node x).history.deliveries.length + (s.node x).history.acks.length

/-- `t` can follow `s` when nothing new is sent. -/
structure Later (s t : Session S R cap) : Prop where
  sentBy : ∀ x, t.sentBy x = s.sentBy x
  nextSend : ∀ x, (t.node x).seqEx.nextSendSeqNo = (s.node x).seqEx.nextSendSeqNo
  pending : ∀ x i p, (t.node x).seqEx.pending i = some p → (s.node x).seqEx.pending i = some p
  progress : ∀ x, s.progress x ≤ t.progress x
  net : ∀ x, ∀ p ∈ s.net x, p ∈ t.net x

omit [∀ x, NeZero (cap x)] in
/-- A state is later than itself. -/
theorem Later.rfl' (s : Session S R cap) : s.Later s :=
  ⟨fun _ => rfl, fun _ => rfl, fun _ _ _ hp => hp, fun _ => le_rfl, fun _ _ hp => hp⟩

omit [∀ x, NeZero (cap x)] in
/-- Later than a later state. -/
theorem Later.trans (h : s.Later t) (h' : t.Later u) : s.Later u where
  sentBy x := (h'.sentBy x).trans (h.sentBy x)
  nextSend x := (h'.nextSend x).trans (h.nextSend x)
  pending x i p hp := h.pending x i p (h'.pending x i p hp)
  progress x := (h.progress x).trans (h'.progress x)
  net x p hp := h'.net x p (h.net x p hp)

/-- A step that sends nothing new leads to a later state. -/
theorem Resumes.later {e : Event S R} (h : s.Resumes e) : s.Later (s.perform encode e) := by
  cases e with
  | lose x i => exact h.elim
  | call x c =>
    have hsettles := (s.node x).seqEx.settles (s.node x).history (c := c)
      (by rintro _ _ _ rfl; exact h) (by rintro _ _ _ _ _ rfl; exact h)
    have hnode (y : Side) : (s.perform encode (.call x c)).node y = s.node y ∨ y = x ∧
        (s.perform encode (.call x c)).node y = ⟨((s.node y).seqEx.call c).2,
          (s.node y).history.record ((s.node y).seqEx.input? c) ((s.node y).seqEx.call c).1⟩ := by
      rcases Side.eq_or_eq_peer x y with rfl | rfl
      · exact .inr ⟨rfl, perform_node_self y c⟩
      · exact .inl (perform_node_ne (Side.peer_ne x) c)
    refine ⟨fun y => ?_, fun y => ?_, fun y => ?_, fun y => ?_, fun y p hp => ?_⟩
    · rcases hnode y with hy | ⟨rfl, hy⟩ <;> rw [Session.sentBy, hy]
      exacts [rfl, hsettles.sent]
    · rcases hnode y with hy | ⟨rfl, hy⟩ <;> rw [hy]
      exact hsettles.nextSend
    · rcases hnode y with hy | ⟨rfl, hy⟩ <;> rw [hy]
      exacts [fun _ _ hp => hp, hsettles.pending]
    · rcases hnode y with hy | ⟨rfl, hy⟩ <;> rw [Session.progress, Session.progress, hy]
      exact Nat.add_le_add hsettles.deliveries hsettles.acks
    · rcases Side.eq_or_eq_peer x y with rfl | rfl
      · rw [perform_net_self]
        exact List.mem_append_left _ hp
      · rwa [perform_net_ne (Side.peer_ne x)]

omit [∀ x, NeZero (cap x)] in
/-- Only packets in flight are delivered. -/
theorem Resumes.possible {e : Event S R} (h : s.Resumes e) : s.Possible e := by
  cases e with
  | lose x i => exact h.elim
  | call x c =>
    cases c with
    | receive p => exact h
    | _ => trivial

/-- So does a run of such steps. -/
theorem Reaches.later {guard : Session S R cap → Event S R → Prop}
    (hg : ∀ u e, guard u e → u.Resumes e) (h : Reaches guard (perform encode) s t) : s.Later t :=
  h.invariant (I := fun u => s.Later u) (Later.rfl' s) fun u e _ hu he =>
    hu.trans (hg u e he).later

/-- A wedge was there before, if the cursor of every peer whose next send cell
is taken is the same. -/
theorem Wedged.of_later (h : s.Later t) (hcursor : ∀ x, (t.node x).seqEx.blocker? = none ∨
      (t.node x).seqEx.nextRecvSeqNo = (s.node x).seqEx.nextRecvSeqNo)
    (hw : t.Wedged) : s.Wedged := by
  have hblocker {x : Side} {p : Packet S} (hp : (t.node x).seqEx.blocker? = some p) :
      (s.node x).seqEx.blocker? = some p ∧
        (t.node x).seqEx.nextRecvSeqNo = (s.node x).seqEx.nextRecvSeqNo := by
    refine ⟨?_, (hcursor x).resolve_left (by simp [hp])⟩
    rw [SeqEx.blocker?, ← h.nextSend x]
    exact h.pending x _ p hp
  rcases hw with hjam | ⟨x, p, hp, i, q, hq, hreply, hcst, hne⟩
  · refine .inl fun x => ?_
    obtain ⟨p, hp, hseq⟩ := hjam x
    obtain ⟨p', hp', -⟩ := hjam x.peer
    exact ⟨p, (hblocker hp).1, (hblocker hp').2 ▸ hseq⟩
  · exact .inr ⟨x, p, (hblocker hp).1, i, q, h.pending _ _ q hq, hreply, hcst,
      (hblocker hp).2 ▸ hne⟩

end Session

/-! ## A wedge is a standstill -/

section Endpoint

variable {CAP : ℕ} [NeZero CAP] {base : SeqNo} {encode : S → R} {sentB : List (Packet S)}
  {s : SeqEx S R CAP} {h : History S R} {A B : Party}

/-- The packet in the next cell is the item that fills the ring. -/
theorem Shows.blocker_iff (hC : ∃ e, CAP = 2 ^ e) (hs : Shows encode base sentB s h A)
    {p : Packet S} :
    s.blocker? = some p ↔ ∃ k, A.Fills (period CAP) k ∧ h.sent[k]? = some p := by
  have hcell : cell CAP s.nextSendSeqNo = cell CAP (number base A.next) := by
    rw [hs.sends.next, hs.next_eq]
  rw [SeqEx.blocker?, hcell]
  constructor
  · intro hp
    obtain ⟨k, hk, hcells, hsent⟩ := hs.pending_live _ p hp
    exact ⟨k, ⟨hk, (cell_number_eq_iff hC base k A.next).mp hcells.symm⟩, hsent⟩
  · rintro ⟨k, ⟨hk, hmod⟩, hsent⟩
    rw [← (cell_number_eq_iff hC base k A.next).mpr hmod, hs.live_pending k hk, hsent]

end Endpoint

namespace Session

variable {cap : Side → ℕ} [∀ x, NeZero (cap x)] {encode : S → R} {base : SeqNo}
  {s t : Session S R cap} {W : Side → Party}

namespace Follows

omit [∀ x, NeZero (cap x)] in
/-- Positions below the counts are told apart by their numbers. -/
theorem number_eq_iff (hcount : ∀ x, s.sentCount x < 2 ^ 31) {x : Side} {j k : ℕ}
    (hj : j ≤ s.sentCount x) (hk : k ≤ s.sentCount x) : number base j = number base k ↔ j = k := by
  have := hcount x
  exact number_inj (by omega) (by omega)

/-- The peer has taken in no more than was sent. -/
theorem cursor_le (hW : Follows encode base s W) (x : Side) :
    (W x.peer).cursor ≤ s.sentCount x := by
  have h := (hW.consistent x.peer).cursor_le
  rwa [Side.peer_peer, (hW.shows x).next_eq] at h

/-- A full window jams when its ring does. -/
theorem jams_iff (hC : ∀ x, ∃ e, cap x = 2 ^ e) (hW : Follows encode base s W)
    (hcount : ∀ x, s.sentCount x < 2 ^ 31) (x : Side) :
    s.Jams x ↔ Exchange.Jams (period (cap x)) (W x) (W x.peer) := by
  have hs := hW.shows x
  have hcursor := (hW.shows x.peer).receives.view.cursor_eq
  constructor
  · rintro ⟨p, hp, hseq⟩
    obtain ⟨k, hk, hsent⟩ := (hs.blocker_iff (hC x)).mp hp
    have hklt := (List.getElem?_eq_some_iff.mp hsent).1
    rw [hs.sends.numbered k p hsent, hcursor] at hseq
    rwa [(number_eq_iff hcount (x := x) hklt.le (hW.cursor_le x)).mp (Option.some.inj hseq)] at hk
  · intro hk
    obtain ⟨p, hsent, -⟩ := hs.pending_of_live (hW.consistent x) hk.1
    refine ⟨p, (hs.blocker_iff (hC x)).mpr ⟨_, hk, hsent⟩, ?_⟩
    rw [hs.sends.numbered _ p hsent, hcursor]
    rfl

/-- A full window starves when its ring does. -/
theorem starves_iff (hC : ∀ x, ∃ e, cap x = 2 ^ e) (hW : Follows encode base s W)
    (hcount : ∀ x, s.sentCount x < 2 ^ 31) (x : Side) :
    s.Starves x ↔ Exchange.Starves (period (cap x)) (W x) (W x.peer) := by
  have hs := hW.shows x
  have hs' := hW.shows x.peer
  have hcursor := hs.receives.view.cursor_eq
  have hcursorle := hW.cursor_le x.peer
  rw [Side.peer_peer] at hcursorle
  have hordered {j : ℕ} {q : Packet S} (hq : (s.node x.peer).history.sent[j]? = some q) :
      (W x.peer).ordered j = q.isSeqCst := by
    rw [stands_ordered hs'.items, orderedAt, hq]
    rfl
  constructor
  · rintro ⟨p, hp, i, q, hq, hreply, hcst, hne⟩
    obtain ⟨a, ha, hsent⟩ := (hs.blocker_iff (hC x)).mp hp
    obtain ⟨j, hj, -, hqsent⟩ := hs'.pending_live i q hq
    have halt := (List.getElem?_eq_some_iff.mp hsent).1
    rw [hs.sends.numbered a p hsent, stands_replyNo hs'.items hqsent] at hreply
    obtain ⟨r, hr, hnum⟩ := Option.map_eq_some_iff.mp hreply
    have hrlt := (hW.consistent x.peer).replied_lt hr
    rw [Side.peer_peer, hs.next_eq] at hrlt
    obtain rfl := (number_eq_iff hcount (x := x) hrlt.le halt.le).mp hnum
    refine ⟨r, ha, j, hj, hr, (hordered hqsent).trans hcst, ?_⟩
    rintro rfl
    rw [hs'.sends.numbered _ q hqsent, hcursor] at hne
    exact hne rfl
  · rintro ⟨a, ha, j, hj, hans, hord, hne⟩
    obtain ⟨p, hsent, -⟩ := hs.pending_of_live (hW.consistent x) ha.1
    obtain ⟨q, hqsent, hq⟩ := hs'.pending_of_live (hW.consistent x.peer) hj
    have hjlt := (List.getElem?_eq_some_iff.mp hqsent).1
    refine ⟨p, (hs.blocker_iff (hC x)).mpr ⟨a, ha, hsent⟩, _, q, hq, ?_, ?_, ?_⟩
    · rw [hs.sends.numbered a p hsent, stands_replyNo hs'.items hqsent, hans]
      rfl
    · rw [← hordered hqsent, hord]
    · rw [hs'.sends.numbered j q hqsent, hcursor]
      intro hnum
      exact hne ((number_eq_iff hcount (x := x.peer) hjlt.le hcursorle).mp (Option.some.inj hnum))

/-- A session is wedged when the exchange that it shows is stuck. -/
theorem wedged_iff (hC : ∀ x, ∃ e, cap x = 2 ^ e) (hW : Follows encode base s W)
    (hcount : ∀ x, s.sentCount x < 2 ^ 31) (x : Side) :
    s.Wedged ↔ Stuck (period (cap x)) (period (cap x.peer)) (W x) (W x.peer) := by
  have hpeer := hW.jams_iff hC hcount x.peer
  have hpeer' := hW.starves_iff hC hcount x.peer
  rw [Side.peer_peer] at hpeer hpeer'
  have hside {p : Side → Prop} : ((∀ y, p y) ↔ p x ∧ p x.peer) ∧ ((∃ y, p y) ↔ p x ∨ p x.peer) := by
    refine ⟨⟨fun h => ⟨h x, h x.peer⟩, fun h y => ?_⟩, ⟨fun ⟨y, h⟩ => ?_, fun h => ?_⟩⟩
    · rcases Side.eq_or_eq_peer x y with rfl | rfl
      exacts [h.1, h.2]
    · rcases Side.eq_or_eq_peer x y with rfl | rfl
      exacts [.inl h, .inr h]
    · exact h.elim (fun h => ⟨x, h⟩) fun h => ⟨x.peer, h⟩
  rw [Wedged, hside.1, hside.2, hW.jams_iff hC hcount x, hW.starves_iff hC hcount x, hpeer, hpeer']
  rfl

end Follows

/-- Both parties are at a standstill. -/
def AtStandstill (cap : Side → ℕ) (W : Side → Party) : Prop :=
  ∀ x, Standstill (period (cap x)) (period (cap x.peer)) (W x) (W x.peer)

/-- Whatever the continuation, the exchange stays at a standstill. -/
theorem reaches_standstill (hC : ∀ x, ∃ e ≥ 2, cap x = 2 ^ e)
    (hcarries : ∀ x, Carries encode base s x) (hcount : ∀ x, s.sentCount x < 2 ^ 31)
    (hW : Follows encode base s W) (hstill : AtStandstill cap W)
    (hrun : Reaches Resumes (perform encode) s t) :
    ∃ W', Follows encode base t W' ∧ AtStandstill cap W' := by
  suffices h : (∀ x, Carries encode base t x) ∧
      ∃ W', Follows encode base t W' ∧ AtStandstill cap W' from h.2
  refine hrun.invariant (I := fun u => (∀ x, Carries encode base u x) ∧
    ∃ W', Follows encode base u W' ∧ AtStandstill cap W') ⟨hcarries, W, hW, hstill⟩ ?_
  rintro u e hu ⟨hcarries, W, hW, hstill⟩ he
  have hlater := Reaches.later (fun _ _ h => h) hu
  have hcount' (x : Side) : u.sentCount x < 2 ^ 31 := by
    rw [sentCount, show (u.node x).history.sent = _ from hlater.sentBy x]
    exact hcount x
  obtain ⟨W', hW', hadv, -⟩ := hW.perform hC hcarries hcount' he.possible
  refine ⟨fun x => (hcarries x).perform he.possible, W', hW', ?_⟩
  rcases hadv with rfl | ⟨x, A', hact, rfl⟩
  · exact hstill
  have hnext : A'.next = (W x).next := by
    have h' := (hW'.shows x).next_eq
    rw [Function.update_self] at h'
    rw [h', (hW.shows x).next_eq]
    exact congrArg List.length (he.later.sentBy x)
  have hback := hW.consistent x.peer
  rw [Side.peer_peer] at hback
  have hx := (hstill x).act hback hact hnext
  intro y
  rcases Side.eq_or_eq_peer x y with rfl | rfl
  · rwa [Function.update_self, Function.update_of_ne (Side.peer_ne y)]
  · rw [Side.peer_peer, Function.update_self, Function.update_of_ne (Side.peer_ne x)]
    exact hx.symm

/-- A wedged session cannot be finished. -/
theorem Wedged.not_canFinish (hC : ∀ x, ∃ e ≥ 2, cap x = 2 ^ e)
    (hcarries : ∀ x, Carries encode base s x) (hcount : ∀ x, s.sentCount x < 2 ^ 31)
    (hW : Follows encode base s W) (hlinked : AllLinked cap W) (h : s.Wedged) :
    ¬ s.CanFinish encode := by
  have hpow : ∀ x, ∃ e, cap x = 2 ^ e := fun x => (hC x).imp fun _ h => h.2
  rintro ⟨t, hrun, hfinished⟩
  have hstill : AtStandstill cap W := fun x => by
    have hback := hlinked x.peer
    rw [Side.peer_peer] at hback
    exact Standstill.of_stuck (hlinked x) hback ((hW.wedged_iff hpow hcount x).mp h)
  obtain ⟨W', hW', hstill'⟩ := reaches_standstill hC hcarries hcount hW hstill hrun
  have hempty (x : Side) (k : ℕ) (hk : k ∈ (W' x).live) : False := by
    obtain ⟨p, -, hp⟩ := (hW'.shows x).pending_of_live (hW'.consistent x) hk
    simp [SeqEx.pending, (hfinished x).1] at hp
  obtain ⟨k, hk | hk⟩ := (hstill' .a).live
  · exact hempty .a k hk
  · exact hempty _ k hk

end Session

end SequentialExchange
