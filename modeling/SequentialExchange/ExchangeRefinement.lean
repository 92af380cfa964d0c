import SequentialExchange.ExchangeLinks
import SequentialExchange.Reassembly
import SequentialExchange.Reservations

/-!
# A session is an exchange of two parties

Every run of a session with fewer than `2^31` packets in each direction is
followed step by step by an exchange on unbounded positions. Ring cells become
places modulo the period of the ring, and numbers become positions.
-/

namespace SequentialExchange

open WrapNumbering GuardedRuns Exchange

variable {S R : Type*}

/-- The item stands for the packet. -/
def Stands (base : SeqNo) (p : Packet S) (item : Item) : Prop :=
  p.replyNo? = item.answers.map (number base) ∧ p.isSeqCst = item.ordered

/-- The delivery was paired with position `m` of the packets sent. -/
def PairedWith (base : SeqNo) (sent : List (Packet S)) (d : Packet R × RecvOkRaw S R)
    (m : Option ℕ) : Prop :=
  ∃ n r b v, d.1 = .newWithData n r b v ∧
    (m = none ∧ d.2 = .payload n b v ∨
      ∃ j q w, m = some j ∧ r = some (number base j) ∧ sent[j]? = some q ∧
        q.payload? = some w ∧ d.2 = .reply n b v w)

/-- A pair stays a pair when the peer sends more. -/
theorem PairedWith.mono {base : SeqNo} {sent sent' : List (Packet S)} (hpre : sent <+: sent')
    {d : Packet R × RecvOkRaw S R} {m : Option ℕ} (h : PairedWith base sent d m) :
    PairedWith base sent' d m := by
  obtain ⟨n, r, b, v, hd, hm⟩ := h
  refine ⟨n, r, b, v, hd, hm.imp_right ?_⟩
  rintro ⟨j, q, w, hj, hr, hq, hrest⟩
  obtain ⟨l, rfl⟩ := hpre
  obtain ⟨hlt, -⟩ := List.getElem?_eq_some_iff.mp hq
  exact ⟨j, q, w, hj, hr, by rw [List.getElem?_append_left hlt, hq], hrest⟩

section Items

variable {base : SeqNo} {encode : S → R} {sent : List (Packet S)} {B : Party}

/-- Every packet that was sent has its item. -/
theorem stands_get (h : List.Forall₂ (Stands base) sent B.sent) {k : ℕ} {p : Packet S}
    (hp : sent[k]? = some p) : ∃ item, B.sent[k]? = some item ∧ Stands base p item := by
  obtain ⟨hlt, rfl⟩ := List.getElem?_eq_some_iff.mp hp
  have hlt' : k < B.sent.length := h.length_eq ▸ hlt
  exact ⟨B.sent[k], List.getElem?_eq_getElem hlt', h.get hlt hlt'⟩

/-- A packet answers what its item answers. -/
theorem stands_replyNo (h : List.Forall₂ (Stands base) sent B.sent) {k : ℕ} {p : Packet S}
    (hp : sent[k]? = some p) : p.replyNo? = (B.answers k).map (number base) := by
  obtain ⟨item, hitem, hstands, -⟩ := stands_get h hp
  rw [hstands, Party.answers, hitem]
  rfl

/-- So does what arrives of it. -/
theorem stands_wire (h : List.Forall₂ (Stands base) sent B.sent) {k : ℕ} {n : SeqNo}
    {r : Option SeqNo} {b : Bool} {d : R} (hp : wire? encode sent k = some (.newWithData n r b d)) :
    r = (B.answers k).map (number base) := by
  obtain ⟨q, hq, hmap⟩ := Option.map_eq_some_iff.mp hp
  rw [← stands_replyNo h hq, ← Packet.replyNo?_map encode, hmap, Packet.replyNo?_newWithData]

/-- The ordered items are the SeqCst packets. -/
theorem stands_ordered (h : List.Forall₂ (Stands base) sent B.sent) :
    B.ordered = orderedAt sent := by
  funext k
  rcases Nat.lt_or_ge k sent.length with hlt | hge
  · obtain ⟨item, hitem, -, hord⟩ := stands_get h (List.getElem?_eq_getElem hlt)
    simp [Party.ordered, orderedAt, hitem, List.getElem?_eq_getElem hlt, hord]
  · have hge' : B.sent.length ≤ k := h.length_eq ▸ hge
    simp [Party.ordered, orderedAt, List.getElem?_eq_none hge, List.getElem?_eq_none hge']

end Items

section Endpoint

variable {CAP : ℕ} [NeZero CAP] {base : SeqNo} {encode : S → R} {sentB : List (Packet S)}
  {s t : SeqEx S R CAP} {h : History S R} {A B : Party}

/-- The endpoint, its history and what its peer has sent show the party `A`. -/
structure Shows (encode : S → R) (base : SeqNo) (sentB : List (Packet S)) (s : SeqEx S R CAP)
    (h : History S R) (A : Party) : Prop where
  sends : Sends base s h.sent
  receives : Receives encode base sentB s h A.intake
  items : List.Forall₂ (Stands base) h.sent A.sent
  live_pending : ∀ k ∈ A.live, s.pending (cell CAP (number base k)) = h.sent[k]?
  pending_live : ∀ i p, s.pending i = some p →
    ∃ k ∈ A.live, i = cell CAP (number base k) ∧ h.sent[k]? = some p
  replies : s.concurrentReplies.Perm (A.owed.map (number base))
  fits : s.Fits
  links : List.Forall₂ (fun d e => PairedWith base h.sent d e.2) h.deliveries A.log
  acks : List.Forall₂
    (fun a r => a.1 = number base r ∧ ∃ q, h.sent[r]? = some q ∧ q.payload? = some a.2)
    h.acks A.heard

namespace Shows

/-- A new endpoint shows a party that has done nothing. -/
theorem start (encode : S → R) (interval : Int64) (base : SeqNo) (sentB : List (Packet S)) :
    Shows encode base sentB (SeqEx.new interval base : SeqEx S R CAP) History.empty
      Party.start where
  sends := Sends.start interval base
  receives := Receives.start encode interval base sentB
  items := List.Forall₂.nil
  live_pending := nofun
  pending_live := nofun
  replies := List.Perm.refl _
  fits := SeqEx.Fits.start interval base
  links := List.Forall₂.nil
  acks := List.Forall₂.nil

/-- The peer may send more. -/
theorem mono (hs : Shows encode base sentB s h A) {sentB' : List (Packet S)}
    (hpre : sentB <+: sentB') : Shows encode base sentB' s h A :=
  { hs with receives := hs.receives.mono hpre }

/-- The party has sent as many items as the endpoint has sent packets. -/
theorem next_eq (hs : Shows encode base sentB s h A) : A.next = h.sent.length :=
  hs.items.length_eq.symm

/-- The outstanding reply numbers are the items that are owed an answer. -/
theorem owed_length (hs : Shows encode base sentB s h A) :
    s.concurrentReplies.length = A.owed.length := by
  rw [hs.replies.length_eq, List.length_map]

/-- The cells of the send window are the places of the ring. -/
theorem sendCell_eq (hs : Shows encode base sentB s h A) (i : ℕ) :
    s.sendCell i = cell CAP (number base (A.next + i)) := by
  rw [SeqEx.sendCell, hs.sends.next, hs.next_eq, ← number_add]
  rfl

/-- A live position is kept in its cell. -/
theorem pending_of_live (hs : Shows encode base sentB s h A) (hc : Consistent A B) {k : ℕ}
    (hk : k ∈ A.live) :
    ∃ p, h.sent[k]? = some p ∧ s.pending (cell CAP (number base k)) = some p := by
  have hlt : k < h.sent.length := hs.next_eq ▸ hc.live_lt k hk
  exact ⟨h.sent[k], List.getElem?_eq_getElem hlt,
    (hs.live_pending k hk).trans (List.getElem?_eq_getElem hlt)⟩

/-- Passing the fullness test means that there is room. -/
theorem room (hC : ∃ e, CAP = 2 ^ e) (hfour : 4 ≤ CAP) (hs : Shows encode base sentB s h A)
    (hc : Consistent A B) {r : Option ℕ} (hfull : s.isFullInner (r.map (number base)) = .ok ()) :
    A.Room (period CAP) r := by
  have hlen := hs.fits.length_lt
  have howed := hs.owed_length
  constructor
  · have hroom := ((SeqEx.isFullInner_eq_ok_iff hlen).mp hfull).1
    have hsmall : CAP < 2 ^ 32 ∨ s.concurrentReplies.length = 0 :=
      hs.fits.imp And.left fun hf => by rw [hf.2]; rfl
    unfold period
    omega
  · intro i hi k hk hmod
    obtain ⟨p, -, hp⟩ := hs.pending_of_live hc hk
    have hcell : s.sendCell i = cell CAP (number base k) := by
      rw [hs.sendCell_eq]
      exact (cell_number_eq_iff hC base _ _).mpr hmod.symm
    rcases SeqEx.free_of_isFullInner hlen hfull i (howed ▸ hi) with hfree | ⟨r', hr', hcell'⟩
    · rw [hcell, ← SeqEx.pending_eq_none, hp] at hfree
      cases hfree
    · obtain ⟨j, hj, rfl⟩ := Option.map_eq_some_iff.mp hr'
      exact ⟨j, hj, (cell_number_eq_iff hC base _ _).mp (hcell'.trans hcell)⟩

/-- An inserted entry is a pushed item. -/
theorem pushed (hC : ∃ e, CAP = 2 ^ e) (hs : Shows encode base sentB s h A)
    (hlive : ∀ k ∈ A.live, k < A.next) (time : Int64) (r : Option ℕ) (b : Bool) (d : S) :
    Shows encode base sentB (s.insertEntry time (r.map (number base)) b d).2
      { h with sent := h.sent ++ [(s.insertEntry time (r.map (number base)) b d).1] }
      (A.push (period CAP) ⟨r, b⟩) := by
  have hnext : cell CAP s.nextSendSeqNo = cell CAP (number base A.next) := by
    rw [hs.sends.next, hs.next_eq]
  have hpacket := SeqEx.insertEntry_packet (s := s) time (r.map (number base)) b d
  have hpending := SeqEx.insertEntry_pending (s := s) time (r.map (number base)) b d
  have hpre : h.sent <+: h.sent ++ [(s.insertEntry time (r.map (number base)) b d).1] :=
    List.prefix_append _ _
  have hlast : (h.sent ++ [(s.insertEntry time (r.map (number base)) b d).1])[A.next]? =
      some (s.insertEntry time (r.map (number base)) b d).1 := by
    simp [hs.next_eq]
  have hold {k : ℕ} (hk : k < A.next) :
      (h.sent ++ [(s.insertEntry time (r.map (number base)) b d).1])[k]? = h.sent[k]? :=
    List.getElem?_append_left (hs.next_eq ▸ hk)
  refine {
    sends := hs.sends.insert time _ b d
    receives := ⟨hs.receives.view.congr rfl rfl, hs.receives.sound, hs.receives.log⟩
    items := List.rel_append hs.items (.cons ⟨?_, ?_⟩ .nil)
    live_pending := fun k hk => ?_
    pending_live := fun i p hp => ?_
    replies := hs.replies
    fits := hs.fits.shrink rfl (List.Subperm.refl _)
    links := hs.links.imp fun _ _ hd => hd.mono hpre
    acks := hs.acks.imp fun a k ha => ?_ }
  · rw [hpacket, Packet.replyNo?_newWithData]
  · rw [hpacket, Packet.isSeqCst_newWithData]
  · rw [hpending, hnext]
    rcases hk with rfl | ⟨hk, hplace⟩
    · rw [Function.update_self, hlast]
    · have hne : cell CAP (number base k) ≠ cell CAP (number base A.next) := fun hcell =>
        hplace ((cell_number_eq_iff hC base _ _).mp hcell)
      rw [Function.update_of_ne hne, hold (hlive k hk)]
      exact hs.live_pending k hk
  · rw [hpending, hnext] at hp
    by_cases hi : i = cell CAP (number base A.next)
    · subst hi
      rw [Function.update_self] at hp
      exact ⟨A.next, Set.mem_insert _ _, rfl, hlast.trans hp⟩
    · rw [Function.update_of_ne hi] at hp
      obtain ⟨k, hk, rfl, hsent⟩ := hs.pending_live i p hp
      refine ⟨k, Set.mem_insert_of_mem _ ⟨hk, fun hmod => hi ?_⟩, rfl, ?_⟩
      · exact (cell_number_eq_iff hC base _ _).mpr hmod
      · rw [hold (hlive k hk), hsent]
  · obtain ⟨ha, q, hq, hdata⟩ := ha
    obtain ⟨l, hl⟩ := hpre
    obtain ⟨hlt, -⟩ := List.getElem?_eq_some_iff.mp hq
    exact ⟨ha, q, by rw [← hl, List.getElem?_append_left hlt, hq], hdata⟩

/-- A returned reply number is that of an owed position. -/
theorem returned (hs : Shows encode base sentB s h A) {r : SeqNo} {l : List SeqNo}
    (hl : s.concurrentReplies.Perm (r :: l)) :
    ∃ k m, r = number base k ∧ A.owed.Perm (k :: m) ∧ l.Perm (m.map (number base)) := by
  have hr : r ∈ A.owed.map (number base) :=
    (hl.symm.trans hs.replies).mem_iff.mp List.mem_cons_self
  obtain ⟨k, hk, rfl⟩ := List.mem_map.mp hr
  have hm := List.perm_cons_erase hk
  refine ⟨k, A.owed.erase k, rfl, hm, List.Perm.cons_inv (a := number base k) ?_⟩
  exact (hl.symm.trans hs.replies).trans (hm.map (number base))

/-- Fewer reply numbers outstanding. -/
theorem withReplies (hs : Shows encode base sentB s h A) {l : List SeqNo} {m : List ℕ} (b : Bool)
    {r : SeqNo} (hl : s.concurrentReplies.Perm (r :: l)) (hm : l.Perm (m.map (number base))) :
    Shows encode base sentB { s with concurrentReplies := l, isLocked := b } h
      { A with owed := m } :=
  { hs with
    sends := hs.sends.shrink rfl fun _ _ hp => hp
    receives := ⟨hs.receives.view.congr rfl rfl, hs.receives.sound, hs.receives.log⟩
    replies := hm
    fits := hs.fits.shrink rfl ((List.sublist_cons_self r l).subperm.trans hl.symm.subperm) }

/-- The window entry in a cell is a live position with its number. -/
theorem live_of_entry (hs : Shows encode base sentB s h A) {i : Fin CAP} {e : SendEntry S}
    (he : s.sendWindow i = some e) :
    ∃ k ∈ A.live, i = cell CAP (number base k) ∧ e.seqNo = number base k ∧
      ∃ q, h.sent[k]? = some q ∧ q.payload? = some e.data := by
  obtain ⟨k, hk, hi, hq⟩ := hs.pending_live i e.toPacket (by rw [SeqEx.pending, he]; rfl)
  have hnum := hs.sends.numbered k _ hq
  rw [SendEntry.seqNo?_toPacket] at hnum
  exact ⟨k, hk, hi, Option.some.inj hnum, _, hq, e.payload?_toPacket⟩

/-- Live positions have different cells. -/
theorem cell_inj (hs : Shows encode base sentB s h A) (hc : Consistent A B)
    (hcount : h.sent.length < 2 ^ 31) {j k : ℕ} (hj : j ∈ A.live) (hk : k ∈ A.live)
    (hcell : cell CAP (number base j) = cell CAP (number base k)) : j = k := by
  obtain ⟨p, hp, hpj⟩ := hs.pending_of_live hc hj
  obtain ⟨q, hq, hqk⟩ := hs.pending_of_live hc hk
  rw [hcell, hqk] at hpj
  cases hpj
  have hnum := (hs.sends.numbered j _ hp).symm.trans (hs.sends.numbered k _ hq)
  have hjlt := (List.getElem?_eq_some_iff.mp hp).1
  have hklt := (List.getElem?_eq_some_iff.mp hq).1
  exact (number_inj (by omega) (by omega)).mp (Option.some.inj hnum)

/-- Taking the packet of position `k` out of the window. -/
theorem take (hs : Shows encode base sentB s h A) (hc : Consistent A B)
    (hcount : h.sent.length < 2 ^ 31) {k : ℕ} (hk : k ∈ A.live)
    (hw : t.pending = Function.update s.pending (cell CAP (number base k)) none) :
    (∀ j ∈ A.live, j ≠ k → t.pending (cell CAP (number base j)) = h.sent[j]?) ∧
      ∀ i p, t.pending i = some p →
        ∃ j ∈ A.live, j ≠ k ∧ i = cell CAP (number base j) ∧ h.sent[j]? = some p := by
  rw [hw]
  constructor
  · intro j hj hjk
    rw [Function.update_of_ne fun hcell => hjk (hs.cell_inj hc hcount hj hk hcell)]
    exact hs.live_pending j hj
  · intro i p hp
    by_cases hi : i = cell CAP (number base k)
    · subst hi
      rw [Function.update_self] at hp
      cases hp
    · rw [Function.update_of_ne hi] at hp
      obtain ⟨j, hj, hij, hsent⟩ := hs.pending_live i p hp
      exact ⟨j, hj, fun hjk => hi (hjk ▸ hij), hij, hsent⟩

/-- A delivery is paired with the live position that it replies to, if there is one,
and takes the packet of that position out of the window. -/
theorem paired (hs : Shows encode base sentB s h A) (hc : Consistent A B) (hc' : Consistent B A)
    (hcount : h.sent.length < 2 ^ 31) (hwin : t.sendWindow = s.sendWindow) {k : ℕ} (n : SeqNo)
    {r : Option SeqNo} (hans : r = (B.answers k).map (number base)) (b : Bool) (d : R) :
    ∃ m : Option ℕ, (∀ j, m = some j ↔ B.answers k = some j ∧ j ∈ A.live) ∧
      PairedWith base h.sent (Packet.newWithData n r b d, (t.handOver n r b d).1) m ∧
      (∀ j ∈ A.live, m ≠ some j →
        (t.handOver n r b d).2.pending (cell CAP (number base j)) = h.sent[j]?) ∧
      ∀ i p, (t.handOver n r b d).2.pending i = some p →
        ∃ j ∈ A.live, m ≠ some j ∧ i = cell CAP (number base j) ∧ h.sent[j]? = some p := by
  have hpend : t.pending = s.pending := SeqEx.pending_congr hwin
  rcases t.handOver_cases n r b d with ⟨r', e, hr', he, heq, ht⟩ | ⟨hnone, ht⟩
  · -- the replied-to packet was in the window
    rw [hwin] at he
    obtain ⟨j, hj, hcell, hjnum, q, hq, hdata⟩ := hs.live_of_entry he
    obtain ⟨j', hj', hj'num⟩ := Option.map_eq_some_iff.mp (hans.symm.trans hr')
    have hjlt := (List.getElem?_eq_some_iff.mp hq).1
    have hj'lt : j' < h.sent.length := by
      rw [← hs.next_eq]
      exact hc'.replied_lt hj'
    have hsame : number base j' = number base j := by rw [hj'num, ← hjnum, heq]
    obtain rfl : j' = j := (number_inj (by omega) (by omega)).mp hsame
    have hpending : (t.handOver n r b d).2.pending =
        Function.update s.pending (cell CAP (number base j')) none := by
      rw [ht, SeqEx.pending_remove (s := t) (i := cell CAP r') rfl, hpend, hcell]
    obtain ⟨h1, h2⟩ := hs.take hc hcount hj hpending
    refine ⟨some j', fun i => ⟨?_, fun hi => hj'.symm.trans hi.1⟩, ?_, ?_, fun i p hp => ?_⟩
    · rintro ⟨rfl⟩
      exact ⟨hj', hj⟩
    · exact ⟨n, r, b, d, rfl, .inr ⟨j', q, e.data, rfl, by rw [hr', hj'num], hq, hdata, by rw [ht]⟩⟩
    · exact fun i hi hne => h1 i hi fun hij => hne (congrArg some hij.symm)
    · obtain ⟨j, hj, hne, hi, hsent⟩ := h2 i p hp
      exact ⟨j, hj, fun hjj => hne (Option.some.inj hjj).symm, hi, hsent⟩
  · -- it was not, or this is no reply
    have hpending : (t.handOver n r b d).2.pending = s.pending := by
      rw [ht, ← hpend]
      rfl
    refine ⟨none, fun i => ⟨fun hi => absurd hi.symm (Option.some_ne_none i), fun h => ?_⟩, ?_, ?_,
      fun i p hp => ?_⟩
    · obtain ⟨hi, hlive⟩ := h
      obtain ⟨p, hp, hpi⟩ := hs.pending_of_live hc hlive
      obtain ⟨e, he, hseq⟩ := SeqEx.entry_of_pending hpi (hs.sends.numbered i _ hp)
      exact absurd hseq
        (hnone (number base i) e (by rw [hans, hi]; rfl) (by rw [hwin]; exact he))
    · exact ⟨n, r, b, d, rfl, .inl ⟨rfl, by rw [ht]⟩⟩
    · exact fun i hi _ => (congrFun hpending _).trans (hs.live_pending i hi)
    · rw [hpending] at hp
      obtain ⟨j, hj, hi, hsent⟩ := hs.pending_live i p hp
      exact ⟨j, hj, (Option.some_ne_none j).symm, hi, hsent⟩

/-- Handing a packet over takes an item in. -/
theorem hand (hC : ∃ e, CAP = 2 ^ e) (hfour : 4 ≤ CAP) (hs : Shows encode base sentB s h A)
    (hc : Consistent A B) (hc' : Consistent B A) {CAP' : ℕ} [NeZero CAP'] {peer : SeqEx S R CAP'}
    (hpeer : Sends base peer sentB) (hitems : List.Forall₂ (Stands base) sentB B.sent)
    (hcount : h.sent.length < 2 ^ 31) (hcountB : sentB.length < 2 ^ 31) {c : Call S R} {n : SeqNo}
    {r : Option SeqNo} {b doPump : Bool} {d : R} (hin : s.input? c = some (.newWithData n r b d))
    (hplaced : s.Placed c n b doPump t) (hfull : s.isFullInner r = .ok ())
    (hsent : ∃ k, wire? encode sentB k = some (.newWithData n r b d)) :
    ∃ k m J, Act (period CAP) B A (A.takeIn k m J) ∧ Intake.Deliver B.ordered k A.intake J ∧
      Shows encode base sentB (t.handOver n r b d).2
        (h.take (.newWithData n r b d) (t.handOver n r b d).1) (A.takeIn k m J) ∧
      (k ∈ A.early → c = .receive (.newWithData n r b d) ∧
        s.EarlyCopy (.newWithData n r b d)) := by
  obtain ⟨k, J, hk, hJ, hview, hearly⟩ := hs.receives.hand hC hpeer hcountB hin hplaced hfull hsent
  obtain ⟨hwin, hnext, hreplies, -⟩ := hplaced.frame
  have hans : r = (B.answers k).map (number base) := stands_wire hitems hk
  have hnum : n = number base k := by
    have := hpeer.wire_seqNo hk
    rw [Packet.seqNo?_newWithData] at this
    exact Option.some.inj this
  have hklt : k < B.next := (wire?_lt hk).trans_eq hitems.length_eq
  have hroom : A.Room (period CAP) (B.answers k) := hs.room hC hfour hc (hans ▸ hfull)
  rw [← stands_ordered hitems] at hJ
  rw [History.take_delivery (t.handOver_ne_ack n r b d)]
  obtain ⟨m, hm, hpaired, hlive, hpending⟩ := hs.paired hc hc' hcount hwin n hans b d
  have hintake : (A.takeIn k m J).intake = J := by
    have hlog : J.log = A.delivered ++ [k] := hJ.log_eq
    rw [Party.intake, Party.takeIn_delivered, ← hlog]
    rfl
  exact ⟨k, m, J, .deliver k m J hklt hroom hm hJ, hJ, {
    sends := hs.sends.shrink ((t.handOver_send n r b d).1.trans hnext) fun i p hp => by
      rw [← SeqEx.pending_congr hwin]
      exact (t.handOver_send n r b d).2 i p hp
    receives := by
      rw [hintake]
      refine ⟨hview d, hs.receives.sound.deliver hJ, ?_⟩
      rw [hJ.log_eq]
      exact List.rel_append hs.receives.log (.cons hk .nil)
    items := hs.items
    live_pending := fun j hj => hlive j hj.1 hj.2
    pending_live := fun i p hp => by
      obtain ⟨j, hj, hmj, hi, hsent⟩ := hpending i p hp
      exact ⟨j, ⟨hj, hmj⟩, hi, hsent⟩
    replies := by
      rw [SeqEx.handOver_replies, hreplies, hnum, Party.takeIn, List.map_append]
      exact hs.replies.append_right _
    fits := by
      have hlen := ((SeqEx.isFullInner_eq_ok_iff hs.fits.length_lt).mp hfull).1
      refine .inl ⟨hs.fits.small hC hin hplaced, ?_⟩
      rw [SeqEx.handOver_replies, hreplies, List.length_append, List.length_singleton]
      omega
    links := List.rel_append hs.links (.cons hpaired .nil)
    acks := hs.acks }, hearly⟩

/-- Storing a packet does not show. -/
theorem store (hC : ∃ e, CAP = 2 ^ e) (hfour : 4 ≤ CAP) (hs : Shows encode base sentB s h A)
    {n : SeqNo} (hrange : s.InRange n) (hdup : s.isDuplicate n = false) (r : Option SeqNo)
    (b : Bool) (d : R) : Shows encode base sentB (s.setRecvEntry n (.occupied n r b d)) h A :=
  { hs with
    sends := hs.sends.shrink rfl fun _ _ hp => hp
    receives := ⟨hs.receives.view.store hC hrange hdup r b d, hs.receives.sound, hs.receives.log⟩
    fits := .inl ⟨(hrange.lt_period hC).1, by
      rcases hs.fits with ⟨-, h2⟩ | ⟨-, h2⟩
      · exact h2
      · have hempty : (s.setRecvEntry n (.occupied n r b d)).concurrentReplies = [] := h2
        rw [hempty, List.length_nil]
        omega⟩ }

/-- Taking an acknowledgement hands an item back. -/
theorem hear (hs : Shows encode base sentB s h A) (hc : Consistent A B)
    (hcount : h.sent.length < 2 ^ 31) {k : ℕ} (hk : k ∈ A.live)
    (hw : t.sendWindow = Function.update s.sendWindow (cell CAP (number base k)) none)
    (ht : t.nextSendSeqNo = s.nextSendSeqNo ∧ t.nextRecvSeqNo = s.nextRecvSeqNo ∧
      t.recvWindow = s.recvWindow ∧ t.concurrentReplies = s.concurrentReplies)
    {d : S} (hd : ∃ q, h.sent[k]? = some q ∧ q.payload? = some d) :
    Shows encode base sentB t { h with acks := h.acks ++ [(number base k, d)] } (A.hear k) := by
  obtain ⟨hsend, hrecv, hwin, hreplies⟩ := ht
  have hpending := SeqEx.pending_remove hw
  obtain ⟨h1, h2⟩ := hs.take hc hcount hk hpending
  exact { hs with
    sends := hs.sends.shrink hsend fun i p hp => SeqEx.pending_of_remove (hpending ▸ hp)
    receives := ⟨hs.receives.view.congr hrecv hwin, hs.receives.sound, hs.receives.log⟩
    live_pending := fun j hj => h1 j hj.1 hj.2
    pending_live := fun i p hp => by
      obtain ⟨j, hj, hjk, hi, hsent⟩ := h2 i p hp
      exact ⟨j, ⟨hj, hjk⟩, hi, hsent⟩
    replies := hreplies ▸ hs.replies
    fits := hs.fits.shrink hwin (hreplies ▸ List.Subperm.refl _)
    acks := List.rel_append hs.acks (.cons ⟨rfl, hd⟩ .nil) }

/-- A packet that is acknowledged once more lies below the cursor and needs no
other answer. -/
theorem reack (hs : Shows encode base sentB s h A) (hc : Consistent A B)
    (hcountB : sentB.length < 2 ^ 31)
    {k : ℕ} {q : Packet R} (hk : wire? encode sentB k = some q)
    (hbelow : s.isBelowRange (number base k) = true)
    (hpending : s.isReplyPending (number base k) = false)
    (howed : number base k ∉ s.concurrentReplies) :
    k < A.cursor ∧ (∀ j ∈ A.live, A.answers j ≠ some k) ∧ k ∉ A.owed := by
  have hklt := wire?_lt hk
  refine ⟨?_, fun j hj hans => ?_, fun hm => howed ?_⟩
  · by_contra hge
    rw [SeqEx.isBelowRange_iff, hs.receives.view.cursor_eq] at hbelow
    have hle : A.intake.cursor ≤ k := not_lt.mp hge
    rw [number_sub_of_le hle (by omega)] at hbelow
    omega
  · obtain ⟨p, hp, hpj⟩ := hs.pending_of_live hc hj
    obtain ⟨e, he, rfl⟩ := Option.map_eq_some_iff.mp hpj
    have hreply := stands_replyNo hs.items hp
    rw [SendEntry.replyNo?_toPacket, hans] at hreply
    simp only [SeqEx.isReplyPending, decide_eq_false_iff_not, not_exists] at hpending
    exact hpending _ (by rw [he]; exact hreply)
  · rw [hs.replies.mem_iff]
    exact List.mem_map_of_mem hm

/-- Every call is at most one step of the exchange. The acknowledgements it
emits are those of the party, and only an early copy repeats a delivery. -/
theorem call (hC : ∃ e, CAP = 2 ^ e) (hfour : 4 ≤ CAP) (hs : Shows encode base sentB s h A)
    (hc : Consistent A B) (hc' : Consistent B A) {CAP' : ℕ} [NeZero CAP'] {peer : SeqEx S R CAP'}
    (hpeer : Sends base peer sentB) (hitems : List.Forall₂ (Stands base) sentB B.sent)
    (hcount : h.sent.length < 2 ^ 31) (hcountB : sentB.length < 2 ^ 31) (c : Call S R)
    (hin : ∀ n r b d, s.input? c = some (.newWithData n r b d) →
      ∃ k, wire? encode sentB k = some (.newWithData n r b d))
    (hack : ∀ r, c = .receive (.ack r) → ∃ k ∈ B.acked, r = number base k) :
    ∃ A', Shows encode base sentB (s.call c).2 (h.record (s.input? c) (s.call c).1) A' ∧
      (A' = A ∨ Act (period CAP) B A A') ∧
      (∀ r, .ack r ∈ (s.call c).1.emitted → ∃ k ∈ A'.acked, r = number base k) ∧
      (A.delivered.Nodup → (∀ p, c = .receive p → ¬ s.EarlyCopy p) → A'.delivered.Nodup) := by
  have heff := s.call_effect c
  generalize (s.call c).1 = a, (s.call c).2 = s' at heff ⊢
  have hdata {u : SeqEx S R CAP} {time : Int64} {r' : Option SeqNo} {b : Bool} {d : S} {r : SeqNo} :
      (u.insertEntry time r' b d).1 ≠ .ack r := by
    rw [SeqEx.insertEntry_packet]
    exact Packet.newWithData_ne_ack _ _ _ _ _
  cases heff with
  | send time b f _ hfull =>
    refine ⟨_, hs.pushed hC hc.live_lt time none b _, .inr (.send b (hs.room hC hfour hc hfull)),
      fun r hr => ?_, fun hn _ => hn⟩
    exact absurd (List.mem_singleton.mp hr).symm hdata
  | reply time r u b d _ l hl s1 hs1 =>
    obtain ⟨k, m, rfl, hm, hlm⟩ := hs.returned hl
    subst hs1
    refine ⟨_, (hs.withReplies _ hl hlm).pushed hC hc.live_lt time (some k) b d,
      .inr (.reply k b m hm), fun r hr => ?_, fun hn _ => hn⟩
    exact absurd (List.mem_singleton.mp hr).symm hdata
  | ack r u _ l hl =>
    obtain ⟨k, m, rfl, hm, hlm⟩ := hs.returned hl
    refine ⟨{ A with owed := m, acked := insert k A.acked }, { hs.withReplies _ hl hlm with },
      .inr (.ack k m hm), fun r hr => ?_, fun hn _ => hn⟩
    exact ⟨k, Set.mem_insert _ _, by simpa [Answer.emitted] using hr⟩
  | unlock _ =>
    refine ⟨A, { hs with sends := hs.sends.shrink rfl fun _ _ hp => hp, receives := ?_ },
      .inl rfl, fun _ hr => absurd hr List.not_mem_nil, fun hn _ => hn⟩
    exact ⟨hs.receives.view.congr rfl rfl, hs.receives.sound, hs.receives.log⟩
  | heed r hcall e he hr =>
    obtain ⟨k, hacked, rfl⟩ := hack r hcall
    obtain ⟨j, hj, hcell, hnum, q, hq, hd⟩ := hs.live_of_entry he
    have hjlt := (List.getElem?_eq_some_iff.mp hq).1
    have hklt : k < h.sent.length := by
      rw [← hs.next_eq]
      exact hc'.delivered_lt k (hc'.acked_delivered k hacked)
    have hsame : number base k = number base j := hr.symm.trans hnum
    obtain rfl : k = j := (number_inj (by omega) (by omega)).mp hsame
    subst hcall
    exact ⟨A.hear k, hs.hear (t := { s with sendWindow := _ }) hc hcount hj rfl
      ⟨rfl, rfl, rfl, rfl⟩ ⟨q, hq, hd⟩, .inr (.heed k hacked hj),
      fun _ hr => absurd hr List.not_mem_nil, fun hn _ => hn⟩
  | resendAck n r b d hcall hbelow hpending howed =>
    obtain ⟨k, hk⟩ := hin n r b d (by rw [hcall]; rfl)
    have hnum := hpeer.wire_seqNo hk
    rw [Packet.seqNo?_newWithData] at hnum
    obtain rfl := Option.some.inj hnum
    obtain ⟨h1, h2, h3⟩ := hs.reack hc hcountB hk hbelow hpending howed
    refine ⟨{ A with acked := insert k A.acked }, { hs with }, .inr (.reack k h1 h2 h3),
      fun r hr => ?_, fun hn _ => hn⟩
    exact ⟨k, Set.mem_insert _ _, by simpa [Answer.emitted] using hr⟩
  | hold n r b d e _ hrange hdup hq =>
    rw [hq.1, hq.2]
    exact ⟨A, hs.store hC hfour hrange hdup r b d, .inl rfl,
      fun _ hr => absurd hr List.not_mem_nil, fun hn _ => hn⟩
  | hand n r b d doPump t hi hplaced hfull _ =>
    obtain ⟨k, m, J, hact, hJ, hshows, hearly⟩ := hs.hand hC hfour hc hc' hpeer hitems hcount
      hcountB hi hplaced hfull (hin n r b d hi)
    rw [hi, History.record_handing, Call.handing_emitted]
    refine ⟨_, hshows, .inr hact, fun _ hr => absurd hr List.not_mem_nil, fun hn hcopy => ?_⟩
    have hnodup := hc.sound.deliver_nodup hJ (fun hm => hcopy _ (hearly hm).1 (hearly hm).2) hn
    rw [hJ.log_eq] at hnodup
    rwa [Party.takeIn_delivered]
  | resend _ _ hre _ hrec hout =>
    rw [hrec]
    refine ⟨A, ?_, .inl rfl, fun r hr => ?_, fun hn _ => hn⟩
    · exact { hs with
        sends := hs.sends.shrink hre.nextSend fun i p hp => hre.pending ▸ hp
        receives := ⟨hs.receives.view.congr hre.nextRecv hre.recvWindow, hs.receives.sound,
          hs.receives.log⟩
        live_pending := fun k hk => by
          rw [hre.pending]
          exact hs.live_pending k hk
        pending_live := fun i p hp => hs.pending_live i p (hre.pending ▸ hp)
        replies := hre.replies ▸ hs.replies
        fits := hs.fits.shrink hre.recvWindow (hre.replies ▸ List.Subperm.refl _) }
    · obtain ⟨i, hi⟩ := hout _ hr
      obtain ⟨e, -, he⟩ := Option.map_eq_some_iff.mp hi
      rw [SendEntry.toPacket_eq] at he
      exact absurd he (Packet.newWithData_ne_ack _ _ _ _ _)
  | idle _ hq =>
    rw [hq.1, hq.2]
    exact ⟨A, hs, .inl rfl, fun _ hr => absurd hr List.not_mem_nil, fun hn _ => hn⟩

/-- A delivery is an entry of the log. -/
theorem log_of_delivery (hs : Shows encode base sentB s h A) {d : Packet R × RecvOkRaw S R}
    (hd : d ∈ h.deliveries) :
    ∃ k m, (k, m) ∈ A.log ∧ wire? encode sentB k = some d.1 ∧ PairedWith base h.sent d m := by
  have hwire := List.forall₂_map_right_iff.mp hs.receives.log
  have hboth := List.Forall₂.mp (fun _ _ h₁ h₂ => And.intro h₁ h₂) hwire hs.links
  obtain ⟨⟨k, m⟩, hk, hw, hp⟩ := exists_left_of_forall₂ hboth.flip hd
  exact ⟨k, m, hk, hw, hp⟩

end Shows

end Endpoint

/-! ## Sessions -/

namespace Session

variable {cap : Side → ℕ} [∀ x, NeZero (cap x)] {encode : S → R} {base : SeqNo}
  {interval : Side → Int64} {guard : Session S R cap → Event S R → Prop} {s : Session S R cap}
  {W W' : Side → Party}

/-- The session shows the exchange of the two parties of `W`. -/
structure Follows (encode : S → R) (base : SeqNo) (s : Session S R cap) (W : Side → Party) :
    Prop where
  shows : ∀ x, Shows encode base (s.sentBy x.peer) (s.node x).seqEx (s.node x).history (W x)
  acks : ∀ x r, .ack r ∈ s.net x → ∃ k ∈ (W x).acked, r = number base k
  consistent : ∀ x, Consistent (W x) (W x.peer)

/-- One party makes a step, or none. -/
def Advances (cap : Side → ℕ) (W W' : Side → Party) : Prop :=
  W' = W ∨ ∃ x A', Act (period (cap x)) (W x.peer) (W x) A' ∧ W' = Function.update W x A'

/-- Two new endpoints follow two parties that have done nothing. -/
theorem Follows.start (encode : S → R) (interval : Side → Int64) (base : SeqNo) :
    Follows encode base (start interval base : Session S R cap) fun _ => Party.start where
  shows x := Shows.start encode (interval x) base _
  acks := nofun
  consistent _ := Consistent.start

/-- Both parties stay consistent when one of them acts. -/
theorem consistent_update {x : Side} {A' : Party} (h : ∀ y, Consistent (W y) (W y.peer)) {P : ℕ}
    (ha : Act P (W x.peer) (W x) A') (y : Side) :
    Consistent (Function.update W x A' y) (Function.update W x A' y.peer) := by
  rcases Side.eq_or_eq_peer x y with rfl | rfl
  · rw [Function.update_self, Function.update_of_ne (Side.peer_ne y)]
    refine (h y).act ?_ ha
    simpa using h y.peer
  · rw [Side.peer_peer, Function.update_self, Function.update_of_ne (Side.peer_ne x)]
    have hx := h x.peer
    rw [Side.peer_peer] at hx
    exact hx.of_peer_act ha

/-- Every event is at most one step of the exchange. -/
theorem Follows.perform (hC : ∀ x, ∃ e ≥ 2, cap x = 2 ^ e) (h : Follows encode base s W)
    (hcarries : ∀ x, Carries encode base s x) (hcount : ∀ x, s.sentCount x < 2 ^ 31)
    {e : Event S R} (hp : s.Possible e) :
    ∃ W', Follows encode base (s.perform encode e) W' ∧ Advances cap W W' ∧
      ∀ x, (W x).delivered.Nodup → s.NoEarlyCopy x e → (W' x).delivered.Nodup := by
  cases e with
  | lose x i =>
    refine ⟨W, ⟨h.shows, fun y r hr => ?_, h.consistent⟩, .inl rfl, fun _ hn _ => hn⟩
    exact h.acks y r (mem_perform_lose_net hr)
  | call x c =>
    obtain ⟨e, he, hcap⟩ := hC x
    have hfour : 4 ≤ cap x := hcap ▸ le_trans (by decide) (Nat.pow_le_pow_right (by decide) he)
    have hpeer : (s.perform encode (.call x c)).node x.peer = s.node x.peer :=
      perform_node_ne (Side.peer_ne x) c
    have hc' := h.consistent x.peer
    rw [Side.peer_peer] at hc'
    obtain ⟨A', hshows, hact, hemit, hfresh⟩ :=
      (h.shows x).call ⟨e, hcap⟩ hfour (h.consistent x) hc' (hcarries x.peer).sends
        (h.shows x.peer).items (hcount x) (hcount x.peer) c
        (fun n r b d hin => (hcarries x.peer).input hp hin)
        (fun r hr => by
          subst hr
          exact h.acks x.peer r hp)
    have hacked : (W x).acked ⊆ A'.acked := by
      rcases hact with rfl | hact
      · exact subset_rfl
      · exact hact.grows.acked
    refine ⟨Function.update W x A', ⟨fun y => ?_, fun y r hr => ?_, fun y => ?_⟩, ?_, fun y => ?_⟩
    · rcases Side.eq_or_eq_peer x y with rfl | rfl
      · rw [sentBy, hpeer, perform_node_self, Function.update_self]
        exact hshows
      · rw [hpeer, Function.update_of_ne (Side.peer_ne x)]
        refine (h.shows x.peer).mono ?_
        rw [Side.peer_peer]
        exact (hcarries x).sentBy_grows _
    · rcases Side.eq_or_eq_peer x y with rfl | rfl
      · rw [perform_net_self, List.mem_append, List.mem_map] at hr
        rw [Function.update_self]
        rcases hr with hr | ⟨q, hq, hqr⟩
        · obtain ⟨k, hk, hkr⟩ := h.acks y r hr
          exact ⟨k, hacked hk, hkr⟩
        · obtain rfl : q = .ack r := by
            cases q <;> simp_all [Packet.map]
          exact hemit r hq
      · rw [perform_net_ne (Side.peer_ne x)] at hr
        rw [Function.update_of_ne (Side.peer_ne x)]
        exact h.acks x.peer r hr
    · rcases hact with rfl | hact
      · rw [Function.update_eq_self]
        exact h.consistent y
      · exact consistent_update h.consistent hact y
    · rcases hact with rfl | hact
      · exact .inl (Function.update_eq_self x W)
      · exact .inr ⟨x, A', hact, rfl⟩
    · intro hn hguard
      rcases Side.eq_or_eq_peer x y with rfl | rfl
      · rw [Function.update_self]
        refine hfresh hn fun p hcp => ?_
        subst hcp
        exact hguard rfl
      · rw [Function.update_of_ne (Side.peer_ne x)]
        exact hn

/-- The counts only grow, so a bound at the end of a run holds all along. -/
theorem sentCount_le (hcarries : ∀ x, Carries encode base s x) (e : Event S R) (x : Side) :
    s.sentCount x ≤ (s.perform encode e).sentCount x :=
  ((hcarries x).sentBy_grows e).length_le

/-- Every run with fewer than `2^31` packets in each direction is followed by an
exchange, and a property of the exchange that its steps keep holds at its end. -/
theorem reaches_follows (hC : ∀ x, ∃ e ≥ 2, cap x = 2 ^ e) (hg : ∀ u e, guard u e → u.Possible e)
    {Q : (Side → Party) → Prop} (hstart : Q fun _ => Party.start)
    (hstep : ∀ u e (W W' : Side → Party), Reaches guard (perform encode) (start interval base) u →
      guard u e → Follows encode base u W → Advances cap W W' →
      (∀ x, (W x).delivered.Nodup → u.NoEarlyCopy x e → (W' x).delivered.Nodup) → Q W → Q W')
    (hrun : Reaches guard (perform encode) (start interval base) s)
    (hcount : ∀ x, s.sentCount x < 2 ^ 31) : ∃ W, Follows encode base s W ∧ Q W := by
  revert hcount
  refine hrun.invariant (I := fun u => (∀ x, u.sentCount x < 2 ^ 31) →
    ∃ W, Follows encode base u W ∧ Q W)
    (fun _ => ⟨_, Follows.start encode interval base, hstart⟩) ?_
  intro u e hu ih he hcount
  have hcarries := reaches_carries hg hu
  have hcount' : ∀ x, u.sentCount x < 2 ^ 31 := fun x =>
    lt_of_le_of_lt (sentCount_le hcarries e x) (hcount x)
  obtain ⟨W, hW, hQ⟩ := ih hcount'
  obtain ⟨W', hW', hadv, hfresh⟩ := hW.perform hC hcarries hcount' (hg u e he)
  exact ⟨W', hW', hstep u e W W' hu he hW hadv hfresh hQ⟩

/-- The parties are linked when no position was handed over twice. -/
def AllLinked (cap : Side → ℕ) (W : Side → Party) : Prop :=
  ∀ x, Linked (period (cap x)) (W x) (W x.peer)

omit [∀ x, NeZero (cap x)] in
/-- Parties that have sent nothing are linked. -/
theorem AllLinked.start (hC : ∀ x, ∃ e ≥ 2, cap x = 2 ^ e) :
    AllLinked cap fun _ => Party.start := by
  intro x
  obtain ⟨e, he, hcap⟩ := hC x
  have hfour : 2 ^ 2 ≤ cap x := hcap ▸ Nat.pow_le_pow_right (by decide) he
  exact Linked.start (by unfold period; omega)

omit [∀ x, NeZero (cap x)] in
/-- Both parties stay linked while no delivery is repeated. -/
theorem AllLinked.advance (h : AllLinked cap W) (ha : Advances cap W W')
    (hfresh : ∀ x, (W' x).delivered.Nodup) : AllLinked cap W' := by
  rcases ha with rfl | ⟨x, A', hact, rfl⟩
  · exact h
  intro y
  have hnodup := hfresh x
  rw [Function.update_self] at hnodup
  have hx' := h x.peer
  rw [Side.peer_peer] at hx'
  rcases Side.eq_or_eq_peer x y with rfl | rfl
  · rw [Function.update_self, Function.update_of_ne (Side.peer_ne y)]
    exact (h y).act hx' hact hnodup
  · rw [Side.peer_peer, Function.update_self, Function.update_of_ne (Side.peer_ne x)]
    exact hx'.of_peer_act (h x) hact hnodup

/-- Every run without early copies is followed by an exchange of linked parties. -/
theorem reaches_linked (hC : ∀ x, ∃ e ≥ 2, cap x = 2 ^ e)
    (hg : ∀ u e, guard u e → u.Possible e ∧ ∀ x, u.NoEarlyCopy x e)
    (hrun : Reaches guard (perform encode) (start interval base) s)
    (hcount : ∀ x, s.sentCount x < 2 ^ 31) :
    ∃ W, Follows encode base s W ∧ AllLinked cap W := by
  refine reaches_follows hC (fun u e h => (hg u e h).1) (AllLinked.start hC) ?_ hrun hcount
  intro u e W W' _ hguard _ hadv hfresh hlinked
  exact hlinked.advance hadv fun x => hfresh x (hlinked x).fresh ((hg u e hguard).2 x)

end Session

end SequentialExchange
