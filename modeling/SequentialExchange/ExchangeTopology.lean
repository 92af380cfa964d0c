import SequentialExchange.Chains
import SequentialExchange.Links

/-!
# Every exchange is a linked list

An exchange starts with a payload, and every further packet replies to the one before it.
So whatever happens, following the reply numbers back from a packet leads to one
payload. When nothing was handed over twice, the packets after a payload form one list,
and only the last of them can still be replied to.
-/

namespace SequentialExchange

open WrapNumbering GuardedRuns Exchange Relation

variable {S R : Type*} {cap : Side → ℕ}

/-! ## Runs of the exchange -/

namespace Exchange

/-- The exchange alone can come to this. -/
def Runs (cap : Side → ℕ) (W : Side → Party) : Prop :=
  ReflTransGen (Session.Advances cap) (fun _ => Party.start) W

/-- Position `b` answers position `a`. -/
def Continues (W : Side → Party) (a b : Side × ℕ) : Prop :=
  a.1 = b.1.peer ∧ (W b.1).answers b.2 = some a.2

variable {W W' : Side → Party}

/-- A packet continues one exchange only. -/
theorem Continues.leftUnique : Relator.LeftUnique (Continues W) := by
  rintro ⟨x, j⟩ b ⟨y, k⟩ ⟨hx, hj⟩ ⟨hy, hk⟩
  exact Prod.ext (hx.trans hy.symm) (Option.some.inj (hj.symm.trans hk))

/-- The parties are consistent all along a run. -/
theorem Runs.consistent (h : Runs cap W) (x : Side) : Consistent (W x) (W x.peer) := by
  induction h generalizing x with
  | refl => exact Consistent.start
  | tail _ hadv ih =>
    rcases hadv with rfl | ⟨y, A', hact, rfl⟩
    · exact ih x
    · exact Session.consistent_update ih hact x

/-- A step adds at most the next position to those that answer one. -/
theorem Act.answers {P : ℕ} {A A' B : Party} (h : Act P B A A') {k r : ℕ}
    (hk : A'.answers k = some r) : A.answers k = some r ∨ k = A.next := by
  cases h with
  | send b hroom => exact (push_answers hk).imp_right And.left
  | reply r' b l hl =>
    exact (push_answers (A := { A with owed := l }) hk).imp_right And.left
  | _ => exact .inl hk

/-- The next position joins as one that none answers. -/
theorem Act.joins {P : ℕ} {A' : Party} {x : Side} (hconsistent : ∀ y, Consistent (W y) (W y.peer))
    (h : Act P (W x.peer) (W x) A') :
    Chains.Joins (Continues W) (Continues (Function.update W x A')) (x, (W x).next) where
  old a b hab hb := by
    obtain ⟨hside, hanswers⟩ := hab
    refine ⟨hside, ?_⟩
    by_cases hx : b.1 = x
    · rw [hx, Function.update_self] at hanswers
      rw [hx]
      exact (h.answers hanswers).resolve_right fun hnext => hb (Prod.ext hx hnext)
    · rwa [Function.update_of_ne hx] at hanswers
  last b hb := by
    obtain ⟨hside, hanswers⟩ := hb
    have hpeer : b.1 = x.peer := by rw [show x = b.1.peer from hside, Side.peer_peer]
    rw [hpeer, Function.update_of_ne (Side.peer_ne x)] at hanswers
    have hlt := (hconsistent x.peer).replied_lt hanswers
    rw [Side.peer_peer] at hlt
    exact Nat.lt_irrefl _ hlt

/-- Going back from answer to answered comes to an end. -/
theorem Runs.wellFounded (h : Runs cap W) : WellFounded (Continues W) := by
  induction h with
  | refl =>
    refine ⟨fun b => ⟨b, fun a hab => ?_⟩⟩
    simp [Continues, Party.start, Party.answers] at hab
  | tail hruns hadv ih =>
    rcases hadv with rfl | ⟨x, A', hact, rfl⟩
    · exact ih
    · exact (hact.joins (Runs.consistent hruns)).wellFounded ih

/-- The parties are linked when no position was handed over twice. -/
theorem Runs.linked (hC : ∀ x, ∃ e ≥ 2, cap x = 2 ^ e) (h : Runs cap W)
    (hfresh : ∀ x, (W x).delivered.Nodup) : Session.AllLinked cap W := by
  induction h with
  | refl => exact Session.AllLinked.start hC
  | tail _ hadv ih =>
    refine (ih fun x => ?_).advance hadv hfresh
    rcases hadv with rfl | ⟨y, A', hact, rfl⟩
    · exact hfresh x
    · have hx := hfresh x
      rcases eq_or_ne x y with rfl | hxy
      · rw [Function.update_self] at hx
        exact hx.sublist hact.grows.delivered.sublist
      · rwa [Function.update_of_ne hxy] at hx

end Exchange

namespace Session

variable [∀ x, NeZero (cap x)] {encode : S → R} {base : SeqNo} {interval : Side → Int64}
  {s : Session S R cap} {W : Side → Party}

/-! ## The exchange that a session makes -/

/-- Every run of two endpoints with fewer than `2^31` packets each way is a run of the
exchange: what was sent, handed over, handed back and is owed are its positions. -/
theorem refines_exchange (hC : ∀ x, ∃ e ≥ 2, cap x = 2 ^ e) (encode : S → R)
    (interval : Side → Int64) (initialSeqNo : SeqNo)
    (hrun : Reaches Possible (perform encode) (start interval initialSeqNo) s)
    (hcount : ∀ x, s.sentCount x < 2 ^ 31) :
    ∃ W, Runs cap W ∧ Follows encode initialSeqNo s W := by
  obtain ⟨W, hW, hruns⟩ := reaches_follows (Q := Runs cap) hC (fun _ _ h => h) .refl
    (fun _ _ _ _ _ _ _ hadv _ hruns => hruns.tail hadv) hrun hcount
  exact ⟨W, hruns, hW⟩

/-- A payload is replied to, the reply is replied to, and another exchange is opened. -/
def conversed : List (Event ℕ ℕ) :=
  [.call .a (.trySend 0 false fun _ => 70), .call .b (.receive (.payload 0 70)),
    .call .b (.reply 0 0 false true 80), .call .a (.receive (.seqCstReply 0 0 80)),
    .call .a (.reply 0 0 true false 71), .call .b (.receive (.reply 1 0 71)),
    .call .b (.trySend 0 false fun _ => 81)]

/-- The state after these events. -/
def afterConversed : Session ℕ ℕ cap := conversed.foldl (perform id) (start (fun _ => 100) 0)

/-- A short conversation and the exchange it follows. -/
theorem refines_exchange_afterConversed :
    ∃ W, Runs (fun _ => 4) W ∧ Follows id 0 (afterConversed : Session ℕ ℕ fun _ => 4) W :=
  refines_exchange (fun _ => ⟨2, le_rfl, rfl⟩) id (fun _ => 100) 0
    (Allowed.reaches (l := conversed) (by decide)) (by decide)

/-! ## Linked lists -/

/-- Packet `b` is a reply to packet `a`; packets are told by their senders and positions. -/
def Continues (s : Session S R cap) (a b : Side × ℕ) : Prop :=
  a.1 = b.1.peer ∧ ∃ p ∈ (s.sentBy a.1)[a.2]?, ∃ q ∈ (s.sentBy b.1)[b.2]?, ∃ n,
    p.seqNo? = some n ∧ q.replyNo? = some n

/-- Packet `a` is a payload. -/
def Opens (s : Session S R cap) (a : Side × ℕ) : Prop :=
  ∃ p ∈ (s.sentBy a.1)[a.2]?, p.replyNo? = none

/-- The links of the session are those of the exchange. -/
theorem Follows.continues_iff (hW : Follows encode base s W)
    (hcount : ∀ x, s.sentCount x < 2 ^ 31) {a b : Side × ℕ} :
    s.Continues a b ↔ Exchange.Continues W a b := by
  constructor
  · rintro ⟨hside, p, hp, q, hq, n, hn, hno⟩
    have hnumber := (hW.shows a.1).sends.numbered a.2 p hp
    rw [hn] at hnumber
    cases hnumber
    have hlt : a.2 < s.sentCount b.1.peer := by
      rw [← hside]
      exact (List.getElem?_eq_some_iff.mp hp).1
    exact ⟨hside, hW.answers_of_replyNo hcount hq hlt hno⟩
  · rintro ⟨hside, hanswers⟩
    have hb : b.2 < (s.sentBy b.1).length := by
      rw [sentBy, ← (hW.shows b.1).next_eq]
      exact answers_lt hanswers
    have ha : a.2 < (s.sentBy a.1).length := by
      have hlt := (hW.consistent b.1).replied_lt hanswers
      rwa [← hside, (hW.shows a.1).next_eq] at hlt
    have hp := List.getElem?_eq_getElem ha
    have hq := List.getElem?_eq_getElem hb
    refine ⟨hside, _, hp, _, hq, _, (hW.shows a.1).sends.numbered a.2 _ hp, ?_⟩
    rw [stands_replyNo (hW.shows b.1).items hq, hanswers]
    rfl

/-- A packet that was sent is a payload exactly when it replies to none. -/
theorem Follows.opens_iff (hW : Follows encode base s W) (hcount : ∀ x, s.sentCount x < 2 ^ 31)
    {a : Side × ℕ} (ha : a.2 < s.sentCount a.1) : s.Opens a ↔ Chains.IsHead s.Continues a := by
  have hp := List.getElem?_eq_getElem (l := s.sentBy a.1) ha
  have hno := stands_replyNo (hW.shows a.1).items hp
  constructor
  · rintro ⟨q, hq, hnone⟩ b ⟨-, -, -, q', hq', n, -, hn⟩
    obtain rfl := Option.mem_unique hq hq'
    rw [hnone] at hn
    cases hn
  · intro hhead
    refine ⟨_, hp, ?_⟩
    cases hr : (W a.1).answers a.2 with
    | none => rw [hno, hr, Option.map_none]
    | some r =>
      refine absurd ((hW.continues_iff hcount).mpr ⟨?_, hr⟩) (hhead (a.1.peer, r))
      rfl

omit [∀ x, NeZero (cap x)] in
/-- What is replied to was sent. -/
theorem sent_of_continues {a b : Side × ℕ} (h : ReflTransGen s.Continues a b)
    (hb : b.2 < s.sentCount b.1) : a.2 < s.sentCount a.1 := by
  rcases h.cases_head with rfl | ⟨c, ⟨-, p, hp, -⟩, -⟩
  · exact hb
  · exact (List.getElem?_eq_some_iff.mp hp).1

/-- While nothing was delivered twice, a packet is continued by one other at most. -/
theorem Follows.rightUnique (hW : Follows encode base s W) (hcount : ∀ x, s.sentCount x < 2 ^ 31)
    (hlinked : AllLinked cap W) : Relator.RightUnique s.Continues := by
  intro a b c hb hc
  obtain ⟨hside, hanswers⟩ := (hW.continues_iff hcount).mp hb
  obtain ⟨hside', hanswers'⟩ := (hW.continues_iff hcount).mp hc
  have hsame : c.1 = b.1 := by rw [← Side.peer_peer c.1, ← hside', hside, Side.peer_peer]
  rw [hsame] at hanswers'
  exact Prod.ext hsame.symm ((hlinked b.1).answers_inj _ _ _ hanswers hanswers')

/-- The number of a packet that was replied to is not outstanding. -/
theorem Follows.settled_of_continues (hW : Follows encode base s W)
    (hcount : ∀ x, s.sentCount x < 2 ^ 31) (hlinked : AllLinked cap W) {a b : Side × ℕ}
    (h : s.Continues a b) : number base a.2 ∉ (s.node b.1).seqEx.concurrentReplies := by
  obtain ⟨hside, hanswers⟩ := (hW.continues_iff hcount).mp h
  intro hmem
  obtain ⟨r, howed, hnumber⟩ := List.mem_map.mp ((hW.shows b.1).replies.mem_iff.mp hmem)
  have hlt {k : ℕ} (hk : k < (W b.1.peer).next) : k < 2 ^ 31 := by
    rw [(hW.shows b.1.peer).next_eq] at hk
    exact hk.trans (hcount b.1.peer)
  have hr := hlt ((hlinked b.1).delivered_lt r ((hlinked b.1).owed_delivered r howed))
  have ha := hlt ((hlinked b.1).replied_lt hanswers)
  obtain rfl := (number_inj (by omega) (by omega)).mp hnumber
  exact (hlinked b.1).owed_unanswered _ howed b.2 hanswers

/-- Every exchange is a linked list, in every run with fewer than `2^31` packets each way.
Following the reply numbers back from any packet leads to one payload. And when no
packet was handed over twice: of two packets of one exchange the later is reached from
the earlier by replies, and only the last one can still be replied to. -/
theorem exchanges_are_lists (hC : ∀ x, ∃ e ≥ 2, cap x = 2 ^ e) (encode : S → R)
    (interval : Side → Int64) (initialSeqNo : SeqNo)
    (hrun : Reaches Possible (perform encode) (start interval initialSeqNo) s)
    (hcount : ∀ x, s.sentCount x < 2 ^ 31) :
    (∀ x, ∀ k < s.sentCount x, ∃! h, s.Opens h ∧ ReflTransGen s.Continues h (x, k)) ∧
      ((∀ x, (s.node x).history.deliveredNumbers.Nodup) →
        (∀ h a b, ReflTransGen s.Continues h a → ReflTransGen s.Continues h b →
          ReflTransGen s.Continues a b ∨ ReflTransGen s.Continues b a) ∧
        ∀ a b, s.Continues a b →
          number initialSeqNo a.2 ∉ (s.node b.1).seqEx.concurrentReplies) := by
  obtain ⟨W, hruns, hW⟩ := refines_exchange hC encode interval initialSeqNo hrun hcount
  have hlinks : s.Continues = Exchange.Continues W :=
    funext₂ fun a b => propext (hW.continues_iff hcount)
  constructor
  · intro x k hk
    have hwf : WellFounded s.Continues := hlinks ▸ hruns.wellFounded
    have hunique : Relator.LeftUnique s.Continues := hlinks ▸ Continues.leftUnique
    obtain ⟨h, ⟨hhead, hreach⟩, honly⟩ := Chains.existsUnique_head hwf hunique (x, k)
    refine ⟨h, ⟨(hW.opens_iff hcount (sent_of_continues hreach hk)).mpr hhead, hreach⟩, ?_⟩
    rintro h' ⟨hopens, hreach'⟩
    exact honly h' ⟨(hW.opens_iff hcount (sent_of_continues hreach' hk)).mp hopens, hreach'⟩
  · intro hfresh
    have hlinked := hruns.linked hC fun x =>
      ((hW.shows x).receives.nodup_iff (hW.shows x.peer).sends (hcount x.peer)).mp (hfresh x)
    refine ⟨fun h a b ha hb => ?_, fun a b hab => hW.settled_of_continues hcount hlinked hab⟩
    exact ReflTransGen.total_of_right_unique (hW.rightUnique hcount hlinked) ha hb

/-- The exchange of a short conversation is a list. -/
theorem exchanges_are_lists_afterConversed :
    (∃! h, (afterConversed : Session ℕ ℕ fun _ => 4).Opens h ∧
      ReflTransGen (afterConversed : Session ℕ ℕ fun _ => 4).Continues h (.a, 1)) ∧
    ∀ a b, (afterConversed : Session ℕ ℕ fun _ => 4).Continues a b → number 0 a.2 ∉
      ((afterConversed : Session ℕ ℕ fun _ => 4).node b.1).seqEx.concurrentReplies :=
  have h := exchanges_are_lists (s := (afterConversed : Session ℕ ℕ fun _ => 4))
    (fun _ => ⟨2, le_rfl, rfl⟩) id (fun _ => 100) 0
    (Allowed.reaches (l := conversed) (by decide)) (by decide)
  ⟨h.1 .a 1 (by decide), (h.2 (by decide)).2⟩

end Session

end SequentialExchange
