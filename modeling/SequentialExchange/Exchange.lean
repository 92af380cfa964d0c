import SequentialExchange.Intake

/-!
# The exchange of two parties

What two endpoints do for each other, on unbounded positions. A party sends
items, keeps the live ones until they are acknowledged or answered, takes the
items of its peer in, and owes an answer for each one it was handed. Answers are
new items or bare acknowledgements. Its live items sit on a ring of `P` places,
so an item can be sent only where its place is free.

`Consistent` holds in every exchange. `Linked` needs that no position is handed
over twice: then every item is handed back once, and the links of the exchange
are the same for both parties.
-/

namespace SequentialExchange.Exchange

/-- What is sent at one position. -/
structure Item where
  /-- The position of the peer that it replies to. -/
  answers : Option ℕ
  /-- Whether it keeps its place in the order. -/
  ordered : Bool

/-- One party. -/
structure Party where
  /-- Everything sent so far. -/
  sent : List Item
  /-- The positions awaiting an answer. -/
  live : Set ℕ
  /-- The least position of the peer that was not handed over. -/
  cursor : ℕ
  /-- Positions of the peer handed over ahead of a gap. -/
  early : Set ℕ
  /-- Everything handed over, with the own position it was paired with. -/
  log : List (ℕ × Option ℕ)
  /-- Positions of the peer that have to be answered. -/
  owed : List ℕ
  /-- Positions of the peer that were acknowledged. -/
  acked : Set ℕ
  /-- Own positions that were handed back by an acknowledgement. -/
  heard : List ℕ

namespace Party

/-- Nothing has happened. -/
def start : Party := ⟨[], ∅, 0, ∅, [], [], ∅, []⟩

/-- The next position to send. -/
def next (A : Party) : ℕ := A.sent.length

/-- The position that the item at `k` replies to. -/
def answers (A : Party) (k : ℕ) : Option ℕ := A.sent[k]?.bind Item.answers

/-- Whether the item at `k` keeps its place in the order. -/
def ordered (A : Party) (k : ℕ) : Bool := (A.sent[k]?.map Item.ordered).getD false

/-- The positions handed over. -/
def delivered (A : Party) : List ℕ := A.log.map Prod.fst

/-- The receiving side. -/
def intake (A : Party) : Intake := ⟨A.cursor, A.early, A.delivered⟩

/-- The own positions that were handed back. -/
def handedBack (A : Party) : List ℕ := A.heard ++ A.log.filterMap Prod.snd

/-- One more position can be owed: its place is free besides those of the
positions owed already. The place of the position replied to counts as free. -/
def Room (P : ℕ) (A : Party) (r : Option ℕ) : Prop :=
  A.owed.length + 2 < P ∧
    ∀ i ≤ A.owed.length, ∀ k ∈ A.live, k ≡ A.next + i [MOD P] → ∃ r' ∈ r, r' ≡ k [MOD P]

/-- Send an item; it takes its place on the ring. -/
def push (P : ℕ) (A : Party) (item : Item) : Party :=
  { A with
    sent := A.sent ++ [item]
    live := insert A.next {k ∈ A.live | ¬ k ≡ A.next [MOD P]} }

/-- Take an item back that was acknowledged. -/
def hear (A : Party) (r : ℕ) : Party :=
  { A with live := A.live \ {r}, heard := A.heard ++ [r] }

/-- Take an item of the peer in: the receiving side becomes `J`, the item is
owed an answer, and the own position `m` it was paired with is handed back. -/
def takeIn (A : Party) (k : ℕ) (m : Option ℕ) (J : Intake) : Party :=
  { A with
    cursor := J.cursor
    early := J.early
    log := A.log ++ [(k, m)]
    owed := A.owed ++ [k]
    live := {j ∈ A.live | m ≠ some j} }

/-- The item taken in is delivered. -/
@[simp] theorem takeIn_delivered (A : Party) (k : ℕ) (m : Option ℕ) (J : Intake) :
    (A.takeIn k m J).delivered = A.delivered ++ [k] := by
  simp [takeIn, delivered]

/-- The item it answers, if any, is handed back. -/
@[simp] theorem takeIn_handedBack (A : Party) (k : ℕ) (m : Option ℕ) (J : Intake) :
    (A.takeIn k m J).handedBack = A.handedBack ++ m.toList := by
  cases m <;> simp [takeIn, handedBack]

end Party

open Party

/-- One step of party `A` whose peer is `B`. -/
inductive Act (P : ℕ) (B A : Party) : Party → Prop where
  /-- Send an item of one's own. -/
  | send (b : Bool) (hroom : A.Room P none) : Act P B A (A.push P ⟨none, b⟩)
  /-- Answer an owed position with an item. -/
  | reply (r : ℕ) (b : Bool) (l : List ℕ) (hl : A.owed.Perm (r :: l)) :
      Act P B A (push P { A with owed := l } ⟨some r, b⟩)
  /-- Answer an owed position with an acknowledgement. -/
  | ack (r : ℕ) (l : List ℕ) (hl : A.owed.Perm (r :: l)) :
      Act P B A { A with owed := l, acked := insert r A.acked }
  /-- Acknowledge a position once more that needs no answer. -/
  | reack (k : ℕ) (hk : k < A.cursor) (hlive : ∀ j ∈ A.live, A.answers j ≠ some k)
      (howed : k ∉ A.owed) : Act P B A { A with acked := insert k A.acked }
  /-- Take an acknowledgement of the peer. -/
  | heed (r : ℕ) (hr : r ∈ B.acked) (hlive : r ∈ A.live) :
      Act P B A (A.hear r)
  /-- Take an item of the peer in, paired with the live position it answers. -/
  | deliver (k : ℕ) (m : Option ℕ) (J : Intake) (hk : k < B.next) (hroom : A.Room P (B.answers k))
      (hm : ∀ r, m = some r ↔ B.answers k = some r ∧ r ∈ A.live)
      (hJ : Intake.Deliver B.ordered k A.intake J) : Act P B A (A.takeIn k m J)

section Basics

variable {P : ℕ} {A A' B : Party}

/-- Only items that were sent answer anything. -/
theorem answers_lt {k r : ℕ} (h : A.answers k = some r) : k < A.next := by
  obtain ⟨item, hitem, -⟩ := Option.bind_eq_some_iff.mp h
  exact (List.getElem?_eq_some_iff.mp hitem).1

/-- A party that sends has one item more. -/
@[simp] theorem push_next (item : Item) : (A.push P item).next = A.next + 1 := by
  simp [push, next]

/-- The earlier items answer what they did. -/
theorem push_answers_lt {item : Item} {k : ℕ} (hk : k < A.next) :
    (A.push P item).answers k = A.answers k := by
  simp [push, answers, List.getElem?_append_left (show k < A.sent.length from hk)]

/-- The new item answers what it was sent for. -/
theorem push_answers_next (item : Item) : (A.push P item).answers A.next = item.answers := by
  simp [push, answers, next]

/-- A reply among the sent items is an old one or the new one. -/
theorem push_answers {item : Item} {k r : ℕ} (h : (A.push P item).answers k = some r) :
    A.answers k = some r ∨ k = A.next ∧ item.answers = some r := by
  have hk := answers_lt h
  rw [push_next] at hk
  rcases Nat.lt_succ_iff_lt_or_eq.mp hk with hk | rfl
  · exact .inl (push_answers_lt hk ▸ h)
  · exact .inr ⟨rfl, push_answers_next (P := P) item ▸ h⟩

/-- A party forgets nothing. -/
structure Grows (A A' : Party) : Prop where
  sent : A.sent <+: A'.sent
  delivered : A.delivered <+: A'.delivered
  acked : A.acked ⊆ A'.acked

/-- No act forgets anything. -/
theorem Act.grows (h : Act P B A A') : Grows A A' := by
  cases h with
  | send b _ => exact ⟨List.prefix_append _ _, List.prefix_rfl, subset_rfl⟩
  | reply r b l _ => exact ⟨List.prefix_append _ _, List.prefix_rfl, subset_rfl⟩
  | ack r l _ => exact ⟨List.prefix_rfl, List.prefix_rfl, Set.subset_insert _ _⟩
  | reack k _ _ _ => exact ⟨List.prefix_rfl, List.prefix_rfl, Set.subset_insert _ _⟩
  | heed r _ _ => exact ⟨List.prefix_rfl, List.prefix_rfl, subset_rfl⟩
  | deliver k m J _ _ _ _ =>
    exact ⟨List.prefix_rfl, by simp, subset_rfl⟩

/-- The number of items grows. -/
theorem Grows.next_le (h : Grows A A') : A.next ≤ A'.next := h.sent.length_le

/-- What an item answers is settled when it is sent. -/
theorem Grows.answers_eq (h : Grows A A') {k : ℕ} (hk : k < A.next) :
    A'.answers k = A.answers k := by
  obtain ⟨l, hl⟩ := h.sent
  rw [answers, answers, ← hl, List.getElem?_append_left hk]

/-- A delivery is not taken back. -/
theorem Grows.mem_delivered (h : Grows A A') {k : ℕ} (hk : k ∈ A.delivered) :
    k ∈ A'.delivered := h.delivered.subset hk

end Basics

/-- What holds of `A` with its peer `B` in every exchange. -/
structure Consistent (A B : Party) : Prop where
  live_lt : ∀ k ∈ A.live, k < A.next
  sound : A.intake.Sound
  delivered_lt : ∀ k ∈ A.delivered, k < B.next
  owed_delivered : ∀ r ∈ A.owed, r ∈ A.delivered
  answers_delivered : ∀ k r, A.answers k = some r → r ∈ A.delivered
  acked_delivered : ∀ r ∈ A.acked, r ∈ A.delivered
  heard_delivered : ∀ r ∈ A.heard, r ∈ B.delivered
  paired : ∀ k r, (k, some r) ∈ A.log → B.answers k = some r

namespace Consistent

variable {P : ℕ} {A A' B B' : Party}

/-- Two parties that have done nothing are consistent. -/
theorem start : Consistent Party.start Party.start where
  live_lt := nofun
  sound := Intake.start_sound
  delivered_lt := nofun
  owed_delivered := nofun
  answers_delivered k r h := by simp [Party.start, answers] at h
  acked_delivered := nofun
  heard_delivered := nofun
  paired := nofun

/-- The cursor does not pass what was sent. -/
theorem cursor_le (h : Consistent A B) : A.cursor ≤ B.next := by
  rcases Nat.eq_zero_or_pos A.cursor with h0 | hpos
  · omega
  · have hlast : A.cursor - 1 ∈ A.delivered :=
      (h.sound.mem_log _).mpr (.inl (show A.cursor - 1 < A.cursor by omega))
    have := h.delivered_lt _ hlast
    omega

/-- Only positions that were sent are replied to. -/
theorem replied_lt (h : Consistent A B) {k r : ℕ} (hk : A.answers k = some r) : r < B.next :=
  h.delivered_lt r (h.answers_delivered k r hk)

/-- A position that was paired was delivered by the peer. -/
theorem paired_delivered (h : Consistent A B) (h' : Consistent B A) {k r : ℕ}
    (hk : (k, some r) ∈ A.log) : r ∈ B.delivered :=
  h'.answers_delivered k r (h.paired k r hk)

/-- The sending side after an item was sent. -/
theorem push (h : Consistent A B) {item : Item} (hitem : ∀ r ∈ item.answers, r ∈ A.delivered) :
    Consistent (A.push P item) B where
  live_lt k hk := by
    rw [push_next]
    rcases hk with rfl | hk
    · exact Nat.lt_succ_self _
    · exact Nat.lt_succ_of_lt (h.live_lt k hk.1)
  sound := h.sound
  delivered_lt := h.delivered_lt
  owed_delivered := h.owed_delivered
  answers_delivered k r hk := by
    rcases push_answers hk with hk | ⟨-, hr⟩
    · exact h.answers_delivered k r hk
    · exact hitem r hr
  acked_delivered := h.acked_delivered
  heard_delivered := h.heard_delivered
  paired := h.paired

/-- Returning an owed position. -/
theorem returned (h : Consistent A B) {r : ℕ} {l : List ℕ} (hl : A.owed.Perm (r :: l)) :
    r ∈ A.delivered ∧ Consistent { A with owed := l } B :=
  ⟨h.owed_delivered r (hl.mem_iff.mpr List.mem_cons_self),
    { h with owed_delivered := fun k hk =>
        h.owed_delivered k (hl.mem_iff.mpr (List.mem_cons_of_mem r hk)) }⟩

/-- The party itself makes a step. -/
theorem act (h : Consistent A B) (h' : Consistent B A) (ha : Act P B A A') : Consistent A' B := by
  cases ha with
  | send b _ => exact h.push nofun
  | reply r b l hl =>
    obtain ⟨hr, h₁⟩ := h.returned hl
    exact h₁.push fun r' hr' => by
      cases hr'
      exact hr
  | ack r l hl =>
    obtain ⟨hr, h₁⟩ := h.returned hl
    exact { h₁ with
      acked_delivered := fun k hk => hk.elim (fun hkr => hkr ▸ hr) (h.acked_delivered k) }
  | reack k hk _ _ =>
    have hd : k ∈ A.delivered := (h.sound.mem_log k).mpr (.inl hk)
    exact { h with
      acked_delivered := fun j hj => hj.elim (fun hjk => hjk ▸ hd) (h.acked_delivered j) }
  | heed r hr hlive =>
    refine { h with live_lt := fun k hk => h.live_lt k hk.1, heard_delivered := fun k hk => ?_ }
    rcases List.mem_append.mp hk with hk | hk
    · exact h.heard_delivered k hk
    · rw [List.mem_singleton.mp hk]
      exact h'.acked_delivered r hr
  | deliver k m J hk hroom hm hJ =>
    have hlog : J.log = (A.takeIn k m J).delivered := by rw [hJ.log_eq, takeIn_delivered]; rfl
    have hold {j : ℕ} (hj : j ∈ A.delivered) : j ∈ (A.takeIn k m J).delivered := by
      rw [takeIn_delivered]
      exact List.mem_append_left _ hj
    have hnew : k ∈ (A.takeIn k m J).delivered := by simp
    exact {
      live_lt := fun j hj => h.live_lt j hj.1
      sound := by
        have hs := h.sound.deliver hJ
        rwa [show J = (A.takeIn k m J).intake from congrArg (Intake.mk J.cursor J.early) hlog] at hs
      delivered_lt := fun j hj => by
        rw [takeIn_delivered, List.mem_append, List.mem_singleton] at hj
        rcases hj with hj | rfl
        · exact h.delivered_lt j hj
        · exact hk
      owed_delivered := fun j hj => by
        rcases List.mem_append.mp hj with hj | hj
        · exact hold (h.owed_delivered j hj)
        · exact List.mem_singleton.mp hj ▸ hnew
      answers_delivered := fun j r hj => hold (h.answers_delivered j r hj)
      acked_delivered := fun j hj => hold (h.acked_delivered j hj)
      heard_delivered := h.heard_delivered
      paired := fun j r hj => by
        rcases List.mem_append.mp hj with hj | hj
        · exact h.paired j r hj
        · cases List.mem_singleton.mp hj
          exact ((hm r).mp rfl).1 }

/-- The peer makes a step. -/
theorem of_peer_act (h : Consistent A B) (ha : Act P A B B') : Consistent A B' :=
  { h with
    delivered_lt := fun k hk => (h.delivered_lt k hk).trans_le ha.grows.next_le
    heard_delivered := fun r hr => ha.grows.mem_delivered (h.heard_delivered r hr)
    paired := fun k r hk => by
      have hkr := h.paired k r hk
      rwa [ha.grows.answers_eq (answers_lt hkr)] }

end Consistent

end SequentialExchange.Exchange
