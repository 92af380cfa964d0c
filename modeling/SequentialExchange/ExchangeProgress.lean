import SequentialExchange.ExchangeLinks

/-!
# When an exchange can go on

Two linked parties that send nothing more can always empty their rings, except
in two situations. Either each party waits for the very item that fills the ring
of the other. Or the item that fills a ring was answered by an ordered item, and
an item before that one cannot be taken since the ring is full. Otherwise one of
three chances is left: the next item, the answer to the item that fills the
ring, or an acknowledgement that is given once more.
-/

namespace SequentialExchange.Exchange

open Party

/-- The position `k` holds the place of the next item. -/
def Party.Fills (P : ℕ) (A : Party) (k : ℕ) : Prop := k ∈ A.live ∧ k ≡ A.next [MOD P]

/-- The peer waits for the very item that fills the ring. -/
def Jams (P : ℕ) (A B : Party) : Prop := A.Fills P B.cursor

/-- The item that fills the ring was answered by an ordered item of the peer
that is not the next one. -/
def Starves (P : ℕ) (A B : Party) : Prop :=
  ∃ a, A.Fills P a ∧ ∃ q ∈ B.live, B.answers q = some a ∧ B.ordered q = true ∧ q ≠ A.cursor

/-- The exchange cannot go on. -/
def Stuck (P P' : ℕ) (A B : Party) : Prop :=
  Jams P A B ∧ Jams P' B A ∨ Starves P A B ∨ Starves P' B A

/-- Something that `A` can do about the items of `B`. -/
inductive Chance (P : ℕ) (A B : Party) : Prop where
  /-- Take the next item: the ring of `A` is not full. -/
  | takeNext (hnext : A.cursor < B.next) (hfree : ∀ a, ¬ A.Fills P a)
  /-- Take the answer to the item that fills the ring. -/
  | takeAnswer (a q : ℕ) (ha : A.Fills P a) (hq : q ∈ B.live) (hans : B.answers q = some a)
      (hord : B.ordered q = true → q = A.cursor)
  /-- Acknowledge an item once more. -/
  | reack (k : ℕ) (hk : k ∈ B.live) (hcursor : k < A.cursor)
      (hno : ∀ j ∈ A.live, A.answers j ≠ some k)

namespace Linked

variable {P P' : ℕ} {A B : Party}

/-- The position that fills the ring is one ring before the next. -/
theorem eq_of_fills (h : Linked P A B) {a : ℕ} (ha : A.Fills P a) : a + P = A.next := by
  obtain ⟨hlive, hmod⟩ := ha
  have hlt := h.live_lt a hlive
  have hrecent := h.recent a hlive
  by_contra hne
  have := WrapNumbering.eq_of_modEq_of_lt hmod hlt.le (by omega)
  omega

/-- A position that was not handed over is live. -/
theorem live_of_fresh (h : Linked P A B) {k : ℕ} (hk : k < A.next) (hfresh : k ∉ B.delivered) :
    k ∈ A.live := by
  by_contra hnot
  exact hfresh (h.done k hk hnot).1

/-- The sender is at most one ring ahead of the receiver. -/
theorem ahead (h : Linked P A B) (hc : Consistent B A) : A.next ≤ B.cursor + P := by
  rcases Nat.lt_or_ge B.cursor A.next with hlt | hge
  · exact h.recent _ (h.live_of_fresh hlt hc.sound.cursor_not_mem_log)
  · omega

/-- What fills the ring was not marked by the receiver. -/
theorem fills_cursor (h : Linked P A B) (hc : Consistent B A) {a : ℕ} (ha : A.Fills P a) :
    a ≤ B.cursor ∧ (a ∈ B.delivered → a < B.cursor) := by
  have heq := h.eq_of_fills ha
  have hahead := h.ahead hc
  have hle : a ≤ B.cursor := by omega
  refine ⟨hle, fun hm => lt_of_le_of_ne hle ?_⟩
  rintro rfl
  exact hc.sound.cursor_not_mem_log hm

/-- An answer that is live and finds its question live was not handed over. -/
theorem fresh_of_answers (h : Linked P A B) {a q : ℕ} (ha : a ∈ A.live)
    (hans : B.answers q = some a) : q ∉ A.delivered :=
  fun hm => h.replied_not_live q hm a hans ha

/-- While nothing can be done for `A`, a full ring is jammed or starved. -/
theorem jams_or_starves (h : Linked P A B) (hB : Linked P' B A) (hA' : ¬ Chance P A B)
    (hB' : ¬ Chance P' B A) {a : ℕ} (ha : A.Fills P a) : Jams P A B ∨ Starves P A B := by
  obtain ⟨hle, -⟩ := h.fills_cursor hB.toConsistent ha
  rcases Nat.eq_or_lt_of_le hle with rfl | hlt
  · exact .inl ha
  · refine .inr ⟨a, ha, ?_⟩
    by_contra hnot
    refine hB' (.reack a ha.1 hlt fun q hq hans => ?_)
    by_cases hord : B.ordered q = true ∧ q ≠ A.cursor
    · exact hnot ⟨q, hq, hans, hord.1, hord.2⟩
    · refine hA' (.takeAnswer a q ha hq hans fun ho => ?_)
      by_contra hne
      exact hord ⟨ho, hne⟩

/-- When everything was handed over and nothing can be acknowledged again, the
ring is empty. -/
theorem live_eq_empty (h : Linked P A B) (hB : Linked P' B A) (hB' : ¬ Chance P' B A)
    (hall : A.next ≤ B.cursor) (hback : B.next ≤ A.cursor) : A.live = ∅ := by
  rw [Set.eq_empty_iff_forall_notMem]
  intro k hk
  have hlt := h.live_lt k hk
  refine hB' (.reack k hk (by omega) fun j hj hans => ?_)
  have hdelivered : j ∈ A.delivered :=
    (h.sound.mem_log j).mpr (.inl (show j < A.cursor from (hB.live_lt j hj).trans_le hback))
  exact h.replied_not_live j hdelivered k hans hk

/-- Unless the exchange is stuck, something can be done or both rings are empty. -/
theorem chance_or_empty (hA : Linked P A B) (hB : Linked P' B A) (hstuck : ¬ Stuck P P' A B) :
    Chance P A B ∨ Chance P' B A ∨ A.live = ∅ ∧ B.live = ∅ := by
  simp only [Stuck, not_or] at hstuck
  obtain ⟨hjam, hstarveA, hstarveB⟩ := hstuck
  by_contra hnot
  simp only [not_or] at hnot
  obtain ⟨hA', hB', hlive⟩ := hnot
  by_cases hfullA : ∃ a, A.Fills P a
  · obtain ⟨a, ha⟩ := hfullA
    have hjamA := (hA.jams_or_starves hB hA' hB' ha).resolve_right hstarveA
    by_cases hfullB : ∃ b, B.Fills P' b
    · obtain ⟨b, hb⟩ := hfullB
      exact hjam ⟨hjamA, (hB.jams_or_starves hA hB' hA' hb).resolve_right hstarveB⟩
    · -- `B` has room for the item that it waits for
      exact hB' (.takeNext (hA.live_lt _ hjamA.1) fun b hb => hfullB ⟨b, hb⟩)
  · have hroomA : ∀ a, ¬ A.Fills P a := fun a ha => hfullA ⟨a, ha⟩
    have hback : B.next ≤ A.cursor := by
      by_contra hlt
      exact hA' (.takeNext (not_le.mp hlt) hroomA)
    have hroomB : ∀ b, ¬ B.Fills P' b := fun b hb => by
      have hjamB := (hB.jams_or_starves hA hB' hA' hb).resolve_right hstarveB
      have := hB.live_lt _ hjamB.1
      omega
    have hall : A.next ≤ B.cursor := by
      by_contra hlt
      exact hB' (.takeNext (not_le.mp hlt) hroomB)
    exact hlive ⟨hA.live_eq_empty hB hB' hall hback, hB.live_eq_empty hA hA' hback hall⟩

end Linked

end SequentialExchange.Exchange
