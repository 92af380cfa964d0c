import Mathlib

/-!
# Reservations, a lock, and the tokens that give them back

A ledger keeps reservations of numbers and one lock. Tokens are issued with a
reservation, and perhaps with the lock; settling a token gives both back, or
turns the right to unlock into a key. A leaked token disappears without giving
anything back. Exclusive use of the lock survives leaks, the balance between
tokens and what is reserved does not.
-/

namespace SequentialExchange.ReservationLedger

/-- What is reserved and who can give it back. -/
structure Ledger (α : Type*) where
  /-- The tokens, each with its number and whether it holds the lock. -/
  owed : Multiset (α × Bool)
  /-- The number of keys, each holding the lock. -/
  keys : ℕ
  /-- The reserved numbers. -/
  reserved : Multiset α
  /-- Whether the lock is taken. -/
  locked : Bool

namespace Ledger

variable {α : Type*}

/-- The number of tokens and keys that hold the lock. -/
def holders (l : Ledger α) : ℕ := (l.owed.map fun g => g.2.toNat).sum + l.keys

/-- A step that gives back whatever it takes a token for. -/
inductive Turn : Ledger α → Ledger α → Prop where
  /-- Nothing happens. -/
  | rest (l : Ledger α) : Turn l l
  /-- A token is issued; the lock is taken only when it is free. -/
  | issue (g : α × Bool) (o : Multiset (α × Bool)) (k : ℕ) (r : Multiset α) (b : Bool)
      (hfree : g.2 = true → b = false) : Turn ⟨o, k, r, b⟩ ⟨g ::ₘ o, k, g.1 ::ₘ r, b || g.2⟩
  /-- A token is settled; with `stay` its lock goes to a key. -/
  | settle (g : α × Bool) (o : Multiset (α × Bool)) (k : ℕ) (r : Multiset α) (b stay : Bool) :
      Turn ⟨g ::ₘ o, k, g.1 ::ₘ r, b⟩ ⟨o, k + (g.2 && stay).toNat, r, b && !(g.2 && !stay)⟩
  /-- A token gives back its lock only. -/
  | unlock (a : α) (o : Multiset (α × Bool)) (k : ℕ) (r : Multiset α) (b : Bool) :
      Turn ⟨(a, true) ::ₘ o, k, r, b⟩ ⟨(a, false) ::ₘ o, k, r, false⟩
  /-- A key gives back the lock. -/
  | turnKey (o : Multiset (α × Bool)) (k : ℕ) (r : Multiset α) (b : Bool) :
      Turn ⟨o, k + 1, r, b⟩ ⟨o, k, r, false⟩

/-- A token disappears; with `stay` its lock goes to a key. -/
inductive Leak : Ledger α → Ledger α → Prop where
  /-- The token `g` is lost. -/
  | lose (g : α × Bool) (o : Multiset (α × Bool)) (k : ℕ) (r : Multiset α) (b stay : Bool) :
      Leak ⟨g ::ₘ o, k, r, b⟩ ⟨o, k + (g.2 && stay).toNat, r, b⟩

/-- At most one holder, only while locked. -/
def Exclusive (l : Ledger α) : Prop := l.holders ≤ 1 ∧ (0 < l.holders → l.locked = true)

/-- The reservations are those of the tokens and the lost ones. -/
def Lost (l : Ledger α) (lost : Multiset α) : Prop := l.reserved = l.owed.map Prod.fst + lost

/-- The lock is taken only by a holder. -/
def Accounted (l : Ledger α) : Prop := l.locked = true → 0 < l.holders

variable {l l' : Ledger α} {lost : Multiset α}

/-- Tokens that are kept in a list are counted by whether they hold the lock. -/
theorem sum_locks {β : Type*} (token : β → α × Bool) (l : List β) :
    (((l.map token : List (α × Bool)) : Multiset (α × Bool)).map fun g => g.2.toNat).sum =
      l.countP fun x => (token x).2 := by
  rw [Multiset.map_coe, Multiset.sum_coe]
  induction l with
  | nil => rfl
  | cons x l ih =>
    rw [List.map_cons, List.map_cons, List.sum_cons, ih, List.countP_cons, Nat.add_comm]
    cases (token x).2 <;> rfl

/-- One more token counts when it holds the lock. -/
theorem holders_cons (g : α × Bool) (o : Multiset (α × Bool)) (k : ℕ) (r : Multiset α) (b : Bool) :
    (Ledger.mk (g ::ₘ o) k r b).holders = g.2.toNat + (Ledger.mk o k r b).holders := by
  simp only [holders, Multiset.map_cons, Multiset.sum_cons]
  omega

/-- More keys are more holders. -/
theorem holders_add (o : Multiset (α × Bool)) (k m : ℕ) (r r' : Multiset α) (b b' : Bool) :
    (Ledger.mk o (k + m) r b).holders = m + (Ledger.mk o k r' b').holders := by
  simp only [holders]
  omega

/-- The lock and the reservations do not count. -/
theorem holders_congr (o : Multiset (α × Bool)) (k : ℕ) (r r' : Multiset α) (b b' : Bool) :
    (Ledger.mk o k r b).holders = (Ledger.mk o k r' b').holders := rfl

/-- Somebody holds the lock. -/
theorem holders_pos_iff : 0 < l.holders ↔ (∃ g ∈ l.owed, g.2 = true) ∨ 0 < l.keys := by
  have hsum : 0 < (l.owed.map fun g => g.2.toNat).sum ↔ ∃ g ∈ l.owed, g.2 = true := by
    rw [Nat.pos_iff_ne_zero, Ne, Multiset.sum_eq_zero_iff]
    constructor
    · intro h
      by_contra hnone
      refine h fun x hx => ?_
      obtain ⟨g, hg, rfl⟩ := Multiset.mem_map.mp hx
      cases hlock : g.2 with
      | false => rfl
      | true => exact absurd ⟨g, hg, hlock⟩ hnone
    · rintro ⟨g, hg, hlock⟩ h
      have hzero := h _ (Multiset.mem_map_of_mem _ hg)
      simp [hlock] at hzero
  rw [holders, Nat.add_pos_iff_pos_or_pos, hsum]

/-- The lock never has a second holder. -/
theorem Turn.exclusive (h : Turn l l') (hl : Exclusive l) : Exclusive l' := by
  obtain ⟨hle, hlocked⟩ := hl
  cases h with
  | rest => exact ⟨hle, hlocked⟩
  | issue g o k r b hfree =>
    rw [Exclusive, holders_cons, holders_congr o k _ r _ b]
    cases hg : g.2 with
    | false => simpa using ⟨hle, hlocked⟩
    | true =>
      -- somebody would hold the lock although it is free
      have hnone : ¬ 0 < (Ledger.mk o k r b).holders := fun hpos => by
        have hb := hlocked hpos
        simp [hfree hg] at hb
      rw [Bool.toNat_true]
      exact ⟨by omega, fun _ => by simp⟩
  | settle g o k r b stay =>
    rw [holders_cons, holders_congr o k _ r _ b] at hle hlocked
    rw [Exclusive, holders_add o k _ r r _ b]
    cases hg : g.2 with
    | false => simpa [hg] using And.intro hle hlocked
    | true =>
      rw [hg, Bool.toNat_true] at hle hlocked
      cases stay with
      | true => exact ⟨hle, fun hpos => by simpa using hlocked hpos⟩
      | false =>
        simp only [Bool.and_false, Bool.toNat_false]
        exact ⟨by omega, fun hpos => by omega⟩
  | unlock a o k r b =>
    rw [holders_cons] at hle hlocked
    rw [Exclusive, holders_cons, holders_congr o k r r false b]
    simp only [Bool.toNat_true, Bool.toNat_false] at hle ⊢
    exact ⟨by omega, fun hpos => by omega⟩
  | turnKey o k r b =>
    rw [holders_add o k 1 r r b b] at hle hlocked
    rw [Exclusive, holders_congr o k r r false b]
    exact ⟨by omega, fun hpos => by omega⟩

/-- A leak makes no new holder. -/
theorem Leak.exclusive (h : Leak l l') (hl : Exclusive l) : Exclusive l' := by
  obtain ⟨hle, hlocked⟩ := hl
  obtain ⟨g, o, k, r, b, stay⟩ := h
  rw [holders_cons] at hle hlocked
  rw [Exclusive, holders_add o k _ r r b b]
  have hstay : (g.2 && stay).toNat ≤ g.2.toNat := by cases g.2 <;> cases stay <;> simp
  exact ⟨by omega, fun hpos => hlocked (by omega)⟩

/-- Without leaks nothing more is lost. -/
theorem Turn.loses_nothing (h : Turn l l') (hl : Lost l lost) : Lost l' lost := by
  cases h with
  | rest => exact hl
  | issue g o k r b _ =>
    simp only [Lost, Multiset.map_cons, Multiset.cons_add] at hl ⊢
    rw [hl]
  | settle g o k r b stay =>
    simpa only [Lost, Multiset.map_cons, Multiset.cons_add, Multiset.cons_inj_right] using hl
  | unlock a o k r b => simpa only [Lost, Multiset.map_cons] using hl
  | turnKey o k r b => exact hl

/-- A leak loses one reservation for good. -/
theorem Leak.loses_one (h : Leak l l') (hl : Lost l lost) : ∃ a, Lost l' (a ::ₘ lost) := by
  obtain ⟨g, o, k, r, b, stay⟩ := h
  refine ⟨g.1, ?_⟩
  simp only [Lost, Multiset.map_cons, Multiset.cons_add, Multiset.add_cons] at hl ⊢
  exact hl

/-- Without leaks the lock is always held by somebody. -/
theorem Turn.accounted (h : Turn l l') (ha : Accounted l) : Accounted l' := by
  cases h with
  | rest => exact ha
  | issue g o k r b _ =>
    intro hb
    rw [holders_cons, holders_congr o k _ r _ b]
    rcases (Bool.or_eq_true _ _).mp hb with hb | hb
    · have hpos := ha hb
      omega
    · rw [hb, Bool.toNat_true]
      omega
  | settle g o k r b stay =>
    intro hb
    obtain ⟨hb, hkeep⟩ := (Bool.and_eq_true _ _).mp hb
    have hpos := ha hb
    rw [holders_cons, holders_congr o k _ r _ b] at hpos
    rw [holders_add o k _ r r _ b]
    have hsame : (g.2 && stay).toNat = g.2.toNat := by
      revert hkeep
      cases g.2 <;> cases stay <;> simp
    omega
  | unlock a o k r b => exact fun hb => nomatch hb
  | turnKey o k r b => exact fun hb => nomatch hb

/-! ## Series of turns -/

/-- Any number of turns. -/
abbrev Turns : Ledger α → Ledger α → Prop := Relation.ReflTransGen Turn

/-- Nor does any series of turns. -/
theorem Turns.exclusive (h : Turns l l') (hl : Exclusive l) : Exclusive l' := by
  induction h with
  | refl => exact hl
  | tail _ hturn ih => exact hturn.exclusive ih

/-- A series of turns loses no number. -/
theorem Turns.loses_nothing (h : Turns l l') (hl : Lost l lost) : Lost l' lost := by
  induction h with
  | refl => exact hl
  | tail _ hturn ih => exact hturn.loses_nothing ih

/-- A series of turns leaves the lock with a holder. -/
theorem Turns.accounted (h : Turns l l') (ha : Accounted l) : Accounted l' := by
  induction h with
  | refl => exact ha
  | tail _ hturn ih => exact hturn.accounted ih

end Ledger

end SequentialExchange.ReservationLedger
