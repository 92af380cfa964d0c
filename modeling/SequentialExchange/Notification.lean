import Mathlib

/-!
# Waiters and the notifications they are owed

A waiter is noted by whoever will notify it, by a counter or by one flag for all,
and starts to listen only later. Meanwhile the note may be turned into a
notification. A notification of one waiter leaves at most one permit when nobody
listens; a notification of all reaches those that listen already. Waiters are served
when the notes and the notifications under way suffice for all of them. They stay
served exactly as long as no notification is called that falls flat.
-/

namespace SequentialExchange.Notification

/-- Waiters that are counted and notified one by one. -/
structure Tally where
  /-- How many are to be notified some day. -/
  counted : ℕ
  /-- How many notifications are still to be called. -/
  calls : ℕ
  /-- Whether a permit is stored. -/
  permit : Bool
  /-- The waiters that do not listen yet. -/
  leaving : ℕ
  /-- The waiters that listen. -/
  asleep : ℕ
  /-- The waiters that were woken. -/
  woken : ℕ

namespace Tally

/-- One waiter is notified. -/
def notify (t : Tally) : Tally :=
  if 0 < t.asleep then { t with asleep := t.asleep - 1, woken := t.woken + 1 }
  else { t with permit := true }

/-- A notification is called. -/
def call (t : Tally) : Tally := notify { t with calls := t.calls - 1 }

/-- What the waiters and the notifier do otherwise. -/
inductive Turn : Tally → Tally → Prop where
  /-- Nothing happens. -/
  | rest (t : Tally) : Turn t t
  /-- A waiter is counted. -/
  | enter (c k : ℕ) (p : Bool) (l a w : ℕ) : Turn ⟨c, k, p, l, a, w⟩ ⟨c + 1, k, p, l + 1, a, w⟩
  /-- A waiter starts to listen. -/
  | listen (c k l a w : ℕ) : Turn ⟨c, k, false, l + 1, a, w⟩ ⟨c, k, false, l, a + 1, w⟩
  /-- A waiter finds a permit. -/
  | seize (c k l a w : ℕ) : Turn ⟨c, k, true, l + 1, a, w⟩ ⟨c, k, false, l, a, w + 1⟩
  /-- A woken waiter goes on. -/
  | depart (c k : ℕ) (p : Bool) (l a w : ℕ) : Turn ⟨c, k, p, l, a, w + 1⟩ ⟨c, k, p, l, a, w⟩
  /-- The notifier will call `n` notifications. -/
  | charge (n c k : ℕ) (p : Bool) (l a w : ℕ) :
      Turn ⟨c + n, k, p, l, a, w⟩ ⟨c, k + n, p, l, a, w⟩

/-- Any number of turns. -/
abbrev Turns : Tally → Tally → Prop := Relation.ReflTransGen Turn

/-- A waiter gives up; a woken one passes its notification on. -/
inductive Withdrawal : Tally → Tally → Prop where
  /-- It listened. -/
  | asleep (c k : ℕ) (p : Bool) (l a w : ℕ) : Withdrawal ⟨c, k, p, l, a + 1, w⟩ ⟨c, k, p, l, a, w⟩
  /-- It was woken. -/
  | woken (c k : ℕ) (p : Bool) (l a w : ℕ) :
      Withdrawal ⟨c, k, p, l, a, w + 1⟩ (notify ⟨c, k, p, l, a, w⟩)

/-- The waiters are at most as many as the notes, the notifications under way and
the permit. -/
def Served (t : Tally) : Prop :=
  t.leaving + t.asleep + t.woken ≤ t.counted + (t.calls + t.woken + t.permit.toNat)

/-- Nothing is owed to waiters that do not exist. -/
def Sound (t : Tally) : Prop := t.counted + t.calls + t.permit.toNat ≤ t.leaving + t.asleep

variable {t t' : Tally}

/-- The waiters are served through every turn. -/
theorem Turn.served (h : Turn t t') (ht : t.Served) : t'.Served := by
  cases h <;> simp only [Served, Bool.toNat_true, Bool.toNat_false] at ht ⊢ <;> omega

/-- No turn owes anything to waiters that do not exist. -/
theorem Turn.sound (h : Turn t t') (ht : t.Sound) : t'.Sound := by
  cases h <;> simp only [Sound, Bool.toNat_true, Bool.toNat_false] at ht ⊢ <;> omega

/-- They are served through any number of turns. -/
theorem Turns.served (h : Turns t t') (ht : t.Served) : t'.Served := by
  induction h with
  | refl => exact ht
  | tail _ hturn ih => exact hturn.served ih

/-- Nor do any number of turns. -/
theorem Turns.sound (h : Turns t t') (ht : t.Sound) : t'.Sound := by
  induction h with
  | refl => exact ht
  | tail _ hturn ih => exact hturn.sound ih

/-- A waiter less is served no worse. -/
theorem Withdrawal.served (h : Withdrawal t t') (ht : t.Served) : t'.Served := by
  cases h with
  | asleep c k p l a w =>
    simp only [Served] at ht ⊢
    omega
  | woken c k p l a w =>
    have hpermit := Bool.toNat_le p
    unfold notify
    dsimp only
    split
    · simp only [Served] at ht ⊢
      omega
    · simp only [Served, Bool.toNat_true] at ht ⊢
      omega

/-- A notification that finds a listener or room for a permit. -/
def Lands (t : Tally) : Prop := 0 < t.asleep ∨ t.permit = false

/-- Landing is read off the tally. -/
instance decidableLands (t : Tally) : Decidable t.Lands := inferInstanceAs (Decidable (_ ∨ _))

/-- A notification that lands serves a waiter. -/
theorem Served.call (ht : t.Served) (hcalls : 0 < t.calls) (hlands : t.Lands) :
    t.call.Served := by
  unfold Tally.call notify
  dsimp only
  split
  · simp only [Served] at ht ⊢
    omega
  · rcases hlands with hasleep | hpermit
    · contradiction
    · simp only [Served, hpermit, Bool.toNat_true, Bool.toNat_false] at ht ⊢
      omega

/-- A notification pays one that was owed. -/
theorem Sound.call (ht : t.Sound) (hcalls : 0 < t.calls) : t.call.Sound := by
  have hpermit := Bool.toNat_le t.permit
  unfold Tally.call notify
  dsimp only
  split
  · simp only [Sound] at ht ⊢
    omega
  · simp only [Sound, Bool.toNat_true] at ht ⊢
    omega

/-- Where nothing is owed in vain, a notification that falls flat leaves a waiter
unserved. -/
theorem served_call_iff (ht : t.Served) (hsound : t.Sound) (hcalls : 0 < t.calls) :
    t.call.Served ↔ t.Lands := by
  refine ⟨fun h => ?_, fun h => ht.call hcalls h⟩
  by_contra hflat
  obtain ⟨hasleep, hpermit⟩ := not_or.mp hflat
  have htrue : t.permit = true := by simpa using hpermit
  rw [Tally.call, notify, if_neg hasleep] at h
  simp only [Served, Sound, htrue, Bool.toNat_true] at h hsound
  omega

end Tally

/-- Waiters with one flag, who are notified all at once. -/
structure Flagged where
  /-- Whether all are to be notified some day. -/
  flag : Bool
  /-- How many notifications are still to be called. -/
  calls : ℕ
  /-- The waiters that do not listen yet. -/
  leaving : ℕ
  /-- The waiters that listen. -/
  asleep : ℕ

namespace Flagged

/-- A notification is called, and reaches the waiters that listen. -/
def call (f : Flagged) : Flagged := { f with calls := f.calls - 1, asleep := 0 }

/-- What the waiters and the notifier do otherwise. -/
inductive Turn : Flagged → Flagged → Prop where
  /-- Nothing happens. -/
  | rest (f : Flagged) : Turn f f
  /-- A waiter sets the flag. -/
  | enter (b : Bool) (k l a : ℕ) : Turn ⟨b, k, l, a⟩ ⟨true, k, l + 1, a⟩
  /-- A waiter starts to listen. -/
  | listen (b : Bool) (k l a : ℕ) : Turn ⟨b, k, l + 1, a⟩ ⟨b, k, l, a + 1⟩
  /-- A waiter that listens gives up. -/
  | withdraw (b : Bool) (k l a : ℕ) : Turn ⟨b, k, l, a + 1⟩ ⟨b, k, l, a⟩
  /-- The notifier takes the flag down and will call a notification if it was set. -/
  | charge (b : Bool) (k l a : ℕ) : Turn ⟨b, k, l, a⟩ ⟨false, k + b.toNat, l, a⟩

/-- Every waiter has the flag set or a notification under way. -/
def Served (f : Flagged) : Prop := 0 < f.leaving + f.asleep → f.flag = true ∨ 0 < f.calls

/-- A notification finds no waiter that does not listen yet, or is not the last. -/
def Lands (f : Flagged) : Prop := f.leaving = 0 ∨ f.flag = true ∨ 1 < f.calls

/-- Landing is read off the flag and the counts. -/
instance decidableLands (f : Flagged) : Decidable f.Lands :=
  inferInstanceAs (Decidable (_ ∨ _ ∨ _))

variable {f f' : Flagged}

/-- Waiters that set the flag before they listen are served. -/
theorem Turn.served (h : Turn f f') (hf : f.Served) : f'.Served := by
  cases h with
  | rest => exact hf
  | enter b k l a => exact fun _ => .inl rfl
  | listen b k l a => exact fun _ => hf (by simp only; omega)
  | withdraw b k l a => exact fun hpos => hf (by simp only at hpos ⊢; omega)
  | charge b k l a =>
    intro hpos
    rcases hf hpos with rfl | hcalls
    · exact .inr (Nat.succ_pos k)
    · exact .inr (Nat.add_pos_left hcalls _)

/-- The notification that does not land is the one that leaves a waiter behind. -/
theorem served_call_iff : f.call.Served ↔ f.Lands := by
  simp only [Served, call, Lands]
  constructor
  · intro h
    by_contra hflat
    have hneg := not_or.mp hflat
    have hneg' := not_or.mp hneg.2
    rcases h (by omega) with hflag | hcalls
    · exact hneg'.1 hflag
    · omega
  · rintro (hnone | hflag | hcalls) hpos
    · omega
    · exact .inl hflag
    · exact .inr (by omega)

end Flagged

end SequentialExchange.Notification
