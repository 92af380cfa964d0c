import Mathlib.Data.List.Basic

/-!
# Walks over a list from both ends

A walk takes slots from the front or from the back of a list, as it is asked to, and
passes over those that hold nothing. However the two are mixed, each item comes up
once, those from the front in order and those from the back in the opposite order,
and a walk that is asked often enough has seen all of them.
-/

namespace SequentialExchange.TwoEnded

variable {β γ : Type*}

/-- The end that is asked. -/
inductive WalkEnd where
  | front
  | back
  deriving DecidableEq

/-- The first slot that holds something, and those after it. -/
def pass (item? : β → Option γ) : List β → Option γ × List β
  | [] => (none, [])
  | slot :: slots =>
    match item? slot with
    | some item => (some item, slots)
    | none => pass item? slots

/-- The last slot that holds something, and those before it. -/
def passBack (item? : β → Option γ) (slots : List β) : Option γ × List β :=
  let r := pass item? slots.reverse
  (r.1, r.2.reverse)

/-- The item at an end, and the slots that are left. -/
def take (item? : β → Option γ) (slots : List β) : WalkEnd → Option γ × List β
  | .front => pass item? slots
  | .back => passBack item? slots

/-- What came up at each end, and the slots between them. -/
structure Walk (β γ : Type*) where
  /-- What came up at the front. -/
  fronts : List γ
  /-- What came up at the back. -/
  backs : List γ
  /-- The slots that are left. -/
  slots : List β

namespace Walk

variable (item? : β → Option γ)

/-- A walk that has not begun. -/
def start (slots : List β) : Walk β γ := ⟨[], [], slots⟩

/-- One end is asked. -/
def ask (w : Walk β γ) (e : WalkEnd) : Walk β γ :=
  let r := take item? w.slots e
  match e with
  | .front => ⟨w.fronts ++ r.1.toList, w.backs, r.2⟩
  | .back => ⟨w.fronts, w.backs ++ r.1.toList, r.2⟩

/-- What has come up, and what is left. -/
def items (w : Walk β γ) : List γ := w.fronts ++ w.slots.filterMap item? ++ w.backs.reverse

end Walk

variable {item? : β → Option γ}

/-- A pass from the front takes the first item. -/
theorem pass_items (slots : List β) :
    (pass item? slots).1.toList ++ (pass item? slots).2.filterMap item? =
      slots.filterMap item? := by
  induction slots with
  | nil => rfl
  | cons slot slots ih =>
    rw [pass]
    cases hitem : item? slot with
    | none => rw [List.filterMap_cons_none hitem, ← ih]
    | some item => rw [List.filterMap_cons_some hitem]; rfl

/-- A pass from the back takes the last one. -/
theorem passBack_items (slots : List β) :
    (passBack item? slots).2.filterMap item? ++ (passBack item? slots).1.toList =
      slots.filterMap item? := by
  have hitems : (pass item? slots.reverse).1.toList ++
      (pass item? slots.reverse).2.filterMap item? = slots.reverse.filterMap item? :=
    pass_items slots.reverse
  have hpass := congrArg List.reverse hitems
  rw [List.reverse_append, ← List.filterMap_reverse, ← List.filterMap_reverse,
    List.reverse_reverse] at hpass
  rw [← hpass, passBack]
  cases (pass item? slots.reverse).1 <;> rfl

/-- Nothing comes up only when nothing is left. -/
theorem take_eq_none {slots : List β} {e : WalkEnd} (h : (take item? slots e).1 = none) :
    (take item? slots e).2 = [] ∧ slots.filterMap item? = [] := by
  have hpass (slots : List β) (h : (pass item? slots).1 = none) :
      (pass item? slots).2 = [] ∧ slots.filterMap item? = [] := by
    induction slots with
    | nil => exact ⟨rfl, rfl⟩
    | cons slot slots ih =>
      rw [pass] at h ⊢
      cases hitem : item? slot with
      | none =>
        rw [hitem] at h
        rw [List.filterMap_cons_none hitem]
        exact ih h
      | some item =>
        rw [hitem] at h
        cases h
  cases e with
  | front => exact hpass slots h
  | back =>
    obtain ⟨hleft, hback⟩ := hpass slots.reverse h
    rw [List.filterMap_reverse, List.reverse_eq_nil_iff] at hback
    exact ⟨congrArg List.reverse hleft, hback⟩

/-- One item fewer is left. -/
theorem take_left (slots : List β) (e : WalkEnd) :
    ((take item? slots e).2.filterMap item?).length = (slots.filterMap item?).length - 1 := by
  have hsum : (take item? slots e).1.toList.length +
      ((take item? slots e).2.filterMap item?).length = (slots.filterMap item?).length := by
    cases e with
    | front => rw [← List.length_append, take, pass_items]
    | back => rw [← passBack_items slots, List.length_append, Nat.add_comm, take]
  cases htake : (take item? slots e).1 with
  | none =>
    rw [(take_eq_none htake).1, (take_eq_none htake).2]
    rfl
  | some item =>
    rw [htake, Option.toList_some, List.length_singleton] at hsum
    omega

/-- Slots that hold nothing are passed over, and then an item comes up. -/
theorem take_eq_some {slots : List β} {e : WalkEnd} {item : γ}
    (h : (take item? slots e).1 = some item) :
    ∃ slot skipped, item? slot = some item ∧ (∀ x ∈ skipped, item? x = none) ∧
      slots.Perm (slot :: (skipped ++ (take item? slots e).2)) := by
  have hpass (slots : List β) (h : (pass item? slots).1 = some item) :
      ∃ slot skipped, item? slot = some item ∧ (∀ x ∈ skipped, item? x = none) ∧
        slots.Perm (slot :: (skipped ++ (pass item? slots).2)) := by
    induction slots with
    | nil => cases h
    | cons first slots ih =>
      rw [pass] at h ⊢
      cases hitem : item? first with
      | some other =>
        rw [hitem] at h
        cases h
        exact ⟨first, [], hitem, fun x hx => absurd hx List.not_mem_nil, List.Perm.refl _⟩
      | none =>
        rw [hitem] at h
        obtain ⟨slot, skipped, hslot, hskipped, hperm⟩ := ih h
        refine ⟨slot, first :: skipped, hslot, fun x hx => ?_, ?_⟩
        · rcases List.mem_cons.mp hx with rfl | hx
          · exact hitem
          · exact hskipped x hx
        · exact (hperm.cons first).trans (List.Perm.swap ..)
  cases e with
  | front => exact hpass slots h
  | back =>
    obtain ⟨slot, skipped, hslot, hskipped, hperm⟩ := hpass slots.reverse h
    refine ⟨slot, skipped, hslot, hskipped, ?_⟩
    refine (List.reverse_perm slots).symm.trans (hperm.trans (.cons slot ?_))
    exact (List.reverse_perm _).symm.append_left skipped

namespace Walk

/-- An item moves from the slots to the end that was asked. -/
theorem ask_items (w : Walk β γ) (e : WalkEnd) : (w.ask item? e).items item? = w.items item? := by
  cases e with
  | front =>
    simp only [ask, items, take]
    rw [← pass_items w.slots, List.append_assoc, List.append_assoc, List.append_assoc,
      List.append_assoc]
  | back =>
    simp only [ask, items, take]
    rw [← passBack_items w.slots, List.reverse_append]
    cases (passBack item? w.slots).1 <;> simp

variable {ends : List WalkEnd}

/-- However the ends are mixed, the items come up once, in the order of the slots. -/
theorem walk_items (slots : List β) :
    (ends.foldl (ask item?) (start slots)).items item? = slots.filterMap item? := by
  have hall (w : Walk β γ) : (ends.foldl (ask item?) w).items item? = w.items item? := by
    induction ends generalizing w with
    | nil => rfl
    | cons e ends ih => exact (ih (w.ask item? e)).trans (w.ask_items e)
  rw [hall, items, start, List.nil_append, List.reverse_nil, List.append_nil]

/-- Every question takes an item while there are any. -/
theorem walk_left (w : Walk β γ) :
    ((ends.foldl (ask item?) w).slots.filterMap item?).length =
      (w.slots.filterMap item?).length - ends.length := by
  induction ends generalizing w with
  | nil => rfl
  | cons e ends ih =>
    have hask : (w.ask item? e).slots = (take item? w.slots e).2 := by cases e <;> rfl
    rw [List.foldl_cons, ih (w.ask item? e), hask, take_left, List.length_cons]
    omega

/-- A walk that is asked often enough has seen all items. -/
theorem walk_complete {slots : List β} (h : slots.length ≤ ends.length) :
    (ends.foldl (ask item?) (start slots)).slots.filterMap item? = [] := by
  have hle : (slots.filterMap item?).length ≤ slots.length := List.length_filterMap_le ..
  refine List.eq_nil_of_length_eq_zero ?_
  rw [walk_left]
  exact Nat.sub_eq_zero_of_le (Nat.le_trans hle h)

end Walk

end SequentialExchange.TwoEnded
