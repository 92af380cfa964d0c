import Mathlib

/-!
# Chains of nodes

A relation `r a b` says that node `b` directly follows node `a`. When every node follows
at most one other and going back comes to an end, each node belongs to the chain of
exactly one head. New nodes join at the end of a chain.
-/

namespace SequentialExchange.Chains

open Relation

variable {α : Type*} {r r' : α → α → Prop} {a b c : α}

/-- A node that is followed by none joins. -/
structure Joins (r r' : α → α → Prop) (new : α) : Prop where
  old : ∀ a b, r' a b → b ≠ new → r a b
  last : ∀ b, ¬ r' new b

/-- Going back still comes to an end when a node joins. -/
theorem Joins.wellFounded (h : Joins r r' c) (hr : WellFounded r) : WellFounded r' := by
  have hold (b : α) (hb : b ≠ c) : Acc r' b := by
    induction b using hr.induction with
    | _ b ih =>
      refine ⟨b, fun a hab => ih a (h.old a b hab hb) ?_⟩
      rintro rfl
      exact h.last b hab
  refine ⟨fun b => ?_⟩
  by_cases hb : b = c
  · refine ⟨b, fun a hab => hold a ?_⟩
    rintro rfl
    exact h.last b hab
  · exact hold b hb

/-- A node that follows none. -/
def IsHead (r : α → α → Prop) (a : α) : Prop := ∀ b, ¬ r b a

/-- Every node comes after a head. -/
theorem exists_head (hr : WellFounded r) (a : α) : ∃ h, IsHead r h ∧ ReflTransGen r h a := by
  induction a using hr.induction with
  | _ a ih =>
    by_cases ha : IsHead r a
    · exact ⟨a, ha, .refl⟩
    · obtain ⟨b, hb⟩ := not_forall_not.mp ha
      obtain ⟨h, hhead, hreach⟩ := ih b hb
      exact ⟨h, hhead, hreach.tail hb⟩

/-- What comes before a head is the head itself. -/
theorem IsHead.eq (ha : IsHead r a) (h : ReflTransGen r b a) : b = a := by
  rcases h.cases_tail with rfl | ⟨c, -, hc⟩
  · rfl
  · exact absurd hc (ha c)

/-- Each node comes after exactly one head. -/
theorem existsUnique_head (hr : WellFounded r) (hu : Relator.LeftUnique r) (a : α) :
    ∃! h, IsHead r h ∧ ReflTransGen r h a := by
  obtain ⟨h, hhead, hreach⟩ := exists_head hr a
  refine ⟨h, ⟨hhead, hreach⟩, ?_⟩
  rintro h' ⟨hhead', hreach'⟩
  have hswap : Relator.RightUnique (Function.swap r) := fun a b c hb hc => hu hb hc
  rcases ReflTransGen.total_of_right_unique hswap hreach.swap hreach'.swap with hback | hback
  · exact hhead.eq (reflTransGen_swap.mp hback)
  · exact (hhead'.eq (reflTransGen_swap.mp hback)).symm

end SequentialExchange.Chains
