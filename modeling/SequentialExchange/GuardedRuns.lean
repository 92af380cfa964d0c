import Mathlib

/-!
# Runs of a deterministic machine under a guard

A machine is a function from a state and an action to the next state. A guard
says which actions are taken in which states: what the environment can do, or
a further condition under which a result is claimed. Everything proved about
runs goes through the invariant rule and the simulation rule below.
-/

namespace SequentialExchange.GuardedRuns

variable {σ α τ : Type*}

/-- One guarded step of the machine. -/
def Moves (guard : σ → α → Prop) (step : σ → α → σ) (s t : σ) : Prop :=
  ∃ a, guard s a ∧ step s a = t

/-- The states reached by finitely many guarded steps. -/
def Reaches (guard : σ → α → Prop) (step : σ → α → σ) : σ → σ → Prop :=
  Relation.ReflTransGen (Moves guard step)

/-- The guard allows these actions one after the other. -/
def Allowed (guard : σ → α → Prop) (step : σ → α → σ) : σ → List α → Prop
  | _, [] => True
  | s, a :: as => guard s a ∧ Allowed guard step (step s a) as

/-- The guards are checked one after the other. -/
instance decidableAllowed {guard : σ → α → Prop} {step : σ → α → σ}
    [∀ s a, Decidable (guard s a)] : ∀ s as, Decidable (Allowed guard step s as)
  | _, [] => isTrue trivial
  | s, a :: as =>
    have := @decidableAllowed guard step _ (step s a) as
    inferInstanceAs (Decidable (_ ∧ _))

section Rules

variable {guard guard' : σ → α → Prop} {step : σ → α → σ} {s t u : σ}

/-- A state reaches itself. -/
theorem Reaches.refl : Reaches guard step s s := Relation.ReflTransGen.refl

/-- Runs are put together. -/
theorem Reaches.trans (h : Reaches guard step s t) (h' : Reaches guard step t u) :
    Reaches guard step s u := Relation.ReflTransGen.trans h h'

/-- A run is followed by a step. -/
theorem Reaches.snoc {a : α} (h : Reaches guard step s t) (ha : guard t a) :
    Reaches guard step s (step t a) := Relation.ReflTransGen.tail h ⟨a, ha, rfl⟩

/-- A step is a run. -/
theorem Reaches.single {a : α} (ha : guard s a) : Reaches guard step s (step s a) :=
  Reaches.refl.snoc ha

/-- A property of the start that every guarded step keeps holds of every
reached state. The step may use that its source is reached. -/
theorem Reaches.invariant {I : σ → Prop} (h : Reaches guard step s t) (h0 : I s)
    (hstep : ∀ u a, Reaches guard step s u → I u → guard u a → I (step u a)) : I t := by
  induction h with
  | refl => exact h0
  | tail hr hm ih =>
    obtain ⟨a, ha, rfl⟩ := hm
    exact hstep _ a hr ih ha

/-- A run under one guard is a run under another that is implied where the
run passes. -/
theorem Reaches.weaken (h : Reaches guard step s t)
    (hg : ∀ u a, Reaches guard' step s u → guard u a → guard' u a) :
    Reaches guard' step s t := by
  induction h with
  | refl => exact Reaches.refl
  | tail hr hm ih =>
    obtain ⟨a, ha, rfl⟩ := hm
    exact ih.snoc (hg _ a ih ha)

/-- Where each step of a machine is a run of another one, read through `abs`, so is
each run. The step may use that its source is reached. -/
theorem Reaches.refines {β : Type*} {guard₂ : τ → β → Prop} {step₂ : τ → β → τ} (abs : σ → τ)
    (h : Reaches guard step s t)
    (hstep : ∀ u a, Reaches guard step s u → guard u a →
      Reaches guard₂ step₂ (abs u) (abs (step u a))) :
    Reaches guard₂ step₂ (abs s) (abs t) := by
  induction h with
  | refl => exact Reaches.refl
  | tail hr hm ih =>
    obtain ⟨a, ha, rfl⟩ := hm
    exact ih.trans (hstep _ a hr ha)

/-- Allowed actions are a run. -/
theorem Allowed.reaches {l : List α} (h : Allowed guard step s l) :
    Reaches guard step s (l.foldl step s) := by
  induction l generalizing s with
  | nil => exact Reaches.refl
  | cons a l ih => exact (Reaches.single h.1).trans (ih h.2)

/-- A weaker guard allows the same actions. -/
theorem Allowed.weaken {l : List α} (h : Allowed guard step s l)
    (hguard : ∀ u a, guard u a → guard' u a) : Allowed guard' step s l := by
  induction l generalizing s with
  | nil => trivial
  | cons a l ih => exact ⟨hguard s a h.1, ih h.2⟩

/-- Actions that every state allows. -/
theorem Allowed.of_forall (h : ∀ u a, guard u a) (l : List α) : Allowed guard step s l := by
  induction l generalizing s with
  | nil => trivial
  | cons a l ih => exact ⟨h s a, ih⟩

/-- Actions that are allowed and all of one kind. -/
theorem Allowed.and_forall {p : α → Prop} {l : List α} (h : Allowed guard step s l)
    (hp : ∀ a ∈ l, p a) : Allowed (fun u a => guard u a ∧ p a) step s l := by
  induction l generalizing s with
  | nil => trivial
  | cons a l ih =>
    exact ⟨⟨h.1, hp a (List.mem_cons_self ..)⟩, ih h.2 fun b hb => hp b (List.mem_cons_of_mem a hb)⟩

/-- What every step under both guards keeps holds all along a run under both. -/
theorem Allowed.forall_prefix {P : σ → Prop} {l : List α} (h : Allowed guard step s l)
    (h' : Allowed guard' step s l) (hP : P s)
    (hstep : ∀ u a, P u → guard u a → guard' u a → P (step u a)) :
    ∀ l', l' <+: l → P (l'.foldl step s) := by
  induction l generalizing s with
  | nil =>
    intro l' hl'
    rw [List.prefix_nil.mp hl']
    exact hP
  | cons a l ih =>
    intro l' hl'
    cases l' with
    | nil => exact hP
    | cons b l' =>
      obtain ⟨rfl, htail⟩ := List.cons_prefix_cons.mp hl'
      exact ih h.2 h'.2 (hstep s b hP h.1 h'.1) l' htail

/-- Where each step keeps a property exactly when it obeys a stricter guard, the
property holds all along a run exactly when the whole run obeys that guard. -/
theorem forall_prefix_iff_allowed {I P : σ → Prop} {l : List α}
    (hkeep : ∀ u a, I u → guard u a → I (step u a))
    (hstep : ∀ u a, I u → P u → guard u a → (P (step u a) ↔ guard' u a))
    (hI : I s) (hP : P s) (hl : Allowed guard step s l) :
    (∀ l', l' <+: l → P (l'.foldl step s)) ↔ Allowed guard' step s l := by
  induction l generalizing s with
  | nil =>
    refine ⟨fun _ => trivial, fun _ l' hl' => ?_⟩
    rw [List.prefix_nil.mp hl']
    exact hP
  | cons a l ih =>
    obtain ⟨ha, hl⟩ := hl
    have hiff := hstep s a hI hP ha
    constructor
    · intro h
      have hnext : P (step s a) := h [a] (List.prefix_cons_inj a |>.mpr (List.nil_prefix))
      refine ⟨hiff.mp hnext, (ih (hkeep s a hI ha) hnext hl).mp fun l' hl' => ?_⟩
      exact h (a :: l') ((List.prefix_cons_inj a).mpr hl')
    · rintro ⟨hguard, hallowed⟩ l' hl'
      cases l' with
      | nil => exact hP
      | cons b l' =>
        obtain ⟨rfl, htail⟩ := List.cons_prefix_cons.mp hl'
        exact (ih (hkeep s b hI ha) (hiff.mpr hguard) hl).mpr hallowed l' htail

end Rules

end SequentialExchange.GuardedRuns
