import Mathlib

/-!
# Reassembly on unbounded positions

What the receiving side of an exchange is for, with positions in place of
wrapping numbers. Everything below the cursor was delivered, and so was every
marked position ahead of it. A position is delivered either at the cursor,
which then runs over the marks that follow, or ahead of it, and then only when
it need not keep its place in the order. The log is what the application saw.
Fresh deliveries happen at most once, and the ordered positions of the log are
those of an initial segment.
-/

namespace SequentialExchange

/-- The receiving side: the cursor, the marks ahead of it, the delivery log. -/
structure Intake where
  /-- The least position not delivered. -/
  cursor : ℕ
  /-- Positions delivered ahead of a gap. -/
  early : Set ℕ
  /-- Every delivery, in order. -/
  log : List ℕ

namespace Intake

/-- Nothing was delivered. -/
def start : Intake := ⟨0, ∅, []⟩

/-- Delivery of position `k`. An ordered position is delivered only at the
cursor. Marked positions are not excluded: that is what `Fresh` asks for. -/
inductive Deliver (ordered : ℕ → Bool) (k : ℕ) (I J : Intake) : Prop where
  /-- At the cursor, which then passes every mark that follows. -/
  | next (hk : k = I.cursor) (hlt : I.cursor < J.cursor)
      (hrun : ∀ j, I.cursor < j → j < J.cursor → j ∈ I.early) (hstop : J.cursor ∉ I.early)
      (hearly : J.early = {j ∈ I.early | J.cursor < j}) (hlog : J.log = I.log ++ [k])
  /-- Ahead of the cursor, leaving a mark. -/
  | ahead (hk : I.cursor < k) (hord : ordered k = false) (hcursor : J.cursor = I.cursor)
      (hearly : J.early = insert k I.early) (hlog : J.log = I.log ++ [k])

/-- Marks lie ahead of the cursor, and the log holds exactly what lies below
the cursor or is marked. -/
structure Sound (I : Intake) : Prop where
  ahead : ∀ j ∈ I.early, I.cursor < j
  mem_log : ∀ k, k ∈ I.log ↔ k < I.cursor ∨ k ∈ I.early

variable {ordered : ℕ → Bool} {k : ℕ} {I J : Intake}

/-- Nothing is marked or logged at first. -/
theorem start_sound : start.Sound :=
  ⟨fun _ h => h.elim, fun k => by simp [start]⟩

/-- The position of the cursor is not marked. -/
theorem Sound.cursor_not_early (h : I.Sound) : I.cursor ∉ I.early :=
  fun hm => (h.ahead _ hm).false

/-- It has not been handed over. -/
theorem Sound.cursor_not_mem_log (h : I.Sound) : I.cursor ∉ I.log := by
  rw [h.mem_log]
  exact fun hm => hm.elim (lt_irrefl _) h.cursor_not_early

/-- A delivery is written down at the end of the log. -/
theorem Deliver.log_eq (h : Deliver ordered k I J) : J.log = I.log ++ [k] := by
  cases h <;> assumption

/-- Nothing below the cursor is delivered. -/
theorem Deliver.le_position (h : Deliver ordered k I J) : I.cursor ≤ k := by
  cases h with
  | next hk _ _ _ _ _ => exact hk.ge
  | ahead hk _ _ _ _ => exact hk.le

/-- Delivery keeps the cursor, the marks and the log consistent. -/
theorem Sound.deliver (h : I.Sound) (hd : Deliver ordered k I J) : J.Sound := by
  cases hd with
  | next hk hlt hrun hstop hearly hlog =>
    constructor
    · intro j hj
      rw [hearly] at hj
      exact hj.2
    · intro j
      rw [hlog, List.mem_append, List.mem_singleton, h.mem_log, hearly, Set.mem_ofPred_eq, hk]
      constructor
      · rintro ((hj | hj) | rfl)
        · exact .inl (hj.trans hlt)
        · rcases lt_trichotomy j J.cursor with hc | rfl | hc
          · exact .inl hc
          · exact absurd hj hstop
          · exact .inr ⟨hj, hc⟩
        · exact .inl hlt
      · rintro (hj | ⟨hj, -⟩)
        · rcases lt_trichotomy j I.cursor with hc | rfl | hc
          · exact .inl (.inl hc)
          · exact .inr rfl
          · exact .inl (.inr (hrun j hc hj))
        · exact .inl (.inr hj)
  | ahead hk _ hcursor hearly hlog =>
    constructor
    · intro j hj
      rw [hearly] at hj
      rw [hcursor]
      rcases hj with rfl | hj
      · exact hk
      · exact h.ahead j hj
    · intro j
      rw [hlog, List.mem_append, List.mem_singleton, h.mem_log, hearly, hcursor,
        Set.mem_insert_iff]
      tauto

/-- The log has no repetition as long as no marked position is delivered. -/
theorem Sound.deliver_nodup (h : I.Sound) (hd : Deliver ordered k I J) (hfresh : k ∉ I.early)
    (hn : I.log.Nodup) : J.log.Nodup := by
  have hk : k ∉ I.log := by
    rw [h.mem_log]
    exact fun hm => hm.elim (Nat.not_lt.mpr hd.le_position) hfresh
  rw [hd.log_eq]
  exact List.nodup_append.mpr ⟨hn, List.nodup_singleton k, by
    rintro x hx _ hy rfl
    exact hk (List.mem_singleton.mp hy ▸ hx)⟩

/-- Every ordered entry of the log comes after all lower positions, and once. -/
def InOrder (ordered : ℕ → Bool) (I : Intake) : Prop :=
  ∀ l₁ k l₂, I.log = l₁ ++ k :: l₂ → ordered k = true → k ∉ l₁ ∧ k ∉ l₂ ∧ ∀ j < k, j ∈ l₁

/-- No mark stands for an ordered position. -/
def MarksUnordered (ordered : ℕ → Bool) (I : Intake) : Prop := ∀ j ∈ I.early, ordered j = false

/-- Only unordered positions are delivered ahead of the cursor. -/
theorem MarksUnordered.deliver (h : I.MarksUnordered ordered) (hd : Deliver ordered k I J) :
    J.MarksUnordered ordered := by
  intro j hj
  cases hd with
  | next _ _ _ _ hearly _ =>
    rw [hearly] at hj
    exact h j hj.1
  | ahead _ hord _ hearly _ =>
    rw [hearly] at hj
    rcases hj with rfl | hj
    · exact hord
    · exact h j hj

/-- An ordered position is delivered at the cursor. -/
theorem Deliver.eq_cursor (hd : Deliver ordered k I J) (hk : ordered k = true) : k = I.cursor := by
  cases hd with
  | next hk _ _ _ _ _ => exact hk
  | ahead _ hord _ _ _ => simp [hk] at hord

/-- An ordered position is delivered at the cursor only, after all lower ones. -/
theorem InOrder.deliver (h : I.InOrder ordered) (hs : I.Sound) (hd : Deliver ordered k I J) :
    J.InOrder ordered := by
  intro l₁ i l₂ hsplit hi
  rw [hd.log_eq] at hsplit
  rcases List.append_eq_append_iff.mp hsplit with ⟨m, hl, hr⟩ | ⟨m, hl, hr⟩
  · -- the entry is the new one
    have hnil : m = [] ∧ l₂ = [] ∧ i = k := by
      cases m with
      | nil => simp_all
      | cons b m => simp at hr
    obtain ⟨rfl, rfl, rfl⟩ := hnil
    rw [List.append_nil] at hl
    subst hl
    have hc := hd.eq_cursor hi
    refine ⟨hc ▸ hs.cursor_not_mem_log, List.not_mem_nil, fun j hj => ?_⟩
    exact (hs.mem_log j).mpr (.inl (hc ▸ hj))
  · -- the entry was there before
    cases m with
    | nil =>
      simp only [List.nil_append, List.cons.injEq] at hr
      obtain ⟨rfl, rfl⟩ := hr
      have hc := hd.eq_cursor hi
      rw [List.append_nil] at hl
      refine ⟨?_, List.not_mem_nil, fun j hj => ?_⟩
      · rw [← hl, hc]
        exact hs.cursor_not_mem_log
      · rw [← hl]
        exact (hs.mem_log j).mpr (.inl (hc ▸ hj))
    | cons b m =>
      simp only [List.cons_append, List.cons.injEq] at hr
      obtain ⟨rfl, rfl⟩ := hr
      obtain ⟨h1, h2, h3⟩ := h l₁ i m hl hi
      refine ⟨h1, ?_, h3⟩
      rw [List.mem_append, List.mem_singleton]
      rintro (hmem | rfl)
      · exact h2 hmem
      · -- an ordered position that was delivered lies below the cursor
        have hc := hd.eq_cursor hi
        have hin : i ∈ I.log := by
          rw [hl]
          simp
        exact hs.cursor_not_mem_log (hc ▸ hin)

/-- The ordered entries of the log are those of an initial segment, in order. -/
def OrderedPrefix (ordered : ℕ → Bool) (I : Intake) : Prop :=
  I.log.filter ordered = (List.range I.cursor).filter ordered

/-- Unordered positions add nothing to the ordered ones. -/
theorem filter_range_of_unordered {m n : ℕ} (hmn : m ≤ n)
    (h : ∀ j, m ≤ j → j < n → ordered j = false) :
    (List.range n).filter ordered = (List.range m).filter ordered := by
  induction n, hmn using Nat.le_induction with
  | base => rfl
  | succ n hmn ih =>
    rw [List.range_succ, List.filter_append, ih fun j hj hn => h j hj (by omega)]
    simp [h n hmn (by omega)]

/-- An ordered delivery prolongs the initial segment by one. -/
theorem OrderedPrefix.deliver (h : I.OrderedPrefix ordered) (hm : I.MarksUnordered ordered)
    (hd : Deliver ordered k I J) : J.OrderedPrefix ordered := by
  unfold OrderedPrefix at h ⊢
  cases hd with
  | next hk hlt hrun _ _ hlog =>
    have hpass : (List.range J.cursor).filter ordered =
        (List.range (I.cursor + 1)).filter ordered :=
      filter_range_of_unordered hlt fun j hj hn => hm j (hrun j (by omega) hn)
    rw [hlog, List.filter_append, h, hpass, List.range_succ, List.filter_append, hk]
  | ahead _ hord hcursor _ hlog =>
    rw [hlog, List.filter_append, h, hcursor]
    simp [hord]

/-- Which positions are ordered matters only where positions were delivered. -/
theorem InOrder.congr {ordered' : ℕ → Bool} (h : I.InOrder ordered)
    (hc : ∀ j ∈ I.log, ordered' j = ordered j) : I.InOrder ordered' := by
  intro l₁ k l₂ hl hk
  have hmem : k ∈ I.log := by
    rw [hl]
    simp
  exact h l₁ k l₂ hl (hc k hmem ▸ hk)

/-- Marks are judged by the positions in the log. -/
theorem MarksUnordered.congr {ordered' : ℕ → Bool} (hs : I.Sound) (h : I.MarksUnordered ordered)
    (hc : ∀ j ∈ I.log, ordered' j = ordered j) : I.MarksUnordered ordered' :=
  fun j hj => (hc j ((hs.mem_log j).mpr (.inr hj))).trans (h j hj)

/-- So is the order of the log. -/
theorem OrderedPrefix.congr {ordered' : ℕ → Bool} (hs : I.Sound) (h : I.OrderedPrefix ordered)
    (hc : ∀ j ∈ I.log, ordered' j = ordered j) : I.OrderedPrefix ordered' := by
  have h1 : I.log.filter ordered' = I.log.filter ordered := List.filter_congr hc
  have h2 : (List.range I.cursor).filter ordered' = (List.range I.cursor).filter ordered :=
    List.filter_congr fun j hj => hc j ((hs.mem_log j).mpr (.inl (List.mem_range.mp hj)))
  rw [OrderedPrefix, h1, h2]
  exact h

end Intake

end SequentialExchange
