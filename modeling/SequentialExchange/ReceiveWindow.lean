import SequentialExchange.CallEffects
import SequentialExchange.Intake

/-!
# The receive window implements reassembly

The receive window of an endpoint shows the cursor and the marks of an
`Intake`, with wrapping numbers for positions and ring cells for the windows
ahead of the cursor. Whatever packets arrive, each hand-over is a delivery of
the intake, and every other effect leaves it alone. Only the capacity has to be
a power of two.
-/

namespace SequentialExchange

open WrapNumbering

variable {S R : Type*} {CAP : ℕ} [NeZero CAP]

/-- The window `w` shows the marks `early`, all in the one period from `lo`,
and holds stored packets of that period only. -/
structure Marks (base : SeqNo) (w : Fin CAP → RecvEntry R) (lo : ℕ) (early : Set ℕ) : Prop where
  bounds : ∀ k ∈ early, lo ≤ k ∧ k < lo + period CAP
  marked : ∀ k ∈ early, w (cell CAP (number base k)) = .unlocked (number base k)
  unlocked : ∀ i n, w i = .unlocked n → ∃ k ∈ early, i = cell CAP (number base k)
  occupied : ∀ i n r b d, w i = .occupied n r b d →
    ∃ k, lo ≤ k ∧ k < lo + period CAP ∧ i = cell CAP (number base k) ∧ n = number base k

namespace Marks

variable {base : SeqNo} {w : Fin CAP → RecvEntry R} {lo : ℕ} {early : Set ℕ}

/-- Positions of one period have different cells. -/
theorem cell_ne (hC : ∃ e, CAP = 2 ^ e) {j k : ℕ} (hjk : j < k) (hk : k < j + period CAP) :
    cell CAP (number base j) ≠ cell CAP (number base k) := fun h =>
  hjk.ne (eq_of_modEq_of_lt ((cell_number_eq_iff hC base j k).mp h) hjk.le hk)

/-- Within one period the cell tells the position. -/
theorem cell_inj (hC : ∃ e, CAP = 2 ^ e) {lo j k : ℕ} (hj : lo ≤ j ∧ j < lo + period CAP)
    (hk : lo ≤ k ∧ k < lo + period CAP)
    (h : cell CAP (number base j) = cell CAP (number base k)) : j = k := by
  rcases lt_trichotomy j k with hjk | rfl | hkj
  · exact absurd h (cell_ne hC hjk (by omega))
  · rfl
  · exact absurd h.symm (cell_ne hC hkj (by omega))

/-- An empty window shows no marks. -/
theorem start (base : SeqNo) (lo : ℕ) :
    Marks base (fun _ : Fin CAP => (.empty : RecvEntry R)) lo ∅ where
  bounds := nofun
  marked := nofun
  unlocked := nofun
  occupied := nofun

/-- Emptying the lowest cell moves the period up by one. -/
theorem clear (hC : ∃ e, CAP = 2 ^ e) (h : Marks base w lo early) :
    Marks base (Function.update w (cell CAP (number base lo)) .empty) (lo + 1)
      {k ∈ early | lo < k} where
  bounds k hk := by
    have := h.bounds k hk.1
    have := hk.2
    omega
  marked k hk := by
    rw [Function.update_of_ne (cell_ne hC hk.2 (h.bounds k hk.1).2).symm]
    exact h.marked k hk.1
  unlocked i n hi := by
    have hne : i ≠ cell CAP (number base lo) := by
      rintro rfl
      simp at hi
    rw [Function.update_of_ne hne] at hi
    obtain ⟨k, hk, rfl⟩ := h.unlocked i n hi
    have hlo : lo ≠ k := fun hlo => hne (by rw [hlo])
    exact ⟨k, ⟨hk, lt_of_le_of_ne (h.bounds k hk).1 hlo⟩, rfl⟩
  occupied i n r b d hi := by
    have hne : i ≠ cell CAP (number base lo) := by
      rintro rfl
      simp at hi
    rw [Function.update_of_ne hne] at hi
    obtain ⟨k, hk1, hk2, rfl, rfl⟩ := h.occupied i n r b d hi
    have hlo : lo ≠ k := fun hlo => hne (by rw [hlo])
    exact ⟨k, by omega, by omega, rfl, rfl⟩

/-- Leaving a marker ahead of the lowest position. -/
theorem mark (hC : ∃ e, CAP = 2 ^ e) (h : Marks base w lo early) {k : ℕ} (hlo : lo ≤ k)
    (hk : k < lo + period CAP) :
    Marks base (Function.update w (cell CAP (number base k)) (.unlocked (number base k))) lo
      (insert k early) where
  bounds j hj := by
    rcases hj with rfl | hj
    · exact ⟨hlo, hk⟩
    · exact h.bounds j hj
  marked j hj := by
    rcases eq_or_ne j k with rfl | hne
    · exact Function.update_self ..
    · have hj' : j ∈ early := hj.resolve_left hne
      rw [Function.update_of_ne fun hc => hne (cell_inj hC (h.bounds j hj') ⟨hlo, hk⟩ hc)]
      exact h.marked j hj'
  unlocked i n hi := by
    rcases eq_or_ne i (cell CAP (number base k)) with rfl | hne
    · exact ⟨k, Set.mem_insert .., rfl⟩
    · rw [Function.update_of_ne hne] at hi
      obtain ⟨j, hj, rfl⟩ := h.unlocked i n hi
      exact ⟨j, Set.mem_insert_of_mem _ hj, rfl⟩
  occupied i n r b d hi := by
    rcases eq_or_ne i (cell CAP (number base k)) with rfl | hne
    · simp at hi
    · rw [Function.update_of_ne hne] at hi
      exact h.occupied i n r b d hi

/-- Storing a packet in an empty cell of the period. -/
theorem store (hC : ∃ e, CAP = 2 ^ e) (h : Marks base w lo early) {k : ℕ} (hlo : lo ≤ k)
    (hk : k < lo + period CAP) (hempty : w (cell CAP (number base k)) = .empty)
    (r : Option SeqNo) (b : Bool) (d : R) :
    Marks base (Function.update w (cell CAP (number base k)) (.occupied (number base k) r b d))
      lo early where
  bounds := h.bounds
  marked j hj := by
    have hne : j ≠ k := by
      rintro rfl
      rw [h.marked j hj] at hempty
      cases hempty
    rw [Function.update_of_ne fun hc => hne (cell_inj hC (h.bounds j hj) ⟨hlo, hk⟩ hc)]
    exact h.marked j hj
  unlocked i n hi := by
    rcases eq_or_ne i (cell CAP (number base k)) with rfl | hne
    · simp at hi
    · rw [Function.update_of_ne hne] at hi
      exact h.unlocked i n hi
  occupied i n r' b' d' hi := by
    rcases eq_or_ne i (cell CAP (number base k)) with rfl | hne
    · rw [Function.update_self] at hi
      cases hi
      exact ⟨k, hlo, hk, rfl, rfl⟩
    · rw [Function.update_of_ne hne] at hi
      exact h.occupied i n r' b' d' hi

/-- The lowest cell carries a marker exactly when the lowest position is marked. -/
theorem mem_iff (hC : ∃ e, CAP = 2 ^ e) (h : Marks base w lo early) {k : ℕ} (hlo : lo ≤ k)
    (hk : k < lo + period CAP) :
    k ∈ early ↔ ∃ n, w (cell CAP (number base k)) = .unlocked n := by
  constructor
  · exact fun hm => ⟨_, h.marked k hm⟩
  · rintro ⟨n, hn⟩
    obtain ⟨j, hj, hc⟩ := h.unlocked _ n hn
    rwa [cell_inj hC ⟨hlo, hk⟩ (h.bounds j hj) hc]

/-- `fast_forward` stops at the first position that is not marked, within the
bound on its iterations. -/
theorem fastForwardLoop (hC : ∃ e, CAP = 2 ^ e) (h : Marks base w lo early) (fuel : ℕ)
    (hfuel : ∃ j < fuel, lo + j ∉ early) :
    ∃ c, lo ≤ c ∧ (∀ j, lo ≤ j → j < c → j ∈ early) ∧ c ∉ early ∧
      (SeqEx.fastForwardLoop fuel w (number base lo)).2.1 = number base c ∧
      Marks base (SeqEx.fastForwardLoop fuel w (number base lo)).1 c {k ∈ early | c < k} ∧
      ((SeqEx.fastForwardLoop fuel w (number base lo)).2.2 = true ↔ ∃ n r b d,
        (SeqEx.fastForwardLoop fuel w (number base lo)).1 (cell CAP (number base c)) =
          .occupied n r b d) := by
  have hP : 0 < period CAP := period_pos (Nat.pos_of_ne_zero (NeZero.ne CAP))
  induction fuel generalizing w lo early with
  | zero =>
    obtain ⟨j, hj, -⟩ := hfuel
    exact absurd hj (Nat.not_lt_zero j)
  | succ fuel ih =>
    have hstop (hlo : lo ∉ early) : Marks base w lo {k ∈ early | lo < k} := by
      have heq : {k ∈ early | lo < k} = early := Set.ext fun k =>
        ⟨fun hk => hk.1, fun hk => ⟨hk, lt_of_le_of_ne (h.bounds k hk).1 fun hc => hlo (hc ▸ hk)⟩⟩
      rwa [heq]
    have hmem := h.mem_iff hC le_rfl (Nat.lt_add_of_pos_right hP)
    cases hw : w (cell CAP (number base lo)) with
    | unlocked n =>
      have hlo : lo ∈ early := hmem.mpr ⟨n, hw⟩
      obtain ⟨j, hj, hjn⟩ := hfuel
      have hj0 : j ≠ 0 := by
        rintro rfl
        exact hjn hlo
      obtain ⟨c, hc1, hc2, hc3, hc4, hc5, hc6⟩ := ih (h.clear hC)
        ⟨j - 1, by omega, fun hm => hjn (by
          rw [show lo + j = lo + 1 + (j - 1) by omega]
          exact hm.1)⟩
      have hstep : SeqEx.fastForwardLoop (fuel + 1) w (number base lo) =
          SeqEx.fastForwardLoop fuel
            (Function.update w (cell CAP (number base lo)) .empty) (number base (lo + 1)) := by
        rw [SeqEx.fastForwardLoop, hw, number_succ]
      rw [hstep]
      refine ⟨c, by omega, ?_, fun hm => hc3 ⟨hm, by omega⟩, hc4, ?_, hc6⟩
      · intro i hi1 hi2
        rcases Nat.eq_or_lt_of_le hi1 with rfl | hi1
        · exact hlo
        · exact (hc2 i hi1 hi2).1
      · have heq : {k ∈ early | c < k} = {k ∈ {k ∈ early | lo < k} | c < k} := Set.ext fun k =>
          ⟨fun hk => ⟨⟨hk.1, by have := hk.2; omega⟩, hk.2⟩, fun hk => ⟨hk.1.1, hk.2⟩⟩
        rwa [heq]
    | occupied n r b d =>
      have hlo : lo ∉ early := fun hm => by
        obtain ⟨n', hn'⟩ := hmem.mp hm
        rw [hw] at hn'
        cases hn'
      have hstep :
          SeqEx.fastForwardLoop (fuel + 1) w (number base lo) = (w, number base lo, true) := by
        rw [SeqEx.fastForwardLoop, hw]
      rw [hstep]
      exact ⟨lo, le_rfl, fun j h1 h2 => by omega, hlo, rfl, hstop hlo,
        fun _ => ⟨n, r, b, d, hw⟩, fun _ => rfl⟩
    | empty =>
      have hlo : lo ∉ early := fun hm => by
        obtain ⟨n', hn'⟩ := hmem.mp hm
        rw [hw] at hn'
        cases hn'
      have hstep :
          SeqEx.fastForwardLoop (fuel + 1) w (number base lo) = (w, number base lo, false) := by
        rw [SeqEx.fastForwardLoop, hw]
      rw [hstep]
      refine ⟨lo, le_rfl, fun j h1 h2 => by omega, hlo, rfl, hstop hlo, nofun, ?_⟩
      rintro ⟨n', r', b', d', hn'⟩
      exact absurd (hw.symm.trans hn') nofun

end Marks

/-- The endpoint shows the intake with this cursor and these marks. -/
structure ReceiveView (base : SeqNo) (s : SeqEx S R CAP) (cursor : ℕ) (early : Set ℕ) : Prop where
  cursor_eq : s.nextRecvSeqNo = number base cursor
  marks : Marks base s.recvWindow cursor early
  stopped : cursor ∉ early

namespace ReceiveView

variable {base : SeqNo} {s : SeqEx S R CAP} {cursor : ℕ} {early : Set ℕ}

/-- A new endpoint waits for position `0`. -/
theorem start (interval : Int64) (base : SeqNo) :
    ReceiveView base (SeqEx.new interval base : SeqEx S R CAP) 0 ∅ :=
  ⟨(number_zero base).symm, Marks.start base 0, nofun⟩

/-- Only the receive window and its cursor count. -/
theorem congr (h : ReceiveView base s cursor early) {t : SeqEx S R CAP}
    (hn : t.nextRecvSeqNo = s.nextRecvSeqNo) (hw : t.recvWindow = s.recvWindow) :
    ReceiveView base t cursor early :=
  ⟨hn.trans h.cursor_eq, hw ▸ h.marks, h.stopped⟩

/-- A number in range is that of a position less than a period ahead. -/
theorem position (hC : ∃ e, CAP = 2 ^ e) (h : ReceiveView base s cursor early) {n : SeqNo}
    (hn : s.InRange n) :
    ∃ k, cursor ≤ k ∧ k < cursor + period CAP ∧ k < cursor + 2 ^ 31 ∧ n = number base k := by
  have hperiod := (hn.lt_period hC).2
  have hhalf := (SeqEx.inRange_iff.mp hn).1
  refine ⟨cursor + (n - s.nextRecvSeqNo).toNat, by omega, by omega, by omega, ?_⟩
  rw [← number_add, ← h.cursor_eq, number, UInt32.ofNat_toNat, add_sub_cancel]

/-- The packet stored at the cursor carries the number of the cursor. -/
theorem stored_number (hC : ∃ e, CAP = 2 ^ e) (h : ReceiveView base s cursor early)
    {n : SeqNo} {r : Option SeqNo} {b : Bool} {d : R}
    (hcell : s.recvWindow (cell CAP s.nextRecvSeqNo) = .occupied n r b d) :
    n = s.nextRecvSeqNo := by
  obtain ⟨k, hk1, hk2, hk3, hk4⟩ := h.marks.occupied _ n r b d hcell
  have hP : 0 < period CAP := period_pos (Nat.pos_of_ne_zero (NeZero.ne CAP))
  rw [h.cursor_eq] at hk3 ⊢
  rw [hk4, Marks.cell_inj hC ⟨le_rfl, Nat.lt_add_of_pos_right hP⟩ ⟨hk1, hk2⟩ hk3]

/-- Handing over at the cursor runs over the marks that follow. -/
theorem advance (hC : ∃ e, CAP = 2 ^ e) (h : ReceiveView base s cursor early) :
    ∃ c, cursor < c ∧ (∀ j, cursor < j → j < c → j ∈ early) ∧ c ∉ early ∧
      ReceiveView base (s.advance s.nextRecvSeqNo).2 c {k ∈ early | c < k} ∧
      ((s.advance s.nextRecvSeqNo).1 = true ↔ ∃ n r b d,
        (s.advance s.nextRecvSeqNo).2.recvWindow
          (cell CAP (s.advance s.nextRecvSeqNo).2.nextRecvSeqNo) = .occupied n r b d) := by
  have hcell : Function.update s.recvWindow (cell CAP s.nextRecvSeqNo) RecvEntry.empty =
      Function.update s.recvWindow (cell CAP (number base cursor)) .empty := by rw [h.cursor_eq]
  have hnext : s.nextRecvSeqNo + 1 = number base (cursor + 1) := by rw [h.cursor_eq, number_succ]
  have hbound : cursor + 1 + period CAP ∉ {k ∈ early | cursor < k} := fun hm => by
    have := (h.marks.bounds _ hm.1).2
    omega
  obtain ⟨c, hc1, hc2, hc3, hc4, hc5, hc6⟩ := (h.marks.clear hC).fastForwardLoop hC (CAP + 1)
    ⟨period CAP, Nat.lt_succ_of_le (period_le CAP), hbound⟩
  refine ⟨c, hc1, fun j h1 h2 => (hc2 j h1 h2).1, fun hm => hc3 ⟨hm, hc1⟩, ⟨?_, ?_,
    fun hm => hm.2.false⟩, ?_⟩
  · simpa only [SeqEx.advance, SeqEx.fastForward, SeqEx.setRecvEntry, hcell, hnext] using hc4
  · have heq : {k ∈ early | c < k} = {k ∈ {k ∈ early | cursor < k} | c < k} := Set.ext fun k =>
      ⟨fun hk => ⟨⟨hk.1, by have := hk.2; omega⟩, hk.2⟩, fun hk => ⟨hk.1.1, hk.2⟩⟩
    rw [heq]
    simpa only [SeqEx.advance, SeqEx.fastForward, SeqEx.setRecvEntry, hcell, hnext] using hc5
  · rw [← hc4] at hc6
    simpa only [SeqEx.advance, SeqEx.fastForward, SeqEx.setRecvEntry, hcell, hnext] using hc6

/-- Handing over ahead of the cursor leaves a marker. -/
theorem mark (hC : ∃ e, CAP = 2 ^ e) (h : ReceiveView base s cursor early) {k : ℕ}
    (hlo : cursor < k) (hk : k < cursor + period CAP) :
    ReceiveView base (s.setRecvEntry (number base k) (.unlocked (number base k))) cursor
      (insert k early) :=
  ⟨h.cursor_eq, h.marks.mark hC hlo.le hk, fun hm => hm.elim hlo.ne h.stopped⟩

/-- Storing leaves cursor and marks as they are. -/
theorem store (hC : ∃ e, CAP = 2 ^ e) (h : ReceiveView base s cursor early) {n : SeqNo}
    (hn : s.InRange n) (hdup : s.isDuplicate n = false) (r : Option SeqNo) (b : Bool) (d : R) :
    ReceiveView base (s.setRecvEntry n (.occupied n r b d)) cursor early := by
  obtain ⟨k, hk1, hk2, -, rfl⟩ := h.position hC hn
  have hempty : s.recvWindow (cell CAP (number base k)) = .empty := by
    unfold SeqEx.isDuplicate at hdup
    split at hdup
    · cases hdup
    · cases hdup
    · assumption
  exact ⟨h.cursor_eq, h.marks.store hC hk1 hk2 hempty r b d, h.stopped⟩

end ReceiveView

/-- Pairing a delivery does not touch the receive window. -/
theorem SeqEx.handOver_receive {P : Type*} (s : SeqEx S R CAP) (n : SeqNo) (r : Option SeqNo)
    (b : Bool) (d : P) :
    (s.handOver n r b d).2.nextRecvSeqNo = s.nextRecvSeqNo ∧
      (s.handOver n r b d).2.recvWindow = s.recvWindow := by
  rcases s.handOver_cases n r b d with ⟨_, _, -, -, -, h⟩ | ⟨-, h⟩ <;> rw [h] <;> exact ⟨rfl, rfl⟩

end SequentialExchange
