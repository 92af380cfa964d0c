import SequentialExchange.Renumbering

/-!
# The initial number

Runs from two initial numbers have the same results up to the difference exactly
when the capacity divides `2^32` or is at least `2^32`. For the other capacities the
cells of `2^32 - 1` and `0` are not next to each other, and a run that crosses the
wrap refuses a packet that another one accepts. There the results are the same while
no number that a call looks up is wrapped by the difference.
-/

namespace SequentialExchange

open WrapNumbering GuardedRuns

variable {S R : Type*} {CAP : ℕ} [NeZero CAP]

namespace SeqEx

/-! ## Permuting the cells -/

omit [NeZero CAP] in
/-- A new endpoint with a shifted initial number. -/
theorem renumber_new (δ : SeqNo) (π : Fin CAP ≃ Fin CAP) (interval : Int64) (a : SeqNo) :
    (SeqEx.new interval a : SeqEx S R CAP).renumber δ π = SeqEx.new interval (a + δ) := rfl

/-- The cells can be permuted along with the numbers when the ring divides the
number space or holds all of it. -/
theorem exists_cell_perm (h : CAP ∣ 2 ^ 32 ∨ 2 ^ 32 ≤ CAP) (δ : SeqNo) :
    ∃ π : Fin CAP ≃ Fin CAP, ∀ n, Tracks δ π n := by
  rcases h with hdvd | hle
  · -- adding the cell of `δ` in the ring
    refine ⟨Equiv.addRight (cell CAP δ), fun n => Fin.val_injective ?_⟩
    rw [Equiv.coe_addRight, Fin.val_add, cell_val, cell_val, cell_val, UInt32.toNat_add,
      Nat.mod_mod_of_dvd _ hdvd, ← Nat.add_mod]
  · -- a number is its own cell, and the cells without a number stay where they are
    have hinj : Function.Injective (cell CAP) := fun m n hmn => by
      have hval := congrArg Fin.val hmn
      rw [cell_val, cell_val, Nat.mod_eq_of_lt (m.toNat_lt.trans_le hle),
        Nat.mod_eq_of_lt (n.toNat_lt.trans_le hle)] at hval
      exact UInt32.toNat_inj.mp hval
    let shift : SeqNo ≃ SeqNo := ⟨(· + δ), (· - δ), fun n => by simp, fun n => by simp⟩
    exact ⟨Equiv.Perm.viaEmbedding shift ⟨cell CAP, hinj⟩,
      fun n => Equiv.Perm.viaEmbedding_apply shift ⟨cell CAP, hinj⟩ n⟩

/-! ## Filling the window -/

/-- The state after `k` accepted packets and nothing else. -/
structure Filled (base : SeqNo) (k : ℕ) (s : SeqEx S R CAP) : Prop where
  next : s.nextSendSeqNo = number base k
  replies : s.concurrentReplies = []
  window : ∀ i, s.sendWindow i ≠ none ↔ ∃ j < k, i = cell CAP (number base j)

namespace Filled

variable {base : SeqNo} {k : ℕ} {s : SeqEx S R CAP}

/-- A new endpoint has filled no cell. -/
theorem start (interval : Int64) (base : SeqNo) :
    Filled base 0 (SeqEx.new interval base : SeqEx S R CAP) :=
  ⟨(number_zero base).symm, rfl, fun _ => ⟨fun h => absurd rfl h, nofun⟩⟩

/-- Without reservations only the next cell matters. -/
theorem isFullInner_iff (hCAP : 2 < CAP) (h : Filled base k s) :
    s.isFullInner none = .ok () ↔ ∀ j < k, cell CAP (number base k) ≠ cell CAP (number base j) := by
  have hwindow := h.window (cell CAP (number base k))
  rw [isFullInner_eq_ok_iff (by simp [h.replies]), h.replies, List.length_nil]
  have hblocked :
      s.isBlockedAt none 0 = false ↔ s.sendWindow (cell CAP (number base k)) = none := by
    simp [isBlockedAt, h.next]
  constructor
  · rintro ⟨-, hfree⟩ j hj hcell
    exact hwindow.mpr ⟨j, hj, hcell⟩ (hblocked.mp (hfree 0 le_rfl))
  · intro hfree
    refine ⟨by omega, fun i hi => ?_⟩
    obtain rfl : i = 0 := Nat.le_zero.mp hi
    rw [hblocked]
    by_contra hne
    obtain ⟨j, hj, hcell⟩ := hwindow.mp hne
    exact hfree j hj hcell

/-- A packet is accepted when the next cell is new. -/
theorem accept (hCAP : 2 < CAP) (h : Filled base k s)
    (hfree : ∀ j < k, cell CAP (number base k) ≠ cell CAP (number base j)) (t : Int64) (b : Bool)
    (f : SeqNo → S) :
    (∃ p, (s.call (.trySend t b f)).1 = .sent p) ∧
      Filled base (k + 1) (s.call (.trySend t b f)).2 := by
  simp only [call, trySendDirectWith, (h.isFullInner_iff hCAP).mpr hfree]
  refine ⟨⟨_, rfl⟩, by rw [← number_succ, ← h.next]; rfl, h.replies, fun i => ?_⟩
  have hcell : cell CAP s.nextSendSeqNo = cell CAP (number base k) := by rw [h.next]
  simp only [insertEntry, hcell]
  by_cases hi : i = cell CAP (number base k)
  · subst hi
    rw [Function.update_self]
    exact ⟨fun _ => ⟨k, Nat.lt_succ_self k, rfl⟩, fun _ => Option.some_ne_none _⟩
  · rw [Function.update_of_ne hi, h.window i]
    constructor
    · rintro ⟨j, hj, rfl⟩
      exact ⟨j, by omega, rfl⟩
    · rintro ⟨j, hj, rfl⟩
      rcases Nat.lt_succ_iff_lt_or_eq.mp hj with hj | rfl
      · exact ⟨j, hj, rfl⟩
      · exact absurd rfl hi

/-- A packet is refused when the next cell is taken. -/
theorem refuse (hCAP : 2 < CAP) (h : Filled base k s) {j : ℕ} (hj : j < k)
    (hcell : cell CAP (number base k) = cell CAP (number base j)) (t : Int64) (b : Bool)
    (f : SeqNo → S) : ∃ e, (s.call (.trySend t b f)).1 = .refused e := by
  have hfull : s.isFullInner none ≠ .ok () := fun hok =>
    (h.isFullInner_iff hCAP).mp hok j hj hcell
  simp only [call, trySendDirectWith]
  cases hres : s.isFullInner none with
  | error e => exact ⟨e, rfl⟩
  | ok u => exact absurd hres hfull

/-- A run of packets that are all accepted. -/
theorem acceptAll (hCAP : 2 < CAP) (c : Call S R) (hc : ∃ t b f, c = .trySend t b f) (m : ℕ)
    (h : Filled base k s)
    (hfree : ∀ i < k + m, ∀ j < i, cell CAP (number base i) ≠ cell CAP (number base j)) :
    ∃ s' : SeqEx S R CAP, Filled base (k + m) s' ∧ ∃ l, l.length = m ∧
      ∀ cs, s.trace (List.replicate m c ++ cs) = l ++ s'.trace cs := by
  induction m generalizing k s with
  | zero => exact ⟨s, h, [], rfl, fun cs => rfl⟩
  | succ m ih =>
    obtain ⟨t, b, f, rfl⟩ := hc
    obtain ⟨-, hnext⟩ := h.accept hCAP (hfree k (by omega)) t b f
    obtain ⟨s', hs', l, hl, htrace⟩ := ih hnext fun i hi => hfree i (by omega)
    refine ⟨s', by rwa [show k + (m + 1) = k + 1 + m by omega],
      ((s.call (.trySend t b f)).1, (s.call (.trySend t b f)).2.nextServiceTimestamp) :: l,
      by rw [List.length_cons, hl], fun cs => ?_⟩
    rw [List.replicate_succ, List.cons_append, trace, htrace, List.cons_append]

end Filled

/-- The cell of the last number is not the last cell, unless the ring divides the
number space. -/
theorem last_cell_lt {C : ℕ} (hC : 0 < C) (hdvd : ¬ C ∣ 2 ^ 32) : (2 ^ 32 - 1) % C + 1 < C := by
  refine lt_of_le_of_ne (Nat.mod_lt _ hC) fun heq => hdvd ⟨(2 ^ 32 - 1) / C + 1, ?_⟩
  have hdiv := Nat.div_add_mod (2 ^ 32 - 1) C
  rw [Nat.mul_add_one]
  omega

/-- When the ring neither divides the number space nor holds all of it, some run has
other results from the last number on than from `0`. -/
theorem trace_differs [Inhabited S] (hCAP : 1 < CAP) (hdvd : ¬ CAP ∣ 2 ^ 32) (hlt : CAP < 2 ^ 32)
    (interval : Int64) :
    ∃ cs : List (Call S R),
      (SeqEx.new interval (UInt32.ofNat (2 ^ 32 - 1)) : SeqEx S R CAP).trace
          (cs.map (Call.renumber (UInt32.ofNat (2 ^ 32 - 1) - 0))) ≠
        ((SeqEx.new interval 0 : SeqEx S R CAP).trace cs).map
          fun x => (x.1.renumber (UInt32.ofNat (2 ^ 32 - 1) - 0), x.2) := by
  have htwo : 2 < CAP := by
    rcases Nat.lt_or_ge 2 CAP with h2 | h2
    · exact h2
    · obtain rfl : CAP = 2 := by omega
      exact absurd (by decide) hdvd
  -- the cell `q` of the last number is not the last cell
  obtain ⟨q, hq⟩ : ∃ q, q = (2 ^ 32 - 1) % CAP := ⟨_, rfl⟩
  have hlast : q + 1 < CAP := hq ▸ last_cell_lt (by omega) hdvd
  have hzero (i : ℕ) (hi : i < CAP) : (cell CAP (number 0 i)).val = i := by
    rw [cell_val, number_toNat, UInt32.toNat_zero, Nat.zero_add,
      Nat.mod_eq_of_lt (show i < 2 ^ 32 by omega), Nat.mod_eq_of_lt hi]
  have hwrap (i : ℕ) (hi : i < CAP) :
      (cell CAP (number (UInt32.ofNat (2 ^ 32 - 1)) (i + 1))).val = i := by
    rw [cell_val, number_toNat, UInt32.toNat_ofNat',
      show ((2 ^ 32 - 1) % 2 ^ 32 + (i + 1)) % 2 ^ 32 = i by omega, Nat.mod_eq_of_lt hi]
  have hfirst : (cell CAP (number (UInt32.ofNat (2 ^ 32 - 1)) 0)).val = q := by
    rw [cell_val, number_toNat, UInt32.toNat_ofNat', hq]
    rfl
  -- the run from `0` accepts `q + 2` packets, the run from the last number does not
  let c : Call S R := .trySend 0 false fun _ => default
  obtain ⟨sA, hA, lA, hlA, htA⟩ := (Filled.start interval 0).acceptAll htwo c ⟨0, false, _, rfl⟩
    (q + 1) fun i hi j hj heq => by
      have hval := congrArg Fin.val heq
      rw [hzero i (by omega), hzero j (by omega)] at hval
      omega
  obtain ⟨sB, hB, lB, hlB, htB⟩ := (Filled.start interval (UInt32.ofNat (2 ^ 32 - 1))).acceptAll
    htwo c ⟨0, false, _, rfl⟩ (q + 1) fun i hi j hj heq => by
      have hval := congrArg Fin.val heq
      obtain ⟨i, rfl⟩ : ∃ i', i = i' + 1 := ⟨i - 1, by omega⟩
      rw [hwrap i (by omega)] at hval
      rcases Nat.eq_zero_or_pos j with rfl | hj0
      · omega
      · obtain ⟨j, rfl⟩ : ∃ j', j = j' + 1 := ⟨j - 1, by omega⟩
        rw [hwrap j (by omega)] at hval
        omega
  rw [Nat.zero_add] at hA hB
  obtain ⟨⟨p, hp⟩, -⟩ := hA.accept htwo (fun j hj heq => by
    have hval := congrArg Fin.val heq
    rw [hzero _ hlast, hzero j (by omega)] at hval
    omega) 0 false fun _ => default
  obtain ⟨e, he⟩ := hB.refuse htwo (Nat.succ_pos q) (Fin.val_injective (by
    rw [hwrap q (by omega), hfirst])) 0 false fun _ => default
  refine ⟨List.replicate (q + 1) c ++ [c], fun heq => ?_⟩
  rw [htA, List.map_append, List.map_append, List.map_replicate, List.map_singleton] at heq
  have hrest := (List.append_inj ((htB [c]).symm.trans heq) (by simp [hlA, hlB])).2
  simp only [trace, List.map_cons, List.map_nil, List.cons.injEq, Prod.mk.injEq] at hrest
  have hanswer := hrest.1.1
  rw [show (sA.call c).1 = .sent p from hp, show (sB.call c).1 = .refused e from he] at hanswer
  cases hanswer

/-! ## Runs from two initial numbers -/

/-- A run from `b` has the results of the run from `a`, when the cells can be permuted
along with the numbers that it looks up. -/
theorem trace_new {a b : SeqNo} {π : Fin CAP ≃ Fin CAP} (interval : Int64) {cs : List (Call S R)}
    (hlooks : Allowed (fun (u : SeqEx S R CAP) c => u.LooksIn (Tracks (b - a) π) c)
      (fun u c => (u.call c).2) (SeqEx.new interval a) cs) :
    (SeqEx.new interval b : SeqEx S R CAP).trace (cs.map (Call.renumber (b - a))) =
      ((SeqEx.new interval a : SeqEx S R CAP).trace cs).map
        fun x => (x.1.renumber (b - a), x.2) := by
  have hnew : (SeqEx.new interval a : SeqEx S R CAP).renumber (b - a) π = SeqEx.new interval b := by
    rw [renumber_new]
    simp
  rw [← hnew]
  exact trace_renumber _ cs hlooks

/-- Results do not depend on the initial number exactly when the capacity
divides the number space or holds all of it. -/
theorem renumbering_iff [Inhabited S] (hCAP : 1 < CAP) (interval : Int64) :
    (∀ (a b : SeqNo) (cs : List (Call S R)),
      (SeqEx.new interval b : SeqEx S R CAP).trace (cs.map (Call.renumber (b - a))) =
        ((SeqEx.new interval a : SeqEx S R CAP).trace cs).map
          fun x => (x.1.renumber (b - a), x.2)) ↔
      CAP ∣ 2 ^ 32 ∨ 2 ^ 32 ≤ CAP := by
  constructor
  · intro h
    by_contra hnot
    rw [not_or, not_le] at hnot
    obtain ⟨cs, hne⟩ := trace_differs (S := S) (R := R) hCAP hnot.1 hnot.2 interval
    exact hne (h 0 _ cs)
  · intro hCAP' a b cs
    obtain ⟨π, hπ⟩ := exists_cell_perm hCAP' (b - a)
    exact trace_new interval (Allowed.of_forall (fun _ c => looksIn_of_forall hπ c) cs)

/-- Two packets are sent. -/
def twoSends : List (Call ℕ ℕ) := [.trySend 0 false fun _ => 70, .trySend 0 true fun _ => 71]

/-- Two packets across the wrap look like the first two numbers. -/
theorem renumbering_iff_four :
    (SeqEx.new 100 (UInt32.ofNat (2 ^ 32 - 1)) : SeqEx ℕ ℕ 4).trace
        (twoSends.map (Call.renumber (UInt32.ofNat (2 ^ 32 - 1) - 0))) =
      ((SeqEx.new 100 0 : SeqEx ℕ ℕ 4).trace twoSends).map
        fun x => (x.1.renumber (UInt32.ofNat (2 ^ 32 - 1) - 0), x.2) :=
  (renumbering_iff (by decide) 100).mpr (.inl (by decide)) 0 _ twoSends

/-- With three cells the numbers `2^32 - 1` and `0` share a cell, so the second
packet of the run across the wrap is refused. -/
theorem three_cells_refuse_across_wrap :
    (SeqEx.new 100 0 : SeqEx ℕ ℕ 3).trace twoSends =
        [(.sent (.payload 0 70), 100), (.sent (.seqCstPayload 1 71), 100)] ∧
      (SeqEx.new 100 (UInt32.ofNat (2 ^ 32 - 1)) : SeqEx ℕ ℕ 3).trace
          (twoSends.map (Call.renumber (UInt32.ofNat (2 ^ 32 - 1) - 0))) =
        [(.sent (.payload (UInt32.ofNat (2 ^ 32 - 1)) 70), 100),
          (.refused .waitingForRecv, 100)] ∧
      (SeqEx.new 100 (UInt32.ofNat (2 ^ 32 - 1)) : SeqEx ℕ ℕ 3).trace
          (twoSends.map (Call.renumber (UInt32.ofNat (2 ^ 32 - 1) - 0))) ≠
        ((SeqEx.new 100 0 : SeqEx ℕ ℕ 3).trace twoSends).map
          fun x => (x.1.renumber (UInt32.ofNat (2 ^ 32 - 1) - 0), x.2) := by
  have hzero : (SeqEx.new 100 0 : SeqEx ℕ ℕ 3).trace twoSends =
      [(.sent (.payload 0 70), 100), (.sent (.seqCstPayload 1 71), 100)] := rfl
  have hwrap : (SeqEx.new 100 (UInt32.ofNat (2 ^ 32 - 1)) : SeqEx ℕ ℕ 3).trace
      (twoSends.map (Call.renumber (UInt32.ofNat (2 ^ 32 - 1) - 0))) =
        [(.sent (.payload (UInt32.ofNat (2 ^ 32 - 1)) 70), 100),
          (.refused .waitingForRecv, 100)] := rfl
  refine ⟨hzero, hwrap, fun heq => ?_⟩
  rw [hzero, hwrap] at heq
  simp [Answer.renumber] at heq

/-! ## Other capacities -/

/-- The shift from `a` to `b` does not wrap the number. -/
def Clear (a b n : SeqNo) : Prop := (n + (b - a)).toNat + a.toNat = n.toNat + b.toNat

/-- Whether a number is wrapped is a comparison. -/
instance decidableClear (a b n : SeqNo) : Decidable (Clear a b n) :=
  inferInstanceAs (Decidable (_ = _))

/-- Numbers that are not wrapped move around the ring together. -/
theorem tracks_of_clear {a b n : SeqNo} (h : Clear a b n) :
    Tracks (b - a) (Equiv.addRight (cell CAP b - cell CAP a)) n := by
  have hsum : cell CAP n + cell CAP b = cell CAP (n + (b - a)) + cell CAP a := by
    refine Fin.val_injective ?_
    rw [Fin.val_add, Fin.val_add, cell_val, cell_val, cell_val, cell_val, ← Nat.add_mod,
      ← Nat.add_mod, h]
  rw [Tracks, Equiv.coe_addRight]
  dsimp only
  rw [← add_sub_assoc (cell CAP n), hsum, add_sub_cancel_right]

/-- Whatever the capacity, results do not depend on the initial number while none of the
numbers that the calls look up, which are those of the windows and those that packets
answer, is wrapped by the difference. -/
theorem trace_of_clear {a b : SeqNo} (interval : Int64) {cs : List (Call S R)}
    (hclear : Allowed (fun (u : SeqEx S R CAP) c => u.LooksIn (Clear a b) c)
      (fun u c => (u.call c).2) (SeqEx.new interval a) cs) :
    (SeqEx.new interval b : SeqEx S R CAP).trace (cs.map (Call.renumber (b - a))) =
      ((SeqEx.new interval a : SeqEx S R CAP).trace cs).map
        fun x => (x.1.renumber (b - a), x.2) :=
  trace_new interval (hclear.weaken fun _ _ hc => hc.mono fun _ => tracks_of_clear)

/-- A packet is sent, and two packets arrive in the wrong order. -/
def wrongOrder : List (Call ℕ ℕ) :=
  [.trySend 0 false fun _ => 70, .receive (.reply 1 0 81), .receive (.payload 0 80), .ack 1 false,
    .pump]

/-- With three cells the results from `1` are those from `0`. -/
example : (SeqEx.new 100 1 : SeqEx ℕ ℕ 3).trace (wrongOrder.map (Call.renumber (1 - 0))) =
    ((SeqEx.new 100 0 : SeqEx ℕ ℕ 3).trace wrongOrder).map
      fun x => (x.1.renumber (1 - 0), x.2) :=
  trace_of_clear 100 (by decide +kernel)

end SeqEx

end SequentialExchange
