import SequentialExchange.Draining

/-!
# Deadlock freedom of a session

Below `2^32` cells and without early copies a session can be finished from
exactly those states in which the two peers are not wedged. Two windows full of
packets that were never delivered are wedged: neither peer processes what the
other one resends, since its own window has no room for an answer.
-/

namespace SequentialExchange

open WrapNumbering GuardedRuns Exchange

variable {S R : Type*}

namespace Session

variable {encode : S → R} {interval : Side → Int64} {initialSeqNo : SeqNo}

/-- A reached state can be finished exactly when it is not wedged. -/
theorem canFinish_iff_not_wedged {CAP : ℕ} [NeZero CAP] (hC : ∃ e ≥ 2, CAP = 2 ^ e)
    (hcap : CAP < 2 ^ 32) {s : Session S R fun _ => CAP}
    (hrun : Reaches (fun (u : Session S R fun _ => CAP) e => u.Possible e ∧ ∀ x, u.NoEarlyCopy x e)
      (perform encode) (start interval initialSeqNo) s)
    (hcount : ∀ x, s.sentCount x < 2 ^ 31) :
    s.CanFinish encode ↔ ¬ s.Wedged := by
  have hcarries := reaches_carries (fun _ _ h => h.1) hrun
  have hlinked := reaches_linked (fun _ => hC) (fun _ _ h => h) hrun hcount
  constructor
  · intro hfinish hwedged
    obtain ⟨W, hW, hl⟩ := hlinked
    exact hwedged.not_canFinish (fun _ => hC) hcarries hcount hW hl hfinish
  · intro hwedged
    have htracked : Tracked encode initialSeqNo s := ⟨hcarries, hcount, hlinked⟩
    exact htracked.canFinish (fun _ => hC) (fun _ => hcap) (fun _ => le_rfl) hwedged

/-- One side fills its window but for one cell, and loses everything. -/
def nearlyFull : List (Event ℕ ℕ) :=
  List.replicate 4 (.call .a (.trySend 0 false fun _ => 70)) ++
    List.replicate 3 (.call .b (.trySend 0 false fun _ => 71))

/-- Everything that was lost can be sent again and delivered. -/
theorem canFinish_iff_not_wedged_nearlyFull :
    (nearlyFull.foldl (perform id) (start (fun _ => 100) 0) :
      Session ℕ ℕ fun _ => 4).CanFinish id :=
  (canFinish_iff_not_wedged ⟨2, le_rfl, rfl⟩ (by decide)
    (Allowed.reaches (l := nearlyFull) (by decide))
    (Side.forall.mpr ⟨by decide, by decide⟩)).mpr (by decide)

/-- Both sides fill their windows before anything is delivered. -/
def bothFull : List (Event ℕ ℕ) :=
  nearlyFull ++ [.call .b (.trySend 0 false fun _ => 71)]

/-- Two full windows that wait for each other cannot be finished. -/
theorem bothFull_cannot_finish :
    ∃ s : Session ℕ ℕ fun _ => 4,
      Reaches (fun u e => u.Possible e ∧ ∀ x, u.NoEarlyCopy x e) (perform id)
        (start (fun _ => 100) 0) s ∧
        (∀ x, s.sentCount x = 4) ∧ ¬ s.CanFinish id := by
  let s : Session ℕ ℕ fun _ => 4 := bothFull.foldl (perform id) (start (fun _ => 100) 0)
  have hC : ∃ e ≥ 2, 4 = 2 ^ e := ⟨2, le_rfl, rfl⟩
  have hrun : Reaches (fun u e => u.Possible e ∧ ∀ x, u.NoEarlyCopy x e) (perform id)
    (start (fun _ => 100) 0) s := Allowed.reaches (l := bothFull) (by decide)
  have hsent : ∀ x, s.sentCount x = 4 := Side.forall.mpr ⟨by decide, by decide⟩
  have hcount (x : Side) : s.sentCount x < 2 ^ 31 := (hsent x).trans_lt (by decide)
  obtain ⟨W, hW, hlinked⟩ := reaches_linked (fun _ => hC) (fun _ _ h => h) hrun hcount
  have hwedged : s.Wedged := by decide
  exact ⟨s, hrun, hsent, hwedged.not_canFinish (fun _ => hC)
    (reaches_carries (fun _ _ h => h.1) hrun) hcount hW hlinked⟩

end Session

end SequentialExchange
