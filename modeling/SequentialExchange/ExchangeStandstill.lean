import SequentialExchange.ExchangeProgress

/-!
# A stuck exchange stays stuck

Whatever two stuck parties do short of sending new items, repeated deliveries
included, they remain stuck. The item that fills the ring is freed neither by an
acknowledgement nor by an answer, and as long as it is there the cursor that
waits behind it does not move.
-/

namespace SequentialExchange.Exchange

open Party

variable {P P' : ℕ} {A A' B B' : Party} {a b k q : ℕ}

/-- The next position is read off what was sent. -/
theorem next_congr (h : A'.sent = A.sent) : A'.next = A.next := by rw [next, next, h]

/-- So is what the items answer. -/
theorem answers_congr (h : A'.sent = A.sent) : A'.answers = A.answers := by
  funext k
  rw [answers, answers, h]

/-- And which of them are ordered. -/
theorem ordered_congr (h : A'.sent = A.sent) : A'.ordered = A.ordered := by
  funext k
  rw [ordered, ordered, h]

/-- A step that draws no position sends nothing. -/
theorem Act.sent_eq (ha : Act P B A A') (hnext : A'.next = A.next) : A'.sent = A.sent := by
  cases ha with
  | send b _ =>
    rw [push_next] at hnext
    omega
  | reply r b l _ =>
    rw [push_next] at hnext
    exact absurd hnext (Nat.succ_ne_self _)
  | _ => rfl

/-- A live position stays live unless it was acknowledged or answered. -/
theorem Act.mem_live (ha : Act P B A A') (hsent : A'.sent = A.sent) (hlive : a ∈ A.live)
    (hacked : a ∉ B.acked) (hans : ∀ k ∈ A'.delivered, B.answers k ≠ some a) : a ∈ A'.live := by
  have hnext := next_congr hsent
  cases ha with
  | send b _ =>
    rw [push_next] at hnext
    omega
  | reply r b l _ =>
    rw [push_next] at hnext
    exact absurd hnext (Nat.succ_ne_self _)
  | heed r hr _ => exact ⟨hlive, fun hra => hacked (hra ▸ hr)⟩
  | deliver k m J _ _ hm _ =>
    refine ⟨hlive, fun hma => hans k ?_ ((hm a).mp hma).1⟩
    rw [takeIn_delivered]
    exact List.mem_append_right _ (List.mem_singleton_self k)
  | _ => exact hlive

/-- `A` waits for `b`, its full ring holds `a`, and the item at `b` would not
free that place. -/
structure Waits (P : ℕ) (A B : Party) (a b : ℕ) : Prop where
  fills : A.Fills P a
  cursor : A.cursor = b
  blocked : ∀ r, B.answers b = some r → ¬ r ≡ a [MOD P]

namespace Waits

/-- Of linked parties, one with a full ring waits unless the next item answers
the item that fills it. -/
theorem of_linked (hA : Linked P A B) (hB : Linked P' B A) (ha : A.Fills P a)
    (hno : B.answers A.cursor ≠ some a) : Waits P A B a A.cursor where
  fills := ha
  cursor := rfl
  blocked r hr hmod := by
    have hlive := hA.live_of_reply hB hA.sound.cursor_not_mem_log hr
    rw [hA.live_inj hlive ha.1 hmod] at hr
    exact hno hr

/-- While it waits, `A` takes ordered items in no more. -/
theorem deliver {J : Intake} (h : Waits P A B a b) (hroom : A.Room P (B.answers k))
    (hJ : Intake.Deliver B.ordered k A.intake J) : J.cursor = b ∧ B.ordered k = false := by
  cases hJ with
  | next hk =>
    obtain ⟨r, hr, hmod⟩ := hroom.2 0 (Nat.zero_le _) a h.fills.1 h.fills.2
    have hkb : k = b := hk.trans h.cursor
    exact absurd hmod (h.blocked r (hkb ▸ hr))
  | ahead hk hord hcursor => exact ⟨hcursor.trans h.cursor, hord⟩

/-- No ordered item is added to what it was handed. -/
theorem not_mem_delivered (h : Waits P A B a b) (ha : Act P B A A') (hord : B.ordered q = true)
    (hq : q ∉ A.delivered) : q ∉ A'.delivered := by
  cases ha with
  | deliver k m J _ hroom _ hJ =>
    rw [takeIn_delivered, List.mem_append, List.mem_singleton, not_or]
    refine ⟨hq, ?_⟩
    rintro rfl
    have hno := (h.deliver hroom hJ).2
    rw [hord] at hno
    cases hno
  | _ => exact hq

/-- The waiting outlasts the steps of `A` that leave the item live. -/
theorem act (h : Waits P A B a b) (ha : Act P B A A') (hsent : A'.sent = A.sent)
    (hlive : a ∈ A'.live) : Waits P A' B a b := by
  refine ⟨⟨hlive, by rw [next_congr hsent]; exact h.fills.2⟩, ?_, h.blocked⟩
  cases ha with
  | deliver k m J _ hroom _ hJ => exact (h.deliver hroom hJ).1
  | _ => exact h.cursor

/-- It depends on what the peer sent only. -/
theorem peer (h : Waits P A B a b) (hsent : B'.sent = B.sent) : Waits P A B' a b :=
  ⟨h.fills, h.cursor, by rw [answers_congr hsent]; exact h.blocked⟩

end Waits

/-! ## Two jammed rings -/

/-- Each party waits for the item that fills the ring of the other. -/
structure Jammed (P P' : ℕ) (A B : Party) (a b : ℕ) : Prop where
  here : Waits P A B a b
  there : Waits P' B A b a

namespace Jammed

/-- Rings that jam each other are jammed at the two cursors. -/
theorem of_jams (hA : Linked P A B) (hB : Linked P' B A) (h : Jams P A B) (h' : Jams P' B A) :
    Jammed P P' A B B.cursor A.cursor where
  here := Waits.of_linked hA hB h fun hans =>
    hB.sound.cursor_not_mem_log (hB.answers_delivered _ _ hans)
  there := Waits.of_linked hB hA h' fun hans =>
    hA.sound.cursor_not_mem_log (hA.answers_delivered _ _ hans)

/-- Both rings are jammed alike. -/
theorem symm (h : Jammed P P' A B a b) : Jammed P' P B A b a := ⟨h.there, h.here⟩

/-- A party of a jam cannot end it. -/
theorem act (hB : Consistent B A) (h : Jammed P P' A B a b) (ha : Act P B A A')
    (hsent : A'.sent = A.sent) : Jammed P P' A' B a b := by
  -- the peer waits for `a`, so it has neither acknowledged nor answered it
  have hmissing : a ∉ B.delivered := h.there.cursor ▸ hB.sound.cursor_not_mem_log
  have hlive : a ∈ A'.live := ha.mem_live hsent h.here.fills.1
    (fun hm => hmissing (hB.acked_delivered a hm))
    fun k _ hans => hmissing (hB.answers_delivered k a hans)
  exact ⟨h.here.act ha hsent hlive, h.there.peer hsent⟩

end Jammed

/-! ## A starved ring -/

/-- `A` waits, and the only answer to the item that fills its ring is an ordered
item behind the one that it waits for. -/
structure Starved (P : ℕ) (A B : Party) (a q b : ℕ) : Prop where
  waits : Waits P A B a b
  answers : B.answers q = some a
  only : ∀ k, B.answers k = some a → k = q
  ordered : B.ordered q = true
  missing : q ∉ A.delivered
  kept : q ∈ B.live
  passed : a < B.cursor
  owed : a ∉ B.owed
  acked : a ∉ B.acked

namespace Starved

/-- A ring that starves is starved of a certain item. -/
theorem of_starves (hA : Linked P A B) (hB : Linked P' B A) (h : Starves P A B) :
    ∃ a q, Starved P A B a q A.cursor := by
  obtain ⟨a, ha, q, hq, hans, hord, hne⟩ := h
  have hmissing := hA.fresh_of_answers ha.1 hans
  have honly : ∀ k, B.answers k = some a → k = q := fun k hk => hB.answers_inj k q a hk hans
  refine ⟨a, q, ?_, hans, honly, hord, hmissing, hq, ?_, fun hm => ?_, fun hm => ?_⟩
  · exact Waits.of_linked hA hB ha fun hcur => hne (honly _ hcur).symm
  · exact (hA.fills_cursor hB.toConsistent ha).2 (hB.answers_delivered q a hans)
  · exact hB.owed_unanswered a hm q hans
  · exact hmissing ((hB.acked_done a hm).2 q hans)

/-- The starved party cannot help itself. -/
theorem act (h : Starved P A B a q b) (ha : Act P B A A') (hsent : A'.sent = A.sent) :
    Starved P A' B a q b := by
  have hmissing := h.waits.not_mem_delivered ha h.ordered h.missing
  have hlive : a ∈ A'.live := ha.mem_live hsent h.waits.fills.1 h.acked fun k hk hans =>
    hmissing (h.only k hans ▸ hk)
  exact { h with waits := h.waits.act ha hsent hlive, missing := hmissing }

/-- Its peer cannot help it either: the answer stays on the way, so the item is
not acknowledged once more. -/
theorem act_peer (hA : Consistent A B) (h : Starved P A B a q b) (ha : Act P' A B B')
    (hsent : B'.sent = B.sent) : Starved P A B' a q b := by
  have hans := answers_congr hsent
  have hkept : q ∈ B'.live := ha.mem_live hsent h.kept
    (fun hm => h.missing (hA.acked_delivered q hm))
    fun k _ hk => h.missing (hA.answers_delivered k q hk)
  have hrest : a < B'.cursor ∧ a ∉ B'.owed ∧ a ∉ B'.acked := by
    have hnext := next_congr hsent
    cases ha with
    | send b _ =>
      rw [push_next] at hnext
      omega
    | reply r b l _ =>
      rw [push_next] at hnext
      exact absurd hnext (Nat.succ_ne_self _)
    | ack r l hl =>
      refine ⟨h.passed, fun hm => h.owed (hl.mem_iff.mpr (List.mem_cons_of_mem r hm)), ?_⟩
      rintro (rfl | hm)
      · exact h.owed (hl.mem_iff.mpr List.mem_cons_self)
      · exact h.acked hm
    | reack j _ hno _ =>
      refine ⟨h.passed, h.owed, ?_⟩
      rintro (rfl | hm)
      · exact hno q h.kept h.answers
      · exact h.acked hm
    | heed r _ _ => exact ⟨h.passed, h.owed, h.acked⟩
    | deliver j m J _ _ _ hJ =>
      have hcursor : B.cursor ≤ j ∧ B.cursor ≤ J.cursor := by
        cases hJ with
        | next hj hlt _ _ _ _ => exact ⟨hj.ge, hlt.le⟩
        | ahead hj _ hcur _ _ => exact ⟨hj.le, hcur.ge⟩
      refine ⟨h.passed.trans_le hcursor.2, fun hm => ?_, h.acked⟩
      rcases List.mem_append.mp hm with hm | hm
      · exact h.owed hm
      · have haj := List.mem_singleton.mp hm
        have := h.passed
        omega
  exact {
    waits := h.waits.peer hsent
    answers := hans ▸ h.answers
    only := hans ▸ h.only
    ordered := ordered_congr hsent ▸ h.ordered
    missing := h.missing
    kept := hkept
    passed := hrest.1
    owed := hrest.2.1
    acked := hrest.2.2 }

end Starved

/-! ## Standstill -/

/-- What a stuck exchange never leaves. -/
inductive Standstill (P P' : ℕ) (A B : Party) : Prop where
  /-- Both rings are jammed. -/
  | jammed (a b : ℕ) (h : Jammed P P' A B a b)
  /-- One party is starved. -/
  | starved (a q b : ℕ) (h : Starved P A B a q b)
  /-- The other party is starved. -/
  | starvedPeer (a q b : ℕ) (h : Starved P' B A a q b)

namespace Standstill

/-- An exchange that is stuck stands still. -/
theorem of_stuck (hA : Linked P A B) (hB : Linked P' B A) (h : Stuck P P' A B) :
    Standstill P P' A B := by
  rcases h with ⟨h, h'⟩ | h | h
  · exact .jammed _ _ (Jammed.of_jams hA hB h h')
  · obtain ⟨a, q, h⟩ := Starved.of_starves hA hB h
    exact .starved a q _ h
  · obtain ⟨a, q, h⟩ := Starved.of_starves hB hA h
    exact .starvedPeer a q _ h

/-- The parties change places. -/
theorem symm (h : Standstill P P' A B) : Standstill P' P B A := by
  cases h with
  | jammed a b h => exact .jammed b a h.symm
  | starved a q b h => exact .starvedPeer a q b h
  | starvedPeer a q b h => exact .starved a q b h

/-- No step without a new item ends the standstill. -/
theorem act (hB : Consistent B A) (h : Standstill P P' A B) (ha : Act P B A A')
    (hnext : A'.next = A.next) : Standstill P P' A' B := by
  have hsent := ha.sent_eq hnext
  cases h with
  | jammed a b h => exact .jammed a b (h.act hB ha hsent)
  | starved a q b h => exact .starved a q b (h.act ha hsent)
  | starvedPeer a q b h => exact .starvedPeer a q b (h.act_peer hB ha hsent)

/-- One of the rings is not empty. -/
theorem live (h : Standstill P P' A B) : ∃ k, k ∈ A.live ∨ k ∈ B.live := by
  cases h with
  | jammed a b h => exact ⟨a, .inl h.here.fills.1⟩
  | starved a q b h => exact ⟨a, .inl h.waits.fills.1⟩
  | starvedPeer a q b h => exact ⟨a, .inr h.waits.fills.1⟩

end Standstill

end SequentialExchange.Exchange
