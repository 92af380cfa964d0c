import SequentialExchange.Exchange
import SequentialExchange.WrapNumbering

/-!
# Exchanges without repeated deliveries

As long as every position is handed over once, the two parties of an exchange
agree on its links. A position stays live until its answer is taken, it is
answered once, and it is handed back once, by its reply if there is one and by
an acknowledgement otherwise. Owed positions always have free places on the
ring, so that no live item is pushed out of its place.
-/

namespace SequentialExchange.Exchange

open Party

/-- What holds of `A` with its peer `B` when nothing was handed over twice. -/
structure Linked (P : ℕ) (A B : Party) : Prop extends Consistent A B where
  fresh : A.delivered.Nodup
  owed_nodup : A.owed.Nodup
  owed_unanswered : ∀ r ∈ A.owed, ∀ k, A.answers k ≠ some r
  answers_inj : ∀ j k r, A.answers j = some r → A.answers k = some r → j = k
  acked_done : ∀ r ∈ A.acked, r ∉ A.owed ∧ ∀ k, A.answers k = some r → k ∈ B.delivered
  done : ∀ k < A.next, k ∉ A.live →
    k ∈ B.delivered ∧ k ∉ B.owed ∧ ∀ j, B.answers j = some k → j ∈ A.delivered
  log_eq : ∀ k m, (k, m) ∈ A.log → B.answers k = m
  replied_not_live : ∀ k ∈ A.delivered, ∀ r, B.answers k = some r → r ∉ A.live
  reserved : A.owed.length + 2 ≤ P ∧
    ∀ i < A.owed.length, ∀ k ∈ A.live, ¬ k ≡ A.next + i [MOD P]
  recent : ∀ k ∈ A.live, A.next ≤ k + P
  handedBack_nodup : A.handedBack.Nodup
  mem_handedBack : ∀ k, k ∈ A.handedBack ↔ k < A.next ∧ k ∉ A.live
  heard_acked : ∀ r ∈ A.heard, r ∈ B.acked ∧ ∀ k, B.answers k ≠ some r

namespace Linked

variable {P P' : ℕ} {A A' B B' : Party}

/-- Two parties that have sent nothing have no links. -/
theorem start (hP : 2 ≤ P) : Linked P Party.start Party.start where
  toConsistent := Consistent.start
  fresh := List.nodup_nil
  owed_nodup := List.nodup_nil
  owed_unanswered := nofun
  answers_inj j k r h := by simp [Party.start, answers] at h
  acked_done := nofun
  done := nofun
  log_eq := nofun
  replied_not_live := nofun
  reserved := ⟨hP, nofun⟩
  recent := nofun
  handedBack_nodup := List.nodup_nil
  mem_handedBack k := by simp [Party.start, handedBack, next]
  heard_acked := nofun

/-! ## Sending -/

/-- Less than a period apart, congruent positions are equal. -/
theorem modEq_add_iff {n i j : ℕ} (hi : i < P) (hj : j < P) : n + i ≡ n + j [MOD P] ↔ i = j := by
  constructor
  · intro h
    have h' : i ≡ j [MOD P] := Nat.ModEq.add_left_cancel' n h
    rwa [Nat.ModEq, Nat.mod_eq_of_lt hi, Nat.mod_eq_of_lt hj] at h'
  · rintro rfl
    rfl

/-- An item takes a free place; places further on stay free. -/
theorem push_reserved (h : Linked P A B) (item : Item) {c : ℕ} (hc : c + 2 ≤ P)
    (hfree : ∀ i ≤ c, ∀ k ∈ A.live, ¬ k ≡ A.next + i [MOD P]) :
    (∀ i < c, ∀ k ∈ (A.push P item).live, ¬ k ≡ (A.push P item).next + i [MOD P]) ∧
      ∀ k ∈ (A.push P item).live, (A.push P item).next ≤ k + P := by
  rw [push_next]
  constructor
  · rintro i hi k (rfl | ⟨hk, -⟩) hmod
    · have hne : A.next + 0 ≡ A.next + (1 + i) [MOD P] := by
        rwa [← Nat.add_assoc, Nat.add_zero]
      have := (modEq_add_iff (by omega) (by omega)).mp hne
      omega
    · refine hfree (1 + i) (by omega) k hk ?_
      rwa [← Nat.add_assoc]
  · rintro k (rfl | ⟨hk, hplace⟩)
    · omega
    · have hle := h.recent k hk
      have hne : A.next ≠ k + P := fun heq => hplace (by rw [heq]; simp [Nat.ModEq])
      omega

/-- On a free place an item joins the live ones. -/
theorem push_live {item : Item} (hfree : ∀ k ∈ A.live, ¬ k ≡ A.next [MOD P]) :
    (A.push P item).live = insert A.next A.live := by
  have hkeep : {k ∈ A.live | ¬ k ≡ A.next [MOD P]} = A.live :=
    Set.ext fun k => ⟨fun hk => hk.1, fun hk => ⟨hk, hfree k hk⟩⟩
  rw [Party.push, hkeep]

/-- Sending an item whose place, and the next `c` places, are free. -/
theorem push (h : Linked P A B) (hpeer : ∀ k r, B.answers k = some r → r < A.next) {item : Item}
    (hitem : ∀ r ∈ item.answers, r ∈ A.delivered ∧ r ∉ A.owed ∧ r ∉ A.acked ∧
      ∀ k, A.answers k ≠ some r)
    (hc : A.owed.length + 2 ≤ P)
    (hfree : ∀ i ≤ A.owed.length, ∀ k ∈ A.live, ¬ k ≡ A.next + i [MOD P]) :
    Linked P (A.push P item) B := by
  have hlive : (A.push P item).live = insert A.next A.live := push_live (hfree 0 (Nat.zero_le _))
  obtain ⟨hreserved, hrecent⟩ := h.push_reserved item hc hfree
  exact {
    toConsistent := h.toConsistent.push fun r hr => (hitem r hr).1
    fresh := h.fresh
    owed_nodup := h.owed_nodup
    owed_unanswered := fun r hr k hk => by
      rcases push_answers hk with hk | ⟨-, hr'⟩
      · exact h.owed_unanswered r hr k hk
      · exact (hitem r hr').2.1 hr
    answers_inj := fun j k r hj hk => by
      rcases push_answers hj with hj | ⟨rfl, hr⟩
      · rcases push_answers hk with hk | ⟨rfl, hr⟩
        · exact h.answers_inj j k r hj hk
        · exact absurd hj ((hitem r hr).2.2.2 j)
      · rcases push_answers hk with hk | ⟨rfl, -⟩
        · exact absurd hk ((hitem r hr).2.2.2 k)
        · rfl
    acked_done := fun r hr => by
      refine ⟨(h.acked_done r hr).1, fun k hk => ?_⟩
      rcases push_answers hk with hk | ⟨-, hr'⟩
      · exact (h.acked_done r hr).2 k hk
      · exact absurd hr (hitem r hr').2.2.1
    done := fun k hk hnot => by
      rw [hlive, Set.mem_insert_iff, not_or] at hnot
      rw [push_next] at hk
      exact h.done k (by omega) hnot.2
    log_eq := h.log_eq
    replied_not_live := fun k hk r hr hm => by
      rw [hlive] at hm
      rcases hm with rfl | hm
      · exact (hpeer k _ hr).false
      · exact h.replied_not_live k hk r hr hm
    reserved := ⟨hc, hreserved⟩
    recent := hrecent
    handedBack_nodup := h.handedBack_nodup
    mem_handedBack := fun k => by
      rw [hlive, push_next, Set.mem_insert_iff, not_or]
      refine (h.mem_handedBack k).trans ⟨fun ⟨hk, hn⟩ => ⟨by omega, by omega, hn⟩,
        fun ⟨hk, hne, hn⟩ => ⟨by omega, hn⟩⟩
    heard_acked := h.heard_acked }

/-- Returning an owed position frees one reserved place. -/
theorem returned (h : Linked P A B) {r : ℕ} {l : List ℕ} (hl : A.owed.Perm (r :: l)) :
    Linked P { A with owed := l } B ∧ r ∉ l ∧ l.length + 1 = A.owed.length := by
  have hlen : A.owed.length = l.length + 1 := hl.length_eq
  have hnodup : (r :: l).Nodup := hl.nodup_iff.mp h.owed_nodup
  have hsub {k : ℕ} (hk : k ∈ l) : k ∈ A.owed := hl.mem_iff.mpr (List.mem_cons_of_mem r hk)
  refine ⟨?_, (List.nodup_cons.mp hnodup).1, hlen.symm⟩
  exact { h with
    toConsistent := (h.toConsistent.returned hl).2
    owed_nodup := (List.nodup_cons.mp hnodup).2
    owed_unanswered := fun k hk => h.owed_unanswered k (hsub hk)
    acked_done := fun k hk => ⟨fun hm => (h.acked_done k hk).1 (hsub hm), (h.acked_done k hk).2⟩
    reserved := by
      obtain ⟨hP, hfree⟩ := h.reserved
      exact ⟨by dsimp only; omega, fun i hi => hfree i (by dsimp only at hi; omega)⟩ }

/-! ## Receiving -/

/-- A reply that was not handed over yet finds the replied-to position live. -/
theorem live_of_reply (h : Linked P A B) (h' : Linked P' B A) {k r : ℕ} (hk : k ∉ A.delivered)
    (hr : B.answers k = some r) : r ∈ A.live := by
  by_contra hlive
  exact hk ((h.done r (h'.replied_lt hr) hlive).2.2 k hr)

/-- Live positions are told apart by their places. -/
theorem live_inj (h : Linked P A B) {j k : ℕ} (hj : j ∈ A.live) (hk : k ∈ A.live)
    (hmod : j ≡ k [MOD P]) : j = k := by
  have hjn := h.live_lt j hj
  have hkn := h.live_lt k hk
  have hjr := h.recent j hj
  have hkr := h.recent k hk
  rcases Nat.le_total j k with hle | hle
  · exact WrapNumbering.eq_of_modEq_of_lt hmod hle (by omega)
  · exact (WrapNumbering.eq_of_modEq_of_lt hmod.symm hle (by omega)).symm

/-- Taking an acknowledgement hands the position back. -/
theorem hear (h : Linked P A B) (h' : Linked P' B A) {r : ℕ} (hr : r ∈ B.acked)
    (hlive : r ∈ A.live) : Linked P (A.hear r) B := by
  have hdone := h'.acked_done r hr
  have hnew : r ∉ A.handedBack := fun hm => ((h.mem_handedBack r).mp hm).2 hlive
  have hperm : (A.hear r).handedBack.Perm (r :: A.handedBack) := by
    rw [handedBack, Party.hear, List.append_assoc]
    exact List.perm_middle
  exact { h with
    toConsistent := h.toConsistent.act h'.toConsistent (.heed (P := P) r hr hlive)
    done := fun k hk hnot => by
      by_cases hkr : k = r
      · subst hkr
        exact ⟨h'.acked_delivered k hr, hdone.1, hdone.2⟩
      · exact h.done k hk fun hm => hnot ⟨hm, hkr⟩
    replied_not_live := fun k hk r' hr' hm => h.replied_not_live k hk r' hr' hm.1
    reserved := ⟨h.reserved.1, fun i hi k hk => h.reserved.2 i hi k hk.1⟩
    recent := fun k hk => h.recent k hk.1
    handedBack_nodup := hperm.nodup_iff.mpr (List.nodup_cons.mpr ⟨hnew, h.handedBack_nodup⟩)
    mem_handedBack := fun k => by
      rw [hperm.mem_iff, List.mem_cons, h.mem_handedBack k]
      constructor
      · rintro (rfl | ⟨hk, hn⟩)
        · exact ⟨h.live_lt k hlive, fun hm => hm.2 rfl⟩
        · exact ⟨hk, fun hm => hn hm.1⟩
      · rintro ⟨hk, hn⟩
        by_cases hkr : k = r
        · exact .inl hkr
        · exact .inr ⟨hk, fun hm => hn ⟨hm, hkr⟩⟩
    heard_acked := fun k hk => by
      rcases List.mem_append.mp hk with hk | hk
      · exact h.heard_acked k hk
      · rw [List.mem_singleton.mp hk]
        exact ⟨hr, fun j hj => h.replied_not_live j (hdone.2 j hj) r hj hlive⟩ }

/-- Taking an item in that was not handed over yet. -/
theorem takeIn (h : Linked P A B) (h' : Linked P' B A) {k : ℕ} {m : Option ℕ} {J : Intake}
    (hk : k < B.next) (hroom : A.Room P (B.answers k))
    (hm : ∀ r, m = some r ↔ B.answers k = some r ∧ r ∈ A.live)
    (hJ : Intake.Deliver B.ordered k A.intake J) (hnew : k ∉ A.delivered) :
    Linked P (A.takeIn k m J) B := by
  have hmeq : B.answers k = m := by
    cases hans : B.answers k with
    | none =>
      cases m with
      | none => rfl
      | some r => exact absurd ((hm r).mp rfl).1 (by simp [hans])
    | some r => exact ((hm r).mpr ⟨hans, h.live_of_reply h' hnew hans⟩).symm
  have howed : k ∉ A.owed := fun hm => hnew (h.owed_delivered k hm)
  exact {
    toConsistent := h.toConsistent.act h'.toConsistent (.deliver k m J hk hroom hm hJ)
    fresh := by
      rw [takeIn_delivered]
      exact List.nodup_append.mpr ⟨h.fresh, List.nodup_singleton k, by
        rintro j hj _ hjk rfl
        exact hnew (List.mem_singleton.mp hjk ▸ hj)⟩
    owed_nodup := List.nodup_append.mpr ⟨h.owed_nodup, List.nodup_singleton k, by
      rintro j hj _ hjk rfl
      exact howed (List.mem_singleton.mp hjk ▸ hj)⟩
    owed_unanswered := fun r hr j hj => by
      rcases List.mem_append.mp hr with hr | hr
      · exact h.owed_unanswered r hr j hj
      · rw [List.mem_singleton.mp hr] at hj
        exact hnew (h.answers_delivered j k hj)
    answers_inj := h.answers_inj
    acked_done := fun r hr => by
      refine ⟨fun hmem => ?_, (h.acked_done r hr).2⟩
      rcases List.mem_append.mp hmem with hmem | hmem
      · exact (h.acked_done r hr).1 hmem
      · rw [List.mem_singleton.mp hmem] at hr
        exact hnew (h.acked_delivered k hr)
    done := fun j hj hnot => by
      rw [takeIn_delivered]
      by_cases hlive : j ∈ A.live
      · -- the position was paired just now
        have hmj : m = some j := by
          by_contra hne
          exact hnot ⟨hlive, hne⟩
        have hans := hmeq.trans hmj
        refine ⟨h'.answers_delivered k j hans, fun ho => h'.owed_unanswered j ho k hans, ?_⟩
        intro i hi
        rw [h'.answers_inj i k j hi hans]
        exact List.mem_append_right _ (List.mem_singleton_self k)
      · obtain ⟨h1, h2, h3⟩ := h.done j hj hlive
        exact ⟨h1, h2, fun i hi => List.mem_append_left _ (h3 i hi)⟩
    log_eq := fun j m' hj => by
      rcases List.mem_append.mp hj with hj | hj
      · exact h.log_eq j m' hj
      · cases List.mem_singleton.mp hj
        exact hmeq
    replied_not_live := fun j hj r hr hlive => by
      rw [takeIn_delivered] at hj
      rcases List.mem_append.mp hj with hj | hj
      · exact h.replied_not_live j hj r hr hlive.1
      · rw [List.mem_singleton.mp hj] at hr
        exact hlive.2 (hmeq.symm.trans hr)
    reserved := by
      have hlen : (A.takeIn k m J).owed.length = A.owed.length + 1 := by simp [Party.takeIn]
      have hroom₁ := hroom.1
      refine ⟨by omega, fun i hi j hj hmod => ?_⟩
      obtain ⟨r, hr, hrj⟩ := hroom.2 i (by omega) j hj.1 hmod
      have hlive := h.live_of_reply h' hnew hr
      rw [← h.live_inj hlive hj.1 hrj] at hj
      exact hj.2 (hmeq.symm.trans hr)
    recent := fun j hj => h.recent j hj.1
    handedBack_nodup := by
      rw [takeIn_handedBack]
      refine List.nodup_append.mpr ⟨h.handedBack_nodup, by cases m <;> simp, ?_⟩
      rintro j hj _ hjm rfl
      have hmj : m = some j := Option.mem_toList.mp hjm
      exact ((h.mem_handedBack j).mp hj).2 ((hm j).mp hmj).2
    mem_handedBack := fun j => by
      rw [takeIn_handedBack, List.mem_append, Option.mem_toList]
      refine (or_congr_left (h.mem_handedBack j)).trans ?_
      constructor
      · rintro (⟨hj, hn⟩ | hmj)
        · exact ⟨hj, fun hlive => hn hlive.1⟩
        · exact ⟨h.live_lt j ((hm j).mp hmj).2, fun hlive => hlive.2 hmj⟩
      · rintro ⟨hj, hn⟩
        by_cases hmj : m = some j
        · exact .inr hmj
        · exact .inl ⟨hj, fun hlive => hn ⟨hlive, hmj⟩⟩
    heard_acked := h.heard_acked }

/-! ## Steps -/

/-- The party itself makes a step that repeats no delivery. -/
theorem act (h : Linked P A B) (h' : Linked P' B A) (ha : Act P B A A')
    (hfresh : A'.delivered.Nodup) : Linked P A' B := by
  have hconsistent := h.toConsistent.act h'.toConsistent ha
  cases ha with
  | send b hroom =>
    refine h.push (fun _ _ => h'.replied_lt) nofun (by have := hroom.1; omega)
      fun i hi k hk hmod => ?_
    obtain ⟨r, hr, -⟩ := hroom.2 i hi k hk hmod
    cases hr
  | reply r b l hl =>
    obtain ⟨h₁, hr, hlen⟩ := h.returned hl
    have howed : r ∈ A.owed := hl.mem_iff.mpr List.mem_cons_self
    have hreserved := h.reserved
    refine h₁.push (fun _ _ => h'.replied_lt) (fun r' hr' => ?_) (by dsimp only; omega)
      fun i hi => ?_
    · cases hr'
      exact ⟨h.owed_delivered r howed, hr, fun hm => (h.acked_done r hm).1 howed,
        h.owed_unanswered r howed⟩
    · exact hreserved.2 i (by dsimp only at hi; omega)
  | ack r l hl =>
    obtain ⟨h₁, hr, -⟩ := h.returned hl
    have howed : r ∈ A.owed := hl.mem_iff.mpr List.mem_cons_self
    refine { h₁ with toConsistent := hconsistent, acked_done := ?_ }
    rintro k (rfl | hk)
    · exact ⟨hr, fun j hj => absurd hj (h.owed_unanswered k howed j)⟩
    · exact h₁.acked_done k hk
  | reack k hk hlive howed =>
    refine { h with toConsistent := hconsistent, acked_done := ?_ }
    rintro r (rfl | hr)
    · refine ⟨howed, fun j hj => ?_⟩
      exact (h.done j (answers_lt hj) fun hm => hlive j hm hj).1
    · exact h.acked_done r hr
  | heed r hr hlive => exact h.hear h' hr hlive
  | deliver k m J hk hroom hm hJ =>
    refine h.takeIn h' hk hroom hm hJ fun hmem => ?_
    rw [takeIn_delivered] at hfresh
    exact (List.nodup_append.mp hfresh).2.2 k hmem k (List.mem_singleton_self k) rfl

/-- The peer makes a step that repeats no delivery. -/
theorem of_peer_act (h : Linked P A B) (h' : Linked P' B A) (ha : Act P' A B B')
    (hfresh : B'.delivered.Nodup) : Linked P A B' := by
  have hgrows := ha.grows
  -- a new reply of the peer answers an owed position
  have hanswers {k r : ℕ} (hk : B'.answers k = some r) : B.answers k = some r ∨ r ∈ B.owed := by
    cases ha with
    | send b _ => exact .inl ((push_answers hk).resolve_right fun hn => by simp at hn)
    | reply r₀ b l hl =>
      refine (push_answers hk).imp_right fun hn => ?_
      cases hn.2
      exact hl.mem_iff.mpr List.mem_cons_self
    | _ => exact .inl hk
  -- a newly owed position was not handed over before
  have howed {k : ℕ} (hk : k ∈ B'.owed) : k ∈ B.owed ∨ k ∉ B.delivered := by
    cases ha with
    | reply r b l hl => exact .inl (hl.mem_iff.mpr (List.mem_cons_of_mem r hk))
    | ack r l hl => exact .inl (hl.mem_iff.mpr (List.mem_cons_of_mem r hk))
    | deliver j m J _ _ _ _ =>
      rw [takeIn_delivered] at hfresh
      refine (List.mem_append.mp hk).imp_right fun hkj hmem => ?_
      exact (List.nodup_append.mp hfresh).2.2 k hmem j (List.mem_singleton_self j)
        (List.mem_singleton.mp hkj)
    | _ => exact .inl hk
  exact { h with
    toConsistent := h.toConsistent.of_peer_act ha
    acked_done := fun r hr =>
      ⟨(h.acked_done r hr).1, fun k hk => hgrows.mem_delivered ((h.acked_done r hr).2 k hk)⟩
    done := fun k hk hnot => by
      obtain ⟨h1, h2, h3⟩ := h.done k hk hnot
      refine ⟨hgrows.mem_delivered h1, fun ho => ?_, fun j hj => ?_⟩
      · exact (howed ho).elim h2 fun hn => hn h1
      · exact (hanswers hj).elim (h3 j) fun ho => absurd ho h2
    log_eq := fun k m hk => by
      have hlt := h.delivered_lt k (List.mem_map_of_mem (f := Prod.fst) hk)
      rw [hgrows.answers_eq hlt]
      exact h.log_eq k m hk
    replied_not_live := fun k hk r hr => by
      rw [hgrows.answers_eq (h.delivered_lt k hk)] at hr
      exact h.replied_not_live k hk r hr
    heard_acked := fun r hr => by
      obtain ⟨hacked, hno⟩ := h.heard_acked r hr
      refine ⟨hgrows.acked hacked, fun k hk => ?_⟩
      rcases hanswers hk with hk | ho
      · exact hno k hk
      · exact (h'.acked_done r hacked).1 ho }

end Linked

end SequentialExchange.Exchange
