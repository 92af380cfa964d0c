import SequentialExchange.PumpFlag

/-!
# Receiving at the cursor, and storing and pumping

`try_receive_raw_and_direct` and `try_pump_raw` each have their own admission
test, fast-forward and pairing. For the packet at the cursor, when its cell is
empty, they agree: receiving it is the same as storing it and pumping.
-/

namespace SequentialExchange

open WrapNumbering GuardedRuns

variable {S R P : Type*}

/-- Convert the received data of a result. -/
def RecvOkRaw.map (into : P → R) : RecvOkRaw S P → RecvOkRaw S R
  | .payload n b d => .payload n b (into d)
  | .reply n b d sendData => .reply n b (into d) sendData
  | .ack sendData => .ack sendData

/-- The error of `try_receive` that corresponds to an error of `try_pump`. -/
def TryError.toRaw : TryError → TryRawRecvError
  | .waitingForRecv => .waitingForRecv
  | .waitingForReply => .waitingForReply

namespace SeqEx

variable {CAP : ℕ} [NeZero CAP] {s : SeqEx S R CAP} {into : P → R}

/-- The packet is written into the cell of its number. -/
def store (into : P → R) (s : SeqEx S R CAP) (p : Packet P) : SeqEx S R CAP :=
  match p.seqNo?, p.payload? with
  | some n, some d => s.setRecvEntry n (.occupied n p.replyNo? p.isSeqCst (into d))
  | _, _ => s

/-- Receiving the packet and storing it before a pump come to the same. -/
structure PumpsAlike (into : P → R) (s : SeqEx S R CAP) (p : Packet P) : Prop where
  ok : ∀ o doPump t, s.tryReceiveRawAndDirect into p = (.ok (o, doPump), t) →
    (s.store into p).tryPumpRaw = (.ok (o.map into, doPump), t)
  ok_of_pump : ∀ o doPump t, (s.store into p).tryPumpRaw = (.ok (o, doPump), t) →
    ∃ o', o = o'.map into ∧ s.tryReceiveRawAndDirect into p = (.ok (o', doPump), t)
  error : ∀ e t, s.tryReceiveRawAndDirect into p = (.error e, t) → t = s.store into p ∧
    ∃ e', e = e'.toRaw ∧ (s.store into p).tryPumpRaw = (.error e', s.store into p)
  error_of_pump : ∀ e t, (s.store into p).tryPumpRaw = (.error e, t) → t = s.store into p ∧
    s.tryReceiveRawAndDirect into p = (.error e.toRaw, s.store into p)

/-- Storing a packet made from its parts. -/
theorem store_newWithData (into : P → R) (s : SeqEx S R CAP) (n : SeqNo) (r : Option SeqNo)
    (b : Bool) (d : P) :
    s.store into (.newWithData n r b d) = s.setRecvEntry n (.occupied n r b (into d)) := by
  simp [store]

/-- A hand-over does not look at the data. -/
theorem handOver_map (into : P → R) (s : SeqEx S R CAP) (n : SeqNo) (r : Option SeqNo) (b : Bool)
    (d : P) :
    s.handOver n r b (into d) = ((s.handOver n r b d).1.map into, (s.handOver n r b d).2) := by
  unfold handOver
  cases r with
  | none => rfl
  | some q =>
    dsimp only
    split <;> rfl

/-- The cell of the cursor is emptied, whatever was stored there. -/
theorem advance_store (s : SeqEx S R CAP) (n : SeqNo) (e : RecvEntry R) :
    (s.setRecvEntry n e).advance n = s.advance n := by
  simp only [advance, setRecvEntry, Function.update_idem]

/-- The number of the cursor is in range when the ring has a length. -/
theorem inRange_cursor (hcap : CAP < 2 ^ 32) (s : SeqEx S R CAP) : s.InRange s.nextRecvSeqNo := by
  have hpos : 0 < CAP := Nat.pos_of_ne_zero (NeZero.ne CAP)
  rw [inRange_iff, sub_self, Nat.mod_eq_of_lt hcap]
  exact ⟨by decide, hpos⟩

/-- Both ways process the packet, with the same result. -/
theorem pumpsAlike_of_ok {p : Packet P} {o : RecvOkRaw S P} {b : Bool} {t : SeqEx S R CAP}
    (hdirect : s.tryReceiveRawAndDirect into p = (.ok (o, b), t))
    (hpump : (s.store into p).tryPumpRaw = (.ok (o.map into, b), t)) :
    s.PumpsAlike into p := by
  refine ⟨fun o' b' u h => ?_, fun o' b' u h => ?_, fun e u h => ?_, fun e u h => ?_⟩
  · rw [hdirect] at h
    cases h
    exact hpump
  · rw [hpump] at h
    cases h
    exact ⟨o, rfl, hdirect⟩
  · rw [hdirect] at h
    cases h
  · rw [hpump] at h
    cases h

/-- Both ways leave the packet stored, for the same reason. -/
theorem pumpsAlike_of_error {p : Packet P} {e : TryError}
    (hdirect : s.tryReceiveRawAndDirect into p = (.error e.toRaw, s.store into p))
    (hpump : (s.store into p).tryPumpRaw = (.error e, s.store into p)) : s.PumpsAlike into p := by
  refine ⟨fun o' b u h => ?_, fun o' b u h => ?_, fun e' u h => ?_, fun e' u h => ?_⟩
  · rw [hdirect] at h
    cases h
  · rw [hpump] at h
    cases h
  · rw [hdirect] at h
    cases h
    exact ⟨rfl, e, rfl, hpump⟩
  · rw [hpump] at h
    cases h
    exact ⟨rfl, hdirect⟩

/-- Below `2^32` cells the two ways agree, in every state. -/
theorem pumpsAlike_of_small (hcap : CAP < 2 ^ 32) (into : P → R) {s : SeqEx S R CAP}
    (hempty : s.recvWindow (cell CAP s.nextRecvSeqNo) = .empty) {p : Packet P}
    (hp : p.seqNo? = some s.nextRecvSeqNo) : s.PumpsAlike into p := by
  rcases p.eq_ack_or_newWithData with ⟨r, rfl⟩ | ⟨n, r, b, d, rfl⟩
  · cases hp
  rw [Packet.seqNo?_newWithData] at hp
  obtain rfl := Option.some.inj hp
  have hstore := s.store_newWithData into s.nextRecvSeqNo r b d
  obtain ⟨hbelow, habove⟩ := s.inRange_cursor hcap
  have hdup : s.isDuplicate s.nextRecvSeqNo = false := by simp [isDuplicate, hempty]
  have hcell : (s.store into (.newWithData s.nextRecvSeqNo r b d)).recvWindow
      (cell CAP s.nextRecvSeqNo) = .occupied s.nextRecvSeqNo r b (into d) := by
    rw [hstore]
    exact Function.update_self ..
  have hcursor : (s.store into (.newWithData s.nextRecvSeqNo r b d)).nextRecvSeqNo =
      s.nextRecvSeqNo := by rw [hstore]; rfl
  have hfull : (s.store into (.newWithData s.nextRecvSeqNo r b d)).isFullInner r =
      s.isFullInner r := by rw [hstore]; rfl
  have hlocked : (s.store into (.newWithData s.nextRecvSeqNo r b d)).isLocked = s.isLocked := by
    rw [hstore]; rfl
  -- what waits is stored, and a pump fails in the same way
  have hwaits (e : TryError)
      (hmust : s.mustWait s.nextRecvSeqNo r b =
        (decide (e = .waitingForRecv), decide (e = .waitingForReply)))
      (hpump : (s.store into (.newWithData s.nextRecvSeqNo r b d)).tryPumpRaw =
        (.error e, s.store into (.newWithData s.nextRecvSeqNo r b d))) :
      s.PumpsAlike into (.newWithData s.nextRecvSeqNo r b d) := by
    refine pumpsAlike_of_error ?_ hpump
    rw [tryReceive_newWithData, receiveData, hbelow, habove, hmust, hdup, hstore]
    cases e <;> rfl
  cases hroom : s.isFullInner r with
  | error e =>
    refine hwaits e ?_ ?_
    · rw [mustWait, hroom]
      cases e <;> rfl
    · rw [tryPumpRaw, hcursor, hcell]
      simp only [hfull, hroom]
  | ok u =>
    cases hlock : b && s.isLocked with
    | true =>
      obtain ⟨rfl, hlockedNow⟩ := Bool.and_eq_true_iff.mp hlock
      refine hwaits .waitingForReply ?_ ?_
      · rw [mustWait, hroom]
        simp [hlockedNow]
      · rw [tryPumpRaw, hcursor, hcell]
        simp [hfull, hroom, hlocked, hlockedNow]
    | false =>
      have hmust : s.mustWait s.nextRecvSeqNo r b = (false, false) := by
        rw [mustWait, hroom]
        simp [hlock]
      refine pumpsAlike_of_ok
        (o := ((s.advance s.nextRecvSeqNo).2.handOver s.nextRecvSeqNo r b d).1)
        (b := (s.advance s.nextRecvSeqNo).1)
        (t := ((s.advance s.nextRecvSeqNo).2.handOver s.nextRecvSeqNo r b d).2) ?_ ?_
      · rw [tryReceive_newWithData, receiveData, hbelow, habove, hmust, sub_self]
        rfl
      · have hadvance := s.advance_store s.nextRecvSeqNo
          (.occupied s.nextRecvSeqNo r b (into d))
        rw [← hstore] at hadvance
        have hfree (hb : b = true) : s.isLocked = false := by simpa [hb] using hlock
        have hpump := tryPumpRaw_next (by rw [hcursor]; exact hcell) (hfull.trans hroom)
          fun hb => hlocked.trans (hfree hb)
        rw [hpump, hcursor, hadvance, handOver_map]

/-- When the ring length is zero as a 32-bit word, the packet at the cursor is
dropped as too early. -/
theorem tryReceive_tooEarly (hcap : CAP % 2 ^ 32 = 0) (into : P → R) (s : SeqEx S R CAP) (d : P) :
    s.tryReceiveRawAndDirect into (.payload s.nextRecvSeqNo d) = (.error .droppedTooEarly, s) := by
  have hrange : ¬ s.InRange s.nextRecvSeqNo := fun h => by
    have hlt := (inRange_iff.mp h).2
    omega
  have hbelow : s.isBelowRange s.nextRecvSeqNo = false := by
    rw [isBelowRange_eq_false_iff, sub_self]
    decide
  exact receiveData_tooEarly hrange hbelow into none false d

/-- In all reached states, and for every packet at the cursor whose cell is
empty, receiving agrees with storing and pumping exactly for the capacities
below `2^32`. -/
theorem pumpsAlike_iff_small [Inhabited P] (hC : ∃ e ≥ 2, CAP = 2 ^ e) (into : P → R)
    (interval : Int64) (initialSeqNo : SeqNo) :
    (∀ s : SeqEx S R CAP, Reaches (fun _ _ => True) (fun u c => (u.call c).2)
        (new interval initialSeqNo) s →
      s.recvWindow (cell CAP s.nextRecvSeqNo) = .empty →
      ∀ p : Packet P, p.seqNo? = some s.nextRecvSeqNo → s.PumpsAlike into p) ↔ CAP < 2 ^ 32 := by
  constructor
  · intro h
    by_contra hcap
    have hmod := mod_eq_zero_of_le (hC.imp fun _ h => h.2) (not_lt.mp hcap)
    have halike :=
      h (new interval initialSeqNo) Reaches.refl rfl (.payload initialSeqNo default) rfl
    have hdrop := tryReceive_tooEarly hmod into (new interval initialSeqNo : SeqEx S R CAP) default
    obtain ⟨-, e, he, -⟩ := halike.error _ _ hdrop
    cases e <;> cases he
  · exact fun hcap s _ hempty p hp => pumpsAlike_of_small hcap into hempty hp

/-- A packet is sent and a later SeqCst reply to it is stored. -/
def waitingForGap : List (Call ℕ ℕ) :=
  [.trySend 0 true fun _ => 70, .receive (.seqCstReply 1 0 81)]

/-- The packet that the stored one waits for is received alike. -/
theorem pumpsAlike_iff_small_waitingForGap :
    (waitingForGap.foldl (fun u c => (u.call c).2) (new 100 0 : SeqEx ℕ ℕ 4)).PumpsAlike id
      (.seqCstPayload 0 80) :=
  (pumpsAlike_iff_small ⟨2, le_rfl, rfl⟩ id 100 0).mpr (by decide) _
    (Allowed.reaches (l := waitingForGap) (by decide)) (by decide) _ (by decide)

/-- With `2^32` cells the first packet is dropped as too early, and pumped when
it is stored. -/
theorem full_ring_drops_what_it_pumps :
    ∃ s : SeqEx ℕ ℕ (2 ^ 32), Reaches (fun _ _ => True) (fun u c => (u.call c).2) (new 100 0) s ∧
      s.recvWindow (cell (2 ^ 32) s.nextRecvSeqNo) = .empty ∧ s.nextRecvSeqNo = 0 ∧
      (s.tryReceiveRawAndDirect id (.payload 0 80)).1 = .error .droppedTooEarly ∧
      (∃ o, (s.store id (.payload 0 80)).tryPumpRaw.1 = .ok o) ∧
      ¬ s.PumpsAlike id (.payload 0 80) := by
  have hdrop := tryReceive_tooEarly (by decide : 2 ^ 32 % 2 ^ 32 = 0) (id : ℕ → ℕ)
    (new 100 0 : SeqEx ℕ ℕ (2 ^ 32)) 80
  refine ⟨new 100 0, Reaches.refl, rfl, rfl, congrArg Prod.fst hdrop, ?_, fun h => ?_⟩
  · refine (pumpable_iff _).mp ⟨0, none, false, 80, ?_, ?_, nofun⟩
    · simp [store, new, Packet.seqNo?, Packet.payload?, Packet.replyNo?, Packet.isSeqCst,
        setRecvEntry]
    · rw [isFullInner_of_nil (by decide) rfl]
      rfl
  · obtain ⟨-, e, he, -⟩ := h.error _ _ hdrop
    cases e <;> cases he

end SeqEx

end SequentialExchange
