import SequentialExchange.FullPass
import SequentialExchange.PumpFlag
import SequentialExchange.InitialNumber

/-!
# The windows under arbitrary input

Whatever packets arrive and whatever calls are made, an entry of a window is in
the cell of its number, and the number is near the cursor of that window. The
debug assertions that compare sequence numbers say no more than this. Only a
ring that holds the whole number space can bring the next number to send round
to that of an entry.
-/

namespace SequentialExchange

open WrapNumbering

variable {S R : Type*} {CAP : ℕ}

/-! ## Everything a caller can do -/

/-- A public operation on an endpoint. -/
inductive Operation (S R : Type*) (CAP : ℕ) where
  /-- A method call. -/
  | call (c : Call S R)
  /-- The data of the send window is changed through `iter_mut`. -/
  | iterMut (f : Fin CAP → S → S)
  /-- The public field `resend_interval` is set. -/
  | setResendInterval (d : Int64)
  /-- The public field `next_service_timestamp` is set. -/
  | setNextServiceTimestamp (t : Int64)

/-- The number in a cell of the receive window that is not `Empty`. -/
def RecvEntry.seqNo? : RecvEntry R → Option SeqNo
  | .occupied n _ _ _ => some n
  | .unlocked n => some n
  | .empty => none

namespace SeqEx

/-- `iter_mut`: every entry may get new data and stays what it is otherwise. -/
def iterMut (s : SeqEx S R CAP) (f : Fin CAP → S → S) : SeqEx S R CAP :=
  { s with sendWindow := fun i => (s.sendWindow i).map fun e => { e with data := f i e.data } }

variable [NeZero CAP]

/-- Perform one operation. -/
def operate (s : SeqEx S R CAP) : Operation S R CAP → SeqEx S R CAP
  | .call c => (s.call c).2
  | .iterMut f => s.iterMut f
  | .setResendInterval d => { s with resendInterval := d }
  | .setNextServiceTimestamp t => { s with nextServiceTimestamp := t }

/-- The loop of `fast_forward` in a debug build: `none` when a marker has not
the number of the cursor, or when the iterations are used up. -/
def fastForwardChecked :
    ℕ → (Fin CAP → RecvEntry R) → SeqNo → Option ((Fin CAP → RecvEntry R) × SeqNo × Bool)
  | 0, _, _ => none
  | fuel + 1, window, next =>
    match window (cell CAP next) with
    | .unlocked n =>
      if n = next then
        fastForwardChecked fuel (Function.update window (cell CAP next) .empty) (next + 1)
      else none
    | .occupied _ _ _ _ => some (window, next, true)
    | .empty => some (window, next, false)

/-- What holds of the two windows between operations. The last three fields are
the assertions of `fast_forward` after the packet at the cursor was taken out,
of `try_receive_raw_and_direct` and of `try_pump_raw`. -/
structure WindowsSound (s : SeqEx S R CAP) : Prop where
  recv : ∀ i n, (s.recvWindow i).seqNo? = some n →
    i = cell CAP n ∧ (n - s.nextRecvSeqNo).toNat < CAP
  cursor : ∀ n, s.recvWindow (cell CAP s.nextRecvSeqNo) ≠ .unlocked n
  send : ∀ i e, s.sendWindow i = some e → i = cell CAP e.seqNo ∧
    (1 ≤ (s.nextSendSeqNo - e.seqNo).toNat ∧ (s.nextSendSeqNo - e.seqNo).toNat ≤ CAP ∨
      2 ^ 32 ≤ CAP ∧ e.seqNo = s.nextSendSeqNo)
  replies : s.concurrentReplies.length ≤ CAP - 2
  forwards :
    fastForwardChecked CAP (Function.update s.recvWindow (cell CAP s.nextRecvSeqNo) .empty)
      (s.nextRecvSeqNo + 1) =
    some (fastForwardLoop (CAP + 1)
      (Function.update s.recvWindow (cell CAP s.nextRecvSeqNo) .empty) (s.nextRecvSeqNo + 1))
  receives : ∀ n, s.InRange n → ∀ m, (s.recvWindow (cell CAP n)).seqNo? = some m → m = n
  pumps : ∀ n r b d, s.recvWindow (cell CAP s.nextRecvSeqNo) = .occupied n r b d →
    n = s.nextRecvSeqNo

/-! ## The send window -/

variable {s s' : SeqEx S R CAP} {t : Int64}

omit [NeZero CAP] in
/-- Entries keep their numbers and their cells, or go. -/
structure Thins (s s' : SeqEx S R CAP) : Prop where
  nextSend : s'.nextSendSeqNo = s.nextSendSeqNo
  window : ∀ i e', s'.sendWindow i = some e' → ∃ e, s.sendWindow i = some e ∧ e.seqNo = e'.seqNo

omit [NeZero CAP] in
/-- Packets that are taken out leave the others in their cells. -/
theorem Shrinks.thins (h : s.Shrinks s') : s.Thins s' :=
  ⟨h.nextSend, fun i e he => ⟨e, h.window i e he, rfl⟩⟩

omit [NeZero CAP] in
/-- So do new times. -/
theorem Retimed.thins (h : s.Retimed s') : s.Thins s' where
  nextSend := h.nextSend
  window i e' he' := by
    have hpending : s.pending i = some e'.toPacket := by
      rw [← h.pending]
      exact congrArg (Option.map SendEntry.toPacket) he'
    obtain ⟨e, he, hpacket⟩ := Option.map_eq_some_iff.mp hpending
    rw [SendEntry.toPacket_eq, SendEntry.toPacket_eq, Packet.newWithData_inj] at hpacket
    exact ⟨e, he, hpacket.1⟩

omit [NeZero CAP] in
/-- So does new data. -/
theorem iterMut_thins (s : SeqEx S R CAP) (f : Fin CAP → S → S) : s.Thins (s.iterMut f) where
  nextSend := rfl
  window i e' he' := by
    obtain ⟨e, he, rfl⟩ := Option.map_eq_some_iff.mp he'
    exact ⟨e, he, rfl⟩

/-- A call draws a number or puts nothing into the send window. -/
theorem call_thins_or_draws (s : SeqEx S R CAP) (c : Call S R) :
    s.Thins (s.call c).2 ∨ ∃ t, s.Draws t (s.call c).2 := by
  cases c with
  | serviceDirect t iter => exact .inl (s.serviceDirect_retimed t iter).1.thins
  | service t => exact .inl (s.serviceLoop_retimed t ((lenU32 CAP).toNat + 1) none).1.thins
  | _ =>
    refine (s.call_timing rfl).imp Shrinks.thins fun h => ?_
    obtain ⟨-, t, -, hdraws⟩ := h
    exact ⟨t, hdraws⟩

/-- Every entry is in the cell of its number. -/
def Filed (s : SeqEx S R CAP) : Prop :=
  ∀ i e, s.sendWindow i = some e → i = cell CAP e.seqNo

/-- Entries that keep their numbers stay in the cells of these. -/
theorem Filed.thins (hs : s.Filed) (h : s.Thins s') : s'.Filed := fun i e' he' => by
  obtain ⟨e, he, hseq⟩ := h.window i e' he'
  rw [← hseq]
  exact hs i e he

/-- A new entry goes to the cell of its number. -/
theorem Filed.draws (hs : s.Filed) (h : s.Draws t s') : s'.Filed := fun i e he => by
  by_cases hi : i = cell CAP s.nextSendSeqNo
  · obtain ⟨e', he', hseq, -⟩ := h.drawn
    subst hi
    rw [he'] at he
    cases he
    rw [hseq]
  · rw [h.others i hi] at he
    exact hs i e he

/-- Entries that keep their numbers are as recent as before. -/
theorem Recent.thins (hs : s.Recent) (h : s.Thins s') : s'.Recent := fun i e' he' => by
  obtain ⟨e, he, hseq⟩ := h.window i e' he'
  rw [h.nextSend, ← hseq]
  exact hs i e he

/-! ## The receive window -/

/-- The checked loop passes and ends as the loop of a release build. -/
theorem fastForwardChecked_of_marks {base : SeqNo} {w : Fin CAP → RecvEntry R} {lo : ℕ}
    {early : Set ℕ} (hC : ∃ e, CAP = 2 ^ e) (h : Marks base w lo early) {fuel fuel' : ℕ}
    (hle : fuel ≤ fuel') (hfuel : ∃ j < fuel, lo + j ∉ early) :
    fastForwardChecked fuel w (number base lo) =
      some (fastForwardLoop fuel' w (number base lo)) := by
  induction fuel generalizing fuel' w lo early with
  | zero =>
    obtain ⟨j, hj, -⟩ := hfuel
    exact absurd hj (Nat.not_lt_zero j)
  | succ fuel ih =>
    obtain ⟨fuel', rfl⟩ : ∃ k, fuel' = k + 1 := ⟨fuel' - 1, by omega⟩
    rw [fastForwardChecked, fastForwardLoop]
    cases hw : w (cell CAP (number base lo)) with
    | occupied n r b d => rfl
    | empty => rfl
    | unlocked n =>
      have hpos : 0 < period CAP := period_pos (Nat.pos_of_ne_zero (NeZero.ne CAP))
      have hlo : lo ∈ early := (h.mem_iff hC le_rfl (Nat.lt_add_of_pos_right hpos)).mpr ⟨n, hw⟩
      have hn : n = number base lo := by
        have hmarked := h.marked lo hlo
        rw [hw] at hmarked
        cases hmarked
        rfl
      obtain ⟨j, hj, hjn⟩ := hfuel
      have hj0 : j ≠ 0 := by
        rintro rfl
        exact hjn hlo
      dsimp only
      rw [if_pos hn, number_succ]
      refine ih (h.clear hC) (by omega) ⟨j - 1, by omega, fun hm => hjn ?_⟩
      rw [show lo + j = lo + 1 + (j - 1) by omega]
      exact hm.1

end SeqEx

namespace ReceiveView

variable [NeZero CAP] {base : SeqNo} {s : SeqEx S R CAP} {cursor : ℕ} {early : Set ℕ}

/-- A cell that is not empty shows a position of the period at the cursor. -/
theorem seqNo_eq (h : ReceiveView base s cursor early) {i : Fin CAP} {n : SeqNo}
    (hi : (s.recvWindow i).seqNo? = some n) :
    ∃ k, cursor ≤ k ∧ k < cursor + period CAP ∧ i = cell CAP n ∧ n = number base k := by
  cases hw : s.recvWindow i with
  | empty =>
    rw [hw] at hi
    cases hi
  | occupied m r b d =>
    rw [hw] at hi
    cases hi
    obtain ⟨k, hlow, hhigh, hcell, rfl⟩ := h.marks.occupied i n r b d hw
    exact ⟨k, hlow, hhigh, hcell, rfl⟩
  | unlocked m =>
    rw [hw] at hi
    cases hi
    obtain ⟨k, hk, rfl⟩ := h.marks.unlocked i n hw
    have hmarked := h.marks.marked k hk
    rw [hw] at hmarked
    cases hmarked
    exact ⟨k, (h.marks.bounds k hk).1, (h.marks.bounds k hk).2, rfl, rfl⟩

/-- A slot in use is that of its number, within the window. -/
theorem windows_recv (h : ReceiveView base s cursor early) {i : Fin CAP} {n : SeqNo}
    (hi : (s.recvWindow i).seqNo? = some n) :
    i = cell CAP n ∧ (n - s.nextRecvSeqNo).toNat < CAP := by
  obtain ⟨k, hlow, hhigh, hcell, rfl⟩ := h.seqNo_eq hi
  have hperiod := period_le CAP
  have hwrap : period CAP ≤ 2 ^ 32 := Nat.min_le_right _ _
  refine ⟨hcell, ?_⟩
  rw [h.cursor_eq, number_sub_of_le hlow (by omega)]
  omega

/-- There is no marker at the cursor. -/
theorem windows_cursor (hC : ∃ e, CAP = 2 ^ e) (h : ReceiveView base s cursor early) (n : SeqNo) :
    s.recvWindow (cell CAP s.nextRecvSeqNo) ≠ .unlocked n := by
  have hpos : 0 < period CAP := period_pos (Nat.pos_of_ne_zero (NeZero.ne CAP))
  rw [h.cursor_eq]
  exact fun hn => h.stopped
    ((h.marks.mem_iff hC le_rfl (Nat.lt_add_of_pos_right hpos)).mpr ⟨n, hn⟩)

/-- A cell looked up by a number in range holds that number or nothing. -/
theorem windows_receives (hC : ∃ e, CAP = 2 ^ e) (h : ReceiveView base s cursor early) {n m : SeqNo}
    (hn : s.InRange n) (hm : (s.recvWindow (cell CAP n)).seqNo? = some m) : m = n := by
  obtain ⟨k, hk1, hk2, -, rfl⟩ := h.position hC hn
  obtain ⟨j, hj1, hj2, hcell, rfl⟩ := h.seqNo_eq hm
  rw [Marks.cell_inj hC ⟨hk1, hk2⟩ ⟨hj1, hj2⟩ hcell]

/-- No assertion of `fast_forward` fails. -/
theorem windows_forwards (hC : ∃ e, CAP = 2 ^ e) (h : ReceiveView base s cursor early) :
    SeqEx.fastForwardChecked CAP
        (Function.update s.recvWindow (cell CAP s.nextRecvSeqNo) .empty) (s.nextRecvSeqNo + 1) =
      some (SeqEx.fastForwardLoop (CAP + 1)
        (Function.update s.recvWindow (cell CAP s.nextRecvSeqNo) .empty)
        (s.nextRecvSeqNo + 1)) := by
  have hpos : 0 < period CAP := period_pos (Nat.pos_of_ne_zero (NeZero.ne CAP))
  have hperiod := period_le CAP
  rw [h.cursor_eq, number_succ]
  refine SeqEx.fastForwardChecked_of_marks hC (h.marks.clear hC) (Nat.le_succ CAP)
    ⟨period CAP - 1, by omega, fun hm => ?_⟩
  have := (h.marks.bounds _ hm.1).2
  omega

end ReceiveView

namespace SeqEx

variable [NeZero CAP] {s : SeqEx S R CAP}

/-! ## Every run -/

/-- What carries the windows from one operation to the next. -/
structure WindowsHeld (base : SeqNo) (s : SeqEx S R CAP) : Prop where
  view : ∃ cursor early, ReceiveView base s cursor early
  fits : s.Fits
  filed : s.Filed
  recent : CAP < 2 ^ 32 → s.Recent

/-- A new endpoint has empty windows. -/
theorem WindowsHeld.start (interval : Int64) (base : SeqNo) :
    (new interval base : SeqEx S R CAP).WindowsHeld base where
  view := ⟨0, ∅, ReceiveView.start interval base⟩
  fits := Fits.start interval base
  filed := nofun
  recent _ := nofun

/-- An operation other than a call leaves the receive side and the reply numbers
alone. -/
theorem WindowsHeld.thins {base : SeqNo} {s' : SeqEx S R CAP} (h : s.WindowsHeld base)
    (hthins : s.Thins s') (hnext : s'.nextRecvSeqNo = s.nextRecvSeqNo)
    (hrecv : s'.recvWindow = s.recvWindow) (hreplies : s'.concurrentReplies = s.concurrentReplies) :
    s'.WindowsHeld base where
  view := by
    obtain ⟨cursor, early, hview⟩ := h.view
    exact ⟨cursor, early, hview.congr hnext hrecv⟩
  fits := h.fits.shrink hrecv (hreplies ▸ List.Subperm.refl _)
  filed := h.filed.thins hthins
  recent hcap := (h.recent hcap).thins hthins

/-- Every call carries the windows on. -/
theorem WindowsHeld.call {base : SeqNo} (hC : ∃ e, CAP = 2 ^ e) (htwo : 2 ≤ CAP)
    (h : s.WindowsHeld base) (c : Call S R) : (s.call c).2.WindowsHeld base where
  view := by
    obtain ⟨cursor, early, hview⟩ := h.view
    exact hview.call hC c
  fits := h.fits.call hC htwo c
  filed := by
    rcases s.call_thins_or_draws c with hthins | ⟨t, hdraws⟩
    · exact h.filed.thins hthins
    · exact h.filed.draws hdraws
  recent hcap := by
    rcases s.call_thins_or_draws c with hthins | ⟨t, hdraws⟩
    · exact (h.recent hcap).thins hthins
    · exact (h.recent hcap).draws hC hcap hdraws

/-- So does every operation. -/
theorem WindowsHeld.operate {base : SeqNo} (hC : ∃ e, CAP = 2 ^ e) (htwo : 2 ≤ CAP)
    (h : s.WindowsHeld base) (op : Operation S R CAP) : (s.operate op).WindowsHeld base := by
  have hsame {s' : SeqEx S R CAP} (hn : s'.nextSendSeqNo = s.nextSendSeqNo)
      (hw : s'.sendWindow = s.sendWindow) : s.Thins s' :=
    ⟨hn, fun i e he => ⟨e, hw ▸ he, rfl⟩⟩
  cases op with
  | call c => exact h.call hC htwo c
  | iterMut f => exact h.thins (s.iterMut_thins f) rfl rfl rfl
  | setResendInterval d => exact h.thins (hsame rfl rfl) rfl rfl rfl
  | setNextServiceTimestamp t => exact h.thins (hsame rfl rfl) rfl rfl rfl

/-- And every run of operations. -/
theorem WindowsHeld.run {base : SeqNo} (hC : ∃ e, CAP = 2 ^ e) (htwo : 2 ≤ CAP)
    (h : s.WindowsHeld base) (ops : List (Operation S R CAP)) :
    (ops.foldl SeqEx.operate s).WindowsHeld base := by
  induction ops generalizing s with
  | nil => exact h
  | cons op ops ih => exact ih (h.operate hC htwo op)

/-- What is carried on makes the windows sound. -/
theorem WindowsHeld.sound {base : SeqNo} (hC : ∃ e, CAP = 2 ^ e) (h : s.WindowsHeld base) :
    s.WindowsSound := by
  obtain ⟨cursor, early, hview⟩ := h.view
  refine ⟨fun i n => hview.windows_recv, hview.windows_cursor hC, fun i e he => ?_, ?_,
    hview.windows_forwards hC, fun n hn m => hview.windows_receives hC hn,
    fun n r b d => hview.stored_number hC⟩
  · refine ⟨h.filed i e he, ?_⟩
    rcases Nat.lt_or_ge CAP (2 ^ 32) with hcap | hcap
    · exact .inl (h.recent hcap i e he).2
    · by_cases heq : e.seqNo = s.nextSendSeqNo
      · exact .inr ⟨hcap, heq⟩
      · have hne : s.nextSendSeqNo - e.seqNo ≠ 0 := fun hzero =>
          heq (sub_eq_zero_iff.mp hzero).symm
        have hpos : (s.nextSendSeqNo - e.seqNo).toNat ≠ 0 := fun hzero =>
          hne (UInt32.toNat_inj.mp hzero)
        have hlt := (s.nextSendSeqNo - e.seqNo).toNat_lt
        exact .inl ⟨by omega, by omega⟩
  · rcases h.fits with ⟨-, hlen⟩ | ⟨-, hnil⟩
    · omega
    · rw [hnil]
      exact Nat.zero_le _

/-- In every state that public operations lead to, the windows are as described
and no assertion about sequence numbers can fail. -/
theorem windows_sound (hC : ∃ e ≥ 2, CAP = 2 ^ e) (interval : Int64) (initialSeqNo : SeqNo)
    (ops : List (Operation S R CAP)) :
    (ops.foldl operate (new interval initialSeqNo)).WindowsSound := by
  obtain ⟨e, he, rfl⟩ := hC
  have htwo : 2 ≤ 2 ^ e := Nat.le_self_pow (by omega) 2
  exact ((WindowsHeld.start interval initialSeqNo).run ⟨e, rfl⟩ htwo ops).sound ⟨e, rfl⟩

/-- A marker, a stored reply to a number that was never sent, a pump that has
to wait for the lock, and data that is changed on the way. -/
def hostile : List (Operation ℕ ℕ 4) :=
  [.call (.trySend 0 true fun _ => 70), .iterMut fun _ d => d + 1,
    .call (.receive (.payload 2 82)), .call (.receive (.seqCstReply 1 8 81)),
    .call (.receive (.seqCstPayload 0 80)), .call .pump]

/-- Packets that no honest peer would send leave them sound. -/
theorem windows_sound_hostile : (hostile.foldl operate (new 100 0)).WindowsSound :=
  windows_sound ⟨2, le_rfl, rfl⟩ 100 0 hostile

/-- A run of packets that all find a new cell. -/
theorem Filled.run {base : SeqNo} {k m : ℕ} (hCAP : 2 < CAP) (h : s.Filled base k)
    (hfree : ∀ i < k + m, ∀ j < i, cell CAP (number base i) ≠ cell CAP (number base j))
    (t : Int64) (b : Bool) (f : SeqNo → S) :
    ((List.replicate m (.call (.trySend t b f))).foldl operate s).Filled base (k + m) := by
  induction m generalizing k s with
  | zero => exact h
  | succ m ih =>
    obtain ⟨-, hnext⟩ := h.accept hCAP (hfree k (by omega)) t b f
    have hrest := ih hnext fun i hi => hfree i (by omega)
    rwa [show k + 1 + m = k + (m + 1) by omega] at hrest

/-- With `2^32` cells a full window holds the next number to send. -/
theorem full_ring_distance_wraps :
    ∃ ops : List (Operation ℕ ℕ (2 ^ 32)), ∃ i e,
      (ops.foldl operate (new 100 0)).sendWindow i = some e ∧
        ¬ 1 ≤ ((ops.foldl operate (new 100 0)).nextSendSeqNo - e.seqNo).toNat := by
  have hcell (m n : SeqNo) (h : cell (2 ^ 32) m = cell (2 ^ 32) n) : m = n := by
    have hval := congrArg Fin.val h
    rw [cell_val, cell_val, Nat.mod_eq_of_lt m.toNat_lt, Nat.mod_eq_of_lt n.toNat_lt] at hval
    exact UInt32.toNat_inj.mp hval
  have hstart : (new 100 0 : SeqEx ℕ ℕ (2 ^ 32)).Filled 0 0 := Filled.start 100 0
  have hfilled := hstart.run (m := 2 ^ 32) (by decide) (fun i hi j hj heq => by
    have := (number_inj (by omega) (by omega)).mp (hcell _ _ heq)
    omega) 0 false fun _ => 70
  generalize hops : (List.replicate (2 ^ 32) (.call (.trySend 0 false fun _ => 70)) :
    List (Operation ℕ ℕ (2 ^ 32))) = ops at hfilled
  have htaken := (hfilled.window (cell (2 ^ 32) (number 0 0))).mpr ⟨0, by decide, rfl⟩
  obtain ⟨e, he⟩ := Option.ne_none_iff_exists'.mp htaken
  have hheld : (ops.foldl operate (new 100 0)).WindowsHeld 0 :=
    (WindowsHeld.start 100 0).run ⟨32, rfl⟩ (by decide) ops
  have hseq : number 0 0 = e.seqNo := hcell _ _ (hheld.filed _ e he)
  have hnext : number 0 (0 + 2 ^ 32) = number 0 0 := (number_eq_iff 0 _ _).mpr rfl
  refine ⟨ops, _, e, he, ?_⟩
  rw [hfilled.next, hnext, hseq, sub_eq_zero_iff.mpr rfl]
  exact Nat.not_succ_le_zero 0

end SeqEx

end SequentialExchange
