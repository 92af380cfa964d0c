import SequentialExchange.Accounting
import SequentialExchange.TwoEnded
import SequentialExchange.WindowInvariant

/-!
# Iterating over the send window

`Iter` and `IterMut` walk over the slots of the send window and pass over the empty ones.
Calls of `next` and `next_back` can be mixed. They yield data that was sent and not
handed back, each once. While no packet is processed under a false exemption this is
all of it. A use of `iter_mut` writes to each pending packet once.
-/

namespace SequentialExchange

open WrapNumbering GuardedRuns TwoEnded

variable {S R : Type*} {CAP : ℕ}

/-- A slot of `Iter` yields its data. -/
def Iter.item? (slot : Option (SendEntry S)) : Option S := slot.map SendEntry.data

namespace SeqEx

/-- The data of the pending packets, in the order of the slots. -/
def windowData (s : SeqEx S R CAP) : List S := (List.ofFn s.sendWindow).filterMap Iter.item?

/-- `iter` or `into_iter`, with calls of `next` and `next_back` on what it returns. -/
def iter (s : SeqEx S R CAP) (ends : List WalkEnd) : Walk (Option (SendEntry S)) S :=
  ends.foldl (Walk.ask Iter.item?) (Walk.start (List.ofFn s.sendWindow))

/-- The data is yielded once, at either end. -/
theorem iter_spec (s : SeqEx S R CAP) {ends : List WalkEnd} (h : CAP ≤ ends.length) :
    (s.iter ends).fronts ++ (s.iter ends).backs.reverse = s.windowData := by
  have hitems : (s.iter ends).items Iter.item? = s.windowData := Walk.walk_items _
  have hleft : (s.iter ends).slots.filterMap Iter.item? = [] :=
    Walk.walk_complete (by rwa [List.length_ofFn])
  rwa [Walk.items, hleft, List.append_nil] at hitems

/-- The data of the pending packets, cell by cell. -/
theorem windowData_eq (s : SeqEx S R CAP) :
    s.windowData = (List.finRange CAP).filterMap fun i => (s.pending i).bind Packet.payload? := by
  rw [windowData, List.ofFn_eq_map, List.filterMap_map]
  refine List.filterMap_congr fun i _ => ?_
  rw [Function.comp_apply, pending, Iter.item?]
  cases s.sendWindow i <;> simp

end SeqEx

/-! ## Writing to the window -/

/-- A slot of `IterMut` yields a reference to its data. -/
def IterMut.item? (s : SeqEx S R CAP) (i : Fin CAP) : Option (Fin CAP) :=
  (s.sendWindow i).map fun _ => i

namespace SeqEx

/-- The data is replaced through a reference. -/
def write (s : SeqEx S R CAP) (f : S → S) : Option (Fin CAP) → SeqEx S R CAP
  | some i => s.iterMut (Function.update (fun _ => id) i f)
  | none => s

/-- Calls of `next` and `next_back` on `iter_mut`, each followed by a write. -/
def writeEach (f : S → S) (s : SeqEx S R CAP) : List WalkEnd → List (Fin CAP) → SeqEx S R CAP
  | [], _ => s
  | e :: ends, slots =>
    let r := take (IterMut.item? s) slots e
    (s.write f r.1).writeEach f ends r.2

/-- Functions are compared on the cells in use only. -/
theorem iterMut_congr {s : SeqEx S R CAP} {g h : Fin CAP → S → S}
    (hsame : ∀ i, s.sendWindow i ≠ none → g i = h i) : s.iterMut g = s.iterMut h := by
  have hwindow : (s.iterMut g).sendWindow = (s.iterMut h).sendWindow := by
    funext i
    simp only [iterMut]
    cases hslot : s.sendWindow i with
    | none => rfl
    | some e => rw [hsame i (by rw [hslot]; simp)]
  simp only [iterMut] at hwindow ⊢
  rw [hwindow]

/-- Two passes with `iter_mut` are one. -/
theorem iterMut_iterMut (s : SeqEx S R CAP) (g h : Fin CAP → S → S) :
    (s.iterMut g).iterMut h = s.iterMut fun i => h i ∘ g i := by
  simp [iterMut, Function.comp_def]

/-- A pass that changes nothing. -/
theorem iterMut_id (s : SeqEx S R CAP) : (s.iterMut fun _ => id) = s := by
  simp [iterMut]

/-- A use of `iter_mut` that asks often enough writes to each pending packet once. -/
theorem writeEach_eq (f : S → S) (s : SeqEx S R CAP) {ends : List WalkEnd}
    (hends : CAP ≤ ends.length) :
    s.writeEach f ends (List.finRange CAP) = s.iterMut fun _ => f := by
  suffices hall : ∀ (s : SeqEx S R CAP) (slots : List (Fin CAP)), slots.Nodup →
      slots.length ≤ ends.length →
      s.writeEach f ends slots = s.iterMut fun i => if i ∈ slots then f else id by
    rw [hall s _ (List.nodup_finRange CAP) (by rwa [List.length_finRange])]
    exact iterMut_congr fun i _ => if_pos (List.mem_finRange i)
  clear hends
  induction ends with
  | nil =>
    intro s slots _ hlen
    rw [List.eq_nil_of_length_eq_zero (Nat.le_zero.mp hlen)]
    exact s.iterMut_id.symm
  | cons e ends ih =>
    intro s slots hnodup hlen
    rw [writeEach]
    cases htake : (take (IterMut.item? s) slots e).1 with
    | none =>
      -- no slot that is left holds a packet
      obtain ⟨hleft, hnone⟩ := take_eq_none htake
      rw [hleft, write, ih s [] List.nodup_nil (Nat.zero_le _)]
      refine iterMut_congr fun i hi => ?_
      have hnot : i ∉ slots := fun hmem =>
        hi (Option.map_eq_none_iff.mp (List.filterMap_eq_nil_iff.mp hnone i hmem))
      rw [if_neg hnot, if_neg List.not_mem_nil]
    | some j =>
      obtain ⟨slot, skipped, hslot, hskipped, hperm⟩ := take_eq_some htake
      obtain ⟨entry, -, rfl⟩ := Option.map_eq_some_iff.mp hslot
      generalize (take (IterMut.item? s) slots e).2 = left at hperm ⊢
      obtain ⟨hfresh, hrest⟩ := List.nodup_cons.mp (hperm.nodup_iff.mp hnodup)
      have hlen' : left.length ≤ ends.length := by
        have hlength := hperm.length_eq
        rw [List.length_cons, List.length_append] at hlength
        rw [List.length_cons] at hlen
        omega
      rw [write, ih _ left (List.nodup_append.mp hrest).2.1 hlen', iterMut_iterMut]
      refine iterMut_congr fun i hi => ?_
      have hskip : i ∉ skipped := fun hmem => hi (Option.map_eq_none_iff.mp (hskipped i hmem))
      have hmem : i ∈ slots ↔ i = slot ∨ i ∈ left := by
        rw [hperm.mem_iff, List.mem_cons, List.mem_append, or_iff_right hskip]
      by_cases hi' : i = slot
      · subst hi'
        have hnot : i ∉ left := fun hin => hfresh (List.mem_append_right _ hin)
        rw [Function.update_self, if_neg hnot, if_pos (hmem.mpr (.inl rfl)), Function.id_comp]
      · rw [Function.update_of_ne hi', Function.comp_id]
        simp only [hmem, hi', false_or]

end SeqEx

/-! ## What was sent and not handed back -/

/-- The data of the packet that was sent at this position. -/
def dataAt (sent : List (Packet S)) (k : ℕ) : Option S := sent[k]?.bind Packet.payload?

/-- The data at all positions is the data sent. -/
theorem filterMap_dataAt (sent : List (Packet S)) :
    (List.range sent.length).filterMap (dataAt sent) = sent.filterMap Packet.payload? := by
  conv_rhs => rw [← List.map_get_finRange sent, List.filterMap_map]
  rw [← List.map_coe_finRange_eq_range, List.filterMap_map]
  refine List.filterMap_congr fun k _ => ?_
  simp [dataAt]

/-- The data at the positions of what was handed back. -/
theorem filterMap_sentAs {base : SeqNo} {sent : List (Packet S)} {ks : List ℕ}
    {l : List (SeqNo × S)} (h : List.Forall₂ (SentAs base sent) ks l) :
    ks.filterMap (dataAt sent) = l.map Prod.snd := by
  induction h with
  | nil => rfl
  | @cons k a ks l hsent _ ih =>
    obtain ⟨-, p, hp, hdata⟩ := hsent
    have hat : dataAt sent k = some a.2 := by rw [dataAt, hp, Option.bind_some, hdata]
    rw [List.filterMap_cons_some hat, ih, List.map_cons]

namespace Books

variable [NeZero CAP] {base : SeqNo} {n : Node S R CAP} {acked replied : List ℕ}

/-- The positions that were not handed back. -/
def owed (n : Node S R CAP) (acked replied : List ℕ) : List ℕ :=
  (List.range n.history.sent.length).filter fun k => decide (k ∉ acked ++ replied)

omit [NeZero CAP] in
/-- Owed are the positions that were sent and not handed back. -/
theorem mem_owed {k : ℕ} :
    k ∈ owed n acked replied ↔ k < n.history.sent.length ∧ k ∉ acked ++ replied := by
  rw [owed, List.mem_filter, List.mem_range, decide_eq_true_iff]

/-- Every position was handed back or is owed. -/
theorem perm_range (hb : Books base n acked replied) :
    (owed n acked replied ++ (acked ++ replied)).Perm (List.range n.history.sent.length) := by
  have howed : (owed n acked replied).Nodup := List.nodup_range.filter _
  refine (List.perm_ext_iff_of_nodup (List.nodup_append.mpr ⟨howed, hb.nodup, ?_⟩)
    List.nodup_range).mpr fun k => ?_
  · rintro k hk j hj rfl
    exact (mem_owed.mp hk).2 hj
  · rw [List.mem_append, mem_owed, List.mem_range]
    by_cases hk : k ∈ acked ++ replied
    · simp [hk, hb.lt_of_mem hk]
    · simp [hk]

/-- The pending packets are at distinct positions that are owed, and at all of them when
the books are complete. -/
theorem exists_positions (hb : Books base n acked replied) :
    ∃ ks : List ℕ, ks.Nodup ∧ ks ⊆ owed n acked replied ∧
      ks.filterMap (dataAt n.history.sent) = n.seqEx.windowData ∧
      (Complete base n acked replied → owed n acked replied ⊆ ks) := by
  have hpos (i : Fin CAP) : ∃ k, ∀ p, n.seqEx.pending i = some p →
      k ∉ acked ++ replied ∧ n.history.sent[k]? = some p ∧ i = cell CAP (number base k) := by
    cases hpending : n.seqEx.pending i with
    | none => exact ⟨0, fun p hp => by cases hp⟩
    | some p =>
      obtain ⟨k, hk⟩ := hb.live i p hpending
      refine ⟨k, fun p' hp' => ?_⟩
      cases hp'
      exact hk
  choose pos hpos using hpos
  refine ⟨((List.finRange CAP).filter fun i => (n.seqEx.pending i).isSome).map pos, ?_, ?_, ?_, ?_⟩
  · refine List.Nodup.map_on (fun i hi j hj hsame => ?_) ((List.nodup_finRange CAP).filter _)
    obtain ⟨p, hp⟩ := Option.isSome_iff_exists.mp (List.mem_filter.mp hi).2
    obtain ⟨q, hq⟩ := Option.isSome_iff_exists.mp (List.mem_filter.mp hj).2
    rw [(hpos i p hp).2.2, (hpos j q hq).2.2, hsame]
  · intro k hk
    obtain ⟨i, hi, rfl⟩ := List.mem_map.mp hk
    obtain ⟨p, hp⟩ := Option.isSome_iff_exists.mp (List.mem_filter.mp hi).2
    obtain ⟨hnot, hsent, -⟩ := hpos i p hp
    exact mem_owed.mpr ⟨(List.getElem?_eq_some_iff.mp hsent).1, hnot⟩
  · rw [List.filterMap_map, List.filterMap_filter, n.seqEx.windowData_eq]
    refine List.filterMap_congr fun i _ => ?_
    cases hp : n.seqEx.pending i with
    | none => rfl
    | some p =>
      rw [Option.isSome_some, if_pos rfl, Function.comp_apply, dataAt, (hpos i p hp).2.1]
  · intro hc k hk
    obtain ⟨hlt, hnot⟩ := mem_owed.mp hk
    have hp := hc.pending k _ (List.getElem?_eq_getElem hlt) hnot
    obtain ⟨hnot', hsent', hcell⟩ := hpos _ _ hp
    have hsame : pos (cell CAP (number base k)) = k :=
      hc.apart _ _ (List.getElem?_eq_some_iff.mp hsent').1 hlt hnot' hnot hcell.symm
    refine List.mem_map.mpr ⟨cell CAP (number base k),
      List.mem_filter.mpr ⟨List.mem_finRange _, ?_⟩, hsame⟩
    rw [hp, Option.isSome_some]

/-- What is pending and what was handed back was sent, and it is all that was sent when the
books are complete. -/
theorem data (hb : Books base n acked replied) :
    (n.seqEx.windowData ++ (n.history.acks.map Prod.snd ++
        n.history.replies.map Prod.snd)).Subperm (n.history.sent.filterMap Packet.payload?) ∧
      (Complete base n acked replied →
        (n.seqEx.windowData ++ (n.history.acks.map Prod.snd ++
          n.history.replies.map Prod.snd)).Perm (n.history.sent.filterMap Packet.payload?)) := by
  obtain ⟨ks, hnodup, hks, hdata, hall⟩ := hb.exists_positions
  rw [← filterMap_dataAt, ← filterMap_sentAs hb.acks, ← filterMap_sentAs hb.replies, ← hdata,
    ← List.filterMap_append, ← List.filterMap_append]
  constructor
  · have hsub : (ks ++ (acked ++ replied)).Subperm (List.range n.history.sent.length) :=
      ((List.subperm_append_right _).mpr (hnodup.subperm hks)).trans hb.perm_range.subperm
    obtain ⟨l, hl, hsub⟩ := hsub
    exact ⟨_, hl.filterMap _, hsub.filterMap _⟩
  · intro hc
    have hperm : ks.Perm (owed n acked replied) :=
      (List.perm_ext_iff_of_nodup hnodup (List.nodup_range.filter _)).mpr fun k =>
        ⟨fun hk => hks hk, fun hk => hall hc hk⟩
    exact ((hperm.append_right _).trans hb.perm_range).filterMap _

end Books

namespace Node

variable [NeZero CAP]

/-- In every run, whatever the packets: enough calls of `next` and `next_back` on `iter`,
however they are mixed, yield the data of distinct packets that were sent and not handed
back. While no packet is processed under a false exemption, they yield the data of all
such packets: with what was handed back it is the data of every packet sent, once. -/
theorem iter_yields_owed (hC : ∃ e ≥ 2, CAP = 2 ^ e) (interval : Int64) (initialSeqNo : SeqNo)
    (cs : List (Call S R)) {ends : List WalkEnd} (hends : CAP ≤ ends.length)
    {n : Node S R CAP} (hn : n = (new interval initialSeqNo).performAll cs) :
    ((n.seqEx.iter ends).fronts ++ (n.seqEx.iter ends).backs ++ (n.history.acks.map Prod.snd ++
        n.history.replies.map Prod.snd)).Subperm (n.history.sent.filterMap Packet.payload?) ∧
      (Allowed (fun (u : Node S R CAP) c => u.seqEx.NoFalseExemption c) perform
          (new interval initialSeqNo) cs →
        ((n.seqEx.iter ends).fronts ++ (n.seqEx.iter ends).backs ++
          (n.history.acks.map Prod.snd ++ n.history.replies.map Prod.snd)).Perm
            (n.history.sent.filterMap Packet.payload?)) := by
  subst hn
  have hyields (n : Node S R CAP) :
      ((n.seqEx.iter ends).fronts ++ (n.seqEx.iter ends).backs).Perm n.seqEx.windowData := by
    rw [← n.seqEx.iter_spec hends]
    exact (List.reverse_perm _).symm.append_left _
  constructor
  · have hstart : Books initialSeqNo (new interval initialSeqNo : Node S R CAP) [] [] :=
      Books.start interval initialSeqNo
    obtain ⟨acked, replied, hbooks⟩ := hstart.performAll cs
    exact ((hyields _).append_right _).subperm.trans hbooks.data.1
  · intro hallowed
    obtain ⟨e, he, rfl⟩ := hC
    have htwo : 2 ≤ 2 ^ e := le_trans (by decide) (Nat.pow_le_pow_right (by decide) he)
    have hpending := (Pending.start interval initialSeqNo).performAll ⟨e, rfl⟩ htwo hallowed
    obtain ⟨acked, replied, hbooks, hcomplete⟩ := hpending.books
    exact ((hyields _).append_right _).trans (hbooks.data.2 hcomplete)

/-- One packet is acknowledged and one replied to; two are left, and they are yielded from
both ends. -/
def twoLeft : List (Call ℕ ℕ) :=
  [.trySend 0 false fun _ => 70, .trySend 0 false fun _ => 71, .receive (.ack 0),
    .trySend 0 false fun _ => 72, .receive (.reply 0 1 80), .trySend 0 false fun _ => 73]

/-- Two packets are left, and both ends yield them once. -/
theorem iter_yields_owed_twoLeft :
    ((((new 100 0 : Node ℕ ℕ 4).performAll twoLeft).seqEx.iter
          [.back, .front, .back, .back]).fronts ++
        (((new 100 0 : Node ℕ ℕ 4).performAll twoLeft).seqEx.iter
          [.back, .front, .back, .back]).backs ++
        (((new 100 0 : Node ℕ ℕ 4).performAll twoLeft).history.acks.map Prod.snd ++
          ((new 100 0 : Node ℕ ℕ 4).performAll twoLeft).history.replies.map Prod.snd)).Perm
      (((new 100 0 : Node ℕ ℕ 4).performAll twoLeft).history.sent.filterMap Packet.payload?) :=
  (iter_yields_owed ⟨2, le_rfl, rfl⟩ 100 0 twoLeft (by decide) rfl).2 (by decide)

example : (((new 100 0 : Node ℕ ℕ 4).performAll twoLeft).seqEx.iter [.back, .front]).fronts = [72] ∧
    (((new 100 0 : Node ℕ ℕ 4).performAll twoLeft).seqEx.iter [.back, .front]).backs = [73] := by
  decide

end Node

end SequentialExchange
