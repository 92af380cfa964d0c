import SequentialExchange.WrapNumbering

/-!
# Packets of the transport layer

The wire format of `transport_layer.rs`: the five packet variants, the raw
constructor, and the two operations used when a window entry is turned back
into a packet. Serialization itself is left to the user of the protocol.
-/

namespace SequentialExchange

/-- A 32-bit sequence number. -/
abbrev SeqNo := UInt32

/-- `Packet<RecvData>`. -/
inductive Packet (RecvData : Type*) where
  /-- A normal payload with its sequence number. -/
  | payload (seqNo : SeqNo) (data : RecvData)
  /-- A payload delivered in order relative to other SeqCst packets. -/
  | seqCstPayload (seqNo : SeqNo) (data : RecvData)
  /-- A normal reply: its own sequence number, then the number it replies to. -/
  | reply (seqNo replyNo : SeqNo) (data : RecvData)
  /-- A reply delivered in order relative to other SeqCst packets. -/
  | seqCstReply (seqNo replyNo : SeqNo) (data : RecvData)
  /-- The acknowledgement that ends an exchange. -/
  | ack (replyNo : SeqNo)
  deriving DecidableEq, Repr

namespace Packet

variable {D E : Type*}

/-- `Packet::new`: the raw parts, when they describe some packet. -/
def new : Option SeqNo → Option SeqNo → Bool → Option D → Option (Packet D)
  | some s, none, false, some d => some (payload s d)
  | some s, none, true, some d => some (seqCstPayload s d)
  | some s, some r, false, some d => some (reply s r d)
  | some s, some r, true, some d => some (seqCstReply s r d)
  | none, some r, false, none => some (ack r)
  | _, _, _, _ => none

/-- `Packet::new_with_data`, whose `unwrap` always succeeds. -/
def newWithData (seqNo : SeqNo) (replyNo : Option SeqNo) (seqCst : Bool) (data : D) : Packet D :=
  match replyNo, seqCst with
  | none, false => payload seqNo data
  | none, true => seqCstPayload seqNo data
  | some r, false => reply seqNo r data
  | some r, true => seqCstReply seqNo r data

/-- The `unwrap` in `new_with_data` never fails. -/
theorem new_newWithData (seqNo : SeqNo) (replyNo : Option SeqNo) (seqCst : Bool) (data : D) :
    new (some seqNo) replyNo seqCst (some data) =
      some (newWithData seqNo replyNo seqCst data) := by
  cases replyNo <;> cases seqCst <;> rfl

/-- `Packet::map`. -/
def map (f : D → E) : Packet D → Packet E
  | payload s d => payload s (f d)
  | seqCstPayload s d => seqCstPayload s (f d)
  | reply s r d => reply s r (f d)
  | seqCstReply s r d => seqCstReply s r (f d)
  | ack r => ack r

/-- `Packet::is_seq_cst`. -/
def isSeqCst : Packet D → Bool
  | seqCstPayload _ _ | seqCstReply _ _ _ => true
  | _ => false

/-- `Packet::set_seq_cst`. -/
def setSeqCst (seqCst : Bool) : Packet D → Packet D
  | payload s d | seqCstPayload s d => if seqCst then seqCstPayload s d else payload s d
  | reply s r d | seqCstReply s r d => if seqCst then seqCstReply s r d else reply s r d
  | ack r => ack r

/-- The sequence number of a payload or reply. -/
def seqNo? : Packet D → Option SeqNo
  | payload s _ | seqCstPayload s _ | reply s _ _ | seqCstReply s _ _ => some s
  | ack _ => none

/-- The number a reply or an acknowledgement names. -/
def replyNo? : Packet D → Option SeqNo
  | reply _ r _ | seqCstReply _ r _ | ack r => some r
  | payload _ _ | seqCstPayload _ _ => none

/-- `Packet::payload`: the data of a payload or reply. -/
def payload? : Packet D → Option D
  | payload _ d | seqCstPayload _ d | reply _ _ d | seqCstReply _ _ d => some d
  | ack _ => none

section NewWithData

variable (s : SeqNo) (r : Option SeqNo) (c : Bool) (d : D)

/-- The number of a packet made from its parts. -/
@[simp] theorem seqNo?_newWithData : (newWithData s r c d).seqNo? = some s := by
  cases r <;> cases c <;> rfl

/-- The number that it answers. -/
@[simp] theorem replyNo?_newWithData : (newWithData s r c d).replyNo? = r := by
  cases r <;> cases c <;> rfl

/-- Its flag. -/
@[simp] theorem isSeqCst_newWithData : (newWithData s r c d).isSeqCst = c := by
  cases r <;> cases c <;> rfl

/-- Its data. -/
@[simp] theorem payload?_newWithData : (newWithData s r c d).payload? = some d := by
  cases r <;> cases c <;> rfl

/-- Mapping changes the data only. -/
@[simp] theorem map_newWithData (f : D → E) :
    (newWithData s r c d).map f = newWithData s r c (f d) := by
  cases r <;> cases c <;> rfl

/-- A packet with data is no acknowledgement. -/
@[simp] theorem newWithData_ne_ack (a : SeqNo) : newWithData s r c d ≠ ack a := by
  cases r <;> cases c <;> nofun

end NewWithData

/-- The raw parts of a packet with data determine it. -/
@[simp] theorem newWithData_inj {s s' : SeqNo} {r r' : Option SeqNo} {c c' : Bool} {d d' : D} :
    newWithData s r c d = newWithData s' r' c' d' ↔ s = s' ∧ r = r' ∧ c = c' ∧ d = d' := by
  constructor
  · intro h
    have hs := congrArg seqNo? h
    have hr := congrArg replyNo? h
    have hc := congrArg isSeqCst h
    have hd := congrArg payload? h
    simp only [seqNo?_newWithData, replyNo?_newWithData, isSeqCst_newWithData,
      payload?_newWithData, Option.some.injEq] at hs hr hc hd
    exact ⟨hs, hr, hc, hd⟩
  · rintro ⟨rfl, rfl, rfl, rfl⟩
    rfl

/-- Every packet is an acknowledgement or carries data. -/
theorem eq_ack_or_newWithData (p : Packet D) :
    (∃ r, p = ack r) ∨ ∃ s r c d, p = newWithData s r c d := by
  cases p with
  | payload s d => exact .inr ⟨s, none, false, d, rfl⟩
  | seqCstPayload s d => exact .inr ⟨s, none, true, d, rfl⟩
  | reply s r d => exact .inr ⟨s, some r, false, d, rfl⟩
  | seqCstReply s r d => exact .inr ⟨s, some r, true, d, rfl⟩
  | ack r => exact .inl ⟨r, rfl⟩

end Packet

end SequentialExchange
