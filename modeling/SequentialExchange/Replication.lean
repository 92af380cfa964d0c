import SequentialExchange.FlowControl
import SequentialExchange.SyncNetwork

/-!
# Replication by SeqCst packets

`calculator.rs` keeps a value at both peers. One applies its operations to its own value
and sends them as SeqCst packets, and the other applies what it receives. Over any
network, and with any number of threads on either side, the second value is at every
moment one that the first has had, and it lags behind no operation that was settled.
-/

namespace SequentialExchange

open WrapNumbering GuardedRuns Exchange

variable {S R σ : Type*} {cap : Side → ℕ} [∀ x, NeZero (cap x)]

/-- The data that comes back to the sender. -/
def RecvOkRaw.sendData? : RecvOkRaw S R → Option S
  | .reply _ _ _ sendData | .ack sendData => some sendData
  | .payload _ _ _ => none

section Endpoint

variable {CAP : ℕ} [NeZero CAP] {base : SeqNo} {encode : S → R} {sentB : List (Packet S)}
  {s : SeqEx S R CAP} {h : History S R} {A : Party}

end Endpoint

namespace Session

variable {encode : S → R} {interval : Side → Int64} {base : SeqNo} {s : Session S R cap}

end Session

namespace Sync.Network

/-- The step sends no normal packet. -/
def SendsSeqCst (s : Network S R cap) (e : Step S R) : Prop :=
  ∀ ev ∈ s.event? e, Session.AllSeqCst ev

/-- The flag is part of the step. -/
instance decidableSendsSeqCst (s : Network S R cap) (e : Step S R) : Decidable (s.SendsSeqCst e) :=
  decidable_of_iff ((s.event? e).all (fun ev => decide (Session.AllSeqCst ev)) = true) (by
    cases h : s.event? e <;> simp [SendsSeqCst, h])

/-- The data that was returned to the application of `x` as settled. -/
def settled (s : Network S R cap) (x : Side) : List S :=
  (s.returned x).filterMap RecvOkRaw.sendData?

section Runs

variable {encode : S → R} {interval : Side → Int64} {base : SeqNo} {s : Network S R cap}

/-- Such a step is a run of the session with SeqCst packets only. -/
theorem SendsSeqCst.reaches {e : Step S R} (h : s.Possible e) (hcst : s.SendsSeqCst e) :
    Reaches (fun (u : Session S R cap) ev => u.Possible ev ∧ Session.AllSeqCst ev)
      (Session.perform encode) s.session (s.perform encode e).session := by
  rw [session_perform]
  cases hev : s.event? e with
  | some ev => exact Reaches.single ⟨h.event ev hev, hcst ev hev⟩
  | none => exact Reaches.refl

end Runs

end Sync.Network

end SequentialExchange
