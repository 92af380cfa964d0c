import SequentialExchange.Calls
import SequentialExchange.GuardedRuns

/-!
# A session of two peers over an unreliable network

Two endpoints exchange packets through a network that keeps, per sender, the
packets in flight. A delivery leaves its packet in flight, so that it can be
delivered again, and a packet can be lost at any time; any order is possible.
The applications may make every call at every moment.
-/

namespace SequentialExchange

open WrapNumbering GuardedRuns

/-- The two peers of a session. -/
inductive Side where
  /-- One peer. -/
  | a
  /-- The other peer. -/
  | b
  deriving DecidableEq, Repr

/-- The remote peer. -/
def Side.peer : Side → Side
  | .a => .b
  | .b => .a

/-- The peer of the peer. -/
@[simp] theorem Side.peer_peer (x : Side) : x.peer.peer = x := by cases x <;> rfl

/-- Nobody is their own peer. -/
@[simp] theorem Side.peer_ne (x : Side) : x.peer ≠ x := by cases x <;> nofun

/-- The same the other way round. -/
@[simp] theorem Side.ne_peer (x : Side) : x ≠ x.peer := by cases x <;> nofun

/-- There are two sides. -/
theorem Side.eq_or_eq_peer (x y : Side) : y = x ∨ y = x.peer := by
  cases x <;> cases y <;> simp [Side.peer]

/-- What holds on both sides holds on each. -/
theorem Side.forall {p : Side → Prop} : (∀ x, p x) ↔ p .a ∧ p .b :=
  ⟨fun h => ⟨h .a, h .b⟩, fun h x => by cases x; exacts [h.1, h.2]⟩

/-- Two sides can be checked. -/
instance Side.decidableForall {p : Side → Prop} [DecidablePred p] : Decidable (∀ x, p x) :=
  decidable_of_iff _ Side.forall.symm

/-- An endpoint with what its application has seen. -/
structure Node (S R : Type*) (CAP : ℕ) where
  /-- The state machine. -/
  seqEx : SeqEx S R CAP
  /-- The calls made on it so far. -/
  history : History S R

/-- The global state. -/
structure Session (S R : Type*) (cap : Side → ℕ) where
  /-- The two endpoints. -/
  node : (x : Side) → Node S R (cap x)
  /-- For each peer, the packets it sent that are in flight. -/
  net : Side → List (Packet R)

/-- What can happen in a session. -/
inductive Event (S R : Type*) where
  /-- The application of a peer makes a call. -/
  | call (x : Side) (c : Call S R)
  /-- The network loses a packet that was sent by a peer. -/
  | lose (x : Side) (i : ℕ)

namespace Session

variable {S R : Type*} {cap : Side → ℕ} [∀ x, NeZero (cap x)]

/-- A fresh session: both peers were given the same initial number. -/
def start (interval : Side → Int64) (initialSeqNo : SeqNo) : Session S R cap where
  node x := ⟨SeqEx.new (interval x) initialSeqNo, History.empty⟩
  net _ := []

/-- Perform one event; `encode` is the serialization of the user. -/
def perform (encode : S → R) (s : Session S R cap) : Event S R → Session S R cap
  | .call x c =>
    let r := (s.node x).seqEx.call c
    { node := Function.update s.node x
        ⟨r.2, (s.node x).history.record ((s.node x).seqEx.input? c) r.1⟩
      net := Function.update s.net x (s.net x ++ r.1.emitted.map (Packet.map encode)) }
  | .lose x i => { s with net := Function.update s.net x ((s.net x).eraseIdx i) }

/-- The network hands over only packets that are in flight. -/
def Possible (s : Session S R cap) : Event S R → Prop
  | .call x (.receive p) => p ∈ s.net x.peer
  | _ => True

/-- A packet can arrive if it is under way. -/
instance decidablePossible [DecidableEq R] (s : Session S R cap) :
    ∀ e, Decidable (s.Possible e)
  | .call x (.receive p) => inferInstanceAs (Decidable (p ∈ s.net x.peer))
  | .call _ (.trySend ..) | .call _ .pump | .call _ (.reply ..) | .call _ (.ack ..)
  | .call _ .unlock | .call _ (.serviceDirect ..) | .call _ (.service ..) | .lose .. =>
    isTrue trivial

/-- The number of packets a peer has sent. -/
def sentCount (s : Session S R cap) (x : Side) : ℕ := (s.node x).history.sent.length

end Session

end SequentialExchange
