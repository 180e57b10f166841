import LemolaOs.Library.CycleRing
import LemolaOs.Library.Transition
import LemolaOs.Xhci.Trb

/-!
# The rings on which the driver produces

`CommandRing` and `TransferRing` hand TRBs to the controller through a buffer in
shared memory whose last slot is a Link TRB back to the first. Both `push`
functions are the same code on the same three fields; they are `ProducerRing.push`
below.

The controller may look at the buffer between any two word writes. `Shared` is
the state of both parties: the driver's ring, the memory, the writes of a `push`
in progress that are still to come, and the controller's dequeue index and cycle
state.
-/

namespace LemolaOs.Xhci

/-- A boxed slice of TRBs. A Rust allocation has at most `isize::MAX` bytes. -/
structure TrbBuffer where
  ptr : Nat
  len : Nat
  fits : len * 16 < 2 ^ 63

/-- The fields shared by the two producer rings. -/
structure ProducerRing where
  trbBuffer : TrbBuffer
  writeIndex : Nat
  cycleBit : Bool

/-- `self.trb_buffer[index]`. -/
def TrbBuffer.index (buffer : TrbBuffer) (index : Nat) : Rust Nat :=
  if index < buffer.len then .ok (buffer.ptr + index * 16) else .error .outOfRange

namespace ProducerRing

def new (trbBuffer : TrbBuffer) : ProducerRing := ⟨trbBuffer, 0, true⟩

/-- `push`: the words it writes, in order, the ring afterwards and the pointer it
returns. -/
def push (links : LinkTrb) (r : ProducerRing) (cmd : TrbRaw) :
    Rust (List WordWrite × ProducerRing × Nat) := do
  let cmd := cmd.setCycleBit r.cycleBit
  let trbPtr ← r.trbBuffer.index r.writeIndex
  let writes := TrbRaw.writeInOrder r.writeIndex cmd
  let writeIndex ← usizeAdd r.writeIndex 1
  let last ← usizeSub r.trbBuffer.len 1
  if writeIndex = last then
    -- reached end of the ring
    let link := (links.backTo r.trbBuffer.ptr).setCycleBit r.cycleBit
    let _ ← r.trbBuffer.index writeIndex
    .ok (writes ++ TrbRaw.writeInOrder writeIndex link,
      { r with writeIndex := 0, cycleBit := !r.cycleBit }, trbPtr)
  else
    .ok (writes, { r with writeIndex }, trbPtr)

end ProducerRing

/-- `CommandRing`. -/
structure CommandRing extends ProducerRing

def CommandRing.new (trbBuffer : TrbBuffer) : CommandRing := ⟨.new trbBuffer⟩

def CommandRing.push (links : LinkTrb) (r : CommandRing) (cmd : TrbRaw) :
    Rust (List WordWrite × CommandRing × Nat) := do
  let (writes, ring, trbPtr) ← r.toProducerRing.push links cmd
  .ok (writes, ⟨ring⟩, trbPtr)

/-- `TransferRing`. `push` does not touch `cycle_count`. -/
structure TransferRing extends ProducerRing where
  cycleCount : Nat

def TransferRing.new (trbBuffer : TrbBuffer) : TransferRing := ⟨.new trbBuffer, 0⟩

def TransferRing.push (links : LinkTrb) (r : TransferRing) (cmd : TrbRaw) :
    Rust (List WordWrite × TransferRing × Nat) := do
  let (writes, ring, trbPtr) ← r.toProducerRing.push links cmd
  .ok (writes, ⟨ring, r.cycleCount⟩, trbPtr)

/-- Driver and controller at one ring. `pushed` and `executed` record the arguments of
the calls of `push` and the TRBs the controller has executed, as it read them. -/
structure Shared (ρ : Type) where
  ring : ρ
  memory : Nat → TrbRaw
  pending : List WordWrite
  pushed : List TrbRaw
  dequeue : Nat
  ccs : Bool
  executed : List TrbRaw

namespace Shared

inductive Label where
  | push (trb : TrbRaw)
  | write
  | execute
  | follow
  deriving DecidableEq

def Label.isController : Label → Bool
  | .push _ | .write => false
  | .execute | .follow => true

variable {ρ : Type}

/-- A call of `push` begins when the previous one has made all its writes; the writes of
a call and the steps of the controller come in any order. -/
inductive Step (links : LinkTrb) (push : ρ → TrbRaw → Rust (List WordWrite × ρ × Nat)) :
    Shared ρ → Label → Shared ρ → Prop where
  | push {s : Shared ρ} {trb : TrbRaw} {writes : List WordWrite} {ring : ρ} {ptr : Nat}
      (idle : s.pending = []) (notLink : links.isLink trb = false)
      (h : push s.ring trb = .ok (writes, ring, ptr)) :
      Step links push s (.push trb)
        { s with ring := ring, pending := writes, pushed := s.pushed ++ [trb] }
  | write {s : Shared ρ} {d : WordWrite} {rest : List WordWrite} (h : s.pending = d :: rest) :
      Step links push s .write { s with memory := d.apply s.memory, pending := rest }
  | execute {s : Shared ρ} (owned : (s.memory s.dequeue).cycleBit = s.ccs)
      (notLink : links.isLink (s.memory s.dequeue) = false) :
      Step links push s .execute
        { s with executed := s.executed ++ [s.memory s.dequeue], dequeue := s.dequeue + 1 }
  | follow {s : Shared ρ} (owned : (s.memory s.dequeue).cycleBit = s.ccs)
      (link : links.isLink (s.memory s.dequeue) = true) :
      Step links push s .follow { s with dequeue := 0, ccs := !s.ccs }

/-- The pushed TRBs of which every word is in memory. The Link TRB goes to the last slot,
so a write elsewhere belongs to the TRB that is being pushed. -/
def written (n : Nat) (pending : List WordWrite) (pushed : List TrbRaw) : List TrbRaw :=
  if pending.any fun d => d.slot != n - 1 then pushed.dropLast else pushed

/-- The pushed TRBs with the cycle bit of the lap in which they were pushed. -/
def stamped (n : Nat) (trbs : List TrbRaw) : List TrbRaw :=
  trbs.mapIdx fun k trb => trb.setCycleBit (lapBit (n - 1) k)

/-- At most `n - 2` pushed TRBs are unexecuted. -/
def Bounded (n : Nat) (s : Shared ρ) : Prop :=
  (written n s.pending s.pushed).length ≤ s.executed.length + (n - 2)

def start (ring : ρ) : Shared ρ := ⟨ring, fun _ => .zero, [], [], 0, true, []⟩

/-- Every history of pushes and controller steps on a fresh ring of `n` slots that stays
within the bound. -/
def system (links : LinkTrb) (push : ρ → TrbRaw → Rust (List WordWrite × ρ × Nat)) (ring : ρ)
    (n : Nat) : System (Shared ρ) Label where
  init s := s = start ring
  step s i t := Step links push s i t ∧ t.Bounded n

end Shared

end LemolaOs.Xhci
