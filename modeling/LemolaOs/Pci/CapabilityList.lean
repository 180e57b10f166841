import Mathlib.Data.FinEnum
import LemolaOs.Library.Fuel
import LemolaOs.Library.Walk
import LemolaOs.Pci.Msi

/-!
# Following the capability list

`MsiCapabilityIterator` of `kernel/src/pci.rs`. The capabilities of a function are
linked by one-byte pointers that the device supplies, and the iterator follows them
until a null pointer: a loop inside `next` goes past the capabilities that are not MSI,
and the caller's `for` loop goes on from the one that was found. Every capability is
read as an MSI record, of the layout that its header gives.

`Follows` is one step along the list, `forEach_*` says what the two loops make of a
step, and `iterationEnds_iff` when there are finitely many of them.
-/

namespace LemolaOs.Pci

open Relation

structure MsiCapabilityIterator where
  currentCapAddr : UInt8
  deriving DecidableEq

namespace MsiCapabilityIterator

def new (capAddr : UInt8) : MsiCapabilityIterator := ⟨capAddr⟩

/-- The loop of `next` over the capabilities that are not MSI. -/
def skip (space : ConfigSpace) (device : PciDevice) (currentCapAddr : UInt8)
    (cap : MsiCapability) : Nat →
    Fueled Panic (Option (UInt8 × MsiCapability) × MsiCapabilityIterator)
  | 0 => .out
  | fuel + 1 =>
    if cap.capabilityId ≠ 0x05 then
      let currentCapAddr := cap.nextPointer
      if currentCapAddr = 0 then return (none, ⟨currentCapAddr⟩)
      else do
        let cap ← .lift (MsiCapability.new space device currentCapAddr)
        skip space device currentCapAddr cap fuel
    else return (some (currentCapAddr, cap), ⟨cap.nextPointer⟩)

def next (space : ConfigSpace) (device : PciDevice) (iter : MsiCapabilityIterator) (fuel : Nat) :
    Fueled Panic (Option (UInt8 × MsiCapability) × MsiCapabilityIterator) :=
  if iter.currentCapAddr = 0 then return (none, iter)
  else do
    let cap ← .lift (MsiCapability.new space device iter.currentCapAddr)
    skip space device iter.currentCapAddr cap fuel

/-- `for (cap_addr, msi_cap) in iter`, with a body that works on a state. The iterator reads
the configuration space as the body left it. -/
def forEach {σ : Type} (device : PciDevice) (space : σ → ConfigSpace)
    (body : σ → UInt8 × MsiCapability → Rust σ) (iter : MsiCapabilityIterator) (s : σ) :
    Nat → Fueled Panic σ
  | 0 => .out
  | fuel + 1 => do
    let (item, iter) ← iter.next (space s) device fuel
    match item with
    | none => return s
    | some item => do
      let s ← .lift (body s item)
      forEach device space body iter s fuel

end MsiCapabilityIterator

section reading

variable {space : ConfigSpace} {device : PciDevice} {a b : UInt8}

/-- The MSI record at an address. -/
def capAt (space : ConfigSpace) (device : PciDevice) (a : UInt8) : MsiCapability :=
  .ofReads fun k => device.readConfigurationSpace space (a + .ofNat k)

/-- The registers of the layout that the header gives are below `0x100`. -/
def Readable (space : ConfigSpace) (device : PciDevice) (a : UInt8) : Prop :=
  a.toNat + (capAt space device a).lastOffset < 256

instance (space : ConfigSpace) (device : PciDevice) (a : UInt8) :
    Decidable (Readable space device a) := inferInstanceAs (Decidable (_ < _))

theorem new_of_readable (h : Readable space device a) :
    MsiCapability.new space device a = .ok (capAt space device a) := by
  rw [MsiCapability.new_eq_ite]
  exact if_pos h

theorem new_of_not_readable (h : ¬ Readable space device a) :
    MsiCapability.new space device a = .error .overflow := by
  rw [MsiCapability.new_eq_ite]
  exact if_neg h

/-- One step along the list. -/
def Follows (space : ConfigSpace) (device : PciDevice) (a b : UInt8) : Prop :=
  a ≠ 0 ∧ Readable space device a ∧ (capAt space device a).nextPointer = b

end reading

namespace MsiCapabilityIterator

variable {space : ConfigSpace} {device : PciDevice} {a b : UInt8}

/-- The capability at an address is an MSI capability. -/
def IsMsi (space : ConfigSpace) (device : PciDevice) (a : UInt8) : Prop :=
  (capAt space device a).capabilityId = 0x05

instance (space : ConfigSpace) (device : PciDevice) (a : UInt8) :
    Decidable (IsMsi space device a) := inferInstanceAs (Decidable (_ = _))

section next

theorem next_not_readable (ha : a ≠ 0) (h : ¬ Readable space device a) (fuel : Nat) :
    next space device ⟨a⟩ fuel = .lift (.error .overflow) := by
  rw [next, if_neg ha, new_of_not_readable h]
  rfl

theorem next_msi (ha : a ≠ 0) (h : Readable space device a) (hmsi : IsMsi space device a)
    (fuel : Nat) :
    next space device ⟨a⟩ (fuel + 1) =
      .lift (.ok (some (a, capAt space device a), ⟨(capAt space device a).nextPointer⟩)) := by
  rw [next, if_neg ha, new_of_readable h, Fueled.lift_ok_bind, skip]
  exact if_neg (not_not.mpr hmsi)

/-- A capability that is not MSI is passed over. -/
theorem next_other (ha : a ≠ 0) (h : Readable space device a) (hmsi : ¬ IsMsi space device a)
    (fuel : Nat) :
    next space device ⟨a⟩ (fuel + 1) =
      next space device ⟨(capAt space device a).nextPointer⟩ fuel := by
  rw [next, if_neg ha, new_of_readable h, Fueled.lift_ok_bind, skip]
  exact if_pos hmsi

theorem skip_le_succ (a : UInt8) (cap : MsiCapability) (fuel : Nat) :
    skip space device a cap fuel ≤ skip space device a cap (fuel + 1) := by
  induction fuel generalizing a cap with
  | zero => exact Fueled.out_le _
  | succ fuel ih =>
      rw [skip, skip]
      split
      · dsimp only
        split
        · exact le_refl _
        · exact Fueled.bind_mono (le_refl _) fun cap => ih _ cap
      · exact le_refl _

theorem next_monotone (iter : MsiCapabilityIterator) : Monotone (next space device iter) := by
  refine monotone_nat_of_le_succ fun fuel => ?_
  rw [next, next]
  split
  · exact le_refl _
  · exact Fueled.bind_mono (le_refl _) fun cap => skip_le_succ _ cap fuel

variable {out : Rust (Option (UInt8 × MsiCapability) × MsiCapabilityIterator)}

theorem returns_next_null :
    Returns (next space device ⟨0⟩) out ↔ out = .ok (none, ⟨0⟩) := returns_lift

theorem returns_next_not_readable (ha : a ≠ 0) (h : ¬ Readable space device a) :
    Returns (next space device ⟨a⟩) out ↔ out = .error .overflow := by
  rw [funext (next_not_readable ha h)]
  exact returns_lift

theorem returns_next_msi (ha : a ≠ 0) (h : Readable space device a) (hmsi : IsMsi space device a) :
    Returns (next space device ⟨a⟩) out ↔
      out = .ok (some (a, capAt space device a), ⟨(capAt space device a).nextPointer⟩) := by
  rw [← returns_succ (next_monotone _)]
  simp only [next_msi ha h hmsi, returns_lift]

theorem returns_next_other (ha : a ≠ 0) (h : Readable space device a)
    (hmsi : ¬ IsMsi space device a) :
    Returns (next space device ⟨a⟩) out ↔
      Returns (next space device ⟨(capAt space device a).nextPointer⟩) out := by
  rw [← returns_succ (next_monotone _)]
  simp only [next_other ha h hmsi]

end next

section forEach

variable {σ : Type} {spaceOf : σ → ConfigSpace} {body : σ → UInt8 × MsiCapability → Rust σ} {s : σ}
variable {r : Rust σ}

theorem forEach_le_succ (iter : MsiCapabilityIterator) (s : σ) (fuel : Nat) :
    forEach device spaceOf body iter s fuel ≤ forEach device spaceOf body iter s (fuel + 1) := by
  induction fuel generalizing iter s with
  | zero => exact Fueled.out_le _
  | succ fuel ih =>
      rw [forEach, forEach]
      refine Fueled.bind_mono (next_monotone iter (Nat.le_succ fuel)) fun found => ?_
      obtain ⟨item, iter⟩ := found
      cases item with
      | none => exact le_refl _
      | some item => exact Fueled.bind_mono (le_refl _) fun s => ih iter s

theorem forEach_monotone (iter : MsiCapabilityIterator) (s : σ) :
    Monotone (forEach device spaceOf body iter s) :=
  monotone_nat_of_le_succ (forEach_le_succ iter s)

/-- The rest of a round, behind `next`. -/
def afterNext (device : PciDevice) (spaceOf : σ → ConfigSpace)
    (body : σ → UInt8 × MsiCapability → Rust σ) (s : σ) (fuel : Nat)
    (found : Option (UInt8 × MsiCapability) × MsiCapabilityIterator) : Fueled Panic σ :=
  match found.1 with
  | none => .lift (.ok s)
  | some item => do
    let s ← .lift (body s item)
    forEach device spaceOf body found.2 s fuel

theorem afterNext_monotone (s : σ)
    (found : Option (UInt8 × MsiCapability) × MsiCapabilityIterator) :
    Monotone fun fuel => afterNext device spaceOf body s fuel found := by
  obtain ⟨item, iter⟩ := found
  cases item with
  | none => exact monotone_const
  | some item =>
      exact fun m n hmn => Fueled.bind_mono (le_refl _) fun s => forEach_monotone iter s hmn

/-- The loop returns as `next` and the rest of the round do. -/
theorem returns_forEach_iff (iter : MsiCapabilityIterator) :
    Returns (forEach device spaceOf body iter s) r ↔
      (∃ e, Returns (iter.next (spaceOf s) device) (.error e) ∧ r = .error e) ∨
      ∃ found, Returns (iter.next (spaceOf s) device) (.ok found) ∧
        Returns (fun fuel => afterNext device spaceOf body s fuel found) r := by
  rw [← returns_succ (forEach_monotone iter s)]
  exact returns_bind (next_monotone iter) (afterNext_monotone s)

theorem returns_forEach_null : Returns (forEach device spaceOf body ⟨0⟩ s) r ↔ r = .ok s := by
  simp only [returns_forEach_iff, returns_next_null, reduceCtorEq, false_and, exists_false,
    false_or, Except.ok.injEq, exists_eq_left, afterNext, returns_lift]

theorem returns_forEach_not_readable (spaceOf : σ → ConfigSpace) (s : σ) (ha : a ≠ 0)
    (h : ¬ Readable (spaceOf s) device a) :
    Returns (forEach device spaceOf body ⟨a⟩ s) r ↔ r = .error .overflow := by
  simp only [returns_forEach_iff, returns_next_not_readable ha h, reduceCtorEq, false_and,
    exists_false, or_false, Except.error.injEq, exists_eq_left]

theorem returns_forEach_other (spaceOf : σ → ConfigSpace) (s : σ) (ha : a ≠ 0)
    (h : Readable (spaceOf s) device a) (hmsi : ¬ IsMsi (spaceOf s) device a) :
    Returns (forEach device spaceOf body ⟨a⟩ s) r ↔
      Returns (forEach device spaceOf body ⟨(capAt (spaceOf s) device a).nextPointer⟩ s) r := by
  simp only [returns_forEach_iff, returns_next_other ha h hmsi]

theorem returns_forEach_msi (spaceOf : σ → ConfigSpace) (s : σ) (ha : a ≠ 0)
    (h : Readable (spaceOf s) device a) (hmsi : IsMsi (spaceOf s) device a) {s' : σ}
    (hbody : body s (a, capAt (spaceOf s) device a) = .ok s') :
    Returns (forEach device spaceOf body ⟨a⟩ s) r ↔
      Returns (forEach device spaceOf body ⟨(capAt (spaceOf s) device a).nextPointer⟩ s') r := by
  simp only [returns_forEach_iff ⟨a⟩, returns_next_msi ha h hmsi, reduceCtorEq, false_and,
    exists_false, false_or, Except.ok.injEq, exists_eq_left, afterNext, hbody, Fueled.lift_ok_bind]

end forEach

section termination

/-- Iterating to the end, with the items found. -/
def collect (space : ConfigSpace) (device : PciDevice) (iter : MsiCapabilityIterator) :
    Nat → Fueled Panic (List (UInt8 × MsiCapability)) :=
  forEach device (fun _ => space) (fun items item => .ok (items ++ [item])) iter []

/-- Every call of `next` returns, and after finitely many items there are no more. A panic ends
the iteration too. -/
def IterationEnds (space : ConfigSpace) (device : PciDevice) (capAddr : UInt8) : Prop :=
  ∃ r, Returns (collect space device (.new capAddr)) r

variable {fuel : Nat}

theorem acc_of_forall_not_follows (h : ∀ b, ¬ Follows space device a b) :
    Acc (fun c b => Follows space device b c) a := ⟨a, fun b hb => absurd hb (h b)⟩

theorem acc_of_next_pointer
    (h : Acc (fun c b => Follows space device b c) (capAt space device a).nextPointer) :
    Acc (fun c b => Follows space device b c) a := by
  constructor
  rintro b ⟨-, -, rfl⟩
  exact h

/-- A call of `next` that returns has come to the end of the list, or to a capability. -/
theorem acc_of_next {found : Rust (Option (UInt8 × MsiCapability) × MsiCapabilityIterator)}
    (h : next space device ⟨a⟩ fuel = .lift found)
    (hrest : ∀ item iter, found = .ok (some item, iter) →
      Acc (fun c b => Follows space device b c) iter.currentCapAddr) :
    Acc (fun c b => Follows space device b c) a := by
  induction fuel generalizing a with
  | zero =>
      refine acc_of_forall_not_follows fun b hb => ?_
      rw [next, if_neg hb.1, new_of_readable hb.2.1] at h
      exact absurd h Fueled.out_ne_lift
  | succ fuel ih =>
      by_cases ha : a = 0
      · exact acc_of_forall_not_follows fun b hb => hb.1 ha
      by_cases hread : Readable space device a
      · apply acc_of_next_pointer
        by_cases hmsi : IsMsi space device a
        · rw [next_msi ha hread hmsi, Fueled.lift_inj] at h
          exact hrest _ _ h.symm
        · rw [next_other ha hread hmsi] at h
          exact ih h
      · exact acc_of_forall_not_follows fun b hb => hread hb.2.1

theorem acc_of_forEach {σ : Type} {body : σ → UInt8 × MsiCapability → Rust σ} {s : σ} {r : Rust σ}
    (hbody : ∀ s item, ∃ s', body s item = .ok s')
    (h : forEach device (fun _ => space) body ⟨a⟩ s fuel = .lift r) :
    Acc (fun c b => Follows space device b c) a := by
  induction fuel generalizing a s with
  | zero => exact absurd h Fueled.out_ne_lift
  | succ fuel ih =>
      rw [forEach] at h
      cases hnext : next space device ⟨a⟩ fuel with
      | none =>
          rw [hnext] at h
          exact absurd h Fueled.out_ne_lift
      | some found =>
          refine acc_of_next hnext ?_
          rintro item ⟨b⟩ rfl
          obtain ⟨s', hs'⟩ := hbody s item
          rw [hnext] at h
          change (Fueled.lift (body s item) >>= _) = _ at h
          rw [hs', Fueled.lift_ok_bind] at h
          exact ih h

theorem exists_returns_of_acc {σ : Type} {body : σ → UInt8 × MsiCapability → Rust σ}
    (hbody : ∀ s item, ∃ s', body s item = .ok s')
    (h : Acc (fun c b => Follows space device b c) a) (s : σ) :
    ∃ r, Returns (forEach device (fun _ => space) body ⟨a⟩ s) r := by
  induction h generalizing s with
  | intro a _ ih =>
      by_cases ha : a = 0
      · subst ha
        exact ⟨.ok s, returns_forEach_null.mpr rfl⟩
      by_cases hread : Readable space device a
      · have hfollows : Follows space device a (capAt space device a).nextPointer :=
          ⟨ha, hread, rfl⟩
        by_cases hmsi : IsMsi space device a
        · obtain ⟨s', hs'⟩ := hbody s (a, capAt space device a)
          obtain ⟨r, hr⟩ := ih _ hfollows s'
          exact ⟨r, (returns_forEach_msi (fun _ => space) s ha hread hmsi hs').mpr hr⟩
        · obtain ⟨r, hr⟩ := ih _ hfollows s
          exact ⟨r, (returns_forEach_other (fun _ => space) s ha hread hmsi).mpr hr⟩
      · exact ⟨_, (returns_forEach_not_readable (fun _ => space) s ha hread).mpr rfl⟩

theorem iterationEnds_iff_acc :
    IterationEnds space device a ↔ Acc (fun c b => Follows space device b c) a := by
  constructor
  · rintro ⟨r, fuel, h⟩
    exact acc_of_forEach (fun items item => ⟨_, rfl⟩) h
  · exact fun h => exists_returns_of_acc (fun items item => ⟨_, rfl⟩) h []

/-- The iteration ends exactly if the pointers lead to no cycle. -/
theorem iterationEnds_iff (space : ConfigSpace) (device : PciDevice) (capAddr : UInt8) :
    IterationEnds space device capAddr ↔
      ∀ c, ReflTransGen (Follows space device) capAddr c → ¬ TransGen (Follows space device) c c :=
  iterationEnds_iff_acc.trans acc_iff_no_cycle

/-- A power management capability at `0x40` that points to itself. -/
def selfLinked : ConfigSpace := fun _ _ _ register => if register = 0x40 then 0x4001 else 0

theorem self_link_never_ends :
    ¬ ∀ (space : ConfigSpace) (device : PciDevice) (capAddr : UInt8),
      IterationEnds space device capAddr := by
  intro h
  have hacc := iterationEnds_iff_acc.mp (h selfLinked (.new selfLinked 0 1 0) 0x40)
  have hself : Follows selfLinked (.new selfLinked 0 1 0) 0x40 0x40 := by
    refine ⟨by decide, ?_, ?_⟩
    · rw [Readable]
      decide +kernel
    · decide +kernel
  exact no_cycle_of_acc hacc (.single hself)

end termination

end MsiCapabilityIterator

end LemolaOs.Pci
