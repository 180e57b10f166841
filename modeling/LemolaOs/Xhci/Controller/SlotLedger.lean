import LemolaOs.Xhci.Controller.Enumeration

/-!
# The ledger of the device slots

The controller hands out a slot in its answer to `EnableSlot` and takes it back when
it answers `DisableSlot`. In between the answer waits in a queue, and then the slot
has a device. A completion says only in which entry of the command ring its command
was, and the driver reads the command back from there.

The ledger says what holds of the commands in flight: they are in different entries,
no two answers hand out the same slot, and a slot that an answer hands out has no
device, unless it is the one that is just being disabled. It is stated over the part
of the controller on which it depends (`Books`), so whatever leaves that part alone
leaves the ledger.
-/

namespace LemolaOs.Xhci.Controller

/-- The commands of `start_initialization`. -/
def Plan (ops : List HostOp) : Prop :=
  ∀ cmd, .command cmd ∈ ops →
    (∃ slotId, cmd = .configureEndpoint slotId) ∨ ∃ slotId, cmd = .evaluateContext slotId

/-- The commands in flight, the devices, and what the devices will ask for. -/
structure Books where
  outstanding : List Nat
  unprocessed : List CommandCompletion
  commandAt : Nat → Option Command
  device : Nat → Option Device
  maxSlots : Nat
  initialization : Nat → List HostOp

namespace Books

/-- The answer to an `EnableSlot` command that hands out a slot. -/
def Grants (b : Books) (completion : CommandCompletion) : Prop :=
  b.commandAt completion.commandTrbPointer = some .enableSlot ∧
    completion.completionCode = success

instance (b : Books) (completion : CommandCompletion) : Decidable (b.Grants completion) :=
  inferInstanceAs (Decidable (_ ∧ _))

/-- The entries of the command ring that are in use: the command has not been answered, or
its completion has not been processed. Some completions are at hand. -/
def inFlight (b : Books) (hand : List CommandCompletion) : List Nat :=
  b.outstanding ++ (hand ++ b.unprocessed).map (·.commandTrbPointer)

/-- The controller has enabled a slot and not disabled it since. -/
def Enabled (b : Books) (slotId : Nat) : Prop :=
  (∃ completion ∈ b.unprocessed, b.Grants completion ∧ completion.slotId = slotId) ∨
  (b.device slotId ≠ none ∧ ∀ completion ∈ b.unprocessed,
    b.commandAt completion.commandTrbPointer ≠ some (.disableSlot slotId))

instance (b : Books) (slotId : Nat) : Decidable (b.Enabled slotId) :=
  inferInstanceAs (Decidable (_ ∨ _))

@[simps] def setUnprocessed (b : Books) (unprocessed : List CommandCompletion) : Books :=
  { b with unprocessed := unprocessed }

@[simps] def setDevice (b : Books) (slotId : Nat) (device : Option Device) : Books :=
  { b with device := Function.update b.device slotId device }

/-- A command is written to an entry of the ring. -/
@[simps] def issue (b : Books) (entry : Nat) (cmd : Command) : Books :=
  { b with
    outstanding := b.outstanding ++ [entry]
    commandAt := Function.update b.commandAt entry (some cmd) }

/-- A command is answered. -/
@[simps] def answer (b : Books) (completion : CommandCompletion) : Books :=
  { b with
    outstanding := b.outstanding.erase completion.commandTrbPointer
    unprocessed := completion :: b.unprocessed }

end Books

/-- The ledger, with some completions at hand. The entry `awaited` has the only `DisableSlot`
command in flight, and `away` is the slot that it disables. -/
structure Ledger (b : Books) (hand : List CommandCompletion)
    (awaited away : Option Nat) : Prop where
  nodup : (b.inFlight hand).Nodup
  grants : ∀ completion ∈ hand ++ b.unprocessed, b.Grants completion →
    completion.slotId ≤ b.maxSlots ∧
      (b.device completion.slotId = none ∨ away = some completion.slotId)
  distinct : (hand ++ b.unprocessed).Pairwise fun completion completion' =>
    b.Grants completion → b.Grants completion' → completion.slotId ≠ completion'.slotId
  disables : ∀ entry ∈ b.inFlight hand, ∀ slotId, b.commandAt entry = some (.disableSlot slotId) →
    awaited = some entry ∧ away = some slotId
  decodable : ∀ completion ∈ hand ++ b.unprocessed, ∀ slotId,
    b.commandAt completion.commandTrbPointer = some (.disableSlot slotId) →
      (completionCode completion.completionCode).isSome
  range : ∀ slotId, b.device slotId ≠ none → slotId ≤ b.maxSlots
  plans : ∀ slotId, Plan (b.initialization slotId)

namespace Ledger

variable {b : Books} {hand hand' unprocessed : List CommandCompletion} {awaited away : Option Nat}
  {completion : CommandCompletion} {entry slotId : Nat}

/-- Completions change places. -/
theorem perm (h : Ledger b hand awaited away)
    (hperm : (hand' ++ unprocessed).Perm (hand ++ b.unprocessed)) :
    Ledger (b.setUnprocessed unprocessed) hand' awaited away := by
  have hflight : ((b.setUnprocessed unprocessed).inFlight hand').Perm (b.inFlight hand) :=
    (hperm.map _).append_left _
  have hsymm {c c' : CommandCompletion}
      (hne : b.Grants c → b.Grants c' → c.slotId ≠ c'.slotId) :
      b.Grants c' → b.Grants c → c'.slotId ≠ c.slotId := fun hc' hc => (hne hc hc').symm
  refine ⟨hflight.nodup_iff.mpr h.nodup, ?_, (hperm.pairwise_iff hsymm).mpr h.distinct, ?_,
    ?_, h.range, h.plans⟩
  · exact fun completion hmem => h.grants completion (hperm.mem_iff.mp hmem)
  · exact fun entry hmem => h.disables entry (hflight.mem_iff.mp hmem)
  · exact fun completion hmem => h.decodable completion (hperm.mem_iff.mp hmem)

/-- A completion at hand is done with. -/
theorem drop (h : Ledger b (completion :: hand) awaited away) : Ledger b hand awaited away := by
  have hsub : (b.inFlight hand).Sublist (b.inFlight (completion :: hand)) :=
    (List.sublist_cons_self _ _).append_left _
  refine ⟨h.nodup.sublist hsub, ?_, h.distinct.of_cons, ?_, ?_, h.range, h.plans⟩
  · exact fun other hmem => h.grants other (List.mem_cons_of_mem _ hmem)
  · exact fun entry hmem => h.disables entry (hsub.subset hmem)
  · exact fun other hmem => h.decodable other (List.mem_cons_of_mem _ hmem)

/-- Nothing is being disabled, so it does not matter what is awaited. -/
theorem await (h : Ledger b hand awaited none) (awaited' : Option Nat) :
    Ledger b hand awaited' none := by
  refine ⟨h.nodup, h.grants, h.distinct, ?_, h.decodable, h.range, h.plans⟩
  intro entry hmem slotId hcmd
  cases (h.disables entry hmem slotId hcmd).2

/-- A slot is about to be disabled. -/
theorem leave (h : Ledger b hand none away) (away' : Option Nat)
    (haway : ∀ slotId, away = some slotId → away' = some slotId) : Ledger b hand none away' := by
  refine ⟨h.nodup, ?_, h.distinct, ?_, h.decodable, h.range, h.plans⟩
  · intro completion hmem hgrants
    obtain ⟨hrange, hnone | hslot⟩ := h.grants completion hmem hgrants
    · exact ⟨hrange, .inl hnone⟩
    · exact ⟨hrange, .inr (haway _ hslot)⟩
  · intro entry hmem slotId hcmd
    cases (h.disables entry hmem slotId hcmd).1

/-- The completion that was awaited is done with. -/
theorem settle (h : Ledger b [completion] (some completion.commandTrbPointer) away) :
    Ledger b [] none away := by
  have hmine : completion.commandTrbPointer ∉ b.inFlight [] := by
    have hnodup := h.nodup
    rw [Books.inFlight, List.singleton_append, List.map_cons, List.nodup_middle,
      List.nodup_cons] at hnodup
    exact hnodup.1
  have hrest := h.drop
  refine ⟨hrest.nodup, hrest.grants, hrest.distinct, ?_, hrest.decodable, hrest.range, hrest.plans⟩
  intro entry hmem slotId hcmd
  obtain ⟨hentry, _⟩ := hrest.disables entry hmem slotId hcmd
  exact absurd ((Option.some.inj hentry).symm ▸ hmem) hmine

/-- A command is issued to an entry that is not in use. Only the slot that is away may be
disabled. -/
theorem issue {cmd : Command} (h : Ledger b [] none away)
    (hnodup : ((b.issue entry cmd).inFlight []).Nodup)
    (hcmd : ∀ slotId, cmd = .disableSlot slotId → awaited = some entry ∧ away = some slotId) :
    Ledger (b.issue entry cmd) [] awaited away := by
  have hfree : entry ∉ b.inFlight [] := by
    have hmiddle := hnodup
    rw [Books.inFlight, Books.issue_outstanding, List.append_assoc, List.singleton_append,
      List.nodup_middle, List.nodup_cons] at hmiddle
    exact hmiddle.1
  have hkeep {other : Nat} (hmem : other ∈ b.inFlight []) :
      (b.issue entry cmd).commandAt other = b.commandAt other := by
    apply Function.update_of_ne
    rintro rfl
    exact hfree hmem
  have hread {completion : CommandCompletion} (hmem : completion ∈ b.unprocessed) :
      (b.issue entry cmd).commandAt completion.commandTrbPointer =
        b.commandAt completion.commandTrbPointer :=
    hkeep (List.mem_append_right _ (List.mem_map_of_mem hmem))
  have hgrant {completion : CommandCompletion} (hmem : completion ∈ b.unprocessed) :
      (b.issue entry cmd).Grants completion ↔ b.Grants completion := by
    rw [Books.Grants, Books.Grants, hread hmem]
  refine ⟨hnodup, ?_, ?_, ?_, ?_, h.range, h.plans⟩
  · exact fun completion hmem hgrants => h.grants completion hmem ((hgrant hmem).mp hgrants)
  · refine h.distinct.imp_of_mem ?_
    intro c c' hc hc' hne hgrants hgrants'
    exact hne ((hgrant hc).mp hgrants) ((hgrant hc').mp hgrants')
  · intro other hmem slotId hdisable
    by_cases heq : other = entry
    · subst heq
      apply hcmd
      simpa using hdisable
    · have hold : other ∈ b.inFlight [] := by
        simpa [Books.inFlight, heq] using hmem
      rw [hkeep hold] at hdisable
      cases (h.disables other hold slotId hdisable).1
  · intro completion hmem slotId hcmd
    rw [hread hmem] at hcmd
    exact h.decodable completion hmem slotId hcmd

/-- A slot that was handed out gets its device. -/
theorem allocate {device : Device} (h : Ledger b [completion] awaited none)
    (hgrants : b.Grants completion) :
    Ledger (b.setDevice completion.slotId (some device)) [] awaited none := by
  obtain ⟨hfirst, hrest⟩ := List.pairwise_cons.mp h.distinct
  refine ⟨h.drop.nodup, ?_, hrest, h.drop.disables, h.drop.decodable, ?_, h.plans⟩
  · intro other hmem hother
    have hne : other.slotId ≠ completion.slotId := (hfirst other hmem hgrants hother).symm
    rw [Books.setDevice_device, Function.update_of_ne hne]
    exact h.drop.grants other hmem hother
  · intro slotId hdevice
    by_cases heq : slotId = completion.slotId
    · subst heq
      exact (h.grants completion List.mem_cons_self hgrants).1
    · rw [Books.setDevice_device, Function.update_of_ne heq] at hdevice
      exact h.range slotId hdevice

/-- The slot that is away loses its device. -/
theorem free (h : Ledger b [] none (some slotId)) :
    Ledger (b.setDevice slotId none) [] none none := by
  refine ⟨h.nodup, ?_, h.distinct, ?_, h.decodable, ?_, h.plans⟩
  · intro completion hmem hgrants
    obtain ⟨hrange, hplace⟩ := h.grants completion hmem hgrants
    refine ⟨hrange, .inl ?_⟩
    by_cases heq : completion.slotId = slotId
    · rw [Books.setDevice_device, heq, Function.update_self]
    · obtain hnone | hslot := hplace
      · rw [Books.setDevice_device, Function.update_of_ne heq]
        exact hnone
      · exact absurd (Option.some.inj hslot).symm heq
  · intro entry hmem slotId hcmd
    cases (h.disables entry hmem slotId hcmd).1
  · intro other hdevice
    by_cases heq : other = slotId
    · simp [heq] at hdevice
    · rw [Books.setDevice_device, Function.update_of_ne heq] at hdevice
      exact h.range other hdevice

/-- The commands in flight are the same before and after an answer. -/
theorem inFlight_answer (houtstanding : completion.commandTrbPointer ∈ b.outstanding) :
    ((b.answer completion).inFlight []).Perm (b.inFlight []) := by
  have hmiddle : ((b.answer completion).inFlight []).Perm
      (completion.commandTrbPointer :: (b.outstanding.erase completion.commandTrbPointer ++
        b.unprocessed.map (·.commandTrbPointer))) := List.perm_middle
  exact hmiddle.trans ((List.perm_cons_erase houtstanding).symm.append_right _)

/-- A command is answered; a slot that is handed out is not enabled. -/
theorem answer (h : Ledger b [] awaited away)
    (houtstanding : completion.commandTrbPointer ∈ b.outstanding)
    (hgrants : b.Grants completion →
      completion.slotId ≤ b.maxSlots ∧ ¬ b.Enabled completion.slotId)
    (hdecodable : ∀ slotId, b.commandAt completion.commandTrbPointer = some (.disableSlot slotId) →
      (completionCode completion.completionCode).isSome) :
    Ledger (b.answer completion) [] awaited away := by
  have hflight := inFlight_answer houtstanding
  refine ⟨hflight.nodup_iff.mpr h.nodup, ?_, ?_, ?_, ?_, h.range, h.plans⟩
  · intro other hmem hother
    rw [List.nil_append, Books.answer_unprocessed, List.mem_cons] at hmem
    obtain rfl | hmem := hmem
    · obtain ⟨hrange, hdisabled⟩ := hgrants hother
      refine ⟨hrange, ?_⟩
      by_cases hnone : b.device other.slotId = none
      · exact .inl hnone
      -- the slot has a device, so its `DisableSlot` has been answered: it is the one away
      · have hanswered : ∃ c ∈ b.unprocessed,
            b.commandAt c.commandTrbPointer = some (.disableSlot other.slotId) := by
          by_contra hnever
          refine hdisabled (.inr ⟨hnone, fun c hc hcmd => hnever ⟨c, hc, hcmd⟩⟩)
        obtain ⟨c, hc, hcmd⟩ := hanswered
        refine .inr (h.disables _ ?_ _ hcmd).2
        exact List.mem_append_right _ (List.mem_map_of_mem hc)
    · exact h.grants other hmem hother
  · refine List.pairwise_cons.mpr ⟨?_, h.distinct⟩
    intro other hmem hnew hother heq
    exact (hgrants hnew).2 (.inl ⟨other, hmem, hother, heq.symm⟩)
  · exact fun entry hmem => h.disables entry (hflight.mem_iff.mp hmem)
  · intro other hmem
    rw [List.nil_append, Books.answer_unprocessed, List.mem_cons] at hmem
    obtain rfl | hmem := hmem
    · exact hdecodable
    · exact h.decodable other hmem

end Ledger

end LemolaOs.Xhci.Controller
