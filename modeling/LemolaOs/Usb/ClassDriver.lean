import LemolaOs.Rust

/-!
# The class drivers and the slots they serve

`ClassDriverManager` has one driver for mice, one for keyboards and one for hubs.
Each driver keeps a table of devices by address, but only one slot: that of the
device added last. `driver_kind` decides by this slot which driver gets a report.
-/

namespace LemolaOs.Usb

inductive DriverKind where
  | mouse
  | keyboard
  | hub
  deriving DecidableEq, Repr

/-- `DriverInfo`, with the addresses in the driver's table of `maxDevices` entries. The table itself
is that of `ClassDriver` (`DriverInfo.info_shows`). -/
structure DriverInfo where
  slotId : Option Nat
  devices : List Nat
  maxDevices : Nat
  deriving DecidableEq, Repr

/-- The body of the `add_device!` macro. Every driver wants every device. The slot is set
before the driver may turn out to be full. -/
def DriverInfo.addDevice (info : DriverInfo) (slotId addr : Nat) : Bool × DriverInfo :=
  let info := { info with slotId := some slotId }
  if info.devices.length < info.maxDevices then
    (true, { info with devices := info.devices ++ [addr] })
  else (false, info)

structure ClassDriverManager where
  mouse : DriverInfo
  keyboard : DriverInfo
  hub : DriverInfo
  deriving DecidableEq, Repr

namespace ClassDriverManager

/-- `ClassDriverManager::new`, for tables of the given sizes. -/
def new (mice keyboards hubs : Nat) : ClassDriverManager :=
  ⟨⟨none, [], mice⟩, ⟨none, [], keyboards⟩, ⟨none, [], hubs⟩⟩

def addMouseDevice (m : ClassDriverManager) (slotId addr : Nat) : Bool × ClassDriverManager :=
  let (ok, mouse) := m.mouse.addDevice slotId addr
  (ok, { m with mouse })

def addKeyboardDevice (m : ClassDriverManager) (slotId addr : Nat) : Bool × ClassDriverManager :=
  let (ok, keyboard) := m.keyboard.addDevice slotId addr
  (ok, { m with keyboard })

def addHubDevice (m : ClassDriverManager) (slotId addr : Nat) : Bool × ClassDriverManager :=
  let (ok, hub) := m.hub.addDevice slotId addr
  (ok, { m with hub })

/-- The three by kind. -/
def addDevice (m : ClassDriverManager) : DriverKind → Nat → Nat → Bool × ClassDriverManager
  | .mouse => m.addMouseDevice
  | .keyboard => m.addKeyboardDevice
  | .hub => m.addHubDevice

/-- `driver_kind`: the mouse is asked first, and a hub is never the answer. -/
def driverKind (m : ClassDriverManager) (slotId : Nat) : Option DriverKind :=
  if m.mouse.slotId = some slotId then some .mouse
  else if m.keyboard.slotId = some slotId then some .keyboard
  else none

variable {m m' : ClassDriverManager} {slotId : Nat}

theorem driverKind_eq_none_iff :
    m.driverKind slotId = none ↔
      m.mouse.slotId ≠ some slotId ∧ m.keyboard.slotId ≠ some slotId := by
  grind [driverKind]

theorem driverKind_eq_mouse_iff :
    m.driverKind slotId = some .mouse ↔ m.mouse.slotId = some slotId := by
  grind [driverKind]

theorem driverKind_eq_keyboard_iff :
    m.driverKind slotId = some .keyboard ↔
      m.mouse.slotId ≠ some slotId ∧ m.keyboard.slotId = some slotId := by
  grind [driverKind]

/-- The answer depends on the two slots only. -/
theorem driverKind_congr (hmouse : m.mouse.slotId = some slotId ↔ m'.mouse.slotId = some slotId)
    (hkeyboard : m.keyboard.slotId = some slotId ↔ m'.keyboard.slotId = some slotId) :
    m.driverKind slotId = m'.driverKind slotId := by
  simp only [driverKind, hmouse, hkeyboard]

@[simp] theorem addDevice_slotId (info : DriverInfo) (slotId addr : Nat) :
    (info.addDevice slotId addr).2.slotId = some slotId := by
  simp only [DriverInfo.addDevice]
  split <;> rfl

theorem addDevice_mouse_slotId (m : ClassDriverManager) (kind : DriverKind) (slotId addr : Nat) :
    (m.addDevice kind slotId addr).2.mouse.slotId =
      if kind = .mouse then some slotId else m.mouse.slotId := by
  cases kind <;> simp [addDevice, addMouseDevice, addKeyboardDevice, addHubDevice]

theorem addDevice_keyboard_slotId (m : ClassDriverManager) (kind : DriverKind)
    (slotId addr : Nat) :
    (m.addDevice kind slotId addr).2.keyboard.slotId =
      if kind = .keyboard then some slotId else m.keyboard.slotId := by
  cases kind <;> simp [addDevice, addMouseDevice, addKeyboardDevice, addHubDevice]

end ClassDriverManager

end LemolaOs.Usb
