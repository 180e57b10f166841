import LemolaOs.Library.Transition
import LemolaOs.Library.Resumption
import LemolaOs.Library.Questions
import LemolaOs.Library.RoundUp
import LemolaOs.Library.Emit
import LemolaOs.Library.Writes
import LemolaOs.Library.CycleRing
import LemolaOs.Library.Walk
import LemolaOs.Library.Lines
import LemolaOs.Library.Fuel
import LemolaOs.Library.RoundRobin
import LemolaOs.Library.Loops
import LemolaOs.Library.Attempt
import LemolaOs.Library.TypedMemory
import LemolaOs.Library.LastMax
import LemolaOs.Library.Radix
import LemolaOs.Rust
import LemolaOs.KernelLib.Allocator
import LemolaOs.KernelLib.Placement
import LemolaOs.KernelLib.BumpAllocator
import LemolaOs.KernelLib.FixedLengthAllocator
import LemolaOs.KernelLib.Exhaustion
import LemolaOs.KernelLib.AllocArray
import LemolaOs.KernelLib.Pixel
import LemolaOs.KernelLib.Console.Writer
import LemolaOs.KernelLib.Console.Cursor
import LemolaOs.KernelLib.Console.Terminal
import LemolaOs.KernelLib.Console.Screen
import LemolaOs.KernelLib.Layer
import LemolaOs.KernelLib.Clipping
import LemolaOs.KernelLib.LayerStack
import LemolaOs.KernelLib.Compositing
import LemolaOs.KernelLib.RowCopy
import LemolaOs.KernelLib.Logger
import LemolaOs.KernelLib.WriteTo
import LemolaOs.KernelLib.Render
import LemolaOs.KernelLib.Painting
import LemolaOs.Lifegame.Process
import LemolaOs.Lifegame.Click
import LemolaOs.Xhci.Trb
import LemolaOs.Xhci.ProducerRing
import LemolaOs.Xhci.ProducerProtocol
import LemolaOs.Xhci.InterruptRing
import LemolaOs.Xhci.InterruptProtocol
import LemolaOs.Xhci.InterruptWindows
import LemolaOs.Xhci.EventRing
import LemolaOs.Xhci.EventDelivery
import LemolaOs.Xhci.Futures
import LemolaOs.Xhci.DeferredEvents
import LemolaOs.Usb.ClassDriver
import LemolaOs.Usb.Descriptor
import LemolaOs.Usb.EndpointSelection
import LemolaOs.Usb.RawDescriptor
import LemolaOs.Usb.Searchers
import LemolaOs.Xhci.Controller.State
import LemolaOs.Xhci.Controller.Handlers
import LemolaOs.Xhci.Controller.Volatile
import LemolaOs.Xhci.Controller.Deadlock
import LemolaOs.Xhci.Controller.Specs
import LemolaOs.Xhci.Controller.PollForever
import LemolaOs.Xhci.Controller.Exclusion
import LemolaOs.Xhci.Controller.Enumeration
import LemolaOs.Xhci.Controller.Dispatch
import LemolaOs.Xhci.Controller.SlotLedger
import LemolaOs.Xhci.Controller.Slots
import LemolaOs.Xhci.Controller.Disconnect
import LemolaOs.Xhci.Controller.DeviceContexts
import LemolaOs.Xhci.Route
import LemolaOs.Multitasking.Executor
import LemolaOs.Pci.Register
import LemolaOs.Pci.Scan
import LemolaOs.Pci.Msi
import LemolaOs.BitField
import LemolaOs.Pci.CapabilityList
import LemolaOs.Pci.Configure
import LemolaOs.Bootloader.Load
import LemolaOs.Common.MemMap
import LemolaOs.Bootloader.MemoryMap
import LemolaOs.Usb.Transfer
import LemolaOs.Usb.EndpointConfiguration
import LemolaOs.Usb.Host
import LemolaOs.Usb.InputOnlyDevice
import LemolaOs.Usb.HubDevice
import LemolaOs.Usb.DriverAtomicity
import LemolaOs.Usb.HubEnumeration
import LemolaOs.Usb.InputDriver
import LemolaOs.Usb.ObligingHost
import LemolaOs.Usb.TickUntilRunning
import LemolaOs.Kernel.Heap
import LemolaOs.GenFont
import LemolaOs.KernelLib.Shapes
import LemolaOs.Usb.Callbacks
import LemolaOs.Lifegame.Task
import LemolaOs.Kernel.DesktopView
import LemolaOs.KernelLib.Console.Text
import LemolaOs.Library.Simulation
import LemolaOs.Kernel.DesktopScreen
import LemolaOs.Kernel.MouseReports
import LemolaOs.Kernel.Serial
import LemolaOs.Usb.ControlTransfer
import LemolaOs.Usb.ControlPipe
import LemolaOs.Library.Inevitable
import LemolaOs.Usb.ControlPipeProgress
import LemolaOs.Usb.Identification
import LemolaOs.Usb.PipePort
import LemolaOs.Library.SlotTable
import LemolaOs.Usb.DriverTable
import LemolaOs.Usb.DriverViews
import LemolaOs.Kernel.ConsoleScreen
import LemolaOs.Pci.XhciDevice
