import Psplink.Lib.System
import Psplink.Lib.Effect
import Psplink.HostFs.Containment
import Psplink.HostFs.Wire
import Psplink.HostFs.Capability
import Psplink.HostFs.Authenticity
import Psplink.HostFs.Lockstep
import Psplink.HostFs.BulkTarget
import Psplink.HostFs.InputBounds
import Psplink.HostFs.AsyncRings
import Psplink.HostFs.AsyncUnregister
import Psplink.HostFs.AsyncDelivery
import Psplink.HostFs.DriveMap
import Psplink.HostFs.Relay
import Psplink.Debug.Breakpoints
import Psplink.Gdb.StepBreakpoints
import Psplink.Gdb.Putpacket
import Psplink.Gdb.RoundTrip
import Psplink.Kernel.HookStub
import Psplink.Exception.Current
import Psplink.Exception.Resume
import Psplink.Gdb.Traps
import Psplink.Shell.Delivery
import Psplink.HostFs.Normal
import Psplink.HostFs.PathBounds
import Psplink.HostFs.RemoteRead
import Psplink.HostFs.RemoteWrite
import Psplink.Util.Reader
import Psplink.Config.Rewrite
import Psplink.Config.Load
import Psplink.Shell.Exec
import Psplink.HostFs.Nocase
import Psplink.HostFs.Enumeration
import Psplink.HostFs.Attributes
import Psplink.HostFs.Rename
import Psplink.Gdb.Recovery
import Psplink.Gdb.HardwareBreakpoints
import Psplink.Shell.ArgAccess
import Psplink.Shell.Quoting
import Psplink.Debug.DisasmBounds
import Psplink.Debug.StepDisasm
import Psplink.Shell.Script
import Psplink.Util.Handlepath
import Psplink.Symbols.Tables
import Psplink.Symbols.Naming
import Psplink.Address.Acceptance
import Psplink.Address.FailedLookups
import Psplink.Memory.Search
import Psplink.Memory.Dump
import Psplink.Memory.Commands
import Psplink.Kernel.MemoryUID
import Psplink.Display.Bitmap
import Psplink.Shell.Blocks
import Psplink.Shell.Prompt
import Psplink.Pcterm.ReadSocket
import Psplink.Pcterm.Terminal
import Psplink.Shell.Interpreter
import Psplink.Shell.NetShell
import Psplink.Kprintf.Driver
import Psplink.Tty.Stdin
import Psplink.Shell.LineEditor
import Psplink.Usb.Drivers
import Psplink.Shell.Copy
import Psplink.Shell.Remove
import Psplink.Shell.SetReg
import Psplink.Exception.Contexts
import Psplink.Kernel.LibraryTables
import Psplink.HostFs.BulkLoops
import Psplink.Address.LineValues
import Psplink.RemoteJoy.Agreement
import Psplink.RemoteJoy.Controller
