import ArmoniOS.Console.ParseSigned
import ArmoniOS.Console.Pointer
import ArmoniOS.Fat32.Faults
import ArmoniOS.Gui.Capacity
import ArmoniOS.Gui.FailedCalls
import ArmoniOS.Gui.Focus
import ArmoniOS.Gui.HitTest
import ArmoniOS.Gui.Repaint
import ArmoniOS.Ipc.Queue
import ArmoniOS.Irq.Mask
import ArmoniOS.Libkarm.Decimal
import ArmoniOS.Libkarm.File
import ArmoniOS.Mm.KheapRuns
import ArmoniOS.Mm.PmmRuns
import ArmoniOS.Mm.VmmRanges
import ArmoniOS.Net.Ipv4Header
import ArmoniOS.Net.VirtioNetQueues
import ArmoniOS.Process.Runs
import ArmoniOS.Process.Waiting
import ArmoniOS.Runtime.Redraw
import ArmoniOS.Shell.Cat
import ArmoniOS.Storage.BlockDevice
import ArmoniOS.Storage.VirtioBlkCalls
import ArmoniOS.Tmpfs.Refinement
import ArmoniOS.Tools.Mkfat32Image
import ArmoniOS.Usb.HidReleases
import ArmoniOS.Usb.XhciTransfers
import ArmoniOS.Vfs.Coherence
import ArmoniOS.Vfs.FailedOpen
import ArmoniOS.Vfs.Listing
import ArmoniOS.Vfs.MountStatic
import ArmoniOS.Vfs.Mounts
