import AmigaDevbench.Daemon.Base64
import AmigaDevbench.Daemon.Connection
import AmigaDevbench.Daemon.Debugger.Snapshots
import AmigaDevbench.Daemon.Debugger.Stops
import AmigaDevbench.Daemon.Debugger.Transparency
import AmigaDevbench.Daemon.HexPayload
import AmigaDevbench.Daemon.InputInject
import AmigaDevbench.Daemon.MemorySearch
import AmigaDevbench.Daemon.Patches
import AmigaDevbench.Daemon.ProcessSignal
import AmigaDevbench.Daemon.ProtectedRanges
import AmigaDevbench.Daemon.ScreenshotSink
import AmigaDevbench.Daemon.ScriptFile
import AmigaDevbench.Daemon.Snoop
import AmigaDevbench.Host.Disasm.Boundaries
import AmigaDevbench.Host.LlmProxy
import AmigaDevbench.Host.ReceptionCuts
import AmigaDevbench.Host.Subscribers
import AmigaDevbench.Host.Winuae.AutoSnapshots
import AmigaDevbench.Host.Winuae.Dwarf.Backtrace
import AmigaDevbench.Host.Winuae.HunkImages
import AmigaDevbench.Host.Winuae.MemorySearch
import AmigaDevbench.Link.Checksum
import AmigaDevbench.Link.ClearBreakpoint
import AmigaDevbench.Link.ClientNames
import AmigaDevbench.Link.DirListing
import AmigaDevbench.Link.FileReply
import AmigaDevbench.Link.GdbStops
import AmigaDevbench.Link.Inventory
import AmigaDevbench.Link.LogFraming
import AmigaDevbench.Link.PushFile
import AmigaDevbench.Link.Records
import AmigaDevbench.Link.RegistryMirror
import AmigaDevbench.Link.Reports
import AmigaDevbench.Link.RunLength
import AmigaDevbench.Link.ScriptOutput
import AmigaDevbench.Link.SourceStep
import AmigaDevbench.Link.TailStream
import AmigaDevbench.Core.Backlog
import AmigaDevbench.Core.FloodFill
import AmigaDevbench.Core.Keyed
import AmigaDevbench.Core.Scan
import AmigaDevbench.Host.Delivery
import AmigaDevbench.Host.ScreenshotDiff
import AmigaDevbench.Host.Symbols.StructDef
import AmigaDevbench.Host.Winuae.Dwarf.SubObjects
import AmigaDevbench.Host.Winuae.Dwarf.TypeBudget
import AmigaDevbench.Host.Winuae.Dwarf.Variable
import AmigaDevbench.Host.Winuae.Rsp
import AmigaDevbench.Host.Winuae.StackPointers
import AmigaDevbench.Host.Winuae.StateFile
import AmigaDevbench.Core.Bisect
import AmigaDevbench.Host.Symbols.Loader
import AmigaDevbench.Host.Symbols.Nearest
import AmigaDevbench.Host.Winuae.SymbolFile
import AmigaDevbench.Host.Winuae.SymbolRead
import AmigaDevbench.Daemon.VolumeSizes
import AmigaDevbench.Core.Fitting
import AmigaDevbench.Daemon.CapsUtil
import AmigaDevbench.Core.Moves
import AmigaDevbench.Host.Winuae.Dwarf.Mappings
import AmigaDevbench.Host.Winuae.CallSites
import AmigaDevbench.Host.Winuae.GuestInput
import AmigaDevbench.Link.AmiforgeText
import AmigaDevbench.Daemon.ArexxMessages
import AmigaDevbench.Link.GdbAcknowledgements
import AmigaDevbench.Link.Monitors
import AmigaDevbench.Host.Winuae.Watches
import AmigaDevbench.Link.Intuition
