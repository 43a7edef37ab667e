import VirtRtLab.Lib.Transition
import VirtRtLab.Lib.Blind
import VirtRtLab.Lib.Replay
import VirtRtLab.Lib.Deletion
import VirtRtLab.Lib.Fifo
import VirtRtLab.Lib.Pipe
import VirtRtLab.Lib.Generation
import VirtRtLab.Lib.Slot
import VirtRtLab.Lib.Xorshift
import VirtRtLab.Lib.BinaryPoly
import VirtRtLab.Lib.Cycle
import VirtRtLab.Lib.Ledger
import VirtRtLab.Lib.Effort
import VirtRtLab.Lib.WaitQueue
import VirtRtLab.Lib.LockOrder
import VirtRtLab.Kernel.Text
import VirtRtLab.Kernel.Decimal
import VirtRtLab.Core.Bus
import VirtRtLab.Core.Attrs
import VirtRtLab.Core.Seed
import VirtRtLab.Core.Period
import VirtRtLab.Core.Jitter
import VirtRtLab.Core.AttrText
import VirtRtLab.Uart.Device
import VirtRtLab.Uart.Machine
import VirtRtLab.Uart.Steps
import VirtRtLab.Uart.Baseline
import VirtRtLab.Uart.Stream
import VirtRtLab.Uart.Accounting
import VirtRtLab.Uart.Pacing
import VirtRtLab.Uart.Stranding
import VirtRtLab.Uart.Teardown
import VirtRtLab.Uart.FaultFree
import VirtRtLab.Uart.Attributes
import VirtRtLab.Uart.Counters
import VirtRtLab.Uart.Lossless
import VirtRtLab.Uart.Effort
import VirtRtLab.Uart.Halt
import VirtRtLab.Uart.Wakeups
import VirtRtLab.Uart.WireSteps
import VirtRtLab.Uart.Sessions
import VirtRtLab.Uart.Epochs
import VirtRtLab.Uart.WireRead
import VirtRtLab.Uart.WireWrite
import VirtRtLab.Uart.Burst
import VirtRtLab.Uart.Sizes
import VirtRtLab.Uart.Timing
import VirtRtLab.Uart.Terminal
import VirtRtLab.Gpio.Device
import VirtRtLab.Gpio.Machine
import VirtRtLab.Gpio.Steps
import VirtRtLab.Gpio.Baseline
import VirtRtLab.Gpio.Cells
import VirtRtLab.Gpio.Chip
import VirtRtLab.Gpio.Commit
import VirtRtLab.Gpio.Dispatch
import VirtRtLab.Gpio.Effort
import VirtRtLab.Gpio.Reset
import VirtRtLab.Gpio.Convergence
import VirtRtLab.Gpio.Delay
import VirtRtLab.Gpio.Transitions
import VirtRtLab.Gpio.Blind
import VirtRtLab.Gpio.Authority
import VirtRtLab.Gpio.FaultFree
import VirtRtLab.Gpio.Attributes
import VirtRtLab.Gpio.Inject
import VirtRtLab.Gpio.Snapshot
import VirtRtLab.Gpio.Timing
import VirtRtLab.Gpio.Replay
import VirtRtLab.System.Machine
import VirtRtLab.System.Steps
import VirtRtLab.System.Reset
import VirtRtLab.System.Baseline
import VirtRtLab.System.FaultFree
import VirtRtLab.System.Protocol
import VirtRtLab.System.Projection
import VirtRtLab.System.Replay
import VirtRtLab.System.Timing
import VirtRtLab.System.Locking
import VirtRtLab.System.LockTrace
import VirtRtLab.Daemon.Machine
import VirtRtLab.Daemon.Links
import VirtRtLab.Daemon.Steps
import VirtRtLab.Daemon.Invariant
import VirtRtLab.Daemon.Shape
import VirtRtLab.Daemon.Isolation
import VirtRtLab.Daemon.Relay
import VirtRtLab.Daemon.Batch
import VirtRtLab.Daemon.Drain
import VirtRtLab.Daemon.Init
import VirtRtLab.Daemon.Args
import VirtRtLab.Daemon.Startup
import VirtRtLab.Daemon.Shutdown
import VirtRtLab.Module.Registration
import VirtRtLab.Module.Init
import VirtRtLab.Lab.Composition
import VirtRtLab.Lab.Session
import VirtRtLab.Lab.Delivery
import VirtRtLab.Lab.Uplink
import VirtRtLab.Lab.Readiness
import VirtRtLab.Lab.Progress
import VirtRtLab.Lab.Sockets
import VirtRtLab.Lab.Eof
import VirtRtLab.Lab.Rest
import VirtRtLab.Lab.Overruns
import VirtRtLab.Ctl.Profile
import VirtRtLab.Ctl.Lab
import VirtRtLab.Ctl.Load
import VirtRtLab.Ctl.Rollback
import VirtRtLab.Ctl.Lifecycle
import VirtRtLab.Ctl.Agreement
import VirtRtLab.Ctl.Idempotence
import VirtRtLab.Ctl.Override
import VirtRtLab.Ctl.Contract
import VirtRtLab.Ctl.Settings
import VirtRtLab.Module.Lifecycle
