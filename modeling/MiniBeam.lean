import MiniBeam.Model.Compat
import MiniBeam.Model.Flow
import MiniBeam.Verification.Scheduler.Fairness
import MiniBeam.Verification.Scheduler.Isolation
import MiniBeam.Verification.Scheduler.Queues
import MiniBeam.Verification.Scheduler.Safety
import MiniBeam.Verification.Scheduler.States
import MiniBeam.Verification.Scheduler.Send
import MiniBeam.Verification.Scheduler.Sleep
import MiniBeam.Verification.Heap.Forwarding
import MiniBeam.Verification.Process.Lists
import MiniBeam.Verification.Process.Placement
import MiniBeam.Verification.Process.Tuples
import MiniBeam.Verification.Process.Jumps
import MiniBeam.Verification.Step.Failure
import MiniBeam.Verification.Flow.Safety
import MiniBeam.Verification.Flow.Delivery
import MiniBeam.Verification.Compat.Heapless
import MiniBeam.Verification.Compat.Owners
import MiniBeam.Verification.Compat.Zeros
import MiniBeam.Verification.Flow.Routing
import MiniBeam.Verification.Flow.Poll
import MiniBeam.Verification.Flow.Header
import MiniBeam.Verification.Hardware
import MiniBeam.Verification.Operands
import MiniBeam.Verification.App
import MiniBeam.Verification.Clock
import MiniBeam.Verification.Pwm
import MiniBeam.Verification.Flow.Throughput
import MiniBeam.Verification.Flow.Latency
import MiniBeam.Verification.Program.Bytecode
import MiniBeam.Verification.Zephyr.Cyclic
import MiniBeam.Verification.Zephyr.Telemetry
import MiniBeam.Verification.Zephyr.Enqueue
import MiniBeam.Verification.Scheduler.Wakeup
import MiniBeam.Verification.Process.Memory
import MiniBeam.Verification.Scheduler.Idle
import MiniBeam.Verification.Flow.Punctual
import MiniBeam.Verification.Hal.EspIdf
import MiniBeam.Verification.Hal.Flow
