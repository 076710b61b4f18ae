import MooCore.Clock
/-!
# Configuration

What can be set: the limits on background threads and on the wait for them at shutdown, where and
how often checkpoints are written, and the network address.
-/

set_option autoImplicit false
namespace MooCore

/-- A time span in seconds and less than a second's nanoseconds. -/
structure Duration where
  secs : Nat
  nanos : Nat := 0
deriving DecidableEq, Repr

def Duration.toNanos (d : Duration) : Nat := d.secs * second + d.nanos

structure RuntimeConfig where
  maxBackgroundThreads : Nat := 20
  backgroundThreading : Bool := true
  shutdownDrainTimeout : Duration := { secs := 30 }
  shutdownPollInterval : Duration := { secs := 0, nanos := 100000000 }
deriving DecidableEq, Repr

structure CheckpointConfig where
  /-- without a directory there are no checkpoints -/
  outputPath : Option String := none
  interval : Option Duration := none
deriving DecidableEq, Repr

structure NetworkConfig where
  listenAddress : String := "0.0.0.0:7777"
  connectTimeout : Duration := { secs := 300 }
deriving DecidableEq, Repr

structure Config where
  runtime : RuntimeConfig := {}
  checkpoint : CheckpointConfig := {}
  network : NetworkConfig := {}
deriving DecidableEq, Repr

end MooCore
