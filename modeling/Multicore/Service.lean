import Std.Data.TreeMap

/-!
# Services

A service is a software interrupt that the machine answers itself, without a handler of the
guest. The standard services halt the core and manage pages.
-/

namespace Multicore

open Std

/-- What a service does. -/
inductive Service where
  /-- Halt the core with the exit code in `r0`. -/
  | halt
  /-- Manage pages: `r0` says which request is made. -/
  | memory
  /-- Count the calls of all cores and answer the count in `r0`. -/
  | counter
  /-- Refuse every call. -/
  | refuse
  deriving DecidableEq, Inhabited

/-- The name of a service. -/
def Service.name : Service → String
  | .halt => "halt"
  | .memory => "memory"
  | .counter => "counter"
  | .refuse => "refuse"

/-- The services by interrupt number. -/
abbrev ServiceTable := TreeMap UInt32 Service

namespace ServiceTable

/-- The interrupt of the halt service. -/
def haltInterrupt : UInt32 := 0x20

/-- The interrupt of the memory service. -/
def memoryInterrupt : UInt32 := 0x21

/-- The services of a machine unless it is built with others. -/
def standard : ServiceTable :=
  (∅ : ServiceTable).insert haltInterrupt .halt |>.insert memoryInterrupt .memory

end ServiceTable

end Multicore
