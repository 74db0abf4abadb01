import Multicore.Json.Record
import Multicore.Simulation

/-!
# Configurations

The configuration of a machine is a JSON record with the sections `general`, `memory`, `cache`
and `scheduler`. Every section and every field may be missing. A symbol file is a JSON object
that gives each symbol its address.
-/

namespace Multicore

open Json

/-- General settings. -/
structure GeneralSettings where
  /-- The number of cores. -/
  cores : Nat := 1
  /-- Check the stack pointer when a frame is taken down. -/
  checkFrames : Bool := true
  /-- Keep a log of the events. -/
  traceInstructions : Bool := false
  /-- The address of the interrupt vector table. -/
  vectorTable : Address := 0
  deriving DecidableEq, Inhabited

/-- The capacities of the caches of a core. -/
structure CacheSettings where
  /-- The instructions in an instruction cache. -/
  instructions : Nat := 256
  /-- The halfwords in a data cache. -/
  halfwords : Nat := 1024
  deriving DecidableEq, Inhabited

/-- The configuration of a machine. -/
structure Config where
  general : GeneralSettings := {}
  /-- The bytes of memory. -/
  memorySize : UInt32 := 0x100000
  cache : CacheSettings := {}
  schedule : Schedule := {}
  deriving DecidableEq, Inhabited

namespace Config

/-- Read a number of 64 bits. -/
def long : Reader Nat := natural UInt64.size

/-- The fields of the general section. -/
def generalFields : List (RecordField GeneralSettings) :=
  [.of "cores" long fun v s => { s with cores := v },
    .of "check_frames" bool fun v s => { s with checkFrames := v },
    .of "trace_instructions" bool fun v s => { s with traceInstructions := v },
    .of "ivt_address" word fun v s => { s with vectorTable := v }]

/-- The field of the memory section. -/
def memoryFields : List (RecordField UInt32) := [.of "size" word fun v _ => v]

/-- The fields of the cache section. -/
def cacheFields : List (RecordField CacheSettings) :=
  [.of "icache_entries" long fun v s => { s with instructions := v },
    .of "dcache_entries" long fun v s => { s with halfwords := v }]

/-- The fields of the scheduler section. -/
def scheduleFields : List (RecordField Schedule) :=
  [.of "timer_interval" (optional long) fun v s => { s with timerInterval := v },
    .of "timer_irq" word fun v s => { s with timerInterrupt := v },
    .of "max_steps" (optional long) fun v s => { s with maxRounds := v }]

/-- The sections. -/
def fields : List (RecordField Config) :=
  [.of "general" (record generalFields {}) fun v c => { c with general := v },
    .of "memory" (record memoryFields ({} : Config).memorySize) fun v c =>
      { c with memorySize := v },
    .of "cache" (record cacheFields {}) fun v c => { c with cache := v },
    .of "scheduler" (record scheduleFields {}) fun v c => { c with schedule := v }]

/-- The configuration that a text holds. -/
def ofText (text : String) : Except ReadError Config := (record fields {}).run text

end Config

namespace SymbolTable

/-- Read the symbols of a symbol file. -/
def readSymbols : Reader (List (String × UInt32)) := do
  if (← peek) = '\x7b' then
    let latest ← object (fun name symbols => do
      colon
      return (name, ← word) :: symbols) []
    return latest.reverse
  else refuse

/-- The table of a symbol file. All its symbols lie in one segment. -/
def ofText (cs : UInt32) (text : String) : Except ReadError SymbolTable :=
  (readSymbols.run text).map (ofNames cs)

end SymbolTable

namespace Simulation

/-- The simulation of a configured machine. Its log is kept on if `recording` says so. -/
def ofConfig {β : Type} (c : Config) (platform : Platform) (memory : β) (recording : Bool) :
    Simulation β where
  machine :=
    .new
      { platform with
        checkFrames := c.general.checkFrames
        vectorTable := c.general.vectorTable }
      memory c.general.cores c.cache.instructions c.cache.halfwords recording
  schedule := c.schedule

end Simulation

end Multicore
