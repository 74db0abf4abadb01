import Multicore.Core.Snapshot
import Multicore.Json.Record

/-!
# Snapshots as text

A snapshot is stored as a JSON record. Every field is required, except that an object may lack
the wording of a fault.
-/

namespace Multicore

open Json

/-- The stage with a name that starts with a capital letter. -/
def Lifecycle.ofTitle? (title : String) : Option Lifecycle :=
  [.reset, .running, .suspended, .halted].find? fun s : Lifecycle => s.name.capitalize = title

namespace Snapshot

/-- Read the name of a stage. -/
def stageTitle : Reader Lifecycle := do
  match Lifecycle.ofTitle? (← string) with
  | some s => return s
  | none => throw .mistyped

/-- Read a stage: its name, or an object whose only member has that name and is null. -/
def lifecycle : Reader Lifecycle := do
  if (← peek) = '\x7b' then
    skip
    let stage ← stageTitle
    colon
    null
    if (← peek) = '\x7d' then
      skip
      return stage
    else throw .malformed
  else stageTitle

/-- The fields of the flags. -/
def flagsFields : List (RecordField Flags) :=
  [.must "privileged" bool fun v f => { f with privileged := v },
    .must "hwint_enabled" bool fun v f => { f with interruptsEnabled := v },
    .must "equal" bool fun v f => { f with equal := v },
    .must "zero" bool fun v f => { f with zero := v },
    .must "overflow" bool fun v f => { f with overflow := v },
    .must "sign" bool fun v f => { f with sign := v }]

/-- Read a value of the operand stack. -/
def mathValue : Reader Int64 := do
  return .ofInt (← integer (-0x8000000000000000) 0x8000000000000000)

/-- The fields of a snapshot. -/
def fields : List (RecordField Snapshot) :=
  [.must "id" (natural UInt64.size) fun v s => { s with id := v },
    .must "state" lifecycle fun v s => { s with state := v },
    .must "gpr" (list word) fun v s => { s with general := v },
    .must "fp" word fun v s => { s with fp := v },
    .must "sp" word fun v s => { s with sp := v },
    .must "ds" word fun v s => { s with ds := v },
    .must "cs" word fun v s => { s with cs := v },
    .must "ip" word fun v s => { s with ip := v },
    .must "flags" (record flagsFields {}) fun v s => { s with flags := v },
    .must "cnt" (natural UInt64.size) fun v s => { s with cnt := v.toUInt64 },
    .must "active_set" (natural UInt8.size) fun v s => { s with activeSet := v.toUInt8 },
    .must "math_stack" (list mathValue) fun v s => { s with mathValues := v },
    .must "exit_code" word fun v s => { s with exitCode := v },
    .listed "fault" (optional string) fun v s => { s with fault := v }]

/-- The snapshot that a text holds. -/
def ofText (text : String) : Except ReadError Snapshot := (record fields default).run text

end Snapshot

end Multicore
