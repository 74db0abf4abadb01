import Multicore.Address
import Multicore.Flags
import Multicore.Register
import Multicore.Instruction
import Multicore.Text.Hex
import Multicore.Instruction.Text
import Multicore.Fault
import Multicore.Alu
import Multicore.Cache.RecencyMap
import Multicore.Cache.Selector
import Multicore.LittleEndian
import Multicore.Memory.Basic
import Multicore.Cache.HalfwordCache
import Multicore.Cache.Bus
import Multicore.Cache.InstructionCache
import Multicore.CommandLine.Help
import Multicore.CommandLine.Setting
import Multicore.OperandStack
import Multicore.RegisterFile
import Multicore.Core.Basic
import Multicore.Text.Numeral
import Multicore.CommandLine.Command
import Multicore.Json.Number
import Multicore.Json.Reader
import Multicore.Json.Record
import Multicore.Event
import Multicore.Instruction.Opcode
import Multicore.Instruction.Word
import Multicore.Instruction.Decode
import Multicore.InstructionSet
import Multicore.Service
import Multicore.Symbols
import Multicore.Core.Node
import Multicore.Core.Stack
import Multicore.Core.Interrupt
import Multicore.Core.Execute
import Multicore.Core.Snapshot
import Multicore.Machine
import Multicore.Simulation
import Multicore.Config
import Multicore.Memory.Paged
import Multicore.CommandLine.Session
import Multicore.Core.SnapshotText
import Multicore.Instruction.Encode
import Multicore.Memory.Scripted
import Multicore.Proofs.Arithmetic.Alu
import Multicore.Proofs.Cache.Recency
import Multicore.Proofs.Computation
import Multicore.Proofs.Memory.Contents
import Multicore.Proofs.Cache.Lines
import Multicore.Proofs.Coherence.Copies
import Multicore.Proofs.Coherence.Broadcast
import Multicore.Proofs.Coherence.Values
import Multicore.Proofs.Coherence.Access
import Multicore.Proofs.Coherence.Width
import Multicore.Proofs.Core.Steps
import Multicore.Proofs.Instruction.Fields
import Multicore.Proofs.Core.Registers
import Multicore.Proofs.Arithmetic.Instructions
import Multicore.Proofs.Cache.Eviction
import Multicore.Proofs.Cache.UseOrder
import Multicore.Proofs.Cache.RecencyList
import Multicore.Proofs.Cache.Release
import Multicore.Proofs.Cache.Thinning
import Multicore.Proofs.Cache.RefusedRelease
import Multicore.Proofs.Coherence.Parts
import Multicore.Proofs.Coherence.Bystanders
import Multicore.Proofs.Coherence.Registry
import Multicore.Proofs.Coherence.FlatMemory
import Multicore.Proofs.Memory.Pages
import Multicore.Proofs.Coherence.Pages
import Multicore.Proofs.Coherence.Preserved
import Multicore.Proofs.Coherence.Refusals
import Multicore.Proofs.Coherence.Twin
import Multicore.Proofs.Coprocessor.Calculator
import Multicore.Proofs.Coprocessor.Operations
import Multicore.Proofs.Core.Ordinary
import Multicore.Proofs.Core.Quiet
import Multicore.Proofs.Instruction.RoundTrip
import Multicore.Proofs.Coprocessor.Programs
import Multicore.Proofs.Core.Effects
import Multicore.Proofs.Core.Paged
import Multicore.Proofs.Core.StackWords
import Multicore.Proofs.Core.Atomicity
import Multicore.Proofs.Core.Context
import Multicore.Proofs.Core.CallStack
import Multicore.Proofs.Core.Faults
import Multicore.Proofs.Core.FreshPages
import Multicore.Proofs.Core.Sound
import Multicore.Proofs.Machine.Coherence
import Multicore.Proofs.Machine.Turns
import Multicore.Proofs.Machine.Runs
import Multicore.Proofs.Core.Lifecycle
import Multicore.Proofs.Core.Touches
import Multicore.Proofs.Core.Twin
import Multicore.Proofs.Core.Lockstep
import Multicore.Proofs.Core.PageUse
import Multicore.Proofs.Core.StackGrowth
import Multicore.Proofs.Memory.Vectors
import Multicore.Proofs.Core.Vectors
import Multicore.Proofs.Instruction.Addressing
import Multicore.Proofs.Text.Digits
import Multicore.Proofs.Listing.Arguments
import Multicore.Proofs.Listing.Disassembly
import Multicore.Proofs.Machine.BusUse
import Multicore.Proofs.Machine.Sweep
import Multicore.Proofs.Machine.CacheSizes
import Multicore.Proofs.Machine.CodeStores
import Multicore.Proofs.Machine.CachedCode
import Multicore.Proofs.Machine.Commands
import Multicore.Proofs.Machine.Confinement
import Multicore.Proofs.Machine.Contexts
import Multicore.Proofs.Machine.Disturbance
import Multicore.Proofs.Machine.Lifecycle
import Multicore.Proofs.Machine.Nesting
import Multicore.Proofs.Machine.PageTurns
import Multicore.Proofs.Machine.PageAccounting
import Multicore.Proofs.Memory.Images
import Multicore.Proofs.Machine.Programs
import Multicore.Proofs.Machine.Reachability
import Multicore.Proofs.Machine.Refusals
import Multicore.Proofs.Machine.Resumption
import Multicore.Proofs.Machine.Vectors
import Multicore.Proofs.Memory.Allocation
import Multicore.Proofs.Memory.VectorTables
import Multicore.Proofs.Simulation.Rounds
import Multicore.Proofs.Simulation.Run
import Multicore.Main
