import Multicore.Fault

/-!
# The register file

The values of a core's registers. `RegisterFile.write` refuses a protected register in
unprivileged mode; `RegisterFile.set` writes without a check, for the core itself.
-/

namespace Multicore

open Text

/-- The registers of a core. -/
structure RegisterFile where
  general : Vector UInt32 30 := Vector.replicate 30 0
  fp : UInt32 := 0
  sp : UInt32 := 0
  ds : UInt32 := 0
  cs : UInt32 := 0
  ip : UInt32 := 0
  flags : Flags := {}
  /-- The number of retired instructions. -/
  cnt : UInt64 := 0
  deriving DecidableEq

namespace RegisterFile

instance : Inhabited RegisterFile := ⟨{}⟩

/-- The register file of a core that starts at `ip`: all zero, with hardware interrupts on. -/
def starting (ip : UInt32) : RegisterFile := { ip, flags := { interruptsEnabled := true } }

/-- The place of a general register. Numbers from 30 on start over. -/
def generalIndex (number : UInt8) : Fin 30 := ⟨number.toNat % 30, Nat.mod_lt _ (by decide)⟩

/-- The value of a register. -/
def read (f : RegisterFile) : Register → UInt32
  | .general n => f.general.get (generalIndex n)
  | .fp => f.fp
  | .sp => f.sp
  | .ds => f.ds
  | .cs => f.cs
  | .ip => f.ip
  | .flags => f.flags.pack
  | .cnt => f.cnt.toUInt32

/-- The value of an operand. -/
def operand (f : RegisterFile) : Operand → UInt32
  | .reg r => f.read r
  | .imm v => v.toUInt32

/-- The file with one general register replaced. -/
def setGeneral (f : RegisterFile) (i : Fin 30) (v : UInt32) : RegisterFile :=
  { f with general := f.general.set i v }

/-- The file with one register replaced, whatever the mode. -/
def set (f : RegisterFile) (r : Register) (v : UInt32) : RegisterFile :=
  match r with
  | .general n => f.setGeneral (generalIndex n) v
  | .fp => { f with fp := v }
  | .sp => { f with sp := v }
  | .ds => { f with ds := v }
  | .cs => { f with cs := v }
  | .ip => { f with ip := v }
  | .flags => { f with flags := .unpack v }
  | .cnt => { f with cnt := v.toUInt64 }

/-- The file with one register replaced, if the mode allows it. -/
def write (f : RegisterFile) (r : Register) (v : UInt32) : Except Fault RegisterFile :=
  if r.isProtected ∧ ¬ f.flags.privileged then
    .error (.accessViolation (.protectedRegister r))
  else .ok (f.set r v)

/-- A register's name filled up to three characters, and its value. -/
def dumpEntry (f : RegisterFile) (number : Nat) : String :=
  let name := "r" ++ toString number
  let filler := String.ofList (List.replicate (3 - name.length) ' ')
  name ++ filler ++ "=" ++ paddedHex 8 (f.read (.general number.toUInt8)).toNat

/-- The registers as text: the general registers two to a line, then a line of the others. -/
def dump (f : RegisterFile) : List String :=
  (List.range 15).map (fun i => f.dumpEntry (2 * i) ++ " " ++ f.dumpEntry (2 * i + 1)) ++
    [" ".intercalate
      ["fp=" ++ paddedHex 8 f.fp.toNat, "sp=" ++ paddedHex 8 f.sp.toNat,
        "ds=" ++ paddedHex 4 f.ds.toNat, "cs=" ++ paddedHex 4 f.cs.toNat,
        "ip=" ++ paddedHex 8 f.ip.toNat, "flags=" ++ paddedHex 2 f.flags.pack.toNat,
        "cnt=" ++ toString f.cnt.toNat]]

end RegisterFile

end Multicore
