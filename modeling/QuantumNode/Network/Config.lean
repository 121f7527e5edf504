import QuantumNode.Document.Json

/-
  Configurations of networks: their nodes, and the links between these.
-/

namespace QuantumNode

inductive HardwareKind
  | generic
  | nv
  | trappedIon
  deriving DecidableEq

def HardwareKind.name : HardwareKind → String
  | .generic => "Generic"
  | .nv => "NV"
  | .trappedIon => "TrappedIon"

def HardwareKind.ofName? : String → Option HardwareKind
  | "Generic" => some .generic
  | "NV" => some .nv
  | "TrappedIon" => some .trappedIon
  | _ => none

inductive NoiseKind
  | none
  deriving DecidableEq

def NoiseKind.name : NoiseKind → String
  | .none => "NoNoise"

-- A value of this library, or data that a configuration gives in its place.
inductive Setting (α : Type)
  | known (x : α)
  | given (d : Datum)

structure QubitSpec where
  id : Datum
  relaxation : Datum
  dephasing : Datum

structure NodeSpec where
  name : Datum
  hardware : Setting HardwareKind
  qubits : List QubitSpec
  gateFidelity : Datum

structure LinkSpec where
  name : Datum
  first : Datum
  second : Datum
  noise : Setting NoiseKind
  fidelity : Datum

structure NetworkConfig where
  nodes : List NodeSpec
  links : List LinkSpec

namespace NetworkConfig

def usualQubits : Nat := 5

def plainNode (hardware : HardwareKind) (name : String) : NodeSpec where
  name := .text name
  hardware := .known hardware
  qubits := (List.range usualQubits).map fun i : Nat => ⟨.int i, .int 0, .int 0⟩
  gateFidelity := .int 1

def plainLink (first second : String) : LinkSpec where
  name := .text s!"link_{first}_{second}"
  first := .text first
  second := .text second
  noise := .known .none
  fidelity := .int 1

-- The network without noise in which every node has links to all others.
def complete (names : List String) (hardware : HardwareKind) : NetworkConfig where
  nodes := names.map (plainNode hardware)
  links := names.flatMap fun a => (names.filter (· ≠ a)).map (plainLink a)

variable (d : Datum)

def need (key : String) : Checked Datum :=
  match d with
  | .table _ =>
    match d.field? key with
    | some v => .ok v
    | none => .error (.network (.keyMissing (Datum.text key).literal))
  | _ => .error .mistyped

def elements : Datum → Checked (List Datum)
  | .list items => .ok items
  | .table entries => .ok (entries.map Prod.fst)
  | .text s => .ok (s.toList.map fun c => .text (String.singleton c))
  | _ => .error .mistyped

def qubitOf : Checked QubitSpec := do
  return ⟨← need d "id", ← need d "t1", ← need d "t2"⟩

def nodeOf : Checked NodeSpec := do
  let qubits ← (← elements (← need d "qubits")).mapM qubitOf
  return {
    name := ← need d "name"
    hardware := match d.field? "hardware" with
      | some h => .given h
      | none => .known .generic
    qubits := qubits
    gateFidelity := ← need d "gate_fidelity" }

def linkOf : Checked LinkSpec := do
  return ⟨← need d "name", ← need d "node_name1", ← need d "node_name2",
    .given (← need d "noise_type"), ← need d "fidelity"⟩

def ofDatum : Checked NetworkConfig := do
  let nodes ← need d "nodes"
  let links ← need d "links"
  return ⟨← (← elements nodes).mapM nodeOf, ← (← elements links).mapM linkOf⟩

end NetworkConfig

end QuantumNode
