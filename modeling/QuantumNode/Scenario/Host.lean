import QuantumNode.Network.Config
import QuantumNode.Progress
import QuantumNode.Scenario.Data

/-
  Scenarios on what surrounds a session: tracked lines, progress bars, completed jobs and network
  configurations.
-/

namespace QuantumNode.Scenario
variable (d : Datum)

def runTracker : Report :=
  if !flagOr d "track" then .outcome (.ok .null) []
  else
    let found : Checked HostLine := do
      let t ← Tracker.ofDirectories "/" (d.field "app_dir").text?
        ((d.field "lib_dirs").items.map Datum.textD)
      t.find ((d.field "stack").items.filterMap hostLineOf?).reverse
    let lineOf (l : HostLine) : Report := .list [.text l.file, .int l.number, .text l.text]
    .outcome (found.map lineOf) []

def runProgress : Report :=
  let (b, shown) := ProgressBar.run (intField d "max" 0) (intField d "increase" 0).toNat
  .outcome (b.map fun b => .list [.int b.done, .int b.total]) [("out", .text shown)]

def runCompletion : Report :=
  let delays := (d.field "delays").items.map fun n => (n.intD 0).toNat
  let order := Completion.order (delays.zipIdx.map fun (delay, k) => (k, delay))
  let result : Checked Report := match d.field "names" with
    | .list names => do
      let named ← order.mapM fun k : Nat =>
        match names[k]? with
        | some name => .ok (Report.list [.int k, .datum name])
        | none => .error .noIndex
      return .list named
    | _ => .ok (.list (order.map fun k : Nat => Report.int k))
  .outcome result []

def settingReport {α : Type} (enumeration : String) (name : α → String) : Setting α → Report
  | .known x => .text (enumeration ++ "." ++ name x)
  | .given d => .plain d

def nodeSpecReport (n : NodeSpec) : Report :=
  .record [("name", .plain n.name),
    ("hardware", settingReport "QuantumHardware" HardwareKind.name n.hardware),
    ("gate_fidelity", .plain n.gateFidelity),
    ("qubits", .list (n.qubits.map fun q =>
      .list [.plain q.id, .plain q.relaxation, .plain q.dephasing]))]

def linkSpecReport (l : LinkSpec) : Report :=
  .list [.plain l.name, .plain l.first, .plain l.second,
    settingReport "NoiseType" NoiseKind.name l.noise, .plain l.fidelity]

def networkReport (c : NetworkConfig) : Report :=
  .record [("nodes", .list (c.nodes.map nodeSpecReport)),
    ("links", .list (c.links.map linkSpecReport))]

def runNetwork : Checked Report := do
  match d.field? "cfg" with
  | some cfg => return networkReport (← NetworkConfig.ofDatum cfg)
  | none =>
    let names := (d.field "names").items.map Datum.textD
    match d.field "hardware" with
    | .null => return networkReport (.complete names .generic)
    | h =>
      match HardwareKind.ofName? h.textD with
      | some kind => return networkReport (.complete names kind)
      | none => throw .noKey

end QuantumNode.Scenario
