import QuantumNode.Scenario.Data
import QuantumNode.Session.State

/-
  Scenarios on allocations and on supplies of labels.
-/

namespace QuantumNode.Scenario

-- An allocation with the address of every qubit handle, and the handle that each address was last
-- given to.
structure AllocationState where
  allocation : Allocation Datum
  addresses : List Int
  latest : Table Int Nat

namespace AllocationState
variable (s : AllocationState)

def newHandle (address : Int) : Nat × AllocationState :=
  (s.addresses.length, { s with addresses := s.addresses ++ [address] })

def handle (address : Int) : Nat × AllocationState :=
  match Table.get? address s.latest with
  | some h => (h, s)
  | none => s.newHandle address

def taken : List Int :=
  s.allocation.qubits.map fun h => s.addresses.getD h 0

def report : Report :=
  .record [("qubits", .list (s.taken.map Report.int)),
    ("regs", .texts (s.allocation.sortedRegisters.map Reg.text)),
    ("meas", .texts (s.allocation.usedOutcomes.map Reg.text)),
    ("ret_regs", .texts (s.allocation.returnedRegisters.map Reg.text)),
    ("ret_arrays", .list (s.allocation.returnedArrays.map Report.datum))]

end AllocationState

def allocationStep (d : Datum) : ExceptT Fault (StateM AllocationState) Report := do
  let s ← get
  let a := s.allocation
  let put (a : Allocation Datum) : ExceptT Fault (StateM AllocationState) Unit :=
    modify fun s => { s with allocation := a }
  let reg := regOf (d.field "reg")
  let q := intField d "q" 0
  match textField d "do" with
  | "activate" =>
    let (h, s) := s.newHandle q
    set { s with allocation := a.activate h, latest := Table.put q h s.latest }
    return .null
  | "deactivate" =>
    let (h, s) := s.handle q
    set s
    put (← a.deactivate h)
    return .null
  | "is_active" => return .bool (a.isActive (s.handle q).1)
  | "id_used" => return .bool (s.taken.contains q)
  | "inactivate" =>
    put { a with qubits := [] }
    return .null
  | "new_qubit" => return .int (Allocation.firstFree s.taken)
  | "add_reg" =>
    put (← a.occupy (← reg))
    return .null
  | "del_reg" =>
    put (← a.release (← reg))
    return .null
  | "reg_active" => return .bool (a.isUsed (← reg))
  | "get_reg" =>
    let r ← a.inactive
    if flagField d "activate" then put (← a.occupy r)
    return .text r.text
  | "meas_used" =>
    put (a.markOutcome (← reg) true)
    return .null
  | "meas_unused" =>
    put (a.markOutcome (← reg) false)
    return .null
  | "new_meas" =>
    let (r, a) ← a.newOutcome
    put a
    return .text r.text
  | "ret_reg" =>
    put (a.returnRegister (← reg))
    return .null
  | "new_array" =>
    let (address, a) := a.newAddress
    put a
    return .int address
  | "ret_array" =>
    put (a.returnArray (d.field "array"))
    return .null
  | _ =>
    put a.reset
    return .null

def allocationSteps : AllocationState → List Datum → List Report
  | _, [] => []
  | s, d :: rest =>
    let (result, s) := (allocationStep d).run s
    .outcome result [("state", s.report)] :: allocationSteps s rest

def runAllocation (d : Datum) : Report :=
  .record [("steps", .list (allocationSteps ⟨.empty, [], []⟩ (d.field "steps").items))]

def runLabels (d : Datum) : Report :=
  let names := (d.field "labels").items.map fun args => (args.items.head?.getD .null).textD
  .outcome (.ok (.texts (LabelSupply.empty.freshAll names))) []

end QuantumNode.Scenario
