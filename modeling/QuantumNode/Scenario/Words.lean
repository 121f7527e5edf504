import QuantumNode.Channel.Socket
import QuantumNode.Scenario.Data

/-
  Scenarios with a single text: its class, its words, and the parts of programs that it stands for.
-/

namespace QuantumNode.Scenario
open Text

def resultOf {α : Type} (f : α → Report) (x : Checked α) : Report :=
  .outcome (x.map f) []

variable (d : Datum)

def needText (fault : Fault) : Checked String :=
  match d with
  | .text s => .ok s
  | _ => .error fault

def separatorOf : Checked Words.Separator :=
  match d.field? "seperator" with
  | none => .ok .space
  | some (.text s) => Words.Separator.ofChars s.toList
  | some _ => .error .mistyped

def bracketsOf (sep : Words.Separator) (d : Datum) : Checked (Option Words.Brackets) :=
  match d.field "brackets" with
  | .null => .ok none
  | .text s => do return some (← Words.Brackets.ofChars sep s.toList)
  | _ => .error (.language .bracketsNotText)

-- Whether a datum is a fraction; of a list only its points are counted.
def isFraction : Datum → Checked Bool
  | .text s => .ok (Numeral.isFraction s.toList)
  | .list items =>
    let points := items.filter fun
      | .text s => s = "."
      | _ => false
    if points.length = 1 then .error .noAttribute else .ok false
  | _ => .error .noAttribute

def padded (width : Option Datum) : Checked String :=
  match width with
  | none => .ok (padLeft 4 d.words)
  | some (.int n) => .ok (padLeft n d.words)
  | some (.bool b) => .ok (padLeft (if b then 1 else 0) d.words)
  | some _ => .error .mistyped

def opOf : Datum → Checked Op
  | .list _ | .table _ => .error .mistyped
  | d => Op.parse d.words

def addressSlot : Operand → Slot
  | .entry _ _ => .entry
  | .slice _ _ _ => .slice
  | _ => .addr

def registerReport (r : Reg) : Report :=
  .list [.text (String.singleton r.bank.letter), .int r.index, hexReport [r.encode]]

def runText : Report :=
  let v := d.field "value"
  match textField d "fn" with
  | "is_variable_name" =>
    resultOf .bool (match v with
      | .text s => Words.isName s.toList
      | _ => .ok false)
  | "is_number" =>
    resultOf .bool ((needText v .noAttribute).map fun s => Numeral.isNumeral s.toList)
  | "is_float" => resultOf .bool (isFraction v)
  | "group_by_word" =>
    resultOf (fun words => .texts (words.map String.ofList)) do
      let s ← needText v .noAttribute
      let sep ← separatorOf d
      Words.split sep (← bracketsOf sep d) s.toList
  | "trim_msg" => resultOf .text ((needText v .noAttribute).map trimMessage)
  | "rspaces" => resultOf .text (padded v (d.field? "min_chars"))
  | "parse_register" =>
    resultOf registerReport do Reg.parse (← needText v .mistyped).toList
  | "parse_address" =>
    .ofChecked (fun o => .record
      [("r", operandReport o), ("hex", .ofChecked hexReport ((addressSlot o).encode o))])
      do Source.parseAddress (← needText v .noAttribute).toList
  | "flip_branch" => resultOf (fun op => .text op.title) do (← opOf v).flip
  | "instruction" => resultOf (fun op => .text op.name) (opOf v)
  | _ => .null

end QuantumNode.Scenario
