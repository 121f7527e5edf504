import QuantumNode.Fault

/-
  A bar that shows the progress of a task in one line of text, and the order in which jobs are found
  to be completed when a list of them is asked again and again.
-/

namespace QuantumNode

structure ProgressBar where
  done : Int
  total : Int
  deriving DecidableEq

namespace ProgressBar

def width : Nat := 52

def text (b : ProgressBar) : Checked String := do
  demand (b.done ≤ b.total) .unmet
  demand (b.total ≠ 0) (.unexplained .divisionByZero)
  let ratio := Float.ofInt b.done / Float.ofInt b.total
  let percent := (ratio * 100).toUInt64.toNat
  let filled := (Float.ofNat width * ratio).toUInt64.toNat
  let bar := "".pushn '=' filled
  return "\r[" ++ bar.pushn ' ' (width - filled) ++ "] " ++ toString percent ++ "%"

-- Show a bar again and again while steps are done; what is shown stays if that fails.
def increases : Nat → ProgressBar → String → Checked ProgressBar × String
  | n, b, shown =>
    match b.text with
    | .error f => (.error f, shown)
    | .ok line =>
      match n with
      | 0 => (.ok b, shown ++ line)
      | n + 1 => increases n ⟨b.done + 1, b.total⟩ (shown ++ line)

def run (total : Int) (steps : Nat) : Checked ProgressBar × String :=
  match increases steps ⟨0, total⟩ "\n" with
  | (.ok b, shown) => (.ok b, shown ++ "\n")
  | failed => failed

end ProgressBar

end QuantumNode

namespace QuantumNode.Completion
variable {α : Type}

-- Ask the jobs of a list in turn; a job is completed after being asked a number of times. A
-- completed one leaves, and the job after it is not asked in this round.
def round : List (α × Nat) → List α × List (α × Nat)
  | [] => ([], [])
  | [(x, 0)] => ([x], [])
  | (x, 0) :: y :: rest =>
    let (completed, left) := round rest
    (x :: completed, y :: left)
  | (x, n + 1) :: rest =>
    let (completed, left) := round rest
    (completed, (x, n) :: left)

def questions (jobs : List (α × Nat)) : Nat :=
  jobs.foldr (fun j n => j.2 + 1 + n) 0

-- The jobs in the order of their completion, after a number of rounds.
def orderWithin : Nat → List (α × Nat) → List α
  | 0, _ => []
  | rounds + 1, jobs =>
    let (completed, left) := round jobs
    completed ++ orderWithin rounds left

def order (jobs : List (α × Nat)) : List α :=
  orderWithin (questions jobs) jobs

end QuantumNode.Completion
