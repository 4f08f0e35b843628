import MachTree.Script.Builtin.Basic

/-! How loops, functions and scripts are left. -/
namespace MachTree
namespace Script

/-- The state after the body or the condition of a loop, and whether the loop goes on. -/
def afterRound (st : State) : State × Bool :=
  match st.control with
  | .going => (st, true)
  | .leaving n => ({ st with control := if n ≤ 1 then .going else .leaving (n - 1) }, false)
  | .repeating n =>
    if n ≤ 1 then ({ st with control := .going }, true)
    else ({ st with control := .repeating (n - 1) }, false)
  | _ => (st, false)

structure Mode where
  /-- whether its status is asked for, so that its failure does not end the script -/
  tested : Bool := false
  /-- whether its process ends with it -/
  isLast : Bool := false

/-- Ends the script if it has to end at the first failure, unless the failure was asked for. -/
def checkFailure (tested : Bool) (st : State) : State :=
  if st.isGoing && !tested && 'e' ∈ st.options && st.status ≠ 0 then
    { st with control := .exiting false }
  else st

def contain (st : State) : State :=
  if st.control = .exiting true then { st with control := .going } else st

def controlNumber (args : Args) : Option Nat := args.head?.elim (some 1) Arithmetic.naturalOf?

def runControl (name : String) (args : Args) (st : State) : State :=
  match name with
  | "break" | "continue" =>
    match controlNumber args with
    | none | some 0 => st.abort (State.illegalNumber (args.headD []))
    | some n =>
      let n := min n st.loops
      if n = 0 then st.succeed
      else { st.succeed with control := if name = "break" then .leaving n else .repeating n }
  | "return" =>
    match args.head?.map Arithmetic.naturalOf? with
    | none => { st with control := .returning false }
    | some none => st.abort (State.illegalNumber (args.headD []))
    | some (some n) => { st.withStatus n with control := .returning true }
  | _ =>
    match args.head?.elim (some (st.statusBefore.getD st.status)) Arithmetic.naturalOf? with
    | none => st.abort (State.illegalNumber (args.headD []))
    | some n => { st.withStatus n with control := .exiting false }

end Script
end MachTree
