import FlowManager.Flow.Parse

/-!
# The cursor of a flow (flow/flow.go, flow/node.go)

`Flow` holds a parsed program and everything a run changes: the position of every
node, the step and lifetime counters of every `while`, the counters of the
limiters, and the fields of `Flow` proper. The operations below are those of the
source, with the run-time failures of Go made visible: an index outside a slice
and a nil node are `Panic`s, and so is a recursion that does not end.
-/

namespace FlowManager

/-- How a Go routine dies. -/
inductive Panic where
  | indexOutOfRange
  | nilDereference
  | stackOverflow
  deriving DecidableEq

/-- `Flow`, with the mutable fields of its nodes, loops and limiters. -/
structure Flow where
  prog : Program
  /-- `Node.position` -/
  position : Nat → Int
  /-- `whileArgs.step` -/
  step : Nat → Nat
  /-- `whileArgs.counter` -/
  counter : Nat → Nat
  /-- `Limiter.count` -/
  count : Nat → Nat
  currentNode : Option Nat
  prevRequest : Option ReqPtr
  interrupted : Option ReqPtr
  gotoCounter : Nat
  cancel : Bool
  /-- names of the logged steps -/
  logs : List String

/-- `MAX_GOTO` -/
def maxGoto : Nat := 1000

/-- `node.children[i]` -/
def Program.child (p : Program) (n : Nat) (i : Int) : Except Panic ReqPtr :=
  if 0 ≤ i ∧ i < p.getLength n then .ok ⟨n, i.toNat⟩ else .error .indexOutOfRange

/-- `Tags[tag]` -/
def Program.lookupTag (p : Program) (tag : String) : Option Tag :=
  (p.tags.find? fun entry => entry.1 == tag).map (·.2)

namespace Flow

/-- A flow that has just parsed its schema into the root node. -/
def parsed (functions triggers : List (String × Applications)) (schema : Applications) :
    Flow where
  prog := parseFlowArray (Program.empty functions triggers) 0 schema
  position _ := 0
  step _ := 0
  counter _ := 0
  count _ := 0
  currentNode := some 0
  prevRequest := none
  interrupted := none
  gotoCounter := 0
  cancel := false
  logs := []

/-- `New` -/
def new (schema : Applications) : Flow := parsed [] [] schema

/-- `Fork`: the forked flow, then the forking one. They share the function and
trigger maps, so declarations parsed by the fork appear in both. -/
def fork (i : Flow) (schema : Applications) : Flow × Flow :=
  -- the tags are not shared: the fork has a map of its own
  let child := parsed i.prog.functions i.prog.triggers schema
  (child, { i with prog := { i.prog with
    functions := child.prog.functions, triggers := child.prog.triggers } })

/-- A use of `i.currentNode` that Go would dereference. -/
def current (i : Flow) : Except Panic Nat :=
  match i.currentNode with
  | some n => .ok n
  | none => .error .nilDereference

def setPosition (i : Flow) (n : Nat) (pos : Int) : Flow :=
  { i with position := Function.update i.position n pos }

/-- `Node.setFirst` -/
def setFirst (i : Flow) (n : Nat) : Flow := i.setPosition n 0

/-- `Flow.SetRoot` -/
def setRoot (i : Flow) (root : Nat) : Flow := { i with currentNode := some root }

/-- `node.setFirst()` followed by `SetRoot(node)`, as every block handler does. -/
def enter (i : Flow) (n : Nat) : Flow := (i.setFirst n).setRoot n

/-- `Flow.SetCancel` -/
def setCancel (i : Flow) : Flow := { i with cancel := true }

/-- `Flow.ClearCancel` -/
def clearCancel (i : Flow) : Flow := { i with cancel := false }

/-- `Flow.setInterrupted` -/
def setInterrupted (i : Flow) (req : Option ReqPtr) : Flow := { i with interrupted := req }

/-- `Flow.Reset` -/
def reset (i : Flow) : Flow :=
  let i := match i.currentNode with
    | some n => i.setFirst n
    | none => i
  i.clearCancel

/-- `Limiter.MaxCount` -/
def maxCount (i : Flow) (l : Nat) : Bool := decide ((i.prog.limiters l).max ≤ i.count l)

/-- `Limiter.AddIteration` -/
def addIteration (i : Flow) (l : Nat) : Flow :=
  { i with count := Function.update i.count l (i.count l + 1) }

/-- `Flow.PushSteepLog`, without the times. -/
def pushSteepLog (i : Flow) (name : String) : Flow := { i with logs := i.logs ++ [name] }

/-! ## `NextRequest` -/

/-- `Flow.setPreviousRequest` -/
def setPreviousRequest (i : Flow) : Except Panic Flow := do
  let n ← i.current
  let pos := i.position n - 1
  if pos < 0 then
    return { i with prevRequest := none }
  if i.prog.getLength n ≠ 0 then
    let req ← i.prog.child n pos
    return { i with prevRequest := some req }
  return i

/-- `Node.Next` on the current node. -/
def next (i : Flow) : Except Panic (Option ReqPtr × Flow) := do
  let n ← i.current
  if i.position n < i.prog.getLength n then
    let req ← i.prog.child n (i.position n)
    return (some req, i.setPosition n (i.position n + 1))
  return (none, i)

/-- `Flow.GetParentNode`: the node that has just been left starts over, the root
included. -/
def getParentNode (i : Flow) : Except Panic (Option Nat × Flow) := do
  let n ← i.current
  let i := i.setFirst n
  match (i.prog.nodes n).parent with
  | none => return (none, i)
  | some parent => return (some parent, i.setRoot parent)

/-- `Flow.NextRequest`; every recursive call goes one node up. -/
def nextRequestAux : Nat → Flow → Except Panic (Option ReqPtr × Flow)
  | 0, _ => .error .stackOverflow
  | fuel + 1, i => do
    let i ← i.setPreviousRequest
    let r ← i.next
    match r.1 with
    | some req => return (some req, r.2)
    | none =>
      let up ← r.2.getParentNode
      match up.1 with
      | none => return (none, up.2)
      | some _ => nextRequestAux fuel up.2

def nextRequest (i : Flow) : Except Panic (Option ReqPtr × Flow) :=
  nextRequestAux i.prog.nodeCount i

/-! ## `Goto` -/

/-- `Node.CompleteTreeTraversal` -/
def completeTreeTraversalAux : Nat → Flow → Option Nat → Except Panic Flow
  | _, i, none => .ok i
  | 0, _, some _ => .error .stackOverflow
  | fuel + 1, i, some n =>
    match (i.prog.nodes n).parent with
    | none => .ok i
    | some parent =>
      if i.position n = 0 then
        completeTreeTraversalAux fuel (i.setPosition n (i.prog.getLength n)) (some parent)
      else
        .ok i

def completeTreeTraversal (i : Flow) (n : Option Nat) : Except Panic Flow :=
  completeTreeTraversalAux i.prog.nodeCount i n

/-- The first part of a successful `Goto`: the node `n` it was issued from starts
over, and the tag's node becomes current. -/
def jump (i : Flow) (n : Nat) (gotoApp : Tag) : Flow :=
  ((i.setFirst n).setRoot gotoApp.parent).setPosition gotoApp.parent gotoApp.idx

/-- The second part: the parent of the target node is moved behind the owner of
that node, and the nodes above it are completed. -/
def repairAncestors (i : Flow) (c : Nat) : Except Panic Flow :=
  match (i.prog.nodes c).parent with
  | none => .ok i
  | some parent =>
    (i.setPosition parent ((i.prog.nodes c).idx + 1)).completeTreeTraversal
      (i.prog.nodes parent).parent

/-- `Flow.Goto` -/
def goto (i : Flow) (tag : String) : Except Panic (Bool × Flow) :=
  if maxGoto < i.gotoCounter then .ok (false, i)
  else
    match i.prog.lookupTag tag with
    | none => .ok (false, i)
    | some gotoApp => do
      let n ← i.current
      let i ← (i.jump n gotoApp).repairAncestors gotoApp.parent
      return (true, { i with gotoCounter := i.gotoCounter + 1 })

/-! ## `RepeatInterrupted` -/

/-- The test of `RepeatInterrupted` and the position it rewinds to: the interrupted
request must be one of `names` and the one just before the cursor. -/
def rewindTo (i : Flow) (names : List String) : Option (Nat × Int) :=
  match i.interrupted, i.currentNode with
  | some req, some n =>
    match i.prog.request req with
    | some r =>
      let pos := i.position n - 1
      if r.app.name ∈ names ∧ ¬ (pos < 0 ∨ pos ≥ i.prog.getLength n) ∧
          req = ⟨n, pos.toNat⟩ then
        some (n, pos)
      else none
    | none => none
  | _, _ => none

/-- `Flow.RepeatInterrupted` -/
def repeatInterrupted (i : Flow) (names : List String) : Bool × Flow :=
  match i.rewindTo names with
  | some (n, pos) => (true, (i.setInterrupted none).setPosition n pos)
  | none => (false, i.setInterrupted none)

end Flow

end FlowManager
