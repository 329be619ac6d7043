import FlowManager.Flow.Schema
import Mathlib.Logic.Function.Basic

/-!
# The parsed program (flow/flow.go, flow/node.go, flow/if.go, flow/switch.go, flow/while.go)

`parseFlowArray` turns a schema into a heap of nodes. Running the schema never
changes that heap's shape, only the counters and positions stored in it, so the
model keeps the two apart: `Program` is what parsing builds, and the mutable
fields (`Node.position`, `whileArgs.step`, `whileArgs.counter`, `Limiter.count`)
are maps of the flow, indexed by the identifiers handed out here.

- A node, a `whileArgs` and a `Limiter` are pointers in Go and allocation numbers
  (`Nat`) here; an
  `*ApplicationRequest` by the node whose `children` hold it and its index there
  (`Node.Add` allocates a copy, so no request is held twice).
- `parseFlowArray` and the three `new…Args` functions follow the source branch by
  branch, dropped items included.
-/

namespace FlowManager

open Function


/-- An `*ApplicationRequest`. -/
structure ReqPtr where
  node : Nat
  index : Nat
  deriving DecidableEq

/-- The `args` that parsing stores in a request. Blocks are nodes that `NewNode`
has just returned, so they are never nil. -/
inductive Args where
  /-- left as decoded -/
  | raw
  /-- `*conditionArgs` -/
  | condition (expression : String) (then_ else_ : Nat)
  /-- `*whileArgs` -/
  | loop (w : Nat)
  /-- `*SwitchArgs`, with the entries of `Cases` in parsing order -/
  | switch (text : String) (cases : List (String × Nat))
  /-- `*BreakArgs` -/
  | brk

/-- `ApplicationRequest`. The decoded object stays beside the compiled
arguments. -/
structure ApplicationRequest where
  app : Application
  args : Args
  limiter : Option Nat

/-- `Node` without its `position`. -/
structure Node where
  parent : Option Nat
  idx : Nat
  children : List ApplicationRequest

/-- `whileArgs` without `step` and `counter`. -/
structure WhileArgs where
  condition : String
  do_ : Nat
  maxSteps : Int
  originalParent : Option ReqPtr

/-- `Tag` -/
structure Tag where
  parent : Nat
  idx : Nat
  deriving DecidableEq

/-- The heap that parsing builds, with the maps of the `Flow` it fills. An entry
of a Go map that is written twice shadows the older one. -/
structure Program where
  nodes : Nat → Node
  nodeCount : Nat
  whiles : Nat → WhileArgs
  whileCount : Nat
  limiters : Nat → Limiter
  limiterCount : Nat
  tags : List (String × Tag)
  functions : List (String × Applications)
  triggers : List (String × Applications)

/-- The request behind a pointer. -/
def Program.request (i : Program) (p : ReqPtr) : Option ApplicationRequest :=
  (i.nodes p.node).children[p.index]?

namespace Program

/-- `Node.getLength` -/
def getLength (i : Program) (n : Nat) : Nat :=
  (i.nodes n).children.length

/-- A node that has not been allocated yet. -/
def noNode : Node := { parent := none, idx := 0, children := [] }

/-- The heap of a fresh `Flow`: only `NewNode(nil)`, numbered 0, is allocated. -/
def empty (functions triggers : List (String × Applications)) : Program where
  nodes _ := noNode
  nodeCount := 1
  whiles _ := { condition := "", do_ := 0, maxSteps := 0, originalParent := none }
  whileCount := 0
  limiters _ := { max := 0, failover := "" }
  limiterCount := 0
  tags := []
  functions := functions
  triggers := triggers

/-- `NewNode(parent)`: `setParentNode` takes the index from the parent's current
length, before the owning request is added. -/
def newNode (i : Program) (parent : Nat) : Program :=
  { i with
    nodes := update i.nodes i.nodeCount
      { parent := some parent, idx := i.getLength parent, children := [] }
    nodeCount := i.nodeCount + 1 }

/-- `Node.Add` -/
def add (i : Program) (n : Nat) (req : ApplicationRequest) : Program :=
  { i with
    nodes := update i.nodes n
      { i.nodes n with children := (i.nodes n).children ++ [req] } }

/-- Allocation of the limiter that `parseReq` attached to the request. -/
def newLimiterId (i : Program) : Option Limiter → Program × Option Nat
  | some l =>
    ({ i with
        limiters := update i.limiters i.limiterCount l
        limiterCount := i.limiterCount + 1 }, some i.limiterCount)
  | none => (i, none)

/-- Allocation of a `whileArgs`. -/
def newWhileId (i : Program) (args : WhileArgs) : Program :=
  { i with
    whiles := update i.whiles i.whileCount args
    whileCount := i.whileCount + 1 }

/-- Assignment to the fields of a `whileArgs`. -/
def setWhile (i : Program) (w : Nat) (args : WhileArgs) : Program :=
  { i with whiles := update i.whiles w args }

/-- `Flow.trySetTag` -/
def trySetTag (i : Program) (tag : String) (parent : Nat) (idx : Nat) : Program :=
  if tag ≠ "" then { i with tags := (tag, { parent := parent, idx := idx }) :: i.tags } else i

/-- `parent.children[len(parent.children)-1]`, nil for an empty node. -/
def lastRequest (i : Program) (n : Nat) : Option ReqPtr :=
  if i.getLength n = 0 then none else some { node := n, index := i.getLength n - 1 }

end Program

/-! ## Declarations -/

/-- `model.AppError` -/
structure AppError where
  location : String
  id : String
  details : String
  statusCode : Nat
  deriving DecidableEq

/-- `Flow.addFunction` -/
def addFunction (i : Program) (args : Value) : Except AppError Program :=
  match args.asObj with
  | some tmp =>
    match (tmp.get "name").asStr with
    | none => .error ⟨"Iterator", "iterator.parse_app.function.valid_name",
        "bad arguments, name is required", 400⟩
    | some name =>
      match (tmp.get "actions").asArr with
      | none => .error ⟨"Iterator", "iterator.parse_app.function.valid_actions",
          "bad arguments, actions is required", 400⟩
      | some actions =>
        .ok { i with functions := (name, arrInterfaceToArrayApplication actions) :: i.functions }
  | none => .error ⟨"Iterator", "iterator.parse_app.function.valid_args", "bad arguments", 400⟩

/-- `TriggerCommandsName` -/
def triggerCommandsName (c : String) : String := "commands-" ++ c

/-- The inner loop of `Flow.addTrigger` over the commands. -/
def addTriggerCommand (i : Program) (entry : String × Value) : Program :=
  match entry.2.asArr with
  | some v =>
    { i with triggers :=
      (triggerCommandsName entry.1, arrInterfaceToArrayApplication v) :: i.triggers }
  | none => i

/-- The outer loop of `Flow.addTrigger`. -/
def addTriggerEntry (i : Program) (entry : String × Value) : Program :=
  match entry.1 with
  -- a trigger that is no list is skipped, and so is one of another name
  | "disconnected" =>
    match entry.2.asArr with
    | some v =>
      { i with triggers := ("disconnected", arrInterfaceToArrayApplication v) :: i.triggers }
    | none => i
  | "commands" =>
    match entry.2.asObj with
    | some tmp => tmp.foldl addTriggerCommand i
    | none => i
  | _ => i

/-- `Flow.addTrigger` -/
def addTrigger (i : Program) (args : Value) : Except AppError Program :=
  match args.asObj with
  | some tmp => .ok (tmp.foldl addTriggerEntry i)
  | none => .error ⟨"Iterator", "iterator.parse_app.trigger.valid_args", "bad arguments", 400⟩

/-- A declaration that fails is logged and leaves the flow as it was. -/
def orWarn (i : Program) : Except AppError Program → Program
  | .ok i' => i'
  | .error _ => i

/-! ## `strconv.Atoi` -/

/-- `strconv.Atoi` on a 64-bit platform: an optional sign, decimal digits only, and
a result in the range of `int`. -/
def atoi (s : String) : Option Int :=
  let signed : Bool × List Char :=
    match s.toList with
    | '-' :: cs => (true, cs)
    | '+' :: cs => (false, cs)
    | cs => (false, cs)
  let value := signed.2.foldl (fun n c => 10 * n + (c.toNat - '0'.toNat)) 0
  if signed.2.isEmpty ∨ signed.2.all Char.isDigit = false then none
  else if signed.1 then
    -- there is one negative number more
    if value ≤ 2 ^ 63 then some (-(value : Int)) else none
  else
    if value < 2 ^ 63 then some (value : Int) else none

/-! ## Argument fields shared by the parser and its tree view -/

/-- The condition text of an `if` or `while` field, empty when it is not a string. -/
def Object.getText (tmp : Object) (key : String) : String :=
  ((tmp.get key).asStr).getD ""

/-- The `maxSteps` that `newWhileArgs` reads: a decimal string, else 1000. -/
def Object.getMaxSteps (tmp : Object) : Int :=
  (((tmp.get "maxSteps").asStr).bind atoi).getD 1000

/-- The items of a block field; nothing when it is not a list. -/
def Object.getBlock (tmp : Object) (key : String) : Applications :=
  (((tmp.get key).asArr).map arrInterfaceToArrayApplication).getD []

/-- The items of one `case` of a switch, if it is a list. -/
def caseBlock (v : Value) : Option Applications :=
  (v.asArr).map arrInterfaceToArrayApplication

theorem Object.getBlock_sizeOf_le (tmp : Object) (key : String) :
    sizeOf (tmp.getBlock key) ≤ sizeOf tmp := by
  have hget := tmp.get_sizeOf_le key
  unfold Object.getBlock
  cases h : (tmp.get key).asArr with
  | none => (cases tmp <;> simp); omega
  | some l =>
    rw [Value.asArr_eq_some h] at hget
    have hle := sizeOf_arrInterfaceToArrayApplication_le l
    simp only [Option.map_some, Option.getD_some, Value.arr.sizeOf_spec] at hget ⊢
    omega

theorem caseBlock_sizeOf_lt (h : caseBlock v = some apps) : sizeOf apps < sizeOf v := by
  unfold caseBlock at h
  rw [Option.map_eq_some_iff] at h
  obtain ⟨l, hl, rfl⟩ := h
  have hle := sizeOf_arrInterfaceToArrayApplication_le l
  rw [Value.asArr_eq_some hl, Value.arr.sizeOf_spec]
  omega

end FlowManager
