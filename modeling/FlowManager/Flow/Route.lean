import FlowManager.Flow.Cursor
import FlowManager.Lib.Loop

/-!
# Handlers and `Route` (flow/handler.go, flow/if.go, flow/switch.go, flow/while.go, flow/goto.go)

A run of `Route` depends on what lies outside the interpreter only through the
outcomes of the JavaScript conditions, the expanded texts, the effect of the other
applications on the `cancel` flag, and the branch that `select` takes. A `World`
answers all of these from a state `E` of its own, which it may change at every
dispatch; quantifying over `E` and the world quantifies over every oracle, however
it depends on the history.

- `request`: the handler of a request, looked up by name.
- `routeTop`, `routeDone`, `routeResult`: the three parts of an iteration of the
  loop of `Route`: up to the start of the handler, and the two `select` branches.
- `routeStep`, `routeN`: one iteration, and `n` of them.
- `Run`: everything that can happen to one flow.
-/

namespace FlowManager

open Function

/-- The branch a `select` takes. The handler has been started either way; `done`
says whether its effect on the flow has happened. -/
inductive Select where
  | result
  | done (ran : Bool)
  deriving DecidableEq

/-- The world outside the interpreter. -/
structure World (E : Type) where
  /-- `vm.Run` and `ToBoolean` of an `if` expression; `none` when the script fails -/
  condition : E → String → Option Bool
  /-- `checkCondition` of a `while` -/
  check : E → String → Bool
  /-- `conn.ParseText` -/
  parseText : E → String → String
  /-- `scope.Decode` of the arguments of a `goto` -/
  decodeTag : E → Value → Option String
  /-- whether another application calls `SetCancel` -/
  setsCancel : E → Application → Bool
  /-- the branch of the `select` in `Route` -/
  select : E → Application → Select
  /-- how the world goes on after a dispatch -/
  next : E → Application → E

/-- A world where every condition holds, texts stand for themselves, and every request
runs to its end. -/
def steadyWorld : World Unit where
  condition _ _ := some true
  check _ _ := true
  parseText _ text := text
  decodeTag _ args := args.asStr
  setsCancel _ _ := false
  select _ _ := .result
  next _ _ := ()

/-- What a handler did to the flow: whether it evaluated a `while` condition, and
the block it entered. -/
structure Handled where
  flow : Flow
  checked : Bool := false
  entered : Option Nat := none

/-- A handler that sets the cursor to the start of a block. -/
def Handled.enter (i : Flow) (n : Nat) : Handled := { flow := i.enter n, entered := some n }

section Handlers

variable {E : Type} (w : World E) (e : E)

/-- `conditionHandler` -/
def conditionHandler (i : Flow) : Args → Handled
  | .condition expression then_ else_ =>
    match w.condition e expression with
    | some true => Handled.enter i then_
    | some false => Handled.enter i else_
    -- `vm.Run` has failed: the error is returned, and the run goes on behind the `if`
    | none => { flow := i }
  -- bad arguments
  | _ => { flow := i }

/-- `req.Cases[name]` -/
def lookupCase (cases : List (String × Nat)) (name : String) : Option Nat :=
  (cases.find? fun entry => entry.1 == name).map (·.2)

/-- `switchHandler` -/
def switchHandler (i : Flow) : Args → Handled
  | .switch text cases =>
    match lookupCase cases (w.parseText e text) with
    | some n => Handled.enter i n
    | none =>
      -- only a text that names no case falls back to the default one
      match lookupCase cases "default" with
      | some n => Handled.enter i n
      | none => { flow := i }
  | _ => { flow := i }

/-- `endCycle` -/
def endCycle (i : Flow) (wid : Nat) : Flow :=
  { i with step := update i.step wid 0 }

/-- `req.step++` -/
def addStep (i : Flow) (wid : Nat) : Flow :=
  { i with step := update i.step wid (i.step wid + 1) }

/-- `req.counter++` -/
def addCounter (i : Flow) (wid : Nat) : Flow :=
  { i with counter := update i.counter wid (i.counter wid + 1) }

/-- `nextStep`: a block that holds only the copy of the `while` is not entered. -/
def nextStep (i : Flow) (wid : Nat) : Handled :=
  let d := (i.prog.whiles wid).do_
  if i.prog.getLength d = 1 then { flow := endCycle i wid }
  else { flow := addStep (i.enter d) wid, entered := some d }

/-- The part of `whileHandler` before the budget test: an arrival whose previous
request is the original one starts a new cycle. -/
def resetCycle (i : Flow) (wid : Nat) : Flow :=
  if i.counter wid ≠ 0 ∧ i.prevRequest = (i.prog.whiles wid).originalParent then endCycle i wid
  else i

/-- The part of `whileHandler` behind the budget test. -/
def runCycle (i : Flow) (wid : Nat) : Handled :=
  -- the first step of a cycle does not look at the condition
  let h :=
    if i.step wid = 0 ∨ w.check e (i.prog.whiles wid).condition = true then nextStep i wid
    else { flow := endCycle i wid }
  { h with flow := addCounter h.flow wid, checked := decide (i.step wid ≠ 0) }

/-- `whileHandler` -/
def whileHandler (i : Flow) : Args → Handled
  | .loop wid =>
    let i := resetCycle i wid
    if (i.counter wid : Int) < (i.prog.whiles wid).maxSteps then runCycle w e i wid
    -- the budget is one for all cycles of the loop, and it is never given back
    else { flow := i }
  | _ => { flow := i }

/-- `breakHandler` -/
def breakHandler (i : Flow) : Args → Handled
  | .brk => { flow := i.setCancel }
  | _ => { flow := i }

/-- `GotoTag` -/
def gotoTag (i : Flow) (args : Value) : Except Panic Handled :=
  match w.decodeTag e args with
  | some tag => (i.goto tag).map fun r => { flow := r.2 }
  | none => .ok { flow := i }

/-- `handler.Request`: the application registered under the request's name. Of the
other applications only the effect on the flow matters here. -/
def request (i : Flow) (r : ApplicationRequest) : Except Panic Handled :=
  match r.app.name with
  | "if" => .ok (conditionHandler w e i r.args)
  | "while" => .ok (whileHandler w e i r.args)
  | "switch" => .ok (switchHandler w e i r.args)
  | "break" => .ok (breakHandler i r.args)
  | "goto" => gotoTag w e i r.app.args
  | _ => .ok { flow := if w.setsCancel e r.app = true then i.setCancel else i }

end Handlers

/-! ## The loop of `Route` -/

/-- How the first part of an iteration ends: with a `return`, with a `continue`, or
with a request whose handler is started. -/
inductive Top where
  | returned
  | again
  | start (p : ReqPtr) (r : ApplicationRequest)

/-- The request behind a pointer that the program handed out. -/
def Program.load (i : Program) (p : ReqPtr) : Except Panic ApplicationRequest :=
  match i.request p with
  | some r => .ok r
  | none => .error .nilDereference

/-- The request is started: its limiter, if any, counts an iteration. -/
def countIteration (i : Flow) (r : ApplicationRequest) : Flow :=
  match r.limiter with
  | none => i
  | some l => i.addIteration l

/-- The limiter of the request, if its iterations are used up. -/
def exhausted (i : Flow) (r : ApplicationRequest) : Option Nat :=
  match r.limiter with
  | none => none
  | some l => if i.maxCount l = true then some l else none

/-- The limiter test of an iteration. -/
def routeLimit (i : Flow) (p : ReqPtr) (r : ApplicationRequest) : Except Panic (Top × Flow) :=
  match exhausted i r with
  | some l => do
    -- the request is not started: its failover takes over, or the call returns
    let g ← i.goto (i.prog.limiters l).failover
    return (if g.1 = true then .again else .returned, g.2)
  | none => .ok (.start p r, countIteration i r)

/-- An iteration up to the `select`. -/
def routeTop (i : Flow) : Except Panic (Top × Flow) := do
  let n ← i.nextRequest
  match n.1 with
  | none => return (.returned, n.2)
  | some p =>
    let r ← n.2.prog.load p
    -- the request has been taken off its node by now, cancelled or not
    if n.2.cancel = true then return (.returned, n.2)
    else routeLimit n.2 p r

/-- The `ctx.Done()` branch. -/
def routeDone (i : Flow) (p : ReqPtr) : Flow := (i.setInterrupted (some p)).setCancel

/-- The result branch. The loop ends when the flow is cancelled by then. -/
def routeResult (i : Flow) (r : ApplicationRequest) : Flow :=
  let i := match r.app.log with
    | some name => i.pushSteepLog name
    | none => i
  if r.app.breakEnabled = true then i.setCancel else i

/-- One started request, with what its handler did. -/
structure Dispatch where
  ptr : ReqPtr
  app : Application
  checked : Bool
  entered : Option Nat

/-- A call of `Route` in progress. -/
structure RouteState (E : Type) where
  flow : Flow
  env : E
  /-- the requests started so far -/
  trace : List Dispatch
  returned : Bool

/-- The state at the head of the loop. -/
def routeStart {E : Type} (i : Flow) (e : E) : RouteState E :=
  { flow := i.setInterrupted none, env := e, trace := [], returned := false }

section Loop

variable {E : Type} (w : World E)

/-- What the handler has done by the time the `select` is left. -/
def selected (i : Flow) (h : Handled) : Select → Handled
  | .result => h
  | .done ran => if ran = true then h else { flow := i }

/-- The flow and the loop condition after the branch that was taken. -/
def afterSelect (s : RouteState E) (p : ReqPtr) (r : ApplicationRequest) (h : Handled) :
    Select → RouteState E
  | .done _ =>
    { flow := routeDone h.flow p
      env := w.next s.env r.app
      trace := s.trace ++ [⟨p, r.app, h.checked, h.entered⟩]
      returned := true }
  | .result =>
    { flow := routeResult h.flow r
      env := w.next s.env r.app
      trace := s.trace ++ [⟨p, r.app, h.checked, h.entered⟩]
      returned := (routeResult h.flow r).cancel }

/-- The `select` of an iteration: the handler runs, then one branch is taken. -/
def routeSelect (s : RouteState E) (i : Flow) (p : ReqPtr) (r : ApplicationRequest) :
    Except Panic (RouteState E) := do
  let h ← request w s.env i r
  let branch := w.select s.env r.app
  return afterSelect w s p r (selected i h branch) branch

/-- One iteration of the loop of `Route`. -/
def routeStep (s : RouteState E) : Except Panic (RouteState E) :=
  if s.returned = true then .ok s
  else do
    let t ← routeTop s.flow
    match t.1 with
    | .returned => return { s with flow := t.2, returned := true }
    | .again => return { s with flow := t.2 }
    | .start p r => routeSelect w s t.2 p r

/-- `n` iterations. -/
def routeN (n : Nat) (s : RouteState E) : Except Panic (RouteState E) :=
  Loop.iterate (routeStep w) n s

end Loop

/-! ## Everything that happens to a flow -/

/-- `Run f₀ log f`: some sequence of operations leads from `f₀` to `f`, with `log`
the requests started on the way. Iterations of `Route` may belong to any number of
calls, each in any world. -/
inductive Run (f₀ : Flow) : List Dispatch → Flow → Prop where
  | refl : Run f₀ [] f₀
  | route {E : Type} (w : World E) {log : List Dispatch} {s s' : RouteState E} :
      Run f₀ log s.flow → s.trace = log → routeStep w s = .ok s' → Run f₀ s'.trace s'.flow
  | setInterrupted : Run f₀ log f → Run f₀ log (f.setInterrupted none)
  | goto : Run f₀ log f → f.goto tag = .ok r → Run f₀ log r.2
  | reset : Run f₀ log f → Run f₀ log f.reset
  | setCancel : Run f₀ log f → Run f₀ log f.setCancel
  | clearCancel : Run f₀ log f → Run f₀ log f.clearCancel
  | repeatInterrupted (names : List String) :
      Run f₀ log f → Run f₀ log (f.repeatInterrupted names).2
  | fork (schema : Applications) : Run f₀ log f → Run f₀ log (f.fork schema).2
  /-- a flow that shares the maps forks in its turn -/
  | declared (functions triggers : List (String × Applications)) :
      Run f₀ log f →
        Run f₀ log { f with prog := { f.prog with functions := functions, triggers := triggers } }

theorem Run.routeN {E : Type} {w : World E} {s s' : RouteState E} (h : Run f₀ s.trace s.flow)
    (hrun : FlowManager.routeN w n s = .ok s') : Run f₀ s'.trace s'.flow := by
  induction n generalizing s with
  | zero =>
    cases hrun
    exact h
  | succ n ih =>
    obtain ⟨s₁, hstep, hrest⟩ := Loop.iterate_succ_inv hrun
    exact ih (h.route w rfl hstep) hrest

end FlowManager
