import FlowManager.Lib.Channel
import FlowManager.Lib.Outline

/-!
# Callbacks of a bot

While an application `bot` runs, the bot calls back: `executeAndGetResponse` runs a function of
the schema as a sub-flow and waits for the result that the sub-flow passes to `returnResult`.
The channel for the result reaches `returnResult` through the handler of the scope: every
callback overwrites the handler with one that is bound to its own channel, and reads it back
twice, for the handler of the forked flow and for `Route`. The sub-flow runs its requests in
goroutines of their own, may branch into further flows, and `returnResult` starts a goroutine
that sends the result later.

The schema is arbitrary: which request a flow makes next is chosen from outside. Goroutines that
are started at run time are jobs in the memory; the job `k` is done by the worker `k`.

- `executeAndGetResponse`, `round`, `botReturnResult`, `execute`, `schema`: the code, access by
  access.
- `callbacks_outline`: what a step of it can do.
-/

namespace FlowManager.Bot

open Concurrent Function

/-- `workflow.BotExecuteResponse` -/
structure BotExecuteResponse where
  willContinue : Bool
  scheduling : String
  exit : Bool
  output : String
  deriving DecidableEq

/-- The handler of a flow: the one that the scope had before all callbacks, or this one with
`returnResult` bound to a channel -/
abbrev Handler := Option Nat

/-- `AddApplications`: a new handler, in which `returnResult` is bound to the channel -/
def Handler.addApplications (_ : Handler) (funcResp : Nat) : Handler := some funcResp

/-- A flow that runs: its number, the call whose context it runs in, the handler that it was
forked with, and the handler that `Route` was given -/
structure Frame where
  id : Nat
  ctx : Nat
  own : Handler
  handler : Handler
  deriving DecidableEq

/-- A flow that a request starts: `execute` and `schema`, both as a part of the flow or beside
it -/
inductive Branch where
  | execute (async : Bool)
  | schema (async : Bool)
  deriving DecidableEq

def Branch.async : Branch → Bool
  | .execute async => async
  | .schema async => async

/-- The application of a request -/
inductive App where
  | other
  /-- `none` if the response is no valid structure -/
  | returnResult (r : Option BotExecuteResponse)
  | branch (b : Branch)
  deriving DecidableEq

/-- A request of a flow; `cancels` if it has the flag to break the flow. -/
structure Request where
  app : App
  cancels : Bool
  deriving DecidableEq

/-- What a goroutine that is started at run time does. -/
inductive Job where
  /-- a request of a flow -/
  | request (fr : Frame) (req : Request)
  /-- `go Route(..)` -/
  | route (fr : Frame)
  /-- the goroutine of `botReturnResult` for a flow of the call `ctx` -/
  | send (ch : Nat) (r : BotExecuteResponse) (ctx : Nat)
  deriving DecidableEq

/-- The scope, with the channels and contexts of the callbacks and the flows and goroutines that
they have started. A callback, its channel and its context have one number. -/
structure Scope where
  handler : Handler
  calls : Nat
  /-- the result in the buffer of a channel, which has room for one -/
  buffer : Nat → Option BotExecuteResponse
  closed : Nat → Bool
  ended : Nat → Bool
  flows : Nat
  cancel : Nat → Bool
  jobs : List Job
  finished : Nat → Bool
  /-- a goroutine has panicked, and the process with it -/
  panicked : Bool

namespace Scope

def makeChan (s : Scope) : Scope :=
  { s with
    calls := s.calls + 1
    buffer := update s.buffer s.calls none
    closed := update s.closed s.calls false }

def fork (s : Scope) : Scope :=
  { s with flows := s.flows + 1, cancel := update s.cancel s.flows false }

def setCancel (s : Scope) (id : Nat) : Scope :=
  { s with cancel := update s.cancel id true }

/-- A goroutine is started; its number is the old length of `jobs`. -/
def spawn (s : Scope) (j : Job) : Scope :=
  { s with jobs := s.jobs ++ [j], finished := update s.finished s.jobs.length false }

def panic (s : Scope) : Scope := { s with panicked := true }

end Scope

/-- The accesses -/
inductive Op where
  /-- `make(chan workflow.BotExecuteResponse, 1)` -/
  | makeChan
  /-- `scope.handler.AddApplications(..)` -/
  | addApplications (funcResp : Nat)
  /-- `scope.handler = h` -/
  | setHandler (h : Handler)
  /-- `scope.Fork` -/
  | fork
  /-- `scope.handler` -/
  | handler
  /-- `Fork` of a flow that runs; its handler does not change -/
  | forkFlow
  | isCancel (id : Nat)
  | setCancel (id : Nat)
  | spawn (j : Job)
  /-- the goroutine `k` begins -/
  | job (k : Nat)
  | finish (k : Nat)
  /-- the `select` of `Route` -/
  | awaitRequest (ctx : Nat) (k : Nat)
  /-- the `select` of the goroutine of `botReturnResult` -/
  | send (ch : Nat) (r : BotExecuteResponse) (ctx : Nat)
  /-- the `select` of `executeAndGetResponse` -/
  | await (funcResp : Nat)
  | close (funcResp : Nat)
  /-- a context ends -/
  | endCtx (ctx : Nat)

/-- The answer to an access. -/
abbrev Op.Result : Op → Type
  | .makeChan => Nat
  | .addApplications _ => Handler
  | .fork => Handler × Nat
  | .handler => Handler
  | .forkFlow => Nat
  | .isCancel _ => Bool
  | .spawn _ => Nat
  | .job _ => Job
  | .awaitRequest _ _ => Bool
  | .await _ => Option BotExecuteResponse
  | _ => Unit

/-- What comes from outside. -/
structure Outside where
  /-- the next request of a flow, if there is one -/
  next : Option Request
  /-- a `select` is left through `ctx.Done()` -/
  done : Bool
  /-- the context that ends -/
  ctx : Nat

/-- The accesses in a process that runs; `none` if they cannot be made yet. -/
def attempt (w : Outside) : (a : Op) → Scope → Option (a.Result × Scope)
  | .makeChan, s => some (s.calls, s.makeChan)
  | .addApplications funcResp, s => some (s.handler.addApplications funcResp, s)
  | .setHandler h, s => some ((), { s with handler := h })
  | .fork, s => some ((s.handler, s.flows), s.fork)
  | .handler, s => some (s.handler, s)
  | .forkFlow, s => some (s.flows, s.fork)
  | .isCancel id, s => some (s.cancel id, s)
  | .setCancel id, s => some ((), s.setCancel id)
  | .spawn j, s => some (s.jobs.length, s.spawn j)
  | .job k, s =>
    match s.jobs[k]? with
    | some j => some (j, s)
    | none => none
  | .finish k, s => some ((), { s with finished := update s.finished k true })
  -- of the branches of a `select` that are ready, `w.done` says which one is taken
  | .awaitRequest ctx k, s =>
    if w.done then if s.ended ctx then some (false, s) else none
    else if s.finished k then some (true, s) else none
  | .send ch r ctx, s =>
    if w.done then if s.ended ctx then some ((), s) else none
    else if s.closed ch then some ((), s.panic)
    -- the channel has room for one result
    else match s.buffer ch with
      | none => some ((), { s with buffer := update s.buffer ch (some r) })
      | some _ => none
  | .await funcResp, s =>
    if w.done then if s.ended funcResp then some (none, s) else none
    else match s.buffer funcResp with
      | some r => some (some r, { s with buffer := update s.buffer funcResp none })
      | none => none
  | .close funcResp, s =>
    if s.closed funcResp then some ((), s.panic)
    else some ((), { s with closed := update s.closed funcResp true })
  | .endCtx ctx, s => some ((), { s with ended := update s.ended ctx true })

/-- The accesses; nothing is done after a panic. -/
def exec (w : Outside) (a : Op) (s : Scope) : Option (a.Result × Scope) :=
  if s.panicked then none else attempt w a s

abbrev Go := Prog Op Op.Result

/-- A single access. -/
abbrev access (a : Op) : Go a.Result := call a

/-- Where `Route` was called. -/
inductive Ret where
  /-- in `executeAndGetResponse` -/
  | callback
  /-- in the request `k` of the flow `parent` -/
  | request (k : Nat) (parent : Frame)
  /-- by `go`, as the job `k` -/
  | async (k : Nat)

/-- Where a goroutine goes on. -/
inductive Label where
  /-- no callback is under way -/
  | idle
  /-- `executeAndGetResponse` has returned, with `none` for an error -/
  | responded (call : Nat) (r : Option BotExecuteResponse)
  /-- the loop of `Route` -/
  | routing (fr : Frame) (ret : Ret)
  /-- the worker `k` has not been started -/
  | asleep (k : Nat)
  /-- the worker has ended -/
  | gone
  /-- contexts end -/
  | client

/-- The end of a job -/
def finish (k : Nat) : Go Label := do
  access (.finish k)
  return .gone

/-- `if fnScope.IsCancel() { scope.SetCancel() }`, and the end of the request -/
def inherit (child k : Nat) (parent : Frame) : Go Label := do
  if ← access (.isCancel child) then
    access (.setCancel parent.id)
    finish k
  else finish k

/-- What follows when `Route` has returned. -/
def returned (fr : Frame) : Ret → Go Label
  | .callback => do
    let response ← access (.await fr.ctx)
    access (.close fr.ctx)
    return .responded fr.ctx response
  | .request k parent => inherit fr.id k parent
  | .async k => finish k

/-- `Route`, at the end of a round -/
def settle (fr : Frame) (ret : Ret) : Go Label := do
  if ← access (.isCancel fr.id) then returned fr ret else return .routing fr ret

/-- `Route`, from its `select` on -/
def awaitRequest (fr : Frame) (ret : Ret) (req : Request) (k : Nat) : Go Label := do
  if ← access (.awaitRequest fr.ctx k) then
    if req.cancels then
      access (.setCancel fr.id)
      settle fr ret
    else settle fr ret
  else
    access (.setCancel fr.id)
    returned fr ret

/-- A round of `Route` with the request `req` -/
def round (fr : Frame) (ret : Ret) (req : Request) : Go Label := do
  if ← access (.isCancel fr.id) then returned fr ret
  else
    let k ← access (.spawn (.request fr req))
    awaitRequest fr ret req k

/-- `router.executeAndGetResponse` up to `Route` -/
def executeAndGetResponse : Go Label := do
  let funcResp ← access .makeChan
  -- the handler is a field of the scope, and every callback writes it
  let h ← access (.addApplications funcResp)
  access (.setHandler h)
  let (own, id) ← access .fork
  let handler ← access .handler
  return .routing ⟨id, funcResp, own, handler⟩ .callback

/-- `router.botReturnResult`, for a handler that has it -/
def botReturnResult (k : Nat) (fr : Frame) (result : Option BotExecuteResponse) (chanResult : Nat) :
    Go Label := do
  access (.setCancel fr.id)
  match result with
  | some r =>
    let _ ← access (.spawn (.send chanResult r fr.ctx))
    finish k
  -- a response that is no valid struct: the flow is cancelled all the same
  | none => finish k

/-- A flow that is forked from `fr`; `Route` is called with the handler of `fr`. -/
def Frame.child (fr : Frame) (id : Nat) : Frame := ⟨id, fr.ctx, fr.own, fr.own⟩

/-- `router.execute` -/
def execute (k : Nat) (fr : Frame) (async : Bool) : Go Label := do
  let id ← access .forkFlow
  if async then
    let _ ← access (.spawn (.route (fr.child id)))
    -- the flow has only just been started when its flag is read
    inherit id k fr
  else return .routing (fr.child id) (.request k fr)

/-- `router.schema` -/
def schema (k : Nat) (fr : Frame) (async : Bool) : Go Label := do
  let id ← access .forkFlow
  if async then
    let _ ← access (.spawn (.route (fr.child id)))
    finish k
  else return .routing (fr.child id) (.request k fr)

/-- `Handler.Request`: the goroutine of a request -/
def request (k : Nat) (fr : Frame) (req : Request) : Go Label :=
  match req.app with
  | .other => finish k
  | .returnResult r =>
    match fr.handler with
    | some chanResult => botReturnResult k fr r chanResult
    | none => finish k
  | .branch (.execute async) => execute k fr async
  | .branch (.schema async) => schema k fr async

/-- The worker `k` -/
def work (k : Nat) : Job → Go Label
  | .request fr req => request k fr req
  | .route fr => .ret (.routing fr (.async k))
  | .send ch r ctx => do
    access (.send ch r ctx)
    finish k

/-- The callbacks, the goroutines that they start, and the contexts -/
inductive Thread (n : Nat) where
  | callback (i : Fin n)
  | worker (k : Nat)
  | client
  deriving DecidableEq

/-- Callbacks on one scope, with sub-flows of any schema. -/
def callbacks : System Scope Outside Op Op.Result Label where
  exec := exec
  code w
    | .idle => some executeAndGetResponse
    | .responded _ _ => some (.ret .idle)
    | .routing fr ret =>
      match w.next with
      | none => some (returned fr ret)
      | some req => some (round fr ret req)
    | .asleep k => some do work k (← access (.job k))
    | .gone => none
    | .client => some do
        access (.endCtx w.ctx)
        return .client
  env _ _ := False

abbrev BotPool (n : Nat) := Pool (Thread n) Scope Op Op.Result Label

/-- A scope before all callbacks -/
def ready (n : Nat) : BotPool n where
  shared := ⟨none, 0, fun _ => none, fun _ => false, fun _ => false, 0, fun _ => false, [],
    fun _ => false, false⟩
  thread
    | .callback _ => .ret .idle
    | .worker k => .ret (.asleep k)
    | .client => .ret .client

/-! ## Points of the code -/

/-- Where a goroutine is in `Route`. -/
inductive RoutePoint where
  | routing
  | checking (req : Request)
  | spawning (req : Request)
  | waiting (req : Request) (k : Nat)
  | breaking
  | settling
  | rechecking

def RoutePoint.prog (fr : Frame) (ret : Ret) : RoutePoint → Go Label
  | .routing => .ret (.routing fr ret)
  | .checking req => round fr ret req
  | .spawning req => .act (.spawn (.request fr req)) (awaitRequest fr ret req)
  | .waiting req k => awaitRequest fr ret req k
  | .breaking => .act (.setCancel fr.id) fun _ => returned fr ret
  | .settling => .act (.setCancel fr.id) fun _ => settle fr ret
  | .rechecking => settle fr ret

/-- Where a goroutine is when `Route` has returned or not. -/
def afterRoute (fr : Frame) (ret : Ret) : Option RoutePoint → Go Label
  | some rp => rp.prog fr ret
  | none => returned fr ret

/-- Where a callback is. -/
inductive CallbackPoint where
  | idle
  | making
  | adding (c : Nat)
  | setting (c : Nat) (h : Handler)
  | forking (c : Nat)
  | reading (c : Nat) (own : Handler) (id : Nat)
  | route (fr : Frame) (rp : RoutePoint)
  | awaiting (c : Nat)
  | closing (c : Nat) (r : Option BotExecuteResponse)
  | responded (c : Nat) (r : Option BotExecuteResponse)

def CallbackPoint.prog : CallbackPoint → Go Label
  | .idle => .ret .idle
  | .making => executeAndGetResponse
  | .adding c => .act (.addApplications c) fun h => .act (.setHandler h) fun _ =>
      .act .fork fun r => .act .handler fun handler =>
        .ret (.routing ⟨r.2, c, r.1, handler⟩ .callback)
  | .setting c h => .act (.setHandler h) fun _ => .act .fork fun r =>
      .act .handler fun handler => .ret (.routing ⟨r.2, c, r.1, handler⟩ .callback)
  | .forking c => .act .fork fun r =>
      .act .handler fun handler => .ret (.routing ⟨r.2, c, r.1, handler⟩ .callback)
  | .reading c own id => .act .handler fun handler =>
      .ret (.routing ⟨id, c, own, handler⟩ .callback)
  | .route fr rp => rp.prog fr .callback
  | .awaiting c => .act (.await c) fun r => .act (.close c) fun _ => .ret (.responded c r)
  | .closing c r => .act (.close c) fun _ => .ret (.responded c r)
  | .responded c r => .ret (.responded c r)

/-- Where a worker is; `parent` is the flow whose request it does, if it does one. -/
inductive WorkerPoint where
  | asleep
  | starting
  | route (fr : Frame) (parent : Option Frame) (rp : RoutePoint)
  | returning (fr : Frame) (r : Option BotExecuteResponse) (ch : Nat)
  | launching (fr : Frame) (r : BotExecuteResponse) (ch : Nat)
  | branching (fr : Frame) (b : Branch)
  | detaching (fr : Frame) (id : Nat) (b : Branch)
  | inheriting (child : Nat) (parent : Frame)
  | marking (parent : Frame)
  | sending (ch : Nat) (r : BotExecuteResponse) (ctx : Nat)
  | finishing
  | gone

/-- Where `Route` was called, for the worker `k` -/
def retOf (k : Nat) : Option Frame → Ret
  | some parent => .request k parent
  | none => .async k

/-- What a branch does after `go Route(..)`. -/
def afterDetach (k : Nat) (fr : Frame) (id : Nat) : Branch → Go Label
  | .execute _ => inherit id k fr
  | .schema _ => finish k

/-- `execute` and `schema` -/
def branch (k : Nat) (fr : Frame) : Branch → Go Label
  | .execute async => execute k fr async
  | .schema async => schema k fr async

def WorkerPoint.prog (k : Nat) : WorkerPoint → Go Label
  | .asleep => .ret (.asleep k)
  | .starting => .act (.job k) (work k)
  | .route fr parent rp => rp.prog fr (retOf k parent)
  | .returning fr r ch => botReturnResult k fr r ch
  | .launching fr r ch => .act (.spawn (.send ch r fr.ctx)) fun _ => finish k
  | .branching fr b => branch k fr b
  | .detaching fr id b => .act (.spawn (.route (fr.child id))) fun _ => afterDetach k fr id b
  | .inheriting child parent => inherit child k parent
  | .marking parent => .act (.setCancel parent.id) fun _ => finish k
  | .sending ch r ctx => .act (.send ch r ctx) fun _ => finish k
  | .finishing => finish k
  | .gone => .ret .gone

/-- Contexts end. -/
inductive ClientPoint where
  | idle
  | ending (ctx : Nat)

def ClientPoint.prog : ClientPoint → Go Label
  | .idle => .ret .client
  | .ending ctx => .act (.endCtx ctx) fun _ => .ret .client

/-- The points of a goroutine -/
abbrev Point {n : Nat} : Thread n → Type
  | .callback _ => CallbackPoint
  | .worker _ => WorkerPoint
  | .client => ClientPoint

/-- What a goroutine has still to do. -/
def progAt {n : Nat} : (t : Thread n) → Point t → Go Label
  | .callback _ => CallbackPoint.prog
  | .worker k => WorkerPoint.prog k
  | .client => ClientPoint.prog

/-- A move in `Route`, which returns at `none` -/
inductive RouteMoves (m : Scope) (fr : Frame) :
    RoutePoint → Option Op → Scope → Option RoutePoint → Prop where
  | over : RouteMoves m fr .routing none m none
  | next : RouteMoves m fr .routing none m (some (.checking req))
  | stop : RouteMoves m fr (.checking req) (some (.isCancel fr.id)) m none
  | check : RouteMoves m fr (.checking req) (some (.isCancel fr.id)) m (some (.spawning req))
  | spawn :
      RouteMoves m fr (.spawning req) (some (.spawn (.request fr req)))
        (m.spawn (.request fr req)) (some (.waiting req m.jobs.length))
  | cutOff : RouteMoves m fr (.waiting req k) (some (.awaitRequest fr.ctx k)) m (some .breaking)
  | answer : RouteMoves m fr (.waiting req k) (some (.awaitRequest fr.ctx k)) m (some .rechecking)
  | answerLast : RouteMoves m fr (.waiting req k) (some (.awaitRequest fr.ctx k)) m (some .settling)
  | breakOff : RouteMoves m fr .breaking (some (.setCancel fr.id)) (m.setCancel fr.id) none
  | settle :
      RouteMoves m fr .settling (some (.setCancel fr.id)) (m.setCancel fr.id) (some .rechecking)
  | cancelled : RouteMoves m fr .rechecking (some (.isCancel fr.id)) m none
  | again : RouteMoves m fr .rechecking (some (.isCancel fr.id)) m (some .routing)

/-- A callback moves. -/
inductive CallbackMoves (m : Scope) : CallbackPoint → Option Op → Scope → CallbackPoint → Prop
    where
  | start : CallbackMoves m .idle none m .making
  | make : CallbackMoves m .making (some .makeChan) m.makeChan (.adding m.calls)
  | add :
      CallbackMoves m (.adding c) (some (.addApplications c)) m
        (.setting c (m.handler.addApplications c))
  | set : CallbackMoves m (.setting c h) (some (.setHandler h)) { m with handler := h } (.forking c)
  | fork : CallbackMoves m (.forking c) (some .fork) m.fork (.reading c m.handler m.flows)
  | read {id : Nat} :
      CallbackMoves m (.reading c own id) (some .handler) m
        (.route ⟨id, c, own, m.handler⟩ .routing)
  | route {fr : Frame} {rp rp' : RoutePoint} {a : Option Op} {m' : Scope}
      (h : RouteMoves m fr rp a m' (some rp')) :
      CallbackMoves m (.route fr rp) a m' (.route fr rp')
  | returned (h : RouteMoves m fr rp a m' none) :
      CallbackMoves m (.route fr rp) a m' (.awaiting fr.ctx)
  | receive (h : m.buffer c = some r) :
      CallbackMoves m (.awaiting c) (some (.await c))
        { m with buffer := update m.buffer c none } (.closing c (some r))
  | giveUp (h : m.ended c = true) :
      CallbackMoves m (.awaiting c) (some (.await c)) m (.closing c none)
  | close (h : m.closed c = false) :
      CallbackMoves m (.closing c r) (some (.close c))
        { m with closed := update m.closed c true } (.responded c r)
  | closeClosed (h : m.closed c = true) :
      CallbackMoves m (.closing c r) (some (.close c)) m.panic (.responded c r)
  | back : CallbackMoves m (.responded c r) none m .idle

/-- Where a worker begins. -/
def Job.point : Job → WorkerPoint
  | .request fr req =>
    match req.app with
    | .other => .finishing
    | .returnResult r =>
      match fr.handler with
      | some ch => .returning fr r ch
      | none => .finishing
    | .branch b => .branching fr b
  | .route fr => .route fr none .routing
  | .send ch r ctx => .sending ch r ctx

/-- Where a worker goes on when `Route` has returned. -/
def WorkerPoint.afterRoute (fr : Frame) : Option Frame → WorkerPoint
  | some parent => .inheriting fr.id parent
  | none => .finishing

/-- A worker moves. -/
inductive WorkerMoves (m : Scope) (k : Nat) :
    WorkerPoint → Option Op → Scope → WorkerPoint → Prop where
  | wake : WorkerMoves m k .asleep none m .starting
  | start (h : m.jobs[k]? = some j) : WorkerMoves m k .starting (some (.job k)) m j.point
  | route {fr : Frame} {parent : Option Frame} {rp rp' : RoutePoint} {a : Option Op} {m' : Scope}
      (h : RouteMoves m fr rp a m' (some rp')) :
      WorkerMoves m k (.route fr parent rp) a m' (.route fr parent rp')
  | returned {fr : Frame} {parent : Option Frame} {rp : RoutePoint} {a : Option Op} {m' : Scope}
      (h : RouteMoves m fr rp a m' none) :
      WorkerMoves m k (.route fr parent rp) a m' (.afterRoute fr parent)
  | cancel :
      WorkerMoves m k (.returning fr (some r) ch) (some (.setCancel fr.id)) (m.setCancel fr.id)
        (.launching fr r ch)
  | reject :
      WorkerMoves m k (.returning fr none ch) (some (.setCancel fr.id)) (m.setCancel fr.id)
        .finishing
  | launch :
      WorkerMoves m k (.launching fr r ch) (some (.spawn (.send ch r fr.ctx)))
        (m.spawn (.send ch r fr.ctx)) .finishing
  | branch :
      WorkerMoves m k (.branching fr b) (some .forkFlow) m.fork
        (.route (fr.child m.flows) (some fr) .routing)
  | branchOff : WorkerMoves m k (.branching fr b) (some .forkFlow) m.fork (.detaching fr m.flows b)
  | detach {fr : Frame} {id : Nat} {async : Bool} :
      WorkerMoves m k (.detaching fr id (.execute async)) (some (.spawn (.route (fr.child id))))
        (m.spawn (.route (fr.child id))) (.inheriting id fr)
  | detachSchema {fr : Frame} {id : Nat} {async : Bool} :
      WorkerMoves m k (.detaching fr id (.schema async)) (some (.spawn (.route (fr.child id))))
        (m.spawn (.route (fr.child id))) .finishing
  | inherit :
      WorkerMoves m k (.inheriting child parent) (some (.isCancel child)) m (.marking parent)
  | spare : WorkerMoves m k (.inheriting child parent) (some (.isCancel child)) m .finishing
  | mark :
      WorkerMoves m k (.marking parent) (some (.setCancel parent.id)) (m.setCancel parent.id)
        .finishing
  | send {ch ctx : Nat} {r : BotExecuteResponse} (hopen : m.closed ch = false) :
      WorkerMoves m k (.sending ch r ctx) (some (.send ch r ctx))
        { m with buffer := update m.buffer ch (some r) } .finishing
  | quit {ch ctx : Nat} {r : BotExecuteResponse} :
      WorkerMoves m k (.sending ch r ctx) (some (.send ch r ctx)) m .finishing
  | sendClosed {ch ctx : Nat} {r : BotExecuteResponse} (h : m.closed ch = true) :
      WorkerMoves m k (.sending ch r ctx) (some (.send ch r ctx)) m.panic .finishing
  | finish : WorkerMoves m k .finishing (some (.finish k))
      { m with finished := update m.finished k true } .gone

/-- A context ends. -/
inductive ClientMoves (m : Scope) : ClientPoint → Option Op → Scope → ClientPoint → Prop where
  | start : ClientMoves m .idle none m (.ending ctx)
  | endCtx :
      ClientMoves m (.ending ctx) (some (.endCtx ctx))
        { m with ended := update m.ended ctx true } .idle

/-- What a goroutine can do. -/
def moves {n : Nat} : (t : Thread n) → Scope → Point t → Option Op → Scope → Point t → Prop
  | .callback _ => CallbackMoves
  | .worker k => fun m => WorkerMoves m k
  | .client => ClientMoves

/-- A goroutine in `Route` moves as `Route` does. -/
theorem route_leads {Q : Type} {prog : Q → Go Label} {pt : Q}
    {moves : Scope → Q → Option Op → Scope → Q → Prop} (hprog : prog pt = rp.prog fr ret)
    (hmoves : ∀ {a m' out}, RouteMoves m fr rp a m' out →
      ∃ pt', afterRoute fr ret out = prog pt' ∧ moves m pt a m' pt') :
    Leads attempt callbacks.code prog moves m pt := by
  unfold Leads
  rw [hprog]
  cases rp with
  | routing =>
    intro w p hcode
    cases hnext : w.next with
    | none =>
      simp only [callbacks, hnext] at hcode
      cases hcode
      exact hmoves .over
    | some req =>
      simp only [callbacks, hnext] at hcode
      cases hcode
      exact hmoves .next
  | checking req =>
    rintro w _ ⟨⟩
    cases m.cancel fr.id with
    | true => exact hmoves .stop
    | false => exact hmoves .check
  | spawning req =>
    rintro w _ ⟨⟩
    exact hmoves .spawn
  | waiting req j =>
    intro w y hexec
    simp only [attempt] at hexec
    split at hexec
    · split at hexec <;> cases hexec
      exact hmoves .cutOff
    · split at hexec <;> cases hexec
      by_cases hcancels : req.cancels = true
      · simpa [hcancels, afterRoute, RoutePoint.prog] using hmoves .answerLast
      · simpa [hcancels, afterRoute, RoutePoint.prog] using hmoves .answer
  | breaking =>
    rintro w _ ⟨⟩
    exact hmoves .breakOff
  | settling =>
    rintro w _ ⟨⟩
    exact hmoves .settle
  | rechecking =>
    rintro w _ ⟨⟩
    cases m.cancel fr.id with
    | true => exact hmoves .cancelled
    | false => exact hmoves .again

theorem callback_leads (m : Scope) (pt : CallbackPoint) :
    Leads attempt callbacks.code CallbackPoint.prog CallbackMoves m pt := by
  cases pt with
  | idle => exact .next .start
  | making => exact .act .make
  | adding c => exact .act .add
  | setting c h => exact .act .set
  | forking c => exact .act .fork
  | reading c own id => exact .act .read
  | route fr rp =>
    refine route_leads rfl fun {a m' out} hmoves => ?_
    cases out with
    | some rp' => exact ⟨.route fr rp', rfl, .route hmoves⟩
    | none => exact ⟨.awaiting fr.ctx, rfl, .returned hmoves⟩
  | awaiting c =>
    intro w y hexec
    simp only [attempt] at hexec
    split at hexec
    · split at hexec <;> cases hexec
      exact ⟨.closing c none, rfl, .giveUp ‹_›⟩
    · split at hexec <;> cases hexec
      exact ⟨.closing c (some _), rfl, .receive ‹_›⟩
  | closing c x =>
    intro w y hexec
    simp only [attempt] at hexec
    split at hexec <;> cases hexec
    · exact ⟨.responded c x, rfl, .closeClosed ‹_›⟩
    · exact ⟨.responded c x, rfl, .close (Bool.eq_false_iff.mpr ‹_›)⟩
  | responded c x => exact .next .back

theorem work_point (k : Nat) (j : Job) : work k j = j.point.prog k := by
  cases j with
  | request fr req =>
    obtain ⟨app, cancels⟩ := req
    cases app with
    | other => rfl
    | returnResult r =>
      simp only [work, request, Job.point]
      cases fr.handler <;> rfl
    | branch b => cases b <;> rfl
  | route fr => rfl
  | send ch r ctx => rfl

theorem worker_leads (m : Scope) (j : Nat) (pt : WorkerPoint) :
    Leads attempt callbacks.code (WorkerPoint.prog j) (fun m => WorkerMoves m j) m pt := by
  cases pt with
  | asleep => exact .next .wake
  | starting =>
    intro w y hexec
    simp only [attempt] at hexec
    split at hexec <;> cases hexec
    exact ⟨_, work_point j _, .start ‹_›⟩
  | route fr parent rp =>
    refine route_leads rfl fun {a m' out} hmoves => ?_
    cases out with
    | some rp' => exact ⟨.route fr parent rp', rfl, .route hmoves⟩
    | none =>
      refine ⟨.afterRoute fr parent, ?_, .returned hmoves⟩
      cases parent <;> rfl
  | returning fr x ch =>
    cases x with
    | some x => exact .act .cancel
    | none => exact .act .reject
  | launching fr x ch => exact .act .launch
  | branching fr b =>
    rcases b with (_ | _) | (_ | _)
    · exact .act .branch
    · exact .act .branchOff
    · exact .act .branch
    · exact .act .branchOff
  | detaching fr id b =>
    cases b with
    | execute async => exact .act .detach
    | schema async => exact .act .detachSchema
  | inheriting child parent =>
    rintro w _ ⟨⟩
    cases m.cancel child with
    | true => exact ⟨.marking parent, rfl, .inherit⟩
    | false => exact ⟨.finishing, rfl, .spare⟩
  | marking parent => exact .act .mark
  | sending ch x ctx =>
    intro w y hexec
    refine ⟨.finishing, ?_⟩
    simp only [attempt] at hexec
    split at hexec
    · split at hexec <;> cases hexec
      exact ⟨rfl, .quit⟩
    · split at hexec
      · rename_i hclosed
        cases hexec
        exact ⟨rfl, .sendClosed hclosed⟩
      · rename_i hopen
        split at hexec <;> cases hexec
        exact ⟨rfl, .send (Bool.eq_false_iff.mpr hopen)⟩
  | finishing => exact .act .finish
  | gone => exact nofun

theorem client_leads (m : Scope) (pt : ClientPoint) :
    Leads attempt callbacks.code ClientPoint.prog ClientMoves m pt := by
  cases pt with
  | idle =>
    rintro w _ ⟨⟩
    exact ⟨.ending w.ctx, rfl, .start⟩
  | ending ctx => exact .act .endCtx

theorem callbacks_outline (n : Nat) : Outline callbacks (progAt (n := n)) (Moving moves) := by
  refine Outline.of_moves (fun t m pt => ?_) (fun h => (Option.ite_none_left_eq_some.mp h).2)
    fun _ _ => id
  cases t with
  | callback i => exact callback_leads m pt
  | worker j => exact worker_leads m j pt
  | client => exact client_leads m pt

end FlowManager.Bot
