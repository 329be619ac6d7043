import FlowManager.Lib.Channel
import FlowManager.Lib.Outline

/-!
# Events of the attempts in a queue

The call centre creates an attempt when a handler of `joinQueue` asks for a place in a queue, and
emits events of it from then on. They come in one stream; `listenEvents` takes one after another,
looks up the channel of its attempt in the map `attempts` and sends it there. The handler adds
its channel to the map when it has been told the number of the attempt, and closes and removes it
when it leaves. `listenEvents` looks into the map without the lock, and its send has no buffer.

- `listenEvents`, `subscribeAttempt`, `unSubscribeAttempt`, `joinQueue`: the calls, access by
  access.
- `attempts_outline`: what a step of them can do.
- `Books`: which handler has which attempt and which channel. `Books.handler`: every step of a
  handler keeps them.
-/

namespace FlowManager.Cc

open Concurrent Function

/-- `model.CCQueueEvent` -/
structure QueueEvent where
  attemptId : Nat
  event : String
  result : String
  deriving DecidableEq

/-- `ccManager`, with what has been asked of the call centre and what has come from it -/
structure Manager where
  /-- how many attempts have been created; they are numbered -/
  created : Nat
  /-- the events that have been emitted and not been taken by `listenEvents` -/
  events : List QueueEvent
  attempts : Nat → Option Nat
  chans : Channels QueueEvent
  locked : Bool
  /-- a goroutine has panicked, and the process with it -/
  panicked : Bool

/-- How the loop of `joinQueue` leaves its `select`. -/
inductive Awaited where
  /-- `ctx.Done()` -/
  | done
  /-- the dialog has been handed back -/
  | returned
  | event (e : QueueEvent)

/-- The accesses -/
inductive Op where
  | lock
  | unlock
  /-- `cm.attempts[id]` -/
  | lookup (id : Nat)
  /-- `make(chan model.CCQueueEvent)` -/
  | make
  /-- `cm.attempts[id] = ch` -/
  | store (id : Nat) (ch : Nat)
  | delete (id : Nat)
  | close (ch : Nat)
  /-- the `select` of `listenEvents` -/
  | take
  /-- `a <- event` begins -/
  | offer (ch : Nat) (e : QueueEvent)
  /-- `a <- event` ends -/
  | sent (ticket : Nat)
  /-- the request `JoinIMToQueue` to the call centre -/
  | join
  /-- the `select` of `joinQueue` -/
  | await (ch : Nat)
  /-- the call centre emits an event -/
  | emit (e : QueueEvent)

/-- The answer to an access. -/
abbrev Op.Result : Op → Type
  | .lookup _ => Option Nat
  | .make => Nat
  | .take => Option QueueEvent
  | .offer _ _ => Nat
  | .join => Option Nat
  | .await _ => Awaited
  | _ => Unit

/-- How a `select` of `joinQueue` is left, if it can be left in more than one way. -/
inductive Leave where
  | done
  | returned
  | event

/-- What comes from outside. -/
structure Outside where
  /-- what the call centre emits next -/
  event : QueueEvent
  /-- `JoinIMToQueue` succeeds -/
  joins : Bool
  leave : Leave
  /-- the manager has been stopped -/
  stopped : Bool

/-- The process ends. -/
def Manager.panic (s : Manager) : Manager := { s with panicked := true }

/-- The accesses in a process that runs; `none` if they cannot be made yet. An attempt may have
been created although `JoinIMToQueue` fails. From a closed channel the zero value is received. -/
def attempt (w : Outside) : (a : Op) → Manager → Option (a.Result × Manager)
  | .lock, s => if s.locked then none else some ((), { s with locked := true })
  | .unlock, s => some ((), { s with locked := false })
  | .lookup id, s => some (s.attempts id, s)
  | .make, s => some (s.chans.next, { s with chans := s.chans.make })
  | .store id ch, s => some ((), { s with attempts := update s.attempts id (some ch) })
  | .delete id, s => some ((), { s with attempts := update s.attempts id none })
  | .close ch, s =>
    if s.chans.closed ch then some ((), s.panic)
    else some ((), { s with chans := s.chans.close ch })
  | .take, s =>
    if w.stopped then some (none, s)
    else match s.events with
      | [] => none
      | e :: rest => some (some e, { s with events := rest })
  | .offer ch e, s =>
    if s.chans.closed ch then some (0, s.panic)
    else some (s.chans.next, { s with chans := s.chans.offer ch e })
  | .sent ticket, s =>
    match s.chans.standing ticket with
    | none => some ((), s)
    | some o => if s.chans.closed o.chan then some ((), s.panic) else none
  | .join, s =>
    some (if w.joins then some s.created else none, { s with created := s.created + 1 })
  | .await ch, s =>
    match w.leave with
    | .done => some (.done, s)
    | .returned => some (.returned, s)
    | .event =>
      match s.chans.first ch with
      | some o => some (.event o.value, { s with chans := s.chans.withdraw o.ticket })
      -- a closed channel is always ready, with the zero event
      | none => if s.chans.closed ch then some (.event ⟨0, "", ""⟩, s) else none
  | .emit e, s =>
    -- the call centre sends no event of an attempt that it has not created
    if e.attemptId < s.created then some ((), { s with events := s.events ++ [e] }) else none

/-- The accesses; nothing is done after a panic. -/
def exec (w : Outside) (a : Op) (s : Manager) : Option (a.Result × Manager) :=
  if s.panicked then none else attempt w a s

abbrev Go := Prog Op Op.Result

/-- A single access. -/
abbrev access (a : Op) : Go a.Result := call a

/-- Where a goroutine goes on. -/
inductive Label where
  /-- `listenEvents` in its loop -/
  | listening
  /-- `listenEvents` has returned -/
  | stopped
  /-- the call centre -/
  | emitting
  /-- no `joinQueue` is under way -/
  | idle
  /-- `joinQueue` in its loop -/
  | queued (id : Nat) (ch : Nat)

/-- One round of `ccManager.listenEvents` -/
def listenEvents : Go Label := do
  match ← access .take with
  | none => return .stopped
  | some event =>
    match ← access (.lookup event.attemptId) with
    -- nobody has subscribed, and the event is dropped
    | none => return .listening
    | some a =>
      let ticket ← access (.offer a event)
      access (.sent ticket)
      return .listening

/-- `ccManager.SubscribeAttempt` -/
def subscribeAttempt (attemptId : Nat) : Go Nat := do
  access .lock
  let e ← access (.lookup attemptId)
  access .unlock
  match e with
  | some e => return e
  | none =>
    -- the lock is not held while the channel is made
    let e ← access .make
    access .lock
    access (.store attemptId e)
    access .unlock
    return e

/-- `ccManager.UnSubscribeAttempt` -/
def unSubscribeAttempt (attemptId : Nat) : Go Unit := do
  access .lock
  match ← access (.lookup attemptId) with
  | some ch =>
    access (.close ch)
    access (.delete attemptId)
    access .unlock
  | none => access .unlock

/-- `FlowManager.JoinIMToInboundQueue` -/
def joinIMToInboundQueue : Go (Option (Nat × Nat)) := do
  match ← access .join with
  | none => return none
  | some id => return some (id, ← subscribeAttempt id)

/-- `FlowManager.LeavingIMToInboundQueue`, deferred by `joinQueue` -/
def leavingIMToInboundQueue (attId : Nat) : Go Label := do
  unSubscribeAttempt attId
  return .idle

/-- `Router.joinQueue` up to its loop -/
def joinQueue : Go Label := do
  match ← joinIMToInboundQueue with
  | none => return .idle
  | some (attId, ch) => return .queued attId ch

/-- One round of the loop of `Router.joinQueue`; the event `bridged` only stops timers. -/
def awaitEvent (attId ch : Nat) : Go Label := do
  match ← access (.await ch) with
  | .done => leavingIMToInboundQueue attId
  | .returned => leavingIMToInboundQueue attId
  | .event e =>
    if e.event = "leaving" then leavingIMToInboundQueue attId else return .queued attId ch

/-- The event loop, the call centre and the handlers of `joinQueue` -/
inductive Thread (n : Nat) where
  | loop
  | center
  | handler (i : Fin n)
  deriving DecidableEq

/-- The event loop with a call centre that emits events of attempts that it has created, and
handlers that join a queue again and again. -/
def attempts : System Manager Outside Op Op.Result Label where
  exec := exec
  code w
    | .listening => some listenEvents
    | .stopped => none
    | .emitting => some do
        access (.emit w.event)
        return .emitting
    | .idle => some joinQueue
    | .queued id ch => some (awaitEvent id ch)
  env _ _ := False

abbrev AttemptPool (n : Nat) := Pool (Thread n) Manager Op Op.Result Label

/-- Nobody has joined a queue. -/
def started (n : Nat) : AttemptPool n where
  shared := ⟨0, [], fun _ => none, .empty, false, false⟩
  thread
    | .loop => .ret .listening
    | .center => .ret .emitting
    | .handler _ => .ret .idle

/-! ## Points of the code -/

/-- Where `listenEvents` is. -/
inductive LoopPoint where
  | listening
  | stopped
  | taking
  | looking (e : QueueEvent)
  | offering (e : QueueEvent) (ch : Nat)
  | sending (e : QueueEvent) (ch : Nat) (ticket : Nat)

def LoopPoint.prog : LoopPoint → Go Label
  | .listening => .ret .listening
  | .stopped => .ret .stopped
  | .taking => listenEvents
  | .looking e => .act (.lookup e.attemptId) fun
    | none => .ret .listening
    | some ch => .act (.offer ch e) fun ticket => .act (.sent ticket) fun _ => .ret .listening
  | .offering e ch => .act (.offer ch e) fun ticket => .act (.sent ticket) fun _ =>
      .ret .listening
  | .sending _ _ ticket => .act (.sent ticket) fun _ => .ret .listening

/-- Where the call centre is. -/
inductive CenterPoint where
  | idle
  | emitting (e : QueueEvent)

def CenterPoint.prog : CenterPoint → Go Label
  | .idle => .ret .emitting
  | .emitting e => .act (.emit e) fun _ => .ret .emitting

/-- Where a handler is. -/
inductive HandlerPoint where
  | idle
  | joining
  /-- `SubscribeAttempt` -/
  | entering (id : Nat)
  | looking (id : Nat)
  | looked (id : Nat) (found : Option Nat)
  | making (id : Nat)
  | relocking (id ch : Nat)
  | storing (id ch : Nat)
  | stored (id ch : Nat)
  /-- the loop -/
  | queued (id ch : Nat)
  | awaiting (id ch : Nat)
  /-- `UnSubscribeAttempt` -/
  | leaving (id ch : Nat)
  | finding (id ch : Nat)
  | closing (id ch found : Nat)
  | deleting (id ch : Nat)
  | unlocking

/-- `SubscribeAttempt`, once it has looked into the map -/
def afterLookup (id : Nat) : Option Nat → Go Label
  | some ch => .act .unlock fun _ => .ret (.queued id ch)
  | none => .act .unlock fun _ => .act .make fun ch => .act .lock fun _ =>
      .act (.store id ch) fun _ => .act .unlock fun _ => .ret (.queued id ch)

def HandlerPoint.prog : HandlerPoint → Go Label
  | .idle => .ret .idle
  | .joining => joinQueue
  | .entering id => do return .queued id (← subscribeAttempt id)
  | .looking id => .act (.lookup id) (afterLookup id)
  | .looked id found => afterLookup id found
  | .making id => .act .make fun ch => .act .lock fun _ =>
      .act (.store id ch) fun _ => .act .unlock fun _ => .ret (.queued id ch)
  | .relocking id ch => .act .lock fun _ => .act (.store id ch) fun _ => .act .unlock fun _ =>
      .ret (.queued id ch)
  | .storing id ch => .act (.store id ch) fun _ => .act .unlock fun _ => .ret (.queued id ch)
  | .stored id ch => .act .unlock fun _ => .ret (.queued id ch)
  | .queued id ch => .ret (.queued id ch)
  | .awaiting id ch => awaitEvent id ch
  | .leaving id _ => leavingIMToInboundQueue id
  | .finding id _ => .act (.lookup id) fun
    | some ch => .act (.close ch) fun _ => .act (.delete id) fun _ => .act .unlock fun _ =>
        .ret .idle
    | none => .act .unlock fun _ => .ret .idle
  | .closing id _ found => .act (.close found) fun _ => .act (.delete id) fun _ =>
      .act .unlock fun _ => .ret .idle
  | .deleting id _ => .act (.delete id) fun _ => .act .unlock fun _ => .ret .idle
  | .unlocking => .act .unlock fun _ => .ret .idle

/-- The points of a goroutine -/
abbrev Point {n : Nat} : Thread n → Type
  | .loop => LoopPoint
  | .center => CenterPoint
  | .handler _ => HandlerPoint

/-- What a goroutine has still to do. -/
def progAt {n : Nat} : (t : Thread n) → Point t → Go Label
  | .loop => LoopPoint.prog
  | .center => CenterPoint.prog
  | .handler _ => HandlerPoint.prog

/-- `listenEvents` moves. -/
inductive LoopMoves (m : Manager) : LoopPoint → Option Op → Manager → LoopPoint → Prop where
  | start : LoopMoves m .listening none m .taking
  | take {e : QueueEvent} {rest : List QueueEvent} (h : m.events = e :: rest) :
      LoopMoves m .taking (some .take) { m with events := rest } (.looking e)
  | stop : LoopMoves m .taking (some .take) m .stopped
  | drop {e : QueueEvent} (h : m.attempts e.attemptId = none) :
      LoopMoves m (.looking e) (some (.lookup e.attemptId)) m .listening
  | find {e : QueueEvent} {ch : Nat} (h : m.attempts e.attemptId = some ch) :
      LoopMoves m (.looking e) (some (.lookup e.attemptId)) m (.offering e ch)
  | offer {e : QueueEvent} {ch : Nat} (h : m.chans.closed ch = false) :
      LoopMoves m (.offering e ch) (some (.offer ch e)) { m with chans := m.chans.offer ch e }
        (.sending e ch m.chans.next)
  | sent {e : QueueEvent} {ch ticket : Nat} (h : m.chans.standing ticket = none) :
      LoopMoves m (.sending e ch ticket) (some (.sent ticket)) m .listening
  | offerClosed {e : QueueEvent} {ch : Nat} {pt : LoopPoint} (h : m.chans.closed ch = true) :
      LoopMoves m (.offering e ch) (some (.offer ch e)) m.panic pt
  | sentClosed {e : QueueEvent} {ch ticket : Nat} {o : Offer QueueEvent} {pt : LoopPoint}
      (h : m.chans.standing ticket = some o) (hclosed : m.chans.closed o.chan = true) :
      LoopMoves m (.sending e ch ticket) (some (.sent ticket)) m.panic pt

/-- The call centre moves. -/
inductive CenterMoves (m : Manager) : CenterPoint → Option Op → Manager → CenterPoint → Prop where
  | start {e : QueueEvent} : CenterMoves m .idle none m (.emitting e)
  | emit {e : QueueEvent} (h : e.attemptId < m.created) :
      CenterMoves m (.emitting e) (some (.emit e)) { m with events := m.events ++ [e] } .idle

/-- A handler moves. -/
inductive HandlerMoves (m : Manager) : HandlerPoint → Option Op → Manager → HandlerPoint → Prop
    where
  | start : HandlerMoves m .idle none m .joining
  | refuse : HandlerMoves m .joining (some .join) { m with created := m.created + 1 } .idle
  | join : HandlerMoves m .joining (some .join) { m with created := m.created + 1 }
      (.entering m.created)
  | enter {id : Nat} : HandlerMoves m (.entering id) (some .lock) { m with locked := true }
      (.looking id)
  | look {id : Nat} : HandlerMoves m (.looking id) (some (.lookup id)) m
      (.looked id (m.attempts id))
  | adopt {id ch : Nat} : HandlerMoves m (.looked id (some ch)) (some .unlock)
      { m with locked := false } (.queued id ch)
  | absent {id : Nat} : HandlerMoves m (.looked id none) (some .unlock)
      { m with locked := false } (.making id)
  | make {id : Nat} : HandlerMoves m (.making id) (some .make) { m with chans := m.chans.make }
      (.relocking id m.chans.next)
  | relock {id ch : Nat} : HandlerMoves m (.relocking id ch) (some .lock)
      { m with locked := true } (.storing id ch)
  | store {id ch : Nat} : HandlerMoves m (.storing id ch) (some (.store id ch))
      { m with attempts := update m.attempts id (some ch) } (.stored id ch)
  | unlock {id ch : Nat} : HandlerMoves m (.stored id ch) (some .unlock)
      { m with locked := false } (.queued id ch)
  | round {id ch : Nat} : HandlerMoves m (.queued id ch) none m (.awaiting id ch)
  | quit {id ch : Nat} : HandlerMoves m (.awaiting id ch) (some (.await ch)) m (.leaving id ch)
  | take {id ch : Nat} {o : Offer QueueEvent} (h : m.chans.first ch = some o)
      (hstays : o.value.event ≠ "leaving") :
      HandlerMoves m (.awaiting id ch) (some (.await ch))
        { m with chans := m.chans.withdraw o.ticket } (.queued id ch)
  | takeLast {id ch : Nat} {o : Offer QueueEvent} (h : m.chans.first ch = some o)
      (hleaves : o.value.event = "leaving") :
      HandlerMoves m (.awaiting id ch) (some (.await ch))
        { m with chans := m.chans.withdraw o.ticket } (.leaving id ch)
  | drain {id ch : Nat} (h : m.chans.closed ch = true) :
      HandlerMoves m (.awaiting id ch) (some (.await ch)) m (.queued id ch)
  | leave {id ch : Nat} : HandlerMoves m (.leaving id ch) (some .lock) { m with locked := true }
      (.finding id ch)
  | find {id ch found : Nat} (h : m.attempts id = some found) :
      HandlerMoves m (.finding id ch) (some (.lookup id)) m (.closing id ch found)
  | miss {id ch : Nat} (h : m.attempts id = none) :
      HandlerMoves m (.finding id ch) (some (.lookup id)) m .unlocking
  | close {id ch found : Nat} (h : m.chans.closed found = false) :
      HandlerMoves m (.closing id ch found) (some (.close found))
        { m with chans := m.chans.close found } (.deleting id ch)
  | closeClosed {id ch found : Nat} {pt : HandlerPoint} (h : m.chans.closed found = true) :
      HandlerMoves m (.closing id ch found) (some (.close found)) m.panic pt
  | delete {id ch : Nat} : HandlerMoves m (.deleting id ch) (some (.delete id))
      { m with attempts := update m.attempts id none } .unlocking
  | finish : HandlerMoves m .unlocking (some .unlock) { m with locked := false } .idle

/-- What a goroutine can do. -/
def moves {n : Nat} : (t : Thread n) → Manager → Point t → Option Op → Manager → Point t → Prop
  | .loop => LoopMoves
  | .center => CenterMoves
  | .handler _ => HandlerMoves

theorem loop_leads (m : Manager) (pt : LoopPoint) :
    Leads attempt attempts.code LoopPoint.prog LoopMoves m pt := by
  cases pt with
  | listening => exact .next .start
  | taking =>
    intro w y hexec
    simp only [attempt] at hexec
    split at hexec
    · cases hexec
      exact ⟨.stopped, rfl, .stop⟩
    · split at hexec
      · cases hexec
      · rename_i e rest hevents
        cases hexec
        refine ⟨.looking e, congrArg (Prog.act _) (funext fun found => ?_), .take hevents⟩
        cases found <;> rfl
  | looking e =>
    rintro w _ ⟨⟩
    cases hfound : m.attempts e.attemptId with
    | none => exact ⟨.listening, rfl, .drop hfound⟩
    | some ch => exact ⟨.offering e ch, rfl, .find hfound⟩
  | offering e ch =>
    intro w y hexec
    simp only [attempt] at hexec
    split at hexec <;> cases hexec
    · exact ⟨.sending e ch 0, rfl, .offerClosed ‹_›⟩
    · exact ⟨.sending e ch m.chans.next, rfl, .offer (Bool.eq_false_iff.mpr ‹_›)⟩
  | sending e ch ticket =>
    intro w y hexec
    refine ⟨.listening, ?_⟩
    simp only [attempt] at hexec
    split at hexec
    · rename_i hgone
      cases hexec
      exact ⟨rfl, .sent hgone⟩
    · rename_i o ho
      split at hexec <;> cases hexec
      exact ⟨rfl, .sentClosed ho ‹_›⟩
  | stopped => exact nofun

theorem center_leads (m : Manager) (pt : CenterPoint) :
    Leads attempt attempts.code CenterPoint.prog CenterMoves m pt := by
  cases pt with
  | idle =>
    rintro w _ ⟨⟩
    exact ⟨.emitting w.event, rfl, .start⟩
  | emitting e =>
    intro w y hexec
    simp only [attempt] at hexec
    split at hexec <;> cases hexec
    exact ⟨.idle, rfl, .emit ‹_›⟩

theorem handler_leads (m : Manager) (pt : HandlerPoint) :
    Leads attempt attempts.code HandlerPoint.prog HandlerMoves m pt := by
  have hlock : ∀ {w y}, attempt w .lock m = some y → y = ((), { m with locked := true }) := by
    intro w y hexec
    simp only [attempt] at hexec
    split at hexec <;> cases hexec
    rfl
  cases pt with
  | idle => exact .next .start
  | joining =>
    rintro w _ ⟨⟩
    cases w.joins with
    | false => exact ⟨.idle, rfl, .refuse⟩
    | true =>
      refine ⟨.entering m.created, congrArg (Prog.act _) (funext fun _ => ?_), .join⟩
      refine congrArg (Prog.act _) (funext fun found => ?_)
      cases found <;> rfl
  | entering id =>
    intro w y hexec
    cases hlock hexec
    refine ⟨.looking id, congrArg (Prog.act _) (funext fun found => ?_), .enter⟩
    cases found <;> rfl
  | looking id => exact .act .look
  | looked id found =>
    cases found with
    | none => exact .act .absent
    | some ch => exact .act .adopt
  | making id => exact .act .make
  | relocking id ch =>
    intro w y hexec
    cases hlock hexec
    exact ⟨.storing id ch, rfl, .relock⟩
  | storing id ch => exact .act .store
  | stored id ch => exact .act .unlock
  | queued id ch => exact .next .round
  | awaiting id ch =>
    intro w y hexec
    simp only [attempt] at hexec
    split at hexec
    · cases hexec
      exact ⟨.leaving id ch, rfl, .quit⟩
    · cases hexec
      exact ⟨.leaving id ch, rfl, .quit⟩
    · split at hexec
      · rename_i o ho
        cases hexec
        by_cases hlast : o.value.event = "leaving"
        · exact ⟨.leaving id ch, if_pos hlast, .takeLast ho hlast⟩
        · exact ⟨.queued id ch, if_neg hlast, .take ho hlast⟩
      · split at hexec <;> cases hexec
        exact ⟨.queued id ch, rfl, .drain ‹_›⟩
  | leaving id ch =>
    intro w y hexec
    cases hlock hexec
    refine ⟨.finding id ch, congrArg (Prog.act _) (funext fun found => ?_), .leave⟩
    cases found <;> rfl
  | finding id ch =>
    rintro w _ ⟨⟩
    cases hfound : m.attempts id with
    | none => exact ⟨.unlocking, rfl, .miss hfound⟩
    | some found => exact ⟨.closing id ch found, rfl, .find hfound⟩
  | closing id ch found =>
    intro w y hexec
    refine ⟨.deleting id ch, ?_⟩
    simp only [attempt] at hexec
    split at hexec <;> cases hexec
    · exact ⟨rfl, .closeClosed ‹_›⟩
    · exact ⟨rfl, .close (Bool.eq_false_iff.mpr ‹_›)⟩
  | deleting id ch => exact .act .delete
  | unlocking => exact .act .finish

theorem attempts_outline (n : Nat) : Outline attempts (progAt (n := n)) (Moving moves) := by
  refine Outline.of_moves (fun t m pt => ?_) (fun h => (Option.ite_none_left_eq_some.mp h).2)
    fun _ _ => id
  cases t with
  | loop => exact loop_leads m pt
  | center => exact center_leads m pt
  | handler i => exact handler_leads m pt

/-! ## Which handler has what -/

/-- The attempt that a handler has been given -/
def HandlerPoint.attempt : HandlerPoint → Option Nat
  | .idle | .joining | .unlocking => none
  | .entering id | .looking id | .looked id _ | .making id | .relocking id _ | .storing id _
  | .stored id _ | .queued id _ | .awaiting id _ | .leaving id _ | .finding id _
  | .closing id _ _ | .deleting id _ => some id

/-- The channel that a handler has made -/
def HandlerPoint.chan : HandlerPoint → Option Nat
  | .relocking _ ch | .storing _ ch | .stored _ ch | .queued _ ch | .awaiting _ ch
  | .leaving _ ch | .finding _ ch | .closing _ ch _ | .deleting _ ch => some ch
  | _ => none

/-- The channel of a handler, as long as it is open -/
def HandlerPoint.live : HandlerPoint → Option Nat
  | .deleting _ _ => none
  | pt => pt.chan

/-- What a handler has in the map -/
def HandlerPoint.entry : HandlerPoint → Option (Nat × Nat)
  | .stored id ch | .queued id ch | .awaiting id ch | .leaving id ch | .finding id ch
  | .closing id ch _ | .deleting id ch => some (id, ch)
  | _ => none

/-- The attempt and the channel of a handler that reads, or is about to -/
def HandlerPoint.reading : HandlerPoint → Option (Nat × Nat)
  | .stored id ch | .queued id ch | .awaiting id ch => some (id, ch)
  | _ => none

/-- What a handler has found in the map is its own. -/
def HandlerPoint.Sound : HandlerPoint → Prop
  | .looked _ found => found = none
  | .closing _ ch found => found = ch
  | _ => True

theorem HandlerPoint.of_entry {pt : HandlerPoint} {id ch : Nat} (h : pt.entry = some (id, ch)) :
    pt.attempt = some id ∧ pt.chan = some ch := by
  cases pt <;> cases h <;> exact ⟨rfl, rfl⟩

theorem HandlerPoint.of_reading {pt : HandlerPoint} {id ch : Nat}
    (h : pt.reading = some (id, ch)) : pt.entry = some (id, ch) ∧ pt.live = some ch := by
  cases pt <;> cases h <;> exact ⟨rfl, rfl⟩

/-- Every attempt and every channel has one handler at most; the map has the channels of the
handlers that have added theirs and not removed it; and a channel is open until its handler
closes it. -/
structure Books {n : Nat} (m : Manager) (hs : Fin n → HandlerPoint) : Prop where
  ids : Allotted (fun i => (hs i).attempt) m.created
  chans : Allotted (fun i => (hs i).chan) m.chans.next
  stored : ∀ {i id ch}, (hs i).entry = some (id, ch) → m.attempts id = some ch
  only : ∀ {id ch}, m.attempts id = some ch → ∃ i, (hs i).entry = some (id, ch)
  live : ∀ {i ch}, (hs i).live = some ch → m.chans.closed ch = false
  sound : ∀ i, (hs i).Sound

section Books

variable {n : Nat} {m m' : Manager} {hs : Fin n → HandlerPoint} {i : Fin n} {pt : HandlerPoint}

theorem owned_update {β : Type} (f : HandlerPoint → β) :
    (fun j => f (update hs i pt j)) = update (fun j => f (hs j)) i (f pt) :=
  funext fun j => Function.apply_update (fun _ => f) hs i pt j

section

variable (h : Books m hs)
include h

/-- An attempt that its handler has not added is not in the map. -/
theorem Books.absent {id : Nat} (hid : (hs i).attempt = some id)
    (hentry : (hs i).entry = none) : m.attempts id = none := by
  cases hattempts : m.attempts id with
  | none => rfl
  | some ch =>
    obtain ⟨j, hj⟩ := h.only hattempts
    have hij : i = j := h.ids.inj hid (HandlerPoint.of_entry hj).1
    rw [hij, hj] at hentry
    cases hentry

/-- A handler moves, and the map does not change. -/
theorem Books.update
    (hids : Allotted (Function.update (fun j => (hs j).attempt) i pt.attempt) m'.created)
    (hchans : Allotted (Function.update (fun j => (hs j).chan) i pt.chan) m'.chans.next)
    (hattempts : m'.attempts = m.attempts) (hentry : pt.entry = (hs i).entry)
    (hlive : ∀ ch, pt.live = some ch → m'.chans.closed ch = false)
    (hothers : ∀ j, j ≠ i → ∀ ch, (hs j).live = some ch → m'.chans.closed ch = false)
    (hsound : pt.Sound) : Books m' (Function.update hs i pt) := by
  have hsame : ∀ j, (Function.update hs i pt j).entry = (hs j).entry :=
    (Function.forall_update_iff hs fun j (p : HandlerPoint) => p.entry = (hs j).entry).mpr
      ⟨hentry, fun _ _ => rfl⟩
  constructor
  · rw [owned_update HandlerPoint.attempt]
    exact hids
  · rw [owned_update HandlerPoint.chan]
    exact hchans
  · intro j id ch hj
    rw [hsame] at hj
    rw [hattempts]
    exact h.stored hj
  · intro id ch hid
    rw [hattempts] at hid
    obtain ⟨j, hj⟩ := h.only hid
    exact ⟨j, (hsame j).trans hj⟩
  · intro j ch
    exact (Function.forall_update_iff hs fun _ (p : HandlerPoint) =>
      ∀ ch, p.live = some ch → m'.chans.closed ch = false).mpr ⟨hlive, hothers⟩ j ch
  · exact (Function.forall_update_iff hs fun _ (p : HandlerPoint) => p.Sound).mpr
      ⟨hsound, fun j _ => h.sound j⟩

/-- A handler moves, and neither the map nor the state of a channel changes. -/
theorem Books.frame (hcreated : m.created ≤ m'.created)
    (hnext : m'.chans.next = m.chans.next) (hattempts : m'.attempts = m.attempts)
    (hclosed : m'.chans.closed = m.chans.closed)
    (hattempt : pt.attempt = none ∨ pt.attempt = (hs i).attempt)
    (hchan : pt.chan = none ∨ pt.chan = (hs i).chan) (hentry : pt.entry = (hs i).entry)
    (hlive : pt.live = none ∨ pt.live = (hs i).live) (hsound : pt.Sound) :
    Books m' (Function.update hs i pt) := by
  refine h.update (h.ids.release hattempt hcreated)
    (h.chans.release hchan (Nat.le_of_eq hnext.symm)) hattempts hentry ?_ ?_ hsound
  · intro ch hch
    rw [hclosed]
    rcases hlive with hnone | hold
    · rw [hnone] at hch
      cases hch
    · exact h.live (hold.symm.trans hch)
  · intro j _ ch hch
    rw [hclosed]
    exact h.live hch

/-- Somebody else moves. -/
theorem Books.elsewhere (hcreated : m'.created = m.created)
    (hnext : m.chans.next ≤ m'.chans.next) (hattempts : m'.attempts = m.attempts)
    (hclosed : m'.chans.closed = m.chans.closed) : Books m' hs where
  ids := hcreated ▸ h.ids
  chans := h.chans.mono (fun _ _ => id) hnext
  stored := hattempts ▸ h.stored
  only := hattempts ▸ h.only
  live := hclosed ▸ h.live
  sound := h.sound

/-- A handler is given a new attempt. -/
theorem Books.join (hpt : hs i = .joining) : Books { m with created := m.created + 1 }
      (Function.update hs i (.entering m.created)) := by
  refine h.update (h.ids.give i) (h.chans.release (.inl rfl) (Nat.le_refl _)) rfl ?_ nofun
    (fun j _ ch => h.live) trivial
  rw [hpt]
  rfl

end

theorem HandlerPoint.chan_of_live (h : pt.live = some ch) : pt.chan = some ch := by
  cases pt <;> cases h <;> rfl

/-- A handler makes its channel. -/
theorem Books.make (h : Books m hs) {id : Nat} (hpt : hs i = .making id) :
    Books { m with chans := m.chans.make }
      (Function.update hs i (.relocking id m.chans.next)) := by
  refine h.update ?_ (h.chans.give i) rfl ?_ ?_ ?_ trivial
  · exact h.ids.release (.inr (by rw [hpt]; rfl)) (Nat.le_refl _)
  · rw [hpt]
    rfl
  · intro ch hch
    cases hch
    exact Channels.make_closed_self _
  · intro j _ ch hch
    show m.chans.make.closed ch = false
    rw [Channels.make_closed_of_lt (h.chans.lt (HandlerPoint.chan_of_live hch))]
    exact h.live hch

/-- A handler closes its channel; nobody else has it. -/
theorem Books.close (h : Books m hs) {id ch found : Nat} (hpt : hs i = .closing id ch found) :
    Books { m with chans := m.chans.close found } (Function.update hs i (.deleting id ch)) := by
  have hfound : found = ch := by
    have hsound := h.sound i
    rw [hpt] at hsound
    exact hsound
  have hchan : (hs i).chan = some ch := by
    rw [hpt]
    rfl
  refine h.update ?_ ?_ rfl ?_ nofun ?_ trivial
  · exact h.ids.release (.inr (by rw [hpt]; rfl)) (Nat.le_refl _)
  · exact h.chans.release (.inr hchan.symm) (Nat.le_refl _)
  · rw [hpt]
    rfl
  · intro j hji c hc
    have hne : c ≠ found := by
      rintro rfl
      rw [hfound] at hc
      exact hji (h.chans.inj (HandlerPoint.chan_of_live hc) hchan)
    exact (update_of_ne hne ..).trans (h.live hc)

/-- A handler changes its own entry in the map. -/
theorem Books.write (h : Books m hs) (ch : Nat) {id : Nat}
    (hid : (hs i).attempt = some id) (hchan : (hs i).chan = some ch)
    (hattempt : pt.attempt = none ∨ pt.attempt = some id)
    (hpt : pt.chan = none ∨ pt.chan = some ch)
    (hv : v = pt.entry.map Prod.snd) (hentry : ∀ id' ch', pt.entry = some (id', ch') → id' = id)
    (hlive : pt.live = none ∨ pt.live = (hs i).live) (hsound : pt.Sound) :
    Books { m with attempts := Function.update m.attempts id v } (Function.update hs i pt) := by
  -- another handler has another attempt
  have hother : ∀ {j id' ch'}, j ≠ i → (hs j).entry = some (id', ch') → id' ≠ id := by
    rintro j id' ch' hji hj rfl
    exact hji (h.ids.inj (HandlerPoint.of_entry hj).1 hid)
  constructor
  · rw [owned_update HandlerPoint.attempt]
    exact h.ids.release (hid ▸ hattempt) (Nat.le_refl _)
  · rw [owned_update HandlerPoint.chan]
    exact h.chans.release (hchan ▸ hpt) (Nat.le_refl _)
  · intro j id' ch'
    refine (Function.forall_update_iff hs fun _ (p : HandlerPoint) => p.entry = some (id', ch') →
      Function.update m.attempts id v id' = some ch').mpr ⟨?_, ?_⟩ j
    · intro hp
      rw [hentry _ _ hp, update_self, hv, hp]
      rfl
    · intro j hji hj
      rw [update_of_ne (hother hji hj)]
      exact h.stored hj
  · intro id' ch' hid'
    change Function.update m.attempts id v id' = some ch' at hid'
    by_cases hsame : id' = id
    · subst hsame
      rw [update_self, hv] at hid'
      obtain ⟨⟨id'', c⟩, hpair, rfl⟩ := Option.map_eq_some_iff.mp hid'
      refine ⟨i, ?_⟩
      rw [update_self, hpair, hentry _ _ hpair]
    · rw [update_of_ne hsame] at hid'
      obtain ⟨j, hj⟩ := h.only hid'
      refine ⟨j, ?_⟩
      rw [update_of_ne]
      · exact hj
      · -- the handler that moves has the attempt `id`
        rintro rfl
        exact hsame (Option.some.inj ((HandlerPoint.of_entry hj).1.symm.trans hid))
  · intro j c
    refine (Function.forall_update_iff hs fun _ (p : HandlerPoint) =>
      p.live = some c → m.chans.closed c = false).mpr ⟨?_, fun j _ => h.live⟩ j
    intro hp
    rcases hlive with hnone | hold
    · rw [hnone] at hp
      cases hp
    · exact h.live (hold.symm.trans hp)
  · exact (Function.forall_update_iff hs fun _ (p : HandlerPoint) => p.Sound).mpr
      ⟨hsound, fun j _ => h.sound j⟩

/-- A step of a handler -/
theorem Books.handler (h : Books m hs) {a : Option Op} (hmoves : HandlerMoves m (hs i) a m' pt) :
    Books m' (Function.update hs i pt) ∧ m'.panicked = m.panicked := by
  generalize hpt : hs i = pt₀ at hmoves
  -- most steps leave the map and the channels as they are
  have hframe : ∀ {m' : Manager} {pt : HandlerPoint}, m'.created = m.created →
      m'.chans.next = m.chans.next → m'.attempts = m.attempts →
      m'.chans.closed = m.chans.closed → (pt.attempt = none ∨ pt.attempt = pt₀.attempt) →
      (pt.chan = none ∨ pt.chan = pt₀.chan) → pt.entry = pt₀.entry →
      (pt.live = none ∨ pt.live = pt₀.live) → pt.Sound → Books m' (Function.update hs i pt) := by
    intro m' pt hcreated
    rw [← hpt]
    exact h.frame (Nat.le_of_eq hcreated.symm)
  cases hmoves with
  | start | finish =>
    exact ⟨hframe rfl rfl rfl rfl (.inl rfl) (.inl rfl) rfl (.inl rfl) trivial, rfl⟩
  | refuse =>
    exact ⟨h.frame (Nat.le_succ _) rfl rfl rfl (.inl rfl) (.inl rfl) (by rw [hpt]; rfl)
      (.inl rfl) trivial, rfl⟩
  | join => exact ⟨h.join hpt, rfl⟩
  | enter | absent =>
    exact ⟨hframe rfl rfl rfl rfl (.inr rfl) (.inl rfl) rfl (.inl rfl) trivial, rfl⟩
  | look =>
    refine ⟨hframe rfl rfl rfl rfl (.inr rfl) (.inl rfl) rfl (.inl rfl) ?_, rfl⟩
    exact h.absent (by rw [hpt]; rfl) (by rw [hpt]; rfl)
  | adopt =>
    have hsound := h.sound i
    rw [hpt] at hsound
    cases hsound
  | make => exact ⟨h.make hpt, rfl⟩
  | relock | unlock | round | quit | take | takeLast | drain | leave =>
    exact ⟨hframe rfl rfl rfl rfl (.inr rfl) (.inr rfl) rfl (.inr rfl) trivial, rfl⟩
  | @store id ch =>
    refine ⟨h.write ch (by rw [hpt]; rfl) (by rw [hpt]; rfl) (.inr rfl) (.inr rfl) rfl ?_
      (.inr (by rw [hpt]; rfl)) trivial, rfl⟩
    rintro id' ch' ⟨⟩
    rfl
  | @find id ch found hfound =>
    refine ⟨hframe rfl rfl rfl rfl (.inr rfl) (.inr rfl) rfl (.inr rfl) ?_, rfl⟩
    have hstored : m.attempts id = some ch := h.stored (i := i) (by rw [hpt]; rfl)
    exact Option.some.inj (hfound.symm.trans hstored)
  | @miss id ch hmiss =>
    have hstored : m.attempts id = some ch := h.stored (i := i) (by rw [hpt]; rfl)
    rw [hmiss] at hstored
    cases hstored
  | close => exact ⟨h.close hpt, rfl⟩
  | @closeClosed id ch found _ hclosed =>
    have hsound := h.sound i
    rw [hpt] at hsound
    have hlive : m.chans.closed ch = false := h.live (i := i) (by rw [hpt]; rfl)
    rw [show found = ch from hsound, hlive] at hclosed
    cases hclosed
  | @delete id ch =>
    refine ⟨h.write ch (by rw [hpt]; rfl) (by rw [hpt]; rfl) (.inl rfl) (.inl rfl) rfl
      nofun (.inl rfl) trivial, rfl⟩

end Books

end FlowManager.Cc
