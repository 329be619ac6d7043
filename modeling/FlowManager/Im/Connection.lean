import Mathlib.Data.List.AList
import FlowManager.Flow.Route
import FlowManager.Im.Event
import FlowManager.Lib.Concurrent

/-!
# IM connections (providers/im/connection.go, providers/im/store.go)

The state that the listener and the goroutines of the dialogs share, and the methods of a
connection as programs over it. Every access that Go makes atomic, by `atomic`, by the
mutex of the connection, by a channel or by `sync.Map`, is one access here, so that every
interleaving of the goroutines is an interleaving of these accesses.

- `Server`: the connections, the connection store and the `pushParent` map.
- `Op`, `exec`: the accesses.
- `suspend`, `resume`, `break_`, ...: the methods.

Messages, variables and the remote calls that only send something are left out.
-/

namespace FlowManager.Im

open Concurrent Function

/-- `connState` -/
inductive ConnState where
  | running
  | suspended
  | terminating
  deriving DecidableEq

/-- A `*Connection`: the session id, which never changes, and which of the connections made
for it this is. -/
structure Ptr where
  id : String
  gen : Nat
  deriving DecidableEq

/-- The channels that are only ever closed: the `Done` channels of contexts, and those of
`EnterQueue`. They are numbered as they are made. -/
structure Channels where
  next : Nat
  closed : List Nat
  made : ∀ n ∈ closed, n < next

/-- The fields of `Connection` that decide how long it lives. -/
structure Connection where
  /-- `to` -/
  bot : Endpoint
  nested : Bool
  state : ConnState
  /-- the lifetime context, which `cancelCtx` ends -/
  ctx : Nat
  /-- the context of the current run, which `runCancel` ends -/
  runCtx : Nat
  /-- a signal waits in the buffer of `resumeCh` -/
  resumeCh : Bool
  queueReturn : Option Nat

/-- What the goroutines share. -/
structure Server where
  chans : Channels
  conns : Ptr → Connection
  /-- connections made so far -/
  made : Nat
  /-- `connectionStore` -/
  store : AList fun _ : String => Nat
  pushParent : AList fun _ : String => String
  /-- dialogs that wait for the schema runner -/
  consume : List Ptr
  /-- the flow `i` of the `runSchema` of each connection -/
  flows : Ptr → Option Flow

/-- The capacity of `consume` -/
def consumeSize : Nat := 100

/-! ## Channels -/

namespace Channels

/-- The channel is closed; in the case of a context, it is done. -/
def Closed (s : Channels) (n : Nat) : Prop := n ∈ s.closed

instance (s : Channels) (n : Nat) : Decidable (s.Closed n) :=
  inferInstanceAs (Decidable (n ∈ s.closed))

/-- A new channel, which gets the number `s.next`. -/
def make (s : Channels) : Channels where
  next := s.next + 1
  closed := s.closed
  made n h := Nat.lt_succ_of_lt (s.made n h)

/-- A channel is closed, if there is such a channel. -/
def close (s : Channels) (n : Nat) : Channels :=
  if h : n < s.next then
    { next := s.next
      closed := n :: s.closed
      made := by
        intro m hm
        rcases List.mem_cons.mp hm with rfl | hm
        · exact h
        · exact s.made m hm }
  else s

@[simp]
theorem closed_make (s : Channels) (n : Nat) : s.make.Closed n ↔ s.Closed n := Iff.rfl

/-- A new channel is open. -/
theorem not_closed_next (s : Channels) : ¬ s.Closed s.next :=
  fun h => absurd (s.made _ h) (Nat.lt_irrefl _)

@[simp]
theorem close_next (s : Channels) (n : Nat) : (s.close n).next = s.next := by
  unfold close
  split <;> rfl

/-- Closing a channel closes no other. -/
theorem closed_close (s : Channels) (n m : Nat) :
    (s.close n).Closed m ↔ s.Closed m ∨ (m = n ∧ n < s.next) := by
  unfold close
  split
  · rename_i h
    show m ∈ n :: s.closed ↔ _
    rw [List.mem_cons, or_comm]
    simp [Closed, h]
  · rename_i h
    simp [h]

end Channels

/-! ## Accesses -/

namespace Server

/-- A connection changes. -/
def modify (s : Server) (c : Ptr) (f : Connection → Connection) : Server :=
  { s with conns := update s.conns c (f (s.conns c)) }

@[simp]
theorem modify_self (s : Server) (c : Ptr) (f : Connection → Connection) :
    (s.modify c f).conns c = f (s.conns c) := update_self ..

theorem modify_of_ne (s : Server) {c d : Ptr} (h : d ≠ c) (f : Connection → Connection) :
    (s.modify c f).conns d = s.conns d := update_of_ne h ..

/-- A server that has just been started. -/
def init : Server where
  chans := ⟨0, [], by simp⟩
  conns _ := ⟨⟨"", "", "", "", 0⟩, false, .running, 0, 0, false, none⟩
  made := 0
  store := ∅
  pushParent := ∅
  consume := []
  flows _ := none

/-- `newConnection` and `connectionStore.Add`: only the listener sees the connection in
between. -/
def dial (s : Server) (id : String) (bot : Endpoint) (nested : Bool) : Server where
  chans := s.chans.make.make
  conns := update s.conns ⟨id, s.made⟩
    { bot := bot
      nested := nested
      state := .running
      ctx := s.chans.next
      runCtx := s.chans.next + 1
      resumeCh := false
      queueReturn := none }
  made := s.made + 1
  store := s.store.insert id s.made
  pushParent := s.pushParent
  consume := s.consume
  flows := s.flows

/-- `runCtx` and `runCancel` are replaced by those of a new context. -/
def newRun (s : Server) (c : Ptr) : Server :=
  { s.modify c fun conn => { conn with runCtx := s.chans.next } with chans := s.chans.make }

/-- The channel of `queueReturn` is closed and forgotten. -/
def returnFromQueue (s : Server) (c : Ptr) (n : Nat) : Server :=
  { s.modify c fun conn => { conn with queueReturn := none } with chans := s.chans.close n }

/-- The last `Route` of the dialog took the `ctx.Done()` branch. -/
def cutOff (s : Server) (c : Ptr) : Bool := ((s.flows c).bind (·.interrupted)).isSome

end Server

/-- The atomic accesses. -/
inductive Op where
  /-- `connectionStore.Get` -/
  | get (id : String)
  /-- `conns.Keys()` -/
  | keys
  /-- `connectionStore.Delete` -/
  | delete (id : String)
  | dial (id : String) (bot : Endpoint) (nested : Bool)
  | isSuspended (c : Ptr)
  | isTerminating (c : Ptr)
  /-- `atomic.StoreInt32(&c.state, st)` -/
  | store (c : Ptr) (st : ConnState)
  /-- the context that `c.runCancel` ends -/
  | runCancel (c : Ptr)
  /-- the contexts that `c.runCancel` and `c.cancelCtx` end -/
  | cancels (c : Ptr)
  /-- a cancel function is called -/
  | cancel (ctx : Nat)
  | newRun (c : Ptr)
  /-- the non-blocking send on `c.resumeCh` -/
  | signal (c : Ptr)
  /-- the `select` of the park loop: a signal, or the end of the connection -/
  | awaitResume (c : Ptr)
  | runContext (c : Ptr)
  | completeId (c : Ptr)
  | inQueue (c : Ptr)
  | returnFromQueue (c : Ptr)
  /-- `pushParent.Store` -/
  | storeParent (child parent : String)
  /-- `pushParent.LoadAndDelete` -/
  | takeParent (child : String)
  /-- `pushParent.Delete` -/
  | deleteParent (child : String)
  /-- `threadService.Api.Search`: the members of the threads found -/
  | search (threadID : String)
  /-- `sessionStore.Touch` -/
  | touch (id : String)
  /-- `sessionStore.Remove` -/
  | removeSession (id : String)
  /-- `sessionStore.RemoveByThread` -/
  | removeByThread (threadID : String)
  | onMessage (c : Ptr) (m : Message)
  /-- `s.consume <- c` -/
  | consume (c : Ptr)
  /-- the schema runner takes the dialog -/
  | take (c : Ptr)
  /-- `GetChatRouteFromSchemaId` -/
  | routing (c : Ptr)
  /-- `flow.New` -/
  | newFlow (c : Ptr) (schema : Applications)
  /-- `flow.Route`, from its call to its return -/
  | route (c : Ptr) (ctx : Nat)
  /-- `i.ClearCancel()` and `i.RepeatInterrupted("recvMessage", "interactiveMenu")` -/
  | repeatInterrupted (c : Ptr)
  /-- `c.Complete(id)` -/
  | complete (c : Ptr) (id : String)
  /-- the disconnected trigger, until its deadline -/
  | disconnected (c : Ptr)

/-- The answer to an access. -/
abbrev Op.Result : Op → Type
  | .get _ => Option Nat
  | .keys => List String
  | .dial .. => Nat
  | .isSuspended _ => Bool
  | .isTerminating _ => Bool
  | .runCancel _ => Nat
  | .cancels _ => Nat × Nat
  | .awaitResume _ => Bool
  | .runContext _ => Nat
  | .completeId _ => String
  | .inQueue _ => Bool
  | .returnFromQueue _ => Bool
  | .takeParent _ => Option String
  | .search _ => Except String (List (List ThreadMember))
  | .touch _ => Except String (Option Nat)
  | .routing _ => Option Applications
  | _ => Unit

theorem Op.result_nonempty (a : Op) : Nonempty a.Result := by
  cases a <;> infer_instance

/-- What comes from outside: the next event, the answers of the other services, how a call
of `Route` goes, and which branch a `select` takes if both are ready. -/
structure Outside (E : Type) where
  event : Event
  search : String → Except String (List (List ThreadMember))
  touch : String → Except String (Option Nat)
  routing : Int → Option Applications
  world : World E
  env : E
  /-- iterations of the loop of `Route` -/
  iterations : Nat
  prefersResume : Bool

section Exec

variable {E : Type}

/-- `Route` returns with this flow: it has come to its end, to a `break`, or, if its context
is done, it was cut off. -/
def routed (w : Outside E) (i : Flow) (done : Bool) : Option Flow :=
  match routeN w.world w.iterations (routeStart i w.env) with
  | .ok s => if s.returned && (s.flow.interrupted.isNone || done) then some s.flow else none
  | .error _ => none

/-- The accesses, each answered and made; `none` where Go would block. -/
def exec (w : Outside E) : (a : Op) → Server → Option (a.Result × Server)
  | .get id, s => some (s.store.lookup id, s)
  | .keys, s => some (s.store.keys, s)
  | .delete id, s => some ((), { s with store := s.store.erase id })
  | .dial id bot nested, s => some (s.made, s.dial id bot nested)
  | .isSuspended c, s => some (decide ((s.conns c).state = .suspended), s)
  | .isTerminating c, s => some (decide ((s.conns c).state = .terminating), s)
  | .store c st, s => some ((), s.modify c fun conn => { conn with state := st })
  | .runCancel c, s => some ((s.conns c).runCtx, s)
  | .cancels c, s => some (((s.conns c).runCtx, (s.conns c).ctx), s)
  | .cancel ctx, s => some ((), { s with chans := s.chans.close ctx })
  | .newRun c, s => some ((), s.newRun c)
  -- `resumeCh` holds one signal, and a second one is dropped
  | .signal c, s => some ((), s.modify c fun conn => { conn with resumeCh := true })
  | .awaitResume c, s =>
    let done := decide (s.chans.Closed (s.conns c).ctx)
    if (s.conns c).resumeCh && (w.prefersResume || !done) then
      some (true, s.modify c fun conn => { conn with resumeCh := false })
    else if done then some (false, s)
    else none
  | .runContext c, s => some ((s.conns c).runCtx, s)
  | .completeId c, s => some ((s.conns c).bot.memberID, s)
  | .inQueue c, s => some ((s.conns c).queueReturn.isSome, s)
  | .returnFromQueue c, s =>
    match (s.conns c).queueReturn with
    | none => some (false, s)
    | some n => some (true, s.returnFromQueue c n)
  | .storeParent child parent, s =>
    some ((), { s with pushParent := s.pushParent.insert child parent })
  -- `LoadAndDelete`: only one goroutine gets the parent
  | .takeParent child, s =>
    some (s.pushParent.lookup child, { s with pushParent := s.pushParent.erase child })
  | .deleteParent child, s => some ((), { s with pushParent := s.pushParent.erase child })
  | .search threadID, s => some (w.search threadID, s)
  | .touch id, s => some (w.touch id, s)
  | .removeSession _, s => some ((), s)
  | .removeByThread _, s => some ((), s)
  | .onMessage .., s => some ((), s)
  | .consume c, s =>
    -- the listener waits while the buffer is full
    if s.consume.length < consumeSize then some ((), { s with consume := s.consume ++ [c] })
    else none
  | .take c, s =>
    match s.consume with
    | first :: rest => if first = c then some ((), { s with consume := rest }) else none
    | [] => none
  | .routing c, s =>
    -- a schema id that is not positive is not looked up
    let id := atoi (s.conns c).bot.sub
    some (if 0 < id then w.routing id else none, s)
  | .newFlow c schema, s =>
    some ((), { s with flows := update s.flows c (some (Flow.new schema)) })
  | .route c ctx, s =>
    ((s.flows c).bind fun i => routed w i (decide (s.chans.Closed ctx))).map fun i =>
      ((), { s with flows := update s.flows c (some i) })
  | .repeatInterrupted c, s =>
    some ((), { s with flows := update s.flows c ((s.flows c).map fun i =>
      (i.clearCancel.repeatInterrupted ["recvMessage", "interactiveMenu"]).2) })
  | .complete .., s => some ((), s)
  | .disconnected _, s => some ((), s)

variable {w : Outside E} {a : Op} {s m : Server} {r : a.Result}

/-- `Route` is cut off only if its context is done. -/
theorem done_of_routed (h : routed w i done = some i') (hcut : i'.interrupted.isSome = true) :
    done = true := by
  unfold routed at h
  split at h
  · split at h
    · rename_i hguard
      cases h
      rw [Bool.and_eq_true, Bool.or_eq_true] at hguard
      rcases hguard.2 with hnone | hdone
      · rw [Option.isNone_iff_eq_none.mp hnone] at hcut
        cases hcut
      · exact hdone
    · cases h
  · cases h

theorem exec_route {c : Ptr} {ctx : Nat} {r : Unit} (h : exec w (.route c ctx) s = some (r, m)) :
    ∃ i i', s.flows c = some i ∧ routed w i (decide (s.chans.Closed ctx)) = some i' ∧
      m = { s with flows := update s.flows c (some i') } := by
  obtain ⟨i', hrouted, hm⟩ := Option.map_eq_some_iff.mp h
  obtain ⟨i, hflow, hrouted⟩ := Option.bind_eq_some_iff.mp hrouted
  cases hm
  exact ⟨i, i', hflow, hrouted, rfl⟩

theorem exec_awaitResume {c : Ptr} {r : Bool} (h : exec w (.awaitResume c) s = some (r, m)) :
    (r = true ∧ (s.conns c).resumeCh = true ∧
        m = s.modify c fun conn => { conn with resumeCh := false }) ∨
      (r = false ∧ s.chans.Closed (s.conns c).ctx ∧ m = s) := by
  unfold exec at h
  dsimp only at h
  split at h
  · rename_i hready
    cases h
    exact Or.inl ⟨rfl, Bool.and_elim_left hready, rfl⟩
  · split at h <;> cases h
    rename_i hdone
    exact Or.inr ⟨rfl, of_decide_eq_true hdone, rfl⟩

theorem exec_returnFromQueue {c : Ptr} {r : Bool}
    (h : exec w (.returnFromQueue c) s = some (r, m)) :
    m = s ∨ ∃ n, m = s.returnFromQueue c n := by
  unfold exec at h
  dsimp only at h
  split at h <;> cases h
  · exact Or.inl rfl
  · exact Or.inr ⟨_, rfl⟩

theorem exec_consume {c : Ptr} {r : Unit} (h : exec w (.consume c) s = some (r, m)) :
    m = { s with consume := s.consume ++ [c] } := by
  unfold exec at h
  dsimp only at h
  split at h <;> cases h
  rfl

/-- A dialog that is taken is no longer among those that wait. -/
theorem exec_take {c : Ptr} {r : Unit} (h : exec w (.take c) s = some (r, m)) :
    ∃ rest, s.consume = c :: rest ∧ m = { s with consume := rest } := by
  unfold exec at h
  dsimp only at h
  split at h
  · rename_i first rest hconsume
    split at h <;> cases h
    rename_i hfirst
    exact ⟨rest, hfirst ▸ hconsume, rfl⟩
  · cases h

/-- Only three accesses change the flows. -/
theorem exec_flows (h : exec w a s = some (r, m)) :
    m.flows = s.flows ∨ (∃ c schema, a = .newFlow c schema) ∨ (∃ c ctx, a = .route c ctx) ∨
      ∃ c, a = .repeatInterrupted c := by
  cases a with
  | newFlow c schema => exact Or.inr (Or.inl ⟨c, schema, rfl⟩)
  | route c ctx => exact Or.inr (Or.inr (Or.inl ⟨c, ctx, rfl⟩))
  | repeatInterrupted c => exact Or.inr (Or.inr (Or.inr ⟨c, rfl⟩))
  | _ =>
    left
    revert h
    unfold exec
    dsimp only
    grind [Server.modify, Server.dial, Server.newRun, Server.returnFromQueue]

/-- A change that leaves the state word and the run context of its connection alone leaves
those of every connection alone. -/
theorem Server.modify_frame (s : Server) (d c : Ptr)
    (hf : ∀ conn, (f conn).state = conn.state ∧ (f conn).runCtx = conn.runCtx) :
    ((s.modify d f).conns c).state = (s.conns c).state ∧
      ((s.modify d f).conns c).runCtx = (s.conns c).runCtx := by
  by_cases hc : c = d
  · rw [hc, Server.modify_self]
    exact hf _
  · rw [Server.modify_of_ne _ hc]
    exact ⟨rfl, rfl⟩

section

variable (h : exec w a s = some (r, m))
include h

/-- The accesses that change a connection. -/
theorem exec_conn (c : Ptr) :
    m.conns c = s.conns c ∨ (∃ st, a = .store c st) ∨ a = .newRun c ∨ a = .signal c ∨
      a = .awaitResume c ∨ a = .returnFromQueue c ∨
      ∃ bot nested, a = .dial c.id bot nested ∧ c.gen = s.made := by
  cases a with
  | store d st =>
    by_cases hc : c = d
    · exact Or.inr (Or.inl ⟨st, by rw [hc]⟩)
    · cases h
      exact Or.inl (Server.modify_of_ne _ hc _)
  | newRun d =>
    by_cases hc : c = d
    · exact Or.inr (Or.inr (Or.inl (by rw [hc])))
    · cases h
      exact Or.inl (update_of_ne hc ..)
  | signal d =>
    by_cases hc : c = d
    · simp [hc]
    · cases h
      exact Or.inl (Server.modify_of_ne _ hc _)
  | awaitResume d =>
    by_cases hc : c = d
    · simp [hc]
    · rcases exec_awaitResume h with ⟨-, -, rfl⟩ | ⟨-, -, rfl⟩
      · exact Or.inl (Server.modify_of_ne _ hc _)
      · exact Or.inl rfl
  | returnFromQueue d =>
    by_cases hc : c = d
    · simp [hc]
    · rcases exec_returnFromQueue h with rfl | ⟨n, rfl⟩
      · exact Or.inl rfl
      · exact Or.inl (update_of_ne hc ..)
  | dial id bot nested =>
    by_cases hc : c = ⟨id, s.made⟩
    · simp [hc]
    · cases h
      exact Or.inl (update_of_ne hc ..)
  | route d ctx =>
    obtain ⟨_, _, -, -, rfl⟩ := exec_route h
    exact Or.inl rfl
  | _ =>
    have hsame : m.conns = s.conns := by
      revert h
      unfold exec
      dsimp only
      grind
    exact Or.inl (by rw [hsame])

/-- Only three accesses change the state word or the run context of a connection. -/
theorem exec_conns (c : Ptr) :
    ((m.conns c).state = (s.conns c).state ∧ (m.conns c).runCtx = (s.conns c).runCtx) ∨
      (∃ st, a = .store c st) ∨ a = .newRun c ∨
      ∃ bot nested, a = .dial c.id bot nested ∧ c.gen = s.made := by
  rcases exec_conn h c with hsame | hstore | hrun | rfl | rfl | rfl | hdial
  · exact Or.inl ⟨by rw [hsame], by rw [hsame]⟩
  · exact Or.inr (Or.inl hstore)
  · exact Or.inr (Or.inr (Or.inl hrun))
  · cases h
    exact Or.inl (s.modify_frame c c fun _ => ⟨rfl, rfl⟩)
  · rcases exec_awaitResume h with ⟨-, -, rfl⟩ | ⟨-, -, rfl⟩
    · exact Or.inl (s.modify_frame c c fun _ => ⟨rfl, rfl⟩)
    · exact Or.inl ⟨rfl, rfl⟩
  · rcases exec_returnFromQueue h with rfl | ⟨n, rfl⟩
    · exact Or.inl ⟨rfl, rfl⟩
    · exact Or.inl (s.modify_frame c c (f := fun conn => { conn with queueReturn := none })
        fun _ => ⟨rfl, rfl⟩)
  · exact Or.inr (Or.inr (Or.inr hdial))

/-- The number of connections made does not go down. -/
theorem exec_made : s.made ≤ m.made := by
  cases a with
  | route d ctx =>
    obtain ⟨_, _, -, -, rfl⟩ := exec_route h
    exact le_rfl
  | _ =>
    revert h
    unfold exec
    dsimp only
    grind [Server.modify, Server.dial, Server.newRun, Server.returnFromQueue]

/-- Only `dial` makes a connection. -/
theorem exec_made_eq (ha : ∀ id bot nested, a ≠ .dial id bot nested) : m.made = s.made := by
  cases a with
  | dial id bot nested => exact absurd rfl (ha id bot nested)
  | route d ctx =>
    obtain ⟨_, _, -, -, rfl⟩ := exec_route h
    rfl
  | _ =>
    revert h
    unfold exec
    dsimp only
    grind [Server.modify, Server.newRun, Server.returnFromQueue]

/-- Only `Resume` sends a signal. -/
theorem exec_resumeCh (hsignal : (m.conns c).resumeCh = true) :
    (s.conns c).resumeCh = true ∨ a = .signal c := by
  rcases exec_conn h c with hsame | ⟨st, rfl⟩ | rfl | rfl | rfl | rfl | ⟨bot, nested, rfl, hgen⟩
  · exact Or.inl (hsame ▸ hsignal)
  · cases h
    exact Or.inl (by simpa using hsignal)
  · cases h
    exact Or.inl (by simpa [Server.newRun] using hsignal)
  · exact Or.inr rfl
  · rcases exec_awaitResume h with ⟨-, hbefore, -⟩ | ⟨-, -, rfl⟩
    · exact Or.inl hbefore
    · exact Or.inl hsignal
  · rcases exec_returnFromQueue h with rfl | ⟨n, rfl⟩
    · exact Or.inl hsignal
    · exact Or.inl (by simpa [Server.returnFromQueue] using hsignal)
  · cases h
    have hc : c = ⟨c.id, s.made⟩ := by rw [← hgen]
    rw [hc] at hsignal
    simp [Server.dial] at hsignal

end

end Exec

/-- What happens to the shared state besides: a handler that runs inside `Route` enters or
leaves a queue, and the cache drops a connection. -/
inductive Env : Server → Server → Prop where
  | enterQueue (c : Ptr) :
      Env s { s.modify c fun conn => { conn with queueReturn := some s.chans.next } with
        chans := s.chans.make }
  | leaveQueue (c : Ptr) : Env s (s.modify c fun conn => { conn with queueReturn := none })
  | expire (id : String) : Env s { s with store := s.store.erase id }

/-- None of these changes the state word or the run context of a connection. -/
theorem Env.conns {s m : Server} (h : Env s m) (c : Ptr) :
    (m.conns c).state = (s.conns c).state ∧ (m.conns c).runCtx = (s.conns c).runCtx := by
  cases h with
  | enterQueue d =>
    exact s.modify_frame d c (f := fun conn => { conn with queueReturn := some s.chans.next })
      fun _ => ⟨rfl, rfl⟩
  | leaveQueue d =>
    exact s.modify_frame d c (f := fun conn => { conn with queueReturn := none })
      fun _ => ⟨rfl, rfl⟩
  | expire id => exact ⟨rfl, rfl⟩

/-- Nor do they send or take a signal. -/
theorem Env.resumeCh (h : Env s m) (c : Ptr) : (m.conns c).resumeCh = (s.conns c).resumeCh := by
  cases h with
  | enterQueue d | leaveQueue d =>
    by_cases hc : c = d
    · simp [hc]
    · simp [Server.modify_of_ne _ hc]
  | expire id => rfl

/-- Nor do they close a channel. -/
theorem Env.closed (h : Env s m) (n : Nat) : m.chans.Closed n ↔ s.chans.Closed n := by
  cases h <;> exact Iff.rfl

theorem Env.made {s m : Server} (h : Env s m) : m.made = s.made := by
  cases h <;> rfl

/-! ## Methods -/

/-- Programs over the shared state. -/
abbrev Go := Prog Op Op.Result

/-- A single access. -/
abbrev access (a : Op) : Go a.Result := call a

/-- `connectionStore.Get` -/
def get (id : String) : Go (Option Ptr) := do
  let found ← access (.get id)
  return found.map (Ptr.mk id)

/-- `Connection.Suspend` -/
def suspend (c : Ptr) : Go Unit := do
  access (.store c .suspended)
  let ctx ← access (.runCancel c)
  access (.cancel ctx)

/-- `Connection.Resume` -/
def resume (c : Ptr) : Go Unit := do
  access (.newRun c)
  access (.store c .running)
  access (.signal c)

/-- What `Suspend` does when nothing else happens. -/
def Server.suspend (s : Server) (c : Ptr) : Server :=
  { s.modify c fun conn => { conn with state := .suspended } with
    chans := s.chans.close (s.conns c).runCtx }

/-- What `Resume` does when nothing else happens. -/
def Server.resume (s : Server) (c : Ptr) : Server :=
  { s.modify c fun conn =>
      { conn with runCtx := s.chans.next, state := .running, resumeCh := true } with
    chans := s.chans.make }

section Run

variable {E : Type} (w : Outside E) (s : Server) (c : Ptr)

theorem run_suspend : (suspend c).run (exec w) s = some ((), s.suspend c) := by
  simp [suspend, Server.suspend, Prog.run, exec, Server.modify]

theorem run_resume : (resume c).run (exec w) s = some ((), s.resume c) := by
  simp [resume, Server.resume, Prog.run, exec, Server.newRun, Server.modify]

end Run

/-- `Connection.Break` -/
def break_ (c : Ptr) : Go Unit := do
  access (.store c .terminating)
  let (rc, lc) ← access (.cancels c)
  access (.cancel rc)
  access (.cancel lc)

end FlowManager.Im
