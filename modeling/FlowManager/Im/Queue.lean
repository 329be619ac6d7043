import FlowManager.Im.Park

/-!
# A dialog that waits in a queue

`joinQueue` asks the call center for a place in a queue, marks the connection with
`EnterQueue` and waits. When an agent takes the thread over, the listener leaves a connection
that carries the mark alone; when the agent hands the thread back, it closes the channel of
the mark. But the call center may have found an agent before `EnterQueue` has run.

The handler runs here among the takeovers and handbacks of its session, in any number and
order, and the call center offers any events.

- `joinQueue`, `awaitReturn`: the handler, from the request on.
- `Answered`: a takeover finds the mark, and the call center does not end the wait.
- `Minds`: what the listener may do with a connection that is marked, as an automaton.
- `queue_of_answered`: if so, the dialog is never suspended, and once a handback has been
  handled after a takeover, the handler returns with `cc_result` set to `bot`.
-/

namespace FlowManager.Im

open Concurrent Function

/-- `model.CCResultBot` -/
def ccResultBot : String := "bot"

/-- `model.CCQueueEvent`, by its `Event` -/
inductive CCQueueEvent where
  | bridged
  | leaving (result : String)
  | other (event : String)

/-- What the handler and the listener share. -/
structure QueueCall where
  server : Server
  /-- the events that the call center offers on the channel of the attempt -/
  offered : List CCQueueEvent
  /-- the variable `cc_result` -/
  ccResult : Option String

/-- Why a `select` of the handler returns. -/
inductive Wake where
  | done
  | returned
  | event (e : CCQueueEvent)

/-- The accesses -/
inductive QueueOp where
  | server (a : Op)
  /-- `JoinIMToInboundQueue` -/
  | join
  | enterQueue (c : Ptr)
  /-- the `select` on the context, the channel of `EnterQueue` and the events -/
  | select (ctx returned : Nat)
  /-- `conn.Set` of `cc_result` -/
  | setResult (result : String)
  | leaveQueue (c : Ptr)

/-- The answer to an access. -/
abbrev QueueOp.Result : QueueOp → Type
  | .server a => a.Result
  | .join => Bool
  | .enterQueue _ => Nat
  | .select .. => Wake
  | _ => Unit

/-- The branches of the `select` -/
inductive Branch where
  | done
  | returned
  | event

/-- The events of the session: an agent takes the thread over, or hands it back. -/
inductive AgentEvent where
  | takeover
  | handback (memberID : String) (releasedSub : Int)

/-- What comes from outside. -/
structure QueueOutside (E : Type) where
  outside : Outside E
  /-- the call center accepts the request -/
  joins : Bool
  branch : Branch
  event : AgentEvent

/-- `Connection.EnterQueue` -/
def Server.enterQueue (s : Server) (c : Ptr) : Server :=
  { s.modify c fun conn => { conn with queueReturn := some s.chans.next } with
    chans := s.chans.make }

/-- `Connection.LeaveQueue` -/
def Server.leaveQueue (s : Server) (c : Ptr) : Server :=
  s.modify c fun conn => { conn with queueReturn := none }

/-- The accesses, each answered and made. -/
def queueExec {E : Type} (w : QueueOutside E) :
    (a : QueueOp) → QueueCall → Option (a.Result × QueueCall)
  | .server a, s => (exec w.outside a s.server).map fun y => (y.1, { s with server := y.2 })
  | .join, s => some (w.joins, s)
  | .enterQueue c, s => some (s.server.chans.next, { s with server := s.server.enterQueue c })
  | .select ctx returned, s =>
    -- any branch that is ready may be taken
    match w.branch with
    | .done => if s.server.chans.Closed ctx then some (.done, s) else none
    | .returned => if s.server.chans.Closed returned then some (.returned, s) else none
    | .event =>
      match s.offered with
      | e :: rest => some (.event e, { s with offered := rest })
      | [] => none
  | .setResult result, s => some ((), { s with ccResult := some result })
  | .leaveQueue c, s => some ((), { s with server := s.server.leaveQueue c })

/-- Programs of the handler. -/
abbrev QueueGo := Prog QueueOp QueueOp.Result

/-- A single access. -/
abbrev queueAccess (a : QueueOp) : QueueGo a.Result := call a

/-- A program of the listener. -/
def lift {α : Type} : Go α → QueueGo α
  | .ret x => .ret x
  | .act a k => .act (.server a) fun r => lift (k r)

theorem lift_bind {α β : Type} (p : Go α) (f : α → Go β) :
    lift (p >>= f) = lift p >>= fun x => lift (f x) := by
  induction p with
  | ret x => rfl
  | act a k ih =>
    show Prog.act (QueueOp.server a) (fun r => lift (k r >>= f)) = _
    simp only [ih]
    rfl

/-- What the listener has handled: nothing of interest, a takeover, or a takeover and then a
handback. -/
inductive Seen where
  | nothing
  | taken
  | back
  deriving DecidableEq

def Seen.take : Seen → Seen
  | .nothing => .taken
  | seen => seen

def Seen.give : Seen → Seen
  | .taken => .back
  | seen => seen

/-- Where a goroutine goes on: the listener at the head of its loop, the handler at its
`select`; or the handler has returned. -/
inductive QueueLabel where
  | listen (seen : Seen)
  | waiting (returned : Nat)
  | returned

/-- The deferred calls of `joinQueue` -/
def leaveAttempt (c : Ptr) : QueueGo QueueLabel := do
  queueAccess (.leaveQueue c)
  return .returned

/-- `Router.joinQueue`, from the request to the call center up to its loop -/
def joinQueue (c : Ptr) : QueueGo QueueLabel := do
  if ← queueAccess .join then
    let returned ← queueAccess (.enterQueue c)
    return .waiting returned
  else return .returned

/-- One round of the loop of `Router.joinQueue` -/
def awaitReturn (c : Ptr) (ctx returned : Nat) : QueueGo QueueLabel := do
  match ← queueAccess (.select ctx returned) with
  | .done => leaveAttempt c
  | .returned =>
    queueAccess (.setResult ccResultBot)
    leaveAttempt c
  | .event .bridged => return .waiting returned
  | .event (.leaving result) =>
    if result ≠ "" then
      queueAccess (.setResult result)
      leaveAttempt c
    else leaveAttempt c
  | .event (.other _) => return .waiting returned

/-- The listener handles an event of the session. -/
def AgentEvent.handle (threadID : String) (sub : Int) (seen : Seen) :
    AgentEvent → QueueGo QueueLabel
  | .takeover => do
    lift (listen (.released ⟨threadID, sub, .agentTakeover⟩))
    return .listen seen.take
  | .handback memberID releasedSub => do
    lift (listen (.granted ⟨threadID, memberID, releasedSub, sub, .agentHandback⟩))
    return .listen seen.give

/-- The handler and the listener -/
inductive QueueThread where
  | handler
  | listener
  deriving DecidableEq

/-- The handler on the connection `c` with the context `ctx`, and the listener. -/
def queueCalls (E : Type) (c : Ptr) (ctx : Nat) (threadID : String) (sub : Int) :
    System QueueCall (QueueOutside E) QueueOp QueueOp.Result QueueLabel where
  exec := queueExec
  code w
    | .listen seen => some (w.event.handle threadID sub seen)
    | .waiting returned => some (awaitReturn c ctx returned)
    | .returned => none
  env s s' := ∃ e, s' = { s with offered := s.offered ++ [e] }

abbrev QueuePool := Pool QueueThread QueueCall QueueOp QueueOp.Result QueueLabel

/-- The handler is about to send its request; the listener has not handled anything. -/
def aboutToJoin (m : Server) (c : Ptr) : QueuePool where
  shared := ⟨m, [], none⟩
  thread
    | .handler => joinQueue c
    | .listener => .ret (.listen .nothing)

/-- A running dialog that waits in no queue: its connection is stored under the session of its
bot, which has a schema, and its run context is live and its own. -/
structure Dialog (m : Server) (c : Ptr) (threadID : String) (sub : Int) : Prop where
  id : c.id = sessionID threadID sub
  schema : 0 < sub
  stored : m.store.lookup c.id = some c.gen
  running : (m.conns c).state = .running
  queue : (m.conns c).queueReturn = none
  live : ¬ m.chans.Closed (m.conns c).runCtx
  made : (m.conns c).runCtx < m.chans.next
  own : ∀ d, d ≠ c → (m.conns d).runCtx ≠ (m.conns c).runCtx

/-- A takeover that is about to be heeded or not finds the mark of `EnterQueue`, and the call
center does not offer to end the wait. -/
def Answered (c : Ptr) (s : QueuePool) (e : Concurrent.Event QueueThread QueueOp)
    (s' : QueuePool) : Prop :=
  match e with
  | .act .listener (.server (.inQueue _)) => (s.shared.server.conns c).queueReturn ≠ none
  | .env => ∀ result, .leaving result ∉ s'.shared.offered
  | _ => True

/-- A check for `Answered` on the steps of threads. -/
def answers (c : Ptr) (s : QueuePool) : Concurrent.Event QueueThread QueueOp → QueuePool → Bool
  | .act .listener (.server (.inQueue _)), _ => (s.shared.server.conns c).queueReturn.isSome
  | .env, _ => false
  | _, _ => true

theorem answered_of_answers (s : QueuePool) (e : Concurrent.Event QueueThread QueueOp)
    (s' : QueuePool) (h : answers c s e s' = true) : Answered c s e s' := by
  unfold Answered
  split
  · exact Option.isSome_iff_ne_none.mp h
  · cases h
  · trivial

/-! ## The listener -/

/-- The access leaves the connection `c` and the context `ctx` alone. -/
def Op.Spares (c : Ptr) (ctx : Nat) : Op → Prop
  | .get _ => True
  | .isSuspended _ => True
  | .isTerminating _ => True
  | .store d _ => d ≠ c
  | .runCancel _ => True
  | .cancel n => n ≠ ctx
  | .storeParent .. => True
  | _ => False

/-- An answer that the listener does not get while the dialog runs and carries the mark. -/
def Impossible (c : Ptr) (ctx : Nat) : (a : QueueOp) → a.Result → Prop
  | .server (.get id), found => id = c.id ∧ found ≠ some c.gen
  | .server (.isSuspended d), r => d = c ∧ r = true
  | .server (.isTerminating d), r => d = c ∧ r = true
  | .server (.inQueue d), r => d = c ∧ r = false
  | .server (.runCancel d), n => d ≠ c ∧ n = ctx
  | _, _ => False

/-- How the accesses of the listener change what it has seen; `none` stands for what cannot
come. -/
inductive Minds (c : Ptr) (ctx : Nat) : Option Seen → (a : QueueOp) → a.Result → Option Seen → Prop
    where
  | never {st : Option Seen} {a : QueueOp} {r : a.Result} (h : Impossible c ctx a r) :
      Minds c ctx st a r none
  | lost : Minds c ctx none a r none
  | test : Minds c ctx (some seen) (.server (.inQueue c)) true (some seen.take)
  | give : Minds c ctx (some seen) (.server (.returnFromQueue c)) r (some seen.give)
  | spare {seen : Seen} {a : Op} {r : a.Result} (h : a.Spares c ctx) :
      Minds c ctx (some seen) (.server a) r (some seen)

/-- The listener comes back to its loop with what it has seen. -/
def Minds.final (st : Option Seen) (l : QueueLabel) : Prop :=
  ∀ seen, st = some seen → l = .listen seen

/-- The listener minds the dialog. -/
abbrev Mindful (c : Ptr) (ctx : Nat) : Option Seen → QueueGo QueueLabel → Prop :=
  Prog.Conforms (Minds c ctx) Minds.final

section Listener

variable {c : Ptr} {ctx : Nat} {seen : Seen}

theorem mindful_none (p : QueueGo QueueLabel) : Mindful c ctx none p := by
  induction p with
  | ret l => exact fun seen h => by cases h
  | act a k ih => exact fun r => ⟨none, .lost, ih r⟩

theorem mindful_listen : Mindful c ctx (some seen) (.ret (.listen seen)) := by
  rintro _ ⟨⟩
  rfl

/-- The listener looks the dialog up, and finds it. -/
theorem Mindful.get {k : Option Nat → QueueGo QueueLabel}
    (hk : Mindful c ctx (some seen) (k (some c.gen))) :
    Mindful c ctx (some seen) (.act (.server (.get c.id)) k) := by
  intro r
  by_cases hr : r = some c.gen
  · subst hr
    exact ⟨some seen, .spare trivial, hk⟩
  · exact ⟨none, .never ⟨rfl, hr⟩, mindful_none _⟩

theorem Mindful.isSuspended {k : Bool → QueueGo QueueLabel}
    (hk : Mindful c ctx (some seen) (k false)) :
    Mindful c ctx (some seen) (.act (.server (.isSuspended c)) k) := by
  rintro (_ | _)
  · exact ⟨some seen, .spare trivial, hk⟩
  · exact ⟨none, .never ⟨rfl, rfl⟩, mindful_none _⟩

theorem Mindful.isTerminating (hk : Mindful c ctx (some seen) (k false)) :
    Mindful c ctx (some seen) (.act (.server (.isTerminating c)) k) := by
  rintro (_ | _)
  · exact ⟨some seen, .spare trivial, hk⟩
  · exact ⟨none, .never ⟨rfl, rfl⟩, mindful_none _⟩

theorem Mindful.inQueue (hk : Mindful c ctx (some seen.take) (k true)) :
    Mindful c ctx (some seen) (.act (.server (.inQueue c)) k) := by
  rintro (_ | _)
  · exact ⟨none, .never ⟨rfl, rfl⟩, mindful_none _⟩
  · exact ⟨some seen.take, .test, hk⟩

/-- The program leaves the dialog alone. -/
def Minded (c : Ptr) (ctx : Nat) (seen : Seen) {α : Type} (p : Go α) : Prop :=
  (lift p).Conforms (Minds c ctx) (fun st _ => st = some seen ∨ st = none) (some seen)

theorem Minded.andReturn {α β : Type} {p : Go α} (h : Minded c ctx seen p) (y : β) :
    Minded c ctx seen (p >>= fun _ => .ret y) := by
  unfold Minded
  rw [lift_bind]
  exact Prog.Conforms.bind h fun _ _ hst => hst

theorem Minded.listen {α : Type} {p : Go α} (h : Minded c ctx seen p) :
    Mindful c ctx (some seen) (lift p >>= fun _ => .ret (.listen seen)) := by
  refine Prog.Conforms.bind h ?_
  rintro _ _ (rfl | rfl)
  · exact mindful_listen
  · exact mindful_none _

/-- A grant for the dialog that finds it active suspends another bot at most. -/
theorem minded_grantActive {m : BotControlGranted} (hm : m.releasedSessionID ≠ c.id) :
    Minded c ctx seen (grantActive m c) := by
  by_cases hnamed : m.releasedSessionID ≠ ""
  · simp only [grantActive, if_pos hnamed, adoptPush, Im.get]
    intro found
    refine ⟨some seen, .spare trivial, ?_⟩
    cases found with
    | none => exact Or.inl rfl
    | some gen =>
      have hne : (⟨m.releasedSessionID, gen⟩ : Ptr) ≠ c := fun h => hm (congrArg Ptr.id h)
      have hlink : (lift (access (.storeParent c.id m.releasedSessionID))).Conforms (Minds c ctx)
          (fun st _ => st = some seen ∨ st = none) (some seen) :=
        fun _ => ⟨some seen, .spare trivial, Or.inl rfl⟩
      rintro (_ | _)
      · refine ⟨some seen, .spare trivial, ?_⟩
        rintro (_ | _)
        · refine ⟨some seen, .spare trivial, fun _ => ⟨some seen, .spare hne, fun n => ?_⟩⟩
          -- the context that is cancelled is not the one of the dialog
          by_cases hn : n = ctx
          · refine ⟨none, .never ⟨hne, hn⟩, ?_⟩
            exact fun _ => ⟨none, .lost, fun _ => ⟨none, .lost, Or.inr rfl⟩⟩
          · exact ⟨some seen, .spare trivial, fun _ => ⟨some seen, .spare hn, hlink⟩⟩
        · exact ⟨some seen, .spare trivial, hlink⟩
      · exact ⟨some seen, .spare trivial, hlink⟩
  · simp only [grantActive, if_neg hnamed]
    exact Or.inl rfl

variable {threadID : String} {sub : Int}

section

variable (hid : c.id = sessionID threadID sub)
include hid

/-- A takeover ends with the test of the mark. -/
theorem mindful_takeover (hsub : 0 < sub) :
    Mindful c ctx (some seen) (AgentEvent.takeover.handle threadID sub seen) := by
  have hne : sub ≠ 0 := by omega
  simp only [AgentEvent.handle, listen, handleBotControlReleased, suspendForAgent, if_neg hne,
    if_true]
  rw [← hid]
  refine Mindful.get (Mindful.isSuspended (Mindful.isTerminating (Mindful.inQueue ?_)))
  exact mindful_listen

/-- A handback ends the wait, or suspends another bot. -/
theorem mindful_handback (memberID : String) (releasedSub : Int) :
    Mindful c ctx (some seen)
      ((AgentEvent.handback memberID releasedSub).handle threadID sub seen) := by
  set m : BotControlGranted := ⟨threadID, memberID, releasedSub, sub, .agentHandback⟩ with hm
  have hne : m.releasedSessionID ≠ c.id := hid ▸ m.releasedSessionID_ne
  show Mindful c ctx (some seen) (.act (.server (.get (sessionID threadID sub))) _)
  rw [← hid]
  refine Mindful.get (Mindful.isSuspended ?_)
  rintro (_ | _)
  · refine ⟨some seen.give, .give, ?_⟩
    have hactive : Minded c ctx seen.give (grantActive m c) := minded_grantActive hne
    exact ((hactive.andReturn (Except.ok () : Except String Unit)).andReturn ()).listen
  · exact ⟨some seen.give, .give, mindful_listen⟩

theorem mindful_handle (hsub : 0 < sub) (e : AgentEvent) :
    Mindful c ctx (some seen) (e.handle threadID sub seen) := by
  cases e with
  | takeover => exact mindful_takeover hid hsub
  | handback memberID releasedSub => exact mindful_handback hid memberID releasedSub

end

end Listener

/-! ## The handler -/

/-- Where the handler is, and what the listener may have seen there: before `EnterQueue`, and
if the request was refused, nothing; in the queue, no handback after a takeover unless the
channel is closed. -/
inductive Handling (c : Ptr) (ctx : Nat) (s : QueueCall) (seen : Seen) :
    QueueGo QueueLabel → Prop where
  | joining (hmark : (s.server.conns c).queueReturn = none) (hseen : seen = .nothing) :
      Handling c ctx s seen (joinQueue c)
  | entering (hmark : (s.server.conns c).queueReturn = none) (hseen : seen = .nothing) :
      Handling c ctx s seen (.act (.enterQueue c) fun returned => .ret (.waiting returned))
  | refused (hmark : (s.server.conns c).queueReturn = none) (hseen : seen = .nothing) :
      Handling c ctx s seen (.ret .returned)
  | waiting {returned : Nat} {p : QueueGo QueueLabel}
      (hp : p = .ret (.waiting returned) ∨ p = awaitReturn c ctx returned)
      (hne : returned ≠ ctx) (hmade : returned < s.server.chans.next)
      (hmark : (s.server.conns c).queueReturn = some returned ∧ seen ≠ .back ∨
        (s.server.conns c).queueReturn = none ∧ s.server.chans.Closed returned) :
      Handling c ctx s seen p
  | setting (hmark : (s.server.conns c).queueReturn ≠ some ctx) :
      Handling c ctx s seen (.act (.setResult ccResultBot) fun _ => leaveAttempt c)
  | leaving (hmark : (s.server.conns c).queueReturn ≠ some ctx)
      (hresult : s.ccResult = some ccResultBot) : Handling c ctx s seen (leaveAttempt c)
  | returned (hmark : (s.server.conns c).queueReturn ≠ some ctx)
      (hresult : s.ccResult = some ccResultBot) : Handling c ctx s seen (.ret .returned)

/-- The dialog runs with its context live and its own, under its session. -/
structure Running (c : Ptr) (ctx : Nat) (m : Server) : Prop where
  stored : m.store.lookup c.id = some c.gen
  running : (m.conns c).state = .running
  runCtx : (m.conns c).runCtx = ctx
  live : ¬ m.chans.Closed ctx
  made : ctx < m.chans.next
  own : ∀ d, d ≠ c → (m.conns d).runCtx ≠ ctx

/-- What holds at every moment of an answered run, in which the listener has seen `seen`. -/
structure Served (c : Ptr) (ctx : Nat) (s : QueuePool) (seen : Seen) : Prop where
  running : Running c ctx s.shared.server
  mindful : Mindful c ctx (some seen) (s.thread .listener)
  handling : Handling c ctx s.shared seen (s.thread .handler)
  offered : ∀ result, .leaving result ∉ s.shared.offered

/-- Channels are made and closed, and none is opened again. -/
structure Grows (s s' : Channels) : Prop where
  closed : ∀ n, s.Closed n → s'.Closed n
  next : s.next ≤ s'.next

section Handler

variable {E : Type} {c : Ptr} {ctx : Nat} {s : QueuePool} {seen : Seen} {w : Outside E}

theorem grows_close (s : Channels) (n : Nat) : Grows s (s.close n) := by
  refine ⟨fun k hk => ?_, by simp⟩
  rw [Channels.closed_close]
  exact Or.inl hk

/-- No answer is an impossible one. -/
theorem Running.possible (h : Running c ctx m) (hexec : exec w a m = some (r, m'))
    (hmark : a = .inQueue c → (m.conns c).queueReturn ≠ none) :
    ¬ Impossible c ctx (.server a) r := by
  intro himp
  cases a with
  | get id =>
    obtain ⟨rfl, hr⟩ := himp
    cases hexec
    exact hr h.stored
  | isSuspended d | isTerminating d =>
    obtain ⟨rfl, rfl⟩ := himp
    simp [exec, h.running] at hexec
  | inQueue d =>
    obtain ⟨rfl, rfl⟩ := himp
    simp only [exec, Option.some.injEq, Prod.mk.injEq] at hexec
    exact hmark rfl (Option.isSome_eq_false_iff.mp hexec.1 |> Option.isNone_iff_eq_none.mp)
  | runCancel d =>
    obtain ⟨hd, rfl⟩ := himp
    cases hexec
    exact h.own d hd rfl
  | _ => exact himp

/-- An access that leaves the dialog alone. -/
theorem Running.spare (h : Running c ctx m) (hexec : exec w a m = some (r, m'))
    (ha : a.Spares c ctx) :
    Running c ctx m' ∧ (m'.conns c).queueReturn = (m.conns c).queueReturn ∧
      Grows m.chans m'.chans := by
  have hsame : Grows m.chans m.chans := ⟨fun _ h => h, le_rfl⟩
  cases a with
  | store d st =>
    cases hexec
    have hc := Server.modify_of_ne m (Ne.symm ha) fun conn => { conn with state := st }
    refine ⟨⟨h.stored, by rw [hc]; exact h.running, by rw [hc]; exact h.runCtx, h.live, h.made, ?_⟩,
      by rw [hc], hsame⟩
    intro d' hd'
    by_cases heq : d' = d
    · rw [heq, Server.modify_self]
      exact h.own d ha
    · rw [Server.modify_of_ne m heq]
      exact h.own d' hd'
  | cancel n =>
    cases hexec
    refine ⟨⟨h.stored, h.running, h.runCtx, ?_, by simpa using h.made, h.own⟩, rfl,
      grows_close m.chans n⟩
    rw [Channels.closed_close]
    rintro (hclosed | ⟨hn, -⟩)
    · exact h.live hclosed
    · exact ha hn.symm
  | get _ | isSuspended _ | isTerminating _ | runCancel _ => cases hexec; exact ⟨h, rfl, hsame⟩
  | storeParent _ _ =>
    cases hexec
    exact ⟨⟨h.stored, h.running, h.runCtx, h.live, h.made, h.own⟩, rfl, hsame⟩
  | _ => exact absurd ha id

/-- The mark of the connection is changed, and the run context stays live. -/
theorem Running.mark (h : Running c ctx m) (mark : Option Nat) {chans : Channels}
    (hlive : ¬ chans.Closed ctx) (hnext : m.chans.next ≤ chans.next) :
    Running c ctx
      { m.modify c fun conn => { conn with queueReturn := mark } with chans := chans } := by
  have hframe := fun d => m.modify_frame c d (f := fun conn => { conn with queueReturn := mark })
    fun _ => ⟨rfl, rfl⟩
  exact ⟨h.stored, (hframe c).1.trans h.running, (hframe c).2.trans h.runCtx, hlive,
    lt_of_lt_of_le h.made hnext, fun d hd => (hframe d).2.trans_ne (h.own d hd)⟩

/-- The wait is ended: the mark goes, and its channel is closed. -/
theorem Running.give {m m' : Server} (h : Running c ctx m)
    (hctx : (m.conns c).queueReturn ≠ some ctx)
    (hexec : exec w (.returnFromQueue c) m = some (r, m')) :
    Running c ctx m' ∧ (m'.conns c).queueReturn = none ∧ Grows m.chans m'.chans ∧
      ∀ n, (m.conns c).queueReturn = some n → n < m.chans.next → m'.chans.Closed n := by
  simp only [exec] at hexec
  cases hqueue : (m.conns c).queueReturn with
  | none =>
    rw [hqueue] at hexec
    cases hexec
    exact ⟨h, hqueue, ⟨fun _ h => h, le_rfl⟩, fun _ hn => by cases hn⟩
  | some n =>
    rw [hqueue] at hexec
    cases hexec
    have hconn : (m.returnFromQueue c n).conns c = { m.conns c with queueReturn := none } :=
      update_self ..
    refine ⟨h.mark none ?_ (grows_close m.chans n).next, by rw [hconn], grows_close m.chans n, ?_⟩
    · rw [Channels.closed_close]
      rintro (hclosed | ⟨hn, -⟩)
      · exact h.live hclosed
      · exact hctx (by rw [hqueue, hn])
    · rintro _ ⟨⟩ hmade
      exact (Channels.closed_close ..).mpr (Or.inr ⟨rfl, hmade⟩)

section Seen

variable {s s' : QueueCall} {p : QueueGo QueueLabel}

section

variable (h : Handling c ctx s seen p)
include h

/-- The listener leaves the mark alone. -/
theorem Handling.congr (hmark : (s'.server.conns c).queueReturn = (s.server.conns c).queueReturn)
    (hgrows : Grows s.server.chans s'.server.chans) (hresult : s'.ccResult = s.ccResult) :
    Handling c ctx s' seen p := by
  cases h with
  | joining hm hs => exact .joining (hmark.trans hm) hs
  | entering hm hs => exact .entering (hmark.trans hm) hs
  | refused hm hs => exact .refused (hmark.trans hm) hs
  | waiting hp hne hmade hm =>
    refine .waiting hp hne (lt_of_lt_of_le hmade hgrows.next) ?_
    rw [hmark]
    exact hm.imp_right fun hm => ⟨hm.1, hgrows.closed _ hm.2⟩
  | setting hm => exact .setting (hmark.trans_ne hm)
  | leaving hm hr => exact .leaving (hmark.trans_ne hm) (hresult.trans hr)
  | returned hm hr => exact .returned (hmark.trans_ne hm) (hresult.trans hr)

/-- The mark, if there is one, is not the run context. -/
theorem Handling.mark_ne : (s.server.conns c).queueReturn ≠ some ctx := by
  cases h with
  | waiting hp hne hmade hm =>
    rcases hm with ⟨hm, -⟩ | ⟨hm, -⟩
    · rw [hm]
      exact fun h => hne (Option.some.inj h)
    · simp [hm]
  | _ => simp [*]

/-- A takeover finds the mark. -/
theorem Handling.take
    (hmark : (s.server.conns c).queueReturn ≠ none) : Handling c ctx s seen.take p := by
  cases h with
  | waiting hp hne hmade hm =>
    refine .waiting hp hne hmade (hm.imp_left fun hm => ⟨hm.1, ?_⟩)
    cases seen with
    | back => exact absurd rfl hm.2
    | nothing | taken => decide
  | joining hm | entering hm | refused hm => exact absurd hm hmark
  | setting hm => exact .setting hm
  | leaving hm hr => exact .leaving hm hr
  | returned hm hr => exact .returned hm hr

/-- A handback takes the mark away, and closes its channel. -/
theorem Handling.give (hmark : (s'.server.conns c).queueReturn = none)
    (hgrows : Grows s.server.chans s'.server.chans)
    (hclosed : ∀ n, (s.server.conns c).queueReturn = some n → n < s.server.chans.next →
      s'.server.chans.Closed n)
    (hresult : s'.ccResult = s.ccResult) : Handling c ctx s' seen.give p := by
  cases h with
  | joining hm hs => exact .joining hmark (by rw [hs]; rfl)
  | entering hm hs => exact .entering hmark (by rw [hs]; rfl)
  | refused hm hs => exact .refused hmark (by rw [hs]; rfl)
  | waiting hp hne hmade hm =>
    refine .waiting hp hne (lt_of_lt_of_le hmade hgrows.next) (Or.inr ⟨hmark, ?_⟩)
    rcases hm with ⟨hm, -⟩ | ⟨-, hm⟩
    · exact hclosed _ hm hmade
    · exact hgrows.closed _ hm
  | setting => exact .setting (by simp [hmark])
  | leaving _ hr => exact .leaving (by simp [hmark]) (hresult.trans hr)
  | returned _ hr => exact .returned (by simp [hmark]) (hresult.trans hr)

end

end Seen

/-- The listener makes its next access. -/
theorem Served.listener (h : Served c ctx s seen) (ht : s.thread .listener = .act a k)
    (hexec : queueExec q a s.shared = some (r, m))
    (hanswered : Answered c s (.act .listener a) (s.set .listener m (k r))) :
    ∃ seen', Served c ctx (s.set .listener m (k r)) seen' := by
  have hmindful := h.mindful
  rw [ht] at hmindful
  obtain ⟨st', hminds, hk⟩ := hmindful r
  have hother : (s.set .listener m (k r)).thread .handler = s.thread .handler :=
    Pool.set_thread_of_ne _ (by decide) _ _
  -- the listener goes on, with the server as the access leaves it
  have hset : ∀ {seen' : Seen}, st' = some seen' → Running c ctx m.server →
      Handling c ctx m seen' (s.thread .handler) → m.offered = s.shared.offered →
      ∃ seen', Served c ctx (s.set .listener m (k r)) seen' := by
    intro seen' hst hrunning hhandling hoffered
    refine ⟨seen', hrunning, ?_, by rwa [hother], fun result => ?_⟩
    · rw [Pool.set_thread_self, ← hst]
      exact hk
    · rw [Pool.set_shared, hoffered]
      exact h.offered result
  cases hminds with
  | never himp =>
    cases a with
    | server a =>
      obtain ⟨⟨r', m'⟩, hmade, heq⟩ := Option.map_eq_some_iff.mp hexec
      cases heq
      refine absurd himp (h.running.possible hmade ?_)
      rintro rfl
      exact hanswered
    | _ => exact absurd himp id
  | test =>
    have hsame : m = s.shared := by
      simp only [queueExec, exec, Option.map_some, Option.some.injEq, Prod.mk.injEq] at hexec
      exact hexec.2.symm
    subst hsame
    exact hset rfl h.running (h.handling.take hanswered) rfl
  | give =>
    obtain ⟨⟨r', m'⟩, hmade, heq⟩ := Option.map_eq_some_iff.mp hexec
    cases heq
    obtain ⟨hrunning, hmark, hgrows, hclosed⟩ := h.running.give h.handling.mark_ne hmade
    exact hset rfl hrunning (h.handling.give hmark hgrows hclosed rfl) rfl
  | spare ha =>
    obtain ⟨⟨r', m'⟩, hmade, heq⟩ := Option.map_eq_some_iff.mp hexec
    cases heq
    obtain ⟨hrunning, hmark, hgrows⟩ := h.running.spare hmade ha
    exact hset rfl hrunning (h.handling.congr hmark hgrows rfl) rfl

/-- The handler goes on with `p`, and leaves the listener alone. -/
theorem Served.handle (h : Served c ctx s seen) {m : QueueCall}
    (hrunning : Running c ctx m.server) (hhandling : Handling c ctx m seen p)
    (hoffered : ∀ result, .leaving result ∉ m.offered) :
    Served c ctx (s.set .handler m p) seen := by
  refine ⟨hrunning, ?_, by rwa [Pool.set_thread_self], hoffered⟩
  exact h.mindful

/-- `EnterQueue` marks the connection with a new channel. -/
theorem Running.enter (h : Running c ctx m) :
    Running c ctx (m.enterQueue c) ∧
      ((m.enterQueue c).conns c).queueReturn = some m.chans.next := by
  have hconn : (m.enterQueue c).conns c =
      { m.conns c with queueReturn := some m.chans.next } := update_self ..
  exact ⟨h.mark _ h.live (Nat.le_succ _), by rw [hconn]⟩

theorem Running.leave (h : Running c ctx m) :
    Running c ctx (m.leaveQueue c) ∧ ((m.leaveQueue c).conns c).queueReturn = none := by
  have hconn : (m.leaveQueue c).conns c = { m.conns c with queueReturn := none } :=
    update_self ..
  exact ⟨h.mark none h.live le_rfl, by rw [hconn]⟩

/-- The handler is woken: by its channel, or by an event that does not end the wait; not by the
end of its context, which is live. -/
theorem Served.wake (h : Served c ctx s seen)
    (hexec : queueExec q (.select ctx returned) s.shared = some (r, m)) :
    (r = .returned ∧ s.shared.server.chans.Closed returned ∧ m = s.shared) ∨
      ∃ e rest, r = .event e ∧ (∀ result, e ≠ .leaving result) ∧ s.shared.offered = e :: rest ∧
        m = { s.shared with offered := rest } := by
  simp only [queueExec] at hexec
  split at hexec
  · rw [if_neg h.running.live] at hexec
    cases hexec
  · split at hexec
    · rename_i hclosed
      cases hexec
      exact Or.inl ⟨rfl, hclosed, rfl⟩
    · cases hexec
  · split at hexec
    · rename_i e rest hoffered
      cases hexec
      refine Or.inr ⟨e, rest, rfl, ?_, hoffered, rfl⟩
      rintro result rfl
      exact h.offered result (by rw [hoffered]; exact List.mem_cons_self)
    · cases hexec

/-- The handler makes its next access. -/
theorem Served.handler (h : Served c ctx s seen) (ht : s.thread .handler = .act a k)
    (hexec : queueExec q a s.shared = some (r, m)) :
    Served c ctx (s.set .handler m (k r)) seen := by
  have hhandling := h.handling
  generalize hp : s.thread .handler = p at hhandling
  rw [ht] at hp
  cases hhandling with
  | joining hmark hseen =>
    cases hp
    cases hexec
    refine h.handle h.running ?_ h.offered
    show Handling c ctx s.shared seen (if q.joins = true then _ else _)
    split
    · exact .entering hmark hseen
    · exact .refused hmark hseen
  | entering hmark hseen =>
    cases hp
    cases hexec
    obtain ⟨hrunning, hmark'⟩ := h.running.enter
    refine h.handle hrunning (.waiting (Or.inl rfl) ?_ ?_ (Or.inl ⟨hmark', ?_⟩)) h.offered
    · exact Nat.ne_of_gt h.running.made
    · exact Nat.lt_succ_self _
    · rw [hseen]
      decide
  | refused | returned => cases hp
  | @waiting returned p hp' hne hmade hmark =>
    rcases hp' with rfl | rfl
    · cases hp
    · cases hp
      -- the agent has handed the thread back, or an event has come that does not end the loop
      rcases h.wake hexec with ⟨rfl, hclosed, rfl⟩ | ⟨e, rest, rfl, hnot, hoffered, rfl⟩
      · exact h.handle h.running (.setting h.handling.mark_ne) h.offered
      · have hrest : ∀ result, .leaving result ∉ rest := fun result hmem =>
          h.offered result (by rw [hoffered]; exact List.mem_cons_of_mem _ hmem)
        have hwaiting : Handling c ctx { s.shared with offered := rest } seen
            (.ret (.waiting returned)) := .waiting (Or.inl rfl) hne hmade hmark
        cases e with
        | bridged | other event => exact h.handle h.running hwaiting hrest
        | leaving result => exact absurd rfl (hnot result)
  | setting hmark =>
    cases hp
    cases hexec
    exact h.handle h.running (.leaving hmark rfl) h.offered
  | leaving hmark hresult =>
    cases hp
    cases hexec
    obtain ⟨hrunning, hmark'⟩ := h.running.leave
    exact h.handle hrunning (.returned (by simp [hmark']) hresult) h.offered

variable {threadID : String} {sub : Int} {s' : QueuePool}

/-- A thread goes on at a label. -/
theorem Served.next (h : Served c ctx s seen) (hid : c.id = sessionID threadID sub) (hsub : 0 < sub)
    (ht : s.thread t = .ret l) (hcode : (queueCalls E c ctx threadID sub).code q l = some p) :
    Served c ctx (s.set t s.shared p) seen := by
  cases t with
  | listener =>
    have hmindful := h.mindful
    rw [ht] at hmindful
    cases hmindful seen rfl
    cases hcode
    refine ⟨h.running, ?_, ?_, h.offered⟩
    · exact mindful_handle hid hsub q.event
    · exact h.handling
  | handler =>
    have hhandling := h.handling
    rw [ht] at hhandling
    cases hhandling with
    | waiting hp hne hmade hmark =>
      rcases hp with hp | hp
      · injection hp with hl
        subst hl
        cases hcode
        exact h.handle h.running (.waiting (Or.inr rfl) hne hmade hmark) h.offered
      · cases hp
    | refused | returned => cases hcode

/-- An answered step. -/
theorem Served.step (h : ∃ seen, Served c ctx s seen) (hid : c.id = sessionID threadID sub)
    (hsub : 0 < sub) (hstep : Step (queueCalls E c ctx threadID sub) s e s')
    (hanswered : Answered c s e s') : ∃ seen, Served c ctx s' seen := by
  obtain ⟨seen, h⟩ := h
  cases hstep with
  | @act t a k w r m ht hexec =>
    cases t with
    | listener => exact h.listener ht hexec hanswered
    | handler => exact ⟨seen, h.handler ht hexec⟩
  | next ht hcode => exact ⟨seen, h.next hid hsub ht hcode⟩
  | env henv =>
    obtain ⟨offer, rfl⟩ := henv
    exact ⟨seen, h.running, h.mindful,
      h.handling.congr rfl ⟨fun _ hn => hn, le_rfl⟩ rfl, hanswered⟩

/-- The handler is about to send its request for a running dialog. -/
theorem served_aboutToJoin (h : Dialog m c threadID sub) :
    Served c (m.conns c).runCtx (aboutToJoin m c) .nothing where
  running := ⟨h.stored, h.running, rfl, h.live, h.made, h.own⟩
  mindful := mindful_listen
  handling := .joining h.queue rfl
  offered _ := List.not_mem_nil

end Handler

/-- A call center that leaves it to the listener to end the wait. -/
def QueueOutside.returning {E : Type} (w : Outside E) : QueueOutside E :=
  ⟨w, true, .returned, .takeover⟩

/-- The handler has returned, with the result of the bot. -/
def ReturnedToBot (s : QueuePool) : Prop :=
  s.thread .handler = .ret .returned ∧ s.shared.ccResult = some ccResultBot

/-- The listener has handled a handback after a takeover. -/
def HeardBack : QueueGo QueueLabel → Bool
  | .ret (.listen .back) => true
  | _ => false

theorem listen_of_heardBack (h : HeardBack p = true) : p = .ret (.listen .back) := by
  unfold HeardBack at h
  split at h
  · rfl
  · cases h

section Return

variable {E : Type} {c : Ptr} {ctx : Nat} {s s' : QueuePool} {threadID : String} {sub : Int}

/-- The handler, left to itself, returns with the result of the bot. -/
def Returns (E : Type) (c : Ptr) (ctx : Nat) (threadID : String) (sub : Int) (s : QueuePool) :
    Prop :=
  ∀ w : Outside E, ∃ n s', Pool.play (queueCalls E c ctx threadID sub)
    (List.replicate n (.handler, QueueOutside.returning w)) s = some s' ∧ ReturnedToBot s'

/-- One move, and the rest. -/
theorem Returns.move (m : QueueCall) (p : QueueGo QueueLabel)
    (h : Returns E c ctx threadID sub (s.set .handler m p))
    (hmove : ∀ w : Outside E, s.move (queueCalls E c ctx threadID sub) .handler
      (QueueOutside.returning w) = some (s.set .handler m p)) :
    Returns E c ctx threadID sub s := by
  intro w
  obtain ⟨n, s₁, hplay, hreturned⟩ := h w
  refine ⟨n + 1, s₁, ?_, hreturned⟩
  rw [List.replicate_succ, Pool.play, hmove w]
  exact hplay

theorem returns_of_leaving (ht : s.thread .handler = leaveAttempt c)
    (hresult : s.shared.ccResult = some ccResultBot) : Returns E c ctx threadID sub s := by
  refine Returns.move { s.shared with server := s.shared.server.leaveQueue c } (.ret .returned)
    (fun w => ⟨0, _, rfl, Pool.set_thread_self .., hresult⟩) fun w => ?_
  simp only [Pool.move, ht]
  rfl

theorem returns_of_setting
    (ht : s.thread .handler = .act (.setResult ccResultBot) fun _ => leaveAttempt c) :
    Returns E c ctx threadID sub s := by
  refine Returns.move { s.shared with ccResult := some ccResultBot } (leaveAttempt c)
    (returns_of_leaving (Pool.set_thread_self ..) rfl) fun w => ?_
  simp only [Pool.move, ht]
  rfl

theorem returns_of_waiting (ht : s.thread .handler = awaitReturn c ctx returned)
    (hclosed : s.shared.server.chans.Closed returned) : Returns E c ctx threadID sub s := by
  refine Returns.move s.shared (.act (.setResult ccResultBot) fun _ => leaveAttempt c)
    (returns_of_setting (Pool.set_thread_self ..)) fun w => ?_
  simp only [Pool.move, ht]
  show Option.map _ (if s.shared.server.chans.Closed returned then _ else _) = _
  rw [if_pos hclosed]
  rfl

/-- Once the listener has handled a handback after a takeover, the handler returns to the
bot. -/
theorem Served.returns (h : Served c ctx s .back) : Returns E c ctx threadID sub s := by
  have hhandling := h.handling
  generalize hp : s.thread .handler = p at hhandling
  cases hhandling with
  | joining _ hseen | entering _ hseen | refused _ hseen => cases hseen
  | @waiting returned _ hp' hne hmade hmark =>
    have hclosed : s.shared.server.chans.Closed returned := by
      rcases hmark with ⟨-, hseen⟩ | ⟨-, hclosed⟩
      · exact absurd rfl hseen
      · exact hclosed
    rcases hp' with rfl | rfl
    · refine Returns.move s.shared (awaitReturn c ctx returned)
        (returns_of_waiting (Pool.set_thread_self ..) hclosed) fun w => ?_
      simp only [Pool.move, hp]
      rfl
    · exact returns_of_waiting hp hclosed
  | setting => exact returns_of_setting hp
  | leaving _ hresult => exact returns_of_leaving hp hresult
  | returned _ hresult => exact fun _ => ⟨0, s, rfl, hp, hresult⟩

/-- Nor does it return with anything else. -/
theorem Served.result (h : Served c ctx s .back) (ht : s.thread .handler = .ret .returned) :
    s.shared.ccResult = some ccResultBot := by
  have hhandling := h.handling
  rw [ht] at hhandling
  cases hhandling with
  | refused _ hseen => cases hseen
  | waiting hp => rcases hp with hp | hp <;> cases hp
  | returned _ hresult => exact hresult

end Return

/-! ## Dialogs in a queue -/

/-- In every interleaving of `joinQueue` with takeovers and handbacks of its session in which
every takeover finds the mark of `EnterQueue` and the call center does not end the wait, the
dialog is not suspended. Once a handback has been handled after a takeover, `joinQueue`
returns if it is scheduled, and it returns with no `cc_result` but the one of the bot. -/
theorem queue_of_answered {E : Type} {m : Server} {c : Ptr} {threadID : String} {sub : Int}
    (hdialog : Dialog m c threadID sub) {ok : Prop} {s : QueuePool}
    (h : Trace.Steps (Step (queueCalls E c (m.conns c).runCtx threadID sub)) (Answered c)
      (aboutToJoin m c) ok s) (hok : ok) :
    (s.shared.server.conns c).state = .running ∧
      (HeardBack (s.thread .listener) = true →
        Returns E c (m.conns c).runCtx threadID sub s ∧
        (s.thread .handler = .ret .returned → s.shared.ccResult = some ccResultBot)) := by
  have hserved : ∃ seen, Served c (m.conns c).runCtx s seen :=
    h.invariant ⟨_, served_aboutToJoin hdialog⟩
      (fun hs hstep => Served.step hs hdialog.id hdialog.schema hstep) hok
  obtain ⟨seen, hserved⟩ := hserved
  refine ⟨hserved.running.running, fun hback => ?_⟩
  have hseen : seen = .back := by
    have hmindful := hserved.mindful
    rw [listen_of_heardBack hback] at hmindful
    injection hmindful seen rfl with hl
    exact hl.symm
  subst hseen
  exact ⟨hserved.returns, hserved.result⟩

/-- The dialog of bot 1 in thread `t` runs on a new server. -/
theorem dialogOne_dialog : Dialog dialogOne.shared ⟨"t.1", 0⟩ "t" 1 where
  id := by decide +kernel
  schema := by decide
  stored := by decide +kernel
  running := by decide +kernel
  queue := by decide +kernel
  live := by decide +kernel
  made := by decide +kernel
  own d hd := by
    have hother : dialogOne.shared.conns d = Server.init.conns d := update_of_ne hd ..
    have hzero : (Server.init.conns d).runCtx = 0 := rfl
    have hself : (dialogOne.shared.conns ⟨"t.1", 0⟩).runCtx = 1 := by decide +kernel
    rw [hother, hzero, hself]
    decide

/-- The listener handles an event. -/
def hearing (e : AgentEvent) (moves : Nat) : List (QueueThread × QueueOutside Unit) :=
  List.replicate moves (.listener, ⟨helpful, true, .returned, e⟩)

/-- The handler moves. -/
def joining (moves : Nat) : List (QueueThread × QueueOutside Unit) :=
  List.replicate moves (.handler, QueueOutside.returning helpful)

/-- The handler waits in the queue, an agent takes the thread over and hands it back. -/
def handedBack : List (QueueThread × QueueOutside Unit) :=
  joining 3 ++ hearing .takeover 5 ++ hearing (.handback "" 0) 4

/-- In that schedule the dialog stays running, and the handler returns to the bot. -/
theorem queue_of_answered_handedBack :
    ∃ s, Pool.play (queueCalls Unit ⟨"t.1", 0⟩ 1 "t" 1) handedBack
        (aboutToJoin dialogOne.shared ⟨"t.1", 0⟩) = some s ∧
      (s.shared.server.conns ⟨"t.1", 0⟩).state = .running ∧
      Returns Unit ⟨"t.1", 0⟩ 1 "t" 1 s := by
  have hctx : (dialogOne.shared.conns ⟨"t.1", 0⟩).runCtx = 1 := by decide +kernel
  obtain ⟨s, hs, hback, ok, hsteps, hok⟩ := Pool.reaches (queueCalls Unit ⟨"t.1", 0⟩ 1 "t" 1)
    (answered_of_answers (c := ⟨"t.1", 0⟩)) handedBack (aboutToJoin dialogOne.shared ⟨"t.1", 0⟩)
    (fun s => HeardBack (s.thread .listener) = true) (by decide +kernel)
  obtain ⟨hstate, hreturns⟩ := queue_of_answered dialogOne_dialog hsteps hok
  exact ⟨s, (Pool.play_eq ..).trans hs, hstate, (hreturns hback).1⟩

/-- The agent answers before `EnterQueue` has run. -/
def answeredEarly : List (QueueThread × QueueOutside Unit) := joining 1 ++ hearing .takeover 8

/-- The takeover suspends the dialog. -/
theorem queue_of_answered_early :
    ∃ ok s, Trace.Steps (Step (queueCalls Unit ⟨"t.1", 0⟩ 1 "t" 1)) (Answered ⟨"t.1", 0⟩)
        (aboutToJoin dialogOne.shared ⟨"t.1", 0⟩) ok s ∧
      (s.shared.server.conns ⟨"t.1", 0⟩).state = .suspended := by
  obtain ⟨s, -, hstate, ok, hsteps⟩ := Trace.reaches
    (Pool.moves_step (queueCalls Unit ⟨"t.1", 0⟩ 1 "t" 1)) (Answered ⟨"t.1", 0⟩) answeredEarly
    (aboutToJoin dialogOne.shared ⟨"t.1", 0⟩)
    (fun s => (s.shared.server.conns ⟨"t.1", 0⟩).state = .suspended) (by decide +kernel)
  exact ⟨ok, s, hsteps, hstate⟩

end FlowManager.Im
