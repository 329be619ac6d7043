import Mathlib.Data.List.Pairwise
import FlowManager.Flow.Program
import FlowManager.Lib.Trace

/-!
# The hook of a bridge (providers/fs, routes/call/bridge.go)

`Router.bridge` makes a channel for the `bridged` applications of its arguments, with a goroutine
that runs them when it receives a value, and gives it to `Connection.Bridge`. That stores it in
`c.hookBridged` if nothing is stored there, and waits for the end of the application `bridge`. An
event `CHANNEL_BRIDGE` sends a value to the channel that is stored and empties the slot. Nothing
else empties it before the connection is over: a `Bridge` that ends without the event leaves its
channel there.

The flow of a call makes its calls of `Bridge` one after another, and `handleConnection` handles the
events. What is done to the slot is done under `c.Lock`, so the moves of the two are taken in any
order.

- `setHookBridged`, `sendHookBridged`, `closeHookBridge`, `setEvent`, `routerBridge`: the code.
- `step`: the moves of the flow and of `handleConnection`.
- `Kept`: what the slot holds, by the hooks that have been offered to it since the last event.
- `routed_iff_offered`: which hook an event runs.
-/

namespace FlowManager.Fs

open Function

/-- The channel `br` of a `Bridge`, with the applications that its goroutine runs -/
structure Hook where
  chan : Nat
  apps : Applications

/-- The slot of a connection, and the goroutines of the hooks -/
structure Hooks where
  hookBridged : Option Hook
  /-- the number of the next channel -/
  next : Nat
  /-- the goroutine of the channel waits for a value -/
  listening : Nat → Bool
  /-- the hooks that have been run -/
  routed : List Hook

namespace Hooks

/-- `br = make(chan struct{})`, with its goroutine -/
def make (s : Hooks) (apps : Applications) : Hook × Hooks :=
  (⟨s.next, apps⟩,
    { s with next := s.next + 1, listening := update s.listening s.next true })

def setHookBridged (s : Hooks) (hook : Hook) : Hooks :=
  match s.hookBridged with
  | none => { s with hookBridged := some hook }
  | some _ => s

/-- `closeHookBridge`; a goroutine that receives from a closed channel runs nothing. -/
def closeHookBridge (s : Hooks) : Hooks :=
  match s.hookBridged with
  | none => s
  | some hook =>
    { s with
      hookBridged := none
      listening := update s.listening hook.chan false }

/-- `sendHookBridged`; `none` if the send would block. -/
def sendHookBridged (s : Hooks) : Option Hooks :=
  match s.hookBridged with
  | none => some s
  | some hook =>
    if s.listening hook.chan then some { s with routed := s.routed ++ [hook] }.closeHookBridge
    else none

end Hooks

/-- Where the flow is -/
inductive Phase where
  /-- not in `Bridge` -/
  | idle
  /-- `Bridge` puts its dial string together -/
  | entering (hook : Option Hook)
  /-- `executeWithContext` -/
  | executing (hook : Option Hook)

/-- The `Bridge` in progress, with its hook -/
def Phase.current : Phase → Option (Option Hook)
  | .idle => none
  | .entering hook | .executing hook => some hook

/-- A `Connection`, and where its flow is -/
structure Connection where
  hooks : Hooks
  stopped : Bool
  /-- `handleConnection` has returned -/
  closed : Bool
  phase : Phase

/-- An event of the call, by its name -/
inductive CallEvent where
  /-- `CHANNEL_HANGUP_COMPLETE` -/
  | hangupComplete
  /-- `CHANNEL_BRIDGE` -/
  | bridge
  /-- any other name, or none -/
  | other

/-- `c.setEvent(event)`; `none` if it would block. -/
def Connection.setEvent (c : Connection) : CallEvent → Option Connection
  | .hangupComplete => some { c with stopped := true }
  | .bridge => c.hooks.sendHookBridged.map fun hooks => { c with hooks := hooks }
  | .other => some c

/-- What a `bridge` of the flow is called with, and what the functions return that it calls first -/
structure Request where
  args : Value
  /-- `replaceBridgeRequest`: the endpoints, or the text of its error -/
  endpoints : Except String Applications
  /-- the error of `getRemoteEndpoints` -/
  remote : Option AppError

def errArgs : AppError := ⟨"Bridge", "call.bridge.valid.args", "bad arguments", 400⟩

def errEndpoints (details : String) : AppError :=
  ⟨"Bridge", "call.bridge.valid.endpoints", details, 400⟩

/-- `Router.bridge` up to the call of `Bridge`: an error, or the applications of the hook -/
def routerBridge (r : Request) : Except AppError (Option Applications) :=
  match r.args.asObj with
  | none => .error errArgs
  | some props =>
    if props.any fun entry => entry.1 == "endpoints" then
      match r.endpoints, r.remote with
      | .error err, _ => .error (errEndpoints err)
      | .ok [], _ => .error (errEndpoints "bad arguments")
      | .ok _, some err => .error err
      -- there is a hook also for an empty list
      | .ok _, none => .ok ((props.get "bridged").asArr.map arrInterfaceToArrayApplication)
    else .error (errEndpoints "bad arguments")

inductive Move where
  /-- the flow comes to a `bridge` -/
  | bridge (r : Request)
  /-- `Bridge` stores its hook, if it has one -/
  | store
  /-- `executeWithContext` returns: the application has ended, the context has, or there is an
  error -/
  | finish
  /-- `handleConnection` has read an event, and handles it -/
  | event (e : CallEvent)
  /-- `handleConnection` returns -/
  | close

/-- The moves; `none` if they cannot be made. -/
def step (c : Connection) : Move → Option Connection
  | .bridge r =>
    match c.phase, routerBridge r with
    | .idle, .error _ => some c
    | .idle, .ok none => some { c with phase := .entering none }
    | .idle, .ok (some apps) =>
      let y := c.hooks.make apps
      some { c with hooks := y.2, phase := .entering (some y.1) }
    | _, _ => none
  | .store =>
    match c.phase with
    | .entering none => some { c with phase := .executing none }
    | .entering (some hook) =>
      some { c with hooks := c.hooks.setHookBridged hook, phase := .executing (some hook) }
    | _ => none
  | .finish =>
    match c.phase with
    | .executing _ => some { c with phase := .idle }
    | _ => none
  | .event e => if c.stopped || c.closed then none else c.setEvent e
  | .close => some { c with hooks := c.hooks.closeHookBridge, closed := true }

/-- `newConnection` -/
def newConnection : Connection := ⟨⟨none, 0, fun _ => false, []⟩, false, false, .idle⟩

/-- The hooks that have been offered to the slot since the last `CHANNEL_BRIDGE` -/
def note (c : Connection) (move : Move) (offered : List Hook) : List Hook :=
  match move, c.phase with
  | .store, .entering (some hook) => offered ++ [hook]
  -- no event comes after the end of the connection
  | .event .bridge, _ | .close, _ => []
  | _, _ => offered

/-! ## The slot -/

namespace Hooks

variable {s s' : Hooks}

/-- The slot has been emptied, and nothing else has happened but to the hook that was in it. -/
structure Emptied (s s' : Hooks) : Prop where
  slot : s'.hookBridged = none
  next : s'.next = s.next
  listening : ∀ chan, (∀ hook, s.hookBridged = some hook → hook.chan ≠ chan) →
    s'.listening chan = s.listening chan

theorem closeHookBridge_emptied (s : Hooks) : Emptied s s.closeHookBridge := by
  unfold closeHookBridge
  split
  · rename_i hslot
    exact ⟨hslot, rfl, fun _ _ => rfl⟩
  · rename_i hook hslot
    exact ⟨rfl, rfl, fun chan hne => update_of_ne (hne hook hslot).symm ..⟩

/-- The hook in the slot is run. -/
theorem sendHookBridged_spec (h : s.sendHookBridged = some s') :
    Emptied s s' ∧ s'.routed = s.routed ++ s.hookBridged.toList := by
  unfold sendHookBridged at h
  split at h
  · rename_i hslot
    cases h
    rw [hslot, Option.toList_none, List.append_nil]
    exact ⟨⟨hslot, rfl, fun _ _ => rfl⟩, rfl⟩
  · rename_i hook hslot
    split at h
    · cases h
      refine ⟨{ closeHookBridge_emptied { s with routed := _ } with }, ?_⟩
      simp only [closeHookBridge, hslot, Option.toList_some]
    · cases h

/-- The send does not block if the hook in the slot is waited for. -/
theorem sendHookBridged_isSome
    (h : ∀ hook, s.hookBridged = some hook → s.listening hook.chan = true) :
    ∃ s', s.sendHookBridged = some s' := by
  unfold sendHookBridged
  split
  · exact ⟨s, rfl⟩
  · rename_i hook hslot
    rw [if_pos (h hook hslot)]
    exact ⟨_, rfl⟩

theorem setHookBridged_slot (s : Hooks) (hook : Hook) :
    (s.setHookBridged hook).hookBridged = s.hookBridged.or (some hook) := by
  unfold setHookBridged
  split <;> simp [*]

theorem setHookBridged_frame (s : Hooks) (hook : Hook) :
    (s.setHookBridged hook).next = s.next ∧
      (s.setHookBridged hook).listening = s.listening := by
  unfold setHookBridged
  split <;> exact ⟨rfl, rfl⟩

end Hooks

/-! ## Which hook an event runs -/

/-- The slot holds the first hook that has been offered since the last event. The hooks have been
offered in the order of their channels, and the one of the `Bridge` in progress is the last. -/
structure Kept (s : Hooks) (phase : Phase) (offered : List Hook) : Prop where
  slot : s.hookBridged = offered.head?
  stored : ∀ hook, s.hookBridged = some hook → s.listening hook.chan = true
  sorted : offered.Pairwise fun h h' => h.chan < h'.chan
  below : ∀ hook ∈ offered, hook.chan < s.next
  entering : ∀ hook, phase = .entering (some hook) →
    s.listening hook.chan = true ∧ hook.chan < s.next ∧ ∀ h ∈ offered, h.chan < hook.chan
  executing : ∀ hook, phase = .executing (some hook) → ∀ h ∈ offered, h.chan ≤ hook.chan

section Kept

variable {c c' : Connection} {s s' : Hooks} {phase : Phase} {offered : List Hook}

/-- The slot is emptied, by an event or by the end of the connection. -/
theorem Kept.emptied (h : Kept s phase offered) (hempty : Hooks.Emptied s s') :
    Kept s' phase [] := by
  refine ⟨hempty.slot, fun hook hslot => ?_, List.Pairwise.nil, nofun, fun hook hphase => ?_, nofun⟩
  · rw [hempty.slot] at hslot
    cases hslot
  · obtain ⟨hlistening, hlt, hbefore⟩ := h.entering hook hphase
    rw [hempty.next, hempty.listening]
    · exact ⟨hlistening, hlt, nofun⟩
    · -- the hook in the slot has been offered, and this one has not
      intro hook' hslot
      rw [h.slot] at hslot
      exact Nat.ne_of_lt (hbefore hook' (List.mem_of_mem_head? hslot))

theorem Kept.make (h : Kept s phase offered) :
    Kept (s.make apps).2 (.entering (some (s.make apps).1)) offered := by
  refine ⟨h.slot, fun hook hslot => ?_, h.sorted, fun hook hmem => ?_, fun hook hphase => ?_, nofun⟩
  · have hlt := h.below hook (List.mem_of_mem_head? (h.slot.symm.trans hslot))
    exact (update_of_ne (Nat.ne_of_lt hlt) ..).trans (h.stored hook hslot)
  · exact Nat.lt_succ_of_lt (h.below hook hmem)
  · cases hphase
    exact ⟨update_self .., Nat.lt_succ_self _, h.below⟩

theorem Kept.store (h : Kept s (.entering (some hook)) offered) :
    Kept (s.setHookBridged hook) (.executing (some hook)) (offered ++ [hook]) := by
  obtain ⟨hlistening, hlt, hbefore⟩ := h.entering hook rfl
  obtain ⟨hnext, hsame⟩ := s.setHookBridged_frame hook
  have hmem : ∀ {h'}, h' ∈ offered ++ [hook] → h' ∈ offered ∨ h' = hook := by simp
  constructor
  · rw [Hooks.setHookBridged_slot, h.slot, List.head?_append]
    rfl
  · intro hook' hslot
    rw [Hooks.setHookBridged_slot] at hslot
    rw [hsame]
    -- it has been in the slot, or it is the one that is offered
    rcases Option.or_eq_some_iff.mp hslot with hslot | ⟨-, hslot⟩
    · exact h.stored hook' hslot
    · cases hslot
      exact hlistening
  · refine List.pairwise_append.mpr ⟨h.sorted, List.pairwise_singleton _ _, fun h' hmem => ?_⟩
    simpa using hbefore h' hmem
  · intro hook' hhook'
    rw [hnext]
    rcases hmem hhook' with hhook' | rfl
    · exact h.below hook' hhook'
    · exact hlt
  · nofun
  · intro hook' hphase h' hh'
    cases hphase
    rcases hmem hh' with hh' | rfl
    · exact Nat.le_of_lt (hbefore h' hh')
    · exact Nat.le_refl _

/-- The flow goes on and has no hook to offer. -/
theorem Kept.go (h : Kept s phase offered)
    (hphase : ∀ hook, phase' ≠ .entering (some hook) ∧ phase' ≠ .executing (some hook)) :
    Kept s phase' offered :=
  ⟨h.slot, h.stored, h.sorted, h.below, fun hook heq => absurd heq (hphase hook).1,
    fun hook heq => absurd heq (hphase hook).2⟩

theorem Kept.step (h : Kept c.hooks c.phase offered) (hstep : step c move = some c') :
    Kept c'.hooks c'.phase (note c move offered) := by
  obtain ⟨s, stopped, closed, phase⟩ := c
  cases move with
  | bridge r =>
    simp only [Fs.step] at hstep
    split at hstep <;> cases hstep
    · exact h
    · exact h.go fun _ => ⟨nofun, nofun⟩
    · exact h.make
  | store =>
    simp only [Fs.step] at hstep
    split at hstep
    · cases hstep
      exact h.go fun _ => ⟨nofun, nofun⟩
    · cases hstep
      exact h.store
    · cases hstep
  | finish =>
    simp only [Fs.step] at hstep
    split at hstep <;> cases hstep
    exact h.go fun _ => ⟨nofun, nofun⟩
  | event e =>
    simp only [Fs.step] at hstep
    split at hstep
    · cases hstep
    · cases e with
      | bridge =>
        obtain ⟨s', hsend, rfl⟩ := Option.map_eq_some_iff.mp hstep
        exact h.emptied (Hooks.sendHookBridged_spec hsend).1
      | _ =>
        cases hstep
        exact h
  | close =>
    cases hstep
    exact h.emptied s.closeHookBridge_emptied

/-- The first hook that has been offered is the one of the `Bridge` in progress only if no other
has been. -/
theorem Kept.head_eq_iff (h : Kept s phase offered) (hcurrent : phase.current = some hook) :
    offered.head? = hook ↔ offered = hook.toList := by
  constructor
  · rintro rfl
    match offered with
    | [] => rfl
    | [_] => rfl
    | first :: second :: rest =>
      -- the hook of the `Bridge` in progress is the last one of all
      have hlt := List.rel_of_pairwise_cons h.sorted List.mem_cons_self
      cases phase with
      | idle => cases hcurrent
      | entering hook =>
        cases hcurrent
        exact absurd ((h.entering first rfl).2.2 first List.mem_cons_self) (Nat.lt_irrefl _)
      | executing hook =>
        cases hcurrent
        have hle := h.executing first rfl second (List.mem_cons_of_mem _ List.mem_cons_self)
        exact absurd hlt (Nat.not_lt_of_le hle)
  · rintro rfl
    cases hook <;> rfl

/-- If the hook of another `Bridge` has been offered, the first one is of another `Bridge`. -/
theorem Kept.head_ne_iff (h : Kept s phase offered) :
    (∃ hook, offered.head? = some hook ∧ phase.current ≠ some (some hook)) ↔
      ∃ hook ∈ offered, phase.current ≠ some (some hook) := by
  constructor
  · rintro ⟨hook, hhead, hne⟩
    exact ⟨hook, List.mem_of_mem_head? hhead, hne⟩
  · rintro ⟨hook, hmem, hne⟩
    obtain ⟨first, hfirst⟩ := Option.isSome_iff_exists.mp
      (List.isSome_head?.mpr (List.ne_nil_of_mem hmem))
    refine ⟨first, hfirst, fun hcurrent => hne ?_⟩
    rw [(h.head_eq_iff hcurrent).mp hfirst] at hmem
    rwa [List.mem_singleton.mp hmem]

end Kept

/-- In every run of a flow that calls `Bridge` any number of times, with or without a hook, and of
the events of its call, until that has hung up or the connection is over: a `CHANNEL_BRIDGE` never
blocks. One that comes during a `Bridge` runs the hook of this `Bridge`, or none if it has none,
exactly if the hooks that have been offered since the last `CHANNEL_BRIDGE` are this one alone; and
one that comes at any time runs the hook of another `Bridge`, which has ended, exactly if such a
hook has been offered since. -/
theorem routed_iff_offered
    {cond : Connection × List Hook → Move → Connection × List Hook → Prop} {ok : Prop}
    {x : Connection × List Hook}
    (hrun : Trace.Steps (Trace.Noted (fun c move c' => step c move = some c') note) cond
      (newConnection, []) ok x)
    (hopen : x.1.stopped = false ∧ x.1.closed = false) :
    ∃ c', step x.1 (.event .bridge) = some c' ∧
      (∀ hook, x.1.phase.current = some hook →
        (c'.hooks.routed = x.1.hooks.routed ++ hook.toList ↔ x.2 = hook.toList)) ∧
      ((∃ hook, c'.hooks.routed = x.1.hooks.routed ++ [hook] ∧
          x.1.phase.current ≠ some (some hook)) ↔
        ∃ hook ∈ x.2, x.1.phase.current ≠ some (some hook)) := by
  let Inv (x : Connection × List Hook) : Prop := Kept x.1.hooks x.1.phase x.2
  have hinit : Inv (newConnection, []) := ⟨rfl, nofun, List.Pairwise.nil, nofun, nofun, nofun⟩
  have hkept : Inv x := by
    refine hrun.always hinit ?_
    rintro x move ⟨c', offered⟩ h ⟨hstep, rfl⟩
    exact h.step hstep
  obtain ⟨s', hsend⟩ := Hooks.sendHookBridged_isSome hkept.stored
  have hrouted := (Hooks.sendHookBridged_spec hsend).2
  rw [hkept.slot] at hrouted
  refine ⟨{ x.1 with hooks := s' }, ?_, fun hook hcurrent => ?_, ?_⟩
  · simp only [step, hopen.1, hopen.2, Bool.or_self, Bool.false_eq_true, if_false,
      Connection.setEvent, hsend, Option.map_some]
  · simp only [hrouted, List.append_cancel_left_eq]
    rw [← hkept.head_eq_iff hcurrent]
    cases hook <;> simp
  · simp only [hrouted, List.append_cancel_left_eq, Option.toList_eq_singleton_iff]
    exact hkept.head_ne_iff

/-- A `bridge` to one endpoint, with a hook or without one -/
def request (hooked : Bool) : Request where
  args := .obj (("endpoints", .arr [.obj []]) :: if hooked then [("bridged", .arr [])] else [])
  endpoints := .ok [[]]
  remote := none

/-- Where moves lead to, with the hooks that have been offered since the last event -/
def play (moves : List Move) : Option (Connection × List Hook) :=
  Trace.play (Trace.noting step (fun _ move => move) note) moves (newConnection, [])

/-- A `Bridge` with a hook is answered and ends, and another one begins. -/
def twice : List Move :=
  [.bridge (request true), .store, .event .bridge, .finish, .bridge (request true), .store]

/-- The second `Bridge` with a hook is answered. -/
theorem routed_iff_offered_answered :
    ∃ x, play twice = some x ∧ x.1.phase.current = some (some ⟨1, []⟩) ∧
      x.1.hooks.routed = [⟨0, []⟩] ∧
      ∃ c', step x.1 (.event .bridge) = some c' ∧ c'.hooks.routed = [⟨0, []⟩, ⟨1, []⟩] := by
  obtain ⟨x, hx⟩ : ∃ x, play twice = some x := ⟨_, rfl⟩
  have hmove : ∀ (c : Connection) move c', step c move = some c' → step c move = some c' :=
    fun _ _ _ => id
  have hstart : Trace.Steps (Trace.Noted (fun c move c' => step c move = some c') note)
      (fun _ _ _ => True) (newConnection, []) True (newConnection, []) := .refl
  obtain ⟨ok, hrun⟩ := Trace.play_steps (Trace.noting_noted hmove) hstart hx
  cases hx
  obtain ⟨c', hstep, hruns, -⟩ := routed_iff_offered hrun ⟨rfl, rfl⟩
  exact ⟨_, rfl, rfl, rfl, c', hstep, (hruns _ rfl).mpr rfl⟩

/-- A `Bridge` with a hook ends without an event, and the next one begins. -/
def again (hooked : Bool) : List Move :=
  [.bridge (request true), .store, .finish, .bridge (request hooked), .store]

/-- A `Bridge` with a hook ends without an event, and `CHANNEL_BRIDGE` comes during the next one:
its hook is run, whether the next `Bridge` has none or has one of its own, which is not run. -/
theorem routed_iff_offered_stale :
    (∃ x, play (again false) = some x ∧ x.1.phase.current = some none ∧
      ∃ c', step x.1 (.event .bridge) = some c' ∧ c'.hooks.routed = [⟨0, []⟩]) ∧
    ∃ x, play (again true) = some x ∧ x.1.phase.current = some (some ⟨1, []⟩) ∧
      ∃ c', step x.1 (.event .bridge) = some c' ∧ c'.hooks.routed = [⟨0, []⟩] :=
  ⟨⟨_, rfl, rfl, _, rfl, rfl⟩, _, rfl, rfl, _, rfl, rfl⟩

end FlowManager.Fs
