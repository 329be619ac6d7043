import FlowManager.Flow.Nested
import FlowManager.Lib.Trace

/-!
# Sub-flows in the background (flow/execute.go, flow/schema.go)

`execute` and `schema` fork the flow and call `Route` on the fork, or start it with `go` if they are
asynchronous. What follows is not the same: `schema` asks whether the fork is cancelled only if it
has waited for it, and `execute` always does, so the answer is up to the scheduler.

- `execute`, `schema`: how the handlers begin; `Call`, `move`: how they go on, while the fork runs.
- `cancel_of_calm`: when the caller is cancelled.
-/

namespace FlowManager.Execute

/-- `ErrorRequiredParameter` -/
def errorRequiredParameter (appId param : String) : AppError :=
  ⟨"Valid", "valid.app." ++ appId, "App=" ++ appId ++ " " ++ param ++ " is required", 400⟩

/-- `FunctionScope`: the fork, and the flow that is forked -/
def functionScope (f : Flow) (name : String) : Except AppError (Flow × Flow) :=
  match f.prog.lookupFunction name with
  | some apps => .ok (f.fork apps)
  | none => .error ⟨"Iterator", "iterator.function.new_scope", "not found " ++ name, 400⟩

/-- The handlers -/
inductive Callee where
  | execute
  | schema
  deriving DecidableEq

/-- Where a handler is, once it has forked the flow -/
inductive Phase where
  /-- at `Route` or `go Route` -/
  | routing
  /-- at `IsCancel` -/
  | asking
  | returned
  deriving DecidableEq

/-- A handler, its flow `scope`, and the call of `Route` on the fork -/
structure Call (E : Type) where
  scope : Flow
  sub : RouteState E
  phase : Phase

section Handlers

variable {E : Type} (w : World E)

def Call.of (forked : Flow × Flow) (e : E) : Call E := ⟨forked.2, routeStart forked.1 e, .routing⟩

/-- `execute` up to `Route` -/
def execute (scope : Flow) (name : String) (e : E) : Except AppError (Call E) :=
  if name = "" then .error (errorRequiredParameter "execute" "name")
  else (functionScope scope name).map fun forked => .of forked e

/-- `schema` up to `Route`; `found` is what `GetSchemaById` returns. -/
def schema (scope : Flow) (found : Except AppError Applications) (e : E) :
    Except AppError (Call E) :=
  found.map fun apps => .of (scope.fork apps) e

inductive Move where
  /-- the handler goes on -/
  | handler
  /-- the fork goes on for an iteration of `Route` -/
  | sub

/-- The next step of the handler; `none` while it waits, and when it has returned. -/
def Call.handle (callee : Callee) (async : Bool) (s : Call E) : Option (Call E) :=
  match s.phase with
  | .routing =>
    if async = true then
      some { s with phase := if callee = .execute then .asking else .returned }
    else if s.sub.returned = true then some { s with phase := .asking }
    else none
  | .asking =>
    some { s with
      scope := if s.sub.flow.cancel = true then s.scope.setCancel else s.scope
      phase := .returned }
  | .returned => none

def move (callee : Callee) (async : Bool) (s : Call E) : Move → Option (Call E)
  | .handler => s.handle callee async
  | .sub => (routeStep w s.sub).toOption.map fun sub => { s with sub := sub }

def Moves (callee : Callee) (async : Bool) (s : Call E) (m : Move) (s' : Call E) : Prop :=
  move w callee async s m = some s'

end Handlers

/-- The fork is not cancelled yet when `execute` asks without having waited. -/
def calm {E : Type} (callee : Callee) (async : Bool) (s : Call E) : Move → Bool
  | .handler => !(callee = .execute && async && s.phase = .asking && s.sub.flow.cancel)
  | .sub => true

/-- What has become of the flag `cancel` of the caller -/
structure Settled {E : Type} (callee : Callee) (async cancel : Bool) (s : Call E) : Prop where
  silent : callee = .schema → async = true → s.phase ≠ .asking
  kept : async = true ∨ s.phase ≠ .returned → s.scope.cancel = cancel
  waited : async = false → s.phase ≠ .routing → s.sub.returned = true
  asked : async = false → s.phase = .returned → s.scope.cancel = (cancel || s.sub.flow.cancel)

variable {E : Type} {w : World E} {callee : Callee} {async cancel : Bool} {s s' : Call E}

section

variable (h : Settled callee async cancel s)
include h

theorem Settled.handle
    (hcalm : calm callee async s .handler = true) (hs : s.handle callee async = some s') :
    Settled callee async cancel s' := by
  unfold Call.handle at hs
  cases hphase : s.phase with
  | routing =>
    have hkept := h.kept (.inr (by rw [hphase]; nofun))
    rw [hphase] at hs
    cases async with
    | true =>
      cases hs
      refine ⟨fun hschema _ => ?_, fun _ => hkept, nofun, nofun⟩
      rw [hschema]
      nofun
    | false =>
      simp only [Bool.false_eq_true, if_false, Option.ite_none_right_eq_some] at hs
      obtain ⟨hreturned, hs⟩ := hs
      cases hs
      exact ⟨nofun, fun _ => hkept, fun _ _ => hreturned, nofun⟩
  | asking =>
    have hkept := h.kept (.inr (by rw [hphase]; nofun))
    rw [hphase] at hs
    cases hs
    cases async with
    | true =>
      -- the fork is calm, so the caller stays as it is
      have hcancel : s.sub.flow.cancel = false := by
        cases callee with
        | execute => simpa [calm, hphase] using hcalm
        | schema => exact absurd hphase (h.silent rfl rfl)
      refine ⟨nofun, fun _ => ?_, nofun, nofun⟩
      simpa [hcancel] using hkept
    | false =>
      refine ⟨nofun, fun hor => ?_, fun _ _ => h.waited rfl (by rw [hphase]; nofun),
        fun _ _ => ?_⟩
      · rcases hor with hor | hor
        · cases hor
        · exact absurd rfl hor
      · rw [← hkept]
        by_cases hcancel : s.sub.flow.cancel = true
        · simp [hcancel, Flow.setCancel]
        · simp [hcancel]
  | returned =>
    rw [hphase] at hs
    cases hs

theorem Settled.sub {sub : RouteState E}
    (hs : routeStep w s.sub = .ok sub) : Settled callee async cancel { s with sub := sub } := by
  -- a call of `Route` that has been waited for does nothing more
  have hsame : async = false → s.phase ≠ .routing → sub = s.sub := by
    intro hasync hphase
    rw [routeStep_returned w (h.waited hasync hphase)] at hs
    cases hs
    rfl
  refine ⟨h.silent, h.kept, fun hasync hphase => ?_, fun hasync hphase => ?_⟩
  · rw [hsame hasync hphase]
    exact h.waited hasync hphase
  · rw [hsame hasync (by rw [show s.phase = .returned from hphase]; nofun)]
    exact h.asked hasync hphase

theorem Settled.move {m : Move}
    (hs : move w callee async s m = some s') (hcalm : calm callee async s m = true) :
    Settled callee async cancel s' := by
  cases m with
  | handler => exact h.handle hcalm hs
  | sub =>
    obtain ⟨sub, hsub, rfl⟩ := Option.map_eq_some_iff.mp hs
    cases hroute : routeStep w s.sub with
    | error err =>
      rw [hroute] at hsub
      cases hsub
    | ok t =>
      rw [hroute] at hsub
      cases hsub
      exact h.sub hroute

end

/-- The fork runs beside the handler in any way. An asynchronous handler leaves the flag of the
caller as it is if the fork is not cancelled when `execute` asks; `schema` does in any case. Another
has set it when it has returned, exactly if the fork has ended cancelled. -/
theorem cancel_of_calm {E : Type} {w : World E} {callee : Callee} {async : Bool} {scope : Flow}
    {apps : Applications} {e : E} {ok : Prop} {s : Call E}
    (h : Trace.Steps (Moves w callee async) (fun s m _ => calm callee async s m = true)
      (Call.of (scope.fork apps) e) ok s) (hok : ok) :
    (async = true → s.scope.cancel = scope.cancel) ∧
      (async = false → s.phase = .returned → s.sub.returned = true ∧
        s.scope.cancel = (scope.cancel || s.sub.flow.cancel)) := by
  have hinit : Settled callee async scope.cancel (Call.of (scope.fork apps) e) :=
    ⟨nofun, fun _ => rfl, fun _ h => absurd rfl h, nofun⟩
  have hsettled := h.invariant hinit (fun hs hstep => hs.move hstep) hok
  refine ⟨fun hasync => hsettled.kept (.inl hasync), fun hasync hphase => ?_⟩
  exact ⟨hsettled.waited hasync (by rw [hphase]; nofun), hsettled.asked hasync hphase⟩

/-- A flow with a function that breaks off -/
def breaking : Flow := Flow.new [[("function",
  .obj [("name", .str "f"), ("actions", .arr [.obj [("break", .bool true)]])])]]

/-- The caller's flag when an asynchronous `execute` of that function has made the moves -/
def flagAfter (moves : List Move) : Option (Phase × Bool) :=
  match execute breaking "f" () with
  | .ok s => (Trace.play (move steadyWorld .execute true) moves s).map fun s =>
      (s.phase, s.scope.cancel)
  | .error _ => none

/-- The handler is ahead of the fork, which breaks off when nobody asks any more. -/
theorem cancel_of_calm_ahead :
    ∃ s, Trace.play (move steadyWorld .execute true) [.handler, .handler, .sub]
        (Call.of (breaking.fork [[("break", .bool true)]]) ()) = some s ∧
      s.sub.flow.cancel = true ∧ s.scope.cancel = breaking.cancel := by
  obtain ⟨s, hs, hcancel, ok, hsteps, hok⟩ := Trace.reaches_checked
    (fun s m s' => @id (Moves steadyWorld .execute true s m s'))
    (fun s m _ _ => @id (calm .execute true s m = true)) [.handler, .handler, .sub]
    (Call.of (breaking.fork [[("break", .bool true)]]) ()) (fun s => s.sub.flow.cancel = true)
    (by decide +kernel)
  exact ⟨s, hs, hcancel, (cancel_of_calm hsteps hok).1 rfl⟩

/-- The fork breaks off before the handler asks, and the caller is cancelled; if the handler asks
first, it is not. -/
theorem cancel_of_calm_behind :
    flagAfter [.handler, .sub, .handler] = some (.returned, true) ∧
      flagAfter [.handler, .handler, .sub] = some (.returned, false) := by
  decide +kernel

end FlowManager.Execute
