import FlowManager.Flow.Resume
import FlowManager.Lib.Trace

/-!
# `Route` and the end of its context

The context of a call of `Route` may become done at any moment, and Go's `select` may take
the handler's result or `ctx.Done` when both are ready. Here the call takes small steps, so
that the context can end between any two of them.

- `CtxRoute`, `CtxStep`: a call of `Route` with its context, and its steps.
- `Heeded`: no request was started with the context done, and a request that was in flight
  when the context ended, and ended because of it, is the recorded one.
- `Orderly`: what the environment must do for that.
- `heeded_iff_orderly`: a complete call heeds the end of its context exactly if every step
  was orderly.
-/

namespace FlowManager

open Flow

/-- Where a call of `Route` is: at the head of its loop, in the `select` of the request `r`
at `p`, whose handler has been started, or over. -/
inductive Phase where
  | head
  | waiting (p : ReqPtr) (r : ApplicationRequest)
  | finished

/-- A call of `Route` and its context. -/
structure CtxRoute where
  flow : Flow
  phase : Phase
  /-- the context is done -/
  done : Bool
  /-- the request that was in flight when the context ended, as long as it is -/
  struck : Option ReqPtr
  /-- some request was started with the context done -/
  late : Bool
  /-- the request that was in flight when the context ended and that ended because of it -/
  ended : Option ReqPtr

/-- `Route` is called. -/
def CtxRoute.start (f : Flow) : CtxRoute where
  flow := f.setInterrupted none
  phase := .head
  done := false
  struck := none
  late := false
  ended := none

/-- The request in flight. -/
def CtxRoute.inFlight (s : CtxRoute) : Option ReqPtr :=
  match s.phase with
  | .waiting p _ => some p
  | _ => none

/-- What happens: the context ends, an iteration goes up to its `select`, or the `select`
takes one of its branches. A handler can return because of the cancellation. -/
inductive CtxEvent where
  | cancel
  | top
  | result (byCancel : Bool)
  | done
  deriving DecidableEq

/-- The `select` takes the handler's result. -/
def CtxRoute.result (s : CtxRoute) (p : ReqPtr) (r : ApplicationRequest) (h : Handled)
    (byCancel : Bool) : CtxRoute :=
  { s with
    flow := routeResult h.flow r
    phase := if (routeResult h.flow r).cancel = true then .finished else .head
    struck := none
    ended := if byCancel = true ∧ s.struck = some p then some p else s.ended }

/-- The `select` takes `ctx.Done`. -/
def CtxRoute.abandon (s : CtxRoute) (p : ReqPtr) (h : Handled) (ran : Bool) : CtxRoute :=
  { s with
    flow := routeDone (selected s.flow h (.done ran)).flow p
    phase := .finished
    struck := none
    ended := if s.struck = some p then some p else s.ended }

/-- The steps of a call. -/
inductive CtxStep : CtxRoute → CtxEvent → CtxRoute → Prop where
  | cancel (hlive : s.done = false) :
      CtxStep s .cancel { s with done := true, struck := s.inFlight }
  | returned (hphase : s.phase = .head) (htop : routeTop s.flow = .ok (.returned, f)) :
      CtxStep s .top { s with flow := f, phase := .finished }
  | again (hphase : s.phase = .head) (htop : routeTop s.flow = .ok (.again, f)) :
      CtxStep s .top { s with flow := f }
  | start {s : CtxRoute} {f : Flow} {p : ReqPtr} {r : ApplicationRequest} (hphase : s.phase = .head)
      (htop : routeTop s.flow = .ok (.start p r, f)) :
      CtxStep s .top { s with flow := f, phase := .waiting p r, late := s.late || s.done }
  | result {E : Type} (w : World E) (e : E) {s : CtxRoute} {p : ReqPtr} {r : ApplicationRequest}
      {h : Handled} (byCancel : Bool) (hphase : s.phase = .waiting p r)
      (hrequest : request w e s.flow r = .ok h) (hby : byCancel = true → s.done = true) :
      CtxStep s (.result byCancel) (s.result p r h byCancel)
  | done {E : Type} (w : World E) (e : E) {s : CtxRoute} {p : ReqPtr} {r : ApplicationRequest}
      {h : Handled} (ran : Bool) (hphase : s.phase = .waiting p r)
      (hrequest : request w e s.flow r = .ok h) (hdone : s.done = true) :
      CtxStep s .done (s.abandon p h ran)

/-- The call has heeded the end of its context so far. -/
structure Heeded (s : CtxRoute) : Prop where
  late : s.late = false
  recorded : ∀ p, s.ended = some p → s.flow.interrupted = some p

/-- The context may end between two requests only when no further one would be started; and
once it is done, the `select` may take a result only of a handler that returned on its own,
and only when no further request would be started. -/
def Orderly (s : CtxRoute) : CtxEvent → CtxRoute → Prop
  | .cancel, _ => s.phase = .head → s.flow.cancel = true ∨ NothingLeft s.flow
  | .result byCancel, s' =>
    s.done = true → byCancel = false ∧ (s'.phase = .finished ∨ NothingLeft s'.flow)
  | .top, _ => True
  | .done, _ => True

/-! ## Invariants -/

/-- What holds of a call as long as every step is orderly. -/
structure Watched (s : CtxRoute) : Prop where
  safe : s.flow.Safe
  loaded : ∀ p r, s.phase = .waiting p r →
    s.flow.prog.request p = some r ∧ p.node < s.flow.prog.nodeCount
  late : s.late = false
  clean : s.phase ≠ .finished → s.flow.interrupted = none ∧ s.ended = none
  recorded : ∀ p, s.ended = some p → s.flow.interrupted = some p
  idle : s.phase = .head → s.done = true → s.flow.cancel = true ∨ NothingLeft s.flow
  struck : ∀ p r, s.phase = .waiting p r → s.done = true → s.struck = some p

/-- A call that has failed to heed its context, or will have by the time it is over. -/
inductive Doomed (s : CtxRoute) : Prop where
  | late (h : s.late = true)
  | lost {p : ReqPtr} (hsafe : s.flow.Safe) (hphase : ∀ p r, s.phase ≠ .waiting p r)
      (hdone : s.done = true) (hended : s.ended = some p) (hrecorded : s.flow.interrupted = none)
  | pending (hsafe : s.flow.Safe) (hphase : s.phase = .head) (hdone : s.done = true)
      (hcancel : s.flow.cancel = false) (hleft : ¬ NothingLeft s.flow)

section Steps

variable {s s' : CtxRoute} {a : CtxEvent}

theorem watched_start (hf : f.Safe) : Watched (CtxRoute.start f) where
  safe := hf.congr rfl rfl rfl
  loaded _ _ h := by cases h
  late := rfl
  clean _ := ⟨rfl, rfl⟩
  recorded _ h := by cases h
  idle _ h := by cases h
  struck _ _ h := by cases h

theorem Watched.heeded (h : Watched s) : Heeded s := ⟨h.late, h.recorded⟩

/-- The flow after a result. -/
theorem result_flow {E : Type} {w : World E} {e : E}
    (hf : f.Safe) (hreq : f.prog.request p = some r)
    (hnode : p.node < f.prog.nodeCount) (hrequest : request w e f r = .ok h) :
    (routeResult h.flow r).Safe ∧ (routeResult h.flow r).interrupted = f.interrupted := by
  have hh := handles_of_request hf hrequest
  refine ⟨safe_routeResult (hh.safe hf hreq hnode) r, ?_⟩
  have hframe := hh.frame
  rw [routeResult_frame]
  show h.flow.interrupted = f.interrupted
  rw [hframe]

theorem abandon_safe {E : Type} {w : World E} {e : E}
    (hf : f.Safe) (hreq : f.prog.request p = some r)
    (hnode : p.node < f.prog.nodeCount) (hrequest : request w e f r = .ok h) (ran : Bool) :
    (routeDone (selected f h (.done ran)).flow p).Safe :=
  (safe_selected hf ((handles_of_request hf hrequest).safe hf hreq hnode) _).congr rfl rfl rfl

/-- The request that was struck ends because of the cancellation. -/
theorem CtxRoute.result_ended {s : CtxRoute} {p : ReqPtr} (r : ApplicationRequest) (h : Handled)
    (hstruck : s.struck = some p) : (s.result p r h true).ended = some p :=
  if_pos ⟨rfl, hstruck⟩

theorem CtxRoute.abandon_ended {s : CtxRoute} {p : ReqPtr} (h : Handled) (ran : Bool)
    (hstruck : s.struck = some p) : (s.abandon p h ran).ended = some p :=
  if_pos hstruck

theorem CtxRoute.result_not_waiting (s : CtxRoute) (p : ReqPtr) (r : ApplicationRequest)
    (h : Handled) (byCancel : Bool) (p' : ReqPtr) (r' : ApplicationRequest) :
    (s.result p r h byCancel).phase ≠ .waiting p' r' := by
  unfold CtxRoute.result
  split <;> simp

/-- The loop goes on behind a result unless the flow is cancelled by then. -/
theorem CtxRoute.result_head (s : CtxRoute) (p : ReqPtr) {r : ApplicationRequest} {h : Handled}
    (byCancel : Bool) (hcancel : (routeResult h.flow r).cancel = false) :
    (s.result p r h byCancel).phase = .head :=
  if_neg (ne_true_of_eq_false hcancel)

/-- Orderly steps keep the invariant. -/
theorem Watched.keep (h : Watched s) (hstep : CtxStep s a s') (hok : Orderly s a s') :
    Watched s' := by
  cases hstep with
  | cancel hlive =>
    refine ⟨h.safe, h.loaded, h.late, h.clean, h.recorded, fun hp _ => hok hp, fun p r hp _ => ?_⟩
    show s.inFlight = some p
    unfold CtxRoute.inFlight
    rw [show s.phase = .waiting p r from hp]
  | returned hphase htop =>
    have hspec := topSpec_of_routeTop h.safe htop
    refine ⟨hspec.safe h.safe, fun p r hp => (by cases hp), h.late, fun hp => absurd rfl hp,
      fun p hp => ?_, fun hp => (by cases hp), fun p r hp => (by cases hp)⟩
    rw [(h.clean (by rw [hphase]; simp)).2] at hp
    cases hp
  | @again _ f hphase htop =>
    have hspec := topSpec_of_routeTop h.safe htop
    obtain ⟨hclean, hended⟩ := h.clean (by rw [hphase]; simp)
    refine ⟨hspec.safe h.safe, fun p r hp => ?_, h.late,
      fun _ => ⟨hspec.interrupted.trans hclean, hended⟩, fun p hp => ?_, fun hp hd => ?_,
      fun p r hp => ?_⟩
    · rw [show s.phase = .waiting p r from hp] at hphase
      cases hphase
    · rw [hended] at hp
      cases hp
    · obtain ⟨-, hiff⟩ := nothingLeft_again h.safe htop
      rcases h.idle hphase hd with hc | hleft
      · -- a cancelled flow does not get here
        obtain ⟨_, f₀, _, hnext, hlive, -⟩ := hspec.again_inv
        rw [← hnext.same.cancel, hlive] at hc
        cases hc
      · exact Or.inr (hiff.mp hleft)
    · rw [show s.phase = .waiting p r from hp] at hphase
      cases hphase
  | @start _ f p r hphase htop =>
    have hspec := topSpec_of_routeTop h.safe htop
    obtain ⟨hclean, hended⟩ := h.clean (by rw [hphase]; simp)
    obtain ⟨hlive, hleft⟩ := not_nothingLeft_of_start h.safe htop
    have hnot : s.done = false := by
      cases hd : s.done with
      | false => rfl
      | true =>
        rcases h.idle hphase hd with hc | hnothing
        · rw [hlive] at hc
          cases hc
        · exact absurd hnothing hleft
    refine ⟨hspec.safe h.safe, fun p' r' hp => ?_, ?_,
      fun _ => ⟨hspec.interrupted.trans hclean, hended⟩, fun p hp => ?_, fun hp => (by cases hp),
      fun p' r' _ hd => ?_⟩
    · cases hp
      exact hspec.request h.safe
    · show (s.late || s.done) = false
      rw [h.late, hnot]
      rfl
    · rw [hended] at hp
      cases hp
    · rw [show s.done = true from hd] at hnot
      cases hnot
  | @result E w e _ p r hd byCancel hphase hrequest hby =>
    obtain ⟨hreq, hnode⟩ := h.loaded p r hphase
    obtain ⟨hsafe, hinterrupted⟩ := result_flow h.safe hreq hnode hrequest
    obtain ⟨hclean, hended⟩ := h.clean (by rw [hphase]; simp)
    have hended' : (s.result p r hd byCancel).ended = none := by
      show (if byCancel = true ∧ s.struck = some p then some p else s.ended) = none
      rw [if_neg, hended]
      rintro ⟨hb, -⟩
      rw [(hok (hby hb)).1] at hb
      cases hb
    have hnowait := s.result_not_waiting p r hd byCancel
    refine ⟨hsafe, fun p' r' hp => absurd hp (hnowait p' r'), h.late,
      fun _ => ⟨hinterrupted.trans hclean, hended'⟩, fun p' hp => ?_, fun hp hdone => ?_,
      fun p' r' hp => absurd hp (hnowait p' r')⟩
    · rw [hended'] at hp
      cases hp
    · rcases (hok hdone).2 with hover | hleft
      · rw [hp] at hover
        cases hover
      · exact Or.inr hleft
  | @done E w e _ p r hd ran hphase hrequest hdone =>
    obtain ⟨hreq, hnode⟩ := h.loaded p r hphase
    refine ⟨abandon_safe h.safe hreq hnode hrequest ran, fun p' r' hp => (by cases hp), h.late,
      fun hp => absurd rfl hp, fun p' hp => ?_, fun hp => (by cases hp),
      fun p' r' hp => (by cases hp)⟩
    rw [CtxRoute.abandon_ended hd ran (h.struck p r hphase hdone)] at hp
    cases hp
    rfl

/-- An orderly call goes wrong with the first step that is not orderly. -/
theorem Watched.break (h : Watched s) (hstep : CtxStep s a s') (hok : ¬ Orderly s a s') :
    Doomed s' := by
  cases hstep with
  | cancel hlive =>
    simp only [Orderly, Classical.not_imp, not_or] at hok
    obtain ⟨hphase, hcancel, hleft⟩ := hok
    exact Doomed.pending h.safe hphase rfl (Bool.eq_false_of_not_eq_true hcancel) hleft
  | returned | again | start | done => exact absurd trivial hok
  | @result E w e _ p r hd byCancel hphase hrequest hby =>
    obtain ⟨hreq, hnode⟩ := h.loaded p r hphase
    obtain ⟨hsafe, hinterrupted⟩ := result_flow h.safe hreq hnode hrequest
    obtain ⟨hclean, -⟩ := h.clean (by rw [hphase]; simp)
    simp only [Orderly, Classical.not_imp] at hok
    obtain ⟨hdone, hok⟩ := hok
    cases byCancel with
    | true =>
      have hended := CtxRoute.result_ended r hd (h.struck p r hphase hdone)
      exact Doomed.lost hsafe (s.result_not_waiting p r hd true) hdone hended
        (hinterrupted.trans hclean)
    | false =>
      obtain ⟨hover, hleft⟩ := not_or.mp fun hor => hok ⟨rfl, hor⟩
      have hcancel : (routeResult hd.flow r).cancel = false :=
        Bool.eq_false_of_not_eq_true fun hc => hover (if_pos hc)
      exact Doomed.pending hsafe (s.result_head p false hcancel) hdone hcancel hleft

/-- A call that goes wrong does not recover. -/
theorem Doomed.keep (h : Doomed s) (hstep : CtxStep s a s') : Doomed s' := by
  cases h with
  | late h =>
    refine Doomed.late ?_
    cases hstep with
    | start => exact Bool.or_eq_true_iff.mpr (Or.inl h)
    | cancel | returned | again | result | done => exact h
  | lost hsafe hphase hdone hended hrecorded =>
    cases hstep with
    | cancel hlive =>
      rw [hdone] at hlive
      cases hlive
    | returned _ htop =>
      have hspec := topSpec_of_routeTop hsafe htop
      refine Doomed.lost (hspec.safe hsafe) (fun p r hp => ?_) hdone hended
        (hspec.interrupted.trans hrecorded)
      cases hp
    | again _ htop =>
      have hspec := topSpec_of_routeTop hsafe htop
      exact Doomed.lost (hspec.safe hsafe) hphase hdone hended
        (hspec.interrupted.trans hrecorded)
    | start => exact Doomed.late (Bool.or_eq_true_iff.mpr (Or.inr hdone))
    | result _ _ _ hwaiting | done _ _ _ hwaiting => exact absurd hwaiting (hphase _ _)
  | pending hsafe hphase hdone hcancel hleft =>
    -- there is a request left, so that the loop goes on until it starts one
    cases hstep with
    | cancel hlive =>
      rw [hdone] at hlive
      cases hlive
    | returned _ htop => exact absurd (nothingLeft_of_returned hsafe hcancel htop) hleft
    | again _ htop =>
      obtain ⟨hlive, hiff⟩ := nothingLeft_again hsafe htop
      exact Doomed.pending ((topSpec_of_routeTop hsafe htop).safe hsafe) hphase hdone hlive
        fun h => hleft (hiff.mpr h)
    | start => exact Doomed.late (Bool.or_eq_true_iff.mpr (Or.inr hdone))
    | result _ _ _ hwaiting | done _ _ _ hwaiting =>
      rw [hphase] at hwaiting
      cases hwaiting

/-- A call that went wrong has not heeded its context when it is over. -/
theorem Doomed.not_heeded (h : Doomed s) (hover : s.phase = .finished) : ¬ Heeded s := by
  rintro ⟨hlate, hrecorded⟩
  cases h with
  | late h =>
    rw [hlate] at h
    cases h
  | lost _ _ _ hended hnone =>
    rw [hrecorded _ hended] at hnone
    cases hnone
  | pending _ hphase =>
    rw [hover] at hphase
    cases hphase

end Steps

/-! ## The end of the context is heeded exactly in orderly calls -/

/-- From every flow a run can have led to, in every call of `Route` and at every moment of
it: if all steps were orderly, no request was started with the context done, and a request
that was in flight when the context ended and that ended because of it is the recorded
one. A call that is over and of which this is true was orderly throughout. -/
theorem heeded_iff_orderly {functions triggers : List (String × Applications)}
    {schema : Applications} {log : List Dispatch} {f : Flow}
    (hrun : Run (Flow.parsed functions triggers schema) log f) {ok : Prop} {s : CtxRoute}
    (h : Trace.Steps CtxStep Orderly (CtxRoute.start f) ok s) :
    (ok → Heeded s) ∧ (s.phase = .finished → Heeded s → ok) := by
  have hf := safe_of_run hrun (safe_parsed functions triggers schema)
  rcases h.dichotomy (watched_start hf) Watched.keep Watched.break Doomed.keep with
    ⟨hok, hwatched⟩ | ⟨hok, hdoomed⟩
  · exact ⟨fun _ => hwatched.heeded, fun _ _ => hok⟩
  · exact ⟨fun h => absurd h hok, fun hover h => absurd h (hdoomed.not_heeded hover)⟩

/-- A request is started, and none has been interrupted. -/
def startsNext : Except Panic (Top × Flow) → Bool
  | .ok (.start _ _, f) => f.interrupted == none
  | _ => false

/-- The first request of the waiting schema, and the one that follows its result. -/
theorem waiting_requests : ∃ p r f, routeTop (CtxRoute.start (Flow.new waitingSchema)).flow =
      .ok (.start p r, f) ∧ request steadyWorld () f r = .ok { flow := f } ∧
      (routeResult f r).cancel = false ∧
      ∃ p' r' f', routeTop (routeResult f r) = .ok (.start p' r', f') ∧ f'.interrupted = none := by
  have heval : startsWait
      (fun f r => !(routeResult f r).cancel && startsNext (routeTop (routeResult f r)))
      (routeTop (CtxRoute.start (Flow.new waitingSchema)).flow) = true := by decide +kernel
  unfold startsWait at heval
  split at heval
  · rename_i p app f htop
    simp only [Bool.and_eq_true, beq_iff_eq, Bool.not_eq_true'] at heval
    obtain ⟨hname, hcancel, hnext⟩ := heval
    refine ⟨p, _, f, htop, ?_, hcancel, ?_⟩
    · unfold request
      rw [hname]
      rfl
    · unfold startsNext at hnext
      split at hnext
      · rename_i p' r' f' htop'
        exact ⟨p', r', f', htop', beq_iff_eq.mp hnext⟩
      · cases hnext
  · cases heval

/-- The context ends while the wait is in flight, and the `select` takes `ctx.Done`. -/
theorem heeded_iff_orderly_waiting :
    ∃ ok s p, Trace.Steps CtxStep Orderly (CtxRoute.start (Flow.new waitingSchema)) ok s ∧
      s.phase = .finished ∧ s.ended = some p ∧ s.flow.interrupted = some p := by
  obtain ⟨p, r, f, htop, hrequest, -⟩ := waiting_requests
  have hcalled : Trace.Steps CtxStep Orderly (CtxRoute.start (Flow.new waitingSchema)) True _ :=
    Trace.Steps.refl
  have hsteps := ((hcalled.tail (.start rfl htop)).tail (.cancel rfl)).tail
    (.done steadyWorld () false rfl hrequest rfl)
  have hended := CtxRoute.abandon_ended (s := ⟨f, .waiting p r, true, some p, false, none⟩)
    { flow := f } false rfl
  refine ⟨_, _, p, hsteps, rfl, hended, ?_⟩
  refine ((heeded_iff_orderly Run.refl hsteps).1 ?_).recorded p hended
  refine ⟨⟨⟨trivial, trivial⟩, fun hphase => ?_⟩, trivial⟩
  cases hphase

/-- The context ends while the wait is in flight, its handler returns because of that, and
the `select` takes the result: the wait is not recorded, and the next request is started. -/
theorem heeded_iff_orderly_result :
    ∃ ok s p, Trace.Steps CtxStep Orderly (CtxRoute.start (Flow.new waitingSchema)) ok s ∧
      s.late = true ∧ s.ended = some p ∧ s.flow.interrupted = none := by
  obtain ⟨p, r, f, htop, hrequest, hcancel, p', r', f', hnext, hnone⟩ := waiting_requests
  have hcalled : Trace.Steps CtxStep Orderly (CtxRoute.start (Flow.new waitingSchema)) True _ :=
    Trace.Steps.refl
  have hstruck := (hcalled.tail (.start rfl htop)).tail (.cancel rfl)
  have hended := CtxRoute.result_ended (s := ⟨f, .waiting p r, true, some p, false, none⟩)
    r { flow := f } rfl
  have hsteps := (hstruck.tail (.result steadyWorld () true rfl hrequest fun _ => rfl)).tail
    (.start (CtxRoute.result_head _ p true hcancel) hnext)
  exact ⟨_, _, p, hsteps, rfl, hended, hnone⟩

end FlowManager
