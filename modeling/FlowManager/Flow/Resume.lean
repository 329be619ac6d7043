import FlowManager.Flow.Lockstep

/-!
# Cutting a run off and taking it up again

`Route` leaves through `ctx.Done` while the request `r` is in flight; `runSchema` then calls
`ClearCancel` and `RepeatInterrupted` and starts `Route` again. Compared with the run that
was not cut off, the new call should start `r` again if it is one of the names, and go on
behind it otherwise, with the same budgets.

- `NothingLeft`, `nothingLeft_iff`: no further request would be started.
- `Stays`, `stays_of_request`: what a handler does that does not move the cursor.
- `next_resumed`, `resumed_of_not_mem`: the flow that is taken up.
- `resume_transparent`: when exactly the interruption does not show.
-/

namespace FlowManager

open Flow Function

/-! ## Nothing left -/

/-- No further request is started from here: there is none, or the limiter of the next one
is used up and the jump it asks for leads nowhere. -/
inductive NothingLeft : Flow → Prop where
  | finished {f g : Flow} (hnext : f.nextRequest = .ok (none, g)) : NothingLeft f
  | refused {f g g' : Flow} {p : ReqPtr} {r : ApplicationRequest} {l : Nat}
      (hnext : f.nextRequest = .ok (some p, g)) (hreq : g.prog.request p = some r)
      (hex : exhausted g r = some l)
      (hgoto : g.goto (g.prog.limiters l).failover = .ok (false, g')) : NothingLeft f
  | jump {f g g' : Flow} {p : ReqPtr} {r : ApplicationRequest} {l : Nat}
      (hnext : f.nextRequest = .ok (some p, g)) (hreq : g.prog.request p = some r)
      (hex : exhausted g r = some l)
      (hgoto : g.goto (g.prog.limiters l).failover = .ok (true, g')) (h : NothingLeft g') :
      NothingLeft f

section NothingLeft

variable {E : Type} {w : World E} {f g : Flow}

theorem nextSpec_of_nextRequest (hf : f.Safe) (h : f.nextRequest = .ok (r, g)) :
    NextSpec f r g := by
  obtain ⟨r', g', heq, hspec⟩ := nextRequest_spec hf
  rw [h] at heq
  cases heq
  exact hspec

theorem gotoSpec_of_goto (hf : f.Safe) (h : f.goto tag = .ok r) : GotoSpec f tag r := by
  obtain ⟨r', heq, hspec⟩ := goto_spec hf tag
  rw [h] at heq
  cases heq
  exact hspec

theorem routeN_returned (h : s.returned = true) : ∀ n, routeN w n s = .ok s := by
  intro n
  induction n with
  | zero => rfl
  | succ n ih =>
    show Loop.iterate (routeStep w) (n + 1) s = .ok s
    rw [Loop.iterate_succ (routeStep_returned w h)]
    exact ih

theorem Flow.GotoSpec.cancel (h : GotoSpec f tag (ok, g)) : g.cancel = f.cancel := by
  have hframe := h.frame
  dsimp only at hframe
  rw [hframe]

/-- Iterations of `Route` with nothing left: the last one returns, those before it jump. -/
theorem NothingLeft.iterations {P : Flow → Prop}
    (hreturned : ∀ {f g : Flow}, routeTop f = .ok (.returned, g) → g.cancel = false → P f)
    (hagain : ∀ {f g : Flow}, routeTop f = .ok (.again, g) → NothingLeft g → P g → P f)
    (h : NothingLeft f) : f.Safe → f.cancel = false → P f := by
  induction h with
  | @finished f g hnext =>
    intro hf hcancel
    have hspec := nextSpec_of_nextRequest hf hnext
    exact hreturned (routeTop_of_spec hf (.finished hspec)) (hspec.same.cancel.trans hcancel)
  | @refused f g g' p r l hnext hreq hex hgoto =>
    intro hf hcancel
    have hspec := nextSpec_of_nextRequest hf hnext
    have hgspec := gotoSpec_of_goto (hspec.safe hf) hgoto
    have hlive := hspec.same.cancel.trans hcancel
    exact hreturned (routeTop_of_spec hf (TopSpec.failover hspec hlive hreq hex hgoto hgspec))
      (hgspec.cancel.trans hlive)
  | @jump f g g' p r l hnext hreq hex hgoto hleft ih =>
    intro hf hcancel
    have hspec := nextSpec_of_nextRequest hf hnext
    have hgspec := gotoSpec_of_goto (hspec.safe hf) hgoto
    have hlive := hspec.same.cancel.trans hcancel
    exact hagain (routeTop_of_spec hf (TopSpec.failover hspec hlive hreq hex hgoto hgspec)) hleft
      (ih (hgspec.safe (hspec.safe hf)) (hgspec.cancel.trans hlive))

/-- The next one of these iterations -/
theorem NothingLeft.top (h : NothingLeft f) (hf : f.Safe) (hcancel : f.cancel = false) :
    (∃ g, routeTop f = .ok (.returned, g)) ∨
      ∃ g, routeTop f = .ok (.again, g) ∧ NothingLeft g :=
  h.iterations (P := fun f => (∃ g, routeTop f = .ok (.returned, g)) ∨
    ∃ g, routeTop f = .ok (.again, g) ∧ NothingLeft g)
    (fun htop _ => .inl ⟨_, htop⟩) (fun htop hleft _ => .inr ⟨_, htop, hleft⟩) hf hcancel

theorem topSpec_of_routeTop (hf : f.Safe) (htop : routeTop f = .ok t) : TopSpec f t := by
  obtain ⟨t', heq, hspec⟩ := routeTop_spec hf
  rw [htop] at heq
  cases heq
  exact hspec

/-- The iteration of a flow that is not cancelled returns only when nothing is left. -/
theorem nothingLeft_of_returned (hf : f.Safe) (hcancel : f.cancel = false)
    (htop : routeTop f = .ok (.returned, g)) : NothingLeft f := by
  have hspec := topSpec_of_routeTop hf htop
  generalize ht : ((Top.returned, g) : Top × Flow) = t at hspec
  cases hspec with
  | finished hnext => exact NothingLeft.finished (nextRequest_of_spec hf hnext)
  | cancelled hnext hc =>
    rw [hnext.same.cancel, hcancel] at hc
    cases hc
  | @failover p f₁ r l x hnext _ hreq hex hgoto =>
    obtain ⟨ok, g'⟩ := x
    cases ok with
    | false => exact NothingLeft.refused (nextRequest_of_spec hf hnext) hreq hex hgoto
    | true => cases ht
  | start => cases ht

/-- A jump for a used-up limiter does not change whether something is left. -/
theorem nothingLeft_again (hf : f.Safe) (htop : routeTop f = .ok (.again, g)) :
    g.cancel = false ∧ (NothingLeft f ↔ NothingLeft g) := by
  have hspec := topSpec_of_routeTop hf htop
  generalize ht : ((Top.again, g) : Top × Flow) = t at hspec
  cases hspec with
  | finished | cancelled | start => cases ht
  | @failover p f₁ r l x hnext hcancel hreq hex hgoto hspec =>
    obtain ⟨ok, g'⟩ := x
    cases ok with
    | false => cases ht
    | true =>
      cases ht
      refine ⟨hspec.cancel.trans hcancel, fun h => ?_,
        NothingLeft.jump (nextRequest_of_spec hf hnext) hreq hex hgoto⟩
      obtain ⟨g₁, htop₁⟩ | ⟨g₁, htop₁, hleft⟩ := h.top hf (hnext.same.cancel.symm.trans hcancel)
      · rw [htop] at htop₁
        cases htop₁
      · rw [htop] at htop₁
        cases htop₁
        exact hleft

/-- An iteration that starts a request: the flow is live, and something was left. -/
theorem not_nothingLeft_of_start (hf : f.Safe) (htop : routeTop f = .ok (.start p r, g)) :
    f.cancel = false ∧ ¬ NothingLeft f := by
  obtain ⟨f₀, hnext, hcancel, -⟩ := (topSpec_of_routeTop hf htop).start_inv
  have hlive := hnext.same.cancel.symm.trans hcancel
  refine ⟨hlive, fun h => ?_⟩
  obtain ⟨g₁, htop₁⟩ | ⟨g₁, htop₁, -⟩ := h.top hf hlive
  · rw [htop] at htop₁
    cases htop₁
  · rw [htop] at htop₁
    cases htop₁

/-- Iterations of `Route` up to the next request that is started, if something is left. The
induction is on the jumps that are still allowed. -/
theorem nothingLeft_or_iterations {P : Flow → Prop}
    (hagain : ∀ {f g : Flow}, routeTop f = .ok (.again, g) → P g → P f)
    (hstart : ∀ {f g : Flow} {p : ReqPtr} {r : ApplicationRequest},
      routeTop f = .ok (.start p r, g) → g.Safe → P f) :
    ∀ (k : Nat) {f : Flow}, f.Safe → f.cancel = false → maxGoto + 1 - f.gotoCounter = k →
      NothingLeft f ∨ P f := by
  intro k
  induction k using Nat.strong_induction_on with
  | _ k ih =>
    intro f hf hcancel hk
    obtain ⟨⟨top, g⟩, htop, hspec⟩ := routeTop_spec hf
    cases top with
    | returned => exact .inl (nothingLeft_of_returned hf hcancel htop)
    | again =>
      obtain ⟨hlive, hleft⟩ := nothingLeft_again hf htop
      obtain ⟨p, f₁, tag, hnext, -, hgoto⟩ := hspec.again_inv
      obtain ⟨hcount, hle⟩ := hgoto.gotoCounter
      rw [hnext.same.gotoCounter] at hcount hle
      have hg := ih (maxGoto + 1 - g.gotoCounter) (by omega) (hspec.safe hf) hlive rfl
      exact hg.imp hleft.mpr (hagain htop)
    | start p r => exact .inr (hstart htop (hspec.safe hf))

theorem routeStep_of_top (hret : s.returned = false) (htop : routeTop s.flow = .ok (.returned, g)) :
    routeStep w s = .ok { s with flow := g, returned := true } := by
  unfold routeStep
  rw [hret, htop]
  rfl

theorem routeStep_of_again (hret : s.returned = false) (htop : routeTop s.flow = .ok (.again, g)) :
    routeStep w s = .ok { s with flow := g } := by
  unfold routeStep
  rw [hret, htop]
  rfl

/-- With nothing left, `Route` starts nothing. -/
theorem NothingLeft.trace_eq (h : NothingLeft f) (hf : f.Safe) (hcancel : f.cancel = false) :
    ∀ {s t : RouteState E}, s.flow = f → s.returned = false → ∀ {n}, routeN w n s = .ok t →
      t.trace = s.trace := by
  refine h.iterations (P := fun f => ∀ {s t : RouteState E}, s.flow = f → s.returned = false →
    ∀ {n}, routeN w n s = .ok t → t.trace = s.trace) ?_ ?_ hf hcancel
  · rintro f g htop - s t rfl hret (_ | n) hrun
    · cases hrun
      rfl
    · obtain ⟨s₁, hstep, hrest⟩ := Loop.iterate_succ_inv hrun
      rw [routeStep_of_top hret htop] at hstep
      cases hstep
      have hstay := (routeN_returned (w := w) rfl n).symm.trans hrest
      cases hstay
      rfl
  · rintro f g htop - ih s t rfl hret (_ | n) hrun
    · cases hrun
      rfl
    · obtain ⟨s₁, hstep, hrest⟩ := Loop.iterate_succ_inv hrun
      rw [routeStep_of_again hret htop] at hstep
      cases hstep
      exact ih (s := { s with flow := g }) rfl hret hrest

/-- If something is left, `Route` starts a request. -/
theorem nothingLeft_of_trace_eq (hf : s.flow.Safe) (hcancel : s.flow.cancel = false)
    (hret : s.returned = false) (htrace : ∀ n t, routeN w n s = .ok t → t.trace = s.trace) :
    NothingLeft s.flow := by
  have hstarts := nothingLeft_or_iterations (P := fun f => ∀ {s : RouteState E}, s.flow = f →
    s.returned = false → ∃ n t, routeN w n s = .ok t ∧ t.trace ≠ s.trace) ?_ ?_ _ hf hcancel rfl
  · refine hstarts.resolve_right fun hsome => ?_
    obtain ⟨n, t, hrun, hne⟩ := hsome rfl hret
    exact hne (htrace n t hrun)
  · rintro f g htop ih s rfl hret
    obtain ⟨n, t, hrun, hne⟩ := ih (s := { s with flow := g }) rfl hret
    exact ⟨n + 1, t, (Loop.iterate_succ (routeStep_of_again hret htop)).trans hrun, hne⟩
  · rintro f g p r htop hsafe s rfl hret
    obtain ⟨h, hrequest, -⟩ := request_spec hsafe w s.env r
    have hstep : routeStep w s = .ok (afterSelect w s p r
        (selected g h (w.select s.env r.app)) (w.select s.env r.app)) := by
      unfold routeStep
      rw [hret, htop]
      simp only [bind, Except.bind, Bool.false_eq_true, if_false, routeSelect, hrequest, pure,
        Except.pure]
    refine ⟨1, _, Loop.iterate_succ hstep, fun heq => ?_⟩
    have hlen := congrArg List.length heq
    cases hb : w.select s.env r.app with
    | result | done ran => simp [hb, afterSelect] at hlen

/-- There is nothing left exactly if `Route` starts nothing, in whatever world. -/
theorem nothingLeft_iff (hf : s.flow.Safe) (hcancel : s.flow.cancel = false)
    (hret : s.returned = false) :
    NothingLeft s.flow ↔ ∀ n t, routeN w n s = .ok t → t.trace = s.trace :=
  ⟨fun h _ _ hrun => h.trace_eq hf hcancel rfl hret hrun, nothingLeft_of_trace_eq hf hcancel hret⟩

end NothingLeft

/-! ## A request in flight -/

section Stays

variable {E : Type} {w : World E} {e : E} {f : Flow} {p : ReqPtr} {r : ApplicationRequest}
  {h : Handled}

/-- The flow with which the request `r` at `p` has been started. -/
structure InFlight (f : Flow) (p : ReqPtr) (r : ApplicationRequest) : Prop where
  safe : f.Safe
  named : f.prog.Named
  current : f.currentNode = some p.node
  position : f.position p.node = p.index + 1
  prev : f.prevRequest = p.prev
  request : f.prog.request p = some r
  cancel : f.cancel = false
  interrupted : f.interrupted = none

/-- The request is a `while` with more than `k` units of its budget left, or a `goto` to a
known tag with more than `k` jumps left. -/
def Spends (w : World E) (e : E) (f : Flow) (r : ApplicationRequest) (k : Nat) : Prop :=
  (∃ v, r.args = .loop v ∧ (f.counter v : Int) + k < (f.prog.whiles v).maxSteps) ∨
    (r.app.name = "goto" ∧ ∃ tag t, w.decodeTag e r.app.args = some tag ∧
      f.prog.lookupTag tag = some t ∧ f.gotoCounter + k ≤ maxGoto)

/-- The handler cancels the flow: a `break`, or another application that calls
`SetCancel`. -/
def Cancels (w : World E) (e : E) (r : ApplicationRequest) : Prop :=
  r.args = .brk ∨ (r.args = .raw ∧ r.app.name ≠ "goto" ∧ w.setsCancel e r.app = true)

/-- What a handler does that does not move the cursor. -/
inductive Stays (w : World E) (e : E) (f : Flow) (r : ApplicationRequest) : Handled → Prop where
  | quiet (b : Bool) (hb : b = true ↔ Cancels w e r) (hfree : ¬ Spends w e f r 0) :
      Stays w e f r { flow := if b = true then f.setCancel else f }
  | idle {v : Nat} (hargs : r.args = .loop v)
      (hbudget : (f.prog.whiles v).maxSteps ≤ f.counter v) :
      Stays w e f r { flow := resetCycle f v }
  | spent {v : Nat} {h : Handled} (hargs : r.args = .loop v)
      (hbudget : (f.counter v : Int) < (f.prog.whiles v).maxSteps)
      (hflow : h.flow = addCounter (endCycle (resetCycle f v) v) v) : Stays w e f r h
  | jumped {tag : String} {t : Tag} {h : Handled} (hname : r.app.name = "goto")
      (htag : w.decodeTag e r.app.args = some tag) (hlookup : f.prog.lookupTag tag = some t)
      (hcount : f.gotoCounter ≤ maxGoto)
      (hflow : h.flow = { f with gotoCounter := f.gotoCounter + 1 }) : Stays w e f r h

section

variable (hf : InFlight f p r)
include hf

theorem InFlight.fits : r.args.Fits r.app.name :=
  hf.named p.node r (List.mem_of_getElem? hf.request)

theorem InFlight.node_lt : p.node < f.prog.nodeCount :=
  hf.safe.current_lt hf.current

theorem InFlight.not_goto (hargs : r.args = .loop v) : r.app.name ≠ "goto" := by
  have hfits := hf.fits
  rw [hargs] at hfits
  rw [show r.app.name = "while" from hfits]
  decide

/-- Entering a block of the request moves the cursor. -/
theorem InFlight.enter_ne (hblock : f.prog.IsBlock b p) :
    (f.enter b).currentNode ≠ f.currentNode := by
  intro heq
  rw [hf.current] at heq
  have hnode := hblock.node_lt
  exact absurd (Option.some.inj heq) (Nat.ne_of_gt hnode)

end

theorem stays_nothing (hcancels : ¬ Cancels w e r) (hfree : ¬ Spends w e f r 0) :
    Stays w e f r { flow := f } :=
  Stays.quiet false (by simpa using hcancels) hfree

/-- Only loops and jumps spend anything. -/
theorem not_spends (hloop : ∀ v, r.args ≠ .loop v) (hname : r.app.name ≠ "goto") :
    ¬ Spends w e f r k := by
  rintro (⟨v, hargs, -⟩ | ⟨hgoto, -⟩)
  · exact hloop v hargs
  · exact hname hgoto

/-- Only `break` and the applications of other modules cancel the flow. -/
theorem not_cancels (hbrk : r.args ≠ .brk) (hraw : r.args ≠ .raw) : ¬ Cancels w e r := by
  rintro (hargs | ⟨hargs, -⟩)
  · exact hbrk hargs
  · exact hraw hargs

section

variable (hf : InFlight f p r)
include hf

theorem stays_loop (hargs : r.args = .loop v)
    (hcur : (whileHandler w e f (.loop v)).flow.currentNode = f.currentNode)
    (hpos : (whileHandler w e f (.loop v)).flow.position = f.position) :
    Stays w e f r (whileHandler w e f (.loop v)) := by
  rcases whileHandler_cases w e f v with ⟨hle, heq⟩ | ⟨hlt, heq⟩
  · rw [heq]
    exact Stays.idle hargs hle
  · rw [heq] at hcur hpos ⊢
    refine Stays.spent hargs hlt ?_
    by_cases hgo : ((resetCycle f v).step v = 0 ∨
        w.check e ((resetCycle f v).prog.whiles v).condition = true) ∧
        (resetCycle f v).prog.getLength ((resetCycle f v).prog.whiles v).do_ ≠ 1
    · -- entering the block would move the cursor
      exfalso
      rw [runCycle_enter w e _ hgo.1 hgo.2] at hcur hpos
      rw [resetCycle_prog] at hcur hpos
      have hnode : (f.prog.whiles v).do_ = p.node := Option.some.inj (hcur.trans hf.current)
      have hzero : update (resetCycle f v).position (f.prog.whiles v).do_ 0 p.node
          = f.position p.node := congrFun hpos p.node
      rw [hnode, update_self, hf.position] at hzero
      omega
    · refine runCycle_end w e _ ?_
      rw [not_and_or, not_or, not_not] at hgo
      rcases hgo with ⟨hstep, hcheck⟩ | hlen
      · exact Or.inl ⟨hstep, by simpa using hcheck⟩
      · exact Or.inr hlen

theorem stays_goto (hargs : r.args = .raw) (hname : r.app.name = "goto")
    (hgoto : gotoTag w e f r.app.args = .ok h) (hcur : h.flow.currentNode = f.currentNode)
    (hpos : h.flow.position = f.position) : Stays w e f r h := by
  have hcancels : ¬ Cancels w e r := by
    rintro (hbrk | ⟨-, hne, -⟩)
    · rw [hargs] at hbrk
      cases hbrk
    · exact hne hname
  have hloop : ∀ v, r.args ≠ .loop v := fun v hv => by rw [hargs] at hv; cases hv
  unfold gotoTag at hgoto
  cases htag : w.decodeTag e r.app.args with
  | none =>
    rw [htag] at hgoto
    cases hgoto
    refine stays_nothing hcancels ?_
    rintro (⟨v, hv, -⟩ | ⟨-, tag, t, htag', -⟩)
    · exact hloop v hv
    · rw [htag] at htag'
      cases htag'
  | some tag =>
    obtain ⟨⟨ok, g⟩, heq, hspec⟩ := goto_spec hf.safe tag
    rw [htag] at hgoto
    dsimp only at hgoto
    rw [heq] at hgoto
    cases hgoto
    cases hspec with
    | refused hno =>
      refine stays_nothing hcancels ?_
      rintro (⟨v, hv, -⟩ | ⟨-, tag', t, htag', hlookup, hcount⟩)
      · exact hloop v hv
      · cases Option.some.inj (htag.symm.trans htag')
        rcases hno with hno | hno
        · omega
        · rw [hno] at hlookup
          cases hlookup
    | @jumped t n f₁ hcount hlookup hn hrepairs =>
      refine Stays.jumped hname htag hlookup hcount ?_
      change f₁.currentNode = f.currentNode at hcur
      change f₁.position = f.position at hpos
      have hframe := hrepairs.eq_position
      have hcur₁ : f.currentNode = some t.parent := by
        rw [← hcur, hframe]
        rfl
      have hsame : f₁ = f := by
        rw [hframe, hpos]
        show ({ f with currentNode := some t.parent } : Flow) = f
        rw [← hcur₁]
      rw [hsame]

theorem stays_condition (hargs : r.args = .condition expression then_ else_)
    (hname : r.app.name = "if")
    (hcur : (conditionHandler w e f (.condition expression then_ else_)).flow.currentNode =
      f.currentNode) :
    Stays w e f r (conditionHandler w e f (.condition expression then_ else_)) := by
  have hok := hf.safe.wf.args p r hf.node_lt hf.request
  rw [hargs] at hok
  have hnothing : Stays w e f r { flow := f } := by
    refine stays_nothing (not_cancels ?_ ?_) (not_spends ?_ ?_) <;> simp [hargs, hname]
  -- either branch is a block of its own, so entering it would move the cursor
  dsimp only [conditionHandler] at hcur ⊢
  rcases hcond : w.condition e expression with _ | _ | _
  · exact hnothing
  · rw [hcond] at hcur
    exact absurd hcur (hf.enter_ne hok.2)
  · rw [hcond] at hcur
    exact absurd hcur (hf.enter_ne hok.1)

theorem stays_switch (hargs : r.args = .switch text cases) (hname : r.app.name = "switch")
    (hcur : (switchHandler w e f (.switch text cases)).flow.currentNode = f.currentNode) :
    Stays w e f r (switchHandler w e f (.switch text cases)) := by
  have hok := hf.safe.wf.args p r hf.node_lt hf.request
  rw [hargs] at hok
  have hmoved : ∀ {name : String} {n : Nat}, lookupCase cases name = some n →
      (f.enter n).currentNode ≠ f.currentNode := by
    intro name n hlookup
    obtain ⟨name', hmem⟩ := lookupCase_mem hlookup
    exact hf.enter_ne (hok _ hmem)
  dsimp only [switchHandler] at hcur ⊢
  cases hcase : lookupCase cases (w.parseText e text) with
  | some n =>
    rw [hcase] at hcur
    exact absurd hcur (hmoved hcase)
  | none =>
    rw [hcase] at hcur
    cases hdefault : lookupCase cases "default" with
    | some n =>
      rw [hdefault] at hcur
      exact absurd hcur (hmoved hdefault)
    | none =>
      refine stays_nothing (not_cancels ?_ ?_) (not_spends ?_ ?_) <;> simp [hargs, hname]

/-- A handler that does not move the cursor does one of these things. -/
theorem stays_of_request (hrequest : request w e f r = .ok h)
    (hcur : h.flow.currentNode = f.currentNode) (hpos : h.flow.position = f.position) :
    Stays w e f r h := by
  have hfits := hf.fits
  unfold FlowManager.request at hrequest
  cases hargs : r.args with
  | condition expression then_ else_ =>
    rw [hargs] at hfits
    have hname : r.app.name = "if" := hfits
    rw [hname, hargs] at hrequest
    cases hrequest
    exact stays_condition hf hargs hname hcur
  | switch text cases =>
    rw [hargs] at hfits
    have hname : r.app.name = "switch" := hfits
    rw [hname, hargs] at hrequest
    cases hrequest
    exact stays_switch hf hargs hname hcur
  | loop v =>
    rw [hargs] at hfits
    rw [show r.app.name = "while" from hfits, hargs] at hrequest
    cases hrequest
    exact stays_loop hf hargs hcur hpos
  | brk =>
    rw [hargs] at hfits
    have hname : r.app.name = "break" := hfits
    rw [hname, hargs] at hrequest
    cases hrequest
    exact Stays.quiet true (by simp [Cancels, hargs])
      (not_spends (by simp [hargs]) (by simp [hname]))
  | raw =>
    rw [hargs] at hfits
    obtain ⟨hif, hwhile, hswitch, hbreak⟩ := hfits
    -- `request` goes by the name, and the first four are not the name of a raw request
    split at hrequest
    · exact absurd ‹_› hif
    · exact absurd ‹_› hwhile
    · exact absurd ‹_› hswitch
    · exact absurd ‹_› hbreak
    · exact stays_goto hf hargs ‹_› hrequest hcur hpos
    · rename_i hgoto
      cases hrequest
      refine Stays.quiet _ ⟨fun hb => Or.inr ⟨hargs, hgoto, hb⟩, ?_⟩
        (not_spends (by simp [hargs]) hgoto)
      rintro (hbrk | ⟨-, -, hb⟩)
      · rw [hargs] at hbrk
        cases hbrk
      · exact hb

end

/-- A flow that is not cancelled. -/
theorem clearCancel_eq (h : f.cancel = false) : f.clearCancel = f := by
  show ({ f with cancel := false } : Flow) = f
  rw [← h]

theorem resetCycle_frame (f : Flow) (v : Nat) :
    resetCycle f v = { f with step := (resetCycle f v).step } := by
  rcases resetCycle_cases f v with heq | heq
  · rw [heq]
  · rw [heq]
    rfl

/-- Ending a cycle that is at its first step changes nothing. -/
theorem resetCycle_eq_self (h : f.step v = 0) : resetCycle f v = f := by
  rcases resetCycle_cases f v with heq | heq
  · exact heq
  · rw [heq]
    show ({ f with step := update f.step v 0 } : Flow) = f
    rw [← h, update_eq_self]

theorem resetCycle_idem (f : Flow) (v : Nat) : resetCycle (resetCycle f v) v = resetCycle f v := by
  rcases resetCycle_cases f v with heq | heq
  · rw [heq, heq]
  · rw [heq]
    exact resetCycle_eq_self (update_self _ _ _)

/-- Whether the handler has cancelled the flow. -/
theorem Stays.cancel_iff (hs : Stays w e f r h) (hf : f.cancel = false)
    (hfits : r.args.Fits r.app.name) : h.flow.cancel = true ↔ Cancels w e r := by
  have hloop : ∀ {v : Nat}, r.args = .loop v → ¬ Cancels w e r := fun hargs =>
    not_cancels (by simp [hargs]) (by simp [hargs])
  have hno : ¬ f.cancel = true := by rw [hf]; decide
  cases hs with
  | quiet b hb =>
    rw [← hb]
    cases b with
    | true => exact iff_of_true rfl rfl
    | false => exact iff_of_false hno (by decide)
  | @idle v hargs =>
    refine iff_of_false ?_ (hloop hargs)
    rw [resetCycle_frame]
    exact hno
  | @spent v _ hargs _ hflow =>
    refine iff_of_false ?_ (hloop hargs)
    rw [hflow, resetCycle_frame]
    exact hno
  | jumped hname _ _ _ hflow =>
    refine iff_of_false (by rw [hflow]; exact hno) ?_
    rintro (hbrk | ⟨-, hne, -⟩)
    · rw [hbrk] at hfits
      rw [show r.app.name = "break" from hfits] at hname
      exact absurd hname (by decide)
    · exact hne hname

/-- The handler runs once more, on the flow it has left behind: it spends what is left to
spend, or changes nothing. -/
def RunsAgain (w : World E) (e : E) (f : Flow) (r : ApplicationRequest) (h : Handled) : Prop :=
  ∃ h', request w e h.flow.clearCancel r = .ok h' ∧ (¬ Spends w e f r 1 → h'.flow = h.flow) ∧
    (Spends w e f r 1 → h'.flow.counter ≠ h.flow.counter ∨
      h'.flow.gotoCounter ≠ h.flow.gotoCounter)

theorem InFlight.request_loop (hf : InFlight f p r) (hargs : r.args = .loop v) (w : World E) (e : E)
    (g : Flow) : FlowManager.request w e g r = .ok (whileHandler w e g (.loop v)) := by
  have hfits := hf.fits
  rw [hargs] at hfits
  unfold FlowManager.request
  rw [show r.app.name = "while" from hfits, hargs]
  rfl

theorem InFlight.spends_loop (hf : InFlight f p r) (hargs : r.args = .loop v) :
    Spends w e f r k ↔ (f.counter v : Int) + k < (f.prog.whiles v).maxSteps := by
  constructor
  · rintro (⟨v', hargs', hlt⟩ | ⟨hname, -⟩)
    · cases hargs.symm.trans hargs'
      exact hlt
    · exact absurd hname (hf.not_goto hargs)
  · intro hlt
    exact Or.inl ⟨v, hargs, hlt⟩

theorem Spends.mono (h : Spends w e f r l) (hkl : k ≤ l) : Spends w e f r k := by
  rcases h with ⟨v, hargs, hlt⟩ | ⟨hname, tag, t, htag, hlookup, hcount⟩
  · exact Or.inl ⟨v, hargs, by omega⟩
  · exact Or.inr ⟨hname, tag, t, htag, hlookup, by omega⟩

section

variable (hf : InFlight f p r)
include hf

theorem runsAgain_quiet (hfree : ¬ Spends w e f r 0)
    (hrequest : request w e f r = .ok { flow := if b = true then f.setCancel else f }) :
    RunsAgain w e f r { flow := if b = true then f.setCancel else f } := by
  have hsame : (if b = true then f.setCancel else f).clearCancel = f := by
    cases b with
    | true | false => exact clearCancel_eq hf.cancel
  refine ⟨_, by rw [hsame]; exact hrequest, fun _ => rfl, ?_⟩
  intro hspends
  exact absurd (hspends.mono (Nat.zero_le 1)) hfree

theorem runsAgain_idle (hargs : r.args = .loop v)
    (hbudget : (f.prog.whiles v).maxSteps ≤ f.counter v) :
    RunsAgain w e f r { flow := resetCycle f v } := by
  have hsame : (resetCycle f v).clearCancel = resetCycle f v :=
    clearCancel_eq (by rw [resetCycle_frame]; exact hf.cancel)
  refine ⟨_, hf.request_loop hargs _ _ _, fun _ => ?_, ?_⟩
  · rw [hsame]
    rcases whileHandler_cases w e (resetCycle f v) v with ⟨-, heq⟩ | ⟨hlt, -⟩
    · rw [heq, resetCycle_idem]
    · rw [resetCycle_prog, (resetCycle_eq f v).1] at hlt
      omega
  · intro hspends
    have hlt := (hf.spends_loop hargs).mp hspends
    omega

theorem runsAgain_spent (hargs : r.args = .loop v)
    (hflow : h.flow = addCounter (endCycle (resetCycle f v) v) v) : RunsAgain w e f r h := by
  have hsame : h.flow.clearCancel = h.flow := clearCancel_eq (by
    rw [hflow, resetCycle_frame]
    exact hf.cancel)
  have hstep : h.flow.step v = 0 := by
    rw [hflow]
    exact update_self _ _ _
  have hcounter : h.flow.counter v = f.counter v + 1 := by
    rw [hflow, ← (resetCycle_eq f v).1]
    exact update_self _ _ _
  have hprog : h.flow.prog = f.prog := by
    rw [hflow]
    exact resetCycle_prog f v
  refine ⟨_, hf.request_loop hargs _ _ _, fun hno => ?_, fun hspends => Or.inl ?_⟩
  · rw [hsame]
    rcases whileHandler_cases w e h.flow v with ⟨-, heq⟩ | ⟨hlt, -⟩
    · rw [heq]
      exact resetCycle_eq_self hstep
    · -- a second unit could be spent
      rw [hprog, hcounter] at hlt
      exact absurd ((hf.spends_loop hargs).mpr (by push_cast at hlt ⊢; omega)) hno
  · have hlt := (hf.spends_loop hargs).mp hspends
    rw [hsame]
    rcases whileHandler_cases w e h.flow v with ⟨hle, -⟩ | ⟨-, heq⟩
    · rw [hprog, hcounter] at hle
      push_cast at hle hlt
      omega
    · intro hcontra
      have hv := congrFun hcontra v
      rw [heq, (runCycle_eq w e _ v).1, update_self, (resetCycle_eq h.flow v).1] at hv
      omega

theorem runsAgain_jumped (hname : r.app.name = "goto")
    (htag : w.decodeTag e r.app.args = some tag) (hlookup : f.prog.lookupTag tag = some t)
    (hflow : h.flow = { f with gotoCounter := f.gotoCounter + 1 }) : RunsAgain w e f r h := by
  have hsame : h.flow.clearCancel = h.flow := clearCancel_eq (by rw [hflow]; exact hf.cancel)
  have hgoto : ∀ g : Flow, request w e g r = (g.goto tag).map fun x => { flow := x.2 } := by
    intro g
    unfold FlowManager.request gotoTag
    rw [hname, htag]
    rfl
  have hsafe : h.flow.Safe := by
    rw [hflow]
    exact hf.safe.congr rfl rfl rfl
  have hcounter : h.flow.gotoCounter = f.gotoCounter + 1 := by rw [hflow]
  have hlookup' : h.flow.prog.lookupTag tag = some t := by
    rw [hflow]
    exact hlookup
  obtain ⟨⟨ok, g⟩, heq, hspec⟩ := goto_spec hsafe tag
  refine ⟨{ flow := g }, by rw [hsame, hgoto, heq]; rfl, fun hno => ?_, fun hspends => Or.inr ?_⟩
  · cases hspec with
    | refused => rfl
    | jumped hcount =>
      exact absurd (Or.inr ⟨hname, tag, t, htag, hlookup, by omega⟩) hno
  · rcases hspends with ⟨v, hargs, -⟩ | ⟨-, _, _, -, -, hle⟩
    · exact absurd hname (hf.not_goto hargs)
    · cases hspec with
      | refused hno =>
        rcases hno with hno | hno
        · omega
        · rw [hlookup'] at hno
          cases hno
      | @jumped t₁ n f₁ hc ht hcur hrepairs =>
        have hup := (GotoSpec.jumped hc ht hcur hrepairs).gotoCounter.1
        rw [hup]
        omega

end

/-- Running the handler once more, on the flow it has left behind. -/
theorem Stays.again (hs : Stays w e f r h) (hf : InFlight f p r)
    (hrequest : request w e f r = .ok h) : RunsAgain w e f r h := by
  cases hs with
  | quiet b _ hfree => exact runsAgain_quiet hf hfree hrequest
  | idle hargs hbudget => exact runsAgain_idle hf hargs hbudget
  | spent hargs _ hflow => exact runsAgain_spent hf hargs hflow
  | jumped hname htag hlookup _ hflow => exact runsAgain_jumped hf hname htag hlookup hflow

end Stays

/-! ## Taking up a run that was cut off -/

/-- What `Route` leaves behind when it takes the `ctx.Done` branch while the request at `p`
is in flight: it has been started with `f`, and its handler does `h`, if it has `ran`. -/
def cutOff (f : Flow) (h : Handled) (p : ReqPtr) (ran : Bool) : Flow :=
  routeDone (selected f h (.done ran)).flow p

/-- What `runSchema` does before it calls `Route` again. -/
def resumed (f : Flow) (names : List String) : Flow :=
  (f.clearCancel.repeatInterrupted names).2

section Resume

variable {E : Type} {w : World E} {e : E} {f g : Flow} {p : ReqPtr} {r : ApplicationRequest}
  {h : Handled} {ran : Bool}

theorem setInterrupted_eq (h : g.interrupted = none) : g.setInterrupted none = g := by
  show ({ g with interrupted := none } : Flow) = g
  rw [← h]

/-- An interrupted request is rewound if it is listed. -/
theorem repeat_interrupted (hg : InFlight g p r) (names : List String) :
    ((g.setInterrupted (some p)).repeatInterrupted names).2 =
      if r.app.name ∈ names then g.setPosition p.node p.index else g := by
  have hlen : p.index < g.prog.getLength p.node := Program.request_lt hg.request
  have hrewind : (g.setInterrupted (some p)).rewindTo names
      = if r.app.name ∈ names then some (p.node, (p.index : Int)) else none := by
    unfold Flow.rewindTo
    rw [show (g.setInterrupted (some p)).currentNode = some p.node from hg.current,
      show (g.setInterrupted (some p)).interrupted = some p from rfl]
    dsimp only
    rw [show (g.setInterrupted (some p)).prog.request p = some r from hg.request,
      show (g.setInterrupted (some p)).position p.node = p.index + 1 from hg.position,
      show ((p.index : Int) + 1 - 1) = p.index by omega]
    refine if_congr (and_iff_left ⟨?_, rfl⟩) rfl rfl
    show ¬ (_ ∨ (p.index : Int) ≥ (g.prog.getLength p.node : Nat))
    omega
  unfold Flow.repeatInterrupted
  rw [hrewind]
  by_cases hmem : r.app.name ∈ names
  · rw [if_pos hmem, if_pos hmem]
    show (g.setInterrupted none).setPosition p.node p.index = _
    rw [setInterrupted_eq hg.interrupted]
  · rw [if_neg hmem, if_neg hmem]
    exact setInterrupted_eq hg.interrupted

/-- Behind the rewound request the flow is where it was. -/
theorem next_rewound (hg : InFlight g p r) :
    NextSpec (g.setPosition p.node p.index) (some p) g := by
  have hpos : (g.setPosition p.node p.index).position p.node = p.index := update_self _ _ _
  have hindex := Program.request_lt hg.request
  have hhere := NextSpec.here (f := g.setPosition p.node p.index) hg.current (by
    rw [hpos]
    show (p.index : Int) < (g.prog.getLength p.node : Nat)
    omega)
  have hsame : ({ g.setPosition p.node p.index with
      position := update (g.setPosition p.node p.index).position p.node
        ((g.setPosition p.node p.index).position p.node + 1),
      prevRequest := before p.node ((g.setPosition p.node p.index).position p.node) } : Flow) =
        g := by
    rw [hpos, ← hg.position]
    show ({ g with
      position := update (update g.position p.node p.index) p.node
        (g.position p.node),
      prevRequest := ReqPtr.prev p } : Flow) = g
    rw [update_idem, update_eq_self, ← hg.prev]
  rw [hsame, hpos] at hhere
  exact hhere

/-- The flow behind the request, as the interruption leaves it. -/
theorem inFlight_selected (hf : InFlight f p r) (hh : Handles w e f r h)
    (hcur : h.flow.currentNode = f.currentNode) (hpos : h.flow.position = f.position) (ran : Bool) :
    InFlight (selected f h (.done ran)).flow.clearCancel p r := by
  cases ran with
  | false =>
    rw [show (selected f h (.done false)).flow = f from rfl, clearCancel_eq hf.cancel]
    exact hf
  | true =>
    show InFlight h.flow.clearCancel p r
    refine ⟨(hh.safe hf.safe hf.request hf.node_lt).congr rfl rfl rfl, ?_,
      hcur.trans hf.current, ?_, ?_,
      ?_, rfl, ?_⟩
    · show h.flow.prog.Named
      rw [hh.prog]
      exact hf.named
    · show h.flow.position p.node = _
      rw [hpos]
      exact hf.position
    · show h.flow.prevRequest = _
      rw [hh.frame]
      exact hf.prev
    · show h.flow.prog.request p = _
      rw [hh.prog]
      exact hf.request
    · show h.flow.interrupted = _
      rw [hh.frame]
      exact hf.interrupted

/-- The handler of the repeated request. -/
theorem request_again (hf : InFlight f p r) (hrequest : request w e f r = .ok h)
    (hcur : h.flow.currentNode = f.currentNode) (hpos : h.flow.position = f.position) (ran : Bool) :
    ∃ h', request w e (selected f h (.done ran)).flow.clearCancel r = .ok h' ∧
      ((ran = true → ¬ Spends w e f r 1) → h'.flow = h.flow) ∧
      (ran = true → Spends w e f r 1 → h'.flow.counter ≠ h.flow.counter ∨
        h'.flow.gotoCounter ≠ h.flow.gotoCounter) := by
  cases ran with
  | false =>
    refine ⟨h, ?_, fun _ => rfl, fun hran => by cases hran⟩
    rw [show (selected f h (.done false)).flow = f from rfl, clearCancel_eq hf.cancel]
    exact hrequest
  | true =>
    obtain ⟨h', heq, hsame, hdiff⟩ := (stays_of_request hf hrequest hcur hpos).again hf hrequest
    exact ⟨h', heq, fun hno => hsame (hno rfl), fun _ => hdiff⟩

/-- Where the handler spends nothing, it does not matter whether it has run. -/
theorem Stays.alike (hs : Stays w e f r h)
    (hno : ran = false → ¬ Spends w e f r 0) :
    Alike h.flow.clearCancel (selected f h (.done ran)).flow.clearCancel := by
  cases ran with
  | true => exact Alike.refl _
  | false =>
    show Alike h.flow.clearCancel f.clearCancel
    cases hs with
    | quiet b =>
      cases b with
      | true | false => exact Alike.refl _
    | @idle v _ hbudget =>
      -- the loop has no budget left, so its phase is of no consequence
      refine ⟨?_, ?_, ?_, ?_, ?_, ?_, rfl, fun u => ?_⟩
      all_goals dsimp only [Flow.clearCancel]; rw [resetCycle_frame]
      by_cases hu : u = v
      · rw [hu]
        exact Or.inr hbudget
      · left
        rcases resetCycle_cases f v with heq | heq
        · rw [heq]
        · rw [heq]
          exact (update_of_ne hu _ _).symm
    | @spent v _ hargs hbudget => exact absurd (Or.inl ⟨v, hargs, by omega⟩) (hno rfl)
    | @jumped tag t _ hname htag hlookup hcount =>
      exact absurd (Or.inr ⟨hname, tag, t, htag, hlookup, hcount⟩) (hno rfl)

/-- A handler that spends something does so. -/
theorem Stays.spends (hs : Stays w e f r h) (hf : InFlight f p r)
    (hspends : Spends w e f r 0) :
    f.counter ≠ h.flow.counter ∨ f.gotoCounter ≠ h.flow.gotoCounter := by
  cases hs with
  | quiet _ _ hfree => exact absurd hspends hfree
  | @idle v hargs hbudget =>
    have hlt := (hf.spends_loop hargs).mp hspends
    omega
  | @spent v _ _ _ hflow =>
    left
    intro hsame
    have hv := congrFun hsame v
    rw [hflow, ← (resetCycle_eq f v).1] at hv
    change _ = update (resetCycle f v).counter v ((resetCycle f v).counter v + 1) v at hv
    rw [update_self] at hv
    omega
  | jumped _ _ _ _ hflow =>
    right
    rw [hflow]
    dsimp only
    omega

/-- The flow has the same budgets in both calls, and they start the same requests. -/
structure SameRest (w : World E) (s₁ s₂ : RouteState E) : Prop where
  count : s₁.flow.count = s₂.flow.count
  counter : s₁.flow.counter = s₂.flow.counter
  gotoCounter : s₁.flow.gotoCounter = s₂.flow.gotoCounter
  rest : ∀ n t₁ t₂, routeN w n s₁ = .ok t₁ → routeN w n s₂ = .ok t₂ →
    ∃ rest, t₁.trace = s₁.trace ++ rest ∧ t₂.trace = s₂.trace ++ rest

theorem SameRest.budgets (hrest : SameRest w s₁ (afterSelect w s p r h .result)) :
    s₁.flow.count = h.flow.count ∧ s₁.flow.counter = h.flow.counter ∧
      s₁.flow.gotoCounter = h.flow.gotoCounter := by
  obtain ⟨hcount, hcounter, hjumps⟩ := routeResult_budgets h.flow r
  exact ⟨hrest.count.trans hcount, hrest.counter.trans hcounter, hrest.gotoCounter.trans hjumps⟩

theorem sameRest_of_alike (hsafe : s₂.flow.Safe) (h : RoutesAlike s₂ s₁) : SameRest w s₁ s₂ := by
  refine ⟨h.flow.count, h.flow.counter, h.flow.gotoCounter, fun n t₁ t₂ hrun₁ hrun₂ => ?_⟩
  obtain ⟨t, rest, hrun, -, htrace₂, htrace₁⟩ := routeN_alike n hsafe h hrun₂
  rw [hrun₁] at hrun
  cases hrun
  exact ⟨rest, htrace₁, htrace₂⟩

/-- The interruption of `r`, which was started from `s` with the flow `f`, does not show:
the new call of `Route` starts `r` again if it is listed, and goes on like the call that was
not interrupted. The world answers the repeated request as it answered the first time. -/
def Transparent (w : World E) (s : RouteState E) (p : ReqPtr) (r : ApplicationRequest) (f : Flow)
    (h : Handled) (ran : Bool) (names : List String) : Prop :=
  if r.app.name ∈ names then
    ∃ s₁, routeStep w (routeStart (resumed (cutOff f h p ran) names) s.env) = .ok s₁ ∧
      s₁.trace.map (·.ptr) = [p] ∧ SameRest w s₁ (afterSelect w s p r h .result)
  else
    SameRest w (routeStart (resumed (cutOff f h p ran) names) (w.next s.env r.app))
      (afterSelect w s p r h .result)

/-- A listed request must have no limiter, and if its handler has already run, it must not
be able to spend a second time. A request that is not listed must have had its effect on the
budgets, and if it ends the flow, there must be nothing left behind it. -/
def Resumable (w : World E) (e : E) (r : ApplicationRequest) (f : Flow) (h : Handled) (ran : Bool)
    (names : List String) : Prop :=
  if r.app.name ∈ names then r.limiter = none ∧ (ran = true → ¬ Spends w e f r 1)
  else
    (ran = false → ¬ Spends w e f r 0) ∧
      ((r.app.breakEnabled = true ∨ Cancels w e r) →
        NothingLeft (selected f h (.done ran)).flow.clearCancel)

variable {s : RouteState E} {names : List String}

/-- The flow with which `Route` is called again. -/
theorem routeStart_resumed (hg : InFlight (selected f h (.done ran)).flow.clearCancel p r) (e : E) :
    (routeStart (resumed (cutOff f h p ran) names) e).flow = if r.app.name ∈ names
      then (selected f h (.done ran)).flow.clearCancel.setPosition p.node p.index
      else (selected f h (.done ran)).flow.clearCancel := by
  show (((selected f h (.done ran)).flow.clearCancel.setInterrupted (some p)).repeatInterrupted
    names).2.setInterrupted none = _
  rw [repeat_interrupted hg]
  split <;> exact setInterrupted_eq hg.interrupted

theorem routeSelect_result (hw : w.select s.env r.app = .result)
    (hrequest : request w s.env f r = .ok h) :
    routeSelect w s f p r = .ok (afterSelect w s p r h .result) := by
  unfold routeSelect
  rw [hrequest]
  simp only [bind, Except.bind, pure, Except.pure, hw, selected]

theorem transparent_listed (hw : ∀ e app, w.select e app = .result) (hf : InFlight f p r)
    (hrequest : request w s.env f r = .ok h) (hcur : h.flow.currentNode = f.currentNode)
    (hpos : h.flow.position = f.position) (hmem : r.app.name ∈ names) :
    (∃ s₁, routeStep w (routeStart (resumed (cutOff f h p ran) names) s.env) = .ok s₁ ∧
      s₁.trace.map (·.ptr) = [p] ∧ SameRest w s₁ (afterSelect w s p r h .result)) ↔
    r.limiter = none ∧ (ran = true → ¬ Spends w s.env f r 1) := by
  have hh := handles_of_request hf.safe hrequest
  have hg := inFlight_selected hf hh hcur hpos ran
  generalize hstart : routeStart (resumed (cutOff f h p ran) names) s.env = start
  have hflow :
      start.flow = (selected f h (.done ran)).flow.clearCancel.setPosition p.node p.index := by
    rw [← hstart, routeStart_resumed hg, if_pos hmem]
  have henv : start.env = s.env := by rw [← hstart]; rfl
  have hret : start.returned = false := by rw [← hstart]; rfl
  have htrace₀ : start.trace = [] := by rw [← hstart]; rfl
  have hnext : NextSpec start.flow (some p) (selected f h (.done ran)).flow.clearCancel := by
    rw [hflow]
    exact next_rewound hg
  have hsafe : start.flow.Safe := by
    have hindex := Program.request_lt hg.request
    rw [hflow]
    exact hg.safe.setPosition (by omega) (by exact_mod_cast le_of_lt hindex)
  obtain ⟨h', hrequest', hsame, hdiff⟩ := request_again hf hrequest hcur hpos ran
  have hcount : h.flow.count = f.count := by rw [hh.frame]
  have hselCount : (selected f h (.done ran)).flow.clearCancel.count = f.count := by
    cases ran with
    | true => exact hcount
    | false => rfl
  generalize (selected f h (.done ran)).flow.clearCancel = g at hg hnext hrequest' hselCount
  -- without a limiter the request is started again
  have hagain : r.limiter = none →
      routeStep w start = .ok (afterSelect w start p r h' .result) := fun hlim => by
    rw [routeStep_start w hsafe hret hnext hg.cancel hg.request (by unfold exhausted; rw [hlim])]
    have hid : countIteration g r = g := by
      unfold countIteration
      rw [hlim]
    rw [hid]
    exact routeSelect_result (hw _ _) (by rw [henv]; exact hrequest')
  constructor
  · rintro ⟨s₁, hstep, htrace, hrest⟩
    have hlim : r.limiter = none := by
      cases hl : r.limiter with
      | none => rfl
      | some l =>
        exfalso
        cases hex : exhausted g r with
        | some l' =>
          -- the limiter is used up: nothing is started
          obtain ⟨x, hgoto, hspec⟩ := goto_spec hg.safe (g.prog.limiters l').failover
          have htop := routeTop_of_spec hsafe
            (TopSpec.failover hnext hg.cancel hg.request hex hgoto hspec)
          unfold routeStep at hstep
          rw [hret, htop] at hstep
          obtain ⟨ok, x'⟩ := x
          cases ok <;> cases hstep <;> rw [htrace₀] at htrace <;> cases htrace
        | none =>
          rw [routeStep_start w hsafe hret hnext hg.cancel hg.request hex] at hstep
          obtain ⟨h₂, hreq₂, hh₂⟩ := request_spec (safe_countIteration hg.safe r) w start.env r
          rw [routeSelect_result (hw _ _) hreq₂] at hstep
          cases hstep
          have hl₁ := congrFun hrest.budgets.1 l
          change (routeResult h₂.flow r).count l = _ at hl₁
          rw [(routeResult_budgets h₂.flow r).1, hh₂.frame, hcount] at hl₁
          unfold countIteration at hl₁
          rw [hl] at hl₁
          change update g.count l (g.count l + 1) l = f.count l at hl₁
          rw [update_self, hselCount] at hl₁
          omega
    refine ⟨hlim, fun hran hspends => ?_⟩
    rw [hagain hlim] at hstep
    cases hstep
    obtain ⟨-, hcounter, hjumps⟩ := hrest.budgets
    obtain ⟨-, hcounter', hjumps'⟩ := routeResult_budgets h'.flow r
    rcases hdiff hran hspends with hne | hne
    · exact hne (hcounter'.symm.trans hcounter)
    · exact hne (hjumps'.symm.trans hjumps)
  · rintro ⟨hlim, hno⟩
    refine ⟨_, hagain hlim, ?_, sameRest_of_alike ?_ ?_⟩
    · show (start.trace ++ _).map (·.ptr) = [p]
      rw [htrace₀]
      rfl
    · exact safe_routeResult (hh.safe hf.safe hf.request hf.node_lt) r
    · refine ⟨?_, ?_, ?_⟩
      · show Alike (routeResult h.flow r) (routeResult h'.flow r)
        rw [hsame hno]
        exact Alike.refl _
      · show w.next start.env r.app = w.next s.env r.app
        rw [henv]
      · show (routeResult h'.flow r).cancel = (routeResult h.flow r).cancel
        rw [hsame hno]

theorem transparent_unlisted (hf : InFlight f p r) (hrequest : request w s.env f r = .ok h)
    (hcur : h.flow.currentNode = f.currentNode) (hpos : h.flow.position = f.position)
    (hmem : r.app.name ∉ names) :
    SameRest w (routeStart (resumed (cutOff f h p ran) names) (w.next s.env r.app))
        (afterSelect w s p r h .result) ↔
      (ran = false → ¬ Spends w s.env f r 0) ∧
        ((r.app.breakEnabled = true ∨ Cancels w s.env r) →
          NothingLeft (selected f h (.done ran)).flow.clearCancel) := by
  have hh := handles_of_request hf.safe hrequest
  have hstays := stays_of_request hf hrequest hcur hpos
  have hg := inFlight_selected hf hh hcur hpos ran
  generalize hstart : routeStart (resumed (cutOff f h p ran) names) (w.next s.env r.app) = start
  have hflow : start.flow = (selected f h (.done ran)).flow.clearCancel := by
    rw [← hstart, routeStart_resumed hg, if_neg hmem]
  have henv : start.env = w.next s.env r.app := by rw [← hstart]; rfl
  have hret : start.returned = false := by rw [← hstart]; rfl
  have hsafe : start.flow.Safe := by
    rw [hflow]
    exact hg.safe
  have hcancel : start.flow.cancel = false := by
    rw [hflow]
    exact hg.cancel
  -- the run that was not cut off ends with the request if that breaks or cancels
  have hends : (afterSelect w s p r h .result).returned = true ↔
      r.app.breakEnabled = true ∨ Cancels w s.env r := by
    show (routeResult h.flow r).cancel = true ↔ _
    rw [← hstays.cancel_iff hf.cancel hf.fits]
    unfold routeResult
    cases r.app.breakEnabled <;> cases r.app.log <;> simp [Flow.setCancel, Flow.pushSteepLog]
  constructor
  · intro hrest
    refine ⟨fun hran hspends => ?_, fun hend => ?_⟩
    · subst hran
      obtain ⟨-, hcounter, hjumps⟩ := hrest.budgets
      rw [hflow] at hcounter hjumps
      rcases hstays.spends hf hspends with hne | hne
      · exact hne hcounter
      · exact hne hjumps
    · -- the other call has returned, so this one may start nothing
      rw [← hflow]
      refine (nothingLeft_iff hsafe hcancel hret (w := w)).mpr fun n t hrun => ?_
      obtain ⟨rest, htrace₁, htrace₂⟩ := hrest.rest n t _ hrun (routeN_returned (hends.mpr hend) n)
      rw [List.self_eq_append_right.mp htrace₂, List.append_nil] at htrace₁
      exact htrace₁
  · rintro ⟨hno, hnothing⟩
    have halike := hstays.alike hno
    by_cases hend : r.app.breakEnabled = true ∨ Cancels w s.env r
    · -- one call has returned and the other has nothing to start
      obtain ⟨hcount, hcounter, hjumps⟩ := routeResult_budgets h.flow r
      rw [← hflow] at halike
      refine ⟨halike.count.trans hcount.symm, halike.counter.trans hcounter.symm,
        halike.gotoCounter.trans hjumps.symm, fun n t₁ t₂ hrun₁ hrun₂ => ⟨[], ?_, ?_⟩⟩
      · rw [List.append_nil]
        have hleft := hnothing hend
        rw [← hflow] at hleft
        exact hleft.trace_eq hsafe hcancel rfl hret hrun₁
      · rw [routeN_returned (hends.mpr hend) n] at hrun₂
        cases hrun₂
        rw [List.append_nil]
    · have hlive : (routeResult h.flow r).cancel = false := by
        have hfalse : ¬ (routeResult h.flow r).cancel = true := fun hc => hend (hends.mp hc)
        simpa using hfalse
      refine sameRest_of_alike (safe_routeResult (hh.safe hf.safe hf.request hf.node_lt) r)
        ⟨?_, henv, hret.trans hlive.symm⟩
      show Alike (routeResult h.flow r) start.flow
      rw [hflow, routeResult_frame]
      exact ⟨halike.prog, halike.position, halike.currentNode, halike.counter, halike.count,
        halike.gotoCounter, hg.cancel.trans hlive.symm, halike.step⟩

/-! ### The state of a call of `Route` -/

theorem TopSpec.interrupted (ht : TopSpec f t) : t.2.interrupted = f.interrupted := by
  cases ht with
  | finished hnext | cancelled hnext => exact hnext.same.interrupted
  | failover hnext _ _ _ _ hspec =>
    show _ = f.interrupted
    rw [hspec.frame, ← hnext.same.interrupted]
  | @start p f₁ r hnext =>
    rw [← hnext.same.interrupted]
    show (countIteration f₁ r).interrupted = _
    unfold countIteration
    split <;> rfl

/-- While `Route` runs, no interruption is recorded. -/
theorem interrupted_routeStep (hsafe : s.flow.Safe)
    (h : s.returned = false → s.flow.interrupted = none) (hstep : routeStep w s = .ok t) :
    t.returned = false → t.flow.interrupted = none := by
  cases hret : s.returned with
  | true =>
    rw [routeStep_returned w hret] at hstep
    cases hstep
    exact h
  | false =>
    obtain ⟨s₁, heq, hspec⟩ := routeStep_spec w hsafe hret
    rw [heq] at hstep
    cases hstep
    cases hspec with
    | returned => exact fun hr => by cases hr
    | again htop => exact fun _ => htop.interrupted.trans (h hret)
    | @dispatched p f₁ r hd htop _ hh =>
      cases hb : w.select s.env r.app with
      | done ran => exact fun hr => by cases hr
      | result =>
        intro _
        show (routeResult hd.flow r).interrupted = none
        rw [routeResult_frame,
          show ∀ g : Flow, ({ g with logs := _, cancel := _ } : Flow).interrupted
          = g.interrupted from fun _ => rfl, hh.frame]
        exact htop.interrupted.trans (h hret)

theorem interrupted_routeN : ∀ (n : Nat) {s t : RouteState E}, s.flow.Safe →
    (s.returned = false → s.flow.interrupted = none) → routeN w n s = .ok t →
    t.returned = false → t.flow.interrupted = none := by
  intro n
  induction n with
  | zero =>
    intro s t _ h hrun
    cases hrun
    exact h
  | succ n ih =>
    intro s t hsafe h hrun
    obtain ⟨s₁, hstep, hrest⟩ := Loop.iterate_succ_inv hrun
    exact ih (safe_routeStep hsafe hstep) (interrupted_routeStep hsafe h hstep) hrest

theorem inFlight_of_top (hsafe : s.flow.Safe) (hnamed : s.flow.prog.Named)
    (hinterrupted : s.flow.interrupted = none) (htop : routeTop s.flow = .ok (.start p r, f)) :
    InFlight f p r := by
  obtain ⟨t, heq, hspec⟩ := routeTop_spec hsafe
  rw [htop] at heq
  cases heq
  obtain ⟨f₀, hnext, hcancel, hreq, -, rfl⟩ := hspec.start_inv
  obtain ⟨hcur, hpos, hprev⟩ := hnext.cursor hsafe p rfl
  have hframe : countIteration f₀ r = { f₀ with count := (countIteration f₀ r).count } := by
    unfold countIteration
    split <;> rfl
  refine ⟨hspec.safe hsafe, ?_, ?_, ?_, ?_, (hspec.request hsafe).1, ?_, ?_⟩
  · rw [hspec.prog]
    exact hnamed
  · rw [hframe]
    exact hcur
  · rw [hframe]
    exact hpos
  · rw [hframe]
    exact hprev
  · rw [hframe]
    exact hcancel
  · exact hspec.interrupted.trans hinterrupted

end Resume

/-- When exactly an interruption does not show: in every call of `Route` on a reachable
flow, for every request that is started and whose handler does not move the cursor, whether
the handler has run by then or not, and for all lists of names. -/
theorem resume_transparent {functions triggers : List (String × Applications)}
    {schema : Applications} {log : List Dispatch} {f₀ : Flow}
    (hrun : Run (Flow.parsed functions triggers schema) log f₀) {E : Type} (w : World E)
    (hw : ∀ e app, w.select e app = .result) (e : E) {n : Nat} {s : RouteState E}
    (hs : routeN w n (routeStart f₀ e) = .ok s) (hret : s.returned = false) {p : ReqPtr}
    {r : ApplicationRequest} {f : Flow} (htop : routeTop s.flow = .ok (.start p r, f)) {h : Handled}
    (hrequest : request w s.env f r = .ok h) (hcur : h.flow.currentNode = f.currentNode)
    (hpos : h.flow.position = f.position) (ran : Bool) (names : List String) :
    Transparent w s p r f h ran names ↔ Resumable w s.env r f h ran names := by
  have hsafe₀ := safe_of_run hrun (safe_parsed functions triggers schema)
  have hinv := loopInv_of_run hrun (safe_parsed functions triggers schema)
    (loopInv_parsed functions triggers schema)
  have hstart : (routeStart f₀ e).flow.Safe := hsafe₀.congr rfl rfl rfl
  obtain ⟨hsafe, hprog⟩ := safe_routeN n hstart hs
  have hnamed : s.flow.prog.Named := by
    rw [hprog]
    exact (Program.named_parse functions triggers schema).of_nodes hinv.same.nodes
  have hf := inFlight_of_top hsafe hnamed
    (interrupted_routeN n hstart (fun _ => rfl) hs hret) htop
  unfold Transparent Resumable
  by_cases hmem : r.app.name ∈ names
  · rw [if_pos hmem, if_pos hmem]
    exact transparent_listed hw hf hrequest hcur hpos hmem
  · rw [if_neg hmem, if_neg hmem]
    exact transparent_unlisted hf hrequest hcur hpos hmem

/-- Waiting for a message, and something behind it. -/
def waitingSchema : Applications :=
  [[("recvMessage", .null)], [("last", .null)]]

/-- The wait is started, and what follows it is as asked. -/
def startsWait (after : Flow → ApplicationRequest → Bool) : Except Panic (Top × Flow) → Bool
  | .ok (.start _ ⟨app, .raw, none⟩, f) => app.name == "recvMessage" && after f ⟨app, .raw, none⟩
  | _ => false

/-- A wait that is cut off in that schema, its handler having returned, is repeated. -/
theorem resume_transparent_waiting :
    ∃ p r f h, routeTop (Flow.new waitingSchema) = .ok (.start p r, f) ∧
      request steadyWorld () f r = .ok h ∧
      Transparent steadyWorld (routeStart (Flow.new waitingSchema) ()) p r f h true
        ["recvMessage", "interactiveMenu"] := by
  have hfirst : startsWait (fun _ _ => true) (routeTop (Flow.new waitingSchema)) = true := by
    decide +kernel
  unfold startsWait at hfirst
  split at hfirst
  · rename_i p app f htop
    have hname : app.name = "recvMessage" := by simpa using hfirst
    have hrequest : request steadyWorld () f ⟨app, .raw, none⟩ = .ok { flow := f } := by
      unfold request
      rw [hname]
      rfl
    have hrun : Run (Flow.parsed [] [] waitingSchema) [] (Flow.new waitingSchema) := Run.refl
    refine ⟨p, _, f, _, htop, hrequest, ?_⟩
    refine (resume_transparent hrun steadyWorld (fun _ _ => rfl) () (n := 0) rfl rfl htop
      hrequest rfl
      rfl true _).mpr ?_
    unfold Resumable
    rw [if_pos (by rw [hname]; decide)]
    refine ⟨rfl, fun _ => ?_⟩
    rintro (⟨v, hv, -⟩ | ⟨hgoto, -⟩)
    · cases hv
    · rw [hname] at hgoto
      exact absurd hgoto (by decide)
  · cases hfirst

/-- A world in which every request is cut off. -/
def cuttingWorld : World Unit := { steadyWorld with select := fun _ _ => .done true }

/-- Waiting for a message at most once. -/
def limitedSchema : Applications :=
  [[("recvMessage", .null), ("limit", .obj [("max", .num 1), ("failover", .str "none")])],
    [("last", .null)]]

/-- The wait that was cut off has used up its limiter: it is not repeated, and the flow ends,
while without the interruption it goes on. -/
theorem resume_transparent_limited :
    (((routeN cuttingWorld 1 (routeStart (Flow.new limitedSchema) ())).bind fun s =>
        routeN steadyWorld 3
          (routeStart (resumed s.flow ["recvMessage", "interactiveMenu"]) ())).toOption.map fun s =>
        (s.returned, s.trace.map (·.app.name))) = some (true, []) ∧
      ((routeN steadyWorld 3 (routeStart (Flow.new limitedSchema) ())).toOption.map fun s =>
        (s.returned, s.trace.map (·.app.name))) = some (true, ["recvMessage", "last"]) := by
  constructor <;> decide +kernel

end FlowManager
