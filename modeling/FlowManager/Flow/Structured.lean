import FlowManager.Flow.While

/-!
# Structured execution

What a schema means, without cursors: `Block.interp` runs the tree of a schema by
recursion over its structure, each `while` repeating its block as long as its lifetime
budget and its condition allow. `route_refines_interp` says that `Route` dispatches
exactly the requests that this interpreter dispatches, for every schema without jumps,
limits and breaks and in every world that never cancels.

The cursor of a flow is ahead of the meaning: a block that has run to its end is left only
by the next `NextRequest`. `Settles` closes that gap, and `Sim` relates a flow, once
settled, to a state of the interpreter. The induction over the tree keeps `Sim` and
`Kept`: what lies outside the tree that has been run is as before.
-/

namespace FlowManager

open Flow Function

/-! ## The reference interpreter -/

/-- The state of the interpreter: the world, the units each loop has spent, and the
applications dispatched so far. -/
structure Ref (E : Type) where
  env : E
  spent : Nat → Nat
  trace : List Application

section Interp

variable {E : Type} (w : World E)

def Ref.dispatch (s : Ref E) (app : Application) : Ref E :=
  { s with env := w.next s.env app, trace := s.trace ++ [app] }

/-- Loop `k` spends a unit of its budget. -/
def Ref.spend (s : Ref E) (k : Nat) : Ref E :=
  { s with spent := update s.spent k (s.spent k + 1) }

/-- The end of a run of the block of loop `k`, with `b` units left: the `while` is
dispatched again, and repeats the block only if it can pay and its condition holds. -/
def again (app : Application) (condition : String) (k : Nat) (body : Ref E → Ref E) :
    Nat → Ref E → Ref E
  | 0, s => s.dispatch w app
  | b + 1, s =>
    if w.check s.env condition = true then
      again app condition k body b (body ((s.spend k).dispatch w app))
    else (s.spend k).dispatch w app

/-- Whether a switch has a case of that name. -/
def Cases.has : Cases → String → Bool
  | .nil, _ => false
  | .cons name _ rest, text => name == text || rest.has text

mutual

/-- Items run from left to right. -/
def Block.interp : Block → Nat → Ref E → Ref E
  | .nil, _, s => s
  | .cons item rest, k, s => rest.interp (k + item.loops) (item.interp k s)

/-- One item; `k` is the number of its first loop. -/
def Item.interp : Item → Nat → Ref E → Ref E
  | .plain app, _, s => s.dispatch w app
  | .brk app, _, s => s.dispatch w app
  | .cond app expression then_ else_, k, s =>
    match w.condition s.env expression with
    | some true => then_.interp k (s.dispatch w app)
    | some false => else_.interp (k + then_.loops) (s.dispatch w app)
    | none => s.dispatch w app
  | .loop app condition maxSteps body, k, s =>
    match (maxSteps - (s.spent k : Int)).toNat with
    | 0 => s.dispatch w app
    | b + 1 =>
      if body.width = 0 then (s.spend k).dispatch w app
      else again w app condition k (fun s => body.interp (k + 1) s) b
        (body.interp (k + 1) ((s.spend k).dispatch w app))
  | .bareLoop app, k, s =>
    if s.spent k < 1000 then (s.spend k).dispatch w app else s.dispatch w app
  | .switch app text cases, k, s =>
    cases.interp (if cases.has (w.parseText s.env text) = true then w.parseText s.env text
      else "default") k (s.dispatch w app)
  | .function _, _, s => s
  | .trigger _, _, s => s
  | .dropped _, _, s => s

/-- The first case of that name, if there is one. -/
def Cases.interp : Cases → String → Nat → Ref E → Ref E
  | .nil, _, _, s => s
  | .cons name block rest, text, k, s =>
    if name = text then block.interp k s else rest.interp text (k + block.loops) s

end

/-- The meaning of a schema. -/
def interpret (e : E) (schema : Applications) : Ref E :=
  (decode schema).interp w 0 { env := e, spent := fun _ => 0, trace := [] }

end Interp

/-! ## Structured schemas -/

/-- No limit, no break flag, no jump. -/
def Application.structured (app : Application) : Bool :=
  app.limit.isNone && !app.breakEnabled && app.name != "goto"

mutual

/-- No item of the tree leaves the structured control flow. -/
def Block.structured : Block → Bool
  | .nil => true
  | .cons item rest => item.structured && rest.structured

def Item.structured : Item → Bool
  | .plain app => app.structured
  | .brk _ => false
  | .cond app _ then_ else_ => app.structured && then_.structured && else_.structured
  | .loop app _ _ body => app.structured && body.structured
  | .bareLoop app => app.structured
  | .switch app _ cases => app.structured && cases.structured
  | .function _ => true
  | .trigger _ => true
  | .dropped _ => true

def Cases.structured : Cases → Bool
  | .nil => true
  | .cons _ block rest => block.structured && rest.structured

end

/-- A world in which nothing cancels the flow. -/
structure World.Steady {E : Type} (w : World E) : Prop where
  setsCancel : ∀ e app, w.setsCancel e app = false
  select : ∀ e app, w.select e app = .result

/-! ## Settling -/

variable {f f' g g' : Flow} {n p : Nat}

/-- `g` is `f` after all that `NextRequest` does before it looks at a node with requests
left, or part of it. -/
inductive Settles : Flow → Flow → Prop where
  | refl (f : Flow) : Settles f f
  | up {f g : Flow} {n p : Nat} (hcur : f.currentNode = some n)
      (hend : f.position n = f.prog.getLength n) (hparent : (f.prog.nodes n).parent = some p)
      (h : Settles (f.leave n p) g) : Settles f g

theorem Settles.trans (h₁ : Settles f g) (h₂ : Settles g h) : Settles f h := by
  induction h₁ with
  | refl => exact h₂
  | up hcur hend hparent _ ih => exact Settles.up hcur hend hparent (ih h₂)

theorem Settles.next (h : Settles f g) (hnext : NextSpec g r g') :
    NextSpec f r g' := by
  induction h with
  | refl => exact hnext
  | up hcur hend hparent _ ih => exact NextSpec.up hcur hend hparent (ih hnext)

/-! ## The simulation -/

/-- The flow with which a handler runs: the cursor is behind the request, and the
previous request is the one before it. -/
def Flow.stepped (g : Flow) (n : Nat) : Flow :=
  { g with position := update g.position n (g.position n + 1),
           prevRequest := before n (g.position n) }

section Sim

variable {E : Type} {w : World E} {P : Program} {s s' : RouteState E} {ref : Ref E} {j k l : Nat}

/-- `Route` is about to look at request `j` of node `n`, and the interpreter is in state
`ref`. -/
structure Sim (P : Program) (n j : Nat) (s : RouteState E) (g : Flow) (ref : Ref E) : Prop where
  settles : Settles s.flow g
  safe : s.flow.Safe
  prog : g.prog = P
  current : g.currentNode = some n
  position : g.position n = j
  cancel : g.cancel = false
  running : s.returned = false
  env : s.env = ref.env
  trace : s.trace.map (·.app) = ref.trace
  spent : ∀ v, g.counter v = ref.spent v
  fresh : ∀ v, g.counter v = 0 → g.step v = 0

/-- What running a part of node `n` with the `l` loops from `k` on leaves alone: the
positions of older nodes and all other loops. -/
structure Kept (n k l : Nat) (g g' : Flow) : Prop where
  position : ∀ m, m < n → g'.position m = g.position m
  step : ∀ v, v < k ∨ k + l ≤ v → g'.step v = g.step v
  counter : ∀ v, v < k ∨ k + l ≤ v → g'.counter v = g.counter v

theorem Kept.trans (h₁ : Kept n k l g₁ g₂) (h₂ : Kept n (k + l) l' g₂ g₃) :
    Kept n k (l + l') g₁ g₃ where
  position m hm := (h₂.position m hm).trans (h₁.position m hm)
  step v hv := (h₂.step v (by omega)).trans (h₁.step v (by omega))
  counter v hv := (h₂.counter v (by omega)).trans (h₁.counter v (by omega))

/-- The result branch does not cancel a flow that is not cancelled. -/
theorem routeResult_cancel (hbreak : r.app.breakEnabled = false) :
    (routeResult f r).cancel = f.cancel := by
  unfold routeResult
  rw [hbreak]
  cases r.app.log <;> rfl

theorem Sim.nextSpec (h : Sim P n j s g ref) (hholds : P.Holds n j app args) :
    NextSpec s.flow (some ⟨n, j⟩) (g.stepped n) := by
  obtain ⟨limiter, hreq, -⟩ := hholds
  have hlt : g.position n < g.prog.getLength n := by
    have hindex := Program.request_lt hreq
    rw [h.position, h.prog]
    exact_mod_cast hindex
  have hhere := NextSpec.here h.current hlt
  rw [h.position] at hhere
  unfold Flow.stepped
  rw [h.position]
  exact h.settles.next hhere

/-- The iteration that dispatches the request at the cursor, given what its handler
does. -/
theorem Sim.step (hw : w.Steady) (h : Sim P n j s g ref) (hholds : P.Holds n j app args)
    (happ : app.structured = true)
    (hrequest : request w ref.env (g.stepped n) ⟨app, args, none⟩ = .ok hd) (n' j' : Nat)
    (spent' : Nat → Nat) (hcur : hd.flow.currentNode = some n') (hpos : hd.flow.position n' = j')
    (hcancel : hd.flow.cancel = false) (hspent : ∀ v, hd.flow.counter v = spent' v)
    (hfresh : ∀ v, hd.flow.counter v = 0 → hd.flow.step v = 0) :
    ∃ s₁ g₁, Loop.Leads (routeStep w) s s₁ ∧
      Sim P n' j' s₁ g₁
        { env := w.next ref.env app, spent := spent', trace := ref.trace ++ [app] } ∧
      g₁.position = hd.flow.position ∧ g₁.step = hd.flow.step ∧ g₁.counter = hd.flow.counter := by
  simp only [Application.structured, Bool.and_eq_true, Option.isNone_iff_eq_none,
    Bool.not_eq_true'] at happ
  have hnext := h.nextSpec hholds
  have hsafe : (g.stepped n).Safe := hnext.safe h.safe
  obtain ⟨limiter, hreq, hlim⟩ := hholds
  rw [hlim happ.1.1] at hreq
  have hprog : hd.flow.prog = P := (handles_of_request hsafe hrequest).prog.trans h.prog
  have hstep := routeStep_start w h.safe h.running hnext h.cancel
    (r := ⟨app, args, none⟩) (by rw [← hreq, ← h.prog]; rfl) rfl
  simp only [routeSelect, countIteration, h.env, hrequest, hw.select, bind, Except.bind, pure,
    Except.pure, selected, afterSelect] at hstep
  have hframe := routeResult_frame hd.flow ⟨app, args, none⟩
  have hcancel' : (routeResult hd.flow ⟨app, args, none⟩).cancel = false := by
    rw [routeResult_cancel happ.1.2, hcancel]
  refine ⟨_, routeResult hd.flow ⟨app, args, none⟩, (Loop.Leads.refl _).head hstep, ?_, ?_, ?_, ?_⟩
  · refine ⟨Settles.refl _, safe_routeStep h.safe hstep, ?_, ?_, ?_, hcancel', hcancel', rfl, ?_,
      ?_, ?_⟩
    · rw [hframe]
      exact hprog
    · rw [hframe]
      exact hcur
    · rw [hframe]
      exact hpos
    · rw [List.map_append, h.trace]
      rfl
    · rw [hframe]
      exact hspent
    · rw [hframe]
      exact hfresh
  all_goals rw [hframe]

/-- Leaving a block that has run to its end. -/
theorem Sim.up (h : Sim P c j s g ref) (hchild : P.IsChild c n j)
    {i : Nat} (hi : g.position n = i) : Sim P n i s (g.leave c n) ref where
  settles := h.settles.trans (Settles.up h.current
    (by rw [h.position, h.prog, hchild.length]) (by rw [h.prog]; exact hchild.parent)
    (Settles.refl _))
  safe := h.safe
  prog := h.prog
  current := rfl
  position := by
    rw [← hi]
    exact update_of_ne (Nat.ne_of_lt hchild.lt) _ _
  cancel := h.cancel
  running := h.running
  env := h.env
  trace := h.trace
  spent := h.spent
  fresh := h.fresh

/-- Running `width` requests of node `n` from `j` on, with the loops `k`, …, `k + l - 1`,
does to the interpreter what `part` says. -/
def Runs (w : World E) (P : Program) (part : Ref E → Ref E) (n j width k l : Nat) : Prop :=
  ∀ (s : RouteState E) (g : Flow) (ref : Ref E), Sim P n j s g ref →
    ∃ s' g', Loop.Leads (routeStep w) s s' ∧ Sim P n (j + width) s' g' (part ref) ∧ Kept n k l g g'

theorem Kept.mono (h : Kept n k l g g') (hk : k' ≤ k) (hl : k + l ≤ k' + l') : Kept n k' l' g g' :=
  ⟨h.position, fun v hv => h.step v (by omega), fun v hv => h.counter v (by omega)⟩

theorem stepped_position_self (g : Flow) (n : Nat) :
    (g.stepped n).position n = g.position n + 1 :=
  update_self _ _ _

theorem stepped_position_of_ne (g : Flow) (h : m ≠ n) : (g.stepped n).position m = g.position m :=
  update_of_ne h _ _

/-- A request whose handler leaves the flow alone. -/
theorem Sim.quiet (hw : w.Steady) (h : Sim P n j s g ref) (hholds : P.Holds n j app args)
    (happ : app.structured = true)
    (hrequest : request w ref.env (g.stepped n) ⟨app, args, none⟩ = .ok { flow := g.stepped n }) :
    ∃ s' g', Loop.Leads (routeStep w) s s' ∧ Sim P n (j + 1) s' g' (ref.dispatch w app) ∧
      Kept n k l g g' := by
  obtain ⟨s₁, g₁, hleads, hsim, hpos, hstep, hcounter⟩ := h.step hw hholds happ hrequest n (j + 1)
    ref.spent h.current (by rw [stepped_position_self, h.position]; rfl) h.cancel h.spent h.fresh
  refine ⟨s₁, g₁, hleads, hsim, fun m hm => ?_, fun v _ => congrFun hstep v,
    fun v _ => congrFun hcounter v⟩
  rw [hpos]
  exact stepped_position_of_ne g (Nat.ne_of_lt hm)

/-- An application without a block. -/
theorem runs_plain (hw : w.Steady) (hholds : P.Holds n j app .raw) (happ : app.structured = true)
    (hname : Args.raw.Fits app.name) : Runs w P (fun ref => ref.dispatch w app) n j 1 k l := by
  intro s g ref h
  refine h.quiet hw hholds happ ?_
  obtain ⟨hif, hwhile, hswitch, hbreak⟩ := hname
  have hgoto : app.name ≠ "goto" := by
    simp only [Application.structured, Bool.and_eq_true, bne_iff_ne] at happ
    exact happ.2
  unfold request
  split
  · exact absurd ‹_› hif
  · exact absurd ‹_› hwhile
  · exact absurd ‹_› hswitch
  · exact absurd ‹_› hbreak
  · exact absurd ‹_› hgoto
  · rw [hw.setsCancel]
    rfl

/-- Nothing to run. -/
theorem runs_nothing : Runs w P (fun ref => ref) n j 0 k l := fun s g _ h =>
  ⟨s, g, Loop.Leads.refl s, h, fun _ _ => rfl, fun _ _ => rfl, fun _ _ => rfl⟩

theorem Runs.seq (h₁ : Runs w P part n j width k l)
    (h₂ : Runs w P part' n (j + width) width' (k + l) l') :
    Runs w P (fun ref => part' (part ref)) n j (width + width') k (l + l') := by
  intro s g ref h
  obtain ⟨s₁, g₁, hleads₁, hsim₁, hkept₁⟩ := h₁ s g ref h
  obtain ⟨s₂, g₂, hleads₂, hsim₂, hkept₂⟩ := h₂ s₁ g₁ _ hsim₁
  rw [Nat.add_assoc] at hsim₂
  exact ⟨s₂, g₂, hleads₁.trans hleads₂, hsim₂, hkept₁.trans hkept₂⟩

/-- A request that enters a block: the block runs, and then the request is done. -/
theorem Sim.block (hw : w.Steady) (h : Sim P n j s g ref) (hholds : P.Holds n j app args)
    (happ : app.structured = true) (hchild : P.IsChild c n width)
    (hrequest : request w ref.env (g.stepped n) ⟨app, args, none⟩
      = .ok (Handled.enter (g.stepped n) c)) (hpart : Runs w P part c 0 width k l) :
    ∃ s' g', Loop.Leads (routeStep w) s s' ∧
      Sim P n (j + 1) s' g' (part (ref.dispatch w app)) ∧ Kept n k l g g' := by
  have hnc := hchild.lt
  obtain ⟨s₁, g₁, hleads₁, hsim₁, hpos₁, hstep₁, hcounter₁⟩ := h.step hw hholds happ hrequest
    c 0 ref.spent rfl (update_self _ _ _) h.cancel h.spent h.fresh
  obtain ⟨s₂, g₂, hleads₂, hsim₂, hkept₂⟩ := hpart s₁ g₁ _ hsim₁
  rw [Nat.zero_add] at hsim₂
  have hold : ∀ m, m < c → g₂.position m = (g.stepped n).position m := by
    intro m hm
    rw [hkept₂.position m hm, hpos₁]
    exact update_of_ne (Nat.ne_of_lt hm) _ _
  have hn : g₂.position n = (j + 1 : Nat) := by
    rw [hold n hnc, stepped_position_self, h.position]
    rfl
  refine ⟨s₂, g₂.leave c n, hleads₁.trans hleads₂, hsim₂.up hchild hn, fun m hm => ?_,
    fun v hv => ?_, fun v hv => ?_⟩
  · rw [show (g₂.leave c n).position m = g₂.position m from
      update_of_ne (by omega) _ _, hold m (by omega)]
    exact stepped_position_of_ne g (Nat.ne_of_lt hm)
  · exact (hkept₂.step v hv).trans (congrFun hstep₁ v)
  · exact (hkept₂.counter v hv).trans (congrFun hcounter₁ v)

/-! ### Loops -/

theorem request_while (w : World E) (e : E) (f : Flow) (hname : app.name = "while") (k : Nat) :
    request w e f ⟨app, .loop k, none⟩ = .ok (whileHandler w e f (.loop k)) := by
  unfold request
  rw [hname]
  rfl

section

variable (h : Sim P n j s g ref)
include h

/-- What is left of its budget decides what a loop's handler does. -/
theorem Sim.while_cases (w : World E) (e : E) (d k : Nat) : ((P.whiles k).maxSteps ≤ ref.spent k ∧
        whileHandler w e (g.stepped d) (.loop k) = { flow := resetCycle (g.stepped d) k }) ∨
      ((ref.spent k : Int) < (P.whiles k).maxSteps ∧
        whileHandler w e (g.stepped d) (.loop k) =
          runCycle w e (resetCycle (g.stepped d) k) k) := by
  rw [← h.prog, ← h.spent k]
  exact whileHandler_cases w e (g.stepped d) k

theorem Sim.while_cycle (w : World E) (e : E) (d : Nat)
    (hbudget : (ref.spent k : Int) < (P.whiles k).maxSteps) :
    whileHandler w e (g.stepped d) (.loop k) = runCycle w e (resetCycle (g.stepped d) k) k :=
  ((h.while_cases w e d k).resolve_left fun hle => absurd hbudget (not_lt.mpr hle.1)).2

/-- The interpreter's account of a dispatched `while`: one unit, if there is one. -/
theorem Sim.while_spent (w : World E) (e : E) (d k v : Nat) :
    (whileHandler w e (g.stepped d) (.loop k)).flow.counter v =
      if (ref.spent k : Int) < (P.whiles k).maxSteps then (ref.spend k).spent v
      else ref.spent v := by
  have hcounter : (resetCycle (g.stepped d) k).counter = g.counter := (resetCycle_eq _ k).1
  rcases h.while_cases w e d k with ⟨hle, heq⟩ | ⟨hlt, heq⟩
  · rw [if_neg (not_lt.mpr hle), heq, hcounter, h.spent]
  · rw [if_pos hlt, heq, (runCycle_eq w e _ k).1, hcounter]
    show _ = update ref.spent k (ref.spent k + 1) v
    by_cases hv : v = k
    · rw [hv, update_self, update_self, h.spent]
    · rw [update_of_ne hv, update_of_ne hv, h.spent]

/-- After a `while` every loop that has not been counted is still at its first step. -/
theorem Sim.while_fresh (w : World E) (e : E) (d k v : Nat)
    (hv : (whileHandler w e (g.stepped d) (.loop k)).flow.counter v = 0) :
    (whileHandler w e (g.stepped d) (.loop k)).flow.step v = 0 := by
  by_cases hvk : v = k
  · subst hvk
    rcases whileHandler_cases w e (g.stepped d) v with ⟨-, heq⟩ | ⟨-, heq⟩
    · rw [heq] at hv ⊢
      rw [(resetCycle_eq _ v).1] at hv
      rcases (resetCycle_eq (g.stepped d) v).2 v with hs | hs
      · rw [hs]
        exact h.fresh v hv
      · exact hs
    · rw [heq, (runCycle_eq w e _ v).1, update_self] at hv
      omega
  · obtain ⟨hstep, hcounter⟩ := whileHandler_others w e (g.stepped d) hvk
    rw [hcounter] at hv
    rw [hstep]
    exact h.fresh v hv

end

/-- The iteration that dispatches a `while`, given where its handler leaves the cursor. -/
theorem Sim.while (hw : w.Steady) (h : Sim P n j s g ref) (hholds : P.Holds n j app (.loop k))
    (happ : app.structured = true) (hname : app.name = "while")
    (hhd : whileHandler w ref.env (g.stepped n) (.loop k) = hd) (n' j' : Nat)
    (hcur : hd.flow.currentNode = some n') (hpos : hd.flow.position n' = j')
    (hold : ∀ m, m < n → hd.flow.position m = g.position m) (l : Nat) :
    ∃ s₁ g₁, Loop.Leads (routeStep w) s s₁ ∧
      Sim P n' j' s₁ g₁ (if (ref.spent k : Int) < (P.whiles k).maxSteps
        then (ref.spend k).dispatch w app else ref.dispatch w app) ∧
      Kept n k (1 + l) g g₁ ∧ g₁.position = hd.flow.position ∧ g₁.step k = hd.flow.step k ∧
      g₁.counter k = hd.flow.counter k := by
  subst hhd
  have hcancel : (whileHandler w ref.env (g.stepped n) (.loop k)).flow.cancel = false := by
    rw [whileHandler_frame]
    exact h.cancel
  obtain ⟨s₁, g₁, hleads, hsim, hp, hs, hc⟩ := h.step hw hholds happ
    (request_while w ref.env _ hname k) n' j' _ hcur hpos hcancel
    (h.while_spent w ref.env n k) (fun v => h.while_fresh w ref.env n k v)
  refine ⟨s₁, g₁, hleads, ?_, ⟨fun m hm => by rw [hp, hold m hm], fun v hv => ?_, fun v hv => ?_⟩,
    hp, congrFun hs k, congrFun hc k⟩
  · split <;> simp_all [Ref.dispatch, Ref.spend]
  · rw [hs]
    exact (whileHandler_others w ref.env (g.stepped n) (by omega)).1
  · rw [hc]
    exact (whileHandler_others w ref.env (g.stepped n) (by omega)).2

theorem resetCycle_cursor (f : Flow) (k : Nat) :
    (resetCycle f k).prog = f.prog ∧ (resetCycle f k).currentNode = f.currentNode ∧
      (resetCycle f k).position = f.position := by
  rcases resetCycle_cases f k with h | h <;> rw [h] <;> exact ⟨rfl, rfl, rfl⟩

/-- A `while` that leaves the cursor behind itself. -/
theorem Sim.while_stay (hw : w.Steady) (h : Sim P n j s g ref) (hholds : P.Holds n j app (.loop k))
    (happ : app.structured = true) (hname : app.name = "while")
    (hhd : whileHandler w ref.env (g.stepped n) (.loop k) = hd)
    (hcur : hd.flow.currentNode = (g.stepped n).currentNode)
    (hpos : hd.flow.position = (g.stepped n).position) (l : Nat) :
    ∃ s₁ g₁, Loop.Leads (routeStep w) s s₁ ∧
      Sim P n (j + 1) s₁ g₁ (if (ref.spent k : Int) < (P.whiles k).maxSteps
        then (ref.spend k).dispatch w app else ref.dispatch w app) ∧ Kept n k (1 + l) g g₁ := by
  obtain ⟨s₁, g₁, hleads, hsim, hkept, -⟩ := h.while hw hholds happ hname hhd n (j + 1)
    (by rw [hcur]; exact h.current)
    (by rw [hpos, stepped_position_self, h.position]; rfl)
    (fun m hm => by rw [hpos]; exact stepped_position_of_ne g (Nat.ne_of_lt hm)) l
  exact ⟨s₁, g₁, hleads, hsim, hkept⟩

/-- The `while` at the end of its block, at the cursor. -/
structure AtEnd (P : Program) (d n width k : Nat) (app : Application) (condition : String)
    (maxSteps : Int) : Prop where
  child : P.IsChild d n (width + 1)
  holds : P.Holds d width app (.loop k)
  whiles : ∃ p : ReqPtr, p.node = n ∧ P.whiles k = ⟨condition, d, maxSteps, p.prev⟩
  nonempty : width ≠ 0

/-- The copy at the end of the block is never taken for a fresh arrival. -/
theorem AtEnd.no_reset (ha : AtEnd P d n width k app condition maxSteps) (hprog : g.prog = P)
    (hpos : g.position d = width) : resetCycle (g.stepped d) k = g.stepped d := by
  obtain ⟨p, hp, hwhile⟩ := ha.whiles
  have hne := ha.nonempty
  have hlt := ha.child.lt
  unfold resetCycle
  rw [if_neg]
  rintro ⟨-, hprev⟩
  have hprev' : ReqPtr.prev ⟨d, width⟩ = p.prev := by
    have h₁ : (g.stepped d).prevRequest = ReqPtr.prev ⟨d, width⟩ := by
      show before d (g.position d) = _
      rw [hpos]
      rfl
    have h₂ : ((g.stepped d).prog.whiles k).originalParent = p.prev := by
      show (g.prog.whiles k).originalParent = _
      rw [hprog, hwhile]
    rw [← h₁, ← h₂, hprev]
  unfold ReqPtr.prev at hprev'
  rw [if_neg (show (⟨d, width⟩ : ReqPtr).index ≠ 0 from hne)] at hprev'
  split at hprev'
  · cases hprev'
  · have hnode := congrArg ReqPtr.node (Option.some.inj hprev')
    simp only at hnode
    omega

theorem Kept.comp (h₁ : Kept n k l g₁ g₂) (h₂ : Kept n k l g₂ g₃) : Kept n k l g₁ g₃ :=
  ⟨fun m hm => (h₂.position m hm).trans (h₁.position m hm),
    fun v hv => (h₂.step v hv).trans (h₁.step v hv),
    fun v hv => (h₂.counter v hv).trans (h₁.counter v hv)⟩

theorem Kept.refl (n k l : Nat) (g : Flow) : Kept n k l g g :=
  ⟨fun _ _ => rfl, fun _ _ => rfl, fun _ _ => rfl⟩

theorem Kept.of_le (h : Kept n k l g g') (hm : m ≤ n) : Kept m k l g g' :=
  ⟨fun i hi => h.position i (lt_of_lt_of_le hi hm), h.step, h.counter⟩

theorem Kept.leave (h : Kept n k l g g') : Kept n k l g (g'.leave n p) :=
  ⟨fun m hm => (update_of_ne (Nat.ne_of_lt hm) _ _).trans (h.position m hm), h.step,
    h.counter⟩

/-- One cycle: the handler enters the block, and the block runs to its end. -/
theorem Sim.cycle (hw : w.Steady) (h : Sim P m j s g ref) (hholds : P.Holds m j app (.loop k))
    (happ : app.structured = true) (hname : app.name = "while")
    (hbudget : (ref.spent k : Int) < (P.whiles k).maxSteps)
    (hwhile : P.whiles k = ⟨condition, d, maxSteps, q⟩) (hchild : P.IsChild d n (width + 1))
    (hwidth : width ≠ 0) (hm : m ≤ d)
    (hgo : (resetCycle (g.stepped m) k).step k = 0 ∨ w.check ref.env condition = true)
    (hbody : Runs w P body d 0 width (k + 1) l) :
    ∃ s' g', Loop.Leads (routeStep w) s s' ∧
      Sim P d width s' g' (body ((ref.spend k).dispatch w app)) ∧ Kept m k (1 + l) g g' ∧
      g'.step k ≠ 0 ∧ g'.counter k = g.counter k + 1 ∧
      (m < d → g'.position m = (j + 1 : Nat)) := by
  obtain ⟨hprog, -, hpos⟩ := resetCycle_cursor (g.stepped m) k
  rw [show (g.stepped m).prog = P from h.prog] at hprog
  have hflow := runCycle_enter w ref.env (resetCycle (g.stepped m) k) (k := k)
    (by rw [hprog, hwhile]; exact hgo) (by rw [hprog, hwhile, hchild.length]; omega)
  rw [hprog, hwhile] at hflow
  have hold : ∀ i, i ≠ d → (runCycle w ref.env (resetCycle (g.stepped m) k) k).flow.position i
      = (g.stepped m).position i := by
    intro i hi
    rw [hflow]
    exact (update_of_ne hi _ _).trans (congrFun hpos i)
  obtain ⟨s₁, g₁, hleads₁, hsim₁, hkept₁, hpos₁, hstep₁, hcounter₁⟩ :=
    h.while hw hholds happ hname (h.while_cycle w ref.env m hbudget) d 0 (by rw [hflow]; rfl)
      (by rw [hflow]; exact update_self _ _ _)
      (fun i hi => (hold i (by omega)).trans (stepped_position_of_ne g (Nat.ne_of_lt hi))) l
  rw [if_pos hbudget] at hsim₁
  obtain ⟨s₂, g₂, hleads₂, hsim₂, hkept₂⟩ := hbody s₁ g₁ _ hsim₁
  rw [Nat.zero_add] at hsim₂
  refine ⟨s₂, g₂, hleads₁.trans hleads₂, hsim₂,
    hkept₁.comp ((hkept₂.mono (Nat.le_succ k) (by omega)).of_le hm), ?_, ?_, fun hlt => ?_⟩
  · rw [hkept₂.step k (Or.inl (Nat.lt_succ_self k)), hstep₁, hflow]
    show update (resetCycle (g.stepped m) k).step k _ k ≠ 0
    rw [update_self]
    omega
  · rw [hkept₂.counter k (Or.inl (Nat.lt_succ_self k)), hcounter₁, (runCycle_eq w ref.env _ k).1,
      update_self, (resetCycle_eq _ k).1]
    rfl
  · rw [hkept₂.position m hlt, hpos₁, hold m (Nat.ne_of_lt hlt), stepped_position_self, h.position]
    rfl

/-- From the end of the block on: the induction is on the units the loop has left. -/
theorem AtEnd.runs (hw : w.Steady) (ha : AtEnd P d n width k app condition maxSteps)
    (happ : app.structured = true) (hname : app.name = "while")
    (hbody : Runs w P body d 0 width (k + 1) l) :
    ∀ (b : Nat) (s : RouteState E) (g : Flow) (ref : Ref E), Sim P d width s g ref →
      g.step k ≠ 0 → (maxSteps - (g.counter k : Int)).toNat = b →
      ∃ s' g', Loop.Leads (routeStep w) s s' ∧
        Sim P d (width + 1) s' g' (again w app condition k body b ref) ∧ Kept d k (1 + l) g g' := by
  obtain ⟨p, -, hwhile⟩ := ha.whiles
  have hmax : (P.whiles k).maxSteps = maxSteps := by rw [hwhile]
  intro b
  induction b with
  | zero =>
    -- the budget is used up: the handler does nothing, and the run goes on behind the loop
    intro s g ref h hstep hb
    rw [h.spent] at hb
    rcases h.while_cases w ref.env d k with ⟨hle, heq⟩ | ⟨hlt, -⟩
    · obtain ⟨-, hcur, hpos⟩ := resetCycle_cursor (g.stepped d) k
      have hstay := h.while_stay hw ha.holds happ hname heq hcur hpos l
      rwa [if_neg (not_lt.mpr hle)] at hstay
    · omega
  | succ b ih =>
    intro s g ref h hstep hb
    have hspent := h.spent k
    have hbudget : (ref.spent k : Int) < (P.whiles k).maxSteps := by omega
    unfold again
    by_cases hcheck : w.check ref.env condition = true
    · -- another cycle, and from the end of the block on by induction
      rw [if_pos hcheck]
      obtain ⟨s₂, g₂, hleads₂, hsim₂, hkept₂, hstep₂, hcounter₂, -⟩ :=
        h.cycle hw ha.holds happ hname hbudget hwhile ha.child ha.nonempty (le_refl d)
          (Or.inr hcheck) hbody
      obtain ⟨s₃, g₃, hleads₃, hsim₃, hkept₃⟩ :=
        ih s₂ g₂ _ hsim₂ hstep₂ (by rw [hcounter₂]; omega)
      exact ⟨s₃, g₃, hleads₂.trans hleads₃, hsim₃, hkept₂.comp hkept₃⟩
    · -- the last visit spends a unit all the same
      rw [if_neg hcheck]
      have hcycle := h.while_cycle w ref.env d hbudget
      rw [ha.no_reset h.prog h.position] at hcycle
      have hflow := runCycle_end w ref.env (g.stepped d) (k := k) (Or.inl ⟨hstep, by
        rw [show (g.stepped d).prog = P from h.prog, hwhile]
        simpa using hcheck⟩)
      have hstay := h.while_stay hw ha.holds happ hname hcycle (by rw [hflow]; rfl)
        (by rw [hflow]; rfl) l
      rwa [if_pos hbudget] at hstay

/-- On entry a loop is at its first step. -/
theorem Sim.entry_step (h : Sim P n j s g ref)
    (hwhile : P.whiles k = ⟨condition, d, maxSteps, ReqPtr.prev ⟨n, j⟩⟩) :
    (resetCycle (g.stepped n) k).step k = 0 := by
  refine step_entry (h.fresh k) ?_
  show before n (g.position n) = (g.prog.whiles k).originalParent
  rw [h.position, h.prog, hwhile]
  rfl

/-- A `while` with its block. -/
theorem runs_loop (hw : w.Steady) (hat : (Item.loop app condition maxSteps body).At P n j k)
    (happ : app.structured = true) (hname : app.name = "while")
    (hbody : ∀ d, body.At P d 0 (k + 1) →
      Runs w P (body.interp w (k + 1)) d 0 body.width (k + 1) body.loops) :
    Runs w P ((Item.loop app condition maxSteps body).interp w k) n j 1 k (1 + body.loops) := by
  intro s g ref h
  obtain ⟨d, hholds, hwhile, hchild, hb, hend⟩ := hat
  obtain ⟨hprog, hcur, hpos⟩ := resetCycle_cursor (g.stepped n) k
  rw [show (g.stepped n).prog = P from h.prog] at hprog
  have hmax : (P.whiles k).maxSteps = maxSteps := by rw [hwhile]
  have hspent := h.spent k
  unfold Item.interp
  -- on the budget that is left: none, or one unit for this visit and `b` more at the block's end
  cases hb' : (maxSteps - (ref.spent k : Int)).toNat with
  | zero =>
    rcases h.while_cases w ref.env n k with ⟨hle, heq⟩ | ⟨hlt, -⟩
    · have hstay := h.while_stay hw hholds happ hname heq hcur hpos body.loops
      rwa [if_neg (not_lt.mpr hle)] at hstay
    · omega
  | succ b =>
    have hbudget : (ref.spent k : Int) < (P.whiles k).maxSteps := by omega
    dsimp only
    by_cases hwidth : body.width = 0
    · -- the block holds nothing but the copy of the loop
      rw [if_pos hwidth]
      have hflow := runCycle_end w ref.env (resetCycle (g.stepped n) k) (k := k)
        (Or.inr (by rw [hprog, hwhile, hchild.length, hwidth]))
      have hstay := h.while_stay hw hholds happ hname (h.while_cycle w ref.env n hbudget)
        (by rw [hflow]; exact hcur) (by rw [hflow]; exact hpos) body.loops
      rwa [if_pos hbudget] at hstay
    · rw [if_neg hwidth]
      obtain ⟨s₂, g₂, hleads₂, hsim₂, hkept₂, hstep₂, hcounter₂, hpos₂⟩ :=
        h.cycle hw hholds happ hname hbudget hwhile hchild hwidth (Nat.le_of_lt hchild.lt)
          (Or.inl (h.entry_step hwhile)) (hbody d hb)
      -- at the end of the block the copy of the loop takes over
      have hend' : AtEnd P d n body.width k app condition maxSteps :=
        ⟨hchild, hend, ⟨⟨n, j⟩, rfl, hwhile⟩, hwidth⟩
      obtain ⟨s₃, g₃, hleads₃, hsim₃, hkept₃⟩ := hend'.runs hw happ hname (hbody d hb) b s₂ g₂ _
        hsim₂ hstep₂ (by rw [hcounter₂]; omega)
      -- the enclosing block has waited at the request behind the loop
      have hn := (hkept₃.position n hchild.lt).trans (hpos₂ hchild.lt)
      exact ⟨s₃, g₃.leave d n, hleads₂.trans hleads₃, hsim₃.up hchild hn,
        hkept₂.comp (hkept₃.leave.of_le (Nat.le_of_lt hchild.lt))⟩

/-- A `while` without arguments dispatches itself only. -/
theorem runs_bareLoop (hw : w.Steady) (hat : (Item.bareLoop app).At P n j k)
    (happ : app.structured = true) (hname : app.name = "while") :
    Runs w P ((Item.bareLoop app).interp w k) n j 1 k 1 := by
  intro s g ref h
  obtain ⟨d, hholds, hwhile, hchild⟩ := hat
  have hif : (Item.bareLoop app).interp w k ref
      = if (ref.spent k : Int) < (P.whiles k).maxSteps then (ref.spend k).dispatch w app
        else ref.dispatch w app := by
    rw [hwhile]
    show (if ref.spent k < 1000 then _ else _)
      = if (ref.spent k : Int) < 1000 then (ref.spend k).dispatch w app else ref.dispatch w app
    simp only [Nat.cast_lt_ofNat]
  rw [hif]
  obtain ⟨hprog, ⟨hcur, hpos, -⟩ | ⟨hcur, hpos, -⟩⟩ :=
    whileHandler_cursor w ref.env (g.stepped n) k
  · exact h.while_stay hw hholds happ hname rfl hcur hpos 0
  · -- the empty block is entered, and left again at once
    have hdo : ((g.stepped n).prog.whiles k).do_ = d := by
      rw [show (g.stepped n).prog = P from h.prog, hwhile]
      rfl
    rw [hdo] at hcur hpos
    have hlt := hchild.lt
    obtain ⟨s₁, g₁, hleads, hsim, hkept, hpos₁, -⟩ := h.while hw hholds happ hname rfl d 0 hcur
      (by rw [hpos]; exact update_self _ _ _)
      (fun m hm => by
        rw [hpos, update_of_ne (by omega)]
        exact stepped_position_of_ne g (Nat.ne_of_lt hm)) 0
    have hn : g₁.position n = (j + 1 : Nat) := by
      rw [hpos₁, hpos, update_of_ne (Nat.ne_of_lt hlt), stepped_position_self, h.position]
      rfl
    exact ⟨s₁, g₁.leave d n, hleads, hsim.up hchild hn,
      hkept.comp ((Kept.refl d k 1 g₁).leave.of_le (Nat.le_of_lt hlt))⟩

/-! ### Branches -/

/-- An `if`. -/
theorem runs_cond (hw : w.Steady) (hat : (Item.cond app expression then_ else_).At P n j k)
    (happ : app.structured = true) (hname : app.name = "if")
    (hthen : ∀ c, then_.At P c 0 k → Runs w P (then_.interp w k) c 0 then_.width k then_.loops)
    (helse : ∀ c, else_.At P c 0 (k + then_.loops) → Runs w P (else_.interp w (k + then_.loops)) c 0
      else_.width (k + then_.loops) else_.loops) :
    Runs w P ((Item.cond app expression then_ else_).interp w k) n j 1 k
      (then_.loops + else_.loops) := by
  intro s g ref h
  obtain ⟨t, e, hholds, htc, hta, hec, hea⟩ := hat
  have hrequest : request w ref.env (g.stepped n) ⟨app, .condition expression t e, none⟩
      = .ok (conditionHandler w ref.env (g.stepped n) (.condition expression t e)) := by
    unfold request
    rw [hname]
    rfl
  dsimp only [conditionHandler] at hrequest
  unfold Item.interp
  cases hcond : w.condition ref.env expression with
  | none =>
    rw [hcond] at hrequest
    exact h.quiet hw hholds happ hrequest
  | some b =>
    rw [hcond] at hrequest
    cases b with
    | true =>
      obtain ⟨s', g', hleads, hsim, hkept⟩ := h.block hw hholds happ htc hrequest (hthen t hta)
      exact ⟨s', g', hleads, hsim, hkept.mono (le_refl k) (by omega)⟩
    | false =>
      obtain ⟨s', g', hleads, hsim, hkept⟩ := h.block hw hholds happ hec hrequest (helse e hea)
      exact ⟨s', g', hleads, hsim, hkept.mono (by omega) (by omega)⟩

/-- Looking up a case: there is none and nothing runs, or its block runs. -/
def Found (w : World E) (P : Program) (cases : Cases) (n k : Nat) (entries : List (String × Nat))
    (text : String) : Prop :=
  (cases.has text = false ∧ lookupCase entries text = none ∧
      ∀ ref : Ref E, cases.interp w text k ref = ref) ∨
    ∃ c width k' l', cases.has text = true ∧ lookupCase entries text = some c ∧
      P.IsChild c n width ∧ Runs w P (cases.interp w text k) c 0 width k' l' ∧ k ≤ k' ∧
      k' + l' ≤ k + cases.loops

theorem lookupCase_cons (name : String) (c : Nat) (entries : List (String × Nat)) (text : String) :
    lookupCase ((name, c) :: entries) text
      = if name = text then some c else lookupCase entries text := by
  unfold lookupCase
  rw [List.find?_cons]
  by_cases h : name = text
  · rw [if_pos h, h, beq_self_eq_true]
    rfl
  · rw [if_neg h, beq_eq_false_iff_ne.mpr h]

/-- A `switch`. -/
theorem runs_switch (hw : w.Steady) (hholds : P.Holds n j app (.switch text entries))
    (happ : app.structured = true) (hname : app.name = "switch")
    (hfound : ∀ name, Found w P cases n k entries name) :
    Runs w P ((Item.switch app text cases).interp w k) n j 1 k cases.loops := by
  intro s g ref h
  have hrequest : request w ref.env (g.stepped n) ⟨app, .switch text entries, none⟩
      = .ok (switchHandler w ref.env (g.stepped n) (.switch text entries)) := by
    unfold request
    rw [hname]
    rfl
  dsimp only [switchHandler] at hrequest
  unfold Item.interp
  have hblock : ∀ {c width k' l' : Nat} {name : String}, P.IsChild c n width →
      Runs w P (cases.interp w name k) c 0 width k' l' → k ≤ k' → k' + l' ≤ k + cases.loops →
      request w ref.env (g.stepped n) ⟨app, .switch text entries, none⟩
        = .ok (Handled.enter (g.stepped n) c) →
      ∃ s' g', Loop.Leads (routeStep w) s s' ∧
        Sim P n (j + 1) s' g' (cases.interp w name k (ref.dispatch w app)) ∧
        Kept n k cases.loops g g' := by
    intro c width k' l' name hchild hruns hk hl hreq
    obtain ⟨s', g', hleads, hsim, hkept⟩ := h.block hw hholds happ hchild hreq hruns
    exact ⟨s', g', hleads, hsim, hkept.mono hk hl⟩
  rcases hfound (w.parseText ref.env text) with
    ⟨hhas, hlookup, -⟩ | ⟨c, width, k', l', hhas, hlookup, hchild, hruns, hk, hl⟩
  · rw [hhas, if_neg Bool.false_ne_true]
    rw [hlookup] at hrequest
    rcases hfound "default" with
      ⟨-, hdefault, hnothing⟩ | ⟨c, width, k', l', -, hdefault, hchild, hruns, hk, hl⟩
    · rw [hdefault] at hrequest
      rw [hnothing]
      exact h.quiet hw hholds happ hrequest
    · rw [hdefault] at hrequest
      exact hblock hchild hruns hk hl hrequest
  · rw [hhas, if_pos rfl]
    rw [hlookup] at hrequest
    exact hblock hchild hruns hk hl hrequest

/-! ### The induction over the tree -/

mutual

/-- Running a block is interpreting it. -/
theorem runs_block (hw : w.Steady) : ∀ (b : Block) (n j k : Nat), b.At P n j k →
    b.structured = true → b.Named → Runs w P (b.interp w k) n j b.width k b.loops
  | .nil, _, _, _, _, _, _ => runs_nothing
  | .cons item rest, n, j, k, hat, hs, hnamed => by
    simp only [Block.structured, Bool.and_eq_true] at hs
    exact (runs_item hw item n j k hat.1 hs.1 hnamed.1).seq
      (runs_block hw rest n (j + item.width) (k + item.loops) hat.2 hs.2 hnamed.2)

theorem runs_item (hw : w.Steady) : ∀ (item : Item) (n j k : Nat), item.At P n j k →
    item.structured = true → item.Named → Runs w P (item.interp w k) n j item.width k item.loops
  | .plain app, _, _, _, hat, hs, hnamed => runs_plain hw hat hs hnamed
  | .brk _, _, _, _, _, hs, _ => by cases hs
  | .cond app ex t e, _, _, k, hat, hs, hnamed => by
    simp only [Item.structured, Bool.and_eq_true] at hs
    exact runs_cond hw hat hs.1.1 hnamed.1
      (fun c hc => runs_block hw t c 0 k hc hs.1.2 hnamed.2.1)
      (fun c hc => runs_block hw e c 0 (k + t.loops) hc hs.2 hnamed.2.2)
  | .loop app c m body, _, _, k, hat, hs, hnamed => by
    simp only [Item.structured, Bool.and_eq_true] at hs
    exact runs_loop hw hat hs.1 hnamed.1
      (fun d hd => runs_block hw body d 0 (k + 1) hd hs.2 hnamed.2)
  | .bareLoop app, _, _, _, hat, hs, hnamed => runs_bareLoop hw hat hs hnamed
  | .switch app text cases, n, _, k, hat, hs, hnamed => by
    simp only [Item.structured, Bool.and_eq_true] at hs
    obtain ⟨entries, hholds, hcases⟩ := hat
    exact runs_switch hw hholds hs.1 hnamed.1
      (fun name => found_cases hw cases n k entries name hcases hs.2 hnamed.2)
  | .function _, _, _, _, _, _, _ => runs_nothing
  | .trigger _, _, _, _, _, _, _ => runs_nothing
  | .dropped _, _, _, _, _, _, _ => runs_nothing

theorem found_cases (hw : w.Steady) : ∀ (cases : Cases) (n k : Nat)
    (entries : List (String × Nat)) (text : String), cases.At P n k entries →
    cases.structured = true → cases.Named → Found w P cases n k entries text
  | .nil, _, _, _, _, hat, _, _ => by
    rw [show _ = [] from hat]
    exact Or.inl ⟨rfl, rfl, fun _ => rfl⟩
  | .cons name block rest, n, k, _, text, hat, hs, hnamed => by
    simp only [Cases.structured, Bool.and_eq_true] at hs
    obtain ⟨c, entries, rfl, hchild, hblock, hrest⟩ := hat
    unfold Found
    rw [lookupCase_cons]
    by_cases hname : name = text
    · refine Or.inr ⟨c, block.width, k, block.loops, ?_, if_pos hname, hchild, ?_, le_refl k, ?_⟩
      · simp only [Cases.has, hname, beq_self_eq_true, Bool.true_or]
      · have hinterp : (Cases.cons name block rest).interp w text k = block.interp w k := by
          funext ref
          rw [Cases.interp, if_pos hname]
        rw [hinterp]
        exact runs_block hw block c 0 k hblock hs.1 hnamed.1
      · rw [Cases.loops]
        omega
    · have hinterp : (Cases.cons name block rest).interp w text k
          = rest.interp w text (k + block.loops) := by
        funext ref
        rw [Cases.interp, if_neg hname]
      have hhas : (Cases.cons name block rest).has text = rest.has text := by
        simp only [Cases.has, beq_eq_false_iff_ne.mpr hname, Bool.false_or]
      rw [if_neg hname, hinterp, hhas]
      rcases found_cases hw rest n (k + block.loops) entries text hrest hs.2 hnamed.2 with
        hnone | ⟨c', width, k', l', hhas', hlookup, hchild', hruns, hk, hl⟩
      · exact Or.inl hnone
      · refine Or.inr ⟨c', width, k', l', hhas', hlookup, hchild', hruns, by omega, ?_⟩
        rw [Cases.loops]
        omega

end

end Sim

/-! ## `Route` -/

/-- For every schema without jumps, limits and breaks, and in every world that does not
cancel, `Route` returns and has dispatched exactly what the interpreter dispatches. -/
theorem route_refines_interp {E : Type} (w : World E) (hw : w.Steady) (e : E)
    (schema : Applications) (hschema : (decode schema).structured = true) :
    ∃ m s, routeN w m (routeStart (Flow.new schema) e) = .ok s ∧ s.returned = true ∧
      s.trace.map (·.app) = (interpret w e schema).trace ∧ s.env = (interpret w e schema).env := by
  obtain ⟨hat, hlen⟩ := Program.at_parse [] [] schema
  have hstart : Sim (Flow.new schema).prog 0 0 (routeStart (Flow.new schema) e)
      ((Flow.new schema).setInterrupted none)
      { env := e, spent := fun _ => 0, trace := [] } :=
    ⟨Settles.refl _, (safe_parsed [] [] schema).congr rfl rfl rfl, rfl, rfl, rfl, rfl, rfl, rfl,
      rfl, fun _ => rfl, fun _ _ => rfl⟩
  obtain ⟨s, g, hleads, hsim, -⟩ := runs_block hw (decode schema) 0 0 0 hat hschema
    (named_decode schema) _ _ _ hstart
  rw [Nat.zero_add] at hsim
  -- the root block is at its end
  have hnext := hsim.settles.next (NextSpec.finish hsim.current
    (by rw [hsim.position, hsim.prog]; exact congrArg Nat.cast hlen.symm)
    (by rw [hsim.prog]; exact (Program.wellFormed_parse [] [] schema).root_parent))
  obtain ⟨m, hm⟩ := hleads.trans
    ((Loop.Leads.refl _).head (routeStep_finished w hsim.safe hsim.running hnext))
  exact ⟨m, _, hm, rfl, hsim.trace, hsim.env⟩

/-- A switch in a loop, a loop in an `if`, and a declaration. -/
def nestedSchema : Applications :=
  [[("function", .obj [("name", .str "f"), ("actions", .arr [])])],
    [("while", .obj [("condition", .str "c"), ("maxSteps", .str "2"), ("do", .arr
      [.obj [("switch", .obj [("variable", .str "b"), ("case", .obj
        [("a", .arr [.obj [("one", .null)]]), ("default", .arr [.obj [("two", .null)]])])])]])])],
    [("if", .obj [("expression", .str "x"), ("then", .arr [.obj [("while", .null)]])])],
    [("last", .null)]]

/-- It dispatches the loop, the switch with its default case twice, and what follows. -/
theorem route_refines_interp_nested :
    (decode nestedSchema).structured = true ∧
      (interpret steadyWorld () nestedSchema).trace.map (·.name)
        = ["while", "switch", "two", "while", "switch", "two", "while", "if", "while", "last"] ∧
      ∃ m s, routeN steadyWorld m (routeStart (Flow.new nestedSchema) ()) = .ok s ∧
        s.returned = true ∧
        s.trace.map (·.app) = (interpret steadyWorld () nestedSchema).trace := by
  have hschema : (decode nestedSchema).structured = true := by decide +kernel
  refine ⟨hschema, by decide +kernel, ?_⟩
  obtain ⟨m, s, hm, hret, htrace, -⟩ := route_refines_interp steadyWorld
    ⟨fun _ _ => rfl, fun _ _ => rfl⟩ () nestedSchema hschema
  exact ⟨m, s, hm, hret, htrace⟩

end FlowManager
