import FlowManager.Flow.Layout
import FlowManager.Flow.Safety

/-!
# The contract of a `while`

A `while` decides from `prevRequest`, `step` and `counter` whether an arrival starts a
new cycle, and `Goto` can leave `step` in any phase. Over every run nevertheless:

- its `do` block is started at most `maxSteps` times (`starts_le`), because every start
  is paid for with one unit of `counter` (`LoopInv`);
- an arrival from the enclosing block finds the previous request equal to
  `originalParent`, so it enters the block without a look at the condition
  (`request_entry`).

`do_while_contract` puts the two together.
-/

namespace FlowManager

open Flow Function

/-- The loop of the `while` at `p`. -/
def Program.loopAt (i : Program) (p : ReqPtr) : Option Nat :=
  match i.request p with
  | some ⟨_, .loop wid, _⟩ => some wid
  | _ => none

/-- How often the handler of loop `wid` started its `do` block. -/
def starts (i : Program) (wid : Nat) (log : List Dispatch) : Nat :=
  log.countP fun d => decide (i.loopAt d.ptr = some wid ∧ d.entered = some (i.whiles wid).do_)

theorem starts_append (i : Program) (wid : Nat) (log : List Dispatch) (d : Dispatch) :
    starts i wid (log ++ [d]) = starts i wid log +
      if i.loopAt d.ptr = some wid ∧ d.entered = some (i.whiles wid).do_ then 1 else 0 := by
  unfold starts
  rw [List.countP_append, List.countP_singleton]
  simp only [decide_eq_true_eq]

theorem loopAt_eq_some {i : Program}
    (hr : i.request p = some r) : i.loopAt p = some wid ↔ r.args = .loop wid := by
  obtain ⟨app, args, limiter⟩ := r
  unfold Program.loopAt
  rw [hr]
  cases args <;> simp

/-- The accounting of the loops of program `P`: what `log` shows as started has been
counted, and the count is within the budget. -/
structure LoopInv (P : Program) (log : List Dispatch) (f : Flow) : Prop where
  same : P.SameHeap f.prog
  fresh : ∀ wid, f.counter wid = 0 → f.step wid = 0
  bound : ∀ wid, (f.counter wid : Int) ≤ max 0 (P.whiles wid).maxSteps
  paid : ∀ wid, starts P wid log ≤ f.counter wid

variable {E : Type} {w : World E} {e : E} {P : Program} {log : List Dispatch} {f f' : Flow}

theorem LoopInv.congr (h : LoopInv P log f) (hprog : f.prog.SameHeap f'.prog)
    (hstep : f'.step = f.step) (hcounter : f'.counter = f.counter) : LoopInv P log f' where
  same := h.same.trans hprog
  fresh := by rw [hstep, hcounter]; exact h.fresh
  bound := by rw [hcounter]; exact h.bound
  paid := by rw [hcounter]; exact h.paid

/-- A request that starts no `do` block is free. -/
theorem LoopInv.append (h : LoopInv P log f)
    (hd : ∀ wid, P.loopAt d.ptr = some wid → d.entered = none) : LoopInv P (log ++ [d]) f := by
  refine ⟨h.same, h.fresh, h.bound, fun wid => ?_⟩
  rw [starts_append, if_neg]
  · exact h.paid wid
  · rintro ⟨hloop, hentered⟩
    rw [hd wid hloop] at hentered
    cases hentered

/-! ## A cycle -/

/-- `resetCycle` touches only the step of its loop, and only to clear it. -/
theorem resetCycle_eq (f : Flow) (wid : Nat) :
    (resetCycle f wid).counter = f.counter ∧
      ∀ v, (resetCycle f wid).step v = f.step v ∨ (resetCycle f wid).step v = 0 := by
  unfold resetCycle
  split
  · refine ⟨rfl, fun v => ?_⟩
    by_cases hv : v = wid
    · exact Or.inr (by rw [hv]; exact update_self _ _ _)
    · exact Or.inl (update_of_ne hv _ _)
  · exact ⟨rfl, fun v => Or.inl rfl⟩

/-- A cycle counts itself and changes no other loop. -/
theorem runCycle_eq (w : World E) (e : E) (f : Flow) (wid : Nat) :
    (runCycle w e f wid).flow.counter = update f.counter wid (f.counter wid + 1) ∧
      ∀ v, v ≠ wid → (runCycle w e f wid).flow.step v = f.step v := by
  dsimp only [runCycle, nextStep]
  split
  · split
    · exact ⟨rfl, fun v hv => update_of_ne hv _ _⟩
    · exact ⟨rfl, fun v hv => update_of_ne hv _ _⟩
  · exact ⟨rfl, fun v hv => update_of_ne hv _ _⟩

/-- An arrival without budget leaves the counters alone; any other is a cycle. -/
theorem whileHandler_cases (w : World E) (e : E) (f : Flow) (wid : Nat) :
    ((f.prog.whiles wid).maxSteps ≤ f.counter wid ∧
        whileHandler w e f (.loop wid) = { flow := resetCycle f wid }) ∨
      ((f.counter wid : Int) < (f.prog.whiles wid).maxSteps ∧
        whileHandler w e f (.loop wid) = runCycle w e (resetCycle f wid) wid) := by
  dsimp only [whileHandler]
  rw [resetCycle_prog, (resetCycle_eq f wid).1]
  by_cases hlt : (f.counter wid : Int) < (f.prog.whiles wid).maxSteps
  · exact Or.inr ⟨hlt, if_pos hlt⟩
  · exact Or.inl ⟨not_lt.mp hlt, if_neg hlt⟩

theorem resetCycle_cases (f : Flow) (k : Nat) :
    resetCycle f k = f ∨ resetCycle f k = endCycle f k := by
  unfold resetCycle
  split
  · exact Or.inr rfl
  · exact Or.inl rfl

/-- A cycle that enters the block. -/
theorem runCycle_enter (w : World E) (e : E) (f : Flow)
    (hgo : f.step k = 0 ∨ w.check e (f.prog.whiles k).condition = true)
    (hlen : f.prog.getLength (f.prog.whiles k).do_ ≠ 1) :
    (runCycle w e f k).flow = addCounter (addStep (f.enter (f.prog.whiles k).do_) k) k := by
  dsimp only [runCycle, nextStep]
  rw [if_pos hgo, if_neg hlen]

/-- A cycle that ends the loop: the condition fails, or there is nothing to run. -/
theorem runCycle_end (w : World E) (e : E) (f : Flow)
    (hstop : (f.step k ≠ 0 ∧ w.check e (f.prog.whiles k).condition = false) ∨
      f.prog.getLength (f.prog.whiles k).do_ = 1) :
    (runCycle w e f k).flow = addCounter (endCycle f k) k := by
  dsimp only [runCycle, nextStep]
  split
  · rename_i hgo
    rcases hstop with ⟨hstep, hcheck⟩ | hlen
    · rcases hgo with hzero | htrue
      · exact absurd hzero hstep
      · rw [hcheck] at htrue
        cases htrue
    · rw [if_pos hlen]
  · rfl

/-- A `while` leaves other loops alone. -/
theorem whileHandler_others (w : World E) (e : E) (f : Flow) (hv : v ≠ k) :
    (whileHandler w e f (.loop k)).flow.step v = f.step v ∧
      (whileHandler w e f (.loop k)).flow.counter v = f.counter v := by
  have hreset : (resetCycle f k).step v = f.step v := by
    rcases resetCycle_cases f k with h | h
    · rw [h]
    · rw [h]
      exact update_of_ne hv _ _
  rcases whileHandler_cases w e f k with ⟨-, heq⟩ | ⟨-, heq⟩
  · rw [heq]
    exact ⟨hreset, congrFun (resetCycle_eq f k).1 v⟩
  · obtain ⟨hcounter, hstep⟩ := runCycle_eq w e (resetCycle f k) k
    rw [heq, hcounter, hstep v hv, update_of_ne hv, (resetCycle_eq f k).1]
    exact ⟨hreset, rfl⟩

theorem LoopInv.afterReset (h : LoopInv P log f) (wid : Nat) :
    LoopInv P log (resetCycle f wid) := by
  obtain ⟨hcounter, hstep⟩ := resetCycle_eq f wid
  refine ⟨?_, fun v hv => ?_, ?_, ?_⟩
  · rw [resetCycle_prog]
    exact h.same
  · rw [hcounter] at hv
    rcases hstep v with hs | hs
    · rw [hs]
      exact h.fresh v hv
    · exact hs
  · rw [hcounter]
    exact h.bound
  · rw [hcounter]
    exact h.paid

/-- A cycle pays for the block it may have started. -/
theorem LoopInv.afterCycle (h : LoopInv P log f)
    (hbudget : (f.counter wid : Int) < (P.whiles wid).maxSteps) (hd : P.loopAt d.ptr = some wid) :
    LoopInv P (log ++ [d]) (runCycle w e f wid).flow := by
  obtain ⟨hcounter, hstep⟩ := runCycle_eq w e f wid
  refine ⟨?_, fun v hv => ?_, fun v => ?_, fun v => ?_⟩
  · have hprog : (runCycle w e f wid).flow.prog = f.prog := by
      dsimp only [runCycle, nextStep]
      split
      · split <;> rfl
      · rfl
    rw [hprog]
    exact h.same
  · rw [hcounter] at hv
    by_cases hvw : v = wid
    · rw [hvw, update_self] at hv
      omega
    · rw [update_of_ne hvw] at hv
      rw [hstep v hvw]
      exact h.fresh v hv
  · rw [hcounter]
    by_cases hvw : v = wid
    · rw [hvw, update_self]
      push_cast
      omega
    · rw [update_of_ne hvw]
      exact h.bound v
  · have hpaid := h.paid v
    rw [hcounter, starts_append]
    by_cases hvw : v = wid
    · rw [hvw] at hpaid ⊢
      rw [update_self]
      split <;> omega
    · -- the request belongs to another loop
      rw [update_of_ne hvw, if_neg]
      · exact hpaid
      · rintro ⟨hv, -⟩
        rw [hd] at hv
        exact hvw (Option.some.inj hv).symm

theorem LoopInv.afterWhile (h : LoopInv P log f)
    (hp : P.loopAt p = some wid) :
    LoopInv P (log ++ [⟨p, app, (whileHandler w e f (.loop wid)).checked,
      (whileHandler w e f (.loop wid)).entered⟩]) (whileHandler w e f (.loop wid)).flow := by
  rcases whileHandler_cases w e f wid with ⟨-, heq⟩ | ⟨hbudget, heq⟩
  · rw [heq]
    exact (h.afterReset wid).append fun _ _ => rfl
  · rw [heq]
    refine (h.afterReset wid).afterCycle ?_ hp
    rw [(resetCycle_eq f wid).1, ← h.same.whiles]
    exact hbudget

/-! ## The accounting along a run -/

section

variable (h : LoopInv P log f)
include h

theorem LoopInv.next (hnext : NextSpec f r f') : LoopInv P log f' :=
  h.congr (by rw [hnext.same.prog]; exact Program.SameHeap.refl _) hnext.same.step
    hnext.same.counter

theorem LoopInv.goto
    (hgoto : GotoSpec f tag g) : LoopInv P log g.2 := by
  rw [hgoto.frame]
  exact h.congr (Program.SameHeap.refl _) rfl rfl

theorem LoopInv.count (r : ApplicationRequest) : LoopInv P log (countIteration f r) := by
  unfold countIteration
  split <;> exact h.congr (Program.SameHeap.refl _) rfl rfl

theorem LoopInv.top (ht : TopSpec f t) : LoopInv P log t.2 := by
  cases ht with
  | finished hnext | cancelled hnext => exact h.next hnext
  | failover hnext _ _ _ _ hspec => exact (h.next hnext).goto hspec
  | start hnext => exact (h.next hnext).count _

theorem LoopInv.handled
    (hreq : f.prog.request p = some r) (hh : Handles w e f r hd) :
    LoopInv P (log ++ [⟨p, r.app, hd.checked, hd.entered⟩]) hd.flow := by
  rw [Program.request_of_nodes h.same.nodes] at hreq
  cases hh with
  | quiet b =>
    refine LoopInv.append ?_ fun _ _ => rfl
    split
    · exact h.congr (Program.SameHeap.refl _) rfl rfl
    · exact h
  | @enter n _ hloop =>
    have h' : LoopInv P log (f.enter n) := h.congr (Program.SameHeap.refl _) rfl rfl
    exact h'.append fun wid hwid => absurd ((loopAt_eq_some hreq).mp hwid) (hloop wid)
  | loop _ hargs => exact h.afterWhile ((loopAt_eq_some hreq).mpr hargs)
  | goto _ _ hspec => exact (h.goto hspec).append fun _ _ => rfl

theorem LoopInv.routeResult (r : ApplicationRequest) : LoopInv P log (routeResult f r) := by
  rw [routeResult_frame]
  exact h.congr (Program.SameHeap.refl _) rfl rfl

end

theorem LoopInv.routeStep (h : LoopInv P s.trace s.flow) (hf : s.flow.Safe)
    (hstep : routeStep w s = .ok s') : LoopInv P s'.trace s'.flow := by
  by_cases hret : s.returned = true
  · rw [routeStep_returned w hret] at hstep
    cases hstep
    exact h
  · obtain ⟨s₁, heq, hspec⟩ := routeStep_spec w hf (by simpa using hret)
    rw [heq] at hstep
    cases hstep
    cases hspec with
    | returned htop | again htop => exact h.top htop
    | @dispatched p f₁ r hd htop _ hhandles =>
      have h₁ := h.top htop
      have h₂ := h₁.handled (htop.request hf).1 hhandles
      cases hb : w.select s.env r.app with
      | result => exact h₂.routeResult r
      | done ran =>
        cases ran with
        | true => exact h₂.congr (Program.SameHeap.refl _) rfl rfl
        | false =>
          -- the handler has had no effect
          have h' : LoopInv P s.trace (routeDone f₁ p) :=
            h₁.congr (Program.SameHeap.refl _) rfl rfl
          exact h'.append fun _ _ => rfl

theorem loopInv_parsed (functions triggers : List (String × Applications))
    (schema : Applications) :
    LoopInv (Flow.parsed functions triggers schema).prog []
      (Flow.parsed functions triggers schema) :=
  ⟨Program.SameHeap.refl _, fun _ _ => rfl, fun _ => le_max_left _ _, fun _ => le_refl _⟩

/-- The accounting holds after every sequence of operations. -/
theorem loopInv_of_run (h : Run f₀ log f) (hf₀ : f₀.Safe) (hinv : LoopInv f₀.prog [] f₀) :
    LoopInv f₀.prog log f := by
  induction h with
  | refl => exact hinv
  | route w hrun htrace hstep ih =>
    subst htrace
    exact ih.routeStep (safe_of_run hrun hf₀) hstep
  | setInterrupted _ ih | setCancel _ ih | clearCancel _ ih =>
    exact ih.congr (Program.SameHeap.refl _) rfl rfl
  | @goto _ f tag _ hrun hgoto ih =>
    obtain ⟨g, heq, hspec⟩ := goto_spec (safe_of_run hrun hf₀) tag
    rw [heq] at hgoto
    cases hgoto
    exact ih.goto hspec
  | reset _ ih =>
    refine ih.congr ?_ ?_ ?_ <;> unfold Flow.reset <;> split
    all_goals first | exact Program.SameHeap.refl _ | rfl
  | repeatInterrupted names _ ih =>
    refine ih.congr ?_ ?_ ?_ <;> unfold Flow.repeatInterrupted <;> split
    all_goals first | exact Program.SameHeap.refl _ | rfl
  | fork schema _ ih | declared functions triggers _ ih =>
    exact ih.congr ⟨⟨rfl, rfl, rfl, rfl⟩, rfl⟩ rfl rfl

/-! ## Arrival from the enclosing block -/

/-- A `while` outside its `do` block is its entry. -/
theorem loopEntry_of_ne (hf : f.Safe) (hreq : f.prog.request p = some r)
    (hnode : p.node < f.prog.nodeCount) (hargs : r.args = .loop wid)
    (hne : p.node ≠ (f.prog.whiles wid).do_) : f.prog.LoopEntry wid p := by
  have hok := hf.wf.args p r hnode hreq
  rw [hargs] at hok
  rcases hok.2.2 with he | he
  · exact he
  · exact absurd he.block.symm hne

/-- On entry the cycle starts over: either nothing has been counted, or the previous
request is the original one. -/
theorem step_entry (hfresh : f.counter wid = 0 → f.step wid = 0)
    (hprev : f.prevRequest = (f.prog.whiles wid).originalParent) :
    (resetCycle f wid).step wid = 0 := by
  unfold resetCycle
  by_cases hcounter : f.counter wid = 0
  · rw [if_neg (fun h => h.1 hcounter)]
    exact hfresh hcounter
  · rw [if_pos ⟨hcounter, hprev⟩]
    exact update_self _ _ _

/-- The first step of a cycle enters a block that holds anything, unconditionally. -/
theorem runCycle_first (w : World E) (e : E) (hstep : f.step wid = 0)
    (hlen : 2 ≤ f.prog.getLength (f.prog.whiles wid).do_) :
    (runCycle w e f wid).checked = false ∧
      (runCycle w e f wid).entered = some (f.prog.whiles wid).do_ ∧
      (runCycle w e f wid).flow.currentNode = some (f.prog.whiles wid).do_ ∧
      (runCycle w e f wid).flow.position (f.prog.whiles wid).do_ = 0 := by
  have hne : ¬ f.prog.getLength (f.prog.whiles wid).do_ = 1 := by omega
  dsimp only [runCycle, nextStep]
  rw [if_pos (Or.inl hstep), if_neg hne]
  exact ⟨by simp [hstep], rfl, rfl, update_self _ _ _⟩

/-- The handler of a `while` that is reached from its enclosing block with budget left. -/
theorem request_entry (hf : f.Safe) (hnamed : f.prog.Named)
    (hfresh : ∀ wid, f.counter wid = 0 → f.step wid = 0) (hprev : f.prevRequest = p.prev)
    (hreq : f.prog.request p = some r) (hnode : p.node < f.prog.nodeCount)
    (hargs : r.args = .loop wid) (hne : p.node ≠ (f.prog.whiles wid).do_)
    (hlen : 2 ≤ f.prog.getLength (f.prog.whiles wid).do_)
    (hbudget : (f.counter wid : Int) < (f.prog.whiles wid).maxSteps) (w : World E) (e : E) :
    request w e f r = .ok (runCycle w e (resetCycle f wid) wid) ∧
      (resetCycle f wid).step wid = 0 := by
  have hentry := loopEntry_of_ne hf hreq hnode hargs hne
  have hname : r.app.name = "while" := by
    have hfits := hnamed p.node r (List.mem_of_getElem? hreq)
    rw [hargs] at hfits
    exact hfits
  refine ⟨?_, step_entry (hfresh wid) (hprev.trans (hentry.original (by omega)).symm)⟩
  unfold request
  rw [hname, hargs]
  rcases whileHandler_cases w e f wid with ⟨hle, -⟩ | ⟨-, heq⟩
  · omega
  · exact congrArg Except.ok heq

theorem countIteration_eq (f : Flow) (r : ApplicationRequest) :
    (countIteration f r).counter = f.counter ∧
      (countIteration f r).prevRequest = f.prevRequest := by
  unfold countIteration
  split <;> exact ⟨rfl, rfl⟩

theorem starts_congr (h : P.SameHeap P') (wid : Nat) (log : List Dispatch) :
    starts P' wid log = starts P wid log := by
  have hloop : P'.loopAt = P.loopAt := by
    funext p
    unfold Program.loopAt
    rw [Program.request_of_nodes h.nodes]
  unfold starts
  rw [hloop, h.whiles]

/-- In every run, the handler of a `while` starts its `do` block at most `maxSteps`
times; and whenever the `while` is reached from its enclosing block with budget left, the
handler looks at no condition and the first request of the block is the next one. -/
theorem do_while_contract {functions triggers : List (String × Applications)}
    {schema : Applications} {log : List Dispatch} {f : Flow}
    (h : Run (Flow.parsed functions triggers schema) log f) (wid : Nat) :
    (starts f.prog wid log : Int) ≤ max 0 (f.prog.whiles wid).maxSteps ∧
      ∀ (p : ReqPtr) (r : ApplicationRequest) (f₁ : Flow),
        routeTop f = .ok (.start p r, f₁) → r.args = .loop wid →
        p.node ≠ (f.prog.whiles wid).do_ → 2 ≤ f.prog.getLength (f.prog.whiles wid).do_ →
        (f.counter wid : Int) < (f.prog.whiles wid).maxSteps →
        ∀ (E : Type) (w : World E) (e : E), ∃ hd f₂, request w e f₁ r = .ok hd ∧
          hd.checked = false ∧ hd.entered = some (f.prog.whiles wid).do_ ∧
          hd.flow.nextRequest = .ok (some ⟨(f.prog.whiles wid).do_, 0⟩, f₂) := by
  have hf := safe_of_run h (safe_parsed functions triggers schema)
  have hinv := loopInv_of_run h (safe_parsed functions triggers schema)
    (loopInv_parsed functions triggers schema)
  constructor
  · -- every start has been paid for with a unit of the counter
    have hbound := hinv.bound wid
    have hpaid := hinv.paid wid
    rw [starts_congr hinv.same, hinv.same.whiles]
    omega
  · intro p r f₁ htop hargs hne hlen hbudget E w e
    obtain ⟨t, heq, hspec⟩ := routeTop_spec hf
    rw [heq] at htop
    cases htop
    have hf₁ := hspec.safe hf
    have hinv₁ := hinv.top hspec
    obtain ⟨hreq, hnode⟩ := hspec.request hf
    obtain ⟨f₀, hnext, -, -, -, rfl⟩ := hspec.start_inv
    obtain ⟨hcounter, hprev⟩ := countIteration_eq f₀ r
    have hprog : (countIteration f₀ r).prog = f.prog := by
      rw [countIteration_prog, hnext.same.prog]
    have hnamed : (countIteration f₀ r).prog.Named :=
      (Program.named_parse functions triggers schema).of_nodes hinv₁.same.nodes
    obtain ⟨hrequest, hzero⟩ := request_entry hf₁ hnamed hinv₁.fresh
      (hprev.trans (hnext.cursor hf p rfl).2.2) hreq hnode hargs (by rw [hprog]; exact hne)
      (by rw [hprog]; exact hlen) (by rw [hprog, hcounter, hnext.same.counter]; exact hbudget) w e
    have hprog' : (resetCycle (countIteration f₀ r) wid).prog = f.prog := by
      rw [resetCycle_prog, hprog]
    obtain ⟨hchecked, hentered, hcur, hpos⟩ := runCycle_first w e hzero (by rw [hprog']; exact hlen)
    rw [hprog'] at hentered hcur hpos
    have hh : Handles w e (countIteration f₀ r) r
        (runCycle w e (resetCycle (countIteration f₀ r) wid) wid) :=
      handles_of_request hf₁ hrequest
    obtain ⟨f₂, hf₂⟩ := nextRequest_here (hh.safe hf₁ hreq hnode) hcur
      (by rw [hpos, hh.prog, hprog]; omega)
    rw [hpos] at hf₂
    exact ⟨_, f₂, hrequest, hchecked, hentered, hf₂⟩

/-- A `while` that is come back to by a jump -/
def againSchema : Applications :=
  [[("while", .obj [("do", .arr [.obj [("log", .null)]]), ("condition", .str "more"),
    ("maxSteps", .str "3")]), ("tag", .str "again")], [("goto", .str "again")]]

/-- No condition of a `while` holds. -/
def refusing : World Unit := { steadyWorld with check := fun _ _ => false }

/-- The block of the first `while` has been run once, and the `while` is started again from its
enclosing block. -/
def reenters : Except Panic (RouteState Unit) → Bool
  | .ok s =>
    (match routeTop s.flow with
      | .ok (.start p ⟨_, .loop 0, _⟩, _) => p.node == 0
      | _ => false) &&
    decide (starts s.flow.prog 0 s.trace = 1 ∧ s.flow.counter 0 = 2 ∧
      (s.flow.prog.whiles 0).do_ = 1 ∧ (s.flow.prog.whiles 0).maxSteps = 3 ∧
      s.flow.prog.getLength 1 = 2)
  | _ => false

/-- The `while` is left when its condition fails, and come back to: it enters its block again. -/
theorem do_while_contract_again :
    ∃ s p r f₁, routeN refusing 4 (routeStart (Flow.new againSchema) ()) = .ok s ∧
      starts s.flow.prog 0 s.trace = 1 ∧ (starts s.flow.prog 0 s.trace : Int) ≤ max 0 3 ∧
      routeTop s.flow = .ok (.start p r, f₁) ∧
      ∃ hd f₂, request refusing () f₁ r = .ok hd ∧ hd.checked = false ∧
        hd.entered = some 1 ∧ hd.flow.nextRequest = .ok (some ⟨1, 0⟩, f₂) := by
  have hagain : reenters (routeN refusing 4 (routeStart (Flow.new againSchema) ())) = true := by
    decide +kernel
  unfold reenters at hagain
  split at hagain
  · rename_i s hs
    rw [Bool.and_eq_true, decide_eq_true_eq] at hagain
    obtain ⟨htop, hstarts, hcounter, hdo, hmax, hlen⟩ := hagain
    split at htop
    · rename_i p app limiter f₁ heq
      have hrun : Run (Flow.parsed [] [] againSchema) s.trace s.flow :=
        (Run.setInterrupted .refl).routeN hs
      obtain ⟨hbound, hentry⟩ := do_while_contract hrun 0
      have hnode : p.node = 0 := by simpa using htop
      replace hentry := hentry p _ f₁ heq rfl
      rw [hmax] at hbound
      rw [hdo, hlen, hmax, hcounter, hnode] at hentry
      exact ⟨s, p, _, f₁, hs, hstarts, hbound, heq,
        hentry (by decide) (le_refl _) (by decide) Unit refusing ()⟩
    · cases htop
  · cases hagain

end FlowManager
