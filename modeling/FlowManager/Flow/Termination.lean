import FlowManager.Flow.While
import FlowManager.Lib.Forest

/-!
# `Route` terminates

Three things bound the iterations of `Route`, in this order:

- a jump uses up one of the `maxGoto + 1` jumps a flow may make (`less_of_goto`);
- a cycle of a `while` that can start its `do` block uses up one unit of that `while`'s
  budget (`less_of_counter`);
- any other request moves the cursor on: the steps left on the path from the current
  node to the root, weighted so that a step at a node is worth more than all of a child
  (`Forest.work`), become fewer (`less_of_remaining`).

`Goto` may rewind any positions and a cycle rewinds the `do` block, so the third
component is free to grow exactly where one of the first two falls.
-/

namespace FlowManager

open Flow Function

/-- A number larger than the length of every block. -/
def Program.lengthBound (P : Program) : Nat :=
  1 + ∑ n ∈ Finset.range P.nodeCount, P.getLength n

theorem getLength_lt_bound {P : Program} (hn : n < P.nodeCount) :
    P.getLength n < P.lengthBound := by
  have hle : P.getLength n ≤ ∑ m ∈ Finset.range P.nodeCount, P.getLength m :=
    Finset.single_le_sum (f := fun m => P.getLength m) (fun _ _ => Nat.zero_le _)
      (Finset.mem_range.mpr hn)
  unfold Program.lengthBound
  omega

/-- What a step at node `n` is worth. -/
def Program.cost (P : Program) (n : Nat) : Nat := Forest.weight P.lengthBound P.nodeCount n

theorem cost_pos (P : Program) (n : Nat) : 0 < P.cost n :=
  Forest.weight_pos (by unfold Program.lengthBound; omega) _ _

namespace Flow

variable {f f' : Flow} {n p : Nat}

/-- The requests of node `n` behind its position. -/
def left (f : Flow) (n : Nat) : Nat := ((f.prog.getLength n : Int) - f.position n).toNat

/-- The work left on the path from node `n` to the root. -/
def work (f : Flow) (n : Nat) : Nat :=
  Forest.work (fun m => (f.prog.nodes m).parent) f.left f.prog.cost n

/-- The work left from the cursor on. -/
def remaining (f : Flow) : Nat :=
  match f.currentNode with
  | some n => f.work n
  | none => 0

/-- The budget left to all loops together. -/
def budget (f : Flow) : Nat :=
  ∑ wid ∈ Finset.range f.prog.whileCount,
    ((f.prog.whiles wid).maxSteps - (f.counter wid : Int)).toNat

/-- Jumps, cycles and steps left. -/
def bound (f : Flow) : Nat × Nat × Nat := (maxGoto + 1 - f.gotoCounter, f.budget, f.remaining)

/-- `f'` is closer to the end than `f`. -/
def Less (f' f : Flow) : Prop :=
  Prod.Lex (· < ·) (Prod.Lex (· < ·) (· < ·)) f'.bound f.bound

theorem less_of_goto (hcount : f'.gotoCounter = f.gotoCounter + 1)
    (hle : f.gotoCounter ≤ maxGoto) : Less f' f := by
  refine Prod.Lex.left _ _ ?_
  omega

theorem less_of_counter (hprog : f'.prog = f.prog) (hgoto : f'.gotoCounter = f.gotoCounter)
    (hwid : wid < f.prog.whileCount) (hlt : (f.counter wid : Int) < (f.prog.whiles wid).maxSteps)
    (hcounter : f'.counter = update f.counter wid (f.counter wid + 1)) : Less f' f := by
  unfold Less Flow.bound
  rw [hgoto]
  refine Prod.Lex.right _ (Prod.Lex.left _ _ ?_)
  unfold Flow.budget
  rw [hprog, hcounter]
  refine Finset.sum_lt_sum (fun v _ => ?_) ⟨wid, Finset.mem_range.mpr hwid, ?_⟩
  · by_cases hv : v = wid
    · rw [hv, update_self]
      omega
    · rw [update_of_ne hv]
  · rw [update_self]
    omega

theorem less_of_remaining (hprog : f'.prog = f.prog) (hgoto : f'.gotoCounter = f.gotoCounter)
    (hcounter : f'.counter = f.counter) (hlt : f'.remaining < f.remaining) : Less f' f := by
  unfold Less Flow.bound Flow.budget
  rw [hgoto, hprog, hcounter]
  exact Prod.Lex.right _ (Prod.Lex.right _ hlt)

/-! ## The steps of the cursor -/

theorem remaining_eq (hcur : f.currentNode = some n) : f.remaining = f.work n := by
  unfold Flow.remaining
  rw [hcur]

/-- The work left at a node depends on the positions up to that node only. -/
theorem work_congr (hprog : f'.prog = f.prog) (h : ∀ m, m ≤ n → f'.position m = f.position m) :
    f'.work n = f.work n := by
  unfold Flow.work
  rw [hprog]
  refine Forest.work_congr fun m hm => ?_
  unfold Flow.left
  rw [hprog, h m hm]

theorem remaining_congr (hprog : f'.prog = f.prog) (hcur : f'.currentNode = f.currentNode)
    (hpos : f'.position = f.position) : f'.remaining = f.remaining := by
  unfold Flow.remaining
  rw [hcur]
  split
  · exact work_congr hprog fun m _ => by rw [hpos]
  · rfl

/-- A finished node has nothing left but what its parent has. -/
theorem work_finished (hparent : (f.prog.nodes n).parent = some p) (hlt : p < n)
    (hend : f.position n = f.prog.getLength n) : f.work n = f.work p := by
  have hleft : f.left n = 0 := by
    unfold Flow.left
    omega
  unfold Flow.work
  rw [Forest.work_child (n := n) (p := p) hparent hlt, hleft, Nat.zero_mul, Nat.zero_add]

/-- `NextRequest` uses up one step of the node it finds a request in. -/
theorem NextSpec.remaining {r : Option ReqPtr} (h : NextSpec f r f') :
    f.Safe → ∀ p, r = some p → f.remaining = f'.work p.node + f.prog.cost p.node := by
  induction h with
  | @here f n hcur hlt =>
    rintro hf p hp
    cases hp
    rw [remaining_eq hcur]
    refine Forest.work_advance ?_ fun m hm => ?_
    · show Flow.left f n = Flow.left _ n + 1
      unfold Flow.left
      simp only [update_self]
      omega
    · show Flow.left _ m = Flow.left f m
      unfold Flow.left
      simp only [update_of_ne (Nat.ne_of_lt hm)]
  | @up f f' n q r hcur hend hparent hnext ih =>
    rintro hf p hp
    have hqn := hf.wf.parent_lt (hf.current_lt hcur) hparent
    have hleave : (f.leave n q).work q = f.work q :=
      work_congr rfl fun m hm => update_of_ne (by omega) _ _
    calc f.remaining = f.work n := remaining_eq hcur
      _ = f.work q := work_finished hparent hqn hend
      _ = (f.leave n q).remaining := by rw [remaining_eq rfl, hleave]
      _ = f'.work p.node + f.prog.cost p.node := ih (hf.leave hcur hparent) p hp
  | finish => exact fun _ p hp => by cases hp

/-- Entering a block costs less than the step that led there. -/
theorem work_enter (hlt : n < f.prog.nodeCount) (hparent : (f.prog.nodes n).parent = some p)
    (hpn : p < n) : (f.enter n).remaining < f.work p + f.prog.cost p := by
  have hold : (f.enter n).work p = f.work p :=
    work_congr rfl fun m hm => update_of_ne (by omega) _ _
  have hleft : (f.enter n).left n = f.prog.getLength n := by
    show ((f.prog.getLength n : Int) - update f.position n 0 n).toNat = _
    rw [update_self]
    omega
  have hchild : (f.enter n).work n
      = (f.enter n).left n * f.prog.cost n + (f.enter n).work p :=
    Forest.work_child hparent hpn
  have hless : f.prog.getLength n * f.prog.cost n < f.prog.cost p :=
    Forest.mul_weight_lt (getLength_lt_bound hlt) hpn hlt
  rw [remaining_eq rfl, hchild, hleft, hold]
  omega

end Flow

/-! ## The steps of `Route` -/

section Route

variable {E : Type} {w : World E} {e : E} {f f₁ : Flow} {p : ReqPtr} {r : ApplicationRequest}

/-- A block of a request other than a `while` belongs to the node of the request. -/
theorem isBlock_of_owns (hf : f.Safe) (hreq : f.prog.request p = some r)
    (hnode : p.node < f.prog.nodeCount) (howns : f.prog.Owns n r.args)
    (hloop : ∀ wid, r.args ≠ .loop wid) : f.prog.IsBlock n p := by
  have hargs := hf.wf.args p r hnode hreq
  cases ha : r.args with
  | raw | brk => rw [ha] at howns; exact absurd howns id
  | loop wid => exact absurd ha (hloop wid)
  | condition ex t el =>
    rw [ha] at howns hargs
    rcases howns with rfl | rfl
    · exact hargs.1
    · exact hargs.2
  | switch text cases =>
    rw [ha] at howns hargs
    obtain ⟨name, hmem⟩ := howns
    exact hargs _ hmem

/-- The part of the flow that the bound looks at does not see the limiters. -/
theorem countIteration_bound (f : Flow) (r : ApplicationRequest) :
    (countIteration f r).currentNode = f.currentNode ∧
      (countIteration f r).position = f.position ∧
      (countIteration f r).gotoCounter = f.gotoCounter := by
  unfold countIteration
  split <;> exact ⟨rfl, rfl, rfl⟩

/-- What a started request has used up before its handler runs. -/
structure Started (f f₁ : Flow) (p : ReqPtr) : Prop where
  prog : f₁.prog = f.prog
  gotoCounter : f₁.gotoCounter = f.gotoCounter
  counter : f₁.counter = f.counter
  currentNode : f₁.currentNode = some p.node
  remaining : f.remaining = f₁.work p.node + f₁.prog.cost p.node

theorem TopSpec.started (h : TopSpec f (.start p r, f₁)) (hf : f.Safe) : Started f f₁ p := by
  obtain ⟨f₀, hnext, -, -, -, rfl⟩ := h.start_inv
  obtain ⟨hcur, hpos, hgoto⟩ := countIteration_bound f₀ r
  have hprog : (countIteration f₀ r).prog = f.prog := by
    rw [countIteration_prog, hnext.same.prog]
  refine ⟨hprog, by rw [hgoto, hnext.same.gotoCounter], ?_, ?_, ?_⟩
  · rw [(countIteration_eq f₀ r).1, hnext.same.counter]
  · rw [hcur, (hnext.cursor hf p rfl).1]
  · have hwork : (countIteration f₀ r).work p.node = f₀.work p.node :=
      work_congr (countIteration_prog f₀ r) fun m _ => by rw [hpos]
    rw [hwork, hprog, NextSpec.remaining hnext hf p rfl]

section

variable (h : Started f f₁ p)
include h

/-- A handler that leaves the cursor where it is. -/
theorem Started.less_of_same (hprog : f'.prog = f₁.prog)
    (hgoto : f'.gotoCounter = f₁.gotoCounter) (hcounter : f'.counter = f₁.counter)
    (hcur : f'.currentNode = f₁.currentNode) (hpos : f'.position = f₁.position) : Less f' f := by
  refine less_of_remaining (hprog.trans h.prog) (hgoto.trans h.gotoCounter)
    (hcounter.trans h.counter) ?_
  have hcost := cost_pos f₁.prog p.node
  rw [remaining_congr hprog hcur hpos, remaining_eq h.currentNode, h.remaining]
  omega

theorem Started.less_of_goto (hspec : GotoSpec f₁ tag g) : Less g.2 f := by
  rcases g with ⟨ok, f₂⟩
  cases ok with
  | true =>
    obtain ⟨hcount, hle⟩ := hspec.gotoCounter
    rw [h.gotoCounter] at hcount hle
    exact Flow.less_of_goto hcount hle
  | false =>
    cases hspec with
    | refused => exact h.less_of_same rfl rfl rfl rfl rfl

theorem Started.less_of_while (hf₁ : f₁.Safe)
    (hreq : f₁.prog.request p = some r) (hnode : p.node < f₁.prog.nodeCount)
    (hargs : r.args = .loop wid) : Less (whileHandler w e f₁ (.loop wid)).flow f := by
  rcases whileHandler_cases w e f₁ wid with ⟨-, heq⟩ | ⟨hlt, heq⟩
  · rw [heq]
    unfold resetCycle
    split <;> exact h.less_of_same rfl rfl rfl rfl rfl
  · have hwid : wid < f₁.prog.whileCount := by
      have hok := hf₁.wf.args p r hnode hreq
      rw [hargs] at hok
      exact hok.1
    have hgoto : (whileHandler w e f₁ (.loop wid)).flow.gotoCounter = f₁.gotoCounter := by
      rw [whileHandler_frame]
    refine less_of_counter ((whileHandler_cursor w e f₁ wid).1.trans h.prog)
      (hgoto.trans h.gotoCounter) (show wid < f.prog.whileCount by rwa [← h.prog]) ?_ ?_
    · rwa [← h.prog, ← h.counter]
    · rw [heq, (runCycle_eq w e _ wid).1, (resetCycle_eq f₁ wid).1, h.counter]

/-- Whatever the handler of a started request does, the flow is closer to its end. -/
theorem Started.less (hf₁ : f₁.Safe) (hreq : f₁.prog.request p = some r)
    (hnode : p.node < f₁.prog.nodeCount) (hh : Handles w e f₁ r hd) : Less hd.flow f := by
  cases hh with
  | quiet b =>
    split <;> exact h.less_of_same rfl rfl rfl rfl rfl
  | @enter n howns hloop =>
    have hblock := isBlock_of_owns hf₁ hreq hnode howns hloop
    refine less_of_remaining h.prog h.gotoCounter h.counter ?_
    rw [h.remaining]
    exact work_enter hblock.lt hblock.parent hblock.node_lt
  | loop _ hargs => exact h.less_of_while hf₁ hreq hnode hargs
  | goto _ _ hspec => exact h.less_of_goto hspec

end

/-- An iteration of `Route` returns or brings the flow closer to its end. -/
theorem RouteSpec.less (h : RouteSpec w s s') (hf : s.flow.Safe) :
    s'.returned = true ∨ Less s'.flow s.flow := by
  cases h with
  | returned => exact Or.inl rfl
  | again htop =>
    obtain ⟨p, f₀, tag, hnext, -, hspec⟩ := htop.again_inv
    obtain ⟨hcount, hle⟩ := hspec.gotoCounter
    rw [hnext.same.gotoCounter] at hcount hle
    exact Or.inr (Flow.less_of_goto hcount hle)
  | @dispatched p f₁ r hd htop _ hhandles =>
    obtain ⟨hreq, hnode⟩ := htop.request hf
    have hless := (htop.started hf).less (htop.safe hf) hreq hnode hhandles
    cases hb : w.select s.env r.app with
    | done ran => exact Or.inl rfl
    | result =>
      right
      show Less (routeResult hd.flow r) s.flow
      rw [routeResult_frame]
      exact hless

end Route

/-- From every state that a flow can reach, `Route` returns after finitely many
iterations, in every world. -/
theorem route_terminates {functions triggers : List (String × Applications)}
    {schema : Applications} {log : List Dispatch} {f : Flow}
    (h : Run (Flow.parsed functions triggers schema) log f) {E : Type} (w : World E) (e : E) :
    ∃ n s, routeN w n (routeStart f e) = .ok s ∧ s.returned = true := by
  have hf : f.Safe := safe_of_run h (safe_parsed functions triggers schema)
  have hwf : WellFounded (Prod.Lex (· < ·) (Prod.Lex (· < ·) (· < ·)) :
      Nat × Nat × Nat → Nat × Nat × Nat → Prop) :=
    WellFounded.prod_lex Nat.lt_wfRel.wf (WellFounded.prod_lex Nat.lt_wfRel.wf Nat.lt_wfRel.wf)
  have hstep : ∀ s : RouteState E, s.flow.Safe → ¬ s.returned = true →
      ∃ s', routeStep w s = .ok s' ∧ s'.flow.Safe ∧
        (s'.returned = true ∨ Less s'.flow s.flow) := by
    intro s hs hrun
    obtain ⟨s', heq, hspec⟩ := routeStep_spec w hs (by simpa using hrun)
    exact ⟨s', heq, hspec.safe hs, hspec.less hs⟩
  obtain ⟨s, ⟨n, hn⟩, -, hs⟩ := Loop.leads_of_measure hwf (fun s : RouteState E => s.flow.bound)
    (fun s => s.flow.Safe) (fun s => s.returned = true) hstep (routeStart f e)
    (hf.congr rfl rfl rfl)
  exact ⟨n, s, hn, hs⟩

/-- A schema that jumps back for ever. -/
def backwardSchema : Applications :=
  [[("log", .null), ("tag", .str "start")], [("goto", .str "start")]]

/-- It is stopped by the limit on jumps. -/
theorem route_terminates_backward :
    ∃ n s, routeN steadyWorld n (routeStart (Flow.new backwardSchema) ()) = .ok s ∧
      s.returned = true := by
  have hrun : Run (Flow.parsed [] [] backwardSchema) [] (Flow.new backwardSchema) := Run.refl
  exact route_terminates hrun steadyWorld ()

end FlowManager
