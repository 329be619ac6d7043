import FlowManager.Flow.Continuation

/-!
# What follows a `goto`

A flow that is on track does what the machine of the static continuation does.

- `OnTrack.next`: `NextRequest` finds what the machine fetches.
- `Ready.handle`: every handler leaves the flow where the machine goes on.
- `Tracks.step`, `Tracks.run`: one iteration of `Route`, and a whole run.
- `goto_continuation`: what follows a jump, from every state in which `Goto` can be called.
-/

namespace FlowManager

open Flow Function

/-! ## A flow on track follows the machine -/

section Tracks

variable {E : Type} {w : World E} {e : E} {P : Program} {f f' g : Flow} {n q : Nat}
  {p pc : ReqPtr} {r : ApplicationRequest} {s s' : RouteState E} {c : Cont E}

/-- Being on track depends on older nodes and on the loops around only. -/
theorem OnTrack.congr (hf : f.Safe) (hn : n < f.prog.nodeCount) (h : OnTrack f n)
    (hprog : f'.prog = f.prog) (hpos : ∀ x, x < n → f'.position x = f.position x)
    (hstep : ∀ v, (f.prog.whiles v).do_ ≤ n → f.step v ≠ 0 → f'.step v ≠ 0) : OnTrack f' n := by
  refine ⟨?_, fun a v ha hv hdo => ?_⟩
  · rw [hprog]
    exact h.chain.congr hf.wf hn hpos
  · rw [hprog] at ha hv hdo
    refine hstep v ?_ (h.cycling a v ha hv hdo)
    rw [hdo]
    exact ha.le hf.wf hn

/-- The same loops, and older nodes where they were. -/
theorem OnTrack.move (hf : f.Safe) (hn : n < f.prog.nodeCount) (h : OnTrack f n)
    (hprog : f'.prog = f.prog) (hpos : ∀ x, x < n → f'.position x = f.position x)
    (hstep : f'.step = f.step) : OnTrack f' n :=
  h.congr hf hn hprog hpos fun v _ hv => by rw [hstep]; exact hv

theorem OnTrack.parent (h : OnTrack f n) (hparent : (f.prog.nodes n).parent = some q) :
    OnTrack f q ∧ f.position q = (f.prog.nodes n).idx + 1 := by
  obtain ⟨hq, hchain⟩ := (Program.chain_iff hparent).mp h.chain
  exact ⟨⟨hchain, fun a v ha => h.cycling a v (ha.up hparent)⟩, hq⟩

/-- A block entered from the request at `p`, with the cursor behind it. -/
theorem OnTrack.child (h : OnTrack f p.node) (hblock : f.prog.IsBlock b p)
    (hpos : f.position p.node = p.index + 1)
    (hcycling : ∀ v, v < f.prog.whileCount → (f.prog.whiles v).do_ = b → f.step v ≠ 0) :
    OnTrack f b := by
  refine ⟨(Program.chain_iff hblock.parent).mpr ⟨by rw [hpos, hblock.idx], h.chain⟩,
    fun a v ha hv hdo => ?_⟩
  rcases ha.cases with rfl | ⟨q, hq, ha⟩
  · exact hcycling v hv hdo
  · cases Option.some.inj (hblock.parent.symm.trans hq)
    exact h.cycling a v ha hv hdo

/-- The flow is where the machine is: inside a node, or about to leave a finished one. -/
inductive Tracked (f : Flow) (pc : ReqPtr) : Prop where
  | inside {n : Nat} (hcur : f.currentNode = some n) (h : OnTrack f n)
      (hpc : f.prog.fetch pc.node pc.index = f.prog.fetch n (f.position n).toNat)
  | leaving {n q : Nat} (hcur : f.currentNode = some n)
      (hend : f.position n = f.prog.getLength n) (hparent : (f.prog.nodes n).parent = some q)
      (hq : f.position q = (f.prog.nodes n).idx + 1) (h : OnTrack f q)
      (hpc : f.prog.fetch pc.node pc.index = f.prog.fetch q ((f.prog.nodes n).idx + 1))

theorem fetch_here {i : Program} (h : j < i.getLength n) : i.fetch n j = some ⟨n, j⟩ := by
  rw [Program.fetch, if_pos h]

theorem fetch_up {i : Program} (h : ¬ j < i.getLength n)
    (hparent : (i.nodes n).parent = some q) (hlt : q < n) :
    i.fetch n j = i.fetch q ((i.nodes n).idx + 1) := by
  rw [Program.fetch, if_neg h, hparent]
  exact if_pos hlt

theorem fetch_finish {i : Program} (h : ¬ j < i.getLength n)
    (hparent : (i.nodes n).parent = none) : i.fetch n j = none := by
  rw [Program.fetch, if_neg h, hparent]

/-- `NextRequest` finds what the machine fetches, and stays on track. -/
theorem OnTrack.next : ∀ (n : Nat) {f : Flow}, f.Safe → f.currentNode = some n → OnTrack f n →
    ∃ g, NextSpec f (f.prog.fetch n (f.position n).toNat) g ∧
      ∀ p, f.prog.fetch n (f.position n).toNat = some p → OnTrack g p.node := by
  intro n
  induction n using Nat.strong_induction_on with
  | _ n ih =>
    intro f hf hcur h
    have hn := hf.current_lt hcur
    obtain ⟨hlo, hhi⟩ := hf.position n hn
    by_cases hlt : f.position n < f.prog.getLength n
    · rw [fetch_here (show (f.position n).toNat < f.prog.getLength n by omega)]
      refine ⟨_, NextSpec.here hcur hlt, fun p hp => ?_⟩
      cases hp
      exact h.move hf hn rfl (fun x hx => update_of_ne (Nat.ne_of_lt hx) _ _) rfl
    · have hend : f.position n = f.prog.getLength n := by omega
      have hstop : ¬ (f.position n).toNat < f.prog.getLength n := by omega
      cases hparent : (f.prog.nodes n).parent with
      | none =>
        rw [fetch_finish hstop hparent]
        exact ⟨_, NextSpec.finish hcur hend hparent, fun p hp => by cases hp⟩
      | some q =>
        have hqn := hf.wf.parent_lt hn hparent
        obtain ⟨hq, hpos⟩ := h.parent hparent
        rw [fetch_up hstop hparent hqn]
        have hleft : ∀ x, x ≠ n → (f.leave n q).position x = f.position x := fun x hx =>
          update_of_ne hx _ _
        obtain ⟨g, hnext, hg⟩ := ih q hqn (hf.leave hcur hparent) rfl
          (hq.move hf (by omega) rfl (fun x hx => hleft x (by omega)) rfl)
        rw [hleft q (by omega), hpos, show (((f.prog.nodes n).idx : Int) + 1).toNat
          = (f.prog.nodes n).idx + 1 by omega] at hnext hg
        exact ⟨g, NextSpec.up hcur hend hparent hnext, hg⟩

/-- Only what the machine fetches next counts. -/
theorem Tracked.of_fetch {pc' : ReqPtr} (h : Tracked f pc)
    (hpc' : f.prog.fetch pc'.node pc'.index = f.prog.fetch pc.node pc.index) : Tracked f pc' := by
  cases h with
  | inside hcur h hpc => exact Tracked.inside hcur h (hpc'.trans hpc)
  | leaving hcur hend hparent hq h hpc =>
    exact Tracked.leaving hcur hend hparent hq h (hpc'.trans hpc)

theorem Tracked.next (hf : f.Safe) (h : Tracked f pc) :
    ∃ g, NextSpec f (f.prog.fetch pc.node pc.index) g ∧
      ∀ p, f.prog.fetch pc.node pc.index = some p → OnTrack g p.node := by
  cases h with
  | @inside n hcur h hpc =>
    rw [hpc]
    exact h.next n hf hcur
  | @leaving n q hcur hend hparent hq h hpc =>
    have hqn := hf.wf.parent_lt (hf.current_lt hcur) hparent
    have hleft : ∀ x, x ≠ n → (f.leave n q).position x = f.position x := fun x hx =>
      update_of_ne hx _ _
    have hn := hf.current_lt hcur
    obtain ⟨g, hnext, hg⟩ := OnTrack.next q (hf.leave hcur hparent) rfl
      (h.move hf (by omega) rfl (fun x hx => hleft x (by omega)) rfl)
    rw [hleft q (by omega), hq, show (((f.prog.nodes n).idx : Int) + 1).toNat
      = (f.prog.nodes n).idx + 1 by omega] at hnext hg
    rw [hpc]
    exact ⟨g, NextSpec.up hcur hend hparent hnext, hg⟩

/-- The flow as the handler of the request `r` at `p` finds it, on track. -/
structure Ready (f : Flow) (p : ReqPtr) (r : ApplicationRequest) : Prop where
  safe : f.Safe
  named : f.prog.Named
  shape : ∀ v, v < f.prog.whileCount → f.prog.LoopShape v
  fresh : ∀ v, f.counter v = 0 → f.step v = 0
  track : OnTrack f p.node
  current : f.currentNode = some p.node
  position : f.position p.node = p.index + 1
  prev : f.prevRequest = p.prev
  request : f.prog.request p = some r

theorem Ready.node_lt (h : Ready f p r) : p.node < f.prog.nodeCount :=
  h.safe.current_lt h.current

/-- A handler that leaves the cursor where it is, and of the loops touches at most one
that is not around it. -/
theorem Ready.stay (h : Ready f p r) (hprog : f'.prog = f.prog)
    (hcur : f'.currentNode = f.currentNode) (hpos : f'.position = f.position)
    (hstep : ∀ v, (f.prog.whiles v).do_ ≤ p.node → f'.step v = f.step v) :
    Tracked f' ⟨p.node, p.index + 1⟩ := by
  refine Tracked.inside (hcur.trans h.current) (h.track.congr h.safe h.node_lt hprog
    (fun x _ => congrFun hpos x) fun v hv hne => by rw [hstep v hv]; exact hne) ?_
  rw [hpos, h.position]
  rfl

/-- The block of the request at `p` is the `do` block of a loop only if the request is a
`while` of that loop. -/
theorem Ready.args_of_do (h : Ready f p r) (hblock : f.prog.IsBlock b p)
    (hv : v < f.prog.whileCount) (hdo : (f.prog.whiles v).do_ = b) : r.args = .loop v := by
  obtain ⟨q, r', hparent, hreq, hargs⟩ := (h.shape v hv).owner
  rw [hdo] at hparent hreq
  cases Option.some.inj (hblock.parent.symm.trans hparent)
  rw [hblock.idx] at hreq
  cases Option.some.inj (h.request.symm.trans hreq)
  exact hargs

/-- A handler that enters a block. -/
theorem Ready.enter (h : Ready f p r) (hblock : f.prog.IsBlock b p)
    (hloop : ∀ v, r.args ≠ .loop v) : Tracked (f.enter b) ⟨b, 0⟩ := by
  have htrack : OnTrack f b := h.track.child hblock h.position
    fun v hv hdo => absurd (h.args_of_do hblock hv hdo) (hloop v)
  refine Tracked.inside rfl (htrack.move h.safe hblock.lt rfl
    (fun x hx => update_of_ne (Nat.ne_of_lt hx) _ _) rfl) ?_
  rw [show (f.enter b).position b = 0 from update_self _ _ _]
  rfl

/-! ### Loops -/

variable {v : Nat}

/-- The `while` at the end of its block gives up. -/
theorem Ready.fallOut (h : Ready f p r) (hv : v < f.prog.whileCount)
    (hdo : (f.prog.whiles v).do_ = p.node) (hlast : p.index + 1 = f.prog.getLength p.node)
    (hprog : f'.prog = f.prog) (hcur : f'.currentNode = f.currentNode)
    (hpos : f'.position = f.position) (hstep : ∀ u, u ≠ v → f'.step u = f.step u) :
    Tracked f' ⟨p.node, p.index + 1⟩ := by
  obtain ⟨q, -, hparent, -⟩ := (h.shape v hv).owner
  rw [hdo] at hparent
  have hlt := h.safe.wf.parent_lt h.node_lt hparent
  have hnode := h.node_lt
  obtain ⟨htrack, hq⟩ := h.track.parent hparent
  refine Tracked.leaving (hcur.trans h.current) ?_ (by rw [hprog]; exact hparent) ?_
    (htrack.congr h.safe (by omega) hprog (fun x _ => congrFun hpos x) fun u hu hne => ?_) ?_
  · rw [hpos, hprog, h.position]
    exact_mod_cast hlast
  · rw [hpos, hprog, hq]
  · -- the loop that has ended is not around `q`
    rw [hstep u (by rintro rfl; omega)]
    exact hne
  · rw [hprog]
    exact fetch_up (show ¬ p.index + 1 < f.prog.getLength p.node by omega) hparent hlt

/-- The `while` starts a run of its block. -/
theorem Ready.cycle (h : Ready f p r) (hargs : r.args = .loop v)
    (hdo : p.node = (f.prog.whiles v).do_ ∨ f.prog.IsBlock (f.prog.whiles v).do_ p)
    (hprog : f'.prog = f.prog) (hcur : f'.currentNode = some (f.prog.whiles v).do_)
    (hpos : f'.position = update f.position (f.prog.whiles v).do_ 0)
    (hstep : ∀ u, u ≠ v → f'.step u = f.step u) (hgo : f'.step v ≠ 0) :
    Tracked f' ⟨(f.prog.whiles v).do_, 0⟩ := by
  have hbelow : ∀ x, x < (f.prog.whiles v).do_ → f'.position x = f.position x := fun x hx => by
    rw [hpos]
    exact update_of_ne (Nat.ne_of_lt hx) _ _
  have hcycling : ∀ u, f.step u ≠ 0 → f'.step u ≠ 0 := fun u hu => by
    by_cases huv : u = v
    · rw [huv]
      exact hgo
    · rw [hstep u huv]
      exact hu
  have htrack : OnTrack f' (f.prog.whiles v).do_ := by
    rcases hdo with hnode | hblock
    · rw [← hnode] at hbelow ⊢
      exact h.track.congr h.safe h.node_lt hprog hbelow fun u _ => hcycling u
    · -- on entry only the enclosing node is on track so far
      have hnode := hblock.node_lt
      have hparent : OnTrack f' p.node := h.track.congr h.safe h.node_lt hprog
        (fun x hx => hbelow x (by omega)) fun u _ => hcycling u
      refine OnTrack.child (p := p) hparent ?_ ?_ fun u hu hudo => ?_
      · rw [hprog]
        exact hblock
      · rw [hbelow _ hnode, h.position]
      · rw [hprog] at hu hudo
        cases (hargs.symm.trans (h.args_of_do hblock hu hudo))
        exact hgo
  refine Tracked.inside hcur htrack ?_
  rw [show f'.position (f.prog.whiles v).do_ = 0 by rw [hpos]; exact update_self _ _ _]
  rfl

theorem resume_loop (w : World E) (e : E) (i : Program) (hargs : r.args = .loop v) :
    resume w e i p r = if 2 ≤ i.getLength (i.whiles v).do_ ∧
      (p.node ≠ (i.whiles v).do_ ∨ w.check e (i.whiles v).condition = true)
      then ⟨(i.whiles v).do_, 0⟩ else ⟨p.node, p.index + 1⟩ := by
  unfold resume
  rw [hargs]

/-- A cycle that starts the block. -/
theorem Ready.afterEnter (h : Ready f p r) (w : World E) (e : E) (hargs : r.args = .loop v)
    (hdo : p.node = (f.prog.whiles v).do_ ∨ f.prog.IsBlock (f.prog.whiles v).do_ p)
    (hlen : f.prog.getLength (f.prog.whiles v).do_ ≠ 1)
    (hgo : (resetCycle f v).step v = 0 ∨ w.check e (f.prog.whiles v).condition = true) :
    Tracked (runCycle w e (resetCycle f v) v).flow ⟨(f.prog.whiles v).do_, 0⟩ := by
  have henter := runCycle_enter w e (resetCycle f v) (k := v)
    (by rw [resetCycle_prog]; exact hgo) (by rw [resetCycle_prog]; exact hlen)
  have hothers : ∀ u, u ≠ v → (resetCycle f v).step u = f.step u := fun u hu => by
    rcases resetCycle_cases f v with heq | heq
    · rw [heq]
    · rw [heq]
      exact update_of_ne hu _ _
  have hpos : (resetCycle f v).position = f.position := by
    rcases resetCycle_cases f v with heq | heq <;> rw [heq]
    rfl
  refine h.cycle hargs hdo ?_ ?_ ?_ (fun u hu => ?_) ?_
  · rw [henter]
    exact resetCycle_prog f v
  · rw [henter, resetCycle_prog]
    rfl
  · rw [henter, resetCycle_prog, ← hpos]
    rfl
  · rw [henter, ← hothers u hu]
    exact update_of_ne hu _ _
  · rw [henter]
    show update (resetCycle f v).step v ((resetCycle f v).step v + 1) v ≠ 0
    rw [update_self]
    omega

/-- A cycle that ends the loop changes nothing but the loop's own counters. -/
theorem endCycle_frame (w : World E) (e : E) (f : Flow)
    (hstop : ((resetCycle f v).step v ≠ 0 ∧ w.check e (f.prog.whiles v).condition = false) ∨
      f.prog.getLength (f.prog.whiles v).do_ = 1) :
    (runCycle w e (resetCycle f v) v).flow.prog = f.prog ∧
      (runCycle w e (resetCycle f v) v).flow.currentNode = f.currentNode ∧
      (runCycle w e (resetCycle f v) v).flow.position = f.position ∧
      ∀ u, u ≠ v → (runCycle w e (resetCycle f v) v).flow.step u = f.step u := by
  have hend := runCycle_end w e (resetCycle f v) (k := v) (by rw [resetCycle_prog]; exact hstop)
  rcases resetCycle_cases f v with heq | heq
  · rw [hend, heq]
    exact ⟨rfl, rfl, rfl, fun u hu => update_of_ne hu _ _⟩
  · rw [hend, heq]
    refine ⟨rfl, rfl, rfl, fun u hu => ?_⟩
    exact (update_of_ne hu _ _).trans (update_of_ne hu _ _)

/-- A `while` that is reached from its enclosing block. -/
theorem Ready.entry (h : Ready f p r) (w : World E) (e : E) (hargs : r.args = .loop v)
    (hblock : f.prog.IsBlock (f.prog.whiles v).do_ p)
    (horiginal : f.prog.getLength (f.prog.whiles v).do_ ≠ 0 →
      (f.prog.whiles v).originalParent = p.prev) :
    Tracked (runCycle w e (resetCycle f v) v).flow (resume w e f.prog p r) := by
  have hnode := hblock.node_lt
  rw [resume_loop w e f.prog hargs]
  by_cases hlen : 2 ≤ f.prog.getLength (f.prog.whiles v).do_
  · rw [if_pos ⟨hlen, Or.inl (Nat.ne_of_lt hnode)⟩]
    exact h.afterEnter w e hargs (Or.inr hblock) (by omega)
      (Or.inl (step_entry (h.fresh v) (h.prev.trans (horiginal (by omega)).symm)))
  · rw [if_neg fun hgo => hlen hgo.1]
    have hends : (((resetCycle f v).step v ≠ 0 ∧ w.check e (f.prog.whiles v).condition = false) ∨
        f.prog.getLength (f.prog.whiles v).do_ = 1) →
        Tracked (runCycle w e (resetCycle f v) v).flow ⟨p.node, p.index + 1⟩ := fun hstop => by
      obtain ⟨hprog, hcur, hpos, hstep⟩ := endCycle_frame w e f hstop
      exact h.stay hprog hcur hpos fun u hu => hstep u (by rintro rfl; omega)
    by_cases hone : f.prog.getLength (f.prog.whiles v).do_ = 1
    · exact hends (Or.inr hone)
    · by_cases hgo : (resetCycle f v).step v = 0 ∨ w.check e (f.prog.whiles v).condition = true
      · -- a block without requests is entered and left again
        have hprog : (runCycle w e (resetCycle f v) v).flow.prog = f.prog := by
          rw [runCycle_enter w e (resetCycle f v) (by rw [resetCycle_prog]; exact hgo)
            (by rw [resetCycle_prog]; exact hone)]
          exact resetCycle_prog f v
        refine (h.afterEnter w e hargs (Or.inr hblock) hone hgo).of_fetch ?_
        rw [hprog, fetch_up (show ¬ 0 < _ by omega) hblock.parent hnode, hblock.idx]
      · refine hends (Or.inl ?_)
        simpa [not_or] using hgo

/-- The `while` at the end of its block. -/
theorem Ready.again (h : Ready f p r) (w : World E) (e : E) (hargs : r.args = .loop v)
    (hv : v < f.prog.whileCount) (hend : f.prog.LoopEnd v p) :
    Tracked (runCycle w e (resetCycle f v) v).flow (resume w e f.prog p r) := by
  have hlast : p.index + 1 = f.prog.getLength p.node := by
    rw [← hend.block]
    refine (h.shape v hv).last p.index r ?_ hargs
    rw [hend.block]
    exact h.request
  have hcycling : f.step v ≠ 0 :=
    h.track.cycling p.node v (Program.Around.refl _ _) hv hend.block
  have hends : (((resetCycle f v).step v ≠ 0 ∧ w.check e (f.prog.whiles v).condition = false) ∨
      f.prog.getLength (f.prog.whiles v).do_ = 1) →
      Tracked (runCycle w e (resetCycle f v) v).flow ⟨p.node, p.index + 1⟩ := fun hstop => by
    obtain ⟨hprog, hcur, hpos, hstep⟩ := endCycle_frame w e f hstop
    exact h.fallOut hv hend.block hlast hprog hcur hpos hstep
  rw [resume_loop w e f.prog hargs]
  by_cases hone : f.prog.getLength (f.prog.whiles v).do_ = 1
  · rw [if_neg (by omega)]
    exact hends (Or.inr hone)
  · -- the copy is not the first request of the block, so it is not taken for an arrival
    have hkeep : resetCycle f v = f := by
      unfold resetCycle
      rw [if_neg]
      rintro ⟨-, hprev⟩
      rw [h.prev] at hprev
      have hindex : p.index ≠ 0 := by
        rw [← hend.block] at hlast
        omega
      unfold ReqPtr.prev at hprev
      rw [if_neg hindex] at hprev
      exact hend.original _ hprev.symm rfl
    cases hcheck : w.check e (f.prog.whiles v).condition with
    | true =>
      rw [if_pos ⟨by rw [hend.block] at hone ⊢; omega, Or.inr rfl⟩]
      exact h.afterEnter w e hargs (Or.inl hend.block.symm) hone (Or.inr hcheck)
    | false =>
      rw [if_neg (by rintro ⟨-, hne | hfalse⟩ <;> simp_all [hend.block])]
      refine hends (Or.inl ⟨?_, hcheck⟩)
      rw [hkeep]
      exact hcycling

/-- A `while` with budget left. -/
theorem Ready.while (h : Ready f p r) (w : World E) (e : E) (hargs : r.args = .loop v)
    (hbudget : (f.counter v : Int) < (f.prog.whiles v).maxSteps) :
    Tracked (whileHandler w e f (.loop v)).flow (resume w e f.prog p r) := by
  have hok := h.safe.wf.args p r h.node_lt h.request
  rw [hargs] at hok
  obtain ⟨hv, -, hloop⟩ := hok
  rcases whileHandler_cases w e f v with ⟨hle, -⟩ | ⟨-, heq⟩
  · omega
  · rw [heq]
    rcases hloop with he | he
    · exact h.entry w e hargs he.block he.original
    · exact h.again w e hargs hv he

/-! ### The other handlers -/

theorem Ready.condition (h : Ready f p r) (w : World E) (e : E) {expression : String}
    (hargs : r.args = .condition expression then_ else_) :
    Tracked (conditionHandler w e f r.args).flow (resume w e f.prog p r) := by
  have hok := h.safe.wf.args p r h.node_lt h.request
  rw [hargs] at hok
  have hloop : ∀ v, r.args ≠ .loop v := fun v hv => by rw [hargs] at hv; cases hv
  unfold resume
  rw [hargs]
  dsimp only [conditionHandler]
  cases w.condition e expression with
  | none => exact h.stay rfl rfl rfl fun _ _ => rfl
  | some b =>
    cases b with
    | true => exact h.enter hok.1 hloop
    | false => exact h.enter hok.2 hloop

theorem Ready.switch (h : Ready f p r) (w : World E) (e : E) (hargs : r.args = .switch text cases) :
    Tracked (switchHandler w e f r.args).flow (resume w e f.prog p r) := by
  have hok := h.safe.wf.args p r h.node_lt h.request
  rw [hargs] at hok
  have hloop : ∀ v, r.args ≠ .loop v := fun v hv => by rw [hargs] at hv; cases hv
  have henter : ∀ {name : String} {n : Nat}, lookupCase cases name = some n →
      Tracked (f.enter n) ⟨n, 0⟩ := fun hlookup => by
    obtain ⟨name', hmem⟩ := lookupCase_mem hlookup
    exact h.enter (hok _ hmem) hloop
  unfold resume
  rw [hargs]
  dsimp only [switchHandler]
  cases hcase : lookupCase cases (w.parseText e text) with
  | some n => exact henter hcase
  | none =>
    cases hdefault : lookupCase cases "default" with
    | some n => exact henter hdefault
    | none => exact h.stay rfl rfl rfl fun _ _ => rfl

/-- The repairs do not touch the target node itself. -/
theorem Flow.Repairs.position_self (h : Repairs f b f') (hf : f.Safe) (hb : b < f.prog.nodeCount) :
    f'.position b = f.position b := by
  cases h with
  | root => rfl
  | top hparent =>
    have hlt := hf.wf.parent_lt hb hparent
    exact update_of_ne (by omega) _ _
  | @climb p q _ hparent hgrand hcomplete =>
    have hp := hf.wf.parent_lt hb hparent
    have hq := hf.wf.parent_lt (show p < f.prog.nodeCount by omega) hgrand
    rw [hcomplete.position_of_gt (hf.setBehind hb hparent) (show q < f.prog.nodeCount by omega) b
      (by omega)]
    exact update_of_ne (by omega) _ _

/-- After an undisturbed jump the flow is where the machine jumps to. -/
theorem tracked_goto (hf : f.Safe) {tag : String}
    (htag : f.prog.lookupTag tag = some t) (h : GotoSpec f tag (true, g)) (hu : Undisturbed f t) :
    Tracked g ⟨t.parent, t.idx⟩ := by
  have htrack := (onTrack_goto hf htag h).mpr hu
  cases h with
  | @jumped t' n f₁ _ htag' hcur hrepairs =>
    cases Option.some.inj (htag.symm.trans htag')
    obtain ⟨hlt, hidx⟩ := lookupTag_ok hf htag
    have hpos : f₁.position t.parent = t.idx := by
      rw [hrepairs.position_self (hf.jump hlt hidx) hlt]
      exact update_self _ _ _
    refine Tracked.inside ?_ htrack ?_
    · show f₁.currentNode = some t.parent
      rw [hrepairs.eq_position]
      rfl
    · show f₁.prog.fetch t.parent t.idx = f₁.prog.fetch t.parent (f₁.position t.parent).toNat
      rw [hpos]
      rfl

/-- What a `goto` must find for the flow to stay on track. -/
def GotoClear (w : World E) (e : E) (f : Flow) (r : ApplicationRequest) : Prop :=
  r.app.name = "goto" → ∀ tag t, w.decodeTag e r.app.args = some tag →
    f.prog.lookupTag tag = some t → f.gotoCounter ≤ maxGoto ∧ Undisturbed f t

theorem Ready.gotoTag (h : Ready f p r) (w : World E) (e : E) (hargs : r.args = .raw)
    (hname : r.app.name = "goto") (hclear : GotoClear w e f r)
    (hgoto : gotoTag w e f r.app.args = .ok hd) : Tracked hd.flow (resume w e f.prog p r) := by
  have hresume : resume w e f.prog p r =
      (((w.decodeTag e r.app.args).bind f.prog.lookupTag).map fun t => ⟨t.parent, t.idx⟩).getD
        ⟨p.node, p.index + 1⟩ := by
    unfold resume
    rw [hargs]
    refine (if_pos hname).trans ?_
    cases (w.decodeTag e r.app.args).bind f.prog.lookupTag <;> rfl
  rw [hresume]
  unfold FlowManager.gotoTag at hgoto
  cases htag : w.decodeTag e r.app.args with
  | none =>
    rw [htag] at hgoto
    cases hgoto
    exact h.stay rfl rfl rfl fun _ _ => rfl
  | some tag =>
    obtain ⟨⟨ok, g⟩, heq, hspec⟩ := goto_spec h.safe tag
    rw [htag] at hgoto
    dsimp only at hgoto
    rw [heq] at hgoto
    cases hgoto
    rw [Option.bind_some]
    cases hlookup : f.prog.lookupTag tag with
    | some t =>
      obtain ⟨hcount, hu⟩ := hclear hname tag t htag hlookup
      cases hspec with
      | refused hno =>
        rcases hno with hno | hno
        · omega
        · rw [hlookup] at hno
          cases hno
      | jumped hc ht hcur hrepairs =>
        exact tracked_goto h.safe hlookup (GotoSpec.jumped hc ht hcur hrepairs) hu
    | none =>
      cases hspec with
      | refused => exact h.stay rfl rfl rfl fun _ _ => rfl
      | jumped _ ht =>
        rw [hlookup] at ht
        cases ht

/-- Every handler leaves the flow where the machine goes on. -/
theorem Ready.handle (h : Ready f p r)
    (hbudget : ∀ v, r.args = .loop v → (f.counter v : Int) < (f.prog.whiles v).maxSteps)
    (hclear : GotoClear w e f r) (hrequest : FlowManager.request w e f r = .ok hd) :
    Tracked hd.flow (resume w e f.prog p r) := by
  have hfits := h.named p.node r (List.mem_of_getElem? h.request)
  -- a handler that enters no block leaves the cursor behind its request
  have hquiet :
      ∀ b : Bool, Tracked (if b = true then f.setCancel else f) ⟨p.node, p.index + 1⟩ := by
    rintro (_ | _)
    · exact h.stay rfl rfl rfl fun _ _ => rfl
    · exact h.stay rfl rfl rfl fun _ _ => rfl
  unfold FlowManager.request at hrequest
  cases hargs : r.args with
  | condition expression then_ else_ =>
    rw [hargs] at hfits
    rw [show r.app.name = "if" from hfits] at hrequest
    cases hrequest
    exact h.condition w e hargs
  | switch text cases =>
    rw [hargs] at hfits
    rw [show r.app.name = "switch" from hfits] at hrequest
    cases hrequest
    exact h.switch w e hargs
  | loop v =>
    rw [hargs] at hfits
    rw [show r.app.name = "while" from hfits, hargs] at hrequest
    cases hrequest
    exact h.while w e hargs (hbudget v hargs)
  | brk =>
    rw [hargs] at hfits
    rw [show r.app.name = "break" from hfits, hargs] at hrequest
    cases hrequest
    have hresume : resume w e f.prog p r = ⟨p.node, p.index + 1⟩ := by
      unfold resume
      rw [hargs]
    rw [hresume]
    exact hquiet true
  | raw =>
    rw [hargs] at hfits
    obtain ⟨hif, hwhile, hswitch, hbreak⟩ := hfits
    split at hrequest
    · exact absurd ‹_› hif
    · exact absurd ‹_› hwhile
    · exact absurd ‹_› hswitch
    · exact absurd ‹_› hbreak
    · exact h.gotoTag w e hargs ‹_› hclear hrequest
    · rename_i hgoto
      cases hrequest
      have hresume : resume w e f.prog p r = ⟨p.node, p.index + 1⟩ := by
        unfold resume
        rw [hargs]
        exact if_neg hgoto
      rw [hresume]
      exact hquiet _

/-! ### Runs -/

/-- Nothing but the law of the machine matters for the next iteration: no budget is used
up, and a `goto` is undisturbed. -/
def Clear (w : World E) (s : RouteState E) : Prop :=
  ∀ p f₁ r, s.flow.nextRequest = .ok (some p, f₁) → f₁.prog.request p = some r →
    exhausted f₁ r = none ∧
      (∀ v, r.args = .loop v → (f₁.counter v : Int) < (f₁.prog.whiles v).maxSteps) ∧
      GotoClear w s.env f₁ r

/-- `Route` and the machine have dispatched the same requests and go on alike. -/
structure Tracks (P : Program) (s : RouteState E) (c : Cont E) : Prop where
  safe : s.flow.Safe
  prog : s.flow.prog = P
  inv : LoopInv P [] s.flow
  env : s.env = c.env
  trace : s.trace.map (·.ptr) = c.trace
  track : s.returned = false → Tracked s.flow c.pc
  ended : s.returned = true → s.flow.cancel = false → P.fetch c.pc.node c.pc.index = none

theorem LoopInv.forget (h : LoopInv P log f) : LoopInv P [] f :=
  ⟨h.same, h.fresh, h.bound, fun _ => Nat.zero_le _⟩

theorem GotoClear.count (h : GotoClear w e f r) : GotoClear w e (countIteration f r) r := by
  intro hname tag t htag hlookup
  unfold countIteration at hlookup ⊢
  cases hl : r.limiter with
  | none =>
    rw [hl] at hlookup
    exact h hname tag t htag hlookup
  | some l =>
    rw [hl] at hlookup
    obtain ⟨hcount, hu⟩ := h hname tag t htag hlookup
    exact ⟨hcount, hu.lined, hu.cycling⟩

/-- A handler that starts with the flow on track finds it ready. -/
theorem ready_of_next (hf : f.Safe) (hnamed : f.prog.Named)
    (hshape : ∀ v, v < f.prog.whileCount → f.prog.LoopShape v) (hnext : NextSpec f (some p) g)
    (hinv : LoopInv P [] g) (hreq : g.prog.request p = some r) (htrack : OnTrack g p.node) :
    Ready (countIteration g r) p r := by
  have hg := hnext.safe hf
  obtain ⟨hcur, hpos, hprev⟩ := hnext.cursor hf p rfl
  have hprog := hnext.same.prog
  have hsafe := safe_countIteration hg r
  have hfresh := (hinv.count r).fresh
  have hcount := countIteration_prog g r
  have htrack' : OnTrack (countIteration g r) p.node := by
    refine htrack.move hg (hg.current_lt hcur) hcount ?_ ?_
    · unfold countIteration
      split <;> exact fun _ _ => rfl
    · unfold countIteration
      split <;> rfl
  refine ⟨hsafe, ?_, ?_, hfresh, htrack', ?_, ?_, ?_, ?_⟩
  · rw [hcount, hprog]
    exact hnamed
  · rw [hcount, hprog]
    exact hshape
  · unfold countIteration
    split <;> exact hcur
  · unfold countIteration
    split <;> exact hpos
  · rw [(countIteration_eq g r).2]
    exact hprev
  · rw [hcount]
    exact hreq

/-- Where the flow is does not depend on its other fields. -/
theorem Tracked.frame (h : Tracked f pc) (logs : List String) (cancel : Bool)
    (interrupted : Option ReqPtr) :
    Tracked { f with logs := logs, cancel := cancel, interrupted := interrupted } pc := by
  cases h with
  | inside hcur h hpc => exact Tracked.inside hcur ⟨h.chain, h.cycling⟩ hpc
  | leaving hcur hend hparent hq h hpc =>
    exact Tracked.leaving hcur hend hparent hq ⟨h.chain, h.cycling⟩ hpc

theorem Tracked.routeResult (h : Tracked f pc) (r : ApplicationRequest) :
    Tracked (routeResult f r) pc := by
  rw [routeResult_frame]
  exact h.frame _ _ f.interrupted

/-- On a clear way no limiter sends the run elsewhere. -/
theorem Clear.not_exhausted (hclear : Clear w s) (hsafe : s.flow.Safe)
    (hnext : NextSpec s.flow (some p) g) (hreq : g.prog.request p = some r) :
    exhausted g r ≠ some l := by
  intro hex
  have hno := (hclear _ _ _ (nextRequest_of_spec hsafe hnext) hreq).1
  rw [hno] at hex
  cases hex

/-- One iteration: `Route` returns, or both dispatch the same request. -/
theorem Tracks.step (hnamed : P.Named) (hshape : ∀ v, v < P.whileCount → P.LoopShape v)
    (h : Tracks P s c) (hclear : s.returned = false → Clear w s)
    (hstep : routeStep w s = .ok s') : Tracks P s' c ∨ Tracks P s' (c.step w P) := by
  cases hret : s.returned with
  | true =>
    rw [routeStep_returned w hret] at hstep
    cases hstep
    exact Or.inl h
  | false =>
    obtain ⟨s₁, heq, hspec⟩ := routeStep_spec w h.safe hret
    rw [heq] at hstep
    cases hstep
    have hsafe := hspec.safe h.safe
    have hprog' := hspec.prog.trans h.prog
    obtain ⟨g, hnext, htrack⟩ := (h.track hret).next h.safe
    rw [h.prog] at hnext htrack
    have hinv := h.inv.next hnext
    have hclear := hclear hret
    -- `Route` finds the request at which the machine's continuation starts, so there is nothing
    -- left for either, or both dispatch it
    cases hspec with
    | returned htop =>
      generalize ht : ((Top.returned, _) : Top × Flow) = t at htop
      cases htop with
      | finished hnext' =>
        cases ht
        obtain ⟨hfetch, rfl⟩ := nextSpec_unique hnext hnext'
        exact Or.inl ⟨hsafe, hprog', hinv, h.env, h.trace,
          fun hf => (by cases hf), fun _ _ => hfetch⟩
      | cancelled hnext' hcancel =>
        cases ht
        obtain ⟨-, rfl⟩ := nextSpec_unique hnext hnext'
        refine Or.inl ⟨hsafe, hprog', hinv, h.env, h.trace,
          fun hf => (by cases hf), fun _ hc => ?_⟩
        rw [hcancel] at hc
        cases hc
      | failover hnext' _ hreq hex =>
        exact absurd hex (hclear.not_exhausted h.safe hnext' hreq)
      | start => cases ht
    | again htop =>
      generalize ht : ((Top.again, _) : Top × Flow) = t at htop
      cases htop with
      | finished | cancelled | start => cases ht
      | failover hnext' _ hreq hex =>
        exact absurd hex (hclear.not_exhausted h.safe hnext' hreq)
    | @dispatched p f₁ r hd htop hrequest hhandles =>
      right
      obtain ⟨f₀, hnext', -, hreq, -, rfl⟩ := htop.start_inv
      obtain ⟨hfetch, rfl⟩ := nextSpec_unique hnext hnext'
      have hprog := hnext.same.prog.trans h.prog
      obtain ⟨-, hbudget, hgoto⟩ := hclear p g r (nextRequest_of_spec h.safe hnext') hreq
      have hready : Ready (countIteration g r) p r := ready_of_next h.safe
        (by rw [h.prog]; exact hnamed) (by rw [h.prog]; exact hshape) hnext' hinv hreq
        (htrack p hfetch)
      have hcount := countIteration_prog g r
      have htracked := hready.handle (by rw [(countIteration_eq g r).1, hcount]; exact hbudget)
        hgoto.count hrequest
      rw [hcount, hprog] at htracked
      rw [hprog] at hreq
      have hmachine : c.step w P = ⟨resume w s.env P p r, w.next s.env r.app, c.trace ++ [p]⟩ := by
        unfold Cont.step
        rw [hfetch]
        dsimp only
        rw [hreq, h.env]
      -- a handler that does not get to its end leaves the loops as the count has them
      have hinv₁ := hinv.count r
      have hinv₂ := (hinv₁.handled (p := p) (by rw [hcount, hprog]; exact hreq) hhandles).forget
      have htrace : ∀ d : Dispatch, d.ptr = p → (s.trace ++ [d]).map (·.ptr) = c.trace ++ [p] := by
        rintro d rfl
        rw [List.map_append, h.trace]
        rfl
      rw [hmachine]
      cases hb : w.select s.env r.app with
      | result =>
        rw [hb] at hsafe hprog'
        exact ⟨hsafe, hprog', hinv₂.routeResult r, rfl, htrace _ rfl,
          fun _ => htracked.routeResult r, fun hr hc => absurd (hr.symm.trans hc) (by simp)⟩
      | done ran =>
        rw [hb] at hsafe hprog'
        refine ⟨hsafe, hprog', ?_, rfl, htrace _ rfl, fun hr => (by cases hr),
          fun _ hc => (by cases hc)⟩
        cases ran with
        | true => exact hinv₂.congr (Program.SameHeap.refl _) rfl rfl
        | false => exact hinv₁.congr (Program.SameHeap.refl _) rfl rfl

/-- A whole run: what `Route` dispatches is what the machine dispatches. -/
theorem Tracks.run (hnamed : P.Named) (hshape : ∀ v, v < P.whileCount → P.LoopShape v) {m : Nat}
    (h : Tracks P s c)
    (hclear : ∀ k s₁, routeN w k s = .ok s₁ → s₁.returned = false → Clear w s₁)
    (hrun : routeN w m s = .ok s') : ∃ k, Tracks P s' (c.run w P k) :=
  Loop.iterate_simulates (fun h hgood hstep => h.step hnamed hshape hgood hstep) m h hclear hrun

end Tracks

/-! ## Every jump -/

/-- The states in which `Goto` can be called: between two operations, for a limiter that is
used up, and by a handler. -/
inductive Visits (f₀ : Flow) : Flow → Prop where
  | rest (h : Run f₀ log f) : Visits f₀ f
  | limited {log : List Dispatch} {f f₁ : Flow} {p : ReqPtr} (h : Run f₀ log f)
      (hnext : f.nextRequest = .ok (some p, f₁)) : Visits f₀ f₁
  | handling {log : List Dispatch} {f f₁ : Flow} {p : ReqPtr} {r : ApplicationRequest}
      (h : Run f₀ log f) (htop : routeTop f = .ok (.start p r, f₁)) : Visits f₀ f₁

theorem Visits.inv {f₀ f : Flow} (h : Visits f₀ f) (hf₀ : f₀.Safe)
    (hinv : LoopInv f₀.prog [] f₀) : f.Safe ∧ LoopInv f₀.prog [] f := by
  cases h with
  | rest h => exact ⟨safe_of_run h hf₀, (loopInv_of_run h hf₀ hinv).forget⟩
  | limited h hnext =>
    have hf := safe_of_run h hf₀
    obtain ⟨r, f', heq, hspec⟩ := nextRequest_spec hf
    rw [hnext] at heq
    cases heq
    exact ⟨hspec.safe hf, ((loopInv_of_run h hf₀ hinv).next hspec).forget⟩
  | handling h htop =>
    have hf := safe_of_run h hf₀
    obtain ⟨t, heq, hspec⟩ := routeTop_spec hf
    rw [htop] at heq
    cases heq
    exact ⟨hspec.safe hf, ((loopInv_of_run h hf₀ hinv).top hspec).forget⟩

theorem Program.LoopShape.congr {P P' : Program} (h : P.LoopShape v)
    (hsame : P.SameHeap P') : P'.LoopShape v := by
  constructor
  · simpa only [hsame.whiles, hsame.nodes, Program.request_of_nodes hsame.nodes] using h.owner
  · simpa only [hsame.whiles, Program.request_of_nodes hsame.nodes,
      Program.getLength_of_nodes hsame.nodes] using h.last

/-- After a jump to `t` the saved positions and loops are those of the static continuation
of `t` exactly if the jump was undisturbed; and then, in every world, `Route` dispatches
what the machine dispatches from `t` on, as long as no budget is used up and later jumps
are undisturbed too. It ends by itself only where the machine does. -/
theorem goto_continuation {functions triggers : List (String × Applications)}
    {schema : Applications} {f g : Flow} {tag : String} {t : Tag}
    (hf : Visits (Flow.parsed functions triggers schema) f)
    (htag : f.prog.lookupTag tag = some t) (hgoto : f.goto tag = .ok (true, g)) :
    (OnTrack g t.parent ↔ Undisturbed f t) ∧
      (Undisturbed f t → ∀ (E : Type) (w : World E) (s : RouteState E), s.returned = false →
        s.flow = { g with logs := s.flow.logs, cancel := s.flow.cancel,
                          interrupted := s.flow.interrupted } →
        (∀ k s₁, routeN w k s = .ok s₁ → s₁.returned = false → Clear w s₁) →
        ∀ m s', routeN w m s = .ok s' →
          ∃ k, s'.trace.map (·.ptr) = (Cont.run w f.prog k
              ⟨⟨t.parent, t.idx⟩, s.env, s.trace.map (·.ptr)⟩).trace ∧
            (s'.returned = true → s'.flow.cancel = false →
              f.prog.fetch (Cont.run w f.prog k
                  ⟨⟨t.parent, t.idx⟩, s.env, s.trace.map (·.ptr)⟩).pc.node
                (Cont.run w f.prog k
                  ⟨⟨t.parent, t.idx⟩, s.env, s.trace.map (·.ptr)⟩).pc.index = none)) := by
  obtain ⟨hsafe, hinv⟩ := hf.inv (safe_parsed functions triggers schema)
    (loopInv_parsed functions triggers schema)
  obtain ⟨g', heq, hspec⟩ := goto_spec hsafe tag
  rw [hgoto] at heq
  cases heq
  have hprog : g.prog = f.prog := by
    have hframe := hspec.frame
    dsimp only at hframe
    rw [hframe]
  refine ⟨onTrack_goto hsafe htag hspec, ?_⟩
  intro hu E w s hret hflow hclear m s' hrun
  have hnamed : f.prog.Named :=
    (Program.named_parse functions triggers schema).of_nodes hinv.same.nodes
  have hshape : ∀ v, v < f.prog.whileCount → f.prog.LoopShape v := fun v hv =>
    (Program.loopShape_parse functions triggers schema v
      (by rwa [hinv.same.whileCount] at hv)).congr
      hinv.same
  -- from here on the starts are counted anew
  have hinv' : LoopInv f.prog [] f :=
    ⟨Program.SameHeap.refl _, hinv.fresh, by rw [hinv.same.whiles]; exact hinv.bound,
      fun _ => Nat.zero_le _⟩
  have htracks : Tracks f.prog s ⟨⟨t.parent, t.idx⟩, s.env, s.trace.map (·.ptr)⟩ := by
    refine ⟨?_, ?_, ?_, rfl, rfl, fun _ => ?_, fun hr => ?_⟩
    · rw [hflow]
      exact (hspec.safe hsafe).congr rfl rfl rfl
    · rw [hflow]
      exact hprog
    · rw [hflow]
      exact (hinv'.goto hspec).congr (Program.SameHeap.refl _) rfl rfl
    · rw [hflow]
      exact (tracked_goto hsafe htag hspec hu).frame _ _ _
    · rw [hret] at hr
      cases hr
  obtain ⟨k, hk⟩ := htracks.run hnamed hshape hclear hrun
  exact ⟨k, hk.trace, hk.ended⟩

/-- A tag inside an `if`. -/
def intoSchema : Applications :=
  [[("if", .obj [("expression", .str "a"), ("then", .arr
      [.obj [("inner", .null), ("tag", .str "in")]])])],
    [("last", .null)]]

/-- A request without a limit that is neither a loop nor a jump -/
def straight : Option ApplicationRequest → Bool
  | some ⟨_, .loop _, _⟩ => false
  | some ⟨app, _, none⟩ => app.name != "goto"
  | _ => false

theorem straight_clear {r : ApplicationRequest} (h : straight (some r) = true) :
    exhausted f r = none ∧
      (∀ v, r.args = .loop v → (f.counter v : Int) < (f.prog.whiles v).maxSteps) ∧
      GotoClear w e f r := by
  obtain ⟨app, args, limiter⟩ := r
  cases limiter with
  | some l => cases args <;> cases h
  | none =>
    cases args with
    | loop v => cases h
    | _ => exact ⟨rfl, nofun, fun hname => absurd hname (by simpa [straight] using h)⟩

/-- A jump into the `if` is undisturbed: the tagged item runs, then what follows the `if`. -/
theorem goto_continuation_into :
    ∃ t g, (Flow.new intoSchema).prog.lookupTag "in" = some t ∧
      (Flow.new intoSchema).goto "in" = .ok (true, g) ∧ Undisturbed (Flow.new intoSchema) t ∧
      ∀ m s, routeN steadyWorld m (routeStart g ()) = .ok s →
        ∃ k, s.trace.map (·.ptr)
          = (Cont.run steadyWorld (Flow.new intoSchema).prog k
              ⟨⟨t.parent, t.idx⟩, (), []⟩).trace := by
  have hsafe : (Flow.new intoSchema).Safe := safe_parsed [] [] intoSchema
  have htag : (Flow.new intoSchema).prog.lookupTag "in" = some ⟨1, 0⟩ := by decide +kernel
  have hplain : ∀ n < (Flow.new intoSchema).prog.nodeCount,
      ∀ j < (Flow.new intoSchema).prog.getLength n,
        straight ((Flow.new intoSchema).prog.request ⟨n, j⟩) = true := by decide +kernel
  obtain ⟨⟨ok, g⟩, hgoto, hspec⟩ := goto_spec hsafe "in"
  have hok : ok = true := by
    have heval : ((Flow.new intoSchema).goto "in").toOption.map (·.1) = some true := by
      decide +kernel
    rw [hgoto] at heval
    exact Option.some.inj heval
  subst hok
  have hu : Undisturbed (Flow.new intoSchema) ⟨1, 0⟩ := by
    refine ⟨fun n a _ ha => ?_, fun _ v _ hv => ?_⟩
    · have hparent : ((Flow.new intoSchema).prog.nodes 1).parent = some 0 := by decide +kernel
      cases Option.some.inj (hparent.symm.trans ha)
      exact Lined.root (by decide +kernel)
    · have hnone : (Flow.new intoSchema).prog.whileCount = 0 := by decide +kernel
      exact absurd hv (by rw [hnone]; simp)
  refine ⟨⟨1, 0⟩, g, htag, hgoto, hu, fun m s hrun => ?_⟩
  have hprog : g.prog = (Flow.new intoSchema).prog := by
    have hframe := hspec.frame
    dsimp only at hframe
    rw [hframe]
  obtain ⟨k, htrace, -⟩ :=
    (goto_continuation (Visits.rest Run.refl) htag hgoto).2 hu Unit steadyWorld
    (routeStart g ()) rfl rfl (fun k s₁ hk _ p f₁ r hnext hreq => by
      obtain ⟨hs₁, hprog₁⟩ := safe_routeN k (show (routeStart g ()).flow.Safe from
        (hspec.safe hsafe).congr rfl rfl rfl) hk
      obtain ⟨q, f', heq, hnext'⟩ := nextRequest_spec hs₁
      rw [hnext] at heq
      cases heq
      obtain ⟨hindex, hnode⟩ := hnext'.ptr hs₁ p rfl
      rw [hnext'.same.prog, hprog₁] at hreq
      rw [hprog₁] at hindex hnode
      change (g.prog.request p = some r) at hreq
      change p.index < g.prog.getLength p.node at hindex
      change p.node < g.prog.nodeCount at hnode
      rw [hprog] at hreq hindex hnode
      exact straight_clear (hreq ▸ hplain p.node hnode p.index hindex)) m s hrun
  exact ⟨k, htrace⟩

/-- A `goto` from the root into a block two levels down. -/
def crossSchema : Applications :=
  [[("goto", .str "deep")], [("skipped", .null)],
    [("if", .obj [("expression", .str "a"), ("then", .arr
      [.obj [("if", .obj [("expression", .str "b"), ("then", .arr
        [.obj [("inner", .null), ("tag", .str "deep")]])])]])])],
    [("last", .null)]]

/-- After the tagged item the flow runs the `goto` again, while the continuation of the
target goes on behind the outer `if`. -/
theorem goto_continuation_cross :
    ((routeN steadyWorld 4 (routeStart (Flow.new crossSchema) ())).toOption.map fun s =>
        s.trace.map (·.app.name)) = some ["goto", "inner", "goto", "inner"] ∧
      (Cont.run steadyWorld (Flow.new crossSchema).prog 4 ⟨⟨0, 0⟩, (), []⟩).trace.map
        (fun p => ((Flow.new crossSchema).prog.request p).map (·.app.name))
        = [some "goto", some "inner", some "last"] := by
  constructor <;> decide +kernel

end FlowManager
