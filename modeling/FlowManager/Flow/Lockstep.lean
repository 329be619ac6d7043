import FlowManager.Flow.While

/-!
# Flows that go on alike

What `Route` does from the head of its loop on depends on the program, the cursor, the
counters and `cancel`, but neither on the log nor on the recorded interruption, nor on the
phase of a loop that has no budget left. Two flows that agree on all that matters are
`Alike`, and stay so:

- `NextSpec.alike`, `GotoSpec.alike`, `request_alike`: one lemma per operation;
- `routeStep_alike`: one iteration;
- `routeN_alike`: any number of iterations, which start the same requests.
-/

namespace FlowManager

open Flow Function

/-- The two flows agree on everything that the rest of a run can depend on. -/
structure Alike (f f' : Flow) : Prop where
  prog : f'.prog = f.prog
  position : f'.position = f.position
  currentNode : f'.currentNode = f.currentNode
  counter : f'.counter = f.counter
  count : f'.count = f.count
  gotoCounter : f'.gotoCounter = f.gotoCounter
  cancel : f'.cancel = f.cancel
  step : ∀ v, f'.step v = f.step v ∨ (f.prog.whiles v).maxSteps ≤ f.counter v

variable {f f' g g' : Flow} {n : Nat}

theorem Alike.refl (f : Flow) : Alike f f :=
  ⟨rfl, rfl, rfl, rfl, rfl, rfl, rfl, fun _ => Or.inl rfl⟩

theorem Alike.safe (h : Alike f f') (hf : f.Safe) : f'.Safe :=
  hf.congr h.prog h.currentNode h.position

/-- Moving the cursor of both flows to the same place. -/
theorem Alike.move (h : Alike f f') :
    Alike { f with position := pos, currentNode := cur, prevRequest := prev }
      { f' with position := pos, currentNode := cur, prevRequest := prev' } :=
  ⟨h.prog, rfl, rfl, h.counter, h.count, h.gotoCounter, h.cancel, h.step⟩

/-! ## The cursor -/

theorem Flow.NextSpec.alike (hnext : NextSpec f r g) :
    ∀ {f' : Flow}, Alike f f' →
      ∃ g', NextSpec f' r g' ∧ Alike g g' ∧ g'.prevRequest = g.prevRequest := by
  induction hnext with
  | @here f n hcur hlt =>
    intro f' h
    have hhere := NextSpec.here (f := f') (h.currentNode.trans hcur)
      (by rw [h.position, h.prog]; exact hlt)
    rw [h.position] at hhere
    exact ⟨_, hhere,
      ⟨h.prog, rfl, h.currentNode, h.counter, h.count, h.gotoCounter, h.cancel, h.step⟩,
      rfl⟩
  | @up f g n p r hcur hend hparent _ ih =>
    intro f' h
    have hleave : Alike (f.leave n p) (f'.leave n p) := by
      unfold Flow.leave
      rw [h.position]
      exact h.move
    obtain ⟨g', hnext', hg, hprev⟩ := ih hleave
    exact ⟨g', NextSpec.up (h.currentNode.trans hcur) (by rw [h.position, h.prog]; exact hend)
      (by rw [h.prog]; exact hparent) hnext', hg, hprev⟩
  | @finish f n hcur hend hparent =>
    intro f' h
    have hfinish := NextSpec.finish (f := f') (h.currentNode.trans hcur)
      (by rw [h.position, h.prog]; exact hend) (by rw [h.prog]; exact hparent)
    rw [h.position] at hfinish
    exact ⟨_, hfinish, ⟨h.prog, rfl, h.currentNode, h.counter, h.count, h.gotoCounter, h.cancel,
      h.step⟩, rfl⟩

theorem Alike.setPosition (h : Alike f f') (pos : Int) :
    Alike (f.setPosition n pos) (f'.setPosition n pos) := by
  refine ⟨h.prog, ?_, h.currentNode, h.counter, h.count, h.gotoCounter, h.cancel, h.step⟩
  show update f'.position n pos = update f.position n pos
  rw [h.position]

theorem Alike.setRoot (h : Alike f f') : Alike (f.setRoot n) (f'.setRoot n) :=
  ⟨h.prog, h.position, rfl, h.counter, h.count, h.gotoCounter, h.cancel, h.step⟩

theorem Flow.Completes.alike (hc : Completes f n g) : ∀ {f' g' : Flow}, Completes f' n g' →
    Alike f f' → Alike g g' := by
  induction hc with
  | @stop f n hstop =>
    intro f' g' hc' h
    cases hc' with
    | stop => exact h
    | up hparent hzero =>
      rw [h.prog] at hparent
      rw [h.position] at hzero
      rcases hstop with hnone | hne
      · rw [hnone] at hparent
        cases hparent
      · exact absurd hzero hne
  | @up f g n p hparent hzero _ ih =>
    intro f' g' hc' h
    cases hc' with
    | stop hstop =>
      rw [h.prog, h.position] at hstop
      rcases hstop with hnone | hne
      · rw [hnone] at hparent
        cases hparent
      · exact absurd hzero hne
    | up hparent' _ hnext' =>
      rw [h.prog] at hparent' hnext'
      cases Option.some.inj (hparent.symm.trans hparent')
      exact ih hnext' (h.setPosition _)

theorem Flow.Repairs.alike (hr : Repairs f c g) (hr' : Repairs f' c g') (h : Alike f f') :
    Alike g g' := by
  cases hr with
  | root hroot =>
    cases hr' with
    | root => exact h
    | top hparent | climb hparent => rw [h.prog, hroot] at hparent; cases hparent
  | top hparent hroot =>
    cases hr' with
    | root hroot' => rw [h.prog, hparent] at hroot'; cases hroot'
    | top hparent' =>
      rw [h.prog] at hparent' ⊢
      cases Option.some.inj (hparent.symm.trans hparent')
      exact h.setPosition _
    | climb hparent' hgrand' =>
      rw [h.prog] at hparent' hgrand'
      cases Option.some.inj (hparent.symm.trans hparent')
      rw [hroot] at hgrand'
      cases hgrand'
  | climb hparent hgrand hcomplete =>
    cases hr' with
    | root hroot' => rw [h.prog, hparent] at hroot'; cases hroot'
    | top hparent' hroot' =>
      rw [h.prog] at hparent' hroot'
      cases Option.some.inj (hparent.symm.trans hparent')
      rw [hgrand] at hroot'
      cases hroot'
    | climb hparent' hgrand' hcomplete' =>
      rw [h.prog] at hparent' hgrand' hcomplete'
      cases Option.some.inj (hparent.symm.trans hparent')
      cases Option.some.inj (hgrand.symm.trans hgrand')
      exact hcomplete.alike hcomplete' (h.setPosition _)

/-- `Goto` succeeds in both flows or in none. -/
theorem Flow.GotoSpec.alike (hr : GotoSpec f tag r) (hr' : GotoSpec f' tag r') (h : Alike f f') :
    r'.1 = r.1 ∧ Alike r.2 r'.2 := by
  cases hr with
  | refused hno =>
    cases hr' with
    | refused => exact ⟨rfl, h⟩
    | jumped hcount htag =>
      rw [h.gotoCounter] at hcount
      rw [h.prog] at htag
      rcases hno with hno | hno
      · omega
      · rw [hno] at htag
        cases htag
  | @jumped t m f₁ hcount htag hcur hrepairs =>
    cases hr' with
    | refused hno =>
      rw [h.gotoCounter, h.prog] at hno
      rcases hno with hno | hno
      · omega
      · rw [htag] at hno
        cases hno
    | @jumped t' m' f₁' _ htag' hcur' hrepairs' =>
      rw [h.prog] at htag'
      rw [h.currentNode] at hcur'
      cases Option.some.inj (htag.symm.trans htag')
      cases Option.some.inj (hcur.symm.trans hcur')
      have hg := hrepairs.alike hrepairs' (((h.setPosition 0).setRoot).setPosition _)
      refine ⟨rfl, hg.prog, hg.position, hg.currentNode, hg.counter, hg.count, ?_, hg.cancel,
        hg.step⟩
      show f₁'.gotoCounter + 1 = f₁.gotoCounter + 1
      rw [hg.gotoCounter]

theorem goto_alike (hf : f.Safe) (h : Alike f f') (hr : f.goto tag = .ok r) :
    ∃ g', f'.goto tag = .ok (r.1, g') ∧ Alike r.2 g' := by
  obtain ⟨r₁, heq₁, hspec₁⟩ := goto_spec hf tag
  rw [hr] at heq₁
  cases heq₁
  obtain ⟨⟨ok, g'⟩, heq, hspec⟩ := goto_spec (h.safe hf) tag
  obtain ⟨hok, hg⟩ := hspec₁.alike hspec h
  subst hok
  exact ⟨g', heq, hg⟩

/-! ## Handlers -/

section Handlers

variable {E : Type} (w : World E) (e : E)

/-- What both handlers report, and how they leave the flows. -/
structure HandledAlike (h h' : Handled) : Prop where
  flow : Alike h.flow h'.flow
  checked : h'.checked = h.checked
  entered : h'.entered = h.entered

section

variable (h : Alike f f')
include h

theorem Alike.enter : Alike (f.enter n) (f'.enter n) :=
  (h.setPosition 0).setRoot

theorem Alike.setCancel : Alike f.setCancel f'.setCancel :=
  ⟨h.prog, h.position, h.currentNode, h.counter, h.count, h.gotoCounter, rfl, h.step⟩

theorem Alike.setInterrupted : Alike (f.setInterrupted p) (f'.setInterrupted p') :=
  ⟨h.prog, h.position, h.currentNode, h.counter, h.count, h.gotoCounter, h.cancel, h.step⟩

theorem conditionHandler_alike (args : Args) :
    HandledAlike (conditionHandler w e f args) (conditionHandler w e f' args) := by
  cases args with
  | condition expression then_ else_ =>
    dsimp only [conditionHandler]
    rcases w.condition e expression with _ | _ | _
    · exact ⟨h, rfl, rfl⟩
    · exact ⟨h.enter, rfl, rfl⟩
    · exact ⟨h.enter, rfl, rfl⟩
  | _ => exact ⟨h, rfl, rfl⟩

theorem switchHandler_alike (args : Args) :
    HandledAlike (switchHandler w e f args) (switchHandler w e f' args) := by
  cases args with
  | switch text cases =>
    dsimp only [switchHandler]
    cases lookupCase cases (w.parseText e text) with
    | some n => exact ⟨h.enter, rfl, rfl⟩
    | none =>
      cases lookupCase cases "default" with
      | some n => exact ⟨h.enter, rfl, rfl⟩
      | none => exact ⟨h, rfl, rfl⟩
  | _ => exact ⟨h, rfl, rfl⟩

theorem breakHandler_alike (args : Args) :
    HandledAlike (breakHandler f args) (breakHandler f' args) := by
  cases args with
  | brk => exact ⟨h.setCancel, rfl, rfl⟩
  | _ => exact ⟨h, rfl, rfl⟩

theorem Alike.endCycle (v : Nat) : Alike (endCycle f v) (endCycle f' v) := by
  refine ⟨h.prog, h.position, h.currentNode, h.counter, h.count, h.gotoCounter, h.cancel,
    fun u => ?_⟩
  show update f'.step v 0 u = update f.step v 0 u ∨ _
  by_cases hu : u = v
  · rw [hu, update_self, update_self]
    exact Or.inl rfl
  · rw [update_of_ne hu, update_of_ne hu]
    exact h.step u

theorem Alike.resetCycle (hprev : f'.prevRequest = f.prevRequest) (v : Nat) :
    Alike (resetCycle f v) (resetCycle f' v) := by
  unfold FlowManager.resetCycle
  rw [h.counter, hprev, h.prog]
  split
  · exact h.endCycle v
  · exact h

theorem Alike.addStep (hv : f'.step v = f.step v) : Alike (addStep f v) (addStep f' v) := by
  refine ⟨h.prog, h.position, h.currentNode, h.counter, h.count, h.gotoCounter, h.cancel,
    fun u => ?_⟩
  show update f'.step v (f'.step v + 1) u = update f.step v (f.step v + 1) u ∨ _
  by_cases hu : u = v
  · rw [hu, update_self, update_self, hv]
    exact Or.inl rfl
  · rw [update_of_ne hu, update_of_ne hu]
    exact h.step u

/-- Counting a cycle in both flows; a loop without budget stays one. -/
theorem Alike.addCounter (v : Nat) : Alike (addCounter f v) (addCounter f' v) := by
  refine ⟨h.prog, h.position, h.currentNode, ?_, h.count, h.gotoCounter, h.cancel, fun u => ?_⟩
  · show update f'.counter v (f'.counter v + 1) = update f.counter v _
    rw [h.counter]
  · show _ ∨ _ ≤ ((update f.counter v (f.counter v + 1) u : Nat) : Int)
    rcases h.step u with hs | hs
    · exact Or.inl hs
    · right
      by_cases hu : u = v
      · subst hu
        rw [update_self]
        push_cast
        exact le_trans hs (by omega)
      · rw [update_of_ne hu]
        exact hs

theorem runCycle_alike (hv : f'.step v = f.step v) :
    HandledAlike (runCycle w e f v) (runCycle w e f' v) := by
  dsimp only [runCycle, nextStep]
  rw [hv, h.prog]
  split
  · split
    · exact ⟨(h.endCycle v).addCounter v, rfl, rfl⟩
    · exact ⟨(h.enter.addStep hv).addCounter v, rfl, rfl⟩
  · exact ⟨(h.endCycle v).addCounter v, rfl, rfl⟩

theorem whileHandler_alike (hprev : f'.prevRequest = f.prevRequest)
    (args : Args) : HandledAlike (whileHandler w e f args) (whileHandler w e f' args) := by
  cases args with
  | loop v =>
    have hreset := h.resetCycle hprev v
    rcases whileHandler_cases w e f v with ⟨hle, heq⟩ | ⟨hlt, heq⟩
    · rcases whileHandler_cases w e f' v with ⟨-, heq'⟩ | ⟨hlt', -⟩
      · rw [heq, heq']
        exact ⟨hreset, rfl, rfl⟩
      · rw [h.counter, h.prog] at hlt'
        omega
    · rcases whileHandler_cases w e f' v with ⟨hle', -⟩ | ⟨-, heq'⟩
      · rw [h.counter, h.prog] at hle'
        omega
      · rw [heq, heq']
        refine runCycle_alike w e hreset ?_
        -- the phase of a loop with budget left is the same
        rcases hreset.step v with hs | hs
        · exact hs
        · rw [resetCycle_prog, (resetCycle_eq f v).1] at hs
          omega
  | _ => exact ⟨h, rfl, rfl⟩

end

theorem gotoTag_alike (hf : f.Safe) (h : Alike f f') (hgoto : gotoTag w e f args = .ok hd) :
    ∃ hd', gotoTag w e f' args = .ok hd' ∧ HandledAlike hd hd' := by
  unfold gotoTag at hgoto ⊢
  cases htag : w.decodeTag e args with
  | none =>
    rw [htag] at hgoto
    cases hgoto
    exact ⟨_, rfl, h, rfl, rfl⟩
  | some tag =>
    rw [htag] at hgoto
    dsimp only at hgoto ⊢
    obtain ⟨r, hr, -⟩ := goto_spec hf tag
    rw [hr] at hgoto
    cases hgoto
    obtain ⟨g', heq, hg⟩ := goto_alike hf h hr
    rw [heq]
    exact ⟨_, rfl, hg, rfl, rfl⟩

/-- Every handler does the same to flows that are alike. -/
theorem request_alike (hf : f.Safe) (h : Alike f f') (hprev : f'.prevRequest = f.prevRequest)
    (hrequest : request w e f r = .ok hd) :
    ∃ hd', request w e f' r = .ok hd' ∧ HandledAlike hd hd' := by
  unfold request at hrequest ⊢
  split at hrequest
  · cases hrequest
    exact ⟨_, rfl, conditionHandler_alike w e h r.args⟩
  · cases hrequest
    exact ⟨_, rfl, whileHandler_alike w e h hprev r.args⟩
  · cases hrequest
    exact ⟨_, rfl, switchHandler_alike w e h r.args⟩
  · cases hrequest
    exact ⟨_, rfl, breakHandler_alike h r.args⟩
  · exact gotoTag_alike w e hf h hrequest
  · cases hrequest
    refine ⟨_, rfl, ?_, rfl, rfl⟩
    split
    · exact h.setCancel
    · exact h

end Handlers

/-! ## Iterations -/

section Loop

variable {E : Type} {w : World E} {s s' : RouteState E}

theorem Alike.exhausted (h : Alike f f') (r : ApplicationRequest) :
    exhausted f' r = exhausted f r := by
  unfold FlowManager.exhausted Flow.maxCount
  rw [h.prog, h.count]

theorem Alike.countIteration (h : Alike f f') (r : ApplicationRequest) :
    Alike (countIteration f r) (countIteration f' r) := by
  unfold FlowManager.countIteration
  cases r.limiter with
  | none => exact h
  | some l =>
    refine ⟨h.prog, h.position, h.currentNode, h.counter, ?_, h.gotoCounter, h.cancel, h.step⟩
    show update f'.count l (f'.count l + 1) = update f.count l (f.count l + 1)
    rw [h.count]

theorem routeTop_alike (hf : f.Safe) (h : Alike f f') (htop : routeTop f = .ok t) :
    ∃ g', routeTop f' = .ok (t.1, g') ∧ Alike t.2 g' ∧
      (∀ p r, t.1 = .start p r → g'.prevRequest = t.2.prevRequest) := by
  obtain ⟨t', heq, hspec⟩ := routeTop_spec hf
  rw [htop] at heq
  cases heq
  have hf' := h.safe hf
  cases hspec with
  | finished hnext =>
    obtain ⟨g', hnext', hg, -⟩ := hnext.alike h
    exact ⟨g', routeTop_of_spec hf' (TopSpec.finished hnext'), hg, fun p r hp => by cases hp⟩
  | cancelled hnext hcancel =>
    obtain ⟨g', hnext', hg, -⟩ := hnext.alike h
    exact ⟨g', routeTop_of_spec hf' (TopSpec.cancelled hnext' (hg.cancel.trans hcancel)), hg,
      fun p r hp => by cases hp⟩
  | @failover p f₁ r l g hnext hcancel hreq hex hgoto hspec =>
    obtain ⟨g₁, hnext', hg, -⟩ := hnext.alike h
    obtain ⟨⟨ok, g'⟩, hgoto', hspec'⟩ := goto_spec (hnext'.safe hf') (g₁.prog.limiters l).failover
    have hspec₁ := hspec'
    rw [hg.prog] at hspec₁
    obtain ⟨hok, hg'⟩ := hspec.alike hspec₁ hg
    have htop' := routeTop_of_spec hf' (TopSpec.failover hnext' (hg.cancel.trans hcancel)
      (by rw [hg.prog]; exact hreq) (by rw [hg.exhausted]; exact hex) hgoto' hspec')
    rw [hok] at htop'
    refine ⟨g', htop', hg', fun p r hp => ?_⟩
    split at hp <;> cases hp
  | @start p f₁ r hnext hcancel hreq hex =>
    obtain ⟨g₁, hnext', hg, hprev⟩ := hnext.alike h
    refine ⟨_, routeTop_of_spec hf' (TopSpec.start hnext' (hg.cancel.trans hcancel)
      (by rw [hg.prog]; exact hreq) (by rw [hg.exhausted]; exact hex)), hg.countIteration r,
      fun _ _ _ => ?_⟩
    rw [(countIteration_eq g₁ r).2, (countIteration_eq f₁ r).2, hprev]

/-- The two calls of `Route` are alike. -/
structure RoutesAlike (s s' : RouteState E) : Prop where
  flow : Alike s.flow s'.flow
  env : s'.env = s.env
  returned : s'.returned = s.returned

theorem routeResult_alike (h : Alike f f') (r : ApplicationRequest) :
    Alike (routeResult f r) (routeResult f' r) := by
  have hcancel : (routeResult f' r).cancel = (routeResult f r).cancel := by
    unfold routeResult
    cases r.app.log <;> (dsimp only; split <;> first | rfl | exact h.cancel)
  rw [routeResult_frame f r, routeResult_frame f' r, hcancel]
  exact ⟨h.prog, h.position, h.currentNode, h.counter, h.count, h.gotoCounter, rfl, h.step⟩

/-- One iteration. -/
theorem routeStep_alike (hf : s.flow.Safe) (h : RoutesAlike s s') (hstep : routeStep w s = .ok t) :
    ∃ t' rest, routeStep w s' = .ok t' ∧ RoutesAlike t t' ∧ t.trace = s.trace ++ rest ∧
      t'.trace = s'.trace ++ rest := by
  cases hret : s.returned with
  | true =>
    rw [routeStep_returned w hret] at hstep
    cases hstep
    exact ⟨s', [], routeStep_returned w (h.returned.trans hret), h, by simp, by simp⟩
  | false =>
    obtain ⟨⟨top, f₁⟩, htop, hspec⟩ := routeTop_spec hf
    obtain ⟨g₁, htop', hg, hprev⟩ := routeTop_alike hf h.flow htop
    have hrun : s'.returned = false := h.returned.trans hret
    unfold routeStep at hstep ⊢
    rw [hret, htop] at hstep
    rw [hrun, htop']
    -- the two flows take the same way through the iteration
    cases top with
    | returned | again =>
      cases hstep
      exact ⟨_, [], rfl, ⟨hg, h.env, rfl⟩, by simp, by simp⟩
    | start p r =>
      obtain ⟨hd, hrequest, -⟩ := request_spec (hspec.safe hf) w s.env r
      obtain ⟨hd', hrequest', hh⟩ :=
        request_alike w s.env (hspec.safe hf) hg (hprev p r rfl) hrequest
      simp only [routeSelect, bind, Except.bind, hrequest, pure, Except.pure] at hstep
      simp only [routeSelect, bind, Except.bind, h.env, hrequest', pure, Except.pure]
      cases hstep
      cases w.select s.env r.app with
      | result =>
        refine ⟨_, [⟨p, r.app, hd.checked, hd.entered⟩], rfl, ⟨routeResult_alike hh.flow r, ?_, ?_⟩,
          rfl, ?_⟩
        · show w.next s'.env r.app = w.next s.env r.app
          rw [h.env]
        · exact (routeResult_alike hh.flow r).cancel
        · show s'.trace ++ [⟨p, r.app, hd'.checked, hd'.entered⟩] = _
          rw [hh.checked, hh.entered]
      | done ran =>
        have hsel : HandledAlike (selected f₁ hd (.done ran)) (selected g₁ hd' (.done ran)) := by
          cases ran with
          | true => exact hh
          | false => exact ⟨hg, rfl, rfl⟩
        refine ⟨_, [⟨p, r.app, (selected f₁ hd (.done ran)).checked,
          (selected f₁ hd (.done ran)).entered⟩], rfl, ⟨?_, ?_, rfl⟩, rfl, ?_⟩
        · exact hsel.flow.setCancel.setInterrupted
        · show w.next s'.env r.app = w.next s.env r.app
          rw [h.env]
        · show s'.trace ++ [⟨p, r.app, (selected g₁ hd' (.done ran)).checked,
            (selected g₁ hd' (.done ran)).entered⟩] = _
          rw [hsel.checked, hsel.entered]

/-- Any number of iterations: both calls start the same requests. -/
theorem routeN_alike : ∀ (n : Nat) {s s' t : RouteState E}, s.flow.Safe → RoutesAlike s s' →
    routeN w n s = .ok t →
    ∃ t' rest, routeN w n s' = .ok t' ∧ RoutesAlike t t' ∧ t.trace = s.trace ++ rest ∧
      t'.trace = s'.trace ++ rest := by
  intro n
  induction n with
  | zero =>
    intro s s' t _ h hrun
    cases hrun
    exact ⟨s', [], rfl, h, by simp, by simp⟩
  | succ n ih =>
    intro s s' t hf h hrun
    obtain ⟨s₁, hstep, hrest⟩ := Loop.iterate_succ_inv hrun
    obtain ⟨s₁', d, hstep', h₁, htrace, htrace'⟩ := routeStep_alike hf h hstep
    obtain ⟨t', rest, hrun', ht, hrest₁, hrest₂⟩ := ih (safe_routeStep hf hstep) h₁ hrest
    refine ⟨t', d ++ rest, ?_, ht, ?_, ?_⟩
    · show Loop.iterate (routeStep w) (n + 1) s' = .ok t'
      rw [Loop.iterate_succ hstep']
      exact hrun'
    · rw [hrest₁, htrace, List.append_assoc]
    · rw [hrest₂, htrace', List.append_assoc]

end Loop

end FlowManager
