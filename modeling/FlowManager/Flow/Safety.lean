import FlowManager.Flow.Steps

/-!
# Cursor safety

Whatever is done to a flow, every index it uses stays inside its slice: `Flow.Safe`
holds after parsing (`Flow.safe_parsed`) and every operation keeps it, so it holds
after every sequence of operations (`safe_of_run`). `run_inRange` spells out what that
means for the fields of the flow and for the panics of Go.
-/

namespace FlowManager

open Flow

variable {f f' f₀ : Flow} {log : List Dispatch}

/-- The maps that a flow shares with its forks do not matter to the cursor. -/
theorem Flow.Safe.declared (hf : f.Safe) (functions triggers : List (String × Applications)) :
    Flow.Safe { f with prog := { f.prog with functions := functions, triggers := triggers } } := by
  have hsame : f.prog.SameHeap { f.prog with functions := functions, triggers := triggers } :=
    ⟨⟨rfl, rfl, rfl, rfl⟩, rfl⟩
  exact ⟨hsame.building hf.wf, hf.current, hf.position⟩

theorem Flow.Safe.reset (hf : f.Safe) : f.reset.Safe := by
  obtain ⟨n, hcur, -⟩ := hf.current
  unfold Flow.reset
  rw [hcur]
  exact hf.setFirst.congr rfl rfl rfl

theorem rewindTo_eq_some (h : f.rewindTo names = some t) :
    0 ≤ t.2 ∧ t.2 < f.prog.getLength t.1 := by
  unfold Flow.rewindTo at h
  split at h
  · split at h
    · dsimp only at h
      split at h
      · cases h
        dsimp only
        omega
      · cases h
    · cases h
  · cases h

theorem Flow.Safe.repeatInterrupted (hf : f.Safe) (names : List String) :
    (f.repeatInterrupted names).2.Safe := by
  unfold Flow.repeatInterrupted
  have hint : (f.setInterrupted none).Safe := hf.congr rfl rfl rfl
  cases h : f.rewindTo names with
  | none => exact hint
  | some t =>
    obtain ⟨hlo, hhi⟩ := rewindTo_eq_some h
    exact hint.setPosition hlo (le_of_lt hhi)

/-- An iteration of `Route` keeps a flow safe. -/
theorem safe_routeStep {E : Type} {w : World E} {s s' : RouteState E} (hf : s.flow.Safe)
    (h : routeStep w s = .ok s') : s'.flow.Safe := by
  by_cases hret : s.returned = true
  · rw [routeStep_returned w hret] at h
    cases h
    exact hf
  · obtain ⟨s₁, heq, hspec⟩ := routeStep_spec w hf (by simpa using hret)
    rw [heq] at h
    cases h
    exact hspec.safe hf

/-- Any number of iterations keeps a flow safe and its program the same. -/
theorem safe_routeN {E : Type} {w : World E} : ∀ (n : Nat) {s s' : RouteState E}, s.flow.Safe →
    routeN w n s = .ok s' → s'.flow.Safe ∧ s'.flow.prog = s.flow.prog := by
  intro n
  induction n with
  | zero =>
    intro s s' hf h
    cases h
    exact ⟨hf, rfl⟩
  | succ n ih =>
    intro s s' hf h
    obtain ⟨s₁, hstep, hrest⟩ := Loop.iterate_succ_inv h
    obtain ⟨hs', hprog⟩ := ih (safe_routeStep hf hstep) hrest
    refine ⟨hs', hprog.trans ?_⟩
    by_cases hret : s.returned = true
    · rw [routeStep_returned w hret] at hstep
      cases hstep
      rfl
    · obtain ⟨s₂, heq, hspec⟩ := routeStep_spec w hf (by simpa using hret)
      rw [heq] at hstep
      cases hstep
      exact hspec.prog

/-- Every operation keeps a flow safe. -/
theorem safe_of_run (h : Run f₀ log f) (hf₀ : f₀.Safe) : f.Safe := by
  induction h with
  | refl => exact hf₀
  | route w _ _ hstep ih => exact safe_routeStep ih hstep
  | setInterrupted _ ih | setCancel _ ih | clearCancel _ ih => exact ih.congr rfl rfl rfl
  | @goto _ f tag _ _ hgoto ih =>
    obtain ⟨g, heq, hspec⟩ := goto_spec ih tag
    rw [heq] at hgoto
    cases hgoto
    exact hspec.safe ih
  | reset _ ih => exact ih.reset
  | repeatInterrupted names _ ih => exact ih.repeatInterrupted names
  | fork schema _ ih => exact ih.declared _ _
  | declared functions triggers _ ih => exact ih.declared functions triggers

/-! ## In terms of the flow's fields -/

/-- The indices that a flow stores are the right ones. -/
structure Flow.InRange (f : Flow) : Prop where
  /-- each node's position is between 0 and the number of its children -/
  position : ∀ n, n < f.prog.nodeCount →
    0 ≤ f.position n ∧ f.position n ≤ f.prog.getLength n
  /-- a node's `idx` is the index, in its parent, of the only request there that owns it -/
  owner : ∀ n, n ≠ 0 → n < f.prog.nodeCount → ∃ p r, (f.prog.nodes n).parent = some p ∧
    p < f.prog.nodeCount ∧ f.prog.request ⟨p, (f.prog.nodes n).idx⟩ = some r ∧
    f.prog.Owns n r.args ∧
    ∀ k r', f.prog.request ⟨p, k⟩ = some r' → f.prog.Owns n r'.args → k = (f.prog.nodes n).idx
  /-- a tag points into its node -/
  tag : ∀ e ∈ f.prog.tags, e.2.parent < f.prog.nodeCount ∧ e.2.idx < f.prog.getLength e.2.parent

/-- No operation of the cursor dies. -/
structure Flow.NoPanic (f : Flow) : Prop where
  setPreviousRequest : ∃ f', f.setPreviousRequest = .ok f'
  next : ∃ r, f.next = .ok r
  nextRequest : ∃ r, f.nextRequest = .ok r
  goto : ∀ tag, ∃ r, f.goto tag = .ok r
  routeStep : ∀ (E : Type) (w : World E) (s : RouteState E), s.flow = f →
    ∃ s', routeStep w s = .ok s'

/-- A request of node `p` that owns a block of `p` stands at the block's `idx`. -/
theorem owner_index {P : Program} (hwf : P.WellFormed)
    (hn : n < P.nodeCount) (hparent : (P.nodes n).parent = some p)
    (hr : P.request ⟨p, k⟩ = some r) (howns : P.Owns n r.args) : k = (P.nodes n).idx := by
  have hpn := hwf.parent_lt hn hparent
  have hargs := hwf.args ⟨p, k⟩ r (lt_trans hpn hn) hr
  cases ha : r.args with
  | raw | brk => rw [ha] at howns; exact absurd howns id
  | condition ex t el =>
    rw [ha] at howns hargs
    rcases howns with rfl | rfl
    · exact hargs.1.idx.symm
    · exact hargs.2.idx.symm
  | switch text cases =>
    rw [ha] at howns hargs
    obtain ⟨name, hmem⟩ := howns
    exact (hargs _ hmem).idx.symm
  | loop wid =>
    rw [ha] at howns hargs
    change (P.whiles wid).do_ = n at howns
    rcases hargs.2.2 with he | he
    · rw [← howns]
      exact he.block.idx.symm
    · -- the copy at the end of a `do` block is inside the block, not in its parent
      have hpn' : n = p := howns.symm.trans he.block
      omega

theorem inRange_of_safe (hf : f.Safe) : f.InRange := by
  refine ⟨hf.position, fun n hn hlt => ?_, hf.wf.tags⟩
  obtain ⟨p, hp, hpn⟩ := hf.wf.parent n (Nat.pos_of_ne_zero hn) hlt
  obtain ⟨r, hr, howns⟩ := hf.wf.owned n hlt (Set.notMem_empty n) p hp
  exact ⟨p, r, hp, lt_trans hpn hlt, hr, howns, fun k r' => owner_index hf.wf hlt hp⟩

theorem noPanic_of_safe (hf : f.Safe) : f.NoPanic := by
  obtain ⟨n, hcur, hlt⟩ := hf.current
  obtain ⟨hlo, hhi⟩ := hf.position n hlt
  refine ⟨⟨_, setPreviousRequest_eq hf hcur⟩, ?_, ?_, fun tag => ?_, fun E w s hs => ?_⟩
  · by_cases hpos : f.position n < f.prog.getLength n
    · exact ⟨_, next_eq_some hcur hlo hpos⟩
    · exact ⟨_, next_eq_none hcur (by omega)⟩
  · obtain ⟨r, f', heq, -⟩ := nextRequest_spec hf
    exact ⟨_, heq⟩
  · obtain ⟨g, heq, -⟩ := goto_spec hf tag
    exact ⟨g, heq⟩
  · by_cases hret : s.returned = true
    · exact ⟨s, routeStep_returned w hret⟩
    · obtain ⟨s', heq, -⟩ := routeStep_spec w (hs ▸ hf) (by simpa using hret)
      exact ⟨s', heq⟩

/-- After parsing any schema and any sequence of operations, every index of the flow
is in range and the cursor cannot panic. -/
theorem run_inRange {functions triggers : List (String × Applications)} {schema : Applications}
    {log : List Dispatch} {f : Flow} (h : Run (Flow.parsed functions triggers schema) log f) :
    f.InRange ∧ f.NoPanic := by
  have hf := safe_of_run h (safe_parsed functions triggers schema)
  exact ⟨inRange_of_safe hf, noPanic_of_safe hf⟩

/-- A schema with an `if` that lacks its branches, an item without a name, a switch
that is dropped, and one tag given twice. -/
def raggedSchema : Applications :=
  [[("if", .num 1), ("tag", .str "t")], [("tag", .str "u")], [("switch", .null)],
    [("log", .null), ("tag", .str "t")]]

/-- Forking and resetting a flow with that schema. -/
theorem run_inRange_ragged :
    ((Flow.new raggedSchema).fork raggedSchema).2.reset.InRange ∧
      ((Flow.new raggedSchema).fork raggedSchema).2.reset.NoPanic :=
  run_inRange (Run.reset (Run.fork raggedSchema Run.refl))

end FlowManager
