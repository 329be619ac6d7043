import FlowManager.Flow.Safety

/-!
# Timers (flow/timer.go)

`Timer` forks the flow once and calls `Route` on the fork at every tick. In between, `Reset` takes
the node in which the cursor is back to its start, and not the cursor back to the root.

- `Ticks`: the ticks of a timer up to the one that is due.
- `tick_starts`: a tick starts at the first request of the node in which the last one has stopped.
-/

namespace FlowManager

open Flow

/-- `TimerArgs`, without the name -/
structure TimerArgs where
  interval : Int
  tries : Int
  offset : Int
  actions : List Value

/-- `t.Tries`, with its default -/
def TimerArgs.limit (t : TimerArgs) : Int := if t.tries = 0 then 999 else t.tries

/-- The flow of the timer is the fork of `scope` that its actions make. -/
def TimerArgs.flow (t : TimerArgs) (scope : Flow) : Flow :=
  (scope.fork (arrInterfaceToArrayApplication t.actions)).1

/-- `Ticks t scope tries interval f`: after `tries` ticks the timer has been set to `interval`
seconds, with the flow `f`. Whatever happens to a flow can happen while `Route` is under way. -/
inductive Ticks (t : TimerArgs) (scope : Flow) : Int → Int → Flow → Prop where
  | start (hinterval : t.interval ≠ 0) : Ticks t scope 0 t.interval (t.flow scope)
  | tick {tries interval : Int} {f f' : Flow} {log : List Dispatch}
      (h : Ticks t scope tries interval f) (hroute : Run f log f')
      (htries : tries + 1 < t.limit) (hinterval : 1 ≤ interval + t.offset) :
      Ticks t scope (tries + 1) (interval + t.offset) f'.reset

/-- A flow at the start of a node, not cancelled -/
structure AtStart (f : Flow) : Prop where
  safe : f.Safe
  first : ∀ n, f.currentNode = some n → f.position n = 0
  cancel : f.cancel = false

theorem atStart_reset {f : Flow} (hf : f.Safe) : AtStart f.reset := by
  obtain ⟨n, hcur, -⟩ := hf.current
  have hreset : f.reset = (f.setFirst n).clearCancel := by
    unfold Flow.reset
    rw [hcur]
  rw [hreset]
  refine ⟨hreset ▸ hf.reset, fun m hm => ?_, rfl⟩
  cases Option.some.inj (hcur.symm.trans hm)
  exact Function.update_self _ _ _

theorem atStart_of_ticks (h : Ticks t scope tries interval f) : AtStart f := by
  induction h with
  | start => exact ⟨safe_parsed .., fun _ _ => rfl, rfl⟩
  | tick _ hroute _ _ ih => exact atStart_reset (safe_of_run hroute ih.safe)

/-- The first request of the node in which the cursor is comes next. -/
theorem AtStart.next (h : AtStart f) (hcur : f.currentNode = some n)
    (hreq : f.prog.request ⟨n, 0⟩ = some r) : ∃ f', NextSpec f (some ⟨n, 0⟩) f' := by
  have hpos := h.first n hcur
  have hlt : f.position n < f.prog.getLength n := by
    have hlen : 0 < f.prog.getLength n := (List.getElem?_eq_some_iff.mp hreq).1
    omega
  have hnext := NextSpec.here hcur hlt
  rw [hpos] at hnext
  exact ⟨_, hnext⟩

/-- At the end of the list the cursor is in the root. -/
theorem currentNode_of_finished (h : NextSpec f r f') :
    f.Safe → r = none → f'.currentNode = some 0 := by
  induction h with
  | here => exact fun _ hr => by cases hr
  | up hcur _ hparent _ ih => exact fun hf hr => ih (hf.leave hcur hparent) hr
  | @finish f n hcur _ hparent =>
    intro hf _
    by_cases hn : n = 0
    · rw [← hn]
      exact hcur
    · obtain ⟨p, hp, -⟩ := hf.wf.parent n (Nat.pos_of_ne_zero hn) (hf.current_lt hcur)
      rw [hp] at hparent
      cases hparent

/-- A tick first starts the first request of the node in which the cursor is, if the limiter of that
request lets it: the first action if that node is the root. It is the root at the first tick, and if
the tick before has come to the end of the list. -/
theorem tick_starts {t : TimerArgs} {scope f : Flow} {tries interval : Int}
    (h : Ticks t scope tries interval f) :
    (∀ n r, f.currentNode = some n → f.prog.request ⟨n, 0⟩ = some r → exhausted f r = none →
      ∃ f', routeTop (f.setInterrupted none) = .ok (.start ⟨n, 0⟩ r, f')) ∧
    (t.flow scope).currentNode = some 0 ∧
    ∀ log g g', Run f log g → g.nextRequest = .ok (none, g') → g'.reset.currentNode = some 0 := by
  have hat := atStart_of_ticks h
  refine ⟨fun n r hcur hreq hex => ?_, rfl, fun log g g' hrun hnext => ?_⟩
  · have hat' : AtStart (f.setInterrupted none) :=
      ⟨hat.safe.congr rfl rfl rfl, hat.first, hat.cancel⟩
    obtain ⟨f₁, hspec⟩ := hat'.next hcur hreq
    have hsame := hspec.same
    refine ⟨_, routeTop_of_spec hat'.safe (.start hspec (hsame.cancel.trans hat.cancel) ?_ ?_)⟩
    · rw [hsame.prog]
      exact hreq
    · unfold exhausted Flow.maxCount at hex ⊢
      rw [hsame.prog, hsame.count]
      exact hex
  · have hg := safe_of_run hrun hat.safe
    obtain ⟨r, g₁, heq, hspec⟩ := nextRequest_spec hg
    rw [heq] at hnext
    cases hnext
    have hroot := currentNode_of_finished hspec hg rfl
    unfold Flow.reset
    rw [hroot]
    exact hroot

/-- A timer that answers and breaks off in a branch -/
def breakingTimer : TimerArgs :=
  ⟨1, 3, 0,
    [.obj [("if", .obj [("then", .arr [.obj [("answer", .null)], .obj [("break", .bool true)]])])],
      .obj [("hangup", .null)]]⟩

/-- What a tick starts: the names of the applications -/
def tickNames (f : Flow) : List String :=
  match routeN steadyWorld 10 (routeStart f ()) with
  | .ok s => s.trace.map (·.app.name)
  | .error _ => []

/-- The flow after a tick -/
def ticked (f : Flow) : Flow :=
  match routeN steadyWorld 10 (routeStart f ()) with
  | .ok s => s.flow.reset
  | .error _ => f

/-- A timer that comes to the end of its list -/
def endingTimer : TimerArgs :=
  ⟨1, 3, 0, [.obj [("if", .obj [("then", .arr [.obj [("answer", .null)]])])],
    .obj [("hangup", .null)]]⟩

/-- The tick has come to its end, and the cursor is before the first action, which has no
limiter. -/
def completed : Except Panic (RouteState Unit) → Bool
  | .ok s => s.returned && decide (s.trace.length = 3 ∧ s.flow.reset.currentNode = some 0) &&
      (s.flow.reset.prog.request ⟨0, 0⟩).any fun r => r.limiter.isNone
  | _ => false

/-- The first tick starts all three requests, and the second one starts at the `if` again. -/
theorem tick_starts_second :
    ∃ s r f', routeN steadyWorld 10 (routeStart (endingTimer.flow (Flow.new [])) ()) = .ok s ∧
      s.returned = true ∧ s.trace.length = 3 ∧
      routeTop (s.flow.reset.setInterrupted none) = .ok (.start ⟨0, 0⟩ r, f') := by
  have hfirst : completed (routeN steadyWorld 10
      (routeStart (endingTimer.flow (Flow.new [])) ())) = true := by decide +kernel
  unfold completed at hfirst
  split at hfirst
  · rename_i s hs
    simp only [Bool.and_eq_true, decide_eq_true_eq, Option.any_eq_true] at hfirst
    obtain ⟨⟨hreturned, hthree, hroot⟩, r, hreq, hlimiter⟩ := hfirst
    have hticks : Ticks endingTimer (Flow.new []) 1 1 s.flow.reset :=
      .tick (.start (by decide)) ((Run.setInterrupted .refl).routeN hs) (by decide) (by decide)
    have hex : exhausted s.flow.reset r = none := by
      unfold exhausted
      rw [Option.isNone_iff_eq_none.mp hlimiter]
    obtain ⟨f', htop⟩ := (tick_starts hticks).1 0 r hroot hreq hex
    exact ⟨s, r, f', hs, hreturned, hthree, htop⟩
  · cases hfirst

/-- If the first tick breaks off in a branch, the second one starts at the request that the branch
begins with. -/
theorem tick_starts_branch :
    tickNames (breakingTimer.flow (Flow.new [])) = ["if", "answer", "break"] ∧
      tickNames (ticked (breakingTimer.flow (Flow.new []))) = ["answer", "break"] := by
  decide +kernel

end FlowManager
