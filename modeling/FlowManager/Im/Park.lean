import FlowManager.Im.Server

/-!
# The park loop under `Suspend` and `Resume`

One dialog, whose goroutine runs `runSchema`, and the listener, which calls `Suspend` and
`Resume` on it in any order. The accesses of the two interleave freely.

The park loop learns only from the state word why `Route` has returned, and `Resume` may
have switched that word back before the loop looks at it.

- `Server.cutOff`: the last `Route` was cut off by the end of its context.
- `Ends`: the goroutine is about to call `Complete` or `ResumeParent`.
- `Timely`: `Resume` does not switch the state while `Route` unwinds.
- `Stage`, `advance`, `Follows`: the stages of `runSchema`, and that the program keeps to
  them.
- `natural_end_of_timely`: with a timely listener the dialog ends only by itself.
-/

namespace FlowManager.Im

open Concurrent Function

/-- The listener and the dialog's goroutine. -/
inductive Party where
  | caller
  | runner
  deriving DecidableEq

/-- The calls of the listener -/
inductive Call where
  | suspend
  | resume

/-- The method that is called. -/
def Call.method (c : Ptr) : Call → Go Unit
  | .suspend => Im.suspend c
  | .resume => Im.resume c

/-- The system of one dialog and the calls on it. -/
def calls (E : Type) (c : Ptr) : System Server (Outside E × Call) Op Op.Result Label where
  exec w := exec w.1
  code w
    | .listen => some do
        w.2.method c
        return .listen
    | l => l.code
  env := Env

abbrev DialogPool := Pool Party Server Op Op.Result Label

/-- A dialog has just been made and dispatched on the server `s`. -/
def dispatched (s : Server) (id : String) (bot : Endpoint) (nested : Bool) : DialogPool where
  shared := { s.dial id bot nested with consume := s.consume ++ [⟨id, s.made⟩] }
  thread
    | .caller => .ret .listen
    | .runner => handle ⟨id, s.made⟩

/-- The next access of the goroutine is the one of `Complete` or the first of
`ResumeParent`. -/
def Ends (c : Ptr) : Go Label → Bool
  | .act (.complete d _) _ => decide (d = c)
  | .act (.takeParent id) _ => decide (id = c.id)
  | _ => false

/-- The goroutine is on its way to the test of the park loop with a context that is done: it
has yet to call `Route` with it, is inside that call, or has been cut off there. -/
def Unwinding (s : Server) (c : Ptr) : Go Label → Prop
  | .ret l => l = .park c ∧ s.cutOff c = true
  | .act (.isSuspended _) _ => s.cutOff c = true
  | .act (.route _ ctx) _ => s.chans.Closed ctx
  | .act (.newFlow _ _) k => Unwinding s c (k ())
  | .act (.routing _) k => ∃ schema, Unwinding s c (k (some schema))
  | _ => False

/-- `Resume` switches the state to running only when the goroutine is not unwinding. -/
def Timely (c : Ptr) (s : DialogPool) (e : Concurrent.Event Party Op) (_ : DialogPool) : Prop :=
  e = .act .caller (.store c .running) → ¬ Unwinding s.shared c (s.thread .runner)

/-! ## Stages of `runSchema` -/

/-- How far the goroutine has come: it holds no context yet, it holds the one for the next
`Route`, `Route` has returned, the park loop has been entered, or it has been passed. -/
inductive Stage where
  | waiting
  | holding (ctx : Nat)
  | returned
  | looping
  | passed
  | exit
  deriving DecidableEq

/-- The goroutine may still come to the test of the park loop. -/
def Stage.early : Stage → Bool
  | .passed => false
  | .exit => false
  | _ => true

/-- The access changes the flow of a dialog. -/
def Op.setsFlow : Op → Bool
  | .newFlow _ _ => true
  | .route _ _ => true
  | .repeatInterrupted _ => true
  | _ => false

/-- The access belongs to `Complete` or `ResumeParent`. -/
def Op.ends : Op → Bool
  | .complete _ _ => true
  | .takeParent _ => true
  | _ => false

/-- How an access, with its answer, leads from stage to stage. -/
inductive Advance (c : Ptr) : Stage → (a : Op) → a.Result → Stage → Prop where
  | take {d : Ptr} : Advance c .waiting (.take d) () .waiting
  | hold {st : Stage} {ctx : Nat} (hst : st = .waiting ∨ st = .looping) :
      Advance c st (.runContext c) ctx (.holding ctx)
  | routing {d : Ptr} {ctx : Nat} {schema : Applications} :
      Advance c (.holding ctx) (.routing d) (some schema) (.holding ctx)
  | missing {d : Ptr} {ctx : Nat} : Advance c (.holding ctx) (.routing d) none .exit
  | newFlow {d : Ptr} {ctx : Nat} {schema : Applications} :
      Advance c (.holding ctx) (.newFlow d schema) () (.holding ctx)
  | route {ctx : Nat} : Advance c (.holding ctx) (.route c ctx) () .returned
  | enter : Advance c .returned (.isSuspended c) true .looping
  | pass : Advance c .returned (.isSuspended c) false .passed
  | alive {d : Ptr} {r : Bool} : Advance c .looping (.isTerminating d) r .looping
  | await {d : Ptr} {r : Bool} : Advance c .looping (.awaitResume d) r .looping
  | again {d : Ptr} : Advance c .looping (.repeatInterrupted d) () .looping
  | stop {d : Ptr} {state : ConnState} : Advance c .looping (.store d state) () .exit
  | passed {a : Op} {r : a.Result} (ha : a.setsFlow = false) : Advance c .passed a r .passed
  | exit {a : Op} {r : a.Result} (ha : a.ends = false) : Advance c .exit a r .exit

/-- The program keeps to the stages from `st` on. -/
def Follows (c : Ptr) : Stage → Go Label → Prop
  | st, .ret l => (st = .returned ∧ l = .park c) ∨ (st.early = false ∧ l = .exit)
  | st, .act a k => ∀ r, ∃ st', Advance c st a r st' ∧ Follows c st' (k r)

section Programs

variable {c : Ptr} {a : Op} {k : a.Result → Go Label}

theorem Follows.passed (ha : a.setsFlow = false) (hk : ∀ r, Follows c .passed (k r)) :
    Follows c .passed (.act a k) := fun r => ⟨.passed, .passed ha, hk r⟩

theorem Follows.exit (ha : a.ends = false) (hk : ∀ r, Follows c .exit (k r)) :
    Follows c .exit (.act a k) := fun r => ⟨.exit, .exit ha, hk r⟩

theorem op_ends_of_ends (h : Ends c (.act a k) = true) : a.ends = true := by
  cases a <;> first | rfl | cases h

/-- `Complete` and `ResumeParent` are called only behind the park loop. -/
theorem Follows.passed_of_ends (h : Follows c st p) (hends : Ends c p = true) : st = .passed := by
  cases p with
  | ret l => cases hends
  | act a k =>
    have ha := op_ends_of_ends hends
    obtain ⟨r⟩ := Op.result_nonempty a
    obtain ⟨st', hadv, -⟩ := h r
    cases hadv with
    | passed => rfl
    | exit hnot =>
      rw [ha] at hnot
      cases hnot
    | _ => cases ha

theorem follows_stop_exit : Follows c .exit (stop c) := by
  iterate 7 refine Follows.exit rfl fun _ => ?_
  exact Or.inr ⟨rfl, rfl⟩

theorem follows_stop_passed : Follows c .passed (stop c) := by
  iterate 7 refine Follows.passed rfl fun _ => ?_
  exact Or.inr ⟨rfl, rfl⟩

theorem follows_stop_looping : Follows c .looping (stop c) := by
  refine fun _ => ⟨.exit, .stop, ?_⟩
  iterate 6 refine Follows.exit rfl fun _ => ?_
  exact Or.inr ⟨rfl, rfl⟩

/-- `ResumeParent` and what follows it. -/
theorem follows_resumeParent (id : String) : Follows c .passed
    (do resumeParentOf id; access (.disconnected c); stop c) := by
  have hstop : Follows c .passed (do access (.disconnected c); stop c) :=
    Follows.passed rfl fun _ => follows_stop_passed
  refine Follows.passed rfl ?_
  rintro (_ | parentID)
  · exact hstop
  · by_cases hid : parentID = ""
    · simpa [hid] using hstop
    · simp only [Prog.bind_eq, ret_bind, if_neg hid]
      refine Follows.passed rfl ?_
      rintro (_ | gen)
      · exact hstop
      · refine Follows.passed rfl ?_
        rintro (_ | _)
        · exact hstop
        · iterate 3 refine Follows.passed rfl fun _ => ?_
          exact hstop

theorem follows_finish : Follows c .passed (finish c) := by
  refine Follows.passed rfl fun id => ?_
  by_cases hid : id = ""
  · simpa [hid] using follows_resumeParent c.id
  · simp only [Prog.bind_eq, ret_bind, ne_eq, hid, not_false_eq_true, if_true]
    exact Follows.passed rfl fun _ => follows_resumeParent c.id

theorem follows_park : Follows c .returned (park c) := by
  rintro (_ | _)
  · refine ⟨.passed, .pass, Follows.passed rfl ?_⟩
    rintro (_ | _)
    · exact follows_finish
    · exact follows_stop_passed
  · refine ⟨.looping, .enter, ?_⟩
    rintro (_ | _)
    · refine ⟨.looping, .alive, ?_⟩
      rintro (_ | _)
      · exact ⟨.looping, .await, follows_stop_looping⟩
      · refine ⟨.looping, .await, fun _ => ⟨.looping, .again, fun ctx => ?_⟩⟩
        refine ⟨.holding ctx, .hold (Or.inr rfl), fun _ => ⟨.returned, .route, ?_⟩⟩
        exact Or.inl ⟨rfl, rfl⟩
    · exact ⟨.looping, .alive, follows_stop_looping⟩

theorem follows_handle : Follows c .waiting (handle c) := by
  refine fun _ => ⟨.waiting, .take, fun ctx => ⟨.holding ctx, .hold (Or.inl rfl), ?_⟩⟩
  rintro (_ | schema)
  · exact ⟨.exit, .missing, follows_stop_exit⟩
  · refine ⟨.holding ctx, .routing, fun _ => ⟨.holding ctx, .newFlow, fun _ => ?_⟩⟩
    exact ⟨.returned, .route, Or.inl ⟨rfl, rfl⟩⟩

end Programs

/-! ## What holds in each stage -/

/-- A context that is done was cancelled by a `Suspend` that no `Resume` has followed. -/
def StageOk (c : Ptr) (s : Server) : Stage → Prop
  | .holding ctx => s.chans.Closed ctx → (s.conns c).state = .suspended
  | .returned => s.cutOff c = true → (s.conns c).state = .suspended
  | .passed => s.cutOff c = false
  | _ => True

/-- The state word, the run context and the channels are the same. -/
structure SameRun (c : Ptr) (s m : Server) : Prop where
  state : (m.conns c).state = (s.conns c).state
  runCtx : (m.conns c).runCtx = (s.conns c).runCtx
  closed : ∀ n, m.chans.Closed n ↔ s.chans.Closed n

section Runner

variable {E : Type} {w : Outside E} {c : Ptr} {a : Op} {r : a.Result} {s m : Server}
  {st st' : Stage}

theorem Server.cutOff_congr (hflows : m.flows = s.flows) : m.cutOff c = s.cutOff c := by
  unfold Server.cutOff
  rw [hflows]

theorem StageOk.congr (h : StageOk c s st) (hstate : (m.conns c).state = (s.conns c).state)
    (hclosed : ∀ n, m.chans.Closed n ↔ s.chans.Closed n) (hflows : m.flows = s.flows) :
    StageOk c m st := by
  cases st with
  | holding ctx =>
    intro hctx
    exact hstate.trans (h ((hclosed ctx).mp hctx))
  | returned =>
    intro hcut
    rw [Server.cutOff_congr hflows] at hcut
    exact hstate.trans (h hcut)
  | passed => exact (Server.cutOff_congr hflows).trans h
  | _ => trivial

/-- As long as the connection is suspended, nothing is wrong in the early stages. -/
theorem StageOk.of_suspended (h : StageOk c s st)
    (hstate : st.early = true → (m.conns c).state = .suspended) (hflows : m.flows = s.flows) :
    StageOk c m st := by
  cases st with
  | holding ctx | returned => exact fun _ => hstate rfl
  | passed => exact (Server.cutOff_congr hflows).trans h
  | _ => trivial

theorem SameRun.refl : SameRun c s s := ⟨rfl, rfl, fun _ => Iff.rfl⟩

/-- Until it has passed the park loop, the goroutine does not touch the state word or any
context. -/
theorem Advance.sameRun (hadv : Advance c st a r st') (hexec : exec w a s = some (r, m))
    (hearly : st'.early = true) : SameRun c s m ∧ st.early = true := by
  cases hadv with
  | take =>
    obtain ⟨_, -, rfl⟩ := exec_take hexec
    exact ⟨⟨rfl, rfl, fun _ => Iff.rfl⟩, rfl⟩
  | hold hst =>
    cases hexec
    refine ⟨SameRun.refl, ?_⟩
    rcases hst with rfl | rfl <;> rfl
  | routing | enter =>
    simp only [exec, Option.some.injEq, Prod.mk.injEq] at hexec
    obtain ⟨-, rfl⟩ := hexec
    exact ⟨SameRun.refl, rfl⟩
  | newFlow | again =>
    cases hexec
    exact ⟨⟨rfl, rfl, fun _ => Iff.rfl⟩, rfl⟩
  | route =>
    obtain ⟨_, _, -, -, rfl⟩ := exec_route hexec
    exact ⟨⟨rfl, rfl, fun _ => Iff.rfl⟩, rfl⟩
  | alive =>
    cases hexec
    exact ⟨SameRun.refl, rfl⟩
  | @await d r =>
    rcases exec_awaitResume hexec with ⟨-, -, rfl⟩ | ⟨-, -, rfl⟩
    · obtain ⟨hstate, hctx⟩ := s.modify_frame d c
        (f := fun conn => { conn with resumeCh := false }) fun _ => ⟨rfl, rfl⟩
      exact ⟨⟨hstate, hctx, fun _ => Iff.rfl⟩, rfl⟩
    · exact ⟨SameRun.refl, rfl⟩
  | missing | pass | stop | passed | exit => cases hearly

/-- An access of the goroutine leads to what holds in the next stage. -/
theorem Advance.stageOk (hadv : Advance c st a r st') (hexec : exec w a s = some (r, m))
    (hok : StageOk c s st)
    (hctx : st.early = true → s.chans.Closed (s.conns c).runCtx → (s.conns c).state = .suspended) :
    StageOk c m st' := by
  cases hadv with
  | hold hst =>
    cases hexec
    refine hctx ?_
    rcases hst with rfl | rfl <;> rfl
  | routing =>
    simp only [exec, Option.some.injEq, Prod.mk.injEq] at hexec
    obtain ⟨-, rfl⟩ := hexec
    exact hok
  | newFlow =>
    cases hexec
    exact hok
  | route =>
    obtain ⟨i, i', -, hrouted, rfl⟩ := exec_route hexec
    intro hcut
    -- `Route` was cut off, so its context was done
    refine hok (of_decide_eq_true (done_of_routed hrouted ?_))
    simpa [Server.cutOff] using hcut
  | pass =>
    simp only [exec, Option.some.injEq, Prod.mk.injEq, decide_eq_false_iff_not] at hexec
    obtain ⟨hstate, rfl⟩ := hexec
    exact Bool.eq_false_of_not_eq_true fun hcut => hstate (hok hcut)
  | passed ha =>
    have hflows : m.flows = s.flows := by
      rcases exec_flows hexec with h | ⟨_, _, rfl⟩ | ⟨_, _, rfl⟩ | ⟨_, rfl⟩
      · exact h
      all_goals cases ha
    exact (Server.cutOff_congr hflows).trans hok
  | take | missing | enter | alive | await | again | stop | exit => trivial

/-- The goroutine holds a context that is done: it is unwinding. -/
theorem unwinding_of_holding (h : Follows c (.holding ctx) p) (hclosed : s.chans.Closed ctx) :
    Unwinding s c p := by
  induction p with
  | ret l => rcases h with ⟨h, -⟩ | ⟨h, -⟩ <;> cases h
  | act a k ih =>
    cases a with
    | routing d =>
      obtain ⟨st', hadv, hk⟩ := h (some [])
      cases hadv
      exact ⟨[], ih _ hk⟩
    | newFlow d schema =>
      obtain ⟨st', hadv, hk⟩ := h ()
      cases hadv
      exact ih _ hk
    | route d ctx' =>
      obtain ⟨st', hadv, -⟩ := h ()
      cases hadv
      exact hclosed
    | _ =>
      obtain ⟨r⟩ := Op.result_nonempty _
      obtain ⟨st', hadv, -⟩ := h r
      rcases hadv with _ | hst
      all_goals rcases hst with hst | hst <;> cases hst

/-- The goroutine has been cut off: it is unwinding. -/
theorem unwinding_of_returned (h : Follows c .returned p) (hcut : s.cutOff c = true) :
    Unwinding s c p := by
  cases p with
  | ret l =>
    rcases h with ⟨-, hl⟩ | ⟨h, -⟩
    · exact ⟨hl, hcut⟩
    · cases h
  | act a k =>
    obtain ⟨r⟩ := Op.result_nonempty a
    obtain ⟨st', hadv, -⟩ := h r
    cases hadv with
    | hold hst => rcases hst with hst | hst <;> cases hst
    | enter | pass => exact hcut

/-- Nothing is wrong with a goroutine that is not unwinding. -/
theorem StageOk.of_not_unwinding (h : StageOk c s st) (hfollows : Follows c st p)
    (hnot : ¬ Unwinding s c p) (hclosed : ∀ n, m.chans.Closed n ↔ s.chans.Closed n)
    (hflows : m.flows = s.flows) : StageOk c m st := by
  cases st with
  | holding ctx =>
    intro hctx
    exact absurd (unwinding_of_holding hfollows ((hclosed ctx).mp hctx)) hnot
  | returned =>
    intro hcut
    rw [Server.cutOff_congr hflows] at hcut
    exact absurd (unwinding_of_returned hfollows hcut) hnot
  | passed => exact (Server.cutOff_congr hflows).trans h
  | _ => trivial

end Runner

/-! ## The listener -/

/-- Where the listener is in its calls, and what it knows there as long as the goroutine may
still come to the test of the park loop: `Suspend` has stored the state before it cancels,
and `Resume` has made a new context before it stores the state. -/
inductive Calling (c : Ptr) (s : Server) (early : Bool) : Go Label → Prop where
  | idle : Calling c s early (.ret .listen)
  | suspend : Calling c s early (.act (.store c .suspended) fun _ =>
      .act (.runCancel c) fun ctx => .act (.cancel ctx) fun _ => .ret .listen)
  | load (hstate : early = true → (s.conns c).state = .suspended) : Calling c s early
      (.act (.runCancel c) fun ctx => .act (.cancel ctx) fun _ => .ret .listen)
  | cancel {ctx : Nat} (hstate : early = true → (s.conns c).state = .suspended) :
      Calling c s early (.act (.cancel ctx) fun _ => .ret .listen)
  | resume : Calling c s early (.act (.newRun c) fun _ => .act (.store c .running) fun _ =>
      .act (.signal c) fun _ => .ret .listen)
  | store (hlive : early = true → ¬ s.chans.Closed (s.conns c).runCtx) : Calling c s early
      (.act (.store c .running) fun _ => .act (.signal c) fun _ => .ret .listen)
  | signal : Calling c s early (.act (.signal c) fun _ => .ret .listen)

/-- What holds at every moment of a timely run, with the goroutine in the stage `st`. -/
structure Supervised (c : Ptr) (s : DialogPool) (st : Stage) : Prop where
  follows : Follows c st (s.thread .runner)
  stage : StageOk c s.shared st
  context : st.early = true → s.shared.chans.Closed (s.shared.conns c).runCtx →
    (s.shared.conns c).state = .suspended
  calling : Calling c s.shared st.early (s.thread .caller)

section Steps

variable {E : Type} {c : Ptr} {s s' : DialogPool} {st : Stage}

theorem Calling.sameRun (h : Calling c m₁ b₁ p) (hsame : b₂ = true → SameRun c m₁ m₂ ∧ b₁ = true) :
    Calling c m₂ b₂ p := by
  cases h with
  | idle => exact .idle
  | suspend => exact .suspend
  | load hstate => exact .load fun hb => (hsame hb).1.state.trans (hstate (hsame hb).2)
  | cancel hstate => exact .cancel fun hb => (hsame hb).1.state.trans (hstate (hsame hb).2)
  | resume => exact .resume
  | store hlive =>
    refine .store fun hb => ?_
    obtain ⟨hrun, hb₁⟩ := hsame hb
    rw [hrun.closed, hrun.runCtx]
    exact hlive hb₁
  | signal => exact .signal

theorem Env.frame (henv : Env m₁ m₂) : SameRun c m₁ m₂ ∧ m₂.flows = m₁.flows := by
  obtain ⟨hstate, hctx⟩ := henv.conns c
  exact ⟨⟨hstate, hctx, henv.closed⟩, by cases henv <;> rfl⟩

section

variable (h : Supervised c s st)
include h

/-- The shared state changes by itself. -/
theorem Supervised.env (henv : Env s.shared m) :
    Supervised c { s with shared := m } st := by
  obtain ⟨hrun, hflows⟩ := henv.frame (c := c)
  refine ⟨h.follows, h.stage.congr hrun.state hrun.closed hflows, ?_,
    h.calling.sameRun fun hearly => ⟨hrun, hearly⟩⟩
  intro hearly
  show m.chans.Closed (m.conns c).runCtx → (m.conns c).state = .suspended
  rw [hrun.closed, hrun.runCtx, hrun.state]
  exact h.context hearly

/-- The goroutine makes its next access. -/
theorem Supervised.runner (ht : s.thread .runner = .act a k)
    (hexec : exec w a s.shared = some (r, m)) :
    ∃ st', Supervised c (s.set .runner m (k r)) st' := by
  have hfollows := h.follows
  rw [ht] at hfollows
  obtain ⟨st', hadv, hk⟩ := hfollows r
  have hsame := hadv.sameRun hexec
  refine ⟨st', by rwa [Pool.set_thread_self], hadv.stageOk hexec h.stage h.context, ?_, ?_⟩
  · intro hearly
    obtain ⟨hrun, hst⟩ := hsame hearly
    show m.chans.Closed (m.conns c).runCtx → (m.conns c).state = .suspended
    rw [hrun.closed, hrun.runCtx, hrun.state]
    exact h.context hst
  · exact h.calling.sameRun hsame

/-- The listener goes on with `p`. -/
theorem Supervised.call (hstage : StageOk c m st)
    (hcontext : st.early = true → m.chans.Closed (m.conns c).runCtx →
      (m.conns c).state = .suspended) (hcalling : Calling c m st.early p) :
    Supervised c (s.set .caller m p) st := by
  refine ⟨?_, hstage, hcontext, by rwa [Pool.set_thread_self]⟩
  exact h.follows

/-- The listener makes its next access. -/
theorem Supervised.caller (ht : s.thread .caller = .act a k)
    (hexec : exec w a s.shared = some (r, m))
    (htimely : Timely c s (.act .caller a) (s.set .caller m (k r))) :
    Supervised c (s.set .caller m (k r)) st := by
  have hcalling := h.calling
  rw [ht] at hcalling
  cases hcalling with
  | suspend =>
    cases hexec
    have hstate :
        ((s.shared.modify c fun conn => { conn with state := .suspended }).conns c).state =
        .suspended := by rw [Server.modify_self]
    exact h.call (h.stage.of_suspended (fun _ => hstate) rfl) (fun _ _ => hstate)
      (.load fun _ => hstate)
  | load hstate =>
    cases hexec
    exact h.call h.stage h.context (.cancel hstate)
  | cancel hstate =>
    cases hexec
    exact h.call (h.stage.of_suspended hstate rfl) (fun hearly _ => hstate hearly) .idle
  | resume =>
    cases hexec
    have hconn : (s.shared.newRun c).conns c =
        { s.shared.conns c with runCtx := s.shared.chans.next } := update_self ..
    have hlive : ¬ (s.shared.newRun c).chans.Closed ((s.shared.newRun c).conns c).runCtx := by
      rw [hconn]
      exact s.shared.chans.not_closed_next
    refine h.call (h.stage.congr (by rw [hconn]) (fun _ => Iff.rfl) rfl) ?_ (.store fun _ => hlive)
    exact fun _ hclosed => absurd hclosed hlive
  | store hlive =>
    cases hexec
    have hstage := h.stage.of_not_unwinding h.follows (htimely rfl)
      (m := s.shared.modify c fun conn => { conn with state := .running }) (fun _ => Iff.rfl) rfl
    refine h.call hstage (fun hearly hclosed => ?_) .signal
    rw [Server.modify_self] at hclosed
    exact absurd hclosed (hlive hearly)
  | signal =>
    cases hexec
    obtain ⟨hstate, hctx⟩ := s.shared.modify_frame c c
      (f := fun conn => { conn with resumeCh := true }) fun _ => ⟨rfl, rfl⟩
    refine h.call (h.stage.congr hstate (fun _ => Iff.rfl) rfl) (fun hearly hclosed => ?_) .idle
    rw [hctx] at hclosed
    exact hstate.trans (h.context hearly hclosed)

/-- A thread goes on at a label. -/
theorem Supervised.next
    (ht : s.thread t = .ret l) (hcode : (calls E c).code w l = some p) :
    Supervised c (s.set t s.shared p) st := by
  cases t with
  | caller =>
    have hcalling := h.calling
    rw [ht] at hcalling
    cases hcalling
    cases hcode
    refine h.call h.stage h.context ?_
    cases w.2 with
    | suspend => exact .suspend
    | resume => exact .resume
  | runner =>
    have hfollows := h.follows
    rw [ht] at hfollows
    rcases hfollows with ⟨rfl, rfl⟩ | ⟨-, rfl⟩
    · cases hcode
      refine ⟨?_, h.stage, h.context, ?_⟩
      · exact follows_park
      · exact h.calling
    · cases hcode

end

/-- A timely step. -/
theorem Supervised.step (h : ∃ st, Supervised c s st) (hstep : Step (calls E c) s e s')
    (htimely : Timely c s e s') : ∃ st, Supervised c s' st := by
  obtain ⟨st, h⟩ := h
  cases hstep with
  | @act t a k w r m ht hexec =>
    cases t with
    | caller => exact ⟨st, h.caller ht hexec htimely⟩
    | runner => exact h.runner ht hexec
  | next ht hcode => exact ⟨st, h.next ht hcode⟩
  | env henv => exact ⟨st, h.env henv⟩

/-- A dialog that has just been dispatched. -/
theorem supervised_dispatched (m : Server) (id : String) (bot : Endpoint) (nested : Bool) :
    Supervised ⟨id, m.made⟩ (dispatched m id bot nested) .waiting := by
  refine ⟨follows_handle, trivial, fun _ hclosed => ?_, .idle⟩
  have hconn : ((dispatched m id bot nested).shared.conns ⟨id, m.made⟩).runCtx =
      m.chans.next + 1 := by
    show (update m.conns _ _ _ : Connection).runCtx = _
    rw [update_self]
  rw [hconn] at hclosed
  exact absurd hclosed m.chans.make.not_closed_next

end Steps

/-! ## Dialogs end by themselves -/

/-- In every interleaving of a dialog with `Suspend` and `Resume` calls in which no `Resume`
switches the state while `Route` unwinds from a context that is done, the dialog calls
`Complete` and `ResumeParent` only after a `Route` that has come to the end of the flow or
to a `break`. -/
theorem natural_end_of_timely {E : Type} {m : Server} {id : String} {bot : Endpoint}
    {nested : Bool} {ok : Prop} {s : DialogPool}
    (h : Trace.Steps (Step (calls E ⟨id, m.made⟩)) (Timely ⟨id, m.made⟩)
      (dispatched m id bot nested) ok s) (hok : ok)
    (hends : Ends ⟨id, m.made⟩ (s.thread .runner) = true) :
    s.shared.cutOff ⟨id, m.made⟩ = false := by
  have hinv : ∃ st, Supervised ⟨id, m.made⟩ s st :=
    h.invariant ⟨.waiting, supervised_dispatched m id bot nested⟩ Supervised.step hok
  obtain ⟨st, hsup⟩ := hinv
  have hstage := hsup.stage
  rw [hsup.follows.passed_of_ends hends] at hstage
  exact hstage

/-- The dialog of bot 1 in thread `t`, just dispatched on a new server. -/
def dialogOne : DialogPool :=
  dispatched Server.init "t.1" ⟨"1", userTypeBot, "", "member", 0⟩ false

/-- A run that is cut off by the end of its context -/
def cutting : Outside Unit :=
  { helpful with world := { steadyWorld with select := fun _ _ => .done false } }

/-- The dialog moves. -/
def runnerMoves (moves : Nat) : List (Party × Outside Unit × Call) :=
  List.replicate moves (.runner, helpful, .suspend)

/-- The dialog is called. -/
def callerMoves (call : Call) : List (Party × Outside Unit × Call) :=
  List.replicate 4 (.caller, helpful, call)

/-- The dialog is suspended inside `Route`, and `Route` is cut off. -/
def suspendedInside : List (Party × Outside Unit × Call) :=
  runnerMoves 4 ++ callerMoves .suspend ++ [(.runner, cutting, .suspend)]

/-- The park loop sees that the dialog is suspended, and only then the dialog is resumed. -/
def parked : List (Party × Outside Unit × Call) :=
  suspendedInside ++ runnerMoves 2 ++ callerMoves .resume ++ runnerMoves 9

/-- Nobody resumes the dialog before the park loop has seen that it is suspended. -/
def resumesParked (s : DialogPool) : Concurrent.Event Party Op → Bool
  | .act .caller (.store _ .running) =>
    match s.thread .runner with
    | .act (.isTerminating _) _ => true
    | _ => false
  | _ => true

/-- In that schedule the dialog is continued, and then ends by itself. -/
theorem natural_end_of_timely_parked :
    ∃ s, Pool.play (calls Unit ⟨"t.1", 0⟩) parked dialogOne = some s ∧
      Ends ⟨"t.1", 0⟩ (s.thread .runner) = true ∧ s.shared.cutOff ⟨"t.1", 0⟩ = false := by
  have htimely : ∀ (s : DialogPool) (e : Concurrent.Event Party Op) (s' : DialogPool),
      resumesParked s e = true → Timely ⟨"t.1", 0⟩ s e s' := by
    rintro s e s' hparked rfl
    unfold resumesParked at hparked
    cases hrunner : s.thread .runner with
    | ret => simp [hrunner] at hparked
    | act a k => cases a <;> simp_all [Unwinding]
  obtain ⟨s, hs, hends, ok, hsteps, hok⟩ := Pool.reaches (calls Unit ⟨"t.1", 0⟩) htimely parked
    dialogOne (fun s => Ends ⟨"t.1", 0⟩ (s.thread .runner) = true) (by decide +kernel)
  exact ⟨s, (Pool.play_eq ..).trans hs, hends,
    natural_end_of_timely (m := Server.init) hsteps hok hends⟩

/-- The dialog is resumed before the park loop looks at the state. -/
def overtaken : List (Party × Outside Unit × Call) :=
  suspendedInside ++ callerMoves .resume ++ runnerMoves 4

/-- In that schedule the dialog calls `Complete` though its `Route` was cut off. -/
theorem natural_end_of_timely_overtaken :
    ∃ ok s, Trace.Steps (Step (calls Unit ⟨"t.1", 0⟩)) (Timely ⟨"t.1", 0⟩) dialogOne ok s ∧
      Ends ⟨"t.1", 0⟩ (s.thread .runner) = true ∧ s.shared.cutOff ⟨"t.1", 0⟩ = true := by
  obtain ⟨s, -, hend, ok, hsteps⟩ := Trace.reaches (Pool.moves_step (calls Unit ⟨"t.1", 0⟩))
    (Timely ⟨"t.1", 0⟩) overtaken dialogOne (fun s => Ends ⟨"t.1", 0⟩ (s.thread .runner) = true ∧
      s.shared.cutOff ⟨"t.1", 0⟩ = true) (by decide +kernel)
  exact ⟨ok, s, hsteps, hend⟩

end FlowManager.Im
