import FlowManager.Bot.Callback

/-!
# Whose result a callback gets

A callback may read back a handler that another one has written. Its sub-flow then passes its
results to the other one's channel.

- `Owned`: every flow of a callback has the callback's own channel, as long as no callback writes
  the handler while another one has not read its own back.
- `Bound`: what the handler is once a callback has written it.
- `own_of_apart`: as long as callbacks keep apart, every response is a result of the callback's
  own sub-flow. The handler of the scope, though, is never again what it was before them.
-/

namespace FlowManager.Bot

open Concurrent Function

/-- A callback has written the handler of the scope, and has not read it back. -/
def Between : Go Label → Bool
  | .act .fork _ => true
  | .act .handler _ => true
  | _ => false

/-- Whether a callback has written the handler of the scope -/
def note {n : Nat} (_ : BotPool n) (e : Concurrent.Event (Thread n) Op) (_ : BotPool n)
    (written : Bool) : Bool :=
  match e with
  | .act _ (.setHandler _) => true
  | _ => written

/-- A callback writes the handler only when every other one has read its own back. -/
def Apart {n : Nat} (x : BotPool n × Bool) (e : Concurrent.Event (Thread n) Op)
    (_ : BotPool n × Bool) : Prop :=
  match e with
  | .act t (.setHandler _) => ∀ i, .callback i ≠ t → Between (x.1.thread (.callback i)) = false
  | _ => True

/-- The flow has the channel of its own call. -/
def Frame.Own (fr : Frame) : Prop := fr.own = some fr.ctx ∧ fr.handler = some fr.ctx

theorem Frame.Own.child {fr : Frame} (h : fr.Own) (id : Nat) : (fr.child id).Own := ⟨h.1, h.1⟩

/-- The job is about the channel of its own call. -/
def Job.Own : Job → Prop
  | .request fr _ => fr.Own
  | .route fr => fr.Own
  | .send ch _ ctx => ch = ctx

def CallbackPoint.Own (m : Scope) : CallbackPoint → Prop
  | .setting c h => h = some c
  | .forking c => m.handler = some c
  | .reading c own _ => own = some c ∧ m.handler = some c
  | .route fr _ => fr.Own
  | .closing c r | .responded c r => ∀ x, r = some x → Job.send c x c ∈ m.jobs
  | _ => True

def WorkerPoint.Own (m : Scope) : WorkerPoint → Prop
  | .route fr _ _ => fr.Own
  | .returning fr _ ch | .launching fr _ ch => fr.Own ∧ ch = fr.ctx
  | .branching fr _ | .detaching fr _ _ => fr.Own
  | .sending ch r ctx => ch = ctx ∧ Job.send ch r ctx ∈ m.jobs
  | _ => True

def OwnAt {n : Nat} (m : Scope) : (t : Thread n) → Point t → Prop
  | .callback _ => CallbackPoint.Own m
  | .worker _ => WorkerPoint.Own m
  | .client => fun _ => True

/-- Flows, goroutines and buffered results belong to the call whose channel they use. -/
structure Owned {n : Nat} (m : Scope) (pts : ∀ t : Thread n, Point t) : Prop where
  points : ∀ t, OwnAt m t (pts t)
  jobs : ∀ j ∈ m.jobs, j.Own
  buffer : ∀ c r, m.buffer c = some r → Job.send c r c ∈ m.jobs

section Owned

variable {n : Nat} {m m' : Scope} {pts pts' : ∀ t : Thread n, Point t}

/-- The callback has not read the handler back. -/
def CallbackPoint.between : CallbackPoint → Bool
  | .forking _ => true
  | .reading _ _ _ => true
  | _ => false

theorem CallbackPoint.between_prog {pt : CallbackPoint} (h : Between pt.prog = false) :
    pt.between = false := by
  cases pt <;> first | rfl | cases h

theorem RoutePoint.not_between (fr : Frame) (ret : Ret) (rp : RoutePoint) :
    Between (rp.prog fr ret) = false := by
  cases rp <;> rfl

/-- Only callbacks read the handler of the scope. -/
theorem WorkerPoint.not_between (k : Nat) (pt : WorkerPoint) : Between (pt.prog k) = false := by
  cases pt with
  | route fr parent rp => exact rp.not_between ..
  | branching fr b => cases b <;> rfl
  | _ => rfl

/-- What is known of a goroutine depends on the handler only while it has not been read back. -/
theorem OwnAt.mono (h : OwnAt m t pt) (hjobs : ∀ j ∈ m.jobs, j ∈ m'.jobs)
    (hhandler : m'.handler = m.handler ∨ Between (progAt t pt) = false) : OwnAt m' t pt := by
  cases t with
  | callback i =>
    have hread : pt.between = true → m'.handler = m.handler := by
      intro hbetween
      rcases hhandler with hsame | hnot
      · exact hsame
      · rw [CallbackPoint.between_prog hnot] at hbetween
        cases hbetween
    cases pt with
    | forking c => exact (hread rfl).trans h
    | reading c own id => exact ⟨h.1, (hread rfl).trans h.2⟩
    | closing c r | responded c r => exact fun x hx => hjobs _ (h x hx)
    | _ => exact h
  | worker k =>
    cases pt with
    | sending ch r ctx => exact ⟨h.1, hjobs _ h.2⟩
    | _ => exact h
  | client => trivial

section

variable (h : Owned m pts)
include h

/-- A goroutine moves; it may start another one. -/
theorem Owned.move (hpt : OwnAt m' t pt)
    (hgrow : ∀ j ∈ m.jobs, j ∈ m'.jobs) (hjobs : ∀ j ∈ m'.jobs, j ∈ m.jobs ∨ j.Own)
    (hbuffer : ∀ c r, m'.buffer c = some r → m.buffer c = some r ∨ Job.send c r c ∈ m'.jobs)
    (hhandler : ∀ u, u ≠ t → m'.handler = m.handler ∨ Between (progAt u (pts u)) = false) :
    Owned m' (update pts t pt) := by
  constructor
  · exact (Function.forall_update_iff pts fun u (p : Point u) => OwnAt m' u p).mpr
      ⟨hpt, fun u hu => (h.points u).mono hgrow (hhandler u hu)⟩
  · intro j hj
    rcases hjobs j hj with hold | hnew
    · exact h.jobs j hold
    · exact hnew
  · intro c r hr
    rcases hbuffer c r hr with hold | hnew
    · exact hgrow _ (h.buffer c r hold)
    · exact hnew

/-- A goroutine moves, and starts nothing. -/
theorem Owned.step (hpt : OwnAt m t pt) (hjobs : m'.jobs = m.jobs)
    (hbuffer : m'.buffer = m.buffer) (hhandler : m'.handler = m.handler) :
    Owned m' (update pts t pt) := by
  refine h.move (hpt.mono (by rw [hjobs]; exact fun _ => id) (.inl hhandler))
    (by rw [hjobs]; exact fun _ => id) (by rw [hjobs]; exact fun _ => .inl)
    (by rw [hbuffer]; exact fun _ _ => .inl) fun _ _ => .inl hhandler

/-- A goroutine starts another one. -/
theorem Owned.spawn (hpt : OwnAt (m.spawn j) t pt) (hj : j.Own) :
    Owned (m.spawn j) (update pts t pt) := by
  refine h.move hpt (fun i hi => List.mem_append_left _ hi) ?_ (fun _ _ => .inl)
    fun _ _ => .inl rfl
  intro i hi
  rcases List.mem_append.mp hi with hi | hi
  · exact .inl hi
  · rw [List.mem_singleton.mp hi]
    exact .inr hj

/-- A goroutine moves in `Route`. -/
theorem Owned.route (hmoves : RouteMoves m fr rp a m' out) (hfr : fr.Own)
    (hpt : ∀ m, OwnAt m t pt) : Owned m' (update pts t pt) := by
  cases hmoves with
  | spawn => exact h.spawn (hpt _) hfr
  | _ => exact h.step (hpt _) rfl rfl rfl

/-- Steps of a callback -/
theorem Owned.callback {i : Fin n}
    (hmoves : CallbackMoves m (pts (.callback i)) a m' pt)
    (hcond : ∀ h, a = some (.setHandler h) → ∀ j, Thread.callback j ≠ .callback i →
      Between (CallbackPoint.prog (pts (.callback j))) = false) :
    Owned m' (update pts (.callback i) pt) := by
  have hpt := h.points (.callback i)
  generalize pts (.callback i) = pt₀ at hmoves hpt
  cases hmoves with
  | start | back => exact h.step trivial rfl rfl rfl
  | make =>
    refine h.move trivial (fun _ => id) (fun _ => .inl) ?_ fun _ _ => .inl rfl
    intro c r hr
    change update m.buffer m.calls none c = some r at hr
    by_cases hc : c = m.calls
    · rw [hc, update_self] at hr
      cases hr
    · rw [update_of_ne hc] at hr
      exact .inl hr
  | add => exact h.step rfl rfl rfl rfl
  | @set c h' =>
    -- nobody else is about to read the handler
    refine h.move hpt (fun _ => id) (fun _ => .inl) (fun _ _ => .inl) ?_
    intro u hu
    refine .inr ?_
    cases u with
    | callback j => exact hcond h' rfl j hu
    | worker k => exact WorkerPoint.not_between k _
    | client => cases pts .client <;> rfl
  | fork => exact h.step ⟨hpt, hpt⟩ rfl rfl rfl
  | read | close | closeClosed => exact h.step hpt rfl rfl rfl
  | route hroute => exact h.route hroute hpt fun _ => hpt
  | returned hroute => exact h.route hroute hpt fun _ => trivial
  | @receive c r hr =>
    have hmem := h.buffer c r hr
    refine h.move ?_ (fun _ => id) (fun _ => .inl) ?_ fun _ _ => .inl rfl
    · rintro x ⟨⟩
      exact hmem
    · intro d x hx
      change update m.buffer c none d = some x at hx
      by_cases hd : d = c
      · rw [hd, update_self] at hx
        cases hx
      · rw [update_of_ne hd] at hx
        exact .inl hx
  | giveUp => exact h.step nofun rfl rfl rfl

end

/-- Where a worker begins is given by its job. -/
theorem Job.Own.point (h : j.Own) (hmem : j ∈ m.jobs) : j.point.Own m := by
  cases j with
  | request fr req =>
    obtain ⟨app, cancels⟩ := req
    cases app with
    | other => trivial
    | returnResult r =>
      simp only [Job.point, h.2]
      exact ⟨h, rfl⟩
    | branch b => exact h
  | route fr => exact h
  | send ch r ctx => exact ⟨h, hmem⟩

/-- Steps of a worker -/
theorem Owned.worker (h : Owned m pts) {k : Nat}
    (hmoves : WorkerMoves m k (pts (.worker k)) a m' pt) :
    Owned m' (update pts (.worker k) pt) := by
  have hpt := h.points (.worker k)
  generalize pts (.worker k) = pt₀ at hmoves hpt
  cases hmoves with
  | wake | reject | inherit | spare | mark | quit | sendClosed | finish =>
    exact h.step trivial rfl rfl rfl
  | @start j hj =>
    have hmem : j ∈ m.jobs := List.mem_of_getElem? hj
    exact h.step ((h.jobs j hmem).point hmem) rfl rfl rfl
  | route hroute => exact h.route hroute hpt fun _ => hpt
  | @returned fr parent _ _ _ hroute =>
    refine h.route hroute hpt fun _ => ?_
    cases parent <;> trivial
  | cancel | branchOff => exact h.step hpt rfl rfl rfl
  | launch => exact h.spawn trivial hpt.2
  | branch => exact h.step (hpt.child _) rfl rfl rfl
  | detach | detachSchema => exact h.spawn trivial (hpt.child _)
  | @send ch ctx r hopen =>
    obtain ⟨rfl, hmem⟩ := hpt
    refine h.move trivial (fun _ => id) (fun _ => .inl) ?_ fun _ _ => .inl rfl
    intro c x hx
    change update m.buffer ch (some r) c = some x at hx
    by_cases hc : c = ch
    · rw [hc, update_self] at hx
      cases hx
      rw [hc]
      exact .inr hmem
    · rw [update_of_ne hc] at hx
      exact .inl hx

theorem Owned.keep {s s' : BotPool n}
    (hat : s.At progAt pts) (hmoves : Moving moves m pts e m' pts') (h : Owned m pts)
    (hcond : Apart (s, written) e (s', written')) : Owned m' pts' := by
  cases hmoves with
  | @move t a m' pt hmoves =>
    cases t with
    | callback i =>
      refine h.callback hmoves ?_
      rintro h' rfl j hj
      exact (congrArg Between (hat (.callback j))).symm.trans (hcond j hj)
    | worker k => exact h.worker hmoves
    | client =>
      generalize pts .client = pt₀ at hmoves
      cases hmoves with
      | start | endCtx => exact h.step trivial rfl rfl rfl

end Owned

/-! ## The handler of the scope -/

/-- What a callback is about to write is bound to a channel. -/
def WritesBound {n : Nat} : (t : Thread n) → Point t → Prop
  | .callback _ => fun pt => ∀ c h, pt = .setting c h → h.isSome = true
  | _ => fun _ => True

/-- Once it has been written, the handler is bound to the channel of a callback. -/
structure Bound {n : Nat} (m : Scope) (pts : ∀ t : Thread n, Point t) (written : Bool) :
    Prop where
  points : ∀ t, WritesBound t (pts t)
  handler : m.handler = none ↔ written = false

section Bound

variable {n : Nat} {m m' : Scope} {pts pts' : ∀ t : Thread n, Point t} {written : Bool}
  {s s' : BotPool n}

theorem note_of_ne (ha : ∀ h, a ≠ some (.setHandler h)) :
    note s (Event.of t a) s' written = written := by
  cases a with
  | none => rfl
  | some op =>
    cases op with
    | setHandler h => exact absurd rfl (ha h)
    | _ => rfl

theorem Bound.move (h : Bound m pts written)
    (hpt : WritesBound t pt) (hhandler : m'.handler = none ↔ written' = false) :
    Bound m' (update pts t pt) written' := by
  refine ⟨?_, hhandler⟩
  exact (Function.forall_update_iff pts fun u (p : Point u) => WritesBound u p).mpr
    ⟨hpt, fun u _ => h.points u⟩

theorem RouteMoves.frame (h : RouteMoves m fr rp a m' out) :
    m'.handler = m.handler ∧ ∀ h, a ≠ some (.setHandler h) := by
  cases h <;> exact ⟨rfl, nofun⟩

/-- A step either leaves the handler alone, or is a callback's that writes a bound one. -/
theorem CallbackMoves.writes (h : CallbackMoves m pt a m' pt') :
    (m'.handler = m.handler ∧ ∀ h, a ≠ some (.setHandler h)) ∨
      ∃ c h, pt = .setting c h ∧ a = some (.setHandler h) ∧ m'.handler = h := by
  cases h with
  | @set c h => exact .inr ⟨c, h, rfl, rfl, rfl⟩
  | route hroute | returned hroute => exact .inl hroute.frame
  | _ => exact .inl ⟨rfl, nofun⟩

theorem CallbackMoves.writesBound (h : CallbackMoves m pt a m' pt') :
    ∀ c h, pt' = .setting c h → h.isSome = true := by
  rintro c h rfl
  cases h with
  | add => rfl

theorem WorkerMoves.frame (h : WorkerMoves m k pt a m' pt') :
    m'.handler = m.handler ∧ ∀ h, a ≠ some (.setHandler h) := by
  cases h with
  | route hroute | returned hroute => exact hroute.frame
  | _ => exact ⟨rfl, nofun⟩

theorem Bound.keep {e : Concurrent.Event (Thread n) Op} (hmoves : Moving moves m pts e m' pts')
    (h : Bound m pts written) : Bound m' pts' (note s e s' written) := by
  have hsame : ∀ {m' : Scope} {t : Thread n} {a : Option Op}, m'.handler = m.handler →
      (∀ h, a ≠ some (.setHandler h)) →
        (m'.handler = none ↔ note s (Event.of t a) s' written = false) := by
    intro m' t a hhandler ha
    rw [note_of_ne ha, hhandler]
    exact h.handler
  cases hmoves with
  | @move t a m' pt hmoves =>
    cases t with
    | callback i =>
      refine h.move (CallbackMoves.writesBound hmoves) ?_
      rcases CallbackMoves.writes hmoves with ⟨hhandler, ha⟩ | ⟨c, h', hpt, rfl, hhandler⟩
      · exact hsame hhandler ha
      · have hsome := h.points (.callback i) c h' hpt
        rw [hhandler]
        constructor
        · intro hnone
          rw [hnone] at hsome
          cases hsome
        · intro hwritten
          cases hwritten
    | worker k =>
      obtain ⟨hhandler, ha⟩ := WorkerMoves.frame hmoves
      exact h.move trivial (hsame hhandler ha)
    | client =>
      refine h.move trivial ?_
      generalize pts .client = pt₀ at hmoves
      cases hmoves with
      | start | endCtx => exact hsame rfl nofun

end Bound

/-- Nothing has been called. -/
def atRest {n : Nat} : (t : Thread n) → Point t
  | .callback _ => .idle
  | .worker _ => .asleep
  | .client => .idle

theorem at_ready (n : Nat) : (ready n).At progAt atRest := by
  intro t
  cases t <;> rfl

theorem owned_ready (n : Nat) : Owned (ready n).shared (atRest (n := n)) := by
  constructor
  · intro t
    cases t <;> trivial
  · intro j hj
    cases hj
  · intro c r hr
    cases hr

theorem bound_ready (n : Nat) : Bound (ready n).shared (atRest (n := n)) false := by
  constructor
  · intro t
    cases t with
    | callback i => exact nofun
    | worker k => trivial
    | client => trivial
  · exact ⟨fun _ => rfl, fun _ => rfl⟩

/-- What holds at every moment of a run in which the callbacks keep apart. -/
structure Kept {n : Nat} (m : Scope) (pts : ∀ t : Thread n, Point t) (written : Bool) :
    Prop where
  owned : Owned m pts
  bound : Bound m pts written

theorem responded_of_prog {pt : CallbackPoint}
    (h : pt.prog = .ret (.responded c r)) : pt = .responded c r := by
  cases pt with
  | responded c r =>
    cases h
    rfl
  | route fr rp => cases rp <;> cases h
  | _ => cases h

/-- In every interleaving of any number of callbacks on one scope, with sub-flows of any schema,
in which a callback writes the handler of the scope only when every other one has read its own
back, a response that a callback returns is a result that a flow of this callback has passed to
`returnResult`. And in every interleaving the handler of the scope is the one from before the
callbacks exactly as long as no callback has written it. -/
theorem own_of_apart {n : Nat} {ok : Prop} {x : BotPool n × Bool}
    (h : Trace.Steps (Recorded callbacks note) Apart (ready n, false) ok x) :
    (ok → ∀ i c r, x.1.thread (.callback i) = .ret (.responded c (some r)) →
      ∃ ch, Job.send ch r c ∈ x.1.shared.jobs) ∧
      (x.1.shared.handler = none ↔ x.2 = false) := by
  constructor
  · intro hok i c r hresponded
    obtain ⟨pts, hat, hkept⟩ : ∃ pts, x.1.At progAt pts ∧ Kept x.1.shared pts x.2 :=
      (callbacks_outline n).run h hok (at_ready n) ⟨owned_ready n, bound_ready n⟩
        fun _ _ hat _ hmoves hinv hcond =>
          ⟨hinv.owned.keep hat hmoves hcond, hinv.bound.keep hmoves⟩
    rw [hat (.callback i)] at hresponded
    have hpt := hkept.owned.points (.callback i)
    rw [responded_of_prog hresponded] at hpt
    exact ⟨c, hpt r rfl⟩
  · obtain ⟨ok', hfree, hok'⟩ := h.free
    obtain ⟨pts, -, hbound⟩ : ∃ pts, x.1.At progAt pts ∧ Bound x.1.shared pts x.2 :=
      (callbacks_outline n).run hfree hok' (at_ready n) (bound_ready n)
        fun _ _ _ _ hmoves hinv _ => hinv.keep hmoves
    exact hbound.handler

/-! ## Schedules -/

/-- The result of a callback -/
def result (output : String) : BotExecuteResponse := ⟨false, "", false, output⟩

/-- A goroutine moves; if it goes on with a request of its flow, it is `app`. -/
def goes {n : Nat} (t : Thread n) (app : App) (moves : Nat) : List (Thread n × Outside) :=
  List.replicate moves (t, ⟨some ⟨app, false⟩, false, 0⟩)

/-- A goroutine moves; its flow has no further request. -/
def ends {n : Nat} (t : Thread n) (moves : Nat) : List (Thread n × Outside) :=
  List.replicate moves (t, ⟨none, false, 0⟩)

/-- The callback `i` writes the handler. -/
def writes {n : Nat} (i : Fin n) : List (Thread n × Outside) := goes (.callback i) .other 4

/-- The callback `i` reads the handler back, and its flow returns a result. The job of this
request is `k`, and the goroutine with the result is the job `k + 1`. -/
def returns {n : Nat} (i : Fin n) (output : String) (k : Nat) : List (Thread n × Outside) :=
  goes (.callback i) (.returnResult (some (result output))) 5 ++
    ends (.worker k) 5 ++ ends (.worker (k + 1)) 4

/-- The callback `i` gets its response. -/
def responds {n : Nat} (i : Fin n) : List (Thread n × Outside) := ends (.callback i) 4

instance {n : Nat} (x : BotPool n × Bool) (e : Concurrent.Event (Thread n) Op)
    (y : BotPool n × Bool) : Decidable (Apart x e y) := by
  unfold Apart
  split <;> infer_instance

/-- The response of a callback -/
def response : Go Label → Option (Nat × Option BotExecuteResponse)
  | .ret (.responded c r) => some (c, r)
  | _ => none

theorem thread_of_response (h : response p = some (c, r)) : p = .ret (.responded c r) := by
  unfold response at h
  split at h
  · cases h
    rfl
  · cases h

/-- The second callback writes the handler when the first one has read it back, but before it has
its response. -/
def inTurn : List (Thread 2 × Outside) :=
  writes 0 ++ returns 0 "first" 0 ++ writes 1 ++ returns 1 "second" 2 ++ responds 1 ++ responds 0

/-- Both callbacks get the results of their own flows; the handler stays bound. -/
theorem own_of_apart_inTurn :
    ∃ x, Trace.play (Pool.record callbacks note) inTurn (ready 2, false) = some x ∧
      (x.1.thread (.callback 0) = .ret (.responded 0 (some (result "first"))) ∧
        ∃ ch, Job.send ch (result "first") 0 ∈ x.1.shared.jobs) ∧
      (x.1.thread (.callback 1) = .ret (.responded 1 (some (result "second"))) ∧
        ∃ ch, Job.send ch (result "second") 1 ∈ x.1.shared.jobs) ∧
      x.1.shared.handler ≠ none := by
  obtain ⟨x, hx, ⟨hfirst, hsecond, hwritten⟩, ok, hsteps, hok⟩ := Pool.reaches_record callbacks note
    (fun x e y => of_decide_eq_true (p := Apart x e y)) inTurn (ready 2, false)
    (fun x => response (x.1.thread (.callback 0)) = some (0, some (result "first")) ∧
      response (x.1.thread (.callback 1)) = some (1, some (result "second")) ∧ x.2 = true)
    (by decide +kernel)
  have hthread₀ := thread_of_response hfirst
  have hthread₁ := thread_of_response hsecond
  obtain ⟨hown, hhandler⟩ := own_of_apart hsteps
  refine ⟨x, hx, ⟨hthread₀, hown hok 0 0 _ hthread₀⟩, ⟨hthread₁, hown hok 1 1 _ hthread₁⟩,
    fun hnone => ?_⟩
  rw [hhandler.mp hnone] at hwritten
  cases hwritten

/-- Two callbacks write the handler before the first one reads it back. -/
def crossed : List (Thread 2 × Outside) :=
  writes 0 ++ writes 1 ++ returns 0 "first" 0 ++ ends (.callback 1) 5

/-- The second callback, whose flow has returned nothing, gets the result of the first one; and
the handler of the scope is not the one from before. -/
theorem own_of_apart_crossed :
    ∃ ok x, Trace.Steps (Recorded callbacks note) Apart (ready 2, false) ok x ∧
      x.1.thread (.callback 1) = .ret (.responded 1 (some (result "first"))) ∧
        (∀ ch, Job.send ch (result "first") 1 ∉ x.1.shared.jobs) ∧
          x.1.shared.handler ≠ none := by
  obtain ⟨x, -, ⟨hresponse, hhandler, hjobs⟩, ok, hsteps⟩ := Trace.reaches
    (Pool.record_step callbacks note) Apart crossed (ready 2, false)
    (fun x => response (x.1.thread (.callback 1)) = some (1, some (result "first")) ∧
      x.1.shared.handler = some 1 ∧ x.1.shared.jobs =
        [.request ⟨0, 0, some 1, some 1⟩ ⟨.returnResult (some (result "first")), false⟩,
          .send 1 (result "first") 0]) (by decide +kernel)
  refine ⟨ok, x, hsteps, thread_of_response hresponse, ?_, ?_⟩
  · intro ch hmem
    rw [hjobs] at hmem
    simp at hmem
  · rw [hhandler]
    nofun

end FlowManager.Bot
