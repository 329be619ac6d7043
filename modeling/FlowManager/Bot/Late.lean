import FlowManager.Bot.Results

/-!
# Results that come late

`returnResult` starts a goroutine that sends the result. It may come to send it when the callback
has had its response, or has been given up, and has closed the channel.

- `Single`: a channel is given one result at most, and the context of the callback does not end
  before that result has been sent.
- `Calm`: then a goroutine that has yet to send its result has a channel that is not used yet.
- `open_of_single`: so nothing is sent on a channel that is closed.
-/

namespace FlowManager.Bot

open Concurrent Function

/-- The goroutine of `botReturnResult` has left its `select`. -/
def Sent : Go Label → Bool
  | .act (.finish _) _ | .ret .gone => true
  | _ => false

/-- For every channel, `returnResult` is called once at most, and not after the context of the
callback has ended; and this context ends only when the result has been sent. -/
def Single {n : Nat} (s : BotPool n) (e : Concurrent.Event (Thread n) Op) (_ : BotPool n) :
    Prop :=
  match e with
  | .act _ (.spawn (.send ch _ _)) =>
    s.shared.ended ch = false ∧ ∀ (k : Nat) r ctx, s.shared.jobs[k]? ≠ some (.send ch r ctx)
  | .act _ (.endCtx c) => ∀ k r ctx, s.shared.jobs[k]? = some (.send c r ctx) →
      Sent (s.thread (.worker k)) = true
  | _ => True

/-- The channel of a callback that has not closed it -/
def CallbackPoint.chan : CallbackPoint → Option Nat
  | .adding c | .setting c _ | .forking c | .reading c _ _ | .awaiting c | .closing c _ => some c
  | .route fr _ => some fr.ctx
  | _ => none

/-- A worker whose job is to send a result has not done so yet. -/
def WorkerPoint.unsent : WorkerPoint → Bool
  | .asleep | .starting | .sending _ _ _ => true
  | _ => false

/-- The job `k` is to send a result on the channel. -/
def Scope.SendsTo (m : Scope) (k ch : Nat) : Prop := ∃ r ctx, m.jobs[k]? = some (.send ch r ctx)

/-- The channel has a result, or its callback does not wait for one any more or need not do so. -/
def Used {n : Nat} (m : Scope) (pts : ∀ t : Thread n, Point t) (c : Nat) : Prop :=
  m.closed c = true ∨ m.ended c = true ∨ m.buffer c ≠ none ∨
    ∃ i r, pts (.callback i) = CallbackPoint.closing c r

/-- Every callback has a channel of its own, which it has not closed, and a channel is not used
before its one result is sent or its context has ended. -/
structure Calm {n : Nat} (m : Scope) (pts : ∀ t : Thread n, Point t) : Prop where
  chans : Allotted (fun i => CallbackPoint.chan (pts (.callback i))) m.calls
  live : ∀ i c, CallbackPoint.chan (pts (.callback i)) = some c → m.closed c = false
  sends : ∀ k ch r ctx, pts (.worker k) = WorkerPoint.sending ch r ctx → m.SendsTo k ch
  once : ∀ k k' ch, m.SendsTo k ch → m.SendsTo k' ch → k = k'
  pending : ∀ k ch, m.SendsTo k ch → WorkerPoint.unsent (pts (.worker k)) = true →
    ¬ Used m pts ch
  used : ∀ c, Used m pts c → m.ended c = true ∨ ∃ k, m.SendsTo k c
  running : m.panicked = false

/-- Nothing is done to channels and contexts, and no job is started that sends. -/
structure Scope.Quiet (m m' : Scope) : Prop where
  calls : m'.calls = m.calls
  closed : m'.closed = m.closed
  ended : m'.ended = m.ended
  buffer : m'.buffer = m.buffer
  panicked : m'.panicked = m.panicked
  sends : ∀ k ch, m'.SendsTo k ch ↔ m.SendsTo k ch

section Calm

variable {n : Nat} {m m' : Scope} {pts pts' : ∀ t : Thread n, Point t}

/-- The jobs that send, after a job has been started -/
theorem sendsTo_spawn :
    (m.spawn j).SendsTo k ch ↔
      m.SendsTo k ch ∨ k = m.jobs.length ∧ ∃ r ctx, j = .send ch r ctx := by
  unfold Scope.SendsTo Scope.spawn
  rcases Nat.lt_trichotomy k m.jobs.length with hlt | heq | hgt
  · simp [List.getElem?_append_left hlt, Nat.ne_of_lt hlt]
  · simp [heq]
  · simp [List.getElem?_append_right (Nat.le_of_lt hgt), Nat.ne_of_gt hgt,
      Nat.sub_eq_zero_iff_le, hgt, List.getElem?_eq_none (Nat.le_of_lt hgt)]

theorem RouteMoves.quiet (h : RouteMoves m fr rp a m' out) : m.Quiet m' := by
  cases h with
  | spawn => exact ⟨rfl, rfl, rfl, rfl, rfl, fun _ _ => by rw [sendsTo_spawn]; simp⟩
  | _ => exact ⟨rfl, rfl, rfl, rfl, rfl, fun _ _ => Iff.rfl⟩

theorem callback_injective : Injective (Thread.callback : Fin n → Thread n) :=
  fun _ _ => Thread.callback.inj

theorem worker_injective : Injective (Thread.worker : Nat → Thread n) :=
  fun _ _ => Thread.worker.inj

section

variable (h : Calm m pts)
include h

/-- A step that starts no job that sends: a channel that comes to be used has had its result, or
its context has ended, and nobody has yet to send to it. -/
theorem Calm.step (hchans : Allotted (fun i => CallbackPoint.chan (pts' (.callback i))) m'.calls)
    (hlive : ∀ i c, CallbackPoint.chan (pts' (.callback i)) = some c → m'.closed c = false)
    (hjobs : ∀ k ch, m'.SendsTo k ch ↔ m.SendsTo k ch)
    (hworker : ∀ k, (WorkerPoint.unsent (pts' (.worker k)) = true →
        WorkerPoint.unsent (pts (.worker k)) = true) ∧
      ∀ ch r ctx, pts' (.worker k) = WorkerPoint.sending ch r ctx → m.SendsTo k ch)
    (hended : ∀ c, m.ended c = true → m'.ended c = true)
    (hused : ∀ c, Used m' pts' c → Used m pts c ∨ (m'.ended c = true ∨ ∃ k, m.SendsTo k c) ∧
      ∀ k, m.SendsTo k c → WorkerPoint.unsent (pts' (.worker k)) = false)
    (hrunning : m'.panicked = false) : Calm m' pts' where
  chans := hchans
  live := hlive
  sends k ch r ctx hk := (hjobs k ch).mpr ((hworker k).2 ch r ctx hk)
  once k k' ch hk hk' := h.once k k' ch ((hjobs k ch).mp hk) ((hjobs k' ch).mp hk')
  pending k ch hk hunsent hch := by
    rw [hjobs] at hk
    rcases hused ch hch with hold | ⟨-, hnone⟩
    · exact h.pending k ch hk ((hworker k).1 hunsent) hold
    · rw [hnone k hk] at hunsent
      cases hunsent
  used c hc := by
    simp only [hjobs]
    rcases hused c hc with hold | ⟨hwhy, -⟩
    · exact (h.used c hold).imp_left (hended c)
    · exact hwhy
  running := hrunning

/-- A callback moves, and uses no channel that was not. -/
theorem Calm.callbackMove {pt : CallbackPoint} (hrunning : m'.panicked = m.panicked)
    (hended : m'.ended = m.ended) (hjobs : ∀ k ch, m'.SendsTo k ch ↔ m.SendsTo k ch)
    (hchans :
      Allotted (update (fun j => CallbackPoint.chan (pts (.callback j))) i pt.chan) m'.calls)
    (hlive : ∀ c, pt.chan = some c → m'.closed c = false)
    (hothers : ∀ j, j ≠ i → ∀ c, CallbackPoint.chan (pts (.callback j)) = some c →
      m'.closed c = false)
    (hclosed : ∀ c, m'.closed c = true → Used m pts c)
    (hbuffer : ∀ c, m.buffer c = none → m'.buffer c = none)
    (hpt : ∀ c r, pt = .closing c r → Used m pts c) : Calm m' (update pts (.callback i) pt) := by
  refine h.step ?_ (forall_family (P := Point) callback_injective
    (fun _ p => ∀ c, CallbackPoint.chan p = some c → m'.closed c = false) hlive hothers) hjobs
    (fun k => ⟨id, h.sends k⟩) (fun c hc => hended ▸ hc) (fun c hc => .inl ?_)
    (hrunning.trans h.running)
  · rw [update_family (P := Point) callback_injective fun _ => CallbackPoint.chan]
    exact hchans
  · rcases hc with hc | hc | hc | ⟨j, r, hj⟩
    · exact hclosed c hc
    · exact .inr (.inl (hended ▸ hc))
    · exact .inr (.inr (.inl (mt (hbuffer c) hc)))
    · revert hj
      exact forall_family (P := Point) callback_injective
        (fun _ p => p = CallbackPoint.closing c r → Used m pts c) (hpt c r)
        (fun j _ hj => .inr (.inr (.inr ⟨j, r, hj⟩))) j

/-- Steps of a callback -/
theorem Calm.callback (hmoves : CallbackMoves m (pts (.callback i)) a m' pt) :
    Calm m' (update pts (.callback i) pt) := by
  -- a callback that keeps its channel, or has none any more
  have hkept : ∀ {m' : Scope}, m'.calls = m.calls → m'.closed = m.closed →
      m'.panicked = m.panicked → m'.ended = m.ended →
      (∀ k ch, m'.SendsTo k ch ↔ m.SendsTo k ch) →
      (pt.chan = none ∨ pt.chan = CallbackPoint.chan (pts (.callback i))) →
      (∀ c, m.buffer c = none → m'.buffer c = none) →
      (∀ c r, pt = .closing c r → Used m pts c) → Calm m' (update pts (.callback i) pt) := by
    intro m' hcalls hclosed hrunning hended hjobs hchan hbuffer
    refine h.callbackMove hrunning hended hjobs (h.chans.release hchan (Nat.le_of_eq hcalls.symm))
      (fun c hc => ?_) (fun j _ c hc => hclosed ▸ h.live j c hc) (fun c hc => .inl (hclosed ▸ hc))
      hbuffer
    rw [hclosed]
    rcases hchan with hnone | hold
    · rw [hnone] at hc
      cases hc
    · exact h.live i c (hold.symm.trans hc)
  have hsame : ∀ k ch, m.SendsTo k ch ↔ m.SendsTo k ch := fun _ _ => Iff.rfl
  generalize hpt : pts (.callback i) = pt₀ at hmoves hkept
  cases hmoves with
  | start | back => exact hkept rfl rfl rfl rfl hsame (.inl rfl) (fun _ => id) nofun
  | add | set | fork | read => exact hkept rfl rfl rfl rfl hsame (.inr rfl) (fun _ => id) nofun
  | route hroute | returned hroute =>
    have hquiet := hroute.quiet
    exact hkept hquiet.calls hquiet.closed hquiet.panicked hquiet.ended hquiet.sends (.inr rfl)
      (fun c hc => hquiet.buffer ▸ hc) nofun
  | make =>
    have hclosed : ∀ c, m.makeChan.closed c = true → m.closed c = true := by
      intro c hc
      by_cases hnew : c = m.calls
      · subst hnew
        exact absurd ((update_self ..).symm.trans hc) nofun
      · exact (update_of_ne hnew ..).symm.trans hc
    refine h.callbackMove rfl rfl hsame (h.chans.give i) ?_ (fun j _ c hc => ?_)
      (fun c hc => .inl (hclosed c hc)) (fun c hc => ?_) nofun
    · rintro c ⟨⟩
      exact update_self ..
    · exact Bool.eq_false_iff.mpr fun hnew => absurd (hclosed c hnew) (by rw [h.live j c hc]; nofun)
    · by_cases hnew : c = m.calls
      · subst hnew
        exact update_self ..
      · exact (update_of_ne hnew ..).trans hc
  | @receive c r hr =>
    refine hkept rfl rfl rfl rfl hsame (.inr rfl) (fun d hd => ?_) ?_
    · by_cases hdc : d = c
      · rw [hdc, hr] at hd
        cases hd
      · exact (update_of_ne hdc ..).trans hd
    · rintro _ _ ⟨⟩
      exact .inr (.inr (.inl (by rw [hr]; nofun)))
  | @giveUp c hended =>
    refine hkept rfl rfl rfl rfl hsame (.inr rfl) (fun _ => id) ?_
    rintro _ _ ⟨⟩
    exact .inr (.inl hended)
  | @close c r hopen =>
    refine h.callbackMove rfl rfl hsame (h.chans.release (.inl rfl) (Nat.le_refl _)) nofun
      (fun j hji d hd => ?_) (fun d hd => ?_) (fun _ => id) nofun
    · refine (update_of_ne ?_ ..).trans (h.live j d hd)
      rintro rfl
      exact hji (h.chans.inj hd (by rw [hpt]; rfl))
    · by_cases hdc : d = c
      · exact .inr (.inr (.inr ⟨i, r, by rw [hpt, hdc]⟩))
      · exact .inl ((update_of_ne hdc ..).symm.trans hd)
  | @closeClosed c r hclosed =>
    rw [h.live i c (by rw [hpt]; rfl)] at hclosed
    cases hclosed

/-- `returnResult` starts the goroutine that sends the one result of the channel. -/
theorem Calm.launch {pt : WorkerPoint} (hpt : pt.unsent = false) (hended : m.ended ch = false)
    (hfirst : ∀ k, ¬ m.SendsTo k ch) :
    Calm (m.spawn (.send ch r ctx)) (update pts (.worker k) pt) := by
  have hunused : ¬ Used m pts ch := by
    intro hused
    rcases h.used ch hused with hend | ⟨j, hj⟩
    · rw [hended] at hend
      cases hend
    · exact hfirst j hj
  have hsends : ∀ {j c}, (m.spawn (.send ch r ctx)).SendsTo j c →
      m.SendsTo j c ∨ j = m.jobs.length ∧ c = ch := by
    intro j c hj
    refine (sendsTo_spawn.mp hj).imp_right fun ⟨hlast, _, _, heq⟩ => ⟨hlast, ?_⟩
    cases heq
    rfl
  refine ⟨h.chans, h.live, ?_, fun j j' c hj hj' => ?_, fun j c hj hunsent hc => ?_, fun c hc => ?_,
    h.running⟩
  · refine forall_family (P := Point) worker_injective (fun j p => ∀ c r' ctx',
      p = WorkerPoint.sending c r' ctx' → (m.spawn (.send ch r ctx)).SendsTo j c) ?_
      fun j _ c r' ctx' hj =>
        sendsTo_spawn.mpr (.inl (h.sends j c r' ctx' hj))
    rintro c r' ctx' rfl
    cases hpt
  · rcases hsends hj with hj | ⟨rfl, rfl⟩ <;> rcases hsends hj' with hj' | ⟨rfl, hc⟩
    · exact h.once j j' c hj hj'
    · exact absurd (hc ▸ hj) (hfirst j)
    · exact absurd hj' (hfirst j')
    · rfl
  · rcases hsends hj with hj | ⟨-, rfl⟩
    · refine h.pending j c hj ?_ hc
      revert hunsent
      exact forall_family (P := Point) worker_injective (fun j p => WorkerPoint.unsent p = true →
        WorkerPoint.unsent (pts (.worker j)) = true) (by rw [hpt]; nofun) (fun _ _ => id) j
    · exact hunused hc
  · exact (h.used c hc).imp_right fun ⟨j, hj⟩ => ⟨j, sendsTo_spawn.mpr (.inl hj)⟩

end

theorem Job.point_sending {j : Job} (h : j.point = .sending ch r ctx) : j = .send ch r ctx := by
  cases j with
  | request fr req =>
    obtain ⟨app, cancels⟩ := req
    cases app with
    | returnResult x =>
      simp only [Job.point] at h
      split at h <;> cases h
    | _ => cases h
  | route fr => cases h
  | send ch r ctx =>
    cases h
    rfl

/-- Steps of a worker -/
theorem Calm.worker (h : Calm m pts) {k : Nat}
    (hmoves : WorkerMoves m k (pts (.worker k)) a m' pt)
    (hcond : ∀ ch r ctx, a = some (.spawn (.send ch r ctx)) →
      m.ended ch = false ∧ ∀ k, ¬ m.SendsTo k ch) :
    Calm m' (update pts (.worker k) pt) := by
  have hpoints : ∀ {pt : WorkerPoint},
      (pt.unsent = true → WorkerPoint.unsent (pts (.worker k)) = true) →
      (∀ ch r ctx, pt = .sending ch r ctx → m.SendsTo k ch) →
      ∀ j, (WorkerPoint.unsent (update pts (.worker k) pt (.worker j)) = true →
          WorkerPoint.unsent (pts (.worker j)) = true) ∧ ∀ ch r ctx,
        update pts (.worker k) pt (.worker j) = WorkerPoint.sending ch r ctx → m.SendsTo j ch :=
    fun hunsent hsends => forall_family (P := Point) worker_injective
      (fun j p => (WorkerPoint.unsent p = true → WorkerPoint.unsent (pts (.worker j)) = true) ∧
        ∀ ch r ctx, p = WorkerPoint.sending ch r ctx → m.SendsTo j ch) ⟨hunsent, hsends⟩
      fun j _ => ⟨id, h.sends j⟩
  -- a worker that sends nothing
  have hstep : ∀ {m' : Scope} {pt : WorkerPoint}, m.Quiet m' →
      (pt.unsent = true → WorkerPoint.unsent (pts (.worker k)) = true) →
      (∀ ch r ctx, pt = .sending ch r ctx → m.SendsTo k ch) →
      Calm m' (update pts (.worker k) pt) := by
    intro m' pt hquiet hunsent hsends
    refine h.step (hquiet.calls ▸ h.chans) (fun i c hc => hquiet.closed ▸ h.live i c hc)
      hquiet.sends
      (hpoints hunsent hsends) (fun c hc => hquiet.ended ▸ hc) (fun c hc => .inl ?_)
      (hquiet.panicked.trans h.running)
    unfold Used at hc
    rw [hquiet.closed, hquiet.ended, hquiet.buffer] at hc
    exact hc
  have hsame : m.Quiet m := ⟨rfl, rfl, rfl, rfl, rfl, fun _ _ => Iff.rfl⟩
  have hspawn : ∀ {fr}, m.Quiet (m.spawn (.route fr)) :=
    ⟨rfl, rfl, rfl, rfl, rfl, fun _ _ => by rw [sendsTo_spawn]; simp⟩
  have hsends := h.sends k
  generalize hpt : pts (.worker k) = pt₀ at hmoves hstep hsends hpoints
  cases hmoves with
  | wake | quit => exact hstep hsame (fun _ => rfl) nofun
  | cancel | reject | branch | branchOff | inherit | spare | mark | finish =>
    exact hstep ⟨rfl, rfl, rfl, rfl, rfl, fun _ _ => Iff.rfl⟩ nofun nofun
  | @start j hj =>
    refine hstep hsame (fun _ => rfl) ?_
    intro ch r ctx hpoint
    rw [Job.point_sending hpoint] at hj
    exact ⟨r, ctx, hj⟩
  | route hroute => exact hstep hroute.quiet nofun nofun
  | @returned _ parent _ _ _ hroute => cases parent <;> exact hstep hroute.quiet nofun nofun
  | @launch fr r ch =>
    obtain ⟨hended, hfirst⟩ := hcond ch r fr.ctx rfl
    exact h.launch rfl hended hfirst
  | detach | detachSchema => exact hstep hspawn nofun nofun
  | @send ch ctx r hopen =>
    -- the channel is used now, and nobody else has a result for it
    have hk := hsends ch r ctx rfl
    refine h.step h.chans h.live (fun _ _ => Iff.rfl) (hpoints nofun nofun) (fun _ => id)
      (fun c hc => ?_) h.running
    by_cases hch : c = ch
    · subst hch
      refine .inr ⟨.inr ⟨k, hk⟩, fun j hj => ?_⟩
      rw [h.once j k c hj hk, update_self]
      rfl
    · unfold Used at hc
      dsimp only at hc
      rw [update_of_ne hch] at hc
      exact .inl hc
  | @sendClosed ch ctx r hclosed =>
    exact absurd (.inl hclosed) (h.pending k ch (hsends ch r ctx rfl) (by rw [hpt]; rfl))

/-- A context ends; the result for its callback has been sent, if there is one. -/
theorem Calm.endCtx (h : Calm m pts)
    (hsent : ∀ k, m.SendsTo k c → WorkerPoint.unsent (pts (.worker k)) = false) :
    Calm { m with ended := update m.ended c true } (update pts .client ClientPoint.idle) := by
  refine h.step h.chans h.live (fun _ _ => Iff.rfl) (fun k => ⟨id, h.sends k⟩) (fun d hd => ?_)
    (fun d hd => ?_) h.running
  · show update m.ended c true d = true
    rw [update_apply, hd, ite_self]
  · by_cases hdc : d = c
    · subst hdc
      exact .inr ⟨.inl (update_self ..), hsent⟩
    · unfold Used at hd
      dsimp only at hd
      rw [update_of_ne hdc] at hd
      exact .inl hd

theorem WorkerPoint.sent_of_prog {pt : WorkerPoint} (h : Sent (pt.prog k) = true) :
    pt.unsent = false := by
  cases pt <;> first | rfl | cases h

theorem Calm.keep (hm : s.shared = m) (hat : s.At progAt pts)
    (hmoves : Moving moves m pts e m' pts')
    (h : Calm m pts) (hcond : Single s e s') : Calm m' pts' := by
  cases hmoves with
  | @move t a m' pt hmoves =>
    cases t with
    | callback i => exact h.callback hmoves
    | worker k =>
      refine h.worker hmoves ?_
      rintro ch r ctx rfl
      rw [← hm]
      exact ⟨hcond.1, fun k ⟨r', ctx', hk⟩ => hcond.2 k r' ctx' hk⟩
    | client =>
      generalize pts .client = pt₀ at hmoves
      cases hmoves with
      | start => exact ⟨h.chans, h.live, h.sends, h.once, h.pending, h.used, h.running⟩
      | endCtx =>
        refine h.endCtx fun k ⟨r, ctx, hk⟩ => ?_
        rw [← hm] at hk
        have hsent := hcond k r ctx hk
        rw [hat (.worker k)] at hsent
        exact WorkerPoint.sent_of_prog hsent

theorem WorkerPoint.sending_of_prog {pt : WorkerPoint} {p : Unit → Go Label}
    (h : pt.prog k = .act (.send ch r ctx) p) : pt = .sending ch r ctx := by
  cases pt with
  | sending =>
    cases h
    rfl
  | route fr parent rp => cases rp <;> cases h
  | branching fr b => rcases b with (_ | _) | (_ | _) <;> cases h
  | _ => cases h

end Calm

theorem calm_ready (n : Nat) : Calm (ready n).shared (atRest (n := n)) where
  chans := ⟨nofun, nofun⟩
  live _ _ hc := nomatch hc
  sends _ _ _ _ hk := nomatch hk
  once _ _ _ hk := nomatch hk
  pending _ _ hk := nomatch hk
  used _ hc := by
    rcases hc with h | h | h | ⟨_, _, h⟩
    · cases h
    · cases h
    · exact absurd rfl h
    · cases h
  running := rfl

/-- In every interleaving of any number of callbacks on one scope, with sub-flows of any schema
and contexts that end at any moment, in which every channel is given one result at most, before the
context of its callback ends, and this context does not end before the result has been sent: a
goroutine that is about to send its result has a channel that is open, and nothing has panicked. -/
theorem open_of_single {n : Nat} {ok : Prop} {s : BotPool n}
    (h : Trace.Steps (Step callbacks) Single (ready n) ok s) (hok : ok) :
    s.shared.panicked = false ∧ ∀ k ch r ctx (p : Unit → Go Label),
      s.thread (.worker k) = .act (.send ch r ctx) p → s.shared.closed ch = false := by
  obtain ⟨pts, hat, hcalm⟩ : ∃ pts, s.At progAt pts ∧ Calm s.shared pts :=
    (callbacks_outline n).invariant h hok (at_ready n) (calm_ready n)
      fun hm _ hat _ hmoves hinv hcond => hinv.keep hm hat hmoves hcond
  refine ⟨hcalm.running, fun k ch r ctx p hthread => ?_⟩
  have hpt := WorkerPoint.sending_of_prog ((hat (.worker k)).symm.trans hthread)
  refine Bool.eq_false_iff.mpr fun hclosed => ?_
  exact hcalm.pending k ch (hcalm.sends k ch r ctx hpt) (by rw [hpt]; rfl) (.inl hclosed)

/-- A check for `Single` -/
def sendsOnce (s : BotPool 1) (e : Concurrent.Event (Thread 1) Op) (_ : BotPool 1) : Bool :=
  let sends (c k : Nat) : Bool :=
    match s.shared.jobs[k]? with
    | some (.send ch _ _) => ch == c
    | _ => false
  match e with
  | .act _ (.spawn (.send ch _ _)) => !s.shared.ended ch &&
      (List.range s.shared.jobs.length).all fun k => !sends ch k
  | .act _ (.endCtx c) => (List.range s.shared.jobs.length).all fun k =>
      !sends c k || Sent (s.thread (.worker k))
  | _ => true

theorem single_of_sendsOnce (s : BotPool 1) (e : Concurrent.Event (Thread 1) Op) (s' : BotPool 1)
    (h : sendsOnce s e s' = true) : Single s e s' := by
  have hrange : ∀ {k j}, s.shared.jobs[k]? = some j → k ∈ List.range s.shared.jobs.length :=
    fun hk => List.mem_range.mpr (List.getElem?_eq_some_iff.mp hk).1
  unfold Single
  split
  · simp only [sendsOnce, Bool.and_eq_true, Bool.not_eq_true', List.all_eq_true] at h
    refine ⟨h.1, fun k r ctx hk => ?_⟩
    simpa [hk] using h.2 k (hrange hk)
  · intro k r ctx hk
    simpa [hk] using List.all_eq_true.mp h k (hrange hk)
  · trivial

/-- The callback gets its result, and then its context ends. -/
def answered : List (Thread 1 × Outside) :=
  writes 0 ++ returns 0 "answer" 0 ++ responds 0 ++ ends .client 2

/-- In that schedule nothing panics. -/
theorem open_of_single_answered :
    ∃ s, Trace.play (fun s mv => Pool.move callbacks s mv.1 mv.2) answered (ready 1) = some s ∧
      s.thread (.callback 0) = .ret (.responded 0 (some (result "answer"))) ∧
        s.shared.ended 0 = true ∧ s.shared.panicked = false := by
  obtain ⟨s, hs, ⟨hresponse, hended⟩, ok, hsteps, hok⟩ := Pool.reaches callbacks single_of_sendsOnce
    answered (ready 1) (fun s => response (s.thread (.callback 0)) =
      some (0, some (result "answer")) ∧ s.shared.ended 0 = true) (by decide +kernel)
  exact ⟨s, hs, thread_of_response hresponse, hended, (open_of_single hsteps hok).1⟩

/-- The flow of the callback starts a function beside itself, and both return a result. The
callback gets the first one, and closes the channel before the second one is sent. -/
def twice : List (Thread 1 × Outside) :=
  writes 0 ++ goes (.callback 0) (.branch (.execute true)) 5 ++ ends (.worker 0) 6 ++
    ends (.callback 0) 2 ++ goes (.callback 0) (.returnResult (some (result "one"))) 3 ++
    ends (.worker 2) 5 ++ ends (.worker 3) 4 ++
    goes (.worker 1) (.returnResult (some (result "two"))) 5 ++ ends (.worker 4) 5 ++
    ends (.callback 0) 4 ++ ends (.worker 5) 3

/-- The second result is sent on a closed channel. -/
theorem open_of_single_twice :
    ∃ ok s, Trace.Steps (Step callbacks) Single (ready 1) ok s ∧ s.shared.panicked = true := by
  obtain ⟨s, -, hpanicked, ok, hsteps⟩ := Trace.reaches (Pool.moves_step callbacks) Single twice
    (ready 1) (fun s => s.shared.panicked = true) (by decide +kernel)
  exact ⟨ok, s, hsteps, hpanicked⟩

end FlowManager.Bot
