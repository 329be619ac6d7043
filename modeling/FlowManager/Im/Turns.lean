import FlowManager.Im.Board
import FlowManager.Im.Stages

/-!
# Turns

The events of the exchange come one by one, and each is handled by the listener as a whole;
the goroutines of the dialogs move access by access in between. Nothing drops out of the
connection store but by `stopConnection`.

- `TurnStep`: a round of the listener, a move of a goroutine, or a dialog that enters or leaves a
  queue; `TurnStep.steps`: it is a run of the threads.
- `Course`, `Goes`: the course of a goroutine, from the moment it is dispatched until it has
  removed its session.
- `OnCourse`: where the goroutines are, and what this says about the server. A goroutine that
  has been dispatched works for the connection that is stored, until it deletes it.
- `round_board`, `stored_of_busy`: what holds in every run.
-/

namespace FlowManager.Im

open Concurrent Function

/-! ## The system -/

/-- The dialog of a session enters a queue. -/
def Server.joinsQueue (s : Server) (id : String) : Server :=
  match s.store.lookup id with
  | some gen =>
    { s.modify ⟨id, gen⟩ fun conn => { conn with queueReturn := some s.chans.next } with
      chans := s.chans.make }
  | none => s

/-- The dialog of a session leaves its queue. -/
def Server.quitsQueue (s : Server) (id : String) : Server :=
  match s.store.lookup id with
  | some gen => s.modify ⟨id, gen⟩ fun conn => { conn with queueReturn := none }
  | none => s

/-- What happens in a turn. -/
inductive TurnEvent (E : Type) where
  | round (w : Outside E)
  | act (c : Ptr) (a : Op)
  | next (c : Ptr)
  | enterQueue (id : String)
  | leaveQueue (id : String)

/-- The turns -/
inductive TurnStep (E : Type) : ServerPool → TurnEvent E → ServerPool → Prop where
  | round {s : ServerPool} {w : Outside E} {m : Server}
      (hlistener : s.thread .listener = .ret .listen)
      (hrun : (listen w.event).run (exec w) s.shared = some ((), m)) :
      TurnStep E s (.round w) { s with shared := m }
  | act {s s' : ServerPool} {c : Ptr} {a : Op}
      (hstep : Step (dialogs E) s (.act (.runner c) a) s') : TurnStep E s (.act c a) s'
  | next {s s' : ServerPool} {c : Ptr} (hstep : Step (dialogs E) s (.next (.runner c)) s') :
      TurnStep E s (.next c) s'
  | enterQueue {s : ServerPool} (id : String) :
      TurnStep E s (.enterQueue id) { s with shared := s.shared.joinsQueue id }
  | leaveQueue {s : ServerPool} (id : String) :
      TurnStep E s (.leaveQueue id) { s with shared := s.shared.quitsQueue id }

/-- A turn is a run of the threads. -/
theorem TurnStep.steps {E : Type} {s s' : ServerPool} {e : TurnEvent E} (h : TurnStep E s e s') :
    ∃ ok, Trace.Steps (Step (dialogs E)) (fun _ _ _ => True) s ok s' := by
  cases h with
  | @round w m hlistener hrun =>
    have hnext : Step (dialogs E) s (.next .listener)
        (s.set .listener s.shared (do listen w.event; return .listen)) :=
      Step.next (w := w) hlistener rfl
    have hround : (do listen w.event; return .listen : Go Label).run (exec w) s.shared =
        some (.listen, m) := by
      rw [run_bind, hrun]
      rfl
    obtain ⟨ok, hsteps⟩ := Pool.run_steps (Trace.Steps.refl.tail hnext)
      (Pool.set_thread_self ..) hround
    refine ⟨ok, ?_⟩
    have hset : (s.set .listener s.shared (do listen w.event; return .listen)).set .listener m
        (.ret .listen) = { s with shared := m } := by
      unfold Pool.set
      rw [update_idem, ← hlistener, update_eq_self]
    rwa [hset] at hsteps
  | act hstep | next hstep => exact ⟨_, Trace.Steps.refl.tail hstep⟩
  | enterQueue id =>
    unfold Server.joinsQueue
    cases s.shared.store.lookup id with
    | none => exact ⟨_, Trace.Steps.refl⟩
    | some gen => exact ⟨_, Trace.Steps.refl.tail (Step.env (Env.enterQueue ⟨id, gen⟩))⟩
  | leaveQueue id =>
    unfold Server.quitsQueue
    cases s.shared.store.lookup id with
    | none => exact ⟨_, Trace.Steps.refl⟩
    | some gen => exact ⟨_, Trace.Steps.refl.tail (Step.env (Env.leaveQueue ⟨id, gen⟩))⟩

/-! ## The course of a goroutine -/

/-- How far the goroutine of a dialog is. -/
inductive Course where
  /-- not dispatched yet -/
  | waiting
  /-- it runs the schema, or waits in the park loop -/
  | alive
  /-- the run has ended by itself, and the parent has not been asked for -/
  | ending
  /-- this session is the parent -/
  | took (parent : String)
  /-- this connection is stored for the parent -/
  | found (parent : Ptr)
  /-- the parent was suspended, and is about to be resumed -/
  | waking (parent : Ptr)
  | stopping
  /-- the contexts that `Break` ends were looked up -/
  | breaking (rc lc : Nat)
  | deleted
  | gone

/-- The accesses by which a goroutine learns nothing about how it goes on. -/
def Op.runsFor (c : Ptr) : Op → Bool
  | .runContext d => decide (d = c)
  | .newFlow d _ => decide (d = c)
  | .route d _ => decide (d = c)
  | .repeatInterrupted d => decide (d = c)
  | .isSuspended d => decide (d = c)
  | _ => false

/-- The accesses of a goroutine whose run has ended by itself, before it asks for its
parent. -/
def Op.completes (c : Ptr) : Op → Bool
  | .completeId d => decide (d = c)
  | .complete d _ => decide (d = c)
  | _ => false

/-- The accesses of a goroutine that is about to stop. -/
def Op.stops (c : Ptr) : Op → Bool
  | .signal _ => true
  | .disconnected d => decide (d = c)
  | .store d st => decide (d = c ∧ st = .terminating)
  | _ => false

/-- How an access of the goroutine of the dialog `c` leads on. -/
inductive Goes (c : Ptr) : Course → (a : Op) → a.Result → Course → Prop where
  | take : Goes c .waiting (.take c) () .alive
  | run {a : Op} {r : a.Result} (ha : a.runsFor c = true) : Goes c .alive a r .alive
  | schema {schema : Applications} : Goes c .alive (.routing c) (some schema) .alive
  | noSchema : Goes c .alive (.routing c) none .stopping
  | resumed : Goes c .alive (.awaitResume c) true .alive
  | cancelled : Goes c .alive (.awaitResume c) false .stopping
  | goOn : Goes c .alive (.isTerminating c) false .alive
  | terminated : Goes c .alive (.isTerminating c) true .stopping
  | leave : Goes c .alive (.isTerminating c) false .ending
  | complete {a : Op} {r : a.Result} (ha : a.completes c = true) : Goes c .ending a r .ending
  | noParent {r : Option String} (hr : r = none ∨ r = some "") :
      Goes c .ending (.takeParent c.id) r .stopping
  | takeParent {parent : String} (hparent : parent ≠ "") :
      Goes c .ending (.takeParent c.id) (some parent) (.took parent)
  | lost {parent : String} : Goes c (.took parent) (.get parent) none .stopping
  | find {parent : String} {gen : Nat} :
      Goes c (.took parent) (.get parent) (some gen) (.found ⟨parent, gen⟩)
  | awake {parent : Ptr} : Goes c (.found parent) (.isSuspended parent) false .stopping
  | asleep {parent : Ptr} : Goes c (.found parent) (.isSuspended parent) true (.waking parent)
  | newRun {parent : Ptr} : Goes c (.waking parent) (.newRun parent) () (.waking parent)
  | wake {parent : Ptr} : Goes c (.waking parent) (.store parent .running) () .stopping
  | stop {a : Op} {r : a.Result} (ha : a.stops c = true) : Goes c .stopping a r .stopping
  | cancels {r : Nat × Nat} : Goes c .stopping (.cancels c) r (.breaking r.1 r.2)
  | cancel {rc lc n : Nat} (hn : n = rc ∨ n = lc) :
      Goes c (.breaking rc lc) (.cancel n) () (.breaking rc lc)
  | delete {rc lc : Nat} : Goes c (.breaking rc lc) (.delete c.id) () .deleted
  | unlink : Goes c .deleted (.deleteParent c.id) () .gone
  | remove : Goes c .gone (.removeSession c.id) () .gone

section Goes

variable {c : Ptr} {st st' : Course} {a : Op} {r : a.Result}

section

variable (h : Goes c st a r st')
include h

/-- A goroutine makes no connection. -/
theorem Goes.ne_dial : ∀ id bot nested, a ≠ .dial id bot nested := by
  rintro id bot nested rfl
  cases h with
  | run ha | complete ha | stop ha => cases ha

/-- A goroutine dispatches nothing. -/
theorem Goes.ne_consume : ∀ d, a ≠ .consume d := by
  rintro d rfl
  cases h with
  | run ha | complete ha | stop ha => cases ha

/-- A goroutine is dispatched once. -/
theorem Goes.take_iff : (∃ d, a = .take d) ↔ st = .waiting := by
  constructor
  · rintro ⟨d, rfl⟩
    cases h with
    | take => rfl
    | run ha | complete ha | stop ha => cases ha
  · rintro rfl
    cases h
    exact ⟨c, rfl⟩

theorem Goes.ne_waiting : st' ≠ .waiting := by
  cases h <;> nofun

/-- A goroutine deletes its own connection, and only at one point. -/
theorem Goes.delete_iff : (∃ id, a = .delete id) ↔ st' = .deleted := by
  constructor
  · rintro ⟨id, rfl⟩
    cases h with
    | delete => rfl
    | run ha | complete ha | stop ha => cases ha
  · rintro rfl
    cases h
    exact ⟨c.id, rfl⟩

theorem Goes.ne_storeParent : ∀ x y, a ≠ .storeParent x y := by
  rintro x y rfl
  cases h with
  | run ha | complete ha | stop ha => cases ha

theorem Goes.ne_returnFromQueue : ∀ d, a ≠ .returnFromQueue d := by
  rintro d rfl
  cases h with
  | run ha | complete ha | stop ha => cases ha

/-- A goroutine takes the link of its own session, and only at one point. -/
theorem Goes.takeParent_of {id : String} (ha : a = .takeParent id) : id = c.id ∧ st = .ending := by
  subst ha
  cases h with
  | run ha | complete ha | stop ha => cases ha
  | noParent | takeParent => exact ⟨rfl, rfl⟩

theorem Goes.deleteParent_of {id : String} (ha : a = .deleteParent id) :
    id = c.id ∧ st = .deleted := by
  subst ha
  cases h with
  | run ha | complete ha | stop ha => cases ha
  | unlink => exact ⟨rfl, rfl⟩

theorem Goes.cancel_of (ha : a = .cancel n) :
    ∃ rc lc, st = .breaking rc lc ∧ (n = rc ∨ n = lc) := by
  subst ha
  cases h with
  | run ha | complete ha | stop ha => cases ha
  | cancel hn => exact ⟨_, _, rfl, hn⟩

/-- What a goroutine writes into the state of a connection. -/
theorem Goes.store {d : Ptr} {x : ConnState} (ha : a = .store d x) :
    (st = .waking d ∧ x = .running) ∨ (d = c ∧ st' = .stopping ∧ x = .terminating) := by
  subst ha
  cases h with
  | run ha | complete ha => cases ha
  | wake => exact Or.inl ⟨rfl, rfl⟩
  | stop ha => simpa [Op.stops] using ha

end

end Goes

/-- The goroutine of the dialog `c`, from the point `st` of its course on. -/
abbrev Going (c : Ptr) (st : Course) (p : Go Label) : Prop :=
  p.Conforms (Goes c) (fun st l => (st = .alive ∧ l = .park c) ∨ (st = .gone ∧ l = .exit)) st

section Going

variable (c : Ptr)

theorem going_stop : Going c .stopping (stop c) := by
  intro _
  refine ⟨.stopping, .stop (by simp [Op.stops]), fun r => ⟨_, .cancels, ?_⟩⟩
  refine fun _ => ⟨_, .cancel (Or.inl rfl), fun _ => ⟨_, .cancel (Or.inr rfl), fun _ => ?_⟩⟩
  refine ⟨_, .delete, fun _ => ⟨_, .unlink, fun _ => ⟨_, .remove, ?_⟩⟩⟩
  exact Or.inr ⟨rfl, rfl⟩

/-- The parent that was suspended is resumed, unless it cannot be found. -/
theorem going_resumeParentOf (hp : Going c .stopping p) :
    Going c .ending (do resumeParentOf c.id; p) := by
  rintro (_ | parent)
  · exact ⟨_, .noParent (Or.inl rfl), hp⟩
  · by_cases hparent : parent = ""
    · subst hparent
      exact ⟨_, .noParent (Or.inr rfl), hp⟩
    · refine ⟨_, .takeParent hparent, ?_⟩
      simp only [Prog.bind_eq, ret_bind, if_neg hparent]
      rintro (_ | gen)
      · exact ⟨_, .lost, hp⟩
      · refine ⟨_, .find, ?_⟩
        rintro (_ | _)
        · exact ⟨_, .awake, hp⟩
        · refine ⟨_, .asleep, fun _ => ⟨_, .newRun, fun _ => ⟨_, .wake, fun _ => ?_⟩⟩⟩
          exact ⟨_, .stop rfl, hp⟩

theorem going_finish : Going c .ending (finish c) := by
  have hend : Going c .ending (do resumeParentOf c.id; access (.disconnected c); stop c) := by
    refine going_resumeParentOf c fun _ => ?_
    exact ⟨_, .stop (by simp [Op.stops]), going_stop c⟩
  refine fun id => ⟨_, .complete (by simp [Op.completes]), ?_⟩
  by_cases hid : id = ""
  · simpa [hid] using hend
  · simp only [Prog.bind_eq, ret_bind, ne_eq, hid, not_false_eq_true, if_true]
    exact fun _ => ⟨_, .complete (by simp [Op.completes]), hend⟩

theorem going_park : Going c .alive (park c) := by
  rintro (_ | _)
  · refine ⟨_, .run (by simp [Op.runsFor]), ?_⟩
    rintro (_ | _)
    · exact ⟨_, .leave, going_finish c⟩
    · exact ⟨_, .terminated, going_stop c⟩
  · refine ⟨_, .run (by simp [Op.runsFor]), ?_⟩
    rintro (_ | _)
    · refine ⟨_, .goOn, ?_⟩
      rintro (_ | _)
      · exact ⟨_, .cancelled, going_stop c⟩
      · refine ⟨_, .resumed, ?_⟩
        iterate 3 refine fun _ => ⟨_, .run (by simp [Op.runsFor]), ?_⟩
        exact Or.inl ⟨rfl, rfl⟩
    · exact ⟨_, .terminated, going_stop c⟩

theorem going_handle : Going c .waiting (handle c) := by
  refine fun _ => ⟨_, .take, fun _ => ⟨_, .run (by simp [Op.runsFor]), ?_⟩⟩
  rintro (_ | schema)
  · exact ⟨_, .noSchema, going_stop c⟩
  · refine ⟨_, .schema, ?_⟩
    iterate 2 refine fun _ => ⟨_, .run (by simp [Op.runsFor]), ?_⟩
    exact Or.inl ⟨rfl, rfl⟩

end Going

namespace Course

/-- The goroutine will not come back to the park loop. -/
def closes : Course → Bool
  | .waiting => false
  | .alive => false
  | _ => true

/-- The goroutine has been dispatched, and has not deleted its connection. -/
def works : Course → Bool
  | .waiting => false
  | .deleted => false
  | .gone => false
  | _ => true

theorem alive_of_closes {st : Course} (h : st.closes = false) (hst : st ≠ .waiting) :
    st = .alive := by
  cases st <;> simp_all [closes]

end Course

section Goes

variable {c : Ptr} {st st' : Course} {a : Op} {r : a.Result}

theorem Goes.works (h : Goes c st a r st') (hst' : st'.works = true) :
    st = .waiting ∨ st.works = true := by
  cases h <;> simp_all [Course.works]

theorem Goes.closes (h : Goes c st a r st') (hst' : st'.closes = false) : st.closes = false := by
  cases h <;> simp_all [Course.closes]

end Goes

/-- The two ways to say that a goroutine will not come back to the park loop agree. -/
theorem closing_of_going (hst : st.closes = true) (h : Going c st p) : Closing p := by
  induction p generalizing st with
  | ret l =>
    rcases h with ⟨rfl, -⟩ | ⟨-, hl⟩
    · cases hst
    · exact hl
  | act a k ih =>
    have hgoes : ∀ r st', Goes c st a r st' → a.closing = true ∧ st'.closes = true := by
      intro r st' hgoes
      cases hgoes with
      | complete ha => cases a <;> simp_all [Op.completes, Op.closing]
      | stop ha => cases a <;> simp_all [Op.stops, Op.closing]
      | _ => simp_all [Op.closing, Course.closes]
    refine ⟨?_, fun r => ?_⟩
    · obtain ⟨r⟩ := a.result_nonempty
      obtain ⟨st', hr, -⟩ := h r
      exact (hgoes r st' hr).1
    · obtain ⟨st', hr, hk⟩ := h r
      exact ih r (hgoes r st' hr).2 hk

/-! ## What an access leaves alone -/

/-- No connection is made, and none is stored anew; the connections keep their lifetime
contexts, and get no other channels but new ones. -/
structure Server.Frame (s m : Server) : Prop where
  made : m.made = s.made
  stored : ∀ c, m.Stored c → s.Stored c
  next : s.chans.next ≤ m.chans.next
  closed : ∀ n, s.chans.Closed n → m.chans.Closed n
  ctx : ∀ c, (m.conns c).ctx = (s.conns c).ctx
  others : ∀ c, ∀ n ∈ (m.conns c).others, n ∈ (s.conns c).others ∨
    (s.chans.next ≤ n ∧ n < m.chans.next)

section Frame

variable {E : Type} {w : Outside E} {a : Op} {r : a.Result} {s m : Server}

theorem Server.Frame.of_eq (hmade : m.made = s.made) (hstore : m.store = s.store)
    (hchans : m.chans = s.chans) (hconns : m.conns = s.conns) : s.Frame m where
  made := hmade
  stored c hc := by rwa [Server.Stored, hstore] at hc
  next := by rw [hchans]
  closed n hn := by rwa [hchans]
  ctx c := by rw [hconns]
  others c n hn := Or.inl (by rwa [hconns] at hn)

/-- A connection changes, and channels are made or closed. -/
theorem Server.Frame.of_modify (hmade : m.made = s.made) (hstore : m.store = s.store)
    (hconns : m.conns = (s.modify c f).conns) (hnext : s.chans.next ≤ m.chans.next)
    (hclosed : ∀ n, s.chans.Closed n → m.chans.Closed n)
    (hctx : (f (s.conns c)).ctx = (s.conns c).ctx)
    (hothers : ∀ n ∈ (f (s.conns c)).others, n ∈ (s.conns c).others ∨
      (s.chans.next ≤ n ∧ n < m.chans.next)) : s.Frame m where
  made := hmade
  stored d hd := by rwa [Server.Stored, hstore] at hd
  next := hnext
  closed := hclosed
  ctx d := by
    by_cases hd : d = c
    · rw [hconns, hd, Server.modify_self, hctx]
    · rw [hconns, Server.modify_of_ne _ hd]
  others d n hn := by
    by_cases hd : d = c
    · rw [hconns, hd, Server.modify_self] at hn
      rw [hd]
      exact hothers n hn
    · rw [hconns, Server.modify_of_ne _ hd] at hn
      exact Or.inl hn

theorem Server.Frame.of_close (n : Nat) : s.Frame { s with chans := s.chans.close n } where
  made := rfl
  stored _ hc := hc
  next := by simp
  closed k hk := (s.chans.closed_close n k).mpr (Or.inl hk)
  ctx _ := rfl
  others _ _ hn := Or.inl hn

section

variable (h : exec w a s = some (r, m))
include h

/-- So it is with every access but `dial`. -/
theorem exec_frame (ha : ∀ id bot nested, a ≠ .dial id bot nested) : s.Frame m := by
  cases a with
  | dial id bot nested => exact absurd rfl (ha id bot nested)
  | delete id =>
    cases h
    exact ⟨rfl, fun _ hc => lookup_of_lookup_erase hc, le_rfl, fun _ hn => hn, fun _ => rfl,
      fun _ _ hn => Or.inl hn⟩
  | store c st | signal c =>
    cases h
    exact .of_modify rfl rfl rfl le_rfl (fun _ hn => hn) rfl fun _ hn => Or.inl hn
  | newRun c =>
    cases h
    refine .of_modify (c := c) (f := fun conn => { conn with runCtx := s.chans.next }) rfl rfl rfl
      (Nat.le_succ _) (fun _ hn => hn) rfl fun n hn => ?_
    rcases List.mem_cons.mp hn with rfl | hn
    · exact Or.inr ⟨le_rfl, Nat.lt_succ_self _⟩
    · exact Or.inl (List.mem_cons_of_mem _ hn)
  | cancel n =>
    cases h
    exact .of_close n
  | awaitResume c =>
    rcases exec_awaitResume h with ⟨-, -, rfl⟩ | ⟨-, -, rfl⟩
    · exact .of_modify rfl rfl rfl le_rfl (fun _ hn => hn) rfl fun _ hn => Or.inl hn
    · exact .of_eq rfl rfl rfl rfl
  | returnFromQueue c =>
    rcases exec_returnFromQueue h with rfl | ⟨n, rfl⟩
    · exact .of_eq rfl rfl rfl rfl
    · refine .of_modify (c := c) (f := fun conn => { conn with queueReturn := none }) rfl rfl rfl
        (by simp [Server.returnFromQueue])
        (fun n hn => (Channels.closed_close ..).mpr (Or.inl hn)) rfl fun n hn => Or.inl ?_
      rw [List.mem_singleton.mp hn]
      exact List.mem_cons_self
  | route c ctx =>
    obtain ⟨_, _, -, -, rfl⟩ := exec_route h
    exact .of_eq rfl rfl rfl rfl
  | consume c =>
    rw [exec_consume h]
    exact .of_eq rfl rfl rfl rfl
  | take c =>
    obtain ⟨_, -, rfl⟩ := exec_take h
    exact .of_eq rfl rfl rfl rfl
  | _ =>
    cases h
    exact .of_eq rfl rfl rfl rfl

theorem exec_store_eq (hdelete : ∀ id, a ≠ .delete id)
    (hdial : ∀ id bot nested, a ≠ .dial id bot nested) : m.store = s.store := by
  cases a with
  | dial id bot nested => exact absurd rfl (hdial id bot nested)
  | delete id => exact absurd rfl (hdelete id)
  | route c ctx =>
    obtain ⟨_, _, -, -, rfl⟩ := exec_route h
    rfl
  | _ =>
    revert h
    simp only [exec]
    grind [Server.modify, Server.newRun, Server.returnFromQueue]

theorem exec_consume_eq (hconsume : ∀ c, a ≠ .consume c)
    (htake : ∀ c, a ≠ .take c) : m.consume = s.consume := by
  cases a with
  | consume c => exact absurd rfl (hconsume c)
  | take c => exact absurd rfl (htake c)
  | route c ctx =>
    obtain ⟨_, _, -, -, rfl⟩ := exec_route h
    rfl
  | _ =>
    revert h
    simp only [exec]
    grind [Server.modify, Server.dial, Server.newRun, Server.returnFromQueue]

/-- The state of a connection is written by `store` alone, if none is made. -/
theorem exec_state (hdial : ∀ id bot nested, a ≠ .dial id bot nested) (c : Ptr) :
    (m.conns c).state = (s.conns c).state ∨ ∃ st, a = .store c st ∧ (m.conns c).state = st := by
  rcases exec_conns h c with ⟨hstate, -⟩ | ⟨st, rfl⟩ | rfl | ⟨bot, nested, rfl, -⟩
  · exact Or.inl hstate
  · cases h
    exact Or.inr ⟨st, rfl, by simp⟩
  · cases h
    exact Or.inl (by simp [Server.newRun])
  · exact absurd rfl (hdial _ _ _)

/-- A link that is dropped. -/
theorem exec_link (hstore : ∀ x y, a ≠ .storeParent x y) (id : String) :
    m.pushParent.lookup id = s.pushParent.lookup id ∨ a = .takeParent id ∨
      a = .deleteParent id := by
  cases a with
  | storeParent x y => exact absurd rfl (hstore x y)
  | takeParent x =>
    by_cases hid : id = x
    · exact Or.inr (Or.inl (by rw [hid]))
    · cases h
      exact Or.inl (AList.lookup_erase_ne hid)
  | deleteParent x =>
    by_cases hid : id = x
    · exact Or.inr (Or.inr (by rw [hid]))
    · cases h
      exact Or.inl (AList.lookup_erase_ne hid)
  | route c ctx =>
    obtain ⟨_, _, -, -, rfl⟩ := exec_route h
    exact Or.inl rfl
  | _ =>
    left
    revert h
    simp only [exec]
    grind [Server.modify, Server.dial, Server.newRun, Server.returnFromQueue]

/-- A channel is closed by its cancel function, if no dialog returns from a queue. -/
theorem exec_closed (hreturn : ∀ c, a ≠ .returnFromQueue c)
    (hn : m.chans.Closed n) : s.chans.Closed n ∨ a = .cancel n := by
  cases a with
  | returnFromQueue c => exact absurd rfl (hreturn c)
  | cancel k =>
    cases h
    rcases (Channels.closed_close ..).mp hn with hn | ⟨rfl, -⟩
    · exact Or.inl hn
    · exact Or.inr rfl
  | dial id bot nested | newRun c =>
    cases h
    exact Or.inl hn
  | route c ctx =>
    obtain ⟨_, _, -, -, rfl⟩ := exec_route h
    exact Or.inl hn
  | _ =>
    have hsame : m.chans = s.chans := by
      revert h
      simp only [exec]
      grind [Server.modify]
    exact Or.inl (hsame ▸ hn)

end

theorem joinsQueue_frame (s : Server) (id : String) : s.Frame (s.joinsQueue id) := by
  unfold Server.joinsQueue
  split
  · rename_i gen _
    refine .of_modify (c := ⟨id, gen⟩)
      (f := fun conn => { conn with queueReturn := some s.chans.next }) rfl rfl rfl
      (Nat.le_succ _) (fun _ hn => hn) rfl fun n hn => ?_
    rcases List.mem_cons.mp hn with rfl | hn
    · exact Or.inl List.mem_cons_self
    · obtain rfl := List.mem_singleton.mp hn
      exact Or.inr ⟨le_rfl, Nat.lt_succ_self _⟩
  · exact .of_eq rfl rfl rfl rfl

theorem quitsQueue_frame (s : Server) (id : String) : s.Frame (s.quitsQueue id) := by
  unfold Server.quitsQueue
  split
  · rename_i gen _
    refine .of_modify (c := ⟨id, gen⟩) (f := fun conn => { conn with queueReturn := none }) rfl rfl
      rfl le_rfl (fun _ hn => hn) rfl fun n hn => Or.inl ?_
    rw [List.mem_singleton.mp hn]
    exact List.mem_cons_self
  · exact .of_eq rfl rfl rfl rfl

end Frame

/-! ## Where the goroutines are -/

/-- The points `course` at which the goroutines are, and what this says about the server. -/
structure OnCourse (s : ServerPool) (course : Ptr → Course) : Prop where
  listener : s.thread .listener = .ret .listen
  runner : ∀ c, Going c (course c) (s.thread (.runner c))
  apart : Apart s.shared
  nodup : s.shared.consume.Nodup
  consume : ∀ c ∈ s.shared.consume, course c = .waiting ∧ s.shared.Stored c
  waiting : ∀ c : Ptr, s.shared.made ≤ c.gen → course c = .waiting
  made : ∀ c, s.shared.Stored c → c.gen < s.shared.made
  works : ∀ c, (course c).works = true → s.shared.Stored c
  /-- only `Stop` lets a goroutine see `terminating` before the lifetime context is done -/
  broken : ∀ c, (course c).closes = false → s.shared.Stored c →
    (s.shared.conns c).state = .terminating → s.shared.chans.Closed (s.shared.conns c).ctx
  breaking : ∀ c rc lc, course c = .breaking rc lc →
    (rc < s.shared.chans.next ∧ lc < s.shared.chans.next) ∧
    ∀ d, s.shared.Stored d → (s.shared.conns d).ctx = rc ∨ (s.shared.conns d).ctx = lc → d = c

theorem onCourse_atStart : OnCourse (atStart Server.init) fun _ => .waiting where
  listener := rfl
  runner c := going_handle c
  apart := apart_init
  nodup := List.nodup_nil
  consume _ h := by cases h
  waiting _ _ := rfl
  made _ h := by cases h
  works _ h := by cases h
  broken _ _ h := by cases h
  breaking _ _ _ h := by cases h

section Moves

variable {E : Type} {s s' : ServerPool} {m : Server} {course : Ptr → Course} {c : Ptr}
  {st : Course} {p : Go Label}

section

variable (h : OnCourse s course)
include h

/-- The goroutine of `c` moves on to the point `st` of its course. -/
theorem OnCourse.move (hframe : s.shared.Frame m) (hp : Going c st p)
    (hdispatched : st ≠ .waiting) (hmade : c.gen < s.shared.made) (hnodup : m.consume.Nodup)
    (hconsume : ∀ d ∈ m.consume, d ∈ s.shared.consume ∧ d ≠ c)
    (hkept : ∀ d, d ≠ c → s.shared.Stored d → m.Stored d) (hworks : st.works = true → m.Stored c)
    (hstate : ∀ d, (d ≠ c ∨ st = .alive) → (m.conns d).state = .terminating →
      (s.shared.conns d).state = .terminating)
    (halive : st = .alive → (course c).closes = false)
    (hbreaking : ∀ rc lc, st = .breaking rc lc → (rc < m.chans.next ∧ lc < m.chans.next) ∧
      ∀ d, m.Stored d → (m.conns d).ctx = rc ∨ (m.conns d).ctx = lc → d = c) :
    OnCourse (s.set (.runner c) m p) (update course c st) where
  listener := by
    rw [Pool.set_thread_of_ne _ (by simp)]
    exact h.listener
  runner d := by
    by_cases hd : d = c
    · subst hd
      rwa [Pool.set_thread_self, update_self]
    · rw [Pool.set_thread_of_ne _ (by simpa using hd), update_of_ne hd]
      exact h.runner d
  apart := h.apart.frame hframe.stored hframe.next hframe.ctx hframe.others
  nodup := hnodup
  consume d hd := by
    obtain ⟨hd, hne⟩ := hconsume d hd
    rw [update_of_ne hne]
    exact ⟨(h.consume d hd).1, hkept d hne (h.consume d hd).2⟩
  waiting d hd := by
    have hgen : s.shared.made ≤ d.gen := hframe.made ▸ hd
    have hne : d ≠ c := by
      rintro rfl
      exact absurd hmade (not_lt.mpr hgen)
    rw [update_of_ne hne]
    exact h.waiting d hgen
  made d hd := by
    show d.gen < m.made
    rw [hframe.made]
    exact h.made d (hframe.stored d hd)
  works d hd := by
    by_cases hne : d = c
    · subst hne
      rw [update_self] at hd
      exact hworks hd
    · rw [update_of_ne hne] at hd
      exact hkept d hne (h.works d hd)
  broken d hcloses hd hterminating := by
    show m.chans.Closed (m.conns d).ctx
    rw [hframe.ctx]
    by_cases hne : d = c
    · -- one that does not close is alive, and has become so with this move or before
      subst hne
      rw [update_self] at hcloses
      have hst : st = .alive := Course.alive_of_closes hcloses hdispatched
      exact hframe.closed _ (h.broken d (halive hst) (hframe.stored d hd)
        (hstate d (Or.inr hst) hterminating))
    · rw [update_of_ne hne] at hcloses
      exact hframe.closed _ (h.broken d hcloses (hframe.stored d hd)
        (hstate d (Or.inl hne) hterminating))
  breaking d rc lc hd := by
    by_cases hne : d = c
    · subst hne
      rw [update_self] at hd
      exact hbreaking rc lc hd
    · rw [update_of_ne hne] at hd
      obtain ⟨⟨hrc, hlc⟩, hown⟩ := h.breaking d rc lc hd
      refine ⟨⟨lt_of_lt_of_le hrc hframe.next, lt_of_lt_of_le hlc hframe.next⟩, fun e he hctx => ?_⟩
      have hctx : (m.conns e).ctx = rc ∨ (m.conns e).ctx = lc := hctx
      rw [hframe.ctx] at hctx
      exact hown e (hframe.stored e he) hctx

/-- A goroutine that moves works for a connection that has been made. -/
theorem OnCourse.lt_made (hc : course c ≠ .waiting) : c.gen < s.shared.made := by
  by_contra hmade
  exact hc (h.waiting c (not_lt.mp hmade))

/-- The contexts that a goroutine is about to cancel are its own. -/
theorem OnCourse.breaking_act (hexec : exec w a s.shared = some (r, m))
    (hgoes : Goes c (course c) a r st) (hst : st = .breaking rc lc) :
    (rc < m.chans.next ∧ lc < m.chans.next) ∧
      ∀ d, m.Stored d → (m.conns d).ctx = rc ∨ (m.conns d).ctx = lc → d = c := by
  subst hst
  have hframe := exec_frame hexec hgoes.ne_dial
  generalize hcourse : course c = st₀ at hgoes
  cases hgoes with
  | cancels =>
    have hc : s.shared.Stored c := h.works c (by rw [hcourse]; rfl)
    cases hexec
    have hrun : (s.shared.conns c).runCtx ∈ (s.shared.conns c).others := List.mem_cons_self
    refine ⟨⟨(h.apart.made c hc).2 _ hrun, (h.apart.made c hc).1⟩, fun d hd hctx => ?_⟩
    rcases hctx with hctx | hctx
    · exact absurd (hctx ▸ hrun) (h.apart.apart d c hd hc)
    · exact h.apart.unique d c hd hc hctx
  | cancel hn =>
    obtain ⟨⟨hrc, hlc⟩, hown⟩ := h.breaking c rc lc hcourse
    refine ⟨⟨lt_of_lt_of_le hrc hframe.next, lt_of_lt_of_le hlc hframe.next⟩, fun d hd hctx => ?_⟩
    rw [hframe.ctx] at hctx
    exact hown d (hframe.stored d hd) hctx

/-- A goroutine makes an access. -/
theorem OnCourse.act {w : Outside E} {a : Op} {k : a.Result → Go Label}
    {r : a.Result} (ht : s.thread (.runner c) = .act a k)
    (hexec : exec w a s.shared = some (r, m)) :
    ∃ st, Goes c (course c) a r st ∧
      OnCourse (s.set (.runner c) m (k r)) (update course c st) := by
  have hgoing := h.runner c
  rw [ht] at hgoing
  obtain ⟨st, hgoes, hk⟩ := hgoing r
  refine ⟨st, hgoes, ?_⟩
  have hframe := exec_frame hexec hgoes.ne_dial
  have hstate : ∀ d, (d ≠ c ∨ st = .alive) → (m.conns d).state = .terminating →
      (s.shared.conns d).state = .terminating := by
    intro d hd hterminating
    rcases exec_state hexec hgoes.ne_dial d with hsame | ⟨x, ha, hx⟩
    · rwa [← hsame]
    · rcases hgoes.store ha with ⟨-, rfl⟩ | ⟨rfl, hst, -⟩
      · rw [hx] at hterminating
        cases hterminating
      · rcases hd with hd | hd
        · exact absurd rfl hd
        · rw [hd] at hst
          cases hst
  have hbreaking : ∀ rc lc, st = .breaking rc lc → (rc < m.chans.next ∧ lc < m.chans.next) ∧
      ∀ d, m.Stored d → (m.conns d).ctx = rc ∨ (m.conns d).ctx = lc → d = c :=
    fun _ _ => h.breaking_act hexec hgoes
  by_cases hwaiting : course c = .waiting
  · -- it is dispatched
    obtain ⟨d, rfl⟩ := hgoes.take_iff.mpr hwaiting
    obtain rfl : d = c := by
      rw [hwaiting] at hgoes
      cases hgoes
      rfl
    obtain ⟨rest, htaken, rfl⟩ := exec_take hexec
    have hmem : d ∈ s.shared.consume := by
      rw [htaken]
      exact List.mem_cons_self
    have hnodup := h.nodup
    rw [htaken, List.nodup_cons] at hnodup
    have hkept : ∀ e, s.shared.Stored e →
        Server.Stored { s.shared with consume := rest } e := fun _ he => he
    have hstored := (h.consume d hmem).2
    refine h.move hframe hk hgoes.ne_waiting (h.made d hstored) hnodup.2 (fun e he => ⟨?_, ?_⟩)
      (fun e _ => hkept e) (fun _ => hkept d hstored) hstate (fun hst => ?_) hbreaking
    · rw [htaken]
      exact List.mem_cons_of_mem _ he
    · rintro rfl
      exact hnodup.1 he
    · rw [hwaiting]
      rfl
  · have htake : ∀ d, a ≠ .take d := fun d hd => hwaiting (hgoes.take_iff.mp ⟨d, hd⟩)
    have hconsume := exec_consume_eq hexec hgoes.ne_consume htake
    have hothers : ∀ d ∈ m.consume, d ∈ s.shared.consume ∧ d ≠ c := by
      intro d hd
      rw [hconsume] at hd
      refine ⟨hd, ?_⟩
      rintro rfl
      exact hwaiting (h.consume d hd).1
    have hworks : st.works = true → s.shared.Stored c := fun hst =>
      h.works c ((hgoes.works hst).resolve_left hwaiting)
    have halive : st = .alive → (course c).closes = false := by
      rintro rfl
      exact hgoes.closes rfl
    refine h.move hframe hk hgoes.ne_waiting (h.lt_made hwaiting) (hconsume ▸ h.nodup) hothers ?_ ?_
      hstate halive hbreaking
    · intro d hd hstored
      by_cases hdeleted : st = .deleted
      · -- its own connection is deleted, and no other is stored for its session
        subst hdeleted
        generalize hcourse : course c = st₀ at hgoes
        cases hgoes
        have hc : s.shared.Stored c := h.works c (by rw [hcourse]; rfl)
        have hid : d.id ≠ c.id := fun hid => hd (hc.unique hstored hid)
        cases hexec
        exact (AList.lookup_erase_ne hid).trans hstored
      · have hdelete : ∀ id, a ≠ .delete id :=
          fun id hid => hdeleted (hgoes.delete_iff.mp ⟨id, hid⟩)
        rwa [Server.Stored, exec_store_eq hexec hdelete hgoes.ne_dial]
    · intro hst
      have hdelete : ∀ id, a ≠ .delete id := by
        intro id hid
        rw [hgoes.delete_iff.mp ⟨id, hid⟩] at hst
        cases hst
      rw [Server.Stored, exec_store_eq hexec hdelete hgoes.ne_dial]
      exact hworks hst

/-- The goroutine goes round its loop. -/
theorem OnCourse.next (hstep : Step (dialogs E) s (.next (.runner c)) s') :
    s'.shared = s.shared ∧ course c = .alive ∧ OnCourse s' course := by
  cases hstep with
  | @next _ l w p ht hcode =>
    have hgoing := h.runner c
    rw [ht] at hgoing
    rcases hgoing with ⟨hc, rfl⟩ | ⟨-, rfl⟩
    · refine ⟨rfl, hc, ?_⟩
      cases hcode
      have hframe : s.shared.Frame s.shared := .of_eq rfl rfl rfl rfl
      have hne : course c ≠ .waiting := by
        rw [hc]
        nofun
      have hpark : Going c .alive (park c) := going_park c
      have hmove := h.move hframe hpark nofun (h.lt_made hne) h.nodup
        (fun d hd => ⟨hd, by rintro rfl; exact hne (h.consume d hd).1⟩) (fun _ _ hd => hd)
        (fun _ => h.works c (by rw [hc]; rfl)) (fun _ _ hd => hd) (fun _ => by rw [hc]; rfl) nofun
      rwa [← hc, update_eq_self] at hmove
    · cases hcode

/-- The server changes by itself, and no dialog is made. -/
theorem OnCourse.frame (hframe : s.shared.Frame m)
    (hconsume : m.consume = s.shared.consume) (hstore : m.store = s.shared.store)
    (hstate : ∀ c, (m.conns c).state = (s.shared.conns c).state) :
    OnCourse { s with shared := m } course where
  listener := h.listener
  runner := h.runner
  apart := h.apart.frame hframe.stored hframe.next hframe.ctx hframe.others
  nodup := by
    show m.consume.Nodup
    rw [hconsume]
    exact h.nodup
  consume c hc := by
    have hc : c ∈ m.consume := hc
    rw [hconsume] at hc
    refine ⟨(h.consume c hc).1, ?_⟩
    show m.Stored c
    rw [Server.Stored, hstore]
    exact (h.consume c hc).2
  waiting c hc := h.waiting c (hframe.made ▸ hc)
  made c hc := by
    show c.gen < m.made
    rw [hframe.made]
    exact h.made c (hframe.stored c hc)
  works c hc := by
    show m.Stored c
    rw [Server.Stored, hstore]
    exact h.works c hc
  broken c hc hstored hterminating := by
    show m.chans.Closed (m.conns c).ctx
    have hterminating : (m.conns c).state = .terminating := hterminating
    rw [hstate] at hterminating
    rw [hframe.ctx]
    exact hframe.closed _ (h.broken c hc (hframe.stored c hstored) hterminating)
  breaking c rc lc hc := by
    obtain ⟨⟨hrc, hlc⟩, hown⟩ := h.breaking c rc lc hc
    refine ⟨⟨lt_of_lt_of_le hrc hframe.next, lt_of_lt_of_le hlc hframe.next⟩, fun d hd hctx => ?_⟩
    have hctx : (m.conns d).ctx = rc ∨ (m.conns d).ctx = lc := hctx
    rw [hframe.ctx] at hctx
    exact hown d (hframe.stored d hd) hctx

end


end Moves

section Queues

variable (s : Server) (id : String)

@[simp]
theorem joinsQueue_store : (s.joinsQueue id).store = s.store := by
  unfold Server.joinsQueue
  split <;> rfl

@[simp]
theorem quitsQueue_store : (s.quitsQueue id).store = s.store := by
  unfold Server.quitsQueue
  split <;> rfl

theorem joinsQueue_closed (n : Nat) : (s.joinsQueue id).chans.Closed n ↔ s.chans.Closed n := by
  unfold Server.joinsQueue
  split <;> exact Iff.rfl

theorem quitsQueue_closed (n : Nat) : (s.quitsQueue id).chans.Closed n ↔ s.chans.Closed n := by
  unfold Server.quitsQueue
  split <;> exact Iff.rfl

variable {s}

theorem joinsQueue_board (h : Apart s) :
    (s.joinsQueue id).board = s.board.modify id (fun e => { e with queued := true }) ∧
      Apart (s.joinsQueue id) := by
  unfold Server.joinsQueue
  split
  · rename_i gen hstored
    have hc : s.Stored ⟨id, gen⟩ := hstored
    refine h.change hc (g := fun conn => { conn with queueReturn := some s.chans.next }) rfl rfl rfl
      (Nat.le_succ _) rfl (fun n hn => ?_) rfl fun _ _ _ => Iff.rfl
    rcases List.mem_cons.mp hn with rfl | hn
    · exact Or.inl List.mem_cons_self
    · obtain rfl := List.mem_singleton.mp hn
      exact Or.inr ⟨le_rfl, Nat.lt_succ_self _⟩
  · rename_i hnone
    exact ⟨(Board.modify_of_none (entry_of_none hnone) _).symm, h⟩

theorem quitsQueue_board (h : Apart s) :
    (s.quitsQueue id).board = s.board.modify id (fun e => { e with queued := false }) ∧
      Apart (s.quitsQueue id) := by
  unfold Server.quitsQueue
  split
  · rename_i gen hstored
    have hc : s.Stored ⟨id, gen⟩ := hstored
    refine h.change hc (g := fun conn => { conn with queueReturn := none }) rfl rfl rfl le_rfl rfl
      (fun n hn => Or.inl ?_) rfl fun _ _ _ => Iff.rfl
    rw [List.mem_singleton.mp hn]
    exact List.mem_cons_self
  · rename_i hnone
    exact ⟨(Board.modify_of_none (entry_of_none hnone) _).symm, h⟩

variable {s : ServerPool} {course : Ptr → Course}

theorem OnCourse.enterQueue (h : OnCourse s course) :
    OnCourse { s with shared := s.shared.joinsQueue id } course := by
  refine h.frame (joinsQueue_frame s.shared id) ?_ (joinsQueue_store s.shared id) fun c => ?_
  all_goals unfold Server.joinsQueue
  all_goals split
  · rfl
  · rfl
  · exact (s.shared.modify_frame _ c (f := fun conn =>
      { conn with queueReturn := some s.shared.chans.next }) fun _ => ⟨rfl, rfl⟩).1
  · rfl

theorem OnCourse.leaveQueue (h : OnCourse s course) :
    OnCourse { s with shared := s.shared.quitsQueue id } course := by
  refine h.frame (quitsQueue_frame s.shared id) ?_ (quitsQueue_store s.shared id) fun c => ?_
  all_goals unfold Server.quitsQueue
  all_goals split
  · rfl
  · rfl
  · exact (s.shared.modify_frame _ c (f := fun conn => { conn with queueReturn := none })
      fun _ => ⟨rfl, rfl⟩).1
  · rfl

end Queues

/-! ## Rounds of the listener -/

/-- What a round does to the store and to the dialogs that wait: nothing is lost, and what is
new has been made in the round. -/
structure Server.Served (s m : Server) : Prop where
  made : s.made ≤ m.made
  next : s.chans.next ≤ m.chans.next
  kept : ∀ c, s.Stored c → m.Stored c ∧ (m.conns c).ctx = (s.conns c).ctx
  fresh : ∀ c, m.Stored c → s.Stored c ∨
    (s.made ≤ c.gen ∧ c.gen < m.made ∧ s.chans.next ≤ (m.conns c).ctx)
  consumed : ∃ new, m.consume = s.consume ++ new ∧ new.Nodup ∧
    ∀ c ∈ new, s.made ≤ c.gen ∧ c.gen < m.made ∧ m.Stored c

section Served

variable {s m m' : Server}

theorem Server.Served.of_frame (h : s.Frame m) (hstore : m.store = s.store)
    (hconsume : m.consume = s.consume) : s.Served m where
  made := h.made.ge
  next := h.next
  kept c hc := ⟨by rwa [Server.Stored, hstore], h.ctx c⟩
  fresh c hc := Or.inl (h.stored c hc)
  consumed := ⟨[], by rw [hconsume, List.append_nil], List.nodup_nil, nofun⟩

theorem Server.Served.refl (s : Server) : s.Served s :=
  .of_frame (.of_eq rfl rfl rfl rfl) rfl rfl

theorem Server.Served.trans (h : s.Served m) (h' : m.Served m') : s.Served m' where
  made := h.made.trans h'.made
  next := h.next.trans h'.next
  kept c hc := by
    obtain ⟨hm, hctx⟩ := h.kept c hc
    obtain ⟨hm', hctx'⟩ := h'.kept c hm
    exact ⟨hm', hctx'.trans hctx⟩
  fresh c hc := by
    rcases h'.fresh c hc with hm | ⟨hgen, hlt, hctx⟩
    · rcases h.fresh c hm with hs | ⟨hgen, hlt, hctx⟩
      · exact Or.inl hs
      · refine Or.inr ⟨hgen, lt_of_lt_of_le hlt h'.made, ?_⟩
        rwa [(h'.kept c hm).2]
    · exact Or.inr ⟨h.made.trans hgen, hlt, h.next.trans hctx⟩
  consumed := by
    obtain ⟨new, hnew, hnodup, hall⟩ := h.consumed
    obtain ⟨new', hnew', hnodup', hall'⟩ := h'.consumed
    refine ⟨new ++ new', by rw [hnew', hnew, List.append_assoc], ?_, fun c hc => ?_⟩
    · refine hnodup.append hnodup' fun c hc hc' => ?_
      exact absurd (hall c hc).2.1 (not_lt.mpr (hall' c hc').1)
    · rcases List.mem_append.mp hc with hc | hc
      · obtain ⟨hgen, hlt, hstored⟩ := hall c hc
        exact ⟨hgen, lt_of_lt_of_le hlt h'.made, (h'.kept c hstored).1⟩
      · obtain ⟨hgen, hlt, hstored⟩ := hall' c hc
        exact ⟨h.made.trans hgen, hlt, hstored⟩

/-- A dialog is made for a session that is not held. -/
theorem served_dial {id : String} {bot : Endpoint} {nested : Bool}
    (hnone : s.store.lookup id = none) :
    s.Served { s.dial id bot nested with consume := s.consume ++ [⟨id, s.made⟩] } where
  made := Nat.le_succ _
  next := Nat.le_add_right _ 2
  kept c hc := by
    have hid : c.id ≠ id := by
      rintro rfl
      rw [Server.Stored, hnone] at hc
      cases hc
    have hne : c ≠ ⟨id, s.made⟩ := fun h => hid (congrArg Ptr.id h)
    exact ⟨(AList.lookup_insert_ne hid).trans hc, congrArg _ (update_of_ne hne ..)⟩
  fresh c hc := by
    rcases stored_dial s id bot nested hc with rfl | ⟨-, hs, -⟩
    · refine Or.inr ⟨le_rfl, Nat.lt_succ_self _, ?_⟩
      show _ ≤ ((s.dial id bot nested).conns ⟨id, s.made⟩).ctx
      rw [dial_new]
    · exact Or.inl hs
  consumed := by
    refine ⟨[⟨id, s.made⟩], rfl, List.nodup_singleton _, fun c hc => ?_⟩
    obtain rfl := List.mem_singleton.mp hc
    exact ⟨le_rfl, Nat.lt_succ_self _, AList.lookup_insert s.store⟩

end Served

/-- Whoever runs the program leaves the server served. -/
def Serves {α : Type} (p : Go α) : Prop :=
  ∀ (E : Type) (w : Outside E) (s : Server) (x : α) (m : Server),
    p.run (exec w) s = some (x, m) → s.Served m

section Serves

variable {α β : Type}

theorem serves_ret (x : α) : Serves (.ret x) := by
  intro E w s y m hrun
  cases hrun
  exact .refl s

theorem Serves.bind (hp : Serves p) (hf : ∀ x, Serves (f x)) : Serves (p >>= f) := by
  intro E w s y m hrun
  rw [run_bind] at hrun
  obtain ⟨⟨x, m₁⟩, hp', hf'⟩ := Option.bind_eq_some_iff.mp hrun
  exact (hp E w s x m₁ hp').trans (hf x E w m₁ y m hf')

theorem serves_of_plain (hp : Plain p) : Serves p := by
  induction p with
  | ret x => exact serves_ret x
  | act a k ih =>
    intro E w s y m hrun
    obtain ⟨⟨r, m₁⟩, hexec, hrest⟩ := Option.bind_eq_some_iff.mp hrun
    have ha : a.serves = true := hp.1
    have hother : ∀ b : Op, b.serves = false → a ≠ b := by
      rintro b hb rfl
      rw [ha] at hb
      cases hb
    have hdial : ∀ id bot nested, a ≠ .dial id bot nested := fun _ _ _ => hother _ rfl
    have hone : s.Served m₁ := .of_frame (exec_frame hexec hdial)
      (exec_store_eq hexec (fun _ => hother _ rfl) hdial)
      (exec_consume_eq hexec (fun _ => hother _ rfl) fun _ => hother _ rfl)
    exact hone.trans (ih r (hp.2 r) E w m₁ y m hrest)

theorem serves_startDialog (id : String) (bot : Endpoint) (nested : Bool) :
    Serves (startDialog id bot nested) := by
  intro E w s r m hrun
  cases hstored : s.store.lookup id with
  | some gen =>
    simp only [startDialog, run_bind, run_get, hstored] at hrun
    cases hrun
    exact .refl s
  | none =>
    rw [run_startDialog w s bot nested hstored] at hrun
    split at hrun
    · cases hrun
      exact .refl s
    · cases hrun
      exact .refl s
    · split at hrun
      · cases hrun
        exact served_dial hstored
      · cases hrun

theorem serves_startGranted (m : BotControlGranted) : Serves (startGranted m) := by
  refine (serves_of_plain (plain_resolveCustomerPeer m m.bot)).bind ?_
  rintro (e | peer)
  · exact serves_ret _
  · show Serves (if peer.sub = "" then _ else _)
    split
    · exact serves_ret _
    · exact serves_startDialog _ _ _

theorem plain_get (id : String) : Plain (get id) := ⟨rfl, fun _ => trivial⟩

theorem plain_storeParent (child parent : String) : Plain (access (.storeParent child parent)) :=
  ⟨rfl, fun _ => trivial⟩

theorem serves_push (m : BotControlGranted) : Serves (push m) := by
  unfold push
  split
  · refine (serves_of_plain (plain_get _)).bind ?_
    rintro (_ | released)
    · exact serves_startGranted m
    · refine (serves_of_plain (plain_suspend _)).bind fun _ => ?_
      exact (serves_of_plain (plain_storeParent _ _)).bind fun _ => serves_startGranted m
  · exact serves_startGranted m

theorem serves_handleBotControlGranted (m : BotControlGranted) :
    Serves (handleBotControlGranted m) := by
  refine (serves_of_plain (plain_get _)).bind ?_
  rintro (_ | conn)
  · show Serves (if m.reason = .initial then _ else if _ then _ else _)
    split
    · exact serves_ret _
    · split
      · exact serves_ret _
      · exact serves_push m
  · exact (serves_of_plain (plain_grantStored m conn)).bind fun _ => serves_ret _

theorem serves_onMessage (c : Ptr) (m : Message) : Serves (access (.onMessage c m)) := by
  intro E w s r m hrun
  rw [run_call] at hrun
  cases hrun
  exact .refl s

theorem serves_nodeReceivers (m : Message) (endpoints : List Endpoint) :
    Serves (nodeReceivers m endpoints) := by
  induction endpoints with
  | nil => exact serves_ret _
  | cons endpoint endpoints ih =>
    unfold nodeReceivers
    split
    · exact ih
    · refine (serves_of_plain (plain_get _)).bind ?_
      rintro (_ | conn)
      · show Serves (if m.isSystem = true then _ else _)
        split
        · exact ih
        · refine (serves_startDialog _ _ _).bind ?_
          rintro (e | ⟨⟩)
          · exact serves_ret _
          · exact ih
      · exact (serves_onMessage conn m).bind fun _ => ih

theorem serves_listen (e : Event) : Serves (listen e) := by
  unfold listen
  split
  · exact (serves_handleBotControlGranted _).bind fun _ => serves_ret _
  · exact serves_of_plain (plain_handleBotControlReleased _)
  · split
    · exact serves_ret _
    · refine Serves.bind ?_ fun _ => serves_ret _
      unfold nodeMessage
      split
      · exact serves_ret _
      · exact serves_nodeReceivers _ _

end Serves

section Rounds

variable {E : Type} {w : Outside E} {s : ServerPool} {m : Server} {course : Ptr → Course}

/-- A connection that is stored after a round was stored before, or its session was not. -/
theorem Server.Served.entry {s m : Server} (h : s.Served m) {c : Ptr} (hc : m.Stored c) {e : Entry}
    (he : s.board.entry c.id = some e) : s.Stored c ∧ e = (s.conns c).entry s.chans := by
  cases hstored : s.store.lookup c.id with
  | none =>
    rw [entry_of_none hstored] at he
    cases he
  | some gen =>
    have hold : s.Stored ⟨c.id, gen⟩ := hstored
    have hgen : c.gen = gen := congrArg Ptr.gen ((h.kept _ hold).1.unique hc rfl)
    have hsame : s.Stored c := by rwa [Server.Stored, hgen]
    rw [hsame.entry] at he
    exact ⟨hsame, (Option.some.inj he).symm⟩

/-- The listener handles an event. -/
theorem OnCourse.round (h : OnCourse s course)
    (hrun : (listen w.event).run (exec w) s.shared = some ((), m)) :
    OnCourse { s with shared := m } course := by
  have hserved : s.shared.Served m := serves_listen w.event E w s.shared () m hrun
  obtain ⟨hboard, hapart⟩ := listen_board h.apart hrun
  obtain ⟨new, hnew, hnodup, hall⟩ := hserved.consumed
  refine ⟨h.listener, h.runner, hapart, ?_, fun c hc => ?_, fun c hc => ?_, fun c hc => ?_,
    fun c hc => (hserved.kept c (h.works c hc)).1, fun c hcloses hc hterminating => ?_,
    fun c rc lc hc => ?_⟩
  · show m.consume.Nodup
    rw [hnew]
    refine h.nodup.append hnodup fun c hc hc' => ?_
    exact absurd (h.made c (h.consume c hc).2) (not_lt.mpr (hall c hc').1)
  · have hc : c ∈ m.consume := hc
    rw [hnew] at hc
    rcases List.mem_append.mp hc with hc | hc
    · exact ⟨(h.consume c hc).1, (hserved.kept c (h.consume c hc).2).1⟩
    · exact ⟨h.waiting c (hall c hc).1, (hall c hc).2.2⟩
  · exact h.waiting c (hserved.made.trans hc)
  · rcases hserved.fresh c hc with hold | ⟨-, hlt, -⟩
    · exact lt_of_lt_of_le (h.made c hold) hserved.made
    · exact hlt
  · -- what is terminating now was broken in this round, or was terminating before
    have hc : m.Stored c := hc
    have hentry := hc.entry
    have hterminating : ((m.conns c).entry m.chans).state = .terminating := hterminating
    have hold : ∀ {e : Entry}, s.shared.board.entry c.id = some e → e.state = .terminating →
        e.cancelled = true := by
      intro e he hstate
      obtain ⟨hstored, rfl⟩ := hserved.entry hc he
      exact decide_eq_true (h.broken c hcloses hstored hstate)
    suffices hcancelled : ((m.conns c).entry m.chans).cancelled = true from
      of_decide_eq_true hcancelled
    generalize (m.conns c).entry m.chans = e' at hentry hterminating
    rw [hboard] at hentry
    have hevolves := s.shared.board.listen_evolves w c.id
    generalize hx : (s.shared.board.listen w).entry c.id = x at hevolves
    rw [hentry] at hx
    cases hevolves with
    | same => exact hold hx.symm hterminating
    | dialed | pushed | takenOver | resumed =>
      cases hx
      cases hterminating
    | popped | left =>
      cases hx
      rfl
    | returned he =>
      cases hx
      have hcancelled := hold he hterminating
      exact hcancelled
  · obtain ⟨⟨hrc, hlc⟩, hown⟩ := h.breaking c rc lc hc
    refine ⟨⟨lt_of_lt_of_le hrc hserved.next, lt_of_lt_of_le hlc hserved.next⟩, fun d hd hctx => ?_⟩
    have hctx : (m.conns d).ctx = rc ∨ (m.conns d).ctx = lc := hctx
    rcases hserved.fresh d hd with hold | ⟨-, -, hnext⟩
    · rw [(hserved.kept d hold).2] at hctx
      exact hown d hold hctx
    · rcases hctx with hctx | hctx <;> omega

/-- A turn leads on along the courses of the goroutines. -/
theorem OnCourse.turn {s' : ServerPool} {e : TurnEvent E} (h : OnCourse s course)
    (hturn : TurnStep E s e s') : ∃ course', OnCourse s' course' := by
  cases hturn with
  | round hlistener hrun => exact ⟨course, h.round hrun⟩
  | act hstep =>
    cases hstep with
    | act ht hexec =>
      obtain ⟨st, -, hcourse⟩ := h.act ht hexec
      exact ⟨_, hcourse⟩
  | next hstep => exact ⟨course, (h.next hstep).2.2⟩
  | enterQueue id => exact ⟨course, h.enterQueue id⟩
  | leaveQueue id => exact ⟨course, h.leaveQueue id⟩

end Rounds

/-! ## Given turns -/

/-- A turn to be made: the listener handles the event of the outside, or a goroutine moves. -/
inductive TurnMove (E : Type) where
  | round (w : Outside E)
  | runner (c : Ptr) (w : Outside E)

section Given

variable {E : Type}

/-- What happens if the turn is made. -/
def TurnMove.event (s : ServerPool) : TurnMove E → TurnEvent E
  | .round w => .round w
  | .runner c _ =>
    match s.thread (.runner c) with
    | .act a _ => .act c a
    | .ret _ => .next c

/-- The turn is made, if it can be. -/
def TurnMove.make (s : ServerPool) : TurnMove E → Option ServerPool
  | .round w =>
    match s.thread .listener with
    | .ret .listen =>
      ((listen w.event).run (exec w) s.shared).map fun y => { s with shared := y.2 }
    | _ => none
  | .runner c w => s.move (dialogs E) (.runner c) w

theorem TurnMove.make_turn (s : ServerPool) (a : TurnMove E) (s' : ServerPool)
    (h : a.make s = some s') : TurnStep E s (a.event s) s' := by
  cases a with
  | round w =>
    unfold TurnMove.make at h
    dsimp only at h
    split at h
    · rename_i hlistener
      obtain ⟨⟨⟨⟩, m⟩, hrun, rfl⟩ := Option.map_eq_some_iff.mp h
      exact .round hlistener hrun
    · cases h
  | runner c w =>
    have hstep := Pool.move_step h
    unfold TurnMove.event
    unfold Pool.event at hstep
    split at hstep
    · rename_i ht
      simp only [ht]
      exact .act hstep
    · rename_i ht
      simp only [ht]
      exact .next hstep

end Given

/-! ## Every run -/

/-- The goroutine of the dialog has been dispatched, and has not deleted its connection. -/
def Busy (s : ServerPool) (c : Ptr) : Bool :=
  match s.thread (.runner c) with
  | .act (.take _) _ | .act (.deleteParent _) _ | .act (.removeSession _) _ | .ret .exit => false
  | _ => true

section Runs

variable {E : Type} {s s' : ServerPool} {ok : Prop}
  (h : Trace.Steps (TurnStep E) (fun _ _ _ => True) (atStart Server.init) ok s)
include h

theorem onCourse_of_steps : ∃ course, OnCourse s course := by
  induction h with
  | refl => exact ⟨_, onCourse_atStart⟩
  | tail _ hturn ih =>
    obtain ⟨course, hcourse⟩ := ih
    exact hcourse.turn hturn

/-- The listener refines the board: whatever has happened, and wherever the goroutines are, it does
to the sessions and the links what the board says. -/
theorem round_board {w : Outside E} (hround : TurnStep E s (.round w) s') :
    s'.shared.board = s.shared.board.listen w := by
  obtain ⟨course, hcourse⟩ := onCourse_of_steps h
  cases hround with
  | round _ hrun => exact (listen_board hcourse.apart hrun).1

/-- At most one goroutine is at work for a session, and the connection that is stored is its own. -/
theorem stored_of_busy {c : Ptr} (hc : Busy s c = true) :
    s.shared.Stored c ∧ ∀ d, Busy s d = true → d.id = c.id → d = c := by
  obtain ⟨course, hcourse⟩ := onCourse_of_steps h
  have hstored : ∀ d, Busy s d = true → s.shared.Stored d := by
    intro d hd
    refine hcourse.works d ?_
    have hgoing := hcourse.runner d
    unfold Busy at hd
    generalize s.thread (.runner d) = p at hd hgoing
    cases p with
    | ret l =>
      rcases hgoing with ⟨hst, -⟩ | ⟨-, rfl⟩
      · rw [hst]
        rfl
      · cases hd
    | act a k =>
      obtain ⟨r⟩ := a.result_nonempty
      obtain ⟨st, hgoes, -⟩ := hgoing r
      generalize course d = st₀ at hgoes
      cases hgoes <;> first | rfl | cases hd
  exact ⟨hstored c hc, fun d hd hid => (hstored c hc).unique (hstored d hd) hid⟩

end Runs

/-- The customer's first message -/
def greeted : Outside Unit := { helpful with event := .message hello }

/-- Bot 1 hands over to bot 2. -/
def transferred : Outside Unit :=
  { helpful with event := .granted ⟨"t", "", 1, 2, .other "transfer"⟩ }

/-- A grant that comes while the goroutine of the first dialog is under way -/
theorem round_board_greeted : ∃ s s', Busy s ⟨"t.1", 0⟩ = true ∧
    TurnStep Unit s (.round transferred) s' ∧
      s'.shared.board = s.shared.board.listen transferred := by
  obtain ⟨s, -, ⟨hbusy, hs⟩, ok, hsteps⟩ := Trace.reaches TurnMove.make_turn (fun _ _ _ => True)
    [.round greeted, .runner ⟨"t.1", 0⟩ helpful] (atStart Server.init)
    (fun s => Busy s ⟨"t.1", 0⟩ = true ∧ ((TurnMove.round transferred).make s).isSome = true)
    (by decide +kernel)
  obtain ⟨s', hs'⟩ := Option.isSome_iff_exists.mp hs
  have hround := TurnMove.make_turn _ _ _ hs'
  exact ⟨s, s', hbusy, hround, round_board hsteps hround⟩

theorem stored_of_busy_greeted : ∃ ok s, Trace.Steps (TurnStep Unit) (fun _ _ _ => True)
    (atStart Server.init) ok s ∧ Busy s ⟨"t.1", 0⟩ = true ∧ s.shared.Stored ⟨"t.1", 0⟩ := by
  obtain ⟨s, -, hbusy, ok, hsteps⟩ := Trace.reaches TurnMove.make_turn (fun _ _ _ => True)
    [.round greeted, .runner ⟨"t.1", 0⟩ helpful] (atStart Server.init)
    (fun s => Busy s ⟨"t.1", 0⟩ = true) (by decide +kernel)
  exact ⟨ok, s, hsteps, hbusy, (stored_of_busy hsteps hbusy).1⟩

end FlowManager.Im
