import FlowManager.Im.Server

/-!
# Where the goroutines are

What the listener and the goroutines of the dialogs may do next, and what this says about
the connection store. All of it holds at every moment of every run.

- `Serving`: the listener dials only a session it has just claimed, dispatches what it has
  just dialed, and hands a message to what it has just found.
- `Keeping`: the goroutine of a dialog works, deletes its connection from the store, and
  removes its session; it writes into no other connection but to resume it.
- `Staged`: besides, a goroutine works only for a connection that has been made, and what it
  has deleted does not come back.
-/

namespace FlowManager.Im

open Concurrent

/-! ## The listener -/

/-- What the listener has just done. -/
inductive Post where
  | free
  /-- the session was claimed -/
  | claimed (id : String)
  /-- the connection was made and stored -/
  | dialed (c : Ptr)
  /-- the connection was looked up for a message -/
  | found (c : Ptr)

/-- The accesses that the listener makes at any time. -/
def Op.serves : Op → Bool
  | .get _ => true
  | .keys => true
  | .isSuspended _ => true
  | .isTerminating _ => true
  | .store .. => true
  | .runCancel _ => true
  | .cancels _ => true
  | .cancel _ => true
  | .newRun _ => true
  | .signal _ => true
  | .inQueue _ => true
  | .returnFromQueue _ => true
  | .storeParent .. => true
  | .search _ => true
  | .removeByThread _ => true
  | _ => false

/-- How an access of the listener leads from post to post. -/
inductive Listens : Post → (a : Op) → a.Result → Post → Prop where
  | serve {a : Op} {r : a.Result} (ha : a.serves = true) : Listens .free a r .free
  | refuse {id : String} {r : Except String (Option Nat)} (hr : ∀ n, r ≠ .ok (some n)) :
      Listens .free (.touch id) r .free
  | claim {id : String} {n : Nat} : Listens .free (.touch id) (.ok (some n)) (.claimed id)
  | dial {id : String} {bot : Endpoint} {nested : Bool} {gen : Nat} :
      Listens (.claimed id) (.dial id bot nested) gen (.dialed ⟨id, gen⟩)
  | consume {c : Ptr} : Listens (.dialed c) (.consume c) () .free
  | find {id : String} {gen : Nat} : Listens .free (.get id) (some gen) (.found ⟨id, gen⟩)
  | hand {c : Ptr} {m : Message} : Listens (.found c) (.onMessage c m) () .free

/-- A handler of the listener, from the post `st` on. -/
abbrev Serving {α : Type} (Q : α → Prop) (st : Post) (p : Go α) : Prop :=
  p.Conforms Listens (fun st x => st = .free ∧ Q x) st

/-- A handler that starts nothing and hands over nothing. -/
abbrev Plain {α : Type} (p : Go α) : Prop := p.Uses (·.serves = true) fun _ => True

section Listener

variable {α : Type}

theorem serving_of_plain (hp : Plain p) : Serving (fun _ => True) .free p :=
  hp.conforms (fun _ _ ha => .serve ha) fun _ _ => ⟨rfl, trivial⟩

theorem plain_break (c : Ptr) : Plain (break_ c) := by
  iterate 4 refine ⟨rfl, fun _ => ?_⟩
  trivial

theorem plain_suspend (c : Ptr) : Plain (suspend c) := by
  iterate 3 refine ⟨rfl, fun _ => ?_⟩
  trivial

theorem plain_resume (c : Ptr) : Plain (resume c) := by
  iterate 3 refine ⟨rfl, fun _ => ?_⟩
  trivial

theorem plain_breakKeys (start : String) (keys : List String) : Plain (breakKeys start keys) := by
  induction keys with
  | nil => trivial
  | cons key keys ih =>
    unfold breakKeys
    split
    · refine ⟨rfl, ?_⟩
      rintro (_ | gen)
      · exact ih
      · exact (plain_break _).bind fun _ _ => ih.bind fun _ _ => trivial
    · exact ih

theorem plain_breakByThread (threadID : String) : Plain (breakByThread threadID) := by
  unfold breakByThread
  split
  · trivial
  · exact ⟨rfl, fun keys => plain_breakKeys _ keys⟩

theorem plain_suspendForAgent (r : BotControlReleased) : Plain (suspendForAgent r) := by
  unfold suspendForAgent
  split
  · trivial
  · refine ⟨rfl, ?_⟩
    rintro (_ | gen)
    · trivial
    · refine ⟨rfl, ?_⟩
      rintro (_ | _)
      · refine ⟨rfl, ?_⟩
        rintro (_ | _)
        · refine ⟨rfl, ?_⟩
          rintro (_ | _)
          · exact plain_suspend _
          · trivial
        · trivial
      · trivial

theorem plain_handleBotControlReleased (r : BotControlReleased) :
    Plain (handleBotControlReleased r) := by
  unfold handleBotControlReleased
  split
  · exact plain_suspendForAgent r
  · split
    · trivial
    · exact (plain_breakByThread _).bind fun _ _ => ⟨rfl, fun _ => trivial⟩

theorem plain_resolveCustomerPeer (m : BotControlGranted) (bot : Endpoint) :
    Plain (resolveCustomerPeer m bot) := by
  refine ⟨rfl, ?_⟩
  rintro (e | _ | ⟨members, _⟩) <;> trivial

theorem plain_adoptPush (id releasedID : String) : Plain (adoptPush id releasedID) := by
  have hlink : Plain (access (.storeParent id releasedID)) := ⟨rfl, fun _ => trivial⟩
  refine ⟨rfl, ?_⟩
  rintro (_ | gen)
  · trivial
  · refine ⟨rfl, ?_⟩
    rintro (_ | _)
    · refine ⟨rfl, ?_⟩
      rintro (_ | _)
      · exact (plain_suspend _).bind fun _ _ => hlink
      · exact hlink
    · exact hlink

theorem plain_pop (m : BotControlGranted) (c : Ptr) : Plain (pop m c) := by
  unfold pop
  split
  · refine ⟨rfl, ?_⟩
    rintro (_ | gen)
    · exact plain_resume c
    · exact (plain_break _).bind fun _ _ => plain_resume c
  · exact plain_resume c

theorem plain_grantActive (m : BotControlGranted) (c : Ptr) : Plain (grantActive m c) := by
  unfold grantActive
  split
  · exact plain_adoptPush _ _
  · trivial

theorem plain_grantStored (m : BotControlGranted) (c : Ptr) : Plain (grantStored m c) := by
  refine ⟨rfl, ?_⟩
  rintro (_ | _)
  · show Plain (if m.reason = .agentHandback then _ else _)
    split
    · refine ⟨rfl, ?_⟩
      rintro (_ | _)
      · exact plain_grantActive m c
      · trivial
    · exact plain_grantActive m c
  · exact plain_pop m c

/-- A dialog is dialed once its session is claimed, and dispatched at once. -/
theorem serving_startDialog (id : String) (bot : Endpoint) (nested : Bool) :
    Serving (fun _ => True) .free (startDialog id bot nested) := by
  rintro (_ | gen)
  · refine ⟨.free, .serve rfl, ?_⟩
    rintro (e | _ | n)
    · exact ⟨.free, .refuse (by simp), rfl, trivial⟩
    · exact ⟨.free, .refuse (by simp), rfl, trivial⟩
    · refine ⟨.claimed id, .claim, fun gen => ⟨.dialed ⟨id, gen⟩, .dial, fun _ => ?_⟩⟩
      exact ⟨.free, .consume, rfl, trivial⟩
  · exact ⟨.free, .serve rfl, rfl, trivial⟩

theorem serving_startGranted (m : BotControlGranted) :
    Serving (fun _ => True) .free (startGranted m) := by
  refine (serving_of_plain (plain_resolveCustomerPeer m m.bot)).bind ?_
  rintro _ (e | peer) ⟨rfl, -⟩
  · exact ⟨rfl, trivial⟩
  · show Serving _ _ (if peer.sub = "" then _ else _)
    split
    · exact ⟨rfl, trivial⟩
    · exact serving_startDialog _ _ _

theorem serving_push (m : BotControlGranted) : Serving (fun _ => True) .free (push m) := by
  unfold push
  split
  · rintro (_ | gen)
    · exact ⟨.free, .serve rfl, serving_startGranted m⟩
    · refine ⟨.free, .serve rfl, (serving_of_plain (plain_suspend _)).bind ?_⟩
      rintro _ _ ⟨rfl, -⟩ _
      exact ⟨.free, .serve rfl, serving_startGranted m⟩
  · exact serving_startGranted m

theorem serving_handleBotControlGranted (m : BotControlGranted) :
    Serving (fun _ => True) .free (handleBotControlGranted m) := by
  rintro (_ | gen)
  · refine ⟨.free, .serve rfl, ?_⟩
    show Serving _ _ (if m.reason = .initial then _ else if _ then _ else _)
    split
    · exact ⟨rfl, trivial⟩
    · split
      · exact ⟨rfl, trivial⟩
      · exact serving_push m
  · refine ⟨.free, .serve rfl, (serving_of_plain (plain_grantStored m _)).bind ?_⟩
    exact fun _ _ h => ⟨h.1, trivial⟩

/-- A message is handed to the connection that was found for it. -/
theorem serving_nodeReceivers (m : Message) (endpoints : List Endpoint) :
    Serving (fun _ => True) .free (nodeReceivers m endpoints) := by
  induction endpoints with
  | nil => exact ⟨rfl, trivial⟩
  | cons endpoint endpoints ih =>
    unfold nodeReceivers
    split
    · exact ih
    · rintro (_ | gen)
      · refine ⟨.free, .serve rfl, ?_⟩
        show Serving _ _ (if m.isSystem = true then _ else _)
        split
        · exact ih
        · refine (serving_startDialog _ _ _).bind ?_
          rintro _ (e | ⟨⟩) ⟨rfl, -⟩
          · exact ⟨rfl, trivial⟩
          · exact ih
      · exact ⟨.found _, .find, fun _ => ⟨.free, .hand, ih⟩⟩

theorem serving_listen (e : Event) :
    Serving (fun l : Label => l = .listen) .free (do listen e; return .listen) := by
  have hlisten : Serving (fun _ => True) .free (listen e) := by
    unfold listen
    split
    · exact (serving_handleBotControlGranted _).bind fun _ _ h => ⟨h.1, trivial⟩
    · exact serving_of_plain (plain_handleBotControlReleased _)
    · split
      · exact ⟨rfl, trivial⟩
      · unfold nodeMessage
        split
        · exact ⟨rfl, trivial⟩
        · exact (serving_nodeReceivers _ _).bind fun _ _ h => ⟨h.1, trivial⟩
  exact hlisten.bind fun _ _ h => ⟨h.1, rfl⟩

end Listener

/-! ## The goroutine of a dialog -/

/-- How far the goroutine of a dialog is with `stopConnection`. -/
inductive Shutdown where
  | before
  | deleted
  | removed
  deriving DecidableEq

/-- The accesses that the goroutine of the dialog `c` makes before `stopConnection`. -/
def Op.worksFor (c : Ptr) : Op → Bool
  | .take d => decide (d = c)
  | .runContext d => decide (d = c)
  | .routing d => decide (d = c)
  | .newFlow d _ => decide (d = c)
  | .route d _ => decide (d = c)
  | .repeatInterrupted d => decide (d = c)
  | .awaitResume d => decide (d = c)
  | .isTerminating d => decide (d = c)
  | .completeId d => decide (d = c)
  | .complete d _ => decide (d = c)
  | .disconnected d => decide (d = c)
  | .cancels d => decide (d = c)
  -- the parent is resumed
  | .store d st => decide (d = c ∨ st = .running)
  | .takeParent id => decide (id = c.id)
  | .get _ => true
  | .isSuspended _ => true
  | .newRun _ => true
  | .signal _ => true
  | .cancel _ => true
  | _ => false

/-- How an access of the goroutine leads on. -/
inductive Runs (c : Ptr) : Shutdown → (a : Op) → a.Result → Shutdown → Prop where
  | work {a : Op} {r : a.Result} (ha : a.worksFor c = true) : Runs c .before a r .before
  | delete : Runs c .before (.delete c.id) () .deleted
  | unlink : Runs c .deleted (.deleteParent c.id) () .deleted
  | remove : Runs c .deleted (.removeSession c.id) () .removed

/-- The goroutine of the dialog `c`, from the stage `st` on. -/
abbrev Keeping (c : Ptr) (st : Shutdown) (p : Go Label) : Prop :=
  p.Conforms (Runs c)
    (fun st l => (st = .before ∧ l = .park c) ∨ (st = .removed ∧ l = .exit)) st

section Runner

variable (c : Ptr)

theorem keeping_stop : Keeping c .before (stop c) := by
  refine fun _ => ⟨.before, .work (decide_eq_true (.inl rfl)), ?_⟩
  refine fun _ => ⟨.before, .work (decide_eq_true rfl), ?_⟩
  iterate 2 refine fun _ => ⟨.before, .work rfl, ?_⟩
  refine fun _ => ⟨.deleted, .delete, fun _ => ⟨.deleted, .unlink, fun _ => ?_⟩⟩
  exact ⟨.removed, .remove, Or.inr ⟨rfl, rfl⟩⟩

/-- `ResumeParent` may write into the parent, but only to resume it. -/
theorem works_resumeParentOf : (resumeParentOf c.id).Uses (·.worksFor c = true) fun _ => True := by
  refine ⟨decide_eq_true rfl, ?_⟩
  rintro (_ | parentID)
  · trivial
  · by_cases hid : parentID = ""
    · simp [hid, Prog.Uses]
    · simp only [ret_bind, Prog.bind_eq, if_neg hid]
      refine ⟨rfl, ?_⟩
      rintro (_ | gen)
      · trivial
      · refine ⟨rfl, ?_⟩
        rintro (_ | _)
        · trivial
        · refine ⟨rfl, fun _ => ⟨decide_eq_true (.inr rfl), fun _ => ⟨rfl, fun _ => trivial⟩⟩⟩

theorem keeping_finish : Keeping c .before (finish c) := by
  have hparent : (resumeParentOf c.id).Conforms (Runs c) (fun st _ => st = .before) .before :=
    (works_resumeParentOf c).conforms (fun _ _ ha => .work ha) fun _ _ => rfl
  have hend : Keeping c .before (do resumeParentOf c.id; access (.disconnected c); stop c) := by
    refine hparent.bind ?_
    rintro _ _ rfl _
    exact ⟨.before, .work (decide_eq_true rfl), keeping_stop c⟩
  refine fun id => ⟨.before, .work (decide_eq_true rfl), ?_⟩
  by_cases hid : id = ""
  · simpa [hid] using hend
  · simp only [Prog.bind_eq, ret_bind, ne_eq, hid, not_false_eq_true, if_true]
    exact fun _ => ⟨.before, .work (decide_eq_true rfl), hend⟩

theorem keeping_park : Keeping c .before (park c) := by
  rintro (_ | _)
  · refine ⟨.before, .work rfl, ?_⟩
    rintro (_ | _)
    · exact ⟨.before, .work (decide_eq_true rfl), keeping_finish c⟩
    · exact ⟨.before, .work (decide_eq_true rfl), keeping_stop c⟩
  · refine ⟨.before, .work rfl, ?_⟩
    rintro (_ | _)
    · refine ⟨.before, .work (decide_eq_true rfl), ?_⟩
      rintro (_ | _)
      · exact ⟨.before, .work (decide_eq_true rfl), keeping_stop c⟩
      · refine ⟨.before, .work (decide_eq_true rfl), ?_⟩
        iterate 3 refine fun _ => ⟨.before, .work (decide_eq_true rfl), ?_⟩
        exact Or.inl ⟨rfl, rfl⟩
    · exact ⟨.before, .work (decide_eq_true rfl), keeping_stop c⟩

theorem keeping_handle : Keeping c .before (handle c) := by
  iterate 2 refine fun _ => ⟨.before, .work (decide_eq_true rfl), ?_⟩
  rintro (_ | schema)
  · exact ⟨.before, .work (decide_eq_true rfl), keeping_stop c⟩
  · refine ⟨.before, .work (decide_eq_true rfl), ?_⟩
    iterate 2 refine fun _ => ⟨.before, .work (decide_eq_true rfl), ?_⟩
    exact Or.inl ⟨rfl, rfl⟩

end Runner

/-! ## What holds at every moment -/

/-- What may happen to the store and to the dialogs that wait: a connection that is stored
anew has just been made, and so has one that is dispatched. -/
structure Server.Grows (s m : Server) : Prop where
  made : s.made ≤ m.made
  stored : ∀ id gen, m.store.lookup id = some gen →
    s.store.lookup id = some gen ∨ (gen = s.made ∧ s.made < m.made)
  consumed : ∀ c ∈ m.consume, c ∈ s.consume ∨ c.gen < m.made

section Grows

variable {E : Type} {w : Outside E} {a : Op} {r : a.Result} {s m : Server} {c : Ptr}

theorem lookup_of_lookup_erase {store : AList fun _ : String => Nat} {id id' : String}
    (h : (store.erase id').lookup id = some gen) : store.lookup id = some gen := by
  by_cases hid : id = id'
  · rw [hid, AList.lookup_erase] at h
    cases h
  · rwa [AList.lookup_erase_ne hid] at h

theorem Server.Grows.of_eq (hmade : m.made = s.made) (hstore : m.store = s.store)
    (hconsume : m.consume = s.consume) : s.Grows m :=
  ⟨hmade.ge, fun _ _ h => Or.inl (hstore ▸ h), fun _ h => Or.inl (hconsume ▸ h)⟩

theorem Env.grows (h : Env s m) : s.Grows m := by
  cases h with
  | enterQueue d | leaveQueue d => exact .of_eq rfl rfl rfl
  | expire id => exact ⟨le_rfl, fun _ _ h => Or.inl (lookup_of_lookup_erase h), fun _ h => Or.inl h⟩

/-- So it is with every access, if only what has been made is dispatched. -/
theorem exec_grows (h : exec w a s = some (r, m)) (ha : ∀ c, a = .consume c → c.gen < s.made) :
    s.Grows m := by
  cases a with
  | dial id bot nested =>
    cases h
    refine ⟨Nat.le_succ _, fun id' gen hgen => ?_, fun _ h => Or.inl h⟩
    by_cases hid : id' = id
    · rw [hid] at hgen
      obtain rfl := Option.some.inj ((AList.lookup_insert _).symm.trans hgen)
      exact Or.inr ⟨rfl, Nat.lt_succ_self _⟩
    · exact Or.inl ((AList.lookup_insert_ne hid).symm.trans hgen)
  | delete id =>
    cases h
    exact ⟨le_rfl, fun _ _ h => Or.inl (lookup_of_lookup_erase h), fun _ h => Or.inl h⟩
  | consume c =>
    rw [exec_consume h]
    refine ⟨le_rfl, fun _ _ h => Or.inl h, fun d hd => ?_⟩
    rcases List.mem_append.mp hd with hd | hd
    · exact Or.inl hd
    · obtain rfl := List.mem_singleton.mp hd
      exact Or.inr (ha d rfl)
  | take c =>
    obtain ⟨rest, hconsume, rfl⟩ := exec_take h
    refine ⟨le_rfl, fun _ _ h => Or.inl h, fun d hd => ?_⟩
    rw [hconsume]
    exact Or.inl (List.mem_cons_of_mem _ hd)
  | route d ctx =>
    obtain ⟨_, _, -, -, rfl⟩ := exec_route h
    exact .of_eq rfl rfl rfl
  | awaitResume d =>
    rcases exec_awaitResume h with ⟨-, -, rfl⟩ | ⟨-, -, rfl⟩ <;> exact .of_eq rfl rfl rfl
  | returnFromQueue d =>
    rcases exec_returnFromQueue h with rfl | ⟨n, rfl⟩ <;> exact .of_eq rfl rfl rfl
  | _ =>
    cases h
    exact .of_eq rfl rfl rfl

end Grows

/-- What holds at every moment of a run. -/
structure Staged (s : ServerPool) : Prop where
  listener : ∃ st, Serving (fun l : Label => l = .listen) st (s.thread .listener) ∧
    ∀ c, st = .dialed c → c.gen < s.shared.made
  runner : ∀ c, ∃ st, Keeping c st (s.thread (.runner c)) ∧
    (st ≠ .before → s.shared.store.lookup c.id ≠ some c.gen)
  waiting : ∀ c : Ptr, s.shared.made ≤ c.gen → s.thread (.runner c) = handle c
  consumed : ∀ c ∈ s.shared.consume, c.gen < s.shared.made

section Runs

variable {E : Type} {s s' : ServerPool} {e : Concurrent.Event Thread Op} {m : Server} {c : Ptr}

theorem staged_atStart : Staged (atStart Server.init) where
  listener := ⟨.free, ⟨rfl, rfl⟩, fun _ h => by cases h⟩
  runner c := ⟨.before, keeping_handle c, fun h => absurd rfl h⟩
  waiting _ _ := rfl
  consumed _ h := by cases h

theorem before_of_keeping_handle (h : Keeping c st (handle c)) : st = .before := by
  obtain ⟨st', hruns, -⟩ := h ()
  cases hruns
  rfl

section

variable (h : Staged s)
include h

section

variable (hgrows : s.shared.Grows m)
include hgrows

/-- The goroutines that do not move stay in their stages. -/
theorem Staged.still (c : Ptr) : (∃ st, Keeping c st (s.thread (.runner c)) ∧
      (st ≠ .before → m.store.lookup c.id ≠ some c.gen)) ∧
    (m.made ≤ c.gen → s.thread (.runner c) = handle c) := by
  obtain ⟨st, hkeeping, hgone⟩ := h.runner c
  refine ⟨⟨st, hkeeping, fun hst hstored => ?_⟩, fun hmade => h.waiting c (hgrows.made.trans hmade)⟩
  rcases hgrows.stored _ _ hstored with hbefore | ⟨hgen, -⟩
  · exact hgone hst hbefore
  · rw [h.waiting c hgen.ge] at hkeeping
    exact hst (before_of_keeping_handle hkeeping)

theorem Staged.consumed_grows : ∀ c ∈ m.consume, c.gen < m.made := by
  intro c hc
  rcases hgrows.consumed c hc with hc | hc
  · exact lt_of_lt_of_le (h.consumed c hc) hgrows.made
  · exact hc

/-- The listener moves. -/
theorem Staged.listens
    (hp : Serving (fun l : Label => l = .listen) st p)
    (hst : ∀ c, st = .dialed c → c.gen < m.made) :
    Staged (s.set .listener m p) where
  listener := ⟨st, by rwa [Pool.set_thread_self], hst⟩
  runner c := by
    exact (h.still hgrows c).1
  waiting c hc := by
    exact (h.still hgrows c).2 hc
  consumed := h.consumed_grows hgrows

/-- The goroutine of a dialog moves. -/
theorem Staged.runs (hp : Keeping c st p)
    (hst : st ≠ .before → m.store.lookup c.id ≠ some c.gen) (hmade : c.gen < s.shared.made) :
    Staged (s.set (.runner c) m p) where
  listener := by
    obtain ⟨post, hserving, hdialed⟩ := h.listener
    exact ⟨post, hserving, fun d hd => lt_of_lt_of_le (hdialed d hd) hgrows.made⟩
  runner :=
    s.forall_set (f := .runner) (fun _ _ => Thread.runner.inj)
      (Q := fun d p => ∃ st, Keeping d st p ∧ (st ≠ .before → m.store.lookup d.id ≠ some d.gen))
      ⟨st, hp, hst⟩ fun d _ => (h.still hgrows d).1
  waiting d hgen := by
    have hd : d ≠ c := by
      rintro rfl
      exact absurd (hgrows.made.trans hgen) (not_le.mpr hmade)
    rw [Pool.set_thread_of_ne _ (by simpa using hd)]
    exact (h.still hgrows d).2 hgen
  consumed := h.consumed_grows hgrows

end

/-- A goroutine that moves works for a connection that has been made. -/
theorem Staged.made_of_act (ht : s.thread (.runner c) = .act a k)
    (hexec : exec w a s.shared = some (r, m)) : c.gen < s.shared.made := by
  by_contra hmade
  have hwaiting := ht.symm.trans (h.waiting c (not_lt.mp hmade))
  injection hwaiting with ha _
  subst ha
  obtain ⟨rest, hconsume, -⟩ := exec_take hexec
  exact hmade (h.consumed c (hconsume ▸ List.mem_cons_self))

theorem Staged.step (hstep : Step (dialogs E) s e s') : Staged s' := by
  cases hstep with
  | @act t a k w r m ht hexec =>
    cases t with
    | listener =>
      obtain ⟨st, hserving, hdialed⟩ := h.listener
      rw [ht] at hserving
      obtain ⟨st', hlistens, hk⟩ := hserving r
      -- the listener dispatches only the connection that it has just made
      have hgrows : s.shared.Grows m := by
        refine exec_grows hexec ?_
        rintro c rfl
        cases hlistens with
        | serve ha => cases ha
        | consume => exact hdialed c rfl
      refine h.listens hgrows hk ?_
      rintro c rfl
      cases hlistens
      cases hexec
      exact Nat.lt_succ_self _
    | runner c =>
      obtain ⟨st, hkeeping, hgone⟩ := h.runner c
      rw [ht] at hkeeping
      obtain ⟨st', hruns, hk⟩ := hkeeping r
      have hgrows : s.shared.Grows m := by
        refine exec_grows hexec ?_
        rintro d rfl
        cases hruns with
        | work ha => cases ha
      refine h.runs hgrows hk (fun hst' => ?_) (h.made_of_act ht hexec)
      -- the session is gone from the store once it is deleted, and is not stored again
      cases hruns with
      | work => exact absurd rfl hst'
      | delete =>
        cases hexec
        simp [AList.lookup_erase]
      | unlink | remove =>
        cases hexec
        exact hgone (by simp)
  | @next t l w p ht hcode =>
    have hsame : s.shared.Grows s.shared := .of_eq rfl rfl rfl
    cases t with
    | listener =>
      obtain ⟨st, hserving, -⟩ := h.listener
      rw [ht] at hserving
      obtain ⟨rfl, rfl⟩ := hserving
      cases hcode
      exact h.listens hsame (serving_listen w.event) fun _ hst => by cases hst
    | runner c =>
      obtain ⟨st, hkeeping, -⟩ := h.runner c
      rw [ht] at hkeeping
      rcases hkeeping with ⟨rfl, rfl⟩ | ⟨rfl, rfl⟩
      · cases hcode
        have hmade : c.gen < s.shared.made := by
          by_contra hmade
          exact absurd (ht.symm.trans (h.waiting c (not_lt.mp hmade))) nofun
        exact h.runs hsame (keeping_park c) (fun hst => absurd rfl hst) hmade
      · cases hcode
  | @env m henv =>
    have hgrows := henv.grows
    refine ⟨?_, fun c => (h.still hgrows c).1, fun c => (h.still hgrows c).2,
      h.consumed_grows hgrows⟩
    obtain ⟨st, hserving, hdialed⟩ := h.listener
    exact ⟨st, hserving, fun c hc => lt_of_lt_of_le (hdialed c hc) hgrows.made⟩

end

end Runs

end FlowManager.Im
