import FlowManager.Im.Server

/-!
# Terminating connections

`Break` and `Stop` set the state of a connection to terminating; five other places write
the same word. All but one of them look at the state first, but the look and the write are
two accesses, and the push branch of a grant does not look at all.

- `Poised`: the next write of a program to a connection comes without a further look.
- `Guarded`: a push finds its source not terminating, and no connection is terminated while
  another goroutine is poised to suspend or resume it.
- `Calm`, `Only`: rules for programs that look before they write; every handler is calm.
- `terminating_absorbing`: in a guarded run a terminating connection stays terminating and
  keeps its run context.
-/

namespace FlowManager.Im

open Concurrent

variable {α β : Type}

/-- The program may come to suspend or resume the connection `c`, whatever the state of `c`
is by then. A connection that is yet to be looked up is not meant. -/
def Poised (c : Ptr) : Go α → Prop
  | .ret _ => False
  | .act (.store d st) k => (d = c ∧ st ≠ .terminating) ∨ (d ≠ c ∧ Poised c (k ()))
  | .act (.newRun d) k => d = c ∨ Poised c (k ())
  | .act (.isSuspended d) k => d ≠ c ∧ ∃ r, Poised c (k r)
  | .act (.isTerminating d) k => d ≠ c ∧ ∃ r, Poised c (k r)
  | .act (.get _) k => Poised c (k none)
  | .act _ k => ∃ r, Poised c (k r)

/-- The program heeds what it finds: it is not poised on a connection that it has found or
made terminating, and looking up a connection makes it poised on that one at most. -/
def Respects : Go α → Prop
  | .ret _ => True
  | .act (.store c st) k => (st = .terminating → ¬ Poised c (k ())) ∧ Respects (k ())
  | .act (.isSuspended c) k => ¬ Poised c (k false) ∧ ∀ r, Respects (k r)
  | .act (.isTerminating c) k => ¬ Poised c (k true) ∧ ∀ r, Respects (k r)
  | .act (.get id) k =>
    (∀ gen c, Poised c (k (some gen)) → c = ⟨id, gen⟩ ∨ Poised c (k none)) ∧ ∀ r, Respects (k r)
  | .act _ k => ∀ r, Respects (k r)

/-- What must hold of a step: a connection is terminated only when no other goroutine is
poised on it, and a lookup that makes a goroutine poised on what it finds, as in the push
branch of a grant, does not find it terminating. -/
def Guarded (s : ServerPool) (e : Concurrent.Event Thread Op) (s' : ServerPool) : Prop :=
  match e with
  | .act t (.store c .terminating) => ∀ u, u ≠ t → ¬ Poised c (s.thread u)
  | .act t (.get id) => ∀ gen, s.shared.store.lookup id = some gen →
      Poised ⟨id, gen⟩ (s'.thread t) → (s.shared.conns ⟨id, gen⟩).state ≠ .terminating
  | _ => True

/-! ## Programs that look before they write -/

/-- The program is poised on no connection. -/
structure Calm (p : Go α) : Prop where
  respects : Respects p
  calm : ∀ c, ¬ Poised c p

/-- The program is poised on `c` at most. -/
structure Only (c : Ptr) (p : Go α) : Prop where
  respects : Respects p
  only : ∀ d, Poised d p → d = c

section Rules

variable {c d : Ptr} {p : Go α} {f : α → Go β}

theorem Calm.only (h : Calm p) (c : Ptr) : Only c p :=
  ⟨h.respects, fun d hd => absurd hd (h.calm d)⟩

theorem calm_ret (x : α) : Calm (.ret x : Go α) := ⟨trivial, fun _ h => h⟩

/-- A program is poised on what its first part is poised on, or its second. -/
theorem poised_bind (h : Poised c (p >>= f)) : Poised c p ∨ ∃ x, Poised c (f x) := by
  induction p with
  | ret x => exact Or.inr ⟨x, h⟩
  | act a k ih =>
    cases a with
    | store d st =>
      rcases h with h | ⟨hd, h⟩
      · exact Or.inl (Or.inl h)
      · exact (ih _ h).imp (fun h => Or.inr ⟨hd, h⟩) id
    | newRun d =>
      rcases h with h | h
      · exact Or.inl (Or.inl h)
      · exact (ih _ h).imp Or.inr id
    | isSuspended d | isTerminating d =>
      obtain ⟨hd, r, h⟩ := h
      exact (ih r h).imp (fun h => ⟨hd, r, h⟩) id
    | get id => exact ih _ h
    | _ =>
      obtain ⟨r, h⟩ := h
      exact (ih r h).imp (fun h => ⟨r, h⟩) id

theorem Poised.bind (h : Poised c p) : Poised c (p >>= f) := by
  induction p with
  | ret x => cases h
  | act a k ih =>
    cases a with
    | store d st => exact h.imp id fun h => ⟨h.1, ih _ h.2⟩
    | newRun d => exact h.imp id fun h => ih _ h
    | isSuspended d | isTerminating d =>
      obtain ⟨hd, r, h⟩ := h
      exact ⟨hd, r, ih r h⟩
    | get id => exact ih _ h
    | _ =>
      obtain ⟨r, h⟩ := h
      exact ⟨r, ih r h⟩

/-- Calm programs one after another. -/
theorem Calm.bind (hp : Calm p) (hf : ∀ x, Calm (f x)) : Calm (p >>= f) := by
  have hcalm : ∀ {q : Go α} {c : Ptr}, ¬ Poised c q → ¬ Poised c (q >>= f) := by
    intro q c hq h
    rcases poised_bind h with h | ⟨x, h⟩
    · exact hq h
    · exact (hf x).calm c h
  refine ⟨?_, fun c => hcalm (hp.calm c)⟩
  have hrespects := hp.respects
  clear hp
  induction p with
  | ret x => exact (hf x).respects
  | act a k ih =>
    cases a with
    | store d st => exact ⟨fun hst => hcalm (hrespects.1 hst), ih _ hrespects.2⟩
    | isSuspended d | isTerminating d => exact ⟨hcalm hrespects.1, fun r => ih r (hrespects.2 r)⟩
    | get id =>
      refine ⟨fun gen c h => ?_, fun r => ih r (hrespects.2 r)⟩
      rcases poised_bind h with h | ⟨x, h⟩
      · exact (hrespects.1 gen c h).imp_right Poised.bind
      · exact absurd h ((hf x).calm c)
    | _ => exact fun r => ih r (hrespects r)

/-- Accesses that neither write the state or the context of a connection nor look at it. -/
def Op.plain : Op → Bool
  | .store _ _ => false
  | .newRun _ => false
  | .isSuspended _ => false
  | .isTerminating _ => false
  | .get _ => false
  | _ => true

theorem Only.act {a : Op} {k : a.Result → Go α} (ha : a.plain = true) (hk : ∀ r, Only c (k r)) :
    Only c (.act a k) := by
  cases a with
  | store d st | newRun d | isSuspended d | isTerminating d | get id => cases ha
  | _ => exact ⟨fun r => (hk r).respects, fun d ⟨r, hd⟩ => (hk r).only d hd⟩

theorem Calm.act {a : Op} {k : a.Result → Go α} (ha : a.plain = true) (hk : ∀ r, Calm (k r)) :
    Calm (.act a k) := by
  cases a with
  | store d st | newRun d | isSuspended d | isTerminating d | get id => cases ha
  | _ => exact ⟨fun r => (hk r).respects, fun d ⟨r, hd⟩ => (hk r).calm d hd⟩

/-- A connection that was looked up may be suspended or resumed. -/
theorem Calm.get {id : String} {k : Option Nat → Go α} (hnone : Calm (k none))
    (hsome : ∀ gen, Only ⟨id, gen⟩ (k (some gen))) : Calm (.act (.get id) k) := by
  refine ⟨⟨fun gen d hd => Or.inl ((hsome gen).only d hd), ?_⟩, hnone.calm⟩
  rintro (_ | gen)
  · exact hnone.respects
  · exact (hsome gen).respects

/-- So may a connection that was found suspended. -/
theorem Calm.isSuspended {k : Bool → Go α} (htrue : Only c (k true)) (hfalse : Calm (k false)) :
    Calm (.act (.isSuspended c) k) := by
  refine ⟨⟨hfalse.calm c, ?_⟩, ?_⟩
  · rintro (_ | _)
    · exact hfalse.respects
    · exact htrue.respects
  · rintro d ⟨hd, r | r, hpoised⟩
    · exact hfalse.calm d hpoised
    · exact hd (htrue.only d hpoised).symm

/-- So may one that was found not terminating. -/
theorem Calm.isTerminating {k : Bool → Go α} (htrue : Calm (k true)) (hfalse : Only c (k false)) :
    Calm (.act (.isTerminating c) k) := by
  refine ⟨⟨htrue.calm c, ?_⟩, ?_⟩
  · rintro (_ | _)
    · exact hfalse.respects
    · exact htrue.respects
  · rintro d ⟨hd, r | r, hpoised⟩
    · exact hd (hfalse.only d hpoised).symm
    · exact htrue.calm d hpoised

/-- A connection may be terminated if what follows is not about it. -/
theorem Only.terminate (hk : Only c (k ())) (hd : d ≠ c) :
    Only c (.act (.store d .terminating) k) := by
  refine ⟨⟨fun _ h => hd (hk.only d h), hk.respects⟩, ?_⟩
  rintro e (⟨-, h⟩ | ⟨-, h⟩)
  · exact absurd rfl h
  · exact hk.only e h

theorem Calm.terminate (hk : Calm (k ())) : Calm (.act (.store d .terminating) k) := by
  refine ⟨⟨fun _ => hk.calm d, hk.respects⟩, ?_⟩
  rintro e (⟨-, h⟩ | ⟨-, h⟩)
  · exact absurd rfl h
  · exact hk.calm e h

/-- `Suspend` and `Resume` are about one connection. -/
theorem Only.store {k : Unit → Go α} (hst : st ≠ .terminating)
    (hk : Calm (k ())) : Only c (.act (.store c st) k) := by
  refine ⟨⟨fun h => absurd h hst, hk.respects⟩, ?_⟩
  rintro d (⟨h, -⟩ | ⟨-, h⟩)
  · exact h.symm
  · exact absurd h (hk.calm d)

theorem only_suspend {k : Unit → Go α} (hk : Calm (k ())) : Only c (suspend c >>= k) :=
  Only.store (by decide) (Calm.act rfl fun _ => Calm.act rfl fun _ => hk)

theorem only_resume {k : Unit → Go α} (hk : Calm (k ())) : Only c (resume c >>= k) := by
  have hstore : Only c (.act (.store c .running) fun _ => .act (.signal c) k) :=
    Only.store (by decide) (Calm.act rfl fun _ => hk)
  refine ⟨fun _ => hstore.respects, ?_⟩
  rintro d (h | h)
  · exact h.symm
  · exact hstore.only d h

theorem calm_break (c : Ptr) : Calm (break_ c) :=
  Calm.terminate (Calm.act rfl fun _ => Calm.act rfl fun _ => Calm.act rfl fun _ => calm_ret _)

end Rules

/-! ## Every handler looks before it writes -/

theorem calm_breakKeys (start : String) (keys : List String) : Calm (breakKeys start keys) := by
  induction keys with
  | nil => exact calm_ret 0
  | cons key keys ih =>
    unfold breakKeys
    split
    · refine Calm.get ih fun gen => ?_
      exact ((calm_break ⟨key, gen⟩).bind fun _ => ih.bind fun _ => calm_ret _).only _
    · exact ih

theorem calm_breakByThread (threadID : String) : Calm (breakByThread threadID) := by
  unfold breakByThread
  split
  · exact calm_ret 0
  · exact Calm.act rfl fun keys => calm_breakKeys _ keys

theorem calm_suspendForAgent (r : BotControlReleased) : Calm (suspendForAgent r) := by
  unfold suspendForAgent
  split
  · exact calm_ret ()
  · refine Calm.get (calm_ret ()) fun gen => Calm.only (Calm.isSuspended ?_ ?_) _
    · exact (calm_ret ()).only _
    · refine Calm.isTerminating (calm_ret ()) (Only.act rfl ?_)
      rintro (_ | _)
      · exact only_suspend (calm_ret ())
      · exact (calm_ret ()).only _

theorem calm_handleBotControlReleased (r : BotControlReleased) :
    Calm (handleBotControlReleased r) := by
  unfold handleBotControlReleased
  split
  · exact calm_suspendForAgent r
  · split
    · exact calm_ret ()
    · exact (calm_breakByThread _).bind fun _ => Calm.act rfl fun _ => calm_ret ()

theorem calm_startDialog (id : String) (bot : Endpoint) (nested : Bool) :
    Calm (startDialog id bot nested) := by
  refine Calm.get (Calm.act rfl ?_) fun gen => (calm_ret _).only _
  rintro (e | _ | seq)
  · exact calm_ret _
  · exact calm_ret _
  · exact Calm.act rfl fun _ => Calm.act rfl fun _ => calm_ret _

theorem calm_resolveCustomerPeer (m : BotControlGranted) (bot : Endpoint) :
    Calm (resolveCustomerPeer m bot) := by
  refine Calm.act rfl ?_
  rintro (e | _ | ⟨members, _⟩) <;> exact calm_ret _

theorem calm_adoptPush (id releasedID : String) : Calm (adoptPush id releasedID) := by
  have hlink : Calm (access (.storeParent id releasedID)) := Calm.act rfl fun _ => calm_ret ()
  refine Calm.get (calm_ret ()) fun gen => Calm.only (Calm.isSuspended ?_ ?_) _
  · exact hlink.only _
  · exact Calm.isTerminating hlink (only_suspend hlink)

section

variable (m : BotControlGranted)
include m

theorem calm_grantActive (c : Ptr) : Calm (grantActive m c) := by
  unfold grantActive
  split
  · exact calm_adoptPush _ _
  · exact calm_ret ()

/-- The pop branch is about the granted connection only: the one it breaks is another. -/
theorem only_pop (hc : m.releasedSessionID ≠ c.id) : Only c (pop m c) := by
  have hresume : Only c (resume c) := only_resume (calm_ret ())
  have hpoised : Poised c (resume c) := Or.inl rfl
  unfold pop
  split
  · have hbreak : ∀ gen, Only c (do break_ ⟨m.releasedSessionID, gen⟩; resume c) := by
      intro gen
      refine Only.terminate ?_ fun h => hc (congrArg Ptr.id h)
      exact Only.act rfl fun _ => Only.act rfl fun _ => Only.act rfl fun _ => hresume
    refine ⟨⟨fun gen d hd => Or.inr ((hbreak gen).only d hd ▸ hpoised), ?_⟩, hresume.only⟩
    rintro (_ | gen)
    · exact hresume.respects
    · exact (hbreak gen).respects
  · exact hresume

theorem calm_grantStored {c : Ptr} (hc : m.releasedSessionID ≠ c.id) : Calm (grantStored m c) := by
  refine Calm.isSuspended (only_pop m hc) ?_
  show Calm (if m.reason = .agentHandback then _ else _)
  split
  · refine Calm.act rfl ?_
    rintro (_ | _)
    · exact calm_grantActive m c
    · exact calm_ret ()
  · exact calm_grantActive m c

theorem calm_startGranted : Calm (startGranted m) := by
  refine (calm_resolveCustomerPeer m m.bot).bind ?_
  rintro (e | peer)
  · exact calm_ret _
  · show Calm (if peer.sub = "" then _ else _)
    split
    · exact calm_ret _
    · exact calm_startDialog _ _ _

theorem calm_push : Calm (push m) := by
  unfold push
  split
  · refine Calm.get (calm_startGranted m) fun gen => ?_
    exact only_suspend (Calm.act rfl fun _ => calm_startGranted m)
  · exact calm_startGranted m

theorem calm_handleBotControlGranted : Calm (handleBotControlGranted m) := by
  refine Calm.get ?_ fun gen => Calm.only ?_ _
  · show Calm (if m.reason = .initial then _ else if _ then _ else _)
    split
    · exact calm_ret _
    · split
      · exact calm_ret _
      · exact calm_push m
  · exact (calm_grantStored m m.releasedSessionID_ne).bind fun _ => calm_ret _

end

theorem calm_nodeReceivers (m : Message) (endpoints : List Endpoint) :
    Calm (nodeReceivers m endpoints) := by
  induction endpoints with
  | nil => exact calm_ret _
  | cons endpoint endpoints ih =>
    unfold nodeReceivers
    split
    · exact ih
    · refine Calm.get ?_ fun gen => (Calm.act rfl fun _ => ih).only _
      show Calm (if m.isSystem = true then _ else _)
      split
      · exact ih
      · refine (calm_startDialog _ _ _).bind ?_
        rintro (e | ⟨⟩)
        · exact calm_ret _
        · exact ih

theorem calm_nodeMessage (m : Message) : Calm (nodeMessage m) := by
  unfold nodeMessage
  split
  · exact calm_ret _
  · exact calm_nodeReceivers m _

theorem calm_listen (e : Event) : Calm (listen e) := by
  unfold listen
  split
  · exact (calm_handleBotControlGranted _).bind fun _ => calm_ret ()
  · exact calm_handleBotControlReleased _
  · split
    · exact calm_ret ()
    · exact (calm_nodeMessage _).bind fun _ => calm_ret ()

theorem calm_resumeParentOf (id : String) : Calm (resumeParentOf id) := by
  refine Calm.act rfl ?_
  rintro (_ | parentID)
  · exact calm_ret ()
  · show Calm (if parentID = "" then _ else _)
    split
    · exact calm_ret ()
    · refine Calm.get (calm_ret ()) fun gen => Calm.only (Calm.isSuspended ?_ (calm_ret ())) _
      exact only_resume (calm_ret ())

theorem calm_stop (c : Ptr) : Calm (stop c) := by
  refine (calm_break c).bind fun _ => ?_
  exact Calm.act rfl fun _ => Calm.act rfl fun _ => Calm.act rfl fun _ => calm_ret _

theorem calm_finish (c : Ptr) : Calm (finish c) := by
  have hend : Calm (do resumeParentOf c.id; access (.disconnected c); stop c) :=
    (calm_resumeParentOf c.id).bind fun _ => Calm.act rfl fun _ => calm_stop c
  refine Calm.act rfl fun id => ?_
  show Calm (if id ≠ "" then _ else _)
  split
  · exact Calm.act rfl fun _ => hend
  · exact hend

theorem calm_park (c : Ptr) : Calm (park c) := by
  refine Calm.isSuspended (Calm.only (Calm.isTerminating (calm_stop c) ?_) _) ?_
  · refine Only.act rfl ?_
    rintro (_ | _)
    · exact (calm_stop c).only c
    · refine Calm.only (Calm.act rfl fun _ => Calm.act rfl fun ctx => ?_) c
      exact Calm.act rfl fun _ => calm_ret _
  · exact Calm.isTerminating (calm_stop c) ((calm_finish c).only c)

theorem calm_handle (c : Ptr) : Calm (handle c) := by
  refine Calm.act rfl fun _ => Calm.act rfl fun ctx => Calm.act rfl ?_
  rintro (_ | schema)
  · exact calm_stop c
  · exact Calm.act rfl fun _ => Calm.act rfl fun _ => calm_ret _

/-! ## Guarded runs -/

section Exec

variable {E : Type} {w : Outside E} {s m : Server} {a : Op} {r : a.Result} {c : Ptr}

/-- Nothing but a `Store` makes a connection terminating. -/
theorem exec_not_terminating (h : exec w a s = some (r, m))
    (hlive : (s.conns c).state ≠ .terminating) (hnot : a ≠ .store c .terminating) :
    (m.conns c).state ≠ .terminating := by
  rcases exec_conns h c with ⟨hstate, -⟩ | ⟨st, rfl⟩ | rfl | ⟨bot, nested, rfl, hgen⟩
  · rwa [hstate]
  · cases h
    rw [Server.modify_self]
    rintro rfl
    exact hnot rfl
  · cases h
    simpa [Server.newRun] using hlive
  · cases h
    have hc : c = ⟨c.id, s.made⟩ := by rw [← hgen]
    rw [hc]
    simp [Server.dial]

/-- A goroutine that is poised on a connection after an access was so before, or has just
found the connection not terminating or written that into it, or has just looked it up. -/
theorem poised_of_exec (h : exec w a s = some (r, m)) (hrespects : Respects (.act a k))
    (hpoised : Poised c (k r)) :
    Poised c (.act a k) ∨ (m.conns c).state ≠ .terminating ∨
      (a = .get c.id ∧ s.store.lookup c.id = some c.gen) := by
  cases a with
  | store d st =>
    by_cases hd : d = c
    · subst hd
      cases h
      rw [Server.modify_self]
      exact Or.inr (Or.inl fun hst => hrespects.1 hst hpoised)
    · exact Or.inl (Or.inr ⟨hd, hpoised⟩)
  | newRun d => exact Or.inl (Or.inr hpoised)
  | isSuspended d | isTerminating d =>
    by_cases hd : d = c
    · subst hd
      cases h
      refine Or.inr (Or.inl fun hterm => hrespects.1 ?_)
      simpa [hterm] using hpoised
    · exact Or.inl ⟨hd, r, hpoised⟩
  | get id =>
    cases h
    cases hfound : s.store.lookup id with
    | none =>
      rw [hfound] at hpoised
      exact Or.inl hpoised
    | some gen =>
      rw [hfound] at hpoised
      rcases hrespects.1 gen c hpoised with rfl | hnone
      · exact Or.inr (Or.inr ⟨rfl, hfound⟩)
      · exact Or.inl hnone
  | _ => exact Or.inl ⟨r, hpoised⟩

/-- What a program that heeds what it finds does next heeds it too. -/
theorem Respects.act {k : a.Result → Go α} (h : Respects (.act a k)) (r : a.Result) :
    Respects (k r) := by
  cases a with
  | store d st => exact h.2
  | isSuspended d | isTerminating d => exact h.2 r
  | get id => exact h.2 r
  | _ => exact h r

end Exec

/-- Every goroutine heeds what it finds, and is poised only on connections that are not
terminating. -/
structure Heedful (s : ServerPool) : Prop where
  respects : ∀ t, Respects (s.thread t)
  live : ∀ t c, Poised c (s.thread t) → (s.shared.conns c).state ≠ .terminating

section Runs

variable {E : Type} {s s' : ServerPool} {e : Concurrent.Event Thread Op} {c : Ptr}

theorem heedful_atStart (m : Server) : Heedful (atStart m) := by
  have hcalm : ∀ t, Calm ((atStart m).thread t) := by
    rintro (_ | c)
    · exact calm_ret _
    · exact calm_handle c
  exact ⟨fun t => (hcalm t).respects, fun t c h => absurd h ((hcalm t).calm c)⟩

/-- The code behind a label is calm. -/
theorem calm_code (h : (dialogs E).code w l = some p) : Calm p := by
  cases l with
  | listen =>
    cases h
    exact (calm_listen w.event).bind fun _ => calm_ret _
  | park c =>
    cases h
    exact calm_park c
  | exit => cases h

/-- Guarded steps keep every goroutine heedful. -/
theorem Heedful.step (h : Heedful s) (hstep : Step (dialogs E) s e s') (hguard : Guarded s e s') :
    Heedful s' := by
  cases hstep with
  | @act t a k w r m ht hexec =>
    have hrespects : Respects (.act a k) := ht ▸ h.respects t
    refine ⟨fun u => ?_, fun u c hpoised => ?_⟩
    · exact s.forall_set Function.injective_id (hrespects.act r) (fun u _ => h.respects u) u
    · by_cases hu : u = t
      · subst hu
        have hafter := hpoised
        rw [Pool.set_thread_self] at hafter
        rcases poised_of_exec hexec hrespects hafter with hbefore | hlive | ⟨rfl, hfound⟩
        · refine exec_not_terminating hexec (h.live u c (ht ▸ hbefore)) ?_
          rintro rfl
          exact hrespects.1 rfl hafter
        · exact hlive
        · cases hexec
          exact hguard c.gen hfound hpoised
      · rw [Pool.set_thread_of_ne _ hu] at hpoised
        refine exec_not_terminating hexec (h.live u c hpoised) ?_
        rintro rfl
        exact hguard u hu hpoised
  | @next t l w p ht hcode =>
    have hp := calm_code hcode
    refine ⟨fun u => ?_, fun u c hpoised => ?_⟩
    · exact s.forall_set Function.injective_id hp.respects (fun u _ => h.respects u) u
    · by_cases hu : u = t
      · subst hu
        rw [Pool.set_thread_self] at hpoised
        exact absurd hpoised (hp.calm c)
      · rw [Pool.set_thread_of_ne _ hu] at hpoised
        exact h.live u c hpoised
  | env henv =>
    refine ⟨h.respects, fun u c hpoised => ?_⟩
    rw [(Env.conns henv c).1]
    exact h.live u c hpoised

/-- A goroutine that is not poised on `c` leaves its state word and its run context alone. -/
theorem terminating_step (h : Heedful s) (hstep : Step (dialogs E) s e s')
    (hmade : c.gen < s.shared.made) (hterm : (s.shared.conns c).state = .terminating) :
    c.gen < s'.shared.made ∧ (s'.shared.conns c).state = .terminating ∧
      (s'.shared.conns c).runCtx = (s.shared.conns c).runCtx := by
  cases hstep with
  | @act t a k w r m ht hexec =>
    have hcalm : ¬ Poised c (.act a k) := fun hpoised => h.live t c (ht ▸ hpoised) hterm
    refine ⟨lt_of_lt_of_le hmade (exec_made hexec), ?_⟩
    rcases exec_conns hexec c with ⟨hstate, hctx⟩ | ⟨st, rfl⟩ | rfl | ⟨bot, nested, rfl, hgen⟩
    · exact ⟨hstate.trans hterm, hctx⟩
    · cases hexec
      have hst : st = .terminating := by
        by_contra hst
        exact hcalm (Or.inl ⟨rfl, hst⟩)
      rw [Pool.set_shared, Server.modify_self]
      exact ⟨hst, rfl⟩
    · exact absurd (Or.inl rfl) hcalm
    · omega
  | next => exact ⟨hmade, hterm, rfl⟩
  | env henv =>
    obtain ⟨hstate, hctx⟩ := Env.conns henv c
    exact ⟨(Env.made henv).symm ▸ hmade, hstate.trans hterm, hctx⟩

end Runs

/-- In a guarded run, a connection that has become terminating stays so, and its run context
is not replaced. -/
theorem terminating_absorbing {E : Type} {m : Server} {ok₁ ok₂ : Prop} {s₁ s₂ : ServerPool}
    (h₁ : Trace.Steps (Step (dialogs E)) Guarded (atStart m) ok₁ s₁)
    (h₂ : Trace.Steps (Step (dialogs E)) Guarded s₁ ok₂ s₂) (hok₁ : ok₁) (hok₂ : ok₂) {c : Ptr}
    (hmade : c.gen < s₁.shared.made) (hterm : (s₁.shared.conns c).state = .terminating) :
    (s₂.shared.conns c).state = .terminating ∧
      (s₂.shared.conns c).runCtx = (s₁.shared.conns c).runCtx := by
  have hheed : Heedful s₁ := h₁.invariant (heedful_atStart m) Heedful.step hok₁
  let Ended (s : ServerPool) : Prop := Heedful s ∧ c.gen < s.shared.made ∧
    (s.shared.conns c).state = .terminating ∧
      (s.shared.conns c).runCtx = (s₁.shared.conns c).runCtx
  have hended : Ended s₂ := by
    refine h₂.invariant ⟨hheed, hmade, hterm, rfl⟩ ?_ hok₂
    rintro s e s' ⟨hs, hgen, hstate, hctx⟩ hstep hguard
    obtain ⟨hgen', hstate', hctx'⟩ := terminating_step hs hstep hgen hstate
    exact ⟨hs.step hstep hguard, hgen', hstate', hctx'.trans hctx⟩
  exact hended.2.2

/-- Bot 1 has been started, and the client has left the thread. -/
def left : Server :=
  let events : Go Unit := do
    listen (.message hello)
    listen (.released ⟨"t", 1, .clientLeave⟩)
  ((events.run (exec helpful) Server.init).map (·.2)).getD Server.init

/-- A goroutine that finds a connection looks at its state next, and none is terminated. -/
def looksFirst (s : ServerPool) (e : Concurrent.Event Thread Op) (s' : ServerPool) : Bool :=
  match e with
  | .act _ (.store _ .terminating) => false
  | .act t (.get id) =>
    match s'.thread t with
    | .act (.isSuspended d) _ => decide (s.shared.store.lookup id = some d.gen ∧ d.id = id)
    | _ => false
  | _ => true

theorem guarded_of_looksFirst (s : ServerPool) (e : Concurrent.Event Thread Op) (s' : ServerPool)
    (h : looksFirst s e s' = true) : Guarded s e s' := by
  unfold looksFirst at h
  unfold Guarded
  split
  · cases h
  · intro gen hstored hpoised
    dsimp only at h
    split at h
    · rename_i d _ hthread
      obtain ⟨hgen, rfl⟩ := of_decide_eq_true h
      cases hgen.symm.trans hstored
      rw [hthread] at hpoised
      exact absurd rfl hpoised.1
    · cases h
  · trivial

/-- The goroutine of the dialog starts only then, and the listener handles a takeover. -/
def takeover : List (Thread × Outside Unit) :=
  (.runner ⟨"t.1", 0⟩, helpful) :: List.replicate 4
    (.listener, { helpful with event := .released ⟨"t", 1, .agentTakeover⟩ })

/-- The connection stays terminating. -/
theorem terminating_absorbing_left :
    ∃ s, Trace.play (fun s mv => Pool.move (dialogs Unit) s mv.1 mv.2) takeover (atStart left) =
        some s ∧
      (left.conns ⟨"t.1", 0⟩).state = .terminating ∧
      (s.shared.conns ⟨"t.1", 0⟩).state = .terminating ∧
      (s.shared.conns ⟨"t.1", 0⟩).runCtx = (left.conns ⟨"t.1", 0⟩).runCtx := by
  obtain ⟨s, hs, -, ok, hsteps, hok⟩ := Pool.reaches (dialogs Unit) guarded_of_looksFirst takeover
    (atStart left) (fun s => s.shared.consume = []) (by decide +kernel)
  have hmade : (⟨"t.1", 0⟩ : Ptr).gen < (atStart left).shared.made := by decide +kernel
  have hterm : ((atStart left).shared.conns ⟨"t.1", 0⟩).state = .terminating := by decide +kernel
  exact ⟨s, hs, hterm, terminating_absorbing .refl hsteps trivial hok hmade hterm⟩

/-- The listener handles the message and the end of the thread. -/
def leaving : List (Thread × Outside Unit) :=
  List.replicate 6 (.listener, { helpful with event := .message hello }) ++
    List.replicate 8 (.listener, { helpful with event := .released ⟨"t", 1, .clientLeave⟩ })

/-- The listener handles a transfer from bot 1 to bot 2. -/
def transferring : List (Thread × Outside Unit) :=
  List.replicate 6
    (.listener, { helpful with event := .granted ⟨"t", "", 1, 2, .other "transfer"⟩ })

/-- The connection of bot 1 is still stored, and the transfer suspends it. -/
theorem terminating_absorbing_transferring :
    ∃ ok₁ s₁ ok₂ s₂,
      Trace.Steps (Step (dialogs Unit)) Guarded (atStart Server.init) ok₁ s₁ ∧
      Trace.Steps (Step (dialogs Unit)) Guarded s₁ ok₂ s₂ ∧
      (s₁.shared.conns ⟨"t.1", 0⟩).state = .terminating ∧
      (s₂.shared.conns ⟨"t.1", 0⟩).state = .suspended := by
  obtain ⟨s₁, hs₁, hstate₁, ok₁, hsteps₁⟩ := Trace.reaches (Pool.moves_step (dialogs Unit)) Guarded
    leaving (atStart Server.init) (fun s => (s.shared.conns ⟨"t.1", 0⟩).state = .terminating)
    (by decide +kernel)
  obtain ⟨s₂, hs₂, hstate₂, -⟩ := Trace.reaches (Pool.moves_step (dialogs Unit)) Guarded
    (leaving ++ transferring) (atStart Server.init)
    (fun s => (s.shared.conns ⟨"t.1", 0⟩).state = .suspended) (by decide +kernel)
  rw [Trace.play_append, hs₁] at hs₂
  obtain ⟨ok₂, hsteps₂⟩ := Trace.play_steps (Pool.moves_step (dialogs Unit)) .refl hs₂
  exact ⟨ok₁, s₁, ok₂, s₂, hsteps₁, hsteps₂, hstate₁, hstate₂⟩

end FlowManager.Im
