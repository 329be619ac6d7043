import FlowManager.Im.LocalPop

/-!
# What a grant does

A grant is read as a push, a pop, the end of a wait in a queue or an adoption from what the
node holds when it comes. `Granted` lists the outcomes of a grant that is handled with
nothing else going on, each with the state it leads to.

- `run_handleBotControlGranted_iff`: these are the outcomes of the handler.
- `regrant_same_iff`: when a second handling of the same grant changes nothing.
- `failed_grant_kept_iff`: when a grant that fails changes nothing.
-/

namespace FlowManager.Im

open Concurrent Function

/-! ## Outcomes -/

/-- What `Break` does when nothing else happens. -/
def Server.break_ (s : Server) (c : Ptr) : Server :=
  { s.modify c fun conn => { conn with state := .terminating } with
    chans := (s.chans.close (s.conns c).runCtx).close (s.conns c).ctx }

/-- What the pop branch does when nothing else happens. -/
def Server.pop (s : Server) (m : BotControlGranted) (c : Ptr) : Server :=
  if m.releasedSessionID ≠ "" then
    match s.store.lookup m.releasedSessionID with
    | some gen => (s.break_ ⟨m.releasedSessionID, gen⟩).resume c
    | none => s.resume c
  else s.resume c

/-- What the push branch does to the released bot. -/
def Server.pushSource (s : Server) (m : BotControlGranted) : Server :=
  if m.releasedSessionID ≠ "" then
    match s.store.lookup m.releasedSessionID with
    | some gen =>
      let s' := s.suspend ⟨m.releasedSessionID, gen⟩
      { s' with pushParent :=
          s'.pushParent.insert (sessionID m.threadID m.sub) m.releasedSessionID }
    | none => s
  else s

/-- A dialog is started for the granted bot. -/
def Server.start (s : Server) (m : BotControlGranted) : Server :=
  let s' := s.dial (sessionID m.threadID m.sub) m.bot (decide (m.releasedSessionID ≠ ""))
  { s' with consume := s'.consume ++ [⟨sessionID m.threadID m.sub, s.made⟩] }

/-- What the other services say to a push: the session is claimed for a thread that has a
customer, or it is another node's, or something is wrong. -/
def Outside.claim {E : Type} (w : Outside E) (m : BotControlGranted) : Except String (Option Nat) :=
  match w.search m.threadID with
  | .error e => .error ("searching thread " ++ m.threadID ++ ": " ++ e)
  | .ok [] => .error ("thread " ++ m.threadID ++ " not found")
  | .ok (members :: _) =>
    if (selectCustomerPeer members m.bot.sub).sub = "" then
      .error ("bot control granted: no customer peer resolved for thread " ++ m.threadID)
    else w.touch (sessionID m.threadID m.sub)

/-- The grant is a push if no connection is stored for it: some reasons start nothing. -/
def BotControlGranted.Pushes (m : BotControlGranted) : Prop :=
  m.reason ≠ .initial ∧ m.reason ≠ .agentHandback ∧ m.reason ≠ .agentLeft

/-- The outcomes of a grant that is handled with nothing else going on. -/
inductive Granted {E : Type} (w : Outside E) (s : Server) (m : BotControlGranted) :
    Except String Unit → Server → Prop where
  | popped (hstored : s.store.lookup (sessionID m.threadID m.sub) = some gen)
      (hstate : (s.conns ⟨sessionID m.threadID m.sub, gen⟩).state = .suspended) :
      Granted w s m (.ok ()) (s.pop m ⟨sessionID m.threadID m.sub, gen⟩)
  | returned (hstored : s.store.lookup (sessionID m.threadID m.sub) = some gen)
      (hstate : (s.conns ⟨sessionID m.threadID m.sub, gen⟩).state ≠ .suspended)
      (hreason : m.reason = .agentHandback)
      (hqueue : (s.conns ⟨sessionID m.threadID m.sub, gen⟩).queueReturn = some n) :
      Granted w s m (.ok ()) (s.returnFromQueue ⟨sessionID m.threadID m.sub, gen⟩ n)
  | active (hstored : s.store.lookup (sessionID m.threadID m.sub) = some gen)
      (hstate : (s.conns ⟨sessionID m.threadID m.sub, gen⟩).state ≠ .suspended)
      (hnot : m.reason = .agentHandback →
        (s.conns ⟨sessionID m.threadID m.sub, gen⟩).queueReturn = none) :
      Granted w s m (.ok ()) (s.grantActive m (sessionID m.threadID m.sub))
  | ignored (hstored : s.store.lookup (sessionID m.threadID m.sub) = none)
      (hreason : ¬ m.Pushes) : Granted w s m (.ok ()) s
  | failed (hstored : s.store.lookup (sessionID m.threadID m.sub) = none) (hreason : m.Pushes)
      (hclaim : w.claim m = .error e) : Granted w s m (.error e) (s.pushSource m)
  | claimed (hstored : s.store.lookup (sessionID m.threadID m.sub) = none)
      (hreason : m.Pushes) (hclaim : w.claim m = .ok none) :
      Granted w s m (.ok ()) (s.pushSource m)
  | started (hstored : s.store.lookup (sessionID m.threadID m.sub) = none) (hreason : m.Pushes)
      (hclaim : w.claim m = .ok (some n)) (hroom : s.consume.length < consumeSize) :
      Granted w s m (.ok ()) ((s.pushSource m).start m)

section Outcomes

variable {E : Type} (w : Outside E) (s : Server) (m : BotControlGranted)

theorem run_break (c : Ptr) : (break_ c).run (exec w) s = some ((), s.break_ c) := by
  simp [Im.break_, Server.break_, Prog.run, exec, Server.modify]

theorem run_pop (c : Ptr) : (pop m c).run (exec w) s = some ((), s.pop m c) := by
  unfold pop Server.pop
  split
  · rw [run_bind, run_get]
    cases s.store.lookup m.releasedSessionID with
    | none => exact run_resume w s c
    | some gen => simp [run_bind, run_break, run_resume]
  · exact run_resume w s c

@[simp]
theorem pushSource_store : (s.pushSource m).store = s.store := by
  unfold Server.pushSource
  split
  · split <;> rfl
  · rfl

@[simp]
theorem pushSource_consume : (s.pushSource m).consume = s.consume := by
  unfold Server.pushSource
  split
  · split <;> rfl
  · rfl

theorem pushSource_made : (s.pushSource m).made = s.made := by
  unfold Server.pushSource
  split
  · split <;> rfl
  · rfl

/-- What `startDialog` does for a session that is not held, when nothing else happens. -/
theorem run_startDialog {id : String} (bot : Endpoint) (nested : Bool)
    (hstored : s.store.lookup id = none) :
    (startDialog id bot nested).run (exec w) s =
      match w.touch id with
      | .error e => some (.error e, s)
      | .ok none => some (.ok (), s)
      | .ok (some _) =>
        if s.consume.length < consumeSize then
          some (.ok (), { s.dial id bot nested with consume := s.consume ++ [⟨id, s.made⟩] })
        else none := by
  simp only [startDialog, run_bind, run_get, hstored, Option.map_none, Option.bind_some]
  cases htouch : w.touch id with
  | error e => simp [Prog.run, exec, htouch]
  | ok owner =>
    cases owner with
    | none => simp [Prog.run, exec, htouch]
    | some n =>
      by_cases hroom : s.consume.length < consumeSize
      · simp [Prog.run, exec, htouch, Server.dial, hroom]
      · simp [Prog.run, exec, htouch, Server.dial, hroom]

/-- The end of a push: what the services say decides. -/
theorem run_startGranted (hstored : s.store.lookup (sessionID m.threadID m.sub) = none) :
    (startGranted m).run (exec w) s =
      match w.claim m with
      | .error e => some (.error e, s)
      | .ok none => some (.ok (), s)
      | .ok (some _) =>
        if s.consume.length < consumeSize then some (.ok (), s.start m) else none := by
  unfold startGranted resolveCustomerPeer Outside.claim
  simp only [run_bind, run_call, exec, Option.bind_some]
  cases w.search m.threadID with
  | error e => rfl
  | ok threads =>
    cases threads with
    | nil => rfl
    | cons members rest =>
      by_cases hpeer : (selectCustomerPeer members m.bot.sub).sub = ""
      · simp [hpeer]
      · simp only [pure_eq, run_ret, Option.bind_some, if_neg hpeer]
        exact run_startDialog w s _ _ hstored

/-- A push suspends its source, and then depends on the services. -/
theorem run_push : (push m).run (exec w) s = (startGranted m).run (exec w) (s.pushSource m) := by
  unfold push Server.pushSource
  split
  · rw [run_bind, run_get]
    cases s.store.lookup m.releasedSessionID with
    | none => rfl
    | some gen =>
      simp only [Option.map_some, Option.bind_some, run_bind, run_suspend, run_call, exec]
  · rfl

variable {w s m} {r : Except String Unit} {s' : Server}

/-- A grant for which no connection is stored, and whose reason starts a schema. -/
theorem run_granted_push (hstored : s.store.lookup (sessionID m.threadID m.sub) = none)
    (hreason : m.Pushes) :
    (handleBotControlGranted m).run (exec w) s =
      (startGranted m).run (exec w) (s.pushSource m) := by
  obtain ⟨hinitial, hhandback, hleft⟩ := hreason
  simp only [handleBotControlGranted, run_bind, run_get, hstored, Option.map_none, Option.bind_some,
    if_neg hinitial, if_neg (not_or.mpr ⟨hhandback, hleft⟩)]
  exact run_push w s m

theorem Granted.run (h : Granted w s m r s') :
    (handleBotControlGranted m).run (exec w) s = some (r, s') := by
  cases h with
  | popped hstored hstate =>
    simp [handleBotControlGranted, grantStored, Prog.run, run_bind, run_get, hstored, exec, hstate,
      run_pop]
  | returned hstored hstate hreason hqueue =>
    simp [handleBotControlGranted, grantStored, Prog.run, run_bind, run_get, hstored, exec, hstate,
      hreason, hqueue]
  | active hstored hstate hnot =>
    by_cases hreason : m.reason = .agentHandback
    · simp [handleBotControlGranted, grantStored, Prog.run, run_bind, run_get, hstored, exec,
        hstate, hreason, hnot hreason, run_grantActive]
    · simp [handleBotControlGranted, grantStored, Prog.run, run_bind, run_get, hstored, exec,
        hstate, hreason, run_grantActive]
  | ignored hstored hreason =>
    simp only [handleBotControlGranted, run_bind, run_get, hstored, Option.map_none,
      Option.bind_some]
    by_cases hinitial : m.reason = .initial
    · rw [if_pos hinitial]
      rfl
    · have hother : m.reason = .agentHandback ∨ m.reason = .agentLeft := by
        by_contra hnot
        exact hreason ⟨hinitial, not_or.mp hnot⟩
      rw [if_neg hinitial, if_pos hother]
      rfl
  | failed hstored hreason hclaim | claimed hstored hreason hclaim =>
    rw [run_granted_push hstored hreason, run_startGranted _ _ _ (by rwa [pushSource_store]),
      hclaim]
  | started hstored hreason hclaim hroom =>
    rw [run_granted_push hstored hreason, run_startGranted _ _ _ (by rwa [pushSource_store]),
      hclaim]
    simp [hroom]

/-- The handler has an outcome, unless it waits for room in `consume`. -/
theorem granted_or_waits (w : Outside E) (s : Server) (m : BotControlGranted) :
    (∃ r s', Granted w s m r s') ∨ (handleBotControlGranted m).run (exec w) s = none := by
  cases hstored : s.store.lookup (sessionID m.threadID m.sub) with
  | some gen =>
    left
    by_cases hstate : (s.conns ⟨sessionID m.threadID m.sub, gen⟩).state = .suspended
    · exact ⟨_, _, .popped hstored hstate⟩
    · cases hqueue : (s.conns ⟨sessionID m.threadID m.sub, gen⟩).queueReturn with
      | none => exact ⟨_, _, .active hstored hstate fun _ => hqueue⟩
      | some n =>
        by_cases hreason : m.reason = .agentHandback
        · exact ⟨_, _, .returned hstored hstate hreason hqueue⟩
        · exact ⟨_, _, .active hstored hstate fun h => absurd h hreason⟩
  | none =>
    by_cases hreason : m.Pushes
    · cases hclaim : w.claim m with
      | error e => exact Or.inl ⟨_, _, .failed hstored hreason hclaim⟩
      | ok owner =>
        cases owner with
        | none => exact Or.inl ⟨_, _, .claimed hstored hreason hclaim⟩
        | some n =>
          by_cases hroom : s.consume.length < consumeSize
          · exact Or.inl ⟨_, _, .started hstored hreason hclaim hroom⟩
          · right
            rw [run_granted_push hstored hreason,
              run_startGranted _ _ _ (by rwa [pushSource_store]), hclaim]
            simp [hroom]
    · exact Or.inl ⟨_, _, .ignored hstored hreason⟩

/-- The outcomes are those of the handler, and it has no others. -/
theorem run_handleBotControlGranted_iff :
    (handleBotControlGranted m).run (exec w) s = some (r, s') ↔ Granted w s m r s' := by
  refine ⟨fun h => ?_, Granted.run⟩
  rcases granted_or_waits w s m with ⟨r₁, s₁, hgranted⟩ | hwaits
  · cases hgranted.run.symm.trans h
    exact hgranted
  · rw [hwaits] at h
    cases h

end Outcomes

/-! ## The same grant again -/

/-- The run context of the connection has been made, and not been cancelled. -/
def Server.Live (s : Server) (c : Ptr) : Prop :=
  (s.conns c).runCtx < s.chans.next ∧ ¬ s.chans.Closed (s.conns c).runCtx

/-- The links are the same in both, and the state, the run context and the token of every
connection; and no dialog has been started in between. A run context is not cancelled, as
long as it is not confused with the channel of a queue, which a grant may close. -/
structure Same (s s' : Server) : Prop extends Untouched s s' where
  contexts : ∀ c, (s'.conns c).runCtx = (s.conns c).runCtx
  tokens : ∀ c, (s'.conns c).resumeCh = (s.conns c).resumeCh
  live : ∀ c, (∀ d, (s.conns d).queueReturn ≠ some (s.conns c).runCtx) → (s'.Live c ↔ s.Live c)
  dialogs : s'.made = s.made ∧ s'.store = s.store ∧ s'.consume = s.consume

/-- A push finds its source as it leaves it: not there, or linked and suspended, with its run
context cancelled. -/
def AlreadyPushed (s : Server) (m : BotControlGranted) : Prop :=
  m.releasedSessionID ≠ "" → ∀ gen, s.store.lookup m.releasedSessionID = some gen →
    s.pushParent.lookup (sessionID m.threadID m.sub) = some m.releasedSessionID ∧
    (s.conns ⟨m.releasedSessionID, gen⟩).state = .suspended ∧ ¬ s.Live ⟨m.releasedSessionID, gen⟩

/-- If the server holds both bots of the grant, the released one is linked as the parent of
the other by the time the first handling is through. A pop does not link it; it has to have
been before, unless the second handling only ends a wait in a queue. Nor does the end of such
a wait link it, and the released bot is not suspended. -/
def Repeatable (s : Server) (m : BotControlGranted) : Prop :=
  ∀ gen released, s.store.lookup (sessionID m.threadID m.sub) = some gen →
    m.releasedSessionID ≠ "" → s.store.lookup m.releasedSessionID = some released →
    let waits := m.reason = .agentHandback ∧
      (s.conns ⟨sessionID m.threadID m.sub, gen⟩).queueReturn ≠ none
    let linked := s.pushParent.lookup (sessionID m.threadID m.sub) = some m.releasedSessionID
    if (s.conns ⟨sessionID m.threadID m.sub, gen⟩).state = .suspended then waits ∨ linked
    else waits → linked ∧ (s.conns ⟨m.releasedSessionID, released⟩).state ≠ .running

section Again

variable {E : Type} {w : Outside E} {s s' : Server} {m : BotControlGranted}

theorem same_of_links {links : AList fun _ : String => String}
    (h : ∀ id, links.lookup id = s.pushParent.lookup id) :
    Same s { s with pushParent := links } where
  links := h
  states _ := rfl
  contexts _ := rfl
  tokens _ := rfl
  live _ _ := Iff.rfl
  dialogs := ⟨rfl, rfl, rfl⟩

/-- A link that is stored again. -/
theorem lookup_insert_again {links : AList fun _ : String => String} {id parent : String}
    (h : links.lookup id = some parent) (id' : String) :
    (links.insert id parent).lookup id' = links.lookup id' := by
  by_cases hid : id' = id
  · rw [hid, h]
    exact AList.lookup_insert _
  · exact AList.lookup_insert_ne hid

/-- A grant for an active connection changes nothing if the released bot is not stored, or
linked and no longer running. -/
theorem same_grantActive_iff (s : Server) (m : BotControlGranted) (id : String) :
    Same s (s.grantActive m id) ↔
      (m.releasedSessionID ≠ "" → ∀ released, s.store.lookup m.releasedSessionID = some released →
        s.pushParent.lookup id = some m.releasedSessionID ∧
          (s.conns ⟨m.releasedSessionID, released⟩).state ≠ .running) := by
  unfold Server.grantActive
  by_cases hnamed : m.releasedSessionID ≠ ""
  · rw [if_pos hnamed]
    constructor
    · intro h _ released hstored
      rcases (untouched_adoptPush_iff s id m.releasedSessionID).mp h.toUntouched with
        hnone | ⟨gen, hgen, hstate, hlink⟩
      · rw [hnone] at hstored
        cases hstored
      · cases hgen.symm.trans hstored
        exact ⟨hlink, hstate⟩
    · intro h
      unfold Server.adoptPush
      cases hstored : s.store.lookup m.releasedSessionID with
      | none => exact same_of_links fun _ => rfl
      | some released =>
        obtain ⟨hlink, hstate⟩ := h hnamed released hstored
        simp only [if_neg hstate]
        exact same_of_links (lookup_insert_again hlink)
  · rw [if_neg hnamed]
    exact iff_of_true (same_of_links fun _ => rfl) fun h => absurd h hnamed

/-- A pop lets the granted bot run, and terminates the released one. -/
structure PopSpec (s s' : Server) (m : BotControlGranted) (c : Ptr) : Prop where
  store : s'.store = s.store
  links : s'.pushParent = s.pushParent
  state : (s'.conns c).state = .running
  queue : (s'.conns c).queueReturn = (s.conns c).queueReturn
  released : m.releasedSessionID ≠ "" → ∀ gen, s.store.lookup m.releasedSessionID = some gen →
    (s'.conns ⟨m.releasedSessionID, gen⟩).state = .terminating

theorem pop_spec (hc : m.releasedSessionID ≠ c.id) : PopSpec s (s.pop m c) m c := by
  have hne : ∀ gen, (⟨m.releasedSessionID, gen⟩ : Ptr) ≠ c := fun gen h => hc (congrArg Ptr.id h)
  unfold Server.pop
  by_cases hnamed : m.releasedSessionID ≠ ""
  · rw [if_pos hnamed]
    cases hstored : s.store.lookup m.releasedSessionID with
    | none =>
      exact ⟨rfl, rfl, by simp [Server.resume], by simp [Server.resume],
        fun _ gen h => by cases hstored.symm.trans h⟩
    | some gen =>
      refine ⟨rfl, rfl, by simp [Server.resume], ?_, fun _ gen' h => ?_⟩
      · simp [Server.resume, Server.break_, Server.modify_of_ne _ (hne gen).symm]
      · cases hstored.symm.trans h
        simp [Server.resume, Server.modify_of_ne _ (hne gen), Server.break_]
  · rw [if_neg hnamed]
    exact ⟨rfl, rfl, by simp [Server.resume], by simp [Server.resume], fun h => absurd h hnamed⟩

/-- The end of a wait in a queue changes none of this. -/
theorem same_returnFromQueue (hqueue : (s.conns c).queueReturn = some n) :
    Same s (s.returnFromQueue c n) := by
  have hconn : ∀ d, ((s.returnFromQueue c n).conns d).state = (s.conns d).state ∧
      ((s.returnFromQueue c n).conns d).runCtx = (s.conns d).runCtx ∧
      ((s.returnFromQueue c n).conns d).resumeCh = (s.conns d).resumeCh := by
    intro d
    by_cases hd : d = c
    · subst hd
      simp [Server.returnFromQueue]
    · simp [Server.returnFromQueue, Server.modify_of_ne _ hd]
  refine ⟨⟨fun _ => rfl, fun d => (hconn d).1⟩, fun d => (hconn d).2.1, fun d => (hconn d).2.2,
    fun d hd => ?_, ⟨rfl, rfl, rfl⟩⟩
  have hne : (s.conns d).runCtx ≠ n := fun h => hd c (by rw [hqueue, h])
  unfold Server.Live
  rw [(hconn d).2.1]
  simp [Server.returnFromQueue, Channels.closed_close, hne]

/-- An active connection is left alone by the grant, which may suspend another one. -/
theorem grantActive_conns {c : Ptr} (hc : m.releasedSessionID ≠ c.id) (id : String) :
    (s.grantActive m id).conns c = s.conns c := by
  unfold Server.grantActive Server.adoptPush
  split
  · cases s.store.lookup m.releasedSessionID with
    | none => rfl
    | some gen =>
      have hne : c ≠ ⟨m.releasedSessionID, gen⟩ := fun h => hc (congrArg Ptr.id h).symm
      dsimp only
      split
      · exact update_of_ne hne ..
      · rfl
  · rfl

@[simp]
theorem grantActive_store (s : Server) (m : BotControlGranted) (id : String) :
    (s.grantActive m id).store = s.store := by
  unfold Server.grantActive Server.adoptPush
  split
  · cases s.store.lookup m.releasedSessionID with
    | none => rfl
    | some gen =>
      dsimp only
      split <;> rfl
  · rfl

/-- Afterwards the released bot is linked, and does not run. -/
theorem grantActive_released {id : String} (hnamed : m.releasedSessionID ≠ "")
    (hstored : s.store.lookup m.releasedSessionID = some gen) :
    (s.grantActive m id).pushParent.lookup id = some m.releasedSessionID ∧
      ((s.grantActive m id).conns ⟨m.releasedSessionID, gen⟩).state ≠ .running := by
  unfold Server.grantActive Server.adoptPush
  rw [if_pos hnamed, hstored]
  refine ⟨AList.lookup_insert _, ?_⟩
  by_cases hstate : (s.conns ⟨m.releasedSessionID, gen⟩).state = .running
  · simp [hstate, Server.suspend]
  · simp [hstate]

/-- After the first part of a push the released bot is linked and suspended. -/
theorem pushSource_released (hnamed : m.releasedSessionID ≠ "")
    (hstored : s.store.lookup m.releasedSessionID = some gen) :
    (s.pushSource m).pushParent.lookup (sessionID m.threadID m.sub) = some m.releasedSessionID ∧
      ((s.pushSource m).conns ⟨m.releasedSessionID, gen⟩).state = .suspended := by
  unfold Server.pushSource
  rw [if_pos hnamed, hstored]
  exact ⟨AList.lookup_insert _, by simp [Server.suspend]⟩

/-- A released bot that is as a push leaves it is left so by a push. -/
theorem AlreadyPushed.suspend_conns (h : AlreadyPushed s m) (hnamed : m.releasedSessionID ≠ "")
    {gen : Nat} (hstored : s.store.lookup m.releasedSessionID = some gen) :
    (s.suspend ⟨m.releasedSessionID, gen⟩).conns = s.conns := by
  refine update_eq_self_iff.mpr ?_
  rw [← (h hnamed gen hstored).2.1]

/-- Cancelling a context that is not live does nothing. -/
theorem AlreadyPushed.live (h : AlreadyPushed s m) (c : Ptr) :
    (s.pushSource m).Live c ↔ s.Live c := by
  unfold Server.pushSource
  by_cases hnamed : m.releasedSessionID ≠ ""
  · rw [if_pos hnamed]
    cases hstored : s.store.lookup m.releasedSessionID with
    | none => rfl
    | some gen =>
      have hctx : ((s.suspend ⟨m.releasedSessionID, gen⟩).conns c).runCtx = (s.conns c).runCtx :=
        congrArg (fun conns => (conns c).runCtx) (h.suspend_conns hnamed hstored)
      have hlive := (h hnamed gen hstored).2.2
      unfold Server.Live at hlive ⊢
      rw [not_and_not_right] at hlive
      simp only [hctx]
      simp only [Server.suspend, Channels.close_next, Channels.closed_close, not_or]
      refine and_congr_right fun _ => ⟨And.left, fun hopen => ⟨hopen, ?_⟩⟩
      rintro ⟨hsame, hmade⟩
      exact hopen (hsame ▸ hlive hmade)
  · rw [if_neg hnamed]

theorem AlreadyPushed.same (h : AlreadyPushed s m) : Same s (s.pushSource m) := by
  have hlive := h.live
  unfold Server.pushSource at hlive ⊢
  by_cases hnamed : m.releasedSessionID ≠ ""
  · rw [if_pos hnamed] at hlive ⊢
    cases hstored : s.store.lookup m.releasedSessionID with
    | none => exact same_of_links fun _ => rfl
    | some gen =>
      rw [hstored] at hlive
      have hconns := h.suspend_conns hnamed hstored
      refine ⟨⟨lookup_insert_again (h hnamed gen hstored).1, fun c => ?_⟩, fun c => ?_, fun c => ?_,
        fun c _ => hlive c, ⟨rfl, rfl, rfl⟩⟩
      · exact congrArg (fun conns => (conns c).state) hconns
      · exact congrArg (fun conns => (conns c).runCtx) hconns
      · exact congrArg (fun conns => (conns c).resumeCh) hconns
  · rw [if_neg hnamed]
    exact same_of_links fun _ => rfl

/-- The run context of the source of a push is cancelled. -/
theorem pushSource_not_live (hnamed : m.releasedSessionID ≠ "")
    (hstored : s.store.lookup m.releasedSessionID = some gen) :
    ¬ (s.pushSource m).Live ⟨m.releasedSessionID, gen⟩ := by
  unfold Server.pushSource
  rw [if_pos hnamed, hstored]
  simp only [Server.Live, Server.suspend, Server.modify_self, Channels.closed_close,
    Channels.close_next]
  rintro ⟨hmade, hopen⟩
  exact hopen (Or.inr ⟨trivial, hmade⟩)

/-- What it takes for a second handling, if a connection is stored for the granted bot. -/
theorem repeatable_iff {gen : Nat}
    (hstored : s.store.lookup (sessionID m.threadID m.sub) = some gen) :
    Repeatable s m ↔ (m.releasedSessionID ≠ "" →
      ∀ released, s.store.lookup m.releasedSessionID = some released →
        let waits := m.reason = .agentHandback ∧
          (s.conns ⟨sessionID m.threadID m.sub, gen⟩).queueReturn ≠ none
        let linked := s.pushParent.lookup (sessionID m.threadID m.sub) = some m.releasedSessionID
        if (s.conns ⟨sessionID m.threadID m.sub, gen⟩).state = .suspended then waits ∨ linked
        else waits → linked ∧ (s.conns ⟨m.releasedSessionID, released⟩).state ≠ .running) := by
  constructor
  · intro h hnamed released hreleased
    exact h gen released hstored hnamed hreleased
  · intro h gen' released hstored' hnamed hreleased
    cases hstored.symm.trans hstored'
    exact h hnamed released hreleased

theorem repeatable_of_none (h : s.store.lookup (sessionID m.threadID m.sub) = none) :
    Repeatable s m := by
  intro gen released hstored
  cases h.symm.trans hstored

variable (w) {gen : Nat}

section

variable (hstored : s.store.lookup (sessionID m.threadID m.sub) = some gen)
include hstored

/-- After a pop the granted bot runs, and the released one is terminating. -/
theorem regrant_popped (hstate : (s.conns ⟨sessionID m.threadID m.sub, gen⟩).state = .suspended) :
    ∃ s₂, Granted w (s.pop m ⟨sessionID m.threadID m.sub, gen⟩) m (.ok ()) s₂ ∧
      (Same (s.pop m ⟨sessionID m.threadID m.sub, gen⟩) s₂ ↔ Repeatable s m) := by
  set c : Ptr := ⟨sessionID m.threadID m.sub, gen⟩ with hc
  have hpop : PopSpec s (s.pop m c) m c := pop_spec m.releasedSessionID_ne
  have hstored₁ := hpop.store.symm ▸ hstored
  have hstate₁ := hpop.state.trans_ne (by decide : ConnState.running ≠ .suspended)
  rw [repeatable_iff hstored]
  simp only [← hc, if_pos hstate]
  by_cases hwaits : m.reason = .agentHandback ∧ (s.conns c).queueReturn ≠ none
  · obtain ⟨n, hn⟩ := Option.ne_none_iff_exists'.mp hwaits.2
    have hqueue₁ := hpop.queue.trans hn
    exact ⟨_, .returned hstored₁ hstate₁ hwaits.1 hqueue₁,
      iff_of_true (same_returnFromQueue hqueue₁) fun _ _ _ => Or.inl hwaits⟩
  · have hnot : m.reason = .agentHandback → (s.conns c).queueReturn = none :=
      fun hreason => not_not.mp fun hqueue => hwaits ⟨hreason, hqueue⟩
    refine ⟨_, .active hstored₁ hstate₁ fun hreason => hpop.queue.trans (hnot hreason), ?_⟩
    rw [same_grantActive_iff, hpop.store, hpop.links]
    refine forall_congr' fun hnamed => forall_congr' fun released =>
      forall_congr' fun hreleased => ?_
    simp [hwaits, hpop.released hnamed released hreleased]

section

variable (hstate : (s.conns ⟨sessionID m.threadID m.sub, gen⟩).state ≠ .suspended)
include hstate

/-- After the end of a wait, nobody waits any more. -/
theorem regrant_returned (hreason : m.reason = .agentHandback)
    (hqueue : (s.conns ⟨sessionID m.threadID m.sub, gen⟩).queueReturn = some n) :
    ∃ s₂, Granted w (s.returnFromQueue ⟨sessionID m.threadID m.sub, gen⟩ n) m (.ok ()) s₂ ∧
      (Same (s.returnFromQueue ⟨sessionID m.threadID m.sub, gen⟩ n) s₂ ↔ Repeatable s m) := by
  set c : Ptr := ⟨sessionID m.threadID m.sub, gen⟩ with hc
  have hsame : Same s (s.returnFromQueue c n) := same_returnFromQueue hqueue
  have hqueue₁ : ((s.returnFromQueue c n).conns c).queueReturn = none := by
    simp [Server.returnFromQueue]
  have hstored₁ : (s.returnFromQueue c n).store.lookup (sessionID m.threadID m.sub) = some gen :=
    hstored
  have hstate₁ := (hsame.states c).trans_ne hstate
  refine ⟨_, .active hstored₁ hstate₁ fun _ => hqueue₁, ?_⟩
  rw [same_grantActive_iff, repeatable_iff hstored]
  refine forall_congr' fun hnamed => forall_congr' fun released =>
    forall_congr' fun hreleased => ?_
  simp only [hsame.states, ← hc, if_neg hstate]
  exact ⟨fun h _ => h, fun h => h ⟨hreason, by simp [hqueue]⟩⟩

/-- After an adoption there is nothing left to adopt. -/
theorem regrant_active (hnot : m.reason = .agentHandback →
      (s.conns ⟨sessionID m.threadID m.sub, gen⟩).queueReturn = none) :
    ∃ s₂, Granted w (s.grantActive m (sessionID m.threadID m.sub)) m (.ok ()) s₂ ∧
      (Same (s.grantActive m (sessionID m.threadID m.sub)) s₂ ↔ Repeatable s m) := by
  have hself : (s.grantActive m (sessionID m.threadID m.sub)).conns
      ⟨sessionID m.threadID m.sub, gen⟩ = s.conns ⟨sessionID m.threadID m.sub, gen⟩ :=
    grantActive_conns m.releasedSessionID_ne _
  refine ⟨_, .active (by rwa [grantActive_store]) (by rwa [hself]) (by rwa [hself]),
    iff_of_true ?_ ?_⟩
  · rw [same_grantActive_iff, grantActive_store]
    intro hnamed released hreleased
    exact grantActive_released hnamed hreleased
  · rw [repeatable_iff hstored]
    intro hnamed released hreleased
    simp only [if_neg hstate]
    exact fun hwaits => absurd (hnot hwaits.1) hwaits.2

end

end

/-- After a push the new connection runs, over the one that was suspended for it. -/
theorem regrant_started (hreason : m.Pushes) :
    ∃ s₂, Granted w ((s.pushSource m).start m) m (.ok ()) s₂ ∧
      Same ((s.pushSource m).start m) s₂ := by
  have hne := m.releasedSessionID_ne
  have hstored₁ : ((s.pushSource m).start m).store.lookup (sessionID m.threadID m.sub) =
      some (s.pushSource m).made := AList.lookup_insert _
  have hstate₁ : (((s.pushSource m).start m).conns
      ⟨sessionID m.threadID m.sub, (s.pushSource m).made⟩).state = .running := by
    simp [Server.start, Server.dial]
  refine ⟨_, .active hstored₁ (by simp [hstate₁]) fun h => absurd h hreason.2.1, ?_⟩
  rw [same_grantActive_iff]
  intro hnamed released hreleased
  have hreleased' : s.store.lookup m.releasedSessionID = some released := by
    rw [← pushSource_store s m, ← hreleased]
    exact (AList.lookup_insert_ne hne).symm
  obtain ⟨hlink, hstate⟩ := pushSource_released hnamed hreleased'
  have hother : ((s.pushSource m).start m).conns ⟨m.releasedSessionID, released⟩ =
      (s.pushSource m).conns ⟨m.releasedSessionID, released⟩ :=
    update_of_ne (fun h => hne (congrArg Ptr.id h)) ..
  exact ⟨hlink, by simp [hother, hstate]⟩

/-- A push leaves its source as it would find it. -/
theorem alreadyPushed_pushSource : AlreadyPushed (s.pushSource m) m := by
  intro hnamed gen hreleased
  rw [pushSource_store] at hreleased
  obtain ⟨hlink, hstate⟩ := pushSource_released hnamed hreleased
  exact ⟨hlink, hstate, pushSource_not_live hnamed hreleased⟩

end Again

/-- A grant whose handling has returned without an error is handled again, with the same
answers of the other services: that returns too, and changes nothing exactly if the server
was repeatable. -/
theorem regrant_same_iff {E : Type} {w : Outside E} {s s₁ : Server} {m : BotControlGranted}
    (h : (handleBotControlGranted m).run (exec w) s = some (.ok (), s₁)) :
    ∃ s₂, (handleBotControlGranted m).run (exec w) s₁ = some (.ok (), s₂) ∧
      (Same s₁ s₂ ↔ Repeatable s m) := by
  simp only [run_handleBotControlGranted_iff] at h ⊢
  cases h with
  | popped hstored hstate => exact regrant_popped w hstored hstate
  | returned hstored hstate hreason hqueue => exact regrant_returned w hstored hstate hreason hqueue
  | active hstored hstate hnot => exact regrant_active w hstored hstate hnot
  | ignored hstored hreason =>
    exact ⟨_, .ignored hstored hreason,
      iff_of_true (same_of_links fun _ => rfl) (repeatable_of_none hstored)⟩
  | claimed hstored hreason hclaim =>
    exact ⟨_, .claimed (by rwa [pushSource_store]) hreason hclaim,
      iff_of_true alreadyPushed_pushSource.same (repeatable_of_none hstored)⟩
  | started hstored hreason hclaim hroom =>
    obtain ⟨s₂, hgranted, hsame⟩ := regrant_started w (s := s) hreason
    exact ⟨s₂, hgranted, iff_of_true hsame (repeatable_of_none hstored)⟩

/-- In the server in which bot 2 has been dropped, the grant for bot 1 may come twice. -/
theorem regrant_same_iff_dropped :
    ∃ s₁ s₂, (handleBotControlGranted back).run (exec helpful) dropped = some (.ok (), s₁) ∧
      (handleBotControlGranted back).run (exec helpful) s₁ = some (.ok (), s₂) ∧ Same s₁ s₂ := by
  have hrun : (((handleBotControlGranted back).run (exec helpful) dropped).map fun y =>
      y.1.toBool) = some true := by decide +kernel
  obtain ⟨⟨_ | ⟨⟩, s₁⟩, h₁, hok⟩ := Option.map_eq_some_iff.mp hrun
  · cases hok
  · obtain ⟨s₂, h₂, hiff⟩ := regrant_same_iff h₁
    refine ⟨s₁, s₂, h₁, h₂, hiff.mpr fun gen released _ _ hreleased => ?_⟩
    have hgone : dropped.store.lookup back.releasedSessionID = none := by decide +kernel
    cases hgone.symm.trans hreleased

/-- Bot 1 is popped while bot 2 is still stored; the same grant again links bot 2 as the
parent of bot 1. -/
theorem regrant_same_iff_stored :
    ((do transfer; handleBotControlGranted back : Go (Except String Unit)).run (exec helpful)
        Server.init).map (fun y => (y.1.toBool, y.2.summary)) =
        some (true, .running, .terminating, none) ∧
      ((do transfer; let _ ← handleBotControlGranted back; handleBotControlGranted back :
          Go (Except String Unit)).run (exec helpful) Server.init).map
          (fun y => (y.1.toBool, y.2.summary)) =
        some (true, .running, .terminating, some "t.2") := by
  constructor <;> decide +kernel

/-! ## Grants that fail -/

/-- The links are the same in both, and the state and the run context of the released bot. -/
structure Kept (s s' : Server) (m : BotControlGranted) : Prop where
  links : ∀ id, s'.pushParent.lookup id = s.pushParent.lookup id
  released : m.releasedSessionID ≠ "" → ∀ gen, s.store.lookup m.releasedSessionID = some gen →
    (s'.conns ⟨m.releasedSessionID, gen⟩).state = (s.conns ⟨m.releasedSessionID, gen⟩).state ∧
    (s'.conns ⟨m.releasedSessionID, gen⟩).runCtx = (s.conns ⟨m.releasedSessionID, gen⟩).runCtx ∧
    (s'.Live ⟨m.releasedSessionID, gen⟩ ↔ s.Live ⟨m.releasedSessionID, gen⟩)

/-- A grant that fails starts no dialog. It leaves the released bot and the links as they
were exactly if the released bot was already as a push leaves it. -/
theorem failed_grant_kept_iff {E : Type} {w : Outside E} {s s' : Server} {m : BotControlGranted}
    {e : String} (h : (handleBotControlGranted m).run (exec w) s = some (.error e, s')) :
    s'.made = s.made ∧ s'.store = s.store ∧ (Kept s s' m ↔ AlreadyPushed s m) := by
  cases run_handleBotControlGranted_iff.mp h with
  | failed hstored hreason hclaim =>
    refine ⟨pushSource_made s m, pushSource_store s m, fun hkept hnamed gen hreleased => ?_,
      fun hpushed => ?_⟩
    · obtain ⟨hlink, hstate⟩ := pushSource_released hnamed hreleased
      obtain ⟨hstate', -, hlive⟩ := hkept.released hnamed gen hreleased
      refine ⟨(hkept.links _).symm.trans hlink, hstate'.symm.trans hstate, fun h => ?_⟩
      exact pushSource_not_live hnamed hreleased (hlive.mpr h)
    · have hsame := hpushed.same
      exact ⟨hsame.links, fun _ _ _ => ⟨hsame.states _, hsame.contexts _, hpushed.live _⟩⟩

/-- Bot 1 runs, and the services do not find the thread. -/
def unknownThread : Outside Unit := { helpful with search := fun _ => .ok [] }

/-- Bot 1 has been started, and a transfer from it to bot 2 has failed. -/
def failedOnce : Server :=
  ((transfer.run (exec unknownThread) Server.init).map (·.2)).getD Server.init

/-- Bot 1 is suspended and linked by then, and the same transfer fails again and changes nothing. -/
theorem failed_grant_kept_iff_again :
    ∃ e s', (handleBotControlGranted ⟨"t", "", 1, 2, .other "transfer"⟩).run (exec unknownThread)
        failedOnce = some (.error e, s') ∧
      (failedOnce.conns ⟨"t.1", 0⟩).state = .suspended ∧
      failedOnce.pushParent.lookup "t.2" = some "t.1" ∧
      Kept failedOnce s' ⟨"t", "", 1, 2, .other "transfer"⟩ := by
  have hfails : (((handleBotControlGranted ⟨"t", "", 1, 2, .other "transfer"⟩).run
      (exec unknownThread) failedOnce).map fun y => y.1.toBool) = some false := by decide +kernel
  obtain ⟨⟨e | ⟨⟩, s'⟩, hrun, hfailed⟩ := Option.map_eq_some_iff.mp hfails
  · have hlinked : failedOnce.pushParent.lookup "t.2" = some "t.1" := by decide +kernel
    refine ⟨e, s', hrun, by decide +kernel, hlinked,
      (failed_grant_kept_iff hrun).2.2.mpr fun _ gen hstored => ?_⟩
    have hone : failedOnce.store.lookup "t.1" = some 0 := by decide +kernel
    cases hone.symm.trans hstored
    exact ⟨hlinked, by decide +kernel, by unfold Server.Live; decide +kernel⟩
  · cases hfailed

/-- A transfer from the running bot 1 to bot 2 fails, and bot 1 stays suspended, linked as the
parent of a dialog that does not exist. -/
theorem failed_grant_kept_iff_running :
    ((nodeMessage hello).run (exec helpful) Server.init).map
        (fun y => ((y.2.conns ⟨"t.1", 0⟩).state, y.2.pushParent.lookup "t.2")) =
        some (.running, none) ∧
      (((nodeMessage hello).run (exec helpful) Server.init).bind fun y =>
          (handleBotControlGranted ⟨"t", "", 1, 2, .other "transfer"⟩).run (exec unknownThread)
            y.2).map
          (fun y => (y.1.toBool, (y.2.conns ⟨"t.1", 0⟩).state, y.2.pushParent.lookup "t.2",
            y.2.made)) =
        some (false, .suspended, some "t.1", 1) := by
  constructor <;> decide +kernel

end FlowManager.Im
