import FlowManager.Im.Server

/-!
# The local pop and the grant that follows it

When a pushed schema ends, `resumeParentOf` resumes its parent at once. The thread service
sends its grant for the parent later; by then the connection of the parent is running, and
the grant is read as a push in the other direction unless the child is gone.

- `Server.adoptPush`, `Server.grantActive`: what a grant for an active connection does.
- `untouched_adoptPush_iff`: when it does nothing.
- `local_pop_untouched_iff`: when the grant that follows a local pop does nothing.
-/

namespace FlowManager.Im

open Concurrent

/-- The links and the state of every connection are the same in both. -/
structure Untouched (s s' : Server) : Prop where
  links : ∀ id, s'.pushParent.lookup id = s.pushParent.lookup id
  states : ∀ c, (s'.conns c).state = (s.conns c).state

/-! ## Grants for an active connection -/

/-- What `adoptPush` does when nothing else happens. -/
def Server.adoptPush (s : Server) (id releasedID : String) : Server :=
  match s.store.lookup releasedID with
  | none => s
  | some gen =>
    let s' :=
      if (s.conns ⟨releasedID, gen⟩).state = .running then s.suspend ⟨releasedID, gen⟩ else s
    { s' with pushParent := s'.pushParent.insert id releasedID }

/-- What a grant for an active connection does. -/
def Server.grantActive (s : Server) (m : BotControlGranted) (id : String) : Server :=
  if m.releasedSessionID ≠ "" then s.adoptPush id m.releasedSessionID else s

section Active

variable {E : Type} (w : Outside E) (s : Server)

theorem run_get (id : String) :
    (get id).run (exec w) s = some ((s.store.lookup id).map (Ptr.mk id), s) := rfl

theorem run_adoptPush (id releasedID : String) :
    (adoptPush id releasedID).run (exec w) s = some ((), s.adoptPush id releasedID) := by
  unfold adoptPush Server.adoptPush
  rw [run_bind, run_get]
  cases s.store.lookup releasedID with
  | none => rfl
  | some gen =>
    -- the two tests tell the three states apart
    cases hstate : (s.conns ⟨releasedID, gen⟩).state with
    | suspended | terminating => simp [Prog.run, exec, hstate]
    | running => simp [Prog.run, exec, hstate, run_bind, run_suspend]

theorem run_grantActive (m : BotControlGranted) (c : Ptr) :
    (grantActive m c).run (exec w) s = some ((), s.grantActive m c.id) := by
  unfold grantActive Server.grantActive
  split
  · exact run_adoptPush w s c.id m.releasedSessionID
  · rfl

/-- A grant for an active connection suspends the released bot and links it, unless the bot
is gone, or already linked and no longer running. -/
theorem untouched_adoptPush_iff (id releasedID : String) :
    Untouched s (s.adoptPush id releasedID) ↔
      s.store.lookup releasedID = none ∨ ∃ gen, s.store.lookup releasedID = some gen ∧
        (s.conns ⟨releasedID, gen⟩).state ≠ .running ∧
        s.pushParent.lookup id = some releasedID := by
  unfold Server.adoptPush
  cases s.store.lookup releasedID with
  | none => exact ⟨fun _ => Or.inl rfl, fun _ => ⟨fun _ => rfl, fun _ => rfl⟩⟩
  | some gen =>
    dsimp only
    by_cases hstate : (s.conns ⟨releasedID, gen⟩).state = .running
    · refine iff_of_false (fun h => ?_) (by simp [hstate])
      have := h.states ⟨releasedID, gen⟩
      simp [Server.suspend, hstate] at this
    · rw [if_neg hstate]
      constructor
      · intro h
        refine Or.inr ⟨gen, rfl, hstate, ?_⟩
        rw [← h.links id]
        exact AList.lookup_insert _
      · rintro (h | ⟨gen, -, -, hlink⟩)
        · cases h
        · refine ⟨fun id' => ?_, fun _ => rfl⟩
          by_cases hid : id' = id
          · rw [hid, hlink]
            exact AList.lookup_insert _
          · exact AList.lookup_insert_ne hid

/-- A grant for an active connection that has not just returned from a queue. -/
theorem untouched_grantActive_iff (m : BotControlGranted) (id : String) :
    Untouched s (s.grantActive m id) ↔ m.releasedSub = 0 ∨ m.releasedSub = m.sub ∨
      s.store.lookup (sessionID m.threadID m.releasedSub) = none ∨
      ∃ gen, s.store.lookup (sessionID m.threadID m.releasedSub) = some gen ∧
        (s.conns ⟨sessionID m.threadID m.releasedSub, gen⟩).state ≠ .running ∧
        s.pushParent.lookup id = some (sessionID m.threadID m.releasedSub) := by
  unfold Server.grantActive BotControlGranted.releasedSessionID
  by_cases hsub : m.releasedSub ≠ 0 ∧ m.releasedSub ≠ m.sub
  · rw [if_pos hsub, if_pos (sessionID_ne_empty _ _), untouched_adoptPush_iff]
    simp [hsub.1, hsub.2]
  · rw [if_neg hsub, if_neg (by simp)]
    refine iff_of_true ⟨fun _ => rfl, fun _ => rfl⟩ ?_
    by_cases hzero : m.releasedSub = 0
    · exact Or.inl hzero
    · exact Or.inr (Or.inl (not_not.mp fun h => hsub ⟨hzero, h⟩))

end Active

/-! ## The grant behind a local pop -/

/-- What `resumeParentOf` does for a child whose parent is suspended. -/
def Server.popped (s : Server) (childID : String) (parent : Ptr) : Server :=
  { s with pushParent := s.pushParent.erase childID }.resume parent

section Pop

variable {E : Type} {s : Server} {childID : String} {parent : Ptr}

theorem run_resumeParentOf (w : Outside E) (hlink : s.pushParent.lookup childID = some parent.id)
    (hid : parent.id ≠ "") (hstored : s.store.lookup parent.id = some parent.gen)
    (hstate : (s.conns parent).state = .suspended) :
    (resumeParentOf childID).run (exec w) s = some ((), s.popped childID parent) := by
  simp [resumeParentOf, Prog.run, exec, hlink, hid, run_bind, run_get, hstored, hstate, run_resume,
    Server.popped]

/-- The popped parent runs; its queue and the other connections are as before. -/
theorem popped_parent (s : Server) (childID : String) (parent : Ptr) :
    ((s.popped childID parent).conns parent).state = .running ∧
      ((s.popped childID parent).conns parent).queueReturn = (s.conns parent).queueReturn := by
  simp [Server.popped, Server.resume]

theorem popped_of_ne (h : c ≠ parent) :
    (s.popped childID parent).conns c = s.conns c := Function.update_of_ne h ..

/-- A grant for a parent that runs: it returns from its queue, or the grant is one for an
active connection. -/
theorem run_granted (w : Outside E) (m : BotControlGranted)
    (hid : sessionID m.threadID m.sub = parent.id)
    (hstored : s.store.lookup parent.id = some parent.gen)
    (hstate : (s.conns parent).state = .running) :
    ∃ s', (handleBotControlGranted m).run (exec w) s = some (.ok (), s') ∧
      if m.reason = .agentHandback ∧ (s.conns parent).queueReturn ≠ none then
        ∃ n, s' = s.returnFromQueue parent n
      else s' = s.grantActive m parent.id := by
  simp only [handleBotControlGranted, grantStored, run_bind, run_get, hid, hstored]
  by_cases hreason : m.reason = .agentHandback
  · cases hqueue : (s.conns parent).queueReturn with
    | none => simp [Prog.run, exec, hstate, hreason, hqueue, run_bind, run_grantActive]
    | some n =>
      refine ⟨s.returnFromQueue parent n, ?_, by simp [hreason]⟩
      simp [Prog.run, exec, hstate, hreason, hqueue]
  · simp [Prog.run, exec, hstate, hreason, run_bind, run_grantActive]

end Pop

/-- The server `s`, in which the child is linked to the suspended `parent`, leaves nothing to
do for the grant `m`: it names no released bot, or only ends the parent's wait in a queue;
or the child is no longer stored; or it does not run any more and is itself linked as the
parent of its parent. -/
def Settled (s : Server) (m : BotControlGranted) (parent : Ptr) : Prop :=
  m.releasedSub = 0 ∨ m.releasedSub = m.sub ∨
  (m.reason = .agentHandback ∧ (s.conns parent).queueReturn ≠ none) ∨
  s.store.lookup (sessionID m.threadID m.releasedSub) = none ∨
  ∃ gen, s.store.lookup (sessionID m.threadID m.releasedSub) = some gen ∧
    (s.conns ⟨sessionID m.threadID m.releasedSub, gen⟩).state ≠ .running ∧
    s.pushParent.lookup parent.id = some (sessionID m.threadID m.releasedSub)

/-- In every server where a child is linked to a suspended parent, `resumeParentOf` lets the
parent run, and the later grant for the parent with the child as the released bot leaves the
links and the state of every connection as they are exactly if the server was settled. -/
theorem local_pop_untouched_iff {E : Type} (w w' : Outside E) {s : Server} {m : BotControlGranted}
    {parent : Ptr} (hid : sessionID m.threadID m.sub = parent.id)
    (hlink : s.pushParent.lookup (sessionID m.threadID m.releasedSub) = some parent.id)
    (hstored : s.store.lookup parent.id = some parent.gen)
    (hstate : (s.conns parent).state = .suspended) :
    ∃ s₁ s₂, (resumeParentOf (sessionID m.threadID m.releasedSub)).run (exec w) s =
        some ((), s₁) ∧
      (s₁.conns parent).state = .running ∧
      (handleBotControlGranted m).run (exec w') s₁ = some (.ok (), s₂) ∧
      (Untouched s₁ s₂ ↔ Settled s m parent) := by
  set childID := sessionID m.threadID m.releasedSub with hchild
  have hne : parent.id ≠ "" := hid ▸ sessionID_ne_empty _ _
  obtain ⟨hrunning, hqueue⟩ := popped_parent s childID parent
  obtain ⟨s₂, hgrant, hs₂⟩ :=
    run_granted w' m hid (s := s.popped childID parent) hstored hrunning
  refine ⟨s.popped childID parent, s₂, run_resumeParentOf w hlink hne hstored hstate, hrunning,
    hgrant, ?_⟩
  unfold Settled
  by_cases hreturn : m.reason = .agentHandback ∧ (s.conns parent).queueReturn ≠ none
  · rw [hqueue, if_pos hreturn] at hs₂
    obtain ⟨n, rfl⟩ := hs₂
    refine iff_of_true ⟨fun _ => rfl, fun c => ?_⟩ (Or.inr (Or.inr (Or.inl hreturn)))
    by_cases hc : c = parent
    · subst hc
      simp [Server.returnFromQueue]
    · exact congrArg Connection.state (Function.update_of_ne hc ..)
  · rw [hqueue, if_neg hreturn] at hs₂
    rw [hs₂, untouched_grantActive_iff, ← hchild]
    by_cases hsame : m.releasedSub = m.sub
    · simp [hsame]
    · -- the child is another session, which the pop has not touched
      have hother : childID ≠ parent.id := by
        rw [hchild, ← hid, ne_eq, sessionID_inj]
        exact hsame
      have hconn : ∀ gen, (s.popped childID parent).conns ⟨childID, gen⟩ = s.conns ⟨childID, gen⟩ :=
        fun gen => popped_of_ne fun h => hother (congrArg Ptr.id h)
      have hlookup : (s.popped childID parent).pushParent.lookup parent.id =
          s.pushParent.lookup parent.id := AList.lookup_erase_ne hother.symm
      have hstore : (s.popped childID parent).store = s.store := rfl
      simp only [hconn, hlookup, hstore, hreturn, false_or]

/-- A customer's message starts bot 1 in thread `t`, and a transfer pushes bot 2 over it. -/
def transfer : Go Unit := do
  let _ ← nodeMessage
    ⟨"t", ⟨"customer", "webitel", "", "", 0⟩, [⟨"1", userTypeBot, "", "", 0⟩], "", none⟩
  let _ ← handleBotControlGranted ⟨"t", "", 1, 2, .other "transfer"⟩
  return ()

/-- The grant that gives thread `t` back to bot 1. -/
def back : BotControlGranted := ⟨"t", "", 2, 1, .other "transfer"⟩

/-- The states of bots 1 and 2, and the parent of bot 1. -/
def Server.summary (s : Server) : ConnState × ConnState × Option String :=
  ((s.conns ⟨"t.1", 0⟩).state, (s.conns ⟨"t.2", 1⟩).state, s.pushParent.lookup "t.1")

/-- After the transfer, the cache has dropped bot 2. -/
def dropped : Server :=
  let s := ((transfer.run (exec helpful) Server.init).map (·.2)).getD Server.init
  { s with store := s.store.erase "t.2" }

/-- In that server the grant for bot 1 changes nothing. -/
theorem local_pop_untouched_iff_dropped :
    ∃ s₁ s₂,
      (resumeParentOf (sessionID back.threadID back.releasedSub)).run (exec helpful) dropped =
        some ((), s₁) ∧
      (handleBotControlGranted back).run (exec helpful) s₁ = some (.ok (), s₂) ∧
      Untouched s₁ s₂ := by
  have hid : sessionID back.threadID back.sub = (⟨"t.1", 0⟩ : Ptr).id := by decide +kernel
  have hlink : dropped.pushParent.lookup (sessionID back.threadID back.releasedSub) =
      some (⟨"t.1", 0⟩ : Ptr).id := by decide +kernel
  have hstored : dropped.store.lookup (⟨"t.1", 0⟩ : Ptr).id = some (⟨"t.1", 0⟩ : Ptr).gen := by
    decide +kernel
  have hgone : dropped.store.lookup (sessionID back.threadID back.releasedSub) = none := by
    decide +kernel
  obtain ⟨s₁, s₂, hpop, -, hgrant, hiff⟩ :=
    local_pop_untouched_iff helpful helpful hid hlink hstored (by decide +kernel)
  exact ⟨s₁, s₂, hpop, hgrant, hiff.mpr (Or.inr (Or.inr (Or.inr (Or.inl hgone))))⟩

/-- Bot 2 ends and lets bot 1 run again; while bot 2 is still stored, the grant for bot 1
suspends bot 2 and makes it the parent of bot 1. -/
theorem local_pop_untouched_iff_stored :
    ((do transfer; resumeParentOf "t.2" : Go Unit).run (exec helpful) Server.init).map
        (·.2.summary) = some (.running, .running, none) ∧
      ((do transfer; resumeParentOf "t.2"; handleBotControlGranted back :
          Go (Except String Unit)).run (exec helpful) Server.init).map (·.2.summary) =
        some (.running, .suspended, some "t.2") := by
  constructor <;> decide +kernel

end FlowManager.Im
