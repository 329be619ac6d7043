import FlowManager.Im.Grant

/-!
# The board

What a node knows of its sessions, with nothing said of connections, contexts and channels:
which sessions it holds and in which state, and which session is the parent of which. The
handlers of the listener act on the board; each is a few changes of entries and links.

- `Board`: the sessions and the links; `Board.listen`: one event.
- `Server.board`: the board of a server.
- `Apart`: the lifetime contexts of the connections that are stored are used for nothing
  else, so that to cancel one connection is not to cancel another.
- `listen_board`: a round of the listener does to the board what `Board.listen` says.
-/

namespace FlowManager.Im

open Concurrent Function

/-- A session that the node holds: the state of its connection, whether it waits in a queue,
and whether its lifetime context is done. -/
structure Entry where
  state : ConnState
  queued : Bool
  cancelled : Bool
  deriving DecidableEq

/-- The sessions that the node holds, and the parents of the sessions. -/
@[ext]
structure Board where
  entry : String → Option Entry
  link : String → Option String

namespace Board

/-- The entry of a session changes, if there is one. -/
def modify (b : Board) (id : String) (f : Entry → Entry) : Board :=
  { b with entry := update b.entry id ((b.entry id).map f) }

/-- The state of a session -/
def state (b : Board) (id : String) : Option ConnState := (b.entry id).map (·.state)

/-- `Suspend` -/
def suspend (b : Board) (id : String) : Board := b.modify id fun e => { e with state := .suspended }

/-- `Resume` -/
def resume (b : Board) (id : String) : Board := b.modify id fun e => { e with state := .running }

/-- An entry after `Break` -/
def broken (e : Entry) : Entry := { e with state := .terminating, cancelled := true }

/-- `Break` -/
def break_ (b : Board) (id : String) : Board := b.modify id broken

/-- A dialog is started. -/
def dial (b : Board) (id : String) : Board :=
  { b with entry := update b.entry id (some ⟨.running, false, false⟩) }

/-- A session gets a parent. -/
def setLink (b : Board) (child parent : String) : Board :=
  { b with link := update b.link child (some parent) }

/-! ## The listener -/

/-- The pop branch of a grant -/
def pop (b : Board) (m : BotControlGranted) : Board :=
  (if m.releasedSessionID ≠ "" then b.break_ m.releasedSessionID else b).resume
    (sessionID m.threadID m.sub)

/-- `adoptPush` -/
def adoptPush (b : Board) (id releasedID : String) : Board :=
  match b.state releasedID with
  | none => b
  | some .running => (b.suspend releasedID).setLink id releasedID
  | some _ => b.setLink id releasedID

/-- A grant for a session that is held and not suspended. -/
def grantActive (b : Board) (m : BotControlGranted) : Board :=
  if m.releasedSessionID ≠ "" then b.adoptPush (sessionID m.threadID m.sub) m.releasedSessionID
  else b

/-- What a push does to its source. -/
def pushSource (b : Board) (m : BotControlGranted) : Board :=
  if m.releasedSessionID ≠ "" ∧ (b.entry m.releasedSessionID).isSome then
    (b.suspend m.releasedSessionID).setLink (sessionID m.threadID m.sub) m.releasedSessionID
  else b

instance (m : BotControlGranted) : Decidable m.Pushes :=
  inferInstanceAs
    (Decidable (m.reason ≠ .initial ∧ m.reason ≠ .agentHandback ∧ m.reason ≠ .agentLeft))

/-- `handleBotControlGranted`; `claim` is what the other services say to a push. -/
def granted (b : Board) (m : BotControlGranted) (claim : Except String (Option Nat)) : Board :=
  match b.entry (sessionID m.threadID m.sub) with
  | some e =>
    if e.state = .suspended then b.pop m
    else if m.reason = .agentHandback ∧ e.queued = true then
      b.modify (sessionID m.threadID m.sub) fun e => { e with queued := false }
    else b.grantActive m
  | none =>
    if m.Pushes then
      match claim with
      | .ok (some _) => (b.pushSource m).dial (sessionID m.threadID m.sub)
      | _ => b.pushSource m
    else b

/-- `suspendForAgent` -/
def suspendForAgent (b : Board) (r : BotControlReleased) : Board :=
  if r.sub = 0 then b
  else
    match b.entry (sessionID r.threadID r.sub) with
    | some e =>
      if e.state = .running ∧ e.queued = false then b.suspend (sessionID r.threadID r.sub) else b
    | none => b

/-- `BreakByThread` -/
def breakByThread (b : Board) (threadID : String) : Board :=
  if threadID = "" then b
  else { b with entry := fun id =>
    if (threadID ++ ".").isPrefixOf id then (b.entry id).map broken else b.entry id }

/-- `handleBotControlReleased` -/
def released (b : Board) (r : BotControlReleased) : Board :=
  if r.reason = .agentTakeover then b.suspendForAgent r
  else if r.reason ≠ .clientLeave then b
  else b.breakByThread r.threadID

/-- The loop of `nodeMessage` over the receivers that are left. -/
def nodeReceivers (touch : String → Except String (Option Nat)) (m : Message) :
    List Endpoint → Board → Board
  | [], b => b
  | endpoint :: endpoints, b =>
    if endpoint.issuer ≠ userTypeBot then nodeReceivers touch m endpoints b
    else if (b.entry (m.threadID ++ "." ++ endpoint.sub)).isSome then
      nodeReceivers touch m endpoints b
    else if m.isSystem = true then nodeReceivers touch m endpoints b
    else
      match touch (m.threadID ++ "." ++ endpoint.sub) with
      | .error _ => b
      | .ok none => nodeReceivers touch m endpoints b
      | .ok (some _) =>
        nodeReceivers touch m endpoints (b.dial (m.threadID ++ "." ++ endpoint.sub))

/-- `nodeMessage` -/
def nodeMessage (b : Board) (touch : String → Except String (Option Nat)) (m : Message) : Board :=
  if m.sender.issuer = userTypeBot then b else nodeReceivers touch m m.receivers b

/-- One round of the listener -/
def listen {E : Type} (b : Board) (w : Outside E) : Board :=
  match w.event with
  | .granted m => b.granted m (w.claim m)
  | .released r => b.released r
  | .message m => if m.threadID = "" then b else b.nodeMessage w.touch m

section Entries

variable (b : Board) {id id' : String}

@[simp]
theorem modify_self (f : Entry → Entry) : (b.modify id f).entry id = (b.entry id).map f :=
  update_self ..

theorem modify_of_ne (h : id' ≠ id) (f : Entry → Entry) : (b.modify id f).entry id' = b.entry id' :=
  update_of_ne h ..

@[simp]
theorem modify_link (f : Entry → Entry) : (b.modify id f).link = b.link := rfl

@[simp]
theorem dial_self : (b.dial id).entry id = some ⟨.running, false, false⟩ := update_self ..

theorem dial_of_ne (h : id' ≠ id) : (b.dial id).entry id' = b.entry id' := update_of_ne h ..

@[simp]
theorem dial_link : (b.dial id).link = b.link := rfl

@[simp]
theorem setLink_entry (child parent : String) : (b.setLink child parent).entry = b.entry := rfl

@[simp]
theorem setLink_self (child parent : String) : (b.setLink child parent).link child = some parent :=
  update_self ..

theorem setLink_of_ne (h : child' ≠ child) (parent : String) :
    (b.setLink child parent).link child' = b.link child' := update_of_ne h ..

end Entries

theorem modify_of_none {b : Board} {id : String} (h : b.entry id = none) (f : Entry → Entry) :
    b.modify id f = b := by
  unfold modify
  rw [h, Option.map_none, ← h, update_eq_self]

/-- A change that leaves the state of an entry alone. -/
theorem state_modify (b : Board) (id : String) (hf : ∀ e, (f e).state = e.state) (id' : String) :
    (b.modify id f).state id' = b.state id' := by
  unfold state
  by_cases hid : id' = id
  · subst hid
    rw [modify_self, Option.map_map]
    exact congrArg (Option.map · _) (funext hf)
  · rw [modify_of_ne b hid]

theorem state_eq_some {b : Board} {id : String} :
    b.state id = some st ↔ ∃ e, b.entry id = some e ∧ e.state = st := Option.map_eq_some_iff

/-! ### What an event does to a session -/

/-- The grant takes control from a session that is held: the granted bot is new, or active. -/
def Transfers (b : Board) (m : BotControlGranted) : Prop :=
  m.releasedSessionID ≠ "" ∧ (b.entry m.releasedSessionID).isSome ∧
    match b.entry (sessionID m.threadID m.sub) with
    | some e => e.state ≠ .suspended ∧ ¬ (m.reason = .agentHandback ∧ e.queued = true)
    | none => m.Pushes

/-- The grant calls `Suspend` on the released session. -/
def Suspends (b : Board) (m : BotControlGranted) : Prop :=
  b.Transfers m ∧ (b.entry (sessionID m.threadID m.sub) = none ∨
    b.state m.releasedSessionID = some .running)

instance (b : Board) (m : BotControlGranted) : Decidable (b.Transfers m) :=
  match hentry : b.entry (sessionID m.threadID m.sub) with
  | some e => decidable_of_iff (m.releasedSessionID ≠ "" ∧ (b.entry m.releasedSessionID).isSome ∧
      e.state ≠ .suspended ∧ ¬ (m.reason = .agentHandback ∧ e.queued = true))
      (by unfold Transfers; rw [hentry])
  | none => decidable_of_iff (m.releasedSessionID ≠ "" ∧ (b.entry m.releasedSessionID).isSome ∧
      m.Pushes) (by unfold Transfers; rw [hentry])

instance (b : Board) (m : BotControlGranted) : Decidable (b.Suspends m) :=
  inferInstanceAs (Decidable (_ ∧ _))

/-- What a round of the listener may do to the session `id`. -/
inductive Evolves {E : Type} (b : Board) (w : Outside E) (id : String) : Option Entry → Prop where
  | same : Evolves b w id (b.entry id)
  | dialed (hentry : b.entry id = none) : Evolves b w id (some ⟨.running, false, false⟩)
  | pushed (hevent : w.event = .granted m) (h : b.Suspends m) (hid : id = m.releasedSessionID)
      (hentry : b.entry id = some e) : Evolves b w id (some { e with state := .suspended })
  | takenOver (hevent : w.event = .released r) (hreason : r.reason = .agentTakeover)
      (hid : id = sessionID r.threadID r.sub) (hentry : b.entry id = some e)
      (hstate : e.state = .running) : Evolves b w id (some { e with state := .suspended })
  | resumed (hevent : w.event = .granted m) (hid : id = sessionID m.threadID m.sub)
      (hentry : b.entry id = some e) : Evolves b w id (some { e with state := .running })
  | popped (hevent : w.event = .granted m)
      (hsuspended : b.state (sessionID m.threadID m.sub) = some .suspended)
      (hid : id = m.releasedSessionID) (hentry : b.entry id = some e) :
      Evolves b w id (some (broken e))
  | left (hevent : w.event = .released r) (hreason : r.reason = .clientLeave)
      (hthread : r.threadID ≠ "") (hid : (r.threadID ++ ".").isPrefixOf id = true)
      (hentry : b.entry id = some e) : Evolves b w id (some (broken e))
  | returned (hentry : b.entry id = some e) : Evolves b w id (some { e with queued := false })

section Evolves

variable {E : Type} {b : Board} {w : Outside E} {id : String}

/-- An entry that changes by `modify`. -/
theorem Evolves.modify {id' : String}
    (h : ∀ e, id = id' → b.entry id = some e → b.Evolves w id (some (f e))) :
    b.Evolves w id ((b.modify id' f).entry id) := by
  by_cases hid : id = id'
  · subst hid
    rw [modify_self]
    cases hentry : b.entry id with
    | none =>
      rw [Option.map_none, ← hentry]
      exact .same
    | some e => exact h e rfl hentry
  · rw [modify_of_ne b hid]
    exact .same

theorem evolves_pop {m : BotControlGranted} (hevent : w.event = .granted m)
    (hsuspended : b.state (sessionID m.threadID m.sub) = some .suspended) :
    b.Evolves w id ((b.pop m).entry id) := by
  unfold pop resume
  by_cases hid : id = sessionID m.threadID m.sub
  · -- the released session is another one
    have hne : id ≠ m.releasedSessionID := fun h => m.releasedSessionID_ne (h.symm.trans hid)
    have hsame : (if m.releasedSessionID ≠ "" then b.break_ m.releasedSessionID else b).entry id =
        b.entry id := by
      split
      · exact modify_of_ne b hne _
      · rfl
    obtain ⟨e, hentry, -⟩ := state_eq_some.mp hsuspended
    rw [← hid] at hentry ⊢
    rw [modify_self, hsame, hentry]
    exact .resumed hevent hid hentry
  · rw [modify_of_ne _ hid]
    split
    · exact Evolves.modify fun e hid hentry => .popped hevent hsuspended hid hentry
    · exact .same

theorem evolves_grantActive {m : BotControlGranted} {e : Entry} (hevent : w.event = .granted m)
    (hentry : b.entry (sessionID m.threadID m.sub) = some e) (hstate : e.state ≠ .suspended)
    (hnot : ¬ (m.reason = .agentHandback ∧ e.queued = true)) :
    b.Evolves w id ((b.grantActive m).entry id) := by
  unfold grantActive
  split
  · rename_i hnamed
    unfold adoptPush
    split
    · exact .same
    · rename_i hrunning
      obtain ⟨e', hreleased, -⟩ := state_eq_some.mp hrunning
      refine Evolves.modify fun e' hid => .pushed hevent ⟨⟨hnamed, ?_, ?_⟩, Or.inr hrunning⟩ hid
      · rw [hreleased]
        rfl
      · rw [hentry]
        exact ⟨hstate, hnot⟩
    · exact .same
  · exact .same

theorem evolves_pushSource (hevent : w.event = .granted m)
    (hentry : b.entry (sessionID m.threadID m.sub) = none) (hpushes : m.Pushes) :
    b.Evolves w id ((b.pushSource m).entry id) := by
  unfold pushSource
  split
  · rename_i hsource
    refine Evolves.modify fun e hid =>
      .pushed hevent ⟨⟨hsource.1, hsource.2, ?_⟩, Or.inl hentry⟩ hid
    rw [hentry]
    exact hpushes
  · exact .same

theorem evolves_granted {m : BotControlGranted} (hevent : w.event = .granted m)
    (claim : Except String (Option Nat)) : b.Evolves w id ((b.granted m claim).entry id) := by
  unfold granted
  split
  · rename_i e hentry
    split
    · rename_i hstate
      exact evolves_pop hevent (state_eq_some.mpr ⟨e, hentry, hstate⟩)
    · rename_i hstate
      split
      · exact Evolves.modify fun e _ hentry => .returned hentry
      · rename_i hnot
        exact evolves_grantActive hevent hentry hstate hnot
  · rename_i hentry
    split
    · rename_i hpushes
      have hsource : b.Evolves w id ((b.pushSource m).entry id) :=
        evolves_pushSource hevent hentry hpushes
      split
      · by_cases hid : id = sessionID m.threadID m.sub
        · rw [hid, dial_self, ← hid]
          exact .dialed (hid ▸ hentry)
        · rwa [dial_of_ne _ hid]
      · exact hsource
    · exact .same

theorem evolves_released (hevent : w.event = .released r) :
    b.Evolves w id ((b.released r).entry id) := by
  unfold released
  split
  · rename_i hreason
    unfold suspendForAgent
    split
    · exact .same
    · split
      · rename_i e hentry
        split
        · rename_i hrunning
          refine Evolves.modify fun e' hid hentry' => ?_
          cases hentry.symm.trans (hid ▸ hentry')
          exact .takenOver hevent hreason hid hentry' hrunning.1
        · exact .same
      · exact .same
  · split
    · exact .same
    · rename_i hreason
      unfold breakByThread
      split
      · exact .same
      · rename_i hthread
        dsimp only
        split
        · rename_i hid
          cases hentry : b.entry id with
          | none =>
            rw [Option.map_none, ← hentry]
            exact .same
          | some e => exact .left hevent (not_not.mp hreason) hthread hid hentry
        · exact .same

/-- A message only starts dialogs. -/
theorem nodeReceivers_entry (touch : String → Except String (Option Nat)) (m : Message)
    (endpoints : List Endpoint) (b : Board) (id : String) :
    (nodeReceivers touch m endpoints b).entry id = b.entry id ∨ (b.entry id = none ∧
      (nodeReceivers touch m endpoints b).entry id = some ⟨.running, false, false⟩) := by
  induction endpoints generalizing b with
  | nil => exact Or.inl rfl
  | cons endpoint endpoints ih =>
    unfold nodeReceivers
    split
    · exact ih b
    · split
      · exact ih b
      · rename_i hnone
        split
        · exact ih b
        · split
          · exact Or.inl rfl
          · exact ih b
          · by_cases hid : id = m.threadID ++ "." ++ endpoint.sub
            · subst hid
              have hentry := Option.not_isSome_iff_eq_none.mp hnone
              refine Or.inr ⟨hentry, ?_⟩
              rcases ih (b.dial (m.threadID ++ "." ++ endpoint.sub)) with hsame | ⟨hnone', -⟩
              · rw [hsame, dial_self]
              · rw [dial_self] at hnone'
                cases hnone'
            · rw [← dial_of_ne b hid]
              exact ih _

/-- All that a round of the listener does to a session. -/
theorem listen_evolves (b : Board) (w : Outside E) (id : String) :
    b.Evolves w id ((b.listen w).entry id) := by
  unfold listen
  cases hevent : w.event with
  | granted m => exact evolves_granted hevent _
  | released r => exact evolves_released hevent
  | message m =>
    dsimp only
    split
    · exact .same
    · unfold nodeMessage
      split
      · exact .same
      · rcases nodeReceivers_entry w.touch m m.receivers b id with hsame | ⟨hnone, hnew⟩
        · rw [hsame]
          exact .same
        · rw [hnew]
          exact .dialed hnone

/-- Who leaves a thread breaks all of it. -/
theorem listen_left (hevent : w.event = .released r) (hreason : r.reason = .clientLeave)
    (hthread : r.threadID ≠ "") (hid : (r.threadID ++ ".").isPrefixOf id = true) :
    (b.listen w).entry id = (b.entry id).map broken := by
  simp [listen, hevent, released, hreason, breakByThread, hthread, hid]

/-- A grant resumes a session that is suspended. -/
theorem listen_popped {m : BotControlGranted} (hevent : w.event = .granted m)
    (hsuspended : b.state (sessionID m.threadID m.sub) = some .suspended) :
    (b.listen w).state (sessionID m.threadID m.sub) = some .running := by
  obtain ⟨e, hentry, hstate⟩ := state_eq_some.mp hsuspended
  have hne : sessionID m.threadID m.sub ≠ m.releasedSessionID := m.releasedSessionID_ne.symm
  unfold listen granted
  simp only [hevent, hentry, hstate, if_true]
  unfold pop resume state
  rw [modify_self]
  split
  · rw [break_, modify_of_ne b hne, hentry]
    rfl
  · rw [hentry]
    rfl

theorem nodeReceivers_link (touch : String → Except String (Option Nat)) (m : Message)
    (endpoints : List Endpoint) (b : Board) :
    (nodeReceivers touch m endpoints b).link = b.link := by
  induction endpoints generalizing b with
  | nil => rfl
  | cons endpoint endpoints ih =>
    unfold nodeReceivers
    split
    · exact ih b
    · split
      · exact ih b
      · split
        · exact ih b
        · split
          · rfl
          · exact ih b
          · exact ih _

/-- A grant for a session that waits links it to a released session that is here. -/
theorem grantActive_link (b : Board) (m : BotControlGranted) :
    (m.releasedSessionID ≠ "" ∧ (b.entry m.releasedSessionID).isSome ∧ (b.grantActive m).link =
      update b.link (sessionID m.threadID m.sub) (some m.releasedSessionID)) ∨
    (¬ (m.releasedSessionID ≠ "" ∧ (b.entry m.releasedSessionID).isSome) ∧
      (b.grantActive m).link = b.link) := by
  unfold grantActive
  split
  · rename_i hnamed
    unfold adoptPush state
    cases hreleased : b.entry m.releasedSessionID with
    | none => exact Or.inr ⟨fun h => by simp at h, rfl⟩
    | some e =>
      refine Or.inl ⟨hnamed, rfl, ?_⟩
      split
      · rename_i hnone
        cases hnone
      · rfl
      · rfl
  · rename_i hnamed
    exact Or.inr ⟨fun h => hnamed h.1, rfl⟩

/-- So does the one for a session that is not here. -/
theorem pushSource_link (b : Board) (m : BotControlGranted) :
    (m.releasedSessionID ≠ "" ∧ (b.entry m.releasedSessionID).isSome ∧ (b.pushSource m).link =
      update b.link (sessionID m.threadID m.sub) (some m.releasedSessionID)) ∨
    (¬ (m.releasedSessionID ≠ "" ∧ (b.entry m.releasedSessionID).isSome) ∧
      (b.pushSource m).link = b.link) := by
  unfold pushSource
  split
  · rename_i hsource
    exact Or.inl ⟨hsource.1, hsource.2, rfl⟩
  · rename_i hsource
    exact Or.inr ⟨hsource, rfl⟩

/-- A grant links its bots, or leaves the links alone. -/
theorem granted_link (b : Board) (m : BotControlGranted) (claim : Except String (Option Nat)) :
    (b.Transfers m ∧ (b.granted m claim).link =
      update b.link (sessionID m.threadID m.sub) (some m.releasedSessionID)) ∨
    (¬ b.Transfers m ∧ (b.granted m claim).link = b.link) := by
  unfold granted
  cases hentry : b.entry (sessionID m.threadID m.sub) with
  | some e =>
    dsimp only
    have htransfers : b.Transfers m ↔ m.releasedSessionID ≠ "" ∧
        (b.entry m.releasedSessionID).isSome ∧ e.state ≠ .suspended ∧
        ¬ (m.reason = .agentHandback ∧ e.queued = true) := by
      unfold Transfers
      rw [hentry]
    rw [htransfers]
    split
    · rename_i hstate
      refine Or.inr ⟨fun h => h.2.2.1 hstate, ?_⟩
      unfold pop
      split <;> rfl
    · rename_i hstate
      split
      · rename_i hqueue
        exact Or.inr ⟨fun h => h.2.2.2 hqueue, rfl⟩
      · rename_i hqueue
        rcases b.grantActive_link m with ⟨hnamed, hheld, hlink⟩ | ⟨hnot, hlink⟩
        · exact Or.inl ⟨⟨hnamed, hheld, hstate, hqueue⟩, hlink⟩
        · exact Or.inr ⟨fun h => hnot ⟨h.1, h.2.1⟩, hlink⟩
  | none =>
    dsimp only
    have htransfers : b.Transfers m ↔ m.releasedSessionID ≠ "" ∧
        (b.entry m.releasedSessionID).isSome ∧ m.Pushes := by
      unfold Transfers
      rw [hentry]
    rw [htransfers]
    split
    · rename_i hpushes
      -- the claim decides whether the session is dialled, not what it is linked to
      have hdial : (match claim with
          | .ok (some _) => (b.pushSource m).dial (sessionID m.threadID m.sub)
          | _ => b.pushSource m).link = (b.pushSource m).link := by
        split <;> rfl
      rcases b.pushSource_link m with ⟨hnamed, hheld, hlink⟩ | ⟨hnot, hlink⟩
      · exact Or.inl ⟨⟨hnamed, hheld, hpushes⟩, hdial.trans hlink⟩
      · exact Or.inr ⟨fun h => hnot ⟨h.1, h.2.1⟩, hdial.trans hlink⟩
    · rename_i hpushes
      exact Or.inr ⟨fun h => hpushes h.2.2, rfl⟩

/-- All that a round of the listener does to the links. -/
theorem listen_link (b : Board) (w : Outside E) :
    (∃ m, w.event = .granted m ∧ b.Transfers m ∧ (b.listen w).link =
      update b.link (sessionID m.threadID m.sub) (some m.releasedSessionID)) ∨
    ((∀ m, w.event = .granted m → ¬ b.Transfers m) ∧ (b.listen w).link = b.link) := by
  unfold listen
  cases hevent : w.event with
  | granted m =>
    rcases b.granted_link m (w.claim m) with ⟨htransfers, hlink⟩ | ⟨htransfers, hlink⟩
    · exact Or.inl ⟨m, rfl, htransfers, hlink⟩
    · refine Or.inr ⟨?_, hlink⟩
      rintro m' ⟨⟩
      exact htransfers
  | released r =>
    refine Or.inr ⟨nofun, ?_⟩
    dsimp only
    unfold released suspendForAgent breakByThread
    split
    · split
      · rfl
      · split
        · split <;> rfl
        · rfl
    · split
      · rfl
      · split <;> rfl
  | message m =>
    refine Or.inr ⟨nofun, ?_⟩
    dsimp only
    unfold nodeMessage
    split
    · rfl
    · split
      · rfl
      · exact nodeReceivers_link ..

end Evolves

end Board

/-! ## The board of a server -/

/-- The connection is stored. -/
def Server.Stored (s : Server) (c : Ptr) : Prop := s.store.lookup c.id = some c.gen

/-- What the board says of a connection. -/
def Connection.entry (conn : Connection) (chans : Channels) : Entry where
  state := conn.state
  queued := conn.queueReturn.isSome
  cancelled := decide (chans.Closed conn.ctx)

/-- The board of a server -/
def Server.board (s : Server) : Board where
  entry id := (s.store.lookup id).map fun gen => (s.conns ⟨id, gen⟩).entry s.chans
  link id := s.pushParent.lookup id

/-- The channels of a connection besides its lifetime context -/
def Connection.others (conn : Connection) : List Nat := conn.runCtx :: conn.queueReturn.toList

/-- The lifetime contexts of the connections that are stored are their own. -/
structure Apart (s : Server) : Prop where
  made : ∀ c, s.Stored c →
    (s.conns c).ctx < s.chans.next ∧ ∀ n ∈ (s.conns c).others, n < s.chans.next
  apart : ∀ c d, s.Stored c → s.Stored d → (s.conns c).ctx ∉ (s.conns d).others
  unique : ∀ c d, s.Stored c → s.Stored d → (s.conns c).ctx = (s.conns d).ctx → c = d

theorem apart_init : Apart Server.init := ⟨nofun, nofun, nofun⟩

section Changes

variable {s m : Server} {c : Ptr}

/-- A session has one connection. -/
theorem Server.Stored.unique {d : Ptr} (hc : s.Stored c) (hd : s.Stored d) (hid : d.id = c.id) :
    d = c := by
  have hgen : c.gen = d.gen := Option.some.inj (hc.symm.trans (hid ▸ hd))
  obtain ⟨id, gen⟩ := c
  obtain ⟨id', gen'⟩ := d
  cases hid
  cases hgen
  rfl

theorem Server.Stored.entry (hc : s.Stored c) :
    s.board.entry c.id = some ((s.conns c).entry s.chans) := by
  show (s.store.lookup c.id).map _ = _
  rw [hc]
  rfl

theorem entry_of_none {id : String} (h : s.store.lookup id = none) : s.board.entry id = none := by
  show (s.store.lookup id).map _ = _
  rw [h]
  rfl

/-- A session that is not in both stores, or with the same entry, has the same entry. -/
theorem entry_congr {id : String} (hstore : m.store.lookup id = s.store.lookup id)
    (hentry : ∀ gen, s.Stored ⟨id, gen⟩ →
      (m.conns ⟨id, gen⟩).entry m.chans = (s.conns ⟨id, gen⟩).entry s.chans) :
    m.board.entry id = s.board.entry id := by
  cases hgen : s.store.lookup id with
  | none => rw [entry_of_none hgen, entry_of_none (hstore.trans hgen)]
  | some gen =>
    have hs : s.Stored ⟨id, gen⟩ := hgen
    have hm : m.Stored ⟨id, gen⟩ := hstore.trans hgen
    rw [hs.entry, hm.entry, hentry gen hs]

section

variable (h : Apart s)
include h

/-- New channels and fewer connections do no harm. -/
theorem Apart.frame (hstored : ∀ c, m.Stored c → s.Stored c)
    (hnext : s.chans.next ≤ m.chans.next) (hctx : ∀ c, (m.conns c).ctx = (s.conns c).ctx)
    (hothers : ∀ c, ∀ n ∈ (m.conns c).others, n ∈ (s.conns c).others ∨
      (s.chans.next ≤ n ∧ n < m.chans.next)) : Apart m where
  made c hc := by
    obtain ⟨hlt, hall⟩ := h.made c (hstored c hc)
    refine ⟨hctx c ▸ lt_of_lt_of_le hlt hnext, fun n hn => ?_⟩
    rcases hothers c n hn with hold | ⟨-, hnew⟩
    · exact lt_of_lt_of_le (hall n hold) hnext
    · exact hnew
  apart c d hc hd hmem := by
    rw [hctx c] at hmem
    rcases hothers d _ hmem with hold | ⟨hnew, -⟩
    · exact h.apart c d (hstored c hc) (hstored d hd) hold
    · exact absurd (h.made c (hstored c hc)).1 (not_lt.mpr hnew)
  unique c d hc hd heq := by
    rw [hctx c, hctx d] at heq
    exact h.unique c d (hstored c hc) (hstored d hd) heq

section

variable (hc : s.Stored c)
include hc

/-- To close a channel that is no lifetime context cancels no connection. -/
theorem Apart.closed_other (hd : s.Stored d) (hn : n ∈ (s.conns d).others) :
    (s.chans.close n).Closed (s.conns c).ctx ↔ s.chans.Closed (s.conns c).ctx := by
  rw [Channels.closed_close]
  refine or_iff_left ?_
  rintro ⟨rfl, -⟩
  exact h.apart c d hc hd hn

/-- A connection changes, and channels are made or closed: one entry changes. -/
theorem Apart.change {g : Connection → Connection}
    (hstore : m.store = s.store) (hlinks : m.pushParent = s.pushParent)
    (hconns : m.conns = (s.modify c g).conns) (hnext : s.chans.next ≤ m.chans.next)
    (hctx : (g (s.conns c)).ctx = (s.conns c).ctx)
    (hothers : ∀ n ∈ (g (s.conns c)).others, n ∈ (s.conns c).others ∨
      (s.chans.next ≤ n ∧ n < m.chans.next))
    (hself : (g (s.conns c)).entry m.chans = f ((s.conns c).entry s.chans))
    (hclosed : ∀ d, s.Stored d → d ≠ c →
      (m.chans.Closed (s.conns d).ctx ↔ s.chans.Closed (s.conns d).ctx)) :
    m.board = s.board.modify c.id f ∧ Apart m := by
  have hsame : ∀ d, d ≠ c → m.conns d = s.conns d := by
    intro d hd
    rw [hconns, Server.modify_of_ne _ hd]
  have hchanged : m.conns c = g (s.conns c) := by rw [hconns, Server.modify_self]
  constructor
  · refine Board.ext (funext fun id => ?_) ?_
    · by_cases hid : id = c.id
      · subst hid
        have hm : m.Stored c := by rwa [Server.Stored, hstore]
        rw [hm.entry, Board.modify_self, hc.entry, hchanged, hself, Option.map_some]
      · rw [Board.modify_of_ne _ hid]
        refine entry_congr (by rw [hstore]) fun gen hgen => ?_
        have hne : (⟨id, gen⟩ : Ptr) ≠ c := fun h => hid (congrArg Ptr.id h)
        simp [Connection.entry, hsame _ hne, hclosed ⟨id, gen⟩ hgen hne]
    · simp [Server.board, hlinks]
  · refine h.frame (fun d hd => ?_) hnext (fun d => ?_) fun d => ?_
    · rwa [Server.Stored, hstore] at hd
    · by_cases hd : d = c
      · rw [hd, hchanged, hctx]
      · rw [hsame d hd]
    · by_cases hd : d = c
      · rw [hd, hchanged]
        exact hothers
      · rw [hsame d hd]
        exact fun n hn => Or.inl hn

theorem suspend_board : (s.suspend c).board = s.board.suspend c.id ∧ Apart (s.suspend c) := by
  have hrun : (s.conns c).runCtx ∈ (s.conns c).others := List.mem_cons_self
  have hclosed : ∀ d, s.Stored d →
      ((s.suspend c).chans.Closed (s.conns d).ctx ↔ s.chans.Closed (s.conns d).ctx) :=
    fun d hd => h.closed_other hd hc hrun
  refine h.change hc (g := fun conn => { conn with state := .suspended }) rfl rfl rfl
    (by simp [Server.suspend]) rfl (fun n hn => Or.inl hn) ?_ fun d hd _ => hclosed d hd
  simp [Connection.entry, hclosed c hc]

theorem resume_board : (s.resume c).board = s.board.resume c.id ∧ Apart (s.resume c) := by
  refine h.change hc
    (g := fun conn => { conn with runCtx := s.chans.next, state := .running, resumeCh := true })
    rfl rfl rfl (Nat.le_succ _) rfl (fun n hn => ?_) rfl fun _ _ _ => Iff.rfl
  rcases List.mem_cons.mp hn with rfl | hn
  · exact Or.inr ⟨le_rfl, Nat.lt_succ_self _⟩
  · exact Or.inl (List.mem_cons_of_mem _ hn)

theorem break_board : (s.break_ c).board = s.board.break_ c.id ∧ Apart (s.break_ c) := by
  have hrun : (s.conns c).runCtx ∈ (s.conns c).others := List.mem_cons_self
  have hclosed : ∀ d, s.Stored d → ((s.break_ c).chans.Closed (s.conns d).ctx ↔
      s.chans.Closed (s.conns d).ctx ∨ d = c) := by
    intro d hd
    show ((s.chans.close _).close _).Closed _ ↔ _
    rw [Channels.closed_close, h.closed_other hd hc hrun, Channels.close_next]
    refine or_congr_right ⟨fun heq => h.unique d c hd hc heq.1, ?_⟩
    rintro rfl
    exact ⟨rfl, (h.made d hd).1⟩
  refine h.change hc (g := fun conn => { conn with state := .terminating }) rfl rfl rfl
    (by simp [Server.break_]) rfl (fun n hn => Or.inl hn) ?_ fun d hd hne => ?_
  · simp [Connection.entry, Board.broken, hclosed c hc]
  · simp [hclosed d hd, hne]

theorem returnFromQueue_board (hn : (s.conns c).queueReturn = some n) :
    (s.returnFromQueue c n).board = s.board.modify c.id (fun e => { e with queued := false }) ∧
      Apart (s.returnFromQueue c n) := by
  have hmem : n ∈ (s.conns c).others := by simp [Connection.others, hn]
  have hclosed : ∀ d, s.Stored d →
      ((s.returnFromQueue c n).chans.Closed (s.conns d).ctx ↔ s.chans.Closed (s.conns d).ctx) :=
    fun d hd => h.closed_other hd hc hmem
  refine h.change hc (g := fun conn => { conn with queueReturn := none }) rfl rfl rfl
    (by simp [Server.returnFromQueue]) rfl (fun k hk => Or.inl ?_) ?_ fun d hd _ => hclosed d hd
  · rw [List.mem_singleton.mp hk]
    exact List.mem_cons_self
  · simp [Connection.entry, hclosed c hc]

end

end

section Dial

variable (s) (id : String) (bot : Endpoint) (nested : Bool)

theorem dial_new : (s.dial id bot nested).conns ⟨id, s.made⟩ =
    ⟨bot, nested, .running, s.chans.next, s.chans.next + 1, false, none⟩ :=
  update_self ..

/-- What is stored after a dialog was made: its connection, and what was stored before. -/
theorem stored_dial {d : Ptr} (hd : (s.dial id bot nested).Stored d) :
    d = ⟨id, s.made⟩ ∨
      (d.id ≠ id ∧ s.Stored d ∧ (s.dial id bot nested).conns d = s.conns d) := by
  by_cases hid : d.id = id
  · refine Or.inl (Server.Stored.unique ?_ hd hid)
    exact AList.lookup_insert s.store
  · have hne : d ≠ ⟨id, s.made⟩ := fun h => hid (congrArg Ptr.id h)
    exact Or.inr ⟨hid, (AList.lookup_insert_ne hid).symm.trans hd, update_of_ne hne ..⟩

variable {s}

/-- A new connection has contexts of its own. -/
theorem dial_board (h : Apart s) :
    (s.dial id bot nested).board = s.board.dial id ∧ Apart (s.dial id bot nested) := by
  constructor
  · refine Board.ext (funext fun id' => ?_) rfl
    by_cases hid : id' = id
    · subst hid
      have hnew : (s.dial id' bot nested).Stored ⟨id', s.made⟩ := AList.lookup_insert s.store
      rw [hnew.entry, Board.dial_self, dial_new]
      simp [Connection.entry, Server.dial, Channels.not_closed_next]
    · rw [Board.dial_of_ne _ hid]
      refine entry_congr (AList.lookup_insert_ne hid) fun gen hgen => ?_
      have hne : (⟨id', gen⟩ : Ptr) ≠ ⟨id, s.made⟩ := fun h => hid (congrArg Ptr.id h)
      rw [show (s.dial id bot nested).conns ⟨id', gen⟩ = s.conns ⟨id', gen⟩ from
        update_of_ne hne ..]
      rfl
  · -- the two contexts of the new connection have the next two numbers
    have hnext : (s.dial id bot nested).chans.next = s.chans.next + 2 := rfl
    refine ⟨fun c hc => ?_, fun c d hc hd => ?_, fun c d hc hd => ?_⟩
    · rcases stored_dial s id bot nested hc with rfl | ⟨-, hc, hconn⟩
      · rw [dial_new, hnext]
        simp [Connection.others]
      · obtain ⟨hlt, hall⟩ := h.made c hc
        rw [hconn, hnext]
        exact ⟨by omega, fun n hn => by have := hall n hn; omega⟩
    · rcases stored_dial s id bot nested hc with rfl | ⟨-, hc, hcconn⟩ <;>
        rcases stored_dial s id bot nested hd with rfl | ⟨-, hd, hdconn⟩
      · rw [dial_new]
        simp [Connection.others]
      · rw [dial_new, hdconn]
        exact fun hmem => absurd ((h.made d hd).2 _ hmem) (lt_irrefl _)
      · rw [dial_new, hcconn]
        have := (h.made c hc).1
        simp only [Connection.others, Option.toList_none, List.mem_singleton]
        omega
      · rw [hcconn, hdconn]
        exact h.apart c d hc hd
    · rcases stored_dial s id bot nested hc with rfl | ⟨-, hc, hcconn⟩ <;>
        rcases stored_dial s id bot nested hd with rfl | ⟨-, hd, hdconn⟩
      · exact fun _ => rfl
      · rw [dial_new, hdconn]
        have := (h.made d hd).1
        simp only
        omega
      · rw [dial_new, hcconn]
        have := (h.made c hc).1
        simp only
        omega
      · rw [hcconn, hdconn]
        exact h.unique c d hc hd

end Dial

end Changes

/-! ## Rounds of the listener -/

section Rounds

variable {E : Type} {w : Outside E} {s s' : Server}

theorem link_board (h : Apart s) (child parent : String) :
    ({ s with pushParent := s.pushParent.insert child parent } : Server).board =
        s.board.setLink child parent ∧
      Apart { s with pushParent := s.pushParent.insert child parent } := by
  refine ⟨Board.ext rfl (funext fun id => ?_), h.made, h.apart, h.unique⟩
  by_cases hid : id = child
  · subst hid
    rw [Board.setLink_self]
    exact AList.lookup_insert _
  · rw [Board.setLink_of_ne _ hid]
    exact AList.lookup_insert_ne hid

theorem pop_board (h : Apart s) (m : BotControlGranted) {gen : Nat}
    (hc : s.Stored ⟨sessionID m.threadID m.sub, gen⟩) :
    (s.pop m ⟨sessionID m.threadID m.sub, gen⟩).board = s.board.pop m ∧
      Apart (s.pop m ⟨sessionID m.threadID m.sub, gen⟩) := by
  unfold Server.pop Board.pop
  split
  · cases hreleased : s.store.lookup m.releasedSessionID with
    | none =>
      rw [Board.break_, Board.modify_of_none (entry_of_none hreleased)]
      exact resume_board h hc
    | some released =>
      have hstored : s.Stored ⟨m.releasedSessionID, released⟩ := hreleased
      obtain ⟨hboard, hapart⟩ := break_board h hstored
      rw [← hboard]
      exact resume_board hapart hc
  · exact resume_board h hc

theorem adoptPush_board (h : Apart s) (id releasedID : String) :
    (s.adoptPush id releasedID).board = s.board.adoptPush id releasedID ∧
      Apart (s.adoptPush id releasedID) := by
  unfold Server.adoptPush Board.adoptPush Board.state
  cases hreleased : s.store.lookup releasedID with
  | none =>
    rw [entry_of_none hreleased]
    exact ⟨rfl, h⟩
  | some gen =>
    have hstored : s.Stored ⟨releasedID, gen⟩ := hreleased
    rw [hstored.entry]
    simp only [Option.map_some, Connection.entry]
    cases hstate : (s.conns ⟨releasedID, gen⟩).state with
    | running =>
      obtain ⟨hboard, hapart⟩ := suspend_board h hstored
      rw [← hboard]
      exact link_board hapart id releasedID
    | suspended | terminating => exact link_board h id releasedID

theorem pushSource_board (h : Apart s) (m : BotControlGranted) :
    (s.pushSource m).board = s.board.pushSource m ∧ Apart (s.pushSource m) := by
  unfold Server.pushSource Board.pushSource
  by_cases hnamed : m.releasedSessionID ≠ ""
  · cases hreleased : s.store.lookup m.releasedSessionID with
    | none => simp [entry_of_none hreleased, h]
    | some gen =>
      have hstored : s.Stored ⟨m.releasedSessionID, gen⟩ := hreleased
      obtain ⟨hboard, hapart⟩ := suspend_board h hstored
      rw [hstored.entry, if_pos hnamed, if_pos ⟨hnamed, rfl⟩, ← hboard]
      exact link_board hapart _ _
  · simp [not_not.mp hnamed, h]

/-- A grant does to the board what the board says. -/
theorem granted_board {m : BotControlGranted} (h : Apart s)
    (hgranted : Granted w s m r s') : s'.board = s.board.granted m (w.claim m) ∧ Apart s' := by
  unfold Board.granted
  cases hgranted with
  | @popped gen hstored hstate =>
    have hc : s.Stored ⟨sessionID m.threadID m.sub, gen⟩ := hstored
    rw [hc.entry]
    simp only [Connection.entry, hstate, if_true]
    exact pop_board h m hc
  | @returned gen n hstored hstate hreason hqueue =>
    have hc : s.Stored ⟨sessionID m.threadID m.sub, gen⟩ := hstored
    rw [hc.entry]
    simp only [Connection.entry, hstate, if_false, hreason, hqueue, Option.isSome_some, and_self,
      if_true]
    exact returnFromQueue_board h hc hqueue
  | @active gen hstored hstate hnot =>
    have hc : s.Stored ⟨sessionID m.threadID m.sub, gen⟩ := hstored
    have hrunning :
        ((s.conns ⟨sessionID m.threadID m.sub, gen⟩).entry s.chans).state ≠ .suspended :=
      hstate
    have hqueue : ¬ (m.reason = .agentHandback ∧
        ((s.conns ⟨sessionID m.threadID m.sub, gen⟩).entry s.chans).queued = true) := by
      rintro ⟨hreason, hsome⟩
      rw [Connection.entry, hnot hreason] at hsome
      cases hsome
    rw [hc.entry]
    dsimp only
    unfold Server.grantActive Board.grantActive
    split
    · exact adoptPush_board h _ _
    · exact ⟨rfl, h⟩
  | ignored hstored hreason =>
    rw [entry_of_none hstored]
    rw [if_neg hreason]
    exact ⟨rfl, h⟩
  | failed hstored hreason hclaim | claimed hstored hreason hclaim =>
    rw [entry_of_none hstored, hclaim]
    simp only [if_pos hreason]
    exact pushSource_board h m
  | started hstored hreason hclaim hroom =>
    rw [entry_of_none hstored, hclaim]
    simp only [if_pos hreason]
    obtain ⟨hboard, hapart⟩ := pushSource_board h m
    rw [← hboard]
    obtain ⟨hdial, hdialed⟩ :=
      dial_board (sessionID m.threadID m.sub) m.bot (decide (m.releasedSessionID ≠ "")) hapart
    exact ⟨hdial, hdialed.made, hdialed.apart, hdialed.unique⟩

/-! ### Control is released -/

theorem suspendForAgent_board {r : BotControlReleased} (h : Apart s)
    (hrun : (suspendForAgent r).run (exec w) s = some ((), s')) :
    s'.board = s.board.suspendForAgent r ∧ Apart s' := by
  unfold suspendForAgent at hrun
  unfold Board.suspendForAgent
  by_cases hsub : r.sub = 0
  · rw [if_pos hsub] at hrun ⊢
    cases hrun
    exact ⟨rfl, h⟩
  · rw [if_neg hsub] at hrun ⊢
    rw [run_bind, run_get] at hrun
    cases hstored : s.store.lookup (sessionID r.threadID r.sub) with
    | none =>
      rw [hstored] at hrun
      cases hrun
      rw [entry_of_none hstored]
      exact ⟨rfl, h⟩
    | some gen =>
      have hc : s.Stored ⟨sessionID r.threadID r.sub, gen⟩ := hstored
      rw [hc.entry]
      -- the three tests of the handler leave a connection that runs and waits in no queue
      cases hstate : (s.conns ⟨sessionID r.threadID r.sub, gen⟩).state with
      | suspended | terminating =>
        simp [hstored, Prog.run, exec, hstate] at hrun
        subst hrun
        simpa [Connection.entry, hstate] using h
      | running =>
        cases hqueue : (s.conns ⟨sessionID r.threadID r.sub, gen⟩).queueReturn with
        | some n =>
          simp [hstored, Prog.run, exec, hstate, hqueue] at hrun
          subst hrun
          simpa [Connection.entry, hstate, hqueue] using h
        | none =>
          simp [hstored, Prog.run, exec, hstate, hqueue, run_suspend] at hrun
          subst hrun
          simpa [Connection.entry, hstate, hqueue] using suspend_board h hc

/-- What is left of the board when the sessions of some keys have been broken. -/
def Board.breakKeys (start : String) : List String → Board → Board
  | [], b => b
  | key :: keys, b => breakKeys start keys (if start.isPrefixOf key then b.break_ key else b)

theorem breakKeys_board {start : String} {keys : List String} (h : Apart s)
    (hrun : (breakKeys start keys).run (exec w) s = some (n, s')) :
    s'.board = Board.breakKeys start keys s.board ∧ Apart s' := by
  induction keys generalizing s n with
  | nil =>
    cases hrun
    exact ⟨rfl, h⟩
  | cons key keys ih =>
    unfold breakKeys at hrun
    unfold Board.breakKeys
    by_cases hstart : start.isPrefixOf key = true
    · rw [if_pos hstart, run_bind, run_get] at hrun
      rw [if_pos hstart]
      cases hstored : s.store.lookup key with
      | none =>
        rw [hstored] at hrun
        rw [Board.break_, Board.modify_of_none (entry_of_none hstored)]
        exact ih h hrun
      | some gen =>
        have hc : s.Stored ⟨key, gen⟩ := hstored
        obtain ⟨hboard, hapart⟩ := break_board h hc
        simp only [hstored, Option.map_some, Option.bind_some, run_bind, run_break] at hrun
        obtain ⟨⟨broken, s''⟩, hrest, heq⟩ := Option.bind_eq_some_iff.mp hrun
        cases heq
        rw [← hboard]
        exact ih hapart hrest
    · rw [if_neg hstart] at hrun ⊢
      exact ih h hrun

/-- Some keys may be there twice, or belong to no session. -/
theorem Board.breakKeys_entry (start : String) (keys : List String) (b : Board) (id : String) :
    (Board.breakKeys start keys b).entry id =
      if id ∈ keys ∧ start.isPrefixOf id = true then (b.entry id).map broken else b.entry id := by
  induction keys generalizing b with
  | nil => simp [Board.breakKeys]
  | cons key keys ih =>
    rw [Board.breakKeys, ih]
    by_cases hid : id = key
    · subst hid
      by_cases hstart : start.isPrefixOf id = true
      · cases hentry : b.entry id <;> simp [hstart, hentry, Board.break_, Board.broken]
      · simp [hstart]
    · have hsame :
          (if start.isPrefixOf key = true then b.break_ key else b).entry id = b.entry id := by
        split
        · exact Board.modify_of_ne _ hid _
        · rfl
      simp [hsame, hid]

theorem Board.breakKeys_link (start : String) (keys : List String) (b : Board) :
    (Board.breakKeys start keys b).link = b.link := by
  induction keys generalizing b with
  | nil => rfl
  | cons key keys ih =>
    rw [Board.breakKeys, ih]
    split <;> rfl

theorem breakByThread_board {threadID : String} (h : Apart s)
    (hrun : (breakByThread threadID).run (exec w) s = some (n, s')) :
    s'.board = s.board.breakByThread threadID ∧ Apart s' := by
  unfold breakByThread at hrun
  unfold Board.breakByThread
  by_cases hthread : threadID = ""
  · rw [if_pos hthread] at hrun ⊢
    cases hrun
    exact ⟨rfl, h⟩
  · rw [if_neg hthread, run_bind, run_call] at hrun
    rw [if_neg hthread]
    obtain ⟨hboard, hapart⟩ := breakKeys_board h hrun
    refine ⟨?_, hapart⟩
    rw [hboard]
    refine Board.ext (funext fun id => ?_) (Board.breakKeys_link ..)
    rw [Board.breakKeys_entry]
    by_cases hmem : id ∈ s.store.keys
    · simp [hmem]
    · have hnone : s.board.entry id = none := entry_of_none (AList.lookup_eq_none.mpr hmem)
      simp [hnone]

theorem released_board (h : Apart s)
    (hrun : (handleBotControlReleased r).run (exec w) s = some ((), s')) :
    s'.board = s.board.released r ∧ Apart s' := by
  unfold handleBotControlReleased at hrun
  unfold Board.released
  by_cases htakeover : r.reason = .agentTakeover
  · rw [if_pos htakeover] at hrun ⊢
    exact suspendForAgent_board h hrun
  · rw [if_neg htakeover] at hrun ⊢
    by_cases hleave : r.reason ≠ .clientLeave
    · rw [if_pos hleave] at hrun ⊢
      cases hrun
      exact ⟨rfl, h⟩
    · rw [if_neg hleave, run_bind] at hrun
      rw [if_neg hleave]
      obtain ⟨⟨n, s''⟩, hbreak, hremove⟩ := Option.bind_eq_some_iff.mp hrun
      cases hremove
      exact breakByThread_board h hbreak

/-! ### Messages -/

/-- What `startDialog` does for a session that is not held. -/
theorem startDialog_board {id : String}
    (h : Apart s) (hnone : s.store.lookup id = none)
    (hrun : (startDialog id bot nested).run (exec w) s = some (r, s')) :
    Apart s' ∧ match w.touch id with
      | .error e => r = .error e ∧ s'.board = s.board
      | .ok none => r = .ok () ∧ s'.board = s.board
      | .ok (some _) => r = .ok () ∧ s'.board = s.board.dial id := by
  rw [run_startDialog w s bot nested hnone] at hrun
  cases htouch : w.touch id with
  | error e =>
    rw [htouch] at hrun
    cases hrun
    exact ⟨h, rfl, rfl⟩
  | ok owner =>
    rw [htouch] at hrun
    cases owner with
    | none =>
      cases hrun
      exact ⟨h, rfl, rfl⟩
    | some seq =>
      by_cases hroom : s.consume.length < consumeSize
      · simp only [if_pos hroom] at hrun
        cases hrun
        obtain ⟨hboard, hapart⟩ := dial_board id bot nested h
        exact ⟨⟨hapart.made, hapart.apart, hapart.unique⟩, rfl, hboard⟩
      · simp [hroom] at hrun

theorem nodeReceivers_board {m : Message}
    (h : Apart s) (hrun : (nodeReceivers m endpoints).run (exec w) s = some (r, s')) :
    s'.board = Board.nodeReceivers w.touch m endpoints s.board ∧ Apart s' := by
  -- along the receivers, with the server that the earlier ones have left
  induction endpoints generalizing s r with
  | nil =>
    cases hrun
    exact ⟨rfl, h⟩
  | cons endpoint endpoints ih =>
    unfold nodeReceivers at hrun
    unfold Board.nodeReceivers
    by_cases hbot : endpoint.issuer ≠ userTypeBot
    · rw [if_pos hbot] at hrun ⊢
      exact ih h hrun
    · rw [if_neg hbot, run_bind, run_get] at hrun
      rw [if_neg hbot]
      cases hstored : s.store.lookup (m.threadID ++ "." ++ endpoint.sub) with
      | some gen =>
        have hc : s.Stored ⟨m.threadID ++ "." ++ endpoint.sub, gen⟩ := hstored
        rw [hc.entry]
        simp only [hstored, Option.map_some, Option.bind_some, run_bind, run_call, exec] at hrun
        simpa using ih h hrun
      | none =>
        rw [entry_of_none hstored]
        simp only [hstored, Option.map_none, Option.bind_some] at hrun
        by_cases hsystem : m.isSystem = true
        · rw [if_pos hsystem] at hrun ⊢
          exact ih h hrun
        · rw [if_neg hsystem] at hrun ⊢
          rw [run_bind] at hrun
          obtain ⟨⟨r', s''⟩, hstart, hrest⟩ := Option.bind_eq_some_iff.mp hrun
          obtain ⟨hapart, hmatch⟩ := startDialog_board h hstored hstart
          cases htouch : w.touch (m.threadID ++ "." ++ endpoint.sub) with
          | error e =>
            rw [htouch] at hmatch
            obtain ⟨rfl, hboard⟩ := hmatch
            cases hrest
            exact ⟨hboard, hapart⟩
          | ok owner =>
            cases owner with
            | none =>
              rw [htouch] at hmatch
              obtain ⟨rfl, hboard⟩ := hmatch
              rw [← hboard]
              exact ih hapart hrest
            | some seq =>
              rw [htouch] at hmatch
              obtain ⟨rfl, hboard⟩ := hmatch
              rw [← hboard]
              exact ih hapart hrest

/-- A round of the listener does to the board what the board says. -/
theorem listen_board (h : Apart s) (hrun : (listen w.event).run (exec w) s = some ((), s')) :
    s'.board = s.board.listen w ∧ Apart s' := by
  unfold Board.listen
  cases hevent : w.event with
  | granted m =>
    rw [hevent] at hrun
    unfold listen at hrun
    rw [run_bind] at hrun
    obtain ⟨⟨r, s''⟩, hgranted, heq⟩ := Option.bind_eq_some_iff.mp hrun
    cases heq
    exact granted_board h (run_handleBotControlGranted_iff.mp hgranted)
  | released r =>
    rw [hevent] at hrun
    exact released_board h hrun
  | message m =>
    rw [hevent] at hrun
    unfold listen at hrun
    dsimp only at hrun ⊢
    by_cases hthread : m.threadID = ""
    · rw [if_pos hthread] at hrun ⊢
      cases hrun
      exact ⟨rfl, h⟩
    · rw [if_neg hthread, run_bind] at hrun
      rw [if_neg hthread]
      obtain ⟨⟨r, s''⟩, hmessage, heq⟩ := Option.bind_eq_some_iff.mp hrun
      cases heq
      unfold nodeMessage at hmessage
      unfold Board.nodeMessage
      by_cases hsender : m.sender.issuer = userTypeBot
      · rw [if_pos hsender] at hmessage ⊢
        cases hmessage
        exact ⟨rfl, h⟩
      · rw [if_neg hsender] at hmessage ⊢
        exact nodeReceivers_board h hmessage

end Rounds

end FlowManager.Im
