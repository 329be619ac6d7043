import FlowManager.Im.Connection

/-!
# The IM server (providers/im/server.go) and `runSchema` (routes/im/router.go)

The handlers of the listener and the goroutine of a dialog, as programs over the shared
state.

- `handleBotControlGranted`, `handleBotControlReleased`, `nodeMessage`: the handlers of the
  three kinds of events.
- `resumeParentOf`, `stopConnection`: what the goroutines of the dialogs do to the server.
- `handle`, `runSchema`, `park`: the goroutine of a dialog. Its loop is the label
  `Label.park`.
- `dialogs`: the listener and all dialogs, as a system of threads.
-/

namespace FlowManager.Im

open Concurrent

/-! ## The listener -/

/-- `ConnectionStore.BreakByThread`, over the keys that are left; the result is the number of
connections broken. -/
def breakKeys (start : String) : List String → Go Nat
  | [] => return 0
  | key :: keys =>
    if start.isPrefixOf key then do
      -- the connection may have been deleted since the keys were read
      match ← get key with
      | some conn =>
        break_ conn
        let broken ← breakKeys start keys
        return broken + 1
      | none => breakKeys start keys
    else breakKeys start keys

/-- `ConnectionStore.BreakByThread` -/
def breakByThread (threadID : String) : Go Nat :=
  if threadID = "" then return 0
  else do
    let keys ← access .keys
    breakKeys (threadID ++ ".") keys

/-- `server.suspendForAgent` -/
def suspendForAgent (released : BotControlReleased) : Go Unit :=
  if released.sub = 0 then return ()
  else do
    match ← get (sessionID released.threadID released.sub) with
    | none => return ()
    | some conn =>
      -- a dialog in a queue gets its agent by the queue
      if ← access (.isSuspended conn) then return ()
      else if ← access (.isTerminating conn) then return ()
      else if ← access (.inQueue conn) then return ()
      else suspend conn

/-- `server.handleBotControlReleased` -/
def handleBotControlReleased (released : BotControlReleased) : Go Unit :=
  if released.reason = .agentTakeover then suspendForAgent released
  else if released.reason ≠ .clientLeave then return ()
  else do
    let _ ← breakByThread released.threadID
    access (.removeByThread released.threadID)

/-- `server.startDialog` -/
def startDialog (id : String) (bot : Endpoint) (nested : Bool) : Go (Except String Unit) := do
  match ← get id with
  | some _ => return .ok ()
  | none =>
    match ← access (.touch id) with
    | .error e => return .error e
    -- another node owns the session
    | .ok none => return .ok ()
    | .ok (some _) =>
      let gen ← access (.dial id bot nested)
      access (.consume ⟨id, gen⟩)
      return .ok ()

/-- `server.resolveCustomerPeer` -/
def resolveCustomerPeer (m : BotControlGranted) (bot : Endpoint) : Go (Except String Endpoint) := do
  match ← access (.search m.threadID) with
  | .error e => return .error ("searching thread " ++ m.threadID ++ ": " ++ e)
  | .ok [] => return .error ("thread " ++ m.threadID ++ " not found")
  | .ok (members :: _) => return .ok (selectCustomerPeer members bot.sub)

/-- `server.adoptPush` -/
def adoptPush (id releasedID : String) : Go Unit := do
  match ← get releasedID with
  | none => return ()
  | some released =>
    -- the released bot becomes the parent in any case, but only one that runs is suspended
    if ← access (.isSuspended released) then
      access (.storeParent id releasedID)
    else if ← access (.isTerminating released) then
      access (.storeParent id releasedID)
    else
      suspend released
      access (.storeParent id releasedID)

/-- The pop branch of a grant: the released bot is torn down, and the suspended connection
goes on. -/
def pop (m : BotControlGranted) (conn : Ptr) : Go Unit :=
  if m.releasedSessionID ≠ "" then do
    match ← get m.releasedSessionID with
    | some released =>
      break_ released
      resume conn
    | none => resume conn
  else resume conn

/-- A grant for a connection that is stored and not suspended, unless it has returned from a
queue. -/
def grantActive (m : BotControlGranted) (conn : Ptr) : Go Unit :=
  if m.releasedSessionID ≠ "" then adoptPush conn.id m.releasedSessionID
  else return ()

/-- A grant for a connection that is stored. -/
def grantStored (m : BotControlGranted) (conn : Ptr) : Go Unit := do
  if ← access (.isSuspended conn) then pop m conn
  else if m.reason = .agentHandback then
    -- the dialog may be waiting in a queue; if not, the grant is like any other
    if ← access (.returnFromQueue conn) then return ()
    else grantActive m conn
  else grantActive m conn

/-- The granted bot -/
def BotControlGranted.bot (m : BotControlGranted) : Endpoint where
  sub := toString m.sub
  issuer := userTypeBot
  name := ""
  memberID := m.memberID
  role := 0

/-- The schema of the granted bot is started. -/
def startGranted (m : BotControlGranted) : Go (Except String Unit) := do
  match ← resolveCustomerPeer m m.bot with
  | .error e => return .error e
  | .ok peer =>
    if peer.sub = "" then
      return .error ("bot control granted: no customer peer resolved for thread " ++ m.threadID)
    else startDialog (sessionID m.threadID m.sub) m.bot (decide (m.releasedSessionID ≠ ""))

/-- The push branch of a grant: the released bot is suspended and becomes the parent. -/
def push (m : BotControlGranted) : Go (Except String Unit) :=
  if m.releasedSessionID ≠ "" then do
    match ← get m.releasedSessionID with
    | some released =>
      suspend released
      access (.storeParent (sessionID m.threadID m.sub) m.releasedSessionID)
      startGranted m
    | none => startGranted m
  else startGranted m

/-- `server.handleBotControlGranted` -/
def handleBotControlGranted (m : BotControlGranted) : Go (Except String Unit) := do
  match ← get (sessionID m.threadID m.sub) with
  | some conn =>
    grantStored m conn
    return .ok ()
  | none =>
    -- the schema starts with the first message of the customer
    if m.reason = .initial then return .ok ()
    else if m.reason = .agentHandback ∨ m.reason = .agentLeft then return .ok ()
    else push m

/-- The loop of `server.nodeMessage` over the receivers that are left. -/
def nodeReceivers (m : Message) : List Endpoint → Go (Except String Unit)
  | [] => return .ok ()
  | endpoint :: endpoints =>
    if endpoint.issuer ≠ userTypeBot then nodeReceivers m endpoints
    else do
      match ← get (m.threadID ++ "." ++ endpoint.sub) with
      | some conn =>
        access (.onMessage conn m)
        nodeReceivers m endpoints
      | none =>
        -- a notice starts no schema
        if m.isSystem = true then nodeReceivers m endpoints
        else
          match ← startDialog (m.threadID ++ "." ++ endpoint.sub) endpoint false with
          | .error e => return .error e
          | .ok () => nodeReceivers m endpoints

/-- `server.nodeMessage` -/
def nodeMessage (m : Message) : Go (Except String Unit) :=
  if m.sender.issuer = userTypeBot then return .ok ()
  else nodeReceivers m m.receivers

/-- One round of `server.listen`; errors are only logged. -/
def listen : Event → Go Unit
  | .granted m => do
    let _ ← handleBotControlGranted m
    return ()
  | .released r => handleBotControlReleased r
  | .message m =>
    if m.threadID = "" then return ()
    else do
      let _ ← nodeMessage m
      return ()

/-! ## The goroutine of a dialog -/

/-- `server.resumeParentOf` -/
def resumeParentOf (childID : String) : Go Unit := do
  match ← access (.takeParent childID) with
  | none => return ()
  | some parentID =>
    if parentID = "" then return ()
    else
      match ← get parentID with
      | none => return ()
      | some parent =>
        -- a grant may have resumed it already
        if ← access (.isSuspended parent) then resume parent
        else return ()

/-- `server.stopConnection` -/
def stopConnection (c : Ptr) : Go Unit := do
  access (.delete c.id)
  access (.deleteParent c.id)
  access (.removeSession c.id)

/-- Where a goroutine goes on: at the head of the listener's loop, or at the head of the park
loop of a dialog; or it has ended. -/
inductive Label where
  | listen
  | park (c : Ptr)
  | exit
  deriving DecidableEq

/-- `Connection.Stop`, the end of a dialog's goroutine -/
def stop (c : Ptr) : Go Label := do
  break_ c
  stopConnection c
  return .exit

/-- The natural end of a schema. -/
def finish (c : Ptr) : Go Label := do
  let id ← access (.completeId c)
  if id ≠ "" then
    access (.complete c id)
  resumeParentOf c.id
  access (.disconnected c)
  stop c

/-- The accesses behind the park loop. -/
def Op.closing : Op → Bool
  | .get _ => true
  | .delete _ => true
  | .isSuspended _ => true
  | .store .. => true
  | .cancels _ => true
  | .cancel _ => true
  | .newRun _ => true
  | .signal _ => true
  | .completeId _ => true
  | .takeParent _ => true
  | .deleteParent _ => true
  | .removeSession _ => true
  | .complete .. => true
  | .disconnected _ => true
  | _ => false

/-- What a goroutine does once it will not come back to the park loop. -/
abbrev Closing (p : Go Label) : Prop := p.Uses (·.closing = true) (· = .exit)

theorem closing_stop (c : Ptr) : Closing (stop c) := by
  iterate 7 refine ⟨rfl, fun _ => ?_⟩
  rfl

theorem uses_resumeParentOf (id : String) :
    (resumeParentOf id).Uses (·.closing = true) fun _ => True := by
  refine ⟨rfl, ?_⟩
  rintro (_ | parentID)
  · trivial
  · by_cases hid : parentID = ""
    · simp [hid, Prog.Uses]
    · simp only [ret_bind, Prog.bind_eq, if_neg hid]
      refine ⟨rfl, ?_⟩
      rintro (_ | gen)
      · trivial
      · refine ⟨rfl, ?_⟩
        rintro (_ | _)
        · trivial
        · iterate 3 refine ⟨rfl, fun _ => ?_⟩
          trivial

theorem closing_finish (c : Ptr) : Closing (finish c) := by
  have hend : Closing (do resumeParentOf c.id; access (.disconnected c); stop c) :=
    (uses_resumeParentOf c.id).bind fun _ _ => ⟨rfl, fun _ => closing_stop c⟩
  refine ⟨rfl, fun id => ?_⟩
  by_cases hid : id = ""
  · simpa [hid] using hend
  · simp only [Prog.bind_eq, ret_bind, ne_eq, hid, not_false_eq_true, if_true]
    exact ⟨rfl, fun _ => hend⟩

/-- What follows the park loop. -/
def leave (c : Ptr) : Go Label := do
  -- not suspended, which is not to say that the schema has ended
  if ← access (.isTerminating c) then stop c
  else finish c

/-- One round of the park loop of `runSchema`. -/
def park (c : Ptr) : Go Label := do
  if ← access (.isSuspended c) then
    if ← access (.isTerminating c) then stop c
    else if ← access (.awaitResume c) then
      -- the flow goes on where the suspension has cut it off
      access (.repeatInterrupted c)
      let ctx ← access (.runContext c)
      access (.route c ctx)
      return .park c
    else stop c
  else leave c

/-- `Router.runSchema` up to the park loop; without a schema the dialog is stopped. -/
def runSchema (c : Ptr) (ctx : Nat) : Go Label := do
  match ← access (.routing c) with
  | none => stop c
  | some schema =>
    access (.newFlow c schema)
    access (.route c ctx)
    return .park c

/-- `Router.handle` -/
def handle (c : Ptr) : Go Label := do
  access (.take c)
  let ctx ← access (.runContext c)
  runSchema c ctx

/-! ## The system -/

/-- The goroutines -/
inductive Thread where
  | listener
  | runner (c : Ptr)
  deriving DecidableEq

/-- The code behind the labels of dialogs. -/
def Label.code : Label → Option (Go Label)
  | .park c => some (Im.park c)
  | _ => none

/-- The listener handles any events, among the goroutines of the dialogs. -/
def dialogs (E : Type) : System Server (Outside E) Op Op.Result Label where
  exec := exec
  code w
    | .listen => some do
        listen w.event
        return .listen
    | l => l.code
  env := Env

/-- Services that find a customer in every thread, grant every session, and have a schema for
every bot: it waits for one message. -/
def helpful : Outside Unit where
  event := .message ⟨"", Endpoint.zero, [], "", none⟩
  search _ := .ok [[⟨"member", roleOwner, some ⟨"customer", "webitel", "", false⟩⟩]]
  touch _ := .ok (some 1)
  routing _ := some [[("recvMessage", .null)]]
  world := steadyWorld
  env := ()
  iterations := 2
  prefersResume := true

abbrev ServerPool := Pool Thread Server Op Op.Result Label

/-- The goroutines at their start: the listener has handled no event yet, and every dialog
waits until it is dispatched. -/
def atStart (s : Server) : ServerPool where
  shared := s
  thread
    | .listener => .ret .listen
    | .runner c => handle c

end FlowManager.Im
