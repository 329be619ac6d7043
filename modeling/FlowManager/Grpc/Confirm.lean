import FlowManager.Flow.Program
import FlowManager.Lib.Channel
import FlowManager.Lib.Outline

/-!
# Confirmed messages of a chat conversation

`receive` registers a channel under a new confirmation id, asks the chat server for messages with
`WaitMessage`, and if there are none waits on its channel. The chat server sends the messages that
come later with `ConfirmationMessage`, which looks up the channel of the id and offers them on it
for five seconds; it reports success whether they were taken or not. `ReceiveMessage` calls
`receive` until it fails, and returns the texts of all messages.

A send that has not ended is an offer with a number, as in `Lib.Channel`. Confirmation ids are
numbers too: `NewId` gives none twice. How long a timer runs is not modelled: it may go off at
any moment.

- `receive`, `receiveMessage`, `collect`, `confirmationMessage`: the code, access by access.
- `chat_outline`: what a step of it can do.
-/

namespace FlowManager.Grpc.Confirm

open Concurrent

/-- The part of a `chat.Message` that is turned into text -/
structure Message where
  type : String
  text : String
  /-- `Contact.Contact`, if there is a contact -/
  contact : Option String
  deriving DecidableEq

/-- The text of a message, if it has one -/
def Message.toText (m : Message) : Option String :=
  if m.type = "contact" then m.contact else some m.text

/-- `messageToText` -/
def messageToText (messages : List Message) : List String := messages.filterMap Message.toText

/-- The part of a `conversation` that the receiving of messages is about -/
structure Conversation where
  /-- the next id of `NewId` -/
  ids : Nat
  confirmation : Nat → Option Nat
  chans : Channels (List Message)
  /-- `c.ctx` has ended -/
  ended : Bool
  storeMessages : List (String × Message)
  messages : List Message

namespace Conversation

def setConfirmation (c : Conversation) (id : Nat) (ch : Option Nat) : Conversation :=
  { c with confirmation := Function.update c.confirmation id ch }

def withdraw (c : Conversation) (ticket : Nat) : Conversation :=
  { c with chans := c.chans.withdraw ticket }

end Conversation

/-- The accesses -/
inductive Op where
  /-- `model.NewId()` -/
  | newId
  | makeChan
  | addConfirmationId (id ch : Nat)
  | deleteConfirmationId (id : Nat)
  | waitMessage (id : Nat)
  /-- the `select` of `receive` -/
  | select (ch : Nat)
  /-- `c.storeMessages[name] = ..` -/
  | store (name : String) (m : Message)
  | saveMessages (msgs : List Message)
  | getConversationFromRequest (id : String)
  /-- `conv.confirmation[id]` -/
  | confirmation (id : Nat)
  /-- `conf <- msgs` begins -/
  | offer (conf : Nat) (msgs : List Message)
  /-- the `select` of `ConfirmationMessage`, in which `conf <- msgs` is the send `ticket` -/
  | sent (conf ticket : Nat)
  /-- `c.cancel()` -/
  | cancel

/-- The answer to an access. -/
abbrev Op.Result : Op → Type
  | .newId => Nat
  | .makeChan => Nat
  | .waitMessage _ => Except String (List Message)
  | .select _ => Except AppError (List Message)
  | .getConversationFromRequest _ => Option AppError
  | .confirmation _ => Option Nat
  | .offer _ _ => Nat
  | _ => Unit

/-- How `receive` leaves its `select`. -/
inductive Leave where
  | done
  | timeout
  | message
  deriving DecidableEq

/-- What is missing for a request to the chat server -/
inductive Missing where
  | conversation
  | client (err : String)

/-- `workflow.ConfirmationMessageRequest` -/
structure Request where
  conversationId : String
  confirmationId : Nat
  messages : List Message

/-- The arguments of `ReceiveMessage` -/
structure Args where
  name : String
  messageTimeout : Int

/-- What comes from outside. -/
structure Outside where
  args : Args
  /-- the answer of `WaitMessage` -/
  reply : Except String (List Message)
  leave : Leave
  request : Request
  missing : Option Missing
  /-- the timer of `ConfirmationMessage` has gone off -/
  late : Bool

def errWaitMessage (details : String) : AppError :=
  ⟨"Conversation.WaitMessage", "conv.wait.msg.app_err", details, 500⟩

def errCancel : AppError :=
  ⟨"Conversation.WaitMessage", "conv.timeout.msg.app_err", "Cancel", 500⟩

/-- `ErrWaitMessageTimeout` -/
def errWaitMessageTimeout : AppError :=
  ⟨"Conversation.WaitMessage", "conv.timeout.msg", "Timeout", 500⟩

def errNotFound : AppError :=
  ⟨"ConfirmationMessage", "chat.confirmation_message.not_found", "Not found", 404⟩

/-- The errors of `getConversationFromRequest` -/
def Missing.error (id : String) : Missing → AppError
  | .conversation =>
    ⟨"Chat", "grpc.chat.conversation.not_found", s!"Conversation {id} not found", 404⟩
  | .client err => ⟨"Chat", "grpc.chat.client.not_found", err, 404⟩

/-- The accesses, each answered and made; `none` if they cannot be made yet. -/
def exec (w : Outside) : (a : Op) → Conversation → Option (a.Result × Conversation)
  | .newId, c => some (c.ids, { c with ids := c.ids + 1 })
  | .makeChan, c => some (c.chans.next, { c with chans := c.chans.make })
  | .addConfirmationId id ch, c => some ((), c.setConfirmation id (some ch))
  | .deleteConfirmationId id, c => some ((), c.setConfirmation id none)
  | .waitMessage _, c => some (w.reply, c)
  | .select ch, c =>
    match w.leave with
    | .done => if c.ended then some (.error errCancel, c) else none
    | .timeout => some (.error errWaitMessageTimeout, c)
    | .message =>
      match c.chans.first ch with
      | some o => some (.ok o.value, c.withdraw o.ticket)
      | none => none
  | .store name m, c => some ((), { c with storeMessages := (name, m) :: c.storeMessages })
  | .saveMessages msgs, c => some ((), { c with messages := c.messages ++ msgs })
  | .getConversationFromRequest id, c => some (w.missing.map (Missing.error id), c)
  | .confirmation id, c => some (c.confirmation id, c)
  | .offer conf msgs, c => some (c.chans.next, { c with chans := c.chans.offer conf msgs })
  | .sent _ ticket, c =>
    match c.chans.standing ticket with
    -- somebody has taken the messages
    | none => some ((), c)
    -- nobody reads: after 5 s the request returns as if it had delivered the messages
    | some _ => if w.late then some ((), c.withdraw ticket) else none
  | .cancel, c => some ((), { c with ended := true })

abbrev Go := Prog Op Op.Result

/-- A single access. -/
abbrev access (a : Op) : Go a.Result := call a

/-- Where a goroutine goes on. -/
inductive Label where
  /-- the flow is not in `ReceiveMessage` -/
  | idle
  /-- the loop of `ReceiveMessage` -/
  | collecting (name : String) (msgs : List Message)
  /-- `ReceiveMessage` has returned -/
  | received (r : Except AppError (List String))
  /-- no request -/
  | standby
  /-- `ConfirmationMessage` has returned success for the send `ticket` -/
  | confirmed (ticket : Nat) (msgs : List Message)
  /-- `ConfirmationMessage` has returned an error -/
  | refused (err : AppError)
  /-- the conversation may end -/
  | client

/-- `conversation.receive`, from the answer of `WaitMessage` to the deferred call -/
def answered (ch : Nat) : Except String (List Message) → Go (Except AppError (List Message))
  | .error err => return .error (errWaitMessage err)
  | .ok [] => access (.select ch)
  | .ok (m :: msgs) => return .ok (m :: msgs)

/-- `conversation.receive` -/
def receive : Go (Except AppError (List Message)) := do
  let id ← access .newId
  let ch ← access .makeChan
  access (.addConfirmationId id ch)
  let got ← answered ch (← access (.waitMessage id))
  -- deferred, so that it comes after the `select` on every way out
  access (.deleteConfirmationId id)
  return got

/-- The end of `ReceiveMessage` -/
def save (msgs : List Message) : Go Label := do
  access (.saveMessages msgs)
  return .received (.ok (messageToText msgs))

/-- `ReceiveMessage` after its loop -/
def keep (name : String) (msgs : List Message) : Go Label :=
  match msgs with
  | [] => save []
  | m :: rest =>
    if name ≠ "" then do
      access (.store name m)
      save (m :: rest)
    else save (m :: rest)

/-- `conversation.ReceiveMessage`, up to its loop -/
def receiveMessage (args : Args) : Go Label := do
  match ← receive with
  | .error err => return .received (.error err)
  | .ok msgs =>
    if 0 < args.messageTimeout then return .collecting args.name msgs else keep args.name msgs

/-- One round of the loop of `ReceiveMessage` -/
def collect (name : String) (msgs : List Message) : Go Label := do
  match ← receive with
  -- any error ends the window, and what has come before it is returned
  | .error _ => keep name msgs
  | .ok m => return .collecting name (msgs ++ m)

/-- `chatApi.ConfirmationMessage` -/
def confirmationMessage (req : Request) : Go Label := do
  match ← access (.getConversationFromRequest req.conversationId) with
  | some err => return .refused err
  | none =>
    match ← access (.confirmation req.confirmationId) with
    | none => return .refused errNotFound
    | some conf =>
      let ticket ← access (.offer conf req.messages)
      access (.sent conf ticket)
      return .confirmed ticket req.messages

/-- The flows of the conversation, the requests of the chat server, and who ends it -/
inductive Thread (n k : Nat) where
  | flow (i : Fin n)
  | server (j : Fin k)
  | client
  deriving DecidableEq

/-- A conversation whose flows call `ReceiveMessage` again and again, with `ConfirmationMessage`
requests for any ids. -/
def chat : System Conversation Outside Op Op.Result Label where
  exec := exec
  code w
    | .idle => some (receiveMessage w.args)
    | .collecting name msgs => some (collect name msgs)
    | .received _ => some (.ret .idle)
    | .standby => some (confirmationMessage w.request)
    | .confirmed _ _ => some (.ret .standby)
    | .refused _ => some (.ret .standby)
    | .client => some do
        access .cancel
        return .client
  env _ _ := False

abbrev ChatPool (n k : Nat) := Pool (Thread n k) Conversation Op Op.Result Label

/-- `NewConversation` -/
def newConversation (n k : Nat) : ChatPool n k where
  shared := ⟨0, fun _ => none, .empty, false, [], []⟩
  thread
    | .flow _ => .ret .idle
    | .server _ => .ret .standby
    | .client => .ret .client

/-! ## Points of the code -/

/-- Which call of `receive` it is: the first one of a `ReceiveMessage`, or one of its loop, which
has the messages so far. -/
inductive Round where
  | first (args : Args)
  | loop (name : String) (msgs : List Message)

/-- What `ReceiveMessage` does with what `receive` returns. -/
def Round.after : Round → Except AppError (List Message) → Go Label
  | .first _, .error err => .ret (.received (.error err))
  | .first args, .ok msgs =>
    if 0 < args.messageTimeout then .ret (.collecting args.name msgs) else keep args.name msgs
  | .loop name msgs, .error _ => keep name msgs
  | .loop name msgs, .ok m => .ret (.collecting name (msgs ++ m))

/-- Where a flow is. -/
inductive FlowPoint where
  | idle
  | naming (r : Round)
  | making (r : Round) (id : Nat)
  | adding (r : Round) (id ch : Nat)
  | calling (r : Round) (id ch : Nat)
  | selecting (r : Round) (id ch : Nat)
  | deleting (r : Round) (id ch : Nat) (got : Except AppError (List Message))
  | collecting (name : String) (msgs : List Message)
  | storing (name : String) (m : Message) (msgs : List Message)
  | saving (msgs : List Message)
  | received (r : Except AppError (List String))

def FlowPoint.prog : FlowPoint → Go Label
  | .idle => .ret .idle
  | .naming r => .act .newId fun id => .act .makeChan fun ch =>
      .act (.addConfirmationId id ch) fun _ => .act (.waitMessage id) fun reply =>
        answered ch reply >>= fun got => .act (.deleteConfirmationId id) fun _ => r.after got
  | .making r id => .act .makeChan fun ch => .act (.addConfirmationId id ch) fun _ =>
      .act (.waitMessage id) fun reply => answered ch reply >>= fun got =>
        .act (.deleteConfirmationId id) fun _ => r.after got
  | .adding r id ch => .act (.addConfirmationId id ch) fun _ =>
      .act (.waitMessage id) fun reply => answered ch reply >>= fun got =>
        .act (.deleteConfirmationId id) fun _ => r.after got
  | .calling r id ch => .act (.waitMessage id) fun reply => answered ch reply >>= fun got =>
      .act (.deleteConfirmationId id) fun _ => r.after got
  | .selecting r id ch => .act (.select ch) fun got =>
      .act (.deleteConfirmationId id) fun _ => r.after got
  | .deleting r id _ got => .act (.deleteConfirmationId id) fun _ => r.after got
  | .collecting name msgs => .ret (.collecting name msgs)
  | .storing name m msgs => .act (.store name m) fun _ => save (m :: msgs)
  | .saving msgs => save msgs
  | .received r => .ret (.received r)

/-- Where a request is. -/
inductive ServerPoint where
  | standby
  | finding (req : Request)
  | looking (req : Request)
  | offering (conf : Nat) (msgs : List Message)
  | sending (conf ticket : Nat) (msgs : List Message)
  | confirmed (ticket : Nat) (msgs : List Message)
  | refused (err : AppError)

def ServerPoint.prog : ServerPoint → Go Label
  | .standby => .ret .standby
  | .finding req => confirmationMessage req
  | .looking req => .act (.confirmation req.confirmationId) fun
      | none => .ret (.refused errNotFound)
      | some conf => .act (.offer conf req.messages) fun ticket => .act (.sent conf ticket) fun _ =>
          .ret (.confirmed ticket req.messages)
  | .offering conf msgs => .act (.offer conf msgs) fun ticket => .act (.sent conf ticket) fun _ =>
      .ret (.confirmed ticket msgs)
  | .sending conf ticket msgs => .act (.sent conf ticket) fun _ => .ret (.confirmed ticket msgs)
  | .confirmed ticket msgs => .ret (.confirmed ticket msgs)
  | .refused err => .ret (.refused err)

/-- Where the end of the conversation is. -/
inductive ClientPoint where
  | idle
  | cancelling

def ClientPoint.prog : ClientPoint → Go Label
  | .idle => .ret .client
  | .cancelling => .act .cancel fun _ => .ret .client

/-- The points of a goroutine -/
abbrev Point {n k : Nat} : Thread n k → Type
  | .flow _ => FlowPoint
  | .server _ => ServerPoint
  | .client => ClientPoint

/-- What a goroutine has still to do. -/
def progAt {n k : Nat} : (t : Thread n k) → Point t → Go Label
  | .flow _ => FlowPoint.prog
  | .server _ => ServerPoint.prog
  | .client => ClientPoint.prog

/-- Where `ReceiveMessage` ends with the messages. -/
def FlowPoint.keep (name : String) : List Message → FlowPoint
  | [] => .saving []
  | m :: rest => if name ≠ "" then .storing name m rest else .saving (m :: rest)

/-- Where `ReceiveMessage` goes on after a `receive`. -/
def Round.landing : Round → Except AppError (List Message) → FlowPoint
  | .first _, .error err => .received (.error err)
  | .first args, .ok msgs =>
    if 0 < args.messageTimeout then .collecting args.name msgs else .keep args.name msgs
  | .loop name msgs, .error _ => .keep name msgs
  | .loop name msgs, .ok m => .collecting name (msgs ++ m)

theorem FlowPoint.keep_prog (name : String) (msgs : List Message) :
    Confirm.keep name msgs = (FlowPoint.keep name msgs).prog := by
  cases msgs with
  | nil => rfl
  | cons m rest =>
    simp only [Confirm.keep, FlowPoint.keep]
    split <;> rfl

theorem Round.landing_prog (r : Round) (got : Except AppError (List Message)) :
    r.after got = (r.landing got).prog := by
  cases r with
  | first args =>
    cases got with
    | error err => rfl
    | ok msgs =>
      simp only [Round.after, Round.landing]
      split
      · rfl
      · exact FlowPoint.keep_prog args.name msgs
  | loop name msgs =>
    cases got with
    | error err => exact FlowPoint.keep_prog name msgs
    | ok m => rfl

/-- A flow moves. -/
inductive FlowMoves (m : Conversation) : FlowPoint → Option Op → Conversation → FlowPoint → Prop
    where
  | start : FlowMoves m .idle none m (.naming (.first args))
  | newId : FlowMoves m (.naming r) (some .newId) { m with ids := m.ids + 1 } (.making r m.ids)
  | make {id : Nat} :
      FlowMoves m (.making r id) (some .makeChan)
        { m with chans := m.chans.make } (.adding r id m.chans.next)
  | add {id ch : Nat} :
      FlowMoves m (.adding r id ch) (some (.addConfirmationId id ch))
        (m.setConfirmation id (some ch)) (.calling r id ch)
  | wait {id ch : Nat} :
      FlowMoves m (.calling r id ch) (some (.waitMessage id)) m (.selecting r id ch)
  /-- `WaitMessage` has messages, or fails -/
  | answer {r : Round} {id ch : Nat} {got : Except AppError (List Message)} :
      FlowMoves m (.calling r id ch) (some (.waitMessage id)) m (.deleting r id ch got)
  | take {r : Round} {id ch : Nat} {o : Offer (List Message)} (h : m.chans.first ch = some o) :
      FlowMoves m (.selecting r id ch) (some (.select ch)) (m.withdraw o.ticket)
        (.deleting r id ch (.ok o.value))
  | giveUp {r : Round} {id ch : Nat} {err : AppError} :
      FlowMoves m (.selecting r id ch) (some (.select ch)) m (.deleting r id ch (.error err))
  | delete {r : Round} {id ch : Nat} {got : Except AppError (List Message)} :
      FlowMoves m (.deleting r id ch got) (some (.deleteConfirmationId id))
        (m.setConfirmation id none) (r.landing got)
  | again : FlowMoves m (.collecting name msgs) none m (.naming (.loop name msgs))
  | store :
      FlowMoves m (.storing name x msgs) (some (.store name x))
        { m with storeMessages := (name, x) :: m.storeMessages } (.saving (x :: msgs))
  | save :
      FlowMoves m (.saving msgs) (some (.saveMessages msgs))
        { m with messages := m.messages ++ msgs } (.received (.ok (messageToText msgs)))
  | back : FlowMoves m (.received r) none m .idle

/-- A request moves. -/
inductive ServerMoves (m : Conversation) :
    ServerPoint → Option Op → Conversation → ServerPoint → Prop where
  | start : ServerMoves m .standby none m (.finding req)
  | missing :
      ServerMoves m (.finding req) (some (.getConversationFromRequest req.conversationId)) m
        (.refused err)
  | found :
      ServerMoves m (.finding req) (some (.getConversationFromRequest req.conversationId)) m
        (.looking req)
  | unknown :
      ServerMoves m (.looking req) (some (.confirmation req.confirmationId)) m
        (.refused errNotFound)
  | look (h : m.confirmation req.confirmationId = some conf) :
      ServerMoves m (.looking req) (some (.confirmation req.confirmationId)) m
        (.offering conf req.messages)
  | offer :
      ServerMoves m (.offering conf msgs) (some (.offer conf msgs))
        { m with chans := m.chans.offer conf msgs } (.sending conf m.chans.next msgs)
  | sent {conf ticket : Nat} {msgs : List Message} (h : m.chans.standing ticket = none) :
      ServerMoves m (.sending conf ticket msgs) (some (.sent conf ticket)) m
        (.confirmed ticket msgs)
  | late {conf ticket : Nat} {msgs : List Message} {o : Offer (List Message)}
      (h : m.chans.standing ticket = some o) :
      ServerMoves m (.sending conf ticket msgs) (some (.sent conf ticket)) (m.withdraw ticket)
        (.confirmed ticket msgs)
  | back : ServerMoves m (.confirmed ticket msgs) none m .standby
  | backRefused : ServerMoves m (.refused err) none m .standby

/-- The conversation ends. -/
inductive ClientMoves (m : Conversation) :
    ClientPoint → Option Op → Conversation → ClientPoint → Prop where
  | start : ClientMoves m .idle none m .cancelling
  | cancel : ClientMoves m .cancelling (some .cancel) { m with ended := true } .idle

/-- What a goroutine can do. -/
def moves {n k : Nat} :
    (t : Thread n k) → Conversation → Point t → Option Op → Conversation → Point t → Prop
  | .flow _ => FlowMoves
  | .server _ => ServerMoves
  | .client => ClientMoves

/-- A `ReceiveMessage` begins with a `receive`, in its first round and in its loop. -/
theorem receive_bind (r : Round) (hf : ∀ got, f got = r.after got) :
    (receive >>= f) = (FlowPoint.naming r).prog := by
  rw [funext hf]
  simp only [receive, call_bind, act_bind, bind_bind, pure_eq, ret_bind]
  rfl

theorem flow_leads (m : Conversation) (pt : FlowPoint) :
    Leads exec chat.code FlowPoint.prog FlowMoves m pt := by
  cases pt with
  | idle =>
    rintro w _ ⟨⟩
    refine ⟨.naming (.first w.args), receive_bind _ fun got => ?_, .start⟩
    cases got <;> rfl
  | naming rd => exact .act .newId
  | making rd id => exact .act .make
  | adding rd id ch => exact .act .add
  | calling rd id ch =>
    rintro w _ ⟨⟩
    cases w.reply with
    | error err => exact ⟨.deleting rd id ch (.error (errWaitMessage err)), rfl, .answer⟩
    | ok msgs =>
      cases msgs with
      | nil => exact ⟨.selecting rd id ch, rfl, .wait⟩
      | cons x rest => exact ⟨.deleting rd id ch (.ok (x :: rest)), rfl, .answer⟩
  | selecting rd id ch =>
    intro w y hexec
    simp only [exec] at hexec
    split at hexec
    · split at hexec <;> cases hexec
      exact ⟨.deleting rd id ch (.error errCancel), rfl, .giveUp⟩
    · cases hexec
      exact ⟨.deleting rd id ch (.error errWaitMessageTimeout), rfl, .giveUp⟩
    · split at hexec <;> cases hexec
      exact ⟨.deleting rd id ch (.ok _), rfl, .take ‹_›⟩
  | deleting rd id ch got => exact .act .delete rfl (fun _ => rfl) (rd.landing_prog got)
  | collecting name msgs =>
    rintro w _ ⟨⟩
    refine ⟨.naming (.loop name msgs), receive_bind _ fun got => ?_, .again⟩
    cases got <;> rfl
  | storing name x msgs => exact .act .store
  | saving msgs => exact .act .save
  | received r => exact .next .back

theorem server_leads (m : Conversation) (pt : ServerPoint) :
    Leads exec chat.code ServerPoint.prog ServerMoves m pt := by
  cases pt with
  | standby =>
    rintro w _ ⟨⟩
    exact ⟨.finding w.request, rfl, .start⟩
  | finding req =>
    rintro w _ ⟨⟩
    cases w.missing with
    | none => exact ⟨.looking req, rfl, .found⟩
    | some what => exact ⟨.refused (what.error req.conversationId), rfl, .missing⟩
  | looking req =>
    rintro w _ ⟨⟩
    cases hconf : m.confirmation req.confirmationId with
    | none => exact ⟨.refused errNotFound, rfl, .unknown⟩
    | some conf => exact ⟨.offering conf req.messages, rfl, .look hconf⟩
  | offering conf msgs => exact .act .offer
  | sending conf ticket msgs =>
    intro w y hexec
    refine ⟨.confirmed ticket msgs, ?_⟩
    simp only [exec] at hexec
    split at hexec
    · rename_i hnone
      cases hexec
      exact ⟨rfl, .sent hnone⟩
    · rename_i o ho
      split at hexec <;> cases hexec
      exact ⟨rfl, .late ho⟩
  | confirmed ticket msgs => exact .next .back
  | refused err => exact .next .backRefused

theorem client_leads (m : Conversation) (pt : ClientPoint) :
    Leads exec chat.code ClientPoint.prog ClientMoves m pt := by
  cases pt with
  | idle => exact .next .start
  | cancelling => exact .act .cancel

theorem chat_outline (n k : Nat) : Outline chat (progAt (n := n) (k := k)) (Moving moves) := by
  refine Outline.of_moves (fun t m pt => ?_) id fun _ _ => id
  cases t with
  | flow i => exact flow_leads m pt
  | server j => exact server_leads m pt
  | client => exact client_leads m pt

end FlowManager.Grpc.Confirm
