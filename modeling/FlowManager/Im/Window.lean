import FlowManager.Flow.Program
import FlowManager.Im.Receive
import FlowManager.Lib.Outline

/-!
# The messages of a `ReceiveMessage`

`ReceiveMessage` calls `receive` until it fails, and returns the texts of all messages that it
was given. Every `receive` registers a channel of its own and removes it when it returns, so
between two calls nobody is registered, and `OnMessage` drops what it is to hand over. Here
`receive` and `OnMessage` are as in `Im.Receive`, with the messages themselves.

- `receive`, `receiveMessage`, `collect`, `onMessage`: the two sides.
- `Seen`: the messages of the window, which opens when the first channel is registered and
  closes when a `receive` fails.
- `Prompt`: while the window is open, `OnMessage` looks for a handler only while one is in its
  `select`, and no `receive` gives up while `OnMessage` has a message in its hands.
- `window_of_prompt`: if so, the messages of the window are returned, in order.
-/

namespace FlowManager.Im.Window

open Concurrent Function

/-- What a `model.IMEventWrapper` tells: a message, or a button that was clicked. -/
inductive Kind where
  | message
  | callback
  deriving DecidableEq

/-- `model.IMEventWrapper` -/
structure Wrapper where
  kind : Kind
  payload : Message
  text : String
  /-- the URLs of the documents -/
  documents : List String

/-- The text of a message, or of its first document. -/
def Wrapper.toText (m : Wrapper) : String :=
  match m.documents with
  | [] => m.text
  | url :: _ => if m.text = "" then url else m.text

/-- `messageToText` -/
def messageToText (messages : List Wrapper) : List String := messages.map Wrapper.toText

/-- What `OnMessage` and `receive` share. -/
structure Desk where
  next : Nat
  waitMsgChan : Option Nat
  /-- the channel on which a message is offered, and the message -/
  offered : Option (Nat × Wrapper)
  /-- `c.messages` -/
  messages : List Wrapper

/-- The accesses -/
inductive Op where
  | makeChan
  | setStateWaitMessage (ch : Nat)
  | clearStateWaitMessage
  | select (ch : Nat)
  /-- `processLastMessage`, `processLastInteractiveCallback` -/
  | process (m : Wrapper)
  /-- `waitMsgChan` is read under the lock -/
  | waitMsgChan
  /-- `ch <- message` begins -/
  | offer (ch : Nat) (m : Wrapper)
  /-- `ch <- message` ends -/
  | sent (ch : Nat)

/-- The answer to an access. -/
abbrev Op.Result : Op → Type
  | .makeChan => Nat
  | .setStateWaitMessage _ => Bool
  | .select _ => Except AppError Wrapper
  | .waitMsgChan => Option Nat
  | _ => Unit

/-- `ErrWaitMessageTimeout` -/
def errWaitMessageTimeout : AppError := ⟨"Dialog.WaitMessage", "dialog.timeout.msg", "Timeout", 408⟩

/-- `receive` finds a channel registered. -/
def errTaken : AppError := ⟨"Conversation.WaitMessage", "conv.timeout.msg", "Timeout", 500⟩

/-- One of the contexts of `receive` has ended. -/
def errCancelled : AppError :=
  ⟨"Conversation.WaitMessage", "conv.timeout.msg.app_err", "context canceled", 500⟩

/-- What comes from outside: how a `select` is left, and the next message. -/
structure Outside where
  leave : Leave
  message : Wrapper

/-- The accesses, each answered and made. -/
def exec (w : Outside) : (a : Op) → Desk → Option (a.Result × Desk)
  | .makeChan, s => some (s.next, { s with next := s.next + 1 })
  | .setStateWaitMessage ch, s =>
    -- there is one slot, and a second waiter is refused
    if s.waitMsgChan.isSome then some (false, s) else some (true, { s with waitMsgChan := some ch })
  | .clearStateWaitMessage, s => some ((), { s with waitMsgChan := none })
  | .select ch, s =>
    match w.leave with
    | .delivered =>
      match s.offered with
      | some (d, m) => if d = ch then some (.ok m, { s with offered := none }) else none
      | none => none
    | .timeout => some (.error errWaitMessageTimeout, s)
    | _ => some (.error errCancelled, s)
  | .process m, s =>
    match m.kind with
    | .message => some ((), { s with messages := s.messages ++ [m] })
    -- a callback leaves no message behind
    | .callback => some ((), s)
  | .waitMsgChan, s => some (s.waitMsgChan, s)
  | .offer ch m, s => some ((), { s with offered := some (ch, m) })
  | .sent ch, s => if s.offered.any (·.1 = ch) then none else some ((), s)

abbrev Go := Prog Op Op.Result

/-- A single access. -/
abbrev access (a : Op) : Go a.Result := call a

/-- Where a goroutine goes on. -/
inductive Label where
  | listen
  | idle
  /-- the loop of `ReceiveMessage` -/
  | collecting (msgs : List Wrapper)
  | failed (err : AppError)
  | returned (texts : List String)

/-- `Connection.pushMessageToWaitMessageChan` -/
def pushMessageToWaitMessageChan (m : Wrapper) : Go Unit :=
  if m.payload.sender.issuer = userTypeBot then return ()
  else do
    match ← access .waitMsgChan with
    | some ch =>
      access (.offer ch m)
      access (.sent ch)
    | none => return ()

/-- `Connection.OnMessage` of the dialog between `customer` and `bot` -/
def onMessage (customer bot : Endpoint) (m : Wrapper) : Go Unit :=
  if m.payload.sender.sub = bot.sub then return ()
  else if fromOperator customer m.payload = true then return ()
  else do
    access (.process m)
    pushMessageToWaitMessageChan m

/-- `Connection.receive` -/
def receive : Go (Except AppError (List Wrapper)) := do
  let ch ← access .makeChan
  if ← access (.setStateWaitMessage ch) then
    let got ← access (.select ch)
    access .clearStateWaitMessage
    return got.map fun m => [m]
  else
    access .clearStateWaitMessage
    return .error errTaken

/-- `Connection.ReceiveMessage`, up to the loop -/
def receiveMessage (messageTimeout : Nat) : Go Label := do
  match ← receive with
  | .error err => return .failed err
  | .ok msgs =>
    if 0 < messageTimeout then return .collecting msgs
    else return .returned (messageToText msgs)

/-- One round of the loop of `ReceiveMessage` -/
def collect (msgs : List Wrapper) : Go Label := do
  match ← receive with
  | .error _ => return .returned (messageToText msgs)
  | .ok m => return .collecting (msgs ++ m)

/-- The goroutine that serves the dialogs, and the one that runs the flow of this dialog. -/
inductive Thread where
  | listener
  | flow
  deriving DecidableEq

/-- The messages for a dialog, and a flow that calls `ReceiveMessage` again and again. -/
def windows (customer bot : Endpoint) (messageTimeout : Nat) :
    System Desk Outside Op Op.Result Label where
  exec := exec
  code w
    | .listen => some do
        onMessage customer bot w.message
        return .listen
    | .idle => some (receiveMessage messageTimeout)
    | .collecting msgs => some (collect msgs)
    | .failed _ => some (.ret .idle)
    | .returned _ => some (.ret .idle)
  env _ _ := False

abbrev WindowPool := Pool Thread Desk Op Op.Result Label

/-- Nothing has been received yet. -/
def quiet : WindowPool where
  shared := ⟨0, none, none, []⟩
  thread
    | .listener => .ret .listen
    | .flow => .ret .idle

/-! ## The window -/

/-- What there is of the window of the current `ReceiveMessage`. -/
inductive Phase where
  | closed
  | beginning
  | collecting
  deriving DecidableEq

/-- The window, the message that `OnMessage` had in its hands when it opened, and the customer's
messages that `OnMessage` was given while it was open. -/
structure Seen where
  phase : Phase
  early : List Wrapper
  arrived : List Wrapper

/-- The message that `OnMessage` has in its hands and is to hand over. One that is not offered yet
is what it would offer on a channel. -/
def carried (s : Desk) : Go Label → List Wrapper
  | .act .waitMsgChan k =>
    match k (some 0) with
    | .act (.offer _ m) _ => [m]
    | _ => []
  | .act (.offer _ m) _ => [m]
  | .act (.sent _) _ => (s.offered.map (·.2)).toList
  | _ => []

/-- The window opens when the first channel is registered and closes when a `receive` gives
up. -/
def note (s : WindowPool) (e : Concurrent.Event Thread Op) (s' : WindowPool) (seen : Seen) : Seen :=
  match e with
  | .next .flow =>
    match s.thread .flow with
    | .ret .idle => ⟨.beginning, [], []⟩
    | _ => seen
  | .act .flow (.setStateWaitMessage _) =>
    if seen.phase = .beginning then
      ⟨.collecting, carried s.shared (s.thread .listener), seen.arrived⟩
    else { seen with phase := .collecting }
  | .act .flow (.select _) =>
    if s.shared.offered.isSome = true ∧ s'.shared.offered.isNone = true then seen
    else { seen with phase := .closed }
  | .act .listener (.process m) =>
    if seen.phase = .collecting ∧ m.payload.sender.issuer ≠ userTypeBot then
      { seen with arrived := seen.arrived ++ [m] }
    else seen
  | _ => seen

theorem note_giveUp (h : s'.shared.offered = s.shared.offered) :
    note s (.act .flow (.select ch)) s' seen = { seen with phase := .closed } := by
  refine if_neg ?_
  rw [h]
  cases s.shared.offered <;> simp

theorem note_take (h : s.shared.offered = some offer) (h' : s'.shared.offered = none) :
    note s (.act .flow (.select ch)) s' seen = seen := by
  refine if_pos ?_
  rw [h, h']
  exact ⟨rfl, rfl⟩

/-- The goroutine is in its `select` on the channel. -/
def Selects (ch : Nat) : Go Label → Bool
  | .act (.select d) _ => decide (d = ch)
  | _ => false

/-- From the registration of its first channel until `ReceiveMessage` returns, `OnMessage`
looks for a handler only while one is in its `select`; and no `receive` gives up while
`OnMessage` has a message in its hands. -/
def Prompt (x : WindowPool × Seen) (e : Concurrent.Event Thread Op) (y : WindowPool × Seen) :
    Prop :=
  match e with
  | .act .listener .waitMsgChan =>
    x.2.phase = .collecting ∨ x.1.shared.waitMsgChan.isSome = true →
      ∃ ch, x.1.shared.waitMsgChan = some ch ∧ Selects ch (x.1.thread .flow) = true
  | .act .flow (.select _) =>
    y.2.phase = .closed → carried x.1.shared (x.1.thread .listener) = []
  | _ => True

/-! ## Points of the code -/

/-- Where the listener is. -/
inductive ListenPoint where
  | idle
  | processing (m : Wrapper)
  | reading (m : Wrapper)
  | offering (ch : Nat) (m : Wrapper)
  | sending (ch : Nat) (m : Wrapper)

/-- Where the flow is. In a `receive`, `st` is what the loop has collected so far; the first
`receive` is before the loop. -/
inductive FlowPoint where
  | idle
  | collecting (msgs : List Wrapper)
  | failed (err : AppError)
  | returned (texts : List String)
  | making (st : Option (List Wrapper))
  | registering (st : Option (List Wrapper)) (ch : Nat)
  | selecting (st : Option (List Wrapper)) (ch : Nat)
  | clearing (st : Option (List Wrapper)) (got : Except AppError (List Wrapper))

/-- What the listener has still to do. -/
def ListenPoint.prog : ListenPoint → Go Label
  | .idle => .ret .listen
  | .processing m => .act (.process m) fun _ =>
      pushMessageToWaitMessageChan m >>= fun _ => .ret .listen
  | .reading m => .act .waitMsgChan fun
    | some ch => .act (.offer ch m) fun _ => .act (.sent ch) fun _ => .ret .listen
    | none => .ret .listen
  | .offering ch m => .act (.offer ch m) fun _ => .act (.sent ch) fun _ => .ret .listen
  | .sending ch _ => .act (.sent ch) fun _ => .ret .listen

section Flow

variable (messageTimeout : Nat)

/-- Where `ReceiveMessage` goes on after a `receive`. -/
def landing : Option (List Wrapper) → Except AppError (List Wrapper) → FlowPoint
  | none, .error err => .failed err
  | none, .ok msgs =>
    if 0 < messageTimeout then .collecting msgs else .returned (messageToText msgs)
  | some msgs, .error _ => .returned (messageToText msgs)
  | some msgs, .ok m => .collecting (msgs ++ m)

/-- The label of a point between two programs -/
def FlowPoint.label : FlowPoint → Label
  | .collecting msgs => .collecting msgs
  | .failed err => .failed err
  | .returned texts => .returned texts
  | _ => .idle

/-- What the flow has still to do. -/
def FlowPoint.prog : FlowPoint → Go Label
  | .making st => receive >>= fun got => .ret (landing messageTimeout st got).label
  | .registering st ch => .act (.setStateWaitMessage ch) fun
    | true => .act (.select ch) fun got => .act .clearStateWaitMessage fun _ =>
        .ret (landing messageTimeout st (got.map fun m => [m])).label
    | false => .act .clearStateWaitMessage fun _ =>
        .ret (landing messageTimeout st (.error errTaken)).label
  | .selecting st ch => .act (.select ch) fun got => .act .clearStateWaitMessage fun _ =>
      .ret (landing messageTimeout st (got.map fun m => [m])).label
  | .clearing st got => .act .clearStateWaitMessage fun _ =>
      .ret (landing messageTimeout st got).label
  | pt => .ret pt.label

/-- The points of a goroutine -/
abbrev Point : Thread → Type
  | .listener => ListenPoint
  | .flow => FlowPoint

/-- What a goroutine has still to do. -/
def progAt : (t : Thread) → Point t → Go Label
  | .listener => ListenPoint.prog
  | .flow => FlowPoint.prog messageTimeout

theorem receiveMessage_eq :
    receiveMessage messageTimeout = (FlowPoint.making none).prog messageTimeout := by
  refine congrArg (receive >>= ·) (funext fun got => ?_)
  cases got with
  | error err => rfl
  | ok msgs =>
    simp only [landing]
    split <;> rfl

theorem collect_eq (msgs : List Wrapper) :
    collect msgs = (FlowPoint.making (some msgs)).prog messageTimeout := by
  refine congrArg (receive >>= ·) (funext fun got => ?_)
  cases got <;> rfl

theorem landing_prog (st : Option (List Wrapper)) (got : Except AppError (List Wrapper)) :
    .ret (landing messageTimeout st got).label =
      (landing messageTimeout st got).prog messageTimeout := by
  unfold landing
  split
  · rfl
  · split <;> rfl
  · rfl
  · rfl

end Flow

/-- What a step can do. -/
inductive Moves (messageTimeout : Nat) (m : Desk) (pts : ∀ t, Point t) :
    Concurrent.Event Thread Op → Desk → (∀ t, Point t) → Prop where
  | listen (hpt : pts .listener = ListenPoint.idle)
      (hto : pt = .idle ∨ ∃ msg, pt = .processing msg) :
      Moves messageTimeout m pts (.next .listener) m (update pts .listener pt)
  | process (hpt : pts .listener = ListenPoint.processing msg) :
      Moves messageTimeout m pts (.act .listener (.process msg)) { m with messages := messages }
        (update pts .listener
        (if msg.payload.sender.issuer = userTypeBot then ListenPoint.idle else .reading msg))
  | find (hpt : pts .listener = ListenPoint.reading msg) (hch : m.waitMsgChan = some ch) :
      Moves messageTimeout m pts (.act .listener .waitMsgChan) m
        (update pts .listener (ListenPoint.offering ch msg))
  | miss (hpt : pts .listener = ListenPoint.reading msg) (hch : m.waitMsgChan = none) :
      Moves messageTimeout m pts (.act .listener .waitMsgChan) m
        (update pts .listener ListenPoint.idle)
  | offer (hpt : pts .listener = ListenPoint.offering ch msg) :
      Moves messageTimeout m pts (.act .listener (.offer ch msg))
        { m with offered := some (ch, msg) } (update pts .listener (ListenPoint.sending ch msg))
  | sent (hpt : pts .listener = ListenPoint.sending ch msg)
      (hgone : ¬ m.offered.any (·.1 = ch) = true) :
      Moves messageTimeout m pts (.act .listener (.sent ch)) m
        (update pts .listener ListenPoint.idle)
  | start (hpt : pts .flow = FlowPoint.idle) :
      Moves messageTimeout m pts (.next .flow) m (update pts .flow (FlowPoint.making none))
  | again (hpt : pts .flow = FlowPoint.collecting msgs) :
      Moves messageTimeout m pts (.next .flow) m (update pts .flow (FlowPoint.making (some msgs)))
  | rest (hpt : (∃ err, pts .flow = FlowPoint.failed err) ∨
        ∃ texts, pts .flow = FlowPoint.returned texts) :
      Moves messageTimeout m pts (.next .flow) m (update pts .flow FlowPoint.idle)
  | make (hpt : pts .flow = FlowPoint.making st) :
      Moves messageTimeout m pts (.act .flow .makeChan) { m with next := m.next + 1 }
        (update pts .flow (FlowPoint.registering st m.next))
  | register (hpt : pts .flow = FlowPoint.registering st ch) (hfree : m.waitMsgChan = none) :
      Moves messageTimeout m pts (.act .flow (.setStateWaitMessage ch))
        { m with waitMsgChan := some ch } (update pts .flow (FlowPoint.selecting st ch))
  | reject (hpt : pts .flow = FlowPoint.registering st ch) (htaken : m.waitMsgChan.isSome = true) :
      Moves messageTimeout m pts (.act .flow (.setStateWaitMessage ch)) m
        (update pts .flow (FlowPoint.clearing st (.error errTaken)))
  | take (hpt : pts .flow = FlowPoint.selecting st ch) (hoffered : m.offered = some (ch, msg)) :
      Moves messageTimeout m pts (.act .flow (.select ch)) { m with offered := none }
        (update pts .flow (FlowPoint.clearing st (.ok [msg])))
  | giveUp (hpt : pts .flow = FlowPoint.selecting st ch) :
      Moves messageTimeout m pts (.act .flow (.select ch)) m
        (update pts .flow (FlowPoint.clearing st (.error err)))
  | clear (hpt : pts .flow = FlowPoint.clearing st got) :
      Moves messageTimeout m pts (.act .flow .clearStateWaitMessage) { m with waitMsgChan := none }
        (update pts .flow (landing messageTimeout st got))

section Outline

variable {messageTimeout : Nat} {m m' : Desk} {pts : ∀ t, Point t}

theorem pushMessage_prog (msg : Wrapper) :
    (pushMessageToWaitMessageChan msg >>= fun _ => .ret .listen) = ListenPoint.prog
      (if msg.payload.sender.issuer = userTypeBot then .idle else .reading msg) := by
  unfold pushMessageToWaitMessageChan
  split
  · rfl
  · refine congrArg (Prog.act _) (funext fun r => ?_)
    cases r <;> rfl

theorem onMessage_prog (customer bot : Endpoint) (msg : Wrapper) :
    ∃ pt : ListenPoint, (do onMessage customer bot msg; return .listen : Go Label) = pt.prog ∧
      (pt = .idle ∨ ∃ msg, pt = .processing msg) := by
  unfold onMessage
  split
  · exact ⟨.idle, rfl, Or.inl rfl⟩
  · split
    · exact ⟨.idle, rfl, Or.inl rfl⟩
    · exact ⟨.processing msg, rfl, Or.inr ⟨msg, rfl⟩⟩

end Outline

theorem window_outline (customer bot : Endpoint) (messageTimeout : Nat) :
    Outline (windows customer bot messageTimeout) (progAt messageTimeout)
      (Moves messageTimeout) := by
  refine Outline.of_leads (fun m pts t => ?_) id fun _ _ => id
  cases t with
  | listener =>
    generalize hpt : pts .listener = pt
    cases pt with
    | idle =>
      rintro w _ ⟨⟩
      obtain ⟨pt, hpt', hto⟩ := onMessage_prog customer bot w.message
      exact ⟨pt, hpt', .listen hpt hto⟩
    | processing msg =>
      intro w y hexec
      refine ⟨_, pushMessage_prog msg, ?_⟩
      simp only [windows, exec] at hexec
      split at hexec <;> cases hexec <;> exact .process hpt
    | reading msg =>
      rintro w _ ⟨⟩
      cases hch : m.waitMsgChan with
      | none => exact ⟨ListenPoint.idle, rfl, .miss hpt hch⟩
      | some ch => exact ⟨ListenPoint.offering ch msg, rfl, .find hpt hch⟩
    | offering ch msg => exact .act (.offer hpt)
    | sending ch msg =>
      intro w y hexec
      simp only [windows, exec] at hexec
      split at hexec <;> cases hexec
      exact ⟨ListenPoint.idle, rfl, .sent hpt ‹_›⟩
  | flow =>
    generalize hpt : pts .flow = pt
    cases pt with
    | idle =>
      rintro w _ ⟨⟩
      exact ⟨FlowPoint.making none, receiveMessage_eq messageTimeout, .start hpt⟩
    | collecting msgs =>
      rintro w _ ⟨⟩
      exact ⟨FlowPoint.making (some msgs), collect_eq messageTimeout msgs, .again hpt⟩
    | failed err => exact .next (.rest (Or.inl ⟨err, hpt⟩))
    | returned texts => exact .next (.rest (Or.inr ⟨texts, hpt⟩))
    | making st =>
      rintro w _ ⟨⟩
      refine ⟨FlowPoint.registering st m.next, ?_, .make hpt⟩
      refine congrArg (Prog.act _) (funext fun r => ?_)
      cases r <;> rfl
    | registering st ch =>
      intro w y hexec
      simp only [windows, exec] at hexec
      split at hexec <;> cases hexec
      · exact ⟨FlowPoint.clearing st (.error errTaken), rfl, .reject hpt ‹_›⟩
      · have hfree := Option.not_isSome_iff_eq_none.mp ‹_›
        exact ⟨FlowPoint.selecting st ch, rfl, .register hpt hfree⟩
    | selecting st ch =>
      intro w y hexec
      simp only [windows, exec] at hexec
      split at hexec
      · split at hexec
        · rename_i d msg hoffered
          split at hexec <;> cases hexec
          rename_i hd
          subst hd
          exact ⟨FlowPoint.clearing st (.ok [msg]), rfl, .take hpt hoffered⟩
        · cases hexec
      · cases hexec
        exact ⟨FlowPoint.clearing st (.error errWaitMessageTimeout), rfl, .giveUp hpt⟩
      · cases hexec
        exact ⟨FlowPoint.clearing st (.error errCancelled), rfl, .giveUp hpt⟩
    | clearing st got =>
      rintro w _ ⟨⟩
      exact ⟨landing messageTimeout st got, landing_prog messageTimeout st got, .clear hpt⟩

/-! ## Who holds the channel -/

/-- The message in the listener's hands -/
def ListenPoint.inHand (m : Desk) : ListenPoint → List Wrapper
  | .reading msg => [msg]
  | .offering _ msg => [msg]
  | .sending _ _ => (m.offered.map (·.2)).toList
  | _ => []

/-- The channel that the listener has found, as long as nobody has taken the message. -/
def ListenPoint.chan (m : Desk) : ListenPoint → Option Nat
  | .offering ch _ => some ch
  | .sending ch _ => if m.offered.isSome then some ch else none
  | _ => none

/-- The flow has registered a channel and not yet removed it. -/
def FlowPoint.waits : FlowPoint → Bool
  | .selecting _ _ => true
  | .clearing _ _ => true
  | _ => false

/-- The registered channel is the one that the flow selects on, and the listener holds no
other. -/
structure Manned (m : Desk) (pts : ∀ t, Point t) : Prop where
  registered : ∀ st ch, pts .flow = FlowPoint.selecting st ch → m.waitMsgChan = some ch
  free : FlowPoint.waits (pts .flow) = false → m.waitMsgChan = none
  offered : m.offered = none ∨
    ∃ ch msg, pts .listener = ListenPoint.sending ch msg ∧ m.offered = some (ch, msg)
  attended : ∀ ch, ListenPoint.chan m (pts .listener) = some ch →
    ∃ st, pts .flow = FlowPoint.selecting st ch

section Manned

variable {messageTimeout : Nat} {s s' : WindowPool} {m m' : Desk} {pts pts' : ∀ t, Point t}
  {seen : Seen}

theorem selects_prog {pt : FlowPoint} (h : Selects ch (pt.prog messageTimeout) = true) :
    ∃ st, pt = .selecting st ch := by
  cases pt with
  | selecting st d =>
    cases of_decide_eq_true h
    exact ⟨st, rfl⟩
  | _ => cases h

theorem carried_prog (m : Desk) (pt : ListenPoint) : carried m pt.prog = pt.inHand m := by
  cases pt <;> rfl

theorem chan_of_inHand {pt : ListenPoint} (h : pt.inHand m = []) : pt.chan m = none := by
  cases pt with
  | idle | processing => rfl
  | reading | offering => cases h
  | sending ch msg =>
    cases hoffered : m.offered with
    | none => simp [ListenPoint.chan, hoffered]
    | some offer => simp [ListenPoint.inHand, hoffered] at h

/-- When a `receive` gives up, the listener has no message in its hands. -/
theorem inHand_of_giveUp (hm : s.shared = m) (hm' : s'.shared = m)
    (hat : s.At (progAt messageTimeout) pts)
    (hcond : Prompt (s, seen) (.act .flow (.select ch))
      (s', note s (.act .flow (.select ch)) s' seen)) :
    ListenPoint.inHand m (pts .listener) = [] := by
  have hclosed : (note s (.act .flow (.select ch)) s' seen).phase = .closed := by
    rw [note_giveUp (by rw [hm, hm'])]
  have hcarries := hcond hclosed
  rw [hm, hat .listener] at hcarries
  exact (carried_prog m _).symm.trans hcarries

section

variable (h : Manned m pts)
include h

/-- While the flow is not in its `select`, the listener holds no channel. -/
theorem Manned.chan_eq_none (hpt : ∀ st ch, pts .flow ≠ FlowPoint.selecting st ch) :
    ListenPoint.chan m (pts .listener) = none := by
  cases hchan : ListenPoint.chan m (pts .listener) with
  | none => rfl
  | some ch =>
    obtain ⟨st, hst⟩ := h.attended ch hchan
    exact absurd hst (hpt st ch)

/-- While the listener is not in its send, no message is on offer. -/
theorem Manned.offered_eq_none
    (hpt : ∀ ch msg, pts .listener ≠ ListenPoint.sending ch msg) : m.offered = none := by
  rcases h.offered with hnone | ⟨ch, msg, hsending, -⟩
  · exact hnone
  · exact absurd hsending (hpt ch msg)

/-- When the send of the listener is over, no message is on offer. -/
theorem Manned.gone (hpt : pts .listener = ListenPoint.sending ch msg)
    (hgone : ¬ m.offered.any (·.1 = ch) = true) : m.offered = none := by
  rcases h.offered with hnone | ⟨d, msg', hsending, hoffered⟩
  · exact hnone
  · rw [hpt] at hsending
    cases hsending
    simp [hoffered] at hgone

/-- The listener goes on to the point `pt`. -/
theorem Manned.listen (hwait : m'.waitMsgChan = m.waitMsgChan)
    (hoffered : m'.offered = none ∨ ∃ ch msg, pt = .sending ch msg ∧ m'.offered = some (ch, msg))
    (hchan : ∀ ch, pt.chan m' = some ch → ∃ st, pts .flow = FlowPoint.selecting st ch) :
    Manned m' (update pts .listener pt) where
  registered st ch hpt := hwait.trans (h.registered st ch hpt)
  free hfree := hwait.trans (h.free hfree)
  offered := hoffered
  attended := hchan

/-- The flow goes on to the point `pt`. -/
theorem Manned.go (hregistered : ∀ st ch, pt = .selecting st ch → m'.waitMsgChan = some ch)
    (hfree : pt.waits = false → m'.waitMsgChan = none)
    (hoffered : m'.offered = m.offered ∨ m'.offered = none)
    (hchan : ListenPoint.chan m' (pts .listener) = none) :
    Manned m' (update pts .flow pt) where
  registered := hregistered
  free := hfree
  offered := by
    rcases hoffered with hsame | hnone
    · rw [hsame]
      exact h.offered
    · exact Or.inl hnone
  attended ch hch := absurd (hchan.symm.trans hch) nofun

end

theorem chan_congr (hoffered : m'.offered = m.offered) (pt : ListenPoint) :
    pt.chan m' = pt.chan m := by
  cases pt with
  | sending ch msg => rw [ListenPoint.chan, ListenPoint.chan, hoffered]
  | _ => rfl

/-- The flow goes on outside of its `select`. -/
theorem Manned.frame (h : Manned m pts) (hout : ∀ st ch, pts .flow ≠ FlowPoint.selecting st ch)
    (hoffered : m'.offered = m.offered)
    (hregistered : ∀ st ch, pt = .selecting st ch → m'.waitMsgChan = some ch)
    (hfree : pt.waits = false → m'.waitMsgChan = none) :
    Manned m' (update pts .flow pt) := by
  refine h.go hregistered hfree (Or.inl hoffered) ?_
  rw [chan_congr hoffered]
  exact h.chan_eq_none hout

theorem landing_waits (messageTimeout : Nat) (st : Option (List Wrapper))
    (got : Except AppError (List Wrapper)) :
    (∀ st' ch, landing messageTimeout st got ≠ .selecting st' ch) ∧
      (landing messageTimeout st got).waits = false := by
  unfold landing
  split
  · exact ⟨nofun, rfl⟩
  · split <;> exact ⟨nofun, rfl⟩
  · exact ⟨nofun, rfl⟩
  · exact ⟨nofun, rfl⟩

/-- A step of a prompt run. -/
theorem Manned.keep {e : Concurrent.Event Thread Op} (h : Manned m pts) (hm : s.shared = m)
    (hat : s.At (progAt messageTimeout) pts) (hm' : s'.shared = m')
    (hmoves : Moves messageTimeout m pts e m' pts')
    (hcond : Prompt (s, seen) e (s', note s e s' seen)) : Manned m' pts' := by
  cases hmoves with
  | listen hpt hto =>
    refine h.listen rfl (Or.inl (h.offered_eq_none (by simp [hpt]))) ?_
    rcases hto with rfl | ⟨msg, rfl⟩ <;> nofun
  | process hpt =>
    refine h.listen rfl (Or.inl (h.offered_eq_none (by simp [hpt]))) ?_
    split <;> nofun
  | @find msg ch hpt hch =>
    refine h.listen rfl (Or.inl (h.offered_eq_none (by simp [hpt]))) ?_
    intro d hd
    cases hd
    have hfound : s.shared.waitMsgChan = some ch := hm ▸ hch
    obtain ⟨d, hd, hselects⟩ := hcond (Or.inr (by rw [hfound]; rfl))
    rw [hfound] at hd
    cases hd
    rw [hat .flow] at hselects
    exact selects_prog hselects
  | miss hpt => exact h.listen rfl (Or.inl (h.offered_eq_none (by simp [hpt]))) nofun
  | @offer ch msg hpt =>
    refine h.listen rfl (Or.inr ⟨ch, msg, rfl, rfl⟩) ?_
    intro d hd
    cases hd
    exact h.attended ch (by rw [hpt]; rfl)
  | sent hpt hgone => exact h.listen rfl (Or.inl (h.gone hpt hgone)) nofun
  | start hpt | again hpt | make hpt =>
    exact h.frame (by simp [hpt]) rfl nofun fun _ => h.free (by rw [hpt]; rfl)
  | rest hpt =>
    rcases hpt with ⟨_, hpt⟩ | ⟨_, hpt⟩ <;>
    exact h.frame (by simp [hpt]) rfl nofun fun _ => h.free (by rw [hpt]; rfl)
  | register hpt =>
    refine h.frame (by simp [hpt]) rfl ?_ nofun
    intro st d hd
    cases hd
    rfl
  | reject hpt => exact h.frame (by simp [hpt]) rfl nofun nofun
  | @take st ch msg hpt hoffered =>
    refine h.go nofun nofun (Or.inr rfl) ?_
    rcases h.offered with hnone | ⟨d, msg', hsending, -⟩
    · rw [hoffered] at hnone
      cases hnone
    · rw [hsending]
      rfl
  | giveUp hpt =>
    exact h.go nofun nofun (Or.inl rfl) (chan_of_inHand (inHand_of_giveUp hm hm' hat hcond))
  | @clear st got hpt =>
    obtain ⟨hnot, -⟩ := landing_waits messageTimeout st got
    exact h.frame (by simp [hpt]) rfl (fun st' ch hch => absurd hch (hnot st' ch)) fun _ => rfl

end Manned

/-! ## The account of the messages -/

/-- What `ReceiveMessage` is to collect -/
def Seen.all (seen : Seen) : List Wrapper := seen.early ++ seen.arrived

/-- The window is open, and all messages are in `msgs` or in the listener's hands. -/
def Gathering (hand : List Wrapper) (seen : Seen) (msgs : List Wrapper) : Prop :=
  seen.phase = .collecting ∧ msgs ++ hand = seen.all

/-- What the flow has collected at every point, and what it returns. -/
def Accounted (hand : List Wrapper) (seen : Seen) : FlowPoint → Prop
  | .idle => seen.phase = .closed
  | .failed _ => seen.phase = .closed ∧ seen.all = []
  | .returned texts => seen.phase = .closed ∧ texts = messageToText seen.all
  | .making none => seen.phase = .beginning ∧ seen.arrived = []
  | .registering none _ => seen.phase = .beginning ∧ seen.arrived = []
  | .clearing st (.error _) => seen.phase = .closed ∧ st.getD [] = seen.all
  | .collecting msgs => Gathering hand seen msgs
  | .making (some msgs) => Gathering hand seen msgs
  | .registering (some msgs) _ => Gathering hand seen msgs
  | .selecting st _ => Gathering hand seen (st.getD [])
  | .clearing st (.ok got) => Gathering hand seen (st.getD [] ++ got)

section Account

variable {messageTimeout : Nat} {s s' : WindowPool} {m m' : Desk} {pts pts' : ∀ t, Point t}
  {seen seen' : Seen} {hand hand' : List Wrapper}

/-- The listener goes on: while the window is open no message gets lost, and otherwise nothing
is written down. -/
theorem Accounted.listen (h : Accounted hand seen pt)
    (hopen : seen.phase = .collecting → ∀ msgs, Gathering hand seen msgs →
      Gathering hand' seen' msgs)
    (hshut : seen.phase ≠ .collecting → seen' = seen) : Accounted hand' seen' pt := by
  have hgather : ∀ msgs, Gathering hand seen msgs → Gathering hand' seen' msgs :=
    fun msgs hmsgs => hopen hmsgs.1 msgs hmsgs
  have hsame : ∀ {phase}, seen.phase = phase → phase ≠ .collecting → seen' = seen :=
    fun hphase hne => hshut (hphase ▸ hne)
  cases pt with
  | idle =>
    have hphase : seen.phase = .closed := h
    rw [hsame hphase nofun]
    exact h
  | failed | returned =>
    rw [hsame h.1 nofun]
    exact h
  | collecting | selecting => exact hgather _ h
  | making st | registering st =>
    cases st with
    | none =>
      rw [hsame h.1 nofun]
      exact h
    | some msgs => exact hgather msgs h
  | clearing st got =>
    cases got with
    | error err =>
      rw [hsame h.1 nofun]
      exact h
    | ok got => exact hgather _ h

/-- What the flow has after a `receive` -/
theorem Accounted.land (h : Accounted hand seen (.clearing st got)) (hpos : 0 < messageTimeout) :
    Accounted hand seen (landing messageTimeout st got) := by
  cases got with
  | error err =>
    obtain ⟨hphase, hmsgs⟩ := h
    cases st with
    | none => exact ⟨hphase, hmsgs.symm⟩
    | some msgs => exact ⟨hphase, congrArg messageToText hmsgs⟩
  | ok got =>
    cases st with
    | none =>
      simp only [landing, if_pos hpos]
      exact h
    | some msgs => exact h

/-- A step of a prompt run. -/
theorem Accounted.keep (hpos : 0 < messageTimeout)
    (h : Accounted (ListenPoint.inHand m (pts .listener)) seen (pts .flow)) (hmanned : Manned m pts)
    (hm : s.shared = m) (hm' : s'.shared = m') (hat : s.At (progAt messageTimeout) pts)
    (hmoves : Moves messageTimeout m pts e m' pts')
    (hcond : Prompt (s, seen) e (s', note s e s' seen)) :
    Accounted (ListenPoint.inHand m' (pts' .listener)) (note s e s' seen) (pts' .flow) := by
  cases hmoves with
  | listen hpt hto =>
    rw [hpt] at h
    rcases hto with rfl | ⟨msg, rfl⟩ <;> exact h
  | @process msg messages hpt =>
    rw [hpt] at h
    refine h.listen ?_ fun hphase => if_neg fun hnot => hphase hnot.1
    intro hphase msgs hmsgs
    obtain ⟨-, hgathered⟩ := hmsgs
    by_cases hissuer : msg.payload.sender.issuer = userTypeBot
    · have hsame : note s (.act .listener (.process msg)) s' seen = seen :=
        if_neg fun hnot => hnot.2 hissuer
      rw [if_pos hissuer, hsame]
      exact ⟨hphase, hgathered⟩
    · have hnote : note s (.act .listener (.process msg)) s' seen =
          { seen with arrived := seen.arrived ++ [msg] } := if_pos ⟨hphase, hissuer⟩
      rw [if_neg hissuer, hnote]
      refine ⟨hphase, ?_⟩
      have hmsgs : msgs = seen.all := (List.append_nil msgs).symm.trans hgathered
      show msgs ++ [msg] = seen.early ++ (seen.arrived ++ [msg])
      rw [hmsgs, Seen.all, List.append_assoc]
  | find hpt | offer hpt =>
    rw [hpt] at h
    exact h
  | miss hpt hch =>
    -- while the window is open the listener finds somebody
    refine h.listen (fun hphase => ?_) fun _ => rfl
    obtain ⟨ch, hfound, -⟩ := hcond (Or.inl hphase)
    rw [hm, hch] at hfound
    cases hfound
  | sent hpt hgone =>
    rw [hpt, ListenPoint.inHand, hmanned.gone hpt hgone] at h
    exact h
  | start hpt =>
    have hnote : note s (.next .flow) s' seen = ⟨.beginning, [], []⟩ := by
      simp only [note, hat .flow, hpt]
      rfl
    rw [hnote]
    exact ⟨rfl, rfl⟩
  | again hpt =>
    have hnote : note s (.next .flow) s' seen = seen := by
      simp only [note, hat .flow, hpt]
      rfl
    rw [hpt] at h
    rw [hnote]
    exact h
  | rest hpt =>
    have hnote : note s (.next .flow) s' seen = seen := by
      rcases hpt with ⟨_, hpt⟩ | ⟨_, hpt⟩ <;>
      · simp only [note, hat .flow, hpt]
        rfl
    rw [hnote]
    rcases hpt with ⟨_, hpt⟩ | ⟨_, hpt⟩ <;>
    · rw [hpt] at h
      exact h.1
  | @make st hpt =>
    rw [hpt] at h
    cases st <;> exact h
  | @register st ch hpt hfree =>
    rw [hpt] at h
    cases st with
    | none =>
      -- the window opens
      have hnote : note s (.act .flow (.setStateWaitMessage ch)) s' seen =
          ⟨.collecting, ListenPoint.inHand m (pts .listener), seen.arrived⟩ := by
        have hthread : s.thread .listener = ListenPoint.prog (pts .listener) := hat .listener
        rw [← carried_prog, ← hm, ← hthread]
        exact if_pos h.1
      rw [hnote]
      refine ⟨rfl, ?_⟩
      show [] ++ _ = _ ++ seen.arrived
      rw [h.2, List.nil_append, List.append_nil]
      rfl
    | some msgs =>
      have hnote : note s (.act .flow (.setStateWaitMessage ch)) s' seen =
          { seen with phase := .collecting } := if_neg (by rw [h.1]; nofun)
      rw [hnote]
      exact ⟨rfl, h.2⟩
  | reject hpt htaken =>
    -- nobody else registers
    rw [hmanned.free (by rw [hpt]; rfl)] at htaken
    cases htaken
  | @take st ch msg hpt hoffered =>
    rw [note_take (hm ▸ hoffered) (by rw [hm'])]
    rcases hmanned.offered with hnone | ⟨d, msg', hsending, hsame⟩
    · rw [hoffered] at hnone
      cases hnone
    · rw [hoffered] at hsame
      cases hsame
      rw [hpt, hsending, ListenPoint.inHand, hoffered] at h
      obtain ⟨hphase, hgathered⟩ := h
      show Gathering (ListenPoint.inHand _ (pts .listener)) seen (st.getD [] ++ [msg])
      rw [hsending]
      refine ⟨hphase, ?_⟩
      rw [← hgathered]
      exact List.append_nil _
  | giveUp hpt =>
    rw [hpt, inHand_of_giveUp hm hm' hat hcond] at h
    obtain ⟨-, hgathered⟩ := h
    rw [note_giveUp (by rw [hm, hm'])]
    refine ⟨rfl, ?_⟩
    rw [List.append_nil] at hgathered
    exact hgathered
  | clear hpt =>
    rw [hpt] at h
    exact h.land hpos

end Account

/-- Nobody does anything. -/
def atRest : ∀ t, Point t
  | .listener => ListenPoint.idle
  | .flow => FlowPoint.idle

/-- What holds at every moment of a prompt run. -/
structure Kept (m : Desk) (pts : ∀ t, Point t) (seen : Seen) : Prop where
  manned : Manned m pts
  accounted : Accounted (ListenPoint.inHand m (pts .listener)) seen (pts .flow)

theorem kept_quiet : Kept quiet.shared atRest ⟨.closed, [], []⟩ :=
  ⟨⟨nofun, fun _ => rfl, Or.inl rfl, nofun⟩, rfl⟩

theorem returned_of_prog {pt : FlowPoint}
    (h : pt.prog messageTimeout = .ret (.returned texts)) : pt = .returned texts := by
  cases pt <;> cases h
  rfl

theorem failed_of_prog {pt : FlowPoint}
    (h : pt.prog messageTimeout = .ret (.failed err)) : pt = .failed err := by
  cases pt <;> cases h
  rfl

/-- In every timing of the messages for a dialog in which, from the registration of its first
channel until `ReceiveMessage` returns, `OnMessage` looks for a handler only while one is in
its `select`, and no `receive` gives up while `OnMessage` has a message in its hands:
`ReceiveMessage` returns the texts of all customer's messages that `OnMessage` was given in its
window, each once and in order, after the one that `OnMessage` had in its hands when the window
opened, if it had one. If it fails, there were none. -/
theorem window_of_prompt {customer bot : Endpoint} {messageTimeout : Nat}
    (hpos : 0 < messageTimeout) {ok : Prop} {x : WindowPool × Seen}
    (h : Trace.Steps (Recorded (windows customer bot messageTimeout) note) Prompt
      (quiet, ⟨.closed, [], []⟩) ok x) (hok : ok) :
    (∀ texts, x.1.thread .flow = .ret (.returned texts) →
      texts = messageToText (x.2.early ++ x.2.arrived)) ∧
      ∀ err, x.1.thread .flow = .ret (.failed err) → x.2.early = [] ∧ x.2.arrived = [] := by
  have hquiet : quiet.At (progAt messageTimeout) atRest := by
    rintro (_ | _) <;> rfl
  obtain ⟨pts, hat, hkept⟩ : ∃ pts, x.1.At (progAt messageTimeout) pts ∧
      Kept x.1.shared pts x.2 :=
    (window_outline customer bot messageTimeout).run h hok hquiet kept_quiet
      fun hm hm' hat _ hmoves hinv hcond =>
        ⟨hinv.manned.keep hm hat hm' hmoves hcond,
          hinv.accounted.keep hpos hinv.manned hm hm' hat hmoves hcond⟩
  have haccounted := hkept.accounted
  constructor
  · intro texts hreturned
    rw [hat .flow] at hreturned
    rw [returned_of_prog hreturned] at haccounted
    exact haccounted.2
  · intro err hfailed
    rw [hat .flow] at hfailed
    rw [failed_of_prog hfailed] at haccounted
    exact List.append_eq_nil_iff.mp haccounted.2

instance (x : WindowPool × Seen) (e : Concurrent.Event Thread Op) (y : WindowPool × Seen) :
    Decidable (Prompt x e y) := by
  unfold Prompt
  split <;> infer_instance

/-- The customer says something. -/
def saying (text : String) : Wrapper := ⟨.message, hello, text, []⟩

/-- The flow moves; a `select` is left in the way `leave`. -/
def flows (leave : Leave) (moves : Nat) : List (Thread × Outside) :=
  List.replicate moves (.flow, ⟨leave, saying ""⟩)

/-- The listener moves, and the message that comes is `text`. -/
def listens (text : String) (moves : Nat) : List (Thread × Outside) :=
  List.replicate moves (.listener, ⟨.delivered, saying text⟩)

/-- The flow registers a channel, and a message is handed over on it. -/
def exchange (text : String) : List (Thread × Outside) :=
  flows .delivered 3 ++ listens text 4 ++ flows .delivered 2 ++ listens text 1

/-- The flow registers a channel, runs into its timeout and returns. -/
def silence : List (Thread × Outside) := flows .timeout 5

/-- The texts that `ReceiveMessage` has returned. -/
def returnedTexts : Go Label → Option (List String)
  | .ret (.returned texts) => some texts
  | _ => none

theorem thread_of_returnedTexts (h : returnedTexts p = some texts) :
    p = .ret (.returned texts) := by
  unfold returnedTexts at h
  split at h
  · cases h
    rfl
  · cases h

/-- `OnMessage` has the first message in its hands when the flow registers its first channel, and
is given the second one while a `receive` waits. -/
def overlapping : List (Thread × Outside) :=
  listens "one" 2 ++ flows .delivered 3 ++ listens "one" 2 ++ flows .delivered 2 ++
    listens "one" 1 ++ exchange "two" ++ silence

theorem window_of_prompt_two :
    ∃ x, Trace.play (Pool.record (windows customerOne botOne 1) note) overlapping
        (quiet, ⟨.closed, [], []⟩) = some x ∧
      x.1.thread .flow = .ret (.returned ["one", "two"]) ∧
        ["one", "two"] = messageToText (x.2.early ++ x.2.arrived) ∧ x.2.arrived.length = 1 := by
  obtain ⟨x, hx, ⟨hreturned, hlength⟩, ok, hsteps, hok⟩ := Pool.reaches_record
    (windows customerOne botOne 1) note (fun x e y => of_decide_eq_true (p := Prompt x e y))
    overlapping (quiet, ⟨.closed, [], []⟩) (fun x => returnedTexts (x.1.thread .flow) =
      some ["one", "two"] ∧ x.2.arrived.length = 1) (by decide +kernel)
  have hthread := thread_of_returnedTexts hreturned
  exact ⟨x, hx, hthread, (window_of_prompt Nat.one_pos hsteps hok).1 _ hthread, hlength⟩

/-- The second message comes while no `receive` waits: it is in the window, and is not
returned. -/
theorem window_of_prompt_between :
    ∃ ok x, Trace.Steps (Recorded (windows customerOne botOne 1) note) Prompt
        (quiet, ⟨.closed, [], []⟩) ok x ∧
      x.1.thread .flow = .ret (.returned ["one"]) ∧
        messageToText x.2.arrived = ["one", "two"] := by
  obtain ⟨x, -, ⟨hreturned, harrived⟩, ok, hsteps⟩ := Trace.reaches
    (Pool.record_step (windows customerOne botOne 1) note) Prompt
    (exchange "one" ++ listens "two" 3 ++ silence) (quiet, ⟨.closed, [], []⟩)
    (fun x => returnedTexts (x.1.thread .flow) = some ["one"] ∧
      messageToText x.2.arrived = ["one", "two"]) (by decide +kernel)
  exact ⟨ok, x, hsteps, thread_of_returnedTexts hreturned, harrived⟩

end FlowManager.Im.Window
