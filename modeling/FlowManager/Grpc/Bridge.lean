import FlowManager.Flow.Program
import FlowManager.Lib.Outline

/-!
# The bridge of a chat conversation

`Bridge` takes the slot `c.chBridge`, invites the user, and waits until the channel in the slot
is closed. `Break` and `BreakBridge` close it: `closeIfBreak` looks whether there is a channel,
closes it and empties the slot, three accesses that only `Break` makes under the lock. `Bridge`
takes no lock, reads the slot again for its wait, and leaves the slot taken if the invitation
fails.

- `bridge`, `closeIfBreak`, `breakConversation`, `breakBridge`: the code, access by access.
- `bridging_outline`: what a step of it can do.
- `Tidy`: what the slot is, by where the flow and the break requests are; `Emptied`: the slot is
  empty from a break request on that has arrived while `Bridge` had it.
- `slot_of_timely`: break requests that come at the right times end the bridge, once.
-/

namespace FlowManager.Grpc.Bridge

open Concurrent Function

/-- The part of a `conversation` that the bridge is about -/
structure Conversation where
  chBridge : Option Nat
  /-- the number of the next channel -/
  next : Nat
  closed : Nat → Bool
  /-- `c.mx` is held -/
  locked : Bool
  breakCause : String
  /-- the chat server has been told `chat_transferred` -/
  transferred : Bool
  /-- `c.ctx` has ended -/
  ended : Bool
  /-- a goroutine has panicked, and the process with it -/
  panicked : Bool

def breakChatTransferCause : String := "TRANSFER"

/-- The runes that `strings.EqualFold` takes for a letter of `BreakChatTransferCause`: the letter
itself, the small one, and the long s -/
def foldsTo (r letter : Char) : Bool :=
  r = letter || r = letter.toLower || (letter = 'S' && r = 'ſ')

/-- `strings.EqualFold(cause, model.BreakChatTransferCause)` -/
def equalFoldTransfer (cause : String) : Bool :=
  cause.toList.isEqv breakChatTransferCause.toList foldsTo

namespace Conversation

/-- `c.IsTransfer()` -/
def isTransfer (c : Conversation) : Bool :=
  if c.breakCause = "" then false else equalFoldTransfer c.breakCause

/-- `c.chBridge = make(chan struct{})` -/
def makeBridge (c : Conversation) : Conversation :=
  { c with
    chBridge := some c.next
    next := c.next + 1
    closed := update c.closed c.next false }

def closeChan (c : Conversation) (ch : Nat) : Conversation :=
  { c with closed := update c.closed ch true }

def panic (c : Conversation) : Conversation := { c with panicked := true }

end Conversation

/-- The accesses -/
inductive Op where
  /-- `c.chBridge != nil` -/
  | hasBridge
  | makeBridge
  /-- `InviteToConversation` -/
  | invite
  /-- `c.chBridge` as the operand of `<-` or `close` -/
  | operand
  /-- `<-ch` -/
  | receive (ch : Option Nat)
  | close (ch : Option Nat)
  /-- `c.chBridge = nil` -/
  | clearBridge
  | lock
  | unlock
  /-- `br := conv.chBridge` -/
  | br
  | setBreakCause (cause : String)
  /-- `c.setTransferVariable()`; the variables of the conversation are not modelled -/
  | setTransferVariable
  /-- `c.cancel()` -/
  | cancel

/-- The answer to an access. -/
abbrev Op.Result : Op → Type
  | .hasBridge => Bool
  | .invite => Option String
  | .operand => Option Nat
  | .br => Option Nat
  | _ => Unit

/-- A request of the chat server -/
inductive Request where
  | breakConversation (cause : String)
  | breakBridge (cause : String)

/-- What comes from outside. -/
structure Outside where
  /-- the error of the invitation, if it fails -/
  refused : Option String
  request : Request

/-- The accesses in a process that runs; `none` if they cannot be made yet. -/
def attempt (w : Outside) : (a : Op) → Conversation → Option (a.Result × Conversation)
  | .hasBridge, c => some (c.chBridge.isSome, c)
  | .makeBridge, c => some ((), c.makeBridge)
  | .invite, c => some (w.refused, c)
  | .operand, c => some (c.chBridge, c)
  -- nothing is ever received from a nil channel
  | .receive none, _ => none
  -- nobody sends on the others: they are received from when they have been closed
  | .receive (some ch), c => if c.closed ch then some ((), c) else none
  | .close none, c => some ((), c.panic)
  | .close (some ch), c =>
    if c.closed ch then some ((), c.panic) else some ((), c.closeChan ch)
  | .clearBridge, c => some ((), { c with chBridge := none })
  | .lock, c => if c.locked then none else some ((), { c with locked := true })
  | .unlock, c => some ((), { c with locked := false })
  | .br, c => some (c.chBridge, c)
  | .setBreakCause cause, c => some ((), { c with breakCause := cause })
  | .setTransferVariable, c => some ((), { c with transferred := c.transferred || c.isTransfer })
  | .cancel, c => some ((), { c with ended := true })

/-- The accesses; nothing is done after a panic. -/
def exec (w : Outside) (a : Op) (c : Conversation) : Option (a.Result × Conversation) :=
  if c.panicked then none else attempt w a c

abbrev Go := Prog Op Op.Result

/-- A single access. -/
abbrev access (a : Op) : Go a.Result := call a

def errBridge (details : String) : AppError :=
  ⟨"Conversation.Bridge", "conv.bridge.app_err", details, 500⟩

def errTwoBridges : AppError := errBridge "Not allow two bridge"

def errNotFound : String := "bridge not found"

/-- Where a goroutine goes on. -/
inductive Label where
  /-- the flow is not in `Bridge` -/
  | idle
  /-- `Bridge` has returned -/
  | bridged (err : Option AppError)
  /-- no request -/
  | standby
  /-- a break request has returned -/
  | broken (err : Option String)

/-- `conversation.Bridge` -/
def bridge : Go Label := do
  if ← access .hasBridge then return .bridged (some errTwoBridges)
  else
    access .makeBridge
    match ← access .invite with
    -- the slot stays taken
    | some err => return .bridged (some (errBridge err))
    | none =>
      -- a break may have emptied the slot by now
      let ch ← access .operand
      access (.receive ch)
      return .bridged none

/-- `conversation.closeIfBreak` -/
def closeIfBreak : Go Unit := do
  if ← access .hasBridge then
    let ch ← access .operand
    access (.close ch)
    access .clearBridge
  else return ()

/-- `conversation.Break` from `closeIfBreak` on -/
def sealBreak (cause : String) : Go Label := do
  access (.setBreakCause cause)
  access .unlock
  access .setTransferVariable
  access .cancel
  return .broken none

/-- `conversation.Break` -/
def breakConversation (cause : String) : Go Label := do
  access .lock
  closeIfBreak
  sealBreak cause

/-- `closeIfBreak` at the end of `chatApi.BreakBridge` -/
def closeBridge : Go Label := do
  closeIfBreak
  return .broken none

/-- `chatApi.BreakBridge` from its first look at the slot on -/
def breakFound (cause : String) (br : Option Nat) : Go Label :=
  if br.isNone && !equalFoldTransfer cause then return .broken (some errNotFound)
  else if equalFoldTransfer cause then do
    access .lock
    access (.setBreakCause cause)
    access .unlock
    access .setTransferVariable
    closeBridge
  else closeBridge

/-- `chatApi.BreakBridge` -/
def breakBridge (cause : String) : Go Label := do
  access .lock
  let br ← access .br
  access .unlock
  breakFound cause br

/-- A request begins. -/
def handle : Request → Go Label
  | .breakConversation cause => breakConversation cause
  | .breakBridge cause => breakBridge cause

/-- The flow of the conversation, and the requests that come in -/
inductive Thread (n : Nat) where
  | flow
  | breaker (i : Fin n)
  deriving DecidableEq

/-- A conversation whose flow calls `Bridge` any number of times, with break requests. -/
def bridging : System Conversation Outside Op Op.Result Label where
  exec := exec
  code w
    | .idle => some bridge
    | .bridged _ => some (.ret .idle)
    | .standby => some (handle w.request)
    | .broken _ => some (.ret .standby)
  env _ _ := False

abbrev BridgePool (n : Nat) := Pool (Thread n) Conversation Op Op.Result Label

/-- `NewConversation` -/
def newConversation (n : Nat) : BridgePool n where
  shared := ⟨none, 0, fun _ => false, false, "", false, false, false⟩
  thread
    | .flow => .ret .idle
    | .breaker _ => .ret .standby

/-! ## Points of the code -/

/-- Where the flow is. -/
inductive FlowPoint where
  | idle
  | checking
  | making
  | inviting
  | evaluating
  | waiting (ch : Option Nat)
  | bridged (err : Option AppError)

def FlowPoint.prog : FlowPoint → Go Label
  | .idle => .ret .idle
  | .checking => bridge
  | .making => .act .makeBridge fun _ => .act .invite fun
      | some err => .ret (.bridged (some (errBridge err)))
      | none => .act .operand fun ch => .act (.receive ch) fun _ => .ret (.bridged none)
  | .inviting => .act .invite fun
      | some err => .ret (.bridged (some (errBridge err)))
      | none => .act .operand fun ch => .act (.receive ch) fun _ => .ret (.bridged none)
  | .evaluating => .act .operand fun ch => .act (.receive ch) fun _ => .ret (.bridged none)
  | .waiting ch => .act (.receive ch) fun _ => .ret (.bridged none)
  | .bridged err => .ret (.bridged err)

/-- Which request `closeIfBreak` is a part of: `Break` with its cause, or `BreakBridge` -/
abbrev Caller := Option String

/-- What follows `closeIfBreak`. -/
def Caller.prog : Caller → Go Label
  | some cause => sealBreak cause
  | none => .ret (.broken none)

/-- Where a break request is. -/
inductive BreakerPoint where
  | standby
  /-- `Break` has not got the lock -/
  | locking (cause : String)
  | checking (c : Caller)
  | evaluating (c : Caller)
  | closing (ch : Option Nat) (c : Caller)
  | clearing (c : Caller)
  | setCause (cause : String)
  | unlock
  | setVariable
  | cancel
  /-- `BreakBridge` has not got the lock -/
  | lockingBr (cause : String)
  | reading (cause : String)
  | unlockBr (cause : String) (br : Option Nat)
  | lockingTransfer (cause : String)
  | setCauseTransfer (cause : String)
  | unlockTransfer
  | setVariableTransfer
  | broken (err : Option String)

def BreakerPoint.prog : BreakerPoint → Go Label
  | .standby => .ret .standby
  | .locking cause => breakConversation cause
  | .checking c => closeIfBreak >>= fun _ => c.prog
  | .evaluating c => .act .operand fun ch => .act (.close ch) fun _ => .act .clearBridge fun _ =>
      c.prog
  | .closing ch c => .act (.close ch) fun _ => .act .clearBridge fun _ => c.prog
  | .clearing c => .act .clearBridge fun _ => c.prog
  | .setCause cause => sealBreak cause
  | .unlock => .act .unlock fun _ => .act .setTransferVariable fun _ => .act .cancel fun _ =>
      .ret (.broken none)
  | .setVariable => .act .setTransferVariable fun _ => .act .cancel fun _ => .ret (.broken none)
  | .cancel => .act .cancel fun _ => .ret (.broken none)
  | .lockingBr cause => breakBridge cause
  | .reading cause => .act .br fun br => .act .unlock fun _ => breakFound cause br
  | .unlockBr cause br => .act .unlock fun _ => breakFound cause br
  | .lockingTransfer cause => .act .lock fun _ => .act (.setBreakCause cause) fun _ =>
      .act .unlock fun _ => .act .setTransferVariable fun _ => closeBridge
  | .setCauseTransfer cause => .act (.setBreakCause cause) fun _ => .act .unlock fun _ =>
      .act .setTransferVariable fun _ => closeBridge
  | .unlockTransfer => .act .unlock fun _ => .act .setTransferVariable fun _ => closeBridge
  | .setVariableTransfer => .act .setTransferVariable fun _ => closeBridge
  | .broken err => .ret (.broken err)

/-- Where `closeIfBreak` leads. -/
def Caller.point : Caller → BreakerPoint
  | some cause => .setCause cause
  | none => .broken none

theorem Caller.point_prog (c : Caller) : c.prog = c.point.prog := by
  cases c <;> rfl

/-- The points of a goroutine -/
abbrev Point {n : Nat} : Thread n → Type
  | .flow => FlowPoint
  | .breaker _ => BreakerPoint

/-- What a goroutine has still to do. -/
def progAt {n : Nat} : (t : Thread n) → Point t → Go Label
  | .flow => FlowPoint.prog
  | .breaker _ => BreakerPoint.prog

/-- The flow moves. -/
inductive FlowMoves (m : Conversation) :
    FlowPoint → Option Op → Conversation → FlowPoint → Prop where
  | start : FlowMoves m .idle none m .checking
  | reject (h : m.chBridge.isSome = true) :
      FlowMoves m .checking (some .hasBridge) m (.bridged (some errTwoBridges))
  | check (h : m.chBridge = none) : FlowMoves m .checking (some .hasBridge) m .making
  | make : FlowMoves m .making (some .makeBridge) m.makeBridge .inviting
  | refused : FlowMoves m .inviting (some .invite) m (.bridged (some (errBridge err)))
  | invite : FlowMoves m .inviting (some .invite) m .evaluating
  | evaluate : FlowMoves m .evaluating (some .operand) m (.waiting m.chBridge)
  | receive (h : m.closed ch = true) :
      FlowMoves m (.waiting (some ch)) (some (.receive (some ch))) m (.bridged none)
  | back : FlowMoves m (.bridged err) none m .idle

/-- A break request moves. -/
inductive BreakerMoves (m : Conversation) :
    BreakerPoint → Option Op → Conversation → BreakerPoint → Prop where
  | startBreak : BreakerMoves m .standby none m (.locking cause)
  | startBridge : BreakerMoves m .standby none m (.lockingBr cause)
  | lock :
      BreakerMoves m (.locking cause) (some .lock) { m with locked := true }
        (.checking (some cause))
  | found (h : m.chBridge.isSome = true) :
      BreakerMoves m (.checking c) (some .hasBridge) m (.evaluating c)
  | nothing (h : m.chBridge = none) : BreakerMoves m (.checking c) (some .hasBridge) m c.point
  | evaluate : BreakerMoves m (.evaluating c) (some .operand) m (.closing m.chBridge c)
  | close (h : m.closed ch = false) :
      BreakerMoves m (.closing (some ch) c) (some (.close (some ch))) (m.closeChan ch) (.clearing c)
  | closeClosed (h : m.closed ch = true) :
      BreakerMoves m (.closing (some ch) c) (some (.close (some ch))) m.panic (.clearing c)
  | closeNil : BreakerMoves m (.closing none c) (some (.close none)) m.panic (.clearing c)
  | clear : BreakerMoves m (.clearing c) (some .clearBridge) { m with chBridge := none } c.point
  | setCause :
      BreakerMoves m (.setCause cause) (some (.setBreakCause cause)) { m with breakCause := cause }
        .unlock
  | unlock : BreakerMoves m .unlock (some .unlock) { m with locked := false } .setVariable
  | setVariable : BreakerMoves m .setVariable (some .setTransferVariable)
      { m with transferred := m.transferred || m.isTransfer } .cancel
  | cancel : BreakerMoves m .cancel (some .cancel) { m with ended := true } (.broken none)
  | lockBr :
      BreakerMoves m (.lockingBr cause) (some .lock) { m with locked := true } (.reading cause)
  | read : BreakerMoves m (.reading cause) (some .br) m (.unlockBr cause m.chBridge)
  | notFound :
      BreakerMoves m (.unlockBr cause none) (some .unlock)
        { m with locked := false } (.broken (some errNotFound))
  | unlockBr :
      BreakerMoves m (.unlockBr cause (some ch)) (some .unlock)
        { m with locked := false } (.checking none)
  | transfer :
      BreakerMoves m (.unlockBr cause br) (some .unlock)
        { m with locked := false } (.lockingTransfer cause)
  | lockTransfer :
      BreakerMoves m (.lockingTransfer cause) (some .lock) { m with locked := true }
        (.setCauseTransfer cause)
  | setCauseTransfer :
      BreakerMoves m (.setCauseTransfer cause) (some (.setBreakCause cause))
        { m with breakCause := cause } .unlockTransfer
  | unlockTransfer : BreakerMoves m .unlockTransfer (some .unlock) { m with locked := false }
      .setVariableTransfer
  | setVariableTransfer : BreakerMoves m .setVariableTransfer (some .setTransferVariable)
      { m with transferred := m.transferred || m.isTransfer } (.checking none)
  | back : BreakerMoves m (.broken err) none m .standby

/-- What a goroutine can do. -/
def moves {n : Nat} :
    (t : Thread n) → Conversation → Point t → Option Op → Conversation → Point t → Prop
  | .flow => FlowMoves
  | .breaker _ => BreakerMoves

section Outline

variable {m m' : Conversation} {w : Outside}

theorem flow_leads (m : Conversation) (pt : FlowPoint) :
    Leads attempt bridging.code FlowPoint.prog FlowMoves m pt := by
  cases pt with
  | idle => exact .next .start
  | checking =>
    rintro w _ ⟨⟩
    cases hch : m.chBridge with
    | none => exact ⟨.making, rfl, .check hch⟩
    | some ch => exact ⟨.bridged (some errTwoBridges), rfl, .reject (by rw [hch]; rfl)⟩
  | making => exact .act .make
  | inviting =>
    rintro w _ ⟨⟩
    cases w.refused with
    | none => exact ⟨.evaluating, rfl, .invite⟩
    | some err => exact ⟨.bridged (some (errBridge err)), rfl, .refused⟩
  | evaluating => exact .act .evaluate
  | waiting ch =>
    intro w y hexec
    cases ch with
    | none => cases hexec
    | some ch =>
      simp only [attempt] at hexec
      split at hexec <;> cases hexec
      exact ⟨.bridged none, rfl, .receive ‹_›⟩
  | bridged err => exact .next .back

/-- `BreakBridge` goes on with a transfer, with an error, or at `closeIfBreak`. -/
theorem breakFound_moves (cause : String) (br : Option Nat) :
    ∃ pt : BreakerPoint, breakFound cause br = pt.prog ∧
      BreakerMoves m (.unlockBr cause br) (some .unlock) { m with locked := false } pt := by
  unfold breakFound
  cases equalFoldTransfer cause with
  | true =>
    refine ⟨.lockingTransfer cause, ?_, .transfer⟩
    rw [if_neg (by simp), if_pos rfl]
    rfl
  | false =>
    cases br with
    | none => exact ⟨.broken (some errNotFound), rfl, .notFound⟩
    | some ch => exact ⟨.checking none, rfl, .unlockBr⟩

theorem breaker_leads (m : Conversation) (pt : BreakerPoint) :
    Leads attempt bridging.code BreakerPoint.prog BreakerMoves m pt := by
  have hlock : ∀ {w y}, attempt w .lock m = some y → y = ((), { m with locked := true }) := by
    intro w y hexec
    simp only [attempt] at hexec
    split at hexec <;> cases hexec
    rfl
  cases pt with
  | standby =>
    rintro w _ ⟨⟩
    cases w.request with
    | breakConversation cause => exact ⟨.locking cause, rfl, .startBreak⟩
    | breakBridge cause => exact ⟨.lockingBr cause, rfl, .startBridge⟩
  | locking cause =>
    intro w y hexec
    cases hlock hexec
    exact ⟨.checking (some cause), rfl, .lock⟩
  | checking c =>
    rintro w _ ⟨⟩
    cases hch : m.chBridge with
    | none => exact ⟨c.point, c.point_prog, .nothing hch⟩
    | some ch => exact ⟨.evaluating c, rfl, .found (by rw [hch]; rfl)⟩
  | evaluating c => exact .act .evaluate
  | closing ch c =>
    intro w y hexec
    refine ⟨.clearing c, rfl, ?_⟩
    cases ch with
    | none =>
      cases hexec
      exact .closeNil
    | some ch =>
      simp only [attempt] at hexec
      split at hexec <;> cases hexec
      · exact .closeClosed ‹_›
      · exact .close (Bool.eq_false_iff.mpr ‹_›)
  | clearing c => exact .act .clear rfl (fun _ => rfl) c.point_prog
  | setCause cause => exact .act .setCause
  | unlock => exact .act .unlock
  | setVariable => exact .act .setVariable
  | cancel => exact .act .cancel
  | lockingBr cause =>
    intro w y hexec
    cases hlock hexec
    exact ⟨.reading cause, rfl, .lockBr⟩
  | reading cause => exact .act .read
  | unlockBr cause br =>
    rintro w _ ⟨⟩
    exact breakFound_moves cause br
  | lockingTransfer cause =>
    intro w y hexec
    cases hlock hexec
    exact ⟨.setCauseTransfer cause, rfl, .lockTransfer⟩
  | setCauseTransfer cause => exact .act .setCauseTransfer
  | unlockTransfer => exact .act .unlockTransfer
  | setVariableTransfer => exact .act .setVariableTransfer
  | broken err => exact .next .back

end Outline

theorem bridging_outline (n : Nat) : Outline bridging (progAt (n := n)) (Moving moves) := by
  refine Outline.of_moves (fun t m pt => ?_) (fun h => (Option.ite_none_left_eq_some.mp h).2)
    fun _ _ => id
  cases t with
  | flow => exact flow_leads m pt
  | breaker i => exact breaker_leads m pt

/-! ## The slot -/

/-- A break request has found a channel, and has not emptied the slot. -/
def Inside : Go Label → Bool
  | .act .operand _ => true
  | .act (.close _) _ => true
  | .act .clearBridge _ => true
  | _ => false

/-- `Bridge` has taken the slot. -/
def Taken : Go Label → Bool
  | .act .invite _ => true
  | .act .operand _ => true
  | .act (.receive _) _ => true
  | _ => false

/-- The invitation has succeeded, and `Bridge` does not wait yet. -/
def Invited : Go Label → Bool
  | .act .operand _ => true
  | _ => false

/-- `Bridge` has returned. -/
def Returned : Go Label → Bool
  | .ret (.bridged _) => true
  | _ => false

/-- A break request has returned. -/
def Over : Go Label → Bool
  | .ret (.broken _) => true
  | _ => false

/-- What is written down of a run -/
structure Log (n : Nat) where
  /-- the break requests that have come while `Bridge` had the slot -/
  arrived : Fin n → Bool
  /-- one of them has returned -/
  answered : Bool
  /-- a call of `Bridge` has found the slot taken -/
  rejected : Bool

/-- Nothing has happened. -/
def Log.empty {n : Nat} : Log n := ⟨fun _ => false, false, false⟩

def note {n : Nat} (s : BridgePool n) (e : Concurrent.Event (Thread n) Op) (s' : BridgePool n)
    (l : Log n) : Log n :=
  match e with
  | .act .flow .hasBridge => { l with rejected := l.rejected || Returned (s'.thread .flow) }
  -- a new bridge
  | .act .flow .makeBridge => { l with arrived := fun _ => false, answered := false }
  | .next (.breaker i) =>
    { l with arrived := update l.arrived i (Taken (s.thread .flow)) }
  | .act (.breaker i) _ =>
    { l with answered := l.answered || (l.arrived i && Over (s'.thread (.breaker i))) }
  | _ => l

/-- `Bridge` is called only when no break request is about to empty the slot; the invitation
fails exactly if a break request has emptied the slot on the way; a break request that finds a
channel is the only one to have found it; and no break request empties the slot when the
invitation has succeeded and `Bridge` does not wait yet. -/
def Timely {n : Nat} (x : BridgePool n × Log n) (e : Concurrent.Event (Thread n) Op)
    (y : BridgePool n × Log n) : Prop :=
  match e with
  | .act .flow .hasBridge => ∀ i, Inside (x.1.thread (.breaker i)) = false
  | .act .flow .invite => Returned (y.1.thread .flow) = true ↔ x.1.shared.chBridge = none
  | .act (.breaker i) .hasBridge =>
    x.1.shared.chBridge ≠ none → ∀ j, j ≠ i → Inside (x.1.thread (.breaker j)) = false
  | .act (.breaker _) .clearBridge => Invited (x.1.thread .flow) = false
  | _ => True

def FlowPoint.Tidy (m : Conversation) : FlowPoint → Prop
  | .making => m.chBridge = none
  | .inviting => True
  | .evaluating => ∃ c, m.chBridge = some c
  | .waiting ch => ∃ c, ch = some c ∧ (m.chBridge = some c ∨ m.chBridge = none ∧ m.closed c = true)
  -- a bridge is over when its channel is closed, maybe before the slot is empty
  | .idle | .checking | .bridged _ => ∀ c, m.chBridge = some c → m.closed c = true

def BreakerPoint.Tidy (m : Conversation) : BreakerPoint → Prop
  | .evaluating _ => ∃ c, m.chBridge = some c ∧ m.closed c = false
  | .closing ch _ => ∃ c, ch = some c ∧ m.chBridge = some c ∧ m.closed c = false
  | .clearing _ => ∃ c, m.chBridge = some c ∧ m.closed c = true
  | _ => True

def BreakerPoint.inside : BreakerPoint → Bool
  | .evaluating _ => true
  | .closing _ _ => true
  | .clearing _ => true
  | _ => false

/-- One break request at most deals with the channel in the slot. -/
structure Tidy {n : Nat} (m : Conversation) (pts : ∀ t : Thread n, Point t) : Prop where
  flow : FlowPoint.Tidy m (pts .flow)
  breaker : ∀ i, BreakerPoint.Tidy m (pts (.breaker i))
  alone : ∀ {i j}, BreakerPoint.inside (pts (.breaker i)) = true →
    BreakerPoint.inside (pts (.breaker j)) = true → i = j
  clearing : ∀ {c}, m.chBridge = some c → m.closed c = true →
    ∃ i by', pts (.breaker i) = BreakerPoint.clearing by'
  running : m.panicked = false

section Tidy

variable {n : Nat} {m m' : Conversation} {pts pts' : ∀ t : Thread n, Point t}

theorem BreakerPoint.inside_prog (pt : BreakerPoint) : Inside pt.prog = pt.inside := by
  cases pt <;> rfl

theorem BreakerPoint.Tidy.some_of_inside {pt : BreakerPoint} (h : pt.Tidy m)
    (hinside : pt.inside = true) : ∃ c, m.chBridge = some c := by
  cases pt with
  | evaluating c | clearing c => exact ⟨h.choose, h.choose_spec.1⟩
  | closing ch c => exact ⟨h.choose, h.choose_spec.2.1⟩
  | _ => cases hinside

theorem BreakerPoint.Tidy.of_not_inside {pt : BreakerPoint} (h : pt.inside = false) :
    pt.Tidy m := by
  cases pt with
  | evaluating | closing | clearing => cases h
  | _ => trivial

/-- What is known of a goroutine depends on the slot and the channels. -/
theorem BreakerPoint.Tidy.congr {pt : BreakerPoint} (h : pt.Tidy m)
    (hslot : m'.chBridge = m.chBridge) (hclosed : m'.closed = m.closed) : pt.Tidy m' := by
  unfold BreakerPoint.Tidy at h ⊢
  rw [hslot, hclosed]
  exact h

theorem FlowPoint.Tidy.congr {pt : FlowPoint} (h : pt.Tidy m)
    (hslot : m'.chBridge = m.chBridge) (hclosed : m'.closed = m.closed) : pt.Tidy m' := by
  unfold FlowPoint.Tidy at h ⊢
  rw [hslot, hclosed]
  exact h

/-- If nobody else has found a channel, the one in the slot is open. -/
theorem Tidy.open_of_alone (h : Tidy m pts)
    (hothers : ∀ j, j ≠ i → BreakerPoint.inside (pts (.breaker j)) = false)
    (hself : BreakerPoint.inside (pts (.breaker i)) = false) (hslot : m.chBridge = some c) :
    m.closed c = false := by
  by_contra hclosed
  obtain ⟨j, by', hj⟩ := h.clearing hslot (by simpa using hclosed)
  have hinside : BreakerPoint.inside (pts (.breaker j)) = true := by rw [hj]; rfl
  by_cases hji : j = i
  · subst hji
    rw [hself] at hinside
    cases hinside
  · rw [hothers j hji] at hinside
    cases hinside

/-- The flow moves, and the slot stays as it is. -/
theorem Tidy.flowStep (h : Tidy m pts) (hpt : pt.Tidy m) :
    Tidy m (update pts .flow pt) where
  flow := hpt
  breaker := h.breaker
  alone := h.alone
  clearing := h.clearing
  running := h.running

/-- What is known of the break requests when one of them has moved. -/
theorem forall_breaker (Q : Fin n → BreakerPoint → Prop) (hi : Q i pt)
    (hother : ∀ j, j ≠ i → Q j (pts (.breaker j))) (j : Fin n) :
    Q j (update pts (.breaker i) pt (.breaker j)) :=
  forall_family (P := Point) (fun _ _ => Thread.breaker.inj) Q hi hother j

section

variable (h : Tidy m pts)
include h

/-- A break request moves that has to do with no channel, before and after. -/
theorem Tidy.stay {i : Fin n}
    (hbefore : BreakerPoint.inside (pts (.breaker i)) = false) (hafter : pt.inside = false)
    (hslot : m'.chBridge = m.chBridge) (hclosed : m'.closed = m.closed)
    (hpanicked : m'.panicked = m.panicked) : Tidy m' (update pts (.breaker i) pt) := by
  constructor
  · exact h.flow.congr hslot hclosed
  · exact forall_breaker (fun _ p => p.Tidy m') (.of_not_inside hafter)
      fun j _ => (h.breaker j).congr hslot hclosed
  · have hsame := forall_breaker (fun j p => p.inside = BreakerPoint.inside (pts (.breaker j)))
      (hafter.trans hbefore.symm) fun _ _ => rfl
    intro j k hj hk
    exact h.alone ((hsame j).symm.trans hj) ((hsame k).symm.trans hk)
  · intro c hc hopen
    rw [hslot] at hc
    rw [hclosed] at hopen
    obtain ⟨j, by', hj⟩ := h.clearing hc hopen
    refine ⟨j, by', ?_⟩
    rw [update_of_ne, hj]
    rintro ⟨⟩
    rw [hj] at hbefore
    cases hbefore
  · exact hpanicked.trans h.running

/-- A break request moves that is the only one to have found the channel in the slot. -/
theorem Tidy.deal
    (hothers : ∀ j, j ≠ i → BreakerPoint.inside (pts (.breaker j)) = false) (hpt : pt.Tidy m')
    (hflow : FlowPoint.Tidy m' (pts .flow))
    (hclearing : ∀ {c}, m'.chBridge = some c → m'.closed c = true →
      ∃ by', pt = BreakerPoint.clearing by') (hpanicked : m'.panicked = m.panicked) :
    Tidy m' (update pts (.breaker i) pt) := by
  constructor
  · exact hflow
  · exact forall_breaker (fun _ p => p.Tidy m') hpt fun j hji => .of_not_inside (hothers j hji)
  · have honly : ∀ j,
        BreakerPoint.inside (update pts (.breaker i) pt (.breaker j)) = true → j = i := by
      refine forall_breaker (fun j p => p.inside = true → j = i) (fun _ => rfl) fun j hji hj => ?_
      rw [hothers j hji] at hj
      cases hj
    intro j k hj hk
    exact (honly j hj).trans (honly k hk).symm
  · intro c hc hclosed
    obtain ⟨by', rfl⟩ := hclearing hc hclosed
    exact ⟨i, by', update_self ..⟩
  · exact hpanicked.trans h.running

theorem Tidy.others (hinside : BreakerPoint.inside (pts (.breaker i)) = true)
    (j : Fin n) (hji : j ≠ i) : BreakerPoint.inside (pts (.breaker j)) = false := by
  by_contra hj
  exact hji (h.alone (by simpa using hj) hinside)

/-- A flow that calls `Bridge` while no break request has found a channel finds the slot empty. -/
theorem Tidy.empty (hpt : pts .flow = FlowPoint.checking)
    (hnobody : ∀ i, BreakerPoint.inside (pts (.breaker i)) = false) : m.chBridge = none := by
  cases hslot : m.chBridge with
  | none => rfl
  | some c =>
    have hflow := h.flow
    rw [hpt] at hflow
    obtain ⟨i, by', hi⟩ := h.clearing hslot (hflow c hslot)
    have hinside := hnobody i
    rw [hi] at hinside
    cases hinside

/-- `Bridge` takes the slot. -/
theorem Tidy.make (hslot : m.chBridge = none) :
    Tidy m.makeBridge (update pts .flow FlowPoint.inviting) := by
  have hnobody : ∀ i, BreakerPoint.inside (pts (.breaker i)) = false := by
    intro i
    by_contra hinside
    obtain ⟨c, hc⟩ := (h.breaker i).some_of_inside (by simpa using hinside)
    rw [hslot] at hc
    cases hc
  constructor
  · exact trivial
  · intro i
    exact .of_not_inside (hnobody i)
  · intro i j hi
    exact absurd ((hnobody i).symm.trans hi) nofun
  · intro c hc hclosed
    cases hc
    exact absurd ((update_self ..).symm.trans hclosed) nofun
  · exact h.running

/-- Steps of the flow -/
theorem Tidy.flowMove (hmoves : FlowMoves m (pts .flow) a m' pt)
    (hcheck : a = some .hasBridge → ∀ i, BreakerPoint.inside (pts (.breaker i)) = false)
    (hinvite : a = some .invite → (Returned pt.prog = true ↔ m.chBridge = none)) :
    Tidy m' (update pts .flow pt) := by
  have hpt := h.flow
  generalize hpt₀ : pts .flow = pt₀ at hmoves hpt
  cases hmoves with
  | start | back => exact h.flowStep hpt
  | reject hsome =>
    rw [h.empty hpt₀ (hcheck rfl)] at hsome
    cases hsome
  | check hslot => exact h.flowStep hslot
  | make => exact h.make hpt
  | refused =>
    have hslot := (hinvite rfl).mp rfl
    refine h.flowStep fun c hc => ?_
    rw [hslot] at hc
    cases hc
  | invite =>
    refine h.flowStep (Option.ne_none_iff_exists'.mp fun hslot => ?_)
    exact absurd ((hinvite rfl).mpr hslot) nofun
  | evaluate =>
    obtain ⟨c, hc⟩ := hpt
    exact h.flowStep ⟨c, hc, .inl hc⟩
  | @receive ch hclosed =>
    obtain ⟨c, hch, hslot⟩ := hpt
    cases hch
    refine h.flowStep fun d hd => ?_
    rcases hslot with hslot | ⟨hslot, -⟩
    · rw [hslot] at hd
      cases hd
      exact hclosed
    · rw [hslot] at hd
      cases hd

end

/-- What the flow knows of the slot is still true when the channel in it is closed. -/
theorem FlowPoint.Tidy.close {pt : FlowPoint} (h : pt.Tidy m) (ch : Nat) :
    pt.Tidy (m.closeChan ch) := by
  have hmono : ∀ {c}, m.closed c = true → (m.closeChan ch).closed c = true := by
    intro c hc
    by_cases hcc : c = ch
    · subst hcc
      exact update_self ..
    · exact (update_of_ne hcc ..).trans hc
  cases pt with
  | making | evaluating => exact h
  | inviting => trivial
  | waiting ch' =>
    obtain ⟨c, hch, hslot⟩ := h
    exact ⟨c, hch, hslot.imp_right fun hempty => ⟨hempty.1, hmono hempty.2⟩⟩
  | idle | checking | bridged err => exact fun c hc => hmono (h c hc)

/-- And when the slot is emptied after that, except for a flow that is about to read it. -/
theorem FlowPoint.Tidy.clear {pt : FlowPoint} (h : pt.Tidy m)
    (hslot : m.chBridge = some c) (hclosed : m.closed c = true) (hpt : Invited pt.prog = false) :
    pt.Tidy { m with chBridge := none } := by
  cases pt with
  | making => rfl
  | inviting => trivial
  | evaluating => cases hpt
  | waiting ch =>
    obtain ⟨d, hch, hd⟩ := h
    refine ⟨d, hch, .inr ⟨rfl, ?_⟩⟩
    rcases hd with hd | ⟨hempty, -⟩
    · rw [hslot] at hd
      cases hd
      exact hclosed
    · rw [hslot] at hempty
      cases hempty
  | idle | checking => exact nofun
  | bridged err => exact nofun

/-- Steps of a break request -/
theorem Tidy.breakerMove (h : Tidy m pts) {i : Fin n}
    (hmoves : BreakerMoves m (pts (.breaker i)) a m' pt)
    (hcheck : a = some .hasBridge → m.chBridge ≠ none →
      ∀ j, j ≠ i → BreakerPoint.inside (pts (.breaker j)) = false)
    (hclear : a = some .clearBridge → Invited (FlowPoint.prog (pts .flow)) = false) :
    Tidy m' (update pts (.breaker i) pt) := by
  have hpt := h.breaker i
  have hothers := h.others (i := i)
  have hopen : ∀ {pt c d}, m.chBridge = some c → m.closed c = false → m.chBridge = some d →
      m.closed d = true → ∃ by', pt = BreakerPoint.clearing by' := by
    intro pt c d hc hfresh hd hclosed
    rw [hc] at hd
    cases hd
    exact absurd (hfresh.symm.trans hclosed) nofun
  generalize hpt₀ : pts (.breaker i) = pt₀ at hmoves hpt hothers
  cases hmoves with
  | @found by' hsome =>
    obtain ⟨c, hc⟩ := Option.isSome_iff_exists.mp hsome
    have halone := hcheck rfl (by rw [hc]; nofun)
    have hfresh := h.open_of_alone halone (by rw [hpt₀]; rfl) hc
    exact h.deal halone ⟨c, hc, hfresh⟩ h.flow (hopen hc hfresh) rfl
  | @nothing by' hslot =>
    refine h.stay (by rw [hpt₀]; rfl) ?_ rfl rfl rfl
    cases by' <;> rfl
  | @evaluate by' =>
    obtain ⟨c, hc, hfresh⟩ := hpt
    exact h.deal (hothers rfl) ⟨c, hc, hc, hfresh⟩ h.flow (hopen hc hfresh) rfl
  | @close ch by' hfresh =>
    obtain ⟨c, hch, hc, -⟩ := hpt
    cases hch
    exact h.deal (hothers rfl) ⟨ch, hc, update_self ..⟩ (h.flow.close ch)
      (fun _ _ => ⟨by', rfl⟩) rfl
  | closeClosed hclosed =>
    -- nobody else has closed it
    obtain ⟨c, hch, -, hfresh⟩ := hpt
    cases hch
    rw [hfresh] at hclosed
    cases hclosed
  | closeNil => exact absurd hpt.choose_spec.1 nofun
  | @clear by' =>
    obtain ⟨c, hc, hclosed⟩ := hpt
    refine h.deal (hothers rfl) (.of_not_inside ?_) (h.flow.clear hc hclosed (hclear rfl)) nofun rfl
    cases by' <;> rfl
  | _ => exact h.stay (by rw [hpt₀]; rfl) rfl rfl rfl rfl

end Tidy

/-! ## Break requests that have come in time -/

/-- The request has seen the slot empty, or has emptied it. -/
def BreakerPoint.past : BreakerPoint → Bool
  | .setCause _ => true
  | .unlock => true
  | .setVariable => true
  | .cancel => true
  | .unlockBr _ none => true
  | .broken _ => true
  | _ => false

/-- The slot is empty after a break request that has come while `Bridge` had it. -/
structure Emptied {n : Nat} (m : Conversation) (pts : ∀ t : Thread n, Point t) (l : Log n) :
    Prop where
  past : ∀ i, l.arrived i = true → BreakerPoint.past (pts (.breaker i)) = true → m.chBridge = none
  answered : l.answered = true → m.chBridge = none

section Emptied

variable {n : Nat} {m m' : Conversation} {pts pts' : ∀ t : Thread n, Point t} {l : Log n}
  {s s' : BridgePool n}

theorem BreakerMoves.slot (h : BreakerMoves m pt a m' pt') :
    m'.chBridge = m.chBridge ∨ m'.chBridge = none := by
  cases h with
  | clear => exact .inr rfl
  | _ => exact .inl rfl

/-- A request gets past the slot only if the slot is empty then. -/
theorem BreakerMoves.past (h : BreakerMoves m pt a m' pt') (hpast : pt'.past = true) :
    m'.chBridge = none ∨ pt.past = true := by
  cases h with
  | nothing hslot => exact .inl hslot
  | clear => exact .inl rfl
  | read =>
    cases hslot : m.chBridge with
    | none => exact .inl rfl
    | some c =>
      rw [hslot] at hpast
      cases hpast
  | setCause | unlock | setVariable | cancel | notFound => exact .inr rfl
  | _ => cases hpast

/-- No request begins past the slot. -/
theorem BreakerMoves.not_past (h : BreakerMoves m pt none m' pt') : pt'.past = false := by
  cases h <;> rfl

theorem BreakerPoint.past_of_over {pt : BreakerPoint} (h : Over pt.prog = true) :
    pt.past = true := by
  cases pt with
  | broken err => rfl
  | _ => cases h

/-- Steps of a break request -/
theorem Emptied.breakerMove (h : Emptied m pts l)
    (hmoves : BreakerMoves m (pts (.breaker i)) a m' pt) (hat' : s'.thread (.breaker i) = pt.prog) :
    Emptied m' (update pts (.breaker i) pt) (note s (Event.of (.breaker i) a) s' l) := by
  have hstays : m.chBridge = none → m'.chBridge = none := by
    intro hslot
    rcases hmoves.slot with hsame | hnone
    · exact hsame.trans hslot
    · exact hnone
  have hself : l.arrived i = true → pt.past = true → m'.chBridge = none := by
    intro harrived hpast
    rcases hmoves.past hpast with hnone | hbefore
    · exact hnone
    · exact hstays (h.past i harrived hbefore)
  cases a with
  | none =>
    constructor
    · refine forall_breaker (fun j p => update l.arrived i _ j = true → p.past = true → _)
        (fun _ hpast => absurd (hmoves.not_past.symm.trans hpast) nofun) fun j hji harrived => ?_
      exact fun hpast => hstays (h.past j ((update_of_ne hji ..).symm.trans harrived) hpast)
    · exact fun hanswered => hstays (h.answered hanswered)
  | some op =>
    constructor
    · exact forall_breaker (fun j p => l.arrived j = true → p.past = true → _) hself
        fun j _ harrived hpast => hstays (h.past j harrived hpast)
    · intro hanswered
      change (l.answered || (l.arrived i && Over (s'.thread (.breaker i)))) = true at hanswered
      rw [Bool.or_eq_true, Bool.and_eq_true, hat'] at hanswered
      rcases hanswered with hanswered | ⟨harrived, hover⟩
      · exact hstays (h.answered hanswered)
      · exact hself harrived (BreakerPoint.past_of_over hover)

/-- Steps of the flow -/
theorem Emptied.flowMove (h : Emptied m pts l) (hmoves : FlowMoves m (pts .flow) a m' pt) :
    Emptied m' (update pts .flow pt) (note s (Event.of .flow a) s' l) := by
  generalize pts .flow = pt₀ at hmoves
  cases hmoves with
  | make => exact ⟨fun _ => nofun, nofun⟩
  | _ => exact ⟨h.past, h.answered⟩

/-- No call of `Bridge` has been rejected. -/
theorem accepted_flowMove (h : Tidy m pts) (hl : l.rejected = false)
    (hmoves : FlowMoves m (pts .flow) a m' pt) (hat' : s'.thread .flow = pt.prog)
    (hcheck : a = some .hasBridge → ∀ i, BreakerPoint.inside (pts (.breaker i)) = false) :
    (note s (Event.of .flow a) s' l).rejected = false := by
  generalize hpt₀ : pts .flow = pt₀ at hmoves
  cases hmoves with
  | reject hsome =>
    rw [h.empty hpt₀ (hcheck rfl)] at hsome
    cases hsome
  | check =>
    change (l.rejected || Returned (s'.thread .flow)) = false
    rw [hl, hat']
    rfl
  | _ => exact hl

end Emptied

/-- What holds at every moment of a run in which the break requests are timely. -/
structure Kept {n : Nat} (m : Conversation) (pts : ∀ t : Thread n, Point t) (l : Log n) :
    Prop where
  tidy : Tidy m pts
  emptied : Emptied m pts l
  accepted : l.rejected = false

section Kept

variable {n : Nat} {m m' : Conversation} {pts pts' : ∀ t : Thread n, Point t} {l : Log n}
  {s s' : BridgePool n}

theorem inside_eq (hat : s.At progAt pts) (i : Fin n) :
    Inside (s.thread (.breaker i)) = BreakerPoint.inside (pts (.breaker i)) := by
  rw [hat (.breaker i)]
  exact BreakerPoint.inside_prog _

theorem Kept.keep (hm : s.shared = m) (hat : s.At progAt pts) (hat' : s'.At progAt pts')
    (hmoves : Moving moves m pts e m' pts') (h : Kept m pts l)
    (hcond : Timely (s, l) e (s', note s e s' l)) : Kept m' pts' (note s e s' l) := by
  cases hmoves with
  | @move t a m' pt hmoves =>
    have hpt : s'.thread t = progAt t pt := by
      rw [hat' t, update_self]
    cases t with
    | flow =>
      have hcheck : a = some .hasBridge →
          ∀ i, BreakerPoint.inside (pts (.breaker i)) = false := by
        rintro rfl i
        rw [← inside_eq hat]
        exact hcond i
      refine ⟨h.tidy.flowMove hmoves hcheck ?_, h.emptied.flowMove hmoves,
        accepted_flowMove h.tidy h.accepted hmoves hpt hcheck⟩
      rintro rfl
      have hinvite : Returned (s'.thread .flow) = true ↔ s.shared.chBridge = none := hcond
      rwa [hpt, hm] at hinvite
    | breaker i =>
      refine ⟨h.tidy.breakerMove hmoves ?_ ?_, h.emptied.breakerMove hmoves hpt, ?_⟩
      · rintro rfl hslot j hji
        rw [← inside_eq hat]
        exact hcond (by rw [hm]; exact hslot) j hji
      · rintro rfl
        have hinvited : Invited (s.thread .flow) = false := hcond
        rwa [hat .flow] at hinvited
      · cases a <;> exact h.accepted

end Kept

/-- No call has been made. -/
def atRest {n : Nat} : (t : Thread n) → Point t
  | .flow => .idle
  | .breaker _ => .standby

theorem at_newConversation (n : Nat) : (newConversation n).At progAt atRest := by
  intro t
  cases t <;> rfl

theorem kept_newConversation (n : Nat) :
    Kept (newConversation n).shared (atRest (n := n)) Log.empty where
  tidy := ⟨nofun, fun _ => trivial, nofun, nofun, rfl⟩
  emptied := ⟨nofun, nofun⟩
  accepted := rfl

/-- `Bridge` is not held up, and whatever the flow does next in good time ends it. -/
def Ends {n : Nat} (x : BridgePool n × Log n) : Prop :=
  (∃ w s', x.1.move bridging .flow w = some s') ∧
    ∀ w s', x.1.move bridging .flow w = some s' →
      Timely x (x.1.event .flow) (s', note x.1 (x.1.event .flow) s' x.2) →
        Returned (s'.thread .flow) = true

section Ends

variable {n : Nat} {x : BridgePool n × Log n} {pts : ∀ t : Thread n, Point t}

theorem flow_move (hthread : x.1.thread .flow = .act a k) (hrunning : x.1.shared.panicked = false)
    (w : Outside) :
    x.1.move bridging .flow w =
      (attempt w a x.1.shared).map fun y => x.1.set .flow y.2 (k y.1) := by
  simp only [Pool.move, hthread, bridging, exec, hrunning]
  rfl

/-- After a break request that came while it had the slot, `Bridge` ends. -/
theorem Kept.ends (h : Kept x.1.shared pts x.2) (hat : x.1.At progAt pts)
    (hanswered : x.2.answered = true) (htaken : Taken (x.1.thread .flow) = true) : Ends x := by
  have hslot := h.emptied.answered hanswered
  have hflow := h.tidy.flow
  have hthread := hat .flow
  rw [hthread] at htaken
  generalize pts .flow = pt at hthread htaken hflow
  have hmove := fun {a k} hk => flow_move (x := x) (a := a) (k := k) (hthread.trans hk)
    h.tidy.running
  cases pt with
  | inviting =>
    refine ⟨⟨⟨some "", .breakBridge ""⟩, _, hmove rfl _⟩, ?_⟩
    intro w s' hs' htimely
    have hevent : x.1.event .flow = .act .flow .invite := by
      simp only [Pool.event, hthread]
      rfl
    rw [hevent] at htimely
    exact htimely.mpr hslot
  | evaluating =>
    obtain ⟨c, hc⟩ := hflow
    rw [hslot] at hc
    cases hc
  | waiting ch =>
    obtain ⟨c, rfl, hc | ⟨-, hclosed⟩⟩ := hflow
    · rw [hslot] at hc
      cases hc
    · have hall : ∀ w, x.1.move bridging .flow w =
          some (x.1.set .flow x.1.shared (.ret (.bridged none))) := by
        intro w
        rw [hmove rfl w]
        simp only [attempt, hclosed]
        rfl
      refine ⟨⟨⟨none, .breakBridge ""⟩, _, hall _⟩, ?_⟩
      intro w s' hs' _
      rw [hall w] at hs'
      cases hs'
      rfl
  | _ => cases htaken

end Ends

/-- In every interleaving of the calls of `Bridge` with any number of break requests that are
timely, no channel is closed twice or while nil, so nothing panics; a break request that has come
while `Bridge` had the slot ends it, and `Bridge` never waits on a nil channel; and no call of
`Bridge` is rejected because of an earlier one. -/
theorem slot_of_timely {n : Nat} {ok : Prop} {x : BridgePool n × Log n}
    (h : Trace.Steps (Recorded bridging note) Timely (newConversation n, Log.empty) ok x)
    (hok : ok) :
    x.1.shared.panicked = false ∧
      (x.2.answered = true → Taken (x.1.thread .flow) = true → Ends x) ∧
        (∀ k, x.1.thread .flow ≠ .act (.receive none) k) ∧ x.2.rejected = false := by
  obtain ⟨pts, hat, hkept⟩ : ∃ pts, x.1.At progAt pts ∧ Kept x.1.shared pts x.2 :=
    (bridging_outline n).run h hok (at_newConversation n) (kept_newConversation n)
      fun hm _ hat hat' hmoves hinv hcond => hinv.keep hm hat hat' hmoves hcond
  refine ⟨hkept.tidy.running, hkept.ends hat, ?_, hkept.accepted⟩
  intro k hnil
  have hflow := hkept.tidy.flow
  rw [hat .flow] at hnil
  change (FlowPoint.prog (pts .flow)) = _ at hnil
  generalize pts .flow = pt at hnil hflow
  cases pt with
  | waiting ch =>
    cases hnil
    exact absurd hflow.choose_spec.1 nofun
  | _ => cases hnil

/-! ## Schedules -/

/-- The flow moves; its invitation succeeds. -/
def flows {n : Nat} (moves : Nat) : List (Thread n × Outside) :=
  List.replicate moves (.flow, ⟨none, .breakBridge ""⟩)

/-- A break request moves. -/
def breaks {n : Nat} (i : Fin n) (request : Request) (moves : Nat) : List (Thread n × Outside) :=
  List.replicate moves (.breaker i, ⟨none, request⟩)

instance {n : Nat} (x : BridgePool n × Log n) (e : Concurrent.Event (Thread n) Op)
    (y : BridgePool n × Log n) : Decidable (Timely x e y) := by
  unfold Timely
  split <;> infer_instance

/-- `Break` comes when `Bridge` waits, which ends it. -/
theorem slot_of_timely_broken :
    ∃ x, Trace.play (Pool.record bridging note)
        (flows 5 ++ breaks 0 (.breakConversation "CLOSED") 10) (newConversation 1, Log.empty) =
          some x ∧
      x.2.answered = true ∧ Taken (x.1.thread .flow) = true ∧ x.1.shared.panicked = false ∧
        Ends x ∧ (∀ k, x.1.thread .flow ≠ .act (.receive none) k) ∧ x.2.rejected = false := by
  obtain ⟨x, hx, ⟨hanswered, htaken⟩, ok, hsteps, hok⟩ := Pool.reaches_record bridging note
    (fun x e y => of_decide_eq_true (p := Timely x e y))
    (flows 5 ++ breaks 0 (.breakConversation "CLOSED") 10) (newConversation 1, Log.empty)
    (fun x => x.2.answered = true ∧ Taken (x.1.thread .flow) = true) (by decide +kernel)
  obtain ⟨hrunning, hends, hnil, haccepted⟩ := slot_of_timely hsteps hok
  exact ⟨x, hx, hanswered, htaken, hrunning, hends hanswered htaken, hnil, haccepted⟩

/-- The flow waits on a nil channel. -/
def waitsOnNil : Go Label → Bool
  | .act (.receive none) _ => true
  | _ => false

theorem thread_of_waitsOnNil (h : waitsOnNil p = true) : ∃ k, p = .act (.receive none) k := by
  unfold waitsOnNil at h
  split at h
  · exact ⟨_, rfl⟩
  · cases h

/-- `BreakBridge` comes while the user is being invited; then the invitation succeeds. -/
def early : List (Thread 1 × Outside) := flows 3 ++ breaks 0 (.breakBridge "") 8 ++ flows 2

/-- A break request that has come while `Bridge` had the slot has returned, and `Bridge` waits on
a nil channel for ever. -/
theorem slot_of_timely_early :
    ∃ ok x, Trace.Steps (Recorded bridging note) Timely (newConversation 1, Log.empty) ok x ∧
      x.2.answered = true ∧ (∃ k, x.1.thread .flow = .act (.receive none) k) ∧
        ∀ w, x.1.move bridging .flow w = none := by
  obtain ⟨x, -, ⟨hanswered, hwaits⟩, ok, hsteps⟩ := Trace.reaches (Pool.record_step bridging note)
    Timely early (newConversation 1, Log.empty)
    (fun x => x.2.answered = true ∧ waitsOnNil (x.1.thread .flow) = true) (by decide +kernel)
  obtain ⟨k, hk⟩ := thread_of_waitsOnNil hwaits
  refine ⟨ok, x, hsteps, hanswered, ⟨k, hk⟩, ?_⟩
  intro w
  simp only [Pool.move, hk, bridging, exec, attempt, ite_self, Option.map_none]

end FlowManager.Grpc.Bridge
