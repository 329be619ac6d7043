import FlowManager.Im.Event
import FlowManager.Lib.Concurrent

/-!
# Messages for a handler that waits

`receive` puts an unbuffered channel into `waitMsgChan` and waits for a message on it, for
the end of one of two contexts, or for a timeout; then it clears `waitMsgChan`. `OnMessage`,
on the goroutine that serves all dialogs, reads the channel under the lock and sends after
it has let go of the lock.

A send on an unbuffered channel is two accesses here: the offer, and the end of the wait once
somebody has taken the message. Any number of handlers may call `receive`.

- `onMessage`, `receive`: the two sides.
- `Attentive`: `OnMessage` reads the channel only while somebody selects on it, and nobody
  leaves a `select` on the channel that `OnMessage` holds but with its message.
- `attended_of_attentive`: if so, `OnMessage` waits only on channels that are selected on.
- `Dead.steps`: otherwise it waits for ever.
-/

namespace FlowManager.Im

open Concurrent

/-- What `OnMessage` and `receive` share: the channels are numbered. -/
structure Inbox where
  next : Nat
  waitMsgChan : Option Nat
  /-- the channel on which a message is offered -/
  offered : Option Nat

/-- How a `select` of `receive` is left. -/
inductive Leave where
  | delivered
  /-- `c.Context().Done()` -/
  | ended
  /-- `ctx.Done()` -/
  | cancelled
  | timeout
  deriving DecidableEq

/-- The accesses -/
inductive InboxOp where
  /-- `make(chan model.IMEventWrapper)` -/
  | makeChan
  /-- `setStateWaitMessage(ch)`; the answer is whether it was set -/
  | setStateWaitMessage (ch : Nat)
  /-- `setStateWaitMessage(nil)` -/
  | clearStateWaitMessage
  | select (ch : Nat)
  /-- `waitMsgChan` is read under the lock -/
  | waitMsgChan
  /-- `ch <- message` begins -/
  | offer (ch : Nat)
  /-- `ch <- message` ends -/
  | sent (ch : Nat)
  deriving DecidableEq

/-- The answer to an access. -/
abbrev InboxOp.Result : InboxOp → Type
  | .makeChan => Nat
  | .setStateWaitMessage _ => Bool
  | .select _ => Leave
  | .waitMsgChan => Option Nat
  | _ => Unit

/-- The accesses, each answered and made; a `select` is left in the way `leave`. -/
def inboxExec (leave : Leave) : (a : InboxOp) → Inbox → Option (a.Result × Inbox)
  | .makeChan, s => some (s.next, { s with next := s.next + 1 })
  | .setStateWaitMessage ch, s =>
    -- there is one slot, and a second waiter is refused
    if s.waitMsgChan.isSome then some (false, s) else some (true, { s with waitMsgChan := some ch })
  | .clearStateWaitMessage, s => some ((), { s with waitMsgChan := none })
  | .select ch, s =>
    if leave = .delivered then
      if s.offered = some ch then some (.delivered, { s with offered := none }) else none
    else some (leave, s)
  | .waitMsgChan, s => some (s.waitMsgChan, s)
  | .offer ch, s => some ((), { s with offered := some ch })
  -- the channel has no buffer: the sender goes on only when somebody has received
  | .sent ch, s => if s.offered = some ch then none else some ((), s)

abbrev InboxGo := Prog InboxOp InboxOp.Result

/-- A single access. -/
abbrev inboxAccess (a : InboxOp) : InboxGo a.Result := call a

/-- Where a goroutine goes on: with the next message, or with the next call of `receive`. -/
inductive InboxLabel where
  | listen
  | idle

/-- `Connection.fromOperator`, for a dialog with the customer `customer` -/
def fromOperator (customer : Endpoint) (m : Message) : Bool :=
  if m.isSystem = true then false
  else decide (customer.sub ≠ "" ∧ m.sender.sub ≠ customer.sub)

/-- `Connection.pushMessageToWaitMessageChan` -/
def pushMessageToWaitMessageChan (m : Message) : InboxGo Unit :=
  if m.sender.issuer = userTypeBot then return ()
  else do
    match ← inboxAccess .waitMsgChan with
    | some ch =>
      inboxAccess (.offer ch)
      inboxAccess (.sent ch)
    | none => return ()

/-- `Connection.OnMessage` of the dialog between `customer` and `bot`, as far as it has to do
with handlers that wait -/
def onMessage (customer bot : Endpoint) (m : Message) : InboxGo Unit :=
  if m.sender.sub = bot.sub then return ()
  else if fromOperator customer m = true then return ()
  else pushMessageToWaitMessageChan m

/-- `Connection.receive`; the deferred call clears `waitMsgChan` in any case. -/
def receive : InboxGo Unit := do
  let ch ← inboxAccess .makeChan
  if ← inboxAccess (.setStateWaitMessage ch) then
    let _ ← inboxAccess (.select ch)
    inboxAccess .clearStateWaitMessage
  else inboxAccess .clearStateWaitMessage

/-- The listener and some handlers -/
inductive InboxThread (n : Nat) where
  | listener
  | handler (i : Fin n)
  deriving DecidableEq

/-- The messages for a dialog, and `n` handlers that receive. -/
def inboxes (customer bot : Endpoint) :
    System Inbox (Leave × Message) InboxOp InboxOp.Result InboxLabel where
  exec w := inboxExec w.1
  code w
    | .listen => some do
        onMessage customer bot w.2
        return .listen
    | .idle => some do
        receive
        return .idle
  env _ _ := False

abbrev InboxPool (n : Nat) := Pool (InboxThread n) Inbox InboxOp InboxOp.Result InboxLabel

/-- Nothing has been received yet. -/
def quiet (n : Nat) : InboxPool n where
  shared := ⟨0, none, none⟩
  thread
    | .listener => .ret .listen
    | .handler _ => .ret .idle

/-- The goroutine is in its `select` on the channel. -/
def Selects (ch : Nat) : InboxGo InboxLabel → Bool
  | .act (.select d) _ => decide (d = ch)
  | _ => false

/-- `OnMessage` has read the channel, and its message has not been taken. -/
def HoldsChan (ch : Nat) (s : Inbox) : InboxGo InboxLabel → Bool
  | .act (.offer d) _ => decide (d = ch)
  | .act (.sent d) _ => decide (d = ch ∧ s.offered = some ch)
  | _ => false

/-- The goroutine is at the end of its send. -/
def Sends (ch : Nat) : InboxGo InboxLabel → Bool
  | .act (.sent d) _ => decide (d = ch)
  | _ => false

/-- `OnMessage` waits until somebody takes its message from the channel. -/
def WaitsOn {n : Nat} (ch : Nat) (s : InboxPool n) : Prop :=
  s.shared.offered = some ch ∧ Sends ch (s.thread .listener) = true

/-- Somebody is in a `select` on the channel. -/
def Selected {n : Nat} (ch : Nat) (s : InboxPool n) : Prop :=
  ∃ i, Selects ch (s.thread (.handler i)) = true

/-- `OnMessage` reads a channel only while somebody selects on it, and a handler leaves its
`select` on the channel that `OnMessage` holds only with the message. -/
def Attentive {n : Nat} (s : InboxPool n) (e : Concurrent.Event (InboxThread n) InboxOp)
    (s' : InboxPool n) : Prop :=
  match e with
  | .act .listener .waitMsgChan => ∀ ch, s.shared.waitMsgChan = some ch → Selected ch s
  | .act (.handler _) (.select ch) =>
    HoldsChan ch s.shared (s.thread .listener) = true → s'.shared.offered ≠ s.shared.offered
  | _ => True

instance {n : Nat} (ch : Nat) (s : InboxPool n) : Decidable (Selected ch s) :=
  inferInstanceAs (Decidable (∃ _, _))

instance {n : Nat} (s : InboxPool n) (e : Concurrent.Event (InboxThread n) InboxOp)
    (s' : InboxPool n) : Decidable (Attentive s e s') := by
  unfold Attentive
  split <;> infer_instance

/-! ## Attentive runs -/

/-- Where `OnMessage` is, and whether its message is on offer. -/
inductive Listening (s : Inbox) : InboxGo InboxLabel → Prop where
  | idle (h : s.offered = none) : Listening s (.ret .listen)
  | reading {m : Message} (hissuer : m.sender.issuer ≠ userTypeBot) (h : s.offered = none) :
      Listening s (do pushMessageToWaitMessageChan m; return .listen)
  | offering {ch : Nat} (h : s.offered = none) :
      Listening s (.act (.offer ch) fun _ => .act (.sent ch) fun _ => .ret .listen)
  | sending {ch : Nat} (h : s.offered = none ∨ s.offered = some ch) :
      Listening s (.act (.sent ch) fun _ => .ret .listen)

/-- The accesses of `receive` -/
def InboxOp.receives : InboxOp → Bool
  | .makeChan => true
  | .setStateWaitMessage _ => true
  | .clearStateWaitMessage => true
  | .select _ => true
  | _ => false

/-- The goroutine does nothing but receive. -/
abbrev Receiving (p : InboxGo InboxLabel) : Prop := p.Uses (·.receives = true) (· = .idle)

/-- What holds at every moment of an attentive run. -/
structure Attended {n : Nat} (s : InboxPool n) : Prop where
  listening : Listening s.shared (s.thread .listener)
  receiving : ∀ i, Receiving (s.thread (.handler i))
  selected : ∀ ch, HoldsChan ch s.shared (s.thread .listener) = true → Selected ch s

section Programs

variable {s : Inbox}

theorem receiving_receive : Receiving (do receive; return .idle) := by
  refine ⟨rfl, fun ch => ⟨rfl, ?_⟩⟩
  rintro (_ | _)
  · exact ⟨rfl, fun _ => rfl⟩
  · exact ⟨rfl, fun _ => ⟨rfl, fun _ => rfl⟩⟩

/-- A message is fed to a handler that waits, or the listener goes on at once. -/
theorem listening_onMessage (customer bot : Endpoint) (m : Message) (h : s.offered = none) :
    Listening s (do onMessage customer bot m; return .listen) ∧
      ∀ ch, HoldsChan ch s (do onMessage customer bot m; return .listen) = false := by
  unfold onMessage
  split
  · exact ⟨.idle h, fun _ => rfl⟩
  · split
    · exact ⟨.idle h, fun _ => rfl⟩
    · by_cases hissuer : m.sender.issuer = userTypeBot
      · simp only [pushMessageToWaitMessageChan, if_pos hissuer]
        exact ⟨.idle h, fun _ => rfl⟩
      · refine ⟨.reading hissuer h, fun _ => ?_⟩
        simp only [pushMessageToWaitMessageChan, if_neg hissuer]
        rfl

/-- What `receive` does to the message on offer. -/
theorem receives_offered (ha : a.receives = true) (hexec : inboxExec leave a s = some (r, m)) :
    m.offered = s.offered ∨ ∃ ch, a = .select ch ∧ s.offered = some ch ∧ m.offered = none := by
  cases a with
  | makeChan | clearStateWaitMessage =>
    cases hexec
    exact Or.inl rfl
  | setStateWaitMessage ch =>
    simp only [inboxExec] at hexec
    split at hexec <;> cases hexec <;> exact Or.inl rfl
  | select ch =>
    simp only [inboxExec] at hexec
    split at hexec
    · split at hexec
      · rename_i hoffered
        cases hexec
        exact Or.inr ⟨ch, rfl, hoffered, rfl⟩
      · cases hexec
    · cases hexec
      exact Or.inl rfl
  | _ => cases ha

/-- A message on offer is one that `OnMessage` waits for to be taken. -/
theorem Listening.sends (h : Listening s p) (hoffered : s.offered = some ch) :
    p = .act (.sent ch) fun _ => .ret .listen := by
  cases h with
  | sending h =>
    rcases h with h | h
    · rw [h] at hoffered
      cases hoffered
    · rw [h] at hoffered
      cases hoffered
      rfl
  | idle h | offering h | reading _ h => rw [h] at hoffered; cases hoffered

theorem Listening.congr (h : Listening s p) (hoffered : m.offered = s.offered ∨ m.offered = none) :
    Listening m p := by
  have hnone : s.offered = none → m.offered = none := fun hs => by
    rcases hoffered with ho | ho
    · rw [ho, hs]
    · exact ho
  cases h with
  | idle h => exact .idle (hnone h)
  | reading hissuer h => exact .reading hissuer (hnone h)
  | offering h => exact .offering (hnone h)
  | sending h =>
    refine .sending ?_
    rcases hoffered with ho | ho
    · rwa [ho]
    · exact Or.inl ho

end Programs

section Steps

variable {n : Nat} {customer bot : Endpoint} {s s' : InboxPool n} {w : Leave × Message}

theorem handler_injective : Function.Injective (InboxThread.handler (n := n)) :=
  fun _ _ => InboxThread.handler.inj

/-- The listener goes on with `p`. -/
theorem Attended.listen (h : Attended s) (hp : Listening m p)
    (hselected : ∀ ch, HoldsChan ch m p = true → Selected ch s) :
    Attended (s.set .listener m p) := by
  have hother : ∀ i, (s.set .listener m p).thread (.handler i) = s.thread (.handler i) :=
    fun i => Pool.set_thread_of_ne _ (by simp) _ _
  refine ⟨by rwa [Pool.set_thread_self], fun i => by rw [hother]; exact h.receiving i, ?_⟩
  intro ch hholds
  obtain ⟨i, hi⟩ := hselected ch hholds
  exact ⟨i, by rwa [hother]⟩

/-- The listener makes its next access. -/
theorem Attended.listener (h : Attended s) (ht : s.thread .listener = .act a k)
    (hexec : inboxExec w.1 a s.shared = some (r, m))
    (hattentive : Attentive s (.act .listener a) (s.set .listener m (k r))) :
    Attended (s.set .listener m (k r)) := by
  have hlistening := h.listening
  have hselected := h.selected
  generalize hp : s.thread .listener = p at hlistening hselected
  rw [ht] at hp
  cases hlistening with
  | idle => cases hp
  | reading hissuer hoffered =>
    simp only [pushMessageToWaitMessageChan, if_neg hissuer] at hp
    cases hp
    cases hexec
    cases hch : s.shared.waitMsgChan with
    | none => exact h.listen (.idle hoffered) (by simp [HoldsChan])
    | some ch =>
      refine h.listen (.offering hoffered) fun d hd => ?_
      cases of_decide_eq_true hd
      exact hattentive ch hch
  | @offering ch hoffered =>
    cases hp
    cases hexec
    refine h.listen (.sending (Or.inr rfl)) fun d hd => ?_
    obtain ⟨rfl, -⟩ := of_decide_eq_true hd
    exact hselected ch (decide_eq_true rfl)
  | @sending ch hoffered =>
    cases hp
    simp only [inboxExec] at hexec
    split at hexec
    · cases hexec
    · rename_i hnot
      cases hexec
      exact h.listen (.idle (hoffered.resolve_right hnot)) (by simp [HoldsChan])

/-- A handler makes its next access. -/
theorem Attended.handler (h : Attended s) (ht : s.thread (.handler i) = .act a k)
    (hexec : inboxExec w.1 a s.shared = some (r, m))
    (hattentive : Attentive s (.act (.handler i) a) (s.set (.handler i) m (k r))) :
    Attended (s.set (.handler i) m (k r)) := by
  have hreceiving := h.receiving i
  rw [ht] at hreceiving
  have hlistener : (s.set (.handler i) m (k r)).thread .listener = s.thread .listener :=
    Pool.set_thread_of_ne _ (by simp) _ _
  have hoffered := receives_offered hreceiving.1 hexec
  refine ⟨?_, fun j => ?_, fun ch hholds => ?_⟩
  · refine h.listening.congr ?_
    rcases hoffered with hsame | ⟨ch, -, -, hnone⟩
    · exact Or.inl hsame
    · exact Or.inr hnone
  · exact s.forall_set handler_injective (hreceiving.2 r) (fun j _ => h.receiving j) j
  · rw [hlistener] at hholds
    rcases hoffered with hsame | ⟨d, -, hd, hnone⟩
    · have hbefore : HoldsChan ch s.shared (s.thread .listener) = true := by
        unfold HoldsChan at hholds ⊢
        rwa [Pool.set_shared, hsame] at hholds
      obtain ⟨j, hj⟩ := h.selected ch hbefore
      have hji : j ≠ i := by
        -- the handler would have left its `select` without the message
        rintro rfl
        rw [ht] at hj
        cases a with
        | select d =>
          cases of_decide_eq_true hj
          exact hattentive hbefore hsame
        | _ => cases hj
      refine ⟨j, ?_⟩
      rwa [Pool.set_thread_of_ne _ (by simpa using hji)]
    · rw [h.listening.sends hd] at hholds
      simp [HoldsChan, hnone] at hholds

/-- An attentive step. -/
theorem Attended.step (h : Attended s) (hstep : Step (inboxes customer bot) s e s')
    (hattentive : Attentive s e s') : Attended s' := by
  cases hstep with
  | @act t a k w r m ht hexec =>
    cases t with
    | listener => exact h.listener ht hexec hattentive
    | handler i => exact h.handler ht hexec hattentive
  | @next t l w p ht hcode =>
    cases t with
    | listener =>
      have hlistening := h.listening
      rw [ht] at hlistening
      generalize hp : (Prog.ret l : InboxGo InboxLabel) = q at hlistening
      cases hlistening with
      | idle hoffered =>
        cases hp
        cases hcode
        obtain ⟨hlistening, hholds⟩ := listening_onMessage customer bot w.2 hoffered
        refine h.listen hlistening fun ch hch => ?_
        rw [hholds] at hch
        cases hch
      | reading hissuer =>
        simp only [pushMessageToWaitMessageChan, if_neg hissuer] at hp
        cases hp
      | offering | sending => cases hp
    | handler i =>
      have hreceiving := h.receiving i
      rw [ht] at hreceiving
      cases hreceiving
      cases hcode
      have hlistener : (s.set (.handler i) s.shared (do receive; return .idle)).thread .listener =
          s.thread .listener := Pool.set_thread_of_ne _ (by simp) _ _
      refine ⟨by rw [hlistener]; exact h.listening, fun j => ?_, fun ch hholds => ?_⟩
      · exact s.forall_set handler_injective receiving_receive (fun j _ => h.receiving j) j
      · obtain ⟨j, hj⟩ := h.selected ch hholds
        have hji : j ≠ i := by
          rintro rfl
          rw [ht] at hj
          cases hj
        exact ⟨j, by rwa [Pool.set_thread_of_ne _ (by simpa using hji)]⟩
  | env henv => exact absurd henv id

end Steps

/-! ## Dead waiters -/

/-- In every interleaving of the messages for a dialog with any number of handlers that call
`receive` in which `OnMessage` reads a channel only while somebody selects on it, and nobody
leaves a `select` on the channel that `OnMessage` holds but with its message, `OnMessage`
waits only on a channel whose `receive` is in its `select`. -/
theorem attended_of_attentive {n : Nat} {customer bot : Endpoint} {ok : Prop} {s : InboxPool n}
    (h : Trace.Steps (Step (inboxes customer bot)) Attentive (quiet n) ok s) (hok : ok) {ch : Nat}
    (hwaits : WaitsOn ch s) : Selected ch s := by
  have hquiet : Attended (quiet n) :=
    ⟨.idle rfl, fun _ => rfl, fun _ hholds => by cases hholds⟩
  have hattended : Attended s := h.invariant hquiet Attended.step hok
  apply hattended.selected
  rw [hattended.listening.sends hwaits.1]
  simp [HoldsChan, hwaits.1]

/-- A handler receives. -/
def receiving (leave : Leave) (moves : Nat) : List (InboxThread 1 × Leave × Message) :=
  List.replicate moves (.handler 0, leave, hello)

/-- The customer's message is handled. -/
def greeting (moves : Nat) : List (InboxThread 1 × Leave × Message) :=
  List.replicate moves (.listener, .timeout, hello)

/-- The customer of `hello` -/
def customerOne : Endpoint := hello.sender

/-- The bot of `hello` -/
def botOne : Endpoint := ⟨"1", userTypeBot, "", "", 0⟩

/-- A message comes while a handler is in its `select`. -/
theorem attended_of_attentive_greeting :
    ∃ s, Pool.play (inboxes customerOne botOne) (receiving .timeout 3 ++ greeting 3) (quiet 1) =
      some s ∧ WaitsOn 0 s ∧ Selected 0 s := by
  obtain ⟨s, hs, hwaits, ok, hsteps, hok⟩ := Pool.reaches (inboxes customerOne botOne)
    (fun s e s' => of_decide_eq_true (p := Attentive s e s')) (receiving .timeout 3 ++ greeting 3)
    (quiet 1) (fun s => s.shared.offered = some 0 ∧ Sends 0 (s.thread .listener) = true)
    (by decide +kernel)
  exact ⟨s, (Pool.play_eq ..).trans hs, hwaits, attended_of_attentive hsteps hok hwaits⟩

/-- The program does not select on the channel, as long as it is given other ones. -/
def Avoids (ch : Nat) : InboxGo InboxLabel → Prop
  | .ret l => l = .idle
  | .act .makeChan k => ∀ d, d ≠ ch → Avoids ch (k d)
  | .act (.setStateWaitMessage _) k => ∀ r, Avoids ch (k r)
  | .act .clearStateWaitMessage k => Avoids ch (k ())
  | .act (.select d) k => d ≠ ch ∧ ∀ r, Avoids ch (k r)
  | _ => False

/-- `OnMessage` waits on a channel that nobody will ever select on. -/
structure Dead {n : Nat} (ch : Nat) (s : InboxPool n) : Prop where
  waits : WaitsOn ch s
  made : ch < s.shared.next
  avoided : ∀ i, Avoids ch (s.thread (.handler i))

theorem avoids_receive (ch : Nat) : Avoids ch (do receive; return .idle) := by
  intro d hd
  rintro (_ | _)
  · exact rfl
  · exact ⟨hd, fun _ => rfl⟩

/-- Whatever a handler does that avoids the channel, the message stays on offer. -/
theorem Avoids.act
    (h : Avoids ch (.act a k)) (hmade : ch < s.next)
    (hoffered : s.offered = some ch) (hexec : inboxExec leave a s = some (r, m)) :
    Avoids ch (k r) ∧ ch < m.next ∧ m.offered = some ch := by
  cases a with
  | makeChan =>
    cases hexec
    exact ⟨h s.next (Nat.ne_of_gt hmade), Nat.lt_succ_of_lt hmade, hoffered⟩
  | setStateWaitMessage d =>
    simp only [inboxExec] at hexec
    split at hexec <;> cases hexec <;> exact ⟨h _, hmade, hoffered⟩
  | clearStateWaitMessage =>
    cases hexec
    exact ⟨h, hmade, hoffered⟩
  | select d =>
    simp only [inboxExec] at hexec
    split at hexec
    · rw [if_neg fun hd => h.1 (Option.some.inj (hd.symm.trans hoffered))] at hexec
      cases hexec
    · cases hexec
      exact ⟨h.2 _, hmade, hoffered⟩
  | _ => exact absurd h id

/-- A listener that waits on such a channel does so for ever. -/
theorem Dead.step (h : Dead ch s) (hstep : Step (inboxes customer bot) s e s') : Dead ch s' := by
  obtain ⟨⟨hoffered, hsends⟩, hmade, havoided⟩ := h
  cases hstep with
  | @act t a k w r m ht hexec =>
    cases t with
    | listener =>
      -- the send does not end
      rw [ht] at hsends
      cases a with
      | sent d =>
        cases of_decide_eq_true hsends
        have hblocked : inboxExec w.1 (.sent ch) s.shared = none := if_pos hoffered
        exact absurd (hexec.symm.trans hblocked) nofun
      | _ => cases hsends
    | handler i =>
      have hi := havoided i
      rw [ht] at hi
      obtain ⟨hk, hmade', hoffered'⟩ := hi.act hmade hoffered hexec
      refine ⟨⟨hoffered', ?_⟩, hmade', fun j => ?_⟩
      · rwa [Pool.set_thread_of_ne _ (by simp)]
      · exact s.forall_set handler_injective hk (fun j _ => havoided j) j
  | @next t l w p ht hcode =>
    cases t with
    | listener =>
      rw [ht] at hsends
      cases hsends
    | handler i =>
      have hi := havoided i
      rw [ht] at hi
      cases hi
      cases hcode
      refine ⟨⟨hoffered, ?_⟩, hmade, fun j => ?_⟩
      · rwa [Pool.set_thread_of_ne _ (by simp)]
      · exact s.forall_set handler_injective (avoids_receive ch) (fun j _ => havoided j) j
  | env henv => exact absurd henv id

/-- So nothing that is handled later gets through. -/
theorem Dead.steps {ok : Prop} (h : Dead ch s)
    (hsteps : Trace.Steps (Step (inboxes customer bot)) Attentive s ok s') : WaitsOn ch s' :=
  (hsteps.always h fun hd hstep => hd.step hstep).waits

/-- `OnMessage` reads the channel, `receive` runs into its timeout and returns, and then
`OnMessage` sends. -/
def tooLate : List (InboxThread 1 × Leave × Message) :=
  receiving .timeout 3 ++ greeting 2 ++ receiving .timeout 2 ++ greeting 1

/-- The handler has returned from `receive`. -/
def Idle : InboxGo InboxLabel → Bool
  | .ret .idle => true
  | _ => false

theorem avoids_of_idle (h : Idle p = true) : Avoids ch p := by
  unfold Idle at h
  split at h
  · exact rfl
  · cases h

/-- The listener waits on a channel whose `receive` has returned, and will do so for ever. -/
theorem attended_of_attentive_tooLate :
    ∃ ok s, Trace.Steps (Step (inboxes customerOne botOne)) Attentive (quiet 1) ok s ∧
      WaitsOn 0 s ∧ Idle (s.thread (.handler 0)) = true ∧
        ∀ ok' s', Trace.Steps (Step (inboxes customerOne botOne)) Attentive s ok' s' →
          WaitsOn 0 s' := by
  obtain ⟨s, -, ⟨hwaits, hnext, hidle⟩, ok, hsteps⟩ := Trace.reaches
    (Pool.moves_step (inboxes customerOne botOne)) Attentive tooLate (quiet 1)
    (fun s => (s.shared.offered = some 0 ∧ Sends 0 (s.thread .listener) = true) ∧
      0 < s.shared.next ∧ Idle (s.thread (.handler 0)) = true) (by decide +kernel)
  have hdead : Dead 0 s := by
    refine ⟨hwaits, hnext, fun i => ?_⟩
    rw [Subsingleton.elim i 0]
    exact avoids_of_idle hidle
  exact ⟨ok, s, hsteps, hdead.waits, hidle, fun _ _ => hdead.steps⟩

end FlowManager.Im
