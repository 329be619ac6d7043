import FlowManager.Lib.Spawn

/-!
# Reconnecting to the message broker (mq/rabbit/client.go, mq/rabbit/client_im.go)

`initConnection` dials the broker, opens a channel and starts a consumer goroutine for every
subscription. A consumer whose channel is closed calls `initConnection` in turn, and so does every
other consumer of the same connection but the one for the system settings.

- `initConnection`, `consumer`, `subscribeIM`: the code.
- `Phase`, `Advance`: how far a goroutine has come, and whose place it took.
- `Books`: how many consumers have been started, are owed and have reacted.
- `settled_iff`: when there is one connection, and one consumer for each subscription.
-/

namespace FlowManager.Mq

open Concurrent

/-- What the node subscribes to -/
inductive Sub where
  | calls
  | exec
  | cc
  | settings
  | im
  deriving DecidableEq

/-- The subscriptions in the order in which they are made -/
def subs (useIM : Bool) : List Sub :=
  [.calls, .exec, .cc, .settings] ++ if useIM then [.im] else []

def maxAttemptsConnect : Nat := 100

/-- The client, and what it has at the broker: connections and channels are numbered. -/
structure Amqp where
  connection : Option Nat
  channel : Option Nat
  connectionAttempts : Nat
  stopping : Bool
  /-- The process has ended, by `os.Exit` or a panic. -/
  exited : Bool
  /-- Which connections are open -/
  conns : List Bool
  /-- The connections of the channels -/
  chans : List Nat
  /-- The channels with a consumer that has the name of the node -/
  tagged : List Nat

/-- The connection of a channel is open, or it has been lost. -/
def Amqp.chanIs (a : Amqp) (isOpen : Bool) (ch : Nat) : Bool :=
  (a.chans[ch]?).any fun c => a.conns[c]? = some isOpen

/-! ## The code -/

/-- Accesses to the fields of the client, calls to the broker, and the start of goroutines -/
inductive Op where
  | getAttempts
  | setAttempts (n : Nat)
  | dial
  | openChannel
  | setChannel (ch : Option Nat)
  | request
  | consume (tag : Bool)
  | go (sub : Sub) (msgs : Nat)
  | goIM
  | drain (sub : Sub) (msgs : Nat)
  | getStopping
  | exit

abbrev Op.Result : Op → Type
  | .getAttempts => Nat
  | .dial | .request | .getStopping => Bool
  | .openChannel | .consume _ => Option Nat
  | _ => Unit

abbrev Go := Prog Op Op.Result

abbrev access (op : Op) : Go op.Result := call op

/-- Where a goroutine goes on -/
inductive Label where
  | init
  | done

/-- A call on the channel, such as the declaration of a queue. If it fails, the process ends. -/
def request : Go Unit := do
  let ok ← access .request
  if ok then pure () else access .exit

/-- Several calls on the channel -/
def requests : Nat → Go Unit
  | 0 => pure ()
  | n + 1 => do
    request
    requests n

/-- Calls on the channel, `Consume`, and the goroutine that reads the messages -/
def subscribe (sub : Sub) (calls : Nat) (tag : Bool) : Go Unit := do
  requests calls
  let msgs ← access (.consume tag)
  match msgs with
  | some msgs => access (.go sub msgs)
  | none => access .exit

def subscribeCall : Go Unit := subscribe .calls 2 true

def subscribeExec : Go Unit := subscribe .exec 1 false

def subscribeCC : Go Unit := subscribe .cc 2 false

def subscribeSystemSettings : Go Unit := subscribe .settings 2 false

def initExchange : Go Unit := requests 3

def initQueues (useIM : Bool) : Go Unit := do
  requests 2
  subscribeCall
  subscribeExec
  subscribeCC
  subscribeSystemSettings
  if useIM then access .goIM else pure ()

/-- What follows `Dial` -/
def connected (useIM : Bool) : Go Label := do
  access (.setAttempts 0)
  let ch ← access .openChannel
  access (.setChannel ch)
  match ch with
  | none =>
    access .exit
    pure .done
  | some _ =>
    initExchange
    initQueues useIM
    pure .done

def initConnection (useIM : Bool) : Go Label := do
  let attempts ← access .getAttempts
  if maxAttemptsConnect ≤ attempts then
    access .exit
    pure .done
  else
    -- `connectionAttempts++` reads the counter once more
    let attempts ← access .getAttempts
    access (.setAttempts (attempts + 1))
    let ok ← access .dial
    if ok then connected useIM else pure .init

/-- After the last message -/
def reconnect : Go Label := do
  let stopping ← access .getStopping
  if stopping then pure .done else pure .init

/-- The goroutine that reads the messages of a subscription -/
def consumer (sub : Sub) (msgs : Nat) : Go Label := do
  access (.drain sub msgs)
  -- of the five loops only this one does not reconnect
  if sub = .settings then pure .done else reconnect

def subscribeIM : Go Label := do
  requests 2
  let msgs ← access (.consume false)
  match msgs with
  | none =>
    access .exit
    pure .done
  | some msgs =>
    requests 1
    consumer .im msgs

/-! ## The system -/

/-- The process ends in a panic. -/
def Amqp.crash (a : Amqp) : Amqp := { a with exited := true }

/-- An access; `w` says if the broker does what it is asked for, and goes on to do it. A call on a
connection that is lost fails, and a channel takes one consumer of a name only. -/
def Op.exec (w : Bool) : (op : Op) → Amqp → Option (op.Result × Amqp)
  | .getAttempts, a => some (a.connectionAttempts, a)
  | .setAttempts n, a => some ((), { a with connectionAttempts := n })
  | .dial, a =>
    -- the connection before it is not closed, only forgotten
    if w then
      some (true, { a with connection := some a.conns.length, conns := a.conns ++ [true] })
    else some (false, { a with connection := none })
  | .openChannel, a =>
    match a.connection with
    -- a nil pointer
    | none => some (none, a.crash)
    | some c =>
      if w ∧ a.conns[c]? = some true then
        some (some a.chans.length, { a with chans := a.chans ++ [c] })
      else some (none, a)
  | .setChannel ch, a => some ((), { a with channel := ch })
  | .request, a =>
    match a.channel with
    | none => some (false, a.crash)
    | some ch => some (w && a.chanIs true ch, a)
  | .consume tag, a =>
    match a.channel with
    | none => some (none, a.crash)
    | some ch =>
      if w ∧ a.chanIs true ch ∧ ¬ (tag ∧ ch ∈ a.tagged) then
        some (some ch, { a with tagged := if tag then ch :: a.tagged else a.tagged })
      else some (none, a)
  | .go _ _, a => some ((), a)
  | .goIM, a => some ((), a)
  -- the loop over the messages ends with the connection, and when the broker closes the channel or
  -- cancels the consumer
  | .drain _ msgs, a => if w && !a.chanIs false msgs then none else some ((), a)
  | .getStopping, a => some (a.stopping, a)
  | .exit, a => some ((), a.crash)

/-- The goroutines that an access starts -/
def starts : Op → List (Go Label)
  | .go sub msgs => [consumer sub msgs]
  | .goIM => [subscribeIM]
  | _ => []

/-- A connection is lost, or `Close` is called. -/
inductive Disturb (a : Amqp) : Amqp → Prop where
  | lose (c : Nat) : Disturb a { a with conns := a.conns.set c false }
  | stop : Disturb a { a with stopping := true }

def system (useIM : Bool) : System Amqp Bool Op Op.Result Label where
  exec w op a := if a.exited then none else op.exec w a
  code
    | _, .init => some (initConnection useIM)
    | _, .done => none
  env := Disturb

abbrev State := Crew Amqp Op Op.Result Label

abbrev Step (useIM : Bool) := Crew.Step (system useIM) starts

/-- `NewRabbitMQ` -/
def start : State where
  shared := ⟨none, none, 0, false, false, [], [], []⟩
  threads := [.ret .init]

/-- A goroutine that waits for messages of the subscription, on a connection that is open -/
def consumes (a : Amqp) (sub : Sub) : Go Label → Bool
  | .act (.drain sub' msgs) _ => sub' == sub && a.chanIs true msgs
  | _ => false

/-- The consumers of a subscription -/
def live (s : State) (sub : Sub) : Nat := s.threads.countP (consumes s.shared sub)

/-- A goroutine that has ended, or waits for messages on a connection that is open -/
def rests (a : Amqp) : Go Label → Bool
  | .ret .done => true
  | .act (.drain _ msgs) _ => a.chanIs true msgs
  | _ => false

/-- Reconnection has settled: the process is running, and nobody is about to do something. -/
structure Settled (s : State) : Prop where
  running : s.shared.exited = false
  going : s.shared.stopping = false
  rests : ∀ p ∈ s.threads, rests s.shared p = true

instance (s : State) : Decidable (Settled s) :=
  decidable_of_iff (s.shared.exited = false ∧ s.shared.stopping = false ∧
      ∀ p ∈ s.threads, Mq.rests s.shared p = true)
    ⟨fun h => ⟨h.1, h.2.1, h.2.2⟩, fun h => ⟨h.running, h.going, h.rests⟩⟩

/-- One connection, and one consumer for each subscription -/
structure Single (useIM : Bool) (s : State) : Prop where
  conns : s.shared.conns.count true = 1
  subs : ∀ sub ∈ subs useIM, live s sub = 1

/-- The loop of a consumer ends with the access. -/
def Op.ends : Op → Bool
  | .drain _ _ => true
  | _ => false

/-- No connection is lost. -/
def Amqp.Keeps (a a' : Amqp) : Prop := ∀ c : Nat, a.conns[c]? = some true → a'.conns[c]? = some true

/-- In a step no connection is lost, and no consumer comes to the end of its messages. -/
def Undisturbed (s : State) (e : Event Nat Op) (s' : State) : Prop :=
  s.shared.Keeps s'.shared ∧ ∀ i op, e = .act i op → op.ends = false

/-! ## Goroutines -/

/-- How far a goroutine has come. One that runs `initConnection` was a consumer before, or is the
first one, and has dialed or not, and still owes the consumers `left`. -/
inductive Phase where
  | starting (was : Option Sub) (dialed : Bool) (left : List Sub)
  | binding
  | consuming (sub : Sub) (msgs : Nat)
  | asked (sub : Sub)

variable {useIM : Bool}

/-- A goroutine that has nothing to do any more -/
abbrev Phase.over (was : Option Sub) : Phase := .starting was true []

/-- What the goroutines do. Whatever follows the end of the process is not done. -/
inductive Advance (useIM : Bool) : Phase → (op : Op) → op.Result → Phase → Prop where
  | getAttempts {was dialed left n} :
      Advance useIM (.starting was dialed left) .getAttempts n (.starting was dialed left)
  | setAttempts {was dialed left n} :
      Advance useIM (.starting was dialed left) (.setAttempts n) () (.starting was dialed left)
  | dial {was left} :
      Advance useIM (.starting was false left) .dial true (.starting was true left)
  | noDial {was dialed left} :
      Advance useIM (.starting was dialed left) .dial false (.starting was dialed left)
  | openChannel {was dialed left ch} :
      Advance useIM (.starting was dialed left) .openChannel ch (.starting was dialed left)
  | setChannel {was dialed left ch} :
      Advance useIM (.starting was dialed left) (.setChannel ch) () (.starting was dialed left)
  | request {st ok} : Advance useIM st .request ok st
  | consume {was dialed left tag msgs} :
      Advance useIM (.starting was dialed left) (.consume tag) msgs (.starting was dialed left)
  | go {was dialed sub left msgs} :
      Advance useIM (.starting was dialed (sub :: left)) (.go sub msgs) ()
        (.starting was dialed left)
  | goIM {was dialed left} :
      Advance useIM (.starting was dialed (.im :: left)) .goIM () (.starting was dialed left)
  | bound {tag msgs} : Advance useIM .binding (.consume tag) (some msgs) (.consuming .im msgs)
  | unbound {tag} : Advance useIM .binding (.consume tag) none .binding
  | ended {msgs} : Advance useIM (.consuming .settings msgs) (.drain .settings msgs) ()
      (.over (some .settings))
  | drained {sub msgs} (h : sub ≠ .settings) :
      Advance useIM (.consuming sub msgs) (.drain sub msgs) () (.asked sub)
  | stopping {sub} : Advance useIM (.asked sub) .getStopping true (.over (some sub))
  | reconnect {sub} (h : sub ≠ .settings) :
      Advance useIM (.asked sub) .getStopping false (.starting (some sub) false (subs useIM))
  | exit {st st'} : Advance useIM st .exit () st'

/-- Where a goroutine may end, or start over -/
def Final (useIM : Bool) : Phase → Label → Prop
  | st, .done => ∃ was, st = .over was
  | st, .init => ∃ was, st = .starting was false (subs useIM)

abbrev Keeps (useIM : Bool) := Crew.Keeps (Advance useIM) (Final useIM)

theorem requests_conforms (n : Nat) :
    (requests n).Conforms (Advance useIM) (fun st' _ => st' = st) st := by
  induction n with
  | zero => rfl
  | succ n ih =>
    refine fun ok => ⟨st, .request, ?_⟩
    cases ok with
    | true => exact ih
    | false => exact fun _ => ⟨st, .exit, ih⟩

theorem subscribe_conforms (calls : Nat) (tag : Bool) :
    (subscribe sub calls tag).Conforms (Advance useIM)
      (fun st' _ => st' = .starting was true left) (.starting was true (sub :: left)) := by
  refine (requests_conforms calls).bind ?_
  rintro _ _ rfl msgs
  refine ⟨_, .consume, ?_⟩
  cases msgs with
  | some msgs => exact fun _ => ⟨_, .go, rfl⟩
  | none => exact fun _ => ⟨_, .exit, rfl⟩

theorem initQueues_conforms :
    (initQueues useIM).Conforms (Advance useIM) (fun st' _ => st' = .over was)
      (.starting was true (subs useIM)) := by
  refine (requests_conforms 2).bind ?_
  rintro _ _ rfl
  refine (subscribe_conforms 2 true).bind ?_
  rintro _ _ rfl
  refine (subscribe_conforms 1 false).bind ?_
  rintro _ _ rfl
  refine (subscribe_conforms 2 false).bind ?_
  rintro _ _ rfl
  refine (subscribe_conforms 2 false).bind ?_
  rintro _ _ rfl
  cases useIM with
  | true => exact fun _ => ⟨_, .goIM, rfl⟩
  | false => exact rfl

theorem connected_conforms :
    (connected useIM).Conforms (Advance useIM) (Final useIM) (.starting was true (subs useIM)) := by
  refine fun _ => ⟨_, .setAttempts, fun ch => ⟨_, .openChannel, fun _ => ⟨_, .setChannel, ?_⟩⟩⟩
  cases ch with
  | none => exact fun _ => ⟨.over was, .exit, was, rfl⟩
  | some ch =>
    refine (requests_conforms 3).bind ?_
    rintro _ _ rfl
    refine initQueues_conforms.bind ?_
    rintro _ _ rfl
    exact ⟨was, rfl⟩

theorem initConnection_conforms :
    (initConnection useIM).Conforms (Advance useIM) (Final useIM)
      (.starting was false (subs useIM)) := by
  refine fun attempts => ⟨_, .getAttempts, ?_⟩
  dsimp only [Prog.bind]
  split
  · exact fun _ => ⟨.over was, .exit, was, rfl⟩
  · refine fun _ => ⟨_, .getAttempts, fun _ => ⟨_, .setAttempts, fun ok => ?_⟩⟩
    cases ok with
    | true => exact ⟨_, .dial, connected_conforms⟩
    | false => exact ⟨_, .noDial, was, rfl⟩

theorem consumer_conforms (sub : Sub) (msgs : Nat) :
    (consumer sub msgs).Conforms (Advance useIM) (Final useIM) (.consuming sub msgs) := by
  rintro ⟨⟩
  by_cases hsub : sub = .settings
  · subst hsub
    exact ⟨_, .ended, _, rfl⟩
  · refine ⟨_, .drained hsub, ?_⟩
    rw [if_neg hsub]
    intro stopping
    cases stopping with
    | true => exact ⟨_, .stopping, _, rfl⟩
    | false => exact ⟨_, .reconnect hsub, _, rfl⟩

theorem subscribeIM_conforms :
    subscribeIM.Conforms (Advance useIM) (Final useIM) .binding := by
  refine (requests_conforms 2).bind ?_
  rintro _ _ rfl msgs
  cases msgs with
  | none => exact ⟨_, .unbound, fun _ => ⟨.over none, .exit, none, rfl⟩⟩
  | some msgs =>
    refine ⟨_, .bound, (requests_conforms 1).bind ?_⟩
    rintro _ _ rfl
    exact consumer_conforms .im msgs

/-- The phases of the goroutines that an access starts -/
def born : Op → List Phase
  | .go sub msgs => [.consuming sub msgs]
  | .goIM => [.binding]
  | _ => []

theorem keeps_starts (op : Op) : Keeps useIM (starts op) (born op) := by
  cases op with
  | go sub msgs => exact .cons (consumer_conforms sub msgs) .nil
  | goIM => exact .cons subscribeIM_conforms .nil
  | _ => exact .nil

/-- A goroutine that starts over is where it was. -/
theorem final_resume (hfinal : Final useIM st l) (hcode : (system useIM).code w l = some p) :
    ∃ st', st' = st ∧ p.Conforms (Advance useIM) (Final useIM) st' := by
  cases l with
  | done => cases hcode
  | init =>
    obtain ⟨was, rfl⟩ := hfinal
    cases hcode
    exact ⟨_, rfl, initConnection_conforms⟩

/-! ## Counting -/

/-- The subscription that a goroutine was started for -/
def Phase.role : Phase → Option Sub
  | .starting was _ _ => was
  | .binding => some .im
  | .consuming sub _ => some sub
  | .asked sub => some sub

/-- A goroutine started for the subscription -/
def startedFor (sub : Sub) (st : Phase) : Bool := st.role == some sub

/-- How many consumers a goroutine has yet to start -/
def Phase.owed (sub : Sub) : Phase → Nat
  | .starting _ _ left => left.count sub
  | _ => 0

/-- A goroutine in `initConnection` that has not dialed -/
def undialed : Phase → Bool
  | .starting _ dialed _ => !dialed
  | _ => false

/-- A goroutine that has lost its channel -/
def orphaned : Phase → Bool
  | .starting was _ _ => was.isSome
  | .asked _ => true
  | _ => false

/-- A consumer that has called `initConnection` -/
def reacted : Phase → Bool
  | .starting was _ _ => was.any (· ≠ .settings)
  | _ => false

def AllOpen (a : Amqp) : Prop := ∀ b ∈ a.conns, b = true

/-- The books: for each subscription a consumer has been started or is owed by the first goroutine
and by each one that has reacted, and each of them dials once. There are none of these exactly as
long as the run is undisturbed. -/
structure Books (useIM : Bool) (ok : Prop) (a : Amqp) (sts : List Phase) : Prop where
  quiet : ok ↔ AllOpen a ∧ ∀ st ∈ sts, orphaned st = false
  started : a.stopping = false → ∀ sub ∈ subs useIM,
    sts.countP (startedFor sub) + (sts.map (Phase.owed sub)).sum = 1 + sts.countP reacted
  dialed : a.stopping = false → a.conns.length + sts.countP undialed = 1 + sts.countP reacted

/-- The books are right as long as the process is running. -/
def Balanced (useIM : Bool) (ok : Prop) (a : Amqp) (sts : List Phase) : Prop :=
  a.exited = false → Books useIM ok a sts

/-- How many connections an access makes -/
def dials : (op : Op) → op.Result → Nat
  | .dial, true => 1
  | _, _ => 0

variable {w : Bool} {op : Op} {r : op.Result} {a a' : Amqp} {st st' : Phase} {sub : Sub}
  {sts sts' before after : List Phase}

theorem exec_fields (h : op.exec w a = some (r, a')) :
    a'.stopping = a.stopping ∧ a'.conns = a.conns ++ List.replicate (dials op r) true := by
  cases op with
  | dial =>
    simp only [Op.exec] at h
    split at h <;> cases h <;> simp [dials]
  | openChannel | consume tag =>
    simp only [Op.exec] at h
    split at h
    · cases h
      simp [dials, Amqp.crash]
    · split at h <;> cases h <;> simp [dials]
  | request =>
    simp only [Op.exec] at h
    split at h <;> cases h <;> simp [dials, Amqp.crash]
  | drain sub msgs =>
    simp only [Op.exec] at h
    split at h
    · cases h
    · cases h
      simp [dials]
  | exit =>
    cases h
    simp [dials, Amqp.crash]
  | _ =>
    cases h
    simp [dials]

theorem count_subs (h : sub ∈ subs useIM) : (subs useIM).count sub = 1 := by
  revert h
  cases useIM <;> cases sub <;> decide

/-- Nobody reads that the server stops before it does. -/
theorem not_stopping (hgoing : a.stopping = false) :
    Op.getStopping.exec w a ≠ some (true, a') := by
  intro hexec
  obtain ⟨hstop, -⟩ := Prod.mk.inj (Option.some.inj hexec)
  rw [hgoing] at hstop
  cases hstop

section

variable (h : Advance useIM st op r st') (hexec : op.exec w a = some (r, a'))
include h hexec

/-- What an access does to the books of a subscription -/
theorem Advance.started
    (hgoing : a.stopping = false) (hrunning : a'.exited = false) (hsub : sub ∈ subs useIM) :
    (startedFor sub st').toNat + st'.owed sub +
        (born op).countP (startedFor sub) + (reacted st).toNat =
      (startedFor sub st).toNat + st.owed sub +
        (reacted st').toNat := by
  cases h with
  | go | goIM =>
    simp only [startedFor, Phase.role, Phase.owed, born, reacted, List.count_cons, beq_iff_eq,
      List.countP_singleton, Option.some.injEq]
    omega
  | reconnect hne =>
    simp [startedFor, Phase.role, Phase.owed, reacted, born, count_subs hsub, hne]
  | stopping => exact absurd hexec (not_stopping hgoing)
  | exit =>
    cases hexec
    cases hrunning
  | _ => simp [startedFor, Phase.role, Phase.owed, reacted, born]

/-- What an access does to the books of connections -/
theorem Advance.dialed (hgoing : a.stopping = false) (hrunning : a'.exited = false) :
    dials op r + (undialed st').toNat + (reacted st).toNat =
      (undialed st).toNat + (reacted st').toNat := by
  cases h with
  | reconnect hne => simp [undialed, reacted, dials, hne]
  | stopping => exact absurd hexec (not_stopping hgoing)
  | exit =>
    cases hexec
    cases hrunning
  | _ => simp [undialed, reacted, dials]

/-- A goroutine loses its channel when its loop ends. -/
theorem Advance.orphaned (hrunning : a'.exited = false) :
    Mq.orphaned st' = (Mq.orphaned st || op.ends) := by
  cases h with
  | exit =>
    cases hexec
    cases hrunning
  | _ => simp [Mq.orphaned, Op.ends]

end

theorem born_quiet (op : Op) : ∀ st ∈ born op, orphaned st = false ∧ undialed st = false ∧
    reacted st = false ∧ ∀ sub, st.owed sub = 0 := by
  intro st hst
  cases op with
  | go sub msgs | goIM =>
    cases List.mem_singleton.mp hst
    exact ⟨rfl, rfl, rfl, fun _ => rfl⟩
  | _ => cases hst

/-- One goroutine and the others -/
theorem countP_first (f : Phase → Bool) (st : Phase) (sts : List Phase) :
    (st :: sts).countP f = (f st).toNat + sts.countP f := by
  rw [List.countP_cons]
  cases f st with
  | true => rw [if_pos rfl, Bool.toNat_true, Nat.add_comm 1]
  | false => rw [if_neg Bool.false_ne_true, Bool.toNat_false, Nat.add_zero, Nat.zero_add]

theorem countP_cut (f : Phase → Bool) (before : List Phase) (st : Phase) (after : List Phase) :
    (before ++ st :: after).countP f = before.countP f + ((f st).toNat + after.countP f) := by
  rw [List.countP_append, countP_first]

theorem countP_born (h : ∀ st ∈ born op, f st = false) : (born op).countP f = 0 := by
  rw [List.countP_eq_zero]
  intro st hst
  rw [h st hst]
  exact Bool.false_ne_true

theorem owed_eq_zero (h : ∀ st ∈ sts, st.owed sub = 0) :
    (sts.map (Phase.owed sub)).sum = 0 := by
  induction sts with
  | nil => rfl
  | cons st sts ih =>
    rw [List.map_cons, List.sum_cons, h st List.mem_cons_self,
      ih fun st hst => h st (List.mem_cons_of_mem _ hst)]

/-- Where a step makes connections and loses none, they are all open if they were. -/
theorem allOpen_grow {n : Nat} (h : a'.conns = a.conns ++ List.replicate n true) :
    (AllOpen a' ↔ AllOpen a) ∧ a.Keeps a' := by
  refine ⟨⟨fun hopen b hb => ?_, fun hopen b hb => ?_⟩, fun c hc => ?_⟩
  · exact hopen b (by rw [h]; exact List.mem_append_left _ hb)
  · rw [h] at hb
    exact (List.mem_append.mp hb).elim (hopen b) List.eq_of_mem_replicate
  · rw [h, List.getElem?_append_left (List.getElem?_eq_some_iff.mp hc).1]
    exact hc

/-- The books after an access -/
theorem Books.act (h : Books useIM ok a (before ++ st :: after))
    (hexec : op.exec w a = some (r, a')) (hadvance : Advance useIM st op r st')
    (hrunning : a'.exited = false) :
    Books useIM (ok ∧ op.ends = false) a' (before ++ st' :: (after ++ born op)) := by
  obtain ⟨hstopping, hconns⟩ := exec_fields hexec
  have hreacted := countP_born fun st hst => (born_quiet op st hst).2.2.1
  constructor
  · have hst := hadvance.orphaned hexec hrunning
    have hborn := fun st hst => (born_quiet op st hst).1
    rw [h.quiet, (allOpen_grow hconns).1]
    simp only [List.mem_append, List.mem_cons, or_imp, forall_and, forall_eq, hst,
      Bool.or_eq_false_iff]
    tauto
  · intro hgoing sub hsub
    rw [hstopping] at hgoing
    have hbefore := h.started hgoing sub hsub
    have hlocal := hadvance.started hexec hgoing hrunning hsub
    have howed := owed_eq_zero fun st hst => (born_quiet op st hst).2.2.2 sub
    rw [countP_cut, countP_cut] at hbefore ⊢
    simp only [List.countP_append, List.map_append, List.map_cons, List.sum_append,
      List.sum_cons] at hbefore ⊢
    omega
  · intro hgoing
    rw [hstopping] at hgoing
    have hbefore := h.dialed hgoing
    have hlocal := hadvance.dialed hexec hgoing hrunning
    have hundialed := countP_born fun st hst => (born_quiet op st hst).2.1
    rw [countP_cut, countP_cut] at hbefore ⊢
    rw [hconns, List.length_append, List.length_replicate, List.countP_append, List.countP_append]
    omega

/-- A disturbance loses an open connection, or leaves the connections as they are. -/
theorem Disturb.allOpen (h : Disturb a a') :
    AllOpen a' ↔ AllOpen a ∧ a.Keeps a' := by
  have hsame : a'.conns = a.conns → (AllOpen a' ↔ AllOpen a ∧ a.Keeps a') := by
    intro hconns
    obtain ⟨hopen, hkept⟩ := allOpen_grow (n := 0) (hconns.trans (List.append_nil _).symm)
    exact hopen.trans ⟨fun h => ⟨h, hkept⟩, And.left⟩
  cases h with
  | stop => exact hsame rfl
  | lose c =>
    by_cases hc : c < a.conns.length
    · refine iff_of_false (fun hopen => ?_) ?_
      · exact absurd (hopen false (List.mem_set hc false)) Bool.false_ne_true
      · rintro ⟨hopen, hkept⟩
        have hbefore : a.conns[c]? = some true := by
          rw [List.getElem?_eq_getElem hc, hopen _ (List.getElem_mem hc)]
        have hafter : (a.conns.set c false)[c]? = some true := hkept c hbefore
        rw [List.getElem?_set_self hc] at hafter
        cases hafter
    · exact hsame (List.set_eq_of_length_le (Nat.le_of_not_lt hc))

/-- The books after a disturbance -/
theorem Books.disturb (h : Books useIM ok a sts) (hdisturb : Disturb a a') :
    Books useIM (ok ∧ a.Keeps a') a' sts := by
  refine ⟨?_, ?_, ?_⟩
  · rw [h.quiet, hdisturb.allOpen, and_right_comm]
  · cases hdisturb with
    | lose c => exact h.started
    | stop => nofun
  · cases hdisturb with
    | lose c =>
      show a.stopping = false → (a.conns.set c false).length + _ = _
      rw [List.length_set]
      exact h.dialed
    | stop => nofun

abbrev Moves (useIM : Bool) := Crew.Moves (Advance useIM) (Final useIM) (system useIM).exec
  (system useIM).env (fun st _ st' => st' = st) born

theorem Balanced.step {s s' : State} (hs : s.shared = a) (hs' : s'.shared = a')
    (h : Balanced useIM ok a sts) (hmoves : Moves useIM a sts e a' sts') :
    Balanced useIM (ok ∧ Undisturbed s e s') a' sts' := by
  intro hrunning
  rw [Undisturbed, hs, hs']
  cases hmoves with
  | @act _ before after st st' op w r hexec hadvance =>
    have hexec' : (if a.exited then none else op.exec w a) = some (r, a') := hexec
    split at hexec'
    · cases hexec'
    · rename_i hexited
      have hbooks := (h (Bool.eq_false_iff.mpr hexited)).act hexec' hadvance hrunning
      simpa [(allOpen_grow (exec_fields hexec').2).2] using hbooks
  | next hfinal hresume =>
    subst hresume
    simpa [Amqp.Keeps] using h hrunning
  | env henv =>
    have hbefore : a.exited = false := by
      cases henv with
      | lose c => exact hrunning
      | stop => exact hrunning
    simpa using (h hbefore).disturb henv

/-- The books in a state that has been reached -/
theorem balanced_of_steps {ok : Prop} (h : Trace.Steps (Step useIM) Undisturbed start ok s) :
    ∃ sts, Keeps useIM s.threads sts ∧ Balanced useIM ok s.shared sts := by
  have hstart : Keeps useIM start.threads [.starting none false (subs useIM)] :=
    .cons ⟨none, rfl⟩ .nil
  refine Crew.keeps_run h keeps_starts final_resume hstart ?_ Balanced.step
  refine fun _ => ⟨?_, fun _ sub hsub => ?_, fun _ => rfl⟩
  · simp [AllOpen, start, orphaned]
  · simp [startedFor, Phase.role, Phase.owed, reacted, count_subs hsub]

/-! ## Settled states -/

/-- A consumer of the subscription -/
def consumesFor (sub : Sub) : Phase → Bool
  | .consuming sub' _ => sub' == sub
  | _ => false

/-- A goroutine that was a consumer of the subscription -/
def wasFor (sub : Sub) : Phase → Bool
  | .starting was _ _ => was == some sub
  | _ => false

/-- A goroutine that rests has ended, or is a consumer. -/
theorem phase_of_rests (hp : p.Conforms (Advance useIM) (Final useIM) st)
    (hrests : rests a p = true) :
    (∃ was, st = .over was ∧ ∀ sub, consumes a sub p = false) ∨
      ∃ sub msgs, st = .consuming sub msgs ∧ ∀ sub', consumes a sub' p = consumesFor sub' st := by
  match p, hp, hrests with
  | .ret .done, hp, _ =>
    obtain ⟨was, rfl⟩ := hp
    exact .inl ⟨was, rfl, fun _ => rfl⟩
  | .act (.drain sub msgs) k, hp, hrests =>
    obtain ⟨st', hadvance, -⟩ := hp ()
    have hopen : a.chanIs true msgs = true := hrests
    have hst : st = .consuming sub msgs := by
      cases hadvance <;> rfl
    subst hst
    refine .inr ⟨sub, msgs, rfl, fun sub' => ?_⟩
    show (sub == sub' && a.chanIs true msgs) = (sub == sub')
    rw [hopen, Bool.and_true]

/-- Whoever was started for a subscription consumes it, or has done so. -/
theorem countP_startedFor (sub : Sub)
    (h : ∀ st ∈ sts, (∃ was, st = .over was) ∨ ∃ sub msgs, st = .consuming sub msgs) :
    sts.countP (startedFor sub) = sts.countP (consumesFor sub) + sts.countP (wasFor sub) := by
  induction sts with
  | nil => rfl
  | cons st sts ih =>
    have hrest := ih fun st hst => h st (List.mem_cons_of_mem _ hst)
    have hst : (startedFor sub st).toNat =
        (consumesFor sub st).toNat + (wasFor sub st).toNat := by
      rcases h st List.mem_cons_self with ⟨was, rfl⟩ | ⟨sub', msgs, rfl⟩
      · simp [startedFor, Phase.role, consumesFor, wasFor]
      · simp [startedFor, Phase.role, consumesFor, wasFor]
    rw [countP_first, countP_first, countP_first]
    omega

/-- Two kinds of consumers that have reacted -/
theorem countP_wasFor_le (sts : List Phase) :
    sts.countP (wasFor .calls) + sts.countP (wasFor .exec) ≤ sts.countP reacted := by
  induction sts with
  | nil => exact Nat.le_refl _
  | cons st sts ih =>
    have hst : (wasFor .calls st).toNat + (wasFor .exec st).toNat ≤ (reacted st).toNat := by
      cases st with
      | starting was dialed left =>
        cases was with
        | none => exact Nat.le_refl _
        | some sub =>
          show (some sub == some Sub.calls).toNat + (some sub == some Sub.exec).toNat ≤
            (decide (sub ≠ .settings)).toNat
          cases sub <;> decide
      | _ => exact Nat.le_refl _
    rw [countP_first, countP_first, countP_first]
    omega

/-- What is known of the goroutines of a settled state -/
structure Counted (useIM : Bool) (s : State) (sts : List Phase) : Prop where
  conns : s.shared.conns.length = 1 + sts.countP reacted
  live : ∀ sub ∈ subs useIM, live s sub + sts.countP (wasFor sub) = 1 + sts.countP reacted
  phase : ∀ st ∈ sts, (∃ was, st = .over was) ∨ ∃ sub msgs, st = .consuming sub msgs

theorem counted_of_settled {s : State} (hkeeps : Keeps useIM s.threads sts)
    (hbalanced : Balanced useIM ok s.shared sts) (hsettled : Settled s) : Counted useIM s sts := by
  have hbooks := hbalanced hsettled.running
  -- where every goroutine rests, each one is over or consumes
  have hphase : ∀ st ∈ sts, (∃ was, st = .over was) ∨ ∃ sub msgs, st = .consuming sub msgs := by
    intro st hst
    obtain ⟨p, hp, hconf⟩ := hkeeps.exists_thread hst
    rcases phase_of_rests hconf (hsettled.rests p hp) with ⟨was, rfl, -⟩ | ⟨sub, msgs, rfl, -⟩
    · exact .inl ⟨was, rfl⟩
    · exact .inr ⟨sub, msgs, rfl⟩
  refine ⟨?_, fun sub hsub => ?_, hphase⟩
  · have hundialed : sts.countP undialed = 0 := by
      rw [List.countP_eq_zero]
      intro st hst
      rcases hphase st hst with ⟨was, rfl⟩ | ⟨sub, msgs, rfl⟩
      · exact Bool.false_ne_true
      · exact Bool.false_ne_true
    have := hbooks.dialed hsettled.going
    omega
  · have hlive : live s sub = sts.countP (consumesFor sub) := by
      refine hkeeps.countP_eq fun p hp st hconf => ?_
      rcases phase_of_rests hconf (hsettled.rests p hp) with ⟨was, rfl, h⟩ | ⟨sub', msgs, rfl, h⟩
      · exact h sub
      · exact h sub
    have howed : (sts.map (Phase.owed sub)).sum = 0 := by
      refine owed_eq_zero fun st hst => ?_
      rcases hphase st hst with ⟨was, rfl⟩ | ⟨sub, msgs, rfl⟩
      · rfl
      · rfl
    have hsplit := countP_startedFor sub hphase
    have := hbooks.started hsettled.going sub hsub
    omega

/-- Where nothing was disturbed, nobody has made a second connection. -/
theorem Counted.single (h : Counted useIM s sts) (hopen : AllOpen s.shared)
    (hquiet : ∀ st ∈ sts, orphaned st = false) : Single useIM s := by
  have hnone : ∀ {f : Phase → Bool}, (∀ st, f st = true → orphaned st = true) →
      sts.countP f = 0 := by
    intro f hf
    rw [List.countP_eq_zero]
    intro st hst hfst
    have := hquiet st hst
    rw [hf st hfst] at this
    cases this
  have hreacted : sts.countP reacted = 0 := by
    refine hnone fun st hst => ?_
    match st, hst with
    | .starting (some _) _ _, _ => rfl
  constructor
  · have hall : s.shared.conns.count true = s.shared.conns.length :=
      List.count_eq_length.mpr fun b hb => (hopen b hb).symm
    rw [hall, h.conns, hreacted]
  · intro sub hsub
    have hwas : sts.countP (wasFor sub) = 0 := by
      refine hnone fun st hst => ?_
      match st, hst with
      | .starting (some _) _ _, _ => rfl
    have := h.live sub hsub
    omega

theorem Counted.quiet (h : Counted useIM s sts) (hsingle : Single useIM s) :
    AllOpen s.shared ∧ ∀ st ∈ sts, orphaned st = false := by
  have hmem : ∀ sub : Sub, sub ≠ .im → sub ∈ subs useIM := by
    intro sub hsub
    refine List.mem_append_left _ ?_
    revert hsub
    cases sub <;> decide
  have hlive : ∀ sub : Sub, sub ≠ .im → sts.countP (wasFor sub) = sts.countP reacted := by
    intro sub hsub
    have := h.live sub (hmem sub hsub)
    rw [hsingle.subs sub (hmem sub hsub)] at this
    omega
  -- of the consumers that have reacted, those of calls and those of `exec` would each be all
  have hreacted : sts.countP reacted = 0 := by
    have hcalls := hlive .calls nofun
    have hexec := hlive .exec nofun
    have := countP_wasFor_le sts
    omega
  have hlength : s.shared.conns.count true = s.shared.conns.length := by
    rw [hsingle.conns, h.conns, hreacted]
  refine ⟨fun b hb => (List.count_eq_length.mp hlength b hb).symm, fun st hst => ?_⟩
  rcases h.phase st hst with ⟨was, rfl⟩ | ⟨sub, msgs, rfl⟩
  · cases was with
    | none => rfl
    | some sub =>
      -- it is the consumer of the system settings, or has reacted
      have hsettings := (hlive .settings nofun).trans hreacted
      rw [List.countP_eq_zero] at hreacted hsettings
      have h₁ := hreacted _ hst
      have h₂ := hsettings _ hst
      cases sub <;> first | exact absurd rfl h₁ | exact absurd rfl h₂
  · rfl

/-- When reconnection has settled, there is one connection and one consumer for each subscription
exactly if no connection has been lost before and no consumer has come to the end of its messages:
every consumer but one that has done so has made a connection of its own, with consumers for all
subscriptions. -/
theorem settled_iff {s : State} {ok : Prop} (h : Trace.Steps (Step useIM) Undisturbed start ok s)
    (hsettled : Settled s) : Single useIM s ↔ ok := by
  obtain ⟨sts, hkeeps, hbalanced⟩ := balanced_of_steps h
  have hcounted := counted_of_settled hkeeps hbalanced hsettled
  rw [(hbalanced hsettled.running).quiet]
  constructor
  · intro hsingle
    exact hcounted.quiet hsingle
  · rintro ⟨hopen, hquiet⟩
    exact hcounted.single hopen hquiet

/-- A goroutine moves, and the broker does what it is asked for, or a connection is lost. -/
def move (useIM : Bool) (s : State) : Nat ⊕ Nat → Option State
  | .inl i => s.move (system useIM) starts i true
  | .inr c => some { s with shared := { s.shared with conns := s.shared.conns.set c false } }

/-- What happens in a move -/
def event (s : State) : Nat ⊕ Nat → Event Nat Op
  | .inl i => s.event i
  | .inr _ => .env

theorem move_step (useIM : Bool) (s : State) (mv : Nat ⊕ Nat) (s' : State)
    (h : move useIM s mv = some s') : Step useIM s (event s mv) s' := by
  cases mv with
  | inl i => exact Crew.move_step h
  | inr c =>
    cases h
    exact .env (.lose c)

/-- The next moves of a goroutine -/
def moves (i n : Nat) : List (Nat ⊕ Nat) := List.replicate n (.inl i)

/-- After the first `initConnection` -/
theorem settled_iff_first : ∃ ok s, Trace.Steps (Step false) Undisturbed start ok s ∧ ok ∧
    Settled s ∧ Single false s := by
  obtain ⟨s, -, ⟨hsettled, hconns, hlive⟩, ok, hsteps⟩ := Trace.reaches (move_step false)
    Undisturbed (moves 0 28) start
    (fun s => Settled s ∧ s.shared.conns.count true = 1 ∧ ∀ sub ∈ subs false, live s sub = 1)
    (by decide +kernel)
  have hsingle : Single false s := ⟨hconns, hlive⟩
  exact ⟨ok, s, hsteps, (settled_iff hsteps hsettled).mp hsingle, hsettled, hsingle⟩

/-- The connection is lost once. The consumers of calls, of `exec` and of the call center reconnect,
one after the other. -/
def lostOnce : List (Nat ⊕ Nat) :=
  moves 0 28 ++ [.inr 0] ++ moves 1 30 ++ moves 2 30 ++ moves 3 30 ++ moves 4 1

/-- There are three connections, and three consumers for each subscription. -/
theorem settled_iff_multiplied : ∃ ok s, Trace.Steps (Step false) Undisturbed start ok s ∧
    Settled s ∧ ¬ Single false s ∧ s.shared.conns.count true = 3 ∧
      ∀ sub ∈ subs false, live s sub = 3 := by
  obtain ⟨s, -, ⟨hsettled, hconns, hlive⟩, ok, hsteps⟩ := Trace.reaches (move_step false)
    Undisturbed lostOnce start
    (fun s => Settled s ∧ s.shared.conns.count true = 3 ∧ ∀ sub ∈ subs false, live s sub = 3)
    (by decide +kernel)
  refine ⟨ok, s, hsteps, hsettled, fun hsingle => ?_, hconns, hlive⟩
  have hone := hsingle.conns
  rw [hconns] at hone
  cases hone

/-- However many connections have been lost, when reconnection has settled there is a consumer for
every subscription but that to the system settings, whose consumer does not reconnect. -/
theorem live_of_settled {s : State} {ok : Prop}
    (h : Trace.Steps (Step useIM) Undisturbed start ok s) (hsettled : Settled s)
    (hsub : sub ∈ subs useIM) (hne : sub ≠ .settings) : 0 < live s sub := by
  obtain ⟨sts, hkeeps, hbalanced⟩ := balanced_of_steps h
  have hlive := (counted_of_settled hkeeps hbalanced hsettled).live sub hsub
  -- whoever has lost a channel of this subscription has started a consumer in its place
  have hreacted : sts.countP (wasFor sub) ≤ sts.countP reacted := by
    refine List.countP_mono_left fun st _ hst => ?_
    cases st with
    | starting was =>
      have hwas : was = some sub := by simpa [wasFor] using hst
      simpa [reacted, hwas] using hne
    | _ => cases hst
  omega

/-- After the connection has been lost once -/
theorem live_of_settled_lost : ∃ ok s, Trace.Steps (Step false) Undisturbed start ok s ∧
    Settled s ∧ false ∈ s.shared.conns ∧ 0 < live s .cc := by
  obtain ⟨s, -, ⟨hsettled, hlost⟩, ok, hsteps⟩ := Trace.reaches (move_step false) Undisturbed
    lostOnce start
    (fun s => Settled s ∧ false ∈ s.shared.conns) (by decide +kernel)
  exact ⟨ok, s, hsteps, hsettled, hlost, live_of_settled hsteps hsettled (by decide) (by decide)⟩

end FlowManager.Mq
