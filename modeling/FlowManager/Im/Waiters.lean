import FlowManager.Im.Receive
import FlowManager.Lib.Outline

/-!
# One waiter at a time

A dialog has one place for a handler that waits, `waitMsgChan`. A `receive` that finds it
taken is rejected. It has deferred the call that empties the place before it tried to take it,
though, so on its way out it removes the channel of the one that was there first, and the
next message finds nobody.

- `noteRejected`: which handlers have been rejected, kept beside the threads.
- `Considerate`: a rejected `receive` returns while the place is empty.
- `waiter_kept_of_considerate`: if so, whoever waits stays registered until it leaves by
  itself, and the next message goes to it.
-/

namespace FlowManager.Im

open Concurrent Function

/-- For every handler, whether its last attempt to register was rejected. -/
def noteRejected {n : Nat} (s : InboxPool n) (e : Concurrent.Event (InboxThread n) InboxOp)
    (_ : InboxPool n) (rejected : Fin n → Bool) : Fin n → Bool :=
  match e with
  | .act (.handler i) (.setStateWaitMessage _) =>
    update rejected i s.shared.waitMsgChan.isSome
  | _ => rejected

/-- A `receive` that was rejected empties `waitMsgChan` only when nobody is registered: the
one that was there first has returned, and nobody has come after it. -/
def Considerate {n : Nat} (x : InboxPool n × (Fin n → Bool))
    (e : Concurrent.Event (InboxThread n) InboxOp) (_ : InboxPool n × (Fin n → Bool)) : Prop :=
  match e with
  | .act (.handler i) .clearStateWaitMessage =>
    x.2 i = true → x.1.shared.waitMsgChan = none
  | _ => True

/-! ## Points of the code -/

/-- Where the listener is. -/
inductive ListenPoint where
  | idle
  | reading
  | offering (ch : Nat)
  | sending (ch : Nat)

/-- Where a handler is. The one that empties `waitMsgChan` has registered `own`, or has been
rejected. -/
inductive HandlePoint where
  | idle
  | making
  | registering (ch : Nat)
  | selecting (ch : Nat)
  | clearing (own : Option Nat)

/-- What the listener has still to do. -/
def ListenPoint.prog : ListenPoint → InboxGo InboxLabel
  | .idle => .ret .listen
  | .reading => .act .waitMsgChan fun
    | some ch => .act (.offer ch) fun _ => .act (.sent ch) fun _ => .ret .listen
    | none => .ret .listen
  | .offering ch => .act (.offer ch) fun _ => .act (.sent ch) fun _ => .ret .listen
  | .sending ch => .act (.sent ch) fun _ => .ret .listen

/-- What a handler has still to do. -/
def HandlePoint.prog : HandlePoint → InboxGo InboxLabel
  | .idle => .ret .idle
  | .making => do
    receive
    return .idle
  | .registering ch => .act (.setStateWaitMessage ch) fun
    | true => .act (.select ch) fun _ => .act .clearStateWaitMessage fun _ => .ret .idle
    | false => .act .clearStateWaitMessage fun _ => .ret .idle
  | .selecting ch => .act (.select ch) fun _ => .act .clearStateWaitMessage fun _ => .ret .idle
  | .clearing _ => .act .clearStateWaitMessage fun _ => .ret .idle

/-- The channel that the handler has registered and not yet removed. -/
def HandlePoint.holds : HandlePoint → Option Nat
  | .selecting ch => some ch
  | .clearing own => own
  | _ => none

/-- The points of a goroutine -/
abbrev InboxPoint {n : Nat} : InboxThread n → Type
  | .listener => ListenPoint
  | .handler _ => HandlePoint

/-- What a goroutine has still to do. -/
def inboxProg {n : Nat} : (t : InboxThread n) → InboxPoint t → InboxGo InboxLabel
  | .listener => ListenPoint.prog
  | .handler _ => HandlePoint.prog

/-- What the goroutines do to `waitMsgChan`. -/
inductive InboxMoves {n : Nat} (m : Inbox) (pts : ∀ t : InboxThread n, InboxPoint t) :
    Concurrent.Event (InboxThread n) InboxOp → Inbox → (∀ t : InboxThread n, InboxPoint t) →
      Prop where
  | listen {m' : Inbox} {e : Concurrent.Event (InboxThread n) InboxOp} {pt : ListenPoint}
      (he : e.thread = some .listener) (hsame : m'.waitMsgChan = m.waitMsgChan) :
      InboxMoves m pts e m' (update pts .listener pt)
  | start (hpt : pts (.handler i) = HandlePoint.idle) :
      InboxMoves m pts (.next (.handler i)) m (update pts (.handler i) HandlePoint.making)
  | make {m' : Inbox} {i : Fin n} {ch : Nat} (hpt : pts (.handler i) = HandlePoint.making)
      (hsame : m'.waitMsgChan = m.waitMsgChan) :
      InboxMoves m pts (.act (.handler i) .makeChan) m'
        (update pts (.handler i) (HandlePoint.registering ch))
  | register (hpt : pts (.handler i) = HandlePoint.registering ch) (hfree : m.waitMsgChan = none) :
      InboxMoves m pts (.act (.handler i) (.setStateWaitMessage ch))
        { m with waitMsgChan := some ch } (update pts (.handler i) (HandlePoint.selecting ch))
  | reject (hpt : pts (.handler i) = HandlePoint.registering ch)
      (htaken : m.waitMsgChan.isSome = true) :
      InboxMoves m pts (.act (.handler i) (.setStateWaitMessage ch)) m
        (update pts (.handler i) (HandlePoint.clearing none))
  | leave {m' : Inbox} {i : Fin n} {ch : Nat}
      (hpt : pts (.handler i) = HandlePoint.selecting ch)
      (hsame : m'.waitMsgChan = m.waitMsgChan) :
      InboxMoves m pts (.act (.handler i) (.select ch)) m'
        (update pts (.handler i) (HandlePoint.clearing (some ch)))
  | clear (hpt : pts (.handler i) = HandlePoint.clearing own) :
      InboxMoves m pts (.act (.handler i) .clearStateWaitMessage) { m with waitMsgChan := none }
        (update pts (.handler i) HandlePoint.idle)

/-- A message that is not for the schema, or that a handler may wait for. -/
theorem onMessage_point (customer bot : Endpoint) (msg : Message) :
    ∃ pt : ListenPoint, (do onMessage customer bot msg; return .listen : InboxGo InboxLabel) =
      pt.prog := by
  unfold onMessage
  split
  · exact ⟨.idle, rfl⟩
  · split
    · exact ⟨.idle, rfl⟩
    · unfold pushMessageToWaitMessageChan
      split
      · exact ⟨.idle, rfl⟩
      · refine ⟨.reading, congrArg (Prog.act _) (funext fun r => ?_)⟩
        cases r <;> rfl

theorem inbox_outline (n : Nat) (customer bot : Endpoint) :
    Outline (inboxes customer bot) (inboxProg (n := n)) InboxMoves := by
  refine Outline.of_leads (fun m pts t => ?_) id fun _ _ => id
  cases t with
  | listener =>
    -- the listener never writes `waitMsgChan`
    generalize pts .listener = pt
    cases pt with
    | idle =>
      rintro w _ ⟨⟩
      obtain ⟨pt, hpt⟩ := onMessage_point customer bot w.2
      exact ⟨pt, hpt, .listen rfl rfl⟩
    | reading =>
      rintro w _ ⟨⟩
      cases m.waitMsgChan with
      | none => exact ⟨ListenPoint.idle, rfl, .listen rfl rfl⟩
      | some ch => exact ⟨ListenPoint.offering ch, rfl, .listen rfl rfl⟩
    | offering ch =>
      rintro w _ ⟨⟩
      exact ⟨ListenPoint.sending ch, rfl, .listen rfl rfl⟩
    | sending ch =>
      intro w y hexec
      simp only [inboxes, inboxExec] at hexec
      split at hexec <;> cases hexec
      exact ⟨ListenPoint.idle, rfl, .listen rfl rfl⟩
  | handler i =>
    generalize hpt : pts (.handler i) = pt
    cases pt with
    | idle => exact .next (.start hpt)
    | making =>
      rintro w _ ⟨⟩
      refine ⟨HandlePoint.registering m.next, ?_, .make hpt rfl⟩
      refine congrArg (Prog.act _) (funext fun r => ?_)
      cases r <;> rfl
    | registering ch =>
      intro w y hexec
      simp only [inboxes, inboxExec] at hexec
      split at hexec <;> cases hexec
      · exact ⟨HandlePoint.clearing none, rfl, .reject hpt ‹_›⟩
      · have hnone := Option.not_isSome_iff_eq_none.mp ‹_›
        exact ⟨HandlePoint.selecting ch, rfl, .register hpt hnone⟩
    | selecting ch =>
      intro w y hexec
      refine ⟨HandlePoint.clearing (some ch), rfl, .leave hpt ?_⟩
      simp only [inboxes, inboxExec] at hexec
      split at hexec
      · split at hexec <;> cases hexec
        rfl
      · cases hexec
        rfl
    | clearing own => exact .act (.clear hpt)

/-! ## Considerate runs -/

section Invariant

variable {n : Nat} {customer bot : Endpoint} {s s' : InboxPool n} {m m' : Inbox}
  {pts pts' : ∀ t : InboxThread n, InboxPoint t} {rejected rejected' : Fin n → Bool} {i : Fin n}

/-- The channel that the handler `i` has registered and not yet removed. -/
def heldBy (pts : ∀ t : InboxThread n, InboxPoint t) (i : Fin n) : Option Nat :=
  HandlePoint.holds (pts (.handler i))

theorem heldBy_self (pt : HandlePoint) :
    heldBy (update pts (.handler i) pt) i = pt.holds := by
  unfold heldBy
  rw [update_self]

theorem heldBy_of_ne (hj : j ≠ i) (pt : HandlePoint) :
    heldBy (update pts (.handler i) pt) j = heldBy pts j := by
  unfold heldBy
  rw [update_of_ne (by simpa using hj)]

/-- What is held is what is registered, one handler holds it, and a handler that removes what
it does not hold is one that was rejected. -/
structure OneWaiter (m : Inbox) (pts : ∀ t : InboxThread n, InboxPoint t)
    (rejected : Fin n → Bool) : Prop where
  registered : ∀ i ch, heldBy pts i = some ch → m.waitMsgChan = some ch
  alone : ∀ i j, heldBy pts i ≠ none → heldBy pts j ≠ none → i = j
  rejected : ∀ i, pts (.handler i) = HandlePoint.clearing none → rejected i = true

section

variable (h : OneWaiter m pts rejected)
include h

/-- While nobody is registered, nobody holds a channel. -/
theorem OneWaiter.held_of_free (hfree : m.waitMsgChan = none)
    (i : Fin n) : heldBy pts i = none := by
  cases hheld : heldBy pts i with
  | none => rfl
  | some ch =>
    have hch := h.registered i ch hheld
    rw [hfree] at hch
    cases hch

/-- The handler `i` goes on to the point `pt`. -/
theorem OneWaiter.set
    (hmine : ∀ ch, pt.holds = some ch → m'.waitMsgChan = some ch)
    (hothers : ∀ j, j ≠ i → ∀ ch, heldBy pts j = some ch → m'.waitMsgChan = some ch)
    (halone : pt.holds ≠ none → ∀ j, j ≠ i → heldBy pts j = none)
    (hrejected : pt = .clearing none → rejected' i = true)
    (hsame : ∀ j, j ≠ i → rejected' j = rejected j) :
    OneWaiter m' (update pts (.handler i) pt) rejected' := by
  constructor
  · intro j ch hheld
    by_cases hj : j = i
    · subst hj
      rw [heldBy_self] at hheld
      exact hmine ch hheld
    · rw [heldBy_of_ne hj] at hheld
      exact hothers j hj ch hheld
  · intro j k hj hk
    by_cases hji : j = i
    · by_cases hki : k = i
      · rw [hji, hki]
      · rw [hji, heldBy_self] at hj
        rw [heldBy_of_ne hki] at hk
        exact absurd (halone hj k hki) hk
    · rw [heldBy_of_ne hji] at hj
      by_cases hki : k = i
      · rw [hki, heldBy_self] at hk
        exact absurd (halone hk j hji) hj
      · rw [heldBy_of_ne hki] at hk
        exact h.alone j k hj hk
  · intro j hpt
    by_cases hj : j = i
    · subst hj
      rw [update_self] at hpt
      exact hrejected hpt
    · rw [update_of_ne (by simpa using hj)] at hpt
      rw [hsame j hj]
      exact h.rejected j hpt

/-- The handler `i` goes on, and holds as much as before. -/
theorem OneWaiter.frame (hwait : m'.waitMsgChan = m.waitMsgChan)
    (hholds : pt.holds = heldBy pts i) (hrejected : pt = .clearing none → rejected' i = true)
    (hsame : ∀ j, j ≠ i → rejected' j = rejected j) :
    OneWaiter m' (update pts (.handler i) pt) rejected' := by
  refine h.set ?_ ?_ ?_ hrejected hsame
  · intro ch hch
    rw [hwait]
    exact h.registered i ch (hholds ▸ hch)
  · intro j _ ch hch
    rw [hwait]
    exact h.registered j ch hch
  · intro hmine j hj
    by_contra hheld
    exact hj (h.alone j i hheld (hholds ▸ hmine))

end

/-- A step of a considerate run. -/
theorem OneWaiter.keep (hm : s.shared = m) (hmoves : InboxMoves m pts e m' pts')
    (h : OneWaiter m pts rejected)
    (hcond : Considerate (s, rejected) e (s', noteRejected s e s' rejected)) :
    OneWaiter m' pts' (noteRejected s e s' rejected) := by
  cases hmoves with
  | @listen _ _ pt he hsame =>
    have hnote : noteRejected s e s' rejected = rejected := by
      unfold noteRejected
      split
      · cases he
      · rfl
    have hheld : heldBy (update pts .listener pt) = heldBy pts := by
      funext j
      unfold heldBy
      rw [update_of_ne (by simp)]
    rw [hnote]
    constructor
    · rw [hheld, hsame]
      exact h.registered
    · exact h.alone
    · intro j hpt
      exact h.rejected j hpt
  | start hpt => exact h.frame rfl (by rw [heldBy, hpt]; rfl) nofun fun _ _ => rfl
  | make hpt hsame | leave hpt hsame =>
    exact h.frame hsame (by rw [heldBy, hpt]; rfl) nofun fun _ _ => rfl
  | register hpt hfree =>
    have hnobody := h.held_of_free hfree
    refine h.set (fun ch hch => hch) ?_ (fun _ j _ => hnobody j) nofun ?_
    · intro j _ ch hch
      rw [hnobody j] at hch
      cases hch
    · exact fun j hj => update_of_ne hj ..
  | @reject i _ hpt htaken =>
    refine h.frame rfl (by rw [heldBy, hpt]; rfl) ?_ ?_
    · intro _
      show update rejected i s.shared.waitMsgChan.isSome i = true
      rw [update_self, hm]
      exact htaken
    · exact fun j hj => update_of_ne hj ..
  | @clear i own hpt =>
    -- whoever removes a registration of its own is the only one that holds one
    have hothers : ∀ j, j ≠ i → heldBy pts j = none := by
      intro j hj
      cases own with
      | none =>
        have hfree : s.shared.waitMsgChan = none := hcond (h.rejected i hpt)
        exact h.held_of_free (hm ▸ hfree) j
      | some ch =>
        by_contra hheld
        have hmine : heldBy pts i ≠ none := by
          rw [heldBy, hpt]
          nofun
        exact hj (h.alone j i hheld hmine)
    refine h.set nofun ?_ (fun hne => absurd rfl hne) nofun fun _ _ => rfl
    intro j hj ch hch
    rw [hothers j hj] at hch
    cases hch

theorem selects_prog {pt : HandlePoint} (h : Selects ch pt.prog = true) :
    pt = .selecting ch := by
  cases pt with
  | selecting d => rw [of_decide_eq_true h]
  | _ => cases h

/-- Whoever waits is registered. -/
theorem OneWaiter.waits (h : OneWaiter m pts rejected) (hat : s.At inboxProg pts)
    (hselects : Selects ch (s.thread (.handler i)) = true) : m.waitMsgChan = some ch := by
  rw [hat (.handler i)] at hselects
  refine h.registered i ch ?_
  rw [heldBy, selects_prog hselects]
  rfl

/-- A message that finds a channel is offered on it. -/
theorem holdsChan_of_read (hat : s.At inboxProg pts) (hwait : s.shared.waitMsgChan = some ch)
    (hstep : Step (inboxes customer bot) s (.act .listener .waitMsgChan) s') :
    HoldsChan ch s'.shared (s'.thread .listener) = true := by
  cases hstep with
  | @act _ _ k w r m ht hexec =>
    cases hexec
    rw [hat .listener] at ht
    generalize pts .listener = pt at ht
    cases pt with
    | reading =>
      cases ht
      rw [hwait]
      exact decide_eq_true rfl
    | _ => cases ht

end Invariant

/-- Nobody does anything. -/
def atRest {n : Nat} : ∀ t : InboxThread n, InboxPoint t
  | .listener => ListenPoint.idle
  | .handler _ => HandlePoint.idle

theorem oneWaiter_quiet (n : Nat) :
    OneWaiter (n := n) (quiet n).shared atRest fun _ => false := by
  constructor
  · intro i ch hheld
    cases hheld
  · intro i j hi
    exact absurd rfl hi
  · intro i hpt
    cases hpt

/-- In every interleaving of the messages for a dialog with any number of handlers that call
`receive` in which a rejected `receive` returns only while nobody is registered, a `receive`
that waits is registered, no other goroutine removes its registration, and the next message
is offered to it. -/
theorem waiter_kept_of_considerate {n : Nat} {customer bot : Endpoint} {ok : Prop}
    {x : InboxPool n × (Fin n → Bool)}
    (h : Trace.Steps (Recorded (inboxes customer bot) noteRejected) Considerate
      (quiet n, fun _ => false) ok x) (hok : ok) {i : Fin n} {ch : Nat}
    (hselects : Selects ch (x.1.thread (.handler i)) = true) :
    x.1.shared.waitMsgChan = some ch ∧
      (∀ e y, Recorded (inboxes customer bot) noteRejected x e y → Considerate x e y →
        e.thread ≠ some (.handler i) → y.1.shared.waitMsgChan = some ch) ∧
      ∀ s', Step (inboxes customer bot) x.1 (.act .listener .waitMsgChan) s' →
        HoldsChan ch s'.shared (s'.thread .listener) = true := by
  have hquiet : (quiet n).At inboxProg atRest := by
    rintro (_ | _) <;> rfl
  have hrun : ∀ {ok y}, Trace.Steps (Recorded (inboxes customer bot) noteRejected) Considerate
      (quiet n, fun _ => false) ok y → ok →
        ∃ pts, y.1.At inboxProg pts ∧ OneWaiter y.1.shared pts y.2 := fun hsteps hok =>
    (inbox_outline n customer bot).run hsteps hok hquiet (oneWaiter_quiet n)
      fun hm _ _ _ hmoves hinv hcond => hinv.keep hm hmoves hcond
  obtain ⟨pts, hat, hinv⟩ := hrun h hok
  have hwait := hinv.waits hat hselects
  refine ⟨hwait, ?_, fun s' hstep => holdsChan_of_read hat hwait hstep⟩
  intro e y hstep hcond hother
  obtain ⟨pts', hat', hinv'⟩ := hrun (h.tail hstep) ⟨hok, hcond⟩
  refine hinv'.waits hat' (i := i) ?_
  rwa [hstep.1.thread_eq hother]

/-- The handler moves. -/
def handles (i : Fin 2) (moves : Nat) : List (InboxThread 2 × Leave × Message) :=
  List.replicate moves (.handler i, .timeout, hello)

/-- A handler waits, and another one is rejected and is about to return. -/
def overlapping : List (InboxThread 2 × Leave × Message) := handles 0 3 ++ handles 1 3

/-- The handler that waits runs into its timeout and returns before the rejected one does. -/
def patient : List (InboxThread 2 × Leave × Message) :=
  overlapping ++ handles 0 2 ++ handles 1 4

instance {n : Nat} (x : InboxPool n × (Fin n → Bool))
    (e : Concurrent.Event (InboxThread n) InboxOp) (y : InboxPool n × (Fin n → Bool)) :
    Decidable (Considerate x e y) := by
  unfold Considerate
  rcases e with ⟨_ | i, ⟨⟩⟩ | _ | _ <;> infer_instance

/-- The rejected handler has returned in time and waits now. -/
theorem waiter_kept_of_considerate_patient :
    ∃ s, Pool.play (inboxes customerOne botOne) patient (quiet 2) = some s ∧
      Selects 2 (s.thread (.handler 1)) = true ∧ s.shared.waitMsgChan = some 2 := by
  obtain ⟨x, hx, hselects, ok, hsteps, hok⟩ := Pool.reaches_record (inboxes customerOne botOne)
    noteRejected (fun x e y => of_decide_eq_true (p := Considerate x e y)) patient
    (quiet 2, fun _ => false) (fun x => Selects 2 (x.1.thread (.handler 1)) = true)
    (by decide +kernel)
  exact ⟨x.1, Pool.play_of_record hx, hselects, (waiter_kept_of_considerate hsteps hok hselects).1⟩

/-- The listener has gone through with a message. -/
def BackInLoop : InboxGo InboxLabel → Bool
  | .ret .listen => true
  | _ => false

/-- The rejected handler returns while the first one waits. The first one is not registered any
more, and the customer's message is dropped. -/
theorem waiter_kept_of_considerate_overlapping :
    ∃ ok x, Trace.Steps (Recorded (inboxes customerOne botOne) noteRejected) Considerate
        (quiet 2, fun _ => false) ok x ∧
      Selects 0 (x.1.thread (.handler 0)) = true ∧ x.1.shared.waitMsgChan = none ∧
        BackInLoop (x.1.thread .listener) = true ∧ x.1.shared.offered = none := by
  obtain ⟨x, -, hend, ok, hsteps⟩ := Trace.reaches
    (Pool.record_step (inboxes customerOne botOne) noteRejected) Considerate
    (overlapping ++ handles 1 1 ++ List.replicate 2 (.listener, .timeout, hello))
    (quiet 2, fun _ => false) (fun x => Selects 0 (x.1.thread (.handler 0)) = true ∧
      x.1.shared.waitMsgChan = none ∧ BackInLoop (x.1.thread .listener) = true ∧
        x.1.shared.offered = none) (by decide +kernel)
  exact ⟨ok, x, hsteps, hend⟩

end FlowManager.Im
