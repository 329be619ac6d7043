import FlowManager.Cc.Attempts

/-!
# Sending events to the handlers

`listenEvents` may find the channel of a handler and send on it later, while the handler leaves
and closes it. What goes wrong depends on when the handler leaves its loop, which is not in the
memory. So the calls of the handlers are written down beside the state: which attempt they were
given, whether they have left, which events were emitted for them and which they have received.

- `Ledger`, `note`: what is written down.
- `Kept`: where the event in the hands of `listenEvents` is, and who reads it.
- `attended_of_apart`: if nobody leaves at the wrong moment, every send finds its reader.
-/

namespace FlowManager.Cc

open Concurrent Function

/-! ## What is written down -/

/-- A call of `joinQueue` that has been given an attempt -/
structure Call where
  id : Nat
  /-- it has left its loop -/
  left : Bool
  /-- the events that were emitted for the attempt until then -/
  due : List QueueEvent
  /-- the events that it has received -/
  got : List QueueEvent

/-- The last call of each handler, and the event that `listenEvents` has in its hands. -/
structure Ledger (n : Nat) where
  calls : Fin n → Option Call
  hand : Option QueueEvent

/-- Nothing has happened. -/
def Ledger.empty (n : Nat) : Ledger n := ⟨fun _ => none, none⟩

/-- Something is written down about the call of a handler. -/
def Ledger.amend {n : Nat} (led : Ledger n) (i : Fin n) (f : Call → Call) : Ledger n :=
  { led with calls := update led.calls i ((led.calls i).map f) }

/-- `joinQueue` stays in its loop. -/
def Queues : Go Label → Bool
  | .ret (.queued _ _) => true
  | _ => false

/-- `joinQueue` has been refused. -/
def Refused : Go Label → Bool
  | .ret _ => true
  | _ => false

/-- The event on offer is taken. -/
def Ledger.receive {n : Nat} (led : Ledger n) (i : Fin n) (e : QueueEvent) : Ledger n :=
  { led.amend i fun c => { c with got := c.got ++ [e] } with hand := none }

/-- An event is emitted. -/
def Call.emit (e : QueueEvent) (c : Call) : Call :=
  if c.id = e.attemptId ∧ c.left = false then { c with due := c.due ++ [e] } else c

/-- What is written down of a step. -/
def note {n : Nat} (s : AttemptPool n) (e : Concurrent.Event (Thread n) Op) (s' : AttemptPool n)
    (led : Ledger n) : Ledger n :=
  match e with
  | .act (.handler i) .join =>
    if Refused (s'.thread (.handler i)) then led
    else { led with calls := update led.calls i (some ⟨s.shared.created, false, [], []⟩) }
  | .act (.handler i) (.await ch) =>
    let received :=
      match s.shared.chans.first ch with
      | some o =>
        if s'.shared.chans.offers.length < s.shared.chans.offers.length then led.receive i o.value
        else led
      | none => led
    if Queues (s'.thread (.handler i)) then received
    else received.amend i fun c => { c with left := true }
  | .act .center (.emit ev) => { led with calls := fun i => (led.calls i).map (Call.emit ev) }
  | .act .loop .take =>
    match s.shared.events with
    | ev :: _ =>
      if s'.shared.events.length < s.shared.events.length then { led with hand := some ev }
      else led
    | [] => led
  | .act .loop (.lookup id) =>
    if (s.shared.attempts id).isSome then led else { led with hand := none }
  | _ => led

/-! ## Conditions -/

/-- `listenEvents` has found the channel and has not got rid of its event. -/
def Sends {n : Nat} (ch : Nat) (s : AttemptPool n) : Prop :=
  (∃ e k, s.thread .loop = .act (.offer ch e) k) ∨ ∃ o ∈ s.shared.chans.offers, o.chan = ch

/-- `listenEvents` looks up the attempt of a handler that has left only when the handler has
removed it, and a handler does not leave while `listenEvents` is sending to it. -/
def Punctual {n : Nat} (x : AttemptPool n × Ledger n) (e : Concurrent.Event (Thread n) Op)
    (y : AttemptPool n × Ledger n) : Prop :=
  match e with
  | .act .loop (.lookup id) =>
    ∀ i c, x.2.calls i = some c → c.id = id → c.left = true → x.1.shared.attempts id = none
  | .act (.handler i) (.await ch) => Queues (y.1.thread (.handler i)) = false → ¬ Sends ch y.1
  | _ => True

/-- The goroutine is at a write to the map `attempts`. -/
def Writes : Go Label → Bool
  | .act (.store _ _) _ => true
  | .act (.delete _) _ => true
  | _ => false

/-- As `Punctual`, and `listenEvents`, which has no lock, does not look into the map while a handler
is at a write to it. The runtime ends a process in which a read of a map meets a write. -/
def Apart {n : Nat} (x : AttemptPool n × Ledger n) (e : Concurrent.Event (Thread n) Op)
    (y : AttemptPool n × Ledger n) : Prop :=
  Punctual x e y ∧
    match e with
    | .act .loop (.lookup _) => ∀ i, Writes (x.1.thread (.handler i)) = false
    | _ => True

/-! ## The event loop and its readers -/

/-- The handler has left its loop, and not given up its attempt yet. -/
def HandlerPoint.left : HandlerPoint → Bool
  | .leaving _ _ | .finding _ _ | .closing _ _ _ | .deleting _ _ => true
  | _ => false

/-- What is written down about a handler -/
def Logged (pt : HandlerPoint) (call : Option Call) : Prop :=
  match pt.attempt with
  | none => ∀ c, call = some c → c.left = true
  | some id => ∃ c, call = some c ∧ c.id = id ∧ c.left = pt.left

/-- The event that `listenEvents` has in its hands, and whether it is on offer. -/
def InHand (offers : List (Offer QueueEvent)) (hand : Option QueueEvent) : LoopPoint → Prop
  | .looking e => hand = some e ∧ offers = []
  | .offering e _ => hand = some e ∧ offers = []
  | .sending e ch ticket =>
    (hand = none ∧ offers = []) ∨ (hand = some e ∧ offers = [⟨ticket, ch, e⟩])
  | _ => hand = none ∧ offers = []

/-- What `listenEvents` is sending, and on which channel -/
def toSend (offers : List (Offer QueueEvent)) : LoopPoint → List (QueueEvent × Nat)
  | .offering e ch => [(e, ch)]
  | _ => offers.map fun o => (o.value, o.chan)

/-- Where the handlers are. -/
abbrev handlers {n : Nat} (pts : ∀ t : Thread n, Point t) : Fin n → HandlerPoint :=
  fun i => pts (.handler i)

/-- What holds at every moment of a punctual run. -/
structure Kept {n : Nat} (m : Manager) (pts : ∀ t : Thread n, Point t) (led : Ledger n) :
    Prop where
  books : Books m (handlers pts)
  logged : ∀ i, Logged (pts (.handler i)) (led.calls i)
  inHand : InHand m.chans.offers led.hand (pts .loop)
  reader : ∀ p ∈ toSend m.chans.offers (pts .loop),
    ∃ i, HandlerPoint.reading (pts (.handler i)) = some (p.1.attemptId, p.2)
  running : m.panicked = false

section Ledger

variable {n : Nat} {led : Ledger n} {i j : Fin n}

theorem Ledger.amend_self (f : Call → Call) :
    (led.amend i f).calls i = (led.calls i).map f := update_self ..

theorem Ledger.amend_of_ne (f : Call → Call) (h : j ≠ i) :
    (led.amend i f).calls j = led.calls j := update_of_ne h ..

theorem Call.emit_id (e : QueueEvent) (c : Call) : (c.emit e).id = c.id := by
  unfold Call.emit
  split <;> rfl

theorem Call.emit_left (e : QueueEvent) (c : Call) : (c.emit e).left = c.left := by
  unfold Call.emit
  split <;> rfl

/-- Something else is written down. -/
theorem Logged.map {call : Option Call} (h : Logged pt call)
    (hid : ∀ c, (f c).id = c.id) (hleft : ∀ c, (f c).left = c.left) :
    Logged pt (call.map f) := by
  unfold Logged at *
  split at h
  · intro c hc
    obtain ⟨d, hd, rfl⟩ := Option.map_eq_some_iff.mp hc
    rw [hleft]
    exact h d hd
  · obtain ⟨c, rfl, hc, hl⟩ := h
    exact ⟨f c, rfl, (hid c).trans hc, (hleft c).trans hl⟩

/-- The handler moves on inside of a phase. -/
theorem Logged.move {call : Option Call} (h : Logged pt call)
    (hattempt : pt'.attempt = pt.attempt) (hleft : pt'.left = pt.left) : Logged pt' call := by
  unfold Logged
  rw [hattempt, hleft]
  exact h

/-- The handler leaves its loop. -/
theorem Logged.leave {id ch : Nat} {call : Option Call} (h : Logged (.awaiting id ch) call) :
    Logged (.leaving id ch) (call.map fun c => { c with left := true }) := by
  obtain ⟨c, rfl, hid, -⟩ := h
  exact ⟨_, rfl, hid, rfl⟩

variable {s s' : AttemptPool n}

theorem note_take (hevents : s.shared.events = e :: rest) (hrest : s'.shared.events = rest) :
    note s (Event.of .loop (some .take)) s' led = { led with hand := some e } := by
  unfold note Event.of
  simp only [hevents, hrest]
  exact if_pos (Nat.lt_succ_self _)

theorem note_stop (hevents : s'.shared.events = s.shared.events) :
    note s (Event.of .loop (some .take)) s' led = led := by
  unfold note Event.of
  simp only [hevents, Nat.lt_irrefl, if_false]
  split <;> rfl

theorem note_drop {id : Nat} (hnone : s.shared.attempts id = none) :
    note s (Event.of .loop (some (.lookup id))) s' led = { led with hand := none } := by
  unfold note Event.of
  simp only [hnone]
  rfl

theorem note_find {id ch : Nat} (hfound : s.shared.attempts id = some ch) :
    note s (Event.of .loop (some (.lookup id))) s' led = led := by
  unfold note Event.of
  simp only [hfound]
  rfl

theorem note_refuse (hrefused : Refused (s'.thread (.handler i)) = true) :
    note s (Event.of (.handler i) (some .join)) s' led = led := if_pos hrefused

theorem note_join (hjoined : Refused (s'.thread (.handler i)) = false) :
    note s (Event.of (.handler i) (some .join)) s' led =
      { led with
        calls := update led.calls i (some ⟨s.shared.created, false, [], []⟩) } :=
  if_neg (by rw [hjoined]; nofun)

theorem note_await (hoffers : s'.shared.chans.offers = s.shared.chans.offers) :
    note s (Event.of (.handler i) (some (.await ch))) s' led =
      if Queues (s'.thread (.handler i)) then led
      else led.amend i fun c => { c with left := true } := by
  unfold note Event.of
  simp only [hoffers, Nat.lt_irrefl, if_false]
  cases s.shared.chans.first ch <;> rfl

theorem note_await_take (hfirst : s.shared.chans.first ch = some o)
    (hoffers : s'.shared.chans.offers.length < s.shared.chans.offers.length) :
    note s (Event.of (.handler i) (some (.await ch))) s' led =
      if Queues (s'.thread (.handler i)) then led.receive i o.value
      else (led.receive i o.value).amend i fun c => { c with left := true } := by
  unfold note Event.of
  simp only [hfirst, hoffers, if_true]

end Ledger

section Kept

variable {n : Nat} {m m' : Manager} {pts pts' : ∀ t : Thread n, Point t} {led led' : Ledger n}
  {s s' : AttemptPool n}

theorem HandlerPoint.reading_or_left {pt : HandlerPoint}
    (h : pt.entry = some p) : pt.reading = some p ∨ pt.left = true := by
  cases pt <;> cases h <;> first | exact .inl rfl | exact .inr rfl

theorem update_handler (pts : ∀ t : Thread n, Point t) (i : Fin n) (pt : HandlerPoint) :
    handlers (update pts (.handler i) pt) = update (handlers pts) i pt :=
  update_comp_eq_of_injective' pts (fun _ _ => Thread.handler.inj) i pt

/-- A reader has a channel that is open. -/
theorem Kept.open_of_toSend (h : Kept m pts led) (hp : p ∈ toSend m.chans.offers (pts .loop)) :
    m.chans.closed p.2 = false := by
  obtain ⟨i, hi⟩ := h.reader p hp
  exact h.books.live (HandlerPoint.of_reading hi).2

/-- What `listenEvents` is sending is visible from outside. -/
theorem sends_of_toSend (hm : s.shared = m) (hat : s.At progAt pts)
    (hp : p ∈ toSend m.chans.offers (pts .loop)) : Sends p.2 s := by
  have hloop := hat .loop
  generalize pts .loop = lp at hp hloop
  cases lp with
  | offering e ch =>
    cases List.mem_singleton.mp hp
    exact .inl ⟨e, _, hloop⟩
  | _ =>
    obtain ⟨o, ho, rfl⟩ := List.mem_map.mp hp
    exact .inr ⟨o, hm ▸ ho, rfl⟩

/-- The event on offer is the one in the hands of `listenEvents`. -/
theorem InHand.of_mem {lp : LoopPoint} (h : InHand offers hand lp) (ho : o ∈ offers) :
    offers = [o] ∧ hand = some o.value ∧ lp = .sending o.value o.chan o.ticket := by
  cases lp with
  | sending e ch ticket =>
    rcases h with ⟨-, hnone⟩ | ⟨hhand, hone⟩
    · rw [hnone] at ho
      cases ho
    · rw [hone] at ho
      cases List.mem_singleton.mp ho
      exact ⟨hone, hhand, rfl⟩
  | _ =>
    rw [h.2] at ho
    cases ho

section

variable (h : Kept m pts led)
include h

/-- Steps of `listenEvents` -/
theorem Kept.loop {lp : LoopPoint} (hm : s.shared = m)
    (hm' : s'.shared = m') (hmoves : LoopMoves m (pts .loop) a m' lp)
    (hcond : ∀ id, a = some (.lookup id) → ∀ i c, led.calls i = some c → c.id = id →
      c.left = true → m.attempts id = none) :
    Kept m' (update pts .loop lp) (note s (Event.of .loop a) s' led) := by
  -- `listenEvents` does not touch the books of the handlers
  have hkept : ∀ {m' : Manager} {led' : Ledger n} {lp : LoopPoint}, m'.created = m.created →
      m.chans.next ≤ m'.chans.next → m'.attempts = m.attempts →
      m'.chans.closed = m.chans.closed → m'.panicked = m.panicked → led'.calls = led.calls →
      InHand m'.chans.offers led'.hand lp →
      (∀ p ∈ toSend m'.chans.offers lp,
        ∃ i, HandlerPoint.reading (pts (.handler i)) = some (p.1.attemptId, p.2)) →
      Kept m' (update pts .loop lp) led' := by
    intro m' led' lp hcreated hnext hattempts hclosed hpanicked hcalls hhand hreader
    exact ⟨h.books.elsewhere hcreated hnext hattempts hclosed, fun i => hcalls ▸ h.logged i, hhand,
      hreader, hpanicked.trans h.running⟩
  have hhand := h.inHand
  have hreader := h.reader
  have hopen : ∀ p ∈ toSend m.chans.offers (pts .loop), m.chans.closed p.2 = false :=
    fun p hp => h.open_of_toSend hp
  generalize pts .loop = lp₀ at hmoves hhand hreader hopen
  cases hmoves with
  | start => exact hkept rfl (Nat.le_refl _) rfl rfl rfl rfl hhand hreader
  | @take e rest hevents =>
    rw [note_take (hm ▸ hevents) (by rw [hm'])]
    exact hkept rfl (Nat.le_refl _) rfl rfl rfl rfl ⟨rfl, hhand.2⟩ hreader
  | stop =>
    rw [note_stop (by rw [hm, hm'])]
    exact hkept rfl (Nat.le_refl _) rfl rfl rfl rfl hhand hreader
  | @drop e hnone =>
    rw [note_drop (hm ▸ hnone)]
    exact hkept rfl (Nat.le_refl _) rfl rfl rfl rfl ⟨rfl, hhand.2⟩ hreader
  | @find e ch hfound =>
    rw [note_find (hm ▸ hfound)]
    refine hkept rfl (Nat.le_refl _) rfl rfl rfl rfl hhand ?_
    intro p hp
    cases List.mem_singleton.mp hp
    obtain ⟨i, hi⟩ := h.books.only hfound
    refine ⟨i, ?_⟩
    rcases HandlerPoint.reading_or_left hi with hreads | hleft
    · exact hreads
    · -- the handler has left, and its attempt is still in the map
      have hlogged := h.logged i
      unfold Logged at hlogged
      rw [show HandlerPoint.attempt (pts (.handler i)) = _ from (HandlerPoint.of_entry hi).1]
        at hlogged
      obtain ⟨c, hc, hid, hcleft⟩ := hlogged
      have hgone := hcond _ rfl i c hc hid (hcleft.trans hleft)
      rw [hfound] at hgone
      cases hgone
  | @offer e ch hclosed =>
    refine hkept rfl (Nat.le_succ _) rfl rfl rfl rfl (.inr ⟨hhand.1, ?_⟩) ?_
    · show m.chans.offers ++ _ = _
      rw [hhand.2]
      rfl
    · intro p hp
      obtain ⟨o, ho, rfl⟩ := List.mem_map.mp hp
      rw [show (m.chans.offer ch e).offers = m.chans.offers ++ _ from rfl, hhand.2] at ho
      cases List.mem_singleton.mp ho
      exact hreader _ (List.mem_singleton.mpr rfl)
  | @sent e ch ticket hgone =>
    have hnone : led.hand = none ∧ m.chans.offers = [] := by
      rcases hhand with hnone | ⟨-, hone⟩
      · exact hnone
      · have ho : (⟨ticket, ch, e⟩ : Offer QueueEvent) ∈ m.chans.offers := by
          rw [hone]
          exact List.mem_singleton.mpr rfl
        exact absurd rfl (Channels.ne_of_not_standing hgone ho)
    exact hkept rfl (Nat.le_refl _) rfl rfl rfl rfl hnone hreader
  | @offerClosed e ch _ hclosed =>
    rw [hopen (e, ch) (List.mem_singleton.mpr rfl)] at hclosed
    cases hclosed
  | @sentClosed e ch ticket o _ ho hclosed =>
    obtain ⟨hmem, -⟩ := Channels.mem_of_standing ho
    rw [hopen (o.value, o.chan) (List.mem_map.mpr ⟨o, hmem, rfl⟩)] at hclosed
    cases hclosed

/-- Steps of the call centre -/
theorem Kept.center
    (hmoves : CenterMoves m (pts .center) a m' cp) :
    Kept m' (update pts .center cp) (note s (Event.of .center a) s' led) := by
  generalize pts .center = cp₀ at hmoves
  cases hmoves with
  | start => exact ⟨h.books, h.logged, h.inHand, h.reader, h.running⟩
  | @emit e hcreated =>
    exact ⟨h.books.elsewhere rfl (Nat.le_refl _) rfl rfl,
      fun i => (h.logged i).map (Call.emit_id e) (Call.emit_left e), h.inHand, h.reader, h.running⟩

theorem Kept.logged_update (hothers : ∀ j, j ≠ i → led'.calls j = led.calls j)
    (hlogged : Logged pt (led'.calls i)) (j : Fin n) :
    Logged (update pts (.handler i) pt (.handler j)) (led'.calls j) := by
  by_cases hji : j = i
  · subst hji
    rw [update_self]
    exact hlogged
  · rw [update_of_ne (by simpa using hji), hothers j hji]
    exact h.logged j

/-- A handler moves; what is on offer and what `listenEvents` has in its hands stay the same. -/
theorem Kept.stay (hbooks : Books m' (update (handlers pts) i pt))
    (hrunning : m'.panicked = false) (hoffers : m'.chans.offers = m.chans.offers)
    (hhand : led'.hand = led.hand) (hothers : ∀ j, j ≠ i → led'.calls j = led.calls j)
    (hlogged : Logged pt (led'.calls i)) (hreads : ∀ p ∈ toSend m.chans.offers (pts .loop),
      HandlerPoint.reading (pts (.handler i)) = some (p.1.attemptId, p.2) →
        pt.reading = some (p.1.attemptId, p.2)) :
    Kept m' (update pts (.handler i) pt) led' := by
  refine ⟨by rwa [update_handler], h.logged_update hothers hlogged, ?_, ?_, hrunning⟩
  · rw [hoffers, hhand]
    exact h.inHand
  · rw [hoffers]
    intro p hp
    obtain ⟨j, hj⟩ := h.reader p hp
    refine ⟨j, ?_⟩
    by_cases hji : j = i
    · subst hji
      rw [update_self]
      exact hreads p hp hj
    · rw [update_of_ne (by simpa using hji)]
      exact hj

/-- A handler takes the event that is on offer. -/
theorem Kept.receive
    (hmem : o ∈ m.chans.offers)
    (hbooks : Books { m with chans := m.chans.withdraw o.ticket }
      (update (handlers pts) i pt)) (hhand : led'.hand = none)
    (hothers : ∀ j, j ≠ i → led'.calls j = led.calls j) (hlogged : Logged pt (led'.calls i)) :
    Kept { m with chans := m.chans.withdraw o.ticket } (update pts (.handler i) pt)
      led' := by
  have hloop : update pts (.handler i) pt .loop = pts .loop := rfl
  obtain ⟨hone, -, hsending⟩ := h.inHand.of_mem hmem
  have hnone : (m.chans.withdraw o.ticket).offers = [] := by
    show m.chans.offers.filter _ = []
    rw [hone]
    simp
  refine ⟨by rwa [update_handler], h.logged_update hothers hlogged, ?_, ?_, h.running⟩
  · rw [hloop, hsending, hhand]
    exact .inl ⟨rfl, hnone⟩
  · rw [hloop, hsending, hnone]
    exact nofun

/-- Steps of a handler -/
theorem Kept.handler
    (hm : s.shared = m) (hm' : s'.shared = m')
    (hat' : s'.At progAt (update pts (.handler i) pt))
    (hmoves : HandlerMoves m (pts (.handler i)) a m' pt)
    (hcond : ∀ ch, a = some (.await ch) → Queues (s'.thread (.handler i)) = false →
      ¬ Sends ch s') :
    Kept m' (update pts (.handler i) pt) (note s (Event.of (.handler i) a) s' led) := by
  obtain ⟨hbooks, hpanicked⟩ := h.books.handler hmoves
  have hrunning : m'.panicked = false := hpanicked.trans h.running
  have hlogged := h.logged i
  have hthread : s'.thread (.handler i) = pt.prog := by
    rw [hat' (.handler i), update_self]
    rfl
  -- most steps are not written down
  have hquiet : ∀ {m' : Manager} {pt : HandlerPoint},
      Books m' (update (handlers pts) i pt) → m'.panicked = false →
      m'.chans.offers = m.chans.offers → Logged pt (led.calls i) →
      (∀ q, HandlerPoint.reading (pts (.handler i)) = some q → pt.reading = some q) →
      Kept m' (update pts (.handler i) pt) led := by
    intro m' pt hbooks hrunning hoffers hlogged hreads
    exact h.stay hbooks hrunning hoffers rfl (fun _ _ => rfl) hlogged fun p _ => hreads _
  have hoffers : m' = m → s'.shared.chans.offers = s.shared.chans.offers := by
    rintro rfl
    rw [hm, hm']
  generalize hpt : pts (.handler i) = pt₀ at hmoves hlogged hquiet
  cases hmoves with
  | start | enter | look | adopt | absent | make | relock | store | leave | find | close
  | finish => exact hquiet hbooks hrunning rfl (hlogged.move rfl rfl) nofun
  | refuse =>
    rw [note_refuse (by rw [hthread]; rfl)]
    exact hquiet hbooks hrunning rfl (hlogged.move rfl rfl) nofun
  | join =>
    rw [note_join (by rw [hthread]; rfl), hm]
    refine h.stay hbooks hrunning rfl rfl (fun j hji => update_of_ne hji ..) ?_ ?_
    · exact ⟨_, update_self .., rfl, rfl⟩
    · intro p _ hp
      rw [hpt] at hp
      cases hp
  | unlock | round => exact hquiet hbooks hrunning rfl (hlogged.move rfl rfl) fun _ => id
  | @quit id ch =>
    have hleaves : Queues (s'.thread (.handler i)) = false := by
      rw [hthread]
      rfl
    rw [note_await (hoffers rfl), if_neg (by rw [hleaves]; nofun)]
    refine h.stay hbooks hrunning rfl rfl (fun j hji => Ledger.amend_of_ne _ hji) ?_ ?_
    · rw [Ledger.amend_self]
      exact hlogged.leave
    · -- nothing is being sent to a handler that leaves
      intro p hp hreads
      rw [hpt] at hreads
      cases hreads
      refine absurd (sends_of_toSend hm' hat' ?_) (hcond _ rfl hleaves)
      exact hp
  | @take id ch o hfirst hstays =>
    obtain ⟨hmem, -⟩ := Channels.mem_of_first hfirst
    have hqueues : Queues (s'.thread (.handler i)) = true := by
      rw [hthread]
      rfl
    rw [note_await_take (hm ▸ hfirst) (by rw [hm, hm']; exact Channels.length_withdraw_lt hmem),
      if_pos hqueues]
    refine h.receive hmem hbooks rfl (fun j hji => Ledger.amend_of_ne _ hji) ?_
    show Logged _ ((led.amend i _).calls i)
    rw [Ledger.amend_self]
    exact (hlogged.move rfl rfl).map (fun _ => rfl) fun _ => rfl
  | @takeLast id ch o hfirst hleaving =>
    obtain ⟨hmem, -⟩ := Channels.mem_of_first hfirst
    have hleaves : Queues (s'.thread (.handler i)) = false := by
      rw [hthread]
      rfl
    rw [note_await_take (hm ▸ hfirst) (by rw [hm, hm']; exact Channels.length_withdraw_lt hmem),
      if_neg (by rw [hleaves]; nofun)]
    refine h.receive hmem hbooks rfl ?_ ?_
    · intro j hji
      exact (Ledger.amend_of_ne _ hji).trans (Ledger.amend_of_ne _ hji)
    · show Logged _ (((led.receive i o.value).amend i _).calls i)
      rw [Ledger.amend_self]
      show Logged _ (((led.amend i _).calls i).map _)
      rw [Ledger.amend_self]
      exact (hlogged.map (f := fun c => { c with got := c.got ++ [o.value] }) (fun _ => rfl)
        fun _ => rfl).leave
  | @drain id ch hclosed =>
    have hqueues : Queues (s'.thread (.handler i)) = true := by
      rw [hthread]
      rfl
    rw [note_await (hoffers rfl), if_pos hqueues]
    exact hquiet hbooks hrunning rfl (hlogged.move rfl rfl) fun _ hq => hq
  | miss | delete =>
    refine hquiet hbooks hrunning rfl ?_ nofun
    obtain ⟨c, hc, -, hleft⟩ := hlogged
    intro d hd
    rw [hc] at hd
    cases hd
    exact hleft
  | closeClosed => cases hrunning

end

theorem Kept.keep (hm : s.shared = m) (hm' : s'.shared = m') (hat' : s'.At progAt pts')
    (hmoves : Moving moves m pts e m' pts') (h : Kept m pts led)
    (hcond : Punctual (s, led) e (s', note s e s' led)) : Kept m' pts' (note s e s' led) := by
  cases hmoves with
  | @move t a m' pt hmoves =>
    cases t with
    | loop =>
      refine h.loop hm hm' hmoves ?_
      rintro id rfl i c hc hid hleft
      rw [← hm]
      exact hcond i c hc hid hleft
    | center => exact h.center hmoves
    | handler i =>
      refine h.handler hm hm' hat' hmoves ?_
      rintro ch rfl
      exact hcond

end Kept

/-- Everybody is at rest. -/
def atRest {n : Nat} : (t : Thread n) → Point t
  | .loop => .listening
  | .center => .idle
  | .handler _ => .idle

theorem at_started (n : Nat) : (started n).At progAt atRest := by
  intro t
  cases t <;> rfl

theorem kept_started (n : Nat) : Kept (started n).shared atRest (Ledger.empty n) where
  books := ⟨⟨nofun, nofun⟩, ⟨nofun, nofun⟩, nofun, nofun, nofun, fun _ => trivial⟩
  logged _ := nofun
  inHand := ⟨rfl, rfl⟩
  reader := nofun
  running := rfl

/-- `joinQueue` is in its loop, or comes to it. -/
def Reads (id ch : Nat) (p : Go Label) : Prop :=
  p = .ret (.queued id ch) ∨ p = awaitEvent id ch ∨
    p = .act .unlock fun _ => .ret (.queued id ch)

theorem HandlerPoint.reads_of_reading {pt : HandlerPoint} {id ch : Nat}
    (h : pt.reading = some (id, ch)) : Reads id ch pt.prog := by
  cases pt <;> cases h
  · exact .inr (.inr rfl)
  · exact .inl rfl
  · exact .inr (.inl rfl)

/-- A send of `listenEvents` that has not ended: its channel is open, the handler of the attempt
reads it, and its `select` can take the event. -/
def Attended {n : Nat} (s : AttemptPool n) (o : Offer QueueEvent) : Prop :=
  s.shared.chans.closed o.chan = false ∧
    (∃ i, Reads o.value.attemptId o.chan (s.thread (.handler i))) ∧
    ∀ w : Outside, w.leave = .event → exec w (.await o.chan) s.shared =
      some (.event o.value, { s.shared with chans := s.shared.chans.withdraw o.ticket })

theorem Kept.attended
    (h : Kept s.shared pts led) (hat : s.At progAt pts)
    (ho : o ∈ s.shared.chans.offers) : Attended s o := by
  obtain ⟨hone, -, hsending⟩ := h.inHand.of_mem ho
  have hsend : (o.value, o.chan) ∈ toSend s.shared.chans.offers (pts .loop) := by
    rw [hsending]
    exact List.mem_map.mpr ⟨o, ho, rfl⟩
  refine ⟨h.open_of_toSend hsend, ?_, ?_⟩
  · obtain ⟨i, hi⟩ := h.reader _ hsend
    refine ⟨i, ?_⟩
    rw [hat (.handler i)]
    exact HandlerPoint.reads_of_reading hi
  · intro w hw
    have hfirst : s.shared.chans.first o.chan = some o := by
      unfold Channels.first
      rw [hone]
      simp
    simp only [exec, attempt, h.running, hw, hfirst]
    rfl

/-- In every interleaving of `listenEvents` with a call centre and any number of handlers that
join queues and leave them, in which `listenEvents` looks into the map while nobody writes to it,
and looks up the attempt of a handler that has left only when it has been removed, and in which no
handler leaves while `listenEvents` is sending to it: nothing is sent on a closed channel and no
channel is closed twice, and `listenEvents` waits to send only on an open channel whose handler
reads it. -/
theorem attended_of_apart {n : Nat} {ok : Prop} {x : AttemptPool n × Ledger n}
    (h : Trace.Steps (Recorded attempts note) Apart (started n, Ledger.empty n) ok x)
    (hok : ok) :
    x.1.shared.panicked = false ∧ ∀ o ∈ x.1.shared.chans.offers, Attended x.1 o := by
  obtain ⟨pts, hat, hkept⟩ : ∃ pts, x.1.At progAt pts ∧ Kept x.1.shared pts x.2 :=
    (attempts_outline n).run h hok (at_started n) (kept_started n)
      fun hm hm' _ hat' hmoves hinv hcond => hinv.keep hm hm' hat' hmoves hcond.1
  exact ⟨hkept.running, fun o ho => hkept.attended hat ho⟩

/-! ## Schedules -/

/-- The handler moves. -/
def handles (leave : Leave) (moves : Nat) : List (Thread 1 × Outside) :=
  List.replicate moves (.handler 0, ⟨⟨0, "", ""⟩, true, leave, false⟩)

/-- The event loop moves. -/
def listens (moves : Nat) : List (Thread 1 × Outside) :=
  List.replicate moves (.loop, ⟨⟨0, "", ""⟩, true, .event, false⟩)

/-- The call centre emits an event of the first attempt. -/
def emits (event : String) : List (Thread 1 × Outside) :=
  List.replicate 2 (.center, ⟨⟨0, event, "done"⟩, true, .event, false⟩)

/-- The handler joins, and adds its channel. -/
def joins : List (Thread 1 × Outside) := handles .event 9

/-- Two events are emitted, and received by the handler. -/
def served : List (Thread 1 × Outside) :=
  joins ++ emits "bridged" ++ emits "leaving" ++ listens 4 ++ handles .event 2 ++ listens 5

instance (ch : Nat) (p : Go Label) : Decidable (∃ e k, p = .act (.offer ch e) k) := by
  cases p with
  | ret => exact .isFalse nofun
  | act a k =>
    cases a with
    | offer c e =>
      refine decidable_of_iff (c = ch) ⟨?_, ?_⟩
      · rintro rfl
        exact ⟨e, k, rfl⟩
      · rintro ⟨e', k', h⟩
        cases h
        rfl
    | _ => exact .isFalse nofun

instance {n : Nat} (x : AttemptPool n × Ledger n) (e : Concurrent.Event (Thread n) Op)
    (y : AttemptPool n × Ledger n) : Decidable (Punctual x e y) := by
  unfold Punctual Sends
  split <;> infer_instance

instance {n : Nat} (x : AttemptPool n × Ledger n) (e : Concurrent.Event (Thread n) Op)
    (y : AttemptPool n × Ledger n) : Decidable (Apart x e y) := by
  unfold Apart
  split <;> infer_instance

/-- The handler has received the first event, and reads while the second one is sent. -/
theorem attended_of_apart_served :
    ∃ x, Trace.play (Pool.record attempts note) served (started 1, Ledger.empty 1) = some x ∧
      x.1.shared.chans.offers.map Offer.value = [⟨0, "leaving", "done"⟩] ∧
        x.1.shared.panicked = false ∧ ∀ o ∈ x.1.shared.chans.offers, Attended x.1 o := by
  obtain ⟨x, hx, hoffers, ok, hsteps, hok⟩ := Pool.reaches_record attempts note
    (fun x e y => of_decide_eq_true (p := Apart x e y)) served (started 1, Ledger.empty 1)
    (fun x => x.1.shared.chans.offers.map Offer.value = [⟨0, "leaving", "done"⟩])
    (by decide +kernel)
  exact ⟨x, hx, hoffers, attended_of_apart hsteps hok⟩

/-- The context of the handler ends after its channel has been looked up. -/
def abandoned : List (Thread 1 × Outside) :=
  joins ++ emits "bridged" ++ listens 3 ++ handles .done 5

/-- The event is sent on a closed channel. -/
theorem attended_of_apart_abandoned :
    ∃ ok x, Trace.Steps (Recorded attempts note) Apart (started 1, Ledger.empty 1) ok x ∧
      x.1.shared.panicked = true := by
  obtain ⟨x, -, hpanicked, ok, hsteps⟩ := Trace.reaches (Pool.record_step attempts note) Apart
    (abandoned ++ listens 1) (started 1, Ledger.empty 1) (fun x => x.1.shared.panicked = true)
    (by decide +kernel)
  exact ⟨ok, x, hsteps, hpanicked⟩

end FlowManager.Cc
