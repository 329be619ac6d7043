import FlowManager.Cc.Dispatch

/-!
# Events that are received

The number of an attempt is known only when the request for it has been answered, so the channel
of the handler is added to the map after the call centre may have emitted events. Besides, a
handler may leave while events of its attempt are on the way.

- `Attentive`: no event is looked up too early, and no handler leaves too early.
- `Heard`: what was emitted for an attempt is what has been received and what is on the way.
- `heard_of_attentive`: in an attentive run no event is lost.
-/

namespace FlowManager.Cc

open Concurrent Function

/-- As `Punctual`, and `listenEvents` looks up the attempt of a handler only when the handler has
added it, and a handler does not leave while an event of its attempt is on the way. -/
def Attentive {n : Nat} (x : AttemptPool n × Ledger n) (e : Concurrent.Event (Thread n) Op)
    (y : AttemptPool n × Ledger n) : Prop :=
  Punctual x e y ∧
    match e with
    | .act .loop (.lookup id) =>
      ∀ i c, x.2.calls i = some c → c.id = id → c.left = false →
        (x.1.shared.attempts id).isSome = true
    | .act (.handler i) (.await _) =>
      Queues (y.1.thread (.handler i)) = false → ∀ c, y.2.calls i = some c →
        ∀ ev ∈ y.2.hand.toList ++ y.1.shared.events, ev.attemptId ≠ c.id
    | _ => True

/-- The events that have been emitted and not been received -/
def onTheWay {n : Nat} (m : Manager) (led : Ledger n) : List QueueEvent :=
  led.hand.toList ++ m.events

/-- The account of a call: what has been emitted for its attempt has been received, or is on the
way as long as the handler has not left. -/
def Call.Settled (c : Call) (way : List QueueEvent) : Prop :=
  if c.left then c.got = c.due
  else c.due = c.got ++ way.filter fun e => e.attemptId = c.id

/-- What holds at every moment of an attentive run, besides `Kept`. -/
structure Heard {n : Nat} (m : Manager) (led : Ledger n) : Prop where
  known : ∀ e ∈ onTheWay m led, e.attemptId < m.created
  settled : ∀ i c, led.calls i = some c → c.Settled (onTheWay m led)

section Heard

variable {n : Nat} {m m' : Manager} {pts pts' : ∀ t : Thread n, Point t} {led led' : Ledger n}
  {s s' : AttemptPool n}

section

variable {c : Call} {e : QueueEvent} {way : List QueueEvent} (h : c.Settled (e :: way))
include h

/-- An event of no open call is no more on the way. -/
theorem Call.Settled.drop (hother : c.left = false → e.attemptId ≠ c.id) : c.Settled way := by
  unfold Call.Settled at *
  cases hleft : c.left with
  | true =>
    rw [hleft] at h
    exact h
  | false =>
    rw [hleft, if_neg nofun, List.filter_cons_of_neg (by simpa using hother hleft)] at h
    exact h

/-- The next event is received. -/
theorem Call.Settled.receive (hopen : c.left = false) (hown : e.attemptId = c.id) :
    Call.Settled { c with got := c.got ++ [e] } way := by
  unfold Call.Settled at *
  rw [hopen, if_neg nofun, List.filter_cons_of_pos (by simpa using hown)] at h
  rw [if_neg (by simp [hopen])]
  rw [h, List.append_assoc]
  rfl

end

/-- The handler leaves, and nothing of its attempt is on the way. -/
theorem Call.Settled.leave {c : Call} (h : c.Settled way)
    (hopen : c.left = false) (hnone : ∀ e ∈ way, e.attemptId ≠ c.id) :
    Call.Settled { c with left := true } way := by
  unfold Call.Settled at *
  rw [hopen, if_neg nofun, List.filter_eq_nil_iff.mpr (by simpa using hnone),
    List.append_nil] at h
  exact h.symm

/-- An event is emitted. -/
theorem Call.Settled.emit {c : Call} (h : c.Settled way)
    (e : QueueEvent) : (c.emit e).Settled (way ++ [e]) := by
  unfold Call.Settled at *
  rw [Call.emit_left, Call.emit_id, List.filter_append]
  cases hleft : c.left with
  | true =>
    have hsame : c.emit e = c := if_neg fun hand => by rw [hleft] at hand; cases hand.2
    rw [hleft] at h
    rw [hsame]
    exact h
  | false =>
    rw [hleft, if_neg nofun] at h
    by_cases hid : c.id = e.attemptId
    · have hdue : c.emit e = { c with due := c.due ++ [e] } := if_pos ⟨hid, hleft⟩
      rw [hdue, List.filter_cons_of_pos (by simp [hid])]
      rw [h, List.append_assoc]
      rfl
    · have hsame : c.emit e = c := if_neg fun hand => hid hand.1
      rw [hsame, List.filter_cons_of_neg (by simpa using fun h => hid h.symm), List.filter_nil,
        List.append_nil]
      exact h

/-- A call that is open is of a handler that has its attempt. -/
theorem Logged.attempt_of_open {call : Option Call}
    (h : Logged pt call) (hc : call = some c) (hopen : c.left = false) :
    pt.attempt = some c.id := by
  unfold Logged at h
  split at h
  · rw [h c hc] at hopen
    cases hopen
  · rename_i id hattempt
    obtain ⟨d, hd, hid, -⟩ := h
    rw [hc] at hd
    cases hd
    rw [hattempt, hid]

section

variable (h : Heard m led)
include h

/-- What is on the way stays on the way. -/
theorem Heard.frame (hcreated : m.created ≤ m'.created)
    (hcalls : led'.calls = led.calls) (hway : onTheWay m' led' = onTheWay m led) :
    Heard m' led' := by
  constructor
  · intro e he
    rw [hway] at he
    exact Nat.lt_of_lt_of_le (h.known e he) hcreated
  · intro i c hc
    rw [hcalls] at hc
    rw [hway]
    exact h.settled i c hc

/-- Steps of `listenEvents` -/
theorem Heard.loop {lp lp' : LoopPoint}
    (hhand : InHand m.chans.offers led.hand lp) (hm : s.shared = m) (hm' : s'.shared = m')
    (hmoves : LoopMoves m lp a m' lp')
    (hcond : ∀ id, a = some (.lookup id) → ∀ i c, led.calls i = some c → c.id = id →
      c.left = false → (m.attempts id).isSome = true) :
    Heard m' (note s (Event.of .loop a) s' led) := by
  cases hmoves with
  | start | sent => exact h
  | @take e rest hevents =>
    rw [note_take (hm ▸ hevents) (by rw [hm'])]
    -- the event goes from the stream into the hands of the loop
    refine h.frame (Nat.le_refl _) rfl ?_
    rw [onTheWay, onTheWay, hhand.1, hevents]
    rfl
  | stop =>
    rw [note_stop (by rw [hm, hm'])]
    exact h
  | @drop e hnone =>
    rw [note_drop (hm ▸ hnone)]
    have hway : onTheWay m led = e :: m.events := by
      rw [onTheWay, hhand.1]
      rfl
    constructor
    · intro ev hev
      refine h.known ev ?_
      rw [hway]
      exact List.mem_cons_of_mem _ hev
    · intro i c hc
      refine Call.Settled.drop (e := e) (hway ▸ h.settled i c hc) ?_
      -- the attempt of an open call would have been found
      intro hopen hid
      have hsome := hcond _ rfl i c hc hid.symm hopen
      rw [hnone] at hsome
      cases hsome
  | @find e ch hfound =>
    rw [note_find (hm ▸ hfound)]
    exact h
  | offer | offerClosed | sentClosed => exact h.frame (Nat.le_refl _) rfl rfl

/-- Steps of the call centre -/
theorem Heard.center (hmoves : CenterMoves m cp a m' cp') :
    Heard m' (note s (Event.of .center a) s' led) := by
  cases hmoves with
  | start => exact h
  | @emit e hcreated =>
    have hway : onTheWay { m with events := m.events ++ [e] }
        (note s (Event.of .center (some (.emit e))) s' led) = onTheWay m led ++ [e] :=
      (List.append_assoc ..).symm
    constructor
    · intro ev hev
      rw [hway] at hev
      rcases List.mem_append.mp hev with hev | hev
      · exact h.known ev hev
      · rw [List.mem_singleton.mp hev]
        exact hcreated
    · intro i c hc
      obtain ⟨d, hd, rfl⟩ := Option.map_eq_some_iff.mp hc
      rw [hway]
      exact (h.settled i d hd).emit e

/-- A handler receives the event on offer. It is the handler of the event's attempt, and no other
open call is of this attempt. -/
theorem Heard.receive (hkept : Kept m pts led) {id ch : Nat}
    (hpt : pts (.handler i) = HandlerPoint.awaiting id ch)
    (hfirst : m.chans.first ch = some o) :
    Heard { m with chans := m.chans.withdraw o.ticket } (led.receive i o.value) ∧
      ∀ c, (led.receive i o.value).calls i = some c → c.left = false := by
  obtain ⟨hmem, hchan⟩ := Channels.mem_of_first hfirst
  obtain ⟨-, hhand, hsending⟩ := hkept.inHand.of_mem hmem
  have hway : onTheWay m led = o.value :: m.events := by
    rw [onTheWay, hhand]
    rfl
  -- the event loop has looked the channel up under the attempt of the event
  have hown : o.value.attemptId = id := by
    obtain ⟨j, hj⟩ := hkept.reader (o.value, o.chan) (by
      rw [hsending]
      exact List.mem_map.mpr ⟨o, hmem, rfl⟩)
    have hchans : HandlerPoint.chan (pts (.handler j)) = some ch := by
      rw [← hchan]
      exact (HandlerPoint.of_entry (HandlerPoint.of_reading hj).1).2
    have hji : j = i := hkept.books.chans.inj hchans
      (show HandlerPoint.chan (pts (.handler i)) = some ch by rw [hpt]; rfl)
    rw [hji, hpt] at hj
    cases hj
    rfl
  have hlogged := hkept.logged i
  rw [hpt] at hlogged
  obtain ⟨c, hc, hcid, hcleft⟩ := hlogged
  have hself : (led.receive i o.value).calls i = some { c with got := c.got ++ [o.value] } := by
    show (led.amend i _).calls i = _
    rw [Ledger.amend_self, hc]
    rfl
  refine ⟨⟨?_, ?_⟩, ?_⟩
  · intro ev hev
    refine h.known ev ?_
    rw [hway]
    exact List.mem_cons_of_mem _ hev
  · intro j d hd
    by_cases hji : j = i
    · subst hji
      rw [hself] at hd
      cases hd
      exact Call.Settled.receive (hway ▸ h.settled j c hc) hcleft (hown.trans hcid.symm)
    · have hd' : led.calls j = some d := (Ledger.amend_of_ne _ hji).symm.trans hd
      refine Call.Settled.drop (e := o.value) (hway ▸ h.settled j d hd') ?_
      intro hopen hid
      refine hji (hkept.books.ids.inj ((hkept.logged j).attempt_of_open hd' hopen) ?_)
      show HandlerPoint.attempt (pts (.handler i)) = _
      rw [hpt, ← hid, hown]
      rfl
  · intro d hd
    rw [hself] at hd
    cases hd
    exact hcleft

/-- A handler leaves its loop. -/
theorem Heard.leave {i : Fin n} (hopen : ∀ c, led.calls i = some c → c.left = false)
    (hnone : ∀ c, led.calls i = some c → ∀ e ∈ onTheWay m led, e.attemptId ≠ c.id) :
    Heard m (led.amend i fun c => { c with left := true }) := by
  refine ⟨h.known, ?_⟩
  intro j d hd
  by_cases hji : j = i
  · subst hji
    rw [Ledger.amend_self] at hd
    obtain ⟨c, hc, rfl⟩ := Option.map_eq_some_iff.mp hd
    exact (h.settled j c hc).leave (hopen c hc) (hnone c hc)
  · rw [Ledger.amend_of_ne _ hji] at hd
    exact h.settled j d hd

/-- Steps of a handler -/
theorem Heard.handler (hkept : Kept m pts led) (hm : s.shared = m)
    (hm' : s'.shared = m') (hthread : s'.thread (.handler i) = pt.prog)
    (hmoves : HandlerMoves m (pts (.handler i)) a m' pt)
    (hcond : ∀ ch, a = some (.await ch) → Queues (s'.thread (.handler i)) = false →
      ∀ c, (note s (Event.of (.handler i) a) s' led).calls i = some c →
        ∀ e ∈ onTheWay m' (note s (Event.of (.handler i) a) s' led), e.attemptId ≠ c.id) :
    Heard m' (note s (Event.of (.handler i) a) s' led) := by
  have hlogged := hkept.logged i
  generalize hpt : pts (.handler i) = pt₀ at hmoves hlogged
  cases hmoves with
  | start => exact h
  | refuse =>
    rw [note_refuse (by rw [hthread]; rfl)]
    exact h.frame (Nat.le_succ _) rfl rfl
  | join =>
    rw [note_join (by rw [hthread]; rfl), hm]
    constructor
    · intro e he
      exact Nat.lt_succ_of_lt (h.known e he)
    · intro j c hc
      by_cases hji : j = i
      · -- no event of a new attempt is on the way
        subst hji
        cases (update_self ..).symm.trans hc
        refine (List.filter_eq_nil_iff.mpr ?_).symm
        intro e he
        simpa using Nat.ne_of_lt (h.known e he)
      · exact h.settled j c ((update_of_ne hji ..).symm.trans hc)
  | @quit id ch =>
    have hleaves : Queues (s'.thread (.handler i)) = false := by
      rw [hthread]
      rfl
    have hnone := hcond ch rfl hleaves
    rw [note_await (by rw [hm, hm']), if_neg (by rw [hleaves]; nofun)] at hnone ⊢
    obtain ⟨c, hc, -, hopen⟩ := hlogged
    refine h.leave ?_ ?_
    · intro d hd
      rw [hc] at hd
      cases hd
      exact hopen
    · intro d hd
      exact hnone { d with left := true } (by rw [Ledger.amend_self, hd]; rfl)
  | @take id ch o hfirst hstays =>
    obtain ⟨hmem, -⟩ := Channels.mem_of_first hfirst
    have hqueues : Queues (s'.thread (.handler i)) = true := by
      rw [hthread]
      rfl
    rw [note_await_take (hm ▸ hfirst) (by rw [hm, hm']; exact Channels.length_withdraw_lt hmem),
      if_pos hqueues]
    exact (h.receive hkept hpt hfirst).1
  | @takeLast id ch o hfirst hleaving =>
    obtain ⟨hmem, -⟩ := Channels.mem_of_first hfirst
    have hleaves : Queues (s'.thread (.handler i)) = false := by
      rw [hthread]
      rfl
    have hnone := hcond ch rfl hleaves
    rw [note_await_take (hm ▸ hfirst) (by rw [hm, hm']; exact Channels.length_withdraw_lt hmem),
      if_neg (by rw [hleaves]; nofun)] at hnone ⊢
    obtain ⟨hheard, hopen⟩ := h.receive hkept hpt hfirst
    refine hheard.leave hopen ?_
    intro d hd
    exact hnone { d with left := true } (by rw [Ledger.amend_self, hd]; rfl)
  | @drain id ch hclosed =>
    have hqueues : Queues (s'.thread (.handler i)) = true := by
      rw [hthread]
      rfl
    rw [note_await (by rw [hm, hm']), if_pos hqueues]
    exact h
  | _ => exact h.frame (Nat.le_refl _) rfl rfl

end

/-- What holds at every moment of an attentive run. -/
structure Told {n : Nat} (m : Manager) (pts : ∀ t : Thread n, Point t) (led : Ledger n) :
    Prop where
  kept : Kept m pts led
  heard : Heard m led

theorem Told.keep (hm : s.shared = m) (hm' : s'.shared = m') (hat' : s'.At progAt pts')
    (hmoves : Moving moves m pts e m' pts') (h : Told m pts led)
    (hcond : Attentive (s, led) e (s', note s e s' led)) : Told m' pts' (note s e s' led) := by
  refine ⟨h.kept.keep hm hm' hat' hmoves hcond.1, ?_⟩
  cases hmoves with
  | @move t a m' pt hmoves =>
    cases t with
    | loop =>
      refine h.heard.loop h.kept.inHand hm hm' hmoves ?_
      rintro id rfl i c hc hid hopen
      rw [← hm]
      exact hcond.2 i c hc hid hopen
    | center => exact h.heard.center hmoves
    | handler i =>
      refine h.heard.handler h.kept hm hm' ?_ hmoves ?_
      · rw [hat' (.handler i), update_self]
        rfl
      · rintro ch rfl
        rw [← hm']
        exact hcond.2

end Heard

theorem told_started (n : Nat) : Told (started n).shared atRest (Ledger.empty n) := by
  refine ⟨kept_started n, ?_, ?_⟩
  · intro e he
    cases he
  · intro i c hc
    cases hc

/-- In every interleaving of `listenEvents` with a call centre and any number of handlers that
join queues and leave them, in which the steps are punctual, `listenEvents` looks up the attempt
of a handler only when it has been added, and no handler leaves while an event of its attempt is
on the way: a handler that has left has received, in order, every event that was emitted for its
attempt until then; one that has not left has received them but for those that are on the way;
and what is on the way is not held up, since `listenEvents` waits to send only to a handler that
reads. -/
theorem heard_of_attentive {n : Nat} {ok : Prop} {x : AttemptPool n × Ledger n}
    (h : Trace.Steps (Recorded attempts note) Attentive (started n, Ledger.empty n) ok x)
    (hok : ok) :
    (∀ i c, x.2.calls i = some c →
      (c.left = true → c.got = c.due) ∧
      (c.left = false → c.due = c.got ++
        (x.2.hand.toList ++ x.1.shared.events).filter fun e => e.attemptId = c.id)) ∧
      (x.1.thread .loop = .ret .listening → x.2.hand = none) ∧
      x.1.shared.panicked = false ∧ ∀ o ∈ x.1.shared.chans.offers, Attended x.1 o := by
  obtain ⟨pts, hat, htold⟩ : ∃ pts, x.1.At progAt pts ∧ Told x.1.shared pts x.2 :=
    (attempts_outline n).run h hok (at_started n) (told_started n)
      fun hm hm' _ hat' hmoves hinv hcond => hinv.keep hm hm' hat' hmoves hcond
  refine ⟨?_, ?_, htold.kept.running, fun o ho => htold.kept.attended hat ho⟩
  · intro i c hc
    have hsettled := htold.heard.settled i c hc
    unfold Call.Settled at hsettled
    constructor
    · intro hleft
      rwa [if_pos hleft] at hsettled
    · intro hopen
      rwa [if_neg (by rw [hopen]; nofun)] at hsettled
  · intro hlistening
    have hhand := htold.kept.inHand
    rw [hat .loop] at hlistening
    generalize pts .loop = lp at hhand hlistening
    cases lp with
    | listening => exact hhand.1
    | _ => cases hlistening

instance {n : Nat} (x : AttemptPool n × Ledger n) (e : Concurrent.Event (Thread n) Op)
    (y : AttemptPool n × Ledger n) : Decidable (Attentive x e y) := by
  refine @instDecidableAnd _ _ inferInstance ?_
  rcases e with ⟨_ | i, ⟨⟩⟩ | _ | _ <;> infer_instance

/-- Both events have been received when the handler has left. -/
theorem heard_of_attentive_served :
    ∃ x c, Trace.play (Pool.record attempts note) (served ++ handles .event 2 ++ listens 1)
        (started 1, Ledger.empty 1) = some x ∧
      x.2.calls 0 = some c ∧ c.left = true ∧
        c.due = [⟨0, "bridged", "done"⟩, ⟨0, "leaving", "done"⟩] ∧ c.got = c.due := by
  obtain ⟨x, hx, hcalls, ok, hsteps, hok⟩ := Pool.reaches_record attempts note
    (fun x e y => of_decide_eq_true (p := Attentive x e y))
    (served ++ handles .event 2 ++ listens 1) (started 1, Ledger.empty 1)
    (fun x => (x.2.calls 0).map (fun c => (c.left, c.due)) =
      some (true, [⟨0, "bridged", "done"⟩, ⟨0, "leaving", "done"⟩])) (by decide +kernel)
  obtain ⟨c, hc, hstate⟩ := Option.map_eq_some_iff.mp hcalls
  obtain ⟨hleft, hdue⟩ := Prod.mk.inj hstate
  exact ⟨x, c, hx, hc, hleft, hdue, ((heard_of_attentive hsteps hok).1 0 c hc).1 hleft⟩

/-- The event `leaving` comes right after the request, before the channel has been added. -/
def early : List (Thread 1 × Outside) :=
  handles .event 2 ++ emits "leaving" ++ listens 3 ++ handles .event 7

/-- The event is gone, and the handler waits for it in its loop. -/
theorem heard_of_attentive_early :
    ∃ ok x c, Trace.Steps (Recorded attempts note) Attentive (started 1, Ledger.empty 1) ok x ∧
      x.2.calls 0 = some c ∧ Queues (x.1.thread (.handler 0)) = true ∧
        c.due = [⟨0, "leaving", "done"⟩] ∧ c.got = [] ∧ x.2.hand = none ∧
          x.1.shared.events = [] := by
  obtain ⟨x, -, ⟨hcalls, hqueues, hend⟩, ok, hsteps⟩ := Trace.reaches
    (Pool.record_step attempts note) Attentive early (started 1, Ledger.empty 1)
    (fun x => (x.2.calls 0).map (fun c => (c.due, c.got)) = some ([⟨0, "leaving", "done"⟩], []) ∧
      Queues (x.1.thread (.handler 0)) = true ∧ x.2.hand = none ∧ x.1.shared.events = [])
    (by decide +kernel)
  obtain ⟨c, hc, haccount⟩ := Option.map_eq_some_iff.mp hcalls
  obtain ⟨hdue, hgot⟩ := Prod.mk.inj haccount
  exact ⟨ok, x, c, hsteps, hc, hqueues, hdue, hgot, hend⟩

end FlowManager.Cc
