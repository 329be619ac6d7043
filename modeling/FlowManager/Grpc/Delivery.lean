import FlowManager.Grpc.Confirm

/-!
# Whether confirmed messages are delivered

`ConfirmationMessage` returns success also when its timer has gone off. Here is what makes a
success mean that the messages were delivered: a request finds a channel only while its `receive`
waits and no other request has found it, the `receive` does not go away without the messages, and
the timer does not go off while it waits.

- `Log`: which sends were taken, by which call of `ReceiveMessage`, and what these returned.
- `Attended`: the condition on the steps.
- `Registered`: the confirmation ids and the flows that have registered them; `Held`: the requests
  that have found a channel, and the flow that waits on it; `Delivered`: a message that was taken
  is returned by `ReceiveMessage`.
- `delivered_of_attended`: the result.
-/

namespace FlowManager.Grpc.Confirm

open Concurrent Function

/-- A flow has taken the messages of a send in its `call`-th `ReceiveMessage`. -/
structure Take (n : Nat) where
  ticket : Nat
  flow : Fin n
  call : Nat
  messages : List Message
  deriving DecidableEq

/-- What is written down of a run: the sends that were taken, and what the calls of
`ReceiveMessage` of each flow have returned -/
structure Log (n : Nat) where
  takes : List (Take n)
  returns : Fin n → List (Except AppError (List String))

namespace Log

variable {n : Nat}

def empty : Log n := ⟨[], fun _ => []⟩

/-- The flow takes the messages of an offer. -/
def take (l : Log n) (i : Fin n) (o : Offer (List Message)) : Log n :=
  { l with takes := l.takes ++ [⟨o.ticket, i, (l.returns i).length, o.value⟩] }

/-- A `ReceiveMessage` of the flow returns, if it does. -/
def finish (l : Log n) (i : Fin n) : Option (Except AppError (List String)) → Log n
  | some r => { l with returns := update l.returns i (l.returns i ++ [r]) }
  | none => l

end Log

/-- What `ReceiveMessage` has returned, if it has -/
def resultOf : Go Label → Option (Except AppError (List String))
  | .ret (.received r) => some r
  | _ => none

def note {n k : Nat} (s : ChatPool n k) (e : Concurrent.Event (Thread n k) Op) (s' : ChatPool n k)
    (l : Log n) : Log n :=
  match e with
  | .act (.flow i) (.select ch) =>
    match s.shared.chans.first ch with
    | some o =>
      if s'.shared.chans.offers.length < s.shared.chans.offers.length then l.take i o else l
    | none => l
  | .act (.flow i) _ => l.finish i (resultOf (s'.thread (.flow i)))
  | _ => l

/-- A `receive` is about to remove its confirmation id. -/
def Leaves (id : Nat) : Go Label → Bool
  | .act (.deleteConfirmationId id') _ => decide (id' = id)
  | _ => false

/-- A `receive` with the channel waits: for the answer of `WaitMessage`, or in its `select`. -/
def Waits (c : Conversation) (ch : Nat) : Go Label → Bool
  | .act (.waitMessage id) _ => decide (c.confirmation id = some ch)
  | .act (.select ch') _ => decide (ch' = ch)
  | _ => false

/-- A request has found the channel, and has not returned. -/
def Holds (ch : Nat) : Go Label → Bool
  | .act (.offer conf _) _ => decide (conf = ch)
  | .act (.sent conf _) _ => decide (conf = ch)
  | _ => false

/-- A request finds a channel only while its `receive` waits, and while no other request holds
it; the timer of a request does not go off while the `receive` waits; and a `receive` does not
leave without the messages while a request holds its channel. -/
def Attended {n k : Nat} (x : ChatPool n k × Log n) (e : Concurrent.Event (Thread n k) Op)
    (y : ChatPool n k × Log n) : Prop :=
  match e with
  | .act (.server j) (.confirmation id) =>
    ∀ ch, x.1.shared.confirmation id = some ch →
      (∀ i, Leaves id (x.1.thread (.flow i)) = false) ∧
        ∀ j', j' ≠ j → Holds ch (x.1.thread (.server j')) = false
  | .act (.server _) (.sent conf _) =>
    y.1.shared.chans.offers.length < x.1.shared.chans.offers.length →
      ∀ i, Waits x.1.shared conf (x.1.thread (.flow i)) = false
  | .act (.flow i) (.waitMessage id) =>
    Leaves id (y.1.thread (.flow i)) = true →
      ∀ ch, x.1.shared.confirmation id = some ch →
        ∀ j, Holds ch (x.1.thread (.server j)) = false
  | .act (.flow _) (.select ch) =>
    ¬ y.1.shared.chans.offers.length < x.1.shared.chans.offers.length →
      ∀ j, Holds ch (x.1.thread (.server j)) = false
  | _ => True

/-! ## Where flows and requests are -/

/-- The confirmation id of the flow's `receive` -/
def FlowPoint.id : FlowPoint → Option Nat
  | .making _ id | .adding _ id _ | .calling _ id _ | .selecting _ id _ | .deleting _ id _ _ =>
    some id
  | _ => none

/-- The confirmation id and the channel that the flow has registered -/
def FlowPoint.entry : FlowPoint → Option (Nat × Nat)
  | .calling _ id ch | .selecting _ id ch | .deleting _ id ch _ => some (id, ch)
  | _ => none

/-- The channel that the flow waits on, or is going to -/
def FlowPoint.waits : FlowPoint → Option Nat
  | .calling _ _ ch | .selecting _ _ ch => some ch
  | _ => none

/-- The messages of the rounds before -/
def Round.gathered : Round → Option (List Message)
  | .first _ => none
  | .loop _ msgs => some msgs

/-- The messages that `ReceiveMessage` has so far; `none` before the first `receive` has
succeeded. -/
def FlowPoint.gathered : FlowPoint → Option (List Message)
  | .naming r | .making r _ | .adding r _ _ | .calling r _ _ | .selecting r _ _ => r.gathered
  | .deleting r _ _ (.error _) => r.gathered
  | .deleting r _ _ (.ok msgs) => some (r.gathered.getD [] ++ msgs)
  | .collecting _ msgs => some msgs
  | .storing _ m msgs => some (m :: msgs)
  | .saving msgs => some msgs
  | .idle | .received _ => none

/-- The steps that are left when no more messages come -/
def FlowPoint.rank : FlowPoint → Nat
  | .deleting _ _ _ (.ok _) => 9
  | .collecting _ _ => 8
  | .naming _ => 7
  | .making _ _ => 6
  | .adding _ _ _ => 5
  | .calling _ _ _ | .selecting _ _ _ => 4
  | .deleting _ _ _ (.error _) => 3
  | .storing _ _ _ => 2
  | .saving _ => 1
  | .idle | .received _ => 0

/-- The channel that the request has found -/
def ServerPoint.holds : ServerPoint → Option Nat
  | .offering conf _ | .sending conf _ _ => some conf
  | _ => none

section Points

variable {m : Conversation} {id ch : Nat}

theorem FlowPoint.id_of_entry {pt : FlowPoint} (h : pt.entry = some (id, ch)) :
    pt.id = some id := by
  cases pt <;> cases h <;> rfl

theorem FlowPoint.waits_of_entry {pt : FlowPoint} (h : pt.entry = some (id, ch))
    (hleaves : Leaves id pt.prog = false) : pt.waits = some ch := by
  cases pt with
  | calling | selecting => cases h; rfl
  | deleting =>
    cases h
    exact absurd rfl (of_decide_eq_false hleaves)
  | _ => cases h

theorem FlowPoint.waits_prog {pt : FlowPoint} (h : pt.waits = some ch)
    (hentry : ∀ id ch, pt.entry = some (id, ch) → m.confirmation id = some ch) :
    Waits m ch pt.prog = true := by
  cases pt with
  | calling r id' ch' =>
    cases h
    exact decide_eq_true (hentry id' ch rfl)
  | selecting r id' ch' =>
    cases h
    exact decide_eq_true rfl
  | _ => cases h

theorem ServerPoint.holds_prog {pt : ServerPoint} (h : Holds ch pt.prog = false) :
    pt.holds ≠ some ch := by
  cases pt with
  | offering conf msgs | sending conf ticket msgs =>
    exact fun hconf => of_decide_eq_false h (Option.some.inj hconf)
  | _ => exact nofun

@[simp]
theorem FlowPoint.id_keep (name : String) (msgs : List Message) :
    (FlowPoint.keep name msgs).id = none := by
  unfold FlowPoint.keep
  split
  · rfl
  · split <;> rfl

@[simp]
theorem FlowPoint.gathered_keep (name : String) (msgs : List Message) :
    (FlowPoint.keep name msgs).gathered = some msgs := by
  unfold FlowPoint.keep
  split
  · rfl
  · split <;> rfl

theorem FlowPoint.rank_keep (name : String) (msgs : List Message) :
    (FlowPoint.keep name msgs).rank ≤ 2 := by
  unfold FlowPoint.keep
  split
  · exact Nat.le_succ 1
  · split
    · exact Nat.le_refl 2
    · exact Nat.le_succ 1

/-- A `receive` that has returned leaves its `ReceiveMessage` with the messages, nearer to the
end. -/
theorem Round.gathered_landing
    (h : (FlowPoint.deleting r id ch got).gathered = some all) :
    (r.landing got).gathered = some all ∧
      (r.landing got).rank < (FlowPoint.deleting r id ch got).rank := by
  have hkeep : ∀ name, (FlowPoint.keep name all).rank < 3 :=
    fun name => Nat.lt_succ_of_le (FlowPoint.rank_keep name all)
  cases r with
  | first args =>
    cases got with
    | error err => cases h
    | ok msgs =>
      cases h
      simp only [Round.landing]
      split
      · exact ⟨rfl, Nat.lt_succ_self _⟩
      · exact ⟨FlowPoint.gathered_keep .., Nat.lt_trans (hkeep _) (show 3 < 9 by decide)⟩
  | loop name msgs =>
    cases got with
    | error err =>
      cases h
      exact ⟨FlowPoint.gathered_keep .., hkeep _⟩
    | ok m =>
      cases h
      exact ⟨rfl, Nat.lt_succ_self _⟩

/-- A `receive` that has returned has no confirmation id. -/
theorem Round.id_landing (r : Round) (got : Except AppError (List Message)) :
    (r.landing got).id = none := by
  cases r with
  | first args =>
    cases got with
    | error err => rfl
    | ok msgs =>
      simp only [Round.landing]
      split
      · rfl
      · exact FlowPoint.id_keep ..
  | loop name msgs =>
    cases got with
    | error err => exact FlowPoint.id_keep ..
    | ok m => rfl

theorem FlowPoint.entry_of_id {pt : FlowPoint} (h : pt.id = none) : pt.entry = none := by
  cases pt <;> first | rfl | cases h

end Points

/-! ## Confirmation ids -/

/-- The registered confirmation ids are those of the flows that have added theirs. -/
structure Registered {n : Nat} (m : Conversation) (fs : Fin n → FlowPoint) : Prop where
  ids : Allotted (fun i => (fs i).id) m.ids
  stored : ∀ {i id ch}, (fs i).entry = some (id, ch) → m.confirmation id = some ch
  only : ∀ {id ch}, m.confirmation id = some ch → ∃ i, (fs i).entry = some (id, ch)

section Registered

variable {n : Nat} {m m' : Conversation} {fs : Fin n → FlowPoint} {i : Fin n} {pt : FlowPoint}

theorem update_id : (fun j => (update fs i pt j).id) =
    update (fun j => (fs j).id) i pt.id :=
  funext fun j => Function.apply_update (fun _ => FlowPoint.id) fs i pt j

section

variable (h : Registered m fs)
include h

/-- A flow moves, with the same entry. -/
theorem Registered.frame (hids : Allotted (update (fun j => (fs j).id) i pt.id) m'.ids)
    (hentry : pt.entry = (fs i).entry) (hconfirmation : m'.confirmation = m.confirmation) :
    Registered m' (update fs i pt) := by
  have hsame : ∀ j, (update fs i pt j).entry = (fs j).entry :=
    (Function.forall_update_iff fs fun j (p : FlowPoint) => p.entry = (fs j).entry).mpr
      ⟨hentry, fun _ _ => rfl⟩
  constructor
  · rw [update_id]
    exact hids
  · intro j id ch hj
    rw [hconfirmation]
    exact h.stored ((hsame j).symm.trans hj)
  · intro id ch hid
    rw [hconfirmation] at hid
    obtain ⟨j, hj⟩ := h.only hid
    exact ⟨j, (hsame j).trans hj⟩

/-- A flow adds or removes its confirmation id. -/
theorem Registered.write {id : Nat}
    (hid : (fs i).id = some id) (hpt : pt.id = none ∨ pt.id = some id)
    (hentry : pt.entry = v.map fun ch => (id, ch)) :
    Registered (m.setConfirmation id v) (update fs i pt) := by
  constructor
  · rw [update_id]
    exact h.ids.release (hid ▸ hpt) (Nat.le_refl _)
  · intro j id' ch' hj
    by_cases hji : j = i
    · subst hji
      rw [update_self, hentry] at hj
      obtain ⟨ch, rfl, hpair⟩ := Option.map_eq_some_iff.mp hj
      cases hpair
      exact update_self ..
    · rw [update_of_ne hji] at hj
      -- the id is not this flow's
      have hne : id' ≠ id := by
        rintro rfl
        exact hji (h.ids.inj (FlowPoint.id_of_entry hj) hid)
      exact (update_of_ne hne ..).trans (h.stored hj)
  · intro id' ch' hid'
    change update m.confirmation id v id' = some ch' at hid'
    by_cases hne : id' = id
    · subst hne
      rw [update_self] at hid'
      refine ⟨i, ?_⟩
      rw [update_self, hentry, hid']
      rfl
    · rw [update_of_ne hne] at hid'
      obtain ⟨j, hj⟩ := h.only hid'
      refine ⟨j, ?_⟩
      rw [update_of_ne, hj]
      rintro rfl
      rw [FlowPoint.id_of_entry hj] at hid
      exact hne (Option.some.inj hid)

/-- Steps of a flow -/
theorem Registered.flowMove {a : Option Op}
    (hmoves : FlowMoves m (fs i) a m' pt) : Registered m' (update fs i pt) := by
  have hkept : ∀ {m' : Conversation}, m'.ids = m.ids → pt.id = none ∨ pt.id = (fs i).id →
      Allotted (update (fun j => (fs j).id) i pt.id) m'.ids :=
    fun hsame hpt => h.ids.release hpt (Nat.le_of_eq hsame.symm)
  generalize hpt₀ : fs i = pt₀ at hmoves hkept
  have hentry : ∀ {e}, pt₀.entry = e → e = (fs i).entry := fun he => hpt₀ ▸ he.symm
  cases hmoves with
  | start | again | store | save | back => exact h.frame (hkept rfl (.inl rfl)) (hentry rfl) rfl
  | newId => exact h.frame (h.ids.give i) (hentry rfl) rfl
  | make | wait | answer | take | giveUp => exact h.frame (hkept rfl (.inr rfl)) (hentry rfl) rfl
  | add => exact h.write (by rw [hpt₀]; rfl) (.inr rfl) rfl
  | @delete r id ch got =>
    have hid := r.id_landing got
    exact h.write (by rw [hpt₀]; rfl) (.inl hid) (FlowPoint.entry_of_id hid)

/-- Nobody else touches them. -/
theorem Registered.congr (hids : m'.ids = m.ids)
    (hconfirmation : m'.confirmation = m.confirmation) : Registered m' fs where
  ids := hids ▸ h.ids
  stored hi := hconfirmation ▸ h.stored hi
  only hid := h.only (hconfirmation ▸ hid)

end

end Registered

/-! ## What is written down -/

section Noted

variable {n k : Nat} {m m' : Conversation} {pt pt' : FlowPoint} {a : Option Op} {l : Log n}
  {i : Fin n}

theorem Log.finish_takes (l : Log n) (i : Fin n) (r : Option (Except AppError (List String))) :
    (l.finish i r).takes = l.takes := by
  cases r <;> rfl

section

variable (h : FlowMoves m pt a m' pt')
include h

/-- A step of a flow either takes an offer, or leaves all offers and writes down the result of
`ReceiveMessage`, if it has one. -/
theorem FlowMoves.noted (hm : s.shared = m) (hm' : s'.shared = m')
    (hpt : s'.thread (.flow i) = pt'.prog) :
    (∃ r id ch o, pt = .selecting r id ch ∧ m.chans.first ch = some o ∧
      m' = m.withdraw o.ticket ∧ pt' = .deleting r id ch (.ok o.value) ∧
        note s (Event.of (.flow i) a) s' l = l.take i o) ∨
      (m'.chans.offers = m.chans.offers ∧ m.chans.next ≤ m'.chans.next ∧
        note s (Event.of (.flow i) a) s' l = l.finish i (resultOf pt'.prog)) := by
  cases h with
  | @take r id ch o ho =>
    refine .inl ⟨r, id, ch, o, rfl, ho, rfl, rfl, ?_⟩
    simp only [Event.of, note, hm, hm', ho]
    exact if_pos (Channels.length_withdraw_lt (Channels.mem_of_first ho).1)
  | @giveUp r id ch err =>
    refine .inr ⟨rfl, Nat.le_refl _, ?_⟩
    simp only [Event.of, note, hm, hm', Nat.lt_irrefl, if_false]
    split <;> rfl
  | make =>
    refine .inr ⟨rfl, Nat.le_succ _, ?_⟩
    rw [← hpt]
    rfl
  | start | again | back => exact .inr ⟨rfl, Nat.le_refl _, rfl⟩
  | _ =>
    refine .inr ⟨rfl, Nat.le_refl _, ?_⟩
    rw [← hpt]
    rfl

/-- A flow that waits on a channel goes on to, or stops. -/
theorem FlowMoves.waits {ch : Nat} (hch : pt.waits = some ch) :
    pt'.waits = some ch ∨ pt'.waits = none := by
  cases h with
  | wait => exact .inl hch
  | answer | take | giveUp => exact .inr rfl
  | _ => cases hch

/-- `ReceiveMessage` loses no message that it has, and returns them. -/
theorem FlowMoves.gathers (hall : pt.gathered = some all) :
    (∃ all', pt'.gathered = some all' ∧ all <:+: all') ∨
      pt' = .received (.ok (messageToText all)) := by
  have hgot : ∀ (r : Round) (id ch : Nat) (got : Except AppError (List Message)),
      r.gathered = some all →
        ∃ all', (FlowPoint.deleting r id ch got).gathered = some all' ∧ all <:+: all' := by
    intro r id ch got hr
    cases got with
    | error err => exact ⟨all, hr, List.infix_rfl⟩
    | ok msgs =>
      refine ⟨all ++ msgs, ?_, (List.prefix_append all msgs).isInfix⟩
      simp only [FlowPoint.gathered, hr, Option.getD_some]
  cases h with
  | @answer r id ch got => exact .inl (hgot r id ch got hall)
  | @take r id ch o ho | @giveUp r id ch err => exact .inl (hgot r id ch _ hall)
  | @delete r id ch got =>
    exact .inl ⟨all, (Round.gathered_landing hall).1, List.infix_rfl⟩
  | save =>
    cases hall
    exact .inr rfl
  | start | back => cases hall
  | _ => exact .inl ⟨all, hall, List.infix_rfl⟩

end

theorem FlowPoint.resultOf_prog (h : resultOf pt.prog = some r) : pt = .received r := by
  cases pt with
  | received r =>
    cases h
    rfl
  | _ => cases h

end Noted

/-! ## Requests that have found a channel -/

/-- Exactly one flow has taken the messages of the send. -/
def Taken {n : Nat} (l : Log n) (ticket : Nat) (msgs : List Message) : Prop :=
  ∃ t, l.takes.filter (fun t => t.ticket = ticket) = [t] ∧ t.messages = msgs

theorem Log.mem_of_filter {l : Log n} (h : l.takes.filter (fun t => t.ticket = ticket) = [t]) :
    t ∈ l.takes ∧ t.ticket = ticket := by
  have hmem : t ∈ l.takes.filter fun t => t.ticket = ticket := h ▸ List.mem_singleton_self t
  simpa using List.mem_filter.mp hmem

/-- What is known of a request: the messages that it offers are taken, or they stand. -/
def ServerPoint.Sound {n : Nat} (m : Conversation) (l : Log n) : ServerPoint → Prop
  | .sending conf ticket msgs => ⟨ticket, conf, msgs⟩ ∈ m.chans.offers ∨ Taken l ticket msgs
  | .confirmed ticket msgs => Taken l ticket msgs
  | _ => True

/-- A channel that a request is to offer messages on, or has, has a flow that waits on it. -/
structure Held {n k : Nat} (m : Conversation) (fs : Fin n → FlowPoint) (ss : Fin k → ServerPoint)
    (l : Log n) : Prop where
  alone : ∀ {j j' ch}, (ss j).holds = some ch → (ss j').holds = some ch → j = j'
  offering : ∀ {j ch msgs}, ss j = .offering ch msgs → ∃ i, (fs i).waits = some ch
  offers : ∀ o ∈ m.chans.offers,
    (∃ j, ss j = .sending o.chan o.ticket o.value) ∧ ∃ i, (fs i).waits = some o.chan
  takes : ∀ t ∈ l.takes, t.ticket < m.chans.next ∧ ∀ o ∈ m.chans.offers, o.ticket ≠ t.ticket
  sound : ∀ j, (ss j).Sound m l

section Held

variable {n k : Nat} {m m' : Conversation} {fs : Fin n → FlowPoint} {ss : Fin k → ServerPoint}
  {l : Log n} {i : Fin n} {j : Fin k}

theorem ServerPoint.Sound.imp {pt : ServerPoint} (h : pt.Sound m l)
    (hstands : ∀ {o}, o ∈ m.chans.offers → o ∈ m'.chans.offers ∨ Taken l' o.ticket o.value)
    (htaken : ∀ {ticket msgs}, Taken l ticket msgs → Taken l' ticket msgs) : pt.Sound m' l' := by
  cases pt with
  | sending => exact h.elim hstands fun h => .inr (htaken h)
  | confirmed => exact htaken h
  | _ => trivial

/-- A flow moves, and goes on to wait if it did. The offers stand as before. -/
theorem Held.flowFrame (h : Held m fs ss l) {pt : FlowPoint}
    (hwaits : ∀ ch, (∃ j, (ss j).holds = some ch) → (fs i).waits = some ch → pt.waits = some ch)
    (hoffers : m'.chans.offers = m.chans.offers) (hnext : m.chans.next ≤ m'.chans.next)
    (htakes : l'.takes = l.takes) : Held m' (update fs i pt) ss l' := by
  have hstill : ∀ {ch}, (∃ j, (ss j).holds = some ch) → (∃ u, (fs u).waits = some ch) →
      ∃ u, (update fs i pt u).waits = some ch := by
    rintro ch hheld ⟨u, hu⟩
    refine ⟨u, ?_⟩
    by_cases hui : u = i
    · subst hui
      rw [update_self]
      exact hwaits ch hheld hu
    · rwa [update_of_ne hui]
  constructor
  · exact h.alone
  · intro j ch msgs hj
    exact hstill ⟨j, by rw [hj]; rfl⟩ (h.offering hj)
  · intro o ho
    rw [hoffers] at ho
    obtain ⟨⟨j, hj⟩, hflow⟩ := h.offers o ho
    exact ⟨⟨j, hj⟩, hstill ⟨j, by rw [hj]; rfl⟩ hflow⟩
  · intro t ht
    rw [htakes] at ht
    rw [hoffers]
    exact ⟨Nat.lt_of_lt_of_le (h.takes t ht).1 hnext, (h.takes t ht).2⟩
  · intro j
    refine (h.sound j).imp (fun ho => .inl (hoffers ▸ ho)) fun htaken => ?_
    unfold Taken at htaken ⊢
    rwa [htakes]

theorem Log.filter_take (l : Log n) (o : Offer (List Message)) (ticket : Nat) :
    (l.take i o).takes.filter (fun t => t.ticket = ticket) =
      l.takes.filter (fun t => t.ticket = ticket) ++
        if o.ticket = ticket then [⟨o.ticket, i, (l.returns i).length, o.value⟩] else [] := by
  simp only [Log.take, List.filter_append, List.filter_cons, List.filter_nil, decide_eq_true_eq]

/-- Messages that were taken stay so when others are. -/
theorem Held.taken_take (h : Held m fs ss l) (ho : o ∈ m.chans.offers)
    (htaken : Taken l ticket msgs) : Taken (l.take i o) ticket msgs := by
  obtain ⟨t, hfilter, hmsgs⟩ := htaken
  obtain ⟨ht, rfl⟩ := Log.mem_of_filter hfilter
  refine ⟨t, ?_, hmsgs⟩
  rw [Log.filter_take, hfilter, if_neg ((h.takes t ht).2 o ho), List.append_nil]

/-- An offer that stands has not been taken before. -/
theorem Held.taken_self (h : Held m fs ss l) (ho : o ∈ m.chans.offers) :
    Taken (l.take i o) o.ticket o.value := by
  have hnone : l.takes.filter (fun t => t.ticket = o.ticket) = [] := by
    refine List.filter_eq_nil_iff.mpr fun t ht hticket => ?_
    exact (h.takes t ht).2 o ho (of_decide_eq_true hticket).symm
  refine ⟨⟨o.ticket, i, (l.returns i).length, o.value⟩, ?_, rfl⟩
  rw [Log.filter_take, hnone, if_pos rfl]
  rfl

/-- Offers with one number are the same. -/
theorem offer_eq (ho : o ∈ m.chans.offers) (ho' : o' ∈ m.chans.offers) (h : o.ticket = o'.ticket) :
    o = o' :=
  List.inj_on_of_nodup_map m.chans.nodup ho ho' h

section

variable (h : Held m fs ss l)
include h

/-- A flow takes the messages that are offered to it. -/
theorem Held.take {pt : FlowPoint}
    (hch : (fs i).waits = some ch) (ho : m.chans.first ch = some o) :
    Held (m.withdraw o.ticket) (update fs i pt) ss (l.take i o) := by
  obtain ⟨hmem, rfl⟩ := Channels.mem_of_first ho
  obtain ⟨⟨j₀, hj₀⟩, -⟩ := h.offers o hmem
  -- whoever else holds a channel holds another one, and somebody else waits on that
  have hstill : ∀ {ch j}, (ss j).holds = some ch → j ≠ j₀ → (∃ u, (fs u).waits = some ch) →
      ∃ u, (update fs i pt u).waits = some ch := by
    rintro ch j hholds hne ⟨u, hu⟩
    refine ⟨u, ?_⟩
    rw [update_of_ne, hu]
    rintro rfl
    rw [hu] at hch
    cases hch
    exact hne (h.alone hholds (by rw [hj₀]; rfl))
  constructor
  · exact h.alone
  · intro j ch msgs hj
    refine hstill (j := j) (by rw [hj]; rfl) ?_ (h.offering hj)
    rintro rfl
    rw [hj] at hj₀
    cases hj₀
  · intro o' ho'
    obtain ⟨hmem', hticket⟩ := Channels.mem_withdraw.mp ho'
    obtain ⟨⟨j, hj⟩, hflow⟩ := h.offers o' hmem'
    refine ⟨⟨j, hj⟩, hstill (j := j) (by rw [hj]; rfl) ?_ hflow⟩
    rintro rfl
    rw [hj] at hj₀
    injection hj₀ with _ hsame
    exact hticket hsame
  · intro t ht
    rcases List.mem_append.mp ht with ht | ht
    · exact ⟨(h.takes t ht).1, fun o' ho' => (h.takes t ht).2 o' (Channels.mem_withdraw.mp ho').1⟩
    · rw [List.mem_singleton.mp ht]
      exact ⟨m.chans.fresh o hmem, fun o' ho' => (Channels.mem_withdraw.mp ho').2⟩
  · intro j
    refine (h.sound j).imp (fun {o'} hstands => ?_) (h.taken_take hmem)
    by_cases hticket : o'.ticket = o.ticket
    · cases offer_eq hstands hmem hticket
      exact .inr (h.taken_self hmem)
    · exact .inl (Channels.mem_withdraw.mpr ⟨hstands, hticket⟩)

/-- A request moves on without a channel, and none of its messages are offered any more. -/
theorem Held.release (hpt : pt.holds = none)
    (hgone : ∀ o ∈ m.chans.offers, ss j ≠ .sending o.chan o.ticket o.value)
    (hsound : pt.Sound m l) :
    Held m fs (update ss j pt) l := by
  have hold : ∀ u ch, (update ss j pt u).holds = some ch →
      u ≠ j ∧ (ss u).holds = some ch := by
    intro u ch hu
    by_cases huj : u = j
    · subst huj
      rw [update_self, hpt] at hu
      cases hu
    · rw [update_of_ne huj] at hu
      exact ⟨huj, hu⟩
  constructor
  · intro u u' ch hu hu'
    exact h.alone (hold u ch hu).2 (hold u' ch hu').2
  · intro u ch msgs hu
    obtain ⟨huj, -⟩ := hold u ch (by rw [hu]; rfl)
    rw [update_of_ne huj] at hu
    exact h.offering hu
  · intro o ho
    obtain ⟨⟨u, hu⟩, hflow⟩ := h.offers o ho
    refine ⟨⟨u, ?_⟩, hflow⟩
    rw [update_of_ne, hu]
    rintro rfl
    exact hgone o ho hu
  · exact h.takes
  · exact (Function.forall_update_iff ss fun _ (p : ServerPoint) => p.Sound m l).mpr
      ⟨hsound, fun u _ => h.sound u⟩

theorem Held.serverFrame (hholds : (ss j).holds = none) (hpt : pt.holds = none)
    (hsound : pt.Sound m l) : Held m fs (update ss j pt) l := by
  refine h.release hpt (fun o _ hj => ?_) hsound
  rw [hj] at hholds
  cases hholds

/-- A request finds a channel that no other one holds and a flow waits on. -/
theorem Held.look (hholds : (ss j).holds = none)
    (hflow : ∃ i, (fs i).waits = some ch) (hothers : ∀ u, u ≠ j → (ss u).holds ≠ some ch) :
    Held m fs (update ss j (.offering ch msgs)) l := by
  constructor
  · intro u u' d hu hu'
    by_cases huj : u = j <;> by_cases huj' : u' = j
    · rw [huj, huj']
    · subst huj
      rw [update_self] at hu
      rw [update_of_ne huj'] at hu'
      cases hu
      exact absurd hu' (hothers u' huj')
    · subst huj'
      rw [update_self] at hu'
      rw [update_of_ne huj] at hu
      cases hu'
      exact absurd hu (hothers u huj)
    · rw [update_of_ne huj] at hu
      rw [update_of_ne huj'] at hu'
      exact h.alone hu hu'
  · intro u d msgs' hu
    by_cases huj : u = j
    · subst huj
      rw [update_self] at hu
      cases hu
      exact hflow
    · rw [update_of_ne huj] at hu
      exact h.offering hu
  · intro o ho
    obtain ⟨⟨u, hu⟩, hwaits⟩ := h.offers o ho
    refine ⟨⟨u, ?_⟩, hwaits⟩
    rw [update_of_ne, hu]
    rintro rfl
    rw [hu] at hholds
    cases hholds
  · exact h.takes
  · exact (Function.forall_update_iff ss fun _ (p : ServerPoint) => p.Sound m l).mpr
      ⟨trivial, fun u _ => h.sound u⟩

/-- A request begins to send. -/
theorem Held.offer {ch : Nat} (hj : ss j = .offering ch msgs) :
    Held { m with chans := m.chans.offer ch msgs } fs
      (update ss j (.sending ch m.chans.next msgs)) l := by
  have hsame : ∀ u, (update ss j (.sending ch m.chans.next msgs) u).holds =
      (ss u).holds := by
    refine (Function.forall_update_iff ss fun u (p : ServerPoint) => p.holds = (ss u).holds).mpr
      ⟨?_, fun _ _ => rfl⟩
    rw [hj]
    rfl
  constructor
  · intro u u' d hu hu'
    rw [hsame] at hu hu'
    exact h.alone hu hu'
  · intro u d msgs' hu
    by_cases huj : u = j
    · subst huj
      rw [update_self] at hu
      cases hu
    · rw [update_of_ne huj] at hu
      exact h.offering hu
  · -- the offers that were there, and the new one with a ticket of its own
    intro o ho
    rcases List.mem_append.mp ho with ho | ho
    · obtain ⟨⟨u, hu⟩, hwaits⟩ := h.offers o ho
      refine ⟨⟨u, ?_⟩, hwaits⟩
      rw [update_of_ne, hu]
      rintro rfl
      rw [hu] at hj
      cases hj
    · rw [List.mem_singleton.mp ho]
      exact ⟨⟨j, update_self ..⟩, h.offering hj⟩
  · intro t ht
    obtain ⟨hlt, hne⟩ := h.takes t ht
    refine ⟨Nat.lt_succ_of_lt hlt, fun o ho => ?_⟩
    rcases List.mem_append.mp ho with ho | ho
    · exact hne o ho
    · rw [List.mem_singleton.mp ho]
      exact (Nat.ne_of_lt hlt).symm
  · refine (Function.forall_update_iff ss fun _ (p : ServerPoint) => p.Sound _ l).mpr
      ⟨.inl (List.mem_append_right _ (List.mem_singleton_self _)), fun u _ => ?_⟩
    exact (h.sound u).imp (fun ho => .inl (List.mem_append_left _ ho)) id

/-- A request whose messages were taken returns. -/
theorem Held.sent {ch ticket : Nat}
    (hj : ss j = .sending ch ticket msgs) (hnone : m.chans.standing ticket = none) :
    Held m fs (update ss j (.confirmed ticket msgs)) l := by
  have hgone : ∀ o ∈ m.chans.offers, o.ticket ≠ ticket := fun _ =>
    Channels.ne_of_not_standing hnone
  refine h.release rfl ?_ ?_
  · intro o ho hsending
    rw [hj] at hsending
    injection hsending with _ hsame
    exact hgone o ho hsame.symm
  · have hself := h.sound j
    rw [hj] at hself
    rcases hself with hstands | htaken
    · exact absurd rfl (hgone _ hstands)
    · exact htaken

/-- Steps of a flow. If it stops to wait without messages, no request holds its channel. -/
theorem Held.flowMove (hm : s.shared = m) (hm' : s'.shared = m')
    (hpt : s'.thread (.flow i) = pt.prog) (hmoves : FlowMoves m (fs i) a m' pt)
    (hleaves : ∀ ch, (fs i).waits = some ch → pt.waits = none →
      m'.chans.offers.length < m.chans.offers.length ∨ ∀ j, (ss j).holds ≠ some ch) :
    Held m' (update fs i pt) ss (note s (Event.of (.flow i) a) s' l) := by
  rcases hmoves.noted (l := l) hm hm' hpt with
    ⟨r, id, ch, o, hself, ho, rfl, rfl, hnote⟩ | ⟨hoffers, hnext, hnote⟩
  · rw [hnote]
    exact h.take (by rw [hself]; rfl) ho
  · rw [hnote]
    refine h.flowFrame ?_ hoffers hnext (Log.finish_takes ..)
    rintro ch ⟨j, hj⟩ hch
    rcases hmoves.waits hch with hgoes | hstops
    · exact hgoes
    · rcases hleaves ch hch hstops with hlt | hnobody
      · rw [hoffers] at hlt
        exact absurd hlt (Nat.lt_irrefl _)
      · exact absurd hj (hnobody j)

/-- Steps of a request -/
theorem Held.serverMove (hmoves : ServerMoves m (ss j) a m' pt)
    (hlook : ∀ id ch, a = some (.confirmation id) → m.confirmation id = some ch →
      (∃ i, (fs i).waits = some ch) ∧ ∀ u, u ≠ j → (ss u).holds ≠ some ch)
    (hlate : ∀ conf ticket, a = some (.sent conf ticket) →
      m'.chans.offers.length < m.chans.offers.length → ∀ i, (fs i).waits ≠ some conf) :
    Held m' fs (update ss j pt) l := by
  generalize hpt₀ : ss j = pt₀ at hmoves
  cases hmoves with
  | look hfound =>
    obtain ⟨hflow, hothers⟩ := hlook _ _ rfl hfound
    exact h.look (by rw [hpt₀]; rfl) hflow hothers
  | offer => exact h.offer hpt₀
  | sent hnone => exact h.sent hpt₀ hnone
  | @late conf ticket msgs o ho =>
    -- the messages stand, so a flow waits for them
    obtain ⟨hmem, rfl⟩ := Channels.mem_of_standing ho
    obtain ⟨⟨u, hu⟩, i, hi⟩ := h.offers o hmem
    have hself := h.sound j
    rw [hpt₀] at hself
    rcases hself with hstands | ⟨t, hfilter, -⟩
    · have hchan : conf = o.chan := congrArg Offer.chan (offer_eq hstands hmem rfl)
      rw [← hchan] at hi
      exact absurd hi (hlate conf o.ticket rfl (Channels.length_withdraw_lt hmem) i)
    · obtain ⟨ht, hticket⟩ := Log.mem_of_filter hfilter
      exact absurd hticket.symm ((h.takes t ht).2 o hmem)
  | _ => exact h.serverFrame (by rw [hpt₀]; rfl) rfl trivial

end

end Held

/-! ## Messages that were taken -/

/-- The `ReceiveMessage` that has taken the messages has returned them. -/
def Returned {n : Nat} (l : Log n) (t : Take n) : Prop :=
  ∃ all, (l.returns t.flow)[t.call]? = some (.ok (messageToText all)) ∧ t.messages <:+: all

/-- What was taken has been returned, or `ReceiveMessage` still has it. -/
def Delivered {n : Nat} (fs : Fin n → FlowPoint) (l : Log n) : Prop :=
  ∀ t ∈ l.takes, Returned l t ∨ t.call = (l.returns t.flow).length ∧
    ∃ all, (fs t.flow).gathered = some all ∧ t.messages <:+: all

section Delivered

variable {n k : Nat} {m m' : Conversation} {fs : Fin n → FlowPoint} {l : Log n} {i : Fin n}
  {pt : FlowPoint}

/-- A flow takes messages. -/
theorem Delivered.take (h : Delivered fs l) {r : Round} {id ch : Nat}
    (hself : fs i = .selecting r id ch) :
    Delivered (update fs i (.deleting r id ch (.ok o.value))) (l.take i o) := by
  intro t ht
  rcases List.mem_append.mp ht with ht | ht
  · rcases h t ht with hreturned | ⟨hcall, all, hall, hinfix⟩
    · exact .inl hreturned
    · refine .inr ⟨hcall, ?_⟩
      by_cases hti : t.flow = i
      · rw [hti, hself] at hall
        have hgathered : r.gathered = some all := hall
        refine ⟨all ++ o.value, ?_, hinfix.trans (List.prefix_append ..).isInfix⟩
        rw [hti, update_self]
        simp only [FlowPoint.gathered, hgathered, Option.getD_some]
      · rw [update_of_ne hti]
        exact ⟨all, hall, hinfix⟩
  · rw [List.mem_singleton.mp ht]
    refine .inr ⟨rfl, r.gathered.getD [] ++ o.value, ?_, (List.suffix_append ..).isInfix⟩
    rw [update_self]
    rfl

/-- A flow goes on, or its `ReceiveMessage` returns. -/
theorem Delivered.goOn (h : Delivered fs l) (hmoves : FlowMoves m (fs i) a m' pt) :
    Delivered (update fs i pt) (l.finish i (resultOf pt.prog)) := by
  intro t ht
  rw [Log.finish_takes] at ht
  by_cases hti : t.flow = i
  · have hself := h t ht
    unfold Returned at hself ⊢
    rw [hti] at hself ⊢
    rw [update_self]
    cases hresult : resultOf pt.prog with
    | none =>
      rcases hself with hreturned | ⟨hcall, all, hall, hinfix⟩
      · exact .inl hreturned
      · rcases hmoves.gathers hall with ⟨all', hall', hgrows⟩ | rfl
        · exact .inr ⟨hcall, all', hall', hinfix.trans hgrows⟩
        · cases hresult
    | some r =>
      simp only [Log.finish, update_self]
      rcases hself with ⟨all, hall, hinfix⟩ | ⟨hcall, all, hall, hinfix⟩
      · obtain ⟨hlt, -⟩ := List.getElem?_eq_some_iff.mp hall
        exact .inl ⟨all, (List.getElem?_append_left hlt).trans hall, hinfix⟩
      · -- this is the call that returns
        rcases hmoves.gathers hall with ⟨all', hall', -⟩ | rfl
        · rw [FlowPoint.resultOf_prog hresult] at hall'
          cases hall'
        · cases hresult
          exact .inl ⟨all, by rw [hcall, List.getElem?_concat_length], hinfix⟩
  · have hreturns : (l.finish i (resultOf pt.prog)).returns t.flow = l.returns t.flow := by
      cases resultOf pt.prog with
      | none => rfl
      | some r => exact update_of_ne hti ..
    unfold Returned
    rw [hreturns, update_of_ne hti]
    exact h t ht

/-- Steps of a flow -/
theorem Delivered.flowMove (h : Delivered fs l) (hm : s.shared = m) (hm' : s'.shared = m')
    (hpt : s'.thread (.flow i) = pt.prog) (hmoves : FlowMoves m (fs i) a m' pt) :
    Delivered (update fs i pt) (note s (Event.of (.flow i) a) s' l) := by
  rcases hmoves.noted (l := l) hm hm' hpt with
    ⟨r, id, ch, o, hself, -, -, rfl, hnote⟩ | ⟨-, -, hnote⟩
  · rw [hnote]
    exact h.take hself
  · rw [hnote]
    exact h.goOn hmoves

end Delivered

/-! ## The end of a `ReceiveMessage` -/

/-- No more messages come: `WaitMessage` fails, and so does a `select`. -/
def quiet : Outside :=
  ⟨⟨"", 0⟩, .error "", .timeout, ⟨"", 0, []⟩, none, false⟩

section Quiet

variable {n k : Nat} {s : ChatPool n k} {i : Fin n} {pt : FlowPoint} {all : List Message}

/-- When no more messages come, a `ReceiveMessage` that has some gets nearer to its end. -/
theorem FlowPoint.quiet_move (hthread : s.thread (.flow i) = pt.prog)
    (hall : pt.gathered = some all) :
    ∃ (m' : Conversation) (pt' : FlowPoint),
      s.move chat (.flow i) quiet = some (s.set (.flow i) m' pt'.prog) ∧
        (pt' = .received (.ok (messageToText all)) ∨
          pt'.gathered = some all ∧ pt'.rank < pt.rank) := by
  -- `WaitMessage` fails and timers go off, so that every access can be made at once
  have hact : ∀ {a : Op} {f : a.Result → Go Label} {r : a.Result} {m' : Conversation},
      pt.prog = .act a f → exec quiet a s.shared = some (r, m') →
        s.move chat (.flow i) quiet = some (s.set (.flow i) m' (f r)) := by
    intro a f r m' hprog hexec
    simp only [Pool.move, hthread, hprog, chat, hexec, Option.map_some]
  cases pt with
  | naming r => exact ⟨_, .making r _, hact rfl rfl, .inr ⟨hall, Nat.lt_succ_self _⟩⟩
  | making r id => exact ⟨_, .adding r id _, hact rfl rfl, .inr ⟨hall, Nat.lt_succ_self _⟩⟩
  | adding r id ch => exact ⟨_, .calling r id ch, hact rfl rfl, .inr ⟨hall, Nat.lt_succ_self _⟩⟩
  | calling r id ch =>
    exact ⟨_, .deleting r id ch (.error (errWaitMessage "")), hact rfl rfl,
      .inr ⟨hall, Nat.lt_succ_self _⟩⟩
  | selecting r id ch =>
    exact ⟨_, .deleting r id ch (.error errWaitMessageTimeout), hact rfl rfl,
      .inr ⟨hall, Nat.lt_succ_self _⟩⟩
  | deleting r id ch got =>
    exact ⟨_, r.landing got, by rw [← r.landing_prog]; exact hact rfl rfl,
      .inr (Round.gathered_landing hall)⟩
  | collecting name msgs =>
    refine ⟨s.shared, .naming (.loop name msgs), ?_, .inr ⟨hall, Nat.lt_succ_self _⟩⟩
    have hcollect : collect name msgs = (FlowPoint.naming (.loop name msgs)).prog := by
      refine receive_bind _ fun got => ?_
      cases got <;> rfl
    rw [← hcollect]
    simp only [Pool.move, hthread, FlowPoint.prog, chat, Option.map_some]
  | storing name m msgs =>
    exact ⟨_, .saving (m :: msgs), hact rfl rfl, .inr ⟨hall, Nat.lt_succ_self _⟩⟩
  | saving msgs =>
    cases hall
    exact ⟨_, .received (.ok (messageToText all)), hact rfl rfl, .inl rfl⟩
  | idle => cases hall
  | received r => cases hall

/-- Whatever the other goroutines do not do, the flow comes to return its messages. -/
theorem FlowPoint.quiet_run (hthread : s.thread (.flow i) = pt.prog)
    (hall : pt.gathered = some all) :
    ∃ steps s', Pool.play chat (List.replicate steps (.flow i, quiet)) s = some s' ∧
      s'.thread (.flow i) = .ret (.received (.ok (messageToText all))) := by
  -- by induction on the steps that are left
  induction hrank : pt.rank using Nat.strong_induction_on generalizing s pt with
  | _ rank ih =>
    obtain ⟨m', pt', hmove, hnext⟩ := FlowPoint.quiet_move hthread hall
    have hplay : ∀ steps, Pool.play chat (List.replicate (steps + 1) (.flow i, quiet)) s =
        Pool.play chat (List.replicate steps (.flow i, quiet)) (s.set (.flow i) m' pt'.prog) := by
      intro steps
      simp only [List.replicate, Pool.play, hmove, Option.bind_some]
    rcases hnext with rfl | ⟨hall', hlt⟩
    · exact ⟨1, _, hplay 0, Pool.set_thread_self ..⟩
    · obtain ⟨steps, s', hrest, hreturns⟩ :=
        ih pt'.rank (hrank ▸ hlt) (Pool.set_thread_self ..) hall' rfl
      exact ⟨steps + 1, s', (hplay steps).trans hrest, hreturns⟩

end Quiet

/-- The `ReceiveMessage` that has taken the messages is under way, and returns them as soon as no
more messages come. -/
def Returning {n k : Nat} (x : ChatPool n k × Log n) (t : Take n) : Prop :=
  t.call = (x.2.returns t.flow).length ∧
    ∃ steps s' all, Pool.play chat (List.replicate steps (.flow t.flow, quiet)) x.1 = some s' ∧
      s'.thread (.flow t.flow) = .ret (.received (.ok (messageToText all))) ∧ t.messages <:+: all

/-! ## All steps -/

/-- What holds at every moment of a run in which the requests are attended to. -/
structure Kept {n k : Nat} (m : Conversation) (pts : ∀ t : Thread n k, Point t) (l : Log n) :
    Prop where
  registered : Registered m fun i => pts (.flow i)
  held : Held m (fun i => pts (.flow i)) (fun j => pts (.server j)) l
  delivered : Delivered (fun i => pts (.flow i)) l

section Kept

variable {n k : Nat} {m m' : Conversation} {pts pts' : ∀ t : Thread n k, Point t} {l : Log n}
  {s s' : ChatPool n k}

theorem update_flow (i : Fin n) (pt : FlowPoint) :
    (fun u => update pts (.flow i) pt (.flow u)) =
      update (fun u => pts (.flow u)) i pt :=
  update_family (P := Point) (fun _ _ => Thread.flow.inj) (fun _ (p : FlowPoint) => p) pts i pt

theorem update_server (j : Fin k) (pt : ServerPoint) :
    (fun u => update pts (.server j) pt (.server u)) =
      update (fun u => pts (.server u)) j pt :=
  update_family (P := Point) (fun _ _ => Thread.server.inj) (fun _ (p : ServerPoint) => p) pts j pt

/-- The condition, by points, for a flow that stops to wait -/
theorem Kept.leaves (h : Kept m pts l) (hm : s.shared = m) (hm' : s'.shared = m')
    (hat : s.At progAt pts) (hpt : s'.thread (.flow i) = pt.prog)
    (hmoves : FlowMoves m (pts (.flow i)) a m' pt)
    (hcond : Attended (s, l) (Event.of (.flow i) a) (s', note s (Event.of (.flow i) a) s' l))
    (ch : Nat) (hwaits : FlowPoint.waits (pts (.flow i)) = some ch) (hstops : pt.waits = none) :
    m'.chans.offers.length < m.chans.offers.length ∨
      ∀ j, ServerPoint.holds (pts (.server j)) ≠ some ch := by
  have hstored : ∀ id ch, FlowPoint.entry (pts (.flow i)) = some (id, ch) →
      m.confirmation id = some ch := fun _ _ => h.registered.stored
  generalize pts (.flow i) = pt₀ at hmoves hwaits hstored
  have hholds : ∀ j, Holds ch (s.thread (.server j)) = false →
      ServerPoint.holds (pts (.server j)) ≠ some ch := by
    intro j hj
    rw [hat (.server j)] at hj
    exact ServerPoint.holds_prog hj
  have hselect : (¬ s'.shared.chans.offers.length < s.shared.chans.offers.length →
      ∀ j, Holds ch (s.thread (.server j)) = false) →
        m'.chans.offers.length < m.chans.offers.length ∨
          ∀ j, ServerPoint.holds (pts (.server j)) ≠ some ch := by
    intro hgives
    rw [hm, hm'] at hgives
    by_cases hlt : m'.chans.offers.length < m.chans.offers.length
    · exact .inl hlt
    · exact .inr fun j => hholds j (hgives hlt j)
  cases hmoves with
  | wait => cases hstops
  | @answer r id ch' got =>
    cases hwaits
    refine .inr fun j => hholds j ?_
    refine hcond ?_ ch ?_ j
    · rw [hpt]
      exact decide_eq_true rfl
    · rw [hm]
      exact hstored id ch rfl
  | take | giveUp =>
    cases hwaits
    exact hselect hcond
  | _ => cases hwaits

/-- The condition, by points, for a request that finds a channel -/
theorem Kept.looks (h : Kept m pts l) (hm : s.shared = m) (hat : s.At progAt pts)
    {id ch : Nat} (hfound : m.confirmation id = some ch)
    (hcond : Attended (s, l) (.act (.server j) (.confirmation id)) y) :
    (∃ i, FlowPoint.waits (pts (.flow i)) = some ch) ∧
      ∀ u, u ≠ j → ServerPoint.holds (pts (.server u)) ≠ some ch := by
  obtain ⟨hflows, hothers⟩ := hcond ch (by rw [hm]; exact hfound)
  constructor
  · obtain ⟨i, hi⟩ := h.registered.only hfound
    have hleaves := hflows i
    rw [hat (.flow i)] at hleaves
    exact ⟨i, FlowPoint.waits_of_entry hi hleaves⟩
  · intro u huj
    have hu := hothers u huj
    rw [hat (.server u)] at hu
    exact ServerPoint.holds_prog hu

/-- The condition, by points, for a request whose timer goes off -/
theorem Kept.late (h : Kept m pts l) (hm : s.shared = m) (hm' : s'.shared = m')
    (hat : s.At progAt pts) {j : Fin k} {conf ticket : Nat}
    (hcond : Attended (s, l) (.act (.server j) (.sent conf ticket)) (s', l'))
    (hlt : m'.chans.offers.length < m.chans.offers.length) (i : Fin n) :
    FlowPoint.waits (pts (.flow i)) ≠ some conf := by
  intro hwaits
  have hnobody : Waits s.shared conf (s.thread (.flow i)) = false :=
    hcond (by rw [hm, hm']; exact hlt) i
  rw [hm, hat (.flow i)] at hnobody
  have hsome := FlowPoint.waits_prog hwaits fun _ _ => h.registered.stored (i := i)
  exact absurd (hnobody.symm.trans hsome) nofun

theorem note_server : note s (Event.of (.server j) a) s' l = l := by
  cases a <;> rfl

theorem ServerMoves.frame (h : ServerMoves m (pts (.server j)) a m' pt) :
    m'.ids = m.ids ∧ m'.confirmation = m.confirmation := by
  generalize pts (.server j) = pt₀ at h
  cases h <;> exact ⟨rfl, rfl⟩

theorem Kept.keep {e : Concurrent.Event (Thread n k) Op} (hm : s.shared = m) (hm' : s'.shared = m')
    (hat : s.At progAt pts) (hat' : s'.At progAt pts') (hmoves : Moving moves m pts e m' pts')
    (h : Kept m pts l) (hcond : Attended (s, l) e (s', note s e s' l)) :
    Kept m' pts' (note s e s' l) := by
  cases hmoves with
  | @move t a m' pt hmoves =>
    have hpt : s'.thread t = progAt t pt := by
      rw [hat' t, update_self]
    cases t with
    | flow i =>
      have hleaves := h.leaves hm hm' hat hpt hmoves hcond
      constructor
      · rw [update_flow]
        exact h.registered.flowMove hmoves
      · rw [update_flow]
        exact h.held.flowMove hm hm' hpt hmoves hleaves
      · rw [update_flow]
        exact h.delivered.flowMove hm hm' hpt hmoves
    | server j =>
      obtain ⟨hids, hconfirmation⟩ := ServerMoves.frame hmoves
      rw [note_server]
      constructor
      · exact h.registered.congr hids hconfirmation
      · rw [update_server]
        refine h.held.serverMove hmoves ?_ ?_
        · rintro id ch rfl hfound
          exact h.looks hm hat hfound hcond
        · rintro conf ticket rfl hlt
          exact h.late hm hm' hat hcond hlt
      · exact h.delivered
    | client =>
      generalize pts .client = pt₀ at hmoves
      cases hmoves with
      | start => exact ⟨h.registered, h.held, h.delivered⟩
      | cancel =>
        refine ⟨h.registered.congr rfl rfl, ?_, h.delivered⟩
        exact ⟨h.held.alone, h.held.offering, h.held.offers, h.held.takes, h.held.sound⟩

end Kept

/-- No call has been made. -/
def atRest {n k : Nat} : (t : Thread n k) → Point t
  | .flow _ => .idle
  | .server _ => .standby
  | .client => .idle

theorem at_newConversation (n k : Nat) : (newConversation n k).At progAt atRest := by
  intro t
  cases t <;> rfl

theorem kept_newConversation (n k : Nat) :
    Kept (newConversation n k).shared (atRest (n := n) (k := k)) Log.empty where
  registered := ⟨⟨nofun, nofun⟩, nofun, nofun⟩
  held := ⟨nofun, nofun, nofun, nofun, fun _ => trivial⟩
  delivered := nofun

theorem ServerPoint.confirmed_of_prog {pt : ServerPoint}
    (h : pt.prog = .ret (.confirmed ticket msgs)) : pt = .confirmed ticket msgs := by
  cases pt with
  | confirmed ticket msgs =>
    cases h
    rfl
  | _ => cases h

/-- In every interleaving of any number of flows that receive messages and any number of
`ConfirmationMessage` requests that are attended to, if a request has returned success then
exactly one `receive` has taken its messages, and the `ReceiveMessage` that has called it has
returned them, or has them and returns them as soon as no more messages come. -/
theorem delivered_of_attended {n k : Nat} {ok : Prop} {x : ChatPool n k × Log n}
    (h : Trace.Steps (Recorded chat note) Attended (newConversation n k, Log.empty) ok x)
    (hok : ok) {j : Fin k} {ticket : Nat} {msgs : List Message}
    (hsuccess : x.1.thread (.server j) = .ret (.confirmed ticket msgs)) :
    ∃ t, x.2.takes.filter (fun t => t.ticket = ticket) = [t] ∧ t.messages = msgs ∧
      (Returned x.2 t ∨ Returning x t) := by
  obtain ⟨pts, hat, hkept⟩ : ∃ pts, x.1.At progAt pts ∧ Kept x.1.shared pts x.2 :=
    (chat_outline n k).run h hok (at_newConversation n k) (kept_newConversation n k)
      fun hm hm' hat hat' hmoves hinv hcond => hinv.keep hm hm' hat hat' hmoves hcond
  have htaken : Taken x.2 ticket msgs := by
    rw [hat (.server j)] at hsuccess
    have hsound := hkept.held.sound j
    rwa [ServerPoint.confirmed_of_prog hsuccess] at hsound
  obtain ⟨t, hfilter, hmsgs⟩ := htaken
  refine ⟨t, hfilter, hmsgs, ?_⟩
  rcases hkept.delivered t (Log.mem_of_filter hfilter).1 with hreturned | ⟨hcall, all, hall, hinfix⟩
  · exact .inl hreturned
  · obtain ⟨steps, s', hplay, hreturns⟩ := FlowPoint.quiet_run (hat (.flow t.flow)) hall
    exact .inr ⟨hcall, steps, s', all, hplay, hreturns, hinfix⟩

/-! ## Schedules -/

/-- A message of the customer -/
def hello : Message := ⟨"text", "hello", none⟩

/-- What is outside for the flow: `WaitMessage` has no messages, and the `select` is left as
given. -/
def flowSide (leave : Leave) : Outside :=
  ⟨⟨"", 0⟩, .ok [], leave, ⟨"", 0, []⟩, none, false⟩

/-- The flow moves. -/
def flows {k : Nat} (leave : Leave) (moves : Nat) : List (Thread 1 k × Outside) :=
  List.replicate moves (.flow 0, flowSide leave)

/-- A request with the message for the confirmation id 0 moves. -/
def confirms {k : Nat} (j : Fin k) (late : Bool) (moves : Nat) : List (Thread 1 k × Outside) :=
  List.replicate moves
    (.server j, ⟨⟨"", 0⟩, .ok [], .message, ⟨"chat", 0, [hello]⟩, none, late⟩)

instance {n k : Nat} (x : ChatPool n k × Log n) (e : Concurrent.Event (Thread n k) Op)
    (y : ChatPool n k × Log n) : Decidable (Attended x e y) := by
  unfold Attended
  split <;> infer_instance

/-- What `ConfirmationMessage` has confirmed, if it has -/
def confirmation : Go Label → Option (Nat × List Message)
  | .ret (.confirmed ticket msgs) => some (ticket, msgs)
  | _ => none

theorem thread_of_confirmation (h : confirmation p = some (ticket, msgs)) :
    p = .ret (.confirmed ticket msgs) := by
  unfold confirmation at h
  split at h
  · cases h
    rfl
  · cases h

/-- The request finds the channel while the flow waits, the flow takes the message and returns
it, and then the request returns. -/
def served : List (Thread 1 1 × Outside) :=
  flows .message 5 ++ confirms 0 false 4 ++ flows .message 3 ++ confirms 0 false 1

theorem delivered_of_attended_served :
    ∃ x, Trace.play (Pool.record chat note) served (newConversation 1 1, Log.empty) = some x ∧
      x.1.thread (.server 0) = .ret (.confirmed 1 [hello]) ∧
        ∃ t, x.2.takes.filter (fun t => t.ticket = 1) = [t] ∧ t.messages = [hello] ∧
          (Returned x.2 t ∨ Returning x t) := by
  obtain ⟨x, hx, hstate, ok, hsteps, hok⟩ := Pool.reaches_record chat note
    (fun x e y => of_decide_eq_true (p := Attended x e y)) served (newConversation 1 1, Log.empty)
    (fun x => confirmation (x.1.thread (.server 0)) = some (1, [hello])) (by decide +kernel)
  have hthread := thread_of_confirmation hstate
  exact ⟨x, hx, hthread, delivered_of_attended hsteps hok hthread⟩

/-- The request finds the channel, the flow times out, and the request sends in vain until its
timer goes off. -/
def missed : List (Thread 1 1 × Outside) :=
  flows .timeout 5 ++ confirms 0 true 3 ++ flows .timeout 2 ++ confirms 0 true 2

/-- `ConfirmationMessage` has returned success, nobody has taken the message, and
`ReceiveMessage` has returned an error. -/
theorem delivered_of_attended_missed :
    ∃ ok x, Trace.Steps (Recorded chat note) Attended (newConversation 1 1, Log.empty) ok x ∧
      x.1.thread (.server 0) = .ret (.confirmed 1 [hello]) ∧ x.2.takes = [] ∧
        x.2.returns 0 = [.error errWaitMessageTimeout] := by
  obtain ⟨x, -, ⟨hthread, htakes, hreturns⟩, ok, hsteps⟩ := Trace.reaches
    (Pool.record_step chat note) Attended missed (newConversation 1 1, Log.empty)
    (fun x => confirmation (x.1.thread (.server 0)) = some (1, [hello]) ∧ x.2.takes = [] ∧
      x.2.returns 0 = [.error errWaitMessageTimeout]) (by decide +kernel)
  exact ⟨ok, x, hsteps, thread_of_confirmation hthread, htakes, hreturns⟩

/-- In every run, attended to or not, what a `receive` has taken is not lost: the `ReceiveMessage`
that has called it has returned it, or returns it as soon as no more messages come. -/
theorem returned_of_taken {n k : Nat} {ok : Prop} {x : ChatPool n k × Log n}
    (h : Trace.Steps (Recorded chat note) Attended (newConversation n k, Log.empty) ok x)
    {t : Take n} (ht : t ∈ x.2.takes) : Returned x.2 t ∨ Returning x t := by
  obtain ⟨_, hsteps, hok⟩ := h.free
  let Inv (_ : Conversation) (pts : ∀ t : Thread n k, Point t) (l : Log n) : Prop :=
    Delivered (fun i => pts (.flow i)) l
  obtain ⟨pts, hat, hdelivered⟩ : ∃ pts, x.1.At progAt pts ∧ Inv x.1.shared pts x.2 := by
    refine (chat_outline n k).run hsteps hok (at_newConversation n k) nofun ?_
    rintro s s' m m' pts _ _ l hm hm' - hat' ⟨hmoves⟩ hinv -
    rename_i u a pt
    have hpt : s'.thread u = progAt u pt := (hat' u).trans (by rw [update_self])
    cases u with
    | flow i =>
      show Delivered _ _
      rw [update_flow]
      exact hinv.flowMove hm hm' hpt hmoves
    | server j =>
      rw [note_server]
      exact hinv
    | client => cases a <;> exact hinv
  rcases hdelivered t ht with hreturned | ⟨hcall, all, hall, hinfix⟩
  · exact .inl hreturned
  · obtain ⟨steps, s', hplay, hreturns⟩ := FlowPoint.quiet_run (hat (.flow t.flow)) hall
    exact .inr ⟨hcall, steps, s', all, hplay, hreturns, hinfix⟩

theorem returned_of_taken_served :
    ∃ x t, Trace.play (Pool.record chat note) served (newConversation 1 1, Log.empty) = some x ∧
      t ∈ x.2.takes ∧ (Returned x.2 t ∨ Returning x t) := by
  obtain ⟨x, hx, ⟨t, ht⟩, ok, hsteps⟩ := Trace.reaches (Pool.record_step chat note) Attended served
    (newConversation 1 1, Log.empty) (fun x => ∃ t ∈ x.2.takes, t.flow = 0) (by decide +kernel)
  exact ⟨x, t, hx, ht.1, returned_of_taken hsteps ht.1⟩

end FlowManager.Grpc.Confirm
