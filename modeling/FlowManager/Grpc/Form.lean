import FlowManager.Flow.Program
import FlowManager.Lib.Channel
import FlowManager.Lib.Outline

/-!
# Forms of a processing connection

The flow pushes a form and waits for the client's action on it; the client takes the form from
the buffer `forms`, and its `FormAction` sends the action on the channel `formAction` of the
connection. Neither side holds a lock over more than one access: `PushForm` publishes the form
before it makes the channel, and `FormAction` closes and removes whatever channel it finds
after the flow has taken the action and gone on.

- `pushForm`, `formAction`, `waitForm`, `componentAction`: the calls, access by access.
- `Moves`, `form_outline`: what a step of them can do.
- `Joint`: where the flow and the client that has the form are, as long as every form is
  answered and `PushForm` returns after the `FormAction` that answers it.
- `slot_free_of_settled`, `protocol_of_orderly`: the results.
-/

namespace FlowManager.Grpc.Form

open Concurrent Function

/-- `processing.FormElem` -/
structure FormElem where
  id : String
  json : String

/-- `processing.FormAction` -/
structure FormAction where
  name : String
  fields : List (String × String)
  deriving DecidableEq

/-- `processingConnection` -/
structure Conn where
  formId : String
  forms : List FormElem
  formAction : Option Nat
  chans : Channels FormAction
  /-- a goroutine has panicked, and the process with it -/
  panicked : Bool

/-- The capacity of `forms` -/
def formsCap : Nat := 5

/-- How `PushForm` leaves its `select`. -/
inductive Awaited where
  | action (a : FormAction)
  /-- the channel is closed -/
  | closed
  /-- `ctx.Done()`; it is only ever closed, so nothing is received from it -/
  | done

/-- The accesses -/
inductive Op where
  /-- `c.formAction != nil` -/
  | isActive
  /-- the channel `c.formAction` -/
  | formAction
  /-- `c.formAction = make(chan processing.FormAction)` -/
  | makeFormAction
  /-- `c.formAction = nil` -/
  | clearFormAction
  | activeFormId
  | setActiveFormId (id : String)
  /-- `c.forms <- form` -/
  | pushForm (f : FormElem)
  /-- the `select` of `PushForm` -/
  | await (ch : Option Nat)
  /-- `ch <- action` begins -/
  | offer (ch : Option Nat) (a : FormAction)
  /-- `ch <- action` ends -/
  | sent (ticket : Nat)
  | close (ch : Option Nat)
  /-- the `select` of `waitForm` -/
  | waitForm

/-- The answer to an access. -/
abbrev Op.Result : Op → Type
  | .isActive => Bool
  | .formAction => Option Nat
  | .activeFormId => String
  | .await _ => Awaited
  | .offer _ _ => Nat
  | .waitForm => Except AppError (Option FormElem)
  | _ => Unit

/-- How `waitForm` leaves its `select`. -/
inductive Wait where
  | timeout
  | finished
  | cancelled
  | form

/-- What comes from outside. -/
structure Outside where
  /-- the flow's next form -/
  form : FormElem
  /-- what the client does with a form, if anything -/
  action : Option FormAction
  /-- the context of `PushForm` has ended -/
  ended : Bool
  wait : Wait
  /-- what a client sends that has no form, if anything: `FormAction` names no form -/
  unasked : Option FormAction

def errTimeout : AppError := ⟨"Processing", "processing.connection.form.timeout", "Timeout", 400⟩

def errCancel : AppError :=
  ⟨"Processing", "processing.connection.form.cancel", "Context cancel", 400⟩

/-- The process ends. -/
def Conn.panic (s : Conn) : Conn := { s with panicked := true }

/-- The accesses in a process that runs; `none` if they cannot be made yet. -/
def attempt (w : Outside) : (a : Op) → Conn → Option (a.Result × Conn)
  | .isActive, s => some (s.formAction.isSome, s)
  | .formAction, s => some (s.formAction, s)
  | .makeFormAction, s =>
    some ((), { s with formAction := some s.chans.next, chans := s.chans.make })
  | .clearFormAction, s => some ((), { s with formAction := none })
  | .activeFormId, s => some (s.formId, s)
  | .setActiveFormId id, s => some ((), { s with formId := id })
  | .pushForm f, s =>
    if s.forms.length < formsCap then some ((), { s with forms := s.forms ++ [f] }) else none
  | .await ch, s =>
    if w.ended then some (.done, s)
    else match ch with
      -- nothing is ever received from a nil channel
      | none => none
      | some c =>
        match s.chans.first c with
        | some o => some (.action o.value, { s with chans := s.chans.withdraw o.ticket })
        | none => if s.chans.closed c then some (.closed, s) else none
  | .offer ch a, s =>
    match ch with
    -- a send on a nil channel blocks for ever, one on a closed channel panics
    | none => none
    | some c =>
      if s.chans.closed c then some (0, s.panic)
      else some (s.chans.next, { s with chans := s.chans.offer c a })
  | .sent ticket, s =>
    match s.chans.standing ticket with
    | none => some ((), s)
    -- the channel has been closed under a sender that waits
    | some o => if s.chans.closed o.chan then some ((), s.panic) else none
  | .close ch, s =>
    match ch with
    | none => some ((), s.panic)
    | some c =>
      if s.chans.closed c then some ((), s.panic)
      else some ((), { s with chans := s.chans.close c })
  | .waitForm, s =>
    match w.wait with
    | .timeout => some (.error errTimeout, s)
    | .finished => some (.ok none, s)
    | .cancelled => some (.error errCancel, s)
    | .form =>
      match s.forms with
      | [] => none
      | f :: rest => some (.ok (some f), { s with forms := rest })

/-- The accesses; nothing is done after a panic. -/
def exec (w : Outside) (a : Op) (s : Conn) : Option (a.Result × Conn) :=
  if s.panicked then none else attempt w a s

abbrev Go := Prog Op Op.Result

/-- A single access. -/
abbrev access (a : Op) : Go a.Result := call a

def errTwoForms : AppError :=
  ⟨"Processing.PushForm", "processing.form.push.app_err", "Not allow two form", 500⟩

def errNoAction : AppError :=
  ⟨"Processing.PushForm", "processing.form.push.action", "Form no send action", 500⟩

def errNotFound : AppError :=
  ⟨"Processing.FillForm", "processing.form.fill.app_err", "Not found active form", 500⟩

/-- The errors of `ComponentAction` -/
def componentError (details : String) : AppError := ⟨"App", "processing.form.app_err", details, 500⟩

/-- `processingConnection.PushForm`. The branch for a value from `ctx.Done()` is never taken. -/
def pushForm (form : FormElem) : Go (Except AppError FormAction) := do
  if ← access .isActive then return .error errTwoForms
  else
    access (.setActiveFormId form.id)
    access (.pushForm form)
    access .makeFormAction
    match ← access (.await (← access .formAction)) with
    | .action a => return .ok a
    | _ => return .error errNoAction

/-- `processingConnection.FormAction`. The field is read again for every use of it. -/
def formAction (action : FormAction) : Go (Option AppError) := do
  if ← access .isActive then
    let ticket ← access (.offer (← access .formAction) action)
    access (.sent ticket)
    access (.close (← access .formAction))
    access .clearFormAction
    access (.setActiveFormId "")
    return none
  else return some errNotFound

/-- `processingConnection.waitForm` -/
def waitForm : Go (Except AppError (Option FormElem)) := access .waitForm

/-- `processingConnection.ComponentAction`, up to the output function `fn` of the component -/
def componentAction (formId : String) (fn : Except AppError Unit) : Go (Except AppError Unit) := do
  if ← access .isActive then
    if (← access .activeFormId) = formId then return fn
    else return .error (componentError "invalid form id")
  else return .error (componentError "not found active form")

/-- Where a goroutine goes on. -/
inductive Label where
  /-- the flow between two forms -/
  | idle
  /-- `PushForm` returns -/
  | pushed (r : Except AppError FormAction)
  /-- a client that asks for a form -/
  | waiting
  /-- a client that has received a form -/
  | holding (f : FormElem)
  /-- `FormAction` on a form returns -/
  | acted (f : FormElem) (err : Option AppError)

/-- The flow and the calls of the clients -/
inductive Thread (n : Nat) where
  | flow
  | client (i : Fin n)
  deriving DecidableEq

/-- A flow that pushes one form after another, and clients. A client whose action was accepted has
the form no more, one whose action was refused still has it. -/
def forms : System Conn Outside Op Op.Result Label where
  exec := exec
  code w
    | .idle => some do return .pushed (← pushForm w.form)
    | .pushed _ => some (.ret .idle)
    | .waiting =>
      match w.unasked with
      | some a => some do return .acted w.form (← formAction a)
      | none => some do
        match ← waitForm with
        | .ok (some f) => return .holding f
        | _ => return .waiting
    | .holding f =>
      match w.action with
      | some a => some do return .acted f (← formAction a)
      | none => some (.ret .waiting)
    | .acted f (some _) => some (.ret (.holding f))
    | .acted _ none => some (.ret .waiting)
  env _ _ := False

abbrev FormPool (n : Nat) := Pool (Thread n) Conn Op Op.Result Label

/-- A new connection -/
def newConnection (n : Nat) : FormPool n where
  shared := ⟨"", [], none, .empty, false⟩
  thread
    | .flow => .ret .idle
    | .client _ => .ret .waiting

/-! ## Conditions -/

/-- The program is inside of `FormAction`. -/
def Acts : Go Label → Bool
  | .act .waitForm _ => false
  | .act _ _ => true
  | .ret _ => false

/-- `PushForm` has made its channel and waits for the action. -/
def Awaits : Go Label → Bool
  | .act .formAction _ => true
  | .act (.await _) _ => true
  | _ => false

/-- `PushForm` leaves its `select` with an action, and returns only when no `FormAction` is
under way; a client without a form does not call `FormAction`. -/
def Settled {n : Nat} (s : FormPool n) (e : Concurrent.Event (Thread n) Op) (s' : FormPool n) :
    Prop :=
  match e with
  | .act .flow (.await _) => s'.shared.chans.offers.length < s.shared.chans.offers.length
  | .next .flow =>
    match s.thread .flow with
    | .ret (.pushed _) => ∀ i, Acts (s.thread (.client i)) = false
    | _ => True
  | .next (.client i) =>
    match s.thread (.client i) with
    | .ret .waiting => Acts (s'.thread (.client i)) = false
    | _ => True
  | _ => True

/-! ## Points of the code -/

/-- Where the flow is. -/
inductive FlowPoint where
  | idle
  | pushed (r : Except AppError FormAction)
  | checking (f : FormElem)
  | setting (f : FormElem)
  | pushing (f : FormElem)
  | making (f : FormElem)
  | evaluating (f : FormElem)
  | awaiting (f : FormElem) (ch : Option Nat)

/-- What `PushForm` returns when it leaves its `select`. -/
def outcome : Awaited → Except AppError FormAction
  | .action a => .ok a
  | _ => .error errNoAction

/-- What the flow has still to do. -/
def FlowPoint.prog : FlowPoint → Go Label
  | .idle => .ret .idle
  | .pushed r => .ret (.pushed r)
  | .checking f => do return .pushed (← pushForm f)
  | .setting f => .act (.setActiveFormId f.id) fun _ => .act (.pushForm f) fun _ =>
      .act .makeFormAction fun _ => .act .formAction fun ch => .act (.await ch) fun r =>
        .ret (.pushed (outcome r))
  | .pushing f => .act (.pushForm f) fun _ => .act .makeFormAction fun _ =>
      .act .formAction fun ch => .act (.await ch) fun r => .ret (.pushed (outcome r))
  | .making _ => .act .makeFormAction fun _ => .act .formAction fun ch => .act (.await ch) fun r =>
      .ret (.pushed (outcome r))
  | .evaluating _ => .act .formAction fun ch => .act (.await ch) fun r =>
      .ret (.pushed (outcome r))
  | .awaiting _ ch => .act (.await ch) fun r => .ret (.pushed (outcome r))

/-- Where a client is; `f` is the form that it has received. -/
inductive ClientPoint where
  | waiting
  | fetching
  | holding (f : FormElem)
  | acted (f : FormElem) (err : Option AppError)
  | checking (f : FormElem) (a : FormAction)
  | evaluating (f : FormElem) (a : FormAction)
  | offering (f : FormElem) (a : FormAction) (ch : Option Nat)
  | sending (f : FormElem) (ticket : Nat)
  | handed (f : FormElem)
  | closing (f : FormElem) (ch : Option Nat)
  | clearing (f : FormElem)
  | blanking (f : FormElem)

/-- `FormAction`, once the flow has the action -/
def tidyUp (f : FormElem) : Go Label :=
  .act .formAction fun ch => .act (.close ch) fun _ => .act .clearFormAction fun _ =>
    .act (.setActiveFormId "") fun _ => .ret (.acted f none)

/-- What a client has still to do. -/
def ClientPoint.prog : ClientPoint → Go Label
  | .waiting => .ret .waiting
  | .fetching => .act .waitForm fun
    | .ok (some f) => .ret (.holding f)
    | _ => .ret .waiting
  | .holding f => .ret (.holding f)
  | .acted f err => .ret (.acted f err)
  | .checking f a => do return .acted f (← formAction a)
  | .evaluating f a => .act .formAction fun ch => .act (.offer ch a) fun ticket =>
      .act (.sent ticket) fun _ => tidyUp f
  | .offering f a ch => .act (.offer ch a) fun ticket => .act (.sent ticket) fun _ => tidyUp f
  | .sending f ticket => .act (.sent ticket) fun _ => tidyUp f
  | .handed f => tidyUp f
  | .closing f ch => .act (.close ch) fun _ => .act .clearFormAction fun _ =>
      .act (.setActiveFormId "") fun _ => .ret (.acted f none)
  | .clearing f => .act .clearFormAction fun _ =>
      .act (.setActiveFormId "") fun _ => .ret (.acted f none)
  | .blanking f => .act (.setActiveFormId "") fun _ => .ret (.acted f none)

/-- The points of a goroutine -/
abbrev Point {n : Nat} : Thread n → Type
  | .flow => FlowPoint
  | .client _ => ClientPoint

/-- What a goroutine has still to do. -/
def progAt {n : Nat} : (t : Thread n) → Point t → Go Label
  | .flow => FlowPoint.prog
  | .client _ => ClientPoint.prog

/-- The flow moves from `pt`. -/
inductive FlowMoves (m : Conn) : FlowPoint → Option Op → Conn → FlowPoint → Prop where
  | push : FlowMoves m .idle none m (.checking f)
  | back : FlowMoves m (.pushed r) none m .idle
  | refuse (h : m.formAction.isSome = true) :
      FlowMoves m (.checking f) (some .isActive) m (.pushed (.error errTwoForms))
  | check (h : m.formAction.isSome = false) :
      FlowMoves m (.checking f) (some .isActive) m (.setting f)
  | set :
      FlowMoves m (.setting f) (some (.setActiveFormId f.id)) { m with formId := f.id } (.pushing f)
  | publish :
      FlowMoves m (.pushing f) (some (.pushForm f)) { m with forms := m.forms ++ [f] } (.making f)
  | make :
      FlowMoves m (.making f) (some .makeFormAction)
        { m with formAction := some m.chans.next, chans := m.chans.make } (.evaluating f)
  | evaluate : FlowMoves m (.evaluating f) (some .formAction) m (.awaiting f m.formAction)
  | take {f : FormElem} {c : Nat} {o : Offer FormAction} (h : m.chans.first c = some o) :
      FlowMoves m (.awaiting f (some c)) (some (.await (some c)))
        { m with chans := m.chans.withdraw o.ticket } (.pushed (.ok o.value))
  | fail : FlowMoves m (.awaiting f ch) (some (.await ch)) m (.pushed (.error errNoAction))

/-- A client moves from `pt`. -/
inductive ClientMoves (m : Conn) : ClientPoint → Option Op → Conn → ClientPoint → Prop where
  | wait : ClientMoves m .waiting none m .fetching
  | unasked : ClientMoves m .waiting none m (.checking f a)
  | fetch (h : m.forms = f :: rest) :
      ClientMoves m .fetching (some .waitForm) { m with forms := rest } (.holding f)
  | unfetched : ClientMoves m .fetching (some .waitForm) m .waiting
  | act : ClientMoves m (.holding f) none m (.checking f a)
  | drop : ClientMoves m (.holding f) none m .waiting
  | done : ClientMoves m (.acted f none) none m .waiting
  | retry : ClientMoves m (.acted f (some err)) none m (.holding f)
  | refuse (h : m.formAction.isSome = false) :
      ClientMoves m (.checking f a) (some .isActive) m (.acted f (some errNotFound))
  | check (h : m.formAction.isSome = true) :
      ClientMoves m (.checking f a) (some .isActive) m (.evaluating f a)
  | evaluate : ClientMoves m (.evaluating f a) (some .formAction) m (.offering f a m.formAction)
  | offer {f : FormElem} {a : FormAction} {c : Nat} (h : m.chans.closed c = false) :
      ClientMoves m (.offering f a (some c)) (some (.offer (some c) a))
        { m with chans := m.chans.offer c a } (.sending f m.chans.next)
  | sent {f : FormElem} {ticket : Nat} (h : m.chans.standing ticket = none) :
      ClientMoves m (.sending f ticket) (some (.sent ticket)) m (.handed f)
  | evaluateAgain : ClientMoves m (.handed f) (some .formAction) m (.closing f m.formAction)
  | close {f : FormElem} {c : Nat} (h : m.chans.closed c = false) :
      ClientMoves m (.closing f (some c)) (some (.close (some c)))
        { m with chans := m.chans.close c } (.clearing f)
  | clear :
      ClientMoves m (.clearing f) (some .clearFormAction) { m with formAction := none }
        (.blanking f)
  | blank :
      ClientMoves m (.blanking f) (some (.setActiveFormId "")) { m with formId := "" }
        (.acted f none)
  | offerClosed {f : FormElem} {a : FormAction} {c : Nat} {pt : ClientPoint}
      (h : m.chans.closed c = true) :
      ClientMoves m (.offering f a (some c)) (some (.offer (some c) a)) m.panic pt
  | sentClosed {f : FormElem} {ticket : Nat} {o : Offer FormAction} {pt : ClientPoint}
      (h : m.chans.standing ticket = some o) (hclosed : m.chans.closed o.chan = true) :
      ClientMoves m (.sending f ticket) (some (.sent ticket)) m.panic pt
  | closeClosed {f : FormElem} {ch : Option Nat} {pt : ClientPoint}
      (h : ∀ c, ch = some c → m.chans.closed c = true) :
      ClientMoves m (.closing f ch) (some (.close ch)) m.panic pt

/-- What a goroutine can do. -/
def moves {n : Nat} : (t : Thread n) → Conn → Point t → Option Op → Conn → Point t → Prop
  | .flow => FlowMoves
  | .client _ => ClientMoves

theorem flow_leads (m : Conn) (pt : FlowPoint) :
    Leads attempt forms.code FlowPoint.prog FlowMoves m pt := by
  cases pt with
  | idle =>
    rintro w _ ⟨⟩
    exact ⟨.checking w.form, rfl, .push⟩
  | checking f =>
    rintro w _ ⟨⟩
    cases hactive : m.formAction.isSome with
    | true => exact ⟨.pushed (.error errTwoForms), rfl, .refuse hactive⟩
    | false =>
      refine ⟨.setting f, ?_, .check hactive⟩
      iterate 4 refine congrArg (Prog.act _) (funext fun _ => ?_)
      refine congrArg (Prog.act _) (funext fun r => ?_)
      cases r <;> rfl
  | setting f => exact .act .set
  | pushing f =>
    intro w y hexec
    simp only [attempt] at hexec
    split at hexec <;> cases hexec
    exact ⟨.making f, rfl, .publish⟩
  | making f => exact .act .make
  | evaluating f => exact .act .evaluate
  | awaiting f ch =>
    intro w y hexec
    simp only [attempt] at hexec
    split at hexec
    · cases hexec
      exact ⟨.pushed (.error errNoAction), rfl, .fail⟩
    · split at hexec
      · cases hexec
      · split at hexec
        · rename_i c o ho
          cases hexec
          exact ⟨.pushed (.ok o.value), rfl, .take ho⟩
        · split at hexec <;> cases hexec
          exact ⟨.pushed (.error errNoAction), rfl, .fail⟩
  | pushed r => exact .next .back

theorem client_leads (m : Conn) (pt : ClientPoint) :
    Leads attempt forms.code ClientPoint.prog ClientMoves m pt := by
  cases pt with
  | waiting =>
    intro w p hcode
    cases hunasked : w.unasked with
    | none =>
      simp only [forms, hunasked] at hcode
      cases hcode
      refine ⟨.fetching, congrArg (Prog.act _) (funext fun got => ?_), .wait⟩
      rcases got with _ | _ | _ <;> rfl
    | some a =>
      simp only [forms, hunasked] at hcode
      cases hcode
      exact ⟨.checking w.form a, rfl, .unasked⟩
  | fetching =>
    intro w y hexec
    simp only [attempt] at hexec
    split at hexec
    · cases hexec
      exact ⟨.waiting, rfl, .unfetched⟩
    · cases hexec
      exact ⟨.waiting, rfl, .unfetched⟩
    · cases hexec
      exact ⟨.waiting, rfl, .unfetched⟩
    · split at hexec
      · cases hexec
      · rename_i f rest hforms
        cases hexec
        exact ⟨.holding f, rfl, .fetch hforms⟩
  | holding f =>
    intro w p hcode
    cases haction : w.action with
    | none =>
      simp only [forms, haction] at hcode
      cases hcode
      exact ⟨.waiting, rfl, .drop⟩
    | some a =>
      simp only [forms, haction] at hcode
      cases hcode
      exact ⟨.checking f a, rfl, .act⟩
  | checking f a =>
    rintro w _ ⟨⟩
    cases hactive : m.formAction.isSome with
    | true => exact ⟨.evaluating f a, rfl, .check hactive⟩
    | false => exact ⟨.acted f (some errNotFound), rfl, .refuse hactive⟩
  | evaluating f a => exact .act .evaluate
  | offering f a ch =>
    intro w y hexec
    cases ch with
    | none => cases hexec
    | some c =>
      simp only [attempt] at hexec
      split at hexec <;> cases hexec
      · exact ⟨.sending f 0, rfl, .offerClosed ‹_›⟩
      · exact ⟨.sending f m.chans.next, rfl, .offer (Bool.eq_false_iff.mpr ‹_›)⟩
  | sending f ticket =>
    intro w y hexec
    refine ⟨.handed f, ?_⟩
    simp only [attempt] at hexec
    split at hexec
    · rename_i hgone
      cases hexec
      exact ⟨rfl, .sent hgone⟩
    · rename_i o ho
      split at hexec <;> cases hexec
      exact ⟨rfl, .sentClosed ho ‹_›⟩
  | handed f => exact .act .evaluateAgain
  | closing f ch =>
    intro w y hexec
    refine ⟨.clearing f, rfl, ?_⟩
    cases ch with
    | none =>
      cases hexec
      exact .closeClosed fun _ hc => by cases hc
    | some c =>
      simp only [attempt] at hexec
      split at hexec <;> cases hexec
      · rename_i hclosed
        exact .closeClosed fun d hd => by cases hd; exact hclosed
      · exact .close (Bool.eq_false_iff.mpr ‹_›)
  | clearing f => exact .act .clear
  | blanking f => exact .act .blank
  | acted f err =>
    rintro w _ hcode
    cases err with
    | none =>
      cases hcode
      exact ⟨.waiting, rfl, .done⟩
    | some err =>
      cases hcode
      exact ⟨.holding f, rfl, .retry⟩

theorem form_outline (n : Nat) : Outline forms (progAt (n := n)) (Moving moves) := by
  refine Outline.of_moves (fun t m pt => ?_) (fun h => (Option.ite_none_left_eq_some.mp h).2)
    fun _ _ => id
  cases t with
  | flow => exact flow_leads m pt
  | client i => exact client_leads m pt

/-! ## The flow and the client that has the form -/

/-- The client has a form that it has not answered yet, or is inside of `FormAction`. -/
def ClientPoint.busy : ClientPoint → Bool
  | .waiting => false
  | .fetching => false
  | .acted _ none => false
  | _ => true

theorem ClientPoint.busy_of_acts {cp : ClientPoint} (h : Acts cp.prog = true) :
    cp.busy = true := by
  cases cp with
  | acted f err => cases h
  | _ => first | rfl | cases h

/-- The client, as long as it is busy -/
def ClientPoint.unlessIdle (cp : ClientPoint) : Option ClientPoint :=
  if cp.busy then some cp else none

/-- `PushForm` of the form `f` waits for an action on the channel `c`. -/
structure Open (m : Conn) (f : FormElem) (c : Nat) (fp : FlowPoint) : Prop where
  at_select : fp = .evaluating f ∨ fp = .awaiting f (some c)
  slot : m.formAction = some c
  live : m.chans.closed c = false
  formId : m.formId = f.id

/-- Where the flow is, and the client that has the form, if there is one. -/
inductive Joint (m : Conn) : FlowPoint → Option ClientPoint → Prop where
  | rest (hfp : fp = .idle ∨ (∃ f, fp = .checking f) ∨ ∃ f, fp = .setting f)
      (hslot : m.formAction = none) (hid : m.formId = "") (hforms : m.forms = [])
      (hoffers : m.chans.offers = []) : Joint m fp none
  | named (hslot : m.formAction = none) (hid : m.formId = f.id) (hforms : m.forms = [])
      (hoffers : m.chans.offers = []) : Joint m (.pushing f) none
  | published (hslot : m.formAction = none) (hid : m.formId = f.id)
      (hforms : m.forms = [f] ∨ m.forms = []) (hoffers : m.chans.offers = []) :
      Joint m (.making f) none
  | early {f : FormElem} {cp : ClientPoint}
      (hcp : cp = .holding f ∨ (∃ a, cp = .checking f a) ∨ ∃ err, cp = .acted f (some err))
      (hslot : m.formAction = none) (hid : m.formId = f.id) (hforms : m.forms = [])
      (hoffers : m.chans.offers = []) : Joint m (.making f) (some cp)
  | opened (hopen : Open m f c fp) (hforms : m.forms = [f] ∨ m.forms = [])
      (hoffers : m.chans.offers = []) : Joint m fp none
  | held (hopen : Open m f c fp)
      (hcp : cp = .holding f ∨ (∃ a, cp = .checking f a) ∨ (∃ err, cp = .acted f (some err)) ∨
        (∃ a, cp = .evaluating f a) ∨ ∃ a, cp = .offering f a (some c))
      (hforms : m.forms = []) (hoffers : m.chans.offers = []) : Joint m fp (some cp)
  | sending {f : FormElem} {c : Nat} {fp : FlowPoint} {a : FormAction} {ticket : Nat}
      (hopen : Open m f c fp) (hforms : m.forms = [])
      (hoffers : m.chans.offers = [⟨ticket, c, a⟩]) : Joint m fp (some (.sending f ticket))
  | taken {f : FormElem} {c : Nat} {a : FormAction} {cp : ClientPoint}
      (hcp : (∃ ticket, cp = .sending f ticket) ∨ cp = .handed f ∨ cp = .closing f (some c))
      (hslot : m.formAction = some c) (hlive : m.chans.closed c = false) (hid : m.formId = f.id)
      (hforms : m.forms = []) (hoffers : m.chans.offers = []) :
      Joint m (.pushed (.ok a)) (some cp)
  | shut (hid : m.formId = f.id) (hforms : m.forms = []) (hoffers : m.chans.offers = []) :
      Joint m (.pushed (.ok a)) (some (.clearing f))
  | cleared {f : FormElem} {a : FormAction} (hslot : m.formAction = none) (hforms : m.forms = [])
      (hoffers : m.chans.offers = []) : Joint m (.pushed (.ok a)) (some (.blanking f))
  | done (hslot : m.formAction = none) (hid : m.formId = "") (hforms : m.forms = [])
      (hoffers : m.chans.offers = []) : Joint m (.pushed (.ok a)) none

section Joint

variable {m m' : Conn} {fp fp' : FlowPoint} {cp : Option ClientPoint} {a : Option Op}

/-- While the form is open, the flow reads its channel or takes the action. -/
theorem Open.flow (h : Open m f c fp) (hmoves : FlowMoves m fp a m' fp')
    (htaken : ∀ ch, a = some (.await ch) →
      m'.chans.offers.length < m.chans.offers.length) :
    (m' = m ∧ Open m f c fp') ∨
      ∃ o, m.chans.first c = some o ∧ m' = { m with chans := m.chans.withdraw o.ticket } ∧
        fp' = .pushed (.ok o.value) := by
  rcases h.at_select with rfl | rfl
  · cases hmoves
    rw [h.slot]
    exact Or.inl ⟨rfl, Or.inr rfl, h.slot, h.live, h.formId⟩
  · cases hmoves with
    | take ho => exact Or.inr ⟨_, ho, rfl, rfl⟩
    | fail => exact absurd (htaken _ rfl) (Nat.lt_irrefl _)

/-- The flow moves. -/
theorem Joint.flow (h : Joint m fp cp) (hmoves : FlowMoves m fp a m' fp')
    (htaken : ∀ ch, a = some (.await ch) → m'.chans.offers.length < m.chans.offers.length)
    (hback : ∀ r, fp = .pushed r → ∀ c, cp = some c → Acts c.prog = false) :
    Joint m' fp' cp := by
  -- without an offer there is no action to take
  have hempty : ∀ {c : Nat} {o : Offer FormAction}, m.chans.offers = [] →
      m.chans.first c ≠ some o := by
    intro c o hoffers ho
    have hmem := (Channels.mem_of_first ho).1
    rw [hoffers] at hmem
    cases hmem
  cases h with
  | rest hfp hslot hid hforms hoffers =>
    rcases hfp with rfl | ⟨f, rfl⟩ | ⟨f, rfl⟩
    · cases hmoves with
      | @push f => exact .rest (Or.inr (Or.inl ⟨f, rfl⟩)) hslot hid hforms hoffers
    · cases hmoves with
      | refuse hactive =>
        rw [hslot] at hactive
        cases hactive
      | check => exact .rest (Or.inr (Or.inr ⟨f, rfl⟩)) hslot hid hforms hoffers
    · cases hmoves with
      | set => exact .named hslot rfl hforms hoffers
  | @named f hslot hid hforms hoffers =>
    cases hmoves with
    | publish =>
      refine .published hslot hid (Or.inl ?_) hoffers
      show m.forms ++ [f] = [f]
      rw [hforms, List.nil_append]
  | published hslot hid hforms hoffers =>
    cases hmoves with
    | make => exact .opened ⟨Or.inl rfl, rfl, m.chans.make_closed_self, hid⟩ hforms hoffers
  | @early f cp hcp hslot hid hforms hoffers =>
    cases hmoves with
    | make =>
      refine .held ⟨Or.inl rfl, rfl, m.chans.make_closed_self, hid⟩ ?_ hforms hoffers
      rcases hcp with h | h | h
      · exact Or.inl h
      · exact Or.inr (Or.inl h)
      · exact Or.inr (Or.inr (Or.inl h))
  | opened hopen hforms hoffers =>
    rcases hopen.flow hmoves htaken with ⟨rfl, hopen'⟩ | ⟨o, ho, -⟩
    · exact .opened hopen' hforms hoffers
    · exact absurd ho (hempty hoffers)
  | held hopen hcp hforms hoffers =>
    rcases hopen.flow hmoves htaken with ⟨rfl, hopen'⟩ | ⟨o, ho, -⟩
    · exact .held hopen' hcp hforms hoffers
    · exact absurd ho (hempty hoffers)
  | @sending f c fp act ticket hopen hforms hoffers =>
    rcases hopen.flow hmoves htaken with ⟨rfl, hopen'⟩ | ⟨o, ho, rfl, rfl⟩
    · exact .sending hopen' hforms hoffers
    · -- the flow takes the action
      have hmem := (Channels.mem_of_first ho).1
      rw [hoffers, List.mem_singleton] at hmem
      subst hmem
      refine .taken (Or.inl ⟨ticket, rfl⟩) hopen.slot hopen.live hopen.formId hforms ?_
      show m.chans.offers.filter _ = []
      rw [hoffers]
      simp
  | taken hcp =>
    cases hmoves
    have hidle := hback _ rfl _ rfl
    rcases hcp with ⟨ticket, rfl⟩ | rfl | rfl <;> cases hidle
  | shut | cleared =>
    cases hmoves
    cases hback _ rfl _ rfl
  | done hslot hid hforms hoffers =>
    cases hmoves
    exact .rest (Or.inl rfl) hslot hid hforms hoffers

/-- The client that has the form moves. -/
theorem Joint.client {cp cp' : ClientPoint} (h : Joint m fp (some cp))
    (hmoves : ClientMoves m cp a m' cp') :
    Joint m' fp cp'.unlessIdle ∧ m'.panicked = m.panicked := by
  cases h with
  | early hcp hslot hid hforms hoffers =>
    -- there is no channel yet: an action is refused, and the client keeps the form
    rcases hcp with rfl | ⟨act, rfl⟩ | ⟨err, rfl⟩
    · cases hmoves with
      | @act _ act => exact ⟨.early (Or.inr (Or.inl ⟨act, rfl⟩)) hslot hid hforms hoffers, rfl⟩
      | drop => exact ⟨.published hslot hid (Or.inr hforms) hoffers, rfl⟩
    · cases hmoves with
      | refuse => exact ⟨.early (Or.inr (Or.inr ⟨_, rfl⟩)) hslot hid hforms hoffers, rfl⟩
      | check hactive =>
        rw [hslot] at hactive
        cases hactive
    · cases hmoves with
      | retry => exact ⟨.early (Or.inl rfl) hslot hid hforms hoffers, rfl⟩
  | @held f c _ _ hopen hcp hforms hoffers =>
    rcases hcp with rfl | ⟨act, rfl⟩ | ⟨err, rfl⟩ | ⟨act, rfl⟩ | ⟨act, rfl⟩
    · cases hmoves with
      | @act _ act => exact ⟨.held hopen (Or.inr (Or.inl ⟨act, rfl⟩)) hforms hoffers, rfl⟩
      | drop => exact ⟨.opened hopen (Or.inr hforms) hoffers, rfl⟩
    · cases hmoves with
      | refuse hactive =>
        rw [hopen.slot] at hactive
        cases hactive
      | check =>
        refine ⟨.held hopen ?_ hforms hoffers, rfl⟩
        exact Or.inr (Or.inr (Or.inr (Or.inl ⟨act, rfl⟩)))
    · cases hmoves with
      | retry => exact ⟨.held hopen (Or.inl rfl) hforms hoffers, rfl⟩
    · cases hmoves with
      | evaluate =>
        rw [hopen.slot]
        refine ⟨.held hopen ?_ hforms hoffers, rfl⟩
        exact Or.inr (Or.inr (Or.inr (Or.inr ⟨act, rfl⟩)))
    · cases hmoves with
      | offer =>
        have hone : m.chans.offers ++ [⟨m.chans.next, c, act⟩] = [⟨m.chans.next, c, act⟩] := by
          rw [hoffers, List.nil_append]
        exact ⟨.sending ⟨hopen.at_select, hopen.slot, hopen.live, hopen.formId⟩ hforms hone, rfl⟩
      | offerClosed hclosed =>
        rw [hopen.live] at hclosed
        cases hclosed
  | @sending f c _ act ticket hopen hforms hoffers =>
    -- the action is on offer still, and the channel is open
    cases hmoves with
    | sent hgone =>
      have hmem : ⟨ticket, c, act⟩ ∈ m.chans.offers := by
        rw [hoffers]
        exact List.mem_singleton_self _
      exact absurd rfl (Channels.ne_of_not_standing hgone hmem)
    | sentClosed ho hclosed =>
      have hmem := (Channels.mem_of_standing ho).1
      rw [hoffers, List.mem_singleton] at hmem
      subst hmem
      rw [hopen.live] at hclosed
      cases hclosed
  | @taken f c act _ hcp hslot hlive hid hforms hoffers =>
    -- the flow has the action and waits, so nobody has replaced the channel that is closed
    rcases hcp with ⟨ticket, rfl⟩ | rfl | rfl
    · cases hmoves with
      | sent => exact ⟨.taken (Or.inr (Or.inl rfl)) hslot hlive hid hforms hoffers, rfl⟩
      | sentClosed ho =>
        have hmem := (Channels.mem_of_standing ho).1
        rw [hoffers] at hmem
        cases hmem
    · cases hmoves with
      | evaluateAgain =>
        rw [hslot]
        exact ⟨.taken (Or.inr (Or.inr rfl)) hslot hlive hid hforms hoffers, rfl⟩
    · cases hmoves with
      | close => exact ⟨.shut hid hforms hoffers, rfl⟩
      | closeClosed hclosed =>
        rw [hclosed c rfl] at hlive
        cases hlive
  | shut hid hforms hoffers =>
    cases hmoves with
    | clear => exact ⟨.cleared rfl hforms hoffers, rfl⟩
  | cleared hslot hforms hoffers =>
    cases hmoves with
    | blank => exact ⟨.done hslot rfl hforms hoffers, rfl⟩

/-- While a client has the form, the buffer is empty. -/
theorem Joint.forms_eq_nil {cp : ClientPoint} (h : Joint m fp (some cp)) : m.forms = [] := by
  cases h <;> assumption

/-- A client takes the form from the buffer. -/
theorem Joint.fetch {rest : List FormElem} (h : Joint m fp none)
    (hforms : m.forms = f :: rest) : Joint { m with forms := rest } fp (some (.holding f)) := by
  have hone : ∀ {g : FormElem}, m.forms = [g] ∨ m.forms = [] → g = f ∧ rest = [] := by
    intro g hg
    rcases hg with hg | hg
    · rw [hg] at hforms
      cases hforms
      exact ⟨rfl, rfl⟩
    · rw [hg] at hforms
      cases hforms
  cases h with
  | rest _ _ _ hnil | named _ _ hnil | done _ _ hnil => exact absurd (hnil.symm.trans hforms) nofun
  | published hslot hid hg hoffers =>
    obtain ⟨rfl, rfl⟩ := hone hg
    exact .early (Or.inl rfl) hslot hid rfl hoffers
  | opened hopen hg hoffers =>
    obtain ⟨rfl, rfl⟩ := hone hg
    exact .held ⟨hopen.at_select, hopen.slot, hopen.live, hopen.formId⟩ (Or.inl rfl) rfl hoffers

end Joint

section Invariant

variable {n : Nat} {m m' : Conn} {pts pts' : ∀ t : Thread n, Point t}

/-- At most one client is busy, and it and the flow are where they can be together. -/
inductive Coupled (m : Conn) (pts : ∀ t : Thread n, Point t) : Prop where
  | nobody (hidle : ∀ i, ClientPoint.busy (pts (.client i)) = false)
      (h : Joint m (pts .flow) none)
  | somebody (i : Fin n) (hbusy : ClientPoint.busy (pts (.client i)) = true)
      (hidle : ∀ j, j ≠ i → ClientPoint.busy (pts (.client j)) = false)
      (h : Joint m (pts .flow) (some (pts (.client i))))

theorem client_injective : Injective (Thread.client : Fin n → Thread n) :=
  fun _ _ => Thread.client.inj

/-- What a client that is not busy can do: it may take a form, and nothing else changes. -/
theorem idle_client (hidle : cp.busy = false) (hmoves : ClientMoves m cp a m' cp')
    (hasked : cp = .waiting → Acts cp'.prog = false) :
    (m' = m ∧ cp'.busy = false) ∨
      ∃ f rest, m.forms = f :: rest ∧ m' = { m with forms := rest } ∧ cp' = .holding f := by
  cases hmoves with
  | wait | unfetched | done => exact Or.inl ⟨rfl, rfl⟩
  | fetch hforms => exact Or.inr ⟨_, _, hforms, rfl, rfl⟩
  | unasked => cases hasked rfl
  | _ => cases hidle

/-- The client `i` moves. -/
theorem Coupled.client (h : Coupled m pts) (hmoves : ClientMoves m (pts (.client i)) a m' cp')
    (hasked : pts (.client i) = ClientPoint.waiting → Acts cp'.prog = false) :
    Coupled m' (update pts (.client i) cp') ∧ m'.panicked = m.panicked := by
  have hself : update pts (.client i) cp' (.client i) = cp' := update_self ..
  have hother : ∀ j, j ≠ i →
      update pts (.client i) cp' (.client j) = pts (.client j) :=
    fun j hj => update_of_ne (by simpa using hj) ..
  cases h with
  | nobody hidle hjoint =>
    rcases idle_client (hidle i) hmoves hasked with ⟨rfl, hcp'⟩ | ⟨f, rest, hforms, rfl, rfl⟩
    · exact ⟨.nobody (forall_family (P := Point) client_injective
        (fun _ p => ClientPoint.busy p = false) hcp' fun j _ => hidle j) hjoint, rfl⟩
    · refine ⟨.somebody i (by rw [hself]; rfl) (fun j hj => ?_) ?_, rfl⟩
      · rw [hother j hj]
        exact hidle j
      · rw [hself]
        exact hjoint.fetch hforms
  | somebody k hbusy hidle hjoint =>
    by_cases hk : i = k
    · subst hk
      obtain ⟨hjoint', hpanicked⟩ := hjoint.client hmoves
      refine ⟨?_, hpanicked⟩
      unfold ClientPoint.unlessIdle at hjoint'
      split at hjoint'
      · refine .somebody i (by rwa [hself]) (fun j hj => ?_) (by rwa [hself])
        rw [hother j hj]
        exact hidle j hj
      · rename_i hcp'
        exact .nobody (forall_family (P := Point) client_injective
          (fun _ p => ClientPoint.busy p = false) (Bool.eq_false_iff.mpr hcp') hidle) hjoint'
    · -- the buffer is empty, so another client gets no form
      rcases idle_client (hidle i hk) hmoves hasked with ⟨rfl, hcp'⟩ | ⟨f, rest, hforms, -⟩
      · have hsame := hother k (Ne.symm hk)
        exact ⟨.somebody k (by rwa [hsame]) (forall_family (P := Point) client_injective
          (fun j p => j ≠ k → ClientPoint.busy p = false) (fun _ => hcp') fun j _ => hidle j)
          (by rwa [hsame]), rfl⟩
      · rw [hjoint.forms_eq_nil] at hforms
        cases hforms

/-- The flow moves. -/
theorem Coupled.flow (h : Coupled m pts) (hmoves : FlowMoves m (pts .flow) a m' fp')
    (htaken : ∀ ch, a = some (.await ch) → m'.chans.offers.length < m.chans.offers.length)
    (hback : ∀ r, pts .flow = FlowPoint.pushed r →
      ∀ i, Acts (ClientPoint.prog (pts (.client i))) = false) :
    Coupled m' (update pts .flow fp') := by
  cases h with
  | nobody hidle hjoint => exact .nobody hidle (hjoint.flow hmoves htaken nofun)
  | somebody i hbusy hidle hjoint =>
    refine .somebody i hbusy hidle (hjoint.flow hmoves htaken fun r hr c hc => ?_)
    cases hc
    exact hback r hr i

/-- What holds at every moment of a run in which every form is answered. -/
structure Steady (m : Conn) (pts : ∀ t : Thread n, Point t) : Prop where
  coupled : Coupled m pts
  running : m.panicked = false

theorem FlowMoves.panicked (h : FlowMoves m fp a m' fp') : m'.panicked = m.panicked := by
  cases h <;> rfl

/-- A client that goes on without a form asks for one. -/
theorem asked_of_settled {i : Fin n} {cp : ClientPoint} (hat : s.At progAt pts)
    (hat' : s'.At progAt (update pts (.client i) cp))
    (hcond : Settled s (Event.of (.client i) a) s')
    (hmoves : ClientMoves m (pts (.client i)) a m' cp)
    (hwaiting : pts (.client i) = ClientPoint.waiting) : Acts cp.prog = false := by
  have hnext : a = none := by
    rw [hwaiting] at hmoves
    cases hmoves <;> rfl
  subst hnext
  have hthread : s.thread (.client i) = .ret .waiting := by
    rw [hat (.client i), hwaiting]
    rfl
  simp only [Event.of, Settled, hthread] at hcond
  rw [hat' (.client i), update_self] at hcond
  exact hcond

/-- When `PushForm` returns, no client is inside of `FormAction`. -/
theorem not_acts_of_settled {fp : FlowPoint} (hat : s.At progAt pts)
    (hcond : Settled s (Event.of .flow a) s') (hmoves : FlowMoves m (pts .flow) a m' fp)
    (hpushed : pts .flow = FlowPoint.pushed r) (i : Fin n) :
    Acts (ClientPoint.prog (pts (.client i))) = false := by
  have hnext : a = none := by
    rw [hpushed] at hmoves
    cases hmoves
    rfl
  subst hnext
  have hthread : s.thread .flow = .ret (.pushed r) := by
    rw [hat .flow, hpushed]
    rfl
  simp only [Event.of, Settled, hthread] at hcond
  have hidle := hcond i
  rw [hat (.client i)] at hidle
  exact hidle

theorem Steady.keep (hm : s.shared = m) (hm' : s'.shared = m') (hat : s.At progAt pts)
    (hat' : s'.At progAt pts') (hmoves : Moving moves m pts e m' pts') (h : Steady m pts)
    (hcond : Settled s e s') : Steady m' pts' := by
  cases hmoves with
  | @move t a m' pt hmoves =>
    cases t with
    | client i =>
      obtain ⟨hcoupled, hpanicked⟩ :=
        h.coupled.client hmoves (asked_of_settled hat hat' hcond hmoves)
      exact ⟨hcoupled, hpanicked.trans h.running⟩
    | flow =>
      refine ⟨h.coupled.flow hmoves ?_ ?_, (FlowMoves.panicked hmoves).trans h.running⟩
      · rintro ch rfl
        rw [← hm, ← hm']
        exact hcond
      · exact fun r hr i => not_acts_of_settled hat hcond hmoves hr i

end Invariant

/-- Nobody does anything. -/
def atRest {n : Nat} : ∀ t : Thread n, Point t
  | .flow => FlowPoint.idle
  | .client _ => ClientPoint.waiting

theorem at_newConnection (n : Nat) : (newConnection n).At progAt atRest := by
  rintro (_ | _) <;> rfl

theorem steady_newConnection (n : Nat) : Steady (n := n) (newConnection n).shared atRest :=
  ⟨.nobody (fun _ => rfl) (.rest (Or.inl rfl) rfl rfl rfl rfl), rfl⟩

/-! ## The slot -/

section Slot

variable {n : Nat} {m : Conn} {fp : FlowPoint} {cp : Option ClientPoint}

theorem Joint.slot_free (h : Joint m .idle cp) : m.formAction = none := by
  cases h with
  | rest _ hslot => exact hslot
  | opened hopen | held hopen | sending hopen => rcases hopen.at_select with h | h <;> cases h

/-- An action is offered to a flow that waits for it. -/
theorem Joint.attended (h : Joint m fp cp) (ho : o ∈ m.chans.offers) :
    Awaits fp.prog = true ∧ m.formAction = some o.chan := by
  have hnone : m.chans.offers = [] → Awaits fp.prog = true ∧ m.formAction = some o.chan := by
    intro hoffers
    rw [hoffers] at ho
    cases ho
  cases h with
  | sending hopen _ hoffers =>
    rw [hoffers, List.mem_singleton] at ho
    subst ho
    refine ⟨?_, hopen.slot⟩
    rcases hopen.at_select with rfl | rfl <;> rfl
  | rest _ _ _ _ hoffers | early _ _ _ _ hoffers | named _ _ _ hoffers | published _ _ _ hoffers
  | opened _ _ hoffers | shut _ _ hoffers | cleared _ _ hoffers | held _ _ _ hoffers
  | taken _ _ _ _ _ hoffers | done _ _ _ hoffers =>
    exact hnone hoffers

theorem Coupled.joint (h : Coupled m pts) : ∃ cp, Joint m (pts .flow) cp := by
  cases h with
  | nobody _ h => exact ⟨none, h⟩
  | somebody i _ _ h => exact ⟨_, h⟩

theorem exec_isActive (w : Outside) (hrunning : m.panicked = false) :
    exec w .isActive m = some (m.formAction.isSome, m) := by
  simp only [exec, hrunning]
  rfl

/-- Without an active form, `FormAction` reports so. -/
theorem run_formAction (w : Outside) (hrunning : m.panicked = false) (hslot : m.formAction = none)
    (a : FormAction) : (formAction a).run (exec w) m = some (some errNotFound, m) := by
  unfold formAction
  rw [run_bind, run_call, exec_isActive w hrunning, hslot]
  rfl

/-- Without an active form, `ComponentAction` reports so. -/
theorem run_componentAction (w : Outside) (hrunning : m.panicked = false)
    (hslot : m.formAction = none) (formId : String) (fn : Except AppError Unit) :
    (componentAction formId fn).run (exec w) m =
      some (.error (componentError "not found active form"), m) := by
  unfold componentAction
  rw [run_bind, run_call, exec_isActive w hrunning, hslot]
  rfl

theorem idle_of_prog (h : fp.prog = .ret .idle) : fp = .idle := by
  cases fp <;> cases h
  rfl

end Slot

/-- In every interleaving of a flow that pushes one form after another with any number of
clients, in which `PushForm` leaves its `select` with an action and returns only when no
`FormAction` is under way, and a client calls `FormAction` only on a form that it has received,
until its action is accepted: after `PushForm` has returned no form is active, so that the next
`PushForm` is not rejected and `FormAction` and `ComponentAction` report that there is none; and
whenever a `FormAction` waits for its action to be taken, `PushForm` is there to take it. -/
theorem slot_free_of_settled {n : Nat} {ok : Prop} {s : FormPool n}
    (h : Trace.Steps (Step forms) Settled (newConnection n) ok s) (hok : ok) :
    (s.thread .flow = .ret .idle →
      (∀ w, exec w .isActive s.shared = some (false, s.shared)) ∧
      (∀ w a, (formAction a).run (exec w) s.shared = some (some errNotFound, s.shared)) ∧
      ∀ w formId fn, (componentAction formId fn).run (exec w) s.shared =
        some (.error (componentError "not found active form"), s.shared)) ∧
      ∀ o ∈ s.shared.chans.offers,
        Awaits (s.thread .flow) = true ∧ s.shared.formAction = some o.chan := by
  obtain ⟨pts, hat, hsteady⟩ : ∃ pts, s.At progAt pts ∧ Steady s.shared pts :=
    (form_outline n).invariant h hok (at_newConnection n) (steady_newConnection n)
      fun hm hm' hat hat' hmoves hinv hcond => hinv.keep hm hm' hat hat' hmoves hcond
  obtain ⟨cp, hjoint⟩ := hsteady.coupled.joint
  constructor
  · intro hidle
    rw [hat .flow] at hidle
    rw [idle_of_prog hidle] at hjoint
    have hslot := hjoint.slot_free
    refine ⟨fun w => ?_, fun w a => run_formAction w hsteady.running hslot a,
      fun w formId fn => run_componentAction w hsteady.running hslot formId fn⟩
    rw [exec_isActive w hsteady.running, hslot]
    rfl
  · intro o ho
    rw [hat .flow]
    exact hjoint.attended ho

/-- A form of the flow -/
def formOne : FormElem := ⟨"f", "\x7b\x7d"⟩

/-- The client's answer to it -/
def answer : FormAction := ⟨"ok", []⟩

/-- The flow moves; `ended` tells whether its context has ended. -/
def flows {n : Nat} (ended : Bool) (moves : Nat) : List (Thread n × Outside) :=
  List.replicate moves (.flow, ⟨formOne, none, ended, .form, none⟩)

/-- A client moves. -/
def clients (moves : Nat) : List (Thread 1 × Outside) :=
  List.replicate moves (.client 0, ⟨formOne, some answer, false, .form, none⟩)

/-- A form is pushed, received and answered, and `FormAction` returns before `PushForm` does. -/
def answered : List (Thread 1 × Outside) :=
  flows false 6 ++ clients 6 ++ flows false 1 ++ clients 5 ++ flows false 1

instance {n : Nat} (s : FormPool n) (e : Concurrent.Event (Thread n) Op) (s' : FormPool n) :
    Decidable (Settled s e s') := by
  unfold Settled
  split
  · infer_instance
  · split <;> infer_instance
  · split <;> infer_instance
  · infer_instance

/-- The flow is between two forms. -/
def Idle : Go Label → Bool
  | .ret .idle => true
  | _ => false

theorem thread_of_idle (h : Idle p = true) : p = .ret .idle := by
  unfold Idle at h
  split at h
  · rfl
  · cases h

/-- The error that `PushForm` returns -/
def refusal : Go Label → Option AppError
  | .ret (.pushed (.error err)) => some err
  | _ => none

theorem thread_of_refusal (h : refusal p = some err) : p = .ret (.pushed (.error err)) := by
  unfold refusal at h
  split at h
  · cases h
    rfl
  · cases h

/-- The form has been answered, and the next one can be pushed. -/
theorem slot_free_of_settled_answered :
    ∃ s, Trace.play (fun s mv => Pool.move forms s mv.1 mv.2) answered (newConnection 1) =
        some s ∧
      s.thread .flow = .ret .idle ∧ ∀ w, exec w .isActive s.shared = some (false, s.shared) := by
  obtain ⟨s, hs, hidle, ok, hsteps, hok⟩ := Pool.reaches forms
    (fun s e s' => of_decide_eq_true (p := Settled s e s')) answered (newConnection 1)
    (fun s => Idle (s.thread .flow) = true) (by decide +kernel)
  have hthread := thread_of_idle hidle
  exact ⟨s, hs, hthread, ((slot_free_of_settled hsteps hok).1 hthread).1⟩

/-- The context of `PushForm` ends, and the client acts on the form afterwards. -/
def abandoned : List (Thread 1 × Outside) :=
  flows false 6 ++ flows true 2 ++ clients 6 ++ flows false 2

/-- `PushForm` has returned without an action. The next one is rejected, and a `FormAction` waits
for a reader that has left. -/
theorem slot_free_of_settled_abandoned :
    ∃ ok s, Trace.Steps (Step forms) Settled (newConnection 1) ok s ∧
      s.thread .flow = .ret (.pushed (.error errTwoForms)) ∧
        ∃ o ∈ s.shared.chans.offers, Awaits (s.thread .flow) = false := by
  obtain ⟨s, -, ⟨hrefused, hawaits, hoffers⟩, ok, hsteps⟩ := Trace.reaches (Pool.moves_step forms)
    Settled abandoned (newConnection 1) (fun s => refusal (s.thread .flow) = some errTwoForms ∧
      Awaits (s.thread .flow) = false ∧ 0 < s.shared.chans.offers.length) (by decide +kernel)
  obtain ⟨o, ho⟩ := List.exists_mem_of_length_pos hoffers
  exact ⟨ok, s, hsteps, thread_of_refusal hrefused, o, ho, hawaits⟩

/-! ## The actions -/

/-- The forms are numbered from 1 as they are pushed. -/
structure Ledger (n : Nat) where
  /-- how many forms have been pushed -/
  pushes : Nat
  /-- the last form that was pushed -/
  current : Option FormElem
  /-- the forms in the buffer -/
  queue : List Nat
  /-- the form that each client received last -/
  held : Fin n → Nat
  /-- the actions that clients have sent, each with the form that it was meant for -/
  sent : List (Nat × FormAction)
  /-- the actions that `PushForm` has returned, each with the form that was pushed -/
  returned : List (Nat × FormAction)

/-- Nothing has been pushed. -/
def Ledger.empty (n : Nat) : Ledger n := ⟨0, none, [], fun _ => 0, [], []⟩

/-- What is written down of a step. -/
def note {n : Nat} (s : FormPool n) (e : Concurrent.Event (Thread n) Op) (s' : FormPool n)
    (led : Ledger n) : Ledger n :=
  match e with
  | .act .flow (.pushForm f) =>
    { led with
      pushes := led.pushes + 1, current := some f, queue := led.queue ++ [led.pushes + 1] }
  | .act (.client i) .waitForm =>
    if s'.shared.forms.length < s.shared.forms.length then
      match led.queue with
      | [] => led
      | k :: rest => { led with held := update led.held i k, queue := rest }
    else led
  | .act (.client i) (.offer _ a) => { led with sent := led.sent ++ [(led.held i, a)] }
  | .act .flow (.await ch) =>
    match ch.bind s.shared.chans.first with
    | some o =>
      if s'.shared.chans.offers.length < s.shared.chans.offers.length then
        { led with returned := led.returned ++ [(led.pushes, o.value)] }
      else led
    | none => led
  | _ => led

/-- As `Settled`, and a client calls `FormAction` only when `PushForm` of its form has made the
channel. -/
def Orderly {n : Nat} (x : FormPool n × Ledger n) (e : Concurrent.Event (Thread n) Op)
    (y : FormPool n × Ledger n) : Prop :=
  Settled x.1 e y.1 ∧ ∀ i, e = .act (.client i) .isActive → Awaits (x.1.thread .flow) = true

/-- The form that `PushForm` has published and waits for. -/
def FlowPoint.openForm : FlowPoint → Option FormElem
  | .making f => some f
  | .evaluating f => some f
  | .awaiting f _ => some f
  | _ => none

/-- The books balance: every action that was sent has been returned by the `PushForm` of its
form, or is on offer to it. -/
structure Balanced {n : Nat} (m : Conn) (pts : ∀ t : Thread n, Point t) (led : Ledger n) :
    Prop where
  queue : led.queue = m.forms.map fun _ => led.pushes
  held : ∀ i, ClientPoint.busy (pts (.client i)) = true → led.held i = led.pushes
  sent : led.sent = led.returned ++ m.chans.offers.map fun o => (led.pushes, o.value)
  keys : ∀ p ∈ led.returned,
    p.1 ≤ led.pushes ∧ ((FlowPoint.openForm (pts .flow)).isSome = true → p.1 < led.pushes)
  nodup : (led.returned.map Prod.fst).Nodup
  current : ∀ f, FlowPoint.openForm (pts .flow) = some f → led.current = some f
  accepted : ∀ i f err, pts (.client i) ≠ ClientPoint.acted f (some err)

section Balance

variable {n : Nat} {m m' : Conn} {pts pts' : ∀ t : Thread n, Point t} {led : Ledger n}
  {s s' : FormPool n}

section

variable (h : Balanced m pts led)
include h

/-- A client moves, and no form and no action does. -/
theorem Balanced.frame (hforms : m'.forms = m.forms) (hoffers : m'.chans.offers = m.chans.offers)
    (hbusy : cp.busy = true → ClientPoint.busy (pts (.client i)) = true)
    (haccepted : ∀ f err, cp ≠ .acted f (some err)) :
    Balanced m' (update pts (.client i) cp) led where
  queue := hforms ▸ h.queue
  held := forall_family (P := Point) client_injective
    (fun j p => ClientPoint.busy p = true → led.held j = led.pushes)
    (fun hj => h.held i (hbusy hj)) fun j _ => h.held j
  sent := hoffers ▸ h.sent
  keys := h.keys
  nodup := h.nodup
  current := h.current
  accepted := forall_family (P := Point) client_injective
    (fun _ p => ∀ f err, p ≠ ClientPoint.acted f (some err)) haccepted fun j _ => h.accepted j

/-- The flow moves, and no form and no action does. -/
theorem Balanced.flowFrame (hforms : m'.forms = m.forms)
    (hoffers : m'.chans.offers = m.chans.offers)
    (hopen : ∀ f, fp.openForm = some f → FlowPoint.openForm (pts .flow) = some f) :
    Balanced m' (update pts .flow fp) led where
  queue := hforms ▸ h.queue
  held := h.held
  sent := hoffers ▸ h.sent
  keys p hp := by
    refine ⟨(h.keys p hp).1, fun hsome => (h.keys p hp).2 ?_⟩
    obtain ⟨f, hf⟩ := Option.isSome_iff_exists.mp hsome
    rw [hopen f hf]
    rfl
  nodup := h.nodup
  current f hf := h.current f (hopen f hf)
  accepted := h.accepted

/-- A form is published: the books are empty but for what has been returned. -/
theorem Balanced.publish (hforms : m.forms = [])
    (hoffers : m.chans.offers = []) (hidle : ∀ i, ClientPoint.busy (pts (.client i)) = false) :
    Balanced { m with forms := m.forms ++ [f] } (update pts .flow (FlowPoint.making f))
      { led with
        pushes := led.pushes + 1, current := some f, queue := led.queue ++ [led.pushes + 1] } where
  queue := by
    rw [h.queue, hforms]
    rfl
  held i hi := absurd ((hidle i).symm.trans hi) nofun
  sent := by
    rw [h.sent, hoffers]
    rfl
  keys p hp := by
    have hle := (h.keys p hp).1
    exact ⟨Nat.le_succ_of_le hle, fun _ => Nat.lt_succ_of_le hle⟩
  nodup := h.nodup
  current _ hg := hg
  accepted := h.accepted

/-- The flow takes the action that is on offer. -/
theorem Balanced.take
    (hopen : (FlowPoint.openForm (pts .flow)).isSome = true) (hforms : m'.forms = m.forms)
    (hone : m.chans.offers = [o]) (hnone : m'.chans.offers = []) :
    Balanced m' (update pts .flow (FlowPoint.pushed (.ok o.value)))
      { led with returned := led.returned ++ [(led.pushes, o.value)] } where
  queue := hforms ▸ h.queue
  held := h.held
  sent := by
    show led.sent = (led.returned ++ [(led.pushes, o.value)]) ++ m'.chans.offers.map _
    rw [h.sent, hone, hnone, List.map_nil, List.append_nil]
    rfl
  keys p hp := by
    refine ⟨?_, nofun⟩
    rcases List.mem_append.mp hp with hp | hp
    · exact (h.keys p hp).1
    · rw [List.mem_singleton.mp hp]
  nodup := by
    -- earlier actions were for earlier forms
    show ((led.returned ++ [(led.pushes, o.value)]).map Prod.fst).Nodup
    rw [List.map_append, List.nodup_append]
    refine ⟨h.nodup, List.nodup_singleton _, ?_⟩
    intro k hk k' hk'
    obtain ⟨p, hp, rfl⟩ := List.mem_map.mp hk
    rw [List.mem_singleton.mp hk']
    exact Nat.ne_of_lt ((h.keys p hp).2 hopen)
  current _ hf := nomatch hf
  accepted := h.accepted

/-- A client takes a form from the buffer. -/
theorem Balanced.fetch (i : Fin n) (f : FormElem) (rest : List FormElem) :
    Balanced { m with forms := rest } (update pts (.client i) (ClientPoint.holding f))
      { led with
        held := update led.held i led.pushes, queue := rest.map fun _ => led.pushes } where
  queue := rfl
  held := forall_family (P := Point) client_injective
    (fun j p => ClientPoint.busy p = true → update led.held i led.pushes j = led.pushes)
    (fun _ => update_self ..) fun j hji hj => (update_of_ne hji ..).trans (h.held j hj)
  sent := h.sent
  keys := h.keys
  nodup := h.nodup
  current := h.current
  accepted := forall_family (P := Point) client_injective
    (fun _ p => ∀ f err, p ≠ ClientPoint.acted f (some err)) nofun fun j _ => h.accepted j

/-- A client begins to send an action. -/
theorem Balanced.offer
    (hbusy : ClientPoint.busy (pts (.client i)) = true) :
    Balanced { m with chans := m.chans.offer c a }
      (update pts (.client i) (ClientPoint.sending f m.chans.next))
      { led with sent := led.sent ++ [(led.held i, a)] } := by
  have hframe : Balanced m (update pts (.client i)
      (ClientPoint.sending f m.chans.next)) led := h.frame rfl rfl (fun _ => hbusy) nofun
  refine ⟨hframe.queue, hframe.held, ?_, hframe.keys, hframe.nodup, hframe.current,
    hframe.accepted⟩
  show led.sent ++ [(led.held i, a)] =
    led.returned ++ (m.chans.offers ++ [(⟨m.chans.next, c, a⟩ : Offer FormAction)]).map _
  rw [h.sent, h.held i hbusy, List.map_append, List.append_assoc]
  rfl

/-- A step of the flow -/
theorem Balanced.flow (hcoupled : Coupled m pts) (hm : s.shared = m)
    (hm' : s'.shared = m') (hmoves : FlowMoves m (pts .flow) a m' fp) :
    Balanced m' (update pts .flow fp) (note s (Event.of .flow a) s' led) := by
  generalize hfp : pts .flow = fp₀ at hmoves
  cases hmoves with
  | push | back | refuse | check | set => exact h.flowFrame rfl rfl nofun
  | @publish f =>
    -- nobody has a form while the next one is being published
    cases hcoupled with
    | nobody hidle hjoint =>
      rw [hfp] at hjoint
      cases hjoint with
      | rest hrest => rcases hrest with h | ⟨g, h⟩ | ⟨g, h⟩ <;> cases h
      | named _ _ hforms hoffers => exact h.publish hforms hoffers hidle
      | opened hopen => rcases hopen.at_select with h | h <;> cases h
    | somebody i hbusy hidle hjoint =>
      rw [hfp] at hjoint
      generalize pts (.client i) = cp at hjoint
      cases hjoint with
      | held hopen | sending hopen => rcases hopen.at_select with h | h <;> cases h
  | make | evaluate => exact h.flowFrame rfl rfl (by rw [hfp]; exact fun _ hf => hf)
  | @take f c o ho =>
    obtain ⟨cp, hjoint⟩ := hcoupled.joint
    obtain ⟨hmem, -⟩ := Channels.mem_of_first ho
    have hone : m.chans.offers = [o] ∧ (m.chans.withdraw o.ticket).offers = [] := by
      rw [hfp] at hjoint
      cases hjoint with
      | sending _ _ hoffers =>
        rw [hoffers, List.mem_singleton] at hmem
        subst hmem
        refine ⟨hoffers, ?_⟩
        show m.chans.offers.filter _ = []
        rw [hoffers]
        simp
      | rest _ _ _ _ hoffers | opened _ _ hoffers | held _ _ _ hoffers =>
        rw [hoffers] at hmem; cases hmem
    have hnote : note s (Event.of .flow (some (.await (some c)))) s' led =
        { led with returned := led.returned ++ [(led.pushes, o.value)] } := by
      simp only [Event.of, note, Option.bind_some, hm, ho]
      refine if_pos ?_
      rw [hm', hone.1]
      show (m.chans.withdraw o.ticket).offers.length < _
      rw [hone.2]
      exact Nat.one_pos
    rw [hnote]
    exact h.take (by rw [hfp]; rfl) rfl hone.1 hone.2
  | @fail f ch =>
    have hnote : note s (Event.of .flow (some (.await ch))) s' led = led := by
      simp only [Event.of, note]
      split
      · refine if_neg ?_
        rw [hm, hm']
        exact Nat.lt_irrefl _
      · rfl
    rw [hnote]
    exact h.flowFrame rfl rfl nofun

/-- A step of a client -/
theorem Balanced.client (hcoupled : Coupled m pts)
    (hrunning : m.panicked = false) (hm : s.shared = m) (hm' : s'.shared = m')
    (hmoves : ClientMoves m (pts (.client i)) a m' cp)
    (hasked : pts (.client i) = ClientPoint.waiting → Acts cp.prog = false)
    (hopen : a = some .isActive → m.formAction.isSome = true) :
    Balanced m' (update pts (.client i) cp) (note s (Event.of (.client i) a) s' led) := by
  have hpanicked : m'.panicked = false := (hcoupled.client hmoves hasked).2.trans hrunning
  generalize hcp : pts (.client i) = cp₀ at hmoves
  cases hmoves with
  | wait | drop | done | blank => exact h.frame rfl rfl nofun nofun
  | unasked => cases hasked hcp
  | @fetch f rest hforms =>
    -- a form has left the buffer, which is how the note knows that it was received
    have hnote : note s (Event.of (.client i) (some .waitForm)) s' led =
        { led with
          held := update led.held i led.pushes
          queue := rest.map fun _ => led.pushes } := by
      have hqueue : led.queue = led.pushes :: rest.map fun _ => led.pushes := by
        rw [h.queue, hforms]
        rfl
      simp only [Event.of, note, hqueue]
      refine if_pos ?_
      rw [hm, hm', hforms]
      exact Nat.lt_succ_self _
    rw [hnote]
    exact h.fetch i f rest
  | unfetched =>
    have hnote : note s (Event.of (.client i) (some .waitForm)) s' led = led := by
      refine if_neg ?_
      rw [hm, hm']
      exact Nat.lt_irrefl _
    rw [hnote]
    exact h.frame rfl rfl nofun nofun
  | act | check | evaluate | sent | evaluateAgain | close | clear =>
    exact h.frame rfl rfl (fun _ => by rw [hcp]; rfl) nofun
  | retry => exact absurd hcp (h.accepted i _ _)
  | refuse hactive =>
    rw [hopen rfl] at hactive
    cases hactive
  | offer => exact h.offer (by rw [hcp]; rfl)
  | offerClosed | sentClosed | closeClosed => cases hpanicked

end

/-- While `PushForm` waits for an action, its channel is the active one. -/
theorem Joint.awaited (h : Joint m fp cp) (hawaits : Awaits fp.prog = true) :
    ∃ f c, fp.openForm = some f ∧ m.formAction = some c ∧ m.chans.closed c = false ∧
      m.formId = f.id := by
  have hopen : ∀ {f c}, Open m f c fp → ∃ f c, fp.openForm = some f ∧ m.formAction = some c ∧
      m.chans.closed c = false ∧ m.formId = f.id := by
    intro f c hopen
    refine ⟨f, c, ?_, hopen.slot, hopen.live, hopen.formId⟩
    rcases hopen.at_select with rfl | rfl <;> rfl
  cases h with
  | opened h | held h | sending h => exact hopen h
  | rest hfp => rcases hfp with rfl | ⟨f, rfl⟩ | ⟨f, rfl⟩ <;> cases hawaits
  | _ => cases hawaits

end Balance

/-- What holds at every moment of an orderly run. -/
structure Kept {n : Nat} (m : Conn) (pts : ∀ t : Thread n, Point t) (led : Ledger n) : Prop where
  steady : Steady m pts
  balanced : Balanced m pts led

theorem Kept.keep (hm : s.shared = m) (hm' : s'.shared = m') (hat : s.At progAt pts)
    (hat' : s'.At progAt pts') (hmoves : Moving moves m pts e m' pts') (h : Kept m pts led)
    (hcond : Orderly (s, led) e (s', note s e s' led)) : Kept m' pts' (note s e s' led) := by
  refine ⟨h.steady.keep hm hm' hat hat' hmoves hcond.1, ?_⟩
  cases hmoves with
  | @move t a m' pt hmoves =>
    cases t with
    | flow => exact h.balanced.flow h.steady.coupled hm hm' hmoves
    | client i =>
      refine h.balanced.client h.steady.coupled h.steady.running hm hm' hmoves
        (asked_of_settled hat hat' hcond.1 hmoves) ?_
      rintro rfl
      have hawaits : Awaits (s.thread .flow) = true := hcond.2 i rfl
      rw [hat .flow] at hawaits
      obtain ⟨cp, hjoint⟩ := h.steady.coupled.joint
      obtain ⟨f, c, -, hslot, -⟩ := hjoint.awaited hawaits
      rw [hslot]
      rfl

theorem balanced_newConnection (n : Nat) :
    Balanced (newConnection n).shared atRest (Ledger.empty n) := by
  constructor
  · rfl
  · intro i hi
    cases hi
  · rfl
  · intro p hp
    cases hp
  · exact List.nodup_nil
  · intro f hf
    cases hf
  · intro i f err hpt
    cases hpt

/-- In every interleaving of a flow that pushes one form after another with any number of
clients that act on a form after they have received it, in which a client calls `FormAction` only
when `PushForm` has made its channel, `PushForm` leaves its `select` with an action and returns
only when no `FormAction` is under way: no `FormAction` is refused; every action has been returned
by the `PushForm` of its form and by no other, except for one that is still on offer; a
`FormAction` that is under way is on the last form that was pushed; and while a form is awaited,
its channel is there and open and its id is the active one. -/
theorem protocol_of_orderly {n : Nat} {ok : Prop} {x : FormPool n × Ledger n}
    (h : Trace.Steps (Recorded forms note) Orderly (newConnection n, Ledger.empty n) ok x)
    (hok : ok) :
    (∀ i f err, x.1.thread (.client i) ≠ .ret (.acted f (some err))) ∧
      (x.2.returned <+: x.2.sent ∧ (x.1.shared.chans.offers = [] → x.2.returned = x.2.sent) ∧
        (x.2.returned.map Prod.fst).Nodup) ∧
      (∀ i, Acts (x.1.thread (.client i)) = true → x.2.held i = x.2.pushes) ∧
      (Awaits (x.1.thread .flow) = true → ∃ f c, x.2.current = some f ∧
        x.1.shared.formAction = some c ∧ x.1.shared.chans.closed c = false ∧
          x.1.shared.formId = f.id) ∧
      x.1.shared.panicked = false := by
  obtain ⟨pts, hat, hkept⟩ : ∃ pts, x.1.At progAt pts ∧ Kept x.1.shared pts x.2 :=
    (form_outline n).run h hok (at_newConnection n)
      ⟨steady_newConnection n, balanced_newConnection n⟩
      fun hm hm' hat hat' hmoves hinv hcond => hinv.keep hm hm' hat hat' hmoves hcond
  obtain ⟨cp, hjoint⟩ := hkept.steady.coupled.joint
  have hbalanced := hkept.balanced
  refine ⟨?_, ⟨?_, ?_, hbalanced.nodup⟩, ?_, ?_, hkept.steady.running⟩
  · intro i f err hacted
    rw [hat (.client i)] at hacted
    refine hbalanced.accepted i f err ?_
    generalize pts (.client i) = cp at hacted
    cases cp <;> cases hacted
    rfl
  · rw [hbalanced.sent]
    exact List.prefix_append _ _
  · intro hoffers
    rw [hbalanced.sent, hoffers, List.map_nil, List.append_nil]
  · intro i hacts
    rw [hat (.client i)] at hacts
    exact hbalanced.held i (ClientPoint.busy_of_acts hacts)
  · intro hawaits
    rw [hat .flow] at hawaits
    obtain ⟨f, c, hform, hslot, hlive, hid⟩ := hjoint.awaited hawaits
    exact ⟨f, c, hbalanced.current f hform, hslot, hlive, hid⟩

/-- A check for `Orderly` -/
def orders {n : Nat} (x : FormPool n × Ledger n) (e : Concurrent.Event (Thread n) Op)
    (y : FormPool n × Ledger n) : Bool :=
  decide (Settled x.1 e y.1) && match e with
    | .act (.client _) .isActive => Awaits (x.1.thread .flow)
    | _ => true

theorem orderly_of_orders (x : FormPool n × Ledger n) (e : Concurrent.Event (Thread n) Op)
    (y : FormPool n × Ledger n) (h : orders x e y = true) : Orderly x e y := by
  obtain ⟨hsettled, hawaits⟩ := Bool.and_eq_true_iff.mp h
  refine ⟨of_decide_eq_true hsettled, ?_⟩
  rintro i rfl
  exact hawaits

/-- Two forms, one after the other -/
def answeredTwice : List (Thread 1 × Outside) := answered ++ clients 1 ++ answered

/-- The action on each form has been returned by the `PushForm` of the form. -/
theorem protocol_of_orderly_answered :
    ∃ x, Trace.play (Pool.record forms note) answeredTwice (newConnection 1, Ledger.empty 1) =
        some x ∧
      x.2.sent = [(1, answer), (2, answer)] ∧ x.2.returned = x.2.sent := by
  obtain ⟨x, hx, ⟨hsent, hoffers⟩, ok, hsteps, hok⟩ := Pool.reaches_record forms note
    orderly_of_orders answeredTwice (newConnection 1, Ledger.empty 1)
    (fun x => x.2.sent = [(1, answer), (2, answer)] ∧ x.1.shared.chans.offers.isEmpty = true)
    (by decide +kernel)
  exact ⟨x, hx, hsent, (protocol_of_orderly hsteps hok).2.1.2.1 (List.isEmpty_iff.mp hoffers)⟩

/-- The client receives the form and acts on it before `PushForm` has made its channel. -/
def hasty : List (Thread 1 × Outside) := flows false 4 ++ clients 4

/-- The error that `FormAction` returns -/
def rejection : Go Label → Option AppError
  | .ret (.acted _ err) => err
  | _ => none

theorem thread_of_rejection (h : rejection p = some err) : ∃ f, p = .ret (.acted f (some err)) := by
  unfold rejection at h
  split at h
  · cases h
    exact ⟨_, rfl⟩
  · cases h

/-- `FormAction` on a form that the client has received is refused. -/
theorem protocol_of_orderly_hasty :
    ∃ ok x, Trace.Steps (Recorded forms note) Orderly (newConnection 1, Ledger.empty 1) ok x ∧
      ∃ f, x.1.thread (.client 0) = .ret (.acted f (some errNotFound)) := by
  obtain ⟨x, -, hrejected, ok, hsteps⟩ := Trace.reaches (Pool.record_step forms note) Orderly hasty
    (newConnection 1, Ledger.empty 1)
    (fun x => rejection (x.1.thread (.client 0)) = some errNotFound) (by decide +kernel)
  exact ⟨ok, x, hsteps, thread_of_rejection hrejected⟩

end FlowManager.Grpc.Form
