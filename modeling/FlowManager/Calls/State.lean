import Mathlib.Data.List.MinMax
import Mathlib.Data.List.Induction
import Mathlib.Data.List.Pairwise
import Mathlib.Data.Int.Order.Basic
import Mathlib.Logic.Function.Basic

/-!
# The stored state of a call

Every event of a call is handled in a goroutine of its own, which executes one statement on the
row of the call in `cc_calls`: `Save` for `ringing`, `SetHangup` for a hangup that is recorded, and
`SetState` for the events that nothing else is done for. They insert the row, or update the one
that is there. The conditions of `SetState` and `SetHangup` on the timestamp stand between the
conflict target and `DO UPDATE`, where they select an index and hold back no update.

A timestamp is kept in the milliseconds of the event. Of the columns only those are modelled that
an event can find set by another one of these statements and that say when and how.

- `save`, `setState`, `setHangup`, `handleCallAction`: the code.
- `told_row`: the row after some events, in the order in which they reach the database.
- `converges_iff`: for which orders it is the row of the latest event.
-/

namespace FlowManager.Calls

open Function

structure CallAction where
  id : String
  appId : String
  domainId : Int
  timestamp : Int
  event : String
  deriving DecidableEq

/-- `model.CallActionData` from the queue -/
structure CallActionData extends CallAction where
  data : Option String
  deriving DecidableEq

/-- What `GetEvent` returns, with the fields that are read here -/
inductive Parsed where
  | ringing (call : CallAction)
  | active (call : CallAction)
  | hold (call : CallAction)
  | heartbeat (call : CallAction)
  | bridge (call : CallAction)
  | hangup (call : CallAction) (cause : String) (cdr : Option Bool)
  | transcript (call : CallAction)
  | mediaStats (call : CallAction)
  | progress (call : CallAction)
  /-- `nil`, or a value of no type of its own -/
  | other

/-- The value that the data of an event are decoded into -/
def CallActionData.empty (c : CallActionData) : Parsed :=
  match c.event with
  | "ringing" => .ringing c.toCallAction
  | "active" => .active c.toCallAction
  | "hold" => .hold c.toCallAction
  | "heartbeat" => .heartbeat c.toCallAction
  | "bridge" => .bridge c.toCallAction
  | "hangup" => .hangup c.toCallAction "" none
  | "transcript" => .transcript c.toCallAction
  | "stats" => .mediaStats c.toCallAction
  | "progress" => .progress c.toCallAction
  | _ => .other

/-- `GetEvent`; `unmarshal` is `json.Unmarshal`, which may set any of the fields. -/
def CallActionData.getEvent (unmarshal : String → Parsed → Parsed) (c : CallActionData) : Parsed :=
  match c.data with
  | some data => unmarshal data c.empty
  | none => c.empty

/-! ## The statements -/

/-- The part of a row of `cc_calls` that is modelled -/
structure Row where
  appId : String
  domainId : Int
  state : String
  timestamp : Int
  cause : Option String
  createdAt : Option Int
  deriving DecidableEq

/-- `cc_calls`, by the id -/
abbrev Table := String → Option Row

/-- `insert .. on conflict (id) where index do update set ..`. A unique index on all rows serves
every condition, so the condition on the index plays no part. -/
def Table.upsert (rows : Table) (id : String) (new : Row) (_index : Row → Bool)
    (set : Row → Row) : Table :=
  update rows id <| some <|
    match rows id with
    | some row => set row
    | none => new

/-- `SqlCallStore.Save` -/
def Table.save (rows : Table) (call : CallAction) : Table :=
  rows.upsert call.id
    ⟨call.appId, call.domainId, call.event, call.timestamp, none, some call.timestamp⟩
    (fun _ => true)
    fun row => { row with createdAt := some call.timestamp }

/-- `SqlCallStore.SetState` -/
def Table.setState (rows : Table) (call : CallAction) : Table :=
  rows.upsert call.id
    ⟨call.appId, call.domainId, call.event, call.timestamp, none, none⟩
    (fun row => row.timestamp < call.timestamp && row.cause.isNone)
    fun row => { row with state := call.event, timestamp := call.timestamp }

/-- `SqlCallStore.SetHangup` -/
def Table.setHangup (rows : Table) (call : CallAction) (cause : String) : Table :=
  rows.upsert call.id
    ⟨call.appId, call.domainId, call.event, call.timestamp, some cause, none⟩
    (fun row => row.timestamp ≤ call.timestamp)
    fun row => { row with state := call.event, cause := some cause, timestamp := call.timestamp }

/-- `SqlCallStore.Delete` -/
def Table.delete (rows : Table) (id : String) : Table := update rows id none

/-- The events that `handleCallAction` ignores, of those it has no case for -/
def ignored : List String := ["eavesdrop", "dtmf", "update", "transcript"]

/-- `handleCallAction`. What `SetBridged` does is up to a procedure of the database; the statements
of the other kinds of events do not touch what is modelled of the row. -/
def handleCallAction (unmarshal : String → Parsed → Parsed)
    (setBridged : CallAction → Table → Table) (rows : Table) (data : CallActionData) : Table :=
  match data.getEvent unmarshal with
  | .ringing call => rows.save call
  | .bridge call => setBridged call rows
  | .hangup call cause cdr =>
    -- a call that is not to be recorded leaves no row
    if cdr = some false then rows.delete call.id else rows.setHangup call cause
  | .transcript _ | .heartbeat _ | .mediaStats _ | .progress _ => rows
  | .active _ | .hold _ | .other =>
    -- the fields of the envelope are stored, not those of the data
    if data.event ∈ ignored then rows else rows.setState data.toCallAction

/-- The handlers reach the database in the given order. -/
def handleAll (unmarshal : String → Parsed → Parsed) (setBridged : CallAction → Table → Table)
    (rows : Table) (events : List CallActionData) : Table :=
  events.foldl (handleCallAction unmarshal setBridged) rows

/-! ## What an event tells -/

/-- The events whose state and timestamp are stored -/
inductive Kind where
  | ringing
  | state
  | hangup
  deriving DecidableEq

/-- The state change that an event is handled as, if it is stored -/
def CallActionData.told (unmarshal : String → Parsed → Parsed) (data : CallActionData) :
    Option (Kind × CallAction) :=
  match data.getEvent unmarshal with
  | .ringing call => some (.ringing, call)
  | .hangup call _ cdr => if cdr = some false then none else some (.hangup, call)
  | .active _ | .hold _ | .other =>
    if data.event ∈ ignored then none else some (.state, data.toCallAction)
  | _ => none

/-- The state and the time that a row has -/
def Row.seen (row : Row) : String × Int := (row.state, row.timestamp)

/-- The state and the time that an event brings -/
def CallAction.seen (call : CallAction) : String × Int := (call.event, call.timestamp)

variable {unmarshal : String → Parsed → Parsed} {setBridged : CallAction → Table → Table}
  {data : CallActionData} {call : CallAction} {kind : Kind}

theorem upsert_self (rows : Table) (id : String) (new : Row) (index : Row → Bool)
    (set : Row → Row) : rows.upsert id new index set id = some ((rows id).elim new set) := by
  unfold Table.upsert
  rw [update_self]
  cases rows id <;> rfl

/-- What a stored event makes of the row of its call: a `ringing` keeps the state of a row that is
there, and every other one replaces it, whatever the timestamps. -/
theorem handleCallAction_told (setBridged : CallAction → Table → Table) (rows : Table)
    (h : data.told unmarshal = some (kind, call)) :
    (handleCallAction unmarshal setBridged rows data call.id).map Row.seen =
      some (if kind = .ringing then ((rows call.id).map Row.seen).getD call.seen
        else call.seen) := by
  -- the three statements differ in what they do to a row that is there
  have hsave : (rows.save call call.id).map Row.seen =
      some (((rows call.id).map Row.seen).getD call.seen) := by
    rw [Table.save, upsert_self]
    cases rows call.id <;> rfl
  have hset : (rows.setState call call.id).map Row.seen = some call.seen := by
    rw [Table.setState, upsert_self]
    cases rows call.id <;> rfl
  have hhangup : ∀ cause, (rows.setHangup call cause call.id).map Row.seen = some call.seen := by
    intro cause
    rw [Table.setHangup, upsert_self]
    cases rows call.id <;> rfl
  unfold CallActionData.told at h
  unfold handleCallAction
  cases hevent : data.getEvent unmarshal with
  | ringing call' =>
    rw [hevent] at h
    cases h
    exact hsave
  | hangup call' cause cdr =>
    rw [hevent] at h
    dsimp only at h ⊢
    split at h
    · cases h
    · rename_i hcdr
      cases h
      rw [if_neg hcdr]
      exact hhangup cause
  | active | hold | other =>
    rw [hevent] at h
    dsimp only at h ⊢
    split at h
    · cases h
    · rename_i hignored
      cases h
      rw [if_neg hignored]
      exact hset
  | heartbeat | bridge | transcript | mediaStats | progress =>
    rw [hevent] at h
    cases h

/-! ## Orders -/

/-- The state changes of a call that some events stand for: their timestamps are different, a
`ringing` is the earliest and a hangup the latest of them. -/
structure Told (unmarshal : String → Parsed → Parsed) (id : String) (events : List CallActionData)
    (calls : List (Kind × CallAction)) : Prop where
  told : events.map (CallActionData.told unmarshal) = calls.map some
  id_eq : ∀ x ∈ calls, x.2.id = id
  distinct : calls.Pairwise fun x y => x.2.timestamp ≠ y.2.timestamp
  ringing : ∀ x ∈ calls, x.1 = .ringing → ∀ y ∈ calls, x.2.timestamp ≤ y.2.timestamp
  hangup : ∀ x ∈ calls, x.1 = .hangup → ∀ y ∈ calls, y.2.timestamp ≤ x.2.timestamp

/-- The last state change other than `ringing` -/
def lastChange (calls : List (Kind × CallAction)) : Option (Kind × CallAction) :=
  (calls.filter fun x => x.1 ≠ .ringing).getLast?

/-- The state change that the row is left with -/
def settled (calls : List (Kind × CallAction)) : Option (Kind × CallAction) :=
  (lastChange calls).or calls.head?

theorem lastChange_append (calls calls' : List (Kind × CallAction)) :
    lastChange (calls ++ calls') = (lastChange calls').or (lastChange calls) := by
  unfold lastChange
  rw [List.filter_append, List.getLast?_append]

theorem lastChange_singleton (x : Kind × CallAction) :
    lastChange [x] = if x.1 = .ringing then none else some x := by
  unfold lastChange
  by_cases hx : x.1 = .ringing
  · rw [if_pos hx, List.filter_cons_of_neg (by simpa using hx)]
    rfl
  · rw [if_neg hx, List.filter_cons_of_pos (by simpa using hx)]
    rfl

theorem mem_of_lastChange (h : lastChange calls = some x) : x ∈ calls ∧ x.1 ≠ .ringing := by
  obtain ⟨hmem, hkind⟩ := List.mem_filter.mp (List.mem_of_getLast? h)
  exact ⟨hmem, of_decide_eq_true hkind⟩

theorem handleAll_concat (rows : Table) (events : List CallActionData) (e : CallActionData) :
    handleAll unmarshal setBridged rows (events ++ [e]) =
      handleCallAction unmarshal setBridged (handleAll unmarshal setBridged rows events) e :=
  List.foldl_concat ..

/-- The row after some events -/
theorem told_row {id : String} (hnew : rows id = none)
    (events : List CallActionData) : ∀ {calls : List (Kind × CallAction)},
      events.map (CallActionData.told unmarshal) = calls.map some →
      (∀ x ∈ calls, x.2.id = id) →
      (handleAll unmarshal setBridged rows events id).map Row.seen =
        (settled calls).map fun x => x.2.seen := by
  -- on the order in which the events reach the database, from the last one
  induction events using List.reverseRecOn with
  | nil =>
    intro calls htold _
    rw [List.map_nil, eq_comm, List.map_eq_nil_iff] at htold
    subst htold
    show (rows id).map Row.seen = none
    rw [hnew]
    rfl
  | append_singleton events e ih =>
    intro calls htold hid
    rw [List.map_append, eq_comm, List.map_eq_append_iff] at htold
    obtain ⟨before, last, rfl, hbefore, hlast⟩ := htold
    rw [List.map_cons, List.map_nil, List.map_eq_singleton_iff] at hlast
    obtain ⟨x, rfl, hx⟩ := hlast
    have hrow := ih hbefore.symm fun x hx => hid x (List.mem_append_left _ hx)
    have hcall : x.2.id = id := hid x (List.mem_append_right _ (List.mem_singleton_self x))
    have hstored := handleCallAction_told setBridged (handleAll unmarshal setBridged rows events)
      hx.symm
    rw [hcall, hrow] at hstored
    rw [handleAll_concat, hstored]
    unfold settled
    rw [lastChange_append, lastChange_singleton]
    by_cases hkind : x.1 = .ringing
    · rw [if_pos hkind, if_pos hkind]
      cases lastChange before with
      | some y => rfl
      | none =>
        cases before with
        | nil => rfl
        | cons y before => rfl
    · rw [if_neg hkind, if_neg hkind]
      rfl

variable {id : String} {events : List CallActionData} {calls : List (Kind × CallAction)}
  {x y : Kind × CallAction} {rows : Table}

section

variable (h : Told unmarshal id events calls)
include h

theorem Told.eq_of_timestamp (hx : x ∈ calls) (hy : y ∈ calls)
    (heq : x.2.timestamp = y.2.timestamp) : x = y := by
  by_contra hne
  have hsymm : Std.Symm fun x y : Kind × CallAction => x.2.timestamp ≠ y.2.timestamp :=
    ⟨fun _ _ hne => hne.symm⟩
  exact h.distinct.forall hx hy hne heq

/-- Without a state change other than `ringing` there is only that. -/
theorem Told.eq_of_ringing (hnone : lastChange calls = none)
    (hx : x ∈ calls) (hy : y ∈ calls) : x = y := by
  have hringing : ∀ z ∈ calls, z.1 = .ringing := by
    intro z hz
    by_contra hkind
    have hmem : z ∈ calls.filter fun x => x.1 ≠ .ringing :=
      List.mem_filter.mpr ⟨hz, decide_eq_true hkind⟩
    rw [List.getLast?_eq_none_iff.mp hnone] at hmem
    cases hmem
  refine h.eq_of_timestamp hx hy (le_antisymm ?_ ?_)
  · exact h.ringing x hx (hringing x hx) y hy
  · exact h.ringing y hy (hringing y hy) x hx

/-- The row of the call after some events is that of the last state change. -/
theorem Told.row (hnew : rows id = none) :
    (handleAll unmarshal setBridged rows events id).map Row.seen =
      (settled calls).map fun x => x.2.seen :=
  told_row hnew events h.told h.id_eq

end

/-- The row of the call shows a state change. -/
def Shows (rows : Table) (id : String) (call : CallAction) : Prop :=
  ∃ row, rows id = some row ∧ row.state = call.event ∧ row.timestamp = call.timestamp

theorem shows_iff : Shows rows id call ↔ (rows id).map Row.seen = some call.seen := by
  unfold Shows
  rw [Option.map_eq_some_iff]
  simp only [Row.seen, CallAction.seen, Prod.mk.injEq]

/-- The row ends with the latest state change, and once it shows the hangup it always does. -/
def Converges (unmarshal : String → Parsed → Parsed) (setBridged : CallAction → Table → Table)
    (rows : Table) (id : String) (events : List CallActionData)
    (calls : List (Kind × CallAction)) : Prop :=
  (∀ x ∈ calls, (∀ y ∈ calls, y.2.timestamp ≤ x.2.timestamp) →
    Shows (handleAll unmarshal setBridged rows events) id x.2) ∧
  ∀ before e after call, events = before ++ e :: after →
    e.told unmarshal = some (.hangup, call) →
    ∀ after', after' <+: after →
      Shows (handleAll unmarshal setBridged rows (before ++ e :: after')) id call

/-- The last one of the state changes other than `ringing` is the latest of all. -/
def LatestLast (calls : List (Kind × CallAction)) : Prop :=
  ∀ x, lastChange calls = some x → ∀ y ∈ calls, y.2.timestamp ≤ x.2.timestamp

theorem Told.settled_of_latest (h : Told unmarshal id events calls) (hlatest : LatestLast calls)
    (hx : x ∈ calls) (hmax : ∀ y ∈ calls, y.2.timestamp ≤ x.2.timestamp) :
    settled calls = some x := by
  unfold settled
  cases hlast : lastChange calls with
  | some z =>
    have hz := (mem_of_lastChange hlast).1
    rw [h.eq_of_timestamp hz hx (le_antisymm (hmax z hz) (hlatest z hlast x hx))]
    rfl
  | none =>
    cases calls with
    | nil => cases hx
    | cons y calls =>
      rw [h.eq_of_ringing hlast hx List.mem_cons_self]
      rfl

/-- After a hangup there is nothing but a `ringing`, if the last state change is the latest. -/
theorem Told.lastChange_after (h : Told unmarshal id events (before ++ x :: after))
    (hlatest : LatestLast (before ++ x :: after)) (hx : x.1 = .hangup) :
    lastChange after = none := by
  by_contra hsome
  obtain ⟨z, hz⟩ := Option.ne_none_iff_exists'.mp hsome
  have hlast : lastChange (before ++ x :: after) = some z := by
    rw [← List.singleton_append, ← List.append_assoc, lastChange_append, hz]
    rfl
  have hmem : x ∈ before ++ x :: after := List.mem_append_right _ List.mem_cons_self
  have hzmem := (mem_of_lastChange hlast).1
  have heq : x.2.timestamp = z.2.timestamp :=
    le_antisymm (hlatest z hlast x hmem) (h.hangup x hmem hx z hzmem)
  have hdistinct := (List.pairwise_cons.mp (List.pairwise_append.mp h.distinct).2.1).1
  exact hdistinct z (mem_of_lastChange hz).1 heq

theorem Told.shows_hangup (h : Told unmarshal id events calls) (hlatest : LatestLast calls)
    (hnew : rows id = none) (hevents : events = before ++ e :: after)
    (htold : e.told unmarshal = some (.hangup, call)) (hpre : after' <+: after) :
    Shows (handleAll unmarshal setBridged rows (before ++ e :: after')) id call := by
  obtain ⟨rest, rfl⟩ := hpre
  have hmap := h.told.symm
  rw [hevents, List.map_append, List.map_cons, List.map_append, List.map_eq_append_iff] at hmap
  obtain ⟨b, l, rfl, hb, hl⟩ := hmap
  obtain ⟨x, l, rfl, hx, hl⟩ := List.map_eq_cons_iff.mp hl
  obtain ⟨a, r, rfl, ha, hr⟩ := List.map_eq_append_iff.mp hl
  rw [htold] at hx
  cases hx
  have hnone := h.lastChange_after hlatest rfl
  rw [lastChange_append, Option.or_eq_none_iff] at hnone
  have hrow : (handleAll unmarshal setBridged rows (before ++ e :: after') id).map Row.seen =
      (settled (b ++ (.hangup, call) :: a)).map fun x => x.2.seen := by
    refine told_row hnew _ ?_ fun y hy => h.id_eq y ?_
    · rw [List.map_append, List.map_cons, List.map_append, List.map_cons, hb, ha, htold]
    · rw [← List.cons_append, ← List.append_assoc]
      exact List.mem_append_left _ hy
  have hlast : lastChange (b ++ (.hangup, call) :: a) = some (.hangup, call) := by
    rw [← List.singleton_append, ← List.append_assoc, lastChange_append, hnone.2,
      lastChange_append, lastChange_singleton]
    rfl
  rw [shows_iff, hrow, settled, hlast]
  rfl

/-- In every order in which the events of a call reach the database: the stored state converges
exactly if, of the events other than `ringing`, the one with the greatest timestamp comes last. -/
theorem converges_iff (unmarshal : String → Parsed → Parsed)
    (setBridged : CallAction → Table → Table) {rows : Table} {id : String}
    {events : List CallActionData} {calls : List (Kind × CallAction)}
    (h : Told unmarshal id events calls) (hnew : rows id = none) :
    Converges unmarshal setBridged rows id events calls ↔ LatestLast calls := by
  constructor
  · rintro ⟨hends, -⟩ last hlast y hy
    obtain ⟨x, hx⟩ : ∃ x, calls.argmax (fun x => x.2.timestamp) = some x := by
      rw [← Option.ne_none_iff_exists', ne_eq, List.argmax_eq_none]
      exact List.ne_nil_of_mem hy
    have hmax : ∀ y ∈ calls, y.2.timestamp ≤ x.2.timestamp :=
      fun y hy => List.le_of_mem_argmax (f := fun x : Kind × CallAction => x.2.timestamp) hy hx
    have hshows := shows_iff.mp (hends x (List.argmax_mem hx) hmax)
    rw [h.row hnew, settled, hlast] at hshows
    have hsame : last.2.timestamp = x.2.timestamp := (Prod.mk.inj (Option.some.inj hshows)).2
    rw [hsame]
    exact hmax y hy
  · intro hlatest
    refine ⟨fun x hx hmax => ?_, fun before e after call hevents htold after' hpre => ?_⟩
    · rw [shows_iff, h.row hnew, h.settled_of_latest hlatest hx hmax]
      rfl
    · exact h.shows_hangup hlatest hnew hevents htold hpre

/-- An event without data -/
def event (name : String) (timestamp : Int) : CallActionData :=
  ⟨⟨"c", "node", 1, timestamp, name⟩, none⟩

/-- No row, data that are not looked at, and no bridges -/
def noCalls : Table := fun _ => none

def keepParsed (_ : String) (p : Parsed) : Parsed := p

def noBridge (_ : CallAction) (rows : Table) : Table := rows

/-- The `ringing` comes last, and the other events in the order of their timestamps. -/
theorem converges_iff_ringing :
    ∃ calls, Told keepParsed "c" [event "active" 2, event "hangup" 3, event "ringing" 1] calls ∧
      Converges keepParsed noBridge noCalls "c"
        [event "active" 2, event "hangup" 3, event "ringing" 1] calls := by
  have htold : Told keepParsed "c" [event "active" 2, event "hangup" 3, event "ringing" 1]
      [(.state, (event "active" 2).toCallAction), (.hangup, (event "hangup" 3).toCallAction),
        (.ringing, (event "ringing" 1).toCallAction)] :=
    ⟨rfl, by decide, by decide, by decide, by decide⟩
  refine ⟨_, htold, (converges_iff keepParsed noBridge htold rfl).mpr fun x hx => ?_⟩
  cases hx
  decide

/-- The hangup reaches the database before a state change from earlier, which then replaces it. -/
theorem converges_iff_overtaken :
    ∃ calls, Told keepParsed "c" [event "hangup" 2, event "active" 1] calls ∧
      (∃ row, handleAll keepParsed noBridge noCalls [event "hangup" 2] "c" = some row ∧
        row.state = "hangup") ∧
      (∃ row, handleAll keepParsed noBridge noCalls [event "hangup" 2, event "active" 1] "c" =
        some row ∧ row.state = "active" ∧ row.timestamp = 1) ∧
      ¬ Converges keepParsed noBridge noCalls "c" [event "hangup" 2, event "active" 1] calls := by
  have htold : Told keepParsed "c" [event "hangup" 2, event "active" 1]
      [(.hangup, (event "hangup" 2).toCallAction), (.state, (event "active" 1).toCallAction)] :=
    ⟨rfl, by decide, by decide, by decide, by decide⟩
  refine ⟨_, htold, ⟨_, rfl, rfl⟩, ⟨_, rfl, rfl, rfl⟩, fun h => ?_⟩
  obtain ⟨row, hrow, hstate, -⟩ := h.2 [] (event "hangup" 2) [event "active" 1] _ rfl rfl
    [event "active" 1] (List.prefix_refl _)
  cases hrow
  exact absurd hstate (by decide)

end FlowManager.Calls
