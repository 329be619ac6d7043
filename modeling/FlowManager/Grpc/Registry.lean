import FlowManager.Cache.Live
import FlowManager.Grpc.Bridge
import FlowManager.Grpc.Confirm

/-!
# The registry of chat conversations

`Start` puts a new conversation into `conversations`, an LRU cache, under the id of the request,
and hands it to the router, which runs its flow. The other requests find it there by its id. When
the flow is over, `Stop` takes the entry of the id out of the cache, whoever it belongs to by then:
a `Start` with an id that is in use replaces the entry, and both flows run on.

A pointer to a conversation is its number, in the order in which they were registered. A flow may
end at any moment; of what it does on the way only `Break("error")` matters here.

- `start`, `breakConversation`, `breakBridge`, `handle`, `stop`: the code, access by access.
- `Kept`: the entry of an id is the conversation that was started last with it.
- `stop_keeps_iff`: when `Stop` leaves the other conversations alone.
-/

namespace FlowManager.Grpc.Registry

open Concurrent Lru

def activeConversationCacheSize : Nat := 50000

def maximumInactiveChat : Int := 0

/-- The part of a `workflow.StartRequest` that is read here -/
structure StartRequest where
  conversationId : String
  domainId : Int
  profileId : Int
  schemaId : Int
  userId : Int

/-- The part of a `conversation` that its end is about -/
structure Conversation where
  id : String
  domainId : Int
  profileId : Int
  schemaId : Int
  userId : Int
  breakCause : String

def newConversation (req : StartRequest) : Conversation :=
  ⟨req.conversationId, req.domainId, req.profileId, req.schemaId, req.userId, ""⟩

/-- `c.IsTransfer()` -/
def Conversation.isTransfer (c : Conversation) : Bool :=
  if c.breakCause = "" then false else Bridge.equalFoldTransfer c.breakCause

/-- `chatApi`, with all conversations it has made -/
structure ChatApi where
  conversations : Cache String Nat
  started : List Conversation
  /-- what has been sent on `s.server.consume` -/
  consume : List Nat

/-- The ids of the conversations -/
def ChatApi.ids (s : ChatApi) : List String := s.started.map Conversation.id

/-- What `getConversation` finds -/
def ChatApi.getConversation (s : ChatApi) (now : Int) (id : String) : Option Nat :=
  (s.conversations.get now id).2

/-- `CloseConversationCause`, as far as the router uses it -/
inductive Cause where
  | flowEnd
  | flowErr

/-- The accesses -/
inductive Op where
  /-- `s.conversations.Get(id)` -/
  | get (id : String)
  | getClientFromRequest
  /-- `NewConversation`, and `s.conversations.AddWithExpiresInSecs` -/
  | register (req : StartRequest)
  /-- `s.server.consume <- conv` -/
  | consume (c : Nat)
  /-- the router gets the conversation -/
  | take (c : Nat)
  | getChatRouteFromSchemaId (domainId schemaId : Int)
  | getChatRouteFromUserId (domainId userId : Int)
  | getChatRouteFromProfile (domainId profileId : Int)
  | isTransfer (c : Nat)
  | breakCause (c : Nat)
  | setBreakCause (c : Nat) (cause : String)
  /-- `conv.chBridge ≠ nil` -/
  | hasBridge (c : Nat)
  | closeConversation (c : Nat) (cause : Cause)
  /-- `c.chat.conversations.Remove(c.id)` -/
  | remove (c : Nat)

/-- The answer to an access. -/
abbrev Op.Result : Op → Type
  | .get _ => Option Nat
  | .getClientFromRequest => Option String
  | .register _ => Nat
  | .take _ => Conversation
  | .getChatRouteFromSchemaId _ _ => Bool × Option AppError
  | .getChatRouteFromUserId _ _ => Bool × Option AppError
  | .getChatRouteFromProfile _ _ => Bool × Option AppError
  | .isTransfer _ => Bool
  | .breakCause _ => String
  | .hasBridge _ => Bool
  | _ => Unit

/-- A request of the chat server -/
inductive Request where
  | start (req : StartRequest)
  | confirmationMessage (id : String)
  | breakConversation (id cause : String)
  | breakBridge (id cause : String)

/-- What comes from outside. -/
structure Outside where
  request : Request
  /-- the clock, in seconds -/
  now : Int
  /-- the error of `getClientFromRequest` -/
  client : Option String
  /-- whether a route is found, and an error -/
  routing : Bool × Option AppError
  bridged : Bool
  /-- the flow finds its channel closed when it sends a message -/
  closed : Bool

/-- The accesses, each answered and made; `none` if they cannot be made yet. -/
def exec (w : Outside) : (a : Op) → ChatApi → Option (a.Result × ChatApi)
  | .get id, s =>
    let y := s.conversations.get w.now id
    some (y.2, { s with conversations := y.1 })
  | .getClientFromRequest, s => some (w.client, s)
  | .register req, s =>
    -- an entry of another conversation with the same id is replaced
    let c := s.started.length
    some (c, { s with
      conversations :=
        s.conversations.addWithExpiresInSecs w.now req.conversationId c maximumInactiveChat
      started := s.started ++ [newConversation req] })
  | .consume c, s => some ((), { s with consume := s.consume ++ [c] })
  | .take c, s => if c ∈ s.consume then s.started[c]?.map fun conv => (conv, s) else none
  | .getChatRouteFromSchemaId _ _, s => some (w.routing, s)
  | .getChatRouteFromUserId _ _, s => some (w.routing, s)
  | .getChatRouteFromProfile _ _, s => some (w.routing, s)
  | .isTransfer c, s => s.started[c]?.map fun conv => (conv.isTransfer, s)
  | .breakCause c, s => s.started[c]?.map fun conv => (conv.breakCause, s)
  | .setBreakCause c cause, s =>
    some ((), { s with
      started := s.started.modify c fun conv => { conv with breakCause := cause } })
  | .hasBridge _, s => some (w.bridged, s)
  | .closeConversation _ _, s => some ((), s)
  | .remove c, s =>
    -- by id, whatever conversation is registered under it
    s.started[c]?.map fun conv => ((), { s with conversations := s.conversations.remove conv.id })

abbrev Go := Prog Op Op.Result

/-- A single access. -/
abbrev access (a : Op) : Go a.Result := call a

def errRouting : AppError := ⟨"Chat", "chat.routing.not_found", "Not found routing schema", 400⟩

/-- What a request is answered -/
inductive Reply where
  | ok
  | err (details : String)
  | appErr (err : AppError)

/-- Where a goroutine goes on. -/
inductive Label where
  /-- no request -/
  | standby
  | answered (reply : Reply)
  /-- the router waits for the conversation -/
  | created (c : Nat)
  /-- `flow.Route` -/
  | routing (c : Nat)
  | done

/-- `getConversationFromRequest` -/
def getConversationFromRequest (id : String) : Go (Except AppError Nat) := do
  match ← access (.get id) with
  | none => return .error (Confirm.Missing.conversation.error id)
  | some c =>
    match ← access .getClientFromRequest with
    | some err => return .error ((Confirm.Missing.client err).error id)
    | none => return .ok c

/-- `chatApi.Start` -/
def start (req : StartRequest) : Go Label := do
  -- a conversation with the same id that is found is no error
  let _ ← access (.get req.conversationId)
  match ← access .getClientFromRequest with
  | some err => return .answered (.err err)
  | none =>
    let c ← access (.register req)
    access (.consume c)
    return .answered .ok

/-- `chatApi.ConfirmationMessage`, up to the conversation -/
def confirmationMessage (id : String) : Go Label := do
  match ← getConversationFromRequest id with
  | .error err => return .answered (.appErr err)
  | .ok _ => return .answered .ok

/-- `chatApi.Break` -/
def breakConversation (id cause : String) : Go Label := do
  match ← getConversationFromRequest id with
  | .error err => return .answered (.appErr err)
  | .ok c =>
    access (.setBreakCause c cause)
    return .answered .ok

/-- `chatApi.BreakBridge` -/
def breakBridge (id cause : String) : Go Label := do
  match ← getConversationFromRequest id with
  | .error err => return .answered (.appErr err)
  | .ok c =>
    let bridged ← access (.hasBridge c)
    if Bridge.equalFoldTransfer cause then
      access (.setBreakCause c cause)
      return .answered .ok
    else if bridged then return .answered .ok
    else return .answered (.err Bridge.errNotFound)

def serve : Request → Go Label
  | .start req => start req
  | .confirmationMessage id => confirmationMessage id
  | .breakConversation id cause => breakConversation id cause
  | .breakBridge id cause => breakBridge id cause

/-- `conversation.Stop` -/
def stop (c : Nat) (err : Option AppError) (cause : Cause) : Go Unit := do
  let cause := if err.isSome then .flowErr else cause
  -- who has broken the conversation knows that it ends
  if (← access (.breakCause c)) = "" then
    access (.closeConversation c cause)
  access (.remove c)

/-- The route of `Router.handle`: whether there is one, and an error -/
def getChatRoute (conv : Conversation) : Go (Bool × Option AppError) :=
  if 0 < conv.schemaId then access (.getChatRouteFromSchemaId conv.domainId conv.schemaId)
  else if 0 < conv.userId then do
    -- the error is dropped
    let (found, _) ← access (.getChatRouteFromUserId conv.domainId conv.userId)
    return (found, none)
  else if 0 < conv.profileId then
    access (.getChatRouteFromProfile conv.domainId conv.profileId)
  else return (false, none)

/-- `Router.handle`, up to the flow -/
def handle (c : Nat) : Go Label := do
  let conv ← access (.take c)
  let (found, err) ← getChatRoute conv
  match if found then err else some errRouting with
  | some err =>
    stop c (some err) .flowErr
    return .done
  | none => return .routing c

/-- `Router.handle`, after the flow -/
def finish (c : Nat) : Go Label := do
  -- after a transfer the conversation lives on, with another schema
  if ← access (.isTransfer c) then return .done
  else
    stop c none .flowEnd
    return .done

/-- `sendMessage` breaks its own conversation. -/
def breakOff (c : Nat) : Go Label := do
  access (.setBreakCause c "error")
  return .routing c

/-- The requests of the chat server, and the goroutine of every conversation -/
inductive Thread where
  | caller (i : Nat)
  | handler (c : Nat)
  deriving DecidableEq

/-- A chat server with any requests, whose flows end whenever they like. -/
def chatServer : System ChatApi Outside Op Op.Result Label where
  exec := exec
  code w
    | .standby => some (serve w.request)
    | .answered _ => some (.ret .standby)
    | .created c => some (handle c)
    | .routing c => some (if w.closed then breakOff c else finish c)
    | .done => none
  env _ _ := False

abbrev ServerPool := Pool Thread ChatApi Op Op.Result Label

/-- `NewChatApi` -/
def newChatApi : ServerPool where
  shared := ⟨newLru activeConversationCacheSize 0, [], []⟩
  thread
    | .caller _ => .ret .standby
    | .handler c => .ret (.created c)

/-! ## Who is registered -/

/-- The conversation `c` is the last one with its id. -/
def Newest (ids : List String) (id : String) (c : Nat) : Prop :=
  ids[c]? = some id ∧ ∀ c', ids[c']? = some id → c' ≤ c

variable {ids : List String} {id : String} {c : Nat}

/-- A conversation with another id makes no difference. -/
theorem Newest.concat (h : Newest ids id c) (hne : id' ≠ id) : Newest (ids ++ [id']) id c := by
  refine ⟨?_, fun c' hc' => ?_⟩
  · rw [List.getElem?_append_left (List.getElem?_eq_some_iff.mp h.1).1]
    exact h.1
  · by_cases hlt : c' < ids.length
    · rw [List.getElem?_append_left hlt] at hc'
      exact h.2 c' hc'
    · rw [List.getElem?_append_right (Nat.le_of_not_lt hlt)] at hc'
      have hmem := List.mem_of_getElem? hc'
      exact absurd (List.mem_singleton.mp hmem).symm hne

theorem newest_concat (ids : List String) (id : String) : Newest (ids ++ [id]) id ids.length := by
  refine ⟨List.getElem?_concat_length, fun c' hc' => ?_⟩
  have hlt := (List.getElem?_eq_some_iff.mp hc').1
  rw [List.length_append, List.length_singleton] at hlt
  exact Nat.le_of_lt_succ hlt

/-- The entry of an id is the conversation that was started last with it, and it does not
expire. -/
structure Kept (ids : List String) (conversations : Cache String Nat) (slots : Slots String Nat) :
    Prop where
  refines : Refines activeConversationCacheSize 0 conversations slots
  entry : ∀ id c secs, slots.lookup id = some (c, secs) → secs = 0 ∧ Newest ids id c

variable {conversations : Cache String Nat} {slots : Slots String Nat}

section

variable (h : Kept ids conversations slots)
include h

/-- What is found does not depend on the time. -/
theorem Kept.get_eq (now : Int) (id : String) :
    (conversations.get now id).2 = (slots.lookup id).map Prod.fst := by
  rw [(h.refines.get now id).2]
  unfold Slots.get Slots.found
  cases hlookup : slots.lookup id with
  | none => rfl
  | some x =>
    obtain ⟨c, secs⟩ := x
    obtain ⟨rfl, -⟩ := h.entry id c secs hlookup
    rfl

/-- An operation of the cache that puts in at most the newest conversation of an id -/
theorem Kept.step (now : Int) (op : Lru.Op String Nat)
    (hown : ∀ id c secs, op.own 0 now id (slots.lookup id) = some (c, secs) →
      secs = 0 ∧ Newest ids' id c) :
    ∃ slots, Kept ids' (Lru.step conversations now op).1 slots := by
  refine ⟨_, (h.refines.step now op).1, fun id c secs hlookup => ?_⟩
  rcases lookup_slots op 0 now id h.refines.bounded with heq | ⟨hnone, -⟩
  · rw [heq] at hlookup
    exact hown id c secs hlookup
  · rw [hnone] at hlookup
    cases hlookup

theorem Kept.get (now : Int) (id : String) :
    ∃ slots, Kept ids (conversations.get now id).1 slots := by
  refine h.step now (.get id) fun id' c secs hown => h.entry id' c secs ?_
  simp only [Op.own] at hown
  split at hown
  · exact (Option.filter_eq_some_iff.mp hown).1
  · exact hown

theorem Kept.register (now : Int) (id : String) : ∃ slots, Kept (ids ++ [id])
      (conversations.addWithExpiresInSecs now id ids.length maximumInactiveChat) slots := by
  refine h.step now (.addWithExpiresInSecs id ids.length maximumInactiveChat)
    fun id' c secs hown => ?_
  simp only [Op.own] at hown
  split at hown
  · rename_i heq
    subst heq
    cases hown
    exact ⟨rfl, newest_concat ids id⟩
  · rename_i hne
    obtain ⟨hsecs, hnewest⟩ := h.entry id' c secs hown
    exact ⟨hsecs, hnewest.concat hne⟩

theorem Kept.remove (id : String) : Kept ids (conversations.remove id) (slots.erase id) := by
  refine ⟨(h.refines.step 0 (.remove id)).1, fun id' c secs hlookup => h.entry id' c secs ?_⟩
  by_cases hid : id' = id
  · subst hid
    rw [AList.lookup_erase] at hlookup
    cases hlookup
  · rwa [AList.lookup_erase_ne hid] at hlookup

end

/-- No conversation changes its id. -/
theorem ids_modify (started : List Conversation) (c : Nat) (cause : String) :
    (started.modify c fun conv => { conv with breakCause := cause }).map Conversation.id =
      started.map Conversation.id := by
  refine List.ext_getElem? fun i => ?_
  rw [List.getElem?_map, List.getElem?_map, List.getElem?_modify]
  cases started[i]? with
  | none => rfl
  | some conv =>
    by_cases hi : c = i
    · simp only [if_pos hi, Option.map_eq_map, Option.map_some]
    · simp only [if_neg hi, Option.map_eq_map, Option.map_some]

/-- In the registry, the newest conversation stands for each id. -/
def Orderly (s : ServerPool) : Prop := ∃ slots, Kept s.shared.ids s.shared.conversations slots

/-- Every access keeps it in order. -/
theorem exec_kept (hexec : exec w a m = some (r, m'))
    (h : ∃ slots, Kept m.ids m.conversations slots) :
    ∃ slots, Kept m'.ids m'.conversations slots := by
  obtain ⟨slots, hkept⟩ := h
  cases a with
  | get id =>
    cases hexec
    exact hkept.get w.now id
  | register req =>
    cases hexec
    have hregister := hkept.register w.now req.conversationId
    simpa only [ChatApi.ids, List.map_append, List.map_cons, List.map_nil, List.length_map,
      newConversation] using hregister
  | setBreakCause c cause =>
    cases hexec
    refine ⟨slots, ?_⟩
    rw [ChatApi.ids, ids_modify]
    exact hkept
  | remove c =>
    obtain ⟨conv, -, heq⟩ := Option.map_eq_some_iff.mp hexec
    cases heq
    exact ⟨_, hkept.remove conv.id⟩
  | take c =>
    simp only [exec] at hexec
    split at hexec
    · obtain ⟨conv, -, heq⟩ := Option.map_eq_some_iff.mp hexec
      cases heq
      exact ⟨slots, hkept⟩
    · cases hexec
  | isTransfer c | breakCause c =>
    obtain ⟨conv, -, heq⟩ := Option.map_eq_some_iff.mp hexec
    cases heq
    exact ⟨slots, hkept⟩
  | _ =>
    cases hexec
    exact ⟨slots, hkept⟩

variable {cond : ServerPool → Event Thread Op → ServerPool → Prop} {ok : Prop} {s s' : ServerPool}

/-- So it is in order in every run. -/
theorem orderly_run (h : Trace.Steps (Step chatServer) cond newChatApi ok s) : Orderly s := by
  refine h.always ?_ ?_
  · exact ⟨∅, refines_new _ _, nofun⟩
  · intro s a s' hkept hstep
    cases hstep with
    | act _ hexec => exact exec_kept hexec hkept
    | next => exact hkept
    | env henv => cases henv

/-- In every run of the chat server, and for every `Stop` in it: all other conversations that are
registered stay registered exactly if, when `Stop` comes to remove the id, no conversation that
was started later with that id is registered. -/
theorem stop_keeps_iff (h : Trace.Steps (Step chatServer) cond newChatApi ok s) {t : Thread}
    (hstop : Step chatServer s (.act t (.remove c)) s') :
    (∀ now id c', c' ≠ c → s.shared.getConversation now id = some c' →
        s'.shared.getConversation now id = some c') ↔
      ¬ ∃ c' id now, c < c' ∧ s.shared.ids[c]? = some id ∧ s.shared.ids[c']? = some id ∧
        s.shared.getConversation now id = some c' := by
  obtain ⟨slots, hkept⟩ := orderly_run h
  cases hstop with
  | act ht hexec =>
    obtain ⟨conv, hconv, heq⟩ := Option.map_eq_some_iff.mp hexec
    cases heq
    have hid : s.shared.ids[c]? = some conv.id := by
      rw [ChatApi.ids, List.getElem?_map, hconv]
      rfl
    have hbefore : ∀ now id,
        s.shared.getConversation now id = (slots.lookup id).map Prod.fst := hkept.get_eq
    have hafter : ∀ now id, (s.shared.conversations.remove conv.id |>.get now id).2 =
        ((slots.erase conv.id).lookup id).map Prod.fst := (hkept.remove conv.id).get_eq
    constructor
    · -- the later conversation is found under the id until `Stop` removes it
      rintro hkeeps ⟨c', id, now, hlt, hc, -, hfound⟩
      have hstill := hkeeps now id c' (Nat.ne_of_gt hlt) hfound
      have hgone := hafter now id
      rw [hid] at hc
      cases hc
      rw [AList.lookup_erase] at hgone
      rw [ChatApi.getConversation, Pool.set_shared, hgone] at hstill
      cases hstill
    · intro hnone now id c' hne hfound
      have hstill := hafter now id
      have hslot := hbefore now id
      rw [hfound] at hslot
      obtain ⟨x, hlookup, hx⟩ := Option.map_eq_some_iff.mp hslot.symm
      obtain ⟨-, hnewest⟩ := hkept.entry id x.1 x.2 hlookup
      by_cases hsame : id = conv.id
      · -- under the id of `c` the newest one is found: another one would be a later one
        subst hsame
        have hle : c ≤ x.1 := hnewest.2 c hid
        rw [hx] at hle hnewest
        exact absurd ⟨c', _, now, lt_of_le_of_ne hle (Ne.symm hne), hid, hnewest.1, hfound⟩ hnone
      · rw [AList.lookup_erase_ne hsame, ← hbefore now id, hfound] at hstill
        exact hstill

/-! ## Schedules -/

/-- What is outside: the request, with a client, a route and no bridge, and flows that are not
broken off. -/
def outside (request : Request) : Outside := ⟨request, 0, none, (true, none), false, false⟩

/-- A request to start a conversation is served. -/
def starts (i : Nat) (id : String) : List (Thread × Outside) :=
  List.replicate 5 (.caller i, outside (.start ⟨id, 1, 1, 1, 1⟩))

/-- The flow of a conversation ends, and `Stop` gets to its last access. -/
def ends (c : Nat) : List (Thread × Outside) :=
  List.replicate 7 (.handler c, outside (.start ⟨"", 1, 1, 1, 1⟩))

/-- What is found under an id before and after the next access of a conversation's goroutine, and
whether that access is the `Remove` of its `Stop` -/
def around (s : ServerPool) (c : Nat) (id : String) : Option (Bool × Option Nat × Option Nat) :=
  (s.move chatServer (.handler c) (outside (.start ⟨"", 1, 1, 1, 1⟩))).map fun s' =>
    (match s.event (.handler c) with
      | .act _ (.remove c') => c' = c
      | _ => false,
    s.shared.getConversation 0 id, s'.shared.getConversation 0 id)

theorem step_of_around (h : around s c id = some (true, before, after)) :
    ∃ s', Step chatServer s (.act (.handler c) (.remove c)) s' ∧
      s.shared.getConversation 0 id = before ∧ s'.shared.getConversation 0 id = after := by
  obtain ⟨s', hmove, heq⟩ := Option.map_eq_some_iff.mp h
  obtain ⟨hevent, hfound⟩ := Prod.mk.inj heq
  obtain ⟨hbefore, hafter⟩ := Prod.mk.inj hfound
  refine ⟨s', ?_, hbefore, hafter⟩
  have hstep := Pool.move_step hmove
  split at hevent
  · rename_i t c' ht
    have hthread := s.event_thread (.handler c)
    rw [ht] at hstep hthread
    cases hthread
    cases of_decide_eq_true hevent
    exact hstep
  · cases hevent

/-- Two conversations with different ids, and the first one is stopped. -/
theorem stop_keeps_iff_other :
    ∃ s s', Pool.play chatServer (starts 0 "a" ++ starts 1 "b" ++ ends 0) newChatApi = some s ∧
      Step chatServer s (.act (.handler 0) (.remove 0)) s' ∧
        s'.shared.getConversation 0 "b" = some 1 := by
  obtain ⟨s, hs, ⟨haround, hids⟩, ok, hsteps⟩ := Trace.reaches (Pool.moves_step chatServer)
    (fun _ _ _ => True) (starts 0 "a" ++ starts 1 "b" ++ ends 0) newChatApi
    (fun s => around s 0 "b" = some (true, some 1, some 1) ∧ s.shared.ids = ["a", "b"])
    (by decide +kernel)
  obtain ⟨s', hstep, hbefore, -⟩ := step_of_around haround
  refine ⟨s, s', (Pool.play_eq ..).trans hs, hstep,
    (stop_keeps_iff hsteps hstep).mpr ?_ 0 "b" 1 (by decide) hbefore⟩
  rw [hids]
  rintro ⟨c', id, now, hlt, hid, hid', -⟩
  cases hid
  match c' with
  | 1 => exact absurd hid' (by decide)

/-- A conversation is started anew under its id, and then the flow of the first one ends: the
second one is no longer found. -/
theorem stop_keeps_iff_same :
    ∃ ok s s', Trace.Steps (Step chatServer) (fun _ _ _ => True) newChatApi ok s ∧
      Step chatServer s (.act (.handler 0) (.remove 0)) s' ∧
        s.shared.getConversation 0 "a" = some 1 ∧ s'.shared.getConversation 0 "a" = none := by
  obtain ⟨s, -, haround, ok, hsteps⟩ := Trace.reaches (Pool.moves_step chatServer)
    (fun _ _ _ => True) (starts 0 "a" ++ starts 1 "a" ++ ends 0) newChatApi
    (fun s => around s 0 "a" = some (true, some 1, none)) (by decide +kernel)
  obtain ⟨s', hstep, hbefore, hafter⟩ := step_of_around haround
  exact ⟨ok, s, s', hsteps, hstep, hbefore, hafter⟩

end FlowManager.Grpc.Registry
