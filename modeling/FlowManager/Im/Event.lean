import FlowManager.Lib.Numeral

/-!
# IM events (model/im.go, providers/im/server.go)

What the listener receives, with the fields that its handlers read, and the customer of a
thread among its members.
-/

namespace FlowManager.Im

/-- `BotControlReason...` -/
inductive Reason where
  | clientLeave
  | agentTakeover
  | agentHandback
  | agentLeft
  | initial
  | other (text : String)
  deriving DecidableEq

/-- `model.ImEndpoint` -/
structure Endpoint where
  sub : String
  issuer : String
  name : String
  memberID : String
  role : Int
  deriving DecidableEq

/-- `model.IMBotControlGrantedEvent` -/
structure BotControlGranted where
  threadID : String
  memberID : String
  releasedSub : Int
  sub : Int
  reason : Reason

/-- `model.BotControlReleased` -/
structure BotControlReleased where
  threadID : String
  sub : Int
  reason : Reason

/-- The payload of a `model.IMEventWrapper` that is a message or a callback. -/
structure Message where
  threadID : String
  sender : Endpoint
  receivers : List Endpoint
  type : String
  /-- the type of the system notice, if it is one -/
  system : Option String

/-- What the listener receives. -/
inductive Event where
  | granted (m : BotControlGranted)
  | released (r : BotControlReleased)
  | message (m : Message)

/-- `IMUserTypeBot` -/
def userTypeBot : String := "bot"

/-- `isSystem` -/
def Message.isSystem (m : Message) : Bool := m.system.isSome || m.type == "system"

/-- A customer's message to bot 1 of thread `t`. -/
def hello : Message :=
  ⟨"t", ⟨"customer", "webitel", "", "", 0⟩, [⟨"1", userTypeBot, "", "", 0⟩], "", none⟩

/-- `ThreadID + "." + strconv.Itoa(Sub)` -/
def sessionID (threadID : String) (sub : Int) : String := threadID ++ "." ++ toString sub

theorem sessionID_ne_empty (threadID : String) (sub : Int) : sessionID threadID sub ≠ "" := by
  simp [sessionID, String.append_eq_empty_iff]

/-- Bots of one thread have different sessions. -/
theorem sessionID_inj : sessionID threadID a = sessionID threadID b ↔ a = b := by
  unfold sessionID
  rw [String.append_right_inj]
  exact ⟨Numeral.toString_inj, congrArg toString⟩

/-- `releasedSessionID` -/
def BotControlGranted.releasedSessionID (m : BotControlGranted) : String :=
  if m.releasedSub ≠ 0 ∧ m.releasedSub ≠ m.sub then sessionID m.threadID m.releasedSub else ""

/-- The released session is not the granted one. -/
theorem BotControlGranted.releasedSessionID_ne (m : BotControlGranted) :
    m.releasedSessionID ≠ sessionID m.threadID m.sub := by
  unfold releasedSessionID
  split
  · rename_i h
    rw [ne_eq, sessionID_inj]
    exact h.2
  · exact (sessionID_ne_empty m.threadID m.sub).symm

/-- `strconv.Atoi` with its error ignored: what is no number is 0, and a number out of range
is the closest one in range. -/
def atoi (text : String) : Int :=
  match text.toList with
  | '-' :: digits => -number (2 ^ 63) digits
  | '+' :: digits => number (2 ^ 63 - 1) digits
  | digits => number (2 ^ 63 - 1) digits
where
  number (bound : Nat) (digits : List Char) : Int :=
    if digits.all Char.isDigit then
      min bound (digits.foldl (fun n d => 10 * n + (d.toNat - '0'.toNat)) 0)
    else 0

/-! ## The customer of a thread -/

/-- `ThreadRole_ROLE_OWNER` -/
def roleOwner : Int := 3

/-- `Contact` -/
structure Contact where
  sub : String
  iss : String
  name : String
  isBot : Bool

/-- `ThreadMember` -/
structure ThreadMember where
  id : String
  role : Int
  contact : Option Contact

/-- `customerEndpoint` of a member with the contact `contact` -/
def customerEndpoint (member : ThreadMember) (contact : Contact) : Endpoint where
  sub := contact.sub
  issuer := contact.iss
  name := contact.name
  memberID := member.id
  role := member.role

/-- The loop of `selectCustomerPeer`, with the fallback found so far. -/
def selectCustomerPeerFrom (botSub : String) (fallback : Option Endpoint) :
    List ThreadMember → Option Endpoint
  | [] => fallback
  | member :: members =>
    match member.contact with
    | none => selectCustomerPeerFrom botSub fallback members
    | some contact =>
      if contact.isBot = true ∨ contact.sub = botSub then
        selectCustomerPeerFrom botSub fallback members
      -- the owner is the customer; without one, the first member that is not a bot
      else if member.role = roleOwner then some (customerEndpoint member contact)
      else
        selectCustomerPeerFrom botSub (fallback <|> some (customerEndpoint member contact)) members

/-- The zero endpoint -/
def Endpoint.zero : Endpoint := ⟨"", "", "", "", 0⟩

/-- `selectCustomerPeer` -/
def selectCustomerPeer (members : List ThreadMember) (botSub : String) : Endpoint :=
  (selectCustomerPeerFrom botSub none members).getD Endpoint.zero

/-- The endpoint of a member that may be the customer: its contact is no bot, and not the granted
one. -/
def ThreadMember.candidate (botSub : String) (member : ThreadMember) : Option Endpoint :=
  match member.contact with
  | none => none
  | some contact =>
    if contact.isBot = true ∨ contact.sub = botSub then none
    else some (customerEndpoint member contact)

/-- The loop returns the first owner, else the fallback it was given, else the first candidate. -/
theorem selectCustomerPeerFrom_eq (botSub : String) (fallback : Option Endpoint)
    (members : List ThreadMember) :
    selectCustomerPeerFrom botSub fallback members =
      ((members.filter (·.role = roleOwner)).findSome? (·.candidate botSub)).or
        (fallback.or (members.findSome? (·.candidate botSub))) := by
  induction members generalizing fallback with
  | nil => simp [selectCustomerPeerFrom]
  | cons member members ih =>
    rw [selectCustomerPeerFrom]
    cases hc : member.contact with
    | none =>
      by_cases howner : member.role = roleOwner <;> simp [ThreadMember.candidate, hc, howner, ih]
    | some c =>
      by_cases hbot : c.isBot = true ∨ c.sub = botSub <;>
        by_cases howner : member.role = roleOwner <;>
          simp [ThreadMember.candidate, hc, hbot, howner, ih]

/-- The customer is a member that is no bot, an owner if there is one among these; and the only
owner is found whoever else is there, and in whatever order. -/
theorem selectCustomerPeer_any_order (botSub : String) :
    (∀ members : List ThreadMember,
      (∃ m ∈ members, m.candidate botSub = some (selectCustomerPeer members botSub) ∧
          (m.role = roleOwner ∨ ∀ m' ∈ members, m'.role = roleOwner → m'.candidate botSub = none)) ∨
        (∀ m ∈ members, m.candidate botSub = none) ∧
          selectCustomerPeer members botSub = Endpoint.zero) ∧
    ∀ (owner : ThreadMember) (customer : Endpoint) (others members : List ThreadMember),
      owner.candidate botSub = some customer → owner.role = roleOwner →
      (∀ m ∈ others, m.role = roleOwner → m.candidate botSub = none) →
      members.Perm (owner :: others) →
      selectCustomerPeer members botSub = customer := by
  constructor
  · intro members
    rw [selectCustomerPeer, selectCustomerPeerFrom_eq, Option.none_or]
    cases howners : (members.filter (·.role = roleOwner)).findSome? (·.candidate botSub) with
    | some e =>
      obtain ⟨m, hm, he⟩ := List.exists_of_findSome?_eq_some howners
      obtain ⟨hm, hrole⟩ := List.mem_filter.mp hm
      exact .inl ⟨m, hm, he, .inl (of_decide_eq_true hrole)⟩
    | none =>
      have hnone : ∀ m ∈ members, m.role = roleOwner → m.candidate botSub = none := by
        simpa using howners
      cases hfirst : members.findSome? (·.candidate botSub) with
      | some e =>
        obtain ⟨m, hm, he⟩ := List.exists_of_findSome?_eq_some hfirst
        exact .inl ⟨m, hm, he, .inr hnone⟩
      | none => exact .inr ⟨List.findSome?_eq_none_iff.mp hfirst, rfl⟩
  · intro owner customer others members howner hrole hothers hperm
    rw [selectCustomerPeer, selectCustomerPeerFrom_eq]
    cases howners : (members.filter (·.role = roleOwner)).findSome? (·.candidate botSub) with
    | some e =>
      obtain ⟨m, hm, he⟩ := List.exists_of_findSome?_eq_some howners
      obtain ⟨hm, hm'⟩ := List.mem_filter.mp hm
      rcases List.mem_cons.mp (hperm.mem_iff.mp hm) with rfl | hm
      · exact Option.some.inj (he.symm.trans howner)
      · rw [hothers m hm (of_decide_eq_true hm')] at he
        cases he
    | none =>
      have hmem : owner ∈ members := hperm.mem_iff.mpr (List.mem_cons_self ..)
      have hnone := List.findSome?_eq_none_iff.mp howners owner (by simp [hmem, hrole])
      rw [howner] at hnone
      cases hnone

/-- The operator who hands the thread over is still a member, and comes first. -/
theorem selectCustomerPeer_transfer :
    selectCustomerPeer [⟨"2", 1, some ⟨"30", "webitel", "", false⟩⟩,
      ⟨"1", roleOwner, some ⟨"customer", "webitel", "", false⟩⟩] "42" =
        ⟨"customer", "webitel", "", "1", roleOwner⟩ :=
  (selectCustomerPeer_any_order "42").2 ⟨"1", roleOwner, some ⟨"customer", "webitel", "", false⟩⟩ _
    [⟨"2", 1, some ⟨"30", "webitel", "", false⟩⟩] _ (by decide) rfl (by decide) (.swap ..)

end FlowManager.Im
