import Mathlib.Algebra.Order.Ring.Int
import Mathlib.Data.Fintype.Option

/-!
# Reading and patching members (store/pg_store/member_store.go, model/member.go)

`GetProperties` reads a member of a queue and `PatchMembers` updates members, each with the same
kind of search. The conditions of the two statements are the same but for `today`, and are given
other fields of the search.

- `getProperties`, `patchMembers`: the conditions, in the three-valued logic of SQL.
- `SearchMember.Agrees`: the search says the same in its old and its new fields, and it neither
  has `today = false` nor an empty name.
- `select_alike_iff`: for exactly these searches both statements select the same members.
-/

namespace FlowManager.Sql

/-! ## SQL -/

/-- A condition: true, false or null -/
abbrev Tri := Option Bool

namespace Tri

def or : Tri → Tri → Tri
  | some true, _ => some true
  | _, some true => some true
  | some false, some false => some false
  | _, _ => none

def and : Tri → Tri → Tri
  | some false, _ => some false
  | _, some false => some false
  | some true, some true => some true
  | _, _ => none

def not (a : Tri) : Tri := a.map (!·)

def all (cs : List Tri) : Tri := cs.foldr and (some true)

@[simp]
theorem or_true_iff (a b : Tri) : a.or b = some true ↔ a = some true ∨ b = some true := by
  revert a b
  decide

@[simp]
theorem and_true_iff (a b : Tri) : a.and b = some true ↔ a = some true ∧ b = some true := by
  revert a b
  decide

@[simp]
theorem all_true_iff (cs : List Tri) : all cs = some true ↔ ∀ c ∈ cs, c = some true := by
  induction cs with
  | nil => simp [all]
  | cons c cs ih => simpa [all] using fun _ => ih

@[simp]
theorem not_true_iff (a : Tri) : a.not = some true ↔ a = some false := by
  revert a
  decide

end Tri

/-- A comparison; it is null if an operand is. -/
def compare {α : Type} (r : α → α → Bool) (a b : Option α) : Tri :=
  a.bind fun x => b.map (r x)

def isNull {α : Type} (a : Option α) : Tri := some a.isNone

/-- `case when c then a else b end` -/
def caseWhen {α : Type} (c : Tri) (a b : α) : α := if c = some true then a else b

/-- `ilike`, by the collation of the database -/
structure Collation where
  ilike : String → String → Bool
  empty_iff : ∀ name, ilike name "" = true ↔ name = ""

/-- The time, and the date of a moment in the one time zone -/
structure Clock where
  now : Int
  date : Int → Int
  date_mono : ∀ ⦃a b⦄, a ≤ b → date a ≤ date b

/-! ## The two statements -/

/-- `SearchEntity` -/
structure SearchEntity where
  id : Option Int

/-- `SearchMember`; a slice that is `nil` is `none`. -/
structure SearchMember where
  queueIds : Option (List Int)
  queues : Option (List SearchEntity)
  name : Option String
  today : Option Bool
  completed : Option Bool
  bucketId : Option Int
  bucket : Option SearchEntity
  id : Option Int

/-- `SearchEntity.GetId` -/
def SearchEntity.getId (s : Option SearchEntity) : Option Int := s.bind (·.id)

/-- `SearchMember.GetQueueIds` -/
def SearchMember.getQueueIds (m : SearchMember) : Option (List Int) :=
  match m.queueIds, m.queues with
  | some ids, none => some ids
  | _, queues => some ((queues.getD []).filterMap (·.id))

/-- `SearchMember.GetName` -/
def SearchMember.getName (m : SearchMember) : Option String :=
  if m.name = some "" then none else m.name

/-- A row of `cc_member` -/
structure Member where
  id : Int
  queueId : Option Int
  name : Option String
  bucketId : Option Int
  createdAt : Option Int
  stopAt : Option Int

/-- The queue is one of the domain and of the ids; `any` of a null array is null. -/
def inQueue (queues : Int → Option Int) (domain : Int) (queueIds : Option (List Int)) (m : Member) :
    Tri :=
  m.queueId.bind fun q =>
    Tri.and (compare (· == ·) (queues q) (some domain)) (queueIds.map (·.contains q))

/-- What else both statements ask, with the values that they are given. -/
def fits (c : Collation) (name : Option String) (id : Option Int) (completed : Option Bool)
    (bucketId : Option Int) (m : Member) : Tri :=
  .all
    [.or (isNull name) (compare c.ilike m.name name),
      .or (isNull id) (compare (· == ·) (some m.id) id),
      .or (isNull completed) (caseWhen completed (Tri.not (isNull m.stopAt)) (isNull m.stopAt)),
      .or (isNull bucketId) (compare (· == ·) m.bucketId bucketId)]

/-- The condition of `GetProperties` -/
def getProperties (c : Collation) (t : Clock) (queues : Int → Option Int) (domain : Int)
    (req : SearchMember) (m : Member) : Tri :=
  .all
    [inQueue queues domain req.queueIds m,
      fits c req.name req.id req.completed req.bucketId m,
      .or (isNull req.today)
        (.and req.today (m.createdAt.map fun created => decide (t.date t.now ≤ t.date created)))]

/-- `interval '2 days'`, in seconds -/
def twoDays : Int := 172800

/-- The condition of `PatchMembers` -/
def patchMembers (c : Collation) (t : Clock) (queues : Int → Option Int) (domain : Int)
    (req : SearchMember) (m : Member) : Tri :=
  .all
    [inQueue queues domain req.getQueueIds m,
      fits c req.getName req.id req.completed (SearchEntity.getId req.bucket) m,
      -- two days back, or no bound
      m.createdAt.map fun created =>
        caseWhen req.today (decide (t.now - twoDays ≤ created)) true,
      .or (isNull req.today) <| .or (.not req.today)
        (m.createdAt.map fun created => decide (t.date created = t.date t.now))]

/-! ## Where they agree -/

/-- The member was created within the last two days. -/
def Member.Recent (m : Member) (t : Clock) : Prop :=
  ∃ created, m.createdAt = some created ∧ t.now - twoDays ≤ created ∧ created ≤ t.now

/-- The queue is among the ids. -/
def Among (q : Int) (ids : Option (List Int)) : Prop := ∃ l, ids = some l ∧ q ∈ l

/-- The search names no queue at all, or none in its new fields while nothing can be read; or the
old and the new fields say the same, the name is not empty and `today` is not false. -/
def SearchMember.Agrees (req : SearchMember) : Prop :=
  (∀ q, ¬ Among q req.getQueueIds) ∧ ((∀ q, ¬ Among q req.queueIds) ∨ req.today = some false) ∨
  (∀ q, Among q req.queueIds ↔ Among q req.getQueueIds) ∧ req.today ≠ some false ∧
    req.name ≠ some "" ∧ req.bucketId = SearchEntity.getId req.bucket

section Agree

variable (c : Collation) (t : Clock) (domain : Int) (req : SearchMember)

/-- The member was created today, if this is asked. -/
def Member.Today (m : Member) : Prop :=
  req.today = some true → m.createdAt.map t.date = some (t.date t.now)

theorem inQueue_iff :
    inQueue queues domain queueIds m = some true ↔
      ∃ q, m.queueId = some q ∧ queues q = some domain ∧ Among q queueIds := by
  simp [inQueue, compare, Among, Option.bind_eq_some_iff]

theorem getProperties_iff (hm : m.Recent t) :
    getProperties c t queues domain req m = some true ↔
      inQueue queues domain req.queueIds m = some true ∧
        fits c req.name req.id req.completed req.bucketId m = some true ∧
        req.today ≠ some false ∧ m.Today t req := by
  obtain ⟨created, hcreated, -, hnow⟩ := hm
  have hdate : t.date t.now ≤ t.date created ↔ t.date created = t.date t.now :=
    ⟨fun h => le_antisymm (t.date_mono hnow) h, fun h => h.ge⟩
  rcases htoday : req.today with _ | _ | _ <;>
    simp [getProperties, isNull, hcreated, hdate, htoday, Member.Today]

theorem patchMembers_iff (hm : m.Recent t) :
    patchMembers c t queues domain req m = some true ↔
      inQueue queues domain req.getQueueIds m = some true ∧
        fits c req.getName req.id req.completed (SearchEntity.getId req.bucket) m = some true ∧
        m.Today t req := by
  obtain ⟨created, hcreated, hlow, -⟩ := hm
  rcases htoday : req.today with _ | _ | _ <;>
    simp [patchMembers, isNull, hcreated, caseWhen, htoday, Member.Today, -tsub_le_iff_right, hlow]

/-- A member of the queue `q`, created now, with whatever else the search asks for -/
def row (q : Int) (name : String) (bucketId : Option Int) : Member where
  id := req.id.getD 0
  queueId := some q
  name := some name
  bucketId := bucketId
  createdAt := some t.now
  stopAt := if req.completed = some true then some t.now else none

theorem fits_row_iff (pattern : Option String) (bucketId : Option Int) (q : Int) (name : String)
    (b : Option Int) :
    fits c pattern req.id req.completed bucketId (row t req q name b) = some true ↔
      (∀ p, pattern = some p → c.ilike name p = true) ∧ (bucketId = none ∨ b = bucketId) := by
  have hid : req.id = none ∨ compare (· == ·) (some (req.id.getD 0)) req.id = some true := by
    cases req.id <;> simp [compare]
  have hpattern : pattern = none ∨ compare c.ilike (some name) pattern = some true ↔
      ∀ p, pattern = some p → c.ilike name p = true := by
    cases pattern <;> simp [compare]
  have hbucket : bucketId = none ∨ compare (· == ·) b bucketId = some true ↔
      bucketId = none ∨ b = bucketId := by
    cases bucketId <;> cases b <;> simp [compare]
  rcases hcompleted : req.completed with _ | _ | _ <;>
    simp [fits, row, isNull, caseWhen, hid, hpattern, hbucket, hcompleted]

/-- The two statements select the same members if and only if the search says the same to both. -/
theorem select_alike_iff (hmatch : ∀ p, req.name = some p → ∃ name, c.ilike name p = true) :
    (∀ (queues : Int → Option Int) (m : Member), m.Recent t →
      (getProperties c t queues domain req m = some true ↔
        patchMembers c t queues domain req m = some true)) ↔ req.Agrees := by
  constructor
  · intro h
    -- both statements, on the members that fit the search but for queue, name and bucket
    have hrow : ∀ q name b, Among q req.queueIds ∧
          ((∀ p, req.name = some p → c.ilike name p = true) ∧
            (req.bucketId = none ∨ b = req.bucketId)) ∧ req.today ≠ some false ↔
        Among q req.getQueueIds ∧ (∀ p, req.getName = some p → c.ilike name p = true) ∧
          (SearchEntity.getId req.bucket = none ∨ b = SearchEntity.getId req.bucket) := by
      intro q name b
      have hrecent : (row t req q name b).Recent t := ⟨t.now, rfl, by simp [twoDays], le_rfl⟩
      have htoday : (row t req q name b).Today t req := fun _ => rfl
      have hboth := h (fun _ => some domain) _ hrecent
      rw [getProperties_iff c t domain req hrecent, patchMembers_iff c t domain req hrecent,
        fits_row_iff, fits_row_iff, inQueue_iff, inQueue_iff] at hboth
      have hqueue : (row t req q name b).queueId = some q := rfl
      simpa [htoday, hqueue] using hboth
    have hname : ∃ name, ∀ p, req.name = some p → c.ilike name p = true := by
      cases hreq : req.name with
      | none => exact ⟨"", nofun⟩
      | some p =>
        obtain ⟨name, hp⟩ := hmatch p hreq
        exact ⟨name, by rintro _ ⟨⟩; exact hp⟩
    obtain ⟨name, hp⟩ := hname
    have hp' : ∀ p, req.getName = some p → c.ilike name p = true := by
      unfold SearchMember.getName
      split
      · exact nofun
      · exact hp
    by_cases hpatch : ∃ q, Among q req.getQueueIds
    · obtain ⟨q, hq⟩ := hpatch
      obtain ⟨hq', ⟨-, hbucket⟩, htoday⟩ := (hrow q name _).mpr ⟨hq, hp', .inr rfl⟩
      have hbucket' := ((hrow q name _).mp ⟨hq', ⟨hp, .inr rfl⟩, htoday⟩).2.2
      refine .inr ⟨fun q => ⟨fun hq => ?_, fun hq => ?_⟩, htoday, fun hempty => ?_, ?_⟩
      · exact ((hrow q name _).mp ⟨hq, ⟨hp, .inr rfl⟩, htoday⟩).1
      · exact ((hrow q name _).mpr ⟨hq, hp', .inr rfl⟩).1
      · -- an empty name is only looked up by `GetProperties`
        have hany := (hrow q "a" _).mpr ⟨hq, by simp [SearchMember.getName, hempty], .inr rfl⟩
        exact absurd ((c.empty_iff "a").mp (hany.2.1.1 "" hempty)) (by decide)
      · rcases hbucket with hnone | heq
        · rcases hbucket' with hnone' | heq
          · rw [hnone, hnone']
          · exact heq
        · exact heq.symm
    · refine .inl ⟨not_exists.mp hpatch, or_iff_not_imp_right.mpr fun htoday q hq => ?_⟩
      exact hpatch ⟨q, ((hrow q name _).mp ⟨hq, ⟨hp, .inr rfl⟩, htoday⟩).1⟩
  · intro h queues m hm
    rw [getProperties_iff c t domain req hm, patchMembers_iff c t domain req hm, inQueue_iff,
      inQueue_iff]
    rcases h with ⟨hpatch, hget⟩ | ⟨hqueues, htoday, hname, hbucket⟩
    · rcases hget with hget | htoday
      · simp [hpatch, hget]
      · simp [hpatch, htoday]
    · simp [hqueues, htoday, hbucket, SearchMember.getName, hname]

end Agree

/-- A collation in which patterns have no signs -/
def plain : Collation where
  ilike name pattern := name == pattern
  empty_iff _ := beq_iff_eq

/-- The date of a moment, by days of equal length -/
def daily : Clock :=
  ⟨0, fun created => created / 86400, fun _ _ h => Int.ediv_le_ediv (by decide) h⟩

/-- A search by name in queue 1, the same in the old and the new fields -/
theorem select_alike_iff_named :
    let req : SearchMember :=
      ⟨some [1], some [⟨some 1⟩], some "Ann", some true, none, none, none, none⟩
    let m : Member := ⟨7, some 1, some "Ann", none, some 0, none⟩
    getProperties plain daily (fun _ => some 1) 1 req m = some true ↔
      patchMembers plain daily (fun _ => some 1) 1 req m = some true :=
  (select_alike_iff plain daily 1 _ fun p _ => ⟨p, beq_self_eq_true p⟩).mpr
    (.inr ⟨by simp [Among, SearchMember.getQueueIds], by decide, by decide, rfl⟩) _ _
    ⟨0, rfl, by decide, by decide⟩

/-- With `today = false`, a member is patched and not read. -/
theorem today_false_differs :
    let req : SearchMember := ⟨some [1], none, none, some false, none, none, none, none⟩
    let m : Member := ⟨7, some 1, some "", none, some 0, none⟩
    m.Recent daily ∧ getProperties plain daily (fun _ => some 1) 1 req m = some false ∧
      patchMembers plain daily (fun _ => some 1) 1 req m = some true :=
  ⟨⟨0, rfl, by decide, by decide⟩, by decide, by decide⟩

end FlowManager.Sql
