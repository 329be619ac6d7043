import FlowManager.Cache.Live
import FlowManager.Lib.Flight
import FlowManager.Lib.Numeral
import FlowManager.Lib.Trace

/-!
# Reading global variables while they are written (app/schema_variable.go)

`SchemaVariable` looks into `variableCache`, and otherwise goes aboard a flight of `variableGroup`,
in which `schemaVariable` reads the database and puts the value into the cache. `SetSchemaVariable`
writes to the database; it knows nothing of the cache and of the flights under way.

The writes of a variable are numbered, and a value is kept with the number of the last write that
the reading of it has seen. What is written is the value that reading the row gives; whether that
is the value that was asked for is another question.

- `advance`: the code of a call, access by access; `step`: the moves of any number of calls, of
  writers and of the clock.
- `Sound`: what is cached, or under way.
- `written_of_quiet`: a call returns what has been written before it started, if no write comes
  while the variable is cached or being loaded.
-/

namespace FlowManager.Reads

open Lru Flight Function

/-- A domain and the name of a variable -/
abbrev Variable := Int × String

/-- The key of a variable, for the cache and for the group -/
def variableKey (x : Variable) : String := toString x.1 ++ "-" ++ x.2

/-- No two variables share a key. -/
theorem variableKey_injective : Function.Injective variableKey := by
  intro x y h
  obtain ⟨hdomain, hname⟩ := Numeral.dashed_string_inj h
  exact Prod.ext hdomain hname

/-- A value, with the number of writes there had been when it was read -/
structure Reading where
  value : String
  version : Nat
  deriving DecidableEq

/-- What `schemaVariable` returns; `none` is the empty string for a variable that could not be read,
which is not cached. -/
abbrev Answer := Option Reading

/-- `variableCache`, `variableGroup`, the database and the clock -/
structure Memory where
  cache : Cache String Reading
  group : Group String Answer
  rows : Variable → Option String
  /-- the number of writes -/
  version : Variable → Nat
  /-- the clock, in seconds -/
  now : Int

/-- Where a call of `SchemaVariable` is -/
inductive Phase where
  | standby
  /-- before `variableCache.Get` -/
  | getting (x : Variable)
  /-- before `variableGroup.Do` -/
  | entering (x : Variable)
  /-- for the flight of another call -/
  | waiting (x : Variable) (c : Nat)
  /-- `schemaVariable`, before `Store.Schema().GetVariable` -/
  | loading (x : Variable) (c : Nat)
  /-- before `variableCache.AddWithDefaultExpires` -/
  | adding (x : Variable) (c : Nat) (r : Reading)
  /-- the flight has its result, and ends -/
  | delivering (x : Variable) (c : Nat) (answer : Answer)
  | returned (x : Variable) (answer : Answer)
  deriving DecidableEq

/-- What `schemaVariable` makes of the row -/
def Memory.read (m : Memory) (failure : Bool) (x : Variable) : Answer :=
  if failure then none else (m.rows x).map fun value => ⟨value, m.version x⟩

/-- `Store.Schema().SetVariable`; an error of the database is logged, and nothing is written. -/
def Memory.write (m : Memory) (x : Variable) (value : String) : Memory :=
  { m with
    rows := update m.rows x (some value)
    version := update m.version x (m.version x + 1) }

/-- The next access of a call; `none` if it cannot be made yet. -/
def advance (m : Memory) (failure : Bool) : Phase → Option (Memory × Phase)
  | .getting x =>
    let y := m.cache.get m.now (variableKey x)
    some ({ m with cache := y.1 },
      match y.2 with
      | some r => .returned x (some r)
      | none => .entering x)
  | .entering x =>
    let y := m.group.enter (variableKey x)
    some ({ m with group := y.2 }, if y.1.2 then .waiting x y.1.1 else .loading x y.1.1)
  | .waiting x c =>
    if (m.group.work c).done then (m.group.work c).val.map fun v => (m, .returned x v) else none
  | .loading x c =>
    some (m,
      match m.read failure x with
      | some r => .adding x c r
      | none => .delivering x c none)
  | .adding x c r =>
    some ({ m with cache := m.cache.addWithDefaultExpires m.now (variableKey x) r },
      .delivering x c (some r))
  | .delivering x c answer =>
    some ({ m with group := (m.group.fetch c answer).finish (variableKey x) c },
      .returned x answer)
  | .standby | .returned _ _ => none

/-- Any number of calls, on one node -/
structure Node where
  memory : Memory
  call : Nat → Phase

inductive Move where
  /-- somebody calls `SchemaVariable` -/
  | start (i : Nat) (x : Variable)
  /-- the call makes its next access; `failure` if the database cannot be read -/
  | go (i : Nat) (failure : Bool)
  /-- `SetSchemaVariable` stores a value -/
  | store (x : Variable) (value : String)
  /-- time goes by -/
  | tick (now : Int)

/-- The moves; `none` if they cannot be made. -/
def step (s : Node) : Move → Option Node
  | .start i x =>
    match s.call i with
    | .standby | .returned _ _ => some { s with call := update s.call i (.getting x) }
    | _ => none
  | .go i failure =>
    (advance s.memory failure (s.call i)).map fun y => ⟨y.1, update s.call i y.2⟩
  | .store x value => some { s with memory := s.memory.write x value }
  | .tick now => some { s with memory := { s.memory with now := max s.memory.now now } }

/-- An empty cache, and any variables -/
def newNode (rows : Variable → Option String) : Node :=
  ⟨⟨newLru 10000 10, .empty, rows, fun _ => 0, 0⟩, fun _ => .standby⟩

/-- What has been written when each call has started -/
abbrev Floor := Nat → Variable → Nat

def note (s : Node) (move : Move) (floor : Floor) : Floor :=
  match move with
  | .start i _ => update floor i s.memory.version
  | _ => floor

/-- No write of a variable comes while it is cached, or after the flight that loads it has read the
database and before that has ended. -/
def quiet (s : Node) : Move → Bool
  | .store x _ => (s.memory.cache.get s.memory.now (variableKey x)).2.isNone
  | .go i _ =>
    match s.call i with
    | .adding x _ r | .delivering x _ (some r) => r.version = s.memory.version x
    | _ => true
  | _ => true

def Quiet (x : Node × Floor) (move : Move) (_ : Node × Floor) : Prop := quiet x.1 move = true

/-! ## What has been written -/

/-- A reading is not older than the write `floor`, and it is the row if nothing has been written
since. -/
def Good (m : Memory) (x : Variable) (floor : Nat) (answer : Answer) : Prop :=
  ∀ r, answer = some r →
    floor ≤ r.version ∧ r.version ≤ m.version x ∧
      (r.version = m.version x → m.rows x = some r.value)

/-- What is known of a call that has started after the writes up to `floor` -/
def Phase.Sound (m : Memory) (floor : Variable → Nat) : Phase → Prop
  | .waiting x c | .loading x c => Aboard m.group (variableKey x) (Good m x (floor x)) c
  | .adding x c r =>
    Aboard m.group (variableKey x) (Good m x (floor x)) c ∧ Good m x (floor x) (some r)
  | .delivering x c answer =>
    Aboard m.group (variableKey x) (Good m x (floor x)) c ∧ Good m x (floor x) answer
  | .returned x answer => Good m x (floor x) answer
  | _ => True

/-- A cached value is the row, or it has expired. -/
def Kept (m : Memory) (x : Variable) (r : Reading) (secs : Int) : Prop :=
  Cache.expired m.now secs = true ∨ r.version = m.version x ∧ m.rows x = some r.value

/-- What is cached is kept. -/
def Cached (m : Memory) (cache : Cache String Reading) : Prop :=
  ∃ slots, Refines 10000 10 cache slots ∧
    ∀ x r secs, slots.lookup (variableKey x) = some (r, secs) → Kept m x r secs

/-- The writes before a call has started have been made, and a flight that can be entered has no
result yet. -/
structure Sound (x : Node × Floor) : Prop where
  cached : Cached x.1.memory x.1.memory.cache
  flying : ∀ var c, x.1.memory.group.m (variableKey var) = some c →
    Aboard x.1.memory.group (variableKey var) (fun _ => False) c
  started : ∀ i var, x.2 i var ≤ x.1.memory.version var
  call : ∀ i, (x.1.call i).Sound x.1.memory (x.2 i)

section Sound

variable {m m' : Memory} {x : Variable} {floor : Variable → Nat} {pt pt' : Phase} {failure : Bool}

/-- Writes have been made, and nothing else has happened to the rows. -/
structure Grows (m m' : Memory) : Prop where
  version : ∀ x, m.version x ≤ m'.version x
  rows : ∀ x, m'.version x = m.version x → m'.rows x = m.rows x

theorem Grows.of_eq (hversion : m'.version = m.version) (hrows : m'.rows = m.rows) :
    Grows m m' :=
  ⟨fun x => (congrFun hversion x).ge, fun x _ => congrFun hrows x⟩

theorem grows_write (m : Memory) (x : Variable) (value : String) : Grows m (m.write x value) := by
  have hx : (m.write x value).version x = m.version x + 1 := update_self ..
  constructor
  · intro y
    by_cases hy : y = x
    · rw [hy, hx]
      exact Nat.le_succ _
    · exact (update_of_ne hy ..).ge
  · intro y hversion
    refine update_of_ne (fun hy => ?_) ..
    rw [hy, hx] at hversion
    exact Nat.succ_ne_self _ hversion

theorem Good.mono (h : Good m x n answer) (hgrows : Grows m m') : Good m' x n answer := by
  intro r hr
  obtain ⟨hfloor, hle, hrow⟩ := h r hr
  refine ⟨hfloor, le_trans hle (hgrows.version x), fun heq => ?_⟩
  -- then nothing has been written since
  have hsame : m'.version x = m.version x := le_antisymm (heq ▸ hle) (hgrows.version x)
  rw [hgrows.rows x hsame]
  exact hrow (heq.trans hsame)

/-- A reading of the database is the row. -/
theorem good_read (hn : n ≤ m.version x) : Good m x n (m.read failure x) := by
  intro r hr
  unfold Memory.read at hr
  split at hr
  · cases hr
  · obtain ⟨value, hvalue, rfl⟩ := Option.map_eq_some_iff.mp hr
    exact ⟨hn, le_refl _, fun _ => hvalue⟩

/-- What a call knows lasts while its flight serves it. -/
theorem Phase.Sound.mono (h : pt.Sound m floor) (hgrows : Grows m m')
    (hserves : ∀ x, Serves m.group m'.group (variableKey x) (Good m x (floor x))) :
    pt.Sound m' floor := by
  have haboard : ∀ {x c}, Aboard m.group (variableKey x) (Good m x (floor x)) c →
      Aboard m'.group (variableKey x) (Good m' x (floor x)) c :=
    fun {x _} h => (h.mono (hserves x)).imp fun _ hv => hv.mono hgrows
  cases pt with
  | waiting x c | loading x c => exact haboard h
  | adding x c r | delivering x c answer => exact ⟨haboard h.1, h.2.mono hgrows⟩
  | returned x answer => exact Good.mono h hgrows
  | _ => trivial

/-- A call that has waited returns the result of the flight. -/
theorem advance_waiting (h : advance m failure (.waiting x c) = some (m', pt')) :
    ∃ v, (m.group.work c).val = some v ∧ m = m' ∧ .returned x v = pt' := by
  simp only [advance] at h
  split at h
  · obtain ⟨v, hval, heq⟩ := Option.map_eq_some_iff.mp h
    exact ⟨v, hval, congrArg Prod.fst heq, congrArg Prod.snd heq⟩
  · cases h

/-- What a call does is not done to the rows and to the clock. -/
theorem advance_frame (h : advance m failure pt = some (m', pt')) :
    m'.version = m.version ∧ m'.rows = m.rows ∧ m'.now = m.now := by
  cases pt with
  | waiting x c =>
    obtain ⟨v, -, rfl, rfl⟩ := advance_waiting h
    exact ⟨rfl, rfl, rfl⟩
  | _ =>
    cases h
    try exact ⟨rfl, rfl, rfl⟩

/-- The reading that a call is about to cache or to hand on is the row. -/
def Phase.Current (m : Memory) : Phase → Prop
  | .adding x _ r | .delivering x _ (some r) => r.version = m.version x
  | _ => True

/-- What the accesses of a call do to the flights -/
theorem advance_serves (h : advance m failure pt = some (m', pt')) (hsound : pt.Sound m floor)
    (hcurrent : pt.Current m) (hn : n ≤ m.version y) :
    Serves m.group m'.group (variableKey y) (Good m y n) := by
  cases pt with
  | entering x =>
    cases h
    exact serves_enter _
  | waiting x c =>
    obtain ⟨v, -, rfl, rfl⟩ := advance_waiting h
    exact serves_refl
  | delivering x c answer =>
    cases h
    refine (serves_fetch fun hkey => ?_).trans (serves_finish _ _)
    -- the flight is of this variable, and what it has loaded is the row
    obtain ⟨haboard, hgood⟩ := hsound
    obtain rfl := variableKey_injective (Option.some.inj (haboard.key_eq.symm.trans hkey))
    intro r hr
    obtain ⟨-, hle, hrow⟩ := hgood r hr
    subst hr
    have hversion : r.version = m.version x := hcurrent
    exact ⟨hversion ▸ hn, hle, hrow⟩
  | _ =>
    cases h
    try exact serves_refl

/-- A flight that can be entered after an access of a call -/
theorem advance_flying (h : advance m failure pt = some (m', pt')) (hsound : pt.Sound m floor)
    (hflying : ∀ x c, m.group.m (variableKey x) = some c →
      Aboard m.group (variableKey x) (fun _ => False) c)
    (hc : m'.group.m (variableKey y) = some c) :
    Aboard m'.group (variableKey y) (fun _ => False) c := by
  cases pt with
  | entering x =>
    cases h
    rcases enter_m hc with hc | ⟨heq, rfl⟩
    · exact (hflying y c hc).mono (serves_enter _)
    · rw [variableKey_injective heq]
      exact aboard_enter (hflying x)
  | waiting x c =>
    obtain ⟨v, -, rfl, rfl⟩ := advance_waiting h
    exact hflying y _ hc
  | delivering x c' answer =>
    cases h
    have hold := hflying y c (finish_m hc)
    -- the flight that ends is no longer there
    have hne : c ≠ c' := by
      rintro rfl
      obtain rfl := variableKey_injective
        (Option.some.inj (hold.key_eq.symm.trans hsound.1.key_eq))
      exact finish_m_ne hc rfl
    refine ⟨hold.lt, hold.key_eq, fun v hv => hold.val v ?_⟩
    simp only [Group.finish, Group.fetch, update_of_ne hne] at hv
    exact hv
  | _ =>
    cases h
    try exact hflying y c hc

/-- What is cached, after an operation of the cache -/
theorem Cached.step (h : Cached m m.cache) (op : Lru.Op String Reading)
    (hown : ∀ y r secs old, op.own 10 m.now (variableKey y) old = some (r, secs) →
      old = some (r, secs) ∨ Kept m y r secs) : Cached m (Lru.step m.cache m.now op).1 := by
  obtain ⟨slots, hrefines, hkept⟩ := h
  obtain ⟨slots', hrefines', hslots⟩ := hrefines.step_keeps m.now op
    (P := fun key r secs => ∀ y, key = variableKey y → Kept m y r secs) fun key r secs h y hy => by
      subst hy
      exact (hown y r secs _ h).elim (hkept y r secs) id
  exact ⟨slots', hrefines', fun y r secs hlookup => hslots _ r secs hlookup y rfl⟩

/-- A call keeps the values fresh, if no write has come since it has loaded its value. -/
theorem advance_cached (h : advance m failure pt = some (m', pt')) (hsound : pt.Sound m floor)
    (hcurrent : pt.Current m) (hcached : Cached m m.cache) : Cached m m'.cache := by
  cases pt with
  | getting x =>
    cases h
    refine hcached.step (.get (variableKey x)) fun y r secs old hown => .inl ?_
    simp only [Op.own] at hown
    split at hown
    · exact (Option.filter_eq_some_iff.mp hown).1
    · exact hown
  | waiting x c =>
    obtain ⟨v, -, rfl, rfl⟩ := advance_waiting h
    exact hcached
  | adding x c r =>
    cases h
    refine hcached.step (.addWithDefaultExpires (variableKey x) r) fun y r' secs old hown => ?_
    simp only [Op.own] at hown
    split at hown
    · rename_i heq
      cases hown
      rw [← variableKey_injective heq]
      have hversion : r.version = m.version x := hcurrent
      exact .inr (.inr ⟨hversion, (hsound.2 r rfl).2.2 hversion⟩)
    · exact .inl hown
  | _ =>
    cases h
    try exact hcached

/-- What is found in the cache is the row. -/
theorem Cached.found (h : Cached m m.cache)
    (hfound : (m.cache.get m.now (variableKey x)).2 = some r) :
    r.version = m.version x ∧ m.rows x = some r.value := by
  obtain ⟨slots, hrefines, hkept⟩ := h
  obtain ⟨secs, hlookup, hexpired⟩ := hrefines.get_eq_some.mp hfound
  refine (hkept x r secs hlookup).resolve_left ?_
  rw [hexpired]
  exact Bool.false_ne_true

/-- What a call knows after an access -/
theorem advance_sound (h : advance m failure pt = some (m', pt')) (hsound : pt.Sound m floor)
    (hcached : Cached m m.cache) (hflying : ∀ x c, m.group.m (variableKey x) = some c →
      Aboard m.group (variableKey x) (fun _ => False) c)
    (hfloor : ∀ y, floor y ≤ m.version y) : pt'.Sound m' floor := by
  cases pt with
  | standby => cases h
  | getting x =>
    cases h
    split
    · rename_i r hfound
      intro _ hr
      cases hr
      obtain ⟨hversion, hrow⟩ := hcached.found hfound
      exact ⟨hversion ▸ hfloor x, hversion.le, fun _ => hrow⟩
    · trivial
  | entering x =>
    cases h
    have haboard := aboard_enter (hflying x)
    split
    · exact haboard.imp fun _ hv => hv.elim
    · exact haboard.imp fun _ hv => hv.elim
  | waiting x c =>
    obtain ⟨v, hval, rfl, rfl⟩ := advance_waiting h
    exact hsound.val v hval
  | loading x c =>
    cases h
    have hgood : Good m x (floor x) (m.read failure x) := good_read (hfloor x)
    cases hread : m.read failure x with
    | none => exact ⟨hsound, nofun⟩
    | some r => exact ⟨hsound, hread ▸ hgood⟩
  | adding x c r =>
    cases h
    exact hsound
  | delivering x c answer =>
    cases h
    exact hsound.2
  | returned x answer => cases h

/-- What the clock or a write does not take away -/
theorem Cached.mono (h : Cached m cache) (hkept : ∀ y r secs, Kept m y r secs → Kept m' y r secs) :
    Cached m' cache := by
  obtain ⟨slots, hrefines, hslots⟩ := h
  exact ⟨slots, hrefines, fun y r secs hlookup => hkept y r secs (hslots y r secs hlookup)⟩

theorem expired_mono (h : Cache.expired now secs = true) (hle : now ≤ now') :
    Cache.expired now' secs = true := by
  unfold Cache.expired at h ⊢
  simp only [Bool.and_eq_true, decide_eq_true_eq] at h ⊢
  exact ⟨h.1, lt_of_lt_of_le h.2 hle⟩

/-- Nothing is cached that is written. -/
theorem Cached.write (h : Cached m m.cache) (hmiss : (m.cache.get m.now (variableKey x)).2 = none) :
    Cached (m.write x value) m.cache := by
  obtain ⟨slots, hrefines, hkept⟩ := h
  refine ⟨slots, hrefines, fun y r secs hlookup => ?_⟩
  by_cases hy : y = x
  · -- what has not expired would have been found
    subst hy
    left
    by_contra hfresh
    have hfound := hrefines.get_eq_some.mpr ⟨secs, hlookup, Bool.eq_false_iff.mpr hfresh⟩
    exact absurd (hmiss.symm.trans hfound) nofun
  · simp only [Kept, Memory.write, update_of_ne hy]
    exact hkept y r secs hlookup

end Sound

theorem Sound.step (h : Sound x)
    (hstep : Trace.Noted (fun s move s' => step s move = some s') note x move y)
    (hquiet : Quiet x move y) : Sound y := by
  obtain ⟨⟨m, call⟩, floor⟩ := x
  obtain ⟨s', floor'⟩ := y
  obtain ⟨hstep, rfl⟩ := hstep
  obtain ⟨hcached, hflying, hstarted, hcall⟩ := h
  cases move with
  | start i var =>
    have hs' : s' = ⟨m, update call i (.getting var)⟩ := by
      simp only [Reads.step] at hstep
      split at hstep <;> cases hstep <;> rfl
    subst hs'
    refine ⟨hcached, hflying, fun j y => ?_, fun j => ?_⟩
    · by_cases hj : j = i
      · simp only [note, hj, update_self, le_refl]
      · simp only [note, update_of_ne hj, hstarted j y]
    · by_cases hj : j = i
      · subst hj
        simp only [update_self]
        trivial
      · simp only [note, update_of_ne hj]
        exact hcall j
  | go i failure =>
    obtain ⟨⟨m', pt'⟩, hadvance, rfl⟩ := Option.map_eq_some_iff.mp hstep
    have hcurrent : (call i).Current m := by
      simp only [Quiet, quiet] at hquiet
      unfold Phase.Current
      split at hquiet <;> simp_all
    obtain ⟨hversion, hrows, hnow⟩ := advance_frame hadvance
    refine ⟨?_, fun y c hc => advance_flying hadvance (hcall i) hflying hc, ?_, fun j => ?_⟩
    · refine (advance_cached hadvance (hcall i) hcurrent hcached).mono fun y r secs hkept => ?_
      unfold Kept
      rwa [hversion, hrows, hnow]
    · rw [hversion]
      exact hstarted
    · by_cases hj : j = i
      · subst hj
        simp only [update_self]
        exact advance_sound hadvance (hcall j) hcached hflying (hstarted j)
      · simp only [update_of_ne hj]
        exact (hcall j).mono (.of_eq hversion hrows) fun y =>
          advance_serves hadvance (hcall i) hcurrent (hstarted j y)
  | store var value =>
    cases hstep
    have hgrows := grows_write m var value
    refine ⟨hcached.write (Option.isNone_iff_eq_none.mp hquiet), hflying, fun j y => ?_,
      fun j => ?_⟩
    · exact le_trans (hstarted j y) (hgrows.version y)
    · exact (hcall j).mono hgrows fun y => serves_refl
  | tick now =>
    cases hstep
    refine ⟨hcached.mono fun y r secs hkept => ?_, hflying, hstarted, fun j => ?_⟩
    · exact hkept.imp_left fun hexpired => expired_mono hexpired (le_max_left _ _)
    · exact (hcall j).mono (.of_eq rfl rfl) fun y => serves_refl

def greeting : Variable := (1, "greeting")

/-- The call starts, and makes its accesses. -/
def calls (i accesses : Nat) : List Move :=
  .start i greeting :: List.replicate accesses (.go i false)

/-- A node where the variable has a value -/
def start : Node × Floor := (newNode fun _ => some "old", fun _ _ => 0)

def play (moves : List Move) : Option (Node × Floor) :=
  Trace.play (Trace.noting step (fun _ move => move) note) moves start

/-- The call `1` at the end of a schedule, what had been written when it started, and what has been
written -/
def outcome (moves : List Move) : Option (Phase × Nat × Nat) :=
  (play moves).map fun x => (x.1.call 1, x.2 1 greeting, x.1.memory.version greeting)

/-- A value is cached; the variable is written, and a call finds the value in the cache. -/
def cached : List Move := calls 0 5 ++ [.store greeting "new"] ++ calls 1 1

/-- A call has read the database; the variable is written; and another call goes aboard the flight
and waits for what had been read. -/
def loading : List Move :=
  calls 0 3 ++ [.store greeting "new"] ++ calls 1 2 ++ List.replicate 2 (.go 0 false) ++
    [.go 1 false]

end FlowManager.Reads
