import FlowManager.Cache.Live
import FlowManager.Flow.Program
import FlowManager.Lib.Flight
import FlowManager.Lib.Numeral
import FlowManager.Lib.Outline

/-!
# The cache of the system settings (app/systemc_settings.go)

`GetSystemSettings` looks into `systemCache`, and otherwise reads the database in a flight of
`systemGroup`; a call that has not shared its flight puts the value into the cache. When a setting
changes, an event comes, and `listenSystemSettingsEvents` takes the key out of the cache and makes
the group forget it.

The changes of a setting are numbered, and a value is kept with the number of the last change that
the reading of it has seen; an event has the number of its change.

- `getSystemSettings`, `listenSystemSettingsEvents`: the code, access by access.
- `settings_outline`: what a step of it can do.
- `Sound`: how old the values may be that are cached, or under way.
- `fresh_of_timely`: a call returns no value from before a change whose event has been handled, if
  values are cached in time.
-/

namespace FlowManager.Settings

open Concurrent Lru Flight Function

/-- A domain and the name of a setting -/
abbrev Setting := Int × String

/-- `SystemSettingCacheKey` -/
def cacheKey (x : Setting) : String := toString x.1 ++ "-" ++ x.2

/-- No two settings share a key. -/
theorem cacheKey_injective : Function.Injective cacheKey := by
  intro x y h
  obtain ⟨hdomain, hname⟩ := Numeral.dashed_string_inj h
  exact Prod.ext hdomain hname

/-- `model.SysValue` -/
structure SysValue where
  boolValue : Bool
  stringValue : String
  deriving DecidableEq

/-- The JSON of a setting -/
inductive Json where
  | bool (b : Bool)
  | string (s : String)
  | other
  deriving DecidableEq

/-- The value of a setting -/
def Json.sysValue : Json → SysValue
  | .bool b => ⟨b, ""⟩
  | .string s => ⟨false, s⟩
  | .other => ⟨false, ""⟩

/-- A value, with the number of changes there had been when it was read -/
structure Reading where
  value : SysValue
  version : Nat
  deriving DecidableEq

abbrev Answer := Except AppError Reading

/-- `systemCache`, `systemGroup`, the database and the events. How far the listener has got is
kept beside them. -/
structure Memory where
  cache : Cache String Reading
  group : Group String Answer
  rows : Setting → Option Json
  /-- the number of changes -/
  version : Setting → Nat
  /-- the events that have not been received -/
  events : List (Setting × Nat)
  /-- the last change for which the key has been removed from the cache -/
  removed : Setting → Nat
  /-- the last change whose event has been handled -/
  handled : Setting → Nat

/-- The accesses -/
inductive Op where
  /-- `systemCache.Get(key)` -/
  | get (x : Setting)
  /-- `systemGroup.Do`: a flight is entered -/
  | enter (x : Setting)
  /-- the call waits for the flight of another one -/
  | wait (c : Nat)
  /-- `Store.SystemcSettings().Get` -/
  | fetch (x : Setting) (c : Nat)
  | finish (x : Setting) (c : Nat)
  /-- the result of the flight, and whether it has been shared -/
  | result (c : Nat)
  /-- `systemCache.AddWithDefaultExpires` -/
  | add (x : Setting) (r : Reading)
  /-- an event comes -/
  | receive
  /-- `systemCache.Remove(key)` -/
  | remove (x : Setting) (v : Nat)
  /-- `systemGroup.Forget(key)` -/
  | forget (x : Setting) (v : Nat)
  /-- somebody changes a setting -/
  | change (x : Setting) (value : Option Json)

/-- The answer to an access. -/
abbrev Op.Result : Op → Type
  | .get _ => Option Reading
  | .enter _ => Nat × Bool
  | .wait _ => Answer
  | .result _ => Answer × Bool
  | .receive => Setting × Nat
  | _ => Unit

/-- What comes from outside. -/
structure Outside where
  /-- the clock, in seconds -/
  now : Int
  /-- the setting that is asked for or changed -/
  setting : Setting
  value : Option Json
  /-- the database cannot be read -/
  failure : Option AppError
  /-- which event comes -/
  event : Nat

/-- `SqlSysSettingsStore.Get` for a setting that is not there -/
def errNoRows : AppError :=
  ⟨"SqlSysSettingsStore.Get", "store.sql_sys_settings.get.app_error",
    "sql: no rows in result set", 404⟩

/-- The function that a flight calls -/
def Memory.read (m : Memory) (failure : Option AppError) (x : Setting) : Answer :=
  match failure with
  | some err => .error err
  | none =>
    match m.rows x with
    | some json => .ok ⟨json.sysValue, m.version x⟩
    | none => .error errNoRows

/-- At least `v` from now on -/
def raise (f : Setting → Nat) (x : Setting) (v : Nat) : Setting → Nat :=
  update f x (max (f x) v)

/-- The accesses, each answered and made; `none` if they cannot be made yet. -/
def exec (w : Outside) : (a : Op) → Memory → Option (a.Result × Memory)
  | .get x, m =>
    let y := m.cache.get w.now (cacheKey x)
    some (y.2, { m with cache := y.1 })
  | .enter x, m =>
    let y := m.group.enter (cacheKey x)
    some (y.1, { m with group := y.2 })
  | .wait c, m =>
    if (m.group.work c).done then (m.group.work c).val.map fun v => (v, m) else none
  | .fetch x c, m => some ((), { m with group := m.group.fetch c (m.read w.failure x) })
  | .finish x c, m => some ((), { m with group := m.group.finish (cacheKey x) c })
  | .result c, m => (m.group.work c).val.map fun v => ((v, 0 < (m.group.work c).dups), m)
  | .add x r, m =>
    some ((), { m with cache := m.cache.addWithDefaultExpires w.now (cacheKey x) r })
  -- the events may come in any order
  | .receive, m =>
    m.events[w.event]?.map fun e => (e, { m with events := m.events.eraseIdx w.event })
  | .remove x v, m =>
    some ((), { m with
      cache := m.cache.remove (cacheKey x)
      removed := raise m.removed x v })
  | .forget x v, m =>
    some ((), { m with
      group := m.group.forget (cacheKey x)
      handled := raise m.handled x v })
  | .change x value, m =>
    some ((), { m with
      rows := update m.rows x value
      version := update m.version x (m.version x + 1)
      events := m.events ++ [(x, m.version x + 1)] })

abbrev Go := Prog Op Op.Result

/-- A single access. -/
abbrev access (a : Op) : Go a.Result := call a

/-- Where a goroutine goes on. -/
inductive Label where
  | standby
  /-- `GetSystemSettings` has returned -/
  | returned (x : Setting) (answer : Answer)
  /-- the loop of `listenSystemSettingsEvents` -/
  | listening
  /-- somebody may change a setting -/
  | editing

/-- `systemGroup.Do`, with whether the result is shared -/
def doFlight (x : Setting) : Go (Answer × Bool) := do
  let (c, joined) ← access (.enter x)
  if joined then
    -- one of the others in the flight has called the function
    let v ← access (.wait c)
    return (v, true)
  else
    access (.fetch x c)
    access (.finish x c)
    access (.result c)

/-- `GetSystemSettings`, with the result of its flight -/
def keep (x : Setting) : Answer × Bool → Go Label
  | (.error err, _) => return .returned x (.error err)
  | (.ok r, true) => return .returned x (.ok r)
  -- only a result that nobody shares is cached
  | (.ok r, false) => do
    access (.add x r)
    return .returned x (.ok r)

/-- `GetSystemSettings` -/
def getSystemSettings (x : Setting) : Go Label := do
  match ← access (.get x) with
  | some r => return .returned x (.ok r)
  | none => keep x (← doFlight x)

/-- One round of `listenSystemSettingsEvents` -/
def listenSystemSettingsEvents : Go Label := do
  let (x, v) ← access .receive
  access (.remove x v)
  access (.forget x v)
  return .listening

/-- A change of a setting -/
def edit (x : Setting) (value : Option Json) : Go Label := do
  access (.change x value)
  return .editing

/-- Any number of calls of `GetSystemSettings`, the listener, and who changes settings -/
inductive Thread where
  | caller (i : Nat)
  | listener
  | editor
  deriving DecidableEq

def settings : System Memory Outside Op Op.Result Label where
  exec := exec
  code w
    | .standby => some (getSystemSettings w.setting)
    | .returned _ _ => some (.ret .standby)
    | .listening => some listenSystemSettingsEvents
    | .editing => some (edit w.setting w.value)
  env _ _ := False

abbrev SettingsPool := Pool Thread Memory Op Op.Result Label

/-- An empty cache, and any settings -/
def newSettings (rows : Setting → Option Json) : SettingsPool where
  shared := ⟨newLru 300 60, .empty, rows, fun _ => 0, [], fun _ => 0, fun _ => 0⟩
  thread
    | .caller _ => .ret .standby
    | .listener => .ret .listening
    | .editor => .ret .editing

/-! ## Points of the code -/

/-- Where a call is. -/
inductive CallerPoint where
  | standby
  | getting (x : Setting)
  | entering (x : Setting)
  | waiting (x : Setting) (c : Nat)
  | fetching (x : Setting) (c : Nat)
  | finishing (x : Setting) (c : Nat)
  | sharing (x : Setting) (c : Nat)
  | adding (x : Setting) (r : Reading)
  | returned (x : Setting) (answer : Answer)

def CallerPoint.prog : CallerPoint → Go Label
  | .standby => .ret .standby
  | .getting x => getSystemSettings x
  | .entering x => doFlight x >>= keep x
  | .waiting x c => .act (.wait c) fun v => keep x (v, true)
  | .fetching x c =>
    .act (.fetch x c) fun _ => .act (.finish x c) fun _ => .act (.result c) (keep x)
  | .finishing x c => .act (.finish x c) fun _ => .act (.result c) (keep x)
  | .sharing x c => .act (.result c) (keep x)
  | .adding x r => .act (.add x r) fun _ => .ret (.returned x (.ok r))
  | .returned x answer => .ret (.returned x answer)

/-- Where the listener is. -/
inductive ListenerPoint where
  | listening
  | receiving
  | removing (x : Setting) (v : Nat)
  | forgetting (x : Setting) (v : Nat)

def ListenerPoint.prog : ListenerPoint → Go Label
  | .listening => .ret .listening
  | .receiving => listenSystemSettingsEvents
  | .removing x v => .act (.remove x v) fun _ => .act (.forget x v) fun _ => .ret .listening
  | .forgetting x v => .act (.forget x v) fun _ => .ret .listening

/-- Where the editor is. -/
inductive EditorPoint where
  | editing
  | changing (x : Setting) (value : Option Json)

def EditorPoint.prog : EditorPoint → Go Label
  | .editing => .ret .editing
  | .changing x value => edit x value

/-- The points of a goroutine -/
abbrev Point : Thread → Type
  | .caller _ => CallerPoint
  | .listener => ListenerPoint
  | .editor => EditorPoint

/-- What a goroutine has still to do. -/
def progAt : (t : Thread) → Point t → Go Label
  | .caller _ => CallerPoint.prog
  | .listener => ListenerPoint.prog
  | .editor => EditorPoint.prog

/-- A call goes on with the result of its flight. -/
def CallerPoint.kept (x : Setting) : Answer × Bool → CallerPoint
  | (.error err, _) => .returned x (.error err)
  | (.ok r, true) => .returned x (.ok r)
  | (.ok r, false) => .adding x r

theorem CallerPoint.keep_prog (x : Setting) (v : Answer × Bool) :
    keep x v = (CallerPoint.kept x v).prog := by
  obtain ⟨v, shared⟩ := v
  cases v with
  | error err => rfl
  | ok r => cases shared <;> rfl

/-- A call moves. -/
inductive CallerMoves (m : Memory) :
    CallerPoint → Option Op → Memory → CallerPoint → Prop where
  | start {x : Setting} : CallerMoves m .standby none m (.getting x)
  | hit {x : Setting} {now : Int} {r : Reading}
      (h : (m.cache.get now (cacheKey x)).2 = some r) :
      CallerMoves m (.getting x) (some (.get x))
        { m with cache := (m.cache.get now (cacheKey x)).1 } (.returned x (.ok r))
  | miss {x : Setting} {now : Int} :
      CallerMoves m (.getting x) (some (.get x))
        { m with cache := (m.cache.get now (cacheKey x)).1 } (.entering x)
  | join {x : Setting} :
      CallerMoves m (.entering x) (some (.enter x))
        { m with group := (m.group.enter (cacheKey x)).2 }
        (.waiting x (m.group.enter (cacheKey x)).1.1)
  | lead {x : Setting} :
      CallerMoves m (.entering x) (some (.enter x))
        { m with group := (m.group.enter (cacheKey x)).2 }
        (.fetching x (m.group.enter (cacheKey x)).1.1)
  | wait {x : Setting} {c : Nat} {v : Answer} (h : (m.group.work c).val = some v) :
      CallerMoves m (.waiting x c) (some (.wait c)) m (.kept x (v, true))
  | fetch {x : Setting} {c : Nat} {failure : Option AppError} :
      CallerMoves m (.fetching x c) (some (.fetch x c))
        { m with group := m.group.fetch c (m.read failure x) } (.finishing x c)
  | finish {x : Setting} {c : Nat} :
      CallerMoves m (.finishing x c) (some (.finish x c))
        { m with group := m.group.finish (cacheKey x) c } (.sharing x c)
  | share {x : Setting} {c : Nat} {v : Answer} {shared : Bool}
      (h : (m.group.work c).val = some v) :
      CallerMoves m (.sharing x c) (some (.result c)) m (.kept x (v, shared))
  | add {x : Setting} {r : Reading} {now : Int} :
      CallerMoves m (.adding x r) (some (.add x r))
        { m with cache := m.cache.addWithDefaultExpires now (cacheKey x) r } (.returned x (.ok r))
  | back {x : Setting} {answer : Answer} : CallerMoves m (.returned x answer) none m .standby

/-- The listener moves. -/
inductive ListenerMoves (m : Memory) :
    ListenerPoint → Option Op → Memory → ListenerPoint → Prop where
  | start : ListenerMoves m .listening none m .receiving
  | receive {i : Nat} {e : Setting × Nat} (h : e ∈ m.events) :
      ListenerMoves m .receiving (some .receive) { m with events := m.events.eraseIdx i }
        (.removing e.1 e.2)
  | remove {x : Setting} {v : Nat} :
      ListenerMoves m (.removing x v) (some (.remove x v))
        { m with cache := m.cache.remove (cacheKey x), removed := raise m.removed x v }
        (.forgetting x v)
  | forget {x : Setting} {v : Nat} :
      ListenerMoves m (.forgetting x v) (some (.forget x v))
        { m with group := m.group.forget (cacheKey x), handled := raise m.handled x v } .listening

/-- A setting is changed. -/
inductive EditorMoves (m : Memory) :
    EditorPoint → Option Op → Memory → EditorPoint → Prop where
  | start {x : Setting} {value : Option Json} : EditorMoves m .editing none m (.changing x value)
  | change {x : Setting} {value : Option Json} :
      EditorMoves m (.changing x value) (some (.change x value))
        { m with
          rows := update m.rows x value
          version := update m.version x (m.version x + 1)
          events := m.events ++ [(x, m.version x + 1)] } .editing

/-- What a goroutine can do. -/
def moves : (t : Thread) → Memory → Point t → Option Op → Memory → Point t → Prop
  | .caller _ => CallerMoves
  | .listener => ListenerMoves
  | .editor => EditorMoves

theorem caller_leads (m : Memory) (pt : CallerPoint) :
    Leads exec settings.code CallerPoint.prog CallerMoves m pt := by
  cases pt with
  | standby =>
    rintro w _ ⟨⟩
    exact ⟨.getting w.setting, rfl, .start⟩
  | getting x =>
    rintro w _ ⟨⟩
    cases hfound : (m.cache.get w.now (cacheKey x)).2 with
    | none => exact ⟨.entering x, rfl, .miss⟩
    | some r => exact ⟨.returned x (.ok r), rfl, .hit hfound⟩
  | entering x =>
    rintro w _ ⟨⟩
    cases hjoined : (m.group.enter (cacheKey x)).1.2 with
    | true => exact ⟨.waiting x (m.group.enter (cacheKey x)).1.1, by simp [hjoined]; rfl, .join⟩
    | false => exact ⟨.fetching x (m.group.enter (cacheKey x)).1.1, by simp [hjoined]; rfl, .lead⟩
  | waiting x c =>
    intro w y hexec
    simp only [exec] at hexec
    split at hexec
    · obtain ⟨v, hval, rfl⟩ := Option.map_eq_some_iff.mp hexec
      exact ⟨.kept x (v, true), CallerPoint.keep_prog x _, .wait hval⟩
    · cases hexec
  | fetching x c =>
    rintro w _ ⟨⟩
    exact ⟨.finishing x c, rfl, .fetch⟩
  | finishing x c => exact .act .finish
  | sharing x c =>
    intro w y hexec
    obtain ⟨v, hval, rfl⟩ := Option.map_eq_some_iff.mp hexec
    exact ⟨.kept x (v, _), CallerPoint.keep_prog x _, .share hval⟩
  | adding x r =>
    rintro w _ ⟨⟩
    exact ⟨.returned x (.ok r), rfl, .add⟩
  | returned x answer => exact .next .back

theorem listener_leads (m : Memory) (pt : ListenerPoint) :
    Leads exec settings.code ListenerPoint.prog ListenerMoves m pt := by
  cases pt with
  | listening => exact .next .start
  | receiving =>
    intro w y hexec
    obtain ⟨e, he, rfl⟩ := Option.map_eq_some_iff.mp hexec
    exact ⟨.removing e.1 e.2, rfl, .receive (List.mem_of_getElem? he)⟩
  | removing x v => exact .act .remove
  | forgetting x v => exact .act .forget

theorem editor_leads (m : Memory) (pt : EditorPoint) :
    Leads exec settings.code EditorPoint.prog EditorMoves m pt := by
  cases pt with
  | editing =>
    rintro w _ ⟨⟩
    exact ⟨.changing w.setting w.value, rfl, .start⟩
  | changing x value => exact .act .change

theorem settings_outline : Outline settings progAt (Moving moves) := by
  refine Outline.of_moves (fun t m pt => ?_) id fun _ _ => id
  cases t with
  | caller i => exact caller_leads m pt
  | listener => exact listener_leads m pt
  | editor => exact editor_leads m pt

/-! ## How old a value may be -/

/-- No reading from before the change `v` -/
def Since (v : Nat) (answer : Answer) : Prop := ∀ r, answer = .ok r → v ≤ r.version

theorem Since.mono (h : Since v' answer) (hle : v ≤ v') :
    Since v answer := fun r hr => le_trans hle (h r hr)

/-- What is known of a call that has started when the changes up to `floor` had been handled -/
def CallerPoint.Sound (m : Memory) (floor : Setting → Nat) : CallerPoint → Prop
  | .waiting x c | .fetching x c | .finishing x c | .sharing x c =>
    Aboard m.group (cacheKey x) (Since (floor x)) c
  | .adding x r => floor x ≤ r.version
  | .returned x answer => Since (floor x) answer
  | _ => True

def ListenerPoint.Sound (m : Memory) : ListenerPoint → Prop
  | .removing x v => v ≤ m.version x
  | .forgetting x v => v ≤ m.removed x
  | _ => True

/-- What is cached is not older than the last removal of its key, and a flight that can be entered
not older than what has been handled. -/
structure Fresh (m : Memory) (slots : Slots String Reading) : Prop where
  refines : Refines 300 60 m.cache slots
  cached : ∀ x r secs, slots.lookup (cacheKey x) = some (r, secs) → m.removed x ≤ r.version
  flying : ∀ x c, m.group.m (cacheKey x) = some c →
    Aboard m.group (cacheKey x) (Since (m.handled x)) c
  handled : ∀ x, m.handled x ≤ m.removed x
  removed : ∀ x, m.removed x ≤ m.version x
  events : ∀ e ∈ m.events, e.2 ≤ m.version e.1

/-- The changes that had been handled when a call has started are handled. -/
structure Sound (m : Memory) (pts : (t : Thread) → Point t) (floor : Nat → Setting → Nat) :
    Prop where
  fresh : ∃ slots, Fresh m slots
  started : ∀ i x, floor i x ≤ m.handled x
  caller : ∀ i, CallerPoint.Sound m (floor i) (pts (.caller i))
  listener : ListenerPoint.Sound m (pts .listener)

/-- What has been handled when each call has started -/
def note (s : SettingsPool) (e : Event Thread Op) (_ : SettingsPool)
    (floor : Nat → Setting → Nat) : Nat → Setting → Nat :=
  match e with
  | .next (.caller i) => update floor i s.shared.handled
  | _ => floor

/-- A value is put into the cache before the listener removes the key for a change that the value
does not show. -/
def Timely (x : SettingsPool × (Nat → Setting → Nat)) (e : Event Thread Op)
    (_ : SettingsPool × (Nat → Setting → Nat)) : Prop :=
  match e with
  | .act _ (.add setting r) => x.1.shared.removed setting ≤ r.version
  | _ => True

section Sound

variable {m m' : Memory} {slots : Slots String Reading} {x : Setting}

theorem raise_self (f : Setting → Nat) (x : Setting) (v : Nat) : raise f x v x = max (f x) v :=
  update_self ..

theorem raise_of_ne (hy : y ≠ x) (f : Setting → Nat) (v : Nat) : raise f x v y = f y :=
  update_of_ne hy ..

theorem raise_le {f g : Setting → Nat} (hle : ∀ y, f y ≤ g y) (hv : v ≤ g x)
    (y : Setting) : raise f x v y ≤ g y := by
  by_cases hy : y = x
  · subst hy
    rw [raise_self]
    exact max_le (hle y) hv
  · rw [raise_of_ne hy]
    exact hle y

theorem le_raise (f : Setting → Nat) (x : Setting) (v : Nat) (y : Setting) :
    f y ≤ raise f x v y := by
  by_cases hy : y = x
  · subst hy
    rw [raise_self]
    exact le_max_left _ _
  · rw [raise_of_ne hy]

/-- A reading of the database has seen all changes. -/
theorem since_read (m : Memory) (failure : Option AppError) (x : Setting) :
    Since (m.version x) (m.read failure x) := by
  intro r hr
  unfold Memory.read at hr
  cases failure with
  | some err => cases hr
  | none =>
    cases hrow : m.rows x with
    | none =>
      simp only [hrow] at hr
      cases hr
    | some json =>
      simp only [hrow] at hr
      cases hr
      exact le_refl _

/-- What a call knows lasts while its flight serves it. -/
theorem CallerPoint.Sound.mono {pt : CallerPoint} (h : pt.Sound m floor)
    (hserves : ∀ x, Serves m.group m'.group (cacheKey x) (Since (floor x))) :
    pt.Sound m' floor := by
  cases pt with
  | waiting x c | fetching x c | finishing x c | sharing x c => exact Aboard.mono h (hserves x)
  | _ => exact h

theorem CallerPoint.sound_kept (h : Since (floor x) v) :
    (CallerPoint.kept x (v, shared)).Sound m floor := by
  cases v with
  | error err => exact h
  | ok r =>
    cases shared with
    | true => exact h
    | false => exact h r rfl

section

variable (hmoves : CallerMoves m pt a m' pt')
include hmoves

/-- What the accesses of a call do to the flights -/
theorem CallerMoves.serves (hsound : pt.Sound m floor)
    (hv : v ≤ m.version y) : Serves m.group m'.group (cacheKey y) (Since v) := by
  cases hmoves with
  | join | lead => exact serves_enter _
  | fetch =>
    refine serves_fetch fun hkey => ?_
    have heq := Option.some.inj (hsound.key_eq.symm.trans hkey)
    rw [cacheKey_injective heq]
    exact (since_read m _ y).mono hv
  | finish => exact serves_finish _ _
  | _ => exact serves_refl

theorem CallerMoves.frame : m'.version = m.version ∧ m'.events = m.events ∧ m'.removed = m.removed ∧
      m'.handled = m.handled := by
  cases hmoves <;> exact ⟨rfl, rfl, rfl, rfl⟩

/-- A flight that can be entered after an access of a call -/
theorem CallerMoves.flying (hsound : pt.Sound m floor)
    (h : Fresh m slots) (hc : m'.group.m (cacheKey y) = some c) :
    Aboard m'.group (cacheKey y) (Since (m.handled y)) c := by
  have hserves := hmoves.serves hsound (le_trans (h.handled y) (h.removed y))
  have hold : m.group.m (cacheKey y) = some c →
      Aboard m'.group (cacheKey y) (Since (m.handled y)) c :=
    fun hc => (h.flying y c hc).mono hserves
  -- whoever enters, to lead or to join, is aboard the flight of the key
  have hentered : ∀ x, cacheKey y = cacheKey x →
      Aboard (m.group.enter (cacheKey x)).2 (cacheKey y) (Since (m.handled y))
        (m.group.enter (cacheKey x)).1.1 := by
    intro x heq
    rw [cacheKey_injective heq]
    exact aboard_enter (h.flying x)
  cases hmoves with
  | join | lead =>
    rcases enter_m hc with hc | ⟨heq, rfl⟩
    · exact hold hc
    · exact hentered _ heq
  | finish => exact hold (finish_m hc)
  | _ => exact hold hc

end

/-- Values that are taken out of the cache, or put in -/
theorem Fresh.cache (h : Fresh m slots) (now : Int) (op : Lru.Op String Reading)
    {removed : Setting → Nat} (hown : ∀ y r secs,
      op.own 60 now (cacheKey y) (slots.lookup (cacheKey y)) = some (r, secs) →
        removed y ≤ r.version) :
    ∃ slots, Refines 300 60 (Lru.step m.cache now op).1 slots ∧
      ∀ y r secs, slots.lookup (cacheKey y) = some (r, secs) → removed y ≤ r.version := by
  obtain ⟨slots', hrefines, hslots⟩ := h.refines.step_keeps now op
    (P := fun key r _ => ∀ y, key = cacheKey y → removed y ≤ r.version) fun key r secs h y hy => by
      subst hy
      exact hown y r secs h
  exact ⟨slots', hrefines, fun y r secs hlookup => hslots _ r secs hlookup y rfl⟩

/-- What is found in the cache is not older than the last removal. -/
theorem Fresh.found (h : Fresh m slots)
    (hfound : (m.cache.get now (cacheKey x)).2 = some r) : m.removed x ≤ r.version := by
  obtain ⟨secs, hlookup, -⟩ := h.refines.get_eq_some.mp hfound
  exact h.cached x r secs hlookup

section

variable (hmoves : CallerMoves m pt a m' pt')
include hmoves

theorem CallerMoves.cached (h : Fresh m slots)
    (htimely : ∀ y r, a = some (.add y r) → m.removed y ≤ r.version) :
    ∃ slots, Refines 300 60 m'.cache slots ∧
      ∀ y r secs, slots.lookup (cacheKey y) = some (r, secs) → m.removed y ≤ r.version := by
  have hget : ∀ now x, ∃ slots, Refines 300 60 (m.cache.get now (cacheKey x)).1 slots ∧
      ∀ y r secs, slots.lookup (cacheKey y) = some (r, secs) → m.removed y ≤ r.version := by
    intro now x
    refine h.cache now (.get (cacheKey x)) fun y r secs hown => h.cached y r secs ?_
    simp only [Op.own] at hown
    split at hown
    · exact (Option.filter_eq_some_iff.mp hown).1
    · exact hown
  cases hmoves with
  | hit | miss => exact hget _ _
  | @add x r now =>
    refine h.cache now (.addWithDefaultExpires (cacheKey x) r) fun y r' secs hown => ?_
    simp only [Op.own] at hown
    split at hown
    · rename_i heq
      cases hown
      rw [← cacheKey_injective heq]
      exact htimely x r rfl
    · exact h.cached y r' secs hown
  | _ => exact ⟨slots, h.refines, h.cached⟩

/-- A call keeps the values fresh, if it caches what it has read in time. -/
theorem CallerMoves.fresh (hsound : pt.Sound m floor)
    (h : Fresh m slots) (htimely : ∀ y r, a = some (.add y r) → m.removed y ≤ r.version) :
    ∃ slots, Fresh m' slots := by
  obtain ⟨hversion, hevents, hremoved, hhandled⟩ := hmoves.frame
  obtain ⟨slots', hrefines, hcached⟩ := hmoves.cached h htimely
  refine ⟨slots', hrefines, ?_, ?_, ?_, ?_, ?_⟩
  · rw [hremoved]
    exact hcached
  · rw [hhandled]
    exact fun y c hc => hmoves.flying hsound h hc
  · rw [hhandled, hremoved]
    exact h.handled
  · rw [hremoved, hversion]
    exact h.removed
  · rw [hevents, hversion]
    exact h.events

/-- What a call knows after an access -/
theorem CallerMoves.sound (hsound : pt.Sound m floor)
    (h : Fresh m slots) (hfloor : ∀ y, floor y ≤ m.handled y) : pt'.Sound m' floor := by
  have hserves : ∀ y, Serves m.group m'.group (cacheKey y) (Since (floor y)) := fun y =>
    hmoves.serves hsound (le_trans (hfloor y) (le_trans (h.handled y) (h.removed y)))
  have haboard : ∀ x, Aboard (m.group.enter (cacheKey x)).2 (cacheKey x) (Since (floor x))
      (m.group.enter (cacheKey x)).1.1 := by
    intro x
    exact (aboard_enter (h.flying x)).imp fun v hv => hv.mono (hfloor x)
  cases hmoves with
  | start | miss | back => trivial
  | @hit x now r hfound =>
    intro r' hr'
    cases hr'
    exact le_trans (hfloor x) (le_trans (h.handled x) (h.found hfound))
  | join | lead => exact haboard _
  | wait hval | share hval => exact CallerPoint.sound_kept (hsound.val _ hval)
  | fetch | finish => exact Aboard.mono hsound (hserves _)
  | add =>
    intro r' hr'
    cases hr'
    exact hsound

end

section

variable (hmoves : ListenerMoves m pt a m' pt')
include hmoves

/-- The listener keeps the values fresh. -/
theorem ListenerMoves.fresh (hsound : pt.Sound m)
    (h : Fresh m slots) : (∃ slots, Fresh m' slots) ∧ pt'.Sound m' := by
  cases hmoves with
  | start => exact ⟨⟨slots, h⟩, trivial⟩
  | receive he =>
    refine ⟨⟨slots, h.refines, h.cached, h.flying, h.handled, h.removed, fun e he' => ?_⟩, ?_⟩
    · exact h.events e (List.mem_of_mem_eraseIdx he')
    · exact h.events _ he
  | @remove x v =>
    have hown : ∀ y r secs, (Lru.Op.remove (cacheKey x)).own 60 0 (cacheKey y)
        (slots.lookup (cacheKey y)) = some (r, secs) → raise m.removed x v y ≤ r.version := by
      intro y r secs hown
      simp only [Op.own] at hown
      split at hown
      · cases hown
      · rename_i hne
        have hy : y ≠ x := fun heq => hne (congrArg cacheKey heq.symm)
        rw [raise_of_ne hy]
        exact h.cached y r secs hown
    obtain ⟨slots', hrefines, hcached⟩ := h.cache 0 (.remove (cacheKey x)) hown
    refine ⟨⟨slots', hrefines, hcached, h.flying, fun y => ?_, ?_, h.events⟩, ?_⟩
    · exact le_trans (h.handled y) (le_raise _ _ _ y)
    · exact raise_le h.removed hsound
    · show v ≤ raise m.removed x v x
      rw [raise_self]
      exact le_max_right _ _
  | @forget x v =>
    refine ⟨⟨slots, h.refines, h.cached, fun y c hc => ?_, ?_, h.removed, h.events⟩, trivial⟩
    · obtain ⟨hne, hc⟩ := forget_m hc
      have hy : y ≠ x := fun heq => hne (congrArg cacheKey heq)
      show Aboard _ _ (Since (raise m.handled x v y)) c
      rw [raise_of_ne hy]
      exact (h.flying y c hc).mono (serves_forget _)
    · exact raise_le h.handled hsound

theorem ListenerMoves.serves {P : Answer → Prop} : Serves m.group m'.group key P := by
  cases hmoves with
  | forget => exact serves_forget _
  | _ => exact serves_refl

theorem ListenerMoves.handled_le (y : Setting) : m.handled y ≤ m'.handled y := by
  cases hmoves with
  | forget => exact le_raise _ _ _ y
  | _ => exact le_refl _

end

/-- So does a change. -/
theorem EditorMoves.fresh (hmoves : EditorMoves m pt a m' pt') (h : Fresh m slots) :
    Fresh m' slots ∧ m'.group = m.group ∧ m'.handled = m.handled ∧
      ∀ {pt : ListenerPoint}, pt.Sound m → pt.Sound m' := by
  cases hmoves with
  | start => exact ⟨h, rfl, rfl, id⟩
  | @change x value =>
    have hversion : ∀ y, m.version y ≤ update m.version x (m.version x + 1) y := by
      intro y
      by_cases hy : y = x
      · subst hy
        rw [update_self]
        exact Nat.le_succ _
      · rw [update_of_ne hy]
    refine ⟨⟨h.refines, h.cached, h.flying, h.handled, fun y => ?_, fun e he => ?_⟩, rfl, rfl, ?_⟩
    · exact le_trans (h.removed y) (hversion y)
    · rcases List.mem_append.mp he with he | he
      · exact le_trans (h.events e he) (hversion e.1)
      · cases List.mem_singleton.mp he
        show m.version x + 1 ≤ update m.version x (m.version x + 1) x
        rw [update_self]
    · intro pt hpt
      cases pt with
      | removing y v => exact le_trans hpt (hversion y)
      | _ => exact hpt

end Sound

section Run

variable {m m' : Memory} {pts : (t : Thread) → Point t} {floor : Nat → Setting → Nat} {i : Nat}

section

variable (h : Sound m pts floor)
include h

/-- The call `i` makes an access. -/
theorem Sound.callerAct {a : Op} {pt : CallerPoint}
    (hmoves : CallerMoves m (pts (.caller i)) (some a) m' pt)
    (htimely : ∀ y r, a = .add y r → m.removed y ≤ r.version) :
    Sound m' (update pts (.caller i) pt) floor := by
  obtain ⟨slots, hfresh⟩ := h.fresh
  obtain ⟨hversion, -, hremoved, hhandled⟩ := hmoves.frame
  constructor
  · exact hmoves.fresh (h.caller i) hfresh fun y r ha => htimely y r (Option.some.inj ha)
  · rw [hhandled]
    exact h.started
  · intro j
    by_cases hj : j = i
    · subst hj
      rw [update_self]
      exact hmoves.sound (h.caller j) hfresh (h.started j)
    · rw [update_of_ne (by simpa using hj)]
      refine (h.caller j).mono fun y => hmoves.serves (h.caller i) ?_
      exact le_trans (h.started j y) (le_trans (hfresh.handled y) (hfresh.removed y))
  · have hlistener := h.listener
    show ListenerPoint.Sound m' (pts .listener)
    unfold ListenerPoint.Sound at hlistener ⊢
    rw [hversion, hremoved]
    exact hlistener

/-- The call `i` starts, or is over. -/
theorem Sound.callerNext {pt : CallerPoint} (hmoves : CallerMoves m (pts (.caller i)) none m' pt) :
    Sound m' (update pts (.caller i) pt) (update floor i m.handled) := by
  have hpt : m' = m ∧ ∀ floor, pt.Sound m floor := by
    generalize pts (.caller i) = pt₀ at hmoves
    cases hmoves with
    | start | back => exact ⟨rfl, fun _ => trivial⟩
  obtain ⟨rfl, hpt⟩ := hpt
  constructor
  · exact h.fresh
  · intro j y
    by_cases hj : j = i
    · subst hj
      rw [update_self]
    · rw [update_of_ne hj]
      exact h.started j y
  · intro j
    by_cases hj : j = i
    · subst hj
      rw [update_self, update_self]
      exact hpt _
    · have hne : Thread.caller j ≠ Thread.caller i := by simpa using hj
      rw [update_of_ne hj, update_of_ne hne]
      exact h.caller j
  · exact h.listener

theorem Sound.listenerMove {a : Option Op}
    (hmoves : ListenerMoves m (pts .listener) a m' pt) :
    Sound m' (update pts .listener pt) floor := by
  obtain ⟨slots, hfresh⟩ := h.fresh
  obtain ⟨hfresh', hpt⟩ := hmoves.fresh h.listener hfresh
  constructor
  · exact hfresh'
  · exact fun j y => le_trans (h.started j y) (hmoves.handled_le y)
  · exact fun j => CallerPoint.Sound.mono (h.caller j) fun y => hmoves.serves
  · exact hpt

theorem Sound.editorMove {a : Option Op} {pt : EditorPoint}
    (hmoves : EditorMoves m (pts .editor) a m' pt) :
    Sound m' (update pts .editor pt) floor := by
  obtain ⟨slots, hfresh⟩ := h.fresh
  obtain ⟨hfresh', hgroup, hhandled, hlistener⟩ := hmoves.fresh hfresh
  constructor
  · exact ⟨slots, hfresh'⟩
  · rw [hhandled]
    exact h.started
  · refine fun j => CallerPoint.Sound.mono (h.caller j) fun y => ?_
    rw [hgroup]
    exact serves_refl
  · exact hlistener h.listener

end

theorem CallerPoint.eq_returned {pt : CallerPoint}
    (h : pt.prog = .ret (.returned x answer)) : pt = .returned x answer := by
  cases pt with
  | returned y answer' =>
    cases h
    rfl
  | _ => cases h

/-- What a call has seen handled is noted only when it starts. -/
theorem note_of_ne {s s' : SettingsPool} (ht : ∀ i, t ≠ .caller i) (a : Option Op)
    (floor : Nat → Setting → Nat) : note s (Event.of t a) s' floor = floor := by
  cases t with
  | caller i => exact absurd rfl (ht i)
  | listener | editor => cases a <;> rfl

/-- In every interleaving of any number of calls with changes and their events in which values are
cached in time: what a call returns has seen every change whose event had been handled when the
call started. -/
theorem fresh_of_timely {rows : Setting → Option Json} {ok : Prop}
    {x : SettingsPool × (Nat → Setting → Nat)}
    (h : Trace.Steps (Recorded settings note) Timely (newSettings rows, fun _ _ => 0) ok x)
    (hok : ok) {i : Nat} {setting : Setting} {r : Reading}
    (hreturned : x.1.thread (.caller i) = .ret (.returned setting (.ok r))) :
    x.2 i setting ≤ r.version := by
  have hat : (newSettings rows).At progAt fun
      | .caller _ => CallerPoint.standby
      | .listener => ListenerPoint.listening
      | .editor => EditorPoint.editing := by
    intro t
    cases t <;> rfl
  obtain ⟨pts, hpts, hsound⟩ : ∃ pts, x.1.At progAt pts ∧ Sound x.1.shared pts x.2 := by
    refine settings_outline.run h hok hat ?_ ?_
    · -- at the start there is no value, no flight, no event and no call
      refine ⟨⟨∅, refines_new _ _, ?_, ?_, fun _ => le_refl _, fun _ => le_refl _, ?_⟩, ?_, ?_, ?_⟩
      · exact fun _ _ _ hlookup => by cases hlookup
      · exact fun _ _ hc => by cases hc
      · exact fun _ he => by cases he
      · exact fun _ _ => le_refl _
      · exact fun _ => trivial
      · trivial
    · rintro s s' m m' pts pts' e floor rfl rfl hat hat' hmoves hinv hcond
      cases hmoves with
      | @move t a m' pt hmove =>
        cases t with
        | caller i =>
          cases a with
          | none => exact hinv.callerNext hmove
          | some a =>
            refine hinv.callerAct hmove fun y r ha => ?_
            subst ha
            exact hcond
        | listener =>
          rw [note_of_ne (t := .listener) nofun]
          exact hinv.listenerMove hmove
        | editor =>
          rw [note_of_ne (t := .editor) nofun]
          exact hinv.editorMove hmove
  have hcaller := hsound.caller i
  rw [hpts (.caller i)] at hreturned
  rw [CallerPoint.eq_returned hreturned] at hcaller
  exact hcaller r rfl

end Run

/-! ## Schedules -/

/-- A setting and its values -/
def recordAllCalls : Setting := (1, "record_all_calls")

def initialRows : Setting → Option Json := fun _ => some (.bool false)

def outside : Outside := ⟨0, recordAllCalls, some (.bool true), none, 0⟩

/-- A goroutine moves. -/
def go (t : Thread) (moves : Nat) : List (Thread × Outside) := List.replicate moves (t, outside)

instance (x : SettingsPool × (Nat → Setting → Nat)) (e : Event Thread Op)
    (y : SettingsPool × (Nat → Setting → Nat)) : Decidable (Timely x e y) := by
  unfold Timely
  split <;> infer_instance

/-- What `GetSystemSettings` has returned, if it has -/
def answerOf : Go Label → Option (Setting × Reading)
  | .ret (.returned x (.ok r)) => some (x, r)
  | _ => none

theorem thread_of_answer (h : answerOf p = some (x, r)) : p = .ret (.returned x (.ok r)) := by
  unfold answerOf at h
  split at h
  · cases h
    rfl
  · cases h

/-- A value is cached, the setting changes, the event is handled, and a call reads it anew. -/
def invalidated : List (Thread × Outside) :=
  go (.caller 0) 7 ++ go .editor 2 ++ go .listener 4 ++ go (.caller 1) 7

theorem fresh_of_timely_invalidated :
    ∃ x, Trace.play (Pool.record settings note) invalidated
        (newSettings initialRows, fun _ _ => 0) = some x ∧
      x.1.thread (.caller 1) = .ret (.returned recordAllCalls (.ok ⟨⟨true, ""⟩, 1⟩)) ∧
        x.2 1 recordAllCalls = 1 ∧ x.2 1 recordAllCalls ≤ 1 := by
  obtain ⟨x, hx, ⟨hanswer, hfloor⟩, ok, hsteps, hok⟩ := Pool.reaches_record settings note
    (fun x e y => of_decide_eq_true (p := Timely x e y)) invalidated
    (newSettings initialRows, fun _ _ => 0)
    (fun x => answerOf (x.1.thread (.caller 1)) = some (recordAllCalls, ⟨⟨true, ""⟩, 1⟩) ∧
      x.2 1 recordAllCalls = 1) (by decide +kernel)
  have hthread := thread_of_answer hanswer
  exact ⟨x, hx, hthread, hfloor, fresh_of_timely hsteps hok hthread⟩

/-- A call has read the setting; it changes and the event is handled; then the call puts the value
into the cache, and a later call finds it. -/
def overtaken : List (Thread × Outside) :=
  go (.caller 0) 4 ++ go .editor 2 ++ go .listener 4 ++ go (.caller 0) 3 ++ go (.caller 1) 2

theorem fresh_of_timely_overtaken :
    ∃ ok x,
      Trace.Steps (Recorded settings note) Timely (newSettings initialRows, fun _ _ => 0) ok x ∧
      x.1.thread (.caller 1) = .ret (.returned recordAllCalls (.ok ⟨⟨false, ""⟩, 0⟩)) ∧
        x.2 1 recordAllCalls = 1 := by
  obtain ⟨x, -, ⟨hanswer, hfloor⟩, ok, hsteps⟩ := Trace.reaches (Pool.record_step settings note)
    Timely overtaken (newSettings initialRows, fun _ _ => 0)
    (fun x => answerOf (x.1.thread (.caller 1)) = some (recordAllCalls, ⟨⟨false, ""⟩, 0⟩) ∧
      x.2 1 recordAllCalls = 1) (by decide +kernel)
  exact ⟨ok, x, hsteps, thread_of_answer hanswer, hfloor⟩

end FlowManager.Settings
