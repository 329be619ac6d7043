import Mathlib.Algebra.Order.Ring.Int
import FlowManager.Lib.Recency

/-!
# The LRU cache (model/lru.go)

`Cache` is a map of keys to elements of a list, the element that was used last in front. `Purge`
clears neither of them: it starts a new generation, and the entries of the older ones stay
until they are read, replaced or evicted.

- `Cache`: the cache as the source has it, with the elements of the list by pointer.
- `Op`, `step`, `run`: sequences of operations, each with the reading of the clock.
- `Linked`, `Valid`: map, list and length agree.
- `valid_run`: they do after any sequence of operations, and `Keys` is what it should be.
-/

namespace FlowManager.Lru

open Function

/-- `entry` -/
structure Entry (K V : Type) where
  key : K
  value : V
  expireAtSecs : Int
  generation : Int

/-- An element of the list; `id` is the pointer to it. -/
structure Element (K V : Type) where
  id : Nat
  entry : Entry K V

/-- `Cache`. The counter of generations is not bounded: it would come back to an old value after
2^64 purges only. `next` is the next pointer that is allocated. -/
structure Cache (K V : Type) where
  size : Nat
  evictList : List (Element K V)
  items : K → Option Nat
  defaultExpiry : Int
  currentGeneration : Int
  len : Int
  next : Nat

/-- What the run time does when a slice is misused -/
inductive Panic where
  | makeslice
  | indexOutOfRange
  deriving DecidableEq

section Model

variable {K V : Type} [DecidableEq K]

/-- `NewLruWithParams`; `NewLru` is the case `defaultExpiry = 0`. -/
def newLru (size : Nat) (defaultExpiry : Int) : Cache K V where
  size := size
  evictList := []
  items _ := none
  defaultExpiry := defaultExpiry
  currentGeneration := 0
  len := 0
  next := 0

namespace Cache

/-- `c.items[key]` -/
def item (c : Cache K V) (key : K) : Option (Element K V) :=
  (c.items key).bind fun p => c.evictList.find? (·.id == p)

/-- `c.evictList.Remove(e)` -/
def unlink (c : Cache K V) (e : Element K V) : List (Element K V) :=
  c.evictList.filter (·.id ≠ e.id)

/-- `removeElement` -/
def removeElement (c : Cache K V) (e : Element K V) : Cache K V :=
  { c with
    evictList := c.unlink e
    len := if e.entry.generation = c.currentGeneration then c.len - 1 else c.len
    items := update c.items e.entry.key none }

def purge (c : Cache K V) : Cache K V :=
  { c with
    len := 0
    currentGeneration := c.currentGeneration + 1 }

/-- The time at which an entry expires, in 64 bits -/
def expiry (now expireAtSecs : Int) : Int :=
  if 0 < expireAtSecs then (now + expireAtSecs).bmod (2 ^ 64) else expireAtSecs

def addWithExpiresInSecs (c : Cache K V) (now : Int) (key : K) (value : V) (expireAtSecs : Int) :
    Cache K V :=
  let expireAtSecs := expiry now expireAtSecs
  match c.item key with
  | some ent =>
    -- an entry of an older generation is counted again
    let e := { ent.entry with
      value := value
      expireAtSecs := expireAtSecs
      generation := c.currentGeneration }
    -- a key that is there is renewed, and nothing is evicted for it
    { c with
      evictList := { ent with entry := e } :: c.unlink ent
      len := if ent.entry.generation ≠ c.currentGeneration then c.len + 1 else c.len }
  | none =>
    let c := { c with
      evictList := ⟨c.next, ⟨key, value, expireAtSecs, c.currentGeneration⟩⟩ :: c.evictList
      items := update c.items key (some c.next)
      len := c.len + 1
      next := c.next + 1 }
    -- entries of older generations take up room until they come to the end
    if c.evictList.length > c.size then
      match c.evictList.getLast? with
      | some e => c.removeElement e
      | none => c
    else c

def add (c : Cache K V) (now : Int) (key : K) (value : V) : Cache K V :=
  c.addWithExpiresInSecs now key value 0

def addWithDefaultExpires (c : Cache K V) (now : Int) (key : K) (value : V) : Cache K V :=
  c.addWithExpiresInSecs now key value c.defaultExpiry

/-- Whether `Get` finds the entry too old -/
def expired (now expireAtSecs : Int) : Bool := 0 < expireAtSecs && expireAtSecs < now

def get (c : Cache K V) (now : Int) (key : K) : Cache K V × Option V :=
  match c.item key with
  | some ent =>
    if ent.entry.generation ≠ c.currentGeneration ∨ expired now ent.entry.expireAtSecs = true then
      (c.removeElement ent, none)
    else ({ c with evictList := ent :: c.unlink ent }, some ent.entry.value)
  | none => (c, none)

def remove (c : Cache K V) (key : K) : Cache K V :=
  match c.item key with
  | some ent => c.removeElement ent
  | none => c

/-- The loop of `Keys`, from the back of the list; `none` is a slot that is not set. -/
def keysLoop (currentGeneration : Int) :
    List (Element K V) → Nat → List (Option K) → Except Panic (List (Option K))
  | [], _, keys => .ok keys
  | ent :: rest, i, keys =>
    if ent.entry.generation = currentGeneration then
      if i < keys.length then
        keysLoop currentGeneration rest (i + 1) (keys.set i (some ent.entry.key))
      else .error .indexOutOfRange
    else keysLoop currentGeneration rest i keys

def keys (c : Cache K V) : Except Panic (List (Option K)) :=
  if c.len < 0 then .error .makeslice
  else keysLoop c.currentGeneration c.evictList.reverse 0 (List.replicate c.len.toNat none)

end Cache

/-- The operations -/
inductive Op (K V : Type) where
  | add (key : K) (value : V)
  | addWithDefaultExpires (key : K) (value : V)
  | addWithExpiresInSecs (key : K) (value : V) (expireAtSecs : Int)
  | get (key : K)
  | remove (key : K)
  | purge
  | keys
  | len

/-- What an operation returns -/
inductive Answer (K V : Type) where
  | done
  | got (value : Option V)
  | keys (keys : Except Panic (List (Option K)))
  | len (n : Int)

/-- An operation, with the reading of the clock -/
def step (c : Cache K V) (now : Int) : Op K V → Cache K V × Answer K V
  | .add key value => (c.add now key value, .done)
  | .addWithDefaultExpires key value => (c.addWithDefaultExpires now key value, .done)
  | .addWithExpiresInSecs key value secs => (c.addWithExpiresInSecs now key value secs, .done)
  | .get key => ((c.get now key).1, .got (c.get now key).2)
  | .remove key => (c.remove key, .done)
  | .purge => (c.purge, .done)
  | .keys => (c, .keys c.keys)
  | .len => (c, .len c.len)

/-- A sequence of operations, with the readings of the clock -/
abbrev History (K V : Type) := List (Int × Op K V)

def run (c : Cache K V) : History K V → Cache K V
  | [] => c
  | (now, op) :: h => run (step c now op).1 h

/-- The answers on the way -/
def answers (c : Cache K V) : History K V → List (Answer K V)
  | [] => []
  | (now, op) :: h => (step c now op).2 :: answers (step c now op).1 h

/-- The key that an operation uses: one that is added, or read with success. -/
def Op.used : Op K V → Answer K V → Option K
  | .add key _, _ => some key
  | .addWithDefaultExpires key _, _ => some key
  | .addWithExpiresInSecs key _ _, _ => some key
  | .get key, .got (some _) => some key
  | _, _ => none

/-- The keys that are used, in the order of their uses -/
def uses (c : Cache K V) : History K V → List K
  | [] => []
  | (now, op) :: h => (op.used (step c now op).2).toList ++ uses (step c now op).1 h

end Model

/-! ## Map and list -/

section Linked

variable {K V : Type} {c : Cache K V} {e : Element K V} {k : K}

/-- The entries, the one used last in front -/
def Cache.entries (c : Cache K V) : List (Entry K V) := c.evictList.map Element.entry

/-- Map and list hold the same entries, with pairwise different keys. -/
structure Linked (c : Cache K V) : Prop where
  ids : (c.evictList.map Element.id).Nodup
  keys : (c.entries.map Entry.key).Nodup
  items : ∀ k p, c.items k = some p ↔ ∃ e ∈ c.evictList, e.id = p ∧ e.entry.key = k
  fresh : ∀ e ∈ c.evictList, e.id < c.next

theorem Linked.key_eq_iff (h : Linked c) (he : e ∈ c.evictList) (he' : e' ∈ c.evictList) :
    e'.entry.key = e.entry.key ↔ e'.id = e.id := by
  have hkeys := h.keys
  rw [Cache.entries, List.map_map] at hkeys
  constructor
  · intro heq
    rw [List.inj_on_of_nodup_map hkeys he' he heq]
  · intro heq
    rw [List.inj_on_of_nodup_map h.ids he' he heq]

theorem mem_unlink : e' ∈ c.unlink e ↔ e' ∈ c.evictList ∧ e'.id ≠ e.id := by
  unfold Cache.unlink
  rw [List.mem_filter]
  simp only [ne_eq, decide_eq_true_eq]

/-- Unlinking takes out one element. -/
theorem Linked.perm_unlink (h : Linked c) (he : e ∈ c.evictList) :
    (e :: c.unlink e).Perm c.evictList := by
  have hnodup := h.ids.of_map
  have hsub : (c.unlink e).Sublist c.evictList := List.filter_sublist
  refine (List.perm_ext_iff_of_nodup ?_ hnodup).mpr fun e' => ?_
  · exact List.nodup_cons.mpr ⟨fun hmem => (mem_unlink.mp hmem).2 rfl, hnodup.sublist hsub⟩
  · rw [List.mem_cons, mem_unlink]
    constructor
    · rintro (rfl | ⟨he', -⟩)
      · exact he
      · exact he'
    · intro he'
      by_cases hid : e'.id = e.id
      · exact .inl (List.inj_on_of_nodup_map h.ids he' he hid)
      · exact .inr ⟨he', hid⟩

theorem Linked.item_eq_some (h : Linked c) :
    c.item k = some e ↔ e ∈ c.evictList ∧ e.entry.key = k := by
  unfold Cache.item
  constructor
  · intro hitem
    obtain ⟨p, hp, hfind⟩ := Option.bind_eq_some_iff.mp hitem
    obtain ⟨e', he', hid, hkey⟩ := (h.items k p).mp hp
    have hmem := List.mem_of_find?_eq_some hfind
    have hid' : e.id = p := by simpa using List.find?_some hfind
    refine ⟨hmem, ?_⟩
    rw [← hkey]
    exact (h.key_eq_iff he' hmem).mpr (hid'.trans hid.symm)
  · rintro ⟨hmem, hkey⟩
    rw [(h.items k e.id).mpr ⟨e, hmem, rfl, hkey⟩]
    show c.evictList.find? (·.id == e.id) = some e
    cases hfind : c.evictList.find? (·.id == e.id) with
    | none =>
      have hno := List.find?_eq_none.mp hfind e hmem
      simp at hno
    | some e' =>
      have hid : e'.id = e.id := by simpa using List.find?_some hfind
      rw [List.inj_on_of_nodup_map h.ids (List.mem_of_find?_eq_some hfind) hmem hid]

theorem Linked.item_eq_none (h : Linked c) :
    c.item k = none ↔ ∀ e ∈ c.entries, e.key ≠ k := by
  constructor
  · intro hnone e he hkey
    obtain ⟨el, hel, rfl⟩ := List.mem_map.mp he
    rw [h.item_eq_some.mpr ⟨hel, hkey⟩] at hnone
    cases hnone
  · intro hno
    cases hitem : c.item k with
    | none => rfl
    | some e =>
      obtain ⟨hmem, hkey⟩ := h.item_eq_some.mp hitem
      exact absurd hkey (hno _ (List.mem_map_of_mem hmem))

variable [DecidableEq K]

/-- Unlinking an element takes out the entry of its key. -/
theorem Linked.entries_unlink (h : Linked c) (he : e ∈ c.evictList) :
    (c.unlink e).map Element.entry = c.entries.filter (·.key ≠ e.entry.key) := by
  unfold Cache.unlink Cache.entries
  rw [List.filter_map]
  congr 1
  refine List.filter_congr fun e' he' => ?_
  simp only [Function.comp_apply, decide_eq_decide, ne_eq]
  exact not_congr (h.key_eq_iff he he').symm

theorem Linked.removeElement (h : Linked c) (he : e ∈ c.evictList) :
    Linked (c.removeElement e) := by
  have hsub : (c.unlink e).Sublist c.evictList := List.filter_sublist
  refine ⟨h.ids.sublist (hsub.map _), ?_, ?_, fun e' he' => h.fresh e' (hsub.mem he')⟩
  · exact h.keys.sublist ((hsub.map _).map _)
  · intro k p
    show update c.items e.entry.key none k = some p ↔
      ∃ e' ∈ c.unlink e, e'.id = p ∧ e'.entry.key = k
    by_cases hk : k = e.entry.key
    · subst hk
      rw [update_self]
      refine iff_of_false nofun ?_
      rintro ⟨e', he', -, hkey⟩
      obtain ⟨hmem, hid⟩ := mem_unlink.mp he'
      exact hid ((h.key_eq_iff he hmem).mp hkey)
    · rw [update_of_ne hk, h.items]
      constructor
      · rintro ⟨e', he', hid, hkey⟩
        refine ⟨e', mem_unlink.mpr ⟨he', fun heq => hk ?_⟩, hid, hkey⟩
        rw [← hkey]
        exact (h.key_eq_iff he he').mpr heq
      · rintro ⟨e', he', hid, hkey⟩
        exact ⟨e', (mem_unlink.mp he').1, hid, hkey⟩

/-- An element comes to the front, maybe with another entry of its key. -/
theorem Linked.front (h : Linked c) (he : e ∈ c.evictList)
    (hkey : entry.key = e.entry.key) (len : Int) :
    Linked { c with evictList := { e with entry := entry } :: c.unlink e, len := len } := by
  have hsub : (c.unlink e).Sublist c.evictList := List.filter_sublist
  refine ⟨?_, ?_, ?_, ?_⟩
  · refine List.nodup_cons.mpr ⟨fun hmem => ?_, h.ids.sublist (hsub.map _)⟩
    obtain ⟨e', he', hid⟩ := List.mem_map.mp hmem
    exact (mem_unlink.mp he').2 hid
  · refine List.nodup_cons.mpr ⟨fun hmem => ?_, h.keys.sublist ((hsub.map _).map _)⟩
    rw [h.entries_unlink he] at hmem
    obtain ⟨e', he', hkey'⟩ := List.mem_map.mp hmem
    rw [List.mem_filter, decide_eq_true_eq] at he'
    exact he'.2 (hkey'.trans hkey)
  · intro k p
    rw [h.items]
    constructor
    · rintro ⟨e', he', hid, hk⟩
      by_cases heq : e'.id = e.id
      · refine ⟨{ e with entry := entry }, List.mem_cons_self, heq.symm.trans hid, ?_⟩
        rw [← hk, (h.key_eq_iff he he').mpr heq]
        exact hkey
      · exact ⟨e', List.mem_cons_of_mem _ (mem_unlink.mpr ⟨he', heq⟩), hid, hk⟩
    · rintro ⟨e', he', hid, hk⟩
      rcases List.mem_cons.mp he' with rfl | he'
      · exact ⟨e, he, hid, hkey.symm.trans hk⟩
      · exact ⟨e', (mem_unlink.mp he').1, hid, hk⟩
  · intro e' he'
    rcases List.mem_cons.mp he' with rfl | he'
    · exact h.fresh e he
    · exact h.fresh e' (hsub.mem he')

/-- An element of a new key -/
theorem Linked.push (h : Linked c) (entry : Entry K V) (hnew : ∀ e ∈ c.entries, e.key ≠ entry.key)
    (len : Int) :
    Linked { c with
      evictList := ⟨c.next, entry⟩ :: c.evictList
      items := update c.items entry.key (some c.next)
      len := len
      next := c.next + 1 } := by
  refine ⟨?_, ?_, ?_, ?_⟩
  · refine List.nodup_cons.mpr ⟨fun hmem => ?_, h.ids⟩
    obtain ⟨e', he', hid⟩ := List.mem_map.mp hmem
    exact absurd hid (Nat.ne_of_lt (h.fresh e' he'))
  · refine List.nodup_cons.mpr ⟨fun hmem => ?_, h.keys⟩
    obtain ⟨e', he', hkey⟩ := List.mem_map.mp hmem
    exact hnew e' he' hkey
  · intro k p
    show update c.items entry.key (some c.next) k = some p ↔ _
    by_cases hk : k = entry.key
    · subst hk
      rw [update_self]
      constructor
      · intro heq
        exact ⟨_, List.mem_cons_self, Option.some.inj heq, rfl⟩
      · rintro ⟨e', he', hid, hkey⟩
        rcases List.mem_cons.mp he' with rfl | he'
        · exact congrArg some hid
        · exact absurd hkey (hnew _ (List.mem_map_of_mem he'))
    · rw [update_of_ne hk, h.items]
      constructor
      · rintro ⟨e', he', hid, hkey⟩
        exact ⟨e', List.mem_cons_of_mem _ he', hid, hkey⟩
      · rintro ⟨e', he', hid, hkey⟩
        rcases List.mem_cons.mp he' with rfl | he'
        · exact absurd hkey.symm hk
        · exact ⟨e', he', hid, hkey⟩
  · intro e' he'
    rcases List.mem_cons.mp he' with rfl | he'
    · exact Nat.lt_succ_self _
    · exact Nat.lt_succ_of_lt (h.fresh e' he')

end Linked

/-! ## Entries and length -/

section Valid

variable {K V : Type} {c : Cache K V} {e : Element K V} {k : K}

/-- The entries of the current generation -/
def Cache.live (c : Cache K V) : List (Entry K V) :=
  c.entries.filter (·.generation = c.currentGeneration)

/-- The length counts the entries of the current generation, and there is none of a later one. -/
structure Counted (c : Cache K V) : Prop where
  linked : Linked c
  len : c.len = c.live.length
  generation : ∀ e ∈ c.entries, e.generation ≤ c.currentGeneration

/-- What holds between two operations. -/
structure Valid (c : Cache K V) : Prop extends Counted c where
  bounded : c.entries.length ≤ c.size

theorem valid_newLru (size : Nat) (defaultExpiry : Int) :
    Valid (newLru size defaultExpiry : Cache K V) where
  linked := {
    ids := List.nodup_nil
    keys := List.nodup_nil
    items := fun _ _ => ⟨nofun, fun ⟨_, he, _⟩ => absurd he List.not_mem_nil⟩
    fresh := fun _ he => absurd he List.not_mem_nil }
  bounded := Nat.zero_le _
  len := rfl
  generation := fun _ he => absurd he List.not_mem_nil

variable [DecidableEq K]

/-- The entries other than that of one key, and that one -/
theorem Linked.length_live (h : Linked c) (he : e ∈ c.evictList) :
    c.live.length = ((c.entries.filter (·.key ≠ e.entry.key)).filter
      (·.generation = c.currentGeneration)).length +
        if e.entry.generation = c.currentGeneration then 1 else 0 := by
  have hperm := (((h.perm_unlink he).map Element.entry).filter
    (·.generation = c.currentGeneration)).length_eq
  rw [← h.entries_unlink he]
  unfold Cache.live Cache.entries
  rw [← hperm, List.map_cons, List.filter_cons]
  split
  · rename_i hcur
    rw [if_pos (by simpa using hcur), List.length_cons]
  · rename_i hcur
    rw [if_neg (by simpa using hcur), Nat.add_zero]

theorem Linked.entries_removeElement (h : Linked c) (he : e ∈ c.evictList) :
    (c.removeElement e).entries = c.entries.filter (·.key ≠ e.entry.key) := h.entries_unlink he

theorem Counted.removeElement (h : Counted c) (he : e ∈ c.evictList) :
    Counted (c.removeElement e) := by
  have hentries := h.linked.entries_removeElement he
  refine ⟨h.linked.removeElement he, ?_, ?_⟩
  · have hlen := h.linked.length_live he
    unfold Cache.live
    rw [hentries]
    show (if e.entry.generation = c.currentGeneration then c.len - 1 else c.len) =
      (((c.entries.filter _).filter (·.generation = c.currentGeneration)).length : Int)
    rw [h.len, hlen]
    split
    · omega
    · rfl
  · rw [hentries]
    exact fun e' he' => h.generation e' (List.mem_of_mem_filter he')

theorem Valid.removeElement (h : Valid c) (he : e ∈ c.evictList) : Valid (c.removeElement e) := by
  refine ⟨h.toCounted.removeElement he, ?_⟩
  rw [h.linked.entries_removeElement he]
  exact le_trans (List.length_filter_le _ _) h.bounded

/-- An entry that takes the place of that of its key, in front -/
theorem Valid.front (h : Valid c) (he : e ∈ c.evictList) (entry : Entry K V)
    (hkey : entry.key = e.entry.key) (hgen : entry.generation = c.currentGeneration) (len : Int)
    (hlen : len = if e.entry.generation ≠ c.currentGeneration then c.len + 1 else c.len) :
    Valid { c with evictList := { e with entry := entry } :: c.unlink e, len := len } ∧
      ({ c with evictList := { e with entry := entry } :: c.unlink e, len := len } :
        Cache K V).entries = entry :: c.entries.filter (·.key ≠ e.entry.key) := by
  have hentries : ({ c with evictList := { e with entry := entry } :: c.unlink e, len := len } :
      Cache K V).entries = entry :: c.entries.filter (·.key ≠ e.entry.key) :=
    congrArg (entry :: ·) (h.linked.entries_unlink he)
  refine ⟨⟨⟨h.linked.front he hkey len, ?_, ?_⟩, ?_⟩, hentries⟩
  · unfold Cache.live
    rw [hentries]
    show len = ((entry :: c.entries.filter _).filter
      (·.generation = c.currentGeneration)).length
    rw [List.filter_cons_of_pos (by simpa using hgen), List.length_cons, hlen, h.len,
      h.linked.length_live he]
    by_cases hcur : e.entry.generation = c.currentGeneration
    · rw [if_neg (not_not.mpr hcur), if_pos hcur]
    · rw [if_pos hcur, if_neg hcur]
      omega
  · rw [hentries]
    intro e' he'
    rcases List.mem_cons.mp he' with rfl | he'
    · exact le_of_eq hgen
    · exact h.generation e' (List.mem_of_mem_filter he')
  · have hperm := ((h.linked.perm_unlink he).map Element.entry).length_eq
    exact le_trans (le_of_eq hperm) h.bounded

/-- With pairwise different keys, the last entry goes with its key. -/
theorem filter_getLast {l : List (Entry K V)} {e : Entry K V} (hkeys : (l.map Entry.key).Nodup)
    (hlast : l.getLast? = some e) : l.filter (·.key ≠ e.key) = l.take (l.length - 1) := by
  obtain ⟨init, rfl⟩ := List.getLast?_eq_some_iff.mp hlast
  rw [List.map_append, List.nodup_append] at hkeys
  rw [List.filter_append, List.length_append, List.length_singleton, Nat.add_sub_cancel,
    List.take_left, List.filter_cons_of_neg (by simp), List.filter_nil, List.append_nil,
    List.filter_eq_self]
  intro e' he'
  simpa using hkeys.2.2 _ (List.mem_map_of_mem he') _ (List.mem_map_of_mem List.mem_cons_self)

theorem Counted.push (h : Counted c) (entry : Entry K V)
    (hnew : ∀ e ∈ c.entries, e.key ≠ entry.key) (hgen : entry.generation = c.currentGeneration) :
    Counted { c with
      evictList := ⟨c.next, entry⟩ :: c.evictList
      items := update c.items entry.key (some c.next)
      len := c.len + 1
      next := c.next + 1 } := by
  refine ⟨h.linked.push entry hnew _, ?_, ?_⟩
  · show c.len + 1 = ((entry :: c.entries).filter (·.generation = c.currentGeneration)).length
    rw [List.filter_cons_of_pos (by simpa using hgen), List.length_cons, h.len]
    rfl
  · intro e' he'
    rcases List.mem_cons.mp he' with rfl | he'
    · exact le_of_eq hgen
    · exact h.generation e' he'

/-- What no longer fits is evicted. -/
theorem Counted.evict (h : Counted c) (hlen : c.entries.length ≤ c.size + 1) :
    let c' := if c.evictList.length > c.size then
      match c.evictList.getLast? with
      | some e => c.removeElement e
      | none => c
    else c
    Valid c' ∧ c'.entries = c.entries.take c.size := by
  have hlength : c.entries.length = c.evictList.length := List.length_map _
  split
  · rename_i hfull
    split
    · rename_i e hlast
      have hmem := List.mem_of_getLast? hlast
      have hlast' : c.entries.getLast? = some e.entry := by
        unfold Cache.entries
        rw [List.getLast?_map, hlast]
        rfl
      have hentries : (c.removeElement e).entries = c.entries.take c.size := by
        rw [h.linked.entries_removeElement hmem, filter_getLast h.linked.keys hlast']
        congr 1
        omega
      refine ⟨⟨h.removeElement hmem, ?_⟩, hentries⟩
      rw [hentries]
      exact List.length_take_le _ _
    · rename_i hnone
      rw [List.getLast?_eq_none_iff.mp hnone] at hfull
      exact absurd hfull (Nat.not_lt_zero _)
  · have hfits : c.entries.length ≤ c.size := by omega
    exact ⟨⟨h, hfits⟩, (List.take_of_length_le hfits).symm⟩

/-- `AddWithExpiresInSecs` puts the entry in front, and evicts what no longer fits. -/
theorem Valid.addWithExpiresInSecs (h : Valid c) (now : Int) (k : K) (v : V) (secs : Int) :
    Valid (c.addWithExpiresInSecs now k v secs) ∧
      (c.addWithExpiresInSecs now k v secs).entries =
        (⟨k, v, Cache.expiry now secs, c.currentGeneration⟩ ::
          c.entries.filter (·.key ≠ k)).take c.size := by
  unfold Cache.addWithExpiresInSecs
  cases hitem : c.item k with
  | some ent =>
    obtain ⟨hmem, rfl⟩ := h.linked.item_eq_some.mp hitem
    obtain ⟨hvalid, hentries⟩ := h.front hmem
      { ent.entry with
        value := v, expireAtSecs := Cache.expiry now secs, generation := c.currentGeneration }
      rfl rfl _ rfl
    refine ⟨hvalid, hentries.trans ?_⟩
    have hfits := hvalid.bounded
    rw [hentries] at hfits
    exact (List.take_of_length_le hfits).symm
  | none =>
    have hnew := h.linked.item_eq_none.mp hitem
    have hfilter : c.entries.filter (·.key ≠ k) = c.entries :=
      List.filter_eq_self.mpr fun e he => by simpa using hnew e he
    rw [hfilter]
    exact (h.toCounted.push ⟨k, v, Cache.expiry now secs, c.currentGeneration⟩ hnew rfl).evict
      (Nat.succ_le_succ h.bounded)

/-- `Get` finds an entry of the current generation that has not expired, and puts it in front, or
it finds none, and takes out what there is. -/
theorem Valid.get (h : Valid c) (now : Int) (k : K) :
    Valid (c.get now k).1 ∧
      ((∃ e ∈ c.live, e.key = k ∧ Cache.expired now e.expireAtSecs = false ∧
          (c.get now k).2 = some e.value ∧
          (c.get now k).1.entries = e :: c.entries.filter (·.key ≠ k)) ∨
        ((∀ e ∈ c.live, e.key = k → Cache.expired now e.expireAtSecs = true) ∧
          (c.get now k).2 = none ∧ (c.get now k).1.entries = c.entries.filter (·.key ≠ k))) := by
  unfold Cache.get
  cases hitem : c.item k with
  | none =>
    have hnew := h.linked.item_eq_none.mp hitem
    refine ⟨h, .inr ⟨fun e he hkey => ?_, rfl, ?_⟩⟩
    · exact absurd hkey (hnew e (List.mem_of_mem_filter he))
    · exact (List.filter_eq_self.mpr fun e he => by simpa using hnew e he).symm
  | some ent =>
    obtain ⟨hmem, rfl⟩ := h.linked.item_eq_some.mp hitem
    dsimp only
    split
    · rename_i hgone
      refine ⟨h.removeElement hmem, .inr ⟨fun e he hkey => ?_, rfl,
        h.linked.entries_removeElement hmem⟩⟩
      obtain ⟨hin, hcur⟩ := List.mem_filter.mp he
      have heq : e = ent.entry := by
        exact List.inj_on_of_nodup_map h.linked.keys hin (List.mem_map_of_mem hmem) hkey
      rw [heq] at hcur ⊢
      exact hgone.resolve_left (not_not.mpr (by simpa using hcur))
    · rename_i hthere
      rw [not_or, not_not, Bool.not_eq_true] at hthere
      obtain ⟨hvalid, hentries⟩ := h.front hmem ent.entry rfl hthere.1 c.len
        (if_neg (not_not.mpr hthere.1)).symm
      refine ⟨hvalid, .inl ⟨ent.entry, ?_, rfl, hthere.2, rfl, hentries⟩⟩
      exact List.mem_filter.mpr ⟨List.mem_map_of_mem hmem, by simpa using hthere.1⟩

theorem Valid.remove (h : Valid c) (k : K) :
    Valid (c.remove k) ∧ (c.remove k).entries = c.entries.filter (·.key ≠ k) := by
  unfold Cache.remove
  cases hitem : c.item k with
  | none =>
    have hnew := h.linked.item_eq_none.mp hitem
    exact ⟨h, (List.filter_eq_self.mpr fun e he => by simpa using hnew e he).symm⟩
  | some ent =>
    obtain ⟨hmem, rfl⟩ := h.linked.item_eq_some.mp hitem
    exact ⟨h.removeElement hmem, h.linked.entries_removeElement hmem⟩

omit [DecidableEq K] in
theorem Valid.purge (h : Valid c) : Valid c.purge := by
  refine ⟨⟨⟨h.linked.ids, h.linked.keys, h.linked.items, h.linked.fresh⟩, ?_, ?_⟩, h.bounded⟩
  · have hlive : c.purge.live = [] := by
      refine List.filter_eq_nil_iff.mpr fun e he => ?_
      have hle := h.generation e he
      show ¬ decide (e.generation = c.currentGeneration + 1) = true
      rw [decide_eq_true_eq]
      omega
    rw [hlive]
    rfl
  · intro e he
    have hle := h.generation e he
    show e.generation ≤ c.currentGeneration + 1
    omega

end Valid

/-! ## `Keys` -/

section Keys

variable {K V : Type} {c : Cache K V}

/-- The loop sets the slots one after another, if there are as many as entries. -/
theorem keysLoop_eq (gen : Int) (l : List (Element K V)) :
    ∀ (done : List K) (left : Nat),
      ((l.map Element.entry).filter (·.generation = gen)).length = left →
      Cache.keysLoop gen l done.length (done.map some ++ List.replicate left none) =
        .ok ((done ++ ((l.map Element.entry).filter (·.generation = gen)).map
          Entry.key).map some) := by
  induction l with
  | nil =>
    rintro done _ rfl
    simp [Cache.keysLoop]
  | cons ent rest ih =>
    intro done left hleft
    unfold Cache.keysLoop
    rw [List.map_cons] at hleft ⊢
    by_cases hcur : ent.entry.generation = gen
    · rw [List.filter_cons_of_pos (by simpa using hcur), List.length_cons] at hleft
      obtain ⟨n, rfl⟩ : ∃ n, left = n + 1 := ⟨_, hleft.symm⟩
      rw [if_pos hcur, if_pos (by simp), List.filter_cons_of_pos (by simpa using hcur)]
      have hset : (done.map some ++ List.replicate (n + 1) none).set done.length
          (some ent.entry.key) = (done ++ [ent.entry.key]).map some ++ List.replicate n none := by
        simp [List.replicate_succ]
      have hrest := ih (done ++ [ent.entry.key]) n (Nat.succ.inj hleft)
      rw [List.length_append, List.length_singleton, List.append_assoc] at hrest
      rw [hset]
      exact hrest
    · rw [List.filter_cons_of_neg (by simpa using hcur)] at hleft ⊢
      rw [if_neg hcur]
      exact ih done left hleft

/-- `Keys` sets every slot, and no other: with the keys of the current generation, from the
back of the list on. -/
theorem Counted.keys (h : Counted c) : c.keys = .ok ((c.live.map Entry.key).reverse.map some) := by
  unfold Cache.keys
  rw [if_neg (by rw [h.len]; omega), h.len]
  have hloop := keysLoop_eq c.currentGeneration c.evictList.reverse [] c.live.length (by
    rw [List.map_reverse, List.filter_reverse, List.length_reverse]
    rfl)
  rw [List.map_reverse, List.filter_reverse, List.map_reverse] at hloop
  exact hloop

end Keys

/-! ## Any sequence of operations -/

section Run

variable {K V : Type} [DecidableEq K] {c : Cache K V}

/-- What an operation other than `Purge` leaves alone -/
structure Frame (c c' : Cache K V) : Prop where
  size : c'.size = c.size
  defaultExpiry : c'.defaultExpiry = c.defaultExpiry
  currentGeneration : c'.currentGeneration = c.currentGeneration

theorem frame_addWithExpiresInSecs (c : Cache K V) (now : Int) (k : K) (v : V) (secs : Int) :
    Frame c (c.addWithExpiresInSecs now k v secs) := by
  unfold Cache.addWithExpiresInSecs
  split
  · exact ⟨rfl, rfl, rfl⟩
  · dsimp only
    split
    · split <;> exact ⟨rfl, rfl, rfl⟩
    · exact ⟨rfl, rfl, rfl⟩

theorem frame_get (c : Cache K V) (now : Int) (k : K) : Frame c (c.get now k).1 := by
  unfold Cache.get
  split
  · split <;> exact ⟨rfl, rfl, rfl⟩
  · exact ⟨rfl, rfl, rfl⟩

theorem frame_remove (c : Cache K V) (k : K) : Frame c (c.remove k) := by
  unfold Cache.remove
  split <;> exact ⟨rfl, rfl, rfl⟩

theorem step_size (c : Cache K V) (now : Int) (op : Op K V) :
    (step c now op).1.size = c.size ∧ (step c now op).1.defaultExpiry = c.defaultExpiry := by
  have hframe : ∀ {c' : Cache K V}, Frame c c' →
      c'.size = c.size ∧ c'.defaultExpiry = c.defaultExpiry :=
    fun h => ⟨h.size, h.defaultExpiry⟩
  cases op with
  | add k v => exact hframe (frame_addWithExpiresInSecs c now k v 0)
  | addWithDefaultExpires k v => exact hframe (frame_addWithExpiresInSecs c now k v _)
  | addWithExpiresInSecs k v secs => exact hframe (frame_addWithExpiresInSecs c now k v secs)
  | get k => exact hframe (frame_get c now k)
  | remove k => exact hframe (frame_remove c k)
  | purge | keys | len => exact ⟨rfl, rfl⟩

theorem run_size (h : History K V) : ∀ c : Cache K V,
    (run c h).size = c.size ∧ (run c h).defaultExpiry = c.defaultExpiry := by
  induction h with
  | nil => exact fun _ => ⟨rfl, rfl⟩
  | cons x h ih =>
    intro c
    obtain ⟨now, op⟩ := x
    obtain ⟨hsize, hexpiry⟩ := step_size c now op
    obtain ⟨hsize', hexpiry'⟩ := ih (step c now op).1
    exact ⟨hsize'.trans hsize, hexpiry'.trans hexpiry⟩

/-- What an operation does to the entries. -/
inductive Change (c : Cache K V) : List (Entry K V) → Option K → Prop where
  | used (e : Entry K V) :
      Change c ((e :: c.entries.filter (·.key ≠ e.key)).take c.size) (some e.key)
  | less (h : l.Sublist c.entries) : Change c l none

/-- Every operation keeps the cache valid, and changes it in one of these two ways. -/
theorem Valid.step (h : Valid c) (now : Int) (op : Op K V) :
    Valid (step c now op).1 ∧
      Change c (Lru.step c now op).1.entries (op.used (Lru.step c now op).2) := by
  have hadd : ∀ k v secs, Valid (c.addWithExpiresInSecs now k v secs) ∧
      Change c (c.addWithExpiresInSecs now k v secs).entries (some k) := by
    intro k v secs
    obtain ⟨hvalid, hentries⟩ := h.addWithExpiresInSecs now k v secs
    rw [hentries]
    exact ⟨hvalid, .used ⟨k, v, _, _⟩⟩
  cases op with
  | add k v => exact hadd k v 0
  | addWithDefaultExpires k v => exact hadd k v c.defaultExpiry
  | addWithExpiresInSecs k v secs => exact hadd k v secs
  | get k =>
    obtain ⟨hvalid, hcases⟩ := h.get now k
    refine ⟨hvalid, ?_⟩
    show Change c (c.get now k).1.entries (Op.used (.get k) (.got (c.get now k).2))
    rcases hcases with ⟨e, he, rfl, -, hgot, hentries⟩ | ⟨-, hgot, hentries⟩
    · -- an entry that only moves to the front drives none out
      have hfits := hvalid.bounded
      rw [hentries, (frame_get c now e.key).size] at hfits
      have hused := Change.used (c := c) e
      rw [List.take_of_length_le hfits] at hused
      rw [hgot, hentries]
      exact hused
    · rw [hgot, hentries]
      exact .less List.filter_sublist
  | remove k =>
    obtain ⟨hvalid, hentries⟩ := h.remove k
    refine ⟨hvalid, ?_⟩
    show Change c (c.remove k).entries none
    rw [hentries]
    exact .less List.filter_sublist
  | purge => exact ⟨h.purge, .less (List.Sublist.refl _)⟩
  | keys | len => exact ⟨h, .less (List.Sublist.refl _)⟩

theorem Change.recent {used : Option K} (h : Change c l used)
    (hrecent : Recent before (c.entries.map Entry.key)) :
    Recent (before ++ used.toList) (l.map Entry.key) := by
  cases h with
  | used e =>
    refine (hrecent.use e.key).sublist ?_
    rw [List.filter_map, ← List.map_cons]
    exact (List.take_sublist _ _).map _
  | less h =>
    rw [Option.toList_none, List.append_nil]
    exact hrecent.sublist (h.map _)

theorem Valid.run (h : History K V) : ∀ {c : Cache K V} (before : List K), Valid c →
    Recent before (c.entries.map Entry.key) →
      Valid (run c h) ∧ Recent (before ++ uses c h) ((Lru.run c h).entries.map Entry.key) := by
  induction h with
  | nil =>
    intro c before hc hrecent
    rw [uses, List.append_nil]
    exact ⟨hc, hrecent⟩
  | cons x h ih =>
    intro c before hc hrecent
    obtain ⟨now, op⟩ := x
    obtain ⟨hvalid, hchange⟩ := hc.step now op
    rw [uses, ← List.append_assoc]
    exact ih _ hvalid (hchange.recent hrecent)

end Run

/-- After any sequence of operations, whatever the clock: map and list hold the same entries, no
more than fit, and the length is the number of those of the current generation. `Keys` does not
panic and leaves no slot unset: it returns their keys, the one used last at the end. -/
theorem valid_run {K V : Type} [DecidableEq K] (size : Nat) (defaultExpiry : Int)
    (h : History K V) :
    let c : Cache K V := run (newLru size defaultExpiry) h
    Valid c ∧ c.size = size ∧
      ∃ keys : List K, c.keys = .ok (keys.map some) ∧
        (∀ k, k ∈ keys ↔ ∃ e ∈ c.entries, e.key = k ∧ e.generation = c.currentGeneration) ∧
        keys.Sublist (uses (newLru size defaultExpiry) h).dedup := by
  intro c
  obtain ⟨hvalid, hrecent⟩ := Valid.run h [] (valid_newLru size defaultExpiry)
    (List.Sublist.refl _)
  refine ⟨hvalid, (run_size h _).1, _, hvalid.keys, fun k => ?_, ?_⟩
  · rw [List.mem_reverse, List.mem_map]
    simp only [Cache.live, List.mem_filter, decide_eq_true_eq]
    constructor
    · rintro ⟨e, ⟨he, hcur⟩, hkey⟩
      exact ⟨e, he, hkey, hcur⟩
    · rintro ⟨e, he, hkey, hcur⟩
      exact ⟨e, ⟨he, hcur⟩, hkey⟩
  · exact hrecent.sublist (List.filter_sublist.map _)

end FlowManager.Lru
