import Mathlib.Data.List.Induction
import FlowManager.Cache.Live
import FlowManager.Flow.Program
import FlowManager.Lib.Numeral

/-!
# The cache of the flows (app/cache.go, store/cachelayer/memory.go)

All domains share one LRU cache; the key of an entry is the number of the domain, a dot and the
key of the flow.

- `formatKeys`, `Call.exec`: the operations.
- `cacheKey_inj`: no two pairs of domain and key share an entry.
- `Call.own`: what a domain has stored under a key, as its own operations have left it.
- `isolated`: a domain gets that, or nothing when it has been evicted, whatever others do.
-/

namespace FlowManager.FlowCache

open Lru

/-- `CacheType` -/
inductive CacheType where
  | memory
  | redis
  deriving DecidableEq

def CacheType.name : CacheType → String
  | .memory => "memory"
  | .redis => "redis"

def parseCacheType (cacheType : String) : CacheType :=
  if cacheType = CacheType.redis.name then .redis else .memory

/-- `formatKeys`: the key of a flight, and that of the entry -/
def formatKeys (cacheType : CacheType) (method : String) (domainId : Int) (key : String) :
    String × String :=
  let cacheKey := toString domainId ++ "." ++ key
  (cacheType.name ++ "." ++ method ++ "." ++ cacheKey, cacheKey)

/-- The store that `GetCacheStoreByType` finds, where `redis` says whether there is a Redis one -/
def getCacheStoreByType (redis : Bool) : CacheType → CacheType
  | .memory => .memory
  | .redis => if redis = true then .redis else .memory

/-- `MemoryCache`: values of any type, `none` being nil -/
abbrev MemoryCache (α : Type) := Lru.Cache String (Option α)

section Model

variable {α : Type}

/-- `NewCacheValue` -/
def newCacheValue : Option α → Except AppError α
  | some value => .ok value
  | none => .error ⟨"CacheValue", "cache_value.set", "accepted value is nil", 500⟩

/-- What `MemoryCache.Get` returns for what the cache has found -/
def memoryReply (key : String) : Option (Option α) → Except AppError α
  | some value => newCacheValue value
  | none => .error ⟨"CacheLayer.MemoryCache", "cache.memory_cache.get",
      s!"unable to find value by key {key}", 500⟩

/-- `MemoryCache.Get` -/
def memoryGet (m : MemoryCache α) (now : Int) (key : String) :
    MemoryCache α × Except AppError α :=
  ((m.get now key).1, memoryReply key (m.get now key).2)

/-- What a flow does with a key -/
inductive Action (α : Type) where
  | set (value : Option α) (expiresAfter : Int)
  | get
  | delete

/-- `CacheSetValue`, `CacheGetValue` or `CacheDeleteValue` for a domain -/
structure Call (α : Type) where
  cacheType : String
  domainId : Int
  key : String
  action : Action α

/-- The key of the entry -/
def Call.cacheKey (x : Call α) : String :=
  (formatKeys (parseCacheType x.cacheType) "" x.domainId x.key).2

/-- What a call returns; the Redis store answers for itself. -/
inductive Outcome (α : Type) where
  | ok
  | got (value : Except AppError α)
  | redis

/-- A call, when no other one is under way: then the flights of `singleflight` are not shared. -/
def Call.exec (redis : Bool) (m : MemoryCache α) (now : Int) (x : Call α) :
    MemoryCache α × Outcome α :=
  match getCacheStoreByType redis (parseCacheType x.cacheType) with
  | .redis => (m, .redis)
  | .memory =>
    -- the key is that of the type that was asked for, the store may be another one
    match x.action with
    | .set value expiresAfter => (m.addWithExpiresInSecs now x.cacheKey value expiresAfter, .ok)
    | .get => ((memoryGet m now x.cacheKey).1, .got (memoryGet m now x.cacheKey).2)
    | .delete => (m.remove x.cacheKey, .ok)

/-- Calls one after another, with the readings of the clock -/
def execAll (redis : Bool) (m : MemoryCache α) : List (Int × Call α) → MemoryCache α
  | [] => m
  | (now, x) :: calls => execAll redis (x.exec redis m now).1 calls

end Model

/-! ## Keys -/

section Keys

/-- A number has no dot. -/
theorem dot_notMem_toString (d : Int) : '.' ∉ (toString d).toList :=
  Numeral.notMem_toString (by decide) (by decide) d

/-- No two pairs of domain and key share an entry, whatever the keys are. -/
theorem cacheKey_inj
    (h : (formatKeys t method d k).2 = (formatKeys t' method' e k').2) : d = e ∧ k = k' := by
  have hlist := congrArg String.toList h
  simp only [formatKeys, String.toList_append, List.append_assoc] at hlist
  obtain ⟨hd, hk⟩ := Numeral.split_first (dot_notMem_toString d) (dot_notMem_toString e) hlist
  exact ⟨Numeral.toString_inj (String.toList_injective hd), String.toList_injective hk⟩

/-- Two domains do not share a flight of `CacheGetValue` either. -/
theorem workerKey_ne (hne : d ≠ e) (k k' : String) :
    (formatKeys t "get" d k).1 ≠ (formatKeys t' "get" e k').1 := by
  intro h
  have hname : ∀ t : CacheType, '.' ∉ t.name.toList := fun t => by cases t <;> decide
  have hlist := congrArg String.toList h
  simp only [formatKeys, String.toList_append, List.append_assoc] at hlist
  obtain ⟨-, hrest⟩ := Numeral.split_first (hname t) (hname t') hlist
  have hget : '.' ∉ "get".toList := by decide
  obtain ⟨-, hrest⟩ := Numeral.split_first hget hget hrest
  obtain ⟨hd, -⟩ := Numeral.split_first (dot_notMem_toString d) (dot_notMem_toString e) hrest
  exact hne (Numeral.toString_inj (String.toList_injective hd))

end Keys

/-! ## What a domain has stored -/

section Own

variable {α : Type} {redis : Bool} {m : MemoryCache α} {key : String}

/-- The operation of the cache that a call makes, if it goes to the memory -/
def Call.op (redis : Bool) (x : Call α) : Option (Op String (Option α)) :=
  match getCacheStoreByType redis (parseCacheType x.cacheType) with
  | .redis => none
  | .memory =>
    match x.action with
    | .set value expiresAfter => some (.addWithExpiresInSecs x.cacheKey value expiresAfter)
    | .get => some (.get x.cacheKey)
    | .delete => some (.remove x.cacheKey)

/-- The operations of the cache that calls make -/
def history (redis : Bool) (calls : List (Int × Call α)) : History String (Option α) :=
  calls.filterMap fun x => (x.2.op redis).map fun op => (x.1, op)

theorem exec_eq_step (x : Call α) (m : MemoryCache α) (now : Int) :
    (x.exec redis m now).1 = match x.op redis with
      | some op => (step m now op).1
      | none => m := by
  unfold Call.exec Call.op
  cases getCacheStoreByType redis (parseCacheType x.cacheType) with
  | redis => rfl
  | memory =>
    cases x.action with
    | set value expiresAfter => rfl
    | get | delete => rfl

theorem execAll_eq_run (calls : List (Int × Call α)) : ∀ m : MemoryCache α,
    execAll redis m calls = run m (history redis calls) := by
  induction calls with
  | nil => exact fun _ => rfl
  | cons x calls ih =>
    intro m
    obtain ⟨now, x⟩ := x
    rw [execAll, exec_eq_step]
    unfold history
    rw [List.filterMap_cons]
    cases x.op redis with
    | none => exact ih m
    | some op => exact ih _

/-- What would be stored under `key` after a call if nothing were ever evicted -/
def Call.own (redis : Bool) (defaultExpiry : Int) (key : String) (own : Option (Option α × Int))
    (x : Int × Call α) : Option (Option α × Int) :=
  match x.2.op redis with
  | some op => op.own defaultExpiry x.1 key own
  | none => own

/-- A call that stores something under `key` -/
def Call.Sets (redis : Bool) (key : String) (x : Call α) : Prop :=
  ∃ op, x.op redis = some op ∧ op.added = some key

/-- Since `key` was last set, some call that stores something has evicted its entry. -/
def Evicted (redis : Bool) (m : MemoryCache α) (key : String) (calls : List (Int × Call α)) :
    Prop :=
  ∃ before now x after, calls = before ++ (now, x) :: after ∧
    (∃ key', x.Sets redis key' ∧
      (key' = key ∨ key ∈ (execAll redis m before).live.map Entry.key)) ∧
    key ∉ (execAll redis m (before ++ [(now, x)])).live.map Entry.key ∧
    ∀ y ∈ after, ¬ y.2.Sets redis key

theorem Evicted.concat (h : Evicted redis m key calls) (hx : ¬ x.2.Sets redis key) :
    Evicted redis m key (calls ++ [x]) := by
  obtain ⟨before, now, y, after, rfl, hsets, hgone, hafter⟩ := h
  refine ⟨before, now, y, after ++ [x], ?_, hsets, hgone, ?_⟩
  · rw [List.append_assoc, List.cons_append]
  intro z hz
  rcases List.mem_append.mp hz with hz | hz
  · exact hafter z hz
  · rw [List.mem_singleton.mp hz]
    exact hx

variable {size : Nat} {defaultExpiry : Int}

/-- The live entries after calls on a new cache -/
def slotsOf (redis : Bool) (size : Nat) (defaultExpiry : Int) (calls : List (Int × Call α)) :
    Slots String (Option α) :=
  Slots.run size defaultExpiry ∅ (history redis calls)

section

variable (calls : List (Int × Call α))
include calls

theorem refines_slotsOf :
    Refines size defaultExpiry (execAll redis (newLru size defaultExpiry) calls)
      (slotsOf redis size defaultExpiry calls) := by
  rw [execAll_eq_run]
  exact ((refines_new size defaultExpiry).run _).1

theorem slotsOf_concat (x : Int × Call α) :
    slotsOf redis size defaultExpiry (calls ++ [x]) = match x.2.op redis with
      | some op => (op.slots size defaultExpiry x.1 (slotsOf redis size defaultExpiry calls)).1
      | none => slotsOf redis size defaultExpiry calls := by
  unfold slotsOf history
  rw [List.filterMap_append, Slots.run_append, List.filterMap_cons, List.filterMap_nil]
  cases x.2.op redis <;> rfl

/-- What is stored under a key is what its own calls have left, unless it has been evicted. -/
theorem lookup_slotsOf : (slotsOf redis size defaultExpiry calls).lookup key =
        calls.foldl (Call.own redis defaultExpiry key) none ∨
      (slotsOf redis size defaultExpiry calls).lookup key = none ∧
        Evicted redis (newLru size defaultExpiry) key calls := by
  induction calls using List.reverseRecOn with
  | nil => exact .inl rfl
  | append_singleton calls x ih =>
    have hbefore : Refines size defaultExpiry (execAll redis (newLru size defaultExpiry) calls)
      (slotsOf redis size defaultExpiry calls) := refines_slotsOf calls
    have hafter : Refines size defaultExpiry
      (execAll redis (newLru size defaultExpiry) (calls ++ [x]))
      (slotsOf redis size defaultExpiry (calls ++ [x])) := refines_slotsOf (calls ++ [x])
    rw [List.foldl_append, List.foldl_cons, List.foldl_nil, Call.own]
    rw [slotsOf_concat] at hafter ⊢
    cases hop : x.2.op redis with
    | none =>
      refine ih.imp_right fun hgone => ⟨hgone.1, hgone.2.concat ?_⟩
      rintro ⟨op, hx, -⟩
      rw [hop] at hx
      cases hx
    | some op =>
      rw [hop] at hafter
      rcases lookup_slots op defaultExpiry x.1 key hbefore.bounded with
        hsame | ⟨hgone, k', hadded, hk⟩
      · rw [hsame]
        rcases ih with hown | ⟨hnone, hevicted⟩
        · exact .inl (by rw [hown])
        · -- an entry that has been evicted comes back only if the call sets it
          by_cases hadds : op.added = some key
          · exact .inl (Op.own_added hadds _ _)
          · refine .inr ⟨by rw [hnone, Op.own_none hadds], hevicted.concat ?_⟩
            rintro ⟨op', hx, hadded⟩
            rw [hop] at hx
            cases hx
            exact hadds hadded
      · -- the call has evicted the entry, to make room for `k'`
        refine .inr ⟨hgone, calls, x.1, x.2, [], rfl, ⟨k', ⟨op, hop, hadded⟩, ?_⟩, ?_, nofun⟩
        · exact hk.imp_right fun hmem => hbefore.mem_keys.mpr (AList.lookup_isSome.mpr hmem)
        · rw [hafter.mem_keys, hgone]
          nofun

end

/-- The call goes to the memory. -/
def Call.Memory (redis : Bool) (x : Call α) : Prop :=
  getCacheStoreByType redis (parseCacheType x.cacheType) = .memory

/-- The last one of the calls `mine` that has not only read has set the given value. -/
def LastSet (redis : Bool) (mine : Call α → Prop) (calls : List (Int × Call α))
    (value : Option α) : Prop :=
  ∃ before now x expiresAfter after, calls = before ++ (now, x) :: after ∧ x.Memory redis ∧
    mine x ∧ x.action = .set value expiresAfter ∧
    ∀ y ∈ after, y.2.Memory redis → mine y.2 → y.2.action = .get

theorem LastSet.concat {mine : Call α → Prop} (h : LastSet redis mine calls value)
    (hx : x.2.Memory redis → mine x.2 → x.2.action = .get) :
    LastSet redis mine (calls ++ [x]) value := by
  obtain ⟨before, now, y, expiresAfter, after, rfl, hmemory, hmine, haction, hafter⟩ := h
  refine ⟨before, now, y, expiresAfter, after ++ [x], by rw [List.append_assoc, List.cons_append],
    hmemory, hmine, haction, ?_⟩
  intro z hz
  rcases List.mem_append.mp hz with hz | hz
  · exact hafter z hz
  · rw [List.mem_singleton.mp hz]
    exact hx

/-- A call for another key changes nothing. -/
theorem Call.own_of_ne (hkey : x.2.cacheKey ≠ key) (own : Option (Option α × Int)) :
    Call.own redis defaultExpiry key own x = own := by
  unfold Call.own Call.op
  cases getCacheStoreByType redis (parseCacheType x.2.cacheType) with
  | redis => rfl
  | memory => cases x.2.action <;> simp only [Op.own, if_neg hkey]

/-- What its own calls have left under a key has been set by the last of them. -/
theorem lastSet_of_own (calls : List (Int × Call α)) : ∀ {value : Option α} {expireAt : Int},
    calls.foldl (Call.own redis defaultExpiry key) none = some (value, expireAt) →
      LastSet redis (fun x => x.cacheKey = key) calls value := by
  induction calls using List.reverseRecOn with
  | nil => exact fun h => by cases h
  | append_singleton calls x ih =>
    intro value expireAt h
    rw [List.foldl_append, List.foldl_cons, List.foldl_nil] at h
    by_cases hkey : x.2.cacheKey = key
    · rw [Call.own, Call.op] at h
      generalize calls.foldl (Call.own redis defaultExpiry key) none = own at h ih
      cases hstore : getCacheStoreByType redis (parseCacheType x.2.cacheType) with
      | redis =>
        rw [hstore] at h
        exact (ih h).concat fun hmemory => by cases hstore.symm.trans hmemory
      | memory =>
        rw [hstore] at h
        cases haction : x.2.action with
        | set v expiresAfter =>
          simp only [haction, Op.own, if_pos hkey] at h
          cases h
          exact ⟨calls, x.1, x.2, expiresAfter, [], rfl, hstore, hkey, haction,
            fun _ hy => by cases hy⟩
        | get =>
          simp only [haction, Op.own, if_pos hkey] at h
          exact (ih (Option.filter_eq_some_iff.mp h).1).concat fun _ _ => haction
        | delete =>
          simp only [haction, Op.own, if_pos hkey] at h
          cases h
    · rw [Call.own_of_ne hkey] at h
      exact (ih h).concat fun _ heq => absurd heq hkey

/-- Calls for other keys do not matter. -/
theorem own_filter (calls : List (Int × Call α))
    (hkeep : ∀ x : Int × Call α, keep x = false → x.2.cacheKey ≠ key) :
    ∀ own, (calls.filter keep).foldl (Call.own redis defaultExpiry key) own =
      calls.foldl (Call.own redis defaultExpiry key) own := by
  induction calls with
  | nil => exact fun _ => rfl
  | cons x calls ih =>
    intro own
    cases hx : keep x with
    | true =>
      rw [List.filter_cons_of_pos hx]
      exact ih _
    | false =>
      rw [List.filter_cons_of_neg (by rw [hx]; nofun), ih, List.foldl_cons,
        Call.own_of_ne (hkeep x hx)]

end Own

/-! ## Domains -/

section Domains

variable {α : Type}

/-- What a domain gets for a key after some calls on a new cache. -/
def outcome (redis : Bool) (size : Nat) (defaultExpiry : Int) (calls : List (Int × Call α))
    (now : Int) (cacheType : String) (domainId : Int) (key : String) : Outcome α :=
  (Call.exec redis (execAll redis (newLru size defaultExpiry) calls) now
    ⟨cacheType, domainId, key, .get⟩).2

variable {redis : Bool} {size : Nat} {defaultExpiry now : Int} {calls : List (Int × Call α)}
  {cacheType : String} {d : Int} {key : String}

/-- The key of the entry of a domain -/
def entryKey (d : Int) (key : String) : String := (formatKeys .memory "" d key).2

theorem cacheKey_eq_iff {x : Call α} :
    x.cacheKey = entryKey d key ↔ x.domainId = d ∧ x.key = key := by
  constructor
  · exact fun h => cacheKey_inj h
  · rintro ⟨rfl, rfl⟩
    rfl

theorem outcome_of_redis (h : getCacheStoreByType redis (parseCacheType cacheType) = .redis) :
    outcome redis size defaultExpiry calls now cacheType d key = .redis := by
  unfold outcome Call.exec
  rw [h]

/-- The outcome depends on what is stored only. -/
theorem outcome_of_memory (h : getCacheStoreByType redis (parseCacheType cacheType) = .memory) :
    outcome redis size defaultExpiry calls now cacheType d key =
      .got (memoryReply (entryKey d key) ((((slotsOf redis size defaultExpiry calls).lookup
        (entryKey d key)).filter fun x => !Cache.expired now x.2).map Prod.fst)) := by
  have hrefines : Refines size defaultExpiry (execAll redis (newLru size defaultExpiry) calls)
    (slotsOf redis size defaultExpiry calls) := refines_slotsOf calls
  have hget := (hrefines.get now (entryKey d key)).2
  unfold Slots.get Slots.found at hget
  unfold outcome Call.exec
  rw [h]
  show Outcome.got (memoryReply (entryKey d key)
    ((execAll redis (newLru size defaultExpiry) calls).get now (entryKey d key)).2) = _
  rw [hget]
  cases ((slotsOf redis size defaultExpiry calls).lookup (entryKey d key)).filter
    fun x => !Cache.expired now x.2 <;> rfl

/-- A value that is found has been set. -/
theorem memoryReply_ok {v : α}
    (h : memoryReply key ((stored.filter fun x => !Cache.expired now x.2).map Prod.fst) = .ok v) :
    ∃ expireAt, stored = some (some v, expireAt) ∧ Cache.expired now expireAt = false := by
  cases hfound : stored.filter fun x => !Cache.expired now x.2 with
  | none =>
    rw [hfound] at h
    cases h
  | some x =>
    rw [hfound] at h
    obtain ⟨w, expireAt⟩ := x
    cases w with
    | none => cases h
    | some w =>
      cases h
      obtain ⟨hstored, hlive⟩ := Option.filter_eq_some_iff.mp hfound
      exact ⟨expireAt, hstored, by simpa using hlive⟩

section

variable {v : α} (h : outcome redis size defaultExpiry calls now cacheType d key = .got (.ok v))
include h

/-- What is found has been set under the key, and is still there. -/
theorem own_of_outcome :
    ∃ expireAt, calls.foldl (Call.own redis defaultExpiry (entryKey d key)) none =
      some (some v, expireAt) ∧ Cache.expired now expireAt = false := by
  cases hstore : getCacheStoreByType redis (parseCacheType cacheType) with
  | redis =>
    rw [outcome_of_redis hstore] at h
    cases h
  | memory =>
    rw [outcome_of_memory hstore, Outcome.got.injEq] at h
    obtain ⟨expireAt, hfound, hlive⟩ := memoryReply_ok h
    refine ⟨expireAt, ?_, hlive⟩
    have hstored : (slotsOf redis size defaultExpiry calls).lookup (entryKey d key) = _ ∨ _ :=
      lookup_slotsOf calls
    rcases hstored with hown | hgone
    · rw [← hown, hfound]
    · rw [hgone.1] at hfound
      cases hfound

theorem lastSet_of_outcome :
    LastSet redis (fun x => x.domainId = d ∧ x.key = key) calls (some v) := by
  obtain ⟨expireAt, hown, -⟩ := own_of_outcome h
  simpa only [cacheKey_eq_iff] using lastSet_of_own calls hown

end

end Domains

/-- The domains are isolated from each other. A domain gets for a key what it has itself set last
for that key, or an error. Without the calls of another domain it gets the same, unless in one of
the two runs the entry has been evicted, and then it gets an error there. And no two domains share
a flight. -/
theorem isolated {α : Type} (redis : Bool) (size : Nat) (defaultExpiry : Int)
    (calls : List (Int × Call α)) (now : Int) (cacheType : String) {d e : Int} (hne : d ≠ e)
    (key : String) :
    let out := fun calls => outcome redis size defaultExpiry calls now cacheType d key
    let without := calls.filter fun x => x.2.domainId ≠ e
    (∀ v, out calls = .got (.ok v) →
        LastSet redis (fun x => x.domainId = d ∧ x.key = key) calls (some v)) ∧
      (out without = out calls ∨
        (∃ err, out calls = .got (.error err)) ∧
          Evicted redis (newLru size defaultExpiry) (entryKey d key) calls ∨
        (∃ err, out without = .got (.error err)) ∧
          Evicted redis (newLru size defaultExpiry) (entryKey d key) without) ∧
      ∀ t t' key', (formatKeys t "get" d key).1 ≠ (formatKeys t' "get" e key').1 := by
  intro out without
  have hstored : ∀ calls : List (Int × Call α),
      (slotsOf redis size defaultExpiry calls).lookup (entryKey d key) =
          calls.foldl (Call.own redis defaultExpiry (entryKey d key)) none ∨
        (slotsOf redis size defaultExpiry calls).lookup (entryKey d key) = none ∧
          Evicted redis (newLru size defaultExpiry) (entryKey d key) calls :=
    lookup_slotsOf
  refine ⟨fun v => lastSet_of_outcome, ?_, fun t t' key' => workerKey_ne hne key key'⟩
  · cases hstore : getCacheStoreByType redis (parseCacheType cacheType) with
    | redis =>
      left
      rw [show out calls = .redis from outcome_of_redis hstore]
      exact outcome_of_redis hstore
    | memory =>
      -- the other domain's calls are for other entries, so that only evictions can differ
      have hsame : without.foldl (Call.own redis defaultExpiry (entryKey d key)) none =
          calls.foldl (Call.own redis defaultExpiry (entryKey d key)) none := by
        refine own_filter calls (fun x hx hkey => hne ?_) none
        rw [← (cacheKey_eq_iff.mp hkey).1]
        simpa using hx
      have hout : ∀ calls, out calls = _ := fun calls => outcome_of_memory hstore
      rcases hstored calls with hown | ⟨hnone, hevicted⟩
      · rcases hstored without with hown' | ⟨hnone, hevicted⟩
        · left
          rw [hout, hout, hown, hown', hsame]
        · right; right
          rw [hout, hnone]
          exact ⟨⟨_, rfl⟩, hevicted⟩
      · right; left
        rw [hout, hnone]
        exact ⟨⟨_, rfl⟩, hevicted⟩

/-- Domain 1 sets a key, and domain 2 one that looks like it. -/
def lookalikes : List (Int × Call String) :=
  [(0, ⟨"memory", 1, "2.a", .set (some "one") 60⟩), (1, ⟨"", 12, "a", .set (some "two") 60⟩)]

/-- In a cache that is large enough, each of them gets its own value. -/
theorem isolated_lookalikes :
    outcome false 10 0 lookalikes 2 "memory" 1 "2.a" = .got (.ok "one") ∧
      LastSet false (fun x => x.domainId = 1 ∧ x.key = "2.a") lookalikes (some "one") := by
  have hout : outcome false 10 0 lookalikes 2 "memory" 1 "2.a" = .got (.ok "one") := rfl
  exact ⟨hout, (isolated false 10 0 lookalikes 2 "memory" (d := 1) (e := 12) (by decide)
    "2.a").1 "one" hout⟩

end FlowManager.FlowCache
