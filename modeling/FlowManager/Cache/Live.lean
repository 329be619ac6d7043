import FlowManager.Cache.Lru

/-!
# What a cache is for

Seen from outside, a cache is a list of live entries: entries are used and forgotten in the order
of their use, and a purge clears the list. What the source keeps of older generations does not
show, since it always stands behind the live entries, and is evicted before them.

- `Slots`, `Op.slots`: the live entries, and the operations on them.
- `Refines`: a cache whose live entries are the given ones, with the older ones behind them.
- `Refines.step`: every operation of the cache is the one on its live entries.
- `purged_eq_new`: a purged cache cannot be told from a new one.
-/

namespace FlowManager.Lru

/-- The live entries: a value and when it expires, by key -/
abbrev Slots (K V : Type) := Recency K (V × Int)

section Slots

variable {K V : Type}

/-- An entry of generation `gen` -/
def entryOf (gen : Int) (x : Sigma fun _ : K => V × Int) : Entry K V := ⟨x.1, x.2.1, x.2.2, gen⟩

/-- The live entries of the cache are `s`, and what is left of older generations is behind. -/
structure Refines (size : Nat) (defaultExpiry : Int) (c : Cache K V) (s : Slots K V) : Prop where
  valid : Valid c
  size : c.size = size
  defaultExpiry : c.defaultExpiry = defaultExpiry
  entries : ∃ stale, c.entries = s.entries.map (entryOf c.currentGeneration) ++ stale ∧
    ∀ e ∈ stale, e.generation ≠ c.currentGeneration

variable {size : Nat} {defaultExpiry : Int} {c c' : Cache K V} {s s' : Slots K V} {k : K}

theorem refines_new (size : Nat) (defaultExpiry : Int) :
    Refines size defaultExpiry (newLru size defaultExpiry : Cache K V) ∅ :=
  ⟨valid_newLru size defaultExpiry, rfl, rfl, [], rfl, fun _ he => absurd he List.not_mem_nil⟩

/-- Nothing is live after a purge. -/
theorem Valid.refines_purge (h : Valid c) : Refines c.size c.defaultExpiry c.purge ∅ := by
  refine ⟨h.purge, rfl, rfl, c.entries, rfl, fun e he => ?_⟩
  have hle := h.generation e he
  show e.generation ≠ c.currentGeneration + 1
  omega

theorem Refines.live (h : Refines size defaultExpiry c s) :
    c.live = s.entries.map (entryOf c.currentGeneration) := by
  obtain ⟨stale, hentries, hstale⟩ := h.entries
  have hnone : stale.filter (·.generation = c.currentGeneration) = [] :=
    List.filter_eq_nil_iff.mpr fun e he => by simpa using hstale e he
  unfold Cache.live
  rw [hentries, List.filter_append, hnone, List.append_nil, List.filter_eq_self]
  intro e he
  obtain ⟨x, -, rfl⟩ := List.mem_map.mp he
  exact decide_eq_true rfl

theorem Refines.keys (h : Refines size defaultExpiry c s) : c.live.map Entry.key = s.keys := by
  rw [h.live, List.map_map]
  rfl

variable [DecidableEq K]

/-- The value that is found for a key at a time -/
def Slots.found (s : Slots K V) (now : Int) (k : K) : Option (V × Int) :=
  (s.lookup k).filter fun x => !Cache.expired now x.2

/-- A read uses the entry, or leaves none for the key. -/
def Slots.get (size : Nat) (now : Int) (s : Slots K V) (k : K) : Slots K V × Option V :=
  match s.found now k with
  | some x => (s.use size k x, some x.1)
  | none => (s.erase k, none)

/-- An operation on the live entries of a cache of the given size -/
def Op.slots (size : Nat) (defaultExpiry now : Int) (s : Slots K V) :
    Op K V → Slots K V × Answer K V
  | .add k v => (s.use size k (v, Cache.expiry now 0), .done)
  | .addWithDefaultExpires k v => (s.use size k (v, Cache.expiry now defaultExpiry), .done)
  | .addWithExpiresInSecs k v secs => (s.use size k (v, Cache.expiry now secs), .done)
  | .get k => ((s.get size now k).1, .got (s.get size now k).2)
  | .remove k => (s.erase k, .done)
  | .purge => (∅, .done)
  | .keys => (s, .keys (.ok (s.keys.reverse.map some)))
  | .len => (s, .len s.keys.length)

section

variable (h : Refines size defaultExpiry c s)
include h

/-- A live entry is one of the list. -/
theorem Refines.mem_live : e ∈ c.live ↔ s.lookup e.key = some (e.value, e.expireAtSecs) ∧
      e.generation = c.currentGeneration := by
  rw [h.live, List.mem_map, ← Option.mem_def, AList.mem_lookup_iff]
  constructor
  · rintro ⟨x, hx, rfl⟩
    exact ⟨hx, rfl⟩
  · rintro ⟨hmem, hgen⟩
    refine ⟨_, hmem, ?_⟩
    rw [entryOf, ← hgen]

/-- Taking out the entry of a key, in the whole list -/
theorem Refines.filter (k : K) : ∃ stale, c.entries.filter (·.key ≠ k) =
      (s.erase k).entries.map (entryOf c.currentGeneration) ++ stale ∧
        ∀ e ∈ stale, e.generation ≠ c.currentGeneration := by
  obtain ⟨stale, hentries, hstale⟩ := h.entries
  refine ⟨stale.filter (·.key ≠ k), ?_, fun e he => hstale e (List.mem_of_mem_filter he)⟩
  rw [hentries, List.filter_append, List.filter_map, Recency.entries_erase]
  rfl

theorem Refines.erase (hvalid : Valid c') (hframe : Frame c c')
    (hentries : c'.entries = c.entries.filter (·.key ≠ k)) :
    Refines size defaultExpiry c' (s.erase k) := by
  refine ⟨hvalid, hframe.size.trans h.size, hframe.defaultExpiry.trans h.defaultExpiry, ?_⟩
  rw [hentries, hframe.currentGeneration]
  exact h.filter k

/-- A live entry in front; what no longer fits is at the back. -/
theorem Refines.use (hvalid : Valid c') (hframe : Frame c c')
    (hentries : c'.entries = (⟨k, v, expireAtSecs, c.currentGeneration⟩ ::
      c.entries.filter (·.key ≠ k)).take n) :
    Refines size defaultExpiry c' (s.use n k (v, expireAtSecs)) := by
  refine ⟨hvalid, hframe.size.trans h.size, hframe.defaultExpiry.trans h.defaultExpiry, ?_⟩
  obtain ⟨stale, hfilter, hstale⟩ := h.filter k
  rw [hentries, hframe.currentGeneration, hfilter]
  show ∃ stale, _ = ((s.insert k (v, expireAtSecs)).entries.take n).map _ ++ stale ∧ _
  rw [Recency.entries_insert, ← Recency.entries_erase, ← List.cons_append, List.take_append,
    List.map_take]
  exact ⟨_, rfl, fun e he => hstale e (List.mem_of_mem_take he)⟩

theorem Refines.add (now : Int) (k : K) (v : V) (secs : Int) :
    Refines size defaultExpiry (c.addWithExpiresInSecs now k v secs)
      (s.use size k (v, Cache.expiry now secs)) := by
  obtain ⟨hvalid, hentries⟩ := h.valid.addWithExpiresInSecs now k v secs
  rw [h.size] at hentries
  exact h.use hvalid (frame_addWithExpiresInSecs c now k v secs) hentries

theorem Refines.get (now : Int) (k : K) :
    Refines size defaultExpiry (c.get now k).1 (s.get size now k).1 ∧
      (c.get now k).2 = (s.get size now k).2 := by
  obtain ⟨hvalid, hcases⟩ := h.valid.get now k
  have hframe := frame_get c now k
  unfold Slots.get Slots.found
  rcases hcases with ⟨e, he, rfl, hlive, hgot, hentries⟩ | ⟨hnone, hgot, hentries⟩
  · obtain ⟨hlookup, hgen⟩ := h.mem_live.mp he
    rw [hlookup, Option.filter_some, if_pos (by rw [hlive]; rfl), hgot]
    refine ⟨h.use hvalid hframe ?_, rfl⟩
    have hfits := hvalid.bounded
    rw [hframe.size, h.size, hentries] at hfits
    rw [hentries, ← hgen, List.take_of_length_le hfits]
  · have hfound : (s.lookup k).filter (fun x => !Cache.expired now x.2) = none := by
      refine Option.filter_eq_none_iff.mpr fun x hx => ?_
      have hexpired := hnone ⟨k, x.1, x.2, c.currentGeneration⟩ (h.mem_live.mpr ⟨hx, rfl⟩) rfl
      rw [hexpired]
      nofun
    rw [hfound, hgot]
    exact ⟨h.erase hvalid hframe hentries, rfl⟩

/-- Every operation of the cache is the one on its live entries, with the same answer. -/
theorem Refines.step (now : Int) (op : Op K V) :
    Refines size defaultExpiry (step c now op).1 (op.slots size defaultExpiry now s).1 ∧
      (Lru.step c now op).2 = (op.slots size defaultExpiry now s).2 := by
  cases op with
  | add k v => exact ⟨h.add now k v 0, rfl⟩
  | addWithDefaultExpires k v =>
    have hadd := h.add now k v c.defaultExpiry
    rw [h.defaultExpiry] at hadd
    refine ⟨?_, rfl⟩
    show Refines size defaultExpiry (c.addWithExpiresInSecs now k v c.defaultExpiry) _
    rw [h.defaultExpiry]
    exact hadd
  | addWithExpiresInSecs k v secs => exact ⟨h.add now k v secs, rfl⟩
  | get k =>
    obtain ⟨hrefines, hgot⟩ := h.get now k
    exact ⟨hrefines, congrArg Answer.got hgot⟩
  | remove k =>
    obtain ⟨hvalid, hentries⟩ := h.valid.remove k
    exact ⟨h.erase hvalid (frame_remove c k) hentries, rfl⟩
  | purge =>
    have hpurge := h.valid.refines_purge
    rw [h.size, h.defaultExpiry] at hpurge
    exact ⟨hpurge, rfl⟩
  | keys =>
    refine ⟨h, congrArg Answer.keys ?_⟩
    rw [h.valid.keys, h.keys]
  | len =>
    refine ⟨h, congrArg Answer.len ?_⟩
    rw [h.valid.len, ← h.keys, List.length_map]

end

/-- A sequence of operations on the live entries -/
def Slots.run (size : Nat) (defaultExpiry : Int) (s : Slots K V) : History K V → Slots K V
  | [] => s
  | (now, op) :: h => Slots.run size defaultExpiry (op.slots size defaultExpiry now s).1 h

def Slots.answers (size : Nat) (defaultExpiry : Int) (s : Slots K V) :
    History K V → List (Answer K V)
  | [] => []
  | (now, op) :: h =>
    (op.slots size defaultExpiry now s).2 ::
      Slots.answers size defaultExpiry (op.slots size defaultExpiry now s).1 h

theorem Slots.run_append (h h' : History K V) : ∀ s : Slots K V,
    s.run size defaultExpiry (h ++ h') =
      (s.run size defaultExpiry h).run size defaultExpiry h' := by
  induction h with
  | nil => exact fun _ => rfl
  | cons x h ih => exact fun s => ih _

theorem Refines.run (h : History K V) : ∀ {c : Cache K V} {s : Slots K V},
    Refines size defaultExpiry c s →
      Refines size defaultExpiry (run c h) (s.run size defaultExpiry h) ∧
        answers c h = s.answers size defaultExpiry h := by
  induction h with
  | nil => exact fun hc => ⟨hc, rfl⟩
  | cons x h ih =>
    intro c s hc
    obtain ⟨now, op⟩ := x
    obtain ⟨hstep, hanswer⟩ := hc.step now op
    obtain ⟨hrun, hanswers⟩ := ih hstep
    refine ⟨hrun, ?_⟩
    rw [answers, hanswer, hanswers]
    rfl

end Slots

/-! ## What is stored under a key -/

section Own

variable {K V : Type} [DecidableEq K] {size : Nat} {defaultExpiry now : Int} {s : Slots K V}
  {k : K} {op : Op K V}

/-- What would be stored under `k` after an operation if nothing were ever evicted. -/
def Op.own (defaultExpiry now : Int) (k : K) (own : Option (V × Int)) : Op K V → Option (V × Int)
  | .add key v => if key = k then some (v, Cache.expiry now 0) else own
  | .addWithDefaultExpires key v =>
    if key = k then some (v, Cache.expiry now defaultExpiry) else own
  | .addWithExpiresInSecs key v secs => if key = k then some (v, Cache.expiry now secs) else own
  | .get key => if key = k then own.filter (fun x => !Cache.expired now x.2) else own
  | .remove key => if key = k then none else own
  | .purge => none
  | .keys => own
  | .len => own

/-- The key that an operation adds -/
def Op.added : Op K V → Option K
  | .add key _ => some key
  | .addWithDefaultExpires key _ => some key
  | .addWithExpiresInSecs key _ _ => some key
  | _ => none

theorem Op.own_added (h : op.added = some k) (own own' : Option (V × Int)) :
    op.own defaultExpiry now k own = op.own defaultExpiry now k own' := by
  cases op <;> cases h <;> simp only [Op.own, if_true]

theorem Op.own_none (h : op.added ≠ some k) : op.own defaultExpiry now k none = none := by
  cases op with
  | add k' v | addWithDefaultExpires k' v | addWithExpiresInSecs k' v secs =>
    exact if_neg fun hk => h (congrArg some hk)
  | get k' | remove k' => exact ite_self _
  | purge | keys | len => rfl

/-- Adding an entry of key `k'` stores it, or evicts: maybe the entry itself, if nothing fits. -/
theorem lookup_use (k' : K) (x : V × Int) :
    (s.use size k' x).lookup k = (if k' = k then some x else s.lookup k) ∨
      (s.use size k' x).lookup k = none ∧ (k' = k ∨ k ∈ s) := by
  by_cases hk : k' = k
  · subst hk
    rw [if_pos rfl]
    cases size with
    | zero => exact .inr ⟨rfl, .inl rfl⟩
    | succ n => exact .inl (Recency.lookup_use_self (Nat.succ_pos n))
  · rw [if_neg hk]
    cases huse : (s.use size k' x).lookup k with
    | some y => exact .inl (Recency.lookup_use_ne (Ne.symm hk) huse).symm
    | none =>
      cases hs : s.lookup k with
      | none => exact .inl rfl
      | some y => exact .inr ⟨rfl, .inr (AList.lookup_isSome.mp (by rw [hs]; rfl))⟩

/-- Reading does not evict. -/
theorem lookup_get (hs : s.keys.length ≤ size) (k' : K) :
    (s.get size now k').1.lookup k =
      if k' = k then (s.lookup k).filter (fun x => !Cache.expired now x.2) else s.lookup k := by
  unfold Slots.get
  cases hfound : s.found now k' with
  | none =>
    by_cases hk : k' = k
    · subst hk
      rw [if_pos rfl, AList.lookup_erase]
      exact hfound.symm
    · rw [if_neg hk, AList.lookup_erase_ne (Ne.symm hk)]
  | some x =>
    have hx : s.lookup k' = some x := (Option.filter_eq_some_iff.mp hfound).1
    have hmem : k' ∈ s.keys := AList.mem_keys.mp (AList.lookup_isSome.mp (by rw [hx]; rfl))
    have hlength : (s.insert k' x).keys.length ≤ size := by
      rw [AList.keys_insert, List.length_cons, List.length_erase_of_mem hmem]
      have := List.length_pos_of_mem hmem
      omega
    dsimp only [Recency.use]
    rw [Recency.trim_eq hlength]
    by_cases hk : k' = k
    · subst hk
      rw [if_pos rfl, AList.lookup_insert]
      exact hfound.symm
    · rw [if_neg hk, AList.lookup_insert_ne (Ne.symm hk)]

/-- What is stored is what would be stored, unless an entry is added and that of `k` evicted. -/
theorem lookup_slots (op : Op K V) (defaultExpiry now : Int) (k : K) (hs : s.keys.length ≤ size) :
    (op.slots size defaultExpiry now s).1.lookup k = op.own defaultExpiry now k (s.lookup k) ∨
      (op.slots size defaultExpiry now s).1.lookup k = none ∧
        ∃ k', op.added = some k' ∧ (k' = k ∨ k ∈ s) := by
  have hadd : ∀ (k' : K) (x : V × Int), op.added = some k' →
      (s.use size k' x).lookup k = (if k' = k then some x else s.lookup k) ∨
        (s.use size k' x).lookup k = none ∧ ∃ k', op.added = some k' ∧ (k' = k ∨ k ∈ s) := by
    intro k' x hadded
    exact (lookup_use k' x).imp_right fun h => ⟨h.1, k', hadded, h.2⟩
  cases op with
  | add k' v | addWithDefaultExpires k' v => exact hadd k' _ rfl
  | addWithExpiresInSecs k' v secs => exact hadd k' _ rfl
  | get k' => exact .inl (lookup_get hs k')
  | remove k' =>
    left
    show (s.erase k').lookup k = if k' = k then none else s.lookup k
    by_cases hk : k' = k
    · subst hk
      rw [if_pos rfl, AList.lookup_erase]
    · rw [if_neg hk, AList.lookup_erase_ne (Ne.symm hk)]
  | purge | keys | len => exact .inl rfl

end Own

theorem Refines.bounded {K V : Type} {size : Nat} {defaultExpiry : Int} {c : Cache K V}
    {s : Slots K V} (h : Refines size defaultExpiry c s) : s.keys.length ≤ size := by
  rw [← h.keys, List.length_map, ← h.size]
  exact le_trans (List.length_filter_le _ _) h.valid.bounded

theorem Refines.mem_keys {K V : Type} [DecidableEq K] {size : Nat} {defaultExpiry : Int}
    {c : Cache K V} {s : Slots K V} (h : Refines size defaultExpiry c s) {k : K} :
    k ∈ c.live.map Entry.key ↔ (s.lookup k).isSome := by
  rw [h.keys, AList.lookup_isSome]
  rfl

/-- What is read of a cache is a live entry that is not too old. -/
theorem Refines.get_eq_some {K V : Type} [DecidableEq K] {size : Nat} {defaultExpiry now : Int}
    {c : Cache K V} {s : Slots K V} (h : Refines size defaultExpiry c s) {k : K} {v : V} :
    (c.get now k).2 = some v ↔
      ∃ secs, s.lookup k = some (v, secs) ∧ Cache.expired now secs = false := by
  rw [(h.get now k).2]
  unfold Slots.get Slots.found
  cases s.lookup k with
  | none => simp
  | some x =>
    rw [Option.filter_some]
    cases hexpired : Cache.expired now x.2 with
    | true =>
      refine iff_of_false nofun ?_
      rintro ⟨secs, hlookup, hfresh⟩
      cases hlookup
      rw [hfresh] at hexpired
      cases hexpired
    | false =>
      constructor
      · intro h
        cases h
        exact ⟨x.2, rfl, hexpired⟩
      · rintro ⟨secs, hlookup, -⟩
        cases hlookup
        rfl

/-- A fact about the live entries, after an operation that keeps to it -/
theorem Refines.step_keeps {K V : Type} [DecidableEq K] {size : Nat} {defaultExpiry : Int}
    {c : Cache K V} {s : Slots K V} (h : Refines size defaultExpiry c s) (now : Int) (op : Op K V)
    {P : K → V → Int → Prop}
    (hown : ∀ k v secs, op.own defaultExpiry now k (s.lookup k) = some (v, secs) → P k v secs) :
    ∃ s', Refines size defaultExpiry (Lru.step c now op).1 s' ∧
      ∀ k v secs, s'.lookup k = some (v, secs) → P k v secs := by
  refine ⟨_, (h.step now op).1, fun k v secs hlookup => ?_⟩
  rcases lookup_slots op defaultExpiry now k h.bounded with heq | ⟨hnone, -⟩
  · rw [heq] at hlookup
    exact hown k v secs hlookup
  · rw [hnone] at hlookup
    cases hlookup

/-- The live entries of a cache, as they are seen: key, value and when it expires -/
def Cache.seen {K V : Type} (c : Cache K V) : List (K × V × Int) :=
  c.live.map fun e => (e.key, e.value, e.expireAtSecs)

theorem Refines.seen {K V : Type} {size : Nat} {defaultExpiry : Int} {c : Cache K V}
    {s : Slots K V} (h : Refines size defaultExpiry c s) :
    c.seen = s.entries.map fun x => (x.1, x.2.1, x.2.2) := by
  unfold Cache.seen
  rw [h.live, List.map_map]
  rfl

/-- A purged cache cannot be told from a new one: whatever has happened before, all operations that
follow get the same answers, and the same entries are live after them. -/
theorem purged_eq_new {K V : Type} [DecidableEq K] (size : Nat) (defaultExpiry : Int)
    (before after : History K V) :
    let purged := (run (newLru size defaultExpiry : Cache K V) before).purge
    let new : Cache K V := newLru size defaultExpiry
    answers purged after = answers new after ∧ (run purged after).seen = (run new after).seen := by
  intro purged new
  have hvalid := (Valid.run before [] (valid_newLru size defaultExpiry) (List.Sublist.refl _)).1
  have hpurged := hvalid.refines_purge
  obtain ⟨hsize, hexpiry⟩ := run_size before (newLru size defaultExpiry : Cache K V)
  rw [hsize, hexpiry] at hpurged
  obtain ⟨hrun, hanswers⟩ := hpurged.run after
  obtain ⟨hrun', hanswers'⟩ := (refines_new size defaultExpiry).run after
  exact ⟨hanswers.trans hanswers'.symm, hrun.seen.trans hrun'.seen.symm⟩

/-- The cache refines its live entries: after any operations it answers like them, so that neither
the map and the pointers nor what a purge has left behind ever show. -/
theorem answers_eq_slots {K V : Type} [DecidableEq K] (size : Nat) (defaultExpiry : Int)
    (h : History K V) :
    answers (newLru size defaultExpiry) h = Slots.answers size defaultExpiry ∅ h :=
  ((refines_new size defaultExpiry).run h).2

end FlowManager.Lru
