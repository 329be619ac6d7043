import FlowManager.Lib.RwMutex

/-!
# Exporting variables (DumpExportVariables of providers/fs, grpc and im)

`DumpExportVariables` looks up the variables to be exported, under the read lock of the connection.
On calls and gRPC connections the lookups take the read lock themselves, while it is held.

- `dumpExportVariables`: the operations on the lock, for each kind of connection.
- `dump_not_blocked_iff`: a writer in between blocks it for good, unless nothing is looked up.
-/

namespace FlowManager.Export

open RwMutex

/-- The kinds of connections, with what decides how often a lookup takes the lock: on calls, whether
a variable is found. -/
inductive Kind where
  | call (found : String → Bool)
  | grpc
  | im
  | processing

/-- The name before the first dot, unless the dot comes first -/
def root (key : String) : Option String :=
  let before := key.toList.takeWhile (· ≠ '.')
  if before ≠ [] ∧ before.length < key.length then some (String.ofList before) else none

/-- How often `Get` takes the read lock: by `Stopped`, or itself -/
def lookups (kind : Kind) (key : String) : Nat :=
  match kind with
  | .call found =>
    if key = "strepoch()" then 0
    else
      match root key with
      -- `c.get(root)`, and `c.get(key)` if there is no root
      | some r => if found r then 1 else 2
      | none => 1
  | .grpc => 1
  | .im => 0
  | .processing => 1

def reads (n : Nat) : List Op := (List.replicate n [Op.rLock, .rUnlock]).flatten

/-- `DumpExportVariables` -/
def dumpExportVariables (kind : Kind) (exported : List String) : List Op :=
  match kind with
  | .call _ | .grpc | .im =>
    .rLock :: ((exported.flatMap fun key => reads (lookups kind key)) ++ [.rUnlock])
  -- the names are copied under the lock, and looked up without it
  | .processing => .rLock :: .rUnlock :: exported.flatMap fun key => reads (lookups kind key)

/-- `Set`, `Export` and `setEvent` -/
def write : List Op := [.lock, .unlock]

/-- Nothing that is exported is looked up under the lock. -/
def Unread (exported : List String) : Kind → Prop
  | .call _ => ∀ key ∈ exported, key = "strepoch()"
  | .grpc => exported = []
  | .im | .processing => True

theorem flat_reads (n : Nat) (h : Flat 0 p) : Flat 0 (reads n ++ p) := by
  induction n with
  | zero => exact h
  | succ n ih => exact ⟨rfl, ih⟩

theorem flat_flatMap (f : String → Nat) (h : Flat 0 p) (keys : List String) :
    Flat 0 ((keys.flatMap fun key => reads (f key)) ++ p) := by
  induction keys with
  | nil => exact h
  | cons key keys ih =>
    rw [List.flatMap_cons, List.append_assoc]
    exact flat_reads _ ih

/-- The first thing that lookups do, if anything, is to read. -/
theorem flatMap_reads (f : String → Nat) (keys : List String) :
    (∀ key ∈ keys, f key = 0) ∧ (keys.flatMap fun key => reads (f key)) = [] ∨
      ∃ p, (keys.flatMap fun key => reads (f key)) = .rLock :: p := by
  induction keys with
  | nil => exact .inl ⟨nofun, rfl⟩
  | cons key keys ih =>
    rw [List.flatMap_cons]
    cases hf : f key with
    | zero => simpa [reads, hf] using ih
    | succ n => exact .inr ⟨_, rfl⟩

theorem lookups_call_eq_zero
    (h : lookups (.call found) key = 0) : key = "strepoch()" := by
  unfold lookups at h
  by_contra hne
  simp only [if_neg hne] at h
  split at h
  · split at h <;> cases h
  · cases h

/-- A thread that reads twice is blocked for good if a writer comes in between. -/
theorem blocked_of_nested (program : Nat → List Op)
    (hdump : program 0 = .rLock :: .rLock :: p) (hwrite : program 1 = write) :
    ∃ s, Relation.ReflTransGen Lock.Step (.new program) s ∧
      ∀ s', Relation.ReflTransGen Lock.Step s s' → s'.Blocked 0 := by
  have hread := Lock.Step.rLock (s := .new program) hdump rfl rfl
  refine ⟨_, (Relation.ReflTransGen.single hread).tail
    (.announce (t := 1) (p := [.unlock]) ?_ rfl rfl), ?_⟩
  · exact hwrite
  · exact fun s' => Lock.Blocked.run ⟨Nat.one_pos, rfl, p, rfl⟩

/-- `DumpExportVariables` never waits for a lock that is released only after it returns, with
whatever other threads, if and only if it looks nothing up under the lock. -/
theorem dump_not_blocked_iff (kind : Kind) (exported : List String) :
    (∀ (program : Nat → List Op) (s : Lock Nat), program 0 = dumpExportVariables kind exported →
      Relation.ReflTransGen Lock.Step (.new program) s → ¬ s.Blocked 0) ↔ Unread exported kind := by
  constructor
  · intro h
    -- the writer comes between the two reads
    have hnested : ∀ p, dumpExportVariables kind exported ≠ .rLock :: .rLock :: p := by
      intro p hp
      obtain ⟨s, hrun, hblocked⟩ := blocked_of_nested
        (fun t => if t = 0 then dumpExportVariables kind exported else write) hp rfl
      exact h _ s rfl hrun (hblocked s .refl)
    have hzero : ∀ kind' : Kind, (dumpExportVariables kind exported =
        .rLock :: ((exported.flatMap fun key => reads (lookups kind' key)) ++ [.rUnlock])) →
        ∀ key ∈ exported, lookups kind' key = 0 := by
      intro kind' hdump
      rcases flatMap_reads (lookups kind') exported with ⟨hzero, -⟩ | ⟨p, hp⟩
      · exact hzero
      · rw [hp] at hdump
        exact absurd hdump (hnested _)
    cases kind with
    | call found => exact fun key hkey => lookups_call_eq_zero (hzero (.call found) rfl key hkey)
    | grpc =>
      refine List.eq_nil_iff_forall_not_mem.mpr fun key hkey => ?_
      cases hzero .grpc rfl key hkey
    | im | processing => trivial
  · intro h program s hprogram
    refine Flat.not_blocked ?_
    rw [hprogram]
    have hflat : ∀ kind' : Kind, (∀ key ∈ exported, lookups kind' key = 0) →
        Flat 0 (.rLock :: ((exported.flatMap fun key => reads (lookups kind' key)) ++
          [.rUnlock])) := by
      intro kind' hzero
      rw [List.flatMap_eq_nil_iff.mpr fun key hkey => by rw [hzero key hkey]; rfl]
      exact ⟨rfl, trivial⟩
    cases kind with
    | call found => exact hflat (.call found) fun key hkey => by simp [lookups, h key hkey]
    | grpc => exact hflat .grpc (by rw [show exported = [] from h]; exact nofun)
    | im => exact hflat .im fun _ _ => rfl
    | processing =>
      refine ⟨rfl, show Flat 0 _ from ?_⟩
      simpa using flat_flatMap (lookups .processing) (p := []) trivial exported

/-- One exported variable, and a writer -/
theorem dump_blocked :
    ∃ s : Lock Nat, Relation.ReflTransGen Lock.Step
      (.new fun t => if t = 0 then dumpExportVariables .grpc ["a"] else write) s ∧
        ∀ s', Relation.ReflTransGen Lock.Step s s' → s'.Blocked 0 :=
  blocked_of_nested (p := [.rUnlock, .rUnlock]) _ rfl rfl

end FlowManager.Export
