import FlowManager.Im.Stages

/-!
# Several nodes (store/pg_store/session.go)

Every node runs the listener and its dialogs, and all of them share the table
`flow.session`. Every node receives the same events in the same order, at its own pace.

A row of the table says which node may run a session. It is taken by `Touch`, and it is
deleted by `stopConnection`, but also by whichever node comes to know first that the client
has left, and by a node that stops.

- `Sessions`: the table, with the statements of its store.
- `ClusterStep`: a node moves, or deletes its rows because it stops.
- `Holds`, `Claims`: a node has a dialog that is not terminating, or is about to make one.
- `Orderly`: a row is deleted only if its owner does neither, and no connection is suspended
  or resumed that is terminating.
- `exclusive_of_orderly`: in an orderly run, no two nodes hold a dialog of one session.
-/

namespace FlowManager.Im

open Concurrent Function

/-! ## The session table -/

/-- A row of `flow.session`, but for its id -/
structure Session (N : Type) where
  appID : N
  seq : Nat

/-- `flow.session` -/
abbrev Sessions (N : Type) := String → Option (Session N)

/-- A part of a pattern of `LIKE` -/
inductive Glob where
  | many
  | one
  | char (c : Char)

/-- The parts of a pattern -/
def globs : List Char → List Glob
  | [] => []
  | '\\' :: c :: pattern => .char c :: globs pattern
  | '%' :: pattern => .many :: globs pattern
  | '_' :: pattern => .one :: globs pattern
  | c :: pattern => .char c :: globs pattern

/-- `LIKE` -/
def like : List Glob → List Char → Bool
  | [], text => text.isEmpty
  | .many :: pattern, text => text.tails.any (like pattern)
  | .one :: _, [] => false
  | .one :: pattern, _ :: text => like pattern text
  | .char _ :: _, [] => false
  | .char c :: pattern, d :: text => decide (c = d) && like pattern text

namespace Sessions

variable {N : Type} [DecidableEq N]

/-- `Touch`: a row that is new or the node's own is returned, and no other. -/
def touch (t : Sessions N) (id : String) (n : N) : Option Nat × Sessions N :=
  match t id with
  | none => (some 1, update t id (some ⟨n, 1⟩))
  | some row =>
    if row.appID = n then (some (row.seq + 1), update t id (some ⟨n, row.seq + 1⟩))
    else (none, t)

/-- The rows that match are deleted. -/
def delete (t : Sessions N) (match_ : String → Session N → Bool) : Sessions N :=
  fun id => (t id).filter fun row => !match_ id row

/-- `Remove` -/
def remove (t : Sessions N) (id : String) (n : N) : Sessions N :=
  t.delete fun id' row => decide (id' = id ∧ row.appID = n)

/-- `RemoveByThread` -/
def removeByThread (t : Sessions N) (threadID : String) : Sessions N :=
  if threadID = "" then t
  else t.delete fun id _ => like (globs (threadID ++ ".%").toList) id.toList

/-- `RemoveAll` -/
def removeAll (t : Sessions N) (n : N) : Sessions N :=
  t.delete fun _ row => decide (row.appID = n)

/-- What the node `n` is answered; `Touch` may also fail. -/
def answer {E : Type} (t : Sessions N) (n : N) (w : Outside E) : Outside E :=
  { w with touch := fun id =>
      match w.touch id with
      | .error e => .error e
      | .ok _ => .ok (t.touch id n).1 }

/-- The table after an access of the node `n`. -/
def after {E : Type} (t : Sessions N) (n : N) (w : Outside E) : Op → Sessions N
  | .touch id =>
    match w.touch id with
    | .error _ => t
    | .ok _ => (t.touch id n).2
  | .removeSession id => t.remove id n
  | .removeByThread threadID => t.removeByThread threadID
  | _ => t

end Sessions

/-- The access may delete rows. -/
def Op.deletesRows : Op → Bool
  | .removeSession _ => true
  | .removeByThread _ => true
  | _ => false

namespace Sessions

variable {N : Type}

/-- The row of the session is the node's. -/
def Owns (t : Sessions N) (n : N) (id : String) : Prop := ∃ row, t id = some row ∧ row.appID = n

variable {t : Sessions N} {n n' : N} {id id' : String}

/-- A session has one owner. -/
theorem Owns.unique (h : t.Owns n id) (h' : t.Owns n' id) : n = n' := by
  obtain ⟨row, hrow, rfl⟩ := h
  obtain ⟨row', hrow', rfl⟩ := h'
  rw [hrow] at hrow'
  rw [Option.some.inj hrow']

/-- A row is deleted or stays as it is. -/
theorem Owns.delete (h : t.Owns n id) {match_ : String → Session N → Bool}
    (hkept : t.delete match_ id ≠ none) : (t.delete match_).Owns n id := by
  obtain ⟨row, hrow, hn⟩ := h
  obtain ⟨row', hrow'⟩ := Option.ne_none_iff_exists'.mp hkept
  refine ⟨row', hrow', ?_⟩
  rw [Sessions.delete, hrow, Option.filter_eq_some_iff] at hrow'
  rw [← Option.some.inj hrow'.1]
  exact hn

theorem owns_update (t : Sessions N) (n : N) (id : String) (seq : Nat) :
    Sessions.Owns (update t id (some ⟨n, seq⟩)) n id :=
  ⟨_, update_self .., rfl⟩

theorem Owns.update (h : t.Owns n id) (hid : id ≠ id') (row : Session N) :
    Sessions.Owns (update t id' (some row)) n id := by
  obtain ⟨row', hrow', hn⟩ := h
  exact ⟨row', (update_of_ne hid ..).trans hrow', hn⟩

variable [DecidableEq N]

/-- Whoever is answered owns the session. -/
theorem owns_of_touch (h : (t.touch id n).1 = some seq) : (t.touch id n).2.Owns n id := by
  unfold touch at h ⊢
  cases hrow : t id with
  | none => exact owns_update ..
  | some row =>
    simp only [hrow] at h ⊢
    split at h
    · rename_i hn
      rw [if_pos hn]
      exact owns_update ..
    · cases h

/-- Nobody loses a session by a `Touch`. -/
theorem Owns.touch (h : t.Owns n id) : (t.touch id' n').2.Owns n id := by
  unfold Sessions.touch
  by_cases hid : id = id'
  · subst hid
    obtain ⟨row, hrow, rfl⟩ := h
    simp only [hrow]
    split
    · rename_i hn
      rw [hn]
      exact owns_update ..
    · exact ⟨row, hrow, rfl⟩
  · cases hrow : t id' with
    | none => exact h.update hid _
    | some row =>
      simp only
      split
      · exact h.update hid _
      · exact h

/-- Only the two statements for it delete rows. -/
theorem Owns.kept {E : Type} {w : Outside E} (h : t.Owns n id)
    (ha : a.deletesRows = false) : (t.after n' w a).Owns n id := by
  cases a with
  | touch id' =>
    simp only [Sessions.after]
    cases w.touch id' with
    | error => exact h
    | ok => exact h.touch
  | removeSession | removeByThread => cases ha
  | _ => exact h

/-- A session is lost only if its row is deleted. -/
theorem Owns.after {E : Type} {w : Outside E} (h : t.Owns n id)
    (hkept : t.after n' w a id ≠ none) : (t.after n' w a).Owns n id := by
  cases a with
  | removeSession id' => exact h.delete hkept
  | removeByThread threadID =>
    simp only [Sessions.after, Sessions.removeByThread] at hkept ⊢
    by_cases hthread : threadID = ""
    · simpa only [hthread, if_true] using h
    · simp only [hthread, if_false] at hkept ⊢
      exact h.delete hkept
  | _ => exact h.kept rfl

end Sessions

/-! ## The cluster -/

/-- The nodes and their table -/
structure Cluster (N : Type) where
  node : N → ServerPool
  sessions : Sessions N
  /-- how many events each node has received -/
  received : N → Nat

/-- What happens in a step. -/
inductive ClusterEvent (N : Type) where
  | node (n : N) (e : Concurrent.Event Thread Op)
  | removeAll (n : N)

section Cluster

variable {N : Type} [DecidableEq N]

/-- The node `n` goes on with `s`. -/
def Cluster.set (C : Cluster N) (n : N) (s : ServerPool) (t : Sessions N) : Cluster N where
  node := update C.node n s
  sessions := t
  received := C.received

/-- The node `n` has received one more event. -/
def Cluster.receive (C : Cluster N) (n : N) : Cluster N :=
  { C with received := update C.received n (C.received n + 1) }

/-- All nodes have just been started. -/
def Cluster.init (N : Type) : Cluster N where
  node _ := atStart Server.init
  sessions _ := none
  received _ := 0

/-- The steps, if `log` are the events of the exchange: each node handles them in this order. -/
inductive ClusterStep (E : Type) (log : Nat → Event) :
    Cluster N → ClusterEvent N → Cluster N → Prop where
  | act {C : Cluster N} {n : N} {t : Thread} {a : Op} {k : a.Result → Go Label} {w : Outside E}
      {r : a.Result} {m : Server} (ht : (C.node n).thread t = .act a k)
      (hexec : exec (C.sessions.answer n w) a (C.node n).shared = some (r, m)) :
      ClusterStep E log C (.node n (.act t a))
        (C.set n ((C.node n).set t m (k r)) (C.sessions.after n w a))
  | receive {C : Cluster N} {n : N} {t : Thread} {w : Outside E}
      (ht : (C.node n).thread t = .ret .listen) (hevent : w.event = log (C.received n)) :
      ClusterStep E log C (.node n (.next t))
        ((C.set n ((C.node n).set t (C.node n).shared (do listen w.event; return .listen))
          C.sessions).receive n)
  | next {C : Cluster N} {n : N} {t : Thread} {l : Label} {p : Go Label}
      (ht : (C.node n).thread t = .ret l) (hcode : l.code = some p) (w : Outside E) :
      ClusterStep E log C (.node n (.next t))
        (C.set n ((C.node n).set t (C.node n).shared p) C.sessions)
  | env {C : Cluster N} {n : N} {m : Server} (henv : Env (C.node n).shared m) :
      ClusterStep E log C (.node n .env) (C.set n { C.node n with shared := m } C.sessions)
  /-- `Start` and `Stop` -/
  | removeAll {C : Cluster N} {n : N} :
      ClusterStep E log C (.removeAll n) { C with sessions := C.sessions.removeAll n }

variable {E : Type} {log : Nat → Event} {C C' : Cluster N} {n n' : N}
  {e : Concurrent.Event Thread Op}

theorem Cluster.set_self (C : Cluster N) (n : N) (s : ServerPool) (t : Sessions N) :
    (C.set n s t).node n = s := update_self ..

theorem Cluster.set_of_ne (C : Cluster N) (hn : n' ≠ n) (s : ServerPool) (t : Sessions N) :
    (C.set n s t).node n' = C.node n' := update_of_ne hn ..

/-- A step of a node is one of its own goroutines, and leaves the other nodes alone. -/
theorem ClusterStep.project (h : ClusterStep E log C (.node n e) C') :
    Step (dialogs E) (C.node n) e (C'.node n) ∧ ∀ n' ≠ n, C'.node n' = C.node n' := by
  cases h with
  | act ht hexec =>
    rw [Cluster.set_self]
    exact ⟨.act ht hexec, fun _ hn => C.set_of_ne hn ..⟩
  | @receive _ t w ht hevent =>
    simp only [Cluster.receive]
    rw [Cluster.set_self]
    exact ⟨.next (w := w) ht rfl, fun _ hn => C.set_of_ne hn ..⟩
  | @next _ t l p ht hcode w =>
    rw [Cluster.set_self]
    refine ⟨.next (w := w) ht ?_, fun _ hn => C.set_of_ne hn ..⟩
    cases l with
    | listen | exit => cases hcode
    | park c => exact hcode
  | env henv =>
    rw [Cluster.set_self]
    exact ⟨.env henv, fun _ hn => C.set_of_ne hn ..⟩

end Cluster

/-! ## Dialogs and claims -/

/-- The listener is about to make a connection for the session. -/
def Claims (id : String) (s : ServerPool) : Prop :=
  ∃ bot nested k, s.thread .listener = .act (.dial id bot nested) k

/-- The connection has not been made: it is not stored, it neither waits for the schema runner
nor is going to, and its goroutine has not started. -/
structure Unmade (c : Ptr) (s : ServerPool) : Prop where
  stored : s.shared.store.lookup c.id ≠ some c.gen
  announced : ∀ k, s.thread .listener ≠ .act (.consume c) k
  waiting : c ∉ s.shared.consume
  started : s.thread (.runner c) = handle c

/-- The node has a dialog of the session that is not terminating. -/
def Holds (id : String) (s : ServerPool) : Prop :=
  ∃ gen, ¬ Unmade ⟨id, gen⟩ s ∧ (s.shared.conns ⟨id, gen⟩).state ≠ .terminating

section Node

variable {E : Type} {s s' : ServerPool} {e : Concurrent.Event Thread Op} {c : Ptr} {w : Outside E}
  {a : Op} {r : a.Result} {m : Server}

/-- A connection is stored anew only when it is made. -/
theorem stored_of_exec {s m : Server} (h : exec w a s = some (r, m))
    (hstored : m.store.lookup c.id = some c.gen) :
    s.store.lookup c.id = some c.gen ∨ ∃ bot nested, a = .dial c.id bot nested := by
  cases a with
  | dial id bot nested =>
    cases h
    by_cases hid : c.id = id
    · exact Or.inr ⟨bot, nested, by rw [hid]⟩
    · exact Or.inl ((AList.lookup_insert_ne hid).symm.trans hstored)
  | consume d =>
    rw [exec_consume h] at hstored
    exact Or.inl hstored
  | _ =>
    have hmade := exec_made_eq h nofun
    rcases (exec_grows h nofun).stored _ _ hstored with hold | ⟨-, hlt⟩
    · exact Or.inl hold
    · omega

/-- A dialog waits for the schema runner only after it was dispatched. -/
theorem consume_of_exec {s m : Server} (h : exec w a s = some (r, m)) (hmem : c ∈ m.consume) :
    c ∈ s.consume ∨ a = .consume c := by
  cases a with
  | consume d =>
    rw [exec_consume h] at hmem
    rcases List.mem_append.mp hmem with hmem | hmem
    · exact Or.inl hmem
    · rw [List.mem_singleton.mp hmem]
      exact Or.inr rfl
  | take d =>
    obtain ⟨rest, hconsume, rfl⟩ := exec_take h
    rw [hconsume]
    exact Or.inl (List.mem_cons_of_mem _ hmem)
  | route d ctx =>
    obtain ⟨_, _, -, -, rfl⟩ := exec_route h
    exact Or.inl hmem
  | awaitResume d => rcases exec_awaitResume h with ⟨-, -, rfl⟩ | ⟨-, -, rfl⟩ <;> exact Or.inl hmem
  | returnFromQueue d => rcases exec_returnFromQueue h with rfl | ⟨n, rfl⟩ <;> exact Or.inl hmem
  | _ =>
    cases h
    exact Or.inl hmem

theorem dials_of_act (h : Staged s) {t : Thread} {id : String}
    {k : Nat → Go Label} (ht : s.thread t = .act (.dial id bot nested) k) : Claims id s := by
  cases t with
  | listener => exact ⟨bot, nested, k, ht⟩
  | runner c =>
    obtain ⟨st, hkeeping, -⟩ := h.runner c
    rw [ht] at hkeeping
    obtain ⟨st', hruns, -⟩ := hkeeping 0
    cases hruns with
    | work ha => cases ha

/-- What the listener is about to dispatch it has just made. -/
theorem dialed_of_announced {st : Post} {p : Go Label}
    (hserving : Serving (· = .listen) st p) (hp : p = .act (.consume c) k) : st = .dialed c := by
  subst hp
  obtain ⟨st', hlistens, -⟩ := hserving ()
  cases hlistens with
  | serve ha => cases ha
  | consume => rfl

/-- A connection that is made was claimed before. -/
theorem Unmade.step (h : Staged s) (hunmade : Unmade c s) (hstep : Step (dialogs E) s e s')
    (hclaims : ¬ Claims c.id s) : Unmade c s' := by
  obtain ⟨st, hserving, -⟩ := h.listener
  cases hstep with
  | @act t a k w r m ht hexec =>
    -- to store, announce, queue or start the connection takes that it has been dialled
    refine ⟨fun hstored => ?_, fun k' hk' => ?_, fun hmem => ?_, ?_⟩
    · rcases stored_of_exec hexec hstored with hold | ⟨bot, nested, rfl⟩
      · exact hunmade.stored hold
      · exact hclaims (dials_of_act h ht)
    · by_cases hlistener : t = .listener
      · subst hlistener
        rw [ht] at hserving
        obtain ⟨st', hlistens, hk⟩ := hserving r
        cases dialed_of_announced hk hk'
        cases hlistens
        exact hclaims (dials_of_act h ht)
      · rw [Pool.set_thread_of_ne _ (Ne.symm hlistener)] at hk'
        exact hunmade.announced k' hk'
    · rcases consume_of_exec hexec hmem with hold | rfl
      · exact hunmade.waiting hold
      · cases t with
        | listener => exact hunmade.announced k ht
        | runner d =>
          obtain ⟨_, hkeeping, -⟩ := h.runner d
          rw [ht] at hkeeping
          obtain ⟨_, hruns, -⟩ := hkeeping r
          cases hruns with
          | work ha => cases ha
    · by_cases hrunner : t = .runner c
      · subst hrunner
        injection ht.symm.trans hunmade.started with ha _
        subst ha
        obtain ⟨rest, hconsume, -⟩ := exec_take (w := w) hexec
        exact absurd (hconsume ▸ List.mem_cons_self) hunmade.waiting
      · rw [Pool.set_thread_of_ne _ (Ne.symm hrunner)]
        exact hunmade.started
  | @next t l w p ht hcode =>
    refine ⟨hunmade.stored, fun k' hk' => ?_, hunmade.waiting, ?_⟩
    · by_cases hlistener : t = .listener
      · subst hlistener
        rw [ht] at hserving
        obtain ⟨rfl, rfl⟩ := hserving
        cases hcode
        cases dialed_of_announced (serving_listen w.event) hk'
      · rw [Pool.set_thread_of_ne _ (Ne.symm hlistener)] at hk'
        exact hunmade.announced k' hk'
    · have hrunner : Thread.runner c ≠ t := by
        rintro rfl
        exact absurd (ht.symm.trans hunmade.started) nofun
      rw [Pool.set_thread_of_ne _ hrunner]
      exact hunmade.started
  | @env m henv =>
    refine ⟨fun hstored => ?_, hunmade.announced, fun hmem => ?_, hunmade.started⟩
    · cases henv with
      | enterQueue | leaveQueue => exact hunmade.stored hstored
      | expire => exact hunmade.stored (lookup_of_lookup_erase hstored)
    · cases henv <;> exact hunmade.waiting hmem

/-- A dialog that a node holds was held or claimed before, or it is one that was terminating and
has been suspended or resumed. -/
theorem Holds.step {id : String} (h : Staged s) (hstep : Step (dialogs E) s e s')
    (hholds : Holds id s') : Holds id s ∨ Claims id s ∨ ∃ t c st, e = .act t (.store c st) ∧
      st ≠ .terminating ∧ (s.shared.conns c).state = .terminating := by
  obtain ⟨gen, hmade, hlive⟩ := hholds
  by_cases hclaims : Claims id s
  · exact Or.inr (Or.inl hclaims)
  have hbefore : ¬ Unmade ⟨id, gen⟩ s := fun hunmade => hmade (hunmade.step h hstep hclaims)
  by_cases hterm : (s.shared.conns ⟨id, gen⟩).state = .terminating
  · refine Or.inr (Or.inr ?_)
    cases hstep with
    | @act t a k w r m ht hexec =>
      rcases exec_conns hexec ⟨id, gen⟩ with ⟨hstate, -⟩ | ⟨st, rfl⟩ | rfl | ⟨bot, nested, rfl, -⟩
      · exact absurd (hstate.trans hterm) hlive
      · refine ⟨t, _, st, rfl, ?_, hterm⟩
        cases hexec
        simpa using hlive
      · cases hexec
        exact absurd (by simpa [Server.newRun] using hterm) hlive
      · exact absurd (dials_of_act h ht) hclaims
    | next => exact absurd hterm hlive
    | env henv => exact absurd ((Env.conns henv _).1.trans hterm) hlive
  · exact Or.inl ⟨gen, hbefore, hterm⟩

end Node

/-! ## Orderly runs -/

section Exclusion

variable {N : Type} {C C' : Cluster N} {e : ClusterEvent N}

/-- A row is deleted only if its owner neither holds a dialog of the session nor is about to
make one, and nobody suspends or resumes a connection that is terminating. -/
structure Orderly (C : Cluster N) (e : ClusterEvent N) (C' : Cluster N) : Prop where
  deletes : ∀ n id, C.sessions.Owns n id → C'.sessions id = none →
    ¬ Holds id (C.node n) ∧ ¬ Claims id (C.node n)
  revives : ∀ n t c st, e = .node n (.act t (.store c st)) → st ≠ .terminating →
    ((C.node n).shared.conns c).state ≠ .terminating

/-- Whoever holds a dialog of a session, or is about to make one, owns the session. -/
structure Owned (C : Cluster N) : Prop where
  staged : ∀ n, Staged (C.node n)
  owns : ∀ n id, Holds id (C.node n) ∨ Claims id (C.node n) → C.sessions.Owns n id

theorem owned_init : Owned (Cluster.init N) where
  staged _ := staged_atStart
  owns n id := by
    rintro (⟨gen, hmade, -⟩ | ⟨_, _, _, ht⟩)
    · exact absurd ⟨nofun, nofun, nofun, rfl⟩ hmade
    · cases ht

/-- What a node held or was about to make before an orderly step is still its own. -/
theorem Owned.keeps (h : Owned C) (horderly : Orderly C e C') {n : N} {id : String}
    (hbefore : Holds id (C.node n) ∨ Claims id (C.node n))
    (hkept : C.sessions.Owns n id → C'.sessions id ≠ none → C'.sessions.Owns n id) :
    C'.sessions.Owns n id := by
  have howns := h.owns n id hbefore
  refine hkept howns fun hnone => ?_
  obtain ⟨hholds, hclaims⟩ := horderly.deletes n id howns hnone
  exact hbefore.elim hholds hclaims

variable [DecidableEq N] {E : Type} {log : Nat → Event}

/-- The table after a step of a node. -/
theorem ClusterStep.owns {n n' : N} {id : String} {e : Concurrent.Event Thread Op}
    (h : ClusterStep E log C (.node n e) C') (howns : C.sessions.Owns n' id)
    (hkept : C'.sessions id ≠ none) : C'.sessions.Owns n' id := by
  cases h with
  | act => exact howns.after hkept
  | receive | next | env => exact howns

/-- A node that is about to make a connection has been so before, or it owns the session. -/
theorem ClusterStep.claims {n : N} {id : String} {e : Concurrent.Event Thread Op}
    (h : ClusterStep E log C (.node n e) C') (hstaged : Staged (C.node n))
    (hclaims : Claims id (C'.node n)) : Claims id (C.node n) ∨ C'.sessions.Owns n id := by
  obtain ⟨bot, nested, k', hk'⟩ := hclaims
  obtain ⟨st, hserving, -⟩ := hstaged.listener
  have hclaimed : ∀ {st : Post} {p : Go Label}, Serving (· = .listen) st p →
      p = .act (.dial id bot nested) k' → st = .claimed id := by
    rintro st p hserving rfl
    obtain ⟨st', hlistens, -⟩ := hserving 0
    cases hlistens with
    | serve ha => cases ha
    | dial => rfl
  cases h with
  | @act _ t a k w r m ht hexec =>
    rw [Cluster.set_self] at hk'
    by_cases hlistener : t = .listener
    · -- the session has just been claimed
      subst hlistener
      rw [ht] at hserving
      obtain ⟨st', hlistens, hk⟩ := hserving r
      cases hclaimed hk hk'
      cases hlistens
      refine Or.inr ?_
      simp only [exec, Sessions.answer, Option.some.injEq, Prod.mk.injEq] at hexec
      simp only [Cluster.set, Sessions.after]
      cases hw : w.touch id with
      | error => simp [hw] at hexec
      | ok => exact Sessions.owns_of_touch (by simpa [hw] using hexec.1)
    · rw [Pool.set_thread_of_ne _ (Ne.symm hlistener)] at hk'
      exact Or.inl ⟨bot, nested, k', hk'⟩
  | @receive _ t w ht hevent =>
    simp only [Cluster.receive] at hk'
    rw [Cluster.set_self] at hk'
    by_cases hlistener : t = .listener
    · subst hlistener
      cases hclaimed (serving_listen w.event) hk'
    · rw [Pool.set_thread_of_ne _ (Ne.symm hlistener)] at hk'
      exact Or.inl ⟨bot, nested, k', hk'⟩
  | @next _ t l p ht hcode w =>
    rw [Cluster.set_self] at hk'
    by_cases hlistener : t = .listener
    · subst hlistener
      rw [ht] at hserving
      obtain ⟨-, rfl⟩ := hserving
      cases hcode
    · rw [Pool.set_thread_of_ne _ (Ne.symm hlistener)] at hk'
      exact Or.inl ⟨bot, nested, k', hk'⟩
  | env henv =>
    rw [Cluster.set_self] at hk'
    exact Or.inl ⟨bot, nested, k', hk'⟩

theorem Owned.step (h : Owned C) (hstep : ClusterStep E log C e C') (horderly : Orderly C e C') :
    Owned C' := by
  cases e with
  | removeAll n =>
    cases hstep
    refine ⟨h.staged, fun n' id hafter => ?_⟩
    exact h.keeps horderly hafter fun howns hkept => howns.delete hkept
  | node n e =>
    obtain ⟨hnode, hothers⟩ := hstep.project
    refine ⟨fun n' => ?_, fun n' id hafter => ?_⟩
    · by_cases hn : n' = n
      · rw [hn]
        exact (h.staged n).step hnode
      · rw [hothers n' hn]
        exact h.staged n'
    · by_cases hn : n' = n
      · subst hn
        rcases hafter with hholds | hclaims
        · rcases hholds.step (h.staged n') hnode with
            hbefore | hbefore | ⟨t, c, st, rfl, hst, hterm⟩
          · exact h.keeps horderly (Or.inl hbefore) hstep.owns
          · exact h.keeps horderly (Or.inr hbefore) hstep.owns
          · exact absurd hterm (horderly.revives n' t c st rfl hst)
        · rcases hstep.claims (h.staged n') hclaims with hbefore | howns
          · exact h.keeps horderly (Or.inr hbefore) hstep.owns
          · exact howns
      · rw [hothers n' hn] at hafter
        exact h.keeps horderly hafter hstep.owns

end Exclusion

/-- In an orderly run of any number of nodes, no two of them hold a dialog of the same session
that is not terminating. -/
theorem exclusive_of_orderly {N E : Type} [DecidableEq N] {log : Nat → Event} {ok : Prop}
    {C : Cluster N} (h : Trace.Steps (ClusterStep E log) Orderly (Cluster.init N) ok C) (hok : ok)
    {n n' : N} {id : String} (hn : Holds id (C.node n)) (hn' : Holds id (C.node n')) : n = n' := by
  have howned : Owned C := h.invariant owned_init Owned.step hok
  exact (howned.owns n id (Or.inl hn)).unique (howned.owns n' id (Or.inl hn'))

/-! ## Given schedules -/

/-- A goroutine of a node moves. -/
def Cluster.move {N E : Type} [DecidableEq N] (log : Nat → Event) (C : Cluster N) :
    N × Thread × Outside E → Option (Cluster N)
  | (n, t, w) =>
    match (C.node n).thread t with
    | .act a k => (exec (C.sessions.answer n w) a (C.node n).shared).map fun y =>
        C.set n ((C.node n).set t y.2 (k y.1)) (C.sessions.after n w a)
    | .ret .listen => some ((C.set n ((C.node n).set t (C.node n).shared
        (do listen (log (C.received n)); return .listen)) C.sessions).receive n)
    | .ret l => l.code.map fun p => C.set n ((C.node n).set t (C.node n).shared p) C.sessions

/-- What happens then. -/
def Cluster.event {N E : Type} (C : Cluster N) (move : N × Thread × Outside E) : ClusterEvent N :=
  .node move.1 ((C.node move.1).event move.2.1)

theorem Cluster.move_step {N E : Type} [DecidableEq N] (log : Nat → Event) (C : Cluster N)
    (move : N × Thread × Outside E) (C' : Cluster N) (h : C.move log move = some C') :
    ClusterStep E log C (C.event move) C' := by
  obtain ⟨n, t, w⟩ := move
  unfold Cluster.move at h
  unfold Cluster.event Pool.event
  simp only at h ⊢
  split at h
  · rename_i a k ht
    obtain ⟨y, hexec, rfl⟩ := Option.map_eq_some_iff.mp h
    rw [ht]
    exact .act ht hexec
  · rename_i ht
    cases h
    rw [ht]
    exact .receive (w := { w with event := log (C.received n) }) ht rfl
  · rename_i l _ ht
    obtain ⟨p, hcode, rfl⟩ := Option.map_eq_some_iff.mp h
    rw [ht]
    exact .next ht hcode w

/-- Some moves of the listener of a node -/
def listening (n : Fin 2) (moves : Nat) : List (Fin 2 × Thread × Outside Unit) :=
  List.replicate moves (n, .listener, helpful)

/-- The customer writes, leaves the thread, and writes again. -/
def comeAndGo : Nat → Event
  | 1 => .released ⟨"t", 1, .clientLeave⟩
  | _ => .message hello

/-- The dialog that is stored for the session is not terminating. -/
def holds (id : String) (s : Server) : Bool :=
  (s.store.lookup id).any fun gen => decide ((s.conns ⟨id, gen⟩).state ≠ .terminating)

theorem holds_of_holds {id : String} (h : holds id s.shared = true) :
    Holds id s := by
  obtain ⟨gen, hstored, hlive⟩ := (Option.any_eq_true ..).mp h
  exact ⟨gen, fun hunmade => hunmade.stored hstored, of_decide_eq_true hlive⟩

/-- A step that neither deletes rows nor writes a state. -/
def keepsRows {N : Type} : ClusterEvent N → Bool
  | .node _ (.act _ (.store ..)) => false
  | .node _ (.act _ a) => !a.deletesRows
  | .node _ _ => true
  | .removeAll _ => false

theorem orderly_of_keepsRows {N E : Type} [DecidableEq N] {log : Nat → Event} (C : Cluster N)
    (mv : N × Thread × Outside E) (C' : Cluster N) (hmove : C.move log mv = some C')
    (hkeeps : keepsRows (C.event mv) = true) : Orderly C (C.event mv) C' := by
  have h := Cluster.move_step log C mv C' hmove
  generalize C.event mv = e at h hkeeps ⊢
  refine ⟨fun n id howns hnone => ?_, ?_⟩
  · suffices hkept : C'.sessions.Owns n id by
      obtain ⟨row, hrow, -⟩ := hkept
      rw [hnone] at hrow
      cases hrow
    cases h with
    | @act _ t a =>
      refine howns.kept ?_
      cases a with
      | removeSession | removeByThread => cases hkeeps
      | _ => rfl
    | receive | next | env => exact howns
    | removeAll => cases hkeeps
  · rintro n t c st rfl
    cases hkeeps

/-- The first node starts a dialog on the message, and the second does not. -/
theorem exclusive_of_orderly_second :
    ∃ C, Trace.play (Cluster.move comeAndGo) (listening 0 6 ++ listening 1 4)
        (Cluster.init (Fin 2)) = some C ∧
      Holds "t.1" (C.node 0) ∧ ∀ n, Holds "t.1" (C.node n) → n = 0 := by
  obtain ⟨C, hC, hholds, ok, hsteps, hok⟩ := Trace.reaches_checked
    (Cluster.move_step comeAndGo) orderly_of_keepsRows (listening 0 6 ++ listening 1 4)
    (Cluster.init (Fin 2)) (fun C => holds "t.1" (C.node 0).shared = true) (by decide +kernel)
  have hzero : Holds "t.1" (C.node 0) := holds_of_holds hholds
  exact ⟨C, hC, hzero, fun n hn => exclusive_of_orderly hsteps hok hn hzero⟩

/-- The second node learns first that the client has left, and deletes the row of the first. -/
theorem exclusive_of_orderly_left :
    ∃ ok C, Trace.Steps (ClusterStep Unit comeAndGo) Orderly (Cluster.init (Fin 2)) ok C ∧
      Holds "t.1" (C.node 0) ∧ Holds "t.1" (C.node 1) := by
  obtain ⟨C, -, ⟨hzero, hone⟩, ok, hsteps⟩ := Trace.reaches (Cluster.move_step comeAndGo) Orderly
    (listening 0 6 ++ listening 1 12) (Cluster.init (Fin 2))
    (fun C => holds "t.1" (C.node 0).shared = true ∧ holds "t.1" (C.node 1).shared = true)
    (by decide +kernel)
  exact ⟨ok, C, hsteps, holds_of_holds hzero, holds_of_holds hone⟩

end FlowManager.Im
