import Mathlib.Logic.Function.Basic
import Mathlib.Logic.Relation

/-!
# A lock for readers and writers

`sync.RWMutex` with any number of threads. A writer first announces itself and then waits until
nobody reads; from its announcement on, new readers wait behind it. No thread is known to the lock:
one that reads already waits like any other.

- `Lock.Step`: a thread makes its next operation.
- `Lock.Blocked`: a thread that reads waits to read once more, behind a writer that waits for it.
- `Flat`: a program that reads only when it holds nothing; such a thread is never blocked.
-/

namespace RwMutex

open Function

inductive Op where
  | rLock
  | rUnlock
  | lock
  | unlock
  deriving DecidableEq

/-- The lock, and what is left of the program of every thread -/
structure Lock (T : Type) where
  /-- how often a thread holds the lock for reading -/
  readers : T → Nat
  writer : Option T
  /-- a writer that has announced itself -/
  pending : Option T
  program : T → List Op

variable {T : Type} [DecidableEq T]

inductive Lock.Step : Lock T → Lock T → Prop
  | rLock {s t p} (hp : s.program t = .rLock :: p) (hwriter : s.writer = none)
      (hpending : s.pending = none) :
      Step s { s with
        readers := update s.readers t (s.readers t + 1), program := update s.program t p }
  | rUnlock {s t p} (hp : s.program t = .rUnlock :: p) :
      Step s { s with
        readers := update s.readers t (s.readers t - 1), program := update s.program t p }
  | announce {s t p} (hp : s.program t = .lock :: p) (hwriter : s.writer = none)
      (hpending : s.pending = none) : Step s { s with pending := some t }
  | lock {s t p} (hp : s.program t = .lock :: p) (hpending : s.pending = some t)
      (hreaders : ∀ u, s.readers u = 0) :
      Step s { s with writer := some t, pending := none, program := update s.program t p }
  | unlock {s t p} (hp : s.program t = .unlock :: p) (hwriter : s.writer = some t) :
      Step s { s with writer := none, program := update s.program t p }

/-- Nobody holds the lock. -/
def Lock.new (program : T → List Op) : Lock T := ⟨fun _ => 0, none, none, program⟩

/-- The thread holds the lock for reading, and waits to read behind a writer that waits for it. -/
def Lock.Blocked (s : Lock T) (t : T) : Prop :=
  0 < s.readers t ∧ s.pending.isSome ∧ ∃ p, s.program t = .rLock :: p

/-- A thread that is blocked stays so. -/
theorem Lock.Blocked.step {s s' : Lock T} (h : s.Blocked t) (hstep : s.Step s') :
    s'.Blocked t := by
  obtain ⟨hreads, hsome, p, hp⟩ := h
  -- who makes the step is another thread, and no writer gets the lock
  cases hstep with
  | rLock _ _ hpending | announce _ _ hpending => simp [hpending] at hsome
  | lock _ _ hreaders => simp [hreaders t] at hreads
  | @rUnlock u _ hu | @unlock u _ hu =>
    have hne : t ≠ u := by
      rintro rfl
      rw [hp] at hu
      cases hu
    exact ⟨by simpa [hne] using hreads, hsome, p, by simpa [hne] using hp⟩

theorem Lock.Blocked.run {s s' : Lock T} (h : s.Blocked t)
    (hrun : Relation.ReflTransGen Lock.Step s s') : s'.Blocked t := by
  induction hrun with
  | refl => exact h
  | tail _ hstep ih => exact ih.step hstep

/-- The program never reads while it holds the lock `n` times for reading. -/
def Flat : Nat → List Op → Prop
  | _, [] => True
  | n, .rLock :: p => n = 0 ∧ Flat 1 p
  | n, .rUnlock :: p => Flat (n - 1) p
  | n, _ :: p => Flat n p

/-- Whatever the others do, a flat program stays flat. -/
theorem Flat.step {s s' : Lock T} (h : Flat (s.readers t) (s.program t)) (hstep : s.Step s') :
    Flat (s'.readers t) (s'.program t) := by
  cases hstep with
  | announce => exact h
  | @rLock u _ hu | @rUnlock u _ hu | @lock u _ hu | @unlock u _ hu =>
    by_cases heq : t = u
    · subst heq
      simp_all [Flat]
    · simpa [heq] using h

/-- A thread with a flat program is never blocked, whatever the others do. -/
theorem Flat.not_blocked {program : T → List Op} (h : Flat 0 (program t))
    (hrun : Relation.ReflTransGen Lock.Step (.new program) s) : ¬ s.Blocked t := by
  have hflat : Flat (s.readers t) (s.program t) := by
    induction hrun with
    | refl => exact h
    | tail _ hstep ih => exact ih.step hstep
  rintro ⟨hreads, -, p, hp⟩
  rw [hp] at hflat
  exact absurd hflat.1 (Nat.ne_of_gt hreads)

end RwMutex
