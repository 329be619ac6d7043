import Mathlib.Algebra.GroupWithZero.Nat
import Mathlib.Logic.Function.Basic
import FlowManager.Lib.Trace

/-!
# Threads that share a memory

A program is a tree of atomic accesses to a shared memory. The same program can be run on
its own, or step by step among other threads, so one text of the code serves both for what
a call does and for what its interleavings do.

- `Prog`: programs; `call a` is the single access `a`.
- `Prog.run`: a program on its own.
- `System`, `Pool`, `Step`: threads that take turns. A thread that has come to the end of a
  program goes on at the label it returned, so loops need no recursion in programs.
- `Prog.Conforms`: a program keeps to the states of an automaton, whatever the answers.
- `Prog.Uses`: a program makes accesses of one kind only.
- `System.tallied`: a system that keeps a tally of its accesses.
- `Recorded`: steps with a history kept beside the threads.
- `Pool.play`: a given schedule; `Pool.record` plays it with its history. `Pool.reaches` and
  `Pool.reaches_record` make runs of them that meet a condition.
-/

namespace Concurrent

open Function

universe u

/-- Threads are numbered by `Fin 1` and `Fin 2` in closed runs. -/
scoped instance (priority := high) neZero_one : NeZero 1 := ⟨Nat.one_ne_zero⟩

scoped instance (priority := high) neZero_two : NeZero 2 := ⟨Nat.succ_ne_zero 1⟩

/-- What a thread has still to do: every access `a` is answered by some `R a`. -/
inductive Prog (A : Type) (R : A → Type) (α : Type) where
  | ret (x : α)
  | act (a : A) (k : R a → Prog A R α)

section Programs

variable {A : Type} {R : A → Type} {α β σ : Type}

/-- One program after another. -/
def Prog.bind : Prog A R α → (α → Prog A R β) → Prog A R β
  | .ret x, f => f x
  | .act a k, f => .act a fun r => (k r).bind f

instance : Monad (Prog A R) where
  pure := Prog.ret
  bind := Prog.bind

@[simp]
theorem Prog.bind_eq (p : Prog A R α) (f : α → Prog A R β) : p.bind f = (p >>= f) := rfl

/-- A single access. -/
def call (a : A) : Prog A R (R a) := .act a .ret

@[simp]
theorem pure_eq (x : α) : (pure x : Prog A R α) = .ret x := rfl

@[simp]
theorem ret_bind (x : α) (f : α → Prog A R β) : (Prog.ret x >>= f) = f x := rfl

@[simp]
theorem act_bind (a : A) (k : R a → Prog A R α) (f : α → Prog A R β) :
    (Prog.act a k >>= f) = .act a fun r => k r >>= f := rfl

@[simp]
theorem call_bind (a : A) (f : R a → Prog A R β) : (call a >>= f) = .act a f := rfl

theorem bind_bind {γ : Type} (p : Prog A R α) (f : α → Prog A R β) (g : β → Prog A R γ) :
    ((p >>= f) >>= g) = (p >>= fun x => f x >>= g) := by
  induction p with
  | ret x => rfl
  | act a k ih =>
    exact congrArg (Prog.act a) (funext fun r => ih r)

/-- The program on its own, from a memory `s`; `none` if it gets stuck in an access that
cannot be made. -/
def Prog.run (exec : (a : A) → σ → Option (R a × σ)) : Prog A R α → σ → Option (α × σ)
  | .ret x, s => some (x, s)
  | .act a k, s => (exec a s).bind fun y => (k y.1).run exec y.2

variable (exec : (a : A) → σ → Option (R a × σ))

@[simp]
theorem run_ret (x : α) (s : σ) : (Prog.ret x : Prog A R α).run exec s = some (x, s) := rfl

@[simp]
theorem run_call (a : A) (s : σ) : (call a).run exec s = exec a s := by
  show ((exec a s).bind fun y => some y) = exec a s
  exact Option.bind_fun_some _

theorem run_bind (p : Prog A R α) (f : α → Prog A R β) (s : σ) :
    (p >>= f).run exec s = (p.run exec s).bind fun y => (f y.1).run exec y.2 := by
  induction p generalizing s with
  | ret x => rfl
  | act a k ih =>
    show ((exec a s).bind fun y => (k y.1 >>= f).run exec y.2) = _
    simp only [Prog.run, Option.bind_assoc, ih]

/-- The program keeps to an automaton from its state `st` on, whatever the answers: every
access leads from state to state, and it returns what the last state allows. -/
def Prog.Conforms {S : Type} (advance : S → (a : A) → R a → S → Prop) (final : S → α → Prop) :
    S → Prog A R α → Prop
  | st, .ret x => final st x
  | st, .act a k => ∀ r, ∃ st', advance st a r st' ∧ (k r).Conforms advance final st'

/-- A program after a program, from where the first leaves the automaton. -/
theorem Prog.Conforms.bind {S : Type} {advance : S → (a : A) → R a → S → Prop}
    {final : S → α → Prop} {final' : S → β → Prop} {f : α → Prog A R β} {st : S}
    (hp : p.Conforms advance final st)
    (hf : ∀ st x, final st x → (f x).Conforms advance final' st) :
    (p >>= f).Conforms advance final' st := by
  induction p generalizing st with
  | ret x => exact hf st x hp
  | act a k ih =>
    intro r
    obtain ⟨st', hadvance, hk⟩ := hp r
    exact ⟨st', hadvance, ih r hk⟩

/-- All accesses of the program are of the kind `P`, and it returns a `Q`. -/
def Prog.Uses (P : A → Prop) (Q : α → Prop) : Prog A R α → Prop
  | .ret x => Q x
  | .act a k => P a ∧ ∀ r, (k r).Uses P Q

section Uses

variable {P : A → Prop} {Q : α → Prop} {Q' : β → Prop} {p : Prog A R α} {f : α → Prog A R β}

theorem Prog.Uses.bind (hp : p.Uses P Q) (hf : ∀ x, Q x → (f x).Uses P Q') :
    (p >>= f).Uses P Q' := by
  induction p with
  | ret x => exact hf x hp
  | act a k ih => exact ⟨hp.1, fun r => ih r (hp.2 r)⟩

/-- A program whose accesses all keep the automaton in one state. -/
theorem Prog.Uses.conforms {S : Type} {advance : S → (a : A) → R a → S → Prop}
    {final : S → α → Prop} {st : S} (hp : p.Uses P Q) (hstay : ∀ a r, P a → advance st a r st)
    (hfinal : ∀ x, Q x → final st x) : p.Conforms advance final st := by
  induction p with
  | ret x => exact hfinal x hp
  | act a k ih => exact fun r => ⟨st, hstay a r hp.1, ih r (hp.2 r)⟩

end Uses

end Programs

/-! ## Interleavings -/

/-- A memory `σ` with its accesses, and the code behind every label. What comes from outside
is chosen by some `w : W` at every step; a memory may also change by itself. -/
structure System (σ : Type) (W : Type u) (A : Type) (R : A → Type) (L : Type) where
  exec : W → (a : A) → σ → Option (R a × σ)
  code : W → L → Option (Prog A R L)
  env : σ → σ → Prop

/-- The system, with a tally kept of its accesses. -/
def System.tallied {σ τ A L : Type} {R : A → Type} {W : Type u} (sys : System σ W A R L)
    (tally : τ → A → τ) : System (σ × τ) W A R L where
  exec w a s := (sys.exec w a s.1).map fun y => (y.1, y.2, tally s.2 a)
  code := sys.code
  env s s' := sys.env s.1 s'.1 ∧ s'.2 = s.2

/-- A memory and the threads that share it. -/
structure Pool (T σ : Type) (A : Type) (R : A → Type) (L : Type) where
  shared : σ
  thread : T → Prog A R L

/-- What happens in a step. -/
inductive Event (T A : Type) where
  | act (t : T) (a : A)
  | next (t : T)
  | env

/-- The thread that takes a step. -/
def Event.thread {T A : Type} : Event T A → Option T
  | .act t _ => some t
  | .next t => some t
  | .env => none

section Steps

variable {T σ A L : Type} {R : A → Type} {W : Type u}

/-- What happens if the thread `t` moves. -/
def Pool.event (s : Pool T σ A R L) (t : T) : Event T A :=
  match s.thread t with
  | .act a _ => .act t a
  | .ret _ => .next t

theorem Pool.event_thread (s : Pool T σ A R L) (t : T) : (s.event t).thread = some t := by
  unfold Pool.event
  split <;> rfl

variable [DecidableEq T]

/-- The memory becomes `m`, and the thread `t` goes on with `p`. -/
def Pool.set (s : Pool T σ A R L) (t : T) (m : σ) (p : Prog A R L) : Pool T σ A R L where
  shared := m
  thread := update s.thread t p

@[simp]
theorem Pool.set_shared (s : Pool T σ A R L) (t : T) (m : σ) (p : Prog A R L) :
    (s.set t m p).shared = m := rfl

@[simp]
theorem Pool.set_thread_self (s : Pool T σ A R L) (t : T) (m : σ) (p : Prog A R L) :
    (s.set t m p).thread t = p := update_self ..

theorem Pool.set_thread_of_ne (s : Pool T σ A R L) (h : u ≠ t) (m : σ) (p : Prog A R L) :
    (s.set t m p).thread u = s.thread u := update_of_ne h ..

/-- A fact about every thread of a family, after one of them has moved. -/
theorem Pool.forall_set {ι : Type} {f : ι → T} (hf : Function.Injective f) (s : Pool T σ A R L)
    {i : ι} {Q : ι → Prog A R L → Prop} (hi : Q i p)
    (hother : ∀ j, j ≠ i → Q j (s.thread (f j))) (j : ι) :
    Q j ((s.set (f i) m p).thread (f j)) := by
  by_cases hj : j = i
  · subst hj
    rwa [Pool.set_thread_self]
  · rw [Pool.set_thread_of_ne _ (hf.ne hj)]
    exact hother j hj

/-- The steps: a thread makes its next access, a thread goes on at a label, or the memory
changes by itself. -/
inductive Step (sys : System σ W A R L) :
    Pool T σ A R L → Event T A → Pool T σ A R L → Prop where
  | act {s : Pool T σ A R L} {t : T} {a : A} {k : R a → Prog A R L} {w : W} {r : R a} {m : σ}
      (ht : s.thread t = .act a k) (hexec : sys.exec w a s.shared = some (r, m)) :
      Step sys s (.act t a) (s.set t m (k r))
  | next {s : Pool T σ A R L} {t : T} {l : L} {w : W} {p : Prog A R L}
      (ht : s.thread t = .ret l) (hcode : sys.code w l = some p) :
      Step sys s (.next t) (s.set t s.shared p)
  | env {s : Pool T σ A R L} {m : σ} (henv : sys.env s.shared m) :
      Step sys s .env { s with shared := m }

/-- A thread that does not move stays where it is. -/
theorem Step.thread_eq {t : T}
    (h : Step sys s e s') (ht : e.thread ≠ some t) : s'.thread t = s.thread t := by
  cases h with
  | act | next => exact Pool.set_thread_of_ne _ (fun h => ht (congrArg some h.symm)) ..
  | env => rfl

/-- Steps, with a history `x.2` kept beside the threads: `note` writes down what happens. -/
def Recorded {τ : Type} (sys : System σ W A R L)
    (note : Pool T σ A R L → Event T A → Pool T σ A R L → τ → τ)
    (x : Pool T σ A R L × τ) (e : Event T A) (y : Pool T σ A R L × τ) : Prop :=
  Step sys x.1 e y.1 ∧ y.2 = note x.1 e y.1 x.2

/-- The thread `t` moves, with `w` as the outside. -/
def Pool.move (sys : System σ W A R L) (s : Pool T σ A R L) (t : T) (w : W) :
    Option (Pool T σ A R L) :=
  match s.thread t with
  | .act a k => (sys.exec w a s.shared).map fun y => s.set t y.2 (k y.1)
  | .ret l => (sys.code w l).map fun p => s.set t s.shared p

/-- The threads move in the given order. -/
def Pool.play (sys : System σ W A R L) : List (T × W) → Pool T σ A R L → Option (Pool T σ A R L)
  | [], s => some s
  | (t, w) :: rest, s => (s.move sys t w).bind (Pool.play sys rest)

variable {sys : System σ W A R L} {s s' : Pool T σ A R L}

/-- A move is a step. -/
theorem Pool.move_step (h : s.move sys t w = some s') : Step sys s (s.event t) s' := by
  unfold Pool.move at h
  unfold Pool.event
  split at h
  · rename_i a k ht
    obtain ⟨y, hexec, rfl⟩ := Option.map_eq_some_iff.mp h
    exact Step.act ht hexec
  · rename_i l ht
    obtain ⟨p, hcode, rfl⟩ := Option.map_eq_some_iff.mp h
    exact Step.next ht hcode

theorem Pool.moves_step (sys : System σ W A R L) (s : Pool T σ A R L) (mv : T × W)
    (s' : Pool T σ A R L) (h : s.move sys mv.1 mv.2 = some s') : Step sys s (s.event mv.1) s' :=
  Pool.move_step h

theorem Pool.play_eq (moves : List (T × W)) (s : Pool T σ A R L) :
    Pool.play sys moves s = Trace.play (fun s mv => s.move sys mv.1 mv.2) moves s := by
  induction moves generalizing s with
  | nil => rfl
  | cons mv rest ih => exact congrArg _ (funext ih)

/-- A thread that runs its program to the end, with nothing else going on. -/
theorem Pool.run_steps {cond : Pool T σ A R L → Event T A → Pool T σ A R L → Prop} {ok : Prop}
    (h₀ : Trace.Steps (Step sys) cond s₀ ok s) (ht : s.thread t = p)
    (hrun : p.run (sys.exec w) s.shared = some (l, m)) :
    ∃ ok', Trace.Steps (Step sys) cond s₀ ok' (s.set t m (.ret l)) := by
  induction p generalizing s ok with
  | ret x =>
    cases hrun
    have hsame : s.set t s.shared (.ret l) = s := by
      unfold Pool.set
      rw [← ht, update_eq_self]
    exact ⟨ok, by rwa [hsame]⟩
  | act a k ih =>
    obtain ⟨⟨r, m₁⟩, hexec, hrest⟩ := Option.bind_eq_some_iff.mp hrun
    obtain ⟨ok', hsteps⟩ := ih r (h₀.tail (Step.act ht hexec)) (Pool.set_thread_self ..) hrest
    refine ⟨ok', ?_⟩
    have hset : (s.set t m₁ (k r)).set t m (.ret l) = s.set t m (.ret l) := by
      unfold Pool.set
      rw [update_idem]
    rwa [hset] at hsteps

/-- A schedule of moves that are checked for a condition, and what is found at its end -/
theorem Pool.reaches {check : Pool T σ A R L → Event T A → Pool T σ A R L → Bool}
    {cond : Pool T σ A R L → Event T A → Pool T σ A R L → Prop} (sys : System σ W A R L)
    (hcheck : ∀ s e s', check s e s' = true → cond s e s') (moves : List (T × W))
    (s₀ : Pool T σ A R L) (P : Pool T σ A R L → Prop) [DecidablePred P]
    (h : (Trace.play (Trace.checked (fun s mv => s.move sys mv.1 mv.2) fun s mv =>
      check s (s.event mv.1)) moves s₀).any (fun s => decide (P s)) = true) :
    ∃ s, Trace.play (fun s mv => s.move sys mv.1 mv.2) moves s₀ = some s ∧ P s ∧
      ∃ ok, Trace.Steps (Step sys) cond s₀ ok s ∧ ok :=
  Trace.reaches_checked (Pool.moves_step sys) (fun s _ s' _ => hcheck s _ s') moves s₀ P h

/-- The thread `mv.1` moves, and what happens is written down. -/
def Pool.record {τ : Type} (sys : System σ W A R L)
    (note : Pool T σ A R L → Event T A → Pool T σ A R L → τ → τ) (x : Pool T σ A R L × τ)
    (mv : T × W) : Option (Pool T σ A R L × τ) :=
  (x.1.move sys mv.1 mv.2).map fun s => (s, note x.1 (x.1.event mv.1) s x.2)

theorem Pool.record_step {τ : Type} (sys : System σ W A R L)
    (note : Pool T σ A R L → Event T A → Pool T σ A R L → τ → τ) (x : Pool T σ A R L × τ)
    (mv : T × W) (y : Pool T σ A R L × τ) (h : Pool.record sys note x mv = some y) :
    Recorded sys note x (x.1.event mv.1) y := by
  obtain ⟨s, hs, rfl⟩ := Option.map_eq_some_iff.mp h
  exact ⟨Pool.move_step hs, rfl⟩

theorem Pool.play_of_record {τ : Type}
    {note : Pool T σ A R L → Event T A → Pool T σ A R L → τ → τ} {x y : Pool T σ A R L × τ}
    (h : Trace.play (Pool.record sys note) moves x = some y) :
    Pool.play sys moves x.1 = some y.1 := by
  induction moves generalizing x with
  | nil =>
    cases h
    rfl
  | cons mv rest ih =>
    obtain ⟨x₁, hx₁, hrest⟩ := Option.bind_eq_some_iff.mp h
    obtain ⟨s, hs, rfl⟩ := Option.map_eq_some_iff.mp hx₁
    exact Option.bind_eq_some_iff.mpr ⟨s, hs, ih hrest⟩

/-- The same with a history -/
theorem Pool.reaches_record {τ : Type}
    {check : Pool T σ A R L × τ → Event T A → Pool T σ A R L × τ → Bool}
    {cond : Pool T σ A R L × τ → Event T A → Pool T σ A R L × τ → Prop} (sys : System σ W A R L)
    (note : Pool T σ A R L → Event T A → Pool T σ A R L → τ → τ)
    (hcheck : ∀ x e y, check x e y = true → cond x e y) (moves : List (T × W))
    (x₀ : Pool T σ A R L × τ) (P : Pool T σ A R L × τ → Prop) [DecidablePred P]
    (h : (Trace.play (Trace.checked (Pool.record sys note) fun x mv => check x (x.1.event mv.1))
      moves x₀).any (fun x => decide (P x)) = true) :
    ∃ x, Trace.play (Pool.record sys note) moves x₀ = some x ∧ P x ∧
      ∃ ok, Trace.Steps (Recorded sys note) cond x₀ ok x ∧ ok :=
  Trace.reaches_checked (Pool.record_step sys note) (fun x _ y _ => hcheck x _ y) moves x₀ P h

end Steps

end Concurrent
