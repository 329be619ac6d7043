import Mathlib.Data.List.Forall2
import FlowManager.Lib.Concurrent

/-!
# Threads that start threads

The threads of a list share a memory, and an access may start new ones, which come at the end of the
list. Every thread keeps to an automaton, so what is known of the threads is a list of states.

- `Crew`, `Crew.Step`: the threads and their steps.
- `Crew.Keeps`: the states of the threads; `Keeps.step` says how a step changes them, and
  `keeps_run` carries an invariant along.
- `Keeps.countP_eq`: counting threads is counting states.
- `Crew.move`, `Crew.move_step`: a given thread moves.
-/

namespace Concurrent

universe u

/-- A memory and a list of threads -/
structure Crew (σ A : Type) (R : A → Type) (L : Type) where
  shared : σ
  threads : List (Prog A R L)

section

variable {σ A L S : Type} {R : A → Type} {W : Type u}

/-- A thread makes its next access, and starts others by it, or goes on at a label, or the memory
changes by itself. -/
inductive Crew.Step (sys : System σ W A R L) (starts : (a : A) → List (Prog A R L)) :
    Crew σ A R L → Event Nat A → Crew σ A R L → Prop where
  | act {m m' : σ} {before after : List (Prog A R L)} {a : A} {k : R a → Prog A R L} {w : W}
      {r : R a} (hexec : sys.exec w a m = some (r, m')) :
      Step sys starts ⟨m, before ++ .act a k :: after⟩ (.act before.length a)
        ⟨m', before ++ k r :: (after ++ starts a)⟩
  | next {m : σ} {before after : List (Prog A R L)} {l : L} {w : W} {p : Prog A R L}
      (hcode : sys.code w l = some p) :
      Step sys starts ⟨m, before ++ .ret l :: after⟩ (.next before.length) ⟨m, before ++ p :: after⟩
  | env {m m' : σ} {threads : List (Prog A R L)} (henv : sys.env m m') :
      Step sys starts ⟨m, threads⟩ .env ⟨m', threads⟩

/-! ## States of threads -/

section Automaton

variable (advance : S → (a : A) → R a → S → Prop) (final : S → L → Prop)

/-- The threads are in these states of the automaton. -/
def Crew.Keeps (threads : List (Prog A R L)) (states : List S) : Prop :=
  List.Forall₂ (fun p st => p.Conforms advance final st) threads states

/-- How a step changes the states: one thread advances, and others are born in the states `born`, or
it goes on from a label that is final to it. -/
inductive Crew.Moves (exec : W → (a : A) → σ → Option (R a × σ)) (env : σ → σ → Prop)
    (resume : S → L → S → Prop) (born : A → List S) :
    σ → List S → Event Nat A → σ → List S → Prop where
  | act {m m' : σ} {before after : List S} {st st' : S} {a : A} {w : W} {r : R a}
      (hexec : exec w a m = some (r, m')) (hadvance : advance st a r st') :
      Moves exec env resume born m (before ++ st :: after) (.act before.length a) m'
        (before ++ st' :: (after ++ born a))
  | next {m : σ} {before after : List S} {st st' : S} {l : L} (hfinal : final st l)
      (hresume : resume st l st') :
      Moves exec env resume born m (before ++ st :: after) (.next before.length) m
        (before ++ st' :: after)
  | env {m m' : σ} {states : List S} (henv : env m m') :
      Moves exec env resume born m states .env m' states

variable {advance final} {sys : System σ W A R L} {starts : (a : A) → List (Prog A R L)}
  {resume : S → L → S → Prop} {born : A → List S} {s s' : Crew σ A R L} {states : List S}
  {e : Event Nat A}

/-- The states around a thread -/
theorem Crew.Keeps.split (h : Keeps advance final (before ++ p :: after) states) :
    ∃ before' st after', states = before' ++ st :: after' ∧ Keeps advance final before before' ∧
      p.Conforms advance final st ∧ Keeps advance final after after' := by
  induction before generalizing states with
  | nil =>
    obtain ⟨st, after', hp, hafter, rfl⟩ := List.forall₂_cons_left_iff.mp h
    exact ⟨[], st, after', rfl, .nil, hp, hafter⟩
  | cons q before ih =>
    obtain ⟨st₀, rest, hq, hrest, rfl⟩ := List.forall₂_cons_left_iff.mp h
    obtain ⟨before', st, after', rfl, hbefore, hp, hafter⟩ := ih hrest
    exact ⟨st₀ :: before', st, after', rfl, .cons hq hbefore, hp, hafter⟩

/-- A step moves the states. -/
theorem Crew.Keeps.step (h : Keeps advance final s.threads states)
    (hborn : ∀ a, Keeps advance final (starts a) (born a))
    (hresume : ∀ {w l p st}, final st l → sys.code w l = some p →
      ∃ st', resume st l st' ∧ p.Conforms advance final st')
    (hstep : Crew.Step sys starts s e s') :
    ∃ states', Keeps advance final s'.threads states' ∧
      Crew.Moves advance final sys.exec sys.env resume born s.shared states e s'.shared
        states' := by
  cases hstep with
  | @act m m' before after a k w r hexec =>
    obtain ⟨before', st, after', rfl, hbefore, hp, hafter⟩ := h.split
    obtain ⟨st', hadvance, hk⟩ := hp r
    refine ⟨before' ++ st' :: (after' ++ born a), ?_, hbefore.length_eq ▸ .act hexec hadvance⟩
    exact List.rel_append hbefore (.cons hk (List.rel_append hafter (hborn a)))
  | @next m before after l w p hcode =>
    obtain ⟨before', st, after', rfl, hbefore, hp, hafter⟩ := h.split
    obtain ⟨st', hst', hk⟩ := hresume hp hcode
    refine ⟨before' ++ st' :: after', ?_, hbefore.length_eq ▸ .next hp hst'⟩
    exact List.rel_append hbefore (.cons hk hafter)
  | env henv => exact ⟨states, h, .env henv⟩

/-- An invariant of the memory and the states, and of the condition on the steps so far, holds along
every run. -/
theorem Crew.keeps_run {cond : Crew σ A R L → Event Nat A → Crew σ A R L → Prop}
    {Inv : Prop → σ → List S → Prop} {ok : Prop}
    (h : Trace.Steps (Crew.Step sys starts) cond s₀ ok s)
    (hborn : ∀ a, Keeps advance final (starts a) (born a))
    (hresume : ∀ {w l p st}, final st l → sys.code w l = some p →
      ∃ st', resume st l st' ∧ p.Conforms advance final st')
    (hstart : Keeps advance final s₀.threads states) (hinit : Inv True s₀.shared states)
    (hkeep : ∀ {ok s e s' m states m' states'}, s.shared = m → s'.shared = m' → Inv ok m states →
      Crew.Moves advance final sys.exec sys.env resume born m states e m' states' →
        Inv (ok ∧ cond s e s') m' states') :
    ∃ states, Keeps advance final s.threads states ∧ Inv ok s.shared states := by
  induction h with
  | refl => exact ⟨states, hstart, hinit⟩
  | tail _ hstep ih =>
    obtain ⟨states, hkeeps, hinv⟩ := ih
    obtain ⟨states', hkeeps', hmoves⟩ := hkeeps.step hborn hresume hstep
    exact ⟨states', hkeeps', hkeep rfl rfl hinv hmoves⟩

/-- Counting threads by their states -/
theorem Crew.Keeps.countP_eq {threads : List (Prog A R L)}
    (h : Keeps advance final threads states)
    (hfg : ∀ p ∈ threads, ∀ st, p.Conforms advance final st → f p = g st) :
    threads.countP f = states.countP g := by
  induction h with
  | nil => rfl
  | @cons p st threads states hp h ih =>
    rw [List.countP_cons, List.countP_cons, hfg p List.mem_cons_self st hp,
      ih fun q hq => hfg q (List.mem_cons_of_mem _ hq)]

/-- Every state is one of a thread. -/
theorem Crew.Keeps.exists_thread {threads : List (Prog A R L)}
    (h : Keeps advance final threads states) (hst : st ∈ states) :
    ∃ p ∈ threads, p.Conforms advance final st := by
  induction h with
  | nil => cases hst
  | @cons p st' threads states hp h ih =>
    rcases List.mem_cons.mp hst with rfl | hst
    · exact ⟨p, List.mem_cons_self, hp⟩
    · obtain ⟨q, hq, hconf⟩ := ih hst
      exact ⟨q, List.mem_cons_of_mem _ hq, hconf⟩

end Automaton

/-! ## Given moves -/

/-- The thread at `i` moves, with `w` as the outside. -/
def Crew.move (sys : System σ W A R L) (starts : (a : A) → List (Prog A R L))
    (s : Crew σ A R L) (i : Nat) (w : W) : Option (Crew σ A R L) :=
  match s.threads.drop i with
  | .act a k :: after =>
    (sys.exec w a s.shared).map fun y =>
      ⟨y.2, s.threads.take i ++ k y.1 :: (after ++ starts a)⟩
  | .ret l :: after =>
    (sys.code w l).map fun p => ⟨s.shared, s.threads.take i ++ p :: after⟩
  | [] => none

/-- What happens if the thread at `i` moves -/
def Crew.event (s : Crew σ A R L) (i : Nat) : Event Nat A :=
  match s.threads.drop i with
  | .act a _ :: _ => .act (s.threads.take i).length a
  | _ => .next (s.threads.take i).length

/-- A move is a step. -/
theorem Crew.move_step (h : s.move sys starts i w = some s') :
    Crew.Step sys starts s (s.event i) s' := by
  obtain ⟨m, threads⟩ := s
  have hsplit := (List.take_append_drop i threads).symm
  unfold Crew.move at h
  unfold Crew.event
  split at h
  · rename_i a k after hdrop
    obtain ⟨y, hexec, rfl⟩ := Option.map_eq_some_iff.mp h
    rw [hdrop]
    conv in Crew.mk m threads => rw [hsplit, hdrop]
    exact .act hexec
  · rename_i l after hdrop
    obtain ⟨p, hcode, rfl⟩ := Option.map_eq_some_iff.mp h
    rw [hdrop]
    conv in Crew.mk m threads => rw [hsplit, hdrop]
    exact .next hcode
  · cases h

end

end Concurrent
