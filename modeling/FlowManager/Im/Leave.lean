import Mathlib.Data.List.Infix
import FlowManager.Im.Board
import FlowManager.Im.Cluster

/-!
# A client leaves a thread (providers/im/server.go, store/pg_store/session.go)

Every node breaks its connections of the thread, and the rows of the thread are deleted. The
connections are found by the beginning of their ids, the rows by `LIKE`, in whose pattern the
signs `%`, `_` and `\` of a thread id have a meaning of their own.

- `Session.id`: the id of a session, from its thread and its bot.
- `Leaves`: exactly the sessions of the thread are broken and deleted.
- `leaves_iff`: this is so if and only if the two tests find the sessions of the thread alone.
-/

namespace FlowManager.Im

/-- The id of a session -/
def Session.id (thread bot : String) : String := thread ++ "." ++ bot

/-- When the client has left the thread, every node has broken its sessions of the thread, and
their rows are deleted; all other sessions are as they were. -/
def Leaves (N : Type) (thread : String) (sessions : Set (String × String)) : Prop :=
  ∀ (b : Board) (rows : Sessions N) (sub : Int), ∀ s ∈ sessions,
    (b.released ⟨thread, sub, .clientLeave⟩).entry (Session.id s.1 s.2) =
      (if s.1 = thread then (b.entry (Session.id s.1 s.2)).map Board.broken
        else b.entry (Session.id s.1 s.2)) ∧
    rows.removeByThread thread (Session.id s.1 s.2) =
      if s.1 = thread then none else rows (Session.id s.1 s.2)

/-- The row test: the id is like the thread id, a dot and anything. -/
def LikeThread (thread id : String) : Prop := like (globs (thread ++ ".%").toList) id.toList = true

/-- The connection test: the id begins with the thread id and a dot. -/
def BeginsWith (thread id : String) : Prop := thread.toList ++ ['.'] <+: id.toList

theorem isPrefixOf_iff_beginsWith (thread id : String) :
    (thread ++ ".").isPrefixOf id = true ↔ BeginsWith thread id := by
  show id.startsWith (thread ++ ".") = true ↔ _
  rw [String.startsWith_string_iff, String.toList_append]
  rfl

/-- In an id without signs of `LIKE`, every character stands for itself. -/
theorem like_plain_iff (h : ∀ c ∈ thread, c ≠ '\\' ∧ c ≠ '%' ∧ c ≠ '_')
    (text : List Char) :
    like (globs (thread ++ ['.', '%'])) text = true ↔ thread ++ ['.'] <+: text := by
  induction thread generalizing text with
  | nil =>
    cases text with
    | nil => simp [globs, like]
    | cons d text => simp [globs, like, List.any_eq_true, List.isEmpty_iff, List.cons_prefix_cons]
  | cons c thread ih =>
    obtain ⟨hback, hmany, hone⟩ := h c (by simp)
    have hglobs : globs (c :: thread ++ ['.', '%']) = .char c :: globs (thread ++ ['.', '%']) := by
      simp only [List.cons_append]
      rw [globs]
      all_goals simp_all
    rw [hglobs]
    cases text with
    | nil => simp [like]
    | cons d text =>
      have := ih (fun c hc => h c (by simp [hc])) text
      simp [like, this, List.cons_prefix_cons]

/-- The two tests find the sessions of the thread, and no other. -/
def Separate (thread : String) (sessions : Set (String × String)) : Prop :=
  ∀ s ∈ sessions, (LikeThread thread (Session.id s.1 s.2) ↔ s.1 = thread) ∧
    (BeginsWith thread (Session.id s.1 s.2) ↔ s.1 = thread)

/-- The sessions of a thread begin with its id. -/
theorem beginsWith_id (thread bot : String) : BeginsWith thread (Session.id thread bot) := by
  unfold BeginsWith Session.id
  rw [String.toList_append, String.toList_append]
  exact List.prefix_append _ _

/-- Leaving a thread touches only this thread if and only if both tests find its sessions alone;
if its id has no signs of `LIKE`, if and only if no session of another thread begins with it. -/
theorem leaves_iff {N : Type} [DecidableEq N] [Inhabited N] {thread : String}
    (hthread : thread ≠ "")
    (sessions : Set (String × String)) :
    (Leaves N thread sessions ↔ Separate thread sessions) ∧
    ((∀ c ∈ thread.toList, c ≠ '\\' ∧ c ≠ '%' ∧ c ≠ '_') →
      (Leaves N thread sessions ↔
        ∀ s ∈ sessions, BeginsWith thread (Session.id s.1 s.2) → s.1 = thread)) := by
  have hleaves : Leaves N thread sessions ↔ Separate thread sessions := by
    constructor
    · intro h s hs
      -- every session is held and running, and has a row
      obtain ⟨hentry, hrow⟩ := h ⟨fun _ => some ⟨.running, false, false⟩, fun _ => none⟩
        (fun _ => some ⟨default, 1⟩) 0 s hs
      constructor
      · by_cases heq : s.1 = thread <;> simpa [LikeThread, Sessions.removeByThread, Sessions.delete,
          hthread, heq, Option.filter] using hrow
      · rw [← isPrefixOf_iff_beginsWith]
        by_cases heq : s.1 = thread <;> simpa [Board.released, Board.breakByThread, hthread, heq,
          Board.broken] using hentry
    · intro h b rows sub s hs
      obtain ⟨hlike, hbegins⟩ := h s hs
      rw [← isPrefixOf_iff_beginsWith] at hbegins
      constructor
      · simp [Board.released, Board.breakByThread, hthread, hbegins]
      · unfold LikeThread at hlike
        rw [Sessions.removeByThread, if_neg hthread, Sessions.delete]
        simp only [← hlike]
        generalize like (globs (thread ++ ".%").toList) (Session.id s.1 s.2).toList = found
        cases found <;> cases rows (Session.id s.1 s.2) <;> rfl
  refine ⟨hleaves, fun hplain => hleaves.trans ?_⟩
  have hlike : ∀ id, LikeThread thread id ↔ BeginsWith thread id := by
    intro id
    unfold LikeThread
    rw [String.toList_append]
    exact like_plain_iff hplain _
  constructor
  · intro h s hs
    exact (h s hs).2.mp
  · intro h s hs
    have hiff : BeginsWith thread (Session.id s.1 s.2) ↔ s.1 = thread := by
      refine ⟨h s hs, fun heq => ?_⟩
      rw [heq]
      exact beginsWith_id thread s.2
    exact ⟨(hlike _).trans hiff, hiff⟩

/-- Threads whose ids are not the beginning of each other leave each other alone. -/
theorem leaves_plain : Leaves Nat "a" {("a", "1"), ("b", "1")} := by
  refine ((leaves_iff (by decide) _).2 (by simp)).mpr ?_
  rintro s (rfl | rfl) h
  · rfl
  · exact absurd h (by unfold BeginsWith; decide +kernel)

/-- The thread `a.b` is left with the thread `a`, and `abc` with `a_c`. -/
theorem not_leaves :
    ¬ Leaves Nat "a" {("a.b", "1")} ∧ ¬ Leaves Nat "a_c" {("abc", "1")} := by
  constructor
  all_goals
    intro h
    have hrow := (h ⟨fun _ => none, fun _ => none⟩ (fun _ => some ⟨0, 1⟩) 0 _ rfl).2
    exact absurd (congrArg Option.isSome hrow) (by decide +kernel)

end FlowManager.Im
