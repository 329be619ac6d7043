import FlowManager.Im.Turns
import FlowManager.Lib.Numeral

/-!
# Parents are not left behind

A push suspends the released bot and links the granted one to it; the parent goes on when
its child ends, or when control is granted back to it. But the link is dropped whenever a
child is stopped, and followed only when its schema ends by itself. So a parent stays
suspended if its child is stopped in another way, or if its link is overwritten.

- `causes`: for which child a session was suspended last, kept beside the state.
- `Careful`: what has to be true of a turn.
- `PopsBack`: how a suspended parent is still bound to its child: the link is there and the
  child is alive and will follow it, or the goroutine of the child is about to resume the parent.
- `parent_awake_of_careful`: when a child has been stopped, its parent is not suspended, and who
  is suspended has a live child.
-/

namespace FlowManager.Im

open Concurrent Function

/-! ## Sessions of one thread -/

/-- What ends in `d` does not reach into a list without `d`. -/
theorem prefix_of_prefix_append {α : Type} {d : α} {xs ys zs : List α} (hd : d ∉ zs)
    (h : xs ++ [d] <+: ys ++ zs) : xs ++ [d] <+: ys := by
  obtain ⟨rest, hrest⟩ := h
  rcases List.append_eq_append_iff.mp hrest with ⟨tail, hys, -⟩ | ⟨tail, hxs, hzs⟩
  · exact ⟨tail, hys.symm⟩
  · rcases List.eq_nil_or_concat tail with rfl | ⟨front, last, rfl⟩
    · exact ⟨[], by rw [hxs, List.append_nil, List.append_nil]⟩
    · rw [List.concat_eq_append] at hxs hzs
      rw [← List.append_assoc] at hxs
      obtain ⟨-, hlast⟩ := List.append_inj' hxs rfl
      obtain rfl := List.cons.inj hlast |>.1
      exact absurd (by simp [hzs]) hd

/-- Whoever leaves a thread, the bots of one thread are broken together. -/
theorem isPrefixOf_sessionID_iff (threadID t : String) (a b : Int) :
    (threadID ++ ".").isPrefixOf (sessionID t a) = true ↔
      (threadID ++ ".").isPrefixOf (sessionID t b) = true := by
  have hiff : ∀ n : Int, (threadID ++ ".").isPrefixOf (sessionID t n) = true ↔
      threadID.toList ++ ['.'] <+: t.toList ++ ['.'] := by
    intro n
    show (sessionID t n).startsWith (threadID ++ ".") = true ↔ _
    rw [String.startsWith_string_iff, sessionID]
    simp only [String.toList_append]
    exact ⟨prefix_of_prefix_append (Numeral.notMem_toString (by decide) (by decide) n),
      fun hprefix => hprefix.trans (List.prefix_append _ _)⟩
  rw [hiff a, hiff b]

/-! ## What is kept beside the state -/

/-- For every session, the child for which a push suspended it last, and whether a dialog of
this child has been removed from the store since. -/
abbrev Causes := String → Option (String × Bool)

/-- A push that calls `Suspend` is noted down, an agent who takes over cancels the note, and
`stopConnection` ticks it off. -/
def causes {E : Type} (s : ServerPool) (e : TurnEvent E) (h : Causes) : Causes :=
  match e with
  | .round w =>
    match w.event with
    | .granted m =>
      if s.shared.board.Suspends m then
        update h m.releasedSessionID (some (sessionID m.threadID m.sub, false))
      else h
    | .released r =>
      if r.reason = .agentTakeover ∧
          s.shared.board.state (sessionID r.threadID r.sub) ≠ some .suspended then
        update h (sessionID r.threadID r.sub) none
      else h
    | .message _ => h
  | .act _ (.delete id) => fun parent => (h parent).map fun x => (x.1, x.2 || x.1 == id)
  | _ => h

/-! ## The condition -/

/-- The session is linked to no suspended parent, `parent` apart. -/
def Board.Spares (b : Board) (id parent : String) : Prop :=
  ∀ p, b.link id = some p → p = parent ∨ b.state p ≠ some .suspended

/-- No dialog of the session has been broken, or has ended its run, unless its goroutine is
through and it is not stored any more. -/
def Unfinished (s : ServerPool) (id : String) : Prop :=
  ∀ d : Ptr, d.id = id →
    (Closing (s.thread (.runner d)) → s.thread (.runner d) = .ret .exit ∧ ¬ s.shared.Stored d) ∧
    (s.shared.Stored d → ¬ s.shared.chans.Closed (s.shared.conns d).ctx)

/-- A pop breaks a bot with a suspended parent only to go back to this parent; a transfer
does not overwrite the link to another suspended parent, and suspends its source for a bot
that is alive, or new and started by the transfer; and the schema of a bot with a suspended
parent is found. -/
def Careful {E : Type} (x : ServerPool × Causes) (e : TurnEvent E) (y : ServerPool × Causes) :
    Prop :=
  match e with
  | .round w => ∀ m, w.event = .granted m →
      (x.1.shared.board.state (sessionID m.threadID m.sub) = some .suspended →
        (x.1.shared.board.entry m.releasedSessionID).isSome →
        x.1.shared.board.Spares m.releasedSessionID (sessionID m.threadID m.sub)) ∧
      (x.1.shared.board.Transfers m →
        x.1.shared.board.Spares (sessionID m.threadID m.sub) m.releasedSessionID) ∧
      (x.1.shared.board.Suspends m → Unfinished x.1 (sessionID m.threadID m.sub) ∧
        (y.1.shared.board.entry (sessionID m.threadID m.sub)).isSome)
  | .act c (.routing _) => Closing (y.1.thread (.runner c)) →
      ∀ p, x.1.shared.board.link c.id = some p → x.1.shared.board.state p ≠ some .suspended
  | _ => True

/-! ## The invariant -/

/-- A goroutine that would follow the link of its session: it has not been broken, or it has
come to its natural end. -/
def Steady (s : ServerPool) (course : Ptr → Course) (d : Ptr) : Prop :=
  ((course d).closes = false ∧
    (s.shared.Stored d → ¬ s.shared.chans.Closed (s.shared.conns d).ctx)) ∨
  course d = .ending ∨ course d = .gone

/-- The goroutine is about to resume the parent. -/
def InHand (s : ServerPool) (course : Ptr → Course) (d : Ptr) (parent : String) : Prop :=
  course d = .took parent ∨
    ∃ q : Ptr, q.id = parent ∧ s.shared.Stored q ∧ (course d = .found q ∨ course d = .waking q)

/-- The child can still pop back to its parent. -/
inductive PopsBack (s : ServerPool) (course : Ptr → Course) (child parent : String) : Prop where
  | linked (hlink : s.shared.board.link child = some parent) (hparent : parent ≠ "")
      (hsteady : ∀ d : Ptr, d.id = child → Steady s course d)
      (hlive : ∃ d : Ptr, d.id = child ∧ s.shared.Stored d ∧ course d ≠ .gone)
  | inHand {d : Ptr} (hd : d.id = child) (h : InHand s course d parent)

/-- Whoever is suspended by a push has a child that can pop back to it. -/
structure Bound (x : ServerPool × Causes) (course : Ptr → Course) : Prop where
  onCourse : OnCourse x.1 course
  thread : ∀ {parent child finished}, x.2 parent = some (child, finished) →
    ∃ t a b, parent = sessionID t a ∧ child = sessionID t b
  bound : ∀ {parent child finished}, x.2 parent = some (child, finished) →
    x.1.shared.board.state parent = some .suspended →
    finished = false ∧ PopsBack x.1 course child parent

section Rounds

variable {E : Type} {w : Outside E} {s : ServerPool} {m : Server} {course : Ptr → Course}
  {h : Causes}

/-- The session is stored, with this state. -/
theorem state_of_stored {s : Server} (hc : s.Stored c) :
    s.board.state c.id = some (s.conns c).state := by
  unfold Board.state
  rw [hc.entry]
  rfl

theorem stored_of_state {s : Server} {id : String}
    (h : s.board.state id = some st) :
    ∃ gen, s.Stored ⟨id, gen⟩ ∧ (s.conns ⟨id, gen⟩).state = st := by
  obtain ⟨e, hentry, hstate⟩ := Board.state_eq_some.mp h
  obtain ⟨gen, hgen, rfl⟩ := Option.map_eq_some_iff.mp hentry
  exact ⟨gen, hgen, hstate⟩

section

variable (hcourse : OnCourse s course)
  (hrun : (listen w.event).run (exec w) s.shared = some ((), m))
include hcourse hrun

/-- A connection that was not cancelled before a round is so after it only if it was broken. -/
theorem cancelled_of_round
    (hbefore : s.shared.Stored d → ¬ s.shared.chans.Closed (s.shared.conns d).ctx)
    (hstored : m.Stored d) (hclosed : m.chans.Closed (m.conns d).ctx) :
    (∃ g, w.event = .granted g ∧
      s.shared.board.state (sessionID g.threadID g.sub) = some .suspended ∧
      d.id = g.releasedSessionID ∧ (s.shared.board.entry d.id).isSome) ∨
    (∃ r, w.event = .released r ∧ r.reason = .clientLeave ∧ r.threadID ≠ "" ∧
      (r.threadID ++ ".").isPrefixOf d.id = true) := by
  have hserved : s.shared.Served m := serves_listen w.event E w s.shared () m hrun
  obtain ⟨hboard, -⟩ := listen_board hcourse.apart hrun
  have hold : ∀ {e : Entry}, s.shared.board.entry d.id = some e → e.cancelled = false := by
    intro e he
    obtain ⟨hd, rfl⟩ := hserved.entry hstored he
    exact decide_eq_false (hbefore hd)
  have hentry := hstored.entry
  have hcancelled : ((m.conns d).entry m.chans).cancelled = true := decide_eq_true hclosed
  generalize (m.conns d).entry m.chans = e' at hentry hcancelled
  rw [hboard] at hentry
  have hevolves := s.shared.board.listen_evolves w d.id
  generalize hx : (s.shared.board.listen w).entry d.id = x at hevolves
  rw [hentry] at hx
  -- only a pop and a customer who leaves cancel; all other changes keep the flag
  have hsame : ∀ {e : Entry}, s.shared.board.entry d.id = some e → e.cancelled = true → False := by
    intro e he hc
    rw [hold he] at hc
    cases hc
  cases hevolves with
  | same => exact (hsame hx.symm hcancelled).elim
  | dialed =>
    cases hx
    cases hcancelled
  | pushed _ _ _ he | takenOver _ _ _ he | resumed _ _ he | returned he =>
    cases hx
    exact (hsame he hcancelled).elim
  | popped hevent hsuspended hid he => exact Or.inl ⟨_, hevent, hsuspended, hid, by rw [he]; rfl⟩
  | left hevent hreason hthread hid => exact Or.inr ⟨_, hevent, hreason, hthread, hid⟩

/-- A child that could pop back before a round can do so after it, or its parent is awake. -/
theorem PopsBack.round
    (hcareful : Careful (s, h) (.round w) y)
    (hparent : parent = sessionID t a) (hchild : child = sessionID t b)
    (hbefore : s.shared.board.state parent = some .suspended)
    (hafter : m.board.state parent = some .suspended) (hpops : PopsBack s course child parent) :
    PopsBack { s with shared := m } course child parent := by
  have hserved : s.shared.Served m := serves_listen w.event E w s.shared () m hrun
  obtain ⟨hboard, -⟩ := listen_board hcourse.apart hrun
  cases hpops with
  | inHand hd hhand =>
    refine .inHand hd ?_
    rcases hhand with htook | ⟨q, hq, hstored, hd⟩
    · exact Or.inl htook
    · exact Or.inr ⟨q, hq, (hserved.kept q hstored).1, hd⟩
  | linked hlink hnamed hsteady hlive =>
    obtain ⟨d, hd, hstored, hhere⟩ := hlive
    refine .linked ?_ hnamed (fun d hd => ?_) ⟨d, hd, (hserved.kept d hstored).1, hhere⟩
    · -- the link is not overwritten
      show m.board.link child = some parent
      rw [hboard]
      rcases s.shared.board.listen_link w with ⟨g, hevent, htransfers, hnew⟩ | ⟨-, hsame⟩
      · rw [hnew]
        by_cases hid : child = sessionID g.threadID g.sub
        · rw [hid, update_self]
          rcases (hcareful g hevent).2.1 htransfers parent (hid ▸ hlink) with heq | hawake
          · rw [heq]
          · exact absurd hbefore hawake
        · rw [update_of_ne hid]
          exact hlink
      · rw [hsame]
        exact hlink
    · rcases hsteady d hd with ⟨hcloses, hopen⟩ | hending
      · refine Or.inl ⟨hcloses, fun hstored hclosed => ?_⟩
        rcases cancelled_of_round hcourse hrun hopen hstored hclosed with
          ⟨g, hevent, hsuspended, hid, hheld⟩ | ⟨r, hevent, hreason, hthread, hid⟩
        · -- it was broken to go back to its parent, which is resumed
          rw [hid] at hd hheld
          rcases (hcareful g hevent).1 hsuspended hheld parent (hd ▸ hlink) with heq | hawake
          · rw [heq, hboard, Board.listen_popped hevent hsuspended] at hafter
            cases hafter
          · exact absurd hbefore hawake
        · -- the client has left, and the parent was broken too
          rw [hd, hchild, isPrefixOf_sessionID_iff _ _ _ a, ← hparent] at hid
          unfold Board.state at hafter
          rw [hboard, Board.listen_left hevent hreason hthread hid] at hafter
          obtain ⟨e', he', hstate⟩ := Option.map_eq_some_iff.mp hafter
          obtain ⟨e, -, rfl⟩ := Option.map_eq_some_iff.mp he'
          cases hstate
      · exact Or.inr hending

/-- A push that suspends its source links it to a child that will follow the link. -/
theorem popsBack_of_suspends (hevent : w.event = .granted g) (hsuspends : s.shared.board.Suspends g)
    (hunfinished : Unfinished s (sessionID g.threadID g.sub))
    (hstarted : (m.board.entry (sessionID g.threadID g.sub)).isSome) :
    PopsBack { s with shared := m } course (sessionID g.threadID g.sub) g.releasedSessionID := by
  obtain ⟨hboard, -⟩ := listen_board hcourse.apart hrun
  refine .linked ?_ hsuspends.1.1 (fun d hd => ?_) ?_
  · show m.board.link _ = _
    rw [hboard]
    rcases s.shared.board.listen_link w with ⟨g', hevent', -, hlink⟩ | ⟨hnot, -⟩
    · cases hevent.symm.trans hevent'
      rw [hlink, update_self]
    · exact absurd hsuspends.1 (hnot g hevent)
  · obtain ⟨hclosing, hopen⟩ := hunfinished d hd
    cases hcloses : (course d).closes with
    | false =>
      refine Or.inl ⟨hcloses, fun hstored hclosed => ?_⟩
      rcases cancelled_of_round hcourse hrun hopen hstored hclosed with
        ⟨g', hevent', -, hid, -⟩ | ⟨r, hevent', -⟩
      · cases hevent.symm.trans hevent'
        exact g.releasedSessionID_ne (hid.symm.trans hd)
      · cases hevent.symm.trans hevent'
    | true =>
      have hgoing := hcourse.runner d
      rw [(hclosing (closing_of_going hcloses hgoing)).1] at hgoing
      rcases hgoing with ⟨-, hl⟩ | ⟨hgone, -⟩
      · cases hl
      · exact Or.inr (Or.inr hgone)
  · -- the dialog was there, and is not through, or has just been made
    obtain ⟨e, he⟩ := Option.isSome_iff_exists.mp hstarted
    obtain ⟨gen, hgen, -⟩ := Option.map_eq_some_iff.mp he
    have hgen : m.Stored ⟨sessionID g.threadID g.sub, gen⟩ := hgen
    refine ⟨⟨_, gen⟩, rfl, hgen, fun hgone => ?_⟩
    have hserved : s.shared.Served m := serves_listen w.event E w s.shared () m hrun
    rcases hserved.fresh _ hgen with hstored | ⟨hmade, -⟩
    · have hclosing := closing_of_going (by rw [hgone]; rfl) (hcourse.runner ⟨_, gen⟩)
      exact ((hunfinished _ rfl).1 hclosing).2 hstored
    · cases (hcourse.waiting _ hmade).symm.trans hgone

/-- Who is suspended after a round was so before, unless it is noted down why. -/
theorem suspended_of_round (hafter : m.board.state parent = some .suspended) :
    s.shared.board.state parent = some .suspended ∨
    (∃ g, w.event = .granted g ∧ s.shared.board.Suspends g ∧ parent = g.releasedSessionID) ∨
    (∃ r, w.event = .released r ∧ r.reason = .agentTakeover ∧
      parent = sessionID r.threadID r.sub ∧ s.shared.board.state parent = some .running) := by
  obtain ⟨hboard, -⟩ := listen_board hcourse.apart hrun
  obtain ⟨e', hentry, hstate⟩ := Board.state_eq_some.mp hafter
  rw [hboard] at hentry
  have hevolves := s.shared.board.listen_evolves w parent
  generalize hx : (s.shared.board.listen w).entry parent = x at hevolves
  rw [hentry] at hx
  cases hevolves with
  | same => exact Or.inl (Board.state_eq_some.mpr ⟨e', hx.symm, hstate⟩)
  | dialed | resumed | popped | left =>
    cases hx
    cases hstate
  | pushed hevent hsuspends hid => exact Or.inr (Or.inl ⟨_, hevent, hsuspends, hid⟩)
  | takenOver hevent hreason hid he hrunning =>
    exact Or.inr (Or.inr ⟨_, hevent, hreason, hid, Board.state_eq_some.mpr ⟨_, he, hrunning⟩⟩)
  | returned he =>
    cases hx
    exact Or.inl (Board.state_eq_some.mpr ⟨_, he, hstate⟩)

end

/-- What a round notes down. -/
theorem causes_round (hcause : causes s (.round w) h parent = some (child, finished)) :
    (h parent = some (child, finished) ∧
      (∀ g, w.event = .granted g → s.shared.board.Suspends g → parent ≠ g.releasedSessionID) ∧
      ∀ r, w.event = .released r → r.reason = .agentTakeover → parent = sessionID r.threadID r.sub →
        s.shared.board.state parent = some .suspended) ∨
    ∃ g, w.event = .granted g ∧ s.shared.board.Suspends g ∧ parent = g.releasedSessionID ∧
      child = sessionID g.threadID g.sub ∧ finished = false := by
  unfold causes at hcause
  dsimp only at hcause
  cases hevent : w.event with
  | granted g =>
    rw [hevent] at hcause
    dsimp only at hcause
    by_cases hsuspends : s.shared.board.Suspends g
    · rw [if_pos hsuspends] at hcause
      by_cases hid : parent = g.releasedSessionID
      · rw [hid, update_self] at hcause
        cases hcause
        exact Or.inr ⟨g, rfl, hsuspends, hid, rfl, rfl⟩
      · rw [update_of_ne hid] at hcause
        refine Or.inl ⟨hcause, ?_, nofun⟩
        rintro g' ⟨⟩ _
        exact hid
    · rw [if_neg hsuspends] at hcause
      refine Or.inl ⟨hcause, ?_, nofun⟩
      rintro g' ⟨⟩ hs
      exact absurd hs hsuspends
  | released r =>
    rw [hevent] at hcause
    dsimp only at hcause
    refine Or.inl ⟨?_, nofun, ?_⟩
    · split at hcause
      · by_cases hid : parent = sessionID r.threadID r.sub
        · rw [hid, update_self] at hcause
          cases hcause
        · rwa [update_of_ne hid] at hcause
      · exact hcause
    · rintro r' ⟨⟩ hreason hid
      by_contra hawake
      rw [hid] at hawake
      rw [if_pos ⟨hreason, hawake⟩, hid, update_self] at hcause
      cases hcause
  | message msg =>
    rw [hevent] at hcause
    exact Or.inl ⟨hcause, nofun, nofun⟩

/-- The listener handles an event. -/
theorem Bound.round (hbound : Bound (s, h) course)
    (hrun : (listen w.event).run (exec w) s.shared = some ((), m))
    (hcareful : Careful (s, h) (.round w) ({ s with shared := m }, h')) :
    Bound ({ s with shared := m }, causes s (.round w) h) course where
  onCourse := hbound.onCourse.round hrun
  thread {parent child finished} hcause := by
    rcases causes_round hcause with ⟨hold, -⟩ | ⟨g, -, hsuspends, rfl, rfl, -⟩
    · exact hbound.thread hold
    · have hnamed := hsuspends.1.1
      unfold BotControlGranted.releasedSessionID at hnamed ⊢
      split at hnamed
      · rename_i hsub
        exact ⟨g.threadID, g.releasedSub, g.sub, if_pos hsub, rfl⟩
      · exact absurd rfl hnamed
  bound {parent child finished} hcause hafter := by
    rcases causes_round hcause with ⟨hold, hpush, htakeover⟩ | ⟨g, hevent, hsuspends, rfl, rfl, rfl⟩
    · have hbefore : s.shared.board.state parent = some .suspended := by
        rcases suspended_of_round hbound.onCourse hrun hafter with
          hbefore | ⟨g, hevent, hsuspends, hid⟩ | ⟨r, hevent, hreason, hid, -⟩
        · exact hbefore
        · exact absurd hid (hpush g hevent hsuspends)
        · exact htakeover r hevent hreason hid
      obtain ⟨hfinished, hpops⟩ := hbound.bound hold hbefore
      obtain ⟨t, a, b, hparent, hchild⟩ := hbound.thread hold
      exact ⟨hfinished, hpops.round hbound.onCourse hrun hcareful hparent hchild hbefore hafter⟩
    · obtain ⟨hunfinished, hstarted⟩ := (hcareful g hevent).2.2 hsuspends
      exact ⟨rfl, popsBack_of_suspends hbound.onCourse hrun hevent hsuspends hunfinished hstarted⟩

end Rounds

/-! ## Moves of the goroutines -/

section Moves

variable {E : Type} {w : Outside E} {s : ServerPool} {m : Server} {course : Ptr → Course}
  {h : Causes} {c : Ptr} {a : Op} {r : a.Result} {st : Course}

/-- A goroutine suspends nobody. -/
theorem suspended_of_act (hgoes : Goes c (course c) a r st)
    (hexec : exec w a s.shared = some (r, m)) {parent : String}
    (hafter : m.board.state parent = some .suspended) :
    ∃ gen, s.shared.Stored ⟨parent, gen⟩ ∧ m.Stored ⟨parent, gen⟩ ∧
      (s.shared.conns ⟨parent, gen⟩).state = .suspended := by
  obtain ⟨gen, hstored, hstate⟩ := stored_of_state hafter
  refine ⟨gen, (exec_frame hexec hgoes.ne_dial).stored _ hstored, hstored, ?_⟩
  rcases exec_state hexec hgoes.ne_dial ⟨parent, gen⟩ with hsame | ⟨x, ha, hx⟩
  · rwa [← hsame]
  · rw [hx] at hstate
    subst hstate
    rcases hgoes.store ha with ⟨-, hx⟩ | ⟨-, -, hx⟩ <;> cases hx

/-- A goroutine drops only the link of its own session, and only behind its run. -/
theorem link_of_act (hgoes : Goes c (course c) a r st) (hexec : exec w a s.shared = some (r, m))
    {id : String} (hid : id = c.id → course c ≠ .ending ∧ course c ≠ .deleted) :
    m.board.link id = s.shared.board.link id := by
  rcases exec_link hexec hgoes.ne_storeParent id with hsame | ha | ha
  · exact hsame
  · obtain ⟨hc, hst⟩ := hgoes.takeParent_of ha
    exact absurd hst (hid hc).1
  · obtain ⟨hc, hst⟩ := hgoes.deleteParent_of ha
    exact absurd hst (hid hc).2

/-- The dialog of a child stays alive, unless its goroutine stops. -/
theorem live_of_act (hgoes : Goes c (course c) a r st) (hexec : exec w a s.shared = some (r, m))
    (hc : c.id = child → st ≠ .deleted ∧ (st = .gone → course c = .gone))
    (hlive : ∃ d : Ptr, d.id = child ∧ s.shared.Stored d ∧ course d ≠ .gone) :
    ∃ d : Ptr, d.id = child ∧ m.Stored d ∧ update course c st d ≠ .gone := by
  obtain ⟨d, hd, hstored, hhere⟩ := hlive
  refine ⟨d, hd, ?_, ?_⟩
  · by_cases hdeleted : st = .deleted
    · have hid : d.id ≠ c.id := fun hid => (hc (hid ▸ hd)).1 hdeleted
      subst hdeleted
      generalize course c = st₀ at hgoes
      cases hgoes
      cases hexec
      exact (AList.lookup_erase_ne hid).trans hstored
    · have hdelete : ∀ id, a ≠ .delete id := fun id hid => hdeleted (hgoes.delete_iff.mp ⟨id, hid⟩)
      rwa [Server.Stored, exec_store_eq hexec hdelete hgoes.ne_dial]
  · by_cases hdc : d = c
    · subst hdc
      rw [update_self]
      exact fun hgone => hhere ((hc hd).2 hgone)
    · rwa [update_of_ne hdc]

section

variable (hcourse : OnCourse s course) (hgoes : Goes c (course c) a r st)
include hcourse hgoes

/-- A goroutine cancels no connection but its own, and only when it stops. -/
theorem open_of_act
    (hexec : exec w a s.shared = some (r, m)) (hd : d = c → (course c).closes = false)
    (hopen : s.shared.Stored d → ¬ s.shared.chans.Closed (s.shared.conns d).ctx) :
    m.Stored d → ¬ m.chans.Closed (m.conns d).ctx := by
  have hframe := exec_frame hexec hgoes.ne_dial
  intro hstored hclosed
  rw [hframe.ctx] at hclosed
  rcases exec_closed hexec hgoes.ne_returnFromQueue hclosed with hclosed | ha
  · exact hopen (hframe.stored d hstored) hclosed
  · obtain ⟨rc, lc, hbreaking, hctx⟩ := hgoes.cancel_of ha
    have hcloses := hd ((hcourse.breaking c rc lc hbreaking).2 d (hframe.stored d hstored) hctx)
    rw [hbreaking] at hcloses
    cases hcloses

/-- The goroutines that do not move are as steady as before. -/
theorem steady_of_ne (hexec : exec w a s.shared = some (r, m)) (hd : d ≠ c) (p : Go Label)
    (hsteady : Steady s course d) :
    Steady (s.set (.runner c) m p) (update course c st) d := by
  unfold Steady
  rw [update_of_ne hd]
  rcases hsteady with ⟨hcloses, hopen⟩ | hending
  · exact Or.inl ⟨hcloses, open_of_act hcourse hgoes hexec (fun h => absurd h hd) hopen⟩
  · exact Or.inr hending

/-- A goroutine that is not closing stops only if it was broken, or if its schema is not
found. -/
theorem closes_of_act
    (hexec : exec w a s.shared = some (r, m)) (hcloses : (course c).closes = false)
    (hopen : s.shared.Stored c → ¬ s.shared.chans.Closed (s.shared.conns c).ctx) :
    st.closes = false ∨ st = .ending ∨ (∃ d, a = .routing d) ∧ st = .stopping := by
  have hstored : course c = .alive → s.shared.Stored c :=
    fun hc => hcourse.works c (by rw [hc]; rfl)
  have hstate := hcourse.broken c hcloses
  generalize course c = st₀ at hgoes hcloses hstored
  cases hgoes with
  | noSchema => exact Or.inr (Or.inr ⟨⟨c, rfl⟩, rfl⟩)
  | cancelled =>
    -- the lifetime context was done
    refine absurd ?_ (hopen (hstored rfl))
    rcases exec_awaitResume hexec with ⟨hr, -⟩ | ⟨-, hdone, -⟩
    · cases hr
    · exact hdone
  | terminated =>
    refine absurd (hstate (hstored rfl) ?_) (hopen (hstored rfl))
    obtain ⟨hterminating, -⟩ := Prod.mk.inj (Option.some.inj hexec)
    exact of_decide_eq_true hterminating
  | leave => exact Or.inr (Or.inl rfl)
  | take | run | schema | resumed | goOn => exact Or.inl rfl
  | _ => cases hcloses

/-- The goroutine of a linked session moves. -/
theorem linked_act {k : a.Result → Go Label} (hk : Going c st (k r))
    (hexec : exec w a s.shared = some (r, m))
    (hcareful : Careful (E := E) (s, h) (.act c a) (s.set (.runner c) m (k r), h'))
    (hnamed : parent ≠ "") (hbefore : s.shared.board.state parent = some .suspended)
    (hlink : s.shared.board.link c.id = some parent)
    (hsteady : ∀ d : Ptr, d.id = c.id → Steady s course d)
    (hlive : ∃ d : Ptr, d.id = c.id ∧ s.shared.Stored d ∧ course d ≠ .gone) :
    PopsBack (s.set (.runner c) m (k r)) (update course c st) c.id parent := by
  -- it is enough that the goroutine stays steady and keeps its link
  have hlinked : m.board.link c.id = s.shared.board.link c.id →
      (st.closes = false ∧ (m.Stored c → ¬ m.chans.Closed (m.conns c).ctx)) ∨ st = .ending ∨
        st = .gone →
      PopsBack (s.set (.runner c) m (k r)) (update course c st) c.id parent := by
    intro hkept hst
    refine .linked (hkept.trans hlink) hnamed (fun d hd => ?_) ?_
    · by_cases hdc : d = c
      · subst hdc
        unfold Steady
        rw [update_self]
        exact hst
      · exact steady_of_ne hcourse hgoes hexec hdc _ (hsteady d hd)
    · refine live_of_act hgoes hexec (fun _ => ?_) hlive
      have hc := hsteady c rfl
      unfold Steady at hc
      generalize course c = st₀ at hgoes hc
      constructor
      · rintro rfl
        rcases hst with ⟨hst, -⟩ | hst | hst <;> cases hst
      · rintro rfl
        cases hgoes with
        | unlink => rcases hc with ⟨hc, -⟩ | hc | hc <;> cases hc
        | remove => rfl
  rcases hsteady c rfl with ⟨hcloses, hopen⟩ | hending | hgone
  · have hkept : m.board.link c.id = s.shared.board.link c.id := by
      refine link_of_act hgoes hexec fun _ => ?_
      constructor <;> intro hc <;> rw [hc] at hcloses <;> cases hcloses
    refine hlinked hkept ?_
    rcases closes_of_act hcourse hgoes hexec hcloses hopen with hst | hst | ⟨⟨d, rfl⟩, rfl⟩
    · exact Or.inl ⟨hst, open_of_act hcourse hgoes hexec (fun _ => hcloses) hopen⟩
    · exact Or.inr (Or.inl hst)
    · -- the schema is found, as the parent is suspended
      refine absurd hbefore (hcareful ?_ parent hlink)
      show Closing ((s.set (.runner c) m (k r)).thread (.runner c))
      rw [Pool.set_thread_self]
      exact closing_of_going rfl hk
  · rw [hending] at hgoes
    have hanswer : s.shared.pushParent.lookup c.id = some parent := hlink
    cases hgoes with
    | complete ha =>
      refine hlinked ?_ (Or.inr (Or.inl rfl))
      cases a with
      | completeId d | complete d id =>
        cases hexec
        rfl
      | _ => cases ha
    | noParent hr =>
      obtain ⟨rfl, -⟩ := Prod.mk.inj (Option.some.inj hexec)
      rw [hanswer] at hr
      rcases hr with hr | hr
      · cases hr
      · exact absurd (Option.some.inj hr) hnamed
    | takeParent =>
      obtain ⟨hr, -⟩ := Prod.mk.inj (Option.some.inj hexec)
      cases hanswer.symm.trans hr
      exact .inHand rfl (Or.inl (update_self ..))
  · refine hlinked (link_of_act hgoes hexec fun _ => by rw [hgone]; exact ⟨nofun, nofun⟩) ?_
    rw [hgone] at hgoes
    cases hgoes
    exact Or.inr (Or.inr rfl)

end

/-- The goroutine that is about to resume a parent moves. -/
theorem inHand_act {k : a.Result → Go Label} (hgoes : Goes c (course c) a r st)
    (hexec : exec w a s.shared = some (r, m))
    (hstored : s.shared.Stored ⟨parent, gen⟩)
    (hbefore : (s.shared.conns ⟨parent, gen⟩).state = .suspended)
    (hafter : m.board.state parent = some .suspended) (hhand : InHand s course c parent) :
    InHand (s.set (.runner c) m (k r)) (update course c st) c parent := by
  unfold InHand at hhand ⊢
  rw [update_self]
  rcases hhand with htook | ⟨q, hq, hqstored, hfound | hwaking⟩
  · rw [htook] at hgoes
    cases hgoes with
    | lost =>
      obtain ⟨hr, -⟩ := Prod.mk.inj (Option.some.inj hexec)
      cases hr.symm.trans hstored
    | find =>
      obtain ⟨hr, rfl⟩ := Prod.mk.inj (Option.some.inj hexec)
      have hfound : s.shared.Stored ⟨parent, _⟩ := hr
      exact Or.inr ⟨_, rfl, hfound, Or.inl rfl⟩
  · obtain rfl := hstored.unique hqstored hq
    rw [hfound] at hgoes
    cases hgoes with
    | awake =>
      obtain ⟨hr, -⟩ := Prod.mk.inj (Option.some.inj hexec)
      exact absurd hbefore (of_decide_eq_false hr)
    | asleep =>
      obtain ⟨-, rfl⟩ := Prod.mk.inj (Option.some.inj hexec)
      exact Or.inr ⟨_, rfl, hqstored, Or.inr rfl⟩
  · obtain rfl := hstored.unique hqstored hq
    rw [hwaking] at hgoes
    cases hgoes with
    | newRun =>
      cases hexec
      exact Or.inr ⟨_, rfl, hqstored, Or.inr rfl⟩
    | wake =>
      -- now the parent is running
      cases hexec
      have hrunning := state_of_stored (s := s.shared.modify ⟨parent, gen⟩ fun conn =>
        { conn with state := .running }) (c := ⟨parent, gen⟩) hstored
      rw [Server.modify_self] at hrunning
      cases hrunning.symm.trans hafter

/-- A goroutine moves. -/
theorem PopsBack.act (hcourse : OnCourse s course) {k : a.Result → Go Label}
    (hgoes : Goes c (course c) a r st) (hk : Going c st (k r))
    (hexec : exec w a s.shared = some (r, m))
    (hcareful : Careful (E := E) (s, h) (.act c a) (s.set (.runner c) m (k r), h'))
    (hafter : m.board.state parent = some .suspended)
    (hpops : PopsBack s course child parent) :
    PopsBack (s.set (.runner c) m (k r)) (update course c st) child parent := by
  obtain ⟨gen, hstored, hkept, hbefore⟩ := suspended_of_act hgoes hexec hafter
  cases hpops with
  | linked hlink hnamed hsteady hlive =>
    by_cases hid : child = c.id
    · subst hid
      refine linked_act hcourse hgoes hk hexec hcareful hnamed ?_ hlink hsteady hlive
      rw [state_of_stored hstored, hbefore]
    · refine .linked ?_ hnamed (fun d hd => ?_)
        (live_of_act hgoes hexec (fun h => absurd h.symm hid) hlive)
      · exact (link_of_act hgoes hexec fun h => absurd h hid).trans hlink
      · exact steady_of_ne hcourse hgoes hexec (fun h => hid (hd ▸ h ▸ rfl)) _ (hsteady d hd)
  | @inHand d hd hhand =>
    by_cases hdc : d = c
    · subst hdc
      exact .inHand hd (inHand_act hgoes hexec hstored hbefore hafter hhand)
    · refine .inHand hd ?_
      unfold InHand at hhand ⊢
      rw [update_of_ne hdc]
      rcases hhand with htook | ⟨q, hq, hqstored, hq'⟩
      · exact Or.inl htook
      · obtain rfl := hstored.unique hqstored hq
        exact Or.inr ⟨_, rfl, hkept, hq'⟩

/-- A child is deleted from the store only behind the point where it could pop back. -/
theorem not_popsBack_of_breaking (hcourse : OnCourse s course)
    (hc : course c = .breaking rc lc) : ¬ PopsBack s course c.id parent := by
  intro hpops
  have hstored : s.shared.Stored c := hcourse.works c (by rw [hc]; rfl)
  cases hpops with
  | linked _ _ hsteady =>
    rcases hsteady c rfl with ⟨hcloses, -⟩ | hending | hgone
    · rw [hc] at hcloses
      cases hcloses
    · cases hc.symm.trans hending
    · cases hc.symm.trans hgone
  | @inHand d hd hhand =>
    -- the store holds one dialog of a session
    have hworks : (course d).works = true := by
      rcases hhand with htook | ⟨q, -, -, hfound | hwaking⟩
      · rw [htook]
        rfl
      · rw [hfound]
        rfl
      · rw [hwaking]
        rfl
    obtain rfl := hstored.unique (hcourse.works d hworks) hd
    rcases hhand with htook | ⟨q, -, -, hfound | hwaking⟩
    · cases hc.symm.trans htook
    · cases hc.symm.trans hfound
    · cases hc.symm.trans hwaking

/-- What a goroutine ticks off. -/
theorem causes_act
    (hcause : causes (E := E) s (.act c a) h parent = some (child, finished)) :
    ∃ before, h parent = some (child, before) ∧
      (finished = before ∨ (a = .delete child ∧ finished = true)) := by
  cases a with
  | delete id =>
    obtain ⟨⟨child', before⟩, hbefore, heq⟩ := Option.map_eq_some_iff.mp hcause
    cases heq
    refine ⟨before, hbefore, ?_⟩
    by_cases hid : child' = id
    · exact Or.inr ⟨by rw [hid], by simp [hid]⟩
    · exact Or.inl (by simp [hid])
  | _ => exact ⟨finished, hcause, Or.inl rfl⟩

theorem Bound.act (hbound : Bound (s, h) course) {k : a.Result → Go Label}
    (ht : s.thread (.runner c) = .act a k) (hexec : exec w a s.shared = some (r, m))
    (hcareful : Careful (E := E) (s, h) (.act c a) (s.set (.runner c) m (k r), h')) :
    ∃ course', Bound (s.set (.runner c) m (k r), causes (E := E) s (.act c a) h) course' := by
  obtain ⟨st, hgoes, hcourse⟩ := hbound.onCourse.act ht hexec
  have hk := hcourse.runner c
  rw [Pool.set_thread_self, update_self] at hk
  refine ⟨update course c st, hcourse, fun {parent child finished} hcause => ?_,
    fun {parent child finished} hcause hafter => ?_⟩
  · obtain ⟨before, hold, -⟩ := causes_act hcause
    exact hbound.thread hold
  · obtain ⟨before, hold, hfinished⟩ := causes_act hcause
    obtain ⟨gen, hstored, -, hstate⟩ := suspended_of_act hgoes hexec hafter
    obtain ⟨hbefore, hpops⟩ := hbound.bound hold (by rw [state_of_stored hstored, hstate])
    refine ⟨?_, hpops.act hbound.onCourse hgoes hk hexec hcareful hafter⟩
    rcases hfinished with rfl | ⟨rfl, -⟩
    · exact hbefore
    · -- the child itself is deleted
      generalize hst₀ : course c = st₀ at hgoes
      cases hgoes with
      | delete => exact absurd hpops (not_popsBack_of_breaking hbound.onCourse hst₀)
      | run ha | complete ha | stop ha => cases ha

end Moves

/-! ## Runs -/

section Turns

variable {E : Type} {s : ServerPool} {course : Ptr → Course} {h : Causes}

/-- A change that leaves the board alone. -/
theorem Bound.same (hbound : Bound (s, h) course) (hcourse : OnCourse s' course)
    (hstate : ∀ id, s'.shared.board.state id = s.shared.board.state id)
    (hlink : s'.shared.board.link = s.shared.board.link)
    (hstored : ∀ c, s'.shared.Stored c ↔ s.shared.Stored c)
    (hclosed : ∀ c, s'.shared.chans.Closed (s'.shared.conns c).ctx ↔
      s.shared.chans.Closed (s.shared.conns c).ctx) : Bound (s', h) course where
  onCourse := hcourse
  thread := hbound.thread
  bound {parent child finished} hcause hafter := by
    rw [hstate] at hafter
    obtain ⟨hfinished, hpops⟩ := hbound.bound hcause hafter
    refine ⟨hfinished, ?_⟩
    cases hpops with
    | linked hl hnamed hsteady hlive =>
      refine .linked (by rw [hlink]; exact hl) hnamed (fun d hd => ?_) (by simpa only [hstored])
      have hs := hsteady d hd
      unfold Steady at hs ⊢
      rwa [hstored, hclosed]
    | inHand hd hhand =>
      refine .inHand hd ?_
      unfold InHand at hhand ⊢
      simpa only [hstored] using hhand

theorem Bound.turn (hbound : Bound x course) (hturn : Trace.Noted (TurnStep E) causes x e y)
    (hcareful : Careful x e y) : ∃ course', Bound y course' := by
  obtain ⟨s, h⟩ := x
  obtain ⟨s', h'⟩ := y
  obtain ⟨hturn, hnote⟩ := hturn
  subst hnote
  cases hturn with
  | round hlistener hrun => exact ⟨course, hbound.round hrun hcareful⟩
  | act hstep =>
    cases hstep with
    | act ht hexec => exact hbound.act ht hexec hcareful
  | next hstep =>
    obtain ⟨hshared, -, hcourse⟩ := hbound.onCourse.next hstep
    refine ⟨course, hbound.same hcourse ?_ ?_ ?_ ?_⟩
    all_goals
      rw [hshared]
    all_goals simp
  | enterQueue id =>
    refine ⟨course, hbound.same (hbound.onCourse.enterQueue id) (fun id' => ?_) ?_ (fun c => ?_)
      fun c => ?_⟩
    · rw [(joinsQueue_board id hbound.onCourse.apart).1]
      refine Board.state_modify _ _ (fun e => ?_) _
      rfl
    · rw [(joinsQueue_board id hbound.onCourse.apart).1]
      rfl
    · simp [Server.Stored]
    · rw [joinsQueue_closed, (joinsQueue_frame s.shared id).ctx]
  | leaveQueue id =>
    refine ⟨course, hbound.same (hbound.onCourse.leaveQueue id) (fun id' => ?_) ?_ (fun c => ?_)
      fun c => ?_⟩
    · rw [(quitsQueue_board id hbound.onCourse.apart).1]
      refine Board.state_modify _ _ (fun e => ?_) _
      rfl
    · rw [(quitsQueue_board id hbound.onCourse.apart).1]
      rfl
    · simp [Server.Stored]
    · rw [quitsQueue_closed, (quitsQueue_frame s.shared id).ctx]

end Turns

/-! ## A transfer and its end -/

end FlowManager.Im
