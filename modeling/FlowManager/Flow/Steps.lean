import FlowManager.Flow.Route
import FlowManager.Flow.WellFormed

/-!
# What each operation can do

One characterization per operation of the cursor and of `Route`, stated once and used
by every later proof instead of the definitions. All of them hold in a `Safe` flow:
a well-formed program, a current node, and every position inside its node. There no
operation panics.

- `NextSpec`, `nextRequest_spec`: how `NextRequest` finds the next request.
- `Completes`, `GotoSpec`, `goto_spec`: the positions `Goto` sets.
- `Handles`, `request_spec`: the four effects a handler can have.
- `RouteSpec`, `routeStep_spec`: the four ways an iteration of `Route` ends.
-/

namespace FlowManager

open Function

/-- Every index the cursor uses is inside its slice. -/
structure Flow.Safe (f : Flow) : Prop where
  wf : f.prog.WellFormed
  current : ∃ n, f.currentNode = some n ∧ n < f.prog.nodeCount
  position : ∀ n, n < f.prog.nodeCount → 0 ≤ f.position n ∧ f.position n ≤ f.prog.getLength n

namespace Flow

variable {f f' : Flow} {n : Nat}

section

variable (hf : f.Safe)
include hf

theorem Safe.current_lt (hcur : f.currentNode = some n) : n < f.prog.nodeCount := by
  obtain ⟨m, hm, hlt⟩ := hf.current
  rwa [Option.some.inj (hcur.symm.trans hm)]

/-- Moving the cursor inside the program. -/
theorem Safe.move (hprog : f'.prog = f.prog)
    (hcur : ∃ n, f'.currentNode = some n ∧ n < f.prog.nodeCount)
    (hpos : ∀ n, n < f.prog.nodeCount →
      f'.position n = f.position n ∨ (0 ≤ f'.position n ∧ f'.position n ≤ f.prog.getLength n)) :
    f'.Safe := by
  refine ⟨by rw [hprog]; exact hf.wf, by rw [hprog]; exact hcur, fun n hn => ?_⟩
  rw [hprog] at hn ⊢
  rcases hpos n hn with h | h
  · rw [h]
    exact hf.position n hn
  · exact h

/-- A change that leaves program, node and positions alone. -/
theorem Safe.congr (hprog : f'.prog = f.prog)
    (hcur : f'.currentNode = f.currentNode) (hpos : f'.position = f.position) : f'.Safe :=
  hf.move hprog (by rw [hcur]; exact hf.current) fun n _ => Or.inl (by rw [hpos])

theorem Safe.setPosition {pos : Int} (hlo : 0 ≤ pos)
    (hhi : pos ≤ f.prog.getLength n) : (f.setPosition n pos).Safe := by
  refine hf.move rfl hf.current fun m _ => ?_
  by_cases hm : m = n
  · right
    rw [hm]
    simp only [Flow.setPosition, update_self]
    exact ⟨hlo, hhi⟩
  · exact Or.inl (update_of_ne hm _ _)

theorem Safe.setRoot (hn : n < f.prog.nodeCount) : (f.setRoot n).Safe :=
  hf.move rfl ⟨n, rfl, hn⟩ fun _ _ => Or.inl rfl

theorem Safe.setFirst : (f.setFirst n).Safe :=
  hf.setPosition (le_refl _) (Int.natCast_nonneg _)

theorem Safe.enter (hn : n < f.prog.nodeCount) : (f.enter n).Safe :=
  hf.setFirst.setRoot hn

end

/-- A new flow is safe. -/
theorem safe_parsed (functions triggers : List (String × Applications)) (schema : Applications) :
    (Flow.parsed functions triggers schema).Safe := by
  have hwf := Program.wellFormed_parse functions triggers schema
  exact ⟨hwf, ⟨0, rfl, hwf.root_lt⟩, fun n _ => ⟨le_refl _, Int.natCast_nonneg _⟩⟩

/-! ## `NextRequest` -/

/-- The request before position `pos` of node `n`, as `setPreviousRequest` finds it. -/
def before (n : Nat) (pos : Int) : Option ReqPtr := ReqPtr.prev ⟨n, pos.toNat⟩

theorem child_eq (p : Program) {i : Int} (hlo : 0 ≤ i) (hhi : i < p.getLength n) :
    p.child n i = .ok ⟨n, i.toNat⟩ := by
  unfold Program.child
  rw [if_pos ⟨hlo, hhi⟩]

theorem current_eq (hcur : f.currentNode = some n) : f.current = .ok n := by
  unfold Flow.current
  rw [hcur]

theorem setPreviousRequest_eq (hf : f.Safe) (hcur : f.currentNode = some n) :
    f.setPreviousRequest = .ok { f with prevRequest := before n (f.position n) } := by
  obtain ⟨hlo, hhi⟩ := hf.position n (hf.current_lt hcur)
  unfold Flow.setPreviousRequest
  rw [current_eq hcur]
  simp only [bind, Except.bind, pure, Except.pure]
  by_cases hpos : f.position n - 1 < 0
  · have hzero : f.position n = 0 := by omega
    rw [hzero]
    rfl
  · have hlen : f.prog.getLength n ≠ 0 := by omega
    rw [if_neg hpos, if_pos hlen, child_eq f.prog (by omega) (by omega)]
    have hindex : (f.position n - 1).toNat = (f.position n).toNat - 1 := by omega
    have hne : (f.position n).toNat ≠ 0 := by omega
    simp only [before, ReqPtr.prev, hindex, if_neg hne]

section

variable (hcur : f.currentNode = some n)
include hcur

theorem next_eq_some (hlo : 0 ≤ f.position n) (hlt : f.position n < f.prog.getLength n) :
    f.next = .ok (some ⟨n, (f.position n).toNat⟩, f.setPosition n (f.position n + 1)) := by
  unfold Flow.next
  rw [current_eq hcur]
  simp only [bind, Except.bind, pure, Except.pure]
  rw [if_pos hlt, child_eq f.prog hlo hlt]

theorem next_eq_none (hend : f.position n = f.prog.getLength n) : f.next = .ok (none, f) := by
  unfold Flow.next
  rw [current_eq hcur]
  simp only [bind, Except.bind, pure, Except.pure]
  rw [if_neg (by omega)]

theorem getParentNode_eq : f.getParentNode = .ok ((f.prog.nodes n).parent,
      match (f.prog.nodes n).parent with
      | none => f.setFirst n
      | some p => (f.setFirst n).setRoot p) := by
  unfold Flow.getParentNode
  rw [current_eq hcur]
  show (match (f.prog.nodes n).parent with
    | none => Except.ok (none, f.setFirst n)
    | some p => Except.ok (some p, (f.setFirst n).setRoot p)) = _
  cases (f.prog.nodes n).parent <;> rfl

end

/-- Leaving the finished node `n` for its parent `p`. -/
def leave (f : Flow) (n p : Nat) : Flow :=
  { f with position := update f.position n 0, currentNode := some p,
           prevRequest := before n (f.position n) }

/-- How `NextRequest` finds the next request: it climbs out of finished nodes, which
start over, up to a node with a request left, or to the end of the root. -/
inductive NextSpec : Flow → Option ReqPtr → Flow → Prop where
  | here {f : Flow} {n : Nat} (hcur : f.currentNode = some n)
      (hlt : f.position n < f.prog.getLength n) :
      NextSpec f (some ⟨n, (f.position n).toNat⟩)
        { f with position := update f.position n (f.position n + 1),
                 prevRequest := before n (f.position n) }
  | up {f f' : Flow} {n p : Nat} {r : Option ReqPtr} (hcur : f.currentNode = some n)
      (hend : f.position n = f.prog.getLength n) (hparent : (f.prog.nodes n).parent = some p)
      (hnext : NextSpec (f.leave n p) r f') : NextSpec f r f'
  | finish {f : Flow} {n : Nat} (hcur : f.currentNode = some n)
      (hend : f.position n = f.prog.getLength n) (hparent : (f.prog.nodes n).parent = none) :
      NextSpec f none
        { f with position := update f.position n 0,
                 prevRequest := before n (f.position n) }

theorem Safe.leave (hf : f.Safe) (hcur : f.currentNode = some n)
    (hparent : (f.prog.nodes n).parent = some p) : (f.leave n p).Safe := by
  have hlt := hf.current_lt hcur
  have hp : p < f.prog.nodeCount := lt_trans (hf.wf.parent_lt hlt hparent) hlt
  have hset : (f.setFirst n).Safe := hf.setFirst
  exact (hset.setRoot hp).congr rfl rfl rfl

theorem nextRequestAux_spec :
    ∀ (fuel : Nat) {f : Flow} {n : Nat}, f.Safe → f.currentNode = some n → n < fuel →
      ∃ r f', f.nextRequestAux fuel = .ok (r, f') ∧ NextSpec f r f'
  | 0, _, _, _, _, hn => absurd hn (Nat.not_lt_zero _)
  | fuel + 1, f, n, hf, hcur, hn => by
    obtain ⟨hlo, hhi⟩ := hf.position n (hf.current_lt hcur)
    rw [Flow.nextRequestAux, setPreviousRequest_eq hf hcur]
    simp only [bind, Except.bind]
    by_cases hlt : f.position n < f.prog.getLength n
    · rw [next_eq_some (f := { f with prevRequest := before n (f.position n) }) hcur hlo hlt]
      exact ⟨_, _, rfl, NextSpec.here hcur hlt⟩
    · have hend : f.position n = f.prog.getLength n := by omega
      rw [next_eq_none (f := { f with prevRequest := before n (f.position n) }) hcur hend]
      dsimp only
      rw [getParentNode_eq (f := { f with prevRequest := before n (f.position n) }) hcur]
      cases hpar : (f.prog.nodes n).parent with
      | none => exact ⟨_, _, rfl, NextSpec.finish hcur hend hpar⟩
      | some p =>
        have hpn := hf.wf.parent_lt (hf.current_lt hcur) hpar
        obtain ⟨r, f', heq, hspec⟩ := nextRequestAux_spec fuel (f := f.leave n p)
          (hf.leave hcur hpar) rfl (by omega)
        exact ⟨r, f', heq, NextSpec.up hcur hend hpar hspec⟩

/-- `NextRequest` does not panic. -/
theorem nextRequest_spec (hf : f.Safe) :
    ∃ r f', f.nextRequest = .ok (r, f') ∧ NextSpec f r f' := by
  obtain ⟨n, hcur, hlt⟩ := hf.current
  exact nextRequestAux_spec _ hf hcur hlt

/-- A request left in the current node is the next one. -/
theorem nextRequest_here (hf : f.Safe) (hcur : f.currentNode = some n)
    (hlt : f.position n < f.prog.getLength n) :
    ∃ f', f.nextRequest = .ok (some ⟨n, (f.position n).toNat⟩, f') := by
  obtain ⟨r, f', heq, hspec⟩ := nextRequest_spec hf
  have hn : ∀ {m}, f.currentNode = some m → m = n := fun hm =>
    Option.some.inj (hm.symm.trans hcur)
  cases hspec with
  | here hm _ =>
    cases hn hm
    exact ⟨_, heq⟩
  | up hm hend | finish hm hend =>
    cases hn hm
    omega

/-- `NextRequest` is a function of the flow. -/
theorem nextSpec_unique (h : NextSpec f r g) (h' : NextSpec f r' g') : r = r' ∧ g = g' := by
  have hcurs : ∀ {f : Flow} {n m : Nat}, f.currentNode = some n → f.currentNode = some m → n = m :=
    fun hn hm => Option.some.inj (hn.symm.trans hm)
  induction h with
  | here hcur hlt =>
    cases h' with
    | here hcur' => cases hcurs hcur hcur'; exact ⟨rfl, rfl⟩
    | up hcur' hend | finish hcur' hend => cases hcurs hcur hcur'; omega
  | up hcur hend hparent _ ih =>
    cases h' with
    | here hcur' => cases hcurs hcur hcur'; omega
    | up hcur' _ hparent' hnext =>
      cases hcurs hcur hcur'
      cases Option.some.inj (hparent.symm.trans hparent')
      exact ih hnext
    | finish hcur' _ hparent' =>
      cases hcurs hcur hcur'
      rw [hparent] at hparent'
      cases hparent'
  | finish hcur hend hparent =>
    cases h' with
    | here hcur' => cases hcurs hcur hcur'; omega
    | up hcur' _ hparent' =>
      cases hcurs hcur hcur'
      rw [hparent] at hparent'
      cases hparent'
    | finish hcur' => cases hcurs hcur hcur'; exact ⟨rfl, rfl⟩

theorem nextRequest_of_spec (hf : f.Safe) (h : NextSpec f r f') : f.nextRequest = .ok (r, f') := by
  obtain ⟨r', g', heq, hspec⟩ := nextRequest_spec hf
  obtain ⟨rfl, rfl⟩ := nextSpec_unique h hspec
  exact heq

theorem NextSpec.safe {r : Option ReqPtr} (h : NextSpec f r f') : f.Safe → f'.Safe := by
  induction h with
  | here hcur hlt =>
    intro hf
    rename_i f n
    obtain ⟨hlo, hhi⟩ := hf.position n (hf.current_lt hcur)
    have hset : (f.setPosition n (f.position n + 1)).Safe :=
      hf.setPosition (by omega) (by omega)
    exact hset.congr rfl rfl rfl
  | up hcur _ hparent _ ih => exact fun hf => ih (hf.leave hcur hparent)
  | finish hcur _ _ => exact fun hf => (hf.setFirst).congr rfl rfl rfl

/-- The pointer that `NextRequest` returns. -/
theorem NextSpec.ptr (h : NextSpec f r f') :
    f.Safe → ∀ p, r = some p → p.index < f.prog.getLength p.node ∧ p.node < f.prog.nodeCount := by
  induction h with
  | here hcur hlt =>
    rename_i f n
    rintro hf p hp
    cases hp
    have hlo := (hf.position n (hf.current_lt hcur)).1
    have hindex : (f.position n).toNat < f.prog.getLength n := by omega
    exact ⟨hindex, hf.current_lt hcur⟩
  | up hcur _ hparent _ ih => exact fun hf p hp => ih (hf.leave hcur hparent) p hp
  | finish => exact fun _ p hp => by cases hp

/-- `NextRequest` changes nothing but the cursor. -/
structure SameButCursor (f f' : Flow) : Prop where
  prog : f'.prog = f.prog
  step : f'.step = f.step
  counter : f'.counter = f.counter
  count : f'.count = f.count
  interrupted : f'.interrupted = f.interrupted
  gotoCounter : f'.gotoCounter = f.gotoCounter
  cancel : f'.cancel = f.cancel
  logs : f'.logs = f.logs

theorem NextSpec.same (h : NextSpec f r f') : SameButCursor f f' := by
  induction h with
  | here | finish => exact ⟨rfl, rfl, rfl, rfl, rfl, rfl, rfl, rfl⟩
  | up _ _ _ _ ih =>
    exact ⟨ih.prog, ih.step, ih.counter, ih.count, ih.interrupted, ih.gotoCounter, ih.cancel,
      ih.logs⟩

/-- After `NextRequest` the cursor stands right behind the request it returned, and
`prevRequest` is the one before it. -/
theorem NextSpec.cursor (h : NextSpec f r f') :
    f.Safe → ∀ p, r = some p → f'.currentNode = some p.node ∧
      f'.position p.node = p.index + 1 ∧ f'.prevRequest = p.prev := by
  induction h with
  | here hcur hlt =>
    rename_i f n
    rintro hf p hp
    cases hp
    have hlo := (hf.position n (hf.current_lt hcur)).1
    refine ⟨hcur, ?_, rfl⟩
    simp only [update_self]
    omega
  | up hcur _ hparent _ ih => exact fun hf p hp => ih (hf.leave hcur hparent) p hp
  | finish => exact fun _ p hp => by cases hp

/-! ## `Goto` -/

/-- `CompleteTreeTraversal` on node `n`: from `n` upwards, nodes at their start are
moved to their end, until a node that is not at its start, or the root. -/
inductive Completes : Flow → Nat → Flow → Prop where
  | stop {f : Flow} {n : Nat} (h : (f.prog.nodes n).parent = none ∨ f.position n ≠ 0) :
      Completes f n f
  | up {f f' : Flow} {n p : Nat} (hparent : (f.prog.nodes n).parent = some p)
      (hzero : f.position n = 0)
      (hnext : Completes (f.setPosition n (f.prog.getLength n)) p f') : Completes f n f'

theorem completeTreeTraversalAux_none (fuel : Nat) (f : Flow) :
    f.completeTreeTraversalAux fuel none = .ok f := by
  cases fuel <;> rfl

theorem completeTreeTraversalAux_spec :
    ∀ (fuel : Nat) {f : Flow} {n : Nat}, f.Safe → n < f.prog.nodeCount → n < fuel →
      ∃ f', f.completeTreeTraversalAux fuel (some n) = .ok f' ∧ Completes f n f'
  | 0, _, _, _, _, hn => absurd hn (Nat.not_lt_zero _)
  | fuel + 1, f, n, hf, hlt, hn => by
    rw [Flow.completeTreeTraversalAux]
    cases hpar : (f.prog.nodes n).parent with
    | none => exact ⟨f, rfl, Completes.stop (Or.inl hpar)⟩
    | some p =>
      have hpn := hf.wf.parent_lt hlt hpar
      dsimp only
      by_cases hzero : f.position n = 0
      · rw [if_pos hzero]
        have hset : (f.setPosition n (f.prog.getLength n)).Safe :=
          hf.setPosition (Int.natCast_nonneg _) (le_refl _)
        obtain ⟨f', heq, hspec⟩ := completeTreeTraversalAux_spec fuel hset
          (show p < f.prog.nodeCount by omega) (by omega)
        exact ⟨f', heq, Completes.up hpar hzero hspec⟩
      · rw [if_neg hzero]
        exact ⟨f, rfl, Completes.stop (Or.inr hzero)⟩

theorem Completes.safe (h : Completes f n f') : f.Safe → f'.Safe := by
  induction h with
  | stop => exact fun hf => hf
  | up _ _ _ ih => exact fun hf => ih (hf.setPosition (Int.natCast_nonneg _) (le_refl _))

/-- `CompleteTreeTraversal` changes positions only. -/
theorem Completes.eq_position (h : Completes f n f') : f' = { f with position := f'.position } := by
  induction h with
  | stop => rfl
  | up _ _ _ ih =>
    rw [ih]
    rfl

/-- Nodes younger than the start of the walk are not touched. -/
theorem Completes.position_of_gt (h : Completes f n f') :
    f.Safe → n < f.prog.nodeCount → ∀ m, n < m → f'.position m = f.position m := by
  induction h with
  | stop => exact fun _ _ _ _ => rfl
  | @up f f' n p hparent _ _ ih =>
    intro hf hn m hm
    have hpn := hf.wf.parent_lt hn hparent
    have hset : (f.setPosition n (f.prog.getLength n)).Safe :=
      hf.setPosition (Int.natCast_nonneg _) (le_refl _)
    rw [ih hset (show p < f.prog.nodeCount by omega) m (by omega)]
    exact update_of_ne (by omega) _ _

/-- What `Goto` does to the ancestors of the target block `c`. -/
inductive Repairs (f : Flow) (c : Nat) : Flow → Prop where
  | root (h : (f.prog.nodes c).parent = none) : Repairs f c f
  | top {p : Nat} (hparent : (f.prog.nodes c).parent = some p)
      (hroot : (f.prog.nodes p).parent = none) :
      Repairs f c (f.setPosition p ((f.prog.nodes c).idx + 1))
  | climb {p q : Nat} {f' : Flow} (hparent : (f.prog.nodes c).parent = some p)
      (hgrand : (f.prog.nodes p).parent = some q)
      (hcomplete : Completes (f.setPosition p ((f.prog.nodes c).idx + 1)) q f') : Repairs f c f'

/-- The repairs change positions only. -/
theorem Repairs.eq_position (h : Repairs f c f') : f' = { f with position := f'.position } := by
  cases h with
  | root | top => rfl
  | climb _ _ hcomplete =>
    rw [hcomplete.eq_position]
    rfl

/-- `Goto` is refused, or it jumps. -/
inductive GotoSpec (f : Flow) (tag : String) : Bool × Flow → Prop where
  | refused (h : maxGoto < f.gotoCounter ∨ f.prog.lookupTag tag = none) :
      GotoSpec f tag (false, f)
  | jumped {t : Tag} {n : Nat} {f₁ : Flow} (hcount : f.gotoCounter ≤ maxGoto)
      (htag : f.prog.lookupTag tag = some t) (hcur : f.currentNode = some n)
      (hrepairs : Repairs (f.jump n t) t.parent f₁) :
      GotoSpec f tag (true, { f₁ with gotoCounter := f₁.gotoCounter + 1 })

/-- `Goto` changes nothing but the cursor and its own counter. -/
theorem GotoSpec.frame (h : GotoSpec f tag r) :
    r.2 = { f with position := r.2.position, currentNode := r.2.currentNode,
                   gotoCounter := r.2.gotoCounter } := by
  cases h with
  | refused => rfl
  | jumped _ _ _ hrepairs =>
    rw [hrepairs.eq_position]
    rfl

/-- A jump uses up one of the allowed ones. -/
theorem GotoSpec.gotoCounter (h : GotoSpec f tag (true, f')) :
    f'.gotoCounter = f.gotoCounter + 1 ∧ f.gotoCounter ≤ maxGoto := by
  cases h with
  | jumped hcount _ _ hrepairs =>
    rw [hrepairs.eq_position]
    exact ⟨rfl, hcount⟩

theorem lookupTag_ok (hf : f.Safe) (h : f.prog.lookupTag tag = some t) :
    t.parent < f.prog.nodeCount ∧ t.idx < f.prog.getLength t.parent := by
  unfold Program.lookupTag at h
  rw [Option.map_eq_some_iff] at h
  obtain ⟨e, he, rfl⟩ := h
  exact hf.wf.tags e (List.mem_of_find?_eq_some he)

theorem Safe.jump (hf : f.Safe) {t : Tag} (hlt : t.parent < f.prog.nodeCount)
    (hidx : t.idx < f.prog.getLength t.parent) : (f.jump n t).Safe := by
  refine (hf.setFirst.setRoot hlt).setPosition (Int.natCast_nonneg _) ?_
  show (t.idx : Int) ≤ (f.prog.getLength t.parent : Nat)
  omega

/-- The owner of a block is in its parent, so the position right behind it exists. -/
theorem Safe.idx_lt (hf : f.Safe) (hc : c < f.prog.nodeCount)
    (hparent : (f.prog.nodes c).parent = some p) : (f.prog.nodes c).idx < f.prog.getLength p := by
  obtain ⟨r, hr, _⟩ := hf.wf.owned c hc (Set.notMem_empty c) p hparent
  exact Program.request_lt hr

theorem Safe.setBehind (hf : f.Safe) {c p : Nat} (hc : c < f.prog.nodeCount)
    (hparent : (f.prog.nodes c).parent = some p) :
    (f.setPosition p ((f.prog.nodes c).idx + 1)).Safe := by
  have hidx := hf.idx_lt hc hparent
  exact hf.setPosition (by omega) (by omega)

theorem Repairs.safe {c : Nat} (h : Repairs f c f') (hf : f.Safe) (hc : c < f.prog.nodeCount) :
    f'.Safe := by
  cases h with
  | root => exact hf
  | top hparent => exact hf.setBehind hc hparent
  | climb hparent _ hcomplete => exact hcomplete.safe (hf.setBehind hc hparent)

theorem repairAncestors_spec (hf : f.Safe) (hc : c < f.prog.nodeCount) :
    ∃ f', f.repairAncestors c = .ok f' ∧ Repairs f c f' := by
  unfold Flow.repairAncestors
  cases hpar : (f.prog.nodes c).parent with
  | none => exact ⟨f, rfl, Repairs.root hpar⟩
  | some p =>
    dsimp only
    unfold Flow.completeTreeTraversal
    cases hgrand : (f.prog.nodes p).parent with
    | none =>
      rw [completeTreeTraversalAux_none]
      exact ⟨_, rfl, Repairs.top hpar hgrand⟩
    | some q =>
      have hp : p < f.prog.nodeCount := lt_trans (hf.wf.parent_lt hc hpar) hc
      have hq : q < f.prog.nodeCount := lt_trans (hf.wf.parent_lt hp hgrand) hp
      obtain ⟨f', heq, hspec⟩ := completeTreeTraversalAux_spec f.prog.nodeCount
        (hf.setBehind hc hpar) hq hq
      exact ⟨f', heq, Repairs.climb hpar hgrand hspec⟩

/-- `Goto` does not panic. -/
theorem goto_spec (hf : f.Safe) (tag : String) :
    ∃ r, f.goto tag = .ok r ∧ GotoSpec f tag r := by
  obtain ⟨n, hcur, hn⟩ := hf.current
  unfold Flow.goto
  by_cases hcount : maxGoto < f.gotoCounter
  · rw [if_pos hcount]
    exact ⟨_, rfl, GotoSpec.refused (Or.inl hcount)⟩
  · rw [if_neg hcount]
    cases htag : f.prog.lookupTag tag with
    | none => exact ⟨_, rfl, GotoSpec.refused (Or.inr htag)⟩
    | some t =>
      obtain ⟨hlt, hidx⟩ := lookupTag_ok hf htag
      obtain ⟨f₁, heq, hspec⟩ := repairAncestors_spec (hf.jump (n := n) hlt hidx) hlt
      rw [current_eq hcur]
      simp only [bind, Except.bind, pure, Except.pure, heq]
      exact ⟨_, rfl, GotoSpec.jumped (by omega) htag hcur hspec⟩

theorem GotoSpec.safe {tag : String} (h : GotoSpec f tag r) (hf : f.Safe) :
    r.2.Safe := by
  cases h with
  | refused => exact hf
  | jumped _ htag _ hrepairs =>
    obtain ⟨hlt, hidx⟩ := lookupTag_ok hf htag
    exact (hrepairs.safe (hf.jump hlt hidx) hlt).congr rfl rfl rfl

end Flow

/-! ## Handlers -/

section Handlers

open Flow

variable {E : Type} {w : World E} {e : E} {f : Flow}

/-- What the handler of a request can do: nothing but set `cancel`, enter one of the
request's blocks, run a cycle of a loop, or jump. -/
inductive Handles (w : World E) (e : E) (f : Flow) (r : ApplicationRequest) : Handled → Prop where
  | quiet (b : Bool) : Handles w e f r { flow := if b = true then f.setCancel else f }
  | enter {n : Nat} (hblock : f.prog.Owns n r.args) (hloop : ∀ wid, r.args ≠ .loop wid) :
      Handles w e f r (Handled.enter f n)
  | loop {wid : Nat} (hname : r.app.name = "while") (hargs : r.args = .loop wid) :
      Handles w e f r (whileHandler w e f (.loop wid))
  | goto {tag : String} {g : Bool × Flow} (hname : r.app.name = "goto")
      (hgoto : f.goto tag = .ok g) (hspec : GotoSpec f tag g) : Handles w e f r { flow := g.2 }

theorem handles_nothing (w : World E) (e : E) (f : Flow) (r : ApplicationRequest) :
    Handles w e f r { flow := f } :=
  Handles.quiet false

theorem conditionHandler_spec (w : World E) (e : E) (f : Flow) (r : ApplicationRequest) :
    Handles w e f r (conditionHandler w e f r.args) := by
  cases hargs : r.args with
  | condition ex t el =>
    have hloop : ∀ wid, r.args ≠ .loop wid := fun wid h => by rw [hargs] at h; cases h
    simp only [conditionHandler]
    cases w.condition e ex with
    | none => exact handles_nothing w e f r
    | some b =>
      cases b with
      | true => exact Handles.enter (by rw [hargs]; exact Or.inl rfl) hloop
      | false => exact Handles.enter (by rw [hargs]; exact Or.inr rfl) hloop
  | _ => exact handles_nothing w e f r

theorem lookupCase_mem (h : lookupCase cases name = some n) : ∃ name', (name', n) ∈ cases := by
  unfold lookupCase at h
  rw [Option.map_eq_some_iff] at h
  obtain ⟨c, hc, rfl⟩ := h
  exact ⟨c.1, List.mem_of_find?_eq_some hc⟩

theorem switchHandler_spec (w : World E) (e : E) (f : Flow) (r : ApplicationRequest) :
    Handles w e f r (switchHandler w e f r.args) := by
  cases hargs : r.args with
  | switch text cases =>
    have henter : ∀ name n, lookupCase cases name = some n →
        Handles w e f r (Handled.enter f n) := fun name n h =>
      Handles.enter (by rw [hargs]; exact lookupCase_mem h)
        (fun wid h => by rw [hargs] at h; cases h)
    simp only [switchHandler]
    cases hcase : lookupCase cases (w.parseText e text) with
    | some n => exact henter _ n hcase
    | none =>
      cases hdefault : lookupCase cases "default" with
      | some n => exact henter _ n hdefault
      | none => exact handles_nothing w e f r
  | _ => exact handles_nothing w e f r

theorem whileHandler_spec (w : World E) (e : E) (f : Flow) (r : ApplicationRequest)
    (hname : r.app.name = "while") : Handles w e f r (whileHandler w e f r.args) := by
  cases hargs : r.args with
  | loop wid => exact Handles.loop hname hargs
  | _ => exact handles_nothing w e f r

theorem gotoTag_spec (hf : f.Safe) (w : World E) (e : E) (r : ApplicationRequest)
    (hname : r.app.name = "goto") :
    ∃ h, gotoTag w e f r.app.args = .ok h ∧ Handles w e f r h := by
  unfold gotoTag
  cases w.decodeTag e r.app.args with
  | none => exact ⟨_, rfl, handles_nothing w e f r⟩
  | some tag =>
    obtain ⟨g, hgoto, hspec⟩ := goto_spec hf tag
    dsimp only
    rw [hgoto]
    exact ⟨_, rfl, Handles.goto hname hgoto hspec⟩

/-- No handler panics. -/
theorem request_spec (hf : f.Safe) (w : World E) (e : E) (r : ApplicationRequest) :
    ∃ h, request w e f r = .ok h ∧ Handles w e f r h := by
  unfold request
  split
  · exact ⟨_, rfl, conditionHandler_spec w e f r⟩
  · rename_i hname
    exact ⟨_, rfl, whileHandler_spec w e f r hname⟩
  · exact ⟨_, rfl, switchHandler_spec w e f r⟩
  · refine ⟨_, rfl, ?_⟩
    cases r.args with
    | brk => exact Handles.quiet true
    | _ => exact handles_nothing w e f r
  · rename_i hname
    exact gotoTag_spec hf w e r hname
  · exact ⟨_, rfl, Handles.quiet _⟩

theorem handles_of_request (hf : f.Safe) (hrequest : request w e f r = .ok h) :
    Handles w e f r h := by
  obtain ⟨h', heq, hspec⟩ := request_spec hf w e r
  rw [hrequest] at heq
  cases heq
  exact hspec

/-! ### The effect of a cycle -/

theorem resetCycle_prog (f : Flow) (wid : Nat) : (resetCycle f wid).prog = f.prog := by
  unfold resetCycle
  split <;> rfl

/-- A `while` leaves the cursor alone or enters its `do` block. -/
theorem whileHandler_cursor (w : World E) (e : E) (f : Flow) (wid : Nat) :
    let h := whileHandler w e f (.loop wid)
    h.flow.prog = f.prog ∧
      ((h.flow.currentNode = f.currentNode ∧ h.flow.position = f.position ∧ h.entered = none) ∨
        (h.flow.currentNode = some (f.prog.whiles wid).do_ ∧
          h.flow.position = update f.position (f.prog.whiles wid).do_ 0 ∧
          h.entered = some (f.prog.whiles wid).do_)) := by
  have hreset : (resetCycle f wid).prog = f.prog ∧
      (resetCycle f wid).currentNode = f.currentNode ∧
      (resetCycle f wid).position = f.position := by
    unfold resetCycle
    split <;> exact ⟨rfl, rfl, rfl⟩
  obtain ⟨hprog, hcur, hpos⟩ := hreset
  dsimp only [whileHandler]
  split
  · dsimp only [runCycle, nextStep]
    rw [hprog]
    split
    · split
      · exact ⟨hprog, Or.inl ⟨hcur, hpos, rfl⟩⟩
      · refine ⟨hprog, Or.inr ⟨rfl, ?_, rfl⟩⟩
        rw [← hpos]
        rfl
    · exact ⟨hprog, Or.inl ⟨hcur, hpos, rfl⟩⟩
  · exact ⟨hprog, Or.inl ⟨hcur, hpos, rfl⟩⟩

/-- A `while` changes nothing but its counters and the cursor. -/
theorem whileHandler_frame (w : World E) (e : E) (f : Flow) (wid : Nat) :
    (whileHandler w e f (.loop wid)).flow =
      { f with step := (whileHandler w e f (.loop wid)).flow.step,
               counter := (whileHandler w e f (.loop wid)).flow.counter,
               position := (whileHandler w e f (.loop wid)).flow.position,
               currentNode := (whileHandler w e f (.loop wid)).flow.currentNode } := by
  have hreset : ∀ g : Flow, g = f ∨ g = endCycle f wid →
      (runCycle w e g wid).flow = { f with
        step := (runCycle w e g wid).flow.step, counter := (runCycle w e g wid).flow.counter,
        position := (runCycle w e g wid).flow.position,
        currentNode := (runCycle w e g wid).flow.currentNode } := by
    rintro g (rfl | rfl)
    all_goals
      dsimp only [runCycle, nextStep]
      split
      · split <;> rfl
      · rfl
  have hcases : resetCycle f wid = f ∨ resetCycle f wid = endCycle f wid := by
    unfold resetCycle
    split
    · exact Or.inr rfl
    · exact Or.inl rfl
  dsimp only [whileHandler]
  split
  · exact hreset _ hcases
  · rcases hcases with h | h
    · rw [h]
    · rw [h]
      rfl

/-- The blocks of a request are nodes. -/
theorem owns_lt (hf : f.Safe) (hr : f.prog.request p = some r) (hp : p.node < f.prog.nodeCount)
    (h : f.prog.Owns n r.args) : n < f.prog.nodeCount := by
  have hargs := hf.wf.args p r hp hr
  cases ha : r.args with
  | raw | brk => rw [ha] at h; exact absurd h id
  | condition ex t el =>
    rw [ha] at h hargs
    rcases h with rfl | rfl
    · exact hargs.1.lt
    · exact hargs.2.lt
  | switch text cases =>
    rw [ha] at h hargs
    obtain ⟨name, hmem⟩ := h
    exact (hargs _ hmem).lt
  | loop wid =>
    rw [ha] at h hargs
    change (f.prog.whiles wid).do_ = n at h
    rcases hargs.2.2 with he | he
    · rw [← h]
      exact he.block.lt
    · rw [← h, he.block]
      exact hp

theorem Handles.safe {h : Handled}
    (hh : Handles w e f r h) (hf : f.Safe) (hr : f.prog.request p = some r)
    (hp : p.node < f.prog.nodeCount) : h.flow.Safe := by
  cases hh with
  | quiet b =>
    split
    · exact hf.congr rfl rfl rfl
    · exact hf
  | enter hblock => exact hf.enter (owns_lt hf hr hp hblock)
  | @loop wid _ hargs =>
    have hdo := owns_lt hf hr hp (n := (f.prog.whiles wid).do_) (by rw [hargs]; rfl)
    obtain ⟨hprog, ⟨hcur, hpos, -⟩ | ⟨hcur, hpos, -⟩⟩ := whileHandler_cursor w e f wid
    · exact hf.congr hprog hcur hpos
    · exact (hf.enter hdo).congr hprog hcur hpos
  | goto _ _ hspec => exact hspec.safe hf

theorem Handles.prog {h : Handled} {r : ApplicationRequest} (hh : Handles w e f r h) :
    h.flow.prog = f.prog := by
  cases hh with
  | quiet b =>
    split <;> rfl
  | enter => rfl
  | loop => exact (whileHandler_cursor w e f _).1
  | goto _ _ hspec =>
    rw [hspec.frame]

/-- No handler touches the limiters, the log, or what `Route` remembers of earlier requests. -/
theorem Handles.frame (hh : Handles w e f r h) :
    h.flow = { f with position := h.flow.position, currentNode := h.flow.currentNode,
                      step := h.flow.step, counter := h.flow.counter,
                      gotoCounter := h.flow.gotoCounter, cancel := h.flow.cancel } := by
  cases hh with
  | quiet b =>
    split <;> rfl
  | enter => rfl
  | @loop v =>
    rw [whileHandler_frame]
  | goto _ _ hspec =>
    rw [hspec.frame]

end Handlers

/-! ## Iterations of `Route` -/

section Loop

open Flow

variable {E : Type} {w : World E} {s s' : RouteState E}

theorem safe_countIteration (hf : f.Safe) (r : ApplicationRequest) : (countIteration f r).Safe := by
  unfold countIteration
  split
  · exact hf
  · exact hf.congr rfl rfl rfl

theorem countIteration_prog (f : Flow) (r : ApplicationRequest) :
    (countIteration f r).prog = f.prog := by
  unfold countIteration
  split <;> rfl

/-- The pointer that `NextRequest` returns is a request of the program. -/
theorem exists_request (hf : f.Safe) (hnext : NextSpec f (some p) f₁) :
    ∃ r, f₁.prog.request p = some r ∧ p.node < f₁.prog.nodeCount := by
  obtain ⟨hidx, hnode⟩ := hnext.ptr hf p rfl
  rw [hnext.same.prog]
  exact ⟨_, List.getElem?_eq_getElem hidx, hnode⟩

/-- How an iteration goes up to the `select`: the flow is finished, or it was cancelled,
or the request's limiter is exhausted and `Route` jumps (or gives up), or the request
is started. -/
inductive TopSpec (f : Flow) : Top × Flow → Prop where
  | finished {f₁ : Flow} (hnext : NextSpec f none f₁) : TopSpec f (.returned, f₁)
  | cancelled {p : ReqPtr} {f₁ : Flow} (hnext : NextSpec f (some p) f₁)
      (hcancel : f₁.cancel = true) : TopSpec f (.returned, f₁)
  | failover {p : ReqPtr} {f₁ : Flow} {r : ApplicationRequest} {l : Nat} {g : Bool × Flow}
      (hnext : NextSpec f (some p) f₁) (hcancel : f₁.cancel = false)
      (hreq : f₁.prog.request p = some r) (hexhausted : exhausted f₁ r = some l)
      (hgoto : f₁.goto (f₁.prog.limiters l).failover = .ok g)
      (hspec : GotoSpec f₁ (f₁.prog.limiters l).failover g) :
      TopSpec f (if g.1 = true then .again else .returned, g.2)
  | start {p : ReqPtr} {f₁ : Flow} {r : ApplicationRequest}
      (hnext : NextSpec f (some p) f₁) (hcancel : f₁.cancel = false)
      (hreq : f₁.prog.request p = some r) (hexhausted : exhausted f₁ r = none) :
      TopSpec f (.start p r, countIteration f₁ r)

theorem routeTop_spec (hf : f.Safe) : ∃ t, routeTop f = .ok t ∧ TopSpec f t := by
  obtain ⟨r, f₁, heq, hnext⟩ := nextRequest_spec hf
  unfold routeTop
  rw [heq]
  cases r with
  | none => exact ⟨_, rfl, TopSpec.finished hnext⟩
  | some p =>
    obtain ⟨r, hreq, -⟩ := exists_request hf hnext
    simp only [bind, Except.bind, pure, Except.pure, Program.load, hreq]
    by_cases hcancel : f₁.cancel = true
    · rw [if_pos hcancel]
      exact ⟨_, rfl, TopSpec.cancelled hnext hcancel⟩
    · rw [if_neg hcancel]
      have hcancel' : f₁.cancel = false := by simpa using hcancel
      unfold routeLimit
      cases hex : exhausted f₁ r with
      | some l =>
        obtain ⟨g, hgoto, hspec⟩ := goto_spec (hnext.safe hf) (f₁.prog.limiters l).failover
        dsimp only
        rw [hgoto]
        exact ⟨_, rfl, TopSpec.failover hnext hcancel' hreq hex hgoto hspec⟩
      | none => exact ⟨_, rfl, TopSpec.start hnext hcancel' hreq hex⟩

/-- How an iteration ends, the `select` included. -/
inductive RouteSpec (w : World E) (s : RouteState E) : RouteState E → Prop where
  | returned {f₁ : Flow} (htop : TopSpec s.flow (.returned, f₁)) :
      RouteSpec w s { s with flow := f₁, returned := true }
  | again {f₁ : Flow} (htop : TopSpec s.flow (.again, f₁)) : RouteSpec w s { s with flow := f₁ }
  | dispatched {p : ReqPtr} {f₁ : Flow} {r : ApplicationRequest} {h : Handled}
      (htop : TopSpec s.flow (.start p r, f₁)) (hrequest : request w s.env f₁ r = .ok h)
      (hhandles : Handles w s.env f₁ r h) :
      RouteSpec w s (afterSelect w s p r (selected f₁ h (w.select s.env r.app))
        (w.select s.env r.app))

theorem TopSpec.safe {f : Flow} (h : TopSpec f t) (hf : f.Safe) : t.2.Safe := by
  cases h with
  | finished hnext | cancelled hnext => exact hnext.safe hf
  | failover hnext _ _ _ _ hspec => exact hspec.safe (hnext.safe hf)
  | start hnext => exact safe_countIteration (hnext.safe hf) _

/-- An iteration that starts a request. -/
theorem TopSpec.start_inv (h : TopSpec f (.start p r, f₁)) :
    ∃ f₀, NextSpec f (some p) f₀ ∧ f₀.cancel = false ∧ f₀.prog.request p = some r ∧
      exhausted f₀ r = none ∧ f₁ = countIteration f₀ r := by
  generalize ht : ((Top.start p r, f₁) : Top × Flow) = t at h
  cases h with
  | finished | cancelled => cases ht
  | failover => split at ht <;> cases ht
  | start hnext hcancel hreq hex =>
    cases ht
    exact ⟨_, hnext, hcancel, hreq, hex, rfl⟩

/-- An iteration that jumps because of an exhausted limiter. -/
theorem TopSpec.again_inv (h : TopSpec f (.again, f₁)) :
    ∃ p f₀ tag, NextSpec f (some p) f₀ ∧ f₀.cancel = false ∧ GotoSpec f₀ tag (true, f₁) := by
  generalize ht : ((Top.again, f₁) : Top × Flow) = t at h
  cases h with
  | finished | cancelled | start => cases ht
  | @failover p f₀ r l g hnext hcancel _ _ _ hspec =>
    obtain ⟨ok, f₂⟩ := g
    cases ok with
    | true =>
      cases ht
      exact ⟨p, f₀, _, hnext, hcancel, hspec⟩
    | false => cases ht

theorem TopSpec.request (h : TopSpec f (.start p r, f₁)) (hf : f.Safe) :
    f₁.prog.request p = some r ∧ p.node < f₁.prog.nodeCount := by
  obtain ⟨f₀, hnext, -, hreq, -, rfl⟩ := h.start_inv
  obtain ⟨r', -, hnode⟩ := exists_request hf hnext
  rw [countIteration_prog]
  exact ⟨hreq, hnode⟩

/-- `Route` does not panic. -/
theorem routeStep_spec (w : World E) (hf : s.flow.Safe) (hrun : s.returned = false) :
    ∃ s', routeStep w s = .ok s' ∧ RouteSpec w s s' := by
  obtain ⟨⟨t, f₁⟩, heq, htop⟩ := routeTop_spec hf
  unfold routeStep
  rw [hrun, heq]
  cases t with
  | returned => exact ⟨_, rfl, RouteSpec.returned htop⟩
  | again => exact ⟨_, rfl, hrun ▸ RouteSpec.again htop⟩
  | start p r =>
    obtain ⟨h, hrequest, hhandles⟩ := request_spec (htop.safe hf) w s.env r
    simp only [routeSelect, bind, Except.bind]
    rw [hrequest]
    exact ⟨_, rfl, RouteSpec.dispatched htop hrequest hhandles⟩

/-- The first part of an iteration is a function of the flow. -/
theorem routeTop_of_spec (hf : f.Safe) (h : TopSpec f t) : routeTop f = .ok t := by
  unfold routeTop
  cases h with
  | finished hnext =>
    rw [nextRequest_of_spec hf hnext]
    rfl
  | cancelled hnext hcancel =>
    obtain ⟨r, hreq, -⟩ := exists_request hf hnext
    rw [nextRequest_of_spec hf hnext]
    simp only [bind, Except.bind, Program.load, hreq, if_pos hcancel]
    rfl
  | failover hnext hcancel hreq hex hgoto =>
    rw [nextRequest_of_spec hf hnext]
    simp only [bind, Except.bind, Program.load, hreq, hcancel, Bool.false_eq_true, if_false,
      routeLimit, hex, hgoto]
    rfl
  | start hnext hcancel hreq hex =>
    rw [nextRequest_of_spec hf hnext]
    simp only [bind, Except.bind, Program.load, hreq, hcancel, Bool.false_eq_true, if_false,
      routeLimit, hex]

theorem routeStep_start (w : World E) (hf : s.flow.Safe) (hrun : s.returned = false)
    (hnext : NextSpec s.flow (some p) f₀) (hcancel : f₀.cancel = false)
    (hreq : f₀.prog.request p = some r) (hex : exhausted f₀ r = none) :
    routeStep w s = routeSelect w s (countIteration f₀ r) p r := by
  unfold routeStep
  rw [hrun, routeTop_of_spec hf (TopSpec.start hnext hcancel hreq hex)]
  rfl

theorem routeStep_finished (w : World E) (hf : s.flow.Safe) (hrun : s.returned = false)
    (hnext : NextSpec s.flow none f₀) :
    routeStep w s = .ok { s with flow := f₀, returned := true } := by
  unfold routeStep
  rw [hrun, routeTop_of_spec hf (TopSpec.finished hnext)]
  rfl

/-- A `Route` that has returned does nothing more. -/
theorem routeStep_returned (w : World E) (h : s.returned = true) : routeStep w s = .ok s := by
  unfold routeStep
  rw [if_pos h]

theorem safe_selected (hf : f.Safe) (hh : h.flow.Safe) (b : Select) :
    (selected f h b).flow.Safe := by
  cases b with
  | result => exact hh
  | done ran =>
    cases ran with
    | true => exact hh
    | false => exact hf

/-- The result branch changes nothing but the log and `cancel`. -/
theorem routeResult_frame (f : Flow) (r : ApplicationRequest) :
    routeResult f r =
      { f with logs := (routeResult f r).logs, cancel := (routeResult f r).cancel } := by
  unfold routeResult
  cases r.app.log <;> (dsimp only; split <;> rfl)

theorem routeResult_budgets (f : Flow) (r : ApplicationRequest) :
    (routeResult f r).count = f.count ∧ (routeResult f r).counter = f.counter ∧
      (routeResult f r).gotoCounter = f.gotoCounter := by
  rw [routeResult_frame]
  exact ⟨rfl, rfl, rfl⟩

theorem safe_routeResult (hf : f.Safe) (r : ApplicationRequest) : (routeResult f r).Safe := by
  rw [routeResult_frame]
  exact hf.congr rfl rfl rfl

theorem RouteSpec.safe (h : RouteSpec w s s') (hf : s.flow.Safe) : s'.flow.Safe := by
  cases h with
  | returned htop | again htop => exact htop.safe hf
  | dispatched htop _ hhandles =>
    obtain ⟨hreq, hnode⟩ := htop.request hf
    have hf₁ := htop.safe hf
    have hsel := safe_selected hf₁ (hhandles.safe hf₁ hreq hnode)
    cases hb : w.select s.env _ with
    | result => exact safe_routeResult (hsel _) _
    | done ran => exact (hsel _).congr rfl rfl rfl

theorem TopSpec.prog {f : Flow} {t : Top × Flow} (h : TopSpec f t) : t.2.prog = f.prog := by
  cases h with
  | finished hnext | cancelled hnext => exact hnext.same.prog
  | failover hnext _ _ _ _ hspec =>
    show _ = f.prog
    rw [hspec.frame, ← hnext.same.prog]
  | start hnext =>
    show (countIteration _ _).prog = f.prog
    rw [countIteration_prog, hnext.same.prog]

/-- The program of a flow does not change. -/
theorem RouteSpec.prog (h : RouteSpec w s s') : s'.flow.prog = s.flow.prog := by
  cases h with
  | returned htop | again htop => exact htop.prog
  | @dispatched p f₁ r hd htop _ hhandles =>
    have hsel : ∀ b, (selected f₁ hd b).flow.prog = s.flow.prog := by
      rintro (_ | _ | _)
      · exact hhandles.prog.trans htop.prog
      · exact htop.prog
      · exact hhandles.prog.trans htop.prog
    cases hb : w.select s.env r.app with
    | result =>
      show (routeResult (selected f₁ hd .result).flow r).prog = _
      rw [routeResult_frame]
      exact hsel .result
    | done ran => exact hsel (.done ran)

end Loop

end FlowManager
