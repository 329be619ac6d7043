import FlowManager.Flow.WellFormed

/-!
# Where the tree of a schema lies in the heap

`Block.build` scatters a tree over nodes. This module reads it back:

- `named_parse`: the kind of a request's arguments is given by its name, so the
  handler that a name selects finds the arguments it expects;
- `Block.At`: the items of a block are consecutive children of a node, and each
  block of an item fills a node of its own, whose parent is the node of the item;
- `at_parse`: that is how parsing lays out every schema.
-/

namespace FlowManager

open Function

/-! ## Names and arguments -/

/-- The arguments that the handler of `name` expects. -/
def Args.Fits : Args → String → Prop
  | .raw, name => name ≠ "if" ∧ name ≠ "while" ∧ name ≠ "switch" ∧ name ≠ "break"
  | .condition _ _ _, name => name = "if"
  | .loop _, name => name = "while"
  | .switch _ _, name => name = "switch"
  | .brk, name => name = "break"

mutual

/-- The names in a tree match the constructors. -/
def Block.Named : Block → Prop
  | .nil => True
  | .cons item rest => item.Named ∧ rest.Named

def Item.Named : Item → Prop
  | .plain app => Args.raw.Fits app.name
  | .brk app => app.name = "break"
  | .cond app _ then_ else_ => app.name = "if" ∧ then_.Named ∧ else_.Named
  | .loop app _ _ body => app.name = "while" ∧ body.Named
  | .bareLoop app => app.name = "while"
  | .switch app _ cases => app.name = "switch" ∧ cases.Named
  | .function _ => True
  | .trigger _ => True
  | .dropped _ => True

def Cases.Named : Cases → Prop
  | .nil => True
  | .cons _ block rest => block.Named ∧ rest.Named

end

/-- Decoding goes by the name. -/
theorem named_decode (apps : Applications) : (decode apps).Named := by
  apply decode.induct (fun apps => (decode apps).Named) (fun v => (decodeItem v).Named)
    (fun app props => app.name = "switch" → (decodeSwitch app props).Named)
    (fun cases => (decodeCases cases).Named)
    (fun app props => app.name = "while" → (decodeWhile app props).Named)
    (fun app props => app.name = "if" → (decodeCondition app props).Named)
  case case2 =>
    intro v rest hitem hrest
    rw [decode]
    exact ⟨hitem, hrest⟩
  -- in the other cases it is known which branch is taken
  all_goals intros
  all_goals try simp only [decode, decodeItem, decodeCondition, decodeWhile, decodeSwitch,
    decodeCases]
  all_goals repeat' split
  all_goals simp_all +zetaDelta [Block.Named, Item.Named, Cases.Named, Args.Fits]

namespace Program

variable {i i' : Program} {root : Nat}

/-- Every request of the heap has the arguments its handler expects. -/
def Named (i : Program) : Prop := ∀ n, ∀ r ∈ (i.nodes n).children, r.args.Fits r.app.name

section

variable (h : i.Named)
include h

theorem Named.of_nodes (heq : i'.nodes = i.nodes) : i'.Named := by
  intro n r hr
  rw [heq] at hr
  exact h n r hr

theorem Named.newNode (parent : Nat) : (i.newNode parent).Named := by
  intro n r hr
  by_cases hn : n = i.nodeCount
  · rw [hn, newNode_nodes_self] at hr
    cases hr
  · rw [show (i.newNode parent).nodes n = i.nodes n from update_of_ne hn _ _] at hr
    exact h n r hr

theorem Named.add (m : Nat) (req : ApplicationRequest)
    (hreq : req.args.Fits req.app.name) : (i.add m req).Named := by
  intro n r hr
  by_cases hn : n = m
  · rw [hn, add_nodes_self] at hr
    rcases List.mem_append.mp hr with hr | hr
    · exact h m r hr
    · rw [List.mem_singleton.mp hr]
      exact hreq
  · rw [add_nodes_of_ne i req hn] at hr
    exact h n r hr

theorem Named.attach (app : Application) (args : Args) (hargs : args.Fits app.name) :
    (attach i root app args limiter).Named := by
  refine Named.add (h.of_nodes ?_) root ⟨app, args, limiter⟩ hargs
  unfold Program.trySetTag
  split <;> rfl

theorem Named.newWhileId (args : WhileArgs) : (i.newWhileId args).Named := h

theorem Named.setWhile (w : Nat) (args : WhileArgs) : (i.setWhile w args).Named := h

theorem Named.newLimiterId (limit : Option Limiter) : (i.newLimiterId limit).1.Named :=
  h.of_nodes (sameHeap_newLimiterId i limit).nodes

end

mutual

theorem named_block : ∀ (b : Block) {i : Program} (root : Nat), b.Named → i.Named →
    (b.build i root).Named
  | .nil, _, _, _, hi => hi
  | .cons item rest, _, root, hb, hi => named_block rest root hb.2 (named_item item hb.1 hi)

theorem named_item : ∀ (item : Item) {i : Program} {root : Nat}, item.Named → i.Named →
    (item.build i root).Named
  | .plain app, _, _, hb, hi => (hi.newLimiterId app.limit).attach app .raw hb
  | .brk app, _, _, hb, hi => (hi.newLimiterId app.limit).attach app .brk hb
  | .cond app ex t e, i, root, hb, hi => by
    have h₂ := ((hi.newLimiterId app.limit).newNode root).newNode root
    exact (named_block e _ hb.2.2 (named_block t _ hb.2.1 h₂)).attach app (.condition _ _ _) hb.1
  | .loop app c m body, i, root, hb, hi => by
    have h₂ := ((hi.newLimiterId app.limit).newNode root).newWhileId
      (initialWhileArgs (i.newLimiterId app.limit).1.nodeCount)
    have h₃ := named_block body (i.newLimiterId app.limit).1.nodeCount hb.2 h₂
    exact ((h₃.setWhile _ _).add _ ⟨app, .loop _, _⟩ hb.1).attach app (.loop _) hb.1
  | .bareLoop app, i, root, hb, hi => by
    have h₂ := ((hi.newLimiterId app.limit).newNode root).newWhileId
      (initialWhileArgs (i.newLimiterId app.limit).1.nodeCount)
    exact h₂.attach app (.loop _) hb
  | .switch app text cases, _, _, hb, hi =>
    (named_cases cases hb.2 (hi.newLimiterId app.limit)).attach app (.switch _ _) hb.1
  | .function app, _, _, _, hi =>
    (hi.newLimiterId app.limit).of_nodes (sameHeap_addFunction _ _).nodes
  | .trigger app, _, _, _, hi =>
    (hi.newLimiterId app.limit).of_nodes (sameHeap_addTrigger _ _).nodes
  | .dropped app, _, _, _, hi => hi.newLimiterId app.limit

theorem named_cases : ∀ (cases : Cases) {i : Program} {root : Nat}, cases.Named → i.Named →
    (cases.build i root).1.Named
  | .nil, _, _, _, hi => hi
  | .cons _ block rest, _, _, hb, hi =>
    named_cases rest hb.2 (named_block block _ hb.1 (hi.newNode _))

end

/-- Parsing gives every request the arguments its handler expects. -/
theorem named_parse (functions triggers : List (String × Applications)) (schema : Applications) :
    (parseFlowArray (Program.empty functions triggers) 0 schema).Named := by
  rw [parseFlowArray_eq_build]
  exact named_block (decode schema) 0 (named_decode schema) (fun n r hr => by cases hr)

end Program

/-! ## Frames -/

/-- How many requests an item adds to its block. -/
def Item.width : Item → Nat
  | .function _ => 0
  | .trigger _ => 0
  | .dropped _ => 0
  | _ => 1

/-- How many requests a block holds. -/
def Block.width : Block → Nat
  | .nil => 0
  | .cons item rest => item.width + rest.width

mutual

/-- How many loops a tree holds. -/
def Block.loops : Block → Nat
  | .nil => 0
  | .cons item rest => item.loops + rest.loops

def Item.loops : Item → Nat
  | .cond _ _ then_ else_ => then_.loops + else_.loops
  | .loop _ _ _ body => 1 + body.loops
  | .bareLoop _ => 1
  | .switch _ _ cases => cases.loops
  | _ => 0

def Cases.loops : Cases → Nat
  | .nil => 0
  | .cons _ block rest => block.loops + rest.loops

end

namespace Program

variable {i i' : Program} {root : Nat}

/-- How an item changes the heap: after allocations elsewhere it adds nothing to `root`,
or one request. -/
inductive Extends (i : Program) (root : Nat) : Nat → Program → Prop where
  | kept {i' : Program} (hk : Keeps i i') : Extends i root 0 i'
  | attached {i' : Program} (hk : Keeps i i') (app : Application) (args : Args)
      (limiter : Option Nat) : Extends i root 1 (attach i' root app args limiter)

theorem Extends.frame (h : Extends i root k i') (hroot : root < i.nodeCount) : Frame i i' root := by
  cases h with
  | kept hk => exact hk.frame hroot
  | attached hk app args limiter =>
    exact (hk.frame hroot).trans
      (frame_attach (lt_of_lt_of_le hroot hk.nodeCount_le) app args limiter)

theorem sameShape_trySetTag (i : Program) (tag : String) (n idx : Nat) :
    SameShape i (i.trySetTag tag n idx) := by
  unfold Program.trySetTag
  split <;> exact ⟨rfl, rfl, rfl, rfl⟩

theorem Extends.getLength (h : Extends i root k i') (hroot : root < i.nodeCount) :
    i'.getLength root = i.getLength root + k := by
  cases h with
  | kept hk => exact hk.getLength hroot
  | attached hk =>
    rw [attach_eq, getLength_of_nodes (sameShape_trySetTag _ _ _ _).nodes, add_getLength_self,
      hk.getLength hroot]

theorem keeps_newLimiterId (i : Program) (limit : Option Limiter) :
    Keeps i (i.newLimiterId limit).1 :=
  (sameHeap_newLimiterId i limit).keeps

/-- The heap in which the `do` block of a `while` is parsed. -/
def openLoop (i : Program) (limit : Option Limiter) (root : Nat) : Program :=
  ((i.newLimiterId limit).1.newNode root).newWhileId
    (initialWhileArgs (i.newLimiterId limit).1.nodeCount)

theorem keeps_openLoop (i : Program) (limit : Option Limiter) (root : Nat) :
    Keeps i (i.openLoop limit root) :=
  ((keeps_newLimiterId i limit).trans (keeps_newNode _ root)).trans (keeps_newWhileId _ _)

theorem Keeps.setWhile (hk : Keeps i i') (hw : i.whileCount ≤ w) (args : WhileArgs) :
    Keeps i (i'.setWhile w args) :=
  ⟨hk.nodeCount_le, hk.whileCount_le, hk.node, fun v hv => by
    rw [← hk.whiles v hv]
    exact update_of_ne (by omega) _ _⟩

mutual

/-- Parsing into `root` changes no older node but `root`. -/
theorem frame_block : ∀ (b : Block) (i : Program) (root : Nat), root < i.nodeCount →
    Frame i (b.build i root) root
  | .nil, i, root, _ => Frame.refl i root
  | .cons item rest, i, root, hroot => by
    have h₁ := (extends_item item i root).frame hroot
    exact h₁.trans (frame_block rest _ root (lt_of_lt_of_le hroot h₁.nodeCount_le))

theorem extends_item : ∀ (item : Item) (i : Program) (root : Nat),
    Extends i root item.width (item.build i root)
  | .plain app, i, _ => Extends.attached (keeps_newLimiterId i app.limit) _ _ _
  | .brk app, i, _ => Extends.attached (keeps_newLimiterId i app.limit) _ _ _
  | .cond app ex t e, i, root => by
    have h₁ := keeps_newLimiterId i app.limit
    have h₂ := (h₁.trans (keeps_newNode _ root)).trans (keeps_newNode _ root)
    have ht := frame_block t (((i.newLimiterId app.limit).1.newNode root).newNode root)
      (i.newLimiterId app.limit).1.nodeCount (by simp only [newNode_nodeCount]; omega)
    have h₃ := h₂.of_frame ht h₁.nodeCount_le
    have he := frame_block e _ ((i.newLimiterId app.limit).1.nodeCount + 1)
      (lt_of_lt_of_le (by simp only [newNode_nodeCount]; omega) ht.nodeCount_le)
    exact Extends.attached (h₃.of_frame he (Nat.le_succ_of_le h₁.nodeCount_le)) _ _ _
  | .loop app c m body, i, root => by
    have h₁ := keeps_newLimiterId i app.limit
    have hb := frame_block body (i.openLoop app.limit root)
      (i.newLimiterId app.limit).1.nodeCount (Nat.lt_succ_self _)
    have h₃ := ((keeps_openLoop i app.limit root).of_frame hb h₁.nodeCount_le).setWhile
      h₁.whileCount_le
    exact Extends.attached ((h₃ _).of_frame (frame_add _ _ _) h₁.nodeCount_le) _ _ _
  | .bareLoop app, i, root => Extends.attached (keeps_openLoop i app.limit root) _ _ _
  | .switch app text cases, i, root =>
    Extends.attached (keeps_cases cases _ root (keeps_newLimiterId i app.limit)) _ _ _
  | .function app, i, _ =>
    Extends.kept ((keeps_newLimiterId i app.limit).trans (sameHeap_addFunction _ _).keeps)
  | .trigger app, i, _ =>
    Extends.kept ((keeps_newLimiterId i app.limit).trans (sameHeap_addTrigger _ _).keeps)
  | .dropped app, i, _ => Extends.kept (keeps_newLimiterId i app.limit)

theorem keeps_cases : ∀ (cases : Cases) (i : Program) (root : Nat) {i₀ : Program}, Keeps i₀ i →
    Keeps i₀ (cases.build i root).1
  | .nil, _, _, _, hk => hk
  | .cons _ block rest, i, root, _, hk => by
    have hb := frame_block block (i.newNode root) i.nodeCount (Nat.lt_succ_self _)
    exact keeps_cases rest _ root ((hk.trans (keeps_newNode i root)).of_frame hb hk.nodeCount_le)

end

/-- A block adds as many requests as it is wide. -/
theorem getLength_block : ∀ (b : Block) (i : Program) (root : Nat), root < i.nodeCount →
    (b.build i root).getLength root = i.getLength root + b.width
  | .nil, _, _, _ => rfl
  | .cons item rest, i, root, hroot => by
    have hitem := extends_item item i root
    have hroot' := lt_of_lt_of_le hroot (hitem.frame hroot).nodeCount_le
    calc (rest.build (item.build i root) root).getLength root
        = (item.build i root).getLength root + rest.width := getLength_block rest _ root hroot'
      _ = i.getLength root + item.width + rest.width := by rw [hitem.getLength hroot]
      _ = i.getLength root + (item.width + rest.width) := Nat.add_assoc _ _ _

theorem attach_whileCount (i : Program) (root : Nat) (app : Application) (args : Args)
    (limiter : Option Nat) : (attach i root app args limiter).whileCount = i.whileCount := by
  rw [attach_eq, (sameShape_trySetTag _ _ _ _).whileCount]
  rfl

theorem newLimiterId_whileCount (i : Program) (limit : Option Limiter) :
    (i.newLimiterId limit).1.whileCount = i.whileCount :=
  (sameHeap_newLimiterId i limit).whileCount

mutual

/-- Loops are numbered in the order of the text. -/
theorem whileCount_block : ∀ (b : Block) (i : Program) (root : Nat),
    (b.build i root).whileCount = i.whileCount + b.loops
  | .nil, _, _ => rfl
  | .cons item rest, i, root => by
    rw [Block.build, whileCount_block rest, whileCount_item item, Block.loops, Nat.add_assoc]

theorem whileCount_item : ∀ (item : Item) (i : Program) (root : Nat),
    (item.build i root).whileCount = i.whileCount + item.loops
  | .plain app, i, root | .brk app, i, root | .function app, i, root | .trigger app, i, root
  | .dropped app, i, root => by
    simp only [Item.build, attach_whileCount, (sameHeap_addFunction _ _).whileCount,
      (sameHeap_addTrigger _ _).whileCount, newLimiterId_whileCount, Item.loops, Nat.add_zero]
  | .cond app ex t e, i, root => by
    rw [Item.build, attach_whileCount, whileCount_block e, whileCount_block t, Item.loops,
      ← Nat.add_assoc]
    show (i.newLimiterId app.limit).1.whileCount + _ + _ = _
    rw [newLimiterId_whileCount]
  | .loop app c m body, i, root => by
    rw [Item.build, attach_whileCount]
    show (body.build (i.openLoop app.limit root) _).whileCount = _
    rw [whileCount_block body, Item.loops, ← Nat.add_assoc]
    show (i.newLimiterId app.limit).1.whileCount + 1 + _ = _
    rw [newLimiterId_whileCount]
  | .bareLoop app, i, root => by
    rw [Item.build, attach_whileCount]
    show (i.newLimiterId app.limit).1.whileCount + 1 = _
    rw [newLimiterId_whileCount]
    rfl
  | .switch app text cases, i, root => by
    rw [Item.build, attach_whileCount, whileCount_cases cases, newLimiterId_whileCount]
    rfl

theorem whileCount_cases : ∀ (cases : Cases) (i : Program) (root : Nat),
    (cases.build i root).1.whileCount = i.whileCount + cases.loops
  | .nil, _, _ => rfl
  | .cons _ block rest, i, root => by
    rw [Cases.build, whileCount_cases rest, whileCount_block block, Cases.loops, ← Nat.add_assoc]
    rfl

end

/-- The request at `⟨n, j⟩`. It has a limiter only if the item sets a limit. -/
def Holds (i : Program) (n j : Nat) (app : Application) (args : Args) : Prop :=
  ∃ limiter, i.request ⟨n, j⟩ = some ⟨app, args, limiter⟩ ∧ (app.limit = none → limiter = none)

/-- Node `c` is a block of a request of `n`, with `length` requests. -/
structure IsChild (i : Program) (c n length : Nat) : Prop where
  lt : n < c
  parent : (i.nodes c).parent = some n
  length : i.getLength c = length

end Program

/-! ## The layout -/

mutual

/-- The block occupies node `n` from index `j` on, with loops numbered from `k`. -/
def Block.At (i : Program) (n : Nat) : Block → Nat → Nat → Prop
  | .nil, _, _ => True
  | .cons item rest, j, k =>
    item.At i n j k ∧ rest.At i n (j + item.width) (k + item.loops)

def Item.At (i : Program) (n : Nat) : Item → Nat → Nat → Prop
  | .plain app, j, _ => i.Holds n j app .raw
  | .brk app, j, _ => i.Holds n j app .brk
  | .cond app expression then_ else_, j, k =>
    ∃ t e, i.Holds n j app (.condition expression t e) ∧
      i.IsChild t n then_.width ∧ then_.At i t 0 k ∧
      i.IsChild e n else_.width ∧ else_.At i e 0 (k + then_.loops)
  | .loop app condition maxSteps body, j, k =>
    ∃ d, i.Holds n j app (.loop k) ∧ i.whiles k = ⟨condition, d, maxSteps, ReqPtr.prev ⟨n, j⟩⟩ ∧
      i.IsChild d n (body.width + 1) ∧ body.At i d 0 (k + 1) ∧
      i.Holds d body.width app (.loop k)
  | .bareLoop app, j, k =>
    ∃ d, i.Holds n j app (.loop k) ∧ i.whiles k = initialWhileArgs d ∧ i.IsChild d n 0
  | .switch app text cases, j, k =>
    ∃ l, i.Holds n j app (.switch text l) ∧ cases.At i n k l
  | .function _, _, _ => True
  | .trigger _, _, _ => True
  | .dropped _, _, _ => True

def Cases.At (i : Program) (n : Nat) : Cases → Nat → List (String × Nat) → Prop
  | .nil, _, l => l = []
  | .cons name block rest, k, l =>
    ∃ c l', l = (name, c) :: l' ∧ i.IsChild c n block.width ∧ block.At i c 0 k ∧
      rest.At i n (k + block.loops) l'

end

namespace Program

variable {i i' F : Program} {S W : Set Nat} {root : Nat}

/-- `F` is what becomes of `i`: only the nodes in `S` get more requests, and only the
loops in `W` change. -/
structure Final (i F : Program) (S W : Set Nat) : Prop where
  node : ∀ m, m < i.nodeCount → m ∉ S → F.nodes m = i.nodes m
  children : ∀ m, m < i.nodeCount → (i.nodes m).children <+: (F.nodes m).children
  parent : ∀ m, m < i.nodeCount → (F.nodes m).parent = (i.nodes m).parent
  whiles : ∀ w, w < i.whileCount → w ∉ W → F.whiles w = i.whiles w

theorem Final.of_keeps (h : Final i' F S W) (hk : Keeps i i') : Final i F S W where
  node m hm hS := by rw [h.node m (lt_of_lt_of_le hm hk.nodeCount_le) hS, hk.node m hm]
  children m hm := by
    rw [← hk.node m hm]
    exact h.children m (lt_of_lt_of_le hm hk.nodeCount_le)
  parent m hm := by rw [h.parent m (lt_of_lt_of_le hm hk.nodeCount_le), hk.node m hm]
  whiles w hw hW := by rw [h.whiles w (lt_of_lt_of_le hw hk.whileCount_le) hW, hk.whiles w hw]

theorem Final.of_frame (h : Final i' F S W) (hf : Frame i i' root) (hroot : root ∈ S) :
    Final i F S W where
  node m hm hS := by
    rw [h.node m (lt_of_lt_of_le hm hf.nodeCount_le) hS,
      hf.node m hm fun heq => hS (heq ▸ hroot)]
  children m hm := by
    have hF := h.children m (lt_of_lt_of_le hm hf.nodeCount_le)
    by_cases hne : m = root
    · subst hne
      exact hf.children.trans hF
    · rwa [hf.node m hm hne] at hF
  parent m hm := by rw [h.parent m (lt_of_lt_of_le hm hf.nodeCount_le), hf.parent_of_lt hm]
  whiles w hw hW := by rw [h.whiles w (lt_of_lt_of_le hw hf.whileCount_le) hW, hf.whiles w hw]

theorem Final.mono (h : Final i F S W) (hS : S ⊆ S') (hW : W ⊆ W') : Final i F S' W' :=
  ⟨fun m hm hmS => h.node m hm fun hmem => hmS (hS hmem), h.children, h.parent,
    fun w hw hwW => h.whiles w hw fun hmem => hwW (hW hmem)⟩

/-- Requests stay where they are. -/
theorem Final.request (h : Final i F S W) (hp : p.node < i.nodeCount) (hr : i.request p = some r) :
    F.request p = some r := by
  obtain ⟨rest, hrest⟩ := h.children p.node hp
  unfold Program.request at hr ⊢
  rw [← hrest, List.getElem?_append_left (request_lt hr)]
  exact hr

/-- The request that has just been attached. -/
theorem Final.attached (h : Final (attach i root app args limiter) F S W)
    (hroot : root < i.nodeCount) (hlimit : app.limit = none → limiter = none) :
    F.Holds root (i.getLength root) app args := by
  rw [attach_eq] at h
  have hshape := sameShape_trySetTag (i.add root ⟨app, args, limiter⟩) app.tag root
    (i.getLength root)
  refine ⟨limiter, h.request ?_ ?_, hlimit⟩
  · rw [hshape.nodeCount]
    exact hroot
  · rw [request_of_nodes hshape.nodes]
    exact add_request_self i root _

/-- The open nodes and pending loops have been allocated. -/
structure Allocated (i : Program) (S W : Set Nat) : Prop where
  node : ∀ m ∈ S, m < i.nodeCount
  loop : ∀ w ∈ W, w < i.whileCount

theorem Allocated.mono (h : Allocated i S W) (hn : i.nodeCount ≤ i'.nodeCount)
    (hw : i.whileCount ≤ i'.whileCount) : Allocated i' S W :=
  ⟨fun m hm => lt_of_lt_of_le (h.node m hm) hn, fun w hw' => lt_of_lt_of_le (h.loop w hw') hw⟩

theorem Allocated.insert (h : Allocated i S W) (hc : c < i.nodeCount) :
    Allocated i (insert c S) W := by
  refine ⟨fun m hm => ?_, h.loop⟩
  rcases hm with rfl | hm
  · exact hc
  · exact h.node m hm

/-- A parsed block can be read back from the final heap. -/
def LaysOut (b : Block) : Prop :=
  ∀ (i F : Program) (S W : Set Nat) (root : Nat), root < i.nodeCount → root ∈ S →
    Allocated i S W → Final (b.build i root) F S W → b.At F root (i.getLength root) i.whileCount

/-- A block that nobody parses into any more. -/
theorem isChild_of_nodes {b : Block} (hF : F.nodes c = (b.build i c).nodes c)
    (hc : c < i.nodeCount) (hnode : i.nodes c = ⟨some root, idx, []⟩) (hlt : root < c) :
    F.IsChild c root b.width := by
  refine ⟨hlt, ?_, ?_⟩
  · rw [hF, (frame_block b i c hc).parent, hnode]
  · have hlen := getLength_block b i c hc
    unfold Program.getLength at hlen ⊢
    rw [hF, hlen, hnode]
    exact Nat.zero_add _

theorem getLength_of_node (hnode : i.nodes c = ⟨some root, idx, []⟩) : i.getLength c = 0 := by
  unfold Program.getLength
  rw [hnode]
  rfl

/-- The block of an item, read back: nobody parses into it after its own items. -/
theorem LaysOut.child (hb : LaysOut b) (hc : c < i.nodeCount)
    (hnode : i.nodes c = ⟨some root, idx, []⟩) (hlt : root < c) (hk : i.whileCount = k)
    (hS : Allocated i S W) (hF : F.nodes c = (b.build i c).nodes c)
    (hfinal : Final (b.build i c) F (insert c S) W) : F.IsChild c root b.width ∧ b.At F c 0 k := by
  refine ⟨isChild_of_nodes hF hc hnode hlt, ?_⟩
  have hat := hb i F _ W c hc (Set.mem_insert c S) (hS.insert hc) hfinal
  rwa [getLength_of_node hnode, hk] at hat

theorem Allocated.fresh (h : Allocated i S W) (hc : i.nodeCount ≤ c) : c ∉ S :=
  fun hmem => absurd (h.node c hmem) (by omega)

theorem at_cond (ht : LaysOut then_) (he : LaysOut else_)
    (hlimit : app.limit = none → limiter = none) (hroot : root < i.nodeCount) (hrootS : root ∈ S)
    (hS : Allocated i S W)
    (h : Final (attach (else_.build (then_.build ((i.newNode root).newNode root) i.nodeCount)
      (i.nodeCount + 1)) root app (.condition expression i.nodeCount (i.nodeCount + 1)) limiter)
      F S W) :
    (Item.cond app expression then_ else_).At F root (i.getLength root) i.whileCount := by
  have hk₂ : Keeps i ((i.newNode root).newNode root) :=
    (keeps_newNode i root).trans (keeps_newNode _ root)
  generalize hi₂ : (i.newNode root).newNode root = i₂ at h hk₂
  have hcount : i₂.nodeCount = i.nodeCount + 2 := by rw [← hi₂]; rfl
  have hloops : i₂.whileCount = i.whileCount := by rw [← hi₂]; rfl
  have htn : i₂.nodes i.nodeCount = ⟨some root, i.getLength root, []⟩ := by
    rw [← hi₂, newNode_nodes_of_lt _ _ (Nat.lt_succ_self _), newNode_nodes_self]
  have hen : i₂.nodes (i.nodeCount + 1) = ⟨some root, (i.newNode root).getLength root, []⟩ := by
    rw [← hi₂]
    exact newNode_nodes_self (i.newNode root) root
  have hft := frame_block then_ i₂ i.nodeCount (by omega)
  have hk₃ := hk₂.of_frame hft (le_refl _)
  have hnt := hft.nodeCount_le
  generalize hi₃ : then_.build i₂ i.nodeCount = i₃ at h hft hk₃ hnt
  have hfe := frame_block else_ i₃ (i.nodeCount + 1) (by omega)
  have hk₄ := hk₃.of_frame hfe (Nat.le_succ _)
  have hne := hfe.nodeCount_le
  generalize hi₄ : else_.build i₃ (i.nodeCount + 1) = i₄ at h hfe hk₄ hne
  have hholds := h.attached (by omega) hlimit
  rw [hk₄.getLength hroot] at hholds
  have h₄ := h.of_frame (frame_attach (by omega) _ _ _) hrootS
  have hSt : Allocated i₂ (insert (i.nodeCount + 1) S) W :=
    (hS.mono hk₂.nodeCount_le hk₂.whileCount_le).insert (by omega)
  have hFt : F.nodes i.nodeCount = i₃.nodes i.nodeCount := by
    rw [h₄.node _ (by omega) (hS.fresh (le_refl _)), hfe.node _ (by omega) (by omega)]
  -- the `else` block is open until the `then` block is closed
  have hfinal : Final i₃ F (insert i.nodeCount (insert (i.nodeCount + 1) S)) W :=
    (h₄.mono ((Set.subset_insert _ _).trans (Set.subset_insert _ _)) subset_rfl).of_frame hfe
      (Or.inr (Or.inl rfl))
  rw [← hi₃] at hFt hfinal
  obtain ⟨htc, hta⟩ := ht.child (by omega) htn hroot hloops hSt hFt hfinal
  have hen₃ := hen
  rw [← hft.node _ (by omega) (by omega)] at hen₃
  have hloops₃ : i₃.whileCount = i.whileCount + then_.loops := by
    rw [← hi₃, whileCount_block, hloops]
  have hFe : F.nodes (i.nodeCount + 1) = i₄.nodes (i.nodeCount + 1) :=
    h₄.node _ (by omega) (hS.fresh (Nat.le_succ _))
  have hfinal' := h₄.mono (Set.subset_insert (i.nodeCount + 1) S) (subset_refl W)
  rw [← hi₄] at hFe hfinal'
  obtain ⟨hec, hea⟩ := he.child (by omega) hen₃ (Nat.lt_succ_of_lt hroot) hloops₃
    (hS.mono hk₃.nodeCount_le hk₃.whileCount_le) hFe hfinal'
  exact ⟨_, _, hholds, htc, hta, hec, hea⟩

theorem at_loop (hb : LaysOut body) (hlimit : app.limit = none → limiter = none)
    (hroot : root < i.nodeCount) (hrootS : root ∈ S) (hS : Allocated i S W)
    (hi₂ : i₂ = (i.newNode root).newWhileId (initialWhileArgs i.nodeCount))
    (h : Final (attach (((body.build i₂ i.nodeCount).setWhile i.whileCount
        ⟨condition, i.nodeCount, maxSteps, (body.build i₂ i.nodeCount).lastRequest root⟩).add
          i.nodeCount ⟨app, .loop i.whileCount, limiter⟩) root app (.loop i.whileCount) limiter)
      F S W) :
    (Item.loop app condition maxSteps body).At F root (i.getLength root) i.whileCount := by
  have hk₂ : Keeps i i₂ := by
    rw [hi₂]
    exact (keeps_newNode i root).trans (keeps_newWhileId _ _)
  have hcount : i₂.nodeCount = i.nodeCount + 1 := by rw [hi₂]; rfl
  have hloops : i₂.whileCount = i.whileCount + 1 := by rw [hi₂]; rfl
  have hdn : i₂.nodes i.nodeCount = ⟨some root, i.getLength root, []⟩ := by
    rw [hi₂]
    exact newNode_nodes_self i root
  have hfb := frame_block body i₂ i.nodeCount (by omega)
  have hk₃ := hk₂.of_frame hfb (le_refl _)
  have hlen := getLength_block body i₂ i.nodeCount (by omega)
  have hn₃ := hfb.nodeCount_le
  have hw₃ := hfb.whileCount_le
  generalize hi₃ : body.build i₂ i.nodeCount = i₃ at h hfb hk₃ hlen hn₃ hw₃
  rw [getLength_of_node hdn, Nat.zero_add] at hlen
  generalize hargs : WhileArgs.mk condition i.nodeCount maxSteps (i₃.lastRequest root) = args at h
  generalize hi₄ : i₃.setWhile i.whileCount args = i₄ at h
  have hn₄ : i₄.nodeCount = i₃.nodeCount := by rw [← hi₄]; rfl
  have hnodes₄ : i₄.nodes = i₃.nodes := by rw [← hi₄]; rfl
  have hlen₄ : i₄.getLength i.nodeCount = body.width := by
    rw [getLength_of_nodes hnodes₄, hlen]
  have h₅ := h.of_frame (frame_attach (by show root < i₄.nodeCount; omega) _ _ _) hrootS
  have hholds := h.attached (by show root < i₄.nodeCount; omega) hlimit
  rw [add_getLength_of_ne _ _ (by omega : root ≠ i.nodeCount)] at hholds
  have hroot₄ : i₄.getLength root = i.getLength root := by
    rw [getLength_of_nodes hnodes₄]
    exact hk₃.getLength hroot
  rw [hroot₄] at hholds
  have hF : F.nodes i.nodeCount
      = (i₄.add i.nodeCount ⟨app, .loop i.whileCount, limiter⟩).nodes i.nodeCount :=
    h₅.node _ (by show i.nodeCount < i₄.nodeCount; omega) (hS.fresh (le_refl _))
  refine ⟨i.nodeCount, hholds, ?_, ⟨hroot, ?_, ?_⟩, ?_, limiter, ?_, hlimit⟩
  · -- the fields were set after the block had been parsed
    have hfresh : i.whileCount ∉ W := fun hmem => absurd (hS.loop _ hmem) (lt_irrefl _)
    rw [h₅.whiles _
      (by show i.whileCount < i₄.whileCount; rw [← hi₄]; show _ < i₃.whileCount; omega)
      hfresh]
    show i₄.whiles i.whileCount = _
    rw [← hi₄, ← hargs, lastRequest_eq_prev, hk₃.getLength hroot]
    exact update_self _ _ _
  · rw [hF, add_parent, hnodes₄, hfb.parent, hdn]
  · unfold Program.getLength
    rw [hF]
    show (i₄.add i.nodeCount _).getLength i.nodeCount = _
    rw [add_getLength_self, hlen₄]
  · have h₄ :=
      (h₅.mono (Set.subset_insert i.nodeCount S) (Set.subset_insert i.whileCount W)).of_frame
      (frame_add i₄ i.nodeCount _) (Or.inl rfl)
    have h₃ : Final i₃ F (insert i.nodeCount S) (insert i.whileCount W) := by
      refine ⟨?_, ?_, ?_, fun v hv hvW => ?_⟩
      · rw [← hnodes₄, ← hn₄]
        exact h₄.node
      · rw [← hnodes₄, ← hn₄]
        exact h₄.children
      · rw [← hnodes₄, ← hn₄]
        exact h₄.parent
      · rw [h₄.whiles v (by rw [← hi₄]; exact hv) hvW, ← hi₄]
        exact update_of_ne (fun heq => hvW (Or.inl heq)) _ _
    rw [← hi₃] at h₃
    have hS₂ := (hS.mono hk₂.nodeCount_le hk₂.whileCount_le).insert
      (show i.nodeCount < i₂.nodeCount by omega)
    have hat := hb i₂ F _ _ i.nodeCount (by omega) (Set.mem_insert _ S)
      ⟨hS₂.node, fun v hv => ?_⟩ h₃
    · rwa [getLength_of_node hdn, hloops] at hat
    · rcases hv with rfl | hv
      · omega
      · exact hS₂.loop v hv
  · refine h₅.request (by show i.nodeCount < i₄.nodeCount; omega) ?_
    rw [← hlen₄]
    exact add_request_self i₄ i.nodeCount _

theorem at_bareLoop (hlimit : app.limit = none → limiter = none) (hroot : root < i.nodeCount)
    (hrootS : root ∈ S) (hS : Allocated i S W)
    (h : Final (attach ((i.newNode root).newWhileId (initialWhileArgs i.nodeCount)) root app
      (.loop i.whileCount) limiter) F S W) :
    (Item.bareLoop app).At F root (i.getLength root) i.whileCount := by
  have hk₂ : Keeps i ((i.newNode root).newWhileId (initialWhileArgs i.nodeCount)) :=
    (keeps_newNode i root).trans (keeps_newWhileId _ _)
  have h₂ := h.of_frame (frame_attach (Nat.lt_succ_of_lt hroot) _ _ _) hrootS
  have hholds := h.attached (Nat.lt_succ_of_lt hroot) hlimit
  rw [hk₂.getLength hroot] at hholds
  have hfresh : i.whileCount ∉ W := fun hmem => absurd (hS.loop _ hmem) (lt_irrefl _)
  have hF : F.nodes i.nodeCount = ⟨some root, i.getLength root, []⟩ := by
    rw [h₂.node _ (Nat.lt_succ_self _) (hS.fresh (le_refl _))]
    exact newNode_nodes_self i root
  refine ⟨i.nodeCount, hholds, ?_, hroot, by rw [hF], getLength_of_node hF⟩
  rw [h₂.whiles i.whileCount (Nat.lt_succ_self _) hfresh]
  exact update_self _ _ _

theorem newLimiterId_none (i : Program) (h : limit = none) : (i.newLimiterId limit).2 = none := by
  rw [h]
  rfl

theorem newLimiterId_getLength (i : Program) (limit : Option Limiter) (n : Nat) :
    (i.newLimiterId limit).1.getLength n = i.getLength n :=
  getLength_of_nodes (sameHeap_newLimiterId i limit).nodes n

theorem Allocated.newLimiterId (h : Allocated i S W) (limit : Option Limiter) :
    Allocated (i.newLimiterId limit).1 S W :=
  h.mono (keeps_newLimiterId i limit).nodeCount_le (keeps_newLimiterId i limit).whileCount_le

theorem newLimiterId_root (limit : Option Limiter) (hroot : root < i.nodeCount) :
    root < (i.newLimiterId limit).1.nodeCount :=
  lt_of_lt_of_le hroot (keeps_newLimiterId i limit).nodeCount_le

mutual

theorem laysOut_block : ∀ b : Block, LaysOut b
  | .nil => fun _ _ _ _ _ _ _ _ _ => trivial
  | .cons item rest => by
    intro i F S W root hroot hrootS hS h
    have hitem := (extends_item item i root).frame hroot
    have hroot' := lt_of_lt_of_le hroot hitem.nodeCount_le
    refine ⟨at_item item hroot hrootS hS (h.of_frame (frame_block rest _ root hroot') hrootS), ?_⟩
    have hrest := laysOut_block rest _ F S W root hroot' hrootS
      (hS.mono hitem.nodeCount_le hitem.whileCount_le) h
    rwa [(extends_item item i root).getLength hroot, whileCount_item] at hrest

theorem at_item : ∀ (item : Item) {i F : Program} {S W : Set Nat} {root : Nat},
    root < i.nodeCount → root ∈ S → Allocated i S W → Final (item.build i root) F S W →
    item.At F root (i.getLength root) i.whileCount
  | .plain app, i, _, _, _, root, hroot, _, _, h
  | .brk app, i, _, _, _, root, hroot, _, _, h => by
    rw [← newLimiterId_getLength i app.limit root]
    exact Final.attached h (newLimiterId_root app.limit hroot) (newLimiterId_none i)
  | .cond app ex t e, i, _, _, _, root, hroot, hrootS, hS, h => by
    rw [← newLimiterId_getLength i app.limit root, ← newLimiterId_whileCount i app.limit]
    exact at_cond (laysOut_block t) (laysOut_block e) (newLimiterId_none i)
      (newLimiterId_root app.limit hroot) hrootS (hS.newLimiterId app.limit) h
  | .loop app c m body, i, _, _, _, root, hroot, hrootS, hS, h => by
    rw [← newLimiterId_getLength i app.limit root, ← newLimiterId_whileCount i app.limit]
    exact at_loop (laysOut_block body) (newLimiterId_none i) (newLimiterId_root app.limit hroot)
      hrootS (hS.newLimiterId app.limit) rfl h
  | .bareLoop app, i, _, _, _, root, hroot, hrootS, hS, h => by
    rw [← newLimiterId_getLength i app.limit root, ← newLimiterId_whileCount i app.limit]
    exact at_bareLoop (newLimiterId_none i) (newLimiterId_root app.limit hroot) hrootS
      (hS.newLimiterId app.limit) h
  | .switch app text cases, i, _, _, _, root, hroot, hrootS, hS, h => by
    have hroot₁ := newLimiterId_root app.limit hroot
    have hk := keeps_cases cases _ root (Keeps.refl (i.newLimiterId app.limit).1)
    have hcases := at_cases cases hroot₁ (hS.newLimiterId app.limit)
      (h.of_frame (frame_attach (lt_of_lt_of_le hroot₁ hk.nodeCount_le) _ _ _) hrootS)
    rw [← newLimiterId_getLength i app.limit root, ← newLimiterId_whileCount i app.limit,
      ← hk.getLength hroot₁]
    exact ⟨_, Final.attached h (lt_of_lt_of_le hroot₁ hk.nodeCount_le) (newLimiterId_none i),
      hcases⟩
  | .function _, _, _, _, _, _, _, _, _, _ | .trigger _, _, _, _, _, _, _, _, _, _
  | .dropped _, _, _, _, _, _, _, _, _, _ => trivial

theorem at_cases : ∀ (cases : Cases) {i F : Program} {S W : Set Nat} {root : Nat},
    root < i.nodeCount → Allocated i S W → Final (cases.build i root).1 F S W →
    cases.At F root i.whileCount (cases.build i root).2
  | .nil, _, _, _, _, _, _, _, _ => rfl
  | .cons name block rest, i, F, S, W, root, hroot, hS, h => by
    have hfb := frame_block block (i.newNode root) i.nodeCount (Nat.lt_succ_self _)
    have hb : Final (block.build (i.newNode root) i.nodeCount) F S W :=
      h.of_keeps (keeps_cases rest _ root (Keeps.refl _))
    have hS₂ : Allocated (i.newNode root) S W := hS.mono (Nat.le_succ _) (le_refl _)
    have hF := hb.node _ (lt_of_lt_of_le (Nat.lt_succ_self _) hfb.nodeCount_le)
      (hS.fresh (le_refl _))
    obtain ⟨hchild, hat⟩ := (laysOut_block block).child (Nat.lt_succ_self _)
      (newNode_nodes_self i root) hroot rfl hS₂ hF (hb.mono (Set.subset_insert _ _) (subset_refl W))
    have hrest := at_cases rest (lt_of_lt_of_le (Nat.lt_succ_of_lt hroot) hfb.nodeCount_le)
      (hS₂.mono hfb.nodeCount_le hfb.whileCount_le) h
    rw [whileCount_block] at hrest
    exact ⟨_, _, rfl, hchild, hat, hrest⟩

end

/-- The parsed heap holds the tree of the schema in the root node. -/
theorem at_parse (functions triggers : List (String × Applications)) (schema : Applications) :
    (decode schema).At (parseFlowArray (Program.empty functions triggers) 0 schema) 0 0 0 ∧
      (parseFlowArray (Program.empty functions triggers) 0 schema).getLength 0
        = (decode schema).width := by
  rw [parseFlowArray_eq_build]
  have hroot : 0 < (Program.empty functions triggers).nodeCount := Nat.one_pos
  constructor
  · refine laysOut_block (decode schema) _ _ {0} ∅ 0 hroot (Set.mem_singleton 0)
      ⟨fun m hm => by rw [Set.mem_singleton_iff.mp hm]; exact hroot, fun w hw => ?_⟩
      ⟨fun _ _ _ => rfl, fun _ _ => List.prefix_refl _, fun _ _ => rfl, fun _ _ _ => rfl⟩
    exact absurd hw (Set.notMem_empty w)
  · rw [getLength_block (decode schema) _ 0 hroot]
    exact Nat.zero_add _

end Program

end FlowManager
