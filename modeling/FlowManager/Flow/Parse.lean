import FlowManager.Flow.Program

/-!
# `parseFlowArray` and the tree view of a schema (flow/flow.go)

- `parseFlowArray`, `newConditionArgs`, `newWhileArgs`, `newSwitchArgs`: the
  recursive descent of the source over decoded JSON, one heap passed along.
- `Block`, `Item`, `Cases` and `decode`: the same schema as a syntax tree, one
  `Item` per object of the source list, dropped and declaring items included.
- `Block.build`: the heap built by structural recursion over the tree.
- `parseFlowArray_eq_build`: both agree, so every later fact about parsing is an
  induction over the tree.
-/

namespace FlowManager

/-- `setParentNode`, `trySetTag` and `Add` at the end of a parser branch. Some
branches of the source add the request before they register the tag; the index
is read by `setParentNode` before either. -/
def attach (i : Program) (root : Nat) (app : Application) (args : Args)
    (limiter : Option Nat) : Program :=
  (i.trySetTag app.tag root (i.getLength root)).add root ⟨app, args, limiter⟩

/-- The two errors of `newSwitchArgs`. -/
def switchError (details : String) : AppError :=
  ⟨"Iterator", "iterator.parse_app.switch.valid_name", details, 400⟩

/-- The `whileArgs` literal of `newWhileArgs`. -/
def initialWhileArgs (doNode : Nat) : WhileArgs :=
  { condition := "", do_ := doNode, maxSteps := 1000, originalParent := none }

/-- The `whileArgs` after the fields of a map have been read. `originalParent` is
the last request already in the parent node. -/
def readWhileArgs (i : Program) (parent doNode : Nat) (tmp : Object) : WhileArgs :=
  { condition := Object.getText tmp "condition", do_ := doNode, maxSteps := Object.getMaxSteps tmp,
    originalParent := i.lastRequest parent }

mutual

/-- `parseFlowArray` -/
def parseFlowArray (i : Program) (root : Nat) (apps : Applications) : Program :=
  match apps with
  | [] => i
  | v :: rest => parseFlowArray (parseApplication i root v) root rest
termination_by 4 * sizeOf apps
decreasing_by all_goals simp; try omega

/-- The body of the loop of `parseFlowArray`. -/
def parseApplication (i : Program) (root : Nat) (v : Object) : Program :=
  let app := parseReq v
  let alloc := i.newLimiterId app.limit
  match app.name with
  | "if" =>
    let r := newConditionArgs alloc.1 root app.args
    attach r.1 root app r.2 alloc.2
  | "while" =>
    let r := newWhileArgs alloc.1 root app app.args alloc.2
    attach r.1 root app r.2 alloc.2
  | "function" => orWarn alloc.1 (addFunction alloc.1 app.args)
  | "trigger" => orWarn alloc.1 (addTrigger alloc.1 app.args)
  | "switch" =>
    match newSwitchArgs alloc.1 root app.args with
    | .ok r => attach r.1 root app r.2 alloc.2
    | .error _ => alloc.1
  | "break" => attach alloc.1 root app .brk alloc.2
  | _ => if app.name ≠ "" then attach alloc.1 root app .raw alloc.2 else alloc.1
termination_by 4 * sizeOf v + 3
decreasing_by all_goals have := parseReq_args_sizeOf_le v; omega

/-- `newConditionArgs`: both blocks are allocated before either is parsed. -/
def newConditionArgs (i : Program) (parent : Nat) (props : Value) : Program × Args :=
  let then_ := i.nodeCount
  let else_ := i.nodeCount + 1
  let i := (i.newNode parent).newNode parent
  match props with
  | .obj tmp =>
    let i := parseFlowArray i then_ (Object.getBlock tmp "then")
    let i := parseFlowArray i else_ (Object.getBlock tmp "else")
    (i, .condition (Object.getText tmp "expression") then_ else_)
  | _ => (i, .condition "" then_ else_)
termination_by 4 * sizeOf props + 2
decreasing_by all_goals
  simp only [Value.obj.sizeOf_spec]
  have := Object.getBlock_sizeOf_le tmp "then"
  have := Object.getBlock_sizeOf_le tmp "else"
  omega

/-- `newWhileArgs`: with map arguments a copy of the request, sharing its limiter,
ends the `do` block. -/
def newWhileArgs (i : Program) (parent : Nat) (app : Application) (props : Value)
    (limiter : Option Nat) : Program × Args :=
  let w := i.whileCount
  let doNode := i.nodeCount
  let i := (i.newNode parent).newWhileId (initialWhileArgs doNode)
  match props with
  | .obj tmp =>
    let i := parseFlowArray i doNode (Object.getBlock tmp "do")
    let i := i.setWhile w (readWhileArgs i parent doNode tmp)
    (i.add doNode ⟨app, .loop w, limiter⟩, .loop w)
  | _ => (i, .loop w)
termination_by 4 * sizeOf props + 2
decreasing_by
  simp only [Value.obj.sizeOf_spec]
  have := Object.getBlock_sizeOf_le tmp "do"
  omega

/-- `newSwitchArgs` -/
def newSwitchArgs (i : Program) (parent : Nat) (props : Value) :
    Except AppError (Program × Args) :=
  match props with
  | .obj tmp =>
    match (Object.get tmp "variable").asStr with
    | none => .error (switchError "bad arguments, variable is required")
    | some text =>
      if text = "" then .error (switchError "bad arguments, variable is required")
      else
        match _h : (Object.get tmp "case").asObj with
        | none => .error (switchError "bad arguments, case is required")
        | some cases =>
          let r := parseCases i parent cases
          .ok (r.1, .switch text r.2)
  | _ => .ok (i, .switch "" [])
termination_by 4 * sizeOf props + 2
decreasing_by
  have hget := Object.get_sizeOf_le tmp "case"
  rw [Value.asObj_eq_some _h] at hget
  simp only [Value.obj.sizeOf_spec] at hget ⊢
  omega

/-- The loop of `newSwitchArgs` over the cases; a case that is not a list is
skipped. -/
def parseCases (i : Program) (parent : Nat) (cases : Object) :
    Program × List (String × Nat) :=
  match cases with
  | [] => (i, [])
  | (caseName, caseVal) :: rest =>
    match _h : caseBlock caseVal with
    | some c =>
      let n := i.nodeCount
      let r := parseCases (parseFlowArray (i.newNode parent) n c) parent rest
      (r.1, (caseName, n) :: r.2)
    | none => parseCases i parent rest
termination_by 4 * sizeOf cases + 1
decreasing_by
  · have := caseBlock_sizeOf_lt _h
    simp
    omega
  · simp
  · simp

end

/-! ## The schema as a tree -/

mutual

/-- One object of a schema. -/
inductive Item where
  /-- an application without a block of its own -/
  | plain (app : Application)
  /-- `break` -/
  | brk (app : Application)
  /-- `if` -/
  | cond (app : Application) (expression : String) (then_ else_ : Block)
  /-- `while` -/
  | loop (app : Application) (condition : String) (maxSteps : Int) (body : Block)
  /-- `while` whose arguments are not a map: its `do` block is never filled -/
  | bareLoop (app : Application)
  /-- `switch` that `newSwitchArgs` accepts -/
  | switch (app : Application) (text : String) (cases : Cases)
  /-- `function` -/
  | function (app : Application)
  /-- `trigger` -/
  | trigger (app : Application)
  /-- reported and dropped: a bad `switch`, or no application name -/
  | dropped (app : Application)

inductive Block where
  | nil
  | cons (item : Item) (rest : Block)

inductive Cases where
  | nil
  | cons (name : String) (block : Block) (rest : Cases)

end

mutual

/-- The tree of a list of applications. -/
def decode (apps : Applications) : Block :=
  match apps with
  | [] => .nil
  | v :: rest => .cons (decodeItem v) (decode rest)
termination_by 4 * sizeOf apps
decreasing_by all_goals simp; try omega

/-- The tree of one application object. -/
def decodeItem (v : Object) : Item :=
  let app := parseReq v
  match app.name with
  | "if" => decodeCondition app app.args
  | "while" => decodeWhile app app.args
  | "function" => .function app
  | "trigger" => .trigger app
  | "switch" => decodeSwitch app app.args
  | "break" => .brk app
  | _ => if app.name ≠ "" then .plain app else .dropped app
termination_by 4 * sizeOf v + 3
decreasing_by all_goals have := parseReq_args_sizeOf_le v; omega

def decodeCondition (app : Application) (props : Value) : Item :=
  match props with
  | .obj tmp =>
    .cond app (Object.getText tmp "expression") (decode (Object.getBlock tmp "then"))
      (decode (Object.getBlock tmp "else"))
  | _ => .cond app "" .nil .nil
termination_by 4 * sizeOf props + 2
decreasing_by all_goals
  simp only [Value.obj.sizeOf_spec]
  have := Object.getBlock_sizeOf_le tmp "then"
  have := Object.getBlock_sizeOf_le tmp "else"
  omega

def decodeWhile (app : Application) (props : Value) : Item :=
  match props with
  | .obj tmp =>
    .loop app (Object.getText tmp "condition") (Object.getMaxSteps tmp)
      (decode (Object.getBlock tmp "do"))
  | _ => .bareLoop app
termination_by 4 * sizeOf props + 2
decreasing_by
  simp only [Value.obj.sizeOf_spec]
  have := Object.getBlock_sizeOf_le tmp "do"
  omega

def decodeSwitch (app : Application) (props : Value) : Item :=
  match props with
  | .obj tmp =>
    match (Object.get tmp "variable").asStr with
    | none => .dropped app
    | some text =>
      if text = "" then .dropped app
      else
        match _h : (Object.get tmp "case").asObj with
        | none => .dropped app
        | some cases => .switch app text (decodeCases cases)
  | _ => .switch app "" .nil
termination_by 4 * sizeOf props + 2
decreasing_by
  have hget := Object.get_sizeOf_le tmp "case"
  rw [Value.asObj_eq_some _h] at hget
  simp only [Value.obj.sizeOf_spec] at hget ⊢
  omega

def decodeCases (cases : Object) : Cases :=
  match cases with
  | [] => .nil
  | (caseName, caseVal) :: rest =>
    match _h : caseBlock caseVal with
    | some c => .cons caseName (decode c) (decodeCases rest)
    | none => decodeCases rest
termination_by 4 * sizeOf cases + 1
decreasing_by
  · have := caseBlock_sizeOf_lt _h
    simp
    omega
  · simp
  · simp

end

/-! ## Building the heap from the tree -/

mutual

/-- The heap after parsing the block into `root`. -/
def Block.build (i : Program) (root : Nat) : Block → Program
  | .nil => i
  | .cons item rest => rest.build (item.build i root) root

/-- The heap after parsing one item into `root`. -/
def Item.build (i : Program) (root : Nat) : Item → Program
  | .plain app =>
    let alloc := i.newLimiterId app.limit
    attach alloc.1 root app .raw alloc.2
  | .brk app =>
    let alloc := i.newLimiterId app.limit
    attach alloc.1 root app .brk alloc.2
  | .cond app expression then_ else_ =>
    let alloc := i.newLimiterId app.limit
    let t := alloc.1.nodeCount
    let i := (alloc.1.newNode root).newNode root
    attach (else_.build (then_.build i t) (t + 1)) root app (.condition expression t (t + 1))
      alloc.2
  | .loop app condition maxSteps body =>
    let alloc := i.newLimiterId app.limit
    let w := alloc.1.whileCount
    let d := alloc.1.nodeCount
    let i := body.build ((alloc.1.newNode root).newWhileId (initialWhileArgs d)) d
    let args : WhileArgs := { condition := condition, do_ := d, maxSteps := maxSteps,
                              originalParent := i.lastRequest root }
    attach ((i.setWhile w args).add d ⟨app, .loop w, alloc.2⟩) root app (.loop w) alloc.2
  | .bareLoop app =>
    let alloc := i.newLimiterId app.limit
    let d := alloc.1.nodeCount
    attach ((alloc.1.newNode root).newWhileId (initialWhileArgs d)) root app
      (.loop alloc.1.whileCount) alloc.2
  | .switch app text cases =>
    let alloc := i.newLimiterId app.limit
    let r := cases.build alloc.1 root
    attach r.1 root app (.switch text r.2) alloc.2
  | .function app =>
    let alloc := i.newLimiterId app.limit
    orWarn alloc.1 (addFunction alloc.1 app.args)
  | .trigger app =>
    let alloc := i.newLimiterId app.limit
    orWarn alloc.1 (addTrigger alloc.1 app.args)
  | .dropped app => (i.newLimiterId app.limit).1

def Cases.build (i : Program) (parent : Nat) : Cases → Program × List (String × Nat)
  | .nil => (i, [])
  | .cons name block rest =>
    let r := rest.build (block.build (i.newNode parent) i.nodeCount) parent
    (r.1, (name, i.nodeCount) :: r.2)

end

/-- Agreement of the two builders on everything smaller than `n`. -/
def AgreeBelow (n : Nat) : Prop :=
  ∀ (apps : Applications) (i : Program) (root : Nat), sizeOf apps < n →
    parseFlowArray i root apps = (decode apps).build i root

theorem parseCases_eq_build (ih : AgreeBelow n) :
    ∀ (cases : Object) (i : Program) (parent : Nat), sizeOf cases < n →
      parseCases i parent cases = (decodeCases cases).build i parent
  | [], i, parent, _ => by
    rw [parseCases, decodeCases, Cases.build]
  | (caseName, caseVal) :: rest, i, parent, hn => by
    rw [parseCases, decodeCases]
    simp only [List.cons.sizeOf_spec, Prod.mk.sizeOf_spec] at hn
    split
    · rename_i c h
      have hc := caseBlock_sizeOf_lt h
      dsimp only
      rw [ih c _ _ (by omega), parseCases_eq_build ih rest _ _ (by omega), Cases.build]
    · exact parseCases_eq_build ih rest _ _ (by omega)

theorem newSwitchArgs_eq_build (ih : AgreeBelow n) (i : Program) (root : Nat) (app : Application)
    (hn : sizeOf app.args ≤ n) :
    (match newSwitchArgs (i.newLimiterId app.limit).1 root app.args with
      | .ok r => attach r.1 root app r.2 (i.newLimiterId app.limit).2
      | .error _ => (i.newLimiterId app.limit).1)
      = (decodeSwitch app app.args).build i root := by
  generalize app.args = props at hn
  cases props with
  | obj tmp =>
    rw [newSwitchArgs.eq_1, decodeSwitch.eq_1]
    cases (Object.get tmp "variable").asStr with
    | none => simp only [Item.build]
    | some text =>
      by_cases htext : text = ""
      · simp only [htext, if_true, Item.build]
      · simp only [htext, if_false]
        cases h : (Object.get tmp "case").asObj with
        | none => simp only [Item.build]
        | some cases =>
          have hget := Object.get_sizeOf_le tmp "case"
          rw [Value.asObj_eq_some h] at hget
          simp only [Value.obj.sizeOf_spec] at hget hn
          simp only [parseCases_eq_build ih cases _ _ (by omega), Item.build]
  | _ => rw [newSwitchArgs, decodeSwitch] <;> simp [Item.build, Cases.build]

theorem parseApplication_eq_build (ih : AgreeBelow n) (i : Program) (root : Nat) (v : Object)
    (hn : sizeOf v ≤ n) : parseApplication i root v = (decodeItem v).build i root := by
  have hargs := parseReq_args_sizeOf_le v
  rw [parseApplication, decodeItem]
  split
  · -- if
    generalize (parseReq v).args = props at hargs
    cases props with
    | obj tmp =>
      have h1 := Object.getBlock_sizeOf_le tmp "then"
      have h2 := Object.getBlock_sizeOf_le tmp "else"
      simp only [Value.obj.sizeOf_spec] at hargs
      rw [newConditionArgs, decodeCondition]
      rw [ih _ _ _ (by omega), ih _ _ _ (by omega), Item.build]
    | _ => rw [newConditionArgs, decodeCondition] <;> simp [Item.build, Block.build]
  · -- while
    generalize (parseReq v).args = props at hargs
    cases props with
    | obj tmp =>
      have h1 := Object.getBlock_sizeOf_le tmp "do"
      simp only [Value.obj.sizeOf_spec] at hargs
      rw [newWhileArgs, decodeWhile]
      rw [ih _ _ _ (by omega), Item.build]
      rfl
    | _ => rw [newWhileArgs, decodeWhile] <;> simp [Item.build]
  · rw [Item.build]
  · rw [Item.build]
  · exact newSwitchArgs_eq_build ih i root (parseReq v) (by omega)
  · rw [Item.build]
  · split <;> rw [Item.build]

/-- The recursive descent over JSON builds the heap of the schema's tree. -/
theorem parseFlowArray_eq_build (apps : Applications) (i : Program) (root : Nat) :
    parseFlowArray i root apps = (decode apps).build i root := by
  have hall : ∀ n, AgreeBelow n := by
    intro n
    induction n with
    | zero => exact fun apps i root h => absurd h (Nat.not_lt_zero _)
    | succ n ih =>
      intro apps
      induction apps with
      | nil =>
        intro i root _
        rw [parseFlowArray, decode, Block.build]
      | cons v rest ihrest =>
        intro i root hn
        simp only [List.cons.sizeOf_spec] at hn
        rw [parseFlowArray, decode, Block.build, parseApplication_eq_build ih i root v (by omega)]
        exact ihrest _ _ (by omega)
  exact hall _ apps i root (Nat.lt_succ_self _)

end FlowManager
