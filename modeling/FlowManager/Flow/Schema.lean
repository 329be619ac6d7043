import Mathlib.Algebra.Order.Floor.Ring
import Mathlib.Data.Rat.Floor

/-!
# Schema objects (model/applications.go, flow/flow.go)

A schema reaches the interpreter as decoded JSON: a list of objects, one per
application. This file models the decoded values, the Go type assertions the
parser makes on them, and `parseReq`, which reads one object into the fields of
an `ApplicationRequest`.

- `Value`: a decoded `interface{}`. A Go map is the list of its entries in the
  order in which `range` visits them; that order is unspecified in Go, so a
  statement about every list is a statement about every order.
- `Application`: the fields that `parseReq` fills in.
- `parseReq_args_sizeOf_le`: the arguments are part of the object, which is why the
  recursive parser terminates.
-/

namespace FlowManager

/-- A decoded `interface{}`: JSON, plus Go's own `int` (which `parseReq` accepts
as a tag). -/
inductive Value where
  | null
  | bool (b : Bool)
  /-- `float64` -/
  | num (q : Rat)
  | int (i : Int)
  | str (s : String)
  | arr (l : List Value)
  | obj (m : List (String × Value))

/-- `map[string]interface{}`, also under its name `model.ApplicationObject`. -/
abbrev Object := List (String × Value)

/-- `model.Applications`. -/
abbrev Applications := List Object

namespace Value

/-- `v.(string)` -/
def asStr : Value → Option String
  | .str s => some s
  | _ => none

/-- `v.([]interface{})` -/
def asArr : Value → Option (List Value)
  | .arr l => some l
  | _ => none

/-- `v.(map[string]interface{})` -/
def asObj : Value → Option Object
  | .obj m => some m
  | _ => none

/-- `v.(float64)`, with Go's zero value when the assertion fails. -/
def asNum : Value → Rat
  | .num q => q
  | _ => 0

theorem asArr_eq_some {v : Value} (h : v.asArr = some l) : v = .arr l := by
  cases v with
  | arr l' => rw [Option.some.inj h]
  | _ => cases h

theorem asObj_eq_some {v : Value} (h : v.asObj = some m) : v = .obj m := by
  cases v with
  | obj m' => rw [Option.some.inj h]
  | _ => cases h

end Value

/-- `m[key]`: a missing key reads as the nil interface. -/
def Object.get (m : Object) (key : String) : Value :=
  match m.find? fun entry => entry.1 == key with
  | some entry => entry.2
  | none => .null

/-- A value read from an object is a proper part of it, or nil. -/
theorem Object.get_sizeOf_le (m : Object) (key : String) :
    sizeOf (m.get key) ≤ sizeOf m := by
  unfold Object.get
  split
  · rename_i entry h
    have hlt := List.sizeOf_lt_of_mem (List.mem_of_find?_eq_some h)
    have hsnd : sizeOf entry.2 < sizeOf entry := by
      cases entry
      simp
    omega
  · (cases m <;> simp); omega

/-- `ArrInterfaceToArrayApplication`: an element that is not a map becomes a nil
object, which `parseFlowArray` then reports as a bad application. -/
def arrInterfaceToArrayApplication (src : List Value) : Applications :=
  src.map fun v => (v.asObj).getD []

theorem sizeOf_arrInterfaceToArrayApplication_le (src : List Value) :
    sizeOf (arrInterfaceToArrayApplication src) ≤ sizeOf src := by
  induction src with
  | nil => simp [arrInterfaceToArrayApplication]
  | cons v src ih =>
    have hv : sizeOf ((v.asObj).getD []) ≤ sizeOf v := by
      cases v <;> simp [Value.asObj]
    simp only [arrInterfaceToArrayApplication, List.map_cons, List.cons.sizeOf_spec] at ih ⊢
    omega

/-! ## Limits -/

/-- The fixed part of a `Limiter`; the running `count` belongs to the flow. -/
structure Limiter where
  max : Nat
  failover : String
  deriving DecidableEq

/-- Go's `uint32(f)` for a positive `float64`: truncate to an `int64`, keep the low 32 bits. What
is too large for an `int64` becomes the least one, whose low bits are 0. -/
def toUint32 (q : Rat) : Nat :=
  if q < 2 ^ 63 then ⌊q⌋.toNat % 2 ^ 32 else 0

/-- `newLimiter`: both fields must be usable, else there is no limiter. -/
def newLimiter (args : Object) : Option Limiter :=
  let max := (args.get "max").asNum
  let failover := ((args.get "failover").asStr).getD ""
  -- the test comes before the conversion, so a limit between 0 and 1 becomes 0
  if 0 < max ∧ 0 < failover.length then
    some { max := toUint32 max, failover := failover }
  else
    none

/-- `newLog`: the step name to log, when it is a non-empty string. -/
def newLog (args : Object) : Option String :=
  match (args.get "name").asStr with
  | some name => if name = "" then none else some name
  | none => none

/-! ## `parseReq` -/

/-- What `parseReq` reads out of one object. The two `Flags` bits are two
booleans. -/
structure Application where
  name : String := ""
  args : Value := .null
  breakEnabled : Bool := false
  asyncEnabled : Bool := false
  debugId : String := ""
  tag : String := ""
  limit : Option Limiter := none
  log : Option String := none

/-- The body of the `range` loop of `parseReq`. -/
def parseField (req : Application) (field : String × Value) : Application :=
  match field.1 with
  | "_id" =>
    match field.2 with
    | .str s => { req with debugId := s }
    | _ => req
  | "break" =>
    match field.2 with
    | .bool true => { req with breakEnabled := true }
    | _ => req
  | "async" =>
    match field.2 with
    | .bool true => { req with asyncEnabled := true }
    | _ => req
  | "tag" =>
    match field.2 with
    | .str s => { req with tag := s }
    | .int i => { req with tag := toString i }
    | _ => req
  | "limit" =>
    match field.2 with
    | .obj lim => { req with limit := newLimiter lim }
    | _ => req
  | "trace" =>
    match field.2 with
    | .obj l => { req with log := newLog l }
    | _ => req
  | _ =>
    -- the first other key names the application; later ones are ignored
    if req.name = "" then { req with name := field.1, args := field.2 } else req

/-- `parseReq`: an object without a name but with `break: true` is a `break`. -/
def parseReq (m : Object) : Application :=
  let req := m.foldl parseField {}
  if req.name = "" ∧ req.breakEnabled = true then { req with name := "break" } else req

theorem parseField_args (req : Application) (field : String × Value) :
    (parseField req field).args = req.args ∨ (parseField req field).args = field.2 := by
  unfold parseField
  repeat' split
  all_goals first | exact Or.inl rfl | exact Or.inr rfl

/-- The loop keeps the arguments it started with or takes those of a field. -/
theorem foldl_parseField_args (m : Object) :
    ∀ req : Application, (m.foldl parseField req).args = req.args ∨
      ∃ field ∈ m, (m.foldl parseField req).args = field.2 := by
  induction m with
  | nil => exact fun req => Or.inl rfl
  | cons field m ih =>
    intro req
    rcases ih (parseField req field) with h | ⟨f, hf, h⟩
    · rcases parseField_args req field with h' | h'
      · exact Or.inl (h.trans h')
      · exact Or.inr ⟨field, List.mem_cons_self, h.trans h'⟩
    · exact Or.inr ⟨f, List.mem_cons_of_mem _ hf, h⟩

theorem parseReq_args (m : Object) : (parseReq m).args = (m.foldl parseField {}).args := by
  unfold parseReq
  dsimp only
  split <;> rfl

/-- The arguments of a parsed request are no larger than the object. -/
theorem parseReq_args_sizeOf_le (m : Object) : sizeOf (parseReq m).args ≤ sizeOf m := by
  rw [parseReq_args]
  rcases foldl_parseField_args m {} with h | ⟨field, hmem, h⟩
  · rw [h]
    (cases m <;> simp); omega
  · rw [h]
    have hlt := List.sizeOf_lt_of_mem hmem
    have hsnd : sizeOf field.2 < sizeOf field := by
      cases field
      simp
    omega

end FlowManager
