import FlowManager.Text.Encode

/-!
# Joining instructions (flow/ai_bridge.go)

`openai` joins the texts of its instructions to one, and looks at the last byte of what it has to
see whether a full stop is missing. The index of that byte is `l - 1`, and `l` is the sum of the
lengths of all that has been joined so far, not the length of it: they are the same after the first
text, and `l` is past the end from the second on.

- `joinInstructions`: the loop.
- `sentences`: what is meant.
- `joinInstructions_eq`: the loop makes the sentences of up to two texts, and panics at a third.
-/

namespace FlowManager.Text

def fullStop : UInt8 := 0x2e

/-- A full stop and a blank -/
def separator : Bytes := [fullStop, 0x20]

/-- The loop of `openai` from the `i`th instruction on, with `l` and `instructions`; `none` is the
panic of an index out of range. -/
def joinLoop (i l : Nat) (instructions : Bytes) : List Bytes → Option Bytes
  | [] => some instructions
  | text :: rest =>
    if text = [] then joinLoop (i + 1) l instructions rest
    else if 0 < i ∧ 0 < l then
      match instructions[l - 1]? with
      | none => none
      | some last =>
        let joined := (if last ≠ fullStop then instructions ++ separator else instructions) ++ text
        joinLoop (i + 1) (l + joined.length) joined rest
    else joinLoop (i + 1) (l + (instructions ++ text).length) (instructions ++ text) rest

/-- The instructions that the bot is sent, of the texts of the arguments -/
def joinInstructions (texts : List Bytes) : Option Bytes := joinLoop 0 0 [] texts

/-- What stands between a text and the next one -/
def between (text : Bytes) : Bytes := if text.getLast? = some fullStop then [] else separator

/-- Texts that are not empty, separated where the one before does not end with a full stop -/
def sentences : List Bytes → Bytes
  | [] => []
  | [text] => text
  | text :: next :: rest => text ++ between text ++ sentences (next :: rest)

/-- The texts that are not empty -/
def filled (texts : List Bytes) : List Bytes := texts.filter (· ≠ [])

theorem filled_nil_cons (rest : List Bytes) : filled ([] :: rest) = filled rest := by
  simp [filled]

theorem filled_cons (htext : text ≠ []) (rest : List Bytes) :
    filled (text :: rest) = text :: filled rest := by
  simp [filled, htext]

/-- With `l` past the end there is a panic, unless there is nothing more to join. -/
theorem joinLoop_past (hi : 0 < i) (hl : instructions.length < l) (texts : List Bytes) :
    joinLoop i l instructions texts = if filled texts = [] then some instructions else none := by
  induction texts generalizing i with
  | nil => rfl
  | cons text rest ih =>
    rw [joinLoop]
    split
    · rename_i htext
      rw [htext, filled_nil_cons]
      exact ih (by omega)
    · rename_i htext
      rw [if_pos ⟨hi, by omega⟩, filled_cons htext, List.getElem?_eq_none (by omega)]
      simp

/-- With one text joined, `l` is its length: the next one is separated from it. -/
theorem joinLoop_one (hi : 0 < i) (hfirst : first ≠ []) (texts : List Bytes) :
    joinLoop i first.length first texts =
      if (filled texts).length ≤ 1 then some (sentences (first :: filled texts)) else none := by
  have hlength : 0 < first.length := List.length_pos_iff.mpr hfirst
  induction texts generalizing i with
  | nil => rfl
  | cons text rest ih =>
    rw [joinLoop]
    split
    · rename_i htext
      rw [htext, filled_nil_cons]
      exact ih (by omega)
    · rename_i htext
      have hlast : first[first.length - 1]? = first.getLast? := List.getLast?_eq_getElem?.symm
      rw [if_pos ⟨hi, hlength⟩, hlast, filled_cons htext, List.getLast?_eq_some_getLast hfirst]
      simp only
      have hjoined : (if first.getLast hfirst ≠ fullStop then first ++ separator else first) ++ text
          = first ++ between first ++ text := by
        rw [between, List.getLast?_eq_some_getLast hfirst]
        by_cases hstop : first.getLast hfirst = fullStop <;> simp [hstop]
      rw [hjoined, joinLoop_past (by omega) (by omega)]
      cases hrest : filled rest with
      | nil => simp [sentences]
      | cons next more => simp

/-- What `openai` sends is the sentences of the instructions if at most two of them have a text;
with a third text it panics. -/
theorem joinInstructions_eq (texts : List Bytes) :
    joinInstructions texts =
      if (filled texts).length ≤ 2 then some (sentences (filled texts)) else none := by
  -- nothing is joined yet, and the instructions passed so far are empty
  have hstart : ∀ i, joinLoop i 0 [] texts =
      if (filled texts).length ≤ 2 then some (sentences (filled texts)) else none := by
    induction texts with
    | nil => exact fun i => rfl
    | cons text rest ih =>
      intro i
      rw [joinLoop]
      split
      · rename_i htext
        rw [htext, filled_nil_cons]
        exact ih (i + 1)
      · rename_i htext
        rw [if_neg (by omega), filled_cons htext, List.nil_append, Nat.zero_add,
          joinLoop_one (by omega) htext]
        simp
  exact hstart 0

/-- Three short instructions are a panic; the sentences of them would be "a. b.c". -/
theorem joinInstructions_three :
    joinInstructions [[0x61], [0x62, fullStop], [0x63]] = none ∧
      sentences (filled [[0x61], [0x62, fullStop], [0x63]]) =
        [0x61, fullStop, 0x20, 0x62, fullStop, 0x63] := by
  decide

end FlowManager.Text
