import Mathlib.Data.List.TakeWhile
import FlowManager.Text.Expand

/-!
# Capture references in the texts of a call (routes/call/call.go)

The parser of a call that a destination pattern has routed runs twice over a text: `ParseText` puts
in the values of variables, and then every `$n` is replaced by capture group `n` of the destination.
The second pass reads the values, too.

- `reference`: the regular expression; `CallParser.parseText`: the code.
- `verbatim`: the references of the text itself replaced, and the values put in as they are.
- `length_erase_append_lt`: a reference that goes through a cut is lost.
- `parseText_verbatim_iff`: for which texts and values the two are the same.
-/

namespace FlowManager.Text

open Scan

/-- `\d` -/
def isDigit (b : UInt8) : Bool := 0x30 ≤ b && b ≤ 0x39

theorem not_isDigit_dollar : ¬ isDigit dollar = true := by decide

/-- The digits at the beginning -/
def digits (l : Bytes) : Bytes := l.takeWhile isDigit

/-- How long a reference at the beginning is -/
def referenceLen : Bytes → Option Nat
  | b :: rest => if b = dollar ∧ digits rest ≠ [] then some ((digits rest).length + 1) else none
  | [] => none

theorem referenceLen_eq_some :
    referenceLen l = some n ↔
      ∃ rest, l = dollar :: rest ∧ digits rest ≠ [] ∧ n = (digits rest).length + 1 := by
  constructor
  · intro h
    unfold referenceLen at h
    split at h
    · split at h
      · rename_i b rest href
        obtain ⟨rfl, hne⟩ := href
        cases h
        exact ⟨rest, rfl, hne, rfl⟩
      · cases h
    · cases h
  · rintro ⟨rest, rfl, hne, rfl⟩
    exact if_pos ⟨rfl, hne⟩

theorem length_digits_le (l : Bytes) : (digits l).length ≤ l.length :=
  (List.takeWhile_sublist _).length_le

theorem digits_append_of_all (l' : Bytes) (h : ∀ b ∈ l, isDigit b = true) :
    digits (l ++ l') = l ++ digits l' :=
  List.takeWhile_append_of_pos h

theorem digits_eq_self (h : ∀ b ∈ l, isDigit b = true) : digits l = l :=
  List.takeWhile_eq_self_iff.mpr h

/-- Digits that something else ends do not depend on what follows. -/
theorem digits_append_of_not_all (l' : Bytes) (h : ¬ ∀ b ∈ l, isDigit b = true) :
    digits (l ++ l') = digits l := by
  unfold digits
  rw [List.takeWhile_append, if_neg]
  intro hlength
  have hall := (List.takeWhile_prefix isDigit (l := l)).eq_of_length hlength
  exact h (List.takeWhile_eq_self_iff.mp hall)

theorem digits_append_ne_nil (l' : Bytes) (h : digits l ≠ []) : digits (l ++ l') ≠ [] := by
  by_cases hall : ∀ b ∈ l, isDigit b = true
  · rw [digits_append_of_all l' hall]
    rw [digits_eq_self hall] at h
    exact List.append_ne_nil_of_left_ne_nil h _
  · rwa [digits_append_of_not_all l' hall]

/-- `compileOutPattern` -/
def reference : Pattern UInt8 where
  len := referenceLen
  pos h := by
    obtain ⟨rest, -, -, rfl⟩ := referenceLen_eq_some.mp h
    exact Nat.succ_pos _
  le h := by
    obtain ⟨rest, rfl, -, rfl⟩ := referenceLen_eq_some.mp h
    exact Nat.succ_le_succ (length_digits_le rest)
  inside {l n} l' h hle := by
    obtain ⟨rest, hrest, hne, rfl⟩ := referenceLen_eq_some.mp h
    cases l with
    | nil => exact absurd hle (Nat.not_succ_le_zero _)
    | cons b l =>
      rw [List.cons_append] at hrest
      obtain ⟨rfl, rfl⟩ := List.cons.inj hrest
      by_cases hall : ∀ b ∈ l, isDigit b = true
      · -- all of the text are digits, and the match has no more of them
        rw [digits_append_of_all l' hall, List.length_append, List.length_cons] at hle
        have hnil : digits l' = [] := List.length_eq_zero_iff.mp (by omega)
        rw [digits_append_of_all l' hall, hnil, List.append_nil, ← digits_eq_self hall] at hne
        rw [digits_append_of_all l' hall, hnil, List.append_nil]
        exact referenceLen_eq_some.mpr ⟨l, rfl, hne, by rw [digits_eq_self hall]⟩
      · rw [digits_append_of_not_all l' hall] at hne ⊢
        exact referenceLen_eq_some.mpr ⟨l, rfl, hne, rfl⟩
  longer l' h := by
    obtain ⟨rest, rfl, hne, rfl⟩ := referenceLen_eq_some.mp h
    exact ⟨_, referenceLen_eq_some.mpr ⟨rest ++ l', rfl, digits_append_ne_nil l' hne, rfl⟩⟩

/-! ## `callParser` -/

/-- The capture groups of a destination, by their decimal numbers -/
abbrev OutboundVars := Bytes → Option Bytes

/-- `getOutboundReg` after `FindStringSubmatch`, which gives no groups for a destination that does
not match -/
def getOutboundReg (submatch : List Bytes) : OutboundVars := fun key =>
  (submatch.zipIdx.find? fun group => ascii (toString group.2) = key).map Prod.fst

structure CallParser where
  call : Connection
  outboundVars : Option OutboundVars

/-- The callback of the second pass -/
def OutboundVars.capture (outboundVars : OutboundVars) (s : Bytes) : Bytes :=
  (outboundVars s.tail).getD []

/-- `ParseText` of the connection to FreeSWITCH -/
def fsParseText (text : Bytes) (_ops : List ParseOption) : Bytes := text

def CallParser.parseText (p : CallParser) (text : Bytes) (ops : List ParseOption) : Bytes :=
  let txt := Text.parseText p.call text ops
  -- the second pass reads the values that the first one has put in
  let txt :=
    match p.outboundVars with
    | some outboundVars => replaceAll reference outboundVars.capture txt
    | none => txt
  fsParseText txt []

/-! ## The text and the values -/

/-- A byte of the text, or a value that is put in for a placeholder -/
inductive Piece where
  | byte (b : UInt8)
  | value (v : Bytes)

def Piece.bytes : Piece → Bytes
  | .byte b => [b]
  | .value v => v

def flatten (ps : List Piece) : Bytes := ps.flatMap Piece.bytes

/-- The pieces of an expanded text -/
def pieces (c : Connection) (json : Bool) : Bool → List (Token UInt8) → List Piece
  | _, [] => []
  | uri, .one b :: ts => .byte b :: pieces c json uri ts
  | uri, .hit m :: ts =>
    .value (callback c json uri m).1 :: pieces c json (callback c json uri m).2 ts

/-- The pieces that `ParseText` puts together -/
def parsed (c : Connection) (text : Bytes) (ops : List ParseOption) : List Piece :=
  pieces c (ops.contains parseOptionJson) false (scan placeholder text)

/-- The references in the text replaced, after some bytes of it that come right before: values end
the text that is searched for references, and stay as they are. -/
def verbatim (f : Bytes → Bytes) : Bytes → List Piece → Bytes
  | run, [] => replaceAll reference f run
  | run, .byte b :: ps => verbatim f (run ++ [b]) ps
  | run, .value v :: ps => replaceAll reference f run ++ (v ++ verbatim f [] ps)

@[simp]
theorem flatten_nil : flatten [] = [] := rfl

@[simp]
theorem flatten_cons (p : Piece) (ps : List Piece) : flatten (p :: ps) = p.bytes ++ flatten ps :=
  List.flatMap_cons ..

@[simp]
theorem flatten_append (ps ps' : List Piece) : flatten (ps ++ ps') = flatten ps ++ flatten ps' :=
  List.flatMap_append

theorem flatten_byte (l : Bytes) : flatten (l.map .byte) = l := by
  induction l with
  | nil => rfl
  | cons b l ih => rw [List.map_cons, flatten_cons, ih, Piece.bytes, List.singleton_append]

theorem flatten_pieces (c : Connection) (json uri : Bool) (ts : List (Token UInt8)) :
    flatten (pieces c json uri ts) = expand c json uri ts := by
  induction ts generalizing uri with
  | nil => rfl
  | cons t ts ih =>
    cases t with
    | one b => exact congrArg (b :: ·) (ih uri)
    | hit m => exact congrArg ((callback c json uri m).1 ++ ·) (ih _)

theorem flatten_parsed (c : Connection) (text : Bytes) (ops : List ParseOption) :
    flatten (parsed c text ops) = parseText c text ops :=
  flatten_pieces ..

/-! ## References at a cut -/

/-- A dollar sign and nothing but digits after it at the end: a reference may go on. -/
def Open (l : Bytes) : Prop := ∃ u ds, l = u ++ dollar :: ds ∧ ∀ b ∈ ds, isDigit b = true

/-- A digit at the beginning: a reference may have begun before. -/
def Continues (l : Bytes) : Prop := ∃ d w, l = d :: w ∧ isDigit d = true

variable {l l' v run : Bytes} {f : Bytes → Bytes} {ps before after : List Piece}

theorem Open.append (h : Open l') (l : Bytes) : Open (l ++ l') := by
  obtain ⟨u, ds, rfl, hds⟩ := h
  exact ⟨l ++ u, ds, (List.append_assoc ..).symm, hds⟩

theorem digits_ne_nil_iff : digits l ≠ [] ↔ Continues l := by
  constructor
  · intro h
    cases l with
    | nil => exact absurd rfl h
    | cons b l =>
      refine ⟨b, l, rfl, ?_⟩
      by_contra hb
      exact h (List.takeWhile_cons_of_neg hb)
  · rintro ⟨d, w, rfl, hd⟩
    rw [digits, List.takeWhile_cons_of_pos hd]
    exact List.cons_ne_nil _ _

/-- A cut inside of a reference -/
theorem open_of_inside (h : Inside reference l l') : Open l ∧ Continues l' := by
  obtain ⟨u, v, n, rfl, -, hlen, hv, hlt⟩ := h
  obtain ⟨rest, hrest, hne, rfl⟩ := referenceLen_eq_some.mp hlen
  cases v with
  | nil => exact absurd rfl hv
  | cons b v =>
    rw [List.cons_append] at hrest
    obtain ⟨rfl, rfl⟩ := List.cons.inj hrest
    rw [List.length_cons] at hlt
    by_cases hall : ∀ b ∈ v, isDigit b = true
    · refine ⟨⟨u, v, rfl, hall⟩, digits_ne_nil_iff.mp fun hnil => ?_⟩
      rw [digits_append_of_all l' hall, hnil, List.append_nil] at hlt
      exact Nat.lt_irrefl _ hlt
    · rw [digits_append_of_not_all l' hall] at hlt
      have := length_digits_le v
      omega

theorem boundary_of_not_open (h : ¬ (Open l ∧ Continues l')) : Boundary reference l l' :=
  (boundary_or_inside reference l l').resolve_right fun hinside => h (open_of_inside hinside)

theorem reference_len_of_ne (h : b ≠ dollar) : reference.len (b :: l) = none :=
  if_neg fun hb => h hb.1

/-- Digits in front are part of no reference. -/
theorem replaceAll_digits (hds : ∀ b ∈ l, isDigit b = true) :
    replaceAll reference f (l ++ l') = l ++ replaceAll reference f l' := by
  induction l with
  | nil => rfl
  | cons b l ih =>
    have hb : b ≠ dollar := fun heq => not_isDigit_dollar (heq ▸ hds b List.mem_cons_self)
    rw [List.cons_append, replaceAll_one (reference_len_of_ne hb),
      ih fun b' hb' => hds b' (List.mem_cons_of_mem _ hb'), List.cons_append]

/-- The text with all references taken out, as without groups -/
def erase (l : Bytes) : Bytes := replaceAll reference (fun _ => []) l

theorem erase_one (h : reference.len (b :: l) = none) : erase (b :: l) = b :: erase l :=
  replaceAll_one h

theorem erase_hit (h : reference.len l = some n) : erase l = erase (l.drop n) :=
  (replaceAll_hit h).trans (List.nil_append _)

theorem erase_append (h : Boundary reference l l') : erase (l ++ l') = erase l ++ erase l' :=
  replaceAll_append h _

theorem length_erase_le (l : Bytes) : (erase l).length ≤ l.length := by
  induction l using scan_induction reference with
  | nil => exact Nat.le_refl _
  | one b l h ih =>
    rw [erase_one h]
    exact Nat.succ_le_succ ih
  | hit l n h ih =>
    rw [erase_hit h]
    exact ih.trans (List.length_drop ▸ Nat.sub_le _ _)

/-- The digits of a text in front of the rest -/
theorem length_erase_digits (l : Bytes) :
    (erase l).length = (digits l).length + (erase (l.drop (digits l).length)).length := by
  have hsplit : digits l ++ l.drop (digits l).length = l :=
    List.prefix_iff_eq_append.mp (List.takeWhile_prefix _)
  have hall : ∀ b ∈ digits l, isDigit b = true := fun b hb => List.mem_takeWhile_imp hb
  calc (erase l).length
      = (erase (digits l ++ l.drop (digits l).length)).length := by rw [hsplit]
    _ = (digits l ++ erase (l.drop (digits l).length)).length := by
      rw [erase, replaceAll_digits hall, erase]
    _ = _ := List.length_append

/-- What an open end leaves of the text when a reference in front is taken out -/
theorem Open.drop_digits (h : Open (dollar :: l)) (hall : ¬ ∀ b ∈ l, isDigit b = true) :
    Open (l.drop (digits l).length) := by
  obtain ⟨u, ds, heq, hds⟩ := h
  cases u with
  | nil => exact absurd ((List.cons.inj heq).2 ▸ hds) hall
  | cons b u =>
    rw [List.cons_append] at heq
    obtain ⟨-, rfl⟩ := List.cons.inj heq
    -- the dollar sign ends the digits
    have hle : (digits (u ++ dollar :: ds)).length ≤ u.length := by
      unfold digits
      rw [List.takeWhile_append]
      split
      · rw [List.takeWhile_cons_of_neg not_isDigit_dollar, List.append_nil]
      · exact length_digits_le u
    rw [List.drop_append_of_le_length hle]
    exact ⟨_, ds, rfl, hds⟩

/-- A reference that goes through a cut is lost: the two parts by themselves keep more. -/
theorem length_erase_append_lt (h : Open l) (h' : Continues l') :
    (erase (l ++ l')).length < (erase l).length + (erase l').length := by
  generalize hw : l ++ l' = w
  -- along the tokens of the whole text, up to the reference at the cut
  induction w using scan_induction reference generalizing l with
  | nil =>
    obtain ⟨u, ds, rfl, -⟩ := h
    simp at hw
  | one b w hnone ih =>
    cases l with
    | nil =>
      obtain ⟨u, ds, heq, -⟩ := h
      simp at heq
    | cons b' l =>
      rw [List.cons_append] at hw
      obtain ⟨rfl, rfl⟩ := List.cons.inj hw
      have hopen : Open l := by
        obtain ⟨u, ds, heq, hds⟩ := h
        cases u with
        | nil =>
          obtain ⟨rfl, rfl⟩ := List.cons.inj heq
          have hne : digits (l ++ l') ≠ [] := by
            rw [digits_append_of_all l' hds]
            exact List.append_ne_nil_of_right_ne_nil _ (digits_ne_nil_iff.mpr h')
          rw [show reference.len (dollar :: (l ++ l')) = _ from if_pos ⟨rfl, hne⟩] at hnone
          cases hnone
        | cons b u => exact ⟨u, ds, (List.cons.inj heq).2, hds⟩
      have := ih hopen rfl
      rw [erase_one hnone, erase_one (len_none_of_append _ hnone), List.length_cons,
        List.length_cons]
      omega
  | hit w n hlen ih =>
    obtain ⟨rest, rfl, hne, rfl⟩ := referenceLen_eq_some.mp hlen
    cases l with
    | nil =>
      obtain ⟨u, ds, heq, -⟩ := h
      simp at heq
    | cons b l =>
      rw [List.cons_append] at hw
      obtain ⟨rfl, rfl⟩ := List.cons.inj hw
      rw [erase_hit hlen, List.drop_succ_cons]
      by_cases hall : ∀ b ∈ l, isDigit b = true
      · -- the reference at the cut
        have hdigits := digits_ne_nil_iff.mpr h'
        have hpos := List.length_pos_iff.mpr hdigits
        have hsum := length_erase_digits l'
        rw [digits_append_of_all l' hall, List.length_append, List.drop_length_add_append]
        omega
      · rw [digits_append_of_not_all l' hall] at hne ih ⊢
        have hself : reference.len (dollar :: l) = some ((digits l).length + 1) :=
          if_pos ⟨rfl, hne⟩
        have hdrop : (l ++ l').drop (digits l).length = l.drop (digits l).length ++ l' :=
          List.drop_append_of_le_length (length_digits_le l)
        have := ih (h.drop_digits hall) hdrop.symm
        rw [erase_hit hself, List.drop_succ_cons]
        exact this

theorem length_erase_append_le (l l' : Bytes) :
    (erase (l ++ l')).length ≤ (erase l).length + (erase l').length := by
  by_cases h : Open l ∧ Continues l'
  · exact Nat.le_of_lt (length_erase_append_lt h.1 h.2)
  · rw [erase_append (boundary_of_not_open h), List.length_append]

/-- A dollar sign right before a digit -/
def HasReference (v : Bytes) : Prop := ∃ u d w, v = u ++ dollar :: d :: w ∧ isDigit d = true

theorem length_erase_lt (h : HasReference v) : (erase v).length < v.length := by
  obtain ⟨u, d, w, rfl, hd⟩ := h
  have hopen : Open (u ++ [dollar]) := ⟨u, [], rfl, nofun⟩
  have hlt := length_erase_append_lt hopen ⟨d, w, rfl, hd⟩
  have hu := length_erase_le (u ++ [dollar])
  have hw := length_erase_le (d :: w)
  rw [List.append_assoc, List.singleton_append] at hlt
  simp only [List.length_append, List.length_cons, List.length_nil] at hu hw ⊢
  omega

theorem replaceAll_eq_self (h : ¬ HasReference v) : replaceAll reference f v = v := by
  induction v using scan_induction reference with
  | nil => rfl
  | one b v hnone ih =>
    rw [replaceAll_one hnone, ih]
    rintro ⟨u, d, w, rfl, hd⟩
    exact h ⟨b :: u, d, w, rfl, hd⟩
  | hit v n hlen ih =>
    obtain ⟨rest, rfl, hne, -⟩ := referenceLen_eq_some.mp hlen
    obtain ⟨d, w, rfl, hd⟩ := digits_ne_nil_iff.mp hne
    exact absurd ⟨[], d, w, rfl, hd⟩ h

/-! ## Values put in as they are -/

/-- Nothing of a value is read as a reference: there is none in it, and none goes through one of its
ends. -/
structure Unread (ps : List Piece) : Prop where
  inside : ∀ v, Piece.value v ∈ ps → ¬ HasReference v
  ends : ∀ before v after, ps = before ++ .value v :: after →
    ¬ (Open (flatten before) ∧ Continues (v ++ flatten after)) ∧
    ¬ (Open (flatten before ++ v) ∧ Continues (flatten after))

theorem Unread.drop (h : Unread (before ++ ps)) : Unread ps where
  inside v hv := h.inside v (List.mem_append_right _ hv)
  ends before' v after heq := by
    have hends := h.ends (before ++ before') v after (by rw [heq, List.append_assoc])
    rw [flatten_append, List.append_assoc] at hends
    exact ⟨fun hopen => hends.1 ⟨hopen.1.append _, hopen.2⟩,
      fun hopen => hends.2 ⟨hopen.1.append _, hopen.2⟩⟩

/-- After some bytes of the text -/
theorem replaceAll_eq_verbatim (h : Unread (run.map .byte ++ ps)) :
    replaceAll reference f (run ++ flatten ps) = verbatim f run ps := by
  induction ps generalizing run with
  | nil => rw [flatten_nil, List.append_nil, verbatim]
  | cons p ps ih =>
    cases p with
    | byte b =>
      have hrun : run ++ flatten (.byte b :: ps) = (run ++ [b]) ++ flatten ps := by
        rw [flatten_cons, Piece.bytes, List.append_assoc]
      rw [hrun, verbatim]
      refine ih ?_
      rwa [List.map_append, List.append_assoc]
    | value v =>
      obtain ⟨hleft, hright⟩ := h.ends (run.map .byte) v ps rfl
      rw [flatten_byte] at hleft hright
      have hv := h.inside v (List.mem_append_right _ List.mem_cons_self)
      have hvalue : Unread ([.value v] ++ ps) := h.drop
      have hrest : Unread ([].map Piece.byte ++ ps) := hvalue.drop
      rw [flatten_cons, Piece.bytes, replaceAll_append (boundary_of_not_open hleft),
        replaceAll_append (boundary_of_not_open fun hopen => hright ⟨hopen.1.append _, hopen.2⟩),
        replaceAll_eq_self hv, verbatim, ← ih hrest, List.nil_append]

theorem verbatim_append_value (run : Bytes) (before : List Piece) (v : Bytes) (after : List Piece) :
    verbatim f run (before ++ .value v :: after) =
      verbatim f run before ++ (v ++ verbatim f [] after) := by
  induction before generalizing run with
  | nil => rfl
  | cons p before ih =>
    cases p with
    | byte b => exact ih _
    | value v' =>
      show _ ++ (v' ++ verbatim f [] (before ++ .value v :: after)) = _ ++ (v' ++ _) ++ _
      rw [ih]
      simp only [List.append_assoc]

/-- Taking out references from the whole leaves no more than from the text alone. -/
theorem length_erase_le_verbatim (run : Bytes) (ps : List Piece) :
    (erase (run ++ flatten ps)).length ≤ (verbatim (fun _ => []) run ps).length := by
  induction ps generalizing run with
  | nil => rw [flatten_nil, List.append_nil, verbatim, erase]
  | cons p ps ih =>
    cases p with
    | byte b =>
      rw [flatten_cons, Piece.bytes, ← List.append_assoc]
      exact ih _
    | value v =>
      have hcut := length_erase_append_le run (v ++ flatten ps)
      have hcut' := length_erase_append_le v (flatten ps)
      have hv := length_erase_le v
      have hrest := ih []
      rw [List.nil_append] at hrest
      rw [flatten_cons, Piece.bytes, verbatim, ← erase, List.length_append, List.length_append]
      omega

/-- A value that is read in part makes the text shorter. -/
theorem unread_of_length (h : (erase (flatten ps)).length = (verbatim (fun _ => []) [] ps).length) :
    Unread ps := by
  -- cut at a value, the text has the lengths of the three parts: nothing has been read across
  -- the ends of the value, and nothing in it
  have hsum : ∀ before v after, ps = before ++ .value v :: after →
      (erase (flatten before ++ (v ++ flatten after))).length =
        (verbatim (fun _ => []) [] before).length + (v.length +
          (verbatim (fun _ => []) [] after).length) := by
    rintro before v after rfl
    rw [verbatim_append_value, List.length_append, List.length_append, flatten_append,
      flatten_cons] at h
    exact h
  constructor
  · intro v hv href
    obtain ⟨before, after, heq⟩ := List.append_of_mem hv
    have h := hsum before v after heq
    have hcut := length_erase_append_le (flatten before) (v ++ flatten after)
    have hcut' := length_erase_append_le v (flatten after)
    have hbefore := length_erase_le_verbatim [] before
    have hafter := length_erase_le_verbatim [] after
    have hlt := length_erase_lt href
    rw [List.nil_append] at hbefore hafter
    omega
  · intro before v after heq
    have h := hsum before v after heq
    have hbefore := length_erase_le_verbatim [] before
    have hafter := length_erase_le_verbatim [] after
    have hv := length_erase_le v
    rw [List.nil_append] at hbefore hafter
    constructor
    · intro hopen
      have hcut := length_erase_append_lt hopen.1 hopen.2
      have hcut' := length_erase_append_le v (flatten after)
      omega
    · intro hopen
      have hcut := length_erase_append_lt hopen.1 hopen.2
      have hcut' := length_erase_append_le (flatten before) v
      rw [List.append_assoc] at hcut
      omega

/-- The parser of a routed call puts in the values as they are, and replaces the references in the
text itself only, whatever the groups are, exactly if no value has a dollar sign right before a
digit, and no end of a value stands between a dollar sign, with nothing but digits after it, and a
digit. -/
theorem parseText_verbatim_iff (c : Connection) (text : Bytes) (ops : List ParseOption) :
    (∀ groups, CallParser.parseText ⟨c, some (getOutboundReg groups)⟩ text ops =
      verbatim (getOutboundReg groups).capture [] (parsed c text ops)) ↔
    Unread (parsed c text ops) := by
  have hparse : ∀ groups, CallParser.parseText ⟨c, some (getOutboundReg groups)⟩ text ops =
      replaceAll reference (getOutboundReg groups).capture (flatten (parsed c text ops)) := by
    intro groups
    rw [flatten_parsed]
    rfl
  constructor
  · intro h
    -- without groups all references go
    have hnil := h []
    rw [hparse] at hnil
    exact unread_of_length (congrArg List.length hnil)
  · intro h groups
    rw [hparse, ← replaceAll_eq_verbatim, List.nil_append]
    exact h

/-- A variable with a price in its value -/
def price : Connection where
  get _ := (ascii "$5.00", true)

/-- The digits of the price are read as the number of a group. -/
theorem parseText_verbatim_iff_price :
    CallParser.parseText ⟨price, some (getOutboundReg [ascii "12", ascii "1"])⟩
        (ascii "$1: $\x7bb\x7d") [] = ascii "1: .00" ∧
      verbatim (getOutboundReg [ascii "12", ascii "1"]).capture []
        (parsed price (ascii "$1: $\x7bb\x7d") []) = ascii "1: $5.00" := by
  decide +kernel

end FlowManager.Text
