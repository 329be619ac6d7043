import FlowManager.Text.Encode

/-!
# Placeholders in texts (model/variables.go)

`ParseText` replaces every placeholder, from a dollar sign and an opening brace to the next closing
brace, by the value of the variable that it names. A name that ends in `.uri()` asks for the value
in URL encoding. The callback keeps that wish in a variable outside of it, so that all later
placeholders of the text get encoded values, too.

- `placeholder`: the regular expression; `parseText`: the code.
- `alone`: a placeholder expanded by itself.
- `parseText_alone_iff`: for which texts `ParseText` does that.
-/

namespace FlowManager.Text

open Scan

/-- The braces, which stand in regular expressions and names -/
def dollar : UInt8 := 0x24

def openBrace : UInt8 := 0x7b

def closeBrace : UInt8 := 0x7d

/-- The bytes up to the first closing brace -/
def upToBrace (l : Bytes) : Bytes := l.takeWhile (· ≠ closeBrace)

/-- How long a placeholder at the beginning is -/
def placeholderLen : Bytes → Option Nat
  | b :: c :: rest =>
    if b = dollar ∧ c = openBrace ∧ closeBrace ∈ rest then some ((upToBrace rest).length + 3)
    else none
  | _ => none

theorem placeholderLen_eq_some :
    placeholderLen l = some n ↔
      ∃ rest, l = dollar :: openBrace :: rest ∧ closeBrace ∈ rest ∧
        n = (upToBrace rest).length + 3 := by
  constructor
  · intro h
    unfold placeholderLen at h
    split at h
    · split at h
      · rename_i b c rest hplace
        obtain ⟨rfl, rfl, hmem⟩ := hplace
        cases h
        exact ⟨rest, rfl, hmem, rfl⟩
      · cases h
    · cases h
  · rintro ⟨rest, rfl, hmem, rfl⟩
    exact if_pos ⟨rfl, rfl, hmem⟩

theorem length_upToBrace (h : closeBrace ∈ l) : (upToBrace l).length < l.length := by
  induction l with
  | nil => cases h
  | cons b l ih =>
    unfold upToBrace
    by_cases hb : b = closeBrace
    · subst hb
      exact Nat.succ_pos _
    · rw [List.takeWhile_cons_of_pos (by simpa using hb)]
      exact Nat.succ_lt_succ (ih ((List.mem_cons.mp h).resolve_left fun heq => hb heq.symm))

/-- What follows the first closing brace does not matter. -/
theorem upToBrace_append (l' : Bytes) (h : closeBrace ∈ l) : upToBrace (l ++ l') = upToBrace l := by
  unfold upToBrace
  rw [List.takeWhile_append, if_neg]
  exact fun heq => absurd heq (Nat.ne_of_lt (length_upToBrace h))

/-- Without a closing brace nothing stops. -/
theorem upToBrace_of_notMem (l' : Bytes) (h : closeBrace ∉ l) :
    upToBrace (l ++ l') = l ++ upToBrace l' := by
  unfold upToBrace
  rw [List.takeWhile_append_of_pos]
  intro b hb
  simpa using fun heq : b = closeBrace => h (heq ▸ hb)

theorem placeholderLen_inside (l' : Bytes) (h : placeholderLen (l ++ l') = some n)
    (hle : n ≤ l.length) : placeholderLen l = some n := by
  obtain ⟨rest, hrest, hmem, rfl⟩ := placeholderLen_eq_some.mp h
  match l, hle with
  | [], hle => exact absurd hle (by simp)
  | [b], hle => exact absurd hle (by simp)
  | b :: c :: l, hle =>
    simp only [List.cons_append, List.cons.injEq] at hrest
    obtain ⟨rfl, rfl, rfl⟩ := hrest
    by_cases hl : closeBrace ∈ l
    · rw [upToBrace_append l' hl]
      exact placeholderLen_eq_some.mpr ⟨l, rfl, hl, rfl⟩
    · -- otherwise the match would be longer than the text
      rw [upToBrace_of_notMem l' hl] at hle
      simp only [List.length_cons, List.length_append] at hle
      omega

/-- `compileVar` -/
def placeholder : Pattern UInt8 where
  len := placeholderLen
  pos h := by
    obtain ⟨rest, -, -, rfl⟩ := placeholderLen_eq_some.mp h
    exact Nat.succ_pos _
  le h := by
    obtain ⟨rest, rfl, hmem, rfl⟩ := placeholderLen_eq_some.mp h
    have := length_upToBrace hmem
    simp only [List.length_cons]
    omega
  inside l' h hle := placeholderLen_inside l' h hle
  longer l' h := by
    obtain ⟨rest, rfl, hmem, rfl⟩ := placeholderLen_eq_some.mp h
    exact ⟨_, placeholderLen_eq_some.mpr ⟨rest ++ l', rfl, List.mem_append_left _ hmem, rfl⟩⟩

/-! ## `ParseText` -/

/-- The part of a `Connection` that is read here -/
structure Connection where
  get : Bytes → Bytes × Bool

abbrev ParseOption := Nat

def parseOptionJson : ParseOption := 1

def uriSuffix : Bytes := ascii ".uri()"

/-- The name in a placeholder -/
def inner (m : Bytes) : Bytes := (m.drop 2).dropLast

/-- A placeholder asks for URL encoding. -/
def asksUri (m : Bytes) : Bool := uriSuffix.isSuffixOf (inner m)

/-- The variable that a placeholder stands for -/
def varName (m : Bytes) : Bytes :=
  if asksUri m then (inner m).take ((inner m).length - 6) else inner m

/-- The end of the callback -/
def finish (json : Bool) (out : Bytes) : Bytes :=
  if json ∧ 0 < out.length then jsonString [] out true else out

/-- The callback of `ParseText`, with `uri` before and after -/
def callback (c : Connection) (json : Bool) (uri : Bool) (m : Bytes) : Bytes × Bool :=
  let uri := uri || asksUri m
  let out := (c.get (varName m)).1
  let out := if uri ∧ out ≠ [] then urlEncoded out else out
  (finish json out, uri)

/-- The tokens of a text, one after another -/
def expand (c : Connection) (json : Bool) : Bool → List (Token UInt8) → Bytes
  | _, [] => []
  | uri, .one b :: ts => b :: expand c json uri ts
  | uri, .hit m :: ts => (callback c json uri m).1 ++ expand c json (callback c json uri m).2 ts

def parseText (c : Connection) (text : Bytes) (ops : List ParseOption) : Bytes :=
  expand c (ops.contains parseOptionJson) false (scan placeholder text)

/-! ## Each placeholder by itself -/

/-- What a placeholder alone is replaced by -/
def alone (c : Connection) (json : Bool) (m : Bytes) : Bytes :=
  let out := (c.get (varName m)).1
  let out := if asksUri m then urlEncoded out else out
  if json then jsonString [] out true else out

/-- What the placeholder would be replaced by if it asked for URL encoding -/
def encoded (c : Connection) (json : Bool) (m : Bytes) : Bytes :=
  let out := urlEncoded (c.get (varName m)).1
  if json then jsonString [] out true else out

/-- Every placeholder by itself -/
def expandAlone (c : Connection) (json : Bool) (text : Bytes) : Bytes :=
  replaceAll placeholder (alone c json) text

variable {c : Connection} {json uri : Bool} {m : Bytes}

theorem finish_eq (json : Bool) (out : Bytes) :
    finish json out = if json then jsonString [] out true else out := by
  unfold finish
  cases out with
  | nil => cases json <;> rfl
  | cons b out => cases json <;> simp

/-- The callback encodes if this placeholder or one before it has asked for it. -/
theorem callback_fst : (callback c json uri m).1 =
    if uri then encoded c json m else alone c json m := by
  have hnil : ∀ out : Bytes, (if out ≠ [] then urlEncoded out else out) = urlEncoded out := by
    intro out
    cases out <;> rfl
  unfold callback encoded alone
  simp only [finish_eq]
  cases uri with
  | true => simp only [Bool.true_or, true_and, hnil, if_true]
  | false =>
    cases asksUri m with
    | true => simp only [Bool.or_true, true_and, hnil, if_true, if_false, Bool.false_eq_true]
    | false => simp only [Bool.or_self, Bool.false_eq_true, false_and, if_false]

theorem encoded_of_asksUri (h : asksUri m = true) : encoded c json m = alone c json m := by
  unfold encoded alone
  simp only [h, if_true]

/-- A placeholder that does not mind being encoded -/
def Neutral (c : Connection) (json : Bool) (m : Bytes) : Prop := encoded c json m = alone c json m

/-- No placeholder behind one that asks for URL encoding gets another value by it. -/
def Undisturbed (c : Connection) (json : Bool) (text : Bytes) : Prop :=
  ∀ before m after, scan placeholder text = before ++ .hit m :: after →
    (∃ m', Token.hit m' ∈ before ∧ asksUri m' = true) → asksUri m = false → Neutral c json m

variable {text a b : Bytes} {ts ts' : List (Token UInt8)}

/-- Some placeholder asks for URL encoding. -/
def Asked (ts : List (Token UInt8)) : Prop := ∃ m, Token.hit m ∈ ts ∧ asksUri m = true

theorem expand_append (c : Connection) (json : Bool) (ts ts' : List (Token UInt8)) (uri : Bool) :
    ∃ uri', expand c json uri (ts ++ ts') = expand c json uri ts ++ expand c json uri' ts' ∧
      (uri' = true ↔ uri = true ∨ Asked ts) := by
  induction ts generalizing uri with
  | nil => exact ⟨uri, rfl, by simp [Asked]⟩
  | cons t ts ih =>
    cases t with
    | one b =>
      obtain ⟨uri', heq, huri⟩ := ih uri
      refine ⟨uri', congrArg (b :: ·) heq, huri.trans ?_⟩
      simp [Asked]
    | hit m =>
      obtain ⟨uri', heq, huri⟩ := ih (callback c json uri m).2
      refine ⟨uri', ?_, huri.trans ?_⟩
      · show _ ++ expand c json _ (ts ++ ts') = _ ++ _ ++ _
        rw [heq, List.append_assoc]
      · simp [Asked, callback, or_and_right, exists_or, or_assoc]

/-- A run of the callback over placeholders that do not mind -/
theorem expand_eq_alone (uri : Bool) (h : ∀ before m after, ts = before ++ .hit m :: after →
      uri = true ∨ Asked before → asksUri m = false → Neutral c json m) :
    expand c json uri ts = ts.flatMap (Token.replace (alone c json)) := by
  induction ts generalizing uri with
  | nil => rfl
  | cons t ts ih =>
    cases t with
    | one b =>
      refine congrArg (b :: ·) (ih uri fun before m after hts hasked =>
        h (.one b :: before) m after ?_ ?_)
      · rw [hts, List.cons_append]
      · refine hasked.imp_right ?_
        rintro ⟨m', hmem, hm'⟩
        exact ⟨m', List.mem_cons_of_mem _ hmem, hm'⟩
    | hit m =>
      -- with the flag set the value is escaped once more, and that makes no difference
      have hm : (callback c json uri m).1 = alone c json m := by
        rw [callback_fst]
        cases huri : uri with
        | false => rfl
        | true =>
          cases hasks : asksUri m with
          | true => exact encoded_of_asksUri hasks
          | false => exact h [] m ts rfl (.inl huri) hasks
      have hrest := ih (callback c json uri m).2
        fun before m' after hts hasked => h (.hit m :: before) m' after ?_ ?_
      · rw [List.flatMap_cons, ← hrest, Token.replace, ← hm]
        rfl
      · rw [hts, List.cons_append]
      · -- the flag that the callback leaves was set before, or is set by this placeholder
        rcases hasked with huri | ⟨m'', hmem, hm''⟩
        · rcases (Bool.or_eq_true _ _).mp huri with huri | hasks
          · exact .inl huri
          · exact .inr ⟨m, List.mem_cons_self, hasks⟩
        · exact .inr ⟨m'', List.mem_cons_of_mem _ hmem, hm''⟩

theorem parseText_eq_alone (h : Undisturbed c (ops.contains parseOptionJson) text) :
    parseText c text ops = expandAlone c (ops.contains parseOptionJson) text := by
  refine expand_eq_alone false fun before m after hts hasked => h before m after hts ?_
  exact hasked.resolve_left (by decide)

theorem Undisturbed.left (h : Undisturbed c json (a ++ b)) (hcut : Boundary placeholder a b) :
    Undisturbed c json a := by
  intro before m after hts
  refine h before m (after ++ scan placeholder b) ?_
  rw [scan_append hcut, hts, List.append_assoc, List.cons_append]

theorem Undisturbed.right (h : Undisturbed c json (a ++ b)) (hcut : Boundary placeholder a b) :
    Undisturbed c json b := by
  rintro before m after hts ⟨m', hmem, hm'⟩
  refine h (scan placeholder a ++ before) m after ?_ ⟨m', List.mem_append_right _ hmem, hm'⟩
  rw [scan_append hcut, hts, List.append_assoc]

/-- A placeholder behind which nobody minds -/
theorem neutral_of_cut (hadd : ∀ a b, text = a ++ b → Boundary placeholder a b →
      parseText c text ops = parseText c a ops ++ parseText c b ops)
    (hts : scan placeholder text = before ++ .hit m :: after) (hasked : Asked before)
    (hafter : ∀ m', Token.hit m' ∈ after → asksUri m' = false →
      Neutral c (ops.contains parseOptionJson) m') :
    Neutral c (ops.contains parseOptionJson) m := by
  let a := Scan.text before
  let b := Scan.text (.hit m :: after)
  have htext : text = a ++ b := by
    rw [← Scan.text_append, ← hts, Scan.text_scan]
  have htake : (scan placeholder (a ++ b)).take before.length = before := by
    rw [← htext, hts, List.take_left]
  have hdrop : (scan placeholder (a ++ b)).drop before.length = .hit m :: after := by
    rw [← htext, hts, List.drop_left]
  have hparse := hadd a b htext ⟨before.length, by rw [htake]⟩
  have hscan : scan placeholder a = before := by
    have := scan_take placeholder before.length (a ++ b)
    rwa [htake] at this
  have hscan' : scan placeholder b = .hit m :: after := by
    have := scan_drop placeholder before.length (a ++ b)
    rwa [hdrop] at this
  -- what follows is the same, whether it is encoded or not
  have hsame : ∀ uri, expand c (ops.contains parseOptionJson) uri after =
      after.flatMap (Token.replace (alone c (ops.contains parseOptionJson))) := by
    refine fun uri => expand_eq_alone uri fun before' m' after' hsplit _ hm' => hafter m' ?_ hm'
    rw [hsplit]
    exact List.mem_append_right _ List.mem_cons_self
  obtain ⟨uri, happend, huri⟩ :=
    expand_append c (ops.contains parseOptionJson) before (.hit m :: after) false
  unfold parseText at hparse
  rw [hscan, hscan', hts, happend, huri.mpr (.inr hasked)] at hparse
  have hcancel := List.append_cancel_left hparse
  simp only [expand, hsame, callback_fst] at hcancel
  exact List.append_cancel_right hcancel

/-- `ParseText` expands every placeholder of a text by itself, so that it can be applied to the
parts of the text instead, exactly if no placeholder behind one that asks for URL encoding, and
that does not ask for it itself, has a value that the encoding changes. -/
theorem parseText_alone_iff (c : Connection) (text : Bytes) (ops : List ParseOption) :
    (parseText c text ops = expandAlone c (ops.contains parseOptionJson) text ∧
      ∀ a b, text = a ++ b → Boundary placeholder a b →
        parseText c text ops = parseText c a ops ++ parseText c b ops) ↔
      Undisturbed c (ops.contains parseOptionJson) text := by
  constructor
  · rintro ⟨-, hadd⟩ before m after hts hasked -
    -- from the last placeholder on
    induction hlength : after.length using Nat.strongRecOn generalizing before m after with
    | ind n ih =>
      refine neutral_of_cut hadd hts hasked fun m' hmem _ => ?_
      obtain ⟨between, after', rfl⟩ := List.append_of_mem hmem
      refine ih after'.length ?_ (before ++ .hit m :: between) m' after' ?_ ?_ rfl
      · rw [← hlength, List.length_append, List.length_cons]
        omega
      · rw [hts, List.append_assoc, List.cons_append]
      · obtain ⟨m'', hmem'', hm''⟩ := hasked
        exact ⟨m'', List.mem_append_left _ hmem'', hm''⟩
  · intro h
    refine ⟨parseText_eq_alone h, ?_⟩
    rintro a b rfl hcut
    rw [parseText_eq_alone h, parseText_eq_alone (h.left hcut), parseText_eq_alone (h.right hcut)]
    exact replaceAll_append hcut _

/-- A variable with a space in its value -/
def city : Connection where
  get _ := (ascii "New York", true)

/-- The second placeholder does not ask for URL encoding, and gets it. -/
theorem parseText_alone_iff_sticky :
    parseText city (ascii "$\x7ba.uri()\x7d $\x7bb\x7d") [] = ascii "New%20York New%20York" ∧
      expandAlone city false (ascii "$\x7ba.uri()\x7d $\x7bb\x7d") = ascii "New%20York New York" ∧
      parseText city (ascii "$\x7ba.uri()\x7d ") [] ++ parseText city (ascii "$\x7bb\x7d") [] =
        ascii "New%20York New York" := by
  decide +kernel

end FlowManager.Text
