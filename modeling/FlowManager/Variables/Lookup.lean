import FlowManager.Text.Expand

/-!
# Variables of connections (providers/*/connection.go, routes/email/email.go)

Most connections keep the printed values of their variables in a map. A name with a dot is first
taken as a path into the JSON of a stored message, or of the variable that is named before the dot,
and only then as a name. Connections for emails keep the values themselves, print them when they are
asked for, and expand texts in a way of their own.

- `Memory.get`, `Memory.set`: the maps.
- `get_set_iff`: which variables read back what was set.
- `emailParseText`: the expansion of texts in the flows of emails.
- `email_alike_iff`: with which placeholders it does what `ParseText` does.
-/

namespace FlowManager.Lookup

open Function Scan Text

def dot : UInt8 := 0x2e

/-- The root of a name and the path that follows its first dot, unless the name begins with it -/
def splitName (name : Bytes) : Option (Bytes × Bytes) :=
  match name.findIdx? (· == dot) with
  | some (i + 1) => some (name.take (i + 1), name.drop (i + 2))
  | _ => none

theorem splitName_eq_some (h : splitName name = some (root, path)) :
    name = root ++ dot :: path := by
  unfold splitName at h
  split at h
  · rename_i i hi
    cases h
    obtain ⟨hlt, hdot, -⟩ := List.findIdx?_eq_some_iff_getElem.mp hi
    rw [← beq_iff_eq.mp hdot, ← List.drop_eq_getElem_cons, List.take_append_drop]
  · cases h

/-- What a connection keeps: `storeMessages`, which only chats and instant messengers have, and
the printed values of `variables` -/
structure Memory where
  messages : Bytes → Option Bytes
  vars : Bytes → Option Bytes

/-- The JSON, and the path in it, by which a name with a dot is answered -/
def Memory.root (m : Memory) (name : Bytes) : Option (Bytes × Bytes) :=
  (splitName name).bind fun p => ((m.messages p.1).or (m.vars p.1)).map (·, p.2)

section Memory

-- `gjson.GetBytes(json, path).String()`
variable (gjson : Bytes → Bytes → Bytes)

/-- A root that is there is asked for the path; `missing` is what is returned for a name that is
not there. -/
def Memory.lookup (missing : Bytes) (m : Memory) (name : Bytes) : Bytes × Bool :=
  match m.root name with
  | some (json, path) => (gjson json path, true)
  | none => ((m.vars name).getD missing, (m.vars name).isSome)

/-- `Get` of a connection that keeps its variables in memory -/
def Memory.get (m : Memory) (name : Bytes) : Bytes × Bool := m.lookup gjson [] name

/-- `Set` of one variable, whose value is printed as `text` -/
def Memory.set (m : Memory) (name text : Bytes) : Memory :=
  { m with vars := update m.vars name (some text) }

/-- The name is a path below the other. -/
def Below (name other : Bytes) : Prop := ∃ path, other = name ++ dot :: path

theorem not_below_self (name : Bytes) : ¬ Below name name := by
  rintro ⟨path, h⟩
  have hlength := congrArg List.length h
  simp at hlength

theorem root_set (m : Memory) (text : Bytes) (h : ¬ Below name other) :
    (m.set name text).root other = m.root other := by
  refine Option.bind_congr fun p hp => ?_
  have hne : p.1 ≠ name := by
    rintro rfl
    exact h ⟨p.2, splitName_eq_some hp⟩
  rw [show (m.set name text).vars p.1 = m.vars p.1 from update_of_ne hne ..]
  rfl

/-- A variable reads back what was set, and no name changes but those below it, if and only if its
name is no path into a message or variable, or one at which the same text is found. -/
theorem get_set_iff (m : Memory) (name text : Bytes) :
    ((m.set name text).get gjson name = (text, true) ∧
      ∀ other, other ≠ name → ¬ Below name other →
        (m.set name text).get gjson other = m.get gjson other) ↔
    ∀ json path, m.root name = some (json, path) → gjson json path = text := by
  have hself : (m.set name text).get gjson name =
      match m.root name with
      | some (json, path) => (gjson json path, true)
      | none => (text, true) := by
    unfold Memory.get Memory.lookup
    rw [root_set m text (not_below_self name),
      show (m.set name text).vars name = some text from update_self ..]
    rfl
  rw [hself]
  constructor
  · rintro ⟨h, -⟩ json path hroot
    rw [hroot] at h
    exact (Prod.mk.inj h).1
  · intro h
    refine ⟨?_, fun other hne hbelow => ?_⟩
    · split
      · rw [h _ _ ‹_›]
      · rfl
    · unfold Memory.get Memory.lookup
      rw [root_set m text hbelow, show (m.set name text).vars other = m.vars other from
        update_of_ne hne ..]

/-- Beside a variable that is no JSON object, one with a dotted name is not found again. -/
theorem get_set_dotted :
    let m : Memory := ⟨fun _ => none, update (fun _ => none) (ascii "a") (some (ascii "1"))⟩
    (m.set (ascii "a.b") (ascii "2")).get (fun _ _ => []) (ascii "a.b") = ([], true) := by
  decide +kernel

/-! ## Emails -/

/-- `emailParser.ParseText`: the whole text between the braces is a name, which is printed as
`<nil>` if it is not there; the options are not used. -/
def emailParseText (m : Memory) (text : Bytes) (_ops : List ParseOption) : Bytes :=
  replaceAll placeholder (fun hit => (m.lookup gjson (ascii "<nil>") (inner hit)).1) text

def Memory.connection (m : Memory) : Text.Connection := ⟨m.get gjson⟩

/-- A list of placeholders, one after another -/
theorem scan_two (hh : placeholderLen h = some h.length)
    (hh' : placeholderLen h' = some h'.length) :
    scan placeholder (h ++ h') = [.hit h, .hit h'] := by
  obtain ⟨rest, hrest, hmem, hlength⟩ := placeholderLen_eq_some.mp hh
  have hlen : placeholder.len (h ++ h') = some h.length := by
    refine placeholderLen_eq_some.mpr ⟨rest ++ h', by rw [hrest]; rfl, ?_, ?_⟩
    · exact List.mem_append_left _ hmem
    · rw [upToBrace_append h' hmem, hlength]
  rw [scan_hit hlen, List.take_left, List.drop_left, scan_hit (p := placeholder) hh']
  simp

/-- What the table has for a placeholder: a plain one is a name that is there, with a value that
neither the JSON option changes nor, where it is `asked` for somewhere, URL encoding; and under
the whole text of one that asks for URL encoding there is the encoded value of its variable. -/
def Agrees (m : Memory) (json : Bool) (asked : Prop) (h : Bytes) : Prop :=
  if asksUri h then
    (m.lookup gjson (ascii "<nil>") (inner h)).1 =
      finish json (urlEncoded (m.get gjson (varName h)).1)
  else ∃ value, m.get gjson (inner h) = (value, true) ∧ finish json value = value ∧
    (asked → finish json (urlEncoded value) = value)

theorem agrees_iff (m : Memory) (json : Bool) (asked : Prop) (h : Bytes) :
    Agrees gjson m json asked h ↔
      (m.lookup gjson (ascii "<nil>") (inner h)).1 = alone (m.connection gjson) json h ∧
        (asked → (m.lookup gjson (ascii "<nil>") (inner h)).1 =
          encoded (m.connection gjson) json h) := by
  unfold Agrees
  split
  · rename_i hasks
    rw [encoded_of_asksUri hasks, finish_eq, alone, if_pos hasks]
    exact ⟨fun h => ⟨h, fun _ => h⟩, And.left⟩
  · rename_i hasks
    rw [alone, encoded, if_neg hasks, varName, if_neg hasks, ← finish_eq, ← finish_eq]
    show _ ↔ _ = finish json (m.get gjson (inner h)).1 ∧
      (asked → _ = finish json (urlEncoded (m.get gjson (inner h)).1))
    unfold Memory.get Memory.lookup
    split
    · simp [eq_comm]
    · cases m.vars (inner h) with
      | some value => simp [eq_comm]
      | none => cases json <;> simp [finish, ascii]

/-- In the flows of emails the texts with the given placeholders are expanded as by `ParseText` if
and only if the table agrees to each of them. -/
theorem email_alike_iff (m : Memory) (ops : List ParseOption) (hits : Set Bytes)
    (hhits : ∀ h ∈ hits, placeholderLen h = some h.length) :
    (∀ text, (∀ h, Token.hit h ∈ scan placeholder text → h ∈ hits) →
      emailParseText gjson m text ops = parseText (m.connection gjson) text ops) ↔
    ∀ h ∈ hits, Agrees gjson m (ops.contains parseOptionJson)
      (∃ h' ∈ hits, asksUri h' = true) h := by
  constructor
  · intro hall
    have halone : ∀ h ∈ hits, (m.lookup gjson (ascii "<nil>") (inner h)).1 =
        alone (m.connection gjson) (ops.contains parseOptionJson) h := by
      intro h hh
      have hscan : scan placeholder h = [.hit h] := by
        rw [scan_hit (p := placeholder) (hhits h hh)]
        simp
      have hsame := hall h (by simp [hscan, hh])
      simpa [emailParseText, replaceAll, parseText, hscan, Token.replace, expand, callback_fst]
        using hsame
    refine fun h hh => (agrees_iff ..).mpr ⟨halone h hh, ?_⟩
    rintro ⟨h', hh', hasks⟩
    -- behind a placeholder that asks for it, every value is encoded
    have hscan := scan_two (hhits h' hh') (hhits h hh)
    have hflag : ∀ json, (callback (m.connection gjson) json false h').2 = true := by
      simp [callback, hasks]
    have hsame := hall (h' ++ h) (by simp [hscan, hh, hh'])
    simpa [emailParseText, replaceAll, parseText, hscan, Token.replace, expand, callback_fst,
      halone h' hh', hflag] using hsame
  · intro h text hmem
    have hundisturbed :
        Text.Undisturbed (m.connection gjson) (ops.contains parseOptionJson) text := by
      rintro before hit after hts ⟨h', hh', hasks⟩ -
      obtain ⟨halone, hencoded⟩ := (agrees_iff ..).mp (h hit (hmem hit (by simp [hts])))
      exact (hencoded ⟨h', hmem h' (by simp [hts, hh']), hasks⟩).symm.trans halone
    rw [parseText_eq_alone hundisturbed]
    refine List.flatMap_congr fun t ht => ?_
    cases t with
    | one b => rfl
    | hit hit => exact ((agrees_iff ..).mp (h hit (hmem hit ht))).1

/-- A text whose placeholder is a variable with a plain value -/
theorem email_alike_plain :
    let m : Memory := ⟨fun _ => none, fun _ => some (ascii "x")⟩
    emailParseText (fun _ _ => []) m (ascii "$\x7ba\x7d") [] =
      parseText (m.connection fun _ _ => []) (ascii "$\x7ba\x7d") [] := by
  intro m
  refine (email_alike_iff _ m [] {ascii "$\x7ba\x7d"} ?_).mpr ?_ _ ?_
  · rintro _ rfl
    decide +kernel
  · rintro _ rfl
    refine ⟨ascii "x", by decide +kernel, rfl, ?_⟩
    rintro ⟨_, rfl, hasks⟩
    exact absurd hasks (by decide +kernel)
  · intro h hh
    have hscan : scan placeholder (ascii "$\x7ba\x7d") = [.hit (ascii "$\x7ba\x7d")] := by
      decide +kernel
    exact (by simpa [hscan] using hh : h = _)

/-- A name that is not there, and a value to be encoded -/
theorem email_differs :
    let m : Memory := ⟨fun _ => none, update (fun _ => none) (ascii "a") (some (ascii "x y"))⟩
    emailParseText (fun _ _ => []) m (ascii "$\x7bb\x7d") [] = ascii "<nil>" ∧
      parseText (m.connection fun _ _ => []) (ascii "$\x7bb\x7d") [] = [] ∧
      emailParseText (fun _ _ => []) m (ascii "$\x7ba.uri()\x7d") [] = [] ∧
      parseText (m.connection fun _ _ => []) (ascii "$\x7ba.uri()\x7d") [] = ascii "x%20y" := by
  decide +kernel

end Memory

end FlowManager.Lookup
