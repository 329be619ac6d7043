import Mathlib.Data.List.TakeWhile

/-!
# Percent encoding and URIs of files

The bytes of a text that may not stand for themselves are written as a percent sign and two
hexadecimal digits. A URI of a file has such a path, a question mark and parameters.

- `escape`, `unescape`: the encoding; `unescape_escape` is the round trip.
- `encoded`, `decode`: the same for any bytes, where what is no encoding is an error;
  `encoded_escape` and `decode_escape` say that `escape` makes none.
- `readFile`: what a database reads in the URI of a file.
- `readFile_escape`: a path that is encoded is read as it is, and so are the parameters after it.
-/

namespace Uri

abbrev Bytes := List UInt8

def percent : UInt8 := 0x25

def questionMark : UInt8 := 0x3f

def numberSign : UInt8 := 0x23

def ampersand : UInt8 := 0x26

def equalsSign : UInt8 := 0x3d

def slash : UInt8 := 0x2f

/-- A hexadecimal digit -/
def upperHex (n : UInt8) : UInt8 := if n < 10 then 0x30 + n else 0x37 + n

def hexValue (b : UInt8) : Option UInt8 :=
  if 0x30 ≤ b ∧ b ≤ 0x39 then some (b - 0x30)
  else if 0x41 ≤ b ∧ b ≤ 0x46 then some (b - 0x37)
  else if 0x61 ≤ b ∧ b ≤ 0x66 then some (b - 0x57)
  else none

/-! ## Percent encoding -/

def escapeByte (keep : UInt8 → Bool) (b : UInt8) : Bytes :=
  if keep b then [b] else [percent, upperHex (b / 16), upperHex (b % 16)]

/-- A text with all bytes encoded but those to keep -/
def escape (keep : UInt8 → Bool) (s : Bytes) : Bytes := s.flatMap (escapeByte keep)

/-- An encoded text; a zero ends it, as in C. -/
def unescape : Bytes → Bytes
  | [] => []
  | b :: h :: l :: rest =>
    if b = percent then
      match hexValue h, hexValue l with
      | some h, some l => if h * 16 + l = 0 then [] else (h * 16 + l) :: unescape rest
      | _, _ => b :: unescape (h :: l :: rest)
    else b :: unescape (h :: l :: rest)
  | b :: rest => b :: unescape rest

variable {keep : UInt8 → Bool} {s : Bytes} {b : UInt8}

theorem hexValue_upperHex (b : UInt8) :
    hexValue (upperHex (b / 16)) = some (b / 16) ∧ hexValue (upperHex (b % 16)) = some (b % 16) ∧
      b / 16 * 16 + b % 16 = b := by
  have hall : ∀ n : Fin 256, hexValue (upperHex (.ofFin n / 16)) = some (.ofFin n / 16) ∧
      hexValue (upperHex (.ofFin n % 16)) = some (.ofFin n % 16) ∧
      UInt8.ofFin n / 16 * 16 + UInt8.ofFin n % 16 = .ofFin n := by
    decide +kernel
  exact hall b.toFin

/-- The digits are none of the signs that end a part of a URI. -/
theorem upperHex_ne (b : UInt8) :
    upperHex (b / 16) ≠ questionMark ∧ upperHex (b / 16) ≠ numberSign ∧
      upperHex (b % 16) ≠ questionMark ∧ upperHex (b % 16) ≠ numberSign := by
  have hall : ∀ n : Fin 256, upperHex (.ofFin n / 16) ≠ questionMark ∧
      upperHex (.ofFin n / 16) ≠ numberSign ∧ upperHex (.ofFin n % 16) ≠ questionMark ∧
      upperHex (.ofFin n % 16) ≠ numberSign := by
    decide +kernel
  exact hall b.toFin

theorem unescape_cons_of_ne (h : b ≠ percent) : unescape (b :: s) = b :: unescape s := by
  match s with
  | [] => rfl
  | [_] => rfl
  | _ :: _ :: _ => rw [unescape, if_neg h]

theorem unescape_escape (hkeep : keep percent = false) (hs : 0 ∉ s) :
    unescape (escape keep s) = s := by
  induction s with
  | nil => rfl
  | cons b s ih =>
    have hb : b ≠ 0 := fun h => hs (h ▸ List.mem_cons_self)
    have hrest := ih fun h => hs (List.mem_cons_of_mem _ h)
    rw [escape, List.flatMap_cons, ← escape, escapeByte]
    split
    · rename_i hb
      rw [List.singleton_append, unescape_cons_of_ne, hrest]
      rintro rfl
      rw [hkeep] at hb
      cases hb
    · obtain ⟨hhigh, hlow, hsum⟩ := hexValue_upperHex b
      simp only [List.cons_append, List.nil_append, unescape, if_true, hhigh, hlow, hsum, hb,
        if_false, hrest]

theorem notMem_escape (hkeep : keep b = false) (hpercent : b ≠ percent)
    (hhex : ∀ d, upperHex (d / 16) ≠ b ∧ upperHex (d % 16) ≠ b) : b ∉ escape keep s := by
  intro hmem
  obtain ⟨d, -, hb⟩ := List.mem_flatMap.mp hmem
  unfold escapeByte at hb
  split at hb
  · rename_i hd
    rw [List.mem_singleton.mp hb, hd] at hkeep
    cases hkeep
  · simp only [List.mem_cons, List.not_mem_nil, or_false] at hb
    rcases hb with hb | hb | hb
    · exact hpercent hb
    · exact (hhex d).1 hb.symm
    · exact (hhex d).2 hb.symm

/-! ## Encoded texts -/

/-- A text of bytes to keep, and of percent signs with two digits each -/
def encoded (keep : UInt8 → Bool) : Bytes → Bool
  | [] => true
  | b :: h :: l :: rest =>
    if b = percent then (hexValue h).isSome && (hexValue l).isSome && encoded keep rest
    else keep b && encoded keep (h :: l :: rest)
  | b :: rest => b ≠ percent && keep b && encoded keep rest

/-- The bytes that a text encodes, if every percent sign has its digits -/
def decode : Bytes → Option Bytes
  | [] => some []
  | b :: h :: l :: rest =>
    if b = percent then
      match hexValue h, hexValue l with
      | some h, some l => (decode rest).map ((h * 16 + l) :: ·)
      | _, _ => none
    else (decode (h :: l :: rest)).map (b :: ·)
  | b :: rest => if b = percent then none else (decode rest).map (b :: ·)

theorem encoded_cons_of_ne (h : b ≠ percent) :
    encoded keep (b :: s) = (keep b && encoded keep s) := by
  match s with
  | [] => simp [encoded, h]
  | [_] => simp [encoded, h]
  | _ :: _ :: _ => rw [encoded, if_neg h]

theorem decode_cons_of_ne (h : b ≠ percent) : decode (b :: s) = (decode s).map (b :: ·) := by
  match s with
  | [] => simp [decode, h]
  | [_] => simp [decode, h]
  | _ :: _ :: _ => rw [decode, if_neg h]

section

variable (hkeep : keep percent = false)
include hkeep

/-- What one byte is encoded as, in front of the rest -/
theorem encoded_escapeByte (b : UInt8) (rest : Bytes) :
    encoded keep (escapeByte keep b ++ rest) = encoded keep rest := by
  unfold escapeByte
  split
  · rename_i hb
    have hne : b ≠ percent := fun heq => by rw [heq, hkeep] at hb; cases hb
    rw [List.singleton_append, encoded_cons_of_ne hne, hb, Bool.true_and]
  · obtain ⟨hhigh, hlow, -⟩ := hexValue_upperHex b
    simp only [List.cons_append, List.nil_append, encoded, if_true, hhigh, hlow, Option.isSome_some,
      Bool.true_and]

theorem decode_escapeByte (b : UInt8) (rest : Bytes) :
    decode (escapeByte keep b ++ rest) = (decode rest).map (b :: ·) := by
  unfold escapeByte
  split
  · rename_i hb
    have hne : b ≠ percent := fun heq => by rw [heq, hkeep] at hb; cases hb
    rw [List.singleton_append, decode_cons_of_ne hne]
  · obtain ⟨hhigh, hlow, hsum⟩ := hexValue_upperHex b
    simp only [List.cons_append, List.nil_append, decode, if_true, hhigh, hlow, hsum]

theorem encoded_escape (s : Bytes) : encoded keep (escape keep s) = true := by
  induction s with
  | nil => rfl
  | cons b s ih => rw [escape, List.flatMap_cons, encoded_escapeByte hkeep, ← escape, ih]

theorem decode_escape (s : Bytes) : decode (escape keep s) = some s := by
  induction s with
  | nil => rfl
  | cons b s ih =>
    rw [escape, List.flatMap_cons, decode_escapeByte hkeep, ← escape, ih, Option.map_some]

end

/-! ## Files -/

/-- What a URI names: a path, and parameters -/
structure File where
  path : Bytes
  params : List (Bytes × Bytes)
  deriving DecidableEq

def readParams (query : Bytes) : List (Bytes × Bytes) :=
  (query.splitOn ampersand).map fun param =>
    (unescape (param.takeWhile (· ≠ equalsSign)),
      unescape (param.dropWhile (· ≠ equalsSign)).tail)

def scheme : Bytes := [0x66, 0x69, 0x6c, 0x65, 0x3a]

/-- A byte that belongs to the path -/
def inPath (b : UInt8) : Bool := b ≠ questionMark && b ≠ numberSign

/-- What stands after the scheme. A host is not supported. -/
def readRest (rest : Bytes) : Option File :=
  if [slash, slash] <+: rest then none
  else
    let query :=
      match rest.dropWhile inPath with
      | b :: query => if b = questionMark then query.takeWhile (· ≠ numberSign) else []
      | [] => []
    some ⟨unescape (rest.takeWhile inPath), if query = [] then [] else readParams query⟩

def readFile (uri : Bytes) : Option File :=
  if scheme <+: uri then readRest (uri.drop scheme.length) else none

/-- The URI of a file -/
def file (keep : UInt8 → Bool) (path query : Bytes) : Bytes :=
  scheme ++ (escape keep path ++ questionMark :: query)

theorem inPath_of_mem_escape (hquestion : keep questionMark = false)
    (hnumber : keep numberSign = false) (hb : b ∈ escape keep s) : inPath b = true := by
  rw [inPath, Bool.and_eq_true, decide_eq_true_iff, decide_eq_true_iff]
  constructor
  · rintro rfl
    refine notMem_escape hquestion (by decide) (fun d => ?_) hb
    exact ⟨(upperHex_ne d).1, (upperHex_ne d).2.2.1⟩
  · rintro rfl
    refine notMem_escape hnumber (by decide) (fun d => ?_) hb
    exact ⟨(upperHex_ne d).2.1, (upperHex_ne d).2.2.2⟩

/-- Signs that a path cannot have as they are, as they would end it -/
structure Closed (keep : UInt8 → Bool) : Prop where
  percent : keep percent = false
  questionMark : keep questionMark = false
  numberSign : keep numberSign = false

/-- The path is read as it is, and no byte of it is read as a parameter. -/
theorem readFile_file (hkeep : Closed keep) (hs : 0 ∉ s)
    (hslash : ¬ [slash, slash] <+: escape keep s ++ questionMark :: query) (hquery : query ≠ [])
    (hnumber : numberSign ∉ query) : readFile (file keep s query) = some ⟨s, readParams query⟩ := by
  have hpath : ∀ b ∈ escape keep s, inPath b = true := fun b hb =>
    inPath_of_mem_escape hkeep.questionMark hkeep.numberSign hb
  have hend : ¬ inPath questionMark = true := by decide
  have htake : (escape keep s ++ questionMark :: query).takeWhile inPath = escape keep s := by
    rw [List.takeWhile_append_of_pos hpath, List.takeWhile_cons_of_neg hend, List.append_nil]
  have hdrop : (escape keep s ++ questionMark :: query).dropWhile inPath =
      questionMark :: query := by
    rw [List.dropWhile_append_of_pos hpath, List.dropWhile_cons_of_neg hend]
  have hall : query.takeWhile (· ≠ numberSign) = query :=
    List.takeWhile_eq_self_iff.mpr fun b hb => by
      simpa using fun h : b = numberSign => hnumber (h ▸ hb)
  rw [readFile, file, if_pos (List.prefix_append _ _), List.drop_left, readRest, if_neg hslash,
    htake, hdrop, unescape_escape hkeep.percent hs]
  simp only [if_true, hall, hquery, if_false]

end Uri
