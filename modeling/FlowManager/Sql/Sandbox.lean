import Mathlib.Data.List.Sort
import FlowManager.Lib.Path
import FlowManager.Text.Encode
import FlowManager.Flow.Program

/-!
# The sandbox of SQLite databases (store/cachelayer/store.go)

A schema names a driver and a data source, and `resolveConnection` says what is opened. A SQLite
database has to be a regular file below the sandbox directory, and is opened by the sandboxed driver
with fixed parameters.

- `resolveConnection`: the code, with `resolveSandboxPath` and `buildSQLiteDSN`.
- `prefix_of_isWithin`: a relative path that does not go up is one below the root.
- `resolveSandboxPath_ok`: what a path that is let through is.
- `confined`: what is opened if it is SQLite, for every driver, data source and file tree.
-/

namespace FlowManager.Sql

open Path Text

/-! ## Strings -/

/-- White space in UTF-8 -/
def spaces : List Bytes :=
  [[0x09], [0x0a], [0x0b], [0x0c], [0x0d], [0x20], [0xc2, 0x85], [0xc2, 0xa0], [0xe1, 0x9a, 0x80],
    [0xe2, 0x80, 0x80], [0xe2, 0x80, 0x81], [0xe2, 0x80, 0x82], [0xe2, 0x80, 0x83],
    [0xe2, 0x80, 0x84], [0xe2, 0x80, 0x85], [0xe2, 0x80, 0x86], [0xe2, 0x80, 0x87],
    [0xe2, 0x80, 0x88], [0xe2, 0x80, 0x89], [0xe2, 0x80, 0x8a], [0xe2, 0x80, 0xa8],
    [0xe2, 0x80, 0xa9], [0xe2, 0x80, 0xaf], [0xe2, 0x81, 0x9f], [0xe3, 0x80, 0x80]]

/-- How many bytes at the beginning are a white space -/
def spaceLen (words : List Bytes) (s : Bytes) : Nat :=
  ((words.find? (·.isPrefixOf s)).map List.length).getD 0

/-- Without the white space at the beginning, after the next `skip` bytes, which belong to one -/
def trimFrom (words : List Bytes) : Nat → Bytes → Bytes
  | _, [] => []
  | skip + 1, _ :: s => trimFrom words skip s
  | 0, b :: s =>
    match spaceLen words (b :: s) with
    | 0 => b :: s
    | n + 1 => trimFrom words n s

/-- `strings.TrimSpace` -/
def trimSpace (s : Bytes) : Bytes :=
  (trimFrom (spaces.map List.reverse) 0 (trimFrom spaces 0 s).reverse).reverse

def lowerByte (b : UInt8) : UInt8 := if 0x41 ≤ b ∧ b ≤ 0x5a then b + 0x20 else b

/-- `strings.ToLower`; `wide` maps the runes of a string that is not ASCII. -/
def toLower (wide : Bytes → Bytes) (s : Bytes) : Bytes :=
  if s.all (· < 0x80) then s.map lowerByte else wide s

/-! ## Parameters -/

/-- `url.Values` -/
abbrev Values := List (Bytes × List Bytes)

def Values.set (q : Values) (key value : Bytes) : Values :=
  (key, [value]) :: q.filter (·.1 ≠ key)

def Values.add (q : Values) (key value : Bytes) : Values :=
  match q with
  | [] => [(key, [value])]
  | (k, vs) :: q => if k = key then (k, vs ++ [value]) :: q else (k, vs) :: Values.add q key value

/-- `Values.Encode`, with the keys in order -/
def Values.encode (q : Values) : Bytes :=
  let sorted := q.insertionSort fun a b => a.1 ≤ b.1
  [Uri.ampersand].intercalate <| sorted.flatMap fun (key, values) =>
    values.map fun value => queryEscape key ++ Uri.equalsSign :: queryEscape value

/-- The bytes that stand for themselves in a path -/
def pathKeep (b : UInt8) : Bool := unreserved b || b ∈ ascii "$&+,/:;=@"

/-! ## The store -/

structure ExternalStoreManager where
  sqliteSandboxDir : Bytes
  sqliteWriteEnabled : Bool

structure ExternalSQLStoreConnectConfig where
  driver : Bytes
  dsn : Bytes

def sqliteDriverName : Bytes := ascii "sqlite_sandboxed"

def isSQLiteDriver (wide : Bytes → Bytes) (driver : Bytes) : Bool :=
  let name := toLower wide (trimSpace driver)
  name = ascii "sqlite" || name = ascii "sqlite3" || name = sqliteDriverName

def isWithin (root p : Bytes) : Bool :=
  let rel := rel root p
  rel ≠ dotDot && !(dotDot ++ [slash]).isPrefixOf rel

/-- `fail` in `resolveSandboxPath` -/
def fail (code detail : String) (status : Nat) : Except AppError Bytes :=
  .error ⟨"ResolveSandboxPath", "cachelayer.store.resolve_sandbox_path." ++ code, detail, status⟩

section

variable (wide : Bytes → Bytes) (t : FileTree) (cwd : Option Bytes) (e : ExternalStoreManager)

/-- The sandbox directory, without links -/
def sandboxRoot : Option Bytes := (abs cwd e.sqliteSandboxDir).bind t.evalSymlinks

def resolveSandboxPath (p : Bytes) : Except AppError Bytes :=
  let p := trimSpace p
  if p = [] then fail "empty_path" "empty sqlite path" 400
  else
    match sandboxRoot t cwd e with
    | none => fail "sandbox_root" "sandbox directory is not accessible" 500
    | some root =>
      -- an absolute path may lead anywhere, and so may links
      let p := if isAbs p then p else join root p
      match t.evalSymlinks p with
      | none => fail "not_accessible" "file is not accessible" 404
      | some realPath =>
        if ¬ isWithin root realPath then fail "not_accessible" "file is not accessible" 404
        else
          match t.stat realPath with
          | some .regular => .ok realPath
          | _ => fail "not_regular" "not a regular file" 400

/-- The parameters of a connection -/
def query : Bytes :=
  let mode := if e.sqliteWriteEnabled then "rw" else "ro"
  let q : Values := []
  let q := q.set (ascii "mode") (ascii mode)
  let q := q.add (ascii "_pragma") (ascii "trusted_schema(0)")
  let q := q.add (ascii "_pragma") (ascii "busy_timeout(5000)")
  let q := q.add (ascii "_defensive") (ascii "1")
  q.encode

def buildSQLiteDSN (userPath : Bytes) : Except AppError Bytes :=
  if e.sqliteSandboxDir = [] then
    .error ⟨"BuildSQLiteDSN", "cachelayer.store.build_sqlite_dsn.empty",
      "sqlite is disabled: sandbox directory not configured", 400⟩
  else
    match resolveSandboxPath t cwd e userPath with
    | .error err => .error err
    | .ok realPath => .ok (Uri.file pathKeep realPath (query e))

/-- The driver and the data source that are opened -/
def resolveConnection (cfg : ExternalSQLStoreConnectConfig) : Except AppError (Bytes × Bytes) :=
  -- other drivers get the data source as it is
  if ¬ isSQLiteDriver wide cfg.driver then .ok (cfg.driver, cfg.dsn)
  else
    match buildSQLiteDSN t cwd e cfg.dsn with
    | .error err => .error err
    | .ok dsn => .ok (sqliteDriverName, dsn)

end

variable {wide : Bytes → Bytes} {t : FileTree} {cwd : Option Bytes} {e : ExternalStoreManager}
  {cfg : ExternalSQLStoreConnectConfig} {root real : List Name} {p realPath : Bytes}

/-- A name by which a SQLite driver is registered -/
def IsSQLite (driver : Bytes) : Prop :=
  driver = ascii "sqlite" ∨ driver = ascii "sqlite3" ∨ driver = sqliteDriverName

theorem isSQLiteDriver_of_isSQLite (h : IsSQLite driver) : isSQLiteDriver wide driver = true := by
  rcases h with rfl | rfl | rfl
  · rfl
  · rfl
  · rfl

/-! ## Below the root -/

theorem prefix_of_isWithin (hroot : ∀ n ∈ root, IsName n) (hreal : ∀ n ∈ real, IsName n)
    (h : isWithin (render root) (render real) = true) : root <+: real := by
  rw [isWithin, Bool.and_eq_true, decide_eq_true_iff, Bool.not_eq_true', Bool.eq_false_iff,
    ne_eq, ne_eq, List.isPrefixOf_iff_prefix] at h
  by_contra hpre
  exact (rel_up hroot hreal hpre).elim h.1 h.2

theorem resolveSandboxPath_ok (h : resolveSandboxPath t cwd e p = .ok realPath) :
    ∃ root real, sandboxRoot t cwd e = some (render root) ∧ t.Real root ∧
      realPath = render real ∧ t.Real real ∧ root <+: real ∧ t.node real = some .regular := by
  simp only [resolveSandboxPath, fail] at h
  split at h
  · cases h
  · split at h
    · cases h
    · rename_i rootPath hroot
      split at h
      · cases h
      · rename_i realPath' heval
        split at h
        · cases h
        · rename_i hwithin
          split at h
          · rename_i hstat
            cases h
            obtain ⟨rootAbs, -, hrootEval⟩ := Option.bind_eq_some_iff.mp hroot
            obtain ⟨root, hrootReal, rfl⟩ := FileTree.real_of_evalSymlinks hrootEval
            obtain ⟨real, hreal, rfl⟩ := FileTree.real_of_evalSymlinks heval
            rw [FileTree.stat_of_real hreal] at hstat
            refine ⟨root, real, hroot, hrootReal, rfl, hreal, ?_, hstat⟩
            exact prefix_of_isWithin hrootReal.isName hreal.isName (not_not.mp hwithin)
          · cases h

/-! ## The data source -/

/-- What the connection is opened with -/
def fixedParams (writeEnabled : Bool) : List (Bytes × Bytes) :=
  [(ascii "_defensive", ascii "1"), (ascii "_pragma", ascii "trusted_schema(0)"),
    (ascii "_pragma", ascii "busy_timeout(5000)"),
    (ascii "mode", ascii (if writeEnabled then "rw" else "ro"))]

theorem query_ne_nil : query e ≠ [] := by
  unfold query
  cases e.sqliteWriteEnabled <;> decide +kernel

theorem numberSign_notMem_query : Uri.numberSign ∉ query e := by
  unfold query
  cases e.sqliteWriteEnabled <;> decide +kernel

theorem readParams_query : Uri.readParams (query e) = fixedParams e.sqliteWriteEnabled := by
  unfold query
  cases e.sqliteWriteEnabled <;> decide +kernel

theorem pathKeep_closed : Uri.Closed pathKeep := ⟨by decide, by decide, by decide⟩

/-- There is no host in the data source. -/
theorem not_slash_slash (h : ∀ n ∈ real, IsName n) (rest : Bytes) :
    ¬ [Uri.slash, Uri.slash] <+: Uri.escape pathKeep (render real) ++ Uri.questionMark :: rest := by
  have hkeep : Uri.escapeByte pathKeep slash = [Uri.slash] := by decide
  have hescape : Uri.escape pathKeep (render real) =
      Uri.slash :: Uri.escape pathKeep (render real).tail := by
    rfl
  rw [hescape, List.cons_append, List.cons_prefix_cons, not_and]
  intro _ hpre
  cases htail : (render real).tail with
  | nil =>
    rw [htail] at hpre
    exact absurd (List.head_eq_of_cons_eq hpre.choose_spec) (by decide)
  | cons b tail =>
    rw [htail, Uri.escape, List.flatMap_cons, Uri.escapeByte] at hpre
    split at hpre
    · have hb : Uri.slash = b := (List.cons_prefix_cons.mp hpre).1
      refine render_ne_slash_slash h tail ?_
      rw [← List.cons_head_tail (l := render real) (List.cons_ne_nil _ _), htail, ← hb]
      rfl
    · exact absurd (List.cons_prefix_cons.mp hpre).1 (by decide)

/-- A data source that is confined to the sandbox, as the driver reads it: a regular file below the
sandbox directory, and the fixed parameters -/
def Confined (t : FileTree) (cwd : Option Bytes) (e : ExternalStoreManager) (dsn : Bytes) : Prop :=
  ∃ root real, sandboxRoot t cwd e = some (render root) ∧ t.Real root ∧ t.Real real ∧
    t.node real = some .regular ∧ root <+: real ∧
    Uri.readFile dsn = some ⟨render real, fixedParams e.sqliteWriteEnabled⟩

theorem confined_of_buildSQLiteDSN (h : buildSQLiteDSN t cwd e p = .ok dsn) :
    Confined t cwd e dsn := by
  unfold buildSQLiteDSN at h
  split at h
  · cases h
  · split at h
    · cases h
    · rename_i realPath hpath
      cases h
      obtain ⟨root, real, hroot, hrootReal, rfl, hreal, hpre, hnode⟩ :=
        resolveSandboxPath_ok hpath
      refine ⟨root, real, hroot, hrootReal, hreal, hnode, hpre, ?_⟩
      rw [← readParams_query]
      exact Uri.readFile_file pathKeep_closed (zero_notMem_render hreal.isName)
        (not_slash_slash hreal.isName _) query_ne_nil numberSign_notMem_query

/-- If what `resolveConnection` opens is SQLite, whatever the driver, the data source, the files and
the configuration are, then it is the sandboxed driver with a file that is confined to the sandbox.
Without a sandbox directory no SQLite database is opened. -/
theorem confined (wide : Bytes → Bytes) (t : FileTree) (cwd : Option Bytes)
    (e : ExternalStoreManager) (cfg : ExternalSQLStoreConnectConfig) :
    (∀ driver dsn, resolveConnection wide t cwd e cfg = .ok (driver, dsn) → IsSQLite driver →
      driver = sqliteDriverName ∧ Confined t cwd e dsn) ∧
    (e.sqliteSandboxDir = [] → isSQLiteDriver wide cfg.driver = true →
      ∃ err, resolveConnection wide t cwd e cfg = .error err) := by
  constructor
  · intro driver dsn h hsqlite
    unfold resolveConnection at h
    split at h
    · rename_i hother
      cases h
      exact absurd (isSQLiteDriver_of_isSQLite hsqlite) hother
    · split at h
      · cases h
      · rename_i hbuild
        cases h
        exact ⟨rfl, confined_of_buildSQLiteDSN hbuild⟩
  · intro hempty hsqlite
    rw [resolveConnection, if_neg (not_not.mpr hsqlite), buildSQLiteDSN, if_pos hempty]
    exact ⟨_, rfl⟩

/-- A sandbox directory that is a link, and a database with a question mark in its name -/
def boxTree : FileTree where
  node path :=
    if path = [ascii "box"] then some (.link (ascii "data"))
    else if path = [ascii "data"] then some .dir
    else if path = [ascii "data", ascii "a?mode=rw"] then some .regular
    else none
  isName path n h := by
    have hlast : ∀ l, path ++ [n] = l → some n = l.getLast? := by
      rintro l rfl
      rw [List.getLast?_concat]
    have hn : n = ascii "box" ∨ n = ascii "data" ∨ n = ascii "a?mode=rw" := by
      split at h
      · rename_i heq
        exact .inl (Option.some.inj (hlast _ heq))
      · split at h
        · rename_i heq
          exact .inr (.inl (Option.some.inj (hlast _ heq)))
        · split at h
          · rename_i heq
            exact .inr (.inr (Option.some.inj (hlast _ heq)))
          · exact absurd rfl h
    rcases hn with rfl | rfl | rfl
    all_goals exact ⟨by decide, by decide, by decide, by decide, by decide⟩

/-- The name of the database does not make it writable. -/
theorem confined_question :
    ∃ dsn, resolveConnection id boxTree none ⟨ascii "/box", false⟩
        ⟨ascii " SQLite", ascii "a?mode=rw"⟩ = .ok (sqliteDriverName, dsn) ∧
      Confined boxTree none ⟨ascii "/box", false⟩ dsn := by
  have hok : resolveConnection id boxTree none ⟨ascii "/box", false⟩
      ⟨ascii " SQLite", ascii "a?mode=rw"⟩ = .ok (sqliteDriverName, ascii
        ("file:/data/a%3Fmode=rw?_defensive=1&_pragma=trusted_schema%280%29" ++
          "&_pragma=busy_timeout%285000%29&mode=ro")) := by
    decide +kernel
  exact ⟨_, hok, ((confined id boxTree none _ _).1 _ _ hok (.inr (.inr rfl))).2⟩

end FlowManager.Sql
