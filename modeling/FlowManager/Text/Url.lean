import FlowManager.Flow.Program
import FlowManager.Text.Captures

/-!
# The URL of an HTTP request (flow/http.go)

`buildRequest` puts in the path parameters first, and then the variables of the connection.

- `rawSubstitute`, `requestUrl`: the code.
-/

namespace FlowManager.Text

open Scan

/-- `rePathVars`: a placeholder with a name that is not empty -/
def pathVarLen (l : Bytes) : Option Nat := (placeholderLen l).filter (3 < ·)

theorem pathVarLen_eq_some : pathVarLen l = some n ↔ placeholderLen l = some n ∧ 3 < n := by
  rw [pathVarLen, Option.filter_eq_some_iff, decide_eq_true_iff]

/-- What follows a placeholder does not matter. -/
theorem placeholderLen_append (l' : Bytes) (h : placeholderLen l = some n) :
    placeholderLen (l ++ l') = some n := by
  obtain ⟨rest, rfl, hmem, rfl⟩ := placeholderLen_eq_some.mp h
  rw [← upToBrace_append l' hmem]
  exact placeholderLen_eq_some.mpr ⟨rest ++ l', rfl, List.mem_append_left _ hmem, rfl⟩

def pathVar : Pattern UInt8 where
  len := pathVarLen
  pos h := placeholder.pos (pathVarLen_eq_some.mp h).1
  le h := placeholder.le (pathVarLen_eq_some.mp h).1
  inside l' h hle := by
    obtain ⟨hlen, hn⟩ := pathVarLen_eq_some.mp h
    exact pathVarLen_eq_some.mpr ⟨placeholderLen_inside l' hlen hle, hn⟩
  longer l' h := by
    obtain ⟨hlen, hn⟩ := pathVarLen_eq_some.mp h
    exact ⟨_, pathVarLen_eq_some.mpr ⟨placeholderLen_append l' hlen, hn⟩⟩

/-- The global variables of a domain -/
abbrev Globals := Bytes → Bytes

/-- A parameter that is nothing but a placeholder is looked up. -/
def parseMapValue (globals : Globals) (c : Connection) (str : Bytes) : Bytes :=
  if [closeBrace].isSuffixOf str then
    if [dollar, dollar, openBrace].isPrefixOf str then globals (str.drop 3).dropLast
    else if [dollar, openBrace].isPrefixOf str then (c.get (inner str)).1
    else str
  else str

def rawSubstitute (template : Bytes) (vars : Bytes → Option Bytes) : Bytes :=
  replaceAll pathVar (fun m => (vars (inner m)).getD m) template

/-- `strings.Trim` of spaces -/
def trimSpaces (s : Bytes) : Bytes :=
  ((s.dropWhile (· = 0x20)).reverse.dropWhile (· = 0x20)).reverse

/-- `props["path"]`, if it is a map, with its values in their default format -/
abbrev PathMap := Bytes → Option Bytes

/-- The text that `buildRequest` gives to `url.Parse`. `ParseText` of a connection is that of the
model, with a second pass behind it for the calls that a destination pattern has routed: `c` without
groups is any other connection. -/
def requestUrl (globals : Globals) (c : CallParser) (rawUrl : Bytes) (path : Option PathMap) :
    Except AppError Bytes :=
  if rawUrl = [] then
    .error ⟨"Flow.HttpRequest", "flow.app.http_request.valid.args", "url is required", 400⟩
  else
    let rawUrl := trimSpaces rawUrl
    match path with
    | some m =>
      let vars := fun k => (m k).map (parseMapValue globals c.call)
      let rawUrl := rawSubstitute rawUrl vars
      .ok (c.parseText rawUrl [])
    | none => .ok (c.parseText rawUrl [])

end FlowManager.Text
