import FlowManager.Lib.Scan
import FlowManager.Lib.Uri

/-!
# Encodings of text (model/utils.go, model/json.go)

Strings are their bytes, as in Go.

- `urlEncoded`: a value in a URL, by `url.Values.Encode` and the exceptions of
  `encodeURIComponent`.
- `jsonString`: a value in a JSON string, byte by byte, with the runes of UTF-8.
-/

namespace FlowManager.Text

open Scan
open Uri (upperHex)

abbrev Bytes := List UInt8

/-- The bytes of an ASCII text -/
def ascii (s : String) : Bytes := s.toList.map fun c => c.toNat.toUInt8

/-! ## URLs -/

/-- The bytes that stand for themselves in a query: letters, digits, `-`, `_`, `.` and `~` -/
def unreserved (b : UInt8) : Bool :=
  (0x61 ≤ b && b ≤ 0x7a) || (0x41 ≤ b && b ≤ 0x5a) || (0x30 ≤ b && b ≤ 0x39) ||
    b = 0x2d || b = 0x5f || b = 0x2e || b = 0x7e

/-- A byte in a query; a space is a plus sign. -/
def queryByte (b : UInt8) : Bytes :=
  if unreserved b then [b]
  else if b = 0x20 then [0x2b]
  else [0x25, upperHex (b / 16), upperHex (b % 16)]

/-- `url.QueryEscape` -/
def queryEscape (str : Bytes) : Bytes := str.flatMap queryByte

/-- `url.Values` with one value for an empty key, encoded -/
def encodeValue (str : Bytes) : Bytes := 0x3d :: queryEscape str

/-- `strings.Replace(str, old, new, -1)` -/
def replace (old new : String) (str : Bytes) : Bytes :=
  if h : ascii old ≠ [] then replaceAll (.word (ascii old) h) (fun _ => ascii new) str else str

def compatibleJSEncodeURIComponent (str : Bytes) : Bytes :=
  let resultStr := replace "+" "%20" str
  let resultStr := replace "%21" "!" resultStr
  let resultStr := replace "%28" "(" resultStr
  let resultStr := replace "%29" ")" resultStr
  replace "%2A" "*" resultStr

def urlEncoded (str : Bytes) : Bytes :=
  let res := encodeValue str
  -- the `=` after the empty key is cut off
  if res.length < 2 then [] else compatibleJSEncodeURIComponent res.tail

/-! ## JSON -/

/-- `htmlSafeSet`, for bytes below `utf8.RuneSelf` -/
def htmlSafe (b : UInt8) : Bool :=
  0x20 ≤ b && b ≠ 0x22 && b ≠ 0x26 && b ≠ 0x3c && b ≠ 0x3e && b ≠ 0x5c

/-- `safeSet`, for bytes below `utf8.RuneSelf` -/
def safe (b : UInt8) : Bool := 0x20 ≤ b && b ≠ 0x22 && b ≠ 0x5c

/-- A digit of `hex` -/
def lowerHex (n : UInt8) : UInt8 := if n < 10 then 0x30 + n else 0x57 + n

/-- What stands for a byte below `utf8.RuneSelf`, after the byte `prev`. A quote that is escaped
already stays as it is, and so does a backslash. -/
def jsonByte (escapeHTML : Bool) (prev : Option UInt8) (b : UInt8) : Bytes :=
  if htmlSafe b || (!escapeHTML && safe b) then [b]
  else if b = 0x5c then [0x5c]
  else if b = 0x22 then if prev = some 0x5c then [b] else [0x5c, b]
  else if b = 0x08 then ascii "\\b"
  else if b = 0x0c then ascii "\\f"
  else if b = 0x0a then ascii "\\n"
  else if b = 0x0d then ascii "\\r"
  else if b = 0x09 then ascii "\\t"
  else ascii "\\u00" ++ [lowerHex (b / 16), lowerHex (b % 16)]

/-- A byte that goes on in a rune -/
def isTail (b : UInt8) : Bool := 0x80 ≤ b && b ≤ 0xbf

/-- The size of the rune at the beginning, if it is one of two bytes or more -/
def runeSize : Bytes → Option Nat
  | a :: b :: rest =>
    if 0xc2 ≤ a && a ≤ 0xdf && isTail b then some 2
    else
      match rest with
      | [] => none
      | c :: rest =>
        if (a = 0xe0 && 0xa0 ≤ b && b ≤ 0xbf || 0xe1 ≤ a && a ≤ 0xec && isTail b ||
            a = 0xed && 0x80 ≤ b && b ≤ 0x9f || 0xee ≤ a && a ≤ 0xef && isTail b) && isTail c then
          some 3
        else
          match rest with
          | [] => none
          | d :: _ =>
            if (a = 0xf0 && 0x90 ≤ b && b ≤ 0xbf || 0xf1 ≤ a && a ≤ 0xf3 && isTail b ||
                a = 0xf4 && 0x80 ≤ b && b ≤ 0x8f) && isTail c && isTail d then some 4
            else none
  | _ => none

/-- What is done with the rest of a rune. -/
inductive Rest where
  | keep (n : Nat)
  | leaveOut (n : Nat)

/-- `JsonString` from a byte on: `rest` is what is left of a rune, and `prev` the byte before. -/
def jsonFrom (escapeHTML : Bool) : Rest → Option UInt8 → Bytes → Bytes
  | _, _, [] => []
  | .keep (n + 1), _, b :: src => b :: jsonFrom escapeHTML (.keep n) (some b) src
  | .leaveOut (n + 1), _, b :: src => jsonFrom escapeHTML (.leaveOut n) (some b) src
  | .keep 0, prev, b :: src | .leaveOut 0, prev, b :: src =>
    if b < 0x80 then
      jsonByte escapeHTML prev b ++ jsonFrom escapeHTML (.keep 0) (some b) src
    else
      match runeSize (b :: src) with
      -- `utf8.RuneError` of size 1: only this byte is replaced
      | none => ascii "\\ufffd" ++ jsonFrom escapeHTML (.keep 0) (some b) src
      | some n =>
        -- the line and the paragraph separator
        if [0xe2, 0x80, 0xa8] <+: b :: src then
          ascii "\\u2028" ++ jsonFrom escapeHTML (.leaveOut 2) (some b) src
        else if [0xe2, 0x80, 0xa9] <+: b :: src then
          ascii "\\u2029" ++ jsonFrom escapeHTML (.leaveOut 2) (some b) src
        else b :: jsonFrom escapeHTML (.keep (n - 1)) (some b) src

/-- `JsonString` -/
def jsonString (dst src : Bytes) (escapeHTML : Bool) : Bytes :=
  dst ++ jsonFrom escapeHTML (.keep 0) none src

end FlowManager.Text
