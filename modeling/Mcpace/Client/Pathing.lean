import Mcpace.Library.Text
import Mcpace.Library.Utf8

/-!
Owns the path and key texts of the client planner: `src/client/pathing.rs`.

`sanitize_key` is lossy: it reads its argument as a path first, which trims it, turns
backslashes around and decodes `file://` URIs, and then replaces every character outside
a small alphabet by an underscore.
-/

namespace Mcpace.Client

open Library Text

/-! ### Percent encoding -/

def hexValue (byte : Nat) : Option Nat :=
  if 0x30 ≤ byte ∧ byte ≤ 0x39 then some (byte - 0x30)
  else if 0x61 ≤ byte ∧ byte ≤ 0x66 then some (byte - 0x61 + 10)
  else if 0x41 ≤ byte ∧ byte ≤ 0x46 then some (byte - 0x41 + 10)
  else none

def percentDecodeBytes : List Nat → List Nat
  | [] => []
  | [first] => [first]
  | [first, second] => [first, second]
  | first :: second :: third :: rest =>
    match if first = 0x25 then hexValue second else none, hexValue third with
    | some high, some low => (high * 16 + low) :: percentDecodeBytes rest
    | _, _ => first :: percentDecodeBytes (second :: third :: rest)

def percentDecode (chars : List Char) : List Char :=
  let bytes := percentDecodeBytes ((Utf8.encode chars).map UInt8.toNat)
  Utf8.decodeLossy bytes.length bytes

/-! ### Paths -/

def isAsciiAlphabetic (char : Char) : Bool := char.isUpper || char.isLower

def dropDriveSlash : List Char → List Char
  | '/' :: drive :: ':' :: rest =>
    if isAsciiAlphabetic drive then drive :: ':' :: rest else '/' :: drive :: ':' :: rest
  | decoded => decoded

def decodeFileUri (chars : List Char) : Option (List Char) :=
  if !"file://".toList.isPrefixOf (chars.map Char.toLower) then none
  else
    let rest := (chars.drop 7).takeWhile (fun char => char ≠ '?' ∧ char ≠ '#')
    if "localhost/".toList.isPrefixOf (rest.map Char.toLower) then
      some (dropDriveSlash (percentDecode (rest.drop 9)))
    else if rest.head? = some '/' then some (dropDriveSlash (percentDecode rest))
    else none

def normalizePath (value : String) : String :=
  let slashed := (trimChars value.toList).map
    (fun char => if char = '\\' then '/' else char)
  String.ofList ((decodeFileUri slashed).getD slashed)

def sanitizeChar (char : Char) : Char :=
  if isAsciiAlphanumeric char || ['/', '-', '_', '.', ':'].contains char then
    char
  else '_'

def sanitizeKey (value : String) : String :=
  String.ofList ((normalizePath value).toList.map sanitizeChar)

def normalizeTransport (value : String) : String :=
  match toAsciiLowercase (trim value) with
  | "http" | "streamable-http" | "streamable_http" => "streamable-http"
  | "stdio" | "local-stdio" => "stdio"
  | "sse" => "sse"
  | "" => "stdio"
  | other => other

/-- A text without white space and backslashes that is no file URI is its own path. -/
theorem normalizePath_eq_self {text : String}
    (solid : ∀ char ∈ text.toList, isWhitespace char = false ∧ char ≠ '\\')
    (notUri : decodeFileUri text.toList = none) : normalizePath text = text := by
  have slashed : (trimChars text.toList).map
      (fun char => if char = '\\' then '/' else char) = text.toList := by
    rw [trimChars_eq_self (fun char member => (solid char member).1),
      List.map_congr_left (fun char member => if_neg (solid char member).2),
      List.map_id']
  simp only [normalizePath, slashed, notUri, Option.getD_none, String.ofList_toList]

theorem decodeFileUri_of_head {first : Char} {rest : List Char} (other : first.toLower ≠ 'f') :
    decodeFileUri (first :: rest) = none := by
  have differs : ("file://".toList.isPrefixOf ((first :: rest).map Char.toLower)) = false := by
    rw [List.map_cons]
    show ('f' == first.toLower && _) = false
    rw [beq_false_of_ne (Ne.symm other), Bool.false_and]
  rw [decodeFileUri, differs]
  rfl

/-! ### Containment -/

def resolveParts (rooted : Bool) : List (List Char) → List (List Char) → List (List Char)
  | parts, [] => parts.reverse
  | parts, part :: rest =>
    if part = [] ∨ part = ['.'] then resolveParts rooted parts rest
    else if part = ['.', '.'] then
      match parts with
      | last :: earlier =>
        if last ≠ ['.', '.'] then resolveParts rooted earlier rest
        else if rooted then resolveParts rooted parts rest
        else resolveParts rooted (part :: parts) rest
      | [] => resolveParts rooted (if rooted then [] else [part]) rest
    else resolveParts rooted (part :: parts) rest

def lexicalPathKey (value : String) : List Char :=
  let normalized := trimChars (normalizePath value).toList
  let join := fun (parts : List (List Char)) => ['/'].intercalate parts
  let split := fun (rest : List Char) => rest.splitOn '/'
  let rooted := fun (root rest : List Char) =>
    root ++ join (resolveParts true [] (split rest))
  match normalized with
  | [] => []
  | '/' :: '/' :: rest => rooted ['/', '/'] rest
  | '/' :: rest => rooted ['/'] (rest.dropWhile (· = '/'))
  | drive :: ':' :: rest =>
    if isAsciiAlphabetic drive then
      match resolveParts true [] (split (rest.dropWhile (· = '/'))) with
      | [] => [drive, ':']
      | parts => drive :: ':' :: '/' :: join parts
    else join (resolveParts false [] (split normalized))
  | _ => join (resolveParts false [] (split normalized))

def looksLikeWindowsPath : List Char → Bool
  | '/' :: '/' :: _ => true
  | drive :: ':' :: _ => isAsciiAlphabetic drive
  | _ => false

def pathCompareKey (value : String) : List Char :=
  let normalized := lexicalPathKey value
  if looksLikeWindowsPath normalized then normalized.map Char.toLower else normalized

def pathIsWithin (path root : String) : Bool :=
  let pathKey := pathCompareKey path
  let rootKey := pathCompareKey root
  rootKey ≠ [] && (pathKey = rootKey || (rootKey ++ ['/']).isPrefixOf pathKey)

/-! ### Hashes -/

/-- `stable_hash_hex`: FNV-1a over the bytes, printed with 16 hexadecimal digits. -/
def stableHashHex (input : String) : String :=
  let hash := (Utf8.encode input.toList).foldl
    (fun hash byte => (hash ^^^ byte.toNat) * 0x100000001b3 % 2 ^ 64) 0xcbf29ce484222325
  let digits := Nat.toDigits 16 hash
  String.ofList (List.replicate (16 - digits.length) '0' ++ digits)

end Mcpace.Client
