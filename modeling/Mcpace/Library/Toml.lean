import Mcpace.Library.Text

/-!
Owns the basic strings of TOML and the escapes they may have.

Does not own: control characters, which are not refused here.
-/

namespace Mcpace.Library.Toml

open Library

/-- Where the reading of a basic string stands: at a character, behind a backslash, or with hex
digits of a code point to come. -/
inductive Escape where
  | none
  | opened
  | hex (missing value : Nat)
deriving DecidableEq, Repr

def escapeValue (letter : Char) : Option Char :=
  if letter = 'b' then some '\x08'
  else if letter = 't' then some '\t'
  else if letter = 'n' then some '\n'
  else if letter = 'f' then some '\x0c'
  else if letter = 'r' then some '\r'
  else if letter = '"' then some '"'
  else if letter = '\\' then some '\\'
  else .none

/-- A character in front of what was read. -/
def prepend (char : Char) (parts : List Char × List Char) : List Char × List Char :=
  (char :: parts.1, parts.2)

/-- A basic string behind its opening quote, and what follows its closing one. -/
def basicKey : Escape → List Char → Option (List Char × List Char)
  | _, [] => Option.none
  | .none, char :: rest =>
    if char = '"' then some ([], rest)
    else if char = '\\' then basicKey .opened rest
    else (basicKey .none rest).map (prepend char)
  | .opened, letter :: rest =>
    match escapeValue letter with
    | some char => (basicKey .none rest).map (prepend char)
    | Option.none =>
      if letter = 'u' then basicKey (.hex 4 0) rest
      else if letter = 'U' then basicKey (.hex 8 0) rest
      else Option.none
  | .hex missing value, digit :: rest =>
    match Text.hexDigit digit with
    | some number =>
      if missing ≤ 1 then
        (basicKey .none rest).map (prepend (Char.ofNat (16 * value + number)))
      else basicKey (.hex (missing - 1) (16 * value + number)) rest
    | Option.none => Option.none

end Mcpace.Library.Toml
