import Mcpace.Execution.Policy

/-!
Contract: which requests share a worker under one execution policy.

Mirrors `ExecutionPolicy::affinity_key` of `src/execution.rs`. The hash behind
`fingerprint_text` and the compact printer are parameters.

`fingerprint_eq_iff` is stated for the fingerprints as a reader of them sees them, through
a map of characters, because one of their two uses rewrites the separators first.
-/

namespace Mcpace.Execution

open Library Json List Option Text

structure ExecutionAffinityContext where
  clientId : Option String
  sessionId : Option String
  projectRoot : Option String
  transport : Option String
  metadata : Option JsonValue

structure ExecutionAffinityKey where
  clientId : String
  sessionId : String
  projectRoot : String
  transport : String
  fingerprint : String
deriving DecidableEq, Repr

/-- How texts are hashed and documents printed. -/
structure Printer where
  fingerprintText : String → String
  compact : JsonValue → String

/-- Fingerprints tell texts apart, and consist of letters, digits and dashes. -/
structure Printer.Faithful (printer : Printer) : Prop where
  injective : Function.Injective printer.fingerprintText
  plain : ∀ {text char}, char ∈ (printer.fingerprintText text).toList →
    isAsciiAlphanumeric char = true ∨ char = '-'

/-- `metadata_string`: the first of the paths that holds a text which is not blank. -/
def metadataString (metadata : Option JsonValue) (paths : List (List String)) : Option String :=
  metadata.bind (fun value =>
    paths.findSome? (fun path => (value.stringAtPath path).bind trimNonEmpty))

namespace ExecutionAffinityContext

def trimmedClient (context : ExecutionAffinityContext) : String :=
  (context.clientId.bind trimNonEmpty).getD "mcpace-upstream-bridge"

def applicationSessionId (context : ExecutionAffinityContext) : Option String :=
  metadataString context.metadata [["mcpace", "applicationSessionId"], ["mcpace", "chatId"],
    ["applicationSessionId"], ["chatId"], ["conversationId"]]

def defaultSession (context : ExecutionAffinityContext) : Option String :=
  context.applicationSessionId.or (context.sessionId.bind trimNonEmpty)

def defaultTransport (context : ExecutionAffinityContext) : String :=
  (context.transport.bind trimNonEmpty).getD "stdio"

/-- The value of one affinity dimension. -/
def value (printer : Printer) (context : ExecutionAffinityContext) : String → Option String
  | "client" => some context.trimmedClient
  | "project" => context.projectRoot.bind trimNonEmpty
  | "chat" | "session" | "application" => context.defaultSession
  | "credential" => metadataString context.metadata [["mcpace", "credentialId"],
      ["mcpace", "credential"], ["credentialId"], ["credential"]]
  | "metadata" => context.metadata.map (fun value => printer.fingerprintText (printer.compact value))
  | "transport" => some context.defaultTransport
  | "transport-session" =>
    (metadataString context.metadata [["mcpace", "transportSessionId"],
      ["transportSessionId"]]).or (context.sessionId.bind trimNonEmpty)
  | "client-instance" =>
    (metadataString context.metadata [["mcpace", "clientInstanceId"],
      ["clientInstanceId"]]).or (some context.trimmedClient)
  | _ => none

end ExecutionAffinityContext

/-- The loop over the dimensions: the entries, or the first dimension without a value. -/
def affinityValues (printer : Printer) (mode : ExecutionMode)
    (context : ExecutionAffinityContext) : List String → Except ExecutionPolicyError (List String)
  | [] => .ok []
  | dimension :: dimensions =>
    match context.value printer dimension with
    | none => .error (.missingAffinity mode.asStr dimension)
    | some value =>
      match affinityValues printer mode context dimensions with
      | .error error => .error error
      | .ok values => .ok ((dimension ++ "=" ++ value) :: values)

def protectValue (printer : Printer) (entry : String) : String :=
  match splitOnce '=' entry with
  | some (dimension, raw) => dimension ++ "=" ++ printer.fingerprintText raw
  | none => "unknown=" ++ printer.fingerprintText entry

def affinityFingerprint (printer : Printer) (mode : ExecutionMode) (values : List String) :
    String :=
  if values = [] then "mode=" ++ mode.asStr ++ "|affinity=global"
  else "mode=" ++ mode.asStr ++ "|" ++ "|".intercalate (values.map (protectValue printer))

def affinityDisplayValue (values : List String) (dimension : String) : Option String :=
  values.findSome? (Text.stripPrefix (dimension ++ "="))

def ExecutionPolicy.affinityKey (printer : Printer) (policy : ExecutionPolicy)
    (context : ExecutionAffinityContext) : Except ExecutionPolicyError ExecutionAffinityKey :=
  match affinityValues printer policy.mode context policy.affinity with
  | .error error => .error error
  | .ok values =>
    let display := affinityDisplayValue values
    .ok {
      clientId := (display "client").getD "shared"
      sessionId := ((((display "chat").or (display "session")).or
        (display "application")).or (display "transport-session")).getD "shared"
      projectRoot := (display "project").getD "shared"
      transport := context.defaultTransport
      fingerprint := affinityFingerprint printer policy.mode values }

/-! ### Fingerprints -/

section Fingerprints

variable {printer : Printer} {mode : ExecutionMode} {context : ExecutionAffinityContext}
  {dimension : String}

theorem mem_supported_of_value {value : String}
    (found : context.value printer dimension = some value) : dimension ∈ supportedAffinities := by
  unfold ExecutionAffinityContext.value at found
  split at found <;> first | decide | cases found

theorem affinityValues_eq_ok {dimensions values : List String}
    (resolved : affinityValues printer mode context dimensions = .ok values) :
    (∀ dimension ∈ dimensions, (context.value printer dimension).isSome = true) ∧
      values = dimensions.map (fun dimension =>
        dimension ++ "=" ++ (context.value printer dimension).getD "") := by
  induction dimensions generalizing values with
  | nil =>
    cases resolved
    exact ⟨nofun, rfl⟩
  | cons dimension dimensions ih =>
    rw [affinityValues] at resolved
    cases found : context.value printer dimension with
    | none =>
      rw [found] at resolved
      cases resolved
    | some value =>
      cases rest : affinityValues printer mode context dimensions with
      | error error =>
        rw [found, rest] at resolved
        cases resolved
      | ok others =>
        rw [found, rest] at resolved
        cases resolved
        have later := ih rest
        refine ⟨forall_mem_cons.mpr ⟨by rw [found]; rfl, later.1⟩, ?_⟩
        rw [map_cons, found, ← later.2]
        rfl

theorem protectValue_entry (plain : '=' ∉ dimension.toList) (raw : String) :
    protectValue printer (dimension ++ "=" ++ raw) =
      dimension ++ "=" ++ printer.fingerprintText raw := by
  have split : splitOnce '=' (dimension ++ "=" ++ raw) = some (dimension, raw) :=
    splitOnce_append plain raw
  rw [protectValue, split]

theorem supported_plain (supported : dimension ∈ supportedAffinities) : '=' ∉ dimension.toList := by
  revert dimension
  decide

variable {policy : ExecutionPolicy}

theorem fingerprint_of_affinityKey {key : ExecutionAffinityKey}
    (resolved : policy.affinityKey printer context = .ok key) :
    (∀ dimension ∈ policy.affinity, (context.value printer dimension).isSome = true) ∧
      key.fingerprint =
        if policy.affinity = [] then "mode=" ++ policy.mode.asStr ++ "|affinity=global"
        else "mode=" ++ policy.mode.asStr ++ "|" ++ "|".intercalate (policy.affinity.map
          (fun dimension => dimension ++ "=" ++
            printer.fingerprintText ((context.value printer dimension).getD ""))) := by
  rw [ExecutionPolicy.affinityKey] at resolved
  cases values : affinityValues printer policy.mode context policy.affinity with
  | error error =>
    rw [values] at resolved
    cases resolved
  | ok entries =>
    rw [values] at resolved
    cases resolved
    obtain ⟨complete, shape⟩ := affinityValues_eq_ok values
    have shielded : entries.map (protectValue printer) = policy.affinity.map
        (fun dimension => dimension ++ "=" ++
          printer.fingerprintText ((context.value printer dimension).getD "")) := by
      rw [shape, List.map_map]
      apply map_congr_left
      intro dimension member
      obtain ⟨value, found⟩ := isSome_iff_exists.mp (complete dimension member)
      exact protectValue_entry (supported_plain (mem_supported_of_value found)) _
    have empty : entries = [] ↔ policy.affinity = [] := by
      rw [shape, map_eq_nil_iff]
    refine ⟨complete, ?_⟩
    simp only [affinityFingerprint, empty, shielded]

/-- Two requests have the same fingerprint exactly when they agree on every dimension of the
policy, also for a reader `see` that keeps the characters of the hashes. -/
theorem fingerprint_eq_iff (faithful : printer.Faithful) (see : Char → Char)
    (keeps : ∀ char, isAsciiAlphanumeric char = true ∨ char = '-' → see char = char)
    (bar : ¬(isAsciiAlphanumeric (see '|') = true ∨ see '|' = '-'))
    {left right : ExecutionAffinityContext} {leftKey rightKey : ExecutionAffinityKey}
    (leftResolved : policy.affinityKey printer left = .ok leftKey)
    (rightResolved : policy.affinityKey printer right = .ok rightKey) :
    leftKey.fingerprint.toList.map see = rightKey.fingerprint.toList.map see ↔
      ∀ dimension ∈ policy.affinity,
        left.value printer dimension = right.value printer dimension := by
  obtain ⟨leftComplete, leftShape⟩ := fingerprint_of_affinityKey leftResolved
  obtain ⟨rightComplete, rightShape⟩ := fingerprint_of_affinityKey rightResolved
  rw [leftShape, rightShape]
  by_cases empty : policy.affinity = []
  · simp [empty]
  · have seen (text : String) : (printer.fingerprintText text).toList.map see =
        (printer.fingerprintText text).toList := by
      rw [map_congr_left (fun char member => keeps char (faithful.plain member)), List.map_id']
    have free (text : String) : see '|' ∉ (printer.fingerprintText text).toList :=
      fun member => bar (faithful.plain member)
    have fields (values : String → String) :
        ("mode=" ++ policy.mode.asStr ++ "|" ++ "|".intercalate (policy.affinity.map
          (fun dimension => dimension ++ "=" ++
            printer.fingerprintText (values dimension)))).toList.map see =
        ("mode=" ++ policy.mode.asStr ++ "|").toList.map see ++
          [see '|'].intercalate (policy.affinity.map (fun dimension =>
            (dimension ++ "=").toList.map see ++
              (printer.fingerprintText (values dimension)).toList)) := by
      rw [String.toList_append, map_append, String.toList_intercalate, Text.map_intercalate]
      simp [Function.comp_def, seen]
    rw [if_neg empty, if_neg empty, fields, fields, append_cancel_left_eq,
      Text.intercalate_fields_inj (fun dimension _ => free _) (fun dimension _ => free _)]
    apply forall₂_congr
    intro dimension member
    obtain ⟨leftValue, leftFound⟩ := isSome_iff_exists.mp (leftComplete dimension member)
    obtain ⟨rightValue, rightFound⟩ := isSome_iff_exists.mp (rightComplete dimension member)
    rw [leftFound, rightFound, getD_some, getD_some, String.toList_inj,
      faithful.injective.eq_iff, some_inj]

end Fingerprints

end Mcpace.Execution
