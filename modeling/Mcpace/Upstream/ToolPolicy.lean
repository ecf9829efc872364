import Mcpace.Json.Value
import Mcpace.Library.Glob

/-!
Contract: which upstream tool calls the configured tool policies refuse.

Mirrors `tool_pattern_matches`, `wildcard_match`, `ToolRiskPolicy` and
`validate_upstream_tool_policy` of `src/upstream/lease_runtime.rs`.

The matcher places each segment at its first occurrence. A pattern that does not
end with `*` therefore misses a tool name of its language when an earlier part of
the name already completes the pattern, and the call goes through unguarded.
-/

namespace Mcpace.Upstream

open Library Json List Glob

/-! ### The matcher -/

/-- The loop of `wildcard_match` over the non-empty segments; `none` is its early
`return false`. -/
def wildcardLoop (startsWithStar : Bool) : Bool → List (List Char) → List Char → Option (List Char)
  | _, [], rest => some rest
  | first, segment :: segments, rest =>
    match find segment rest with
    | none => none
    | some index =>
      if first && !startsWithStar && index != 0 then none
      else wildcardLoop startsWithStar false segments (rest.drop (index + segment.length))

def wildcardMatch (pattern value : String) : Bool :=
  if !pattern.toList.contains '*' then false
  else
    let segments := (pattern.toList.splitOn '*').filter (fun segment => !segment.isEmpty)
    match wildcardLoop (pattern.toList.head? == some '*') true segments value.toList with
    | none => false
    | some rest => pattern.toList.getLast? == some '*' || rest.isEmpty

/-- How the matcher reads both of its arguments. -/
def foldName (text : String) : String := Text.toAsciiLowercase (Text.trim text)

def toolPatternMatches (pattern toolName : String) : Bool :=
  let pattern := foldName pattern
  let toolName := foldName toolName
  if pattern = "" then false
  else if pattern = "*" ∨ pattern = toolName then true
  else wildcardMatch pattern toolName

/-! ### Policies -/

structure ToolRiskPolicy where
  tools : List String
  riskClass : Option String
  allowArgument : Option String
  description : Option String

/-- The context a caller leases with. -/
structure UpstreamLeaseContext where
  clientId : Option String
  sessionId : Option String
  projectRoot : Option String
  transport : Option String
  metadata : Option JsonValue
  ttlMs : Option Nat
  allowArguments : List String
  allowedToolRiskClasses : List String

namespace ToolRiskPolicy

def matchesTool (policy : ToolRiskPolicy) (toolName : String) : Bool :=
  policy.tools.any (fun pattern => toolPatternMatches pattern toolName)

def isAllowed (policy : ToolRiskPolicy) : Option UpstreamLeaseContext → Bool
  | none => false
  | some context =>
    (policy.allowArgument.map context.allowArguments.contains).getD false ||
      (policy.riskClass.map context.allowedToolRiskClasses.contains).getD false

def blockedMessage (policy : ToolRiskPolicy) (serverName toolName : String) : String :=
  let grants :=
    (policy.allowArgument.map (fun argument => "set " ++ argument ++ "=true")).toList ++
      (policy.riskClass.map (fun riskClass =>
        "include '" ++ riskClass ++ "' in allowToolRiskClasses")).toList
  let grantHint :=
    if grants = [] then "declare an explicit allow rule in mcpace.config.json"
    else " or ".intercalate grants
  let detail := (policy.description.map (fun value => " (" ++ value ++ ")")).getD ""
  "upstream server '" ++ serverName ++ "' tool '" ++ toolName ++
    "' requires explicit risk authorization: " ++ grantHint ++
    " on upstream_call/upstream_batch" ++ detail

end ToolRiskPolicy

/-- `validate_upstream_tool_policy` on the server's name and policies. -/
def validateUpstreamToolPolicy (serverName : String) (toolName : String)
    (context : Option UpstreamLeaseContext) : List ToolRiskPolicy → Except String Unit
  | [] => .ok ()
  | policy :: policies =>
    if !policy.matchesTool toolName || policy.isAllowed context then
      validateUpstreamToolPolicy serverName toolName context policies
    else .error (policy.blockedMessage serverName toolName)

/-- The validation stops at the first policy that matches and is not granted. -/
theorem validateUpstreamToolPolicy_error_iff {serverName toolName : String}
    {context : Option UpstreamLeaseContext} {policies : List ToolRiskPolicy} :
    (∃ message, validateUpstreamToolPolicy serverName toolName context policies = .error message) ↔
      ∃ policy ∈ policies, policy.isAllowed context = false ∧
        ∃ pattern ∈ policy.tools, toolPatternMatches pattern toolName = true := by
  induction policies with
  | nil => simp [validateUpstreamToolPolicy]
  | cons policy policies ih =>
    rw [validateUpstreamToolPolicy]
    by_cases stops : policy.isAllowed context = false ∧ policy.matchesTool toolName = true
    · have refused : (!policy.matchesTool toolName || policy.isAllowed context) = false := by
        rw [stops.1, stops.2]
        rfl
      rw [refused, if_neg (by decide)]
      refine ⟨fun _ => ⟨policy, mem_cons_self, stops.1, ?_⟩, fun _ => ⟨_, rfl⟩⟩
      exact List.any_eq_true.mp stops.2
    · have skipped : (!policy.matchesTool toolName || policy.isAllowed context) = true := by
        cases granted : policy.isAllowed context with
        | true => simp
        | false =>
          rw [granted] at stops
          simpa using stops
      rw [skipped, if_pos rfl, ih]
      constructor
      · rintro ⟨other, member, ungranted, covers⟩
        exact ⟨other, mem_cons_of_mem policy member, ungranted, covers⟩
      · rintro ⟨other, member, ungranted, covers⟩
        rcases mem_cons.mp member with rfl | later
        · exact absurd ⟨ungranted, List.any_eq_true.mpr covers⟩ stops
        · exact ⟨other, later, ungranted, covers⟩

/-! ### The matcher and the language -/

theorem wildcardLoop_false (startsWithStar : Bool) (segments : List (List Char))
    (rest : List Char) :
    wildcardLoop startsWithStar false segments rest = scan segments rest := by
  induction segments generalizing rest with
  | nil => rfl
  | cons segment segments ih =>
    rw [wildcardLoop, scan]
    cases find segment rest with
    | none => rfl
    | some index => exact ih _

theorem wildcardLoop_floating (segments : List (List Char)) (rest : List Char) :
    wildcardLoop true true segments rest = scan segments rest := by
  cases segments with
  | nil => rfl
  | cons segment segments =>
    rw [wildcardLoop, scan]
    cases find segment rest with
    | none => rfl
    | some index => exact wildcardLoop_false true segments _

/-- Without a leading `*` the first segment has to start the value. -/
theorem wildcardLoop_anchored (segment : List Char) (segments : List (List Char))
    (value remainder : List Char) :
    wildcardLoop false true (segment :: segments) value = some remainder ↔
      ∃ rest, value = segment ++ rest ∧ scan segments rest = some remainder := by
  rw [wildcardLoop]
  cases found : find segment value with
  | none =>
    simp only [reduceCtorEq, false_iff]
    rintro ⟨rest, split, -⟩
    exact find_none found [] rest split
  | some index =>
    obtain ⟨⟨before, after, split, length⟩, first⟩ := find_some found
    by_cases start : index = 0
    · have none : before = [] := List.length_eq_zero_iff.mp (length.trans start)
      rw [none, nil_append] at split
      simp only [start, bne_self_eq_false, Bool.and_false, Bool.false_eq_true, if_false,
        wildcardLoop_false, Nat.zero_add, split, drop_left, append_cancel_left_eq,
        exists_eq_left']
    · have notStart : (true && !false && index != 0) = true := by simpa using start
      simp only [notStart, if_true, reduceCtorEq, false_iff]
      rintro ⟨rest, starts, -⟩
      exact start (Nat.le_zero.mp (first [] rest starts))

/-- The loop in terms of the pieces between the wildcards. -/
theorem wildcardLoop_pieces {pattern first : List Char} {others : List (List Char)}
    (pieces : pattern.splitOn '*' = first :: others) (nonempty : pattern ≠ [])
    (value remainder : List Char) :
    wildcardLoop (pattern.head? == some '*') true
        ((first :: others).filter (fun segment => !segment.isEmpty)) value = some remainder ↔
      ∃ rest, value = first ++ rest ∧ scan others rest = some remainder := by
  obtain ⟨symbol, symbols, rfl⟩ := exists_cons_of_ne_nil nonempty
  obtain ⟨next, later, split⟩ := exists_splitOn '*' symbols
  rw [splitOn_cons, split] at pieces
  by_cases wild : symbol = '*'
  · rw [if_pos wild, List.cons.injEq] at pieces
    obtain ⟨rfl, rfl⟩ := pieces
    have starts : ((symbol :: symbols).head? == some '*') = true := by simp [wild]
    rw [starts, filter_cons_of_neg (by simp), wildcardLoop_floating, scan_filter]
    simp
  · rw [if_neg wild, modifyHead_cons, List.cons.injEq] at pieces
    obtain ⟨rfl, rfl⟩ := pieces
    have starts : ((symbol :: symbols).head? == some '*') = false := by simp [wild]
    rw [starts, filter_cons_of_pos (by simp), wildcardLoop_anchored]
    simp only [scan_filter]

/-- Some proper initial part of the text already completes the pattern. -/
def CompletesEarly (pattern text : List Char) : Prop :=
  pattern.getLast? ≠ some '*' ∧ ∃ earlier, earlier <+: text ∧ earlier ≠ text ∧
    Glob.Language '*' pattern earlier

theorem wildcardMatch_iff (pattern value : String) : wildcardMatch pattern value = true ↔
      '*' ∈ pattern.toList ∧ Glob.Language '*' pattern.toList value.toList ∧
        ¬ CompletesEarly pattern.toList value.toList := by
  by_cases wild : '*' ∈ pattern.toList
  swap
  · simp [wildcardMatch, wild]
  obtain ⟨first, others, pieces⟩ := exists_splitOn '*' pattern.toList
  have loop := wildcardLoop_pieces pieces (ne_nil_of_mem wild) value.toList
  have language := @Glob.language_iff_pieces _ _ '*' pattern.toList first others pieces
  -- The loop returns what follows the last segment.
  have outcome : wildcardMatch pattern value = true ↔
      ∃ rest remainder, value.toList = first ++ rest ∧ scan others rest = some remainder ∧
        (pattern.toList.getLast? = some '*' ∨ remainder = []) := by
    have contained : (!pattern.toList.contains '*') = false := by simp [wild]
    rw [wildcardMatch, contained, if_neg (by decide), pieces]
    cases scanned : wildcardLoop (pattern.toList.head? == some '*') true
        ((first :: others).filter (fun segment => !segment.isEmpty)) value.toList with
    | none =>
      simp only [scanned, Bool.false_eq_true, false_iff]
      rintro ⟨rest, remainder, split, scan, -⟩
      have returned := (loop remainder).mpr ⟨rest, split, scan⟩
      rw [scanned] at returned
      cases returned
    | some remainder =>
      obtain ⟨rest, split, scan⟩ := (loop remainder).mp scanned
      simp only [scanned]
      constructor
      · intro accepted
        refine ⟨rest, remainder, split, scan, ?_⟩
        simpa using accepted
      · rintro ⟨other, otherRemainder, otherSplit, otherScan, accepted⟩
        have sameRest : other = rest := append_cancel_left (otherSplit.symm.trans split)
        rw [sameRest, scan, Option.some.injEq] at otherScan
        rw [← otherScan] at accepted
        simpa using accepted
  rw [outcome, language]
  by_cases openEnd : pattern.toList.getLast? = some '*'
  · -- With a trailing `*` the first occurrences suffice.
    have lastPiece := (Glob.getLast?_pieces pieces).mpr openEnd
    have notEarly : ¬ CompletesEarly pattern.toList value.toList := fun early => early.1 openEnd
    constructor
    · rintro ⟨rest, remainder, split, scan, -⟩
      refine ⟨wild, ⟨rest, split, ?_⟩, notEarly⟩
      exact (scan_isSome_iff lastPiece).mp (by rw [scan]; rfl)
    · rintro ⟨-, ⟨rest, split, scattered⟩, -⟩
      obtain ⟨remainder, scan⟩ :=
        Option.isSome_iff_exists.mp ((scan_isSome_iff lastPiece).mpr scattered)
      exact ⟨rest, remainder, split, scan, Or.inl openEnd⟩
  · -- Without one, the scan has to end exactly at the end of the value.
    constructor
    · rintro ⟨rest, remainder, split, scan, ends⟩
      rw [ends.resolve_left openEnd] at scan
      obtain ⟨scattered, only⟩ := Glob.scan_eq_nil_iff.mp scan
      refine ⟨wild, ⟨rest, split, scattered⟩, ?_⟩
      rintro ⟨-, earlier, initial, proper, member⟩
      obtain ⟨part, partSplit, partScattered⟩ := language.mp member
      rw [partSplit, split, prefix_append_right_inj] at initial
      exact proper (by rw [partSplit, split, only part initial partScattered])
    · rintro ⟨-, ⟨rest, split, scattered⟩, notEarly⟩
      refine ⟨rest, [], split, Glob.scan_eq_nil_iff.mpr ⟨scattered, ?_⟩, Or.inr rfl⟩
      intro part initial partScattered
      by_contra different
      refine notEarly ⟨openEnd, first ++ part, ?_, ?_, language.mpr ⟨part, rfl, partScattered⟩⟩
      · rw [split, prefix_append_right_inj]
        exact initial
      · rw [split]
        exact fun same => different (append_cancel_left same)

/-! ### The guard -/

/-- The glob reading of a configured pattern: `*` is any text, and names are
compared trimmed and without ASCII case. -/
def InPatternLanguage (pattern toolName : String) : Prop :=
  foldName pattern ≠ "" ∧
    Glob.Language '*' (foldName pattern).toList (foldName toolName).toList

theorem toolPatternMatches_iff (pattern toolName : String) :
    toolPatternMatches pattern toolName = true ↔ InPatternLanguage pattern toolName ∧
        ¬ CompletesEarly (foldName pattern).toList (foldName toolName).toList := by
  unfold toolPatternMatches InPatternLanguage
  by_cases empty : foldName pattern = ""
  · simp [empty]
  by_cases whole : foldName pattern = "*"
  · have anything : Glob.Language '*' ['*'] (foldName toolName).toList := by
      have member : Glob.Language '*' ['*'] ((foldName toolName).toList ++ []) := .any _ .nil
      rwa [append_nil] at member
    have stars : "*".toList = ['*'] := by decide
    simp only [whole, true_or, if_true, stars]
    refine ⟨fun _ => ⟨⟨by decide, anything⟩, fun early => early.1 rfl⟩, fun _ => by decide⟩
  by_cases same : foldName pattern = foldName toolName
  · simp only [same, or_true, if_true, if_neg (same ▸ empty)]
    refine ⟨fun _ => ⟨⟨same ▸ empty, Glob.Language.self _ _⟩, ?_⟩, fun _ => trivial⟩
    rintro ⟨anchored, earlier, initial, proper, member⟩
    exact proper (member.eq_of_isPrefix_self initial anchored)
  simp only [empty, whole, same, or_self, if_false, wildcardMatch_iff, ne_eq, not_false_eq_true,
    true_and]
  constructor
  · exact fun accepted => accepted.2
  · intro member
    refine ⟨?_, member⟩
    -- A pattern without a wildcard has only itself in its language.
    by_contra plain
    have pieces : (foldName pattern).toList.splitOn '*' = [(foldName pattern).toList] := by
      apply splitOnP_eq_singleton
      intro symbol occurs
      simp only [beq_eq_false_iff_ne, ne_eq]
      exact fun star => plain (star ▸ occurs)
    obtain ⟨rest, split, none⟩ := (language_iff_pieces pieces).mp member.1
    rw [Glob.scattered_nil_iff.mp none, append_nil] at split
    exact same (String.toList_inj.mp split.symm)

/-- The pattern test is the glob language exactly where no earlier part of the
name completes the pattern. The validation refuses every guarded, ungranted call
exactly when some ungranted pattern that covers the name is of that kind. -/
theorem toolGuard_exact (pattern toolName serverName : String)
    (context : Option UpstreamLeaseContext) (policies : List ToolRiskPolicy) :
    ((toolPatternMatches pattern toolName = true ↔ InPatternLanguage pattern toolName) ↔
        ¬ (InPatternLanguage pattern toolName ∧
          CompletesEarly (foldName pattern).toList (foldName toolName).toList)) ∧
    (((∃ policy ∈ policies, policy.isAllowed context = false ∧
          ∃ guarding ∈ policy.tools, InPatternLanguage guarding toolName) →
        ∃ message, validateUpstreamToolPolicy serverName toolName context policies =
          .error message) ↔
      ((∃ policy ∈ policies, policy.isAllowed context = false ∧
          ∃ guarding ∈ policy.tools, InPatternLanguage guarding toolName) →
        ∃ policy ∈ policies, policy.isAllowed context = false ∧
          ∃ guarding ∈ policy.tools, InPatternLanguage guarding toolName ∧
            ¬ CompletesEarly (foldName guarding).toList (foldName toolName).toList)) := by
  refine ⟨?_, ?_⟩
  · rw [toolPatternMatches_iff]
    constructor
    · rintro agrees ⟨member, early⟩
      exact (agrees.mpr member).2 early
    · intro separate
      exact ⟨fun accepted => accepted.1,
        fun member => ⟨member, fun early => separate ⟨member, early⟩⟩⟩
  · rw [validateUpstreamToolPolicy_error_iff]
    simp only [toolPatternMatches_iff]

/-- A guard on names that end with `delete`, without any grant. -/
def deleteGuard : ToolRiskPolicy where
  tools := ["*delete"]
  riskClass := some "destructive"
  allowArgument := none
  description := none

/-- The first `delete` of the name is taken for the last one, so the call passes. -/
theorem deleteGuard_passes : InPatternLanguage "*delete" "delete_or_delete" ∧
      toolPatternMatches "*delete" "delete_or_delete" = false ∧
      deleteGuard.isAllowed none = false ∧
      validateUpstreamToolPolicy "db" "delete_or_delete" none [deleteGuard] = .ok () := by
  have pattern : foldName "*delete" = "*delete" := by decide
  have name : foldName "delete_or_delete" = "delete_or_delete" := by decide
  refine ⟨?_, by decide, rfl, rfl⟩
  rw [InPatternLanguage, pattern, name]
  refine ⟨by decide, ?_⟩
  have patternParts : "*delete".toList = '*' :: "delete".toList := by decide
  have nameParts : "delete_or_delete".toList = "delete_or_".toList ++ "delete".toList := by
    decide
  rw [patternParts, nameParts]
  exact .any _ (Glob.Language.self '*' "delete".toList)

end Mcpace.Upstream
