import Mcpace.Upstream.ServerConfig

/-!
Owns the coverage that `audit_tool` of `src/upstream/policy_audit.rs` reports for a tool, the choice
of tools in `projected_tool_catalog` of `src/upstream/projection.rs`, and their agreement with the
runtime policy.

Does not own: the advisory classes of a tool and the encoding of projected names, which are
parameters, and the texts of a report.
-/

namespace Mcpace.Upstream

open Json Library Option

def riskClassRecommendsPolicy (riskClass : String) : Bool :=
  ["mutation", "not-readonly", "interaction-control", "interaction-observation", "desktop-control",
    "desktop-observation", "system-control", "metadata-injection", "filesystem-access",
    "database-access", "credential-input"].contains riskClass

/-- The flags of the reported value; it has no member for unknown semantics. -/
def auditTool (policies : List ToolRiskPolicy) (riskClasses : List String) (tool : JsonValue) :
    JsonValue :=
  let name := (tool.stringAtPath ["name"]).getD "<unnamed>"
  let hasAnnotations := !((tool.objectAtPath ["annotations"]).getD []).isEmpty
  let policyCovered := policies.any (fun policy => policy.matchesTool name)
  let hasAdvisoryRisk := !riskClasses.isEmpty
  let guardRecommended := riskClasses.any riskClassRecommendsPolicy
  let unknownSemantics := !hasAnnotations && !hasAdvisoryRisk && !policyCovered
  .ofEntries [("policyCovered", .bool policyCovered), ("guardRecommended", .bool guardRecommended),
    ("reviewRecommended",
      .bool ((hasAdvisoryRisk || guardRecommended) && !policyCovered || unknownSemantics)),
    ("hasAnnotations", .bool hasAnnotations)]

inductive UpstreamProjectionSafety where
  | safe
  | review
  | all
deriving DecidableEq

def shouldSkip (safety : UpstreamProjectionSafety) (audit : JsonValue) : Bool :=
  let flag := fun key => (audit.boolAtPath [key]).getD false
  match safety with
  | .all => false
  | .review => flag "policyCovered" || flag "guardRecommended"
  | .safe => flag "policyCovered" || flag "guardRecommended" || flag "unknownSemantics"

/-- The name under which a tool is called and the name it is projected to, if it is. -/
def projectTool (encodeProjectedToolName : String → String → Option String)
    (safety : UpstreamProjectionSafety) (serverName : String) (policies : List ToolRiskPolicy)
    (riskClasses : List String) (tool : JsonValue) : Option (String × String) := do
  let originalToolName ← ((tool.stringAtPath ["name"]).map Text.trim).filter (· ≠ "")
  if shouldSkip safety (auditTool policies riskClasses tool) then none
  else (encodeProjectedToolName serverName originalToolName).map (originalToolName, ·)

/-- The caller grants nothing. -/
def Ungranted (context : Option UpstreamLeaseContext) : Prop :=
  ∀ granted ∈ context, granted.allowArguments = [] ∧ granted.allowedToolRiskClasses = []

def Rejects (serverName toolName : String) (context : Option UpstreamLeaseContext)
    (policies : List ToolRiskPolicy) : Prop :=
  ∃ message, validateUpstreamToolPolicy serverName toolName context policies = .error message

section Agreement

variable {policies : List ToolRiskPolicy} {context : Option UpstreamLeaseContext}
  (ungranted : Ungranted context)

include ungranted

theorem isAllowed_of_ungranted (policy : ToolRiskPolicy) : policy.isAllowed context = false := by
  cases context with
  | none => rfl
  | some granted =>
    obtain ⟨arguments, classes⟩ := ungranted granted rfl
    rw [ToolRiskPolicy.isAllowed, arguments, classes]
    cases policy.allowArgument <;> cases policy.riskClass <;> rfl

/-- Without grants exactly the calls of tools that some policy matches are refused. -/
theorem rejects_iff (serverName toolName : String) : Rejects serverName toolName context policies ↔
    policies.any (fun policy => policy.matchesTool toolName) = true := by
  rw [Rejects, validateUpstreamToolPolicy_error_iff]
  simp only [isAllowed_of_ungranted ungranted, true_and, List.any_eq_true,
    ToolRiskPolicy.matchesTool]

end Agreement

theorem matchesTool_trim (policy : ToolRiskPolicy) (toolName : String) :
    policy.matchesTool (Text.trim toolName) = policy.matchesTool toolName := by
  unfold ToolRiskPolicy.matchesTool toolPatternMatches foldName
  rw [Text.trim_trim]

theorem boolAtPath_auditTool (policies : List ToolRiskPolicy) (riskClasses : List String)
    {tool : JsonValue} {name : String} (named : tool.stringAtPath ["name"] = some name) :
    (auditTool policies riskClasses tool).boolAtPath ["policyCovered"] =
      some (policies.any (fun policy => policy.matchesTool name)) := by
  rw [auditTool, named]
  show ((OrderedMap.get "policyCovered" (OrderedMap.ofList _)).bind some).bind JsonValue.asBool = _
  rw [OrderedMap.get_ofList_of_nodup _ (by simp [OrderedMap.keys])]
  rfl

/-- The audit reports a tool as covered exactly if a call without grants is refused, and no tool
that is projected as safe or for review is refused. -/
theorem policyCovered_iff_rejects {policies : List ToolRiskPolicy} {riskClasses : List String}
    {tool : JsonValue} {name : String} (named : tool.stringAtPath ["name"] = some name)
    (serverName : String) {context : Option UpstreamLeaseContext} (ungranted : Ungranted context) :
    ((auditTool policies riskClasses tool).boolAtPath ["policyCovered"] = some true ↔
        Rejects serverName name context policies) ∧
      ∀ encode safety called projected, safety ≠ .all →
        projectTool encode safety serverName policies riskClasses tool = some (called, projected) →
          ¬Rejects serverName called context policies := by
  rw [rejects_iff ungranted, boolAtPath_auditTool policies riskClasses named, some_inj]
  refine ⟨Iff.rfl, fun encode safety called projected limited isProjected => ?_⟩
  obtain ⟨original, isOriginal, chosen⟩ := bind_eq_some_iff.mp isProjected
  rw [named, map_some, filter_eq_some_iff, some_inj] at isOriginal
  split_ifs at chosen with skipped
  obtain ⟨_, -, same⟩ := map_eq_some_iff.mp chosen
  rw [← (Prod.mk.inj same).1, ← isOriginal.1, rejects_iff ungranted]
  simp only [matchesTool_trim]
  intro covered
  have reported := boolAtPath_auditTool policies riskClasses named
  rw [covered] at reported
  apply skipped
  cases safety with
  | all => exact absurd rfl limited
  | review | safe => simp [shouldSkip, reported]

/-- With the guard of a config, the tool it names is refused and another one is projected. -/
theorem policyCovered_iff_rejects_guard : ∃ guard,
    parseToolPolicy (.object [("riskClass", .string "destructive"),
      ("tools", .array [.string "delete*"])]) = some guard ∧
    Rejects "files" "delete_all" none [guard] ∧
    projectTool (fun server tool => some (server ++ "__" ++ tool)) .review "files" [guard] []
      (.object [("name", .string "read")]) = some ("read", "files__read") ∧
    ¬Rejects "files" "read" none [guard] := by
  have projected : projectTool (fun server tool => some (server ++ "__" ++ tool)) .review "files"
      [⟨["delete*"], some "destructive", none, none⟩] [] (.object [("name", .string "read")]) =
        some ("read", "files__read") := by decide
  refine ⟨⟨["delete*"], some "destructive", none, none⟩, rfl, ?_, projected, ?_⟩
  · exact (@policyCovered_iff_rejects _ [] (.object [("name", .string "delete_all")]) _ rfl "files"
      none nofun).1.mp (by decide)
  · exact (@policyCovered_iff_rejects _ [] (.object [("name", .string "read")]) _ rfl "files" none
      nofun).2 _ .review _ _ (by decide) projected

end Mcpace.Upstream
