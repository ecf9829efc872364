import Mcpace.Hub.Lease.Route
import Mcpace.Hub.LeaseLock
import Mcpace.Json.Serializer

/-!
Owns the recovery of the lease store lock after its holder stopped: `acquire_lease_store_lock` and
`remove_stale_lease_store_lock` of `src/hub/leases.rs` on the text of the lock file, for one process
with no other at work and no failing file-system call.

A holder that stops while it writes leaves a prefix of its payload. The payload is ASCII, so a prefix
of its bytes is one of its characters.

Does not own: the competition for the lock.
-/

namespace Mcpace.Hub.LeaseLock

open Json Library List Option JsonValue

section Model

variable (serializer : Serializer)

def lockPayload (pid createdAtMs : Nat) : String :=
  serializer.toPrettyString
    (.ofEntries [("pid", .ofNat pid), ("createdAtMs", .ofNat createdAtMs)])

def lockCreatedAtMs (raw : String) : Option Nat :=
  match serializer.parseStr raw with
  | .ok value => Lease.numberU128At value ["createdAtMs"]
  | .error _ => none

/-- `remove_stale_lease_store_lock`: whether the file was removed. -/
def removeStaleLeaseStoreLock (nowMs : Nat) (raw : String) : Bool :=
  match lockCreatedAtMs serializer raw with
  | none => false
  | some createdAtMs => !decide (nowMs - createdAtMs ≤ leaseLockStaleMs)

inductive Acquisition where
  | guard
  | busy
deriving DecidableEq, Repr

/-- The attempts that are left; the clock is read when a lock file is inspected. -/
def acquireWithin (clock : Nat → Nat) : Nat → Option String → Acquisition
  | 0, _ => .busy
  | _ + 1, none => .guard
  | attempts + 1, some raw =>
    if removeStaleLeaseStoreLock serializer (clock attempts) raw then
      acquireWithin clock attempts none
    else acquireWithin clock attempts (some raw)

def acquireLeaseStoreLock (clock : Nat → Nat) (file : Option String) : Acquisition :=
  acquireWithin serializer clock leaseLockAttempts file

/-- The serializer's number type on an unsigned integer: one of 64 bits is printed as it is, a larger
one as a double, which does not parse as an integer. -/
def PrintsInteger (value : Nat) : Prop :=
  if value < 2 ^ 64 then serializer.renumber (toString value) = some (toString value)
  else ∃ printed, serializer.renumber (toString value) = some printed ∧
    (serializer.renumber printed).bind (Text.parseUnsigned 128) = none

end Model

section Recovery

variable {serializer : Serializer} {pid createdAtMs : Nat} {printed : String}

/-! ### The payload -/

theorem lockCreatedAtMs_eq (serializer : Serializer) (raw : String) :
    lockCreatedAtMs serializer raw =
      (serializer.document raw).bind (Lease.numberU128At · ["createdAtMs"]) := by
  rw [lockCreatedAtMs]
  have grammar := serializer.grammar raw
  cases read : serializer.parseStr raw with
  | ok value => rw [(grammar value).mp read, bind_some]
  | error _ =>
    cases found : serializer.document raw with
    | none => rfl
    | some value =>
      rw [Serializer.parseStr, (grammar value).mpr found] at read
      cases read

section

variable (exactPid : serializer.renumber (toString pid) = some (toString pid))

include exactPid

section

variable (isTime : serializer.renumber (toString createdAtMs) = some printed)

include isTime

theorem reload_payload :
    (ofEntries [("pid", .ofNat pid), ("createdAtMs", .ofNat createdAtMs)]).reload
        serializer.renumber =
      .object [("createdAtMs", .number printed), ("pid", .number (toString pid))] := by
  have sorted : ofEntries [("pid", .ofNat pid), ("createdAtMs", .ofNat createdAtMs)] =
      .object [("createdAtMs", .ofNat createdAtMs), ("pid", .ofNat pid)] := by
    simp [ofEntries, OrderedMap.ofList, OrderedMap.insert, (by decide : "createdAtMs" < "pid")]
  rw [sorted]
  simp only [reload, reloadEntries, ofNat, reloadNumber, exactPid, isTime]

theorem lockCreatedAtMs_lockPayload :
    lockCreatedAtMs serializer (lockPayload serializer pid createdAtMs) =
      (serializer.renumber printed).bind (Text.parseUnsigned 128) := by
  rw [lockCreatedAtMs_eq, NumberType.document, lockPayload, serializer.readText_toPrettyString,
    reload_payload exactPid isTime, filter_some_pos (by
      simp [nesting, nestingOfEntries, nestingLimit]), bind_some]
  cases again : serializer.renumber printed with
  | none => simp [NumberType.load, NumberType.loadEntries, again]
  | some text =>
    simp only [NumberType.load, NumberType.loadEntries, again, exactPid, map_some, bind_some]
    show ((OrderedMap.get "createdAtMs" (OrderedMap.ofList _)).bind some).bind asU128 = _
    rw [OrderedMap.get_ofList_of_nodup _ (by simp [OrderedMap.keys])]
    rfl

/-- The payload is an object whose only closing brace is its last character. -/
theorem exists_body :
    ∃ body, (lockPayload serializer pid createdAtMs).toList = '{' :: (body ++ ['}']) ∧
      '}' ∉ body := by
  have noBrace : ∀ {text number : String}, serializer.renumber text = some number →
      '}' ∉ number.toList := by
    intro text number isNumber inNumber
    exact absurd ((serializer.literal isNumber).2 _ inNumber) (by decide)
  rw [lockPayload, serializer.toList_toPrettyString, reload_payload exactPid isTime]
  refine ⟨Layout.pretty.indent 1 ++ (quoted "createdAtMs" ++ (':' :: (Layout.pretty.behindColon ++
    printed.toList))) ++ ((',' :: (Layout.pretty.indent 1 ++ (quoted "pid" ++ (':' ::
      (Layout.pretty.behindColon ++ (toString pid).toList))))) ++ Layout.pretty.indent 0), ?_, ?_⟩
  · simp only [render, renderEntries, joined, flatMap_cons, flatMap_nil,
      append_nil, List.append_assoc]
  · simp only [mem_append, mem_cons, noBrace isTime, noBrace exactPid, or_false]
    decide

end

end

/-- What is written of a payload before its end does not parse. -/
theorem lockCreatedAtMs_of_unfinished {content payload : String} {body : List Char}
    (shape : payload.toList = '{' :: (body ++ ['}'])) (noBrace : '}' ∉ body)
    (left : content.toList <+: payload.toList) (unfinished : content ≠ payload) :
    lockCreatedAtMs serializer content = none := by
  have unread : readText content.toList = none := by
    cases opened : content.toList with
    | nil => rfl
    | cons first rest =>
      rw [opened, shape, cons_prefix_cons] at left
      have within : rest <+: body := by
        rcases prefix_concat_iff.mp left.2 with whole | inside
        · rw [left.1, whole, ← shape] at opened
          exact absurd (String.toList_inj.mp opened) unfinished
        · exact inside
      rw [left.1, readText]
      cases found : readValue (('{' :: rest).length + 1) ('{' :: rest) with
      | none => rfl
      | some read => exact absurd (within.subset (brace_mem_of_readValue found)) noBrace
  rw [lockCreatedAtMs_eq, NumberType.document, unread]
  rfl

/-! ### The attempts -/

theorem acquireWithin_of_none {raw : String} (untimed : lockCreatedAtMs serializer raw = none)
    (clock : Nat → Nat) (attempts : Nat) :
    acquireWithin serializer clock attempts (some raw) = .busy := by
  induction attempts with
  | zero => rfl
  | succ attempts ih =>
    rw [acquireWithin, removeStaleLeaseStoreLock, untimed, if_neg Bool.false_ne_true]
    exact ih

/-- A late call takes over an abandoned lock exactly when its payload was written to the end, with a
time that is printed as an integer. -/
theorem acquireLeaseStoreLock_abandoned_iff (isPid : pid < 2 ^ 32)
    (printsPid : PrintsInteger serializer pid) (printsTime : PrintsInteger serializer createdAtMs)
    {content : String} (left : content.toList <+: (lockPayload serializer pid createdAtMs).toList)
    {clock : Nat → Nat} (late : ∀ attempt, createdAtMs + leaseLockStaleMs < clock attempt) :
    acquireLeaseStoreLock serializer clock (some content) = .guard ↔
      content = lockPayload serializer pid createdAtMs ∧ createdAtMs < 2 ^ 64 := by
  rw [PrintsInteger, if_pos (by omega)] at printsPid
  have untimed : lockCreatedAtMs serializer content = none →
      acquireLeaseStoreLock serializer clock (some content) ≠ .guard := by
    intro none
    rw [acquireLeaseStoreLock, acquireWithin_of_none none]
    nofun
  by_cases fits : createdAtMs < 2 ^ 64
  · rw [PrintsInteger, if_pos fits] at printsTime
    by_cases whole : content = lockPayload serializer pid createdAtMs
    · refine iff_of_true ?_ ⟨whole, fits⟩
      have read : lockCreatedAtMs serializer content = some createdAtMs := by
        rw [whole, lockCreatedAtMs_lockPayload printsPid printsTime, printsTime, bind_some]
        exact Text.parseUnsigned_toString (by omega)
      have stale : ∀ attempt, removeStaleLeaseStoreLock serializer (clock attempt) content = true := by
        intro attempt
        have old := late attempt
        rw [removeStaleLeaseStoreLock, read, Bool.not_eq_true', decide_eq_false_iff_not]
        omega
      have attempts : leaseLockAttempts = leaseLockAttempts - 2 + 1 + 1 := rfl
      rw [acquireLeaseStoreLock, attempts, acquireWithin, if_pos (stale _)]
      rfl
    · obtain ⟨body, shape, noBrace⟩ := exists_body printsPid printsTime
      exact iff_of_false (untimed (lockCreatedAtMs_of_unfinished shape noBrace left whole))
        (fun complete => whole complete.1)
  · rw [PrintsInteger, if_neg fits] at printsTime
    obtain ⟨printed, isTime, unparsed⟩ := printsTime
    refine iff_of_false (untimed ?_) (fun complete => fits complete.2)
    by_cases whole : content = lockPayload serializer pid createdAtMs
    · rw [whole, lockCreatedAtMs_lockPayload printsPid isTime, unparsed]
    · obtain ⟨body, shape, noBrace⟩ := exists_body printsPid isTime
      exact lockCreatedAtMs_of_unfinished shape noBrace left whole

end Recovery

theorem acquireLeaseStoreLock_completePayload :
    acquireLeaseStoreLock roundingSerializer (fun _ => 40000)
      (some (lockPayload roundingSerializer 7 1000)) = .guard := by
  refine (acquireLeaseStoreLock_abandoned_iff (by decide) ?_ ?_ (prefix_refl _)
    (fun _ => by decide)).mpr ⟨rfl, by decide⟩
  · rw [PrintsInteger, if_pos (by decide)]
    decide
  · rw [PrintsInteger, if_pos (by decide)]
    decide

/-- The holder stopped between creating the file and writing to it. -/
theorem emptyLock_busy : "".toList <+: (lockPayload roundingSerializer 7 1000).toList ∧
    acquireLeaseStoreLock roundingSerializer (fun _ => 40000) (some "") = .busy :=
  ⟨List.nil_prefix, acquireWithin_of_none rfl _ _⟩

end Mcpace.Hub.LeaseLock
