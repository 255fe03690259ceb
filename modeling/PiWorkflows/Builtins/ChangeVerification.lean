import PiWorkflows.Js.Text
import PiWorkflows.Js.Value

/-!
# Classifying a verification (`builtins/change-verification.workflow.ts`)

The checks of a change are run on the candidate and, where that is allowed, on
its base. `classifyVerification` compares the two results of each check and files
the check as a failure of the change, as one that was there before, as one the
change repairs or as one it cannot attribute; a check that passes on both is not
filed at all. The route of the workflow follows from what was filed.

The source pushes each finding to the list of its kind. A check has one finding
at most, so the lists are the findings of the checks in order, taken by kind.

What a command printed is a text. A capture that was cut off is marked as such,
also where the cut went through a character.
-/

namespace PiWorkflows.ChangeVerification

/-! ## The data -/

/-- `CommandBatchItemOutcome`. -/
inductive CommandBatchItemOutcome where
  | succeeded
  | failed
  | timedOut
  | cancelled
  deriving DecidableEq, Repr

def CommandBatchItemOutcome.text : CommandBatchItemOutcome → String
  | .succeeded => "succeeded"
  | .failed => "failed"
  | .timedOut => "timedOut"
  | .cancelled => "cancelled"

/-- `CommandBatchItemResult`. -/
structure CommandBatchItemResult where
  id : String
  command : String
  args : List String
  cwd : String
  stdout : String
  stderr : String
  exitCode : Option Int
  signal : Option String
  durationMs : Nat
  outcome : CommandBatchItemOutcome
  stdoutTruncated : Bool
  stderrTruncated : Bool
  error : Option String

/-- `CommandBatchResult`. -/
structure CommandBatchResult where
  items : List CommandBatchItemResult
  completed : Nat
  total : Nat

/-- `FindingFormat`. -/
inductive FindingFormat where
  | text
  | json
  deriving DecidableEq, Repr

/-- `MechanicalFix`. -/
structure MechanicalFix where
  command : String
  args : List String
  files : List String
  timeoutMs : Nat
  maxOutputChars : Nat
  expectedDiff : String

/-- `VerificationCheck`. -/
structure VerificationCheck where
  id : String
  command : String
  args : List String
  cwd : String
  timeoutMs : Nat
  maxOutputChars : Nat
  readOnly : Bool
  baseEligible : Bool
  changedFileScope : Bool
  findingFormat : FindingFormat
  mechanicalFix : Option MechanicalFix

/-- The `kind` of a finding. -/
inductive FindingKind where
  | related
  | unrelated
  | fixedBaseline
  | unknown
  | untested
  deriving DecidableEq, Repr

/-- `VerificationFinding`. -/
structure VerificationFinding where
  checkId : String
  kind : FindingKind
  summary : String
  fingerprint : String
  candidateOutputRef : Option String
  baseOutputRef : Option String

/-- The `kind` of a repair attempt. -/
inductive RepairKind where
  | mechanical
  | semantic
  | judgment
  deriving DecidableEq, Repr

/-- `RepairAttempt`. -/
structure RepairAttempt where
  attempt : Nat
  kind : RepairKind
  fingerprint : String
  changedFiles : List String
  result : String

/-- `PreparedWorkspaceMode`. -/
inductive PreparedWorkspaceMode where
  | branch
  | worktree
  | defaultBranch
  deriving DecidableEq, Repr

/-- `PreparedWorkspace`. -/
structure PreparedWorkspace where
  mode : PreparedWorkspaceMode
  repository : String
  worktreePath : Option String
  baseBranch : String
  baseRevision : String
  workBranch : String
  directDefaultBranchAuthorized : Bool
  preExistingChangedPaths : List String
  evidence : List String
  scope : String

/-- `ChangeVerificationInput`. The plan only goes into prompts. -/
structure ChangeVerificationInput where
  originatingWorkflow : String
  qualifiedNode : String
  workspace : PreparedWorkspace
  checks : Option (List VerificationCheck)
  changedFiles : Option (List String)
  untested : Option (List String)
  maxConcurrency : Option Nat

/-- The `route` of a result. -/
inductive VerificationRoute where
  | ready
  | repairable
  | needsJudgment
  | blocked
  deriving DecidableEq, Repr

/-- `ChangeVerificationResult`. -/
structure ChangeVerificationResult where
  route : VerificationRoute
  originatingWorkflow : String
  qualifiedNode : String
  workspace : PreparedWorkspace
  changedFiles : List String
  candidateCommands : Option CommandBatchResult
  baseCommands : Option CommandBatchResult
  relatedFailures : List VerificationFinding
  unrelatedFailures : List VerificationFinding
  fixedBaselineFailures : List VerificationFinding
  unknownFailures : List VerificationFinding
  untestedChecks : List VerificationFinding
  repairAttempts : List RepairAttempt
  failureFingerprint : String
  outputReferences : List String
  reason : String
  evidence : List String

/-- `ExecutionState`. -/
structure ExecutionState where
  checks : List VerificationCheck
  candidate : CommandBatchResult
  base : CommandBatchResult
  baseEvidence : List String
  cleanupEvidence : List String
  repairAttempts : List RepairAttempt

/-- `candidateRoot`. -/
def candidateRoot (workspace : PreparedWorkspace) : String :=
  workspace.worktreePath.getD workspace.repository

/-! ## One result -/

/-- `resultComplete`. -/
def resultComplete (result : CommandBatchItemResult) : Bool :=
  result.outcome ≠ .timedOut && result.outcome ≠ .cancelled && !result.stdoutTruncated &&
    !result.stderrTruncated && !(result.outcome = .failed && result.exitCode = none)

/-- `resultPassed`. -/
def resultPassed : Option CommandBatchItemResult → Bool
  | none => false
  | some result =>
      resultComplete result && result.outcome = .succeeded && result.exitCode = some 0

/-- What a replacement text stands for where `matched` was found between `before` and `after`
(`GetSubstitution`, for a pattern without groups). -/
def substitution (matched before after : List Char) : List Char → List Char
  | '$' :: c :: rest =>
      if c = '$' then '$' :: substitution matched before after rest
      else if c = '&' then matched ++ substitution matched before after rest
      -- the grave accent and the apostrophe
      else if c.toNat = 0x60 then before ++ substitution matched before after rest
      else if c.toNat = 0x27 then after ++ substitution matched before after rest
      else '$' :: substitution matched before after (c :: rest)
  | c :: rest => c :: substitution matched before after rest
  | [] => []

/-- The rest of a text with every further place of the pattern replaced, with what was passed
over so far and the characters still to be passed over that belong to the place found last. -/
def replacedFrom (pattern replacement : List Char) (before : List Char) :
    Nat → List Char → List Char
  | _, [] =>
      if pattern = [] then substitution pattern before [] replacement else []
  | skip + 1, c :: rest => replacedFrom pattern replacement (before ++ [c]) skip rest
  | 0, c :: rest =>
      if pattern = [] then
        substitution pattern before (c :: rest) replacement ++
          c :: replacedFrom pattern replacement (before ++ [c]) 0 rest
      else if pattern.isPrefixOf (c :: rest) then
        substitution pattern before ((c :: rest).drop pattern.length) replacement ++
          replacedFrom pattern replacement (before ++ [c]) (pattern.length - 1) rest
      else c :: replacedFrom pattern replacement (before ++ [c]) 0 rest

/-- `text.replaceAll(pattern, replacement)`. -/
def replaceAll (pattern replacement text : String) : String :=
  String.ofList (replacedFrom pattern.toList replacement.toList [] 0 text.toList)

/-- `normalizeText`. -/
def normalizeText (value basePath candidatePath : String) : String :=
  replaceAll basePath candidatePath (replaceAll "\r\n" "\n" value)

/-- `text.trim()`. -/
def trimUnits (text : CodeUnits) : CodeUnits :=
  let spaced (u : UInt16) := isTrimmed (unitChar u)
  ((text.dropWhile spaced).reverse.dropWhile spaced).reverse

/-- `requireString(requireRecord(entry).id)`. -/
def findingId : JsTree → Option CodeUnits
  | .obj members =>
      match members.lookup (units "id") with
      | some (.str text) => if trimUnits text = [] then none else some (trimUnits text)
      | _ => none
  | _ => none

/-- `stableFindings`. -/
def stableFindings (result : CommandBatchItemResult) (format : FindingFormat) :
    Option (List CodeUnits) :=
  if format = .json then
    match JsTree.parse result.stdout with
    | some (.arr entries) =>
        (entries.mapM findingId).map fun ids => ids.mergeSort fun a b => unitRank a ≤ unitRank b
    | _ => none
  else none

def textTree (text : String) : JsTree :=
  .str (units text)

/-- `number | null` in JSON. -/
def exitCodeTree : Option Int → JsTree
  | none => .null
  | some code => .num (.ofInt code)

/-- `string | null` in JSON. -/
def signalTree : Option String → JsTree
  | none => .null
  | some signal => textTree signal

/-- What `resultFingerprint` takes the digest of. -/
def fingerprintSource (result : CommandBatchItemResult) (check : VerificationCheck)
    (basePath candidatePath : String) : JsTree :=
  match stableFindings result check.findingFormat with
  | none =>
      .obj
        [(units "outcome", textTree result.outcome.text),
          (units "exitCode", exitCodeTree result.exitCode),
          (units "signal", signalTree result.signal),
          (units "stdout", textTree (normalizeText result.stdout basePath candidatePath)),
          (units "stderr", textTree (normalizeText result.stderr basePath candidatePath)),
          (units "stdoutTruncated", .bool result.stdoutTruncated),
          (units "stderrTruncated", .bool result.stderrTruncated)]
  | some ids =>
      .obj
        [(units "outcome", textTree result.outcome.text),
          (units "exitCode", exitCodeTree result.exitCode),
          (units "ids", .arr (ids.map .str))]

section

variable (sha256 : String → String)

/-- `resultFingerprint`. -/
def resultFingerprint (result : Option CommandBatchItemResult) (check : VerificationCheck)
    (basePath candidatePath : String) : String :=
  match result with
  | none => "missing"
  | some result => sha256 (fingerprintSource result check basePath candidatePath).text

/-- `finding`. -/
def finding (check : VerificationCheck) (kind : FindingKind) (summary fingerprint : String)
    (candidate base : Option CommandBatchItemResult) : VerificationFinding where
  checkId := check.id
  kind := kind
  summary := summary
  fingerprint := fingerprint
  candidateOutputRef := candidate.map fun result => s!"candidate:{result.id}"
  baseOutputRef := base.map fun result => s!"base:{result.id}"

/-! ## The checks -/

/-- `new Map(items.map((item) => [item.id, item])).get(id)`: a later result of the same id
stands for the earlier ones. -/
def resultOf (items : List CommandBatchItemResult) (id : String) : Option CommandBatchItemResult :=
  items.reverse.find? fun item => item.id = id

/-- The path of the base worktree. -/
def baseRoot (input : ChangeVerificationInput) (state : ExecutionState) : String :=
  (state.base.items.head?.map CommandBatchItemResult.cwd).getD (candidateRoot input.workspace)

/-- What the two results of a check that has both come to. -/
def comparedFinding (check : VerificationCheck) (candidateResult baseResult : CommandBatchItemResult)
    (candidateFingerprint baseFingerprint : String) : Option VerificationFinding :=
  let candidatePass := resultPassed (some candidateResult)
  let basePass := resultPassed (some baseResult)
  if candidatePass && !basePass then
    some (finding check .fixedBaseline "The candidate fixes a failure present on the base."
      baseFingerprint (some candidateResult) (some baseResult))
  else if !candidatePass && basePass then
    some (finding check .related "The failure appears only on the candidate."
      candidateFingerprint (some candidateResult) (some baseResult))
  else if !candidatePass && !basePass && candidateFingerprint = baseFingerprint then
    some (finding check .unrelated "The same failure is present on the candidate and base."
      candidateFingerprint (some candidateResult) (some baseResult))
  else if !candidatePass && !basePass then
    some (finding check .unknown "Candidate and base both fail differently."
      s!"{candidateFingerprint}:{baseFingerprint}" (some candidateResult) (some baseResult))
  else none

/-- One round of the loop of `classifyVerification`. -/
def checkFinding (input : ChangeVerificationInput) (state : ExecutionState)
    (check : VerificationCheck) : Option VerificationFinding :=
  let root := candidateRoot input.workspace
  let candidate := resultOf state.candidate.items check.id
  let base := resultOf state.base.items check.id
  let candidateFingerprint := resultFingerprint sha256 candidate check root root
  let baseFingerprint := resultFingerprint sha256 base check (baseRoot input state) root
  match candidate.filter resultComplete with
  | none =>
      some (finding check .unknown
        "Candidate result is missing, cancelled, timed out, truncated, or incomplete."
        candidateFingerprint candidate base)
  | some candidateResult =>
      if !check.baseEligible || !check.readOnly then
        if resultPassed candidateResult then none
        else some (finding check .unknown
          "Candidate-only check failed; base comparison is unavailable."
          candidateFingerprint candidate none)
      else
        match base.filter resultComplete with
        | none =>
            if resultPassed candidateResult then none
            else some (finding check .unknown "Base comparison was unavailable or incomplete."
              s!"{candidateFingerprint}:{baseFingerprint}" candidate base)
        | some baseResult =>
            comparedFinding check candidateResult baseResult candidateFingerprint baseFingerprint

/-! ## The whole verification -/

/-- `texts.sort()`. -/
def sortTexts (texts : List String) : List String :=
  texts.mergeSort fun a b => keyRank a ≤ keyRank b

/-- `state.repairAttempts.find((attempt) => ...)`. -/
def rejectedRepair (attempts : List RepairAttempt) : Option RepairAttempt :=
  attempts.find? fun attempt =>
    "Rejected mechanical fixer:".toList.isPrefixOf attempt.result.toList

/-- `state.cleanupEvidence.some((item) => item.includes("failed"))`. -/
def cleanupFailed (cleanupEvidence : List String) : Bool :=
  cleanupEvidence.any fun item =>
    item.toList.tails.any fun suffix => "failed".toList.isPrefixOf suffix

/-- The finding about the temporary worktree, if it could not be removed. -/
def cleanupFinding (cleanupEvidence : List String) : Option VerificationFinding :=
  if cleanupFailed cleanupEvidence then
    some {
      checkId := "base-cleanup"
      kind := .unknown
      summary := "Temporary base worktree cleanup failed."
      fingerprint := sha256 ("\n".intercalate cleanupEvidence)
      candidateOutputRef := none
      baseOutputRef := none }
  else none

/-- The finding about a rejected fixer, if there is one. -/
def boundaryFinding (attempts : List RepairAttempt) : Option VerificationFinding :=
  (rejectedRepair attempts).map fun attempt => {
    checkId := "mechanical-fix-boundary"
    kind := .unknown
    summary := attempt.result
    fingerprint := sha256 attempt.result
    candidateOutputRef := none
    baseOutputRef := none }

/-- The findings about what was not tested. -/
def untestedFindings (untested : List String) : List VerificationFinding :=
  untested.mapIdx fun index summary => {
    checkId := s!"untested-{index + 1}"
    kind := .untested
    summary := summary
    fingerprint := sha256 summary
    candidateOutputRef := none
    baseOutputRef := none }

/-- The findings of one kind, in the order of the checks. -/
def findingsOf (input : ChangeVerificationInput) (state : ExecutionState) (kind : FindingKind) :
    List VerificationFinding :=
  (state.checks.filterMap (checkFinding sha256 input state)).filter fun found => found.kind = kind

def fingerprintsTree (findings : List VerificationFinding) : JsTree :=
  .arr ((sortTexts (findings.map VerificationFinding.fingerprint)).map textTree)

/-- The `reason` of a route. -/
def VerificationRoute.reason : VerificationRoute → String
  | .ready => "All current-change checks passed; baseline failures remain visible."
  | .repairable => "Current-change failures have a bounded repair path."
  | .needsJudgment => "Complete evidence needs bounded attribution or repair judgment."
  | .blocked => "Verification could not continue safely."

/-- `classifyVerification`. -/
def classifyVerification (input : ChangeVerificationInput) (state : ExecutionState) :
    ChangeVerificationResult :=
  let related := findingsOf sha256 input state .related
  let unknown := findingsOf sha256 input state .unknown ++
    (cleanupFinding sha256 state.cleanupEvidence).toList ++
    (boundaryFinding sha256 state.repairAttempts).toList
  let untested := untestedFindings sha256 (input.untested.getD [])
  let route : VerificationRoute :=
    if (rejectedRepair state.repairAttempts).isSome then .blocked
    else if unknown ≠ [] ∨ untested ≠ [] then .needsJudgment
    else if related = [] then .ready
    else .repairable
  { route := route
    originatingWorkflow := input.originatingWorkflow
    qualifiedNode := input.qualifiedNode
    workspace := input.workspace
    changedFiles := input.changedFiles.getD []
    candidateCommands := some state.candidate
    baseCommands := some state.base
    relatedFailures := related
    unrelatedFailures := findingsOf sha256 input state .unrelated
    fixedBaselineFailures := findingsOf sha256 input state .fixedBaseline
    unknownFailures := unknown
    untestedChecks := untested
    repairAttempts := state.repairAttempts
    failureFingerprint := sha256 (JsTree.obj
      [(units "related", fingerprintsTree related), (units "unknown", fingerprintsTree unknown),
        (units "untested", fingerprintsTree untested)]).text
    outputReferences :=
      state.candidate.items.map (fun item => s!"candidate:{item.id}") ++
        state.base.items.map fun item => s!"base:{item.id}"
    reason := route.reason
    evidence := state.baseEvidence ++ state.cleanupEvidence }

end

end PiWorkflows.ChangeVerification
