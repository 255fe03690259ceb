import PiWorkflows.Workflows.DecisionPresentation

/-!
# Decisions as Telegram messages (`channels/telegram.ts`)

A decision is written as one text, segment by segment, and the text is cut into
messages of at most 4,096 code units. A cut is made at the last line break of the
window if that is in its second half, and after the whole window otherwise.
-/

namespace PiWorkflows

/-- `HumanDecisionChoice`, with the prompt of its input. -/
structure DecisionChoice where
  label : CodeUnits
  prompt : Option CodeUnits

/-- The parts of a `HumanDecisionChannelRequest` that are written out. -/
structure HumanDecisionChannelRequest where
  title : CodeUnits
  presentation : DecisionPresentation
  choices : List (CodeUnits × DecisionChoice)
  expiresAt : Option CodeUnits
  /-- `defaultResponse.choice`. -/
  defaultChoice : Option CodeUnits

/-! ## Segments (`decision-presentation.ts`) -/

inductive SegmentKind where
  | title
  | summary
  | paragraph
  | sectionTitle
  | bullets
  | fields
  | preformatted
  | choices

/-- `DecisionDocumentSegment`. -/
structure DecisionDocumentSegment where
  kind : SegmentKind
  text : CodeUnits

/-- `parts.join(sep)`. -/
def joinUnits (sep : String) (parts : List CodeUnits) : CodeUnits :=
  (units sep).intercalate parts

def PresentationBlock.segment : PresentationBlock → DecisionDocumentSegment
  | .paragraph text => ⟨.paragraph, text⟩
  | .sectionTitle title => ⟨.sectionTitle, title⟩
  | .bullets items => ⟨.bullets, joinUnits "\n" (items.map fun item => units "• " ++ item)⟩
  | .fields items => ⟨.fields, joinUnits "\n" (items.map fun e => e.1 ++ units ": " ++ e.2)⟩
  | .preformatted text => ⟨.preformatted, text⟩

/-- The paragraph on what happens when nobody answers. -/
def expirySegment (request : HumanDecisionChannelRequest) : Option DecisionDocumentSegment :=
  match request.expiresAt, request.defaultChoice with
  | some expiresAt, some choice =>
      let selected := (request.choices.lookup choice).map DecisionChoice.label
      some ⟨.paragraph, units "If no answer is accepted by " ++ expiresAt ++
        units ", this decision continues automatically with: " ++ selected.getD choice ++
        units "."⟩
  | _, _ => none

def DecisionChoice.text (choice : DecisionChoice) : CodeUnits :=
  match choice.prompt with
  | none => units "• " ++ choice.label
  | some prompt => units "• " ++ choice.label ++ units "\n  " ++ prompt

/-- `decisionDocumentSegments`. -/
def decisionDocumentSegments (request : HumanDecisionChannelRequest) :
    List DecisionDocumentSegment :=
  [⟨.title, request.title⟩, ⟨.summary, request.presentation.summary⟩] ++
    request.presentation.blocks.map PresentationBlock.segment ++ (expirySegment request).toList ++
    [⟨.choices, units "Choices\n" ++ joinUnits "\n" (request.choices.map fun e => e.2.text)⟩]

/-- `renderDecisionText`. -/
def renderDecisionText (request : HumanDecisionChannelRequest) : CodeUnits :=
  joinUnits "\n\n" ((decisionDocumentSegments request).map DecisionDocumentSegment.text)

/-! ## Parts -/

def TELEGRAM_TEXT_LIMIT : Nat := 4096

/-- `text.lastIndexOf(pattern)`, of a pattern that is not empty. -/
def lastIndexOf (pattern : CodeUnits) : CodeUnits → Int
  | [] => -1
  | u :: rest =>
      let index := lastIndexOf pattern rest
      if 0 ≤ index then index + 1 else if pattern <+: u :: rest then 0 else -1

/-- Where the next part ends. -/
def telegramCut (remaining : CodeUnits) : Nat :=
  let window := remaining.take TELEGRAM_TEXT_LIMIT
  let boundary := max (lastIndexOf (units "\n\n") window) (lastIndexOf (units "\n") window)
  if boundary > (TELEGRAM_TEXT_LIMIT / 2 : Nat) then boundary.toNat else TELEGRAM_TEXT_LIMIT

/-- What remains after the next part. -/
def afterCut (remaining : CodeUnits) : CodeUnits :=
  (remaining.drop (telegramCut remaining)).dropWhile (· = 10)

theorem telegramCut_pos (remaining : CodeUnits) : 0 < telegramCut remaining := by
  unfold telegramCut
  dsimp only
  split
  · next h =>
      have hhalf : (0 : Int) ≤ (TELEGRAM_TEXT_LIMIT / 2 : Nat) := Int.natCast_nonneg _
      omega
  · decide

theorem afterCut_lt {remaining : CodeUnits} (h : TELEGRAM_TEXT_LIMIT < remaining.length) :
    (afterCut remaining).length < remaining.length := by
  have hdrop : (afterCut remaining).length ≤ (remaining.drop (telegramCut remaining)).length :=
    (List.dropWhile_sublist _).length_le
  have hpos := telegramCut_pos remaining
  rw [List.length_drop] at hdrop
  omega

/-- The loop of `renderTelegramParts`. -/
def telegramRounds (remaining : CodeUnits) : List CodeUnits :=
  if _h : TELEGRAM_TEXT_LIMIT < remaining.length then
    remaining.take (telegramCut remaining) :: telegramRounds (afterCut remaining)
  else if 0 < remaining.length then [remaining]
  else []
termination_by remaining.length
decreasing_by exact afterCut_lt ‹_›

/-- `renderTelegramParts`. -/
def renderTelegramParts (request : HumanDecisionChannelRequest) : List CodeUnits :=
  let text := renderDecisionText request
  if text.length ≤ TELEGRAM_TEXT_LIMIT then [text] else telegramRounds text

end PiWorkflows
