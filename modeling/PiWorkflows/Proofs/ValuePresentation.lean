import PiWorkflows.Proofs.GeneratedBlocks

/-!
# A presentation of any value

`valueDecisionPresentation` bounds what it generates and has it read. What it leaves
out it tells of, and the notice has its room in the budget from the start, so the
bounds of the reader hold. What the reader may refuse is a string of the value that
is shown on one line and is blank there or has a tab or a line feed: without such a
string every presentation is made (`presents_iff`).
-/

namespace PiWorkflows

/-! ## What is kept -/

theorem keepBlocks_eq (budget : Int) (kept : List PresentationBlock) (used : Nat) (omitted : Bool)
    (rest : List PresentationBlock) :
    ∃ sub, sub.Sublist rest ∧
      keepBlocks budget kept used omitted rest =
        (kept ++ sub, omitted || decide (sub.length < rest.length)) ∧
      (∀ block ∈ sub, block.fitsSchema = true) ∧
      (kept.length ≤ MAX_PRESENTATION_BLOCKS → (kept ++ sub).length ≤ MAX_PRESENTATION_BLOCKS) ∧
      (used ≤ budget → (used + (sub.map PresentationBlock.codeUnits).sum : Nat) ≤ budget) := by
  induction rest generalizing kept used omitted with
  | nil => exact ⟨[], .slnil, by simp [keepBlocks], by simp, by simp, by simp⟩
  | cons block rest ih =>
      by_cases hleft : MAX_PRESENTATION_BLOCKS ≤ kept.length ∨ block.fitsSchema = false ∨
          budget < used + block.codeUnits
      · obtain ⟨sub, hsub, hkeep, hfits, hcount, hused⟩ := ih kept used true
        refine ⟨sub, hsub.cons block, ?_, hfits, hcount, hused⟩
        have hshort : sub.length < (block :: rest).length := Nat.lt_succ_of_le hsub.length_le
        rw [keepBlocks, if_pos hleft, hkeep, decide_eq_true hshort, Bool.true_or, Bool.or_true]
      · obtain ⟨sub, hsub, hkeep, hfits, hcount, hused⟩ :=
          ih (kept ++ [block]) (used + block.codeUnits) omitted
        rw [not_or, not_or, Bool.not_eq_false] at hleft
        obtain ⟨hroom, hfit, hbudget⟩ := hleft
        refine ⟨block :: sub, hsub.cons_cons block, ?_, ?_, fun _ => ?_, fun _ => ?_⟩
        · rw [keepBlocks, if_neg (by simp [hfit]; omega), hkeep, List.append_assoc,
            List.singleton_append]
          simp
        · exact List.forall_mem_cons.2 ⟨hfit, hfits⟩
        · rw [List.append_assoc, List.singleton_append] at hcount
          exact hcount (by rw [List.length_append, List.length_singleton]; omega)
        · have hrest := hused (by omega)
          rw [List.map_cons, List.sum_cons]
          omega

namespace PresentationHost

variable {host : PresentationHost}

/-- What `boundValuePresentation` gives: all blocks, or fewer and the notice. -/
theorem bounded {summary : CodeUnits} {blocks : List PresentationBlock} {value : JsTree}
    {presentation : DecisionPresentation}
    (hbound : presentation = host.boundValuePresentation summary blocks value)
    (hroom : summary.length + (host.omissionNotice value blocks.length).length ≤
      MAX_PRESENTATION_CODE_UNITS)
    (hnotice : (host.omissionNotice value blocks.length).length ≤
      MAX_PRESENTATION_STRING_CODE_UNITS) :
    presentation.summary = summary ∧ presentation.blocks.length ≤ MAX_PRESENTATION_BLOCKS ∧
      (∀ block ∈ presentation.blocks, block.fitsSchema = true) ∧
      presentation.codeUnits ≤ MAX_PRESENTATION_CODE_UNITS ∧
      (presentation.blocks = blocks ∨ ∃ kept, kept.Sublist blocks ∧ kept.length < blocks.length ∧
        presentation.blocks =
          kept ++ [.paragraph (host.omissionNotice value blocks.length)]) := by
  by_cases hall : blocks.length ≤ MAX_PRESENTATION_BLOCKS ∧
      blocks.all PresentationBlock.fitsSchema = true ∧
      (DecisionPresentation.mk summary blocks).codeUnits ≤ MAX_PRESENTATION_CODE_UNITS
  · have hsame : presentation = ⟨summary, blocks⟩ := hbound.trans (if_pos hall)
    rw [hsame]
    exact ⟨rfl, hall.1, List.all_eq_true.1 hall.2.1, hall.2.2, .inl rfl⟩
  · obtain ⟨notice, hn⟩ : ∃ notice, host.omissionNotice value blocks.length = notice := ⟨_, rfl⟩
    rw [hn] at hroom hnotice ⊢
    obtain ⟨sub, hsub, hkeep, hfits, hcount, hused⟩ := keepBlocks_eq
      (MAX_PRESENTATION_CODE_UNITS - summary.length - notice.length) [] 0 false blocks
    rw [List.nil_append] at hkeep hcount
    have hcount' := hcount (Nat.zero_le _)
    have hused' := hused (by omega)
    have hbounded : presentation = ⟨summary,
        if decide (sub.length < blocks.length) = true then
          (if MAX_PRESENTATION_BLOCKS ≤ sub.length then sub.dropLast else sub) ++
            [.paragraph notice]
        else sub⟩ := by
      refine hbound.trans ((if_neg hall).trans ?_)
      simp only [hn, hkeep, Bool.false_or]
    by_cases hshort : sub.length < blocks.length
    · rw [if_pos (decide_eq_true hshort)] at hbounded
      have hfewer : ∃ kept, kept.Sublist sub ∧ kept.length < MAX_PRESENTATION_BLOCKS ∧
          presentation = ⟨summary,
            kept ++ [.paragraph notice]⟩ := by
        by_cases hfull : MAX_PRESENTATION_BLOCKS ≤ sub.length
        · rw [if_pos hfull] at hbounded
          refine ⟨sub.dropLast, List.dropLast_sublist sub, ?_, hbounded⟩
          rw [List.length_dropLast]
          simp only [MAX_PRESENTATION_BLOCKS] at hcount' ⊢
          omega
        · rw [if_neg hfull] at hbounded
          exact ⟨sub, List.Sublist.refl sub, by omega, hbounded⟩
      obtain ⟨kept, hkept, hroomy, hpresentation⟩ := hfewer
      have hsum : (kept.map PresentationBlock.codeUnits).sum ≤
          (sub.map PresentationBlock.codeUnits).sum :=
        (hkept.map PresentationBlock.codeUnits).sum_le_sum fun _ _ => Nat.zero_le _
      rw [hpresentation]
      refine ⟨rfl, ?_, ?_, ?_, .inr ⟨kept, hkept.trans hsub, ?_, rfl⟩⟩
      · rw [List.length_append, List.length_singleton]
        exact hroomy
      · intro block hblock
        rcases List.mem_append.1 hblock with hblock | hblock
        · exact hfits block (hkept.subset hblock)
        · rw [List.mem_singleton.1 hblock]
          exact decide_eq_true hnotice
      · simp only [DecisionPresentation.codeUnits, List.map_append, List.sum_append, List.map_cons,
          List.map_nil, List.sum_cons, List.sum_nil, PresentationBlock.codeUnits]
        omega
      · have hlength := hkept.length_le
        omega
    · have hsame : sub = blocks := hsub.eq_of_length_le (by omega)
      rw [hsame] at hcount' hused' hfits
      refine absurd ⟨hcount', List.all_eq_true.2 hfits, ?_⟩ hall
      simp only [DecisionPresentation.codeUnits]
      omega

/-! ## The notice -/

/-- The notice is plain text of a bounded length. -/
theorem omissionNotice_plain (host : PresentationHost) (value : JsTree) (generated : Nat) :
    ∃ text, host.omissionNotice value generated = units text ∧ IsPlain text ∧
      '.' ∈ text.toList ∧ text.length ≤ 400 := by
  have hdigest : IsPlain (host.digestCanonical value) :=
    (IsPlain.of_all (by decide)).append (plain_of_hex (host.sha256_hex _))
  have hopening : IsPlain omissionOpening := .of_all (by decide +kernel)
  have hvalue : IsPlain ". Original value: " := .of_all (by decide)
  have hunits : IsPlain " UTF-16 code units. Generated blocks: " := .of_all (by decide)
  have hend : IsPlain "." := .of_all (by decide)
  refine ⟨_, rfl, ?_, ?_, ?_⟩
  · exact (((((hopening.append hdigest).append hvalue).append (plain_lengthText _)).append
      hunits).append (plain_lengthText _)).append hend
  · rw [String.toList_append, List.mem_append]
    exact .inr (by decide)
  · have hopeningLength : omissionOpening.length ≤ 200 := by decide +kernel
    have hdigestLength : (host.digestCanonical value).length = 71 := by
      rw [digestCanonical, String.length_append, host.sha256_length]
      rfl
    have hvalueLength : (". Original value: " : String).length = 18 := rfl
    have hunitsLength : (" UTF-16 code units. Generated blocks: " : String).length = 38 := rfl
    have hendLength : ("." : String).length = 1 := rfl
    have hfirst := length_lengthText (utf16Length (presentedJson value))
    have hsecond := length_lengthText generated
    simp only [String.length_append]
    omega

/-! ## Every value -/

/-- The notice stands behind fewer blocks than were generated, or there is none behind them all. -/
def Noticed (host : PresentationHost) (value : JsTree) (presentation : DecisionPresentation) :
    Prop :=
  presentation.blocks = (host.generatedBlocks value).map host.normalForm ∨
    ∃ kept : List PresentationBlock, kept.Sublist (host.generatedBlocks value) ∧
      kept.length < (host.generatedBlocks value).length ∧
      presentation.blocks = kept.map host.normalForm ++
        [.paragraph (host.omissionNotice value (host.generatedBlocks value).length)]

/-- `valueDecisionPresentation` returns a presentation within every limit that tells of what it
leaves out, and what it is made of can be shown. -/
structure Presents (host : PresentationHost) (value : JsTree) : Prop where
  generated : ∀ block ∈ host.generatedBlocks value, block.Readable
  returned : ∃ presentation, host.valueDecisionPresentation value = .ok presentation ∧
    presentation.WithinLimits ∧ host.Noticed value presentation

/-- No string inside an array or an object is blank or has a tab or a line feed when it is
sanitised, unless it is too long to be shown on one line. -/
def InnerStringsShow (host : PresentationHost) (value : JsTree) : Prop :=
  ∀ s, .str s ∈ value.innerLeaves →
    (host.sanitize s).length ≤ MAX_PRESENTATION_STRING_CODE_UNITS → Displayable (host.sanitize s)

theorem plain_displayable {text : String} (h : IsPlain text)
    (hblank : isBlankText (units text) = false) : Displayable (units text) :=
  ⟨hblank, plain_visible h⟩

/-- The other scalars can always be shown on one line. -/
theorem inline_displayable {value x : JsTree} (h : host.InnerStringsShow value)
    (hx : x ∈ value.innerLeaves) {text : CodeUnits} (htext : host.inlineScalar x = some text) :
    Displayable text := by
  obtain ⟨hscalar, hlength⟩ := Option.filter_eq_some_iff.1 htext
  cases x with
  | null =>
      cases hscalar
      exact plain_displayable (.of_all (by decide)) (by decide)
  | bool b =>
      cases hscalar
      cases b with
      | true => exact plain_displayable (.of_all (by decide)) (by decide)
      | false => exact plain_displayable (.of_all (by decide)) (by decide)
  | num n =>
      cases hscalar
      have hplain := plain_number n
      rw [sanitize_of_settled (plain_settled hplain.1)]
      exact plain_displayable hplain.1 hplain.2
  | str s =>
      cases hscalar
      exact h s hx (of_decide_eq_true hlength)
  | arr items => cases hscalar
  | obj members => cases hscalar

theorem generated_readable {value : JsTree} (h : host.InnerStringsShow value) :
    ∀ block ∈ host.generatedBlocks value, block.Readable := by
  intro block hblock
  refine Generated.readable (generatedBlocks_generated value block hblock) fun text htext => ?_
  obtain ⟨x, hx, hscalar⟩ := inline_generatedBlocks.1 ⟨block, hblock, htext⟩
  exact inline_displayable h hx hscalar

theorem notice_generated (host : PresentationHost) (value : JsTree) (generated : Nat) :
    host.Generated (.paragraph (host.omissionNotice value generated)) := by
  obtain ⟨text, htext, hplain, hmem, -⟩ := omissionNotice_plain host value generated
  rw [htext]
  exact ⟨plain_settled hplain, plain_nonblank hplain hmem (by decide)⟩

theorem valueSummary_plain (value : JsTree) :
    ∃ text, valueSummary value = units text ∧ IsPlain text ∧
      isBlankText (units text) = false ∧ text.length ≤ 100 := by
  have hmessage : ∃ text, units "Review the decision message below." = units text ∧ IsPlain text ∧
      isBlankText (units text) = false ∧ text.length ≤ 100 :=
    ⟨_, rfl, .of_all (by decide), by decide, by decide⟩
  have hdetails : ∃ text, units "Review the decision details below." = units text ∧ IsPlain text ∧
      isBlankText (units text) = false ∧ text.length ≤ 100 :=
    ⟨_, rfl, .of_all (by decide), by decide, by decide⟩
  cases value with
  | str s => exact hmessage
  | null => exact hdetails
  | bool b => exact hdetails
  | num n => exact hdetails
  | arr items => exact hdetails
  | obj members => exact hdetails

/-- What is read has fewer blocks than were generated, and the notice, or all of them. -/
theorem boundedPresentation_spec (host : PresentationHost) (value : JsTree) :
    (host.boundedPresentation value).summary = valueSummary value ∧
      (host.boundedPresentation value).blocks.length ≤ MAX_PRESENTATION_BLOCKS ∧
      (∀ block ∈ (host.boundedPresentation value).blocks, block.fitsSchema = true) ∧
      (host.boundedPresentation value).codeUnits ≤ MAX_PRESENTATION_CODE_UNITS ∧
      ((host.boundedPresentation value).blocks = host.generatedBlocks value ∨
        ∃ kept : List PresentationBlock, kept.Sublist (host.generatedBlocks value) ∧
          kept.length < (host.generatedBlocks value).length ∧
          (host.boundedPresentation value).blocks = kept ++
            [.paragraph (host.omissionNotice value (host.generatedBlocks value).length)]) := by
  obtain ⟨summary, hsummary, hsummaryPlain, -, hsummaryLength⟩ := valueSummary_plain value
  obtain ⟨notice, hnotice, hnoticePlain, -, hnoticeLength⟩ :=
    omissionNotice_plain host value (host.generatedBlocks value).length
  have hsummaryUnits : (valueSummary value).length ≤ 100 := by
    rw [hsummary, length_units hsummaryPlain]
    exact hsummaryLength
  have hnoticeUnits :
      (host.omissionNotice value (host.generatedBlocks value).length).length ≤ 400 := by
    rw [hnotice, length_units hnoticePlain]
    exact hnoticeLength
  refine bounded rfl ?_ ?_
  · simp only [MAX_PRESENTATION_CODE_UNITS]
    omega
  · simp only [MAX_PRESENTATION_STRING_CODE_UNITS]
    omega

theorem bounded_noticed (value : JsTree) :
    host.Noticed value (host.normalPresentation (host.boundedPresentation value)) := by
  obtain ⟨-, -, -, -, hall | ⟨kept, hkept, hshort, hblocks⟩⟩ :=
    boundedPresentation_spec host value
  · exact .inl (congrArg (List.map host.normalForm) hall)
  · refine .inr ⟨kept, hkept, hshort, ?_⟩
    have hnotice := (notice_generated host value (host.generatedBlocks value).length).1
    show (host.boundedPresentation value).blocks.map host.normalForm = _
    rw [hblocks, List.map_append, List.map_singleton, normalForm, readText, hnotice.read]

theorem bounded_withinLimits {value : JsTree} (h : host.InnerStringsShow value) :
    (host.normalPresentation (host.boundedPresentation value)).WithinLimits := by
  obtain ⟨hsummary, hcount, hfits, htotal, hblocks⟩ := boundedPresentation_spec host value
  have hmade : ∀ block ∈ (host.boundedPresentation value).blocks,
      host.Generated block ∧ block.Readable := by
    have hall : ∀ block ∈ host.generatedBlocks value, host.Generated block ∧ block.Readable :=
      fun block hblock =>
        ⟨generatedBlocks_generated value block hblock, generated_readable h block hblock⟩
    rcases hblocks with hsame | ⟨kept, hkept, -, hkeep⟩
    · rw [hsame]
      exact hall
    · rw [hkeep]
      refine List.forall_mem_append.2 ⟨fun block hblock => hall block (hkept.subset hblock), ?_⟩
      have hnotice := notice_generated host value (host.generatedBlocks value).length
      rw [List.forall_mem_singleton]
      exact ⟨hnotice, hnotice.readable fun text htext => absurd htext List.not_mem_nil⟩
  have hread : ∀ block ∈ (host.boundedPresentation value).blocks,
      (host.normalForm block).Readable ∧ (host.normalForm block).fitsSchema = true ∧
        (host.normalForm block).codeUnits ≤ block.codeUnits := fun block hblock =>
    (hmade block hblock).1.read (hmade block hblock).2 (hfits block hblock)
  obtain ⟨summary, hplainSummary, hplain, hblank, hlength⟩ := valueSummary_plain value
  have hsame : host.readText (host.boundedPresentation value).summary = units summary := by
    rw [hsummary, hplainSummary]
    exact (plain_settled hplain).read
  refine ⟨?_, ?_, ?_, ?_, ?_, ?_⟩
  · rw [normalPresentation, hsame]
    exact plain_displayable hplain hblank
  · rw [normalPresentation, hsame, length_units hplain]
    simp only [MAX_PRESENTATION_STRING_CODE_UNITS]
    omega
  · rw [normalPresentation, List.length_map]
    exact hcount
  · intro block hblock
    obtain ⟨made, hmade, rfl⟩ := List.mem_map.1 hblock
    exact (hread made hmade).1
  · intro block hblock
    obtain ⟨made, hmade, rfl⟩ := List.mem_map.1 hblock
    exact (hread made hmade).2.1
  · have hsum := List.sum_le_sum fun block hblock => (hread block hblock).2.2
    rw [DecisionPresentation.codeUnits, hsummary, hplainSummary] at htotal
    rw [DecisionPresentation.codeUnits, normalPresentation, hsame, List.map_map]
    exact (Nat.add_le_add_left hsum _).trans htotal

/-- Every value is presented unless a string inside of it cannot be shown on one line. -/
theorem presents_iff (host : PresentationHost) (value : JsTree) :
    host.Presents value ↔ host.InnerStringsShow value := by
  constructor
  · intro h s hs hlength
    have hscalar : host.inlineScalar (.str s) = some (host.sanitize s) :=
      Option.filter_eq_some_iff.2 ⟨rfl, decide_eq_true hlength⟩
    obtain ⟨block, hblock, htext⟩ := inline_generatedBlocks.2 ⟨_, hs, hscalar⟩
    exact displayable_of_readable (h.generated block hblock) _ htext
  · intro h
    refine ⟨generated_readable h, _, normalizeDecisionPresentation_tree.2 ⟨rfl, ?_⟩, ?_, ?_⟩
    · exact bounded_withinLimits h
    · exact bounded_withinLimits h
    · exact bounded_noticed value

/-! ## A text that is empty -/

/-- The upper case of an ASCII letter. -/
def asciiUpperCase (u : UInt16) : CodeUnits :=
  if 97 ≤ u.toNat ∧ u.toNat ≤ 122 then [UInt16.ofNat (u.toNat - 32)] else [u]

theorem isBlankText_asciiUpperCase (u : UInt16) (hu : isSpaceUnit u = false) :
    isBlankText (asciiUpperCase u) = false := by
  unfold asciiUpperCase
  split
  · next hletter =>
      have hunit : (UInt16.ofNat (u.toNat - 32)).toNat = u.toNat - 32 :=
        toNat_ofNat_of_lt (by omega)
      have hspace : isSpaceUnit (UInt16.ofNat (u.toNat - 32)) = false :=
        isSpaceUnit_of_ascii (by omega) (by omega)
      rw [isBlankText, List.all_cons, hspace, Bool.false_and]
  · rw [isBlankText, List.all_cons, hu, Bool.false_and]

theorem hasControlCharacter_asciiUpperCase (u : UInt16) (hu : isControlCode u false = false) :
    hasControlCharacter (asciiUpperCase u) false = false := by
  unfold asciiUpperCase
  split
  · next hletter =>
      have hunit : (UInt16.ofNat (u.toNat - 32)).toNat = u.toNat - 32 :=
        toNat_ofNat_of_lt (by omega)
      have hdel : UInt16.ofNat (u.toNat - 32) ≠ 127 := fun heq => by
        rw [heq] at hunit
        have hvalue : (127 : UInt16).toNat = 127 := rfl
        omega
      rw [hasControlCharacter_false, List.forall_mem_singleton]
      simp only [isControlCode, Bool.false_and, Bool.false_eq_true, if_false,
        Bool.or_eq_false_iff, decide_eq_false_iff_not, beq_eq_false_iff_ne]
      exact ⟨by omega, hdel⟩
  · rw [hasControlCharacter_false, List.forall_mem_singleton]
    exact hu

/-- A text that is its own normal form. -/
def sameForm (s : CodeUnits) : CodeUnits := s

theorem sameForm_idem (s : CodeUnits) : sameForm (sameForm s) = sameForm s := rfl

theorem sameForm_part (s t : CodeUnits) (_hpart : t <:+: s) (_hs : sameForm s = s) :
    sameForm t = t := rfl

theorem sameForm_replace (s : CodeUnits) (_hs : sameForm s = s) :
    sameForm (s.map replaceControl) = s.map replaceControl := rfl

theorem sameForm_ascii (s : CodeUnits) (_hs : ∀ u ∈ s, u.toNat < 128) : sameForm s = s := rfl

theorem isBlankText_sameForm (s : CodeUnits) : isBlankText (sameForm s) = isBlankText s := rfl

theorem hasControlCharacter_sameForm (s : CodeUnits) (h : hasControlCharacter s false = false) :
    hasControlCharacter (sameForm s) false = false := h

theorem length_sameForm_label (key : CodeUnits) :
    (sameForm (valueLabel sameForm asciiUpperCase key)).length ≤
      (valueLabel sameForm asciiUpperCase key).length := le_rfl

/-- The digest of every text. -/
def zeroDigest (_text : String) : String := String.ofList (List.replicate 64 '0')

theorem toList_zeroDigest (text : String) : (zeroDigest text).toList = List.replicate 64 '0' :=
  String.toList_ofList

theorem zeroDigest_hex (text : String) : (zeroDigest text).toList.all isHexDigit = true := by
  rw [toList_zeroDigest]
  rfl

theorem zeroDigest_length (text : String) : (zeroDigest text).length = 64 := by
  rw [← String.length_toList, toList_zeroDigest, List.length_replicate]

/-- A host whose texts are ASCII and which digests nothing. -/
def asciiHost : PresentationHost where
  nfc := sameForm
  toUpperCase := asciiUpperCase
  sha256 := zeroDigest
  nfc_idem := sameForm_idem
  nfc_infix := sameForm_part
  nfc_replace := sameForm_replace
  nfc_ascii := sameForm_ascii
  nfc_blank := isBlankText_sameForm
  nfc_control := hasControlCharacter_sameForm
  upper_blank := isBlankText_asciiUpperCase
  upper_control := hasControlCharacter_asciiUpperCase
  nfc_label := length_sameForm_label
  sha256_hex := zeroDigest_hex
  sha256_length := zeroDigest_length

/-- A list with an empty text in it is not presented. -/
theorem emptyItem_refused :
    asciiHost.valueDecisionPresentation (.arr [.str []]) =
        .error "Decision presentation block 1 items item 1 must not be empty" ∧
      ¬ asciiHost.Presents (.arr [.str []]) := by
  have herror : asciiHost.valueDecisionPresentation (.arr [.str []]) =
      .error "Decision presentation block 1 items item 1 must not be empty" := by
    rfl
  refine ⟨herror, fun h => ?_⟩
  obtain ⟨presentation, hok, -⟩ := h.returned
  rw [herror] at hok
  cases hok

end PresentationHost

end PiWorkflows
