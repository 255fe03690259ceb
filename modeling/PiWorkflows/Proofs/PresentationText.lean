import Mathlib.Data.List.DropRight
import Mathlib.Data.List.Infix
import PiWorkflows.Workflows.DecisionPresentation

/-!
# The texts of a generated presentation

The generator writes three kinds of text: words of its own, labels made of member
names, and texts of the value that were sanitised. Each of them comes out of the
normalisation of a reader displayable, or, for a text of the value, unchanged. The
line ends were unified before, and what a reader would refuse gave way to U+FFFD,
except for a tab and a line feed.
-/

namespace PiWorkflows

/-- What a reader takes where no line break may stand, but for its length. -/
structure Displayable (text : CodeUnits) : Prop where
  nonblank : isBlankText text = false
  visible : hasControlCharacter text false = false

/-! ## Control characters and blanks -/

theorem hasControlCharacter_false {text : CodeUnits} {allow : Bool} :
    hasControlCharacter text allow = false ↔ ∀ u ∈ text, isControlCode u allow = false := by
  simp [hasControlCharacter]

theorem control_of_multiline {u : UInt16} (h : isControlCode u true = true) :
    isControlCode u false = true := by
  unfold isControlCode at h ⊢
  split at h
  · cases h
  · exact h

theorem multiline_of_visible {text : CodeUnits} (h : hasControlCharacter text false = false) :
    hasControlCharacter text true = false := by
  rw [hasControlCharacter_false] at h ⊢
  intro u hu
  by_contra hcontrol
  exact absurd (control_of_multiline (by simpa using hcontrol)) (by simp [h u hu])

/-- A tab and a line feed are the only difference. -/
theorem tab_or_line {u : UInt16} (h : isControlCode u true = false)
    (h' : isControlCode u false = true) : u = 9 ∨ u = 10 := by
  unfold isControlCode at h h'
  split at h
  · next hallowed => simpa using hallowed
  · exact absurd h' (by simpa using h)

theorem cr_notMem {text : CodeUnits} (h : hasControlCharacter text true = false) :
    (13 : UInt16) ∉ text := fun hmem =>
  absurd (hasControlCharacter_false.1 h 13 hmem) (by decide)

theorem unixLines_of_notMem {text : CodeUnits} (h : (13 : UInt16) ∉ text) :
    unixLines text = text := by
  fun_induction unixLines text with
  | case1 => rfl
  | case2 u => rw [if_neg fun hu => h (by simp [hu])]
  | case3 u => exact absurd List.mem_cons_self h
  | case4 u => exact absurd List.mem_cons_self h
  | case5 u v rest _ ih => rw [ih fun hmem => h (List.mem_cons_of_mem _ hmem)]

theorem isBlankText_append (s t : CodeUnits) :
    isBlankText (s ++ t) = (isBlankText s && isBlankText t) :=
  List.all_append

theorem replaceControl_visible (u : UInt16) : isControlCode (replaceControl u) true = false := by
  unfold replaceControl
  split
  · decide
  · next h => simpa using h

/-! ## Words of the program -/

/-- A character that is written as one code unit and shows. -/
def isPlainChar (c : Char) : Bool :=
  0x20 ≤ c.toNat && c.toNat < 0x7F

/-- Every character of the text is plain. -/
def IsPlain (text : String) : Prop :=
  ∀ c ∈ text.toList, isPlainChar c = true

theorem IsPlain.append {s t : String} (hs : IsPlain s) (ht : IsPlain t) : IsPlain (s ++ t) := by
  intro c hc
  rw [String.toList_append, List.mem_append] at hc
  exact hc.elim (hs c) (ht c)

theorem IsPlain.of_all {text : String} (h : text.toList.all isPlainChar = true) : IsPlain text :=
  List.all_eq_true.1 h

theorem isPlainChar_of_isDigit {c : Char} (h : c.isDigit = true) : isPlainChar c = true := by
  simp only [Char.isDigit, Bool.and_eq_true, decide_eq_true_eq, UInt32.le_iff_toNat_le] at h
  simp only [isPlainChar, Bool.and_eq_true, decide_eq_true_eq]
  have hval : c.toNat = c.val.toNat := rfl
  have hlow : ('0' : Char).val.toNat = 48 := rfl
  have hhigh : ('9' : Char).val.toNat = 57 := rfl
  omega

theorem plain_repr (n : Nat) : IsPlain n.repr := by
  intro c hc
  rw [Nat.toList_repr] at hc
  exact isPlainChar_of_isDigit (Nat.isDigit_of_mem_toDigits (by decide) (by decide) hc)

theorem plain_of_hex {text : String} (h : text.toList.all isHexDigit = true) : IsPlain text := by
  intro c hc
  have hhex := List.all_eq_true.1 h c hc
  rw [isHexDigit, Bool.or_eq_true, Bool.and_eq_true, decide_eq_true_eq, decide_eq_true_eq] at hhex
  rcases hhex with hdigit | ⟨hlow, hhigh⟩
  · exact isPlainChar_of_isDigit hdigit
  · rw [Char.le_def, UInt32.le_iff_toNat_le] at hlow hhigh
    simp only [isPlainChar, Bool.and_eq_true, decide_eq_true_eq]
    have hval : c.toNat = c.val.toNat := rfl
    have ha : ('a' : Char).val.toNat = 97 := rfl
    have hf : ('f' : Char).val.toNat = 102 := rfl
    omega

theorem units_of_plain {text : String} (h : IsPlain text) :
    units text = text.toList.map fun c => UInt16.ofNat c.toNat := by
  have hall : ∀ cs : List Char, (∀ c ∈ cs, isPlainChar c = true) →
      encodeUtf16 cs = cs.map fun c => UInt16.ofNat c.toNat := by
    intro cs hcs
    induction cs with
    | nil => rfl
    | cons c rest ih =>
        have hc := hcs c List.mem_cons_self
        simp only [isPlainChar, Bool.and_eq_true, decide_eq_true_eq] at hc
        have hrest := ih fun d hd => hcs d (List.mem_cons_of_mem _ hd)
        rw [encodeUtf16] at hrest ⊢
        rw [List.flatMap_cons, hrest, encodeChar, if_pos (by omega)]
        rfl
  exact hall _ h

theorem length_units {text : String} (h : IsPlain text) : (units text).length = text.length := by
  rw [units_of_plain h, List.length_map, String.length_toList]

/-- The code units of plain characters. -/
theorem unit_of_plain {text : String} (h : IsPlain text) {u : UInt16} (hu : u ∈ units text) :
    0x20 ≤ u.toNat ∧ u.toNat < 0x7F := by
  rw [units_of_plain h] at hu
  obtain ⟨c, hc, rfl⟩ := List.mem_map.1 hu
  have hplain := h c hc
  simp only [isPlainChar, Bool.and_eq_true, decide_eq_true_eq] at hplain
  rw [toNat_ofNat_of_lt (by omega)]
  exact hplain

theorem plain_visible {text : String} (h : IsPlain text) :
    hasControlCharacter (units text) false = false := by
  rw [hasControlCharacter_false]
  intro u hu
  have hrange := unit_of_plain h hu
  have hdel : u ≠ 127 := by
    rintro rfl
    exact absurd hrange.2 (by decide)
  simp only [isControlCode, Bool.false_and, Bool.false_eq_true, if_false, Bool.or_eq_false_iff,
    decide_eq_false_iff_not, beq_eq_false_iff_ne]
  exact ⟨by omega, hdel⟩

theorem isSpaceUnit_of_ascii {u : UInt16} (hlow : 0x20 < u.toNat) (hhigh : u.toNat < 0x7F) :
    isSpaceUnit u = false := by
  have hlead : isLeadSurrogate u = false := by
    rw [isLeadSurrogate, Bool.and_eq_false_iff, decide_eq_false_iff_not]
    exact .inl (by omega)
  have htrail : isTrailSurrogate u = false := by
    rw [isTrailSurrogate, Bool.and_eq_false_iff, decide_eq_false_iff_not]
    exact .inl (by omega)
  have hchar : (unitChar u).toNat = u.toNat := by
    rw [unitChar, hlead, htrail]
    exact char_toNat_ofNat (.inl (by omega))
  rw [isSpaceUnit, isTrimmed, hchar, Bool.or_eq_false_iff, decide_eq_false_iff_not,
    Bool.and_eq_false_iff, decide_eq_false_iff_not, decide_eq_false_iff_not]
  refine ⟨fun hlist => ?_, .inl (by omega)⟩
  simp only [List.mem_cons, List.not_mem_nil, or_false] at hlist
  omega

/-- One character that is no space is enough. -/
theorem plain_nonblank {text : String} (h : IsPlain text) {c : Char} (hc : c ∈ text.toList)
    (hspace : c ≠ ' ') : isBlankText (units text) = false := by
  have hplain := h c hc
  simp only [isPlainChar, Bool.and_eq_true, decide_eq_true_eq] at hplain
  have hne : c.toNat ≠ 0x20 := fun heq => hspace (Char.toNat_inj.1 heq)
  have hunit : (UInt16.ofNat c.toNat).toNat = c.toNat := toNat_ofNat_of_lt (by omega)
  have hmem : UInt16.ofNat c.toNat ∈ units text := by
    rw [units_of_plain h]
    exact List.mem_map_of_mem hc
  rw [isBlankText, List.all_eq_false]
  exact ⟨_, hmem, by rw [isSpaceUnit_of_ascii (by omega) (by omega)]; exact Bool.false_ne_true⟩

theorem plain_number (n : JsNumber) :
    IsPlain n.text ∧ isBlankText (units n.text) = false := by
  obtain ⟨⟨c, rest, hcons, hfirst⟩, hall⟩ := isNumeral_chars n.numeral
  have hplain : IsPlain n.text := by
    intro d hd
    have hnumeral := hall d hd
    simp only [isNumeralChar, Bool.or_eq_true, beq_iff_eq] at hnumeral
    rcases hnumeral with ((((hdigit | rfl) | rfl) | rfl) | rfl) | rfl
    · exact isPlainChar_of_isDigit hdigit
    · decide
    · decide
    · decide
    · decide
    · decide
  refine ⟨hplain, plain_nonblank hplain (hcons ▸ List.mem_cons_self) ?_⟩
  rintro rfl
  exact absurd hfirst (by decide)

theorem plain_lengthText (n : Nat) : IsPlain (lengthText n) :=
  plain_repr _

theorem length_lengthText (n : Nat) : (lengthText n).length ≤ 16 :=
  (Nat.length_repr_le_iff (by decide)).2 (by omega)

/-! ## Texts of the value -/

namespace PresentationHost

variable (host : PresentationHost)

/-- A text that a reader leaves as it is. -/
structure Settled (text : CodeUnits) : Prop where
  normal : host.nfc text = text
  visible : hasControlCharacter text true = false

/-- A text that a reader takes and does not lengthen, but for the limit of a string. -/
structure Titled (text : CodeUnits) : Prop extends Displayable text where
  shrinks : (host.nfc text).length ≤ text.length

variable {host}

theorem Settled.read {text : CodeUnits} (h : host.Settled text) :
    host.nfc (unixLines text) = text := by
  rw [unixLines_of_notMem (cr_notMem h.visible), h.normal]

theorem Settled.of_part {s t : CodeUnits} (h : host.Settled t) (hpart : s <:+: t) :
    host.Settled s := by
  refine ⟨host.nfc_infix t s hpart h.normal, hasControlCharacter_false.2 fun u hu => ?_⟩
  exact hasControlCharacter_false.1 h.visible u (hpart.subset hu)

theorem sanitize_settled (text : CodeUnits) : host.Settled (host.sanitize text) := by
  refine ⟨host.nfc_replace _ (host.nfc_idem _), hasControlCharacter_false.2 fun u hu => ?_⟩
  obtain ⟨v, -, rfl⟩ := List.mem_map.1 hu
  exact replaceControl_visible v

theorem plain_settled {text : String} (h : IsPlain text) : host.Settled (units text) where
  normal := host.nfc_ascii _ fun u hu => by
    have hrange := unit_of_plain h hu
    omega
  visible := multiline_of_visible (plain_visible h)

/-- A text that is sanitised already stays as it is. -/
theorem sanitize_of_settled {text : CodeUnits} (h : host.Settled text) :
    host.sanitize text = text := by
  rw [sanitize, sanitizeValueText, h.read]
  refine (List.map_congr_left fun u hu => ?_).trans (List.map_id' text)
  rw [replaceControl, hasControlCharacter_false.1 h.visible u hu, if_neg Bool.false_ne_true]

/-! ## Labels -/

theorem Displayable.titled_of_normal {text : CodeUnits} (h : Displayable text)
    (hnormal : host.nfc text = text) : host.Titled text :=
  { h with shrinks := by rw [hnormal] }

theorem Titled.read {text : CodeUnits} (h : host.Titled text) :
    host.nfc (unixLines text) = host.nfc text := by
  rw [unixLines_of_notMem (cr_notMem (multiline_of_visible h.visible))]

theorem Titled.normalized {text : CodeUnits} (h : host.Titled text) :
    Displayable (host.nfc text) where
  nonblank := (host.nfc_blank text).trans h.nonblank
  visible := host.nfc_control text h.visible

end PresentationHost

/-- Runs of units give way to a space each, and nothing else changes. -/
theorem mem_spaceRuns {p : UInt16 → Bool} {inRun : Bool} {text : CodeUnits} {u : UInt16}
    (h : u ∈ spaceRuns p inRun text) : u = 0x20 ∨ (u ∈ text ∧ p u = false) := by
  fun_induction spaceRuns p inRun text with
  | case1 => cases h
  | case2 v rest hv ih => exact (ih h).imp_right fun hmem => ⟨List.mem_cons_of_mem _ hmem.1, hmem.2⟩
  | case3 inRun v rest hv _ ih =>
      rcases List.mem_cons.1 h with rfl | h
      · exact .inl rfl
      · exact (ih h).imp_right fun hmem => ⟨List.mem_cons_of_mem _ hmem.1, hmem.2⟩
  | case4 inRun v rest hv ih =>
      rcases List.mem_cons.1 h with rfl | h
      · exact .inr ⟨List.mem_cons_self, by simpa using hv⟩
      · exact (ih h).imp_right fun hmem => ⟨List.mem_cons_of_mem _ hmem.1, hmem.2⟩

theorem mem_spaceCapitals {text : CodeUnits} {u : UInt16} (h : u ∈ spaceCapitals text) :
    u = 0x20 ∨ u ∈ text := by
  fun_induction spaceCapitals text with
  | case1 => cases h
  | case2 v => exact .inr h
  | case3 v w rest _ ih =>
      rcases List.mem_cons.1 h with rfl | h
      · exact .inr List.mem_cons_self
      · rcases List.mem_cons.1 h with rfl | h
        · exact .inl rfl
        · exact (ih h).imp_right (List.mem_cons_of_mem _)
  | case4 v w rest _ ih =>
      rcases List.mem_cons.1 h with rfl | h
      · exact .inr List.mem_cons_self
      · exact (ih h).imp_right (List.mem_cons_of_mem _)

theorem mem_trimUnits {text : CodeUnits} {u : UInt16} (h : u ∈ trimUnits text) : u ∈ text := by
  rw [trimUnits, List.mem_reverse] at h
  have hmem := List.mem_reverse.1 ((List.dropWhile_suffix _).subset h)
  exact (List.dropWhile_suffix _).subset hmem

/-- What is left of a trimmed text begins with no space. -/
theorem head_trimUnits {text : CodeUnits} {u : UInt16} {rest : CodeUnits}
    (h : trimUnits text = u :: rest) : isSpaceUnit u = false := by
  have hprefix : trimUnits text <+: text.dropWhile isSpaceUnit := List.rdropWhile_prefix _ _
  rw [h] at hprefix
  obtain ⟨tail, htail⟩ := hprefix
  have hhead := List.head?_dropWhile_not isSpaceUnit text
  rw [← htail] at hhead
  simpa using hhead

namespace PresentationHost

variable {host : PresentationHost}

/-- A tab and a line feed are spaces, and the other control characters are replaced. -/
theorem labelText_visible (host : PresentationHost) (key : CodeUnits) :
    hasControlCharacter (labelText host.nfc key) false = false := by
  rw [hasControlCharacter_false]
  intro u hu
  rcases mem_spaceRuns (mem_trimUnits hu) with rfl | ⟨hmem, hspace⟩
  · decide
  · rcases mem_spaceCapitals hmem with rfl | hmem
    · decide
    · rcases mem_spaceRuns hmem with rfl | ⟨hmem, -⟩
      · decide
      · have hmulti := hasControlCharacter_false.1 (sanitize_settled key).visible u hmem
        by_contra hcontrol
        rcases tab_or_line hmulti (by simpa using hcontrol) with rfl | rfl
        · exact absurd hspace (by decide)
        · exact absurd hspace (by decide)

theorem label_titled (key : CodeUnits) : host.Titled (host.label key) := by
  have hdisplayable : Displayable (host.label key) := by
    unfold label valueLabel
    cases hlabel : labelText host.nfc key with
    | nil =>
        have hvalue : Displayable (units "Value") := ⟨by decide, by decide⟩
        exact hvalue
    | cons u rest =>
        have hvisible := hasControlCharacter_false.1 (labelText_visible host key)
        rw [hlabel] at hvisible
        refine ⟨?_, hasControlCharacter_false.2 fun v hv => ?_⟩
        · show isBlankText (host.toUpperCase u ++ rest) = false
          rw [isBlankText_append, host.upper_blank u (head_trimUnits hlabel), Bool.false_and]
        · rcases List.mem_append.1 hv with hv | hv
          · have hupper := host.upper_control u (hvisible u List.mem_cons_self)
            exact hasControlCharacter_false.1 hupper v hv
          · exact hvisible v (List.mem_cons_of_mem u hv)
  exact { hdisplayable with shrinks := host.nfc_label key }

theorem plain_titled {text : String} (h : IsPlain text) (hblank : isBlankText (units text) = false) :
    host.Titled (units text) :=
  Displayable.titled_of_normal ⟨hblank, plain_visible h⟩ (plain_settled h).normal

end PresentationHost

/-! ## Parts and slices -/

theorem infix_of_splitRounds {limit rounds : Nat} {text part : CodeUnits}
    (h : part ∈ splitRounds limit rounds text) : part <:+: text := by
  fun_induction splitRounds limit rounds text with
  | case1 => cases h
  | case2 => cases h
  | case3 rounds u rest ih =>
      rcases List.mem_cons.1 h with rfl | h
      · exact (List.take_prefix _ _).isInfix
      · exact (ih h).trans (List.drop_suffix _ _).isInfix

theorem infix_of_splitByCodeUnits {limit : Nat} {text part : CodeUnits}
    (h : part ∈ splitByCodeUnits text limit) : part <:+: text := by
  unfold splitByCodeUnits at h
  split at h
  · rw [List.mem_singleton.1 h]
  · exact infix_of_splitRounds h

theorem itemSlices_length {α : Type} {items slice : List α} (h : slice ∈ itemSlices items) :
    slice ≠ [] ∧ slice.length ≤ MAX_PRESENTATION_ITEMS := by
  obtain ⟨n, hn, rfl⟩ := List.mem_map.1 h
  rw [List.mem_range] at hn
  simp only [MAX_PRESENTATION_ITEMS] at hn ⊢
  refine ⟨fun hempty => ?_, List.length_take_le _ _⟩
  have hlength := congrArg List.length hempty
  rw [List.length_take, List.length_drop, List.length_nil] at hlength
  omega

theorem mem_itemSlices {α : Type} {items : List α} {x : α} :
    (∃ slice ∈ itemSlices items, x ∈ slice) ↔ x ∈ items := by
  constructor
  · rintro ⟨slice, hslice, hx⟩
    obtain ⟨n, -, rfl⟩ := List.mem_map.1 hslice
    exact List.mem_of_mem_drop (List.mem_of_mem_take hx)
  · intro hx
    obtain ⟨i, hi, rfl⟩ := List.mem_iff_getElem.1 hx
    refine ⟨_, List.mem_map.2 ⟨i / MAX_PRESENTATION_ITEMS, ?_, rfl⟩, ?_⟩
    · rw [List.mem_range]
      simp only [MAX_PRESENTATION_ITEMS]
      omega
    · rw [List.mem_iff_getElem]
      refine ⟨i % MAX_PRESENTATION_ITEMS, ?_, ?_⟩
      · simp only [MAX_PRESENTATION_ITEMS, List.length_take, List.length_drop]
        omega
      · rw [List.getElem_take, List.getElem_drop]
        congr 1
        simp only [MAX_PRESENTATION_ITEMS]
        omega

end PiWorkflows
