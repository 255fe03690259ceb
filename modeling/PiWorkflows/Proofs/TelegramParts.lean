import PiWorkflows.Channels.Telegram

/-!
# When a decision can be delivered as Telegram messages

Every round takes a part of one to 4,096 units off the text and drops line breaks
only, so nothing is lost whatever the text is. But a cut where no line break is near
does not look at what it cuts, and no part is looked at before it is sent: the parts
are what a channel takes exactly if the loop never comes to a rest that is cut inside
a surrogate pair, or that starts with white space up to the next cut.
-/

namespace PiWorkflows

/-! ## What a channel takes -/

/-- The last unit before and the first one after are the halves of a surrogate pair. -/
def InsidePair (before after : CodeUnits) : Prop :=
  ∃ lead trail, before.getLast? = some lead ∧ after.head? = some trail ∧
    isLeadSurrogate lead = true ∧ isTrailSurrogate trail = true

/-- The parts are the text, without line breaks where it is cut, and no cut is inside a pair. -/
inductive CutInto : CodeUnits → List CodeUnits → Prop where
  | done : CutInto [] []
  | cut {part breaks rest : CodeUnits} {parts : List CodeUnits} (hbreaks : ∀ u ∈ breaks, u = 10)
      (hpair : ¬ InsidePair part (breaks ++ rest)) (hrest : CutInto rest parts) :
      CutInto (part ++ (breaks ++ rest)) (part :: parts)

/-- A channel takes the parts, and a reader has the text from them. -/
structure Delivered (text : CodeUnits) (parts : List CodeUnits) : Prop where
  sized : ∀ part ∈ parts, 1 ≤ part.length ∧ part.length ≤ TELEGRAM_TEXT_LIMIT
  visible : ∀ part ∈ parts, isBlankText part = false
  cuts : CutInto text parts

/-! ## What goes wrong -/

/-- A line break at one of these places. -/
def BreakIn (text : CodeUnits) (low high : Nat) : Prop :=
  ∃ i, low ≤ i ∧ i < high ∧ text[i]? = some 10

/-- How much white space the text starts with. -/
def spaceRun (text : CodeUnits) : Nat :=
  (text.takeWhile isSpaceUnit).length

/-- No line break is near the limit, and a surrogate pair stands across it. -/
def PairAtLimit (remaining : CodeUnits) : Prop :=
  ¬ BreakIn remaining (TELEGRAM_TEXT_LIMIT / 2 + 1) TELEGRAM_TEXT_LIMIT ∧
    InsidePair (remaining.take TELEGRAM_TEXT_LIMIT) (remaining.drop TELEGRAM_TEXT_LIMIT)

/-- The white space at the start fills the window, or goes beyond its last line break. -/
def BlankWindow (remaining : CodeUnits) : Prop :=
  TELEGRAM_TEXT_LIMIT ≤ spaceRun remaining ∨
    BreakIn remaining (TELEGRAM_TEXT_LIMIT / 2 + 1) (spaceRun remaining) ∧
      ¬ BreakIn remaining (spaceRun remaining) TELEGRAM_TEXT_LIMIT

/-- What must not remain when the loop comes round. -/
def Undeliverable (remaining : CodeUnits) : Prop :=
  if TELEGRAM_TEXT_LIMIT < remaining.length then PairAtLimit remaining ∨ BlankWindow remaining
  else remaining ≠ [] ∧ spaceRun remaining = remaining.length

/-- What remains when the loop comes round, from the whole text on. -/
inductive Remains : CodeUnits → CodeUnits → Prop where
  | whole (text : CodeUnits) : Remains text text
  | round {text remaining : CodeUnits} (hlong : TELEGRAM_TEXT_LIMIT < text.length)
      (hrest : Remains (afterCut text) remaining) : Remains text remaining

theorem remains_iff {text : CodeUnits} {P : CodeUnits → Prop} :
    (∀ remaining, Remains text remaining → P remaining) ↔
      P text ∧ (TELEGRAM_TEXT_LIMIT < text.length →
        ∀ remaining, Remains (afterCut text) remaining → P remaining) := by
  constructor
  · intro h
    exact ⟨h _ (.whole text), fun hlong remaining hrest => h _ (.round hlong hrest)⟩
  · rintro ⟨htext, hafter⟩ remaining hremains
    cases hremains with
    | whole => exact htext
    | round hlong hrest => exact hafter hlong remaining hrest

/-! ## The last line break -/

theorem lastIndexOf_spec (pattern text : CodeUnits) :
    (lastIndexOf pattern text = -1 ∧ ∀ i, i < text.length → ¬ pattern <+: text.drop i) ∨
      ∃ i : Nat, lastIndexOf pattern text = i ∧ i < text.length ∧ pattern <+: text.drop i ∧
        ∀ j, i < j → j < text.length → ¬ pattern <+: text.drop j := by
  induction text with
  | nil => exact .inl ⟨rfl, fun i hi => absurd hi (Nat.not_lt_zero i)⟩
  | cons u rest ih =>
      rw [lastIndexOf]
      rcases ih with ⟨hnone, hall⟩ | ⟨i, hsome, hi, hprefix, hlast⟩
      · rw [hnone, if_neg (by decide)]
        have htail : ∀ j, 0 < j → j < (u :: rest).length → ¬ pattern <+: (u :: rest).drop j := by
          intro j hpos hj
          obtain ⟨k, rfl⟩ : ∃ k, j = k + 1 := ⟨j - 1, by omega⟩
          exact hall k (Nat.lt_of_succ_lt_succ hj)
        by_cases hhead : pattern <+: u :: rest
        · rw [if_pos hhead]
          exact .inr ⟨0, rfl, Nat.succ_pos _, hhead, htail⟩
        · rw [if_neg hhead]
          refine .inl ⟨rfl, fun j hj => ?_⟩
          rcases Nat.eq_zero_or_pos j with rfl | hpos
          · exact hhead
          · exact htail j hpos hj
      · rw [hsome, if_pos (Int.natCast_nonneg i)]
        refine .inr ⟨i + 1, rfl, Nat.succ_lt_succ hi, hprefix, fun j hij hj => ?_⟩
        obtain ⟨k, rfl⟩ : ∃ k, j = k + 1 := ⟨j - 1, by omega⟩
        exact hlast k (Nat.lt_of_succ_lt_succ hij) (Nat.lt_of_succ_lt_succ hj)

theorem singleton_prefix_iff {u : UInt16} {text : CodeUnits} {i : Nat} :
    [u] <+: text.drop i ↔ text[i]? = some u := by
  rw [← List.head?_drop]
  cases text.drop i with
  | nil => simp
  | cons v rest => simp [List.cons_prefix_cons, eq_comm]

/-- Two line breaks are one line break at the same place. -/
theorem lastIndexOf_le {text : CodeUnits} :
    lastIndexOf (units "\n\n") text ≤ lastIndexOf (units "\n") text := by
  have hshort : units "\n" <+: units "\n\n" := by decide
  rcases lastIndexOf_spec (units "\n\n") text with ⟨hnone, -⟩ | ⟨i, hi, hlt, hprefix, -⟩
  · rcases lastIndexOf_spec (units "\n") text with ⟨hone, -⟩ | ⟨j, hj, -⟩
    · rw [hnone, hone]
    · rw [hnone, hj]
      omega
  · rcases lastIndexOf_spec (units "\n") text with ⟨-, hall⟩ | ⟨j, hj, -, -, hlast⟩
    · exact absurd (hshort.trans hprefix) (hall i hlt)
    · rw [hi, hj, Int.ofNat_le]
      by_contra hji
      exact hlast i (Nat.lt_of_not_le hji) hlt (hshort.trans hprefix)

/-- The cut is at the last line break in the second half of the window, or at the limit. -/
theorem telegramCut_spec {remaining : CodeUnits} (hlong : TELEGRAM_TEXT_LIMIT < remaining.length) :
    (TELEGRAM_TEXT_LIMIT / 2 < telegramCut remaining ∧
        telegramCut remaining < TELEGRAM_TEXT_LIMIT ∧
        remaining[telegramCut remaining]? = some 10 ∧
        ¬ BreakIn remaining (telegramCut remaining + 1) TELEGRAM_TEXT_LIMIT) ∨
      (telegramCut remaining = TELEGRAM_TEXT_LIMIT ∧
        ¬ BreakIn remaining (TELEGRAM_TEXT_LIMIT / 2 + 1) TELEGRAM_TEXT_LIMIT) := by
  have hbreak : units "\n" = [10] := by decide
  have hwindow : (remaining.take TELEGRAM_TEXT_LIMIT).length = TELEGRAM_TEXT_LIMIT :=
    List.length_take_of_le hlong.le
  have hat : ∀ i, i < TELEGRAM_TEXT_LIMIT →
      (units "\n" <+: (remaining.take TELEGRAM_TEXT_LIMIT).drop i ↔ remaining[i]? = some 10) := by
    intro i hi
    rw [hbreak, singleton_prefix_iff, List.getElem?_take_of_lt hi]
  rw [telegramCut, max_eq_right lastIndexOf_le]
  rcases lastIndexOf_spec (units "\n") (remaining.take TELEGRAM_TEXT_LIMIT) with
    ⟨hnone, hall⟩ | ⟨i, hi, hlt, hprefix, hlast⟩
  · rw [hnone, if_neg (by decide)]
    rw [hwindow] at hall
    refine .inr ⟨rfl, ?_⟩
    rintro ⟨i, -, hi, hget⟩
    exact hall i hi ((hat i hi).2 hget)
  · rw [hwindow] at hlt hlast
    rw [hi]
    by_cases hhalf : TELEGRAM_TEXT_LIMIT / 2 < i
    · rw [if_pos (Int.ofNat_lt.2 hhalf), Int.toNat_natCast]
      refine .inl ⟨hhalf, hlt, (hat i hlt).1 hprefix, ?_⟩
      rintro ⟨j, hij, hj, hget⟩
      exact hlast j hij hj ((hat j hj).2 hget)
    · rw [if_neg fun h => hhalf (Int.ofNat_lt.1 h)]
      refine .inr ⟨rfl, ?_⟩
      rintro ⟨j, hlow, hj, hget⟩
      exact hlast j (by omega) hj ((hat j hj).2 hget)

/-! ## White space -/

theorem isBlankText_take {text : CodeUnits} {n : Nat} (h : n ≤ text.length) :
    isBlankText (text.take n) = true ↔ n ≤ spaceRun text := by
  induction text generalizing n with
  | nil =>
      rw [List.length_nil, Nat.le_zero] at h
      subst h
      simp [isBlankText]
  | cons u rest ih =>
      cases n with
      | zero => simp [isBlankText]
      | succ n =>
          have hrest := ih (Nat.le_of_succ_le_succ h)
          rw [isBlankText] at hrest ⊢
          rw [List.take_succ_cons, List.all_cons, Bool.and_eq_true, hrest, spaceRun, spaceRun]
          by_cases hu : isSpaceUnit u = true
          · rw [List.takeWhile_cons_of_pos hu, List.length_cons, Nat.succ_le_succ_iff]
            exact and_iff_right hu
          · rw [List.takeWhile_cons_of_neg hu]
            exact ⟨fun hboth => absurd hboth.1 hu, fun hle => absurd hle (Nat.not_succ_le_zero n)⟩

theorem isBlankText_iff {text : CodeUnits} :
    isBlankText text = true ↔ spaceRun text = text.length := by
  have hrun : spaceRun text ≤ text.length := (List.takeWhile_sublist _).length_le
  have hall := isBlankText_take (le_refl text.length)
  rw [List.take_length] at hall
  rw [hall]
  omega

/-- The unit after the white space at the start is none. -/
theorem spaceRun_getElem? {text : CodeUnits} {u : UInt16} (h : text[spaceRun text]? = some u) :
    isSpaceUnit u = false := by
  by_contra hspace
  rw [Bool.not_eq_false] at hspace
  obtain ⟨hlt, hget⟩ := List.getElem?_eq_some_iff.1 h
  have hblank : isBlankText (text.take (spaceRun text + 1)) = true := by
    rw [List.take_add_one, h, isBlankText, List.all_append, Bool.and_eq_true]
    exact ⟨(isBlankText_take hlt.le).2 le_rfl, by simpa using hspace⟩
  exact absurd ((isBlankText_take hlt).1 hblank) (Nat.not_succ_le_self _)

/-! ## One round -/

theorem telegramCut_le {remaining : CodeUnits} (hlong : TELEGRAM_TEXT_LIMIT < remaining.length) :
    telegramCut remaining ≤ TELEGRAM_TEXT_LIMIT := by
  rcases telegramCut_spec hlong with ⟨-, hlt, -⟩ | ⟨heq, -⟩
  · exact hlt.le
  · exact heq.le

theorem blank_part_iff {remaining : CodeUnits} (hlong : TELEGRAM_TEXT_LIMIT < remaining.length) :
    isBlankText (remaining.take (telegramCut remaining)) = true ↔ BlankWindow remaining := by
  rw [isBlankText_take ((telegramCut_le hlong).trans hlong.le), BlankWindow]
  rcases telegramCut_spec hlong with ⟨hhalf, hlt, hcut, hlast⟩ | ⟨heq, hnone⟩
  · constructor
    · intro hrun
      by_cases hfull : TELEGRAM_TEXT_LIMIT ≤ spaceRun remaining
      · exact .inl hfull
      · -- The run ends behind the cut, since a line break is white space.
        have hne : telegramCut remaining ≠ spaceRun remaining := by
          intro heq
          rw [heq] at hcut
          exact absurd (spaceRun_getElem? hcut) (by decide)
        refine .inr ⟨⟨_, hhalf, by omega, hcut⟩, ?_⟩
        rintro ⟨i, hlow, hi, hget⟩
        exact hlast ⟨i, by omega, hi, hget⟩
    · rintro (hfull | ⟨⟨i, hlow, hi, hget⟩, hbeyond⟩)
      · omega
      · by_contra hrun
        exact hbeyond ⟨_, by omega, hlt, hcut⟩
  · rw [heq]
    constructor
    · exact .inl
    · rintro (hfull | ⟨⟨i, hlow, hi, hget⟩, -⟩)
      · exact hfull
      · by_contra hrun
        exact hnone ⟨i, hlow, by omega, hget⟩

theorem pair_cut_iff {remaining : CodeUnits} (hlong : TELEGRAM_TEXT_LIMIT < remaining.length) :
    InsidePair (remaining.take (telegramCut remaining)) (remaining.drop (telegramCut remaining)) ↔
      PairAtLimit remaining := by
  rw [PairAtLimit]
  rcases telegramCut_spec hlong with ⟨hhalf, hlt, hcut, -⟩ | ⟨heq, hnone⟩
  · constructor
    · rintro ⟨lead, trail, -, htrail, -, hsurrogate⟩
      rw [List.head?_drop, hcut, Option.some.injEq] at htrail
      rw [← htrail] at hsurrogate
      exact absurd hsurrogate (by decide)
    · rintro ⟨hnone, -⟩
      exact absurd ⟨_, hhalf, hlt, hcut⟩ hnone
  · rw [heq]
    exact (and_iff_right hnone).symm

/-! ## All rounds -/

theorem CutInto.head {text part : CodeUnits} {parts : List CodeUnits}
    (h : CutInto text (part :: parts)) (hpart : part ≠ []) : text.head? = part.head? := by
  cases h with
  | cut hbreaks hpair hrest =>
      cases part with
      | nil => exact absurd rfl hpart
      | cons u rest => rfl

theorem head_telegramRounds {remaining part : CodeUnits} {parts : List CodeUnits}
    (h : telegramRounds remaining = part :: parts) :
    part ≠ [] ∧ remaining.head? = part.head? := by
  rw [telegramRounds] at h
  split at h
  · next hlong =>
      obtain ⟨rfl, -⟩ := List.cons.inj h
      cases remaining with
      | nil => exact absurd hlong (Nat.not_lt_zero _)
      | cons u rest =>
          obtain ⟨n, hn⟩ : ∃ n, telegramCut (u :: rest) = n + 1 :=
            ⟨_, (Nat.succ_pred_eq_of_pos (telegramCut_pos (u :: rest))).symm⟩
          rw [hn]
          exact ⟨List.cons_ne_nil _ _, rfl⟩
  · split at h
    · next hpos =>
        obtain ⟨rfl, -⟩ := List.cons.inj h
        exact ⟨List.ne_nil_of_length_pos hpos, rfl⟩
    · cases h

theorem eq_nil_of_telegramRounds {remaining : CodeUnits} (h : telegramRounds remaining = []) :
    remaining = [] := by
  rw [telegramRounds] at h
  split at h
  · cases h
  · split at h
    · cases h
    · next hpos => exact List.eq_nil_of_length_eq_zero (Nat.eq_zero_of_not_pos hpos)

theorem head_dropBreaks {text : CodeUnits} {u : UInt16}
    (h : (text.dropWhile (· = 10)).head? = some u) : u ≠ 10 := by
  intro heq
  have hhead := List.head?_dropWhile_not (fun u : UInt16 => decide (u = 10)) text
  rw [h] at hhead
  simp [heq] at hhead

/-- The rest of a text that is cut into the parts of the loop is what the loop goes on with. -/
theorem CutInto.rest_eq {breaks rest : CodeUnits} (hbreaks : ∀ u ∈ breaks, u = 10)
    (h : CutInto rest (telegramRounds ((breaks ++ rest).dropWhile (· = 10)))) :
    rest = (breaks ++ rest).dropWhile (· = 10) := by
  have hdrop : (breaks ++ rest).dropWhile (· = 10) = rest.dropWhile (· = 10) :=
    List.dropWhile_append_of_pos fun u hu => by simpa using hbreaks u hu
  rw [hdrop] at h ⊢
  cases hparts : telegramRounds (rest.dropWhile (· = 10)) with
  | nil =>
      rw [hparts] at h
      rw [eq_nil_of_telegramRounds hparts]
      cases h
      rfl
  | cons part parts =>
      rw [hparts] at h
      obtain ⟨hpart, hhead⟩ := head_telegramRounds hparts
      cases rest with
      | nil => rfl
      | cons u rest =>
          have hu : (u :: rest).head? = some u := rfl
          rw [h.head hpart, ← hhead] at hu
          rw [List.dropWhile_cons_of_neg (by simpa using head_dropBreaks hu)]

/-- A round that is not the last one. -/
theorem delivered_round {remaining : CodeUnits} (hlong : TELEGRAM_TEXT_LIMIT < remaining.length) :
    Delivered remaining
        (remaining.take (telegramCut remaining) :: telegramRounds (afterCut remaining)) ↔
      ¬ Undeliverable remaining ∧
        Delivered (afterCut remaining) (telegramRounds (afterCut remaining)) := by
  have hsplit := List.take_append_drop (telegramCut remaining) remaining
  rw [Undeliverable, if_pos hlong, not_or, ← pair_cut_iff hlong, ← blank_part_iff hlong]
  constructor
  · intro h
    have hvisible := h.visible _ List.mem_cons_self
    generalize hpart : remaining.take (telegramCut remaining) = part at h hsplit hvisible ⊢
    generalize hparts : telegramRounds (afterCut remaining) = parts at h ⊢
    have hcuts := h.cuts
    rw [← hsplit] at hcuts
    generalize hdrop : remaining.drop (telegramCut remaining) = behind at hcuts hsplit ⊢
    generalize htext : part ++ behind = text at hcuts
    cases hcuts with
    | cut hbreaks hpair hrest =>
        have hbehind := List.append_cancel_left htext
        rw [afterCut, hdrop, hbehind] at hparts
        rw [← hparts] at hrest
        have heq := hrest.rest_eq hbreaks
        rw [hparts] at hrest
        rw [afterCut, hdrop, hbehind, ← heq]
        exact ⟨⟨hpair, by simp [hvisible]⟩, fun x hx => h.sized x (List.mem_cons_of_mem _ hx),
          fun x hx => h.visible x (List.mem_cons_of_mem _ hx), hrest⟩
  · rintro ⟨⟨hpair, hblank⟩, h⟩
    have hlength : (remaining.take (telegramCut remaining)).length = telegramCut remaining :=
      List.length_take_of_le ((telegramCut_le hlong).trans hlong.le)
    have hbehind := List.takeWhile_append_dropWhile (p := fun u : UInt16 => decide (u = 10))
      (l := remaining.drop (telegramCut remaining))
    refine ⟨List.forall_mem_cons.2 ⟨?_, h.sized⟩,
      List.forall_mem_cons.2 ⟨Bool.eq_false_iff.2 hblank, h.visible⟩, ?_⟩
    · rw [hlength]
      exact ⟨telegramCut_pos remaining, telegramCut_le hlong⟩
    · have hbreaks : ∀ u ∈ (remaining.drop (telegramCut remaining)).takeWhile (· = 10), u = 10 :=
        fun u hu => of_decide_eq_true (List.all_eq_true.1 List.all_takeWhile u hu)
      have hcut : CutInto (remaining.take (telegramCut remaining) ++
          ((remaining.drop (telegramCut remaining)).takeWhile (· = 10) ++ afterCut remaining))
          (remaining.take (telegramCut remaining) :: telegramRounds (afterCut remaining)) :=
        .cut hbreaks (by rw [afterCut, hbehind]; exact hpair) h.cuts
      rw [afterCut, hbehind, hsplit] at hcut
      exact hcut

/-- The last round. -/
theorem delivered_last {remaining : CodeUnits} (hshort : ¬ TELEGRAM_TEXT_LIMIT < remaining.length)
    (hne : remaining ≠ []) : Delivered remaining [remaining] ↔ ¬ Undeliverable remaining := by
  rw [Undeliverable, if_neg hshort, ← isBlankText_iff]
  constructor
  · rintro h ⟨-, hblank⟩
    exact absurd hblank (by simp [h.visible remaining List.mem_cons_self])
  · intro h
    have hsized : 1 ≤ remaining.length ∧ remaining.length ≤ TELEGRAM_TEXT_LIMIT :=
      ⟨List.length_pos_iff.2 hne, Nat.le_of_not_lt hshort⟩
    have hvisible : isBlankText remaining = false :=
      Bool.eq_false_iff.2 fun hblank => h ⟨hne, hblank⟩
    have hcut : CutInto (remaining ++ ([] ++ [])) [remaining] :=
      .cut (fun u hu => absurd hu List.not_mem_nil) (by rintro ⟨_, _, -, htrail, -⟩; cases htrail)
        .done
    rw [List.append_nil, List.append_nil] at hcut
    exact ⟨by simpa using hsized, by simpa using hvisible, hcut⟩

theorem delivered_iff (remaining : CodeUnits) : Delivered remaining (telegramRounds remaining) ↔
    ∀ rest, Remains remaining rest → ¬ Undeliverable rest := by
  fun_induction telegramRounds remaining with
  | case1 remaining hlong ih =>
      rw [delivered_round hlong, ih]
      refine Iff.trans ?_ (remains_iff (P := fun rest => ¬ Undeliverable rest)).symm
      exact and_congr_right fun _ => ⟨fun h _ => h, fun h => h hlong⟩
  | case2 remaining hshort hpos =>
      rw [delivered_last hshort (List.ne_nil_of_length_pos hpos), remains_iff]
      exact (and_iff_left fun hlong => absurd hlong hshort).symm
  | case3 remaining hshort hzero =>
      have hnil := List.eq_nil_of_length_eq_zero (Nat.eq_zero_of_not_pos hzero)
      subst hnil
      rw [remains_iff]
      refine iff_of_true ⟨by simp, by simp, .done⟩ ⟨?_, fun hlong => absurd hlong hshort⟩
      rw [Undeliverable, if_neg hshort]
      exact fun h => h.1 rfl

/-! ## Requests -/

theorem renderDecisionText_ne_nil (request : HumanDecisionChannelRequest) :
    renderDecisionText request ≠ [] := by
  intro hnil
  have hlength := congrArg List.length hnil
  rw [renderDecisionText, decisionDocumentSegments] at hlength
  simp only [List.cons_append, List.map_cons, joinUnits, List.intercalate_cons_cons,
    List.length_append] at hlength
  have hbreaks : (units "\n\n").length = 2 := by decide
  rw [hbreaks, List.length_nil] at hlength
  omega

theorem renderTelegramParts_eq (request : HumanDecisionChannelRequest) :
    renderTelegramParts request = telegramRounds (renderDecisionText request) := by
  rw [renderTelegramParts]
  split
  · next hshort =>
      have hpos := List.length_pos_iff.2 (renderDecisionText_ne_nil request)
      rw [telegramRounds, dif_neg (Nat.not_lt_of_le hshort), if_pos hpos]
  · rfl

theorem renderTelegramParts_iff (request : HumanDecisionChannelRequest) :
    Delivered (renderDecisionText request) (renderTelegramParts request) ↔
      ∀ remaining, Remains (renderDecisionText request) remaining → ¬ Undeliverable remaining := by
  rw [renderTelegramParts_eq]
  exact delivered_iff _

/-- So many wide characters. -/
def wideUnits : Nat → CodeUnits
  | 0 => []
  | n + 1 => 0xD83D :: 0xDE00 :: wideUnits n

theorem wideUnits_getElem? {n k : Nat} (h : k < n) :
    (wideUnits n)[2 * k]? = some 0xD83D ∧ (wideUnits n)[2 * k + 1]? = some 0xDE00 := by
  induction n generalizing k with
  | zero => exact absurd h (Nat.not_lt_zero k)
  | succ n ih =>
      cases k with
      | zero => exact ⟨rfl, rfl⟩
      | succ k => exact ih (Nat.lt_of_succ_lt_succ h)

theorem length_wideUnits (n : Nat) : (wideUnits n).length = 2 * n := by
  induction n with
  | zero => rfl
  | succ n ih =>
      rw [wideUnits, List.length_cons, List.length_cons, ih]
      omega

/-- A long paragraph without a line break, after seven code units. -/
def wideRequest : HumanDecisionChannelRequest where
  title := units "T"
  presentation := ⟨units "No", [.paragraph (wideUnits 2050)]⟩
  choices := [(units "yes", ⟨units "Yes", none⟩)]
  expiresAt := none
  defaultChoice := none

theorem wideRequest_text : renderDecisionText wideRequest =
    units "T\n\nNo\n\n" ++ (wideUnits 2050 ++ units "\n\nChoices\n• Yes") := by
  have hopening : units "T\n\nNo\n\n" = units "T" ++ units "\n\n" ++ units "No" ++ units "\n\n" := by
    decide
  have hclosing : units "\n\nChoices\n• Yes" =
      units "\n\n" ++ (units "Choices\n" ++ (units "• " ++ units "Yes")) := by
    decide
  rw [hopening, hclosing]
  simp [renderDecisionText, decisionDocumentSegments, wideRequest, joinUnits,
    PresentationBlock.segment, DecisionChoice.text, expirySegment]

/-- The first part of this request ends inside a wide character. -/
theorem wideRequest_split :
    ¬ Delivered (renderDecisionText wideRequest) (renderTelegramParts wideRequest) := by
  have hwide : ∀ i, i < 4100 → (renderDecisionText wideRequest)[i + 7]? = (wideUnits 2050)[i]? := by
    intro i hi
    have hopening : (units "T\n\nNo\n\n").length = 7 := by decide
    rw [wideRequest_text, List.getElem?_append_right (by omega), hopening, Nat.add_sub_cancel,
      List.getElem?_append_left (by rw [length_wideUnits]; omega)]
  have hlead := (hwide 4088 (by omega)).trans (wideUnits_getElem? (by omega : 2044 < 2050)).1
  have htrail := (hwide 4089 (by omega)).trans (wideUnits_getElem? (by omega : 2044 < 2050)).2
  have hlong : TELEGRAM_TEXT_LIMIT < (renderDecisionText wideRequest).length :=
    (List.getElem?_eq_some_iff.1 htrail).1
  have hnone : ¬ BreakIn (renderDecisionText wideRequest) (TELEGRAM_TEXT_LIMIT / 2 + 1)
      TELEGRAM_TEXT_LIMIT := by
    rintro ⟨i, hlow, hhigh, hget⟩
    rw [TELEGRAM_TEXT_LIMIT] at hlow hhigh
    obtain ⟨k, hk | hk⟩ : ∃ k, i = 2 * k + 7 ∨ i = 2 * k + 1 + 7 := ⟨(i - 7) / 2, by omega⟩
    · rw [hk, hwide _ (by omega), (wideUnits_getElem? (by omega)).1] at hget
      exact absurd hget (by decide)
    · rw [hk, hwide _ (by omega), (wideUnits_getElem? (by omega)).2] at hget
      exact absurd hget (by decide)
  have hpair : PairAtLimit (renderDecisionText wideRequest) := by
    refine ⟨hnone, 0xD83D, 0xDE00, ?_, ?_, by decide, by decide⟩
    · rw [List.getLast?_take, if_neg (by decide)]
      exact congrArg (·.or (renderDecisionText wideRequest).getLast?) hlead
    · rw [List.head?_drop]
      exact htrail
  rw [renderTelegramParts_eq, delivered_iff]
  intro h
  refine h _ (.whole _) ?_
  rw [Undeliverable, if_pos hlong]
  exact .inl hpair

end PiWorkflows
