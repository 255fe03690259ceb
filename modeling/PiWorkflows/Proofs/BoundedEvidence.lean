import PiWorkflows.Proofs.ValueText
import PiWorkflows.Workflows.PromptEvidence

/-!
# The bounded projection

The recursion of `projectEvidence` follows the value and whatever views make of
it, so it is not the value that ends it: on a path from the root each view runs
at most once, and between two views the depth is bounded. The same measure bounds
the result (`projectEvidence_bounded`): its strings, arrays and objects are short
and its nesting depends on the number of registered views alone.
-/

namespace PiWorkflows

/-- A value that is kept as it is. -/
def JsValue.isShort : JsValue → Prop
  | .str s => s.length ≤ EVIDENCE_TEXT_CHARS
  | .null | .bool _ | .num _ | .negativeZero | .notFinite => True
  | _ => False

mutual

/-- Kept strings are short, arrays and objects have at most their number of entries and a marker,
which has a name of its own. -/
def Projected.Bounded : Projected → Prop
  | .scalar v => v.isShort
  | .ref _ => True
  | .arr items _ => items.length ≤ EVIDENCE_MAX_ITEMS ∧ boundedItems items
  | .obj fields marker =>
      fields.length ≤ EVIDENCE_MAX_FIELDS ∧
        (fields.map Prod.fst ++ (marker.map Prod.fst).toList).Nodup ∧ boundedFields fields
  | .viewed _ result => result.Bounded

def boundedItems : List Projected → Prop
  | [] => True
  | p :: ps => p.Bounded ∧ boundedItems ps

def boundedFields : List (CodeUnits × Projected) → Prop
  | [] => True
  | (_, p) :: rest => p.Bounded ∧ boundedFields rest

end

mutual

/-- How deep arrays and objects are nested. -/
def Projected.nesting : Projected → Nat
  | .scalar _ | .ref _ => 0
  | .arr items _ => itemNesting items + 1
  | .obj fields _ => fieldNesting fields + 1
  | .viewed _ result => result.nesting

def itemNesting : List Projected → Nat
  | [] => 0
  | p :: ps => max p.nesting (itemNesting ps)

def fieldNesting : List (CodeUnits × Projected) → Nat
  | [] => 0
  | (_, p) :: rest => max p.nesting (fieldNesting rest)

end

mutual

/-- The views that ran on each path from the root to a part of the projection. -/
def Projected.viewPaths : Projected → List (List CodeUnits)
  | .scalar _ | .ref _ => [[]]
  | .arr items _ => [] :: itemPaths items
  | .obj fields _ => [] :: fieldPaths fields
  | .viewed schema result => result.viewPaths.map fun path => schema :: path

def itemPaths : List Projected → List (List CodeUnits)
  | [] => []
  | p :: ps => p.viewPaths ++ itemPaths ps

def fieldPaths : List (CodeUnits × Projected) → List (List CodeUnits)
  | [] => []
  | (_, p) :: rest => p.viewPaths ++ fieldPaths rest

end

theorem boundedItems_iff {items : List Projected} :
    boundedItems items ↔ ∀ p ∈ items, p.Bounded := by
  induction items with
  | nil => simp [boundedItems]
  | cons p ps ih => rw [boundedItems, ih, List.forall_mem_cons]

theorem boundedFields_iff {fields : List (CodeUnits × Projected)} :
    boundedFields fields ↔ ∀ e ∈ fields, e.2.Bounded := by
  induction fields with
  | nil => simp [boundedFields]
  | cons e rest ih =>
      obtain ⟨k, p⟩ := e
      rw [boundedFields, ih, List.forall_mem_cons]

theorem itemNesting_le {items : List Projected} {n : Nat} :
    itemNesting items ≤ n ↔ ∀ p ∈ items, p.nesting ≤ n := by
  induction items with
  | nil => simp [itemNesting]
  | cons p ps ih => rw [itemNesting, Nat.max_le, ih, List.forall_mem_cons]

theorem fieldNesting_le {fields : List (CodeUnits × Projected)} {n : Nat} :
    fieldNesting fields ≤ n ↔ ∀ e ∈ fields, e.2.nesting ≤ n := by
  induction fields with
  | nil => simp [fieldNesting]
  | cons e rest ih =>
      obtain ⟨k, p⟩ := e
      rw [fieldNesting, Nat.max_le, ih, List.forall_mem_cons]

theorem mem_itemPaths {items : List Projected} {path : List CodeUnits} :
    path ∈ itemPaths items ↔ ∃ p ∈ items, path ∈ p.viewPaths := by
  induction items with
  | nil => simp [itemPaths]
  | cons p ps ih => rw [itemPaths, List.mem_append, ih, List.exists_mem_cons_iff]

theorem mem_fieldPaths {fields : List (CodeUnits × Projected)} {path : List CodeUnits} :
    path ∈ fieldPaths fields ↔ ∃ e ∈ fields, path ∈ e.2.viewPaths := by
  induction fields with
  | nil => simp [fieldPaths]
  | cons e rest ih =>
      obtain ⟨k, p⟩ := e
      rw [fieldPaths, List.mem_append, ih, List.exists_mem_cons_iff]

/-! ## Fields -/

theorem foldl_setKey_values {α : Type} {members done : List (CodeUnits × α)} {x : α}
    (h : x ∈ (members.foldl (fun object e => Assoc.setKey e.1 e.2 object) done).map Prod.snd) :
    x ∈ members.map Prod.snd ∨ x ∈ done.map Prod.snd := by
  induction members generalizing done with
  | nil => exact .inr h
  | cons f rest ih =>
      rcases ih h with hrest | hset
      · exact .inl (List.mem_cons_of_mem _ hrest)
      · rcases Assoc.mem_values_setKey hset with rfl | hdone
        · exact .inl List.mem_cons_self
        · exact .inr hdone

theorem foldl_setKey_names {α : Type} {members done : List (CodeUnits × α)} {k : CodeUnits}
    (h : k ∈ (members.foldl (fun object e => Assoc.setKey e.1 e.2 object) done).map Prod.fst) :
    k ∈ members.map Prod.fst ∨ k ∈ done.map Prod.fst := by
  induction members generalizing done with
  | nil => exact .inr h
  | cons f rest ih =>
      rcases ih h with hrest | hset
      · exact .inl (List.mem_cons_of_mem _ hrest)
      · rcases Assoc.mem_keys_setKey.1 hset with rfl | hdone
        · exact .inl List.mem_cons_self
        · exact .inr hdone

theorem nodup_foldl_setKey {α : Type} {members done : List (CodeUnits × α)}
    (h : (done.map Prod.fst).Nodup) :
    ((members.foldl (fun object e => Assoc.setKey e.1 e.2 object) done).map Prod.fst).Nodup := by
  induction members generalizing done with
  | nil => exact h
  | cons f rest ih => exact ih (Assoc.nodup_keys_setKey h)

theorem mem_values_fromEntries {α : Type} {members : List (CodeUnits × α)} {e : CodeUnits × α}
    (h : e ∈ fromEntries members) : e.2 ∈ members.map Prod.snd := by
  have hmem := (perm_enumerated _).mem_iff.1 h
  exact (foldl_setKey_values (List.mem_map_of_mem hmem)).resolve_right List.not_mem_nil

theorem nodup_fromEntries {α : Type} (members : List (CodeUnits × α)) :
    ((fromEntries members).map Prod.fst).Nodup :=
  ((perm_enumerated _).map Prod.fst).nodup_iff.2 (nodup_foldl_setKey List.nodup_nil)

theorem length_fromEntries_le {α : Type} (members : List (CodeUnits × α)) :
    (fromEntries members).length ≤ members.length := by
  have hsubset : (fromEntries members).map Prod.fst ⊆ members.map Prod.fst := by
    intro k hk
    have hmem := ((perm_enumerated _).map Prod.fst).mem_iff.1 hk
    exact (foldl_setKey_names hmem).resolve_right List.not_mem_nil
  have hle := (List.subperm_of_subset (nodup_fromEntries members) hsubset).length_le
  rwa [List.length_map, List.length_map] at hle

theorem omittedName_injOn {i j : Nat} (hi : 0 < i) (hj : 0 < j)
    (h : omittedName i = omittedName j) : i = j := by
  have hrepr : ∀ n : Nat, units n.repr ≠ [] := fun n hn => by
    have hnone : units n.repr = units "" := hn
    have hempty := units_injective hnone
    have hlist := congrArg String.toList hempty
    rw [Nat.toList_repr] at hlist
    exact Nat.toDigits_ne_nil hlist
  unfold omittedName at h
  split at h <;> split at h
  · rfl
  · exact absurd (List.append_cancel_left ((List.append_nil _).trans h)).symm (hrepr _)
  · exact absurd (List.append_cancel_left (h.trans (List.append_nil _).symm)) (hrepr _)
  · exact natRepr_inj (units_injective (List.append_cancel_left h))

/-- The search ends at a name that is free: a name is tried once, and there are too few. -/
theorem omittedFieldsFrom_fresh {names : List CodeUnits} {tries index : Nat} (hindex : 0 < index)
    (h : omittedFieldsFrom names tries index ∈ names) :
    ∀ i < tries + 1, omittedName (index + i) ∈ names := by
  induction tries generalizing index with
  | zero =>
      intro i hi
      obtain rfl : i = 0 := by omega
      exact h
  | succ tries ih =>
      rw [omittedFieldsFrom] at h
      split at h
      · next htaken =>
          intro i hi
          rcases Nat.eq_zero_or_pos i with rfl | hpos
          · exact htaken
          · have hnext := ih (Nat.succ_pos index) h (i - 1) (by omega)
            rwa [show index + 1 + (i - 1) = index + i by omega] at hnext
      · next hfree => exact absurd h hfree

theorem omittedFieldsKey_fresh (names : List CodeUnits) : omittedFieldsKey names ∉ names := by
  intro htaken
  have hall := omittedFieldsFrom_fresh Nat.one_pos htaken
  have hnodup : ((List.range (names.length + 1)).map fun i => omittedName (1 + i)).Nodup := by
    refine List.Nodup.map_on (fun i _ j _ hij => ?_) List.nodup_range
    have heq := omittedName_injOn (by omega) (by omega) hij
    omega
  have hsubset : ((List.range (names.length + 1)).map fun i => omittedName (1 + i)) ⊆ names := by
    intro k hk
    obtain ⟨i, hi, rfl⟩ := List.mem_map.1 hk
    exact hall i (List.mem_range.1 hi)
  have hle := (List.subperm_of_subset hnodup hsubset).length_le
  rw [List.length_map, List.length_range] at hle
  omega

/-! ## The recursion -/

/-- A projection made at this depth, behind these views. -/
structure Projected.Within (views : EvidenceViews) (depth : Nat) (applied : List CodeUnits)
    (p : Projected) : Prop where
  bounded : p.Bounded
  nesting : p.nesting ≤
    EVIDENCE_MAX_DEPTH * unapplied views applied + (EVIDENCE_MAX_DEPTH - depth)
  once : ∀ path ∈ p.viewPaths, path.Nodup ∧ ∀ schema ∈ path, schema ∉ applied

theorem Projected.within_ref (views : EvidenceViews) (depth : Nat) (applied : List CodeUnits)
    (r : EvidenceRef) : (Projected.ref r).Within views depth applied := by
  refine ⟨by simp [Projected.Bounded], by simp [Projected.nesting], fun path hpath => ?_⟩
  rw [Projected.viewPaths, List.mem_singleton] at hpath
  rw [hpath]
  exact ⟨List.nodup_nil, fun s hs => absurd hs List.not_mem_nil⟩

theorem Projected.within_scalar (views : EvidenceViews) (depth : Nat) (applied : List CodeUnits)
    {v : JsValue} (h : v.isShort) : (Projected.scalar v).Within views depth applied := by
  refine ⟨by rwa [Projected.Bounded], by simp [Projected.nesting], fun path hpath => ?_⟩
  rw [Projected.viewPaths, List.mem_singleton] at hpath
  rw [hpath]
  exact ⟨List.nodup_nil, fun s hs => absurd hs List.not_mem_nil⟩

theorem projectScalar_within (host : EvidenceHost) (views : EvidenceViews) (value : JsValue)
    (depth : Nat) (applied : List CodeUnits) :
    (projectScalar host value).Within views depth applied := by
  unfold projectScalar
  split
  all_goals first
    | exact Projected.within_ref views depth applied _
    | exact Projected.within_scalar views depth applied trivial

/-- A view that had not run takes one from what may still run. -/
theorem Projected.Within.viewed {views : EvidenceViews} {depth : Nat} {applied : List CodeUnits}
    {schema : CodeUnits} {p : Projected} (hknown : schema ∈ views.map Prod.fst)
    (hfresh : schema ∉ applied) (h : p.Within views 0 (schema :: applied)) :
    (Projected.viewed schema p).Within views depth applied := by
  have hless := unapplied_cons hknown hfresh
  refine ⟨by rw [Projected.Bounded]; exact h.bounded, ?_, fun path hpath => ?_⟩
  · rw [Projected.nesting]
    have hnesting := h.nesting
    have hmul : EVIDENCE_MAX_DEPTH * (unapplied views (schema :: applied) + 1) ≤
        EVIDENCE_MAX_DEPTH * unapplied views applied := Nat.mul_le_mul_left _ hless
    rw [Nat.mul_add] at hmul
    omega
  · rw [Projected.viewPaths, List.mem_map] at hpath
    obtain ⟨rest, hrest, rfl⟩ := hpath
    obtain ⟨hnodup, hnew⟩ := h.once rest hrest
    refine ⟨List.nodup_cons.2 ⟨fun hs => hnew schema hs List.mem_cons_self, hnodup⟩, ?_⟩
    intro s hs
    rcases List.mem_cons.1 hs with rfl | hs
    · exact hfresh
    · exact fun happlied => hnew s hs (List.mem_cons_of_mem _ happlied)

theorem Projected.within_arr {views : EvidenceViews} {depth : Nat} {applied : List CodeUnits}
    {items : List Projected} {marker : Option EvidenceRef} (hdepth : depth < EVIDENCE_MAX_DEPTH)
    (hlength : items.length ≤ EVIDENCE_MAX_ITEMS)
    (h : ∀ p ∈ items, p.Within views (depth + 1) applied) :
    (Projected.arr items marker).Within views depth applied := by
  refine ⟨?_, ?_, fun path hpath => ?_⟩
  · rw [Projected.Bounded]
    exact ⟨hlength, boundedItems_iff.2 fun p hp => (h p hp).bounded⟩
  · have hitems := itemNesting_le.2 fun p hp => (h p hp).nesting
    rw [Projected.nesting]
    omega
  · rw [Projected.viewPaths] at hpath
    rcases List.mem_cons.1 hpath with rfl | hmem
    · exact ⟨List.nodup_nil, fun s hs => absurd hs List.not_mem_nil⟩
    · obtain ⟨p, hp, hmem⟩ := mem_itemPaths.1 hmem
      exact (h p hp).once path hmem

theorem Projected.within_obj {views : EvidenceViews} {depth : Nat} {applied : List CodeUnits}
    {fields : List (CodeUnits × Projected)} {marker : Option (CodeUnits × EvidenceRef)}
    (hdepth : depth < EVIDENCE_MAX_DEPTH) (hlength : fields.length ≤ EVIDENCE_MAX_FIELDS)
    (hnames : (fields.map Prod.fst ++ (marker.map Prod.fst).toList).Nodup)
    (h : ∀ e ∈ fields, e.2.Within views (depth + 1) applied) :
    (Projected.obj fields marker).Within views depth applied := by
  refine ⟨?_, ?_, fun path hpath => ?_⟩
  · rw [Projected.Bounded]
    exact ⟨hlength, hnames, boundedFields_iff.2 fun e he => (h e he).bounded⟩
  · have hfields := fieldNesting_le.2 fun e he => (h e he).nesting
    rw [Projected.nesting]
    omega
  · rw [Projected.viewPaths] at hpath
    rcases List.mem_cons.1 hpath with rfl | hmem
    · exact ⟨List.nodup_nil, fun s hs => absurd hs List.not_mem_nil⟩
    · obtain ⟨e, he, hmem⟩ := mem_fieldPaths.1 hmem
      exact (h e he).once path hmem

mutual

theorem projectValue_within (host : EvidenceHost) (views : EvidenceViews) (value : JsValue)
    (depth : Nat) (applied : List CodeUnits) :
    (projectValue host views value depth applied).Within views depth applied := by
  rw [projectValue]
  split
  · next schema hschema =>
      obtain ⟨hknown, hfresh⟩ := knownSchema_some hschema
      split
      · next viewed _ =>
          exact .viewed hknown hfresh
            (projectUnregistered_within host views viewed 0 (schema :: applied))
      · exact projectUnregistered_within host views value depth applied
  · exact projectUnregistered_within host views value depth applied
termination_by (unapplied views applied, EVIDENCE_MAX_DEPTH - depth, 2)
decreasing_by
  · exact Prod.Lex.left _ _ (unapplied_cons hknown hfresh)
  · exact Prod.Lex.right _ (Prod.Lex.right _ (by decide))
  · exact Prod.Lex.right _ (Prod.Lex.right _ (by decide))

theorem projectUnregistered_within (host : EvidenceHost) (views : EvidenceViews) (value : JsValue)
    (depth : Nat) (applied : List CodeUnits) :
    (projectUnregistered host views value depth applied).Within views depth applied := by
  rw [projectUnregistered.eq_def]
  split
  · split
    · exact Projected.within_ref views depth applied _
    · next hshort => exact Projected.within_scalar views depth applied (Nat.le_of_not_lt hshort)
  · next items =>
      split
      · exact Projected.within_ref views depth applied _
      · next hdepth =>
          refine Projected.within_arr (Nat.lt_of_not_le hdepth) ?_ fun p hp => ?_
          · rw [List.length_map, List.length_take]
            exact Nat.min_le_left _ _
          · obtain ⟨item, _, rfl⟩ := List.mem_map.1 hp
            exact projectValue_within host views item (depth + 1) applied
  · next members =>
      split
      · exact Projected.within_ref views depth applied _
      · next hdepth =>
          refine Projected.within_obj (Nat.lt_of_not_le hdepth) ?_ ?_ fun e he => ?_
          · refine Nat.le_trans (length_fromEntries_le _) ?_
            rw [List.length_map, List.length_take]
            exact Nat.min_le_left _ _
          · split
            · refine List.nodup_append.2 ⟨nodup_fromEntries _, List.nodup_singleton _, ?_⟩
              intro k hk k' hk' heq
              rw [Option.map_some, Option.toList_some, List.mem_singleton] at hk'
              exact omittedFieldsKey_fresh _ (hk' ▸ heq ▸ hk)
            · rw [Option.map_none, Option.toList_none, List.append_nil]
              exact nodup_fromEntries _
          · have hvalue := mem_values_fromEntries he
            rw [List.map_map, List.mem_map] at hvalue
            obtain ⟨entry, _, heq⟩ := hvalue
            rw [← heq]
            exact projectValue_within host views entry.2 (depth + 1) applied
  · exact projectScalar_within host views _ depth applied
termination_by (unapplied views applied, EVIDENCE_MAX_DEPTH - depth, 1)
decreasing_by
  · exact Prod.Lex.right _ (Prod.Lex.left _ _ (by omega))
  · exact Prod.Lex.right _ (Prod.Lex.left _ _ (by omega))

end

/-- Whatever the value and the views, the projection is bounded, nested no deeper than the number of
registered views allows, and runs no view twice on a path from the root. -/
theorem projectEvidence_bounded (host : EvidenceHost) (views : EvidenceViews) (value : JsValue) :
    ∃ p : Projected, p = projectValue host views value 0 [] ∧
      projectEvidence host value views = p.value ∧ p.Bounded ∧
      p.nesting ≤ EVIDENCE_MAX_DEPTH * (views.length + 1) ∧ ∀ path ∈ p.viewPaths, path.Nodup := by
  have hwithin := projectValue_within host views value 0 []
  refine ⟨_, rfl, rfl, hwithin.bounded, ?_, fun path hpath => (hwithin.once path hpath).1⟩
  have hviews : unapplied views [] ≤ views.length := by
    rw [unapplied, ← List.length_map (f := Prod.fst)]
    exact List.length_filter_le _ _
  have hmul := Nat.mul_le_mul_left EVIDENCE_MAX_DEPTH hviews
  have hnesting := hwithin.nesting
  rw [Nat.mul_add]
  omega

end PiWorkflows
