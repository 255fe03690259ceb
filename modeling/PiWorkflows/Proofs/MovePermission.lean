import PiWorkflows.Workflows.Settings

/-!
# What a write was authorised as, and what it does

Authorisation asks for `replace` where the destination exists and for `add`
where it does not, on the document before the operation. A `move` first takes
its source out, and only then writes. For everything but one kind of move the
two documents agree about the destination: taking out an array item shifts the
later ones, so a destination inside a later item is read in that item before
the removal and written in the next one after it (`shiftedItems`).

`isMember` is the question both sides ask, and `removeValue_isMember` says what
a removal does to its answer.
-/

namespace PiWorkflows

open Fallible

/-! ## Members -/

/-- The child of a container under a segment, if there is one. -/
def peek : Json → String → Option Json
  | .arr items, segment =>
      match arrayIndexName segment with
      | some index => items[index]?
      | none => none
  | .obj members, segment => members.lookup segment
  | _, _ => none

/-- Whether a path names an existing member of an object. -/
def isMember : Json → List String → Bool
  | _, [] => false
  | .obj members, [key] => (members.lookup key).isSome
  | _, [_] => false
  | document, segment :: next :: rest =>
      match peek document segment with
      | some inner => isMember inner (next :: rest)
      | none => false

theorem isMember_cons {document : Json} {segment next : String} {rest : List String} :
    isMember document (segment :: next :: rest) =
      match peek document segment with
      | some inner => isMember inner (next :: rest)
      | none => false := by
  cases document <;> rfl

theorem parseArrayIndex_ok {segment : String} {length index : Nat}
    (h : parseArrayIndex segment length false = .ok index) :
    ∃ n, arrayIndexName segment = some n ∧ (n = index ∨ (length ≤ n ∧ index = length + 1)) := by
  simp only [parseArrayIndex, Bool.false_eq_true, false_and, if_false, true_and] at h
  split at h
  · cases h
  · next n hn =>
      split at h
      · next hout =>
          cases h
          exact ⟨n, hn, .inr ⟨by omega, rfl⟩⟩
      · cases h
        exact ⟨_, hn, .inl rfl⟩

/-- Reading at a parsed index is reading at the index the segment spells. -/
theorem getElem?_parseArrayIndex {items : List Json} {segment : String} {index : Nat}
    (h : parseArrayIndex segment items.length false = .ok index) :
    ∃ n, arrayIndexName segment = some n ∧ items[index]? = items[n]? := by
  obtain ⟨n, hn, hcase⟩ := parseArrayIndex_ok h
  refine ⟨n, hn, ?_⟩
  rcases hcase with hn | ⟨hle, hout⟩
  · rw [hn]
  · rw [hout, List.getElem?_eq_none (by omega), List.getElem?_eq_none hle]

theorem child_ok {missing : String} {parent v : Json} {segment : String}
    (h : child missing parent segment = .ok v) : peek parent segment = some v := by
  cases parent with
  | arr items =>
      simp only [child, bind_ok, orThrow_ok] at h
      obtain ⟨index, hindex, hv⟩ := h
      obtain ⟨n, hn, heq⟩ := getElem?_parseArrayIndex hindex
      simp only [peek, hn, ← heq, hv]
  | obj members => simpa [child, peek] using h
  | _ => cases h

theorem peek_putChild_self {parent inner : Json} {segment : String} (value : Json)
    (h : peek parent segment = some inner) :
    peek (putChild parent segment value) segment = some value := by
  cases parent with
  | arr items =>
      simp only [peek] at h
      split at h
      · next index hindex =>
          obtain ⟨hlt, -⟩ := List.getElem?_eq_some_iff.1 h
          simp only [putChild, hindex, peek, List.getElem?_set_self hlt]
      · cases h
  | obj members => simp only [putChild, peek, Assoc.lookup_setKey, if_pos]
  | _ => cases h

theorem peek_putChild_ne {parent value : Json} {segment other : String} (hne : other ≠ segment) :
    peek (putChild parent segment value) other = peek parent other := by
  cases parent with
  | arr items =>
      simp only [putChild]
      cases hs : arrayIndexName segment with
      | none => rfl
      | some index =>
          simp only [peek]
          cases ho : arrayIndexName other with
          | none => rfl
          | some index' =>
              refine List.getElem?_set_ne ?_
              rintro rfl
              exact hne (arrayIndexName_injective ho hs)
  | obj members => simp only [putChild, peek, Assoc.lookup_setKey, if_neg hne]
  | _ => rfl

/-! ## The permission of a destination -/

theorem targetAt_cons {document : Json} {segment : String} {rest : List String}
    {target : Option Json} (h : targetAt document (segment :: rest) = .ok target) :
    match peek document segment with
    | some inner => targetAt inner rest = .ok target
    | none => target = none := by
  cases document with
  | arr items =>
      simp only [targetAt, bind_ok] at h
      obtain ⟨index, hindex, h⟩ := h
      obtain ⟨n, hn, heq⟩ := getElem?_parseArrayIndex hindex
      simp only [peek, hn, ← heq]
      cases hitem : items[index]? with
      | some item =>
          rw [hitem] at h
          exact h
      | none =>
          rw [hitem] at h
          exact (Except.ok.inj h).symm
  | obj members =>
      rw [targetAt] at h
      simp only [peek]
      cases hmember : members.lookup segment with
      | some member =>
          rw [hmember] at h
          exact h
      | none =>
          rw [hmember] at h
          exact (Except.ok.inj h).symm
  | _ => cases h; rfl

/-- What a destination counts as: `replace` for an existing member, else `add`. -/
def destinationKind (document : Json) (path : List String) : SettingsPermission :=
  if isMember document path then .replace else .add

theorem destinationPermissionAt_ok {document : Json} {path : List String}
    {permission : SettingsPermission} (hpath : path ≠ [])
    (h : destinationPermissionAt document path = .ok permission) :
    permission = destinationKind document path := by
  simp only [destinationPermissionAt, if_neg hpath, bind_ok] at h
  obtain ⟨parent, hparent, h⟩ := h
  induction path generalizing document with
  | nil => exact absurd rfl hpath
  | cons segment rest ih =>
      cases rest with
      | nil =>
          have hself : parent = some document := by
            cases document <;> simpa [targetAt] using hparent.symm
          subst hself
          cases document with
          | arr items => cases h; rfl
          | obj members =>
              simp only [bind_ok] at h
              obtain ⟨target, htarget, h⟩ := h
              have hstep := targetAt_cons htarget
              simp only [peek] at hstep
              rw [destinationKind, isMember]
              cases hm : members.lookup segment with
              | none =>
                  rw [hm] at hstep
                  subst hstep
                  cases h
                  rfl
              | some member =>
                  rw [hm] at hstep
                  have htarget' : target = some member := by
                    cases member <;> simpa [targetAt] using hstep.symm
                  subst htarget'
                  cases h
                  rfl
          | _ => cases h; rfl
      | cons next more =>
          rw [List.dropLast_cons_of_ne_nil (by simp)] at hparent
          have hstep := targetAt_cons hparent
          rw [destinationKind, isMember_cons]
          cases hp : peek document segment with
          | none =>
              rw [hp] at hstep
              subst hstep
              cases h
              rfl
          | some inner =>
              rw [hp] at hstep
              refine @ih inner (by simp) hstep ?_
              split at h
              · exact h
              · exact h
              · simp only [bind_ok] at h ⊢
                obtain ⟨target, htarget, h⟩ := h
                have htail := targetAt_cons htarget
                rw [hp] at htail
                exact ⟨target, htail, h⟩

/-! ## What a removal does to a destination -/

/-- Where taking an item out shifts a destination: the item the destination's
path names before the removal, the item behind it, which the path names after
the removal, and the rest of the path inside. -/
def shiftedItems : Json → List String → List String → Option (Json × Json × List String)
  | .arr items, [i], j :: next :: rest =>
      match arrayIndexName i, arrayIndexName j with
      | some removed, some index =>
          if removed < index then
            match items[index]?, items[index + 1]? with
            | some before, some after => some (before, after, next :: rest)
            | _, _ => none
          else none
      | _, _ => none
  | _, [_], _ => none
  | document, i :: next :: more, j :: rest =>
      if i = j then
        match peek document i with
        | some inner => shiftedItems inner (next :: more) rest
        | none => none
      else none
  | _, _, _ => none

theorem shiftedItems_cons {document : Json} {i j next : String} {more rest : List String} :
    shiftedItems document (i :: next :: more) (j :: rest) =
      if i = j then
        match peek document i with
        | some inner => shiftedItems inner (next :: more) rest
        | none => none
      else none := by
  cases document <;> rfl

/-- Whether the destination is the same kind of place after the removal: it is,
unless it shifts from one item into the next. -/
def SameKind (document removed : Json) (source path : List String) : Prop :=
  match shiftedItems document source path with
  | some (before, after, rest) =>
      isMember document path = isMember before rest ∧ isMember removed path = isMember after rest
  | none => isMember removed path = isMember document path

theorem isMember_eq_of_peek {a b : Json} {segment : String} {rest : List String}
    (hrest : rest ≠ []) (h : peek a segment = peek b segment) :
    isMember a (segment :: rest) = isMember b (segment :: rest) := by
  cases rest with
  | nil => exact absurd rfl hrest
  | cons next more => rw [isMember_cons, isMember_cons, h]

/-- Every container on the way to the end of a path exists. -/
def Reaches : Json → List String → Prop
  | document, segment :: next :: rest =>
      ∃ inner, peek document segment = some inner ∧ Reaches inner (next :: rest)
  | _, _ => True

/-- A write finds every container on the way. -/
theorem editParent_reaches {α : Type} {missing : String}
    {edit : Json → String → Except String (Json × α)} {document document' : Json} {result : α}
    {path : List String} (h : editParent missing edit document path = .ok (document', result)) :
    Reaches document path := by
  induction path generalizing document document' with
  | nil => trivial
  | cons segment rest ih =>
      cases rest with
      | nil => trivial
      | cons next more =>
          simp only [editParent, bind_ok, pure_ok, Prod.exists, Prod.mk.injEq] at h
          obtain ⟨inner, hinner, inner', r, hrest, rfl, rfl⟩ := h
          exact ⟨inner, child_ok hinner, ih hrest⟩

theorem addValue_reaches {document document' value : Json} {path : List String}
    {replaceOnly : Bool} (h : addValue document path value replaceOnly = .ok document') :
    Reaches document path := by
  cases path with
  | nil => trivial
  | cons segment rest =>
      simp only [addValue, bind_ok, pure_ok, Prod.exists] at h
      obtain ⟨_, _, hedit, -⟩ := h
      exact editParent_reaches hedit

theorem removeChild_arr_ok {missing : String} {items : List Json} {key : String}
    {document' value : Json} (h : removeChild missing (.arr items) key = .ok (document', value)) :
    ∃ index, arrayIndexName key = some index ∧ index < items.length ∧
      document' = .arr (items.eraseIdx index) := by
  simp only [removeChild, bind_ok, orThrow_ok, pure_ok, Prod.mk.injEq] at h
  obtain ⟨index, hindex, v, hv, rfl, rfl⟩ := h
  obtain ⟨hlt, -⟩ := List.getElem?_eq_some_iff.1 hv
  obtain ⟨n, hn, hcase⟩ := parseArrayIndex_ok hindex
  rcases hcase with heq | ⟨hle, hout⟩
  · exact ⟨index, heq ▸ hn, hlt, rfl⟩
  · exact absurd hlt (by omega)

/-- Taking an item out of an array: earlier destinations stay, later ones shift
by one item. -/
theorem eraseIdx_sameKind {items : List Json} {removed : Nat} {i j : String}
    {path : List String} (hi : arrayIndexName i = some removed)
    (hne : i ≠ j) (hafter : path ≠ [] →
      ∃ inner, peek (.arr (items.eraseIdx removed)) j = some inner) :
    SameKind (.arr items) (.arr (items.eraseIdx removed)) [i] (j :: path) := by
  cases path with
  | nil => rfl
  | cons next rest =>
      obtain ⟨inner, hinner⟩ := hafter (by simp)
      simp only [peek] at hinner
      cases hj : arrayIndexName j with
      | none => rw [hj] at hinner; cases hinner
      | some index =>
          rw [hj] at hinner
          simp only [List.getElem?_eraseIdx] at hinner
          have hdiff : index ≠ removed := by
            rintro rfl
            exact hne (arrayIndexName_injective hi hj)
          rw [SameKind, shiftedItems, hi, hj]
          by_cases hlt : removed < index
          · rw [if_neg (by omega)] at hinner
            obtain ⟨hbound, -⟩ := List.getElem?_eq_some_iff.1 hinner
            have hbefore : items[index]? = some items[index] := List.getElem?_eq_getElem _
            simp only [if_pos hlt, hbefore, hinner]
            constructor
            · rw [isMember_cons, peek, hj]
              simp only [hbefore]
            · rw [isMember_cons, peek, hj]
              simp only [List.getElem?_eraseIdx, if_neg (show ¬ index < removed by omega), hinner]
          · simp only [if_neg hlt]
            refine isMember_eq_of_peek (by simp) ?_
            simp only [peek, hj, List.getElem?_eraseIdx, if_pos (show index < removed by omega)]

/-- A removal keeps the kind of every destination that is not inside what was
removed, up to the shift of array items. -/
theorem removeValue_sameKind {missing : String} {document removed value : Json}
    {source path : List String}
    (hremove : editParent missing (removeChild missing) document source = .ok (removed, value))
    (hpath : path ≠ []) (hinside : ¬ source <+: path) (hreach : Reaches removed path) :
    SameKind document removed source path := by
  induction source generalizing document removed path with
  | nil => exact absurd List.nil_prefix hinside
  | cons i more ih =>
      cases path with
      | nil => exact absurd rfl hpath
      | cons j rest =>
          cases more with
          | nil =>
              have hne : i ≠ j := by
                rintro rfl
                exact hinside (List.cons_prefix_cons.2 ⟨rfl, List.nil_prefix⟩)
              rw [editParent] at hremove
              cases document with
              | arr items =>
                  obtain ⟨index, hindex, -, rfl⟩ := removeChild_arr_ok hremove
                  refine eraseIdx_sameKind hindex hne fun hrest => ?_
                  obtain ⟨next, more, rfl⟩ := List.exists_cons_of_ne_nil hrest
                  exact ⟨hreach.choose, hreach.choose_spec.1⟩
              | obj members =>
                  simp only [removeChild, bind_ok, pure_ok, Prod.mk.injEq] at hremove
                  obtain ⟨_, _, rfl, _⟩ := hremove
                  show isMember _ (j :: rest) = isMember _ (j :: rest)
                  cases rest with
                  | nil => rw [isMember, isMember, Assoc.lookup_eraseKey, if_neg (Ne.symm hne)]
                  | cons next more =>
                      refine isMember_eq_of_peek (by simp) ?_
                      rw [peek, peek, Assoc.lookup_eraseKey, if_neg (Ne.symm hne)]
              | _ => cases hremove
          | cons next more =>
              simp only [editParent, bind_ok, pure_ok, Prod.exists, Prod.mk.injEq] at hremove
              obtain ⟨inner, hinner, inner', v, hinner', rfl, rfl⟩ := hremove
              have hpeek := child_ok hinner
              rw [SameKind, shiftedItems_cons]
              by_cases hij : i = j
              · subst hij
                have hpeek' := peek_putChild_self inner' hpeek
                have hinside' : ¬ (next :: more) <+: rest := fun hp =>
                  hinside (List.cons_prefix_cons.2 ⟨rfl, hp⟩)
                simp only [if_pos, hpeek]
                cases rest with
                | nil =>
                    -- The destination is the container the source is taken from.
                    have hkeep : isMember (putChild document i inner') [i] =
                        isMember document [i] := by
                      cases document with
                      | obj members =>
                          simp only [peek] at hpeek
                          simp only [putChild, isMember, Assoc.lookup_setKey, if_pos, hpeek]
                          rfl
                      | arr items =>
                          simp only [putChild]
                          split <;> rfl
                      | _ => rfl
                    have hnone : shiftedItems inner (next :: more) [] = none := by
                      cases inner <;> cases more <;> rfl
                    rw [hnone]
                    exact hkeep
                | cons step tail =>
                    have hmember : ∀ d : Json, peek document i = some d →
                        isMember document (i :: step :: tail) = isMember d (step :: tail) := by
                      intro d hd
                      rw [isMember_cons, hd]
                    obtain ⟨inner₂, hinner₂, hreach'⟩ := hreach
                    rw [hpeek', Option.some.injEq] at hinner₂
                    subst hinner₂
                    have hrest := ih hinner' (by simp) hinside' hreach'
                    rw [hmember inner hpeek, isMember_cons, hpeek']
                    exact hrest
              · simp only [if_neg hij]
                cases rest with
                | nil =>
                    cases document with
                    | obj members =>
                        rw [putChild, isMember, isMember, Assoc.lookup_setKey,
                          if_neg (Ne.symm hij)]
                    | arr items =>
                        simp only [putChild]
                        split <;> rfl
                    | _ => rfl
                | cons step tail =>
                    exact isMember_eq_of_peek (by simp) (peek_putChild_ne (Ne.symm hij))

/-! ## Accepted operations -/

/-- A write at the moment it happens: the document it finds, where it writes, and
whether it only replaces. -/
structure PatchWrite where
  document : Json
  path : List String
  replaceOnly : Bool

/-- The write of an operation: a move finds the document its source is already
gone from, and a move to its own place writes nothing. -/
def writeMoment (document : Json) (operation : JsonPatchOperation) :
    Except String (Option PatchWrite) := do
  let path ← parseJsonPointer operation.path
  match operation with
  | .add _ _ | .copy _ _ => pure (some ⟨document, path, false⟩)
  | .replace _ _ => pure (some ⟨document, path, true⟩)
  | .move _ source => do
      let from_ ← parseJsonPointer source
      if from_ = path then pure none
      else do
        let (removed, _) ← takeMoved document path from_
        pure (some ⟨removed, path, false⟩)
  | .remove _ | .test _ _ => pure none

/-- The write goes over a member that the object has. -/
def PatchWrite.overwritesMember (w : PatchWrite) : Prop :=
  isMember w.document w.path = true

/-- The write makes a new member of an object or a new item of an array. -/
def PatchWrite.creates (w : PatchWrite) : Prop :=
  w.path ≠ [] ∧ w.replaceOnly = false ∧ isMember w.document w.path = false

section

variable (rules : List SettingsPathRule) (document : Json) (operation : JsonPatchOperation)
  (actor : ActorType)

/-- The actor holds the permission for what the operation does where it writes. -/
def WritePermitted : Prop :=
  ∀ w, writeMoment document operation = .ok (some w) →
    (w.overwritesMember → requirePermission rules operation.path .replace actor = .ok ()) ∧
      (w.creates → requirePermission rules operation.path .add actor = .ok ())

/-- The operation moves an array item out from before its own destination, and
the destination exists in only one of the two items its path then names. -/
def DestinationShifts : Prop :=
  ∃ path source p f before after rest, operation = .move path source ∧
    parseJsonPointer path = .ok p ∧ parseJsonPointer source = .ok f ∧
      shiftedItems document f p = some (before, after, rest) ∧
        isMember before rest ≠ isMember after rest

/-- The actor may both add and replace at the destination. -/
def HoldsBoth : Prop :=
  requirePermission rules operation.path .add actor = .ok () ∧
    requirePermission rules operation.path .replace actor = .ok ()

end

section

variable {rules : List SettingsPathRule} {document document' : Json} {actor : ActorType}

theorem shiftedItems_nil (document : Json) (source : List String) :
    shiftedItems document source [] = none := by
  match source with
  | [] | [_] | _ :: _ :: _ => cases document <;> rfl

theorem shiftedItems_self (document : Json) (path : List String) :
    shiftedItems document path path = none := by
  induction path generalizing document with
  | nil => exact shiftedItems_nil document []
  | cons segment rest ih =>
      cases rest with
      | nil => cases document <;> rfl
      | cons next more =>
          rw [shiftedItems_cons, if_pos rfl]
          cases peek document segment with
          | none => rfl
          | some inner => exact ih inner

/-- An authorised destination was granted for the kind of place it then was. -/
theorem requireDestination_kind {pointer : String} {p : List String}
    (hp : parseJsonPointer pointer = .ok p) (hroot : p ≠ [])
    (h : requireDestination rules document pointer actor = .ok ()) :
    requirePermission rules pointer (destinationKind document p) actor = .ok () := by
  simp only [requireDestination, destinationPermission, hp, bind_ok] at h
  obtain ⟨permission, ⟨_, hsegments, hpermission⟩, h⟩ := h
  cases hsegments
  rwa [destinationPermissionAt_ok hroot hpermission] at h

/-- A write on the document that was authorised needs what was granted. -/
theorem permitted_of_kind {pointer : String} {p : List String} {w : PatchWrite}
    (h : p ≠ [] → requirePermission rules pointer (destinationKind document p) actor = .ok ())
    (hpath : w.path = p) (hkind : isMember w.document p = isMember document p) :
    (w.overwritesMember → requirePermission rules pointer .replace actor = .ok ()) ∧
      (w.creates → requirePermission rules pointer .add actor = .ok ()) := by
  subst hpath
  constructor
  · intro hover
    have hroot : w.path ≠ [] := by
      intro hnil
      rw [PatchWrite.overwritesMember, hnil] at hover
      cases hd : w.document <;> (rw [hd] at hover; cases hover)
    have hgrant := h hroot
    rwa [destinationKind, ← hkind, if_pos (show isMember _ _ = true from hover)] at hgrant
  · rintro ⟨hroot, _, hcreate⟩
    have hgrant := h hroot
    rwa [destinationKind, ← hkind, hcreate] at hgrant

/-- Only a move can shift its own destination. -/
theorem not_destinationShifts {operation : JsonPatchOperation}
    (h : ∀ path source, operation ≠ .move path source) :
    ¬ DestinationShifts document operation := by
  rintro ⟨path, source, _, _, _, _, _, hop, _⟩
  exact h path source hop

theorem writePermitted_of_notMove {operation : JsonPatchOperation}
    (hmove : ∀ path source, operation ≠ .move path source)
    (h : authorizeOperation rules document operation actor = .ok ()) :
    WritePermitted rules document operation actor := by
  intro w hw
  cases operation with
  | add path value =>
      simp only [writeMoment, bind_ok, pure_ok, Option.some.injEq] at hw
      obtain ⟨p, hp, rfl⟩ := hw
      exact permitted_of_kind (fun hroot => requireDestination_kind hp hroot h) rfl rfl
  | copy path source =>
      simp only [writeMoment, bind_ok, pure_ok, Option.some.injEq] at hw
      obtain ⟨p, hp, rfl⟩ := hw
      simp only [authorizeOperation, bind_ok] at h
      obtain ⟨_, _, hdestination⟩ := h
      exact permitted_of_kind (fun hroot => requireDestination_kind hp hroot hdestination) rfl rfl
  | replace path value =>
      simp only [writeMoment, bind_ok, pure_ok, Option.some.injEq] at hw
      obtain ⟨p, hp, rfl⟩ := hw
      exact ⟨fun _ => h, fun hcreate => by cases hcreate.2.1⟩
  | move path source => exact absurd rfl (hmove path source)
  | remove path =>
      simp only [writeMoment, bind_ok, pure_ok] at hw
      obtain ⟨_, _, hw⟩ := hw
      cases hw
  | test path value =>
      simp only [writeMoment, bind_ok, pure_ok] at hw
      obtain ⟨_, _, hw⟩ := hw
      cases hw

/-- The two kinds of a destination that exists in one of two items only. -/
theorem holdsBoth_iff {pointer : String} {a b : Bool} (hne : a ≠ b)
    (h : requirePermission rules pointer (if a then .replace else .add) actor = .ok ()) :
    ((b = true → requirePermission rules pointer .replace actor = .ok ()) ∧
        (b = false → requirePermission rules pointer .add actor = .ok ())) ↔
      (requirePermission rules pointer .add actor = .ok () ∧
        requirePermission rules pointer .replace actor = .ok ()) := by
  cases a <;> cases b <;> simp_all

theorem writeMoment_move {path source : String} {p f : List String}
    (hp : parseJsonPointer path = .ok p) (hf : parseJsonPointer source = .ok f) :
    writeMoment document (.move path source) =
      if f = p then .ok none
      else (takeMoved document p f).map fun r => some ⟨r.1, p, false⟩ := by
  have hpath : parseJsonPointer (JsonPatchOperation.move path source).path = .ok p := hp
  rw [writeMoment, hpath]
  show (parseJsonPointer source >>= fun from_ =>
    if from_ = p then pure none
    else do
      let (removed, _) ← takeMoved document p from_
      pure (some (PatchWrite.mk removed p false))) = _
  rw [hf]
  show (if f = p then _ else _) = _
  split
  · rfl
  · cases takeMoved document p f <;> rfl

/-- An accepted move to another place: the source is gone when it writes. -/
theorem move_writes {path source : String} {p f : List String} (hp : parseJsonPointer path = .ok p)
    (hf : parseJsonPointer source = .ok f) (hne : f ≠ p)
    (happlied : applyJsonPatchOperation document (.move path source) = .ok document') :
    ∃ removed, writeMoment document (.move path source) = .ok (some ⟨removed, p, false⟩) ∧
      (p ≠ [] → SameKind document removed f p) := by
  simp only [applyJsonPatchOperation, JsonPatchOperation.path, hp, hf, bind_ok] at happlied
  obtain ⟨_, hp', _, hf', happlied⟩ := happlied
  cases hp'
  cases hf'
  simp only [if_neg hne, bind_ok, Prod.exists] at happlied
  obtain ⟨removed, value, htaken, hadd⟩ := happlied
  refine ⟨removed, ?_, fun hroot => ?_⟩
  · rw [writeMoment_move hp hf, if_neg hne, htaken]
    rfl
  · unfold takeMoved at htaken
    split at htaken
    · cases htaken
    · split at htaken
      · cases htaken
      · next hinside =>
          cases f with
          | nil => cases htaken
          | cons i more =>
              exact removeValue_sameKind htaken hroot hinside (addValue_reaches hadd)

theorem move_writePermitted_iff {path source : String}
    (hauthorized : authorizeOperation rules document (.move path source) actor = .ok ())
    (happlied : applyJsonPatchOperation document (.move path source) = .ok document') :
    WritePermitted rules document (.move path source) actor ↔
      (DestinationShifts document (.move path source) →
        HoldsBoth rules (.move path source) actor) := by
  have hpointers := happlied
  simp only [applyJsonPatchOperation, bind_ok] at hpointers
  obtain ⟨p, hp, f, hf, -⟩ := hpointers
  have hp : parseJsonPointer path = .ok p := hp
  simp only [authorizeOperation, bind_ok] at hauthorized
  obtain ⟨_, _, _, _, hdestination⟩ := hauthorized
  have hgrant := fun hroot => requireDestination_kind hp hroot hdestination
  have hshift : ∀ before after rest, shiftedItems document f p = some (before, after, rest) →
      (DestinationShifts document (.move path source) ↔
        isMember before rest ≠ isMember after rest) := by
    intro before after rest hitems
    constructor
    · rintro ⟨_, _, p', f', _, _, _, hop, hp', hf', hitems', hdiffer⟩
      cases hop
      cases hp.symm.trans hp'
      cases hf.symm.trans hf'
      cases hitems.symm.trans hitems'
      exact hdiffer
    · exact fun hdiffer => ⟨path, source, p, f, before, after, rest, rfl, hp, hf, hitems, hdiffer⟩
  have hstay : shiftedItems document f p = none →
      ¬ DestinationShifts document (.move path source) := by
    rintro hnone ⟨_, _, p', f', _, _, _, hop, hp', hf', hitems', _⟩
    cases hop
    cases hp.symm.trans hp'
    cases hf.symm.trans hf'
    rw [hnone] at hitems'
    cases hitems'
  by_cases hself : f = p
  · -- A move to its own place writes nothing and shifts nothing.
    subst hself
    refine ⟨fun _ hs => absurd hs (hstay (shiftedItems_self document f)), fun _ w hw => ?_⟩
    rw [writeMoment_move hp hf, if_pos rfl] at hw
    cases hw
  · obtain ⟨removed, hmoment, hkind⟩ := move_writes hp hf hself happlied
    have hpermitted : WritePermitted rules document (.move path source) actor ↔
        ((isMember removed p = true → requirePermission rules path .replace actor = .ok ()) ∧
          (p ≠ [] → isMember removed p = false →
            requirePermission rules path .add actor = .ok ())) := by
      constructor
      · intro h
        obtain ⟨hover, hcreate⟩ := h _ hmoment
        exact ⟨hover, fun hroot hnew => hcreate ⟨hroot, rfl, hnew⟩⟩
      · rintro ⟨hover, hcreate⟩ w hw
        cases hmoment.symm.trans hw
        exact ⟨hover, fun hnew => hcreate hnew.1 hnew.2.2⟩
    rw [hpermitted]
    by_cases hroot : p = []
    · subst hroot
      have hnot := hstay (shiftedItems_nil document f)
      have hfalse : isMember removed [] = false := by cases removed <;> rfl
      simp [hnot, hfalse]
    · have hsame := hkind hroot
      have hgranted := hgrant hroot
      rw [SameKind] at hsame
      cases hitems : shiftedItems document f p with
      | none =>
          rw [hitems] at hsame
          simp only [hstay hitems, false_implies, iff_true]
          rw [destinationKind, ← hsame] at hgranted
          constructor
          · intro hover; rwa [if_pos hover] at hgranted
          · intro _ hnew; rwa [hnew] at hgranted
      | some found =>
          obtain ⟨before, after, rest⟩ := found
          rw [hitems] at hsame
          obtain ⟨hbefore, hafter⟩ := hsame
          rw [hshift before after rest hitems, hafter]
          rw [destinationKind, hbefore] at hgranted
          by_cases hdiffer : isMember before rest = isMember after rest
          · simp only [hdiffer, ne_eq, not_true_eq_false, false_implies, iff_true]
            rw [hdiffer] at hgranted
            constructor
            · intro hover; rwa [if_pos hover] at hgranted
            · intro _ hnew; rwa [hnew] at hgranted
          · have hboth := holdsBoth_iff hdiffer hgranted
            constructor
            · intro h _
              exact hboth.1 ⟨h.1, h.2 hroot⟩
            · intro h
              obtain ⟨hover, hnew⟩ := hboth.2 (h hdiffer)
              exact ⟨hover, fun _ => hnew⟩

/-- For every accepted operation, the actor held the permission for what the
operation did where it wrote, except where a move shifted its own destination
and the actor held only one of the two permissions there. -/
theorem writePermitted_iff {operation : JsonPatchOperation}
    (hauthorized : authorizeOperation rules document operation actor = .ok ())
    (happlied : applyJsonPatchOperation document operation = .ok document') :
    WritePermitted rules document operation actor ↔
      (DestinationShifts document operation → HoldsBoth rules operation actor) := by
  have hstay : (∀ path source, operation ≠ .move path source) →
      (WritePermitted rules document operation actor ↔
        (DestinationShifts document operation → HoldsBoth rules operation actor)) := fun hmove =>
    ⟨fun _ hs => absurd hs (not_destinationShifts hmove),
      fun _ => writePermitted_of_notMove hmove hauthorized⟩
  cases operation with
  | move path source => exact move_writePermitted_iff hauthorized happlied
  | add path value => exact hstay (fun _ _ h => by cases h)
  | remove path => exact hstay (fun _ _ h => by cases h)
  | replace path value => exact hstay (fun _ _ h => by cases h)
  | copy path source => exact hstay (fun _ _ h => by cases h)
  | test path value => exact hstay (fun _ _ h => by cases h)

end

/-- A session may take items out of `/a` and add below it, but not replace. -/
def appendOnlyRules : List SettingsPathRule :=
  [{ path := "/a", read := [.session], add := [.session], remove := [.session] }]

def shiftedDocument : Json :=
  .obj [("a", .arr [.str "moved", .obj [], .obj [("x", .str "kept")]])]

def shiftingMove : JsonPatchOperation := .move "/a/1/x" "/a/0"

/-- Moving the first item of `/a` to `/a/1/x` is authorised as an addition to an
empty object, and goes over the member of the object behind it. -/
theorem shiftingMove_overwrites :
    authorizeOperation appendOnlyRules shiftedDocument shiftingMove .session = .ok () ∧
      applyJsonPatchOperation shiftedDocument shiftingMove =
        .ok (.obj [("a", .arr [.obj [], .obj [("x", .str "moved")]])]) ∧
      ¬ WritePermitted appendOnlyRules shiftedDocument shiftingMove .session := by
  refine ⟨rfl, rfl, fun h => ?_⟩
  have hreplace := (h ⟨.obj [("a", .arr [.obj [], .obj [("x", .str "kept")]])],
    ["a", "1", "x"], false⟩ rfl).1 rfl
  cases hreplace

/-- A move between two items shifts nothing and asks for what it does. -/
theorem appendOnlyMove_permitted :
    WritePermitted appendOnlyRules shiftedDocument (.move "/a/1/y" "/a/2/x") .session ↔
      (DestinationShifts shiftedDocument (.move "/a/1/y" "/a/2/x") →
        HoldsBoth appendOnlyRules (.move "/a/1/y" "/a/2/x") .session) := by
  have happlied : applyJsonPatchOperation shiftedDocument (.move "/a/1/y" "/a/2/x") =
      .ok (.obj [("a", .arr [.str "moved", .obj [("y", .str "kept")], .obj []])]) := rfl
  exact writePermitted_iff rfl happlied

end PiWorkflows
