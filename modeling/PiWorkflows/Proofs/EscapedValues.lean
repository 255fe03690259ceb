import PiWorkflows.Client.Contents
import PiWorkflows.Proofs.SameJson

/-!
# Escapes and their removal

The server wraps an object with one member when that member is named like a
reference or like a wrapper, at every depth, and the client takes off one wrapper
where it finds one. Both walk the value by its structure, so the induction is over
the value: below an object nothing is left that the client could read as a
reference. The wire sorts the members of every object, which commutes with the
escape since it keeps the names.
-/

namespace PiWorkflows

/-! ## The only name of an object -/

theorem soleKey_iff {members : List (String × Json)} {k : String} :
    soleKey members = some k ↔ (∃ q, q ∈ members.map Prod.fst) ∧
      ∀ q ∈ members.map Prod.fst, q = k := by
  cases members with
  | nil => simp [soleKey]
  | cons e rest =>
      obtain ⟨q, x⟩ := e
      have hname : ∃ p, p ∈ ((q, x) :: rest).map Prod.fst := ⟨q, List.mem_cons_self⟩
      rw [soleKey, and_iff_right hname, List.map_cons, List.forall_mem_cons, List.forall_mem_map]
      split
      · next hall =>
          have hsame : ∀ e ∈ rest, e.1 = q := by simpa using hall
          rw [Option.some.injEq]
          exact ⟨fun h => ⟨h, fun e he => (hsame e he).trans h⟩, fun h => h.1⟩
      · next hall =>
          refine iff_of_false (by rintro ⟨⟩) ?_
          rintro ⟨rfl, hrest⟩
          exact hall (by simpa using hrest)

/-- It depends on the names only. -/
theorem soleKey_congr {members others : List (String × Json)}
    (h : ∀ q, q ∈ members.map Prod.fst ↔ q ∈ others.map Prod.fst) :
    soleKey members = soleKey others := by
  refine Option.ext fun k => ?_
  rw [soleKey_iff, soleKey_iff]
  simp only [h]

theorem escapeMembers_eq (members : List (String × Json)) :
    escapeMembers members = Assoc.mapValues escapeArtifactSentinels members := by
  induction members with
  | nil => rfl
  | cons e rest ih =>
      obtain ⟨k, x⟩ := e
      rw [escapeMembers, ih]
      rfl

theorem soleKey_escapeMembers (members : List (String × Json)) :
    soleKey (escapeMembers members) = soleKey members := by
  refine soleKey_congr fun q => ?_
  rw [escapeMembers_eq, Assoc.mapValues, List.map_map]
  rfl

theorem mem_names_iff {members : List (String × Json)} {k : String} :
    k ∈ members.map Prod.fst ↔ (members.lookup k).isSome = true := by
  induction members with
  | nil => simp
  | cons e rest ih =>
      obtain ⟨q, x⟩ := e
      rw [List.map_cons, List.mem_cons, Assoc.lookup_cons_eq, ih]
      split
      · next heq => simp [heq]
      · next hne => simp [hne]

theorem soleKey_normalizeMembers (members : List (String × Json)) :
    soleKey (normalizeMembers members) = soleKey members := by
  refine soleKey_congr fun q => ?_
  rw [mem_names_iff, mem_names_iff, lookup_normalizeMembers, Option.isSome_map]

/-! ## The wire and the escape -/

mutual

theorem received_escape (value : Json) :
    received (escapeArtifactSentinels value) = escapeArtifactSentinels (normalizeJson value) := by
  match value with
  | .null | .bool _ | .num _ | .str _ => rfl
  | .arr items =>
      rw [escapeArtifactSentinels, received, normalizeJson, normalizeJson, escapeArtifactSentinels,
        normalize_escapeItems items]
  | .obj members =>
      have hmembers := normalize_escapeMembers members
      rw [escapeArtifactSentinels, normalizeJson, escapeArtifactSentinels,
        soleKey_normalizeMembers]
      split
      · rw [received, normalizeJson, normalizeMembers, normalizeMembers, normalizeJson, hmembers]
        rfl
      · rw [received, normalizeJson, hmembers]

theorem normalize_escapeItems (items : List Json) :
    normalizeItems (escapeItems items) = escapeItems (normalizeItems items) := by
  match items with
  | [] => rfl
  | x :: xs =>
      have hx := received_escape x
      rw [received] at hx
      rw [escapeItems, normalizeItems, normalizeItems, escapeItems, hx, normalize_escapeItems xs]

theorem normalize_escapeMembers (members : List (String × Json)) :
    normalizeMembers (escapeMembers members) = escapeMembers (normalizeMembers members) := by
  match members with
  | [] => rfl
  | (k, x) :: rest =>
      have hx := received_escape x
      rw [received] at hx
      rw [escapeMembers, normalizeMembers, normalizeMembers, hx, normalize_escapeMembers rest,
        escapeMembers_eq, escapeMembers_eq, Assoc.mapValues_insertMember]

end

/-! ## Taking the escapes out -/

section Hydrate

variable {sha256 : Bytes → Vector UInt8 32} {read : String → Except Unread LoadedContent}
  {again : Json → Except Unread Json}

/-- An object that is neither a wrapper nor a reference is hydrated member by member. -/
theorem hydrateValue_members {members : List (String × Json)}
    (hescaped : soleKey members ≠ some "$escaped") (hartifact : contentReference? members = none) :
    hydrateValue sha256 read again (.obj members) =
      (do
        let members ← hydrateMembers sha256 read again members
        pure (.obj members)) := by
  match members with
  | [] => rfl
  | (k, .obj inner) :: rest =>
      rw [hydrateValue, if_neg hescaped, hartifact]
  | (k, .null) :: rest | (k, .bool _) :: rest | (k, .num _) :: rest | (k, .str _) :: rest
  | (k, .arr _) :: rest =>
      rw [hydrateValue, if_neg hescaped]
      exact nofun

theorem contentReference?_of_ne {members : List (String × Json)}
    (h : soleKey members ≠ some "$artifact") : contentReference? members = none := by
  rw [contentReference?, if_neg h]

/-- A wrapper around an object. -/
theorem hydrateValue_escaped (members : List (String × Json)) :
    hydrateValue sha256 read again (.obj [("$escaped", .obj members)]) =
      (do
        let members ← hydrateMembers sha256 read again members
        pure (.obj members)) := by
  have hsole : soleKey [("$escaped", Json.obj members)] = some "$escaped" := rfl
  rw [hydrateValue, if_pos hsole]

mutual

/-- Nothing of what was escaped is read as a reference: `read` and `again` are never used. -/
theorem hydrate_escape (value : Json) :
    hydrateValue sha256 read again (escapeArtifactSentinels value) = .ok value := by
  match value with
  | .null | .bool _ | .num _ | .str _ => rfl
  | .arr items =>
      rw [escapeArtifactSentinels, hydrateValue, hydrate_escapeItems items]
      rfl
  | .obj members =>
      have hmembers := hydrate_escapeMembers members
      rw [escapeArtifactSentinels]
      split
      · rw [hydrateValue_escaped, hmembers]
        rfl
      · next hplain =>
          obtain ⟨hartifact, hescaped⟩ := not_or.1 hplain
          rw [← soleKey_escapeMembers] at hartifact hescaped
          rw [hydrateValue_members hescaped (contentReference?_of_ne hartifact), hmembers]
          rfl

theorem hydrate_escapeItems (items : List Json) :
    hydrateItems sha256 read again (escapeItems items) = .ok items := by
  match items with
  | [] => rfl
  | x :: xs =>
      rw [escapeItems, hydrateItems, hydrate_escape x, hydrate_escapeItems xs]
      rfl

theorem hydrate_escapeMembers (members : List (String × Json)) :
    hydrateMembers sha256 read again (escapeMembers members) = .ok members := by
  match members with
  | [] => rfl
  | (k, x) :: rest =>
      rw [escapeMembers, hydrateMembers, hydrate_escape x, hydrate_escapeMembers rest]
      rfl

end

end Hydrate

end PiWorkflows
