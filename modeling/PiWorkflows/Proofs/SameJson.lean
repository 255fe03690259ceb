import Mathlib.Data.List.InsertIdx
import PiWorkflows.Proofs.CanonicalText

/-!
# Equal JSON values

Two JSON values are the same value when they differ at most in the order of
object members: `SameJson`. It is what `canonicalJson` compares, and what is
left of a value once the store has written it and read it back. Arrays compare
item by item and objects lookup by lookup, which is all a client should use.
-/

namespace PiWorkflows

/-- Equal up to the order of object members. -/
def SameJson (a b : Json) : Prop :=
  normalizeJson a = normalizeJson b

theorem SameJson.refl (a : Json) : SameJson a a := rfl

theorem SameJson.symm {a b : Json} (h : SameJson a b) : SameJson b a := Eq.symm h

theorem SameJson.trans {a b c : Json} (h : SameJson a b) (h' : SameJson b c) : SameJson a c :=
  Eq.trans h h'

/-- Lookups that agree up to the order of members below. -/
def SameLookup (a b : Option Json) : Prop :=
  a.map normalizeJson = b.map normalizeJson

theorem SameLookup.some_left {a : Json} {b : Option Json} (h : SameLookup (some a) b) :
    ∃ b', b = some b' ∧ SameJson a b' := by
  cases b with
  | none => cases h
  | some b => exact ⟨b, rfl, Option.some.inj h⟩

theorem SameLookup.none_left {b : Option Json} (h : SameLookup none b) : b = none := by
  cases b with
  | none => rfl
  | some b => cases h

theorem sameLookup_some {a b : Json} : SameLookup (some a) (some b) ↔ SameJson a b :=
  ⟨Option.some.inj, congrArg some⟩

theorem SameLookup.isSome_eq {a b : Option Json} (h : SameLookup a b) :
    a.isSome = b.isSome := by
  cases a with
  | none => rw [h.none_left]
  | some a => obtain ⟨b', rfl, _⟩ := h.some_left; rfl

/-- A list of values equal item by item. -/
def SameItems (xs ys : List Json) : Prop :=
  xs.map normalizeJson = ys.map normalizeJson

theorem SameItems.length_eq {xs ys : List Json} (h : SameItems xs ys) :
    xs.length = ys.length := by
  simpa using congrArg List.length h

theorem SameItems.getElem? {xs ys : List Json} (h : SameItems xs ys) (i : Nat) :
    SameLookup xs[i]? ys[i]? := by
  rw [SameLookup, ← List.getElem?_map, ← List.getElem?_map, h]

theorem sameJson_arr {xs ys : List Json} : SameJson (.arr xs) (.arr ys) ↔ SameItems xs ys := by
  simp only [SameJson, normalizeJson, normalizeItems_eq_map, Json.arr.injEq, SameItems]

theorem sameJson_obj {m m' : List (String × Json)} :
    SameJson (.obj m) (.obj m') ↔ ∀ k, SameLookup (m.lookup k) (m'.lookup k) := by
  simp only [SameJson, normalizeJson, Json.obj.injEq, normalizeMembers_eq_iff, SameLookup]

theorem SameJson.arr_left {xs : List Json} {b : Json} (h : SameJson (.arr xs) b) :
    ∃ ys, b = .arr ys ∧ SameItems xs ys := by
  cases b with
  | arr ys => exact ⟨ys, rfl, sameJson_arr.1 h⟩
  | _ => simp [SameJson, normalizeJson] at h

theorem SameJson.obj_left {m : List (String × Json)} {b : Json} (h : SameJson (.obj m) b) :
    ∃ m', b = .obj m' ∧ ∀ k, SameLookup (m.lookup k) (m'.lookup k) := by
  cases b with
  | obj m' => exact ⟨m', rfl, sameJson_obj.1 h⟩
  | _ => simp [SameJson, normalizeJson] at h

/-- A value that is neither an array nor an object. -/
def Json.isScalar : Json → Bool
  | .arr _ | .obj _ => false
  | _ => true

theorem SameJson.scalar_left {a b : Json} (ha : a.isScalar = true) (h : SameJson a b) :
    b = a := by
  cases a <;> cases b <;> simp_all [SameJson, normalizeJson, Json.isScalar]

/-- Writing a value in canonical form changes nothing that counts. -/
theorem SameJson.member? {a b : Json} (h : SameJson a b) (k : String) :
    SameLookup (a.member? k) (b.member? k) := by
  cases a with
  | obj m =>
      obtain ⟨m', rfl, hlookup⟩ := h.obj_left
      exact hlookup k
  | arr xs =>
      obtain ⟨ys, rfl, -⟩ := h.arr_left
      rfl
  | null | bool | num | str =>
      obtain rfl := h.scalar_left rfl
      rfl

/-- Two values that are the same are equal, or arrays, or objects. -/
theorem SameLookup.eq_or_composite {a b : Option Json} (h : SameLookup a b) :
    a = b ∨ (∃ xs ys, a = some (.arr xs) ∧ b = some (.arr ys)) ∨
      ∃ m m', a = some (.obj m) ∧ b = some (.obj m') := by
  cases a with
  | none => exact .inl h.none_left.symm
  | some x =>
      obtain ⟨y, rfl, hsame⟩ := h.some_left
      cases x with
      | arr xs =>
          obtain ⟨ys, rfl, -⟩ := hsame.arr_left
          exact .inr (.inl ⟨xs, ys, rfl, rfl⟩)
      | obj m =>
          obtain ⟨m', rfl, -⟩ := hsame.obj_left
          exact .inr (.inr ⟨m, m', rfl, rfl⟩)
      | null | bool | num | str => exact .inl (congrArg some (hsame.scalar_left rfl).symm)

theorem textMember_same {a b : Json} (h : SameJson a b) (key : String) :
    textMember a key = textMember b key := by
  rw [textMember, textMember]
  rcases (h.member? key).eq_or_composite with heq | ⟨_, _, ha, hb⟩ | ⟨_, _, ha, hb⟩
  · rw [heq]
  · rw [ha, hb]
  · rw [ha, hb]

theorem boolMember_same {a b : Json} (h : SameJson a b) (key : String) :
    boolMember a key = boolMember b key := by
  rw [boolMember, boolMember]
  rcases (h.member? key).eq_or_composite with heq | ⟨_, _, ha, hb⟩ | ⟨_, _, ha, hb⟩
  · rw [heq]
  · rw [ha, hb]
  · rw [ha, hb]

theorem sameJson_normalize (v : Json) : SameJson (normalizeJson v) v :=
  normalizeJson_idem v

theorem canonicalJson_eq_iff_same {a b : Json} :
    canonicalJson a = canonicalJson b ↔ SameJson a b :=
  canonicalJson_eq_iff

/-! ## Objects and arrays under writes -/

theorem sameLookup_setKey {m m' : List (String × Json)} {a b : Json} (hab : SameJson a b)
    (h : ∀ k, SameLookup (m.lookup k) (m'.lookup k)) (key : String) :
    ∀ k, SameLookup ((Assoc.setKey key a m).lookup k) ((Assoc.setKey key b m').lookup k) := by
  intro k
  rw [Assoc.lookup_setKey, Assoc.lookup_setKey]
  split
  · exact sameLookup_some.2 hab
  · exact h k

theorem sameLookup_eraseKey {m m' : List (String × Json)}
    (h : ∀ k, SameLookup (m.lookup k) (m'.lookup k)) (key : String) :
    ∀ k, SameLookup ((Assoc.eraseKey key m).lookup k) ((Assoc.eraseKey key m').lookup k) := by
  intro k
  rw [Assoc.lookup_eraseKey, Assoc.lookup_eraseKey]
  split
  · rfl
  · exact h k

theorem sameItems_set {xs ys : List Json} {a b : Json} (hab : SameJson a b)
    (h : SameItems xs ys) (i : Nat) : SameItems (xs.set i a) (ys.set i b) := by
  have hab' : normalizeJson a = normalizeJson b := hab
  rw [SameItems, List.map_set, List.map_set, hab', h]

theorem sameItems_insertIdx {xs ys : List Json} {a b : Json} (hab : SameJson a b)
    (h : SameItems xs ys) (i : Nat) : SameItems (xs.insertIdx i a) (ys.insertIdx i b) := by
  have hab' : normalizeJson a = normalizeJson b := hab
  rw [SameItems, List.map_insertIdx, List.map_insertIdx, hab', h]

theorem sameItems_eraseIdx {xs ys : List Json} (h : SameItems xs ys) (i : Nat) :
    SameItems (xs.eraseIdx i) (ys.eraseIdx i) := by
  rw [SameItems, ← List.eraseIdx_map, ← List.eraseIdx_map, h]

end PiWorkflows
