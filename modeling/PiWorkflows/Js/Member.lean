import PiWorkflows.Js.Json

/-!
# Property reads on plain JavaScript values

`value[key]` on a plain object or array also finds what the value inherits: a
record built by an object literal answers `"toString"` with a function and
`"__proto__"` with `Object.prototype`. Code that reads a record under a name it
did not choose meets these members, so a read is modelled with them.

Only the kind of an inherited member is kept. No inherited member is a string or
a boolean, and the one inherited number is `Array.prototype.length`, zero.
-/

namespace PiWorkflows

/-- What a property read answers. -/
inductive JsRef where
  | undefined
  | value (v : Json)
  | function
  | objectPrototype
  | arrayPrototype
  deriving DecidableEq

/-- Methods of `Object.prototype`, its constructor included. -/
def objectMethods : List String :=
  ["constructor", "__defineGetter__", "__defineSetter__", "hasOwnProperty",
   "__lookupGetter__", "__lookupSetter__", "isPrototypeOf", "propertyIsEnumerable",
   "toString", "valueOf", "toLocaleString"]

/-- Methods an array inherits from `Array.prototype` alone. -/
def arrayMethods : List String :=
  ["at", "concat", "copyWithin", "fill", "find", "findIndex", "findLast", "findLastIndex",
   "lastIndexOf", "pop", "push", "reverse", "shift", "unshift", "slice", "sort", "splice",
   "includes", "indexOf", "join", "keys", "entries", "values", "forEach", "filter", "flat",
   "flatMap", "map", "every", "some", "reduce", "reduceRight", "toReversed", "toSorted",
   "toSpliced", "with"]

/-- What every plain object inherits under a name. -/
def inheritedMember (key : String) : JsRef :=
  if key = "__proto__" then .objectPrototype
  else if key ∈ objectMethods then .function
  else .undefined

/-- `record[key] = value` on a plain record. The name `__proto__` sets the prototype of the record
and no member. -/
def assignMember {α : Type} (key : String) (value : α) (record : List (String × α)) :
    List (String × α) :=
  if key = "__proto__" then record else Assoc.setKey key value record

/-- Only the member that was assigned may be new. -/
theorem lookup_assignMember_some {α : Type} {key q : String} {value found : α}
    {record : List (String × α)} (h : (assignMember key value record).lookup q = some found) :
    q = key ∧ found = value ∨ record.lookup q = some found := by
  unfold assignMember at h
  split at h
  · exact .inr h
  · rw [Assoc.lookup_setKey] at h
    split at h
    · next hq => exact .inl ⟨hq, (Option.some.inj h).symm⟩
    · exact .inr h

theorem mem_keys_assignMember {α : Type} {key q : String} {value : α}
    {record : List (String × α)} :
    q ∈ (assignMember key value record).map Prod.fst ↔
      (q = key ∧ q ≠ "__proto__") ∨ q ∈ record.map Prod.fst := by
  unfold assignMember
  split
  · next hproto =>
      subst hproto
      exact (or_iff_right fun h => h.2 h.1).symm
  · next hother =>
      rw [Assoc.mem_keys_setKey]
      constructor
      · rintro (rfl | h)
        · exact .inl ⟨rfl, hother⟩
        · exact .inr h
      · rintro (h | h)
        · exact .inl h.1
        · exact .inr h

theorem nodup_keys_assignMember {α : Type} {key : String} {value : α}
    {record : List (String × α)} (h : (record.map Prod.fst).Nodup) :
    ((assignMember key value record).map Prod.fst).Nodup := by
  unfold assignMember
  split
  · exact h
  · exact Assoc.nodup_keys_setKey h

/-- The array index a property name spells: the number whose decimal it is, with
no sign and no leading zero. -/
def arrayIndexName (key : String) : Option Nat :=
  let n := key.toList.foldl (fun n c => 10 * n + (c.toNat - '0'.toNat)) 0
  if key = n.repr then some n else none

theorem arrayIndexName_eq {key : String} {n : Nat} (h : arrayIndexName key = some n) :
    key = n.repr := by
  simp only [arrayIndexName] at h
  split at h
  · next heq => cases h; exact heq
  · cases h

/-- No two names spell the same index. -/
theorem arrayIndexName_injective {key key' : String} {n : Nat}
    (h : arrayIndexName key = some n) (h' : arrayIndexName key' = some n) : key = key' := by
  rw [arrayIndexName_eq h, arrayIndexName_eq h']

/-- `current[key]` for a value that is neither `null` nor `undefined`. -/
def JsRef.get : JsRef → String → JsRef
  | .value (.obj members), key =>
      match members.lookup key with
      | some v => .value v
      | none => inheritedMember key
  | .value (.arr items), key =>
      if key = "length" then .value (.num (.ofNat items.length))
      else
        match arrayIndexName key with
        | some i =>
            match items[i]? with
            | some v => .value v
            | none => .undefined
        | none =>
            if key = "__proto__" then .arrayPrototype
            else if key ∈ arrayMethods then .function
            else inheritedMember key
  | .objectPrototype, key =>
      if key = "__proto__" then .value .null else inheritedMember key
  | .arrayPrototype, key =>
      if key = "length" then .value (.num (.ofNat 0))
      else if key ∈ arrayMethods then .function
      else inheritedMember key
  | _, _ => .undefined

/-- `current == null || typeof current !== "object"`, negated. -/
def JsRef.isObject : JsRef → Bool
  | .value (.obj _) | .value (.arr _) | .objectPrototype | .arrayPrototype => true
  | _ => false

/-- A possibly absent JSON value as a reference. -/
def JsRef.ofOption : Option Json → JsRef
  | none => .undefined
  | some v => .value v

end PiWorkflows
