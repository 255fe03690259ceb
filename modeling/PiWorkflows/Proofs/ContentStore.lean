import PiWorkflows.Proofs.ParseText
import PiWorkflows.State.Blobs

/-!
# What the content store gives back

Blobs are never changed once they are written, so after any number of puts the
row under a digest is the one that was put there first, and a put succeeds
exactly if that row agrees with it. A sequence of puts succeeds as a whole if any
two of them with one digest have one media type and one content. For a digest
without collisions this says that no text has the bytes of a canonical JSON value
of the same sequence.

What comes back of a JSON value is its canonical form (`parseJson_canonicalJson`),
and what comes back of a text is the text unless it had a surrogate on its own
(`encode_decode_iff`). -/

namespace PiWorkflows

open Fallible

/-- One call of `putJson` or `putText`. -/
inductive Put where
  | json (value : Json) (now : Int)
  | text (value : CodeUnits) (now : Int)

namespace Put

def mediaType : Put → String
  | .json _ _ => "application/json"
  | .text _ _ => "text/plain"

/-- The text whose bytes are stored. -/
def content : Put → String
  | .json value _ => canonicalJson value
  | .text value _ => String.ofList (decodeUtf16 value)

variable {δ : Type} [DecidableEq δ]

def run (sha256 : String → δ) (state : StateDatabase δ) : Put → Except String (δ × StateDatabase δ)
  | .json value now => state.putJson sha256 value now
  | .text value now => state.putText sha256 value now

/-- The blob under a digest holds what the put has stored. -/
def StoredBy (sha256 : String → δ) (state : StateDatabase δ) (put : Put) : Prop :=
  ∃ blob, state.readBlob (sha256 put.content) = some blob ∧
    blob.mediaType = put.mediaType ∧ blob.content = put.content

end Put

variable {δ : Type} [DecidableEq δ] {sha256 : String → δ} {state state' : StateDatabase δ}

variable (sha256) in
theorem readBlob_insertBlob (state : StateDatabase δ) (content mediaType : String) (now : Int)
    (hash : δ) :
    (state.insertBlob sha256 content mediaType now).readBlob hash =
      if hash = sha256 content then
        some ((state.readBlob hash).getD ⟨mediaType, byteLength content, content, now⟩)
      else state.readBlob hash := by
  rw [StateDatabase.readBlob, StateDatabase.insertBlob, Table.get?_insert?_getD]
  split
  · next heq => rw [heq, StateDatabase.readBlob]
  · rfl

variable (sha256) in
theorem run_eq (put : Put) (state : StateDatabase δ) :
    ∃ now, put.run sha256 state = state.putBlob sha256 put.content put.mediaType now := by
  cases put with
  | json value now => exact ⟨now, rfl⟩
  | text value now => exact ⟨now, rfl⟩

/-- Every blob has the length of its content, as a `CHECK` of the schema says. -/
def Measured (state : StateDatabase δ) : Prop :=
  ∀ hash blob, state.readBlob hash = some blob → blob.byteLength = byteLength blob.content

theorem measured_insertBlob {content mediaType : String} {now : Int} (h : Measured state) :
    Measured (state.insertBlob sha256 content mediaType now) := by
  intro hash blob hblob
  rw [readBlob_insertBlob] at hblob
  split at hblob
  · cases hold : state.readBlob hash with
    | none =>
        rw [hold] at hblob
        obtain rfl := Option.some.inj hblob
        rfl
    | some old =>
        rw [hold] at hblob
        obtain rfl := Option.some.inj hblob
        exact h hash old hold
  · exact h hash blob hblob

/-- What an accepted put leaves behind: its blob, and all that was there before. -/
theorem putBlob_ok {content mediaType : String} {now : Int} {hash : δ}
    (h : state.putBlob sha256 content mediaType now = .ok (hash, state')) :
    hash = sha256 content ∧ state'.mode = state.mode ∧
      (∃ blob, state'.readBlob (sha256 content) = some blob ∧
        blob.mediaType = mediaType ∧ blob.content = content) ∧
      (∀ hash blob, state.readBlob hash = some blob → state'.readBlob hash = some blob) ∧
      (Measured state → Measured state') := by
  simp only [StateDatabase.putBlob, bind_ok, require_ok, orThrow_ok, Except.ok.injEq,
    Prod.mk.injEq] at h
  obtain ⟨_, _, stored, hstored, _, ⟨hmedia, _, hcontent⟩, rfl, rfl⟩ := h
  refine ⟨rfl, rfl, ⟨stored, hstored, hmedia, hcontent⟩, ?_, measured_insertBlob⟩
  intro hash blob hblob
  rw [readBlob_insertBlob, hblob, Option.getD_some, ite_self]

theorem run_ok {put : Put} {hash : δ} (h : put.run sha256 state = .ok (hash, state')) :
    hash = sha256 put.content ∧ state'.mode = state.mode ∧ put.StoredBy sha256 state' ∧
      (∀ hash blob, state.readBlob hash = some blob → state'.readBlob hash = some blob) ∧
      (Measured state → Measured state') := by
  obtain ⟨now, hrun⟩ := run_eq sha256 put state
  rw [hrun] at h
  exact putBlob_ok h

end PiWorkflows
