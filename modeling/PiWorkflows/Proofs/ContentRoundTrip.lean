import PiWorkflows.Proofs.EscapedValues
import PiWorkflows.Proofs.FramedMessages

/-!
# Projected values come back

A content that is stored for a run stays, and the cache holds only what is stored
(`Sound`), so a request for a path is answered with the same bytes whether they
come from the cache or not. The reader keeps the first part of the content
(`readFrom_stored`), so every run of the server leads it to the whole.

A value that is short is sent escaped, and nothing in it is read as a reference. A
value that is long is a reference that is marked opaque, so what it holds is not
hydrated again.
-/

namespace PiWorkflows

open Fallible

/-! ## Paths and keys -/

variable {sha256 : Bytes → Vector UInt8 32}

theorem length_hexDigest (bytes : Bytes) : (hexDigest sha256 bytes).length = 64 := by
  rw [hexDigest, length_hexOfBytes, Vector.length_toList]

theorem matchContentPath_contentPath (bytes : Bytes) (mediaType : MediaType) :
    matchContentPath (contentPath (hexDigest sha256 bytes) mediaType) =
      some (hexDigest sha256 bytes, mediaType) := by
  have hlength : (hexDigest sha256 bytes).length = 64 := length_hexDigest bytes
  have hbegins : contentPrefix.isPrefixOf?
      (contentPath (hexDigest sha256 bytes) mediaType).toList =
      some (hexDigest sha256 bytes ++ mediaType.extension) := by
    rw [List.isPrefixOf?_eq_some_iff_append_eq, contentPath, String.toList_ofList]
  have hall : (hexDigest sha256 bytes).all isHexDigit = true :=
    List.all_eq_true.2 fun c hc => isHexDigit_of_mem hc
  rw [matchContentPath, hbegins, Option.bind_eq_bind, Option.bind_some]
  dsimp only
  rw [List.take_left' hlength, List.drop_left' hlength, if_pos ⟨hlength, hall⟩]
  cases mediaType with
  | text => rfl
  | json => rfl

/-- The separator of `contentKey`. -/
def nul : Char := Char.ofNat 0

theorem nul_notMem_of_match {path : String} {digits : List Char} {mediaType : MediaType}
    (h : matchContentPath path = some (digits, mediaType)) : nul ∉ path.toList := by
  rw [matchContentPath, Option.bind_eq_bind, Option.bind_eq_some_iff] at h
  obtain ⟨rest, hbegins, h⟩ := h
  rw [List.isPrefixOf?_eq_some_iff_append_eq] at hbegins
  dsimp only at h
  split at h
  · next hdigits =>
      have hextension : nul ∉ rest.drop 64 := by
        split at h
        · next hjson => rw [hjson]; decide
        · split at h
          · next htext => rw [htext]; decide
          · cases h
      rw [← hbegins, ← List.take_append_drop 64 rest, List.mem_append, List.mem_append, not_or,
        not_or]
      refine ⟨by decide +kernel, fun hmem => ?_, hextension⟩
      have hhex := List.all_eq_true.1 hdigits.2 nul hmem
      exact absurd hhex (by decide)
  · cases h

theorem contentKey_inj {runId runId' path path' : String} (hpath : nul ∉ path.toList)
    (hpath' : nul ∉ path'.toList) (h : contentKey runId path = contentKey runId' path') :
    runId = runId' ∧ path = path' := by
  have hkey : ∀ left right : String, (contentKey left right).toList.reverse =
      right.toList.reverse ++ nul :: left.toList.reverse := by
    intro left right
    rw [contentKey, String.toList_append, String.toList_append, String.toList_singleton,
      List.append_assoc, List.reverse_append, List.reverse_append, List.append_assoc]
    rfl
  have hlist := congrArg (fun key => key.toList.reverse) h
  rw [hkey, hkey] at hlist
  obtain ⟨hright, hleft⟩ := cut_inj (fun hmem => hpath (List.mem_reverse.1 hmem))
    (fun hmem => hpath' (List.mem_reverse.1 hmem)) hlist
  exact ⟨String.toList_injective (List.reverse_injective hleft),
    String.toList_injective (List.reverse_injective hright)⟩

/-! ## What is stored and what is cached -/

/-- A stored content has its own digest and length, and fits a buffer. -/
def StoredContent (sha256 : Bytes → Vector UInt8 32) (key : String × Bytes × MediaType)
    (row : ContentRow) : Prop :=
  key.2.1 = (sha256 row.content).toList ∧ row.byteLength = row.content.length ∧
    row.content.length ≤ BUFFER_MAX_LENGTH

namespace ViewContents

/-- A content is what is stored under its path. -/
def Holds (view : ViewContents) (record : ContentRecord) : Prop :=
  ∃ digits row, matchContentPath record.path = some (digits, record.mediaType) ∧
    record.sha256 = String.ofList digits ∧
    view.stored.get? (record.runId, bytesOfHex digits, record.mediaType) = some row ∧
    record.bytes = row.content

/-- What holds of the contents at any time. -/
structure Sound (sha256 : Bytes → Vector UInt8 32) (view : ViewContents) : Prop where
  rows : view.stored.Holds (StoredContent sha256)
  records : ∀ e ∈ view.contentRecords, e.1 = contentKey e.2.runId e.2.path ∧ view.Holds e.2

/-- What is stored stays. -/
def Extends (view later : ViewContents) : Prop :=
  ∀ key row, view.stored.get? key = some row → later.stored.get? key = some row

variable {view later : ViewContents} {record : ContentRecord} {runId path : String}

theorem Extends.refl (view : ViewContents) : view.Extends view := fun _ _ h => h

theorem Extends.trans {last : ViewContents} (h : view.Extends later) (h' : later.Extends last) :
    view.Extends last := fun key row hrow => h' key row (h key row hrow)

theorem Extends.holds (h : view.Extends later) (hrecord : view.Holds record) :
    later.Holds record := by
  obtain ⟨digits, row, hmatch, hdigest, hrow, hbytes⟩ := hrecord
  exact ⟨digits, row, hmatch, hdigest, h _ _ hrow, hbytes⟩

/-- A path and a run have one content. -/
theorem holds_unique {other : ContentRecord} (h : view.Holds record) (hother : view.Holds other)
    (hrun : record.runId = other.runId) (hpath : record.path = other.path) : record = other := by
  obtain ⟨digits, row, hmatch, hdigest, hrow, hbytes⟩ := h
  obtain ⟨digits', row', hmatch', hdigest', hrow', hbytes'⟩ := hother
  rw [hpath, hmatch', Option.some.injEq, Prod.mk.injEq] at hmatch
  obtain ⟨rfl, hmedia⟩ := hmatch
  rw [hrun, ← hmedia, hrow', Option.some.injEq] at hrow
  subst hrow
  cases record
  cases other
  simp_all

theorem evictOldest_subset (bytes : Int) (records : List (String × ContentRecord)) :
    (evictOldest bytes records).2 ⊆ records := by
  fun_induction evictOldest bytes records with
  | case1 bytes oldest next rest hfull ih => exact List.subset_cons_of_subset _ ih
  | case2 bytes oldest next rest hfull => exact fun _ h => h
  | case3 bytes records hshort => exact fun _ h => h

theorem sound_of_records (h : Sound sha256 view) (hstored : later.stored = view.stored)
    (hrecords : ∀ e ∈ later.contentRecords, e ∈ view.contentRecords ∨
      e.1 = contentKey e.2.runId e.2.path ∧ view.Holds e.2) : Sound sha256 later := by
  refine ⟨hstored ▸ h.rows, fun e he => ?_⟩
  have hrecord := (hrecords e he).elim (h.records e) id
  refine ⟨hrecord.1, ?_⟩
  rw [Holds, hstored]
  exact hrecord.2

theorem mem_erase_append {key : String} {e : String × ContentRecord}
    {records : List (String × ContentRecord)}
    (h : e ∈ Assoc.eraseKey key records ++ [(key, record)]) :
    e ∈ records ∨ e = (key, record) := by
  rcases List.mem_append.1 h with h | h
  · exact .inl (List.mem_of_mem_filter h)
  · exact .inr (List.mem_singleton.1 h)

theorem sound_rememberContent (h : Sound sha256 view) (hrecord : view.Holds record) :
    Sound sha256 (view.rememberContent record) := by
  refine sound_of_records h rfl fun e he => ?_
  rcases mem_erase_append (evictOldest_subset _ _ he) with hold | rfl
  · exact .inl hold
  · exact .inr ⟨rfl, hrecord⟩

/-! ## Asking for a content -/

theorem recoverContent_ok {r : ContentRecord} (h : view.recoverContent runId path = some (r, later)) :
    r.runId = runId ∧ r.path = path ∧ view.Holds r ∧ later = view.rememberContent r := by
  rw [recoverContent, Option.bind_eq_bind, Option.bind_eq_some_iff] at h
  obtain ⟨⟨digits, mediaType⟩, hmatch, h⟩ := h
  dsimp only at h
  rw [Option.bind_eq_bind, Option.bind_eq_some_iff] at h
  obtain ⟨content, hblob, h⟩ := h
  rw [Option.some.injEq, Prod.mk.injEq] at h
  obtain ⟨rfl, rfl⟩ := h
  rw [readContentBlob, Option.bind_eq_bind, Option.bind_eq_some_iff] at hblob
  obtain ⟨row, hrow, hblob⟩ := hblob
  split at hblob
  · exact ⟨rfl, rfl, ⟨digits, row, hmatch, rfl, hrow, (Option.some.inj hblob).symm⟩, rfl⟩
  · cases hblob

/-- A content that is found is stored, under the key it was asked for. -/
theorem findContent_ok {r : ContentRecord} (hsound : Sound sha256 view)
    (h : view.findContent runId path = some (r, later)) :
    contentKey runId path = contentKey r.runId r.path ∧ view.Holds r ∧ Sound sha256 later ∧
      later.stored = view.stored := by
  rw [findContent] at h
  split at h
  · next r' hlookup =>
      rw [Option.some.injEq, Prod.mk.injEq] at h
      obtain ⟨rfl, rfl⟩ := h
      obtain ⟨hkey, hholds⟩ := hsound.records _ (Assoc.mem_of_lookup hlookup)
      exact ⟨hkey, hholds, hsound, rfl⟩
  · obtain ⟨rfl, rfl, hholds, rfl⟩ := recoverContent_ok h
    exact ⟨rfl, hholds, sound_rememberContent hsound hholds, rfl⟩

theorem sound_touchContent {key : String} (h : Sound sha256 view) (hrecord : view.Holds record)
    (hkey : key = contentKey record.runId record.path) :
    Sound sha256 (view.touchContent key record) := by
  refine sound_of_records h rfl fun e he => ?_
  rcases mem_erase_append he with hold | rfl
  · exact .inl hold
  · exact .inr ⟨hkey, hrecord⟩

theorem content_sound (h : Sound sha256 view) (runId path : String) (offset : Nat) :
    Sound sha256 (view.content runId path offset).2 ∧
      (view.content runId path offset).2.stored = view.stored := by
  rw [content]
  cases hfind : view.findContent runId path with
  | none => exact ⟨h, rfl⟩
  | some found =>
      obtain ⟨r, found⟩ := found
      obtain ⟨hkey, hholds, hsound, hstored⟩ := findContent_ok h hfind
      have hfound : found.Holds r := by rw [Holds, hstored]; exact hholds
      dsimp only
      split
      · exact ⟨sound_touchContent hsound hfound hkey, hstored⟩
      · exact ⟨sound_touchContent hsound hfound hkey, hstored⟩

/-- A stored content is always found. -/
theorem findContent_of_holds (hsound : Sound sha256 view) (hrecord : view.Holds record) :
    ∃ later, view.findContent record.runId record.path = some (record, later) := by
  obtain ⟨digits, row, hmatch, hdigest, hrow, hbytes⟩ := id hrecord
  cases hlookup : view.contentRecords.lookup (contentKey record.runId record.path) with
  | some r =>
      obtain ⟨hkey, hholds⟩ := hsound.records _ (Assoc.mem_of_lookup hlookup)
      obtain ⟨digits', row', hmatch', -⟩ := id hholds
      obtain ⟨hrun, hpath⟩ := contentKey_inj (nul_notMem_of_match hmatch)
        (nul_notMem_of_match hmatch') hkey
      rw [holds_unique hrecord hholds hrun hpath] at hlookup ⊢
      exact ⟨view, by rw [findContent, hlookup]⟩
  | none =>
      have hlength : row.content.length = row.byteLength :=
        (hsound.rows _ _ hrow).2.1.symm
      have hblob : view.readContentBlob record.runId digits record.mediaType =
          some record.bytes := by
        rw [readContentBlob, hrow, Option.bind_eq_bind, Option.bind_some, if_pos hlength, hbytes]
      refine ⟨view.rememberContent record, ?_⟩
      rw [findContent, hlookup]
      dsimp only
      rw [recoverContent, hmatch, Option.bind_eq_bind, Option.bind_some]
      dsimp only
      rw [hblob, Option.bind_eq_bind, Option.bind_some, ← hdigest]

theorem content_of_holds (hsound : Sound sha256 view) (hrecord : view.Holds record) {offset : Nat}
    (hoffset : offset ≤ record.bytes.length) :
    (view.content record.runId record.path offset).1 =
      .ok (some (contentChunk record.runId record offset)) := by
  obtain ⟨later, hfind⟩ := findContent_of_holds hsound hrecord
  rw [content, hfind]
  dsimp only
  rw [if_neg (by omega)]

/-! ## Registering a content -/

theorem persistViewContent_ok {content : Bytes} {mediaType : MediaType} {now : Int}
    {digits : List Char}
    (h : view.persistViewContent sha256 runId content mediaType now = .ok (digits, later)) :
    digits = hexDigest sha256 content ∧
      later = view.insertContent sha256 runId content mediaType now ∧
      ∃ row, later.stored.get? (runId, (sha256 content).toList, mediaType) = some row ∧
        row.content = content := by
  simp only [persistViewContent, bind_ok, require_ok, orThrow_ok, pure_ok, Prod.mk.injEq] at h
  obtain ⟨-, -, row, hrow, -, ⟨-, hcontent⟩, rfl, rfl⟩ := h
  exact ⟨rfl, rfl, row, hrow, hcontent⟩

theorem extends_insertContent (view : ViewContents) (runId : String) (content : Bytes)
    (mediaType : MediaType) (now : Int) :
    view.Extends (view.insertContent sha256 runId content mediaType now) := by
  intro key row hrow
  rw [insertContent]
  dsimp only
  rw [Table.get?_insert?_getD]
  split
  · next heq => rw [← heq, hrow]; rfl
  · exact hrow

theorem sound_insertContent (h : Sound sha256 view) {content : Bytes}
    (hlength : content.length ≤ BUFFER_MAX_LENGTH) (runId : String) (mediaType : MediaType)
    (now : Int) : Sound sha256 (view.insertContent sha256 runId content mediaType now) := by
  refine ⟨?_, fun e he => ?_⟩
  · exact Table.holds_insert?_getD.2 ⟨h.rows, fun _ => ⟨rfl, rfl, hlength⟩⟩
  · obtain ⟨hkey, hholds⟩ := h.records e he
    exact ⟨hkey, (extends_insertContent view runId content mediaType now).holds hholds⟩

theorem bufferOfText_ok {text : String} {bytes : Bytes} :
    bufferOfText text = .ok bytes ↔
      bytes = encodeUtf8 text.toList ∧ bytes.length ≤ BUFFER_MAX_LENGTH := by
  simp only [bufferOfText, bind_ok, require_ok, pure_ok]
  constructor
  · rintro ⟨-, hlength, rfl⟩
    exact ⟨rfl, hlength⟩
  · rintro ⟨rfl, hlength⟩
    exact ⟨.unit, hlength, rfl⟩

/-- The content of a value, as a record of the cache. -/
def recordOf (sha256 : Bytes → Vector UInt8 32) (runId : String) (mediaType : MediaType)
    (bytes : Bytes) : ContentRecord :=
  ⟨runId, contentPath (hexDigest sha256 bytes) mediaType, mediaType, bytes,
    String.ofList (hexDigest sha256 bytes)⟩

/-- What stands for a content is its path, its media type, its length and its digest. -/
def referenceTo (record : ContentRecord) : Json :=
  contentReference record.path record.mediaType record.bytes.length record.sha256

theorem registerContent_ok {value projected : Json} {mediaType : MediaType} {now : Int}
    (hsound : Sound sha256 view)
    (h : view.registerContent sha256 runId value mediaType now = .ok (projected, later)) :
    ∃ bytes, bufferOfText (contentText value mediaType) = .ok bytes ∧
      projected = referenceTo (recordOf sha256 runId mediaType bytes) ∧
      later.Holds (recordOf sha256 runId mediaType bytes) ∧ Sound sha256 later ∧
      view.Extends later := by
  simp only [registerContent, bind_ok, require_ok, pure_ok, Prod.mk.injEq, Prod.exists] at h
  obtain ⟨bytes, hbytes, digits, stored, hpersist, -, -, rfl, rfl⟩ := h
  obtain ⟨rfl, rfl, row, hrow, hcontent⟩ := persistViewContent_ok hpersist
  have hholds : (view.insertContent sha256 runId bytes mediaType now).Holds
      (recordOf sha256 runId mediaType bytes) := by
    refine ⟨_, row, matchContentPath_contentPath bytes mediaType, rfl, ?_, hcontent.symm⟩
    rw [hexDigest, bytesOfHex_hexOfBytes]
    exact hrow
  have hstored := sound_insertContent hsound (bufferOfText_ok.1 hbytes).2 runId mediaType now
  refine ⟨bytes, hbytes, rfl, hholds, sound_rememberContent hstored hholds, ?_⟩
  exact extends_insertContent view runId bytes mediaType now

/-! ## Whatever the server does -/

theorem act_sound (h : Sound sha256 view) (action : ViewAction) :
    Sound sha256 (view.act sha256 action) ∧ view.Extends (view.act sha256 action) := by
  cases action with
  | createRun runId => exact ⟨⟨h.rows, h.records⟩, Extends.refl _⟩
  | register runId value mediaType now =>
      rw [act]
      split
      · next hregister =>
          obtain ⟨-, -, -, -, hsound, hextends⟩ := registerContent_ok h hregister
          exact ⟨hsound, hextends⟩
      · exact ⟨h, Extends.refl _⟩
  | content runId path offset =>
      obtain ⟨hsound, hstored⟩ := content_sound h runId path offset
      exact ⟨hsound, fun key row hrow => hstored ▸ hrow⟩
  | restart => exact ⟨⟨h.rows, fun _ he => absurd he List.not_mem_nil⟩, Extends.refl _⟩

theorem acts_sound (h : Sound sha256 view) (actions : List ViewAction) :
    Sound sha256 (view.acts sha256 actions) ∧ view.Extends (view.acts sha256 actions) := by
  induction actions generalizing view with
  | nil => exact ⟨h, Extends.refl _⟩
  | cons action rest ih =>
      obtain ⟨hstep, hfirst⟩ := act_sound h action
      obtain ⟨hlast, hrest⟩ := ih hstep
      exact ⟨hlast, hfirst.trans hrest⟩

theorem sound_empty : Sound sha256 {} :=
  ⟨Table.holds_empty, fun _ he => absurd he List.not_mem_nil⟩

end ViewContents

/-! ## Receiving the chunks -/

open ViewContents

theorem naturalMember_same {a b : Json} (h : SameJson a b) (key : String) :
    naturalMember a key = naturalMember b key := by
  rw [naturalMember, naturalMember]
  rcases (h.member? key).eq_or_composite with heq | ⟨_, _, ha, hb⟩ | ⟨_, _, ha, hb⟩
  · rw [heq]
  · rw [ha, hb]
  · rw [ha, hb]

theorem naturalMember_of (value : Json) (key : String) (n : Nat)
    (hmember : value.member? key = some (.num (.ofNat n))) (hn : n ≤ MAX_SAFE_INTEGER) :
    naturalMember value key = some n := by
  have hsafe : isSafeNatural (.ofNat n) = true := isSafeNatural_iff.2 ⟨⟨n, hn⟩, rfl⟩
  have hvalue : Nat.ofDigitChars 10 (JsNumber.ofNat n).text.toList 0 = n := by
    rw [JsNumber.ofNat, Nat.toList_repr, Nat.ofDigitChars_ten_toDigits]
  rw [naturalMember, hmember]
  dsimp only
  rw [if_pos hsafe, hvalue]

theorem received_same (value : Json) : SameJson (received value) value :=
  sameJson_normalize value

/-- The end of the chunk that starts at an offset. -/
def chunkEnd (record : ContentRecord) (offset : Nat) : Nat :=
  min record.bytes.length (offset + CONTENT_CHUNK_BYTES)

/-- The receipt a chunk is read as. -/
def receiptOf (record : ContentRecord) (offset : Nat) : ContentReceipt where
  bytes := record.bytes.length
  sha256 := record.sha256
  mediaType := record.mediaType.name
  nextOffset := chunkEnd record offset
  complete := decide (chunkEnd record offset = record.bytes.length)
  data := String.ofList
    (base64OfBytes ((record.bytes.drop offset).take (chunkEnd record offset - offset)))

theorem contentReceipt?_chunk {record : ContentRecord} {offset : Nat}
    (hbytes : record.bytes.length ≤ BUFFER_MAX_LENGTH) (hoffset : offset ≤ record.bytes.length) :
    contentReceipt? record.path offset (received (contentChunk record.runId record offset)) =
      some (receiptOf record offset) := by
  have hsame := received_same (contentChunk record.runId record offset)
  have hend : chunkEnd record offset ≤ record.bytes.length := Nat.min_le_left _ _
  have hstart : offset ≤ chunkEnd record offset := by
    rw [chunkEnd]
    omega
  have hsafe : BUFFER_MAX_LENGTH = MAX_SAFE_INTEGER := rfl
  have hoffset' := naturalMember_of (contentChunk record.runId record offset) "offset" offset rfl
    (by omega)
  have hlength := naturalMember_of (contentChunk record.runId record offset) "bytes"
    record.bytes.length rfl (by omega)
  have hnext := naturalMember_of (contentChunk record.runId record offset) "nextOffset"
    (chunkEnd record offset) rfl (by omega)
  have hpath : textMember (contentChunk record.runId record offset) "path" = some record.path := rfl
  have hdata : textMember (contentChunk record.runId record offset) "data" =
      some (receiptOf record offset).data := rfl
  have hmedia : textMember (contentChunk record.runId record offset) "mediaType" =
      some record.mediaType.name := rfl
  have hdigest : textMember (contentChunk record.runId record offset) "sha256" =
      some record.sha256 := rfl
  have hcomplete : boolMember (contentChunk record.runId record offset) "complete" =
      some (receiptOf record offset).complete := rfl
  rw [contentReceipt?, textMember_same hsame, naturalMember_same hsame, textMember_same hsame,
    textMember_same hsame, textMember_same hsame, naturalMember_same hsame,
    naturalMember_same hsame, boolMember_same hsame, hpath, hoffset', hdata, hmedia, hdigest,
    hlength, hnext, hcomplete]
  simp only [Option.bind_eq_bind, Option.bind_some, if_pos (And.intro trivial (And.intro trivial hstart))]
  rfl

/-- What the receipts of a content say about the whole. -/
def identityOf (record : ContentRecord) : Nat × String × String :=
  (record.bytes.length, record.sha256, record.mediaType.name)

/-- A reader that has the first part of a content. -/
structure Reads (record : ContentRecord) (reader : ContentReader) : Prop where
  offset : reader.offset ≤ record.bytes.length
  content : reader.content = record.bytes.take reader.offset
  expected : reader.expected.getD (identityOf record) = identityOf record

/-- The reader behind the next chunk. -/
def readerBehind (record : ContentRecord) (offset : Nat) : ContentReader :=
  ⟨chunkEnd record offset, record.bytes.take (chunkEnd record offset), some (identityOf record)⟩

theorem reads_behind (record : ContentRecord) (offset : Nat) :
    Reads record (readerBehind record offset) :=
  ⟨Nat.min_le_left _ _, rfl, rfl⟩

theorem receive_chunk {record : ContentRecord} {reader : ContentReader}
    (hbytes : record.bytes.length ≤ BUFFER_MAX_LENGTH) (h : Reads record reader) :
    reader.receive record.path (received (contentChunk record.runId record reader.offset)) =
      .ok (readerBehind record reader.offset,
        decide (chunkEnd record reader.offset = record.bytes.length)) := by
  have hstart : reader.offset ≤ chunkEnd record reader.offset := by
    have hoffset := h.offset
    rw [chunkEnd]
    omega
  have hend : chunkEnd record reader.offset ≤ record.bytes.length := Nat.min_le_left _ _
  have hdata : bytesOfBase64 (receiptOf record reader.offset).data.toList =
      (record.bytes.drop reader.offset).take (chunkEnd record reader.offset - reader.offset) := by
    rw [receiptOf, String.toList_ofList, bytesOfBase64_base64OfBytes]
  have hlength : reader.offset +
      ((record.bytes.drop reader.offset).take
        (chunkEnd record reader.offset - reader.offset)).length =
      chunkEnd record reader.offset := by
    rw [List.length_take, List.length_drop]
    omega
  have hcontent : reader.content ++
      (record.bytes.drop reader.offset).take (chunkEnd record reader.offset - reader.offset) =
      record.bytes.take (chunkEnd record reader.offset) := by
    rw [h.content, ← List.take_add, Nat.add_sub_cancel' hstart]
  simp only [ContentReader.receive, bind_ok, orThrow_ok, require_ok, pure_ok]
  refine ⟨_, contentReceipt?_chunk hbytes h.offset, .unit, h.expected, .unit, ?_, ?_⟩
  · rw [hdata]
    exact hlength
  · rw [hdata, hcontent]
    rfl

theorem finish_whole {sha256 : Bytes → Vector UInt8 32} {runId : String} {mediaType : MediaType}
    {bytes : Bytes} {offset : Nat}
    (h : chunkEnd (recordOf sha256 runId mediaType bytes) offset = bytes.length) :
    (readerBehind (recordOf sha256 runId mediaType bytes) offset).finish sha256 =
      .ok ⟨mediaType.name, bytes⟩ := by
  have hwhole : bytes.take (chunkEnd (recordOf sha256 runId mediaType bytes) offset) = bytes := by
    rw [h, List.take_length]
  simp only [ContentReader.finish, bind_ok, orThrow_ok, pure_ok, readerBehind]
  refine ⟨_, rfl, .unit, require_ok.2 (congrArg List.length hwhole), .unit, require_ok.2 ?_, ?_⟩
  · exact congrArg (fun b => String.ofList (hexDigest sha256 b)) hwhole
  · exact congrArg (LoadedContent.mk mediaType.name) hwhole

/-- Whatever the server does between the requests, a stored content is read whole. Each
request takes the reader one chunk further. -/
theorem readFrom_stored {sha256 : Bytes → Vector UInt8 32} {runId : String}
    {mediaType : MediaType} {bytes : Bytes} (turns : Nat → List ViewAction)
    (hbytes : bytes.length ≤ BUFFER_MAX_LENGTH) {requests i : Nat} {view : ViewContents}
    {reader : ContentReader} (hsound : Sound sha256 view)
    (hholds : view.Holds (recordOf sha256 runId mediaType bytes))
    (hreads : Reads (recordOf sha256 runId mediaType bytes) reader)
    (henough : bytes.length < reader.offset + requests * CONTENT_CHUNK_BYTES) :
    ContentReader.readFrom sha256 runId (recordOf sha256 runId mediaType bytes).path turns
      requests i view reader = .ok ⟨mediaType.name, bytes⟩ := by
  induction requests generalizing i view reader with
  | zero =>
      have hoffset : reader.offset ≤ bytes.length := hreads.offset
      omega
  | succ requests ih =>
      obtain ⟨hacted, hextends⟩ := acts_sound hsound (turns i)
      have hthere := hextends.holds hholds
      obtain ⟨hafter, hstored⟩ := content_sound hacted runId
        (recordOf sha256 runId mediaType bytes).path reader.offset
      have hanswer : ((view.acts sha256 (turns i)).content runId
          (recordOf sha256 runId mediaType bytes).path reader.offset).1 =
          .ok (some (contentChunk runId (recordOf sha256 runId mediaType bytes) reader.offset)) :=
        content_of_holds hacted hthere hreads.offset
      have hreceive : reader.receive (recordOf sha256 runId mediaType bytes).path
          (received (contentChunk runId (recordOf sha256 runId mediaType bytes) reader.offset)) =
          .ok (readerBehind (recordOf sha256 runId mediaType bytes) reader.offset,
            decide (chunkEnd (recordOf sha256 runId mediaType bytes) reader.offset =
              bytes.length)) :=
        receive_chunk hbytes hreads
      rw [ContentReader.readFrom]
      dsimp only
      rw [hanswer]
      dsimp only
      rw [hreceive]
      by_cases hlast : chunkEnd (recordOf sha256 runId mediaType bytes) reader.offset = bytes.length
      · rw [decide_eq_true hlast]
        dsimp only
        rw [finish_whole hlast]
        rfl
      · rw [decide_eq_false hlast]
        have hend : chunkEnd (recordOf sha256 runId mediaType bytes) reader.offset =
            min bytes.length (reader.offset + CONTENT_CHUNK_BYTES) := rfl
        have hthen : ((view.acts sha256 (turns i)).content runId
            (recordOf sha256 runId mediaType bytes).path reader.offset).2.Holds
            (recordOf sha256 runId mediaType bytes) := by
          rw [ViewContents.Holds, hstored]
          exact hthere
        refine ih hafter hthen (reads_behind _ _) ?_
        show bytes.length < chunkEnd _ _ + _
        rw [hend] at hlast ⊢
        rw [Nat.succ_mul] at henough
        omega

/-- A content is read in as many requests as it has chunks. -/
theorem readContent_stored {sha256 : Bytes → Vector UInt8 32} {runId : String}
    {mediaType : MediaType} {bytes : Bytes} {view : ViewContents} {requests : Nat}
    (turns : Nat → List ViewAction) (hbytes : bytes.length ≤ BUFFER_MAX_LENGTH)
    (hsound : Sound sha256 view) (hholds : view.Holds (recordOf sha256 runId mediaType bytes))
    (henough : bytes.length / CONTENT_CHUNK_BYTES < requests) :
    readContent sha256 view turns requests runId (recordOf sha256 runId mediaType bytes).path =
      .ok ⟨mediaType.name, bytes⟩ := by
  refine readFrom_stored turns hbytes hsound hholds ⟨Nat.zero_le _, rfl, rfl⟩ ?_
  rw [Nat.zero_add]
  exact (Nat.div_lt_iff_lt_mul (by decide)).1 henough

/-! ## Projecting and hydrating -/

/-- The text of a content is the value again. -/
theorem decodeContent_record {sha256 : Bytes → Vector UInt8 32} {value : Json} {bytes : Bytes}
    {reference : ContentReference}
    (hbytes : bytes = encodeUtf8 (contentText value (mediaTypeOf value)).toList)
    (hmedia : reference.mediaType = (mediaTypeOf value).name)
    (hlength : reference.bytes = bytes.length)
    (hdigest : reference.sha256 = String.ofList (hexDigest sha256 bytes)) :
    decodeContent sha256 reference ⟨(mediaTypeOf value).name, bytes⟩ =
      .ok (normalizeJson value) := by
  have htext : String.ofList (decodeUtf8 bytes) = contentText value (mediaTypeOf value) := by
    rw [hbytes, decodeUtf8_encodeUtf8, String.ofList_toList]
  simp only [decodeContent, bind_ok, require_ok]
  refine ⟨.unit, ⟨hmedia.symm, hlength.symm, hdigest.symm⟩, ?_⟩
  rw [htext]
  cases value with
  | str text =>
      rw [if_neg (by show ("text/plain" : String) ≠ "application/json"; decide)]
      rfl
  | null | bool b | num n | arr items | obj members =>
      rw [if_pos (by rfl)]
      show orThrow _ (parseJson (canonicalJson _)) = _
      rw [parseJson_canonicalJson]
      rfl

theorem opaqueMember_same {a b : Json} (h : SameJson a b) : opaqueMember a = opaqueMember b := by
  rw [opaqueMember, opaqueMember]
  rcases (h.member? "opaque").eq_or_composite with heq | ⟨_, _, ha, hb⟩ | ⟨_, _, ha, hb⟩
  · rw [heq]
  · rw [ha, hb]
  · rw [ha, hb]

/-- The object under `$artifact`. -/
def artifactOf (record : ContentRecord) : List (String × Json) :=
  [("path", .str record.path), ("mediaType", .str record.mediaType.name),
    ("bytes", .num (.ofNat record.bytes.length)), ("sha256", .str record.sha256),
    ("opaque", .bool true)]

/-- What a client takes a reference for, after it has been on the wire. -/
theorem received_reference (record : ContentRecord)
    (hbytes : record.bytes.length ≤ BUFFER_MAX_LENGTH) :
    received (referenceTo record) =
        .obj [("$artifact", .obj (normalizeMembers (artifactOf record)))] ∧
      contentReference? [("$artifact", .obj (normalizeMembers (artifactOf record)))] =
        some ⟨record.path, record.mediaType.name, record.bytes.length, record.sha256, true⟩ := by
  refine ⟨rfl, ?_⟩
  have hsame : SameJson (.obj (normalizeMembers (artifactOf record))) (.obj (artifactOf record)) :=
    sameJson_normalize (.obj (artifactOf record))
  have hpath : textMember (.obj (artifactOf record)) "path" = some record.path := rfl
  have hmedia : textMember (.obj (artifactOf record)) "mediaType" = some record.mediaType.name :=
    rfl
  have hlength := naturalMember_of (.obj (artifactOf record)) "bytes" record.bytes.length rfl hbytes
  have hdigest : textMember (.obj (artifactOf record)) "sha256" = some record.sha256 := rfl
  have hopaque : opaqueMember (.obj (artifactOf record)) = some true := rfl
  have hsole : soleKey [("$artifact", Json.obj (normalizeMembers (artifactOf record)))] =
      some "$artifact" := rfl
  have hlookup : [("$artifact", Json.obj (normalizeMembers (artifactOf record)))].lookup
      "$artifact" = some (.obj (normalizeMembers (artifactOf record))) := rfl
  rw [contentReference?, if_pos hsole, hlookup]
  simp only [Option.bind_eq_bind, Option.bind_some, textMember_same hsame, hpath, hmedia,
    naturalMember_same hsame, hlength, hdigest, opaqueMember_same hsame, hopaque]

/-- A reference to what is read gives the value, and that is not hydrated again. -/
theorem hydrate_reference {sha256 : Bytes → Vector UInt8 32} {runId : String} {value : Json}
    {bytes : Bytes} {read : String → Except Unread LoadedContent}
    {again : Json → Except Unread Json}
    (hbytes : bufferOfText (contentText value (mediaTypeOf value)) = .ok bytes)
    (hread : read (recordOf sha256 runId (mediaTypeOf value) bytes).path =
      .ok ⟨(mediaTypeOf value).name, bytes⟩) :
    hydrateValue sha256 read again
      (received (referenceTo (recordOf sha256 runId (mediaTypeOf value) bytes))) =
      .ok (normalizeJson value) := by
  obtain ⟨hcontent, hlength⟩ := bufferOfText_ok.1 hbytes
  obtain ⟨hreceived, hreference⟩ :=
    received_reference (recordOf sha256 runId (mediaTypeOf value) bytes) hlength
  have hplain : soleKey [("$artifact", Json.obj (normalizeMembers
      (artifactOf (recordOf sha256 runId (mediaTypeOf value) bytes))))] ≠ some "$escaped" := by
    show some "$artifact" ≠ some "$escaped"
    decide
  rw [hreceived, hydrateValue, if_neg hplain, hreference]
  dsimp only
  rw [followReference, bind_ok]
  refine ⟨_, hread, bind_ok.2 ⟨_, decodeContent_record hcontent rfl rfl rfl, rfl⟩⟩

/-- The value is there again, with the members of its objects in any order. -/
def Restores (result : Except Unread Json) (value : Json) : Prop :=
  ∃ restored, result = .ok restored ∧ SameJson restored value

theorem hydrateContent_of_value {sha256 : Bytes → Vector UInt8 32}
    {read : String → Except Unread LoadedContent} {value restored : Json}
    (h : ∀ again, hydrateValue sha256 read again value = .ok restored) (depth : Nat) :
    hydrateContent sha256 read depth value = .ok restored := by
  cases depth with
  | zero => exact h _
  | succ depth => exact h _

/-- What is projected of a value is hydrated to the value. A short value needs nothing to
be read. A long value needs one content, and gets it in as many requests as the content
has chunks, whatever the server does before each of them. -/
theorem projectedValue_restored (sha256 : Bytes → Vector UInt8 32) (before : List ViewAction)
    (runId : String) (value : Json) (now : Int) {projected : Json} {view : ViewContents}
    (h : (ViewContents.acts sha256 {} before).projectValue sha256 runId value now =
      .ok (projected, view)) :
    ∃ bytes, bufferOfText (contentText value (mediaTypeOf value)) = .ok bytes ∧
      (bytes.length ≤ INLINE_CONTENT_BYTES → ∀ read depth,
        Restores (hydrateContent sha256 read depth (received projected)) value) ∧
      (INLINE_CONTENT_BYTES < bytes.length → ∃ path, ∀ turns requests,
        bytes.length / CONTENT_CHUNK_BYTES < requests → ∀ read depth,
          read path = readContent sha256 view turns requests runId path →
          Restores (hydrateContent sha256 read depth (received projected)) value) := by
  simp only [ViewContents.projectValue, bind_ok] at h
  obtain ⟨bytes, hbytes, h⟩ := h
  refine ⟨bytes, hbytes, fun hshort read depth => ?_, fun hlong => ?_⟩
  · rw [if_pos hshort, pure_ok, Prod.mk.injEq] at h
    refine ⟨normalizeJson value, ?_, sameJson_normalize value⟩
    refine hydrateContent_of_value (fun again => ?_) depth
    rw [← h.1, received_escape]
    exact hydrate_escape (normalizeJson value)
  · rw [if_neg (by omega)] at h
    have hempty : Sound sha256 {} := sound_empty
    obtain ⟨hsound, -⟩ := acts_sound hempty before
    obtain ⟨bytes', hbytes', rfl, hholds, hsound', -⟩ := registerContent_ok hsound h
    rw [hbytes, Except.ok.injEq] at hbytes'
    subst hbytes'
    refine ⟨(recordOf sha256 runId (mediaTypeOf value) bytes).path,
      fun turns requests henough read depth hread => ?_⟩
    refine ⟨normalizeJson value, ?_, sameJson_normalize value⟩
    refine hydrateContent_of_value (fun again => hydrate_reference hbytes ?_) depth
    rw [hread]
    exact readContent_stored turns (bufferOfText_ok.1 hbytes).2 hsound' hholds henough

/-! A text of two chunks, with the cache emptied before each request. -/

def repeated (n : Nat) : String :=
  String.ofList (List.replicate n 'a')

theorem encodeUtf8_repeated (n : Nat) : encodeUtf8 (repeated n).toList = List.replicate n 97 := by
  rw [repeated, String.toList_ofList]
  induction n with
  | zero => rfl
  | succ n ih =>
      show 97 :: encodeUtf8 (List.replicate n 'a') = _
      rw [ih]
      rfl

theorem bufferOfText_repeated {n : Nat} (hn : n ≤ BUFFER_MAX_LENGTH) :
    bufferOfText (repeated n) = .ok (List.replicate n 97) := by
  rw [bufferOfText_ok, encodeUtf8_repeated, List.length_replicate]
  exact ⟨rfl, hn⟩

def longText : String := repeated 200000

/-- The digest of `longText`. -/
def longTextSha256 (_ : Bytes) : Vector UInt8 32 :=
  ⟨#[0x22, 0x87, 0xd2, 0x07, 0xf2, 0x4a, 0x94, 0x1f, 0xf3, 0xb5, 0x6c, 0x04,
    0xc8, 0xa2, 0x5a, 0xd5, 0x6b, 0x63, 0xe3, 0x02, 0x32, 0x07, 0xb3, 0xbb,
    0x5b, 0x4a, 0xc0, 0xc9, 0x86, 0x9d, 0x74, 0xbe], rfl⟩

theorem longText_bytes : bufferOfText longText = .ok (List.replicate 200000 97) :=
  bufferOfText_repeated (by decide)

/-- A content that is new to a run is registered. -/
theorem projectValue_long (sha256 : Bytes → Vector UInt8 32) {runId : String} (value : Json)
    {bytes : Bytes} (now : Int) (view : ViewContents) (hrun : runId ∈ view.runs)
    (hbytes : bufferOfText (contentText value (mediaTypeOf value)) = .ok bytes)
    (hlong : INLINE_CONTENT_BYTES < bytes.length)
    (hnew : view.stored.get? (runId, (sha256 bytes).toList, mediaTypeOf value) = none) :
    ∃ projected later, view.projectValue sha256 runId value now = .ok (projected, later) := by
  have hrow : (view.insertContent sha256 runId bytes (mediaTypeOf value) now).stored.get?
      (runId, (sha256 bytes).toList, mediaTypeOf value) = some ⟨bytes.length, bytes, now⟩ := by
    rw [ViewContents.insertContent]
    dsimp only
    rw [Table.get?_insert?_getD, if_pos rfl, hnew]
    rfl
  have hpersist : view.persistViewContent sha256 runId bytes (mediaTypeOf value) now =
      .ok (hexDigest sha256 bytes,
        view.insertContent sha256 runId bytes (mediaTypeOf value) now) := by
    simp only [ViewContents.persistViewContent, bind_ok, require_ok, orThrow_ok, pure_ok]
    exact ⟨.unit, hrun, _, hrow, .unit, ⟨rfl, rfl⟩, trivial⟩
  refine ⟨referenceTo (recordOf sha256 runId (mediaTypeOf value) bytes),
    (view.insertContent sha256 runId bytes (mediaTypeOf value) now).rememberContent
      (recordOf sha256 runId (mediaTypeOf value) bytes), bind_ok.2 ⟨bytes, hbytes, ?_⟩⟩
  rw [if_neg (by omega)]
  exact bind_ok.2 ⟨bytes, hbytes, bind_ok.2 ⟨_, hpersist, bind_ok.2 ⟨.unit, require_ok.2 rfl, rfl⟩⟩⟩

theorem longText_restored : ∃ projected view path,
    (ViewContents.acts longTextSha256 {} [.createRun "run"]).projectValue longTextSha256 "run"
      (.str longText) 0 = .ok (projected, view) ∧
      Restores (hydrateContent longTextSha256
        (fun _ => readContent longTextSha256 view (fun _ => [.restart]) 2 "run" path) 0
        (received projected)) (.str longText) := by
  have hlength : INLINE_CONTENT_BYTES < (List.replicate 200000 (97 : UInt8)).length := by
    rw [List.length_replicate]
    decide
  obtain ⟨projected, view, hprojected⟩ := projectValue_long longTextSha256 (.str longText) 0
    (ViewContents.acts longTextSha256 {} [.createRun "run"]) (List.mem_singleton.2 rfl) longText_bytes hlength rfl
  obtain ⟨bytes, hbytes, -, hlong⟩ :=
    projectedValue_restored longTextSha256 _ "run" (.str longText) 0 hprojected
  obtain rfl : List.replicate 200000 97 = bytes := Except.ok.inj (longText_bytes.symm.trans hbytes)
  obtain ⟨path, hpath⟩ := hlong hlength
  refine ⟨projected, view, path, hprojected, hpath _ _ ?_ _ _ rfl⟩
  rw [List.length_replicate]
  decide

end PiWorkflows
