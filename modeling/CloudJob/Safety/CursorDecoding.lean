import CloudJob.Safety.Pagination

/-!
# `Safety/CursorDecoding.lean` — which texts are cursors

`_decode_cursor` once more, with what `datetime.fromisoformat` really answers: a date without an
offset is a time in no zone. `Listing.lean` looks at a cursor as the query does, which takes such a
time for one of the server's own zone; `decodeCursor_codec` says that this is all the difference.

The version is compared with `==`, and `True` and `1.0` are equal to 1. So there are two ways to be
accepted and not to be a cursor: a `v` that is 1 only by comparison, and a `created_at` without an
offset. -/

set_option autoImplicit false

namespace CloudJob

/-! ## Dates with and without an offset -/

inductive IsoTime where
  | aware (instant : Datetime)
  | naive (wall : Datetime)
deriving DecidableEq, Repr

/-- The instant a comparison with a `timestamptz` column takes it for, on a server in `zone`. -/
def IsoTime.at (zone : Datetime → Datetime) : IsoTime → Datetime
  | .aware instant => instant
  | .naive wall => zone wall

structure IsoCursor where
  createdAt : IsoTime
  jobId : Uuid
deriving DecidableEq, Repr

def IsoCursor.at (zone : Datetime → Datetime) (cursor : IsoCursor) : JobListCursor :=
  ⟨cursor.createdAt.at zone, cursor.jobId⟩

/-- The standard library, before a zone is chosen. -/
structure TextCodec where
  isoformat : IsoTime → String
  fromisoformat : String → Option IsoTime
  strUuid : Uuid → String
  parseUuid : String → Option Uuid
  urlsafeB64encode : String → String
  urlsafeB64decode : String → Option String
  loads : String → Option Json
  sha256 : String → String

namespace TextCodec

variable (T : TextCodec)

/-- The same library, as a server in `zone` compares its dates. -/
def codec (zone : Datetime → Datetime) : Codec where
  isoformat instant := T.isoformat (.aware instant)
  fromisoformat text := (T.fromisoformat text).map (IsoTime.at zone)
  strUuid := T.strUuid
  parseUuid := T.parseUuid
  urlsafeB64encode := T.urlsafeB64encode
  urlsafeB64decode := T.urlsafeB64decode
  loads := T.loads
  sha256 := T.sha256

/-- The document of `_encode_cursor`. -/
def cursorDocument (cursor : IsoCursor) : Json :=
  .obj [("v", .int 1), ("created_at", .str (T.isoformat cursor.createdAt)),
    ("id", .str (T.strUuid cursor.jobId))]

/-- `_encode_cursor`. -/
def encodeCursor (cursor : IsoCursor) : String := T.urlsafeB64encode (T.cursorDocument cursor).dumps

/-- The part of `_decode_cursor` after `json.loads`. -/
def cursorOfDocument : Json → Option IsoCursor
  | .obj members =>
      if !hasCursorShape members then none
      else if !(((Json.obj members).get? "v").any Json.isOne) then none
      else match (Json.obj members).get? "created_at", (Json.obj members).get? "id" with
        | some (.str createdAt), some (.str id) =>
            (T.fromisoformat createdAt).bind fun createdAt =>
              (T.parseUuid id).map fun id => ⟨createdAt, id⟩
        | _, _ => none
  | _ => none

/-- `_decode_cursor`. -/
def decodeCursor (cursor : String) : Except ListExc IsoCursor :=
  match ((T.urlsafeB64decode cursor).bind T.loads).bind T.cursorOfDocument with
  | some cursor => .ok cursor
  | none => .error .invalidCursor

/-- What is promised of one cursor and of the texts it is made of. -/
structure RoundTrips (cursor : IsoCursor) : Prop where
  isoformat : T.fromisoformat (T.isoformat cursor.createdAt) = some cursor.createdAt
  uuid : T.parseUuid (T.strUuid cursor.jobId) = some cursor.jobId
  base64 : T.urlsafeB64decode (T.urlsafeB64encode (T.cursorDocument cursor).dumps) =
    some (T.cursorDocument cursor).dumps
  json : ∃ value, T.loads (T.cursorDocument cursor).dumps = some value ∧
    (T.cursorDocument cursor).Same value

end TextCodec

section Decoding

variable {T : TextCodec} {zone : Datetime → Datetime} {text : String}
  {members : List (String × Json)} {cursor : IsoCursor}

theorem cursorOfDocument_codec (document : Json) :
    cursorOfDocument (T.codec zone) document = (T.cursorOfDocument document).map
    (IsoCursor.at zone) := by
  cases document with
  | obj members =>
    simp only [cursorOfDocument, TextCodec.cursorOfDocument]
    split
    · rfl
    · split
      · rfl
      · cases (Json.obj members).get? "created_at" with
        | none => rfl
        | some createdAt =>
          cases (Json.obj members).get? "id" with
          | none => cases createdAt <;> rfl
          | some id =>
            cases createdAt with
            | str createdAt =>
              cases id with
              | str id =>
                show ((T.fromisoformat createdAt).map _).bind
                  _ = ((T.fromisoformat createdAt).bind _).map _
                cases T.fromisoformat createdAt with
                | none => rfl
                | some t =>
                  show (T.parseUuid id).map _ = ((T.parseUuid id).map _).map _
                  rw [Option.map_map]
                  rfl
              | _ => rfl
            | _ => rfl
  | _ => rfl

/-- **A server in any zone** decodes what the library does, and then takes a time of no zone for its
own. -/
theorem decodeCursor_codec (text : String) :
    decodeCursor (T.codec zone) text = (T.decodeCursor text).map (IsoCursor.at zone) := by
  have hloads : ((T.codec zone).urlsafeB64decode text).bind (T.codec zone).loads =
    (T.urlsafeB64decode text).bind T.loads := rfl
  unfold decodeCursor TextCodec.decodeCursor
  rw [hloads]
  cases (T.urlsafeB64decode text).bind T.loads with
  | none => rfl
  | some document =>
    rw [Option.bind_some, Option.bind_some, cursorOfDocument_codec]
    cases T.cursorOfDocument document <;> rfl

/-! ## What gets through -/

/-- The text is read as an object with these members, each of them once. -/
structure TextCodec.Reads (T : TextCodec) (text : String) (members : List (String × Json))
    (createdAt id : String) : Prop where
  document : (T.urlsafeB64decode text).bind T.loads = some (.obj members)
  shape : hasCursorShape members = true
  createdAt : (Json.obj members).get? "created_at" = some (.str createdAt)
  id : (Json.obj members).get? "id" = some (.str id)

/-- The keys of such an object are exactly the three. -/
theorem hasCursorShape_iff : hasCursorShape members = true ↔
    ∀ key, key ∈ members.map Prod.fst ↔ key ∈ ["v", "created_at", "id"] := by
  unfold hasCursorShape
  rw [Bool.and_eq_true, List.all_eq_true, List.all_eq_true]
  constructor
  · intro ⟨hin, hall⟩ key
    refine ⟨fun hkey => ?_, fun hkey => of_decide_eq_true (hall key hkey)⟩
    obtain ⟨m, hm, rfl⟩ := List.mem_map.mp hkey
    exact of_decide_eq_true (hin m hm)
  · intro h
    exact ⟨fun m hm => decide_eq_true ((h m.1).mp (List.mem_map_of_mem hm)),
      fun key hkey => decide_eq_true ((h key).mpr hkey)⟩

/-- What is equal to 1 in Python. -/
theorem Json.isOne_iff {x : Json} : x.isOne = true ↔ x = .int 1 ∨ x = .bool true ∨
    x = .float "1.0" := by
  cases x <;> simp [Json.isOne]

/-- Exactly what gets through. -/
theorem TextCodec.decodeCursor_eq_ok : T.decodeCursor text = .ok cursor ↔
    ∃ members createdAt id v, T.Reads text members createdAt id ∧
    (Json.obj members).get? "v" = some v ∧
      v.isOne = true ∧ T.fromisoformat createdAt = some cursor.createdAt ∧
      T.parseUuid id = some cursor.jobId := by
  constructor
  · intro h
    unfold TextCodec.decodeCursor at h
    split at h
    · rename_i found hfound
      cases h
      obtain ⟨document, hdocument, hcursor⟩ := Option.bind_eq_some_iff.mp hfound
      unfold TextCodec.cursorOfDocument at hcursor
      split at hcursor
      · rename_i members
        split at hcursor
        · cases hcursor
        · rename_i hshape
          split at hcursor
          · cases hcursor
          · rename_i hone
            obtain ⟨v, hv, hone⟩ := (Option.any_eq_true ..).mp (by simpa using hone)
            split at hcursor
            · rename_i createdAt id hcreatedAt hid
              obtain ⟨t, ht, hcursor⟩ := Option.bind_eq_some_iff.mp hcursor
              obtain ⟨jobId, hjobId, rfl⟩ := Option.map_eq_some_iff.mp hcursor
              exact ⟨members, createdAt, id, v, ⟨hdocument, by simpa using hshape, hcreatedAt, hid⟩,
                hv, hone, ht,
                hjobId⟩
            · cases hcursor
      · cases hcursor
    · cases h
  · rintro ⟨members, createdAt, id, v, hreads, hv, hone, ht, hjobId⟩
    have hcursor : T.cursorOfDocument (.obj members) = some cursor := by
      simp only [TextCodec.cursorOfDocument, hreads.shape, hv, hreads.createdAt, hreads.id,
        Option.any_some, hone,
        ht, hjobId]
      rfl
    unfold TextCodec.decodeCursor
    rw [hreads.document, Option.bind_some, hcursor]

/-- Nothing else is ever raised. -/
theorem TextCodec.decodeCursor_error {e : ListExc} (h : T.decodeCursor text = .error e) :
    e = .invalidCursor := by
  unfold TextCodec.decodeCursor at h
  split at h
  · cases h
  · cases h
    rfl

/-! ## Strictness -/

/-- The cursor a text stands for, read strictly: the three members and no other, a version that is
the integer 1, a uuid, and an instant. -/
def TextCodec.Strict (T : TextCodec) (text : String) (cursor : IsoCursor) : Prop :=
  ∃ members createdAt id instant, (T.urlsafeB64decode text).bind T.loads = some (.obj members) ∧
    (∀ key, key ∈ members.map Prod.fst ↔ key ∈ ["v", "created_at", "id"]) ∧
    (Json.obj members).get? "v" = some (.int 1) ∧
    (Json.obj members).get? "created_at" = some (.str createdAt) ∧
    T.fromisoformat createdAt = some (.aware instant) ∧
    (Json.obj members).get? "id" = some (.str id) ∧ T.parseUuid id = some cursor.jobId ∧
    cursor.createdAt = .aware instant

/-- A version that is 1 only by comparison. -/
def Json.looksLikeOne (v : Json) : Prop := v = .bool true ∨ v = .float "1.0"

/-- The text is read as a document with the three members, a date and a uuid, and either its version
is `true` or `1.0`, or its version is 1 and its date has no offset. -/
def TextCodec.Lax (T : TextCodec) (text : String) : Prop :=
  ∃ members createdAt id t, T.Reads text members createdAt id ∧ T.fromisoformat createdAt = some t ∧
    (T.parseUuid id).isSome = true ∧ ∃ v, (Json.obj members).get? "v" = some v ∧
      (v.looksLikeOne ∨ (v = .int 1 ∧ ∃ wall, t = .naive wall))

/-- A cursor that is read strictly is the same in every zone. -/
theorem TextCodec.Strict.at_eq (h : T.Strict text cursor) (zone zone' : Datetime → Datetime) :
    cursor.at zone = cursor.at zone' := by
  obtain ⟨-, -, -, instant, -, -, -, -, -, -, -, hinstant⟩ := h
  unfold IsoCursor.at
  rw [hinstant]
  rfl

theorem TextCodec.strict_of_ok (h : T.decodeCursor text = .ok cursor) (hlax : ¬ T.Lax text) :
    T.Strict text cursor := by
  obtain ⟨members, createdAt, id, v, hreads, hv, hone, ht, hid⟩ := TextCodec.decodeCursor_eq_ok.mp h
  have hsome : (T.parseUuid id).isSome = true := by rw [hid]; rfl
  rcases Json.isOne_iff.mp hone with rfl | hlooks
  · cases hcreatedAt : cursor.createdAt with
    | aware instant =>
      exact ⟨members, createdAt, id, instant, hreads.document,
        hasCursorShape_iff.mp hreads.shape, hv,
        hreads.createdAt, hcreatedAt ▸ ht, hreads.id, hid, hcreatedAt⟩
    | naive wall =>
      exact absurd ⟨members, createdAt, id, _, hreads, ht, hsome, _, hv,
        .inr ⟨rfl, wall, hcreatedAt⟩⟩ hlax
  · exact absurd ⟨members, createdAt, id, _, hreads, ht, hsome, v, hv, .inl hlooks⟩ hlax

/-- A lax text gets through, to no strict cursor. -/
theorem TextCodec.Lax.not_strict (h : T.Lax text) :
    ∃ cursor, T.decodeCursor text = .ok cursor ∧ ¬ T.Strict text cursor := by
  obtain ⟨members, createdAt, id, t, hreads, ht, hid, v, hv, hlax⟩ := h
  obtain ⟨jobId, hjobId⟩ := Option.isSome_iff_exists.mp hid
  have hone : v.isOne = true := by
    rw [Json.isOne_iff]
    rcases hlax with hlooks | ⟨hint, -⟩
    · exact .inr hlooks
    · exact .inl hint
  refine ⟨⟨t, jobId⟩, TextCodec.decodeCursor_eq_ok.mpr
    ⟨members, createdAt, id, v, hreads, hv, hone, ht, hjobId⟩,
    ?_⟩
  rintro ⟨members', createdAt', id', instant, hdocument, -, hv', hcreatedAt', ht', -, -, hinstant⟩
  rw [hreads.document] at hdocument
  cases hdocument
  rw [hv] at hv'
  cases hv'
  rcases hlax with (hbool | hfloat) | ⟨-, wall, rfl⟩
  · cases hbool
  · cases hfloat
  · cases hinstant

/-- `_encode_cursor` and back. -/
theorem TextCodec.decodeCursor_encodeCursor (h : T.RoundTrips cursor) :
    T.decodeCursor (T.encodeCursor cursor) = .ok cursor := by
  obtain ⟨value, hloads, hsame⟩ := h.json
  obtain ⟨members, rfl, hshape, hv, hc, hi⟩ := cursorDocument_members hsame
  refine TextCodec.decodeCursor_eq_ok.mpr ⟨members, _, _, _, ⟨?_, hshape, hc, hi⟩, hv, rfl,
    h.isoformat, h.uuid⟩
  unfold TextCodec.encodeCursor
  rw [h.base64, Option.bind_some, hloads]

/-- **Decoding a text** raises `InvalidCursorError` or gives a strict cursor, the same instant in
every zone, exactly if the text is not lax; and what `_encode_cursor` writes it reads back. -/
theorem cursor_strict_unless_lax (T : TextCodec) :
    (∀ text, (T.decodeCursor text = .error .invalidCursor ∨
      ∃ cursor, T.decodeCursor text = .ok cursor ∧
        T.Strict text cursor ∧ ∀ zone zone' : Datetime → Datetime, ∀ job,
          keysetClause (cursor.at zone) job = keysetClause (cursor.at zone') job) ↔ ¬ T.Lax text) ∧
    ∀ cursor, T.RoundTrips cursor → T.decodeCursor (T.encodeCursor cursor) = .ok cursor := by
  refine ⟨fun text => ⟨fun h hlax => ?_, fun hlax => ?_⟩, fun cursor =>
    TextCodec.decodeCursor_encodeCursor⟩
  · obtain ⟨cursor, hok, hstrict⟩ := hlax.not_strict
    rcases h with herror | ⟨cursor', hok', hstrict', -⟩
    · rw [hok] at herror
      cases herror
    · rw [hok] at hok'
      cases hok'
      exact hstrict hstrict'
  · cases h : T.decodeCursor text with
    | error e => exact .inl (congrArg Except.error (TextCodec.decodeCursor_error h))
    | ok cursor =>
      have hstrict := TextCodec.strict_of_ok h hlax
      refine .inr ⟨cursor, rfl, hstrict, fun zone zone' job => ?_⟩
      rw [hstrict.at_eq zone zone']

/-! ### The cursor of job 1, and the same with another version -/

def laxText : String :=
  "\x7b\"created_at\":\"1970-01-01T00:00:01+00:00\",\"id\":\"" ++ sampleUuid
    1 ++ "\",\"v\":true\x7d"

def laxBase64 : String :=
  "eyJjcmVhdGVkX2F0IjoiMTk3MC0wMS0wMVQwMDowMDowMSswMDowMCIsImlkIjoiMDAwMDAwMDAtMDAwMC0wMDAwLTAwMDAtMDAwMDAwMDAwMDAxIiwidiI6dHJ1ZX0="

def laxMembers : List (String × Json) :=
  [("created_at", .str "1970-01-01T00:00:01+00:00"), ("id", .str (sampleUuid 1)), ("v", .bool true)]

def sampleIsoCursor : IsoCursor := ⟨.aware (seconds 1), 1⟩

/-- The library on these two texts. -/
def sampleTextCodec : TextCodec where
  isoformat _ := "1970-01-01T00:00:01+00:00"
  fromisoformat text := if text = "1970-01-01T00:00:01+00:00" then
    some (.aware (seconds 1)) else none
  strUuid := sampleCodec.strUuid
  parseUuid := sampleCodec.parseUuid
  urlsafeB64encode := sampleCodec.urlsafeB64encode
  urlsafeB64decode text := if text = laxBase64 then some laxText else
    sampleCodec.urlsafeB64decode text
  loads text := if text = laxText then some (.obj laxMembers) else sampleCodec.loads text
  sha256 := sampleCodec.sha256

theorem sampleIsoCursor_roundTrips : sampleTextCodec.RoundTrips sampleIsoCursor := by
  have hcursor := sampleCodec_roundTrips (show 1 ∈ [1, 2, 3] by decide)
  have hdocument : sampleTextCodec.cursorDocument sampleIsoCursor =
      cursorDocument sampleCodec (sampleJob 1).listCursor := rfl
  have hne : (cursorDocument sampleCodec (sampleJob 1).listCursor).dumps ≠ laxText ∧
      sampleCodec.urlsafeB64encode (cursorDocument sampleCodec (sampleJob 1).listCursor).dumps ≠
      laxBase64 := by
    decide +kernel
  obtain ⟨value, hloads, hsame⟩ := hcursor.json
  refine ⟨rfl, hcursor.uuid, ?_, value, ?_, ?_⟩
  · rw [hdocument]
    simp only [sampleTextCodec, if_neg hne.2]
    exact hcursor.base64
  · rw [hdocument]
    simp only [sampleTextCodec, if_neg hne.1]
    exact hloads
  · rw [hdocument]
    exact hsame

theorem cursor_strict_unless_lax_sample :
    sampleTextCodec.decodeCursor (sampleTextCodec.encodeCursor sampleIsoCursor) = .ok
    sampleIsoCursor :=
  (cursor_strict_unless_lax sampleTextCodec).2 sampleIsoCursor sampleIsoCursor_roundTrips

/-- With `true` for its version, a document is no cursor, and is decoded. -/
theorem cursor_version_true :
    ¬ ∀ text, sampleTextCodec.decodeCursor text = .error .invalidCursor ∨
      ∃ cursor, sampleTextCodec.decodeCursor text = .ok cursor ∧
      sampleTextCodec.Strict text cursor := by
  intro h
  have hdocument : (sampleTextCodec.urlsafeB64decode laxBase64).bind sampleTextCodec.loads =
      some (.obj laxMembers) := by
    simp only [sampleTextCodec, if_true, Option.bind_some]
  have hlax : sampleTextCodec.Lax laxBase64 :=
    ⟨laxMembers, _, _, _, ⟨hdocument, by decide, rfl, rfl⟩, rfl, by decide +kernel, _, rfl,
      .inl (.inl rfl)⟩
  obtain ⟨cursor, hok, hstrict⟩ := hlax.not_strict
  rcases h laxBase64 with herror | ⟨cursor', hok', hstrict'⟩
  · rw [hok] at herror
    cases herror
  · rw [hok] at hok'
    cases hok'
    exact hstrict hstrict'

end Decoding

end CloudJob
