import CloudJob.Safety.ListCache

/-!
# `Safety/PageCodec.lean` — what a page is after the cache

`_encode_page` and `_decode_page` list the fields of an item by hand, and neither lists the attempt
count. The item that comes back has the default of its class there, which is zero; everything else
comes back as it was, whatever order `json.loads` finds the members in. -/

set_option autoImplicit false

namespace CloudJob

open Lib

/-! ## Documents that are the same -/

section Same

variable {a b : Json}

/-- The members of two documents that are the same. -/
theorem Json.Same.get? (h : a.Same b) (key : String) :
    (a.get? key = none ∧ b.get? key = none) ∨
      ∃ x y, a.get? key = some x ∧ b.get? key = some y ∧ x.Same y := by
  cases h with
  | @obj xs ys hkeys hvalues =>
    have hsome := hkeys key
    cases hx : (Json.obj xs).get? key with
    | none =>
      rw [hx] at hsome
      exact .inl ⟨rfl, Option.not_isSome_iff_eq_none.mp fun hy => by rw [← hsome] at hy; cases hy⟩
    | some x =>
      rw [hx] at hsome
      obtain ⟨y, hy⟩ := Option.isSome_iff_exists.mp hsome.symm
      exact .inr ⟨x, y, rfl, hy, hvalues key x y hx hy⟩
  | _ => exact .inl ⟨rfl, rfl⟩

open RedisJobListCache in
theorem Json.Same.textAt (h : a.Same b) (key : String) : textAt a key = textAt b key := by
  unfold RedisJobListCache.textAt
  rcases h.get? key with ⟨ha, hb⟩ | ⟨x, y, ha, hb, hxy⟩
  · rw [ha, hb]
  · rw [ha, hb]
    cases hxy <;> rfl

end Same

/-- Equality of two items, as Python has it: a payload is a `dict`. -/
structure JobPublicDTO.Same (x y : JobPublicDTO) : Prop where
  payload : x.payload.Same y.payload
  rest : { x with payload := .null } = { y with payload := .null }

/-- Equality of two pages. -/
structure JobListPageDTO.Same (x y : JobListPageDTO) : Prop where
  items : List.Forall₂ JobPublicDTO.Same x.items y.items
  nextCursor : x.nextCursor = y.nextCursor

/-- `json.loads` reads the text of a document as that document. -/
def Codec.ReadsJson (C : Codec) (document : Json) : Prop :=
  ∃ value, C.loads document.dumps = some value ∧ document.Same value

namespace RedisJobListCache

/-- `_encode_page`, to its text. -/
def encodePageText (C : Codec) (page : JobListPageDTO) : String := (encodePage C page).dumps

/-- `_decode_page`, from a text. -/
def decodePageText (C : Codec) (payload : String) : Option JobListPageDTO :=
  (C.loads payload).bind (decodePage C)

variable {C : Codec}

/-! ## Decoding does not look at the order of members -/

theorem decodeItem_same {a b : Json} (h : a.Same b) {item : JobPublicDTO}
    (ha : decodeItem C a = some item) : ∃ item', decodeItem C b = some item' ∧ item.Same item' := by
  unfold decodeItem at ha
  obtain ⟨idText, hidText, ha⟩ := Option.bind_eq_some_iff.mp ha
  obtain ⟨id, hid, ha⟩ := Option.bind_eq_some_iff.mp ha
  obtain ⟨ownerText, hownerText, ha⟩ := Option.bind_eq_some_iff.mp ha
  obtain ⟨ownerId, hownerId, ha⟩ := Option.bind_eq_some_iff.mp ha
  obtain ⟨typeText, htypeText, ha⟩ := Option.bind_eq_some_iff.mp ha
  obtain ⟨type, htype, ha⟩ := Option.bind_eq_some_iff.mp ha
  obtain ⟨payload, hpayload, ha⟩ := Option.bind_eq_some_iff.mp ha
  obtain ⟨statusText, hstatusText, ha⟩ := Option.bind_eq_some_iff.mp ha
  obtain ⟨status, hstatus, ha⟩ := Option.bind_eq_some_iff.mp ha
  obtain ⟨key, hkey, ha⟩ := Option.bind_eq_some_iff.mp ha
  obtain ⟨createdText, hcreatedText, ha⟩ := Option.bind_eq_some_iff.mp ha
  obtain ⟨createdAt, hcreatedAt, ha⟩ := Option.bind_eq_some_iff.mp ha
  obtain ⟨updatedText, hupdatedText, ha⟩ := Option.bind_eq_some_iff.mp ha
  obtain ⟨updatedAt, hupdatedAt, ha⟩ := Option.bind_eq_some_iff.mp ha
  rw [h.textAt] at hidText hownerText htypeText hstatusText hkey hcreatedText hupdatedText
  -- the payload is the one member that is handed on as it is
  rcases h.get? "payload" with ⟨hnone, -⟩ | ⟨x, y, hx, hy, hxy⟩
  · rw [hnone] at hpayload
    cases hpayload
  rw [hx] at hpayload
  cases hpayload
  refine ⟨{ item with payload := y }, ?_, ?_⟩
  · unfold decodeItem
    rw [hidText, hownerText, htypeText, hy, hstatusText, hkey, hcreatedText, hupdatedText]
    simp only [Option.bind_eq_bind, Option.bind_some, hid, hownerId, htype, hstatus,
      hcreatedAt, hupdatedAt]
    rcases h.get? "cancel_requested_at" with ⟨hc, hc'⟩ | ⟨c, c', hc, hc', hsame⟩
    · rw [hc] at ha
      cases ha
    · rw [hc] at ha
      rw [hc']
      cases hsame with
      | null =>
        cases ha
        rfl
      | str text =>
        obtain ⟨t, ht, ha⟩ := Option.bind_eq_some_iff.mp ha
        cases ha
        simp only [ht, Option.bind_some]
        rfl
      | _ => cases ha
  · have hpayload : item.payload = payload := by
      split at ha
      · cases ha
        rfl
      · obtain ⟨t, -, ha⟩ := Option.bind_eq_some_iff.mp ha
        cases ha
        rfl
      · cases ha
    exact ⟨hpayload ▸ hxy, rfl⟩

theorem mapM_decodeItem_same {xs ys : List Json} (h : List.Forall₂ Json.Same xs ys) :
    ∀ {items : List JobPublicDTO}, xs.mapM (decodeItem C) = some items →
      ∃ items', ys.mapM (decodeItem C) = some items' ∧
      List.Forall₂ JobPublicDTO.Same items items' := by
  induction h with
  | nil =>
    intro items hx
    cases hx
    exact ⟨[], rfl, .nil⟩
  | @cons x y xs ys hxy _ ih =>
    intro items hx
    simp only [List.mapM_cons, Option.bind_eq_bind, Option.bind_eq_some_iff] at hx ⊢
    obtain ⟨item, hitem, rest, hrest, heq⟩ := hx
    cases heq
    obtain ⟨item', hitem', hsame⟩ := decodeItem_same hxy hitem
    obtain ⟨rest', hrest', hsames⟩ := ih hrest
    exact ⟨item' :: rest', ⟨item', hitem', rest', hrest', rfl⟩, .cons hsame hsames⟩

theorem decodePage_same {a b : Json} (h : a.Same b) {page : JobListPageDTO}
    (ha : decodePage C a = some page) : ∃ page', decodePage C b = some page' ∧ page.Same page' := by
  rcases h.get? "items" with ⟨hx, -⟩ | ⟨x, y, hx, hy, hxy⟩
  · unfold decodePage at ha
    rw [hx] at ha
    cases ha
  unfold decodePage at ha ⊢
  rw [hx] at ha
  rw [hy]
  cases hxy with
  | @arr xs ys hlength hall =>
    have hsames : List.Forall₂ Json.Same xs ys := by
      refine List.forall₂_iff_get.mpr ⟨hlength, fun i hi hi' => ?_⟩
      exact hall i _ _ (List.getElem?_eq_getElem hi) (List.getElem?_eq_getElem hi')
    obtain ⟨items, hitems, ha⟩ := Option.bind_eq_some_iff.mp ha
    obtain ⟨items', hitems', hsame⟩ := mapM_decodeItem_same hsames hitems
    refine ⟨⟨items', page.nextCursor⟩, ?_, ?_⟩
    · simp only [hitems']
      rcases h.get? "next_cursor" with ⟨hc, hc'⟩ | ⟨c, c', hc, hc', hcursor⟩
      · rw [hc] at ha
        cases ha
      · rw [hc] at ha
        rw [hc']
        cases hcursor with
        | null => cases ha; rfl
        | str cursor => cases ha; rfl
        | _ => cases ha
    · have hpage : page.items = items := by
        split at ha
        · cases ha
          rfl
        · cases ha
          rfl
        · cases ha
      exact ⟨hpage ▸ hsame, rfl⟩
  | _ => cases ha

/-! ## A page that comes back -/

/-- What comes back is the page itself exactly where there was nothing to lose. -/
theorem same_iff_of_withoutAttempts {page page' : JobListPageDTO}
    (h : (withoutAttempts page).Same page') :
    page.Same page' ↔ ∀ item ∈ page.items, item.attemptCount = 0 := by
  constructor
  · intro hpage item hitem
    obtain ⟨i, hi, rfl⟩ := List.getElem_of_mem hitem
    have hlength : page.items.length = page'.items.length := hpage.items.length_eq
    have hhere := (List.forall₂_iff_get.mp hpage.items).2 i hi (hlength ▸ hi)
    have hlost := (List.forall₂_iff_get.mp h.items).2 i (by rwa [withoutAttempts, List.length_map])
      (hlength ▸ hi)
    have hcount := congrArg JobPublicDTO.attemptCount (hhere.rest.trans hlost.rest.symm)
    simpa [withoutAttempts] using hcount
  · intro hzero
    rwa [(withoutAttempts_eq_iff page).mpr hzero] at h

/-- `get_page` after `set_page`, with nothing in between. -/
theorem getPage_setPage (scope : Option Uuid) (cursor : Option String) (limit : Nat)
    {page : JobListPageDTO} (h : ∀ item ∈ page.items, C.ReadsItem item) (s : ListState) :
    ((setPage C scope cursor limit page).bind fun _ => getPage C scope cursor limit).eval
    ListState.exec s =
      (.ok (some (withoutAttempts page)),
        s.putPage (cacheKey C scope (s.versions scope) cursor limit) (encodePage C page)) := by
  obtain ⟨key, hkey⟩ : ∃ key, key = cacheKey C scope (s.versions scope) cursor limit := ⟨_, rfl⟩
  have hset : (setPage C scope cursor limit page).eval ListState.exec s =
      (.ok (), s.putPage key (encodePage C page)) := by
    rw [hkey]
    rfl
  have hpage : (s.putPage key (encodePage C page)).pages key = some (encodePage C page) := by
    rw [ListState.pages_putPage, if_pos rfl]
  have hversions : (s.putPage key (encodePage C page)).versions = s.versions := rfl
  rw [Prog.eval_bind, hset, ← hkey]
  dsimp only
  rw [getPage_eval, hversions, ← hkey, hpage, readPage, decodePage_encodePage_eq h]
  rfl

end RedisJobListCache

open RedisJobListCache

theorem decodePageText_same_iff {C : Codec} {page : JobListPageDTO}
    (hread : ∀ item ∈ page.items, C.ReadsItem item) (hjson : C.ReadsJson (encodePage C page)) :
    (∃ page', decodePageText C (encodePageText C page) = some page' ∧ page.Same page') ↔
      ∀ item ∈ page.items, item.attemptCount = 0 := by
  obtain ⟨value, hloads, hsame⟩ := hjson
  obtain ⟨page', hdecode, hlost⟩ := decodePage_same hsame (decodePage_encodePage_eq hread)
  have htext : decodePageText C (encodePageText C page) = some page' := by
    unfold decodePageText encodePageText
    rw [hloads, Option.bind_some, hdecode]
  rw [← same_iff_of_withoutAttempts hlost, htext]
  constructor
  · rintro ⟨page'', heq, hpage⟩
    cases heq
    exact hpage
  · intro hpage
    exact ⟨page', rfl, hpage⟩

/-- **Through the cache and back**, a page is what it was exactly if none of its items has been
attempted: as a text, and as what `get_page` finds after `set_page`. -/
theorem page_codec_lossless_iff (C : Codec) (page : JobListPageDTO)
    (hread : ∀ item ∈ page.items, C.ReadsItem item) (hjson : C.ReadsJson (encodePage C page)) :
    ((∃ page', decodePageText C (encodePageText C page) = some page' ∧ page.Same page') ↔
      ∀ item ∈ page.items, item.attemptCount = 0) ∧
    ∀ (scope : Option Uuid) (cursor : Option String) (limit : Nat) (s : ListState),
      (((setPage C scope cursor limit page).bind fun _ => getPage C scope cursor limit).eval
        ListState.exec
          s).1 = .ok (some page) ↔ ∀ item ∈ page.items, item.attemptCount = 0 := by
  refine ⟨decodePageText_same_iff hread hjson, fun scope cursor limit s => ?_⟩
  rw [getPage_setPage scope cursor limit hread s, ← withoutAttempts_eq_iff page]
  simp only [Except.ok.injEq, Option.some.injEq]

/-! ### One job that is pending, and the same job after an attempt -/

/-- A document is the same as itself. -/
theorem Json.Same.refl : ∀ a : Json, a.Same a
  | .null => .null
  | .bool b => .bool b
  | .int n => .int n
  | .float text => .float text
  | .str s => .str s
  | .arr items => .arr rfl fun i x y hx hy => by
      have hmem : x ∈ items := List.mem_of_getElem? hx
      rw [hx] at hy
      cases hy
      exact Json.Same.refl x
  | .obj members => .obj (fun _ => rfl) fun key x y hx hy => by
      have hmem : (key, x) ∈ members := Json.mem_of_get? hx
      rw [hx] at hy
      cases hy
      exact Json.Same.refl x
termination_by a => sizeOf a
decreasing_by
  · have := List.sizeOf_lt_of_mem hmem
    simp only [Json.arr.sizeOf_spec]
    omega
  · have := List.sizeOf_lt_of_mem hmem
    simp only [Json.obj.sizeOf_spec, Prod.mk.sizeOf_spec] at *
    omega

theorem Json.get?_of_mem {members : List (String × Json)} (hkeys : (members.map Prod.fst).Nodup)
    {key : String} {x : Json} (h : (key, x) ∈ members) : (Json.obj members).get? key = some x := by
  induction members with
  | nil => cases h
  | cons member rest ih =>
    obtain ⟨hfirst, hrest⟩ := List.nodup_cons.mp hkeys
    rcases List.mem_cons.mp h with rfl | h
    · simp [Json.get?]
    · have hne : ¬ member.1 = key := by
        intro heq
        exact hfirst (heq ▸ List.mem_map_of_mem h)
      rw [← ih hrest h]
      simp [Json.get?, hne]

/-- The members in another order. -/
theorem Json.same_of_perm {xs ys : List (String × Json)} (h : xs.Perm ys)
    (hkeys : (xs.map Prod.fst).Nodup) : (Json.obj xs).Same (.obj ys) := by
  refine .obj (fun key => ?_) fun key x y hx hy => ?_
  · rw [Bool.eq_iff_iff, Json.get?_isSome, Json.get?_isSome]
    exact (h.map Prod.fst).mem_iff
  · rw [Json.get?_of_mem ((h.map Prod.fst).nodup_iff.mp hkeys)
      (h.mem_iff.mp (Json.mem_of_get? hx))] at hy
    cases hy
    exact .refl x

/-- What `json.loads` makes of an object that was dumped: its members are in the order of their
keys. -/
def Json.sorted : Json → Json
  | .obj members => .obj (members.insertionSort fun a b => a.1 ≤ b.1)
  | other => other

def sampleItem : JobPublicDTO := (sampleJob 1).listItem

/-- The page with one job, and what is read of its text. -/
def samplePageDocument : Json :=
  .obj [("items", .arr [(RedisJobListCache.encodeItem sampleCodec sampleItem).sorted]),
    ("next_cursor", .null)]

/-- The library on that page. -/
def samplePageCodec : Codec :=
  { sampleCodec with
    loads := fun text =>
      if text = encodePageText sampleCodec ⟨[sampleItem], none⟩ then
        some samplePageDocument else none }

theorem samplePageDocument_same : (encodePage samplePageCodec ⟨[sampleItem], none⟩).Same
    samplePageDocument := by
  have hitem : (encodeItem sampleCodec sampleItem).Same
      (encodeItem sampleCodec sampleItem).sorted :=
    Json.same_of_perm (List.perm_insertionSort _ _).symm (by decide)
  refine .obj (fun key => ?_) fun key x y hx hy => ?_
  · rw [Bool.eq_iff_iff, Json.get?_isSome, Json.get?_isSome]
    rfl
  · have hx' := Json.mem_of_get? hx
    have hy' := Json.mem_of_get? hy
    simp only [List.map_cons, List.map_nil, List.mem_cons, Prod.mk.injEq, List.not_mem_nil,
      or_false] at hx' hy'
    rcases hx' with ⟨rfl, rfl⟩ | ⟨rfl, rfl⟩
    · rcases hy' with ⟨-, rfl⟩ | ⟨h, -⟩
      · refine .arr rfl fun i x y hx hy => ?_
        cases i with
        | zero =>
          cases hx
          cases hy
          exact hitem
        | succ i => cases hx
      · exact absurd h (by decide)
    · rcases hy' with ⟨h, -⟩ | ⟨-, rfl⟩
      · exact absurd h (by decide)
      · exact .null

theorem samplePageCodec_readsJson {page : JobListPageDTO}
    (h : encodePage sampleCodec page = encodePage sampleCodec ⟨[sampleItem], none⟩) :
    samplePageCodec.ReadsJson (encodePage samplePageCodec page) := by
  have hcodec : encodePage samplePageCodec page = encodePage sampleCodec page := rfl
  refine ⟨samplePageDocument, ?_, ?_⟩
  · show (if (encodePage samplePageCodec page).dumps = encodePageText sampleCodec
      ⟨[sampleItem], none⟩ then _
      else _) = _
    rw [hcodec, h]
    exact if_pos rfl
  · rw [hcodec, h]
    exact samplePageDocument_same

theorem sampleItem_reads (n : Nat) : samplePageCodec.ReadsItem
    { sampleItem with attemptCount := n } :=
  have h : samplePageCodec.ReadsItem sampleItem := by decide +kernel
  ⟨h.id, h.ownerId, h.createdAt, h.updatedAt, h.cancelRequestedAt⟩

/-- A page of a job that is still to be tried. -/
theorem page_codec_lossless_pending :
    ∃ page', decodePageText samplePageCodec (encodePageText samplePageCodec ⟨[sampleItem], none⟩) =
    some page' ∧
      JobListPageDTO.Same ⟨[sampleItem], none⟩ page' := by
  refine (page_codec_lossless_iff samplePageCodec ⟨[sampleItem], none⟩ (fun item hitem => ?_)
    (samplePageCodec_readsJson rfl)).1.mpr (by decide)
  rw [List.mem_singleton.mp hitem]
  exact sampleItem_reads 0

/-- After one attempt the page that comes back is another one. -/
theorem page_codec_loses_attempts :
    ¬ ∀ page : JobListPageDTO, (∀ item ∈ page.items, samplePageCodec.ReadsItem item) →
      samplePageCodec.ReadsJson (encodePage samplePageCodec page) →
      ∃ page', decodePageText samplePageCodec (encodePageText samplePageCodec page) = some page' ∧
        page.Same page' := by
  intro h
  have hread : ∀ item ∈ [{ sampleItem with attemptCount := 1 }],
      samplePageCodec.ReadsItem item := by
    intro item hitem
    rw [List.mem_singleton.mp hitem]
    exact sampleItem_reads 1
  have hjson : samplePageCodec.ReadsJson (encodePage samplePageCodec
      ⟨[{ sampleItem with attemptCount := 1 }], none⟩) := samplePageCodec_readsJson rfl
  have hzero := (decodePageText_same_iff hread hjson).mp (h _ hread hjson) _ List.mem_cons_self
  exact absurd hzero (by decide)

end CloudJob
