import CloudJob.Lib.Text
import CloudJob.Safety.Pagination

/-!
# `Safety/ListCache.lean` — the list with its cache and without

A sequence of `list_jobs` requests over a database that does not change, answered once through Redis
and once without it. The cache is asked before the cursor is looked at, and its key makes the empty
cursor and the absent one the same text: that is the one pair of requests it confuses. -/

set_option autoImplicit false

namespace CloudJob

open Lib

/-! ## What the route answers -/

structure JobResponse where
  id : Uuid
  ownerId : Uuid
  type : JobType
  payload : Json
  status : JobStatus
  idempotencyKey : String
  createdAt : Datetime
  updatedAt : Datetime
  cancelRequestedAt : Option Datetime

structure JobListResponse where
  items : List JobResponse
  nextCursor : Option String

/-- `JobResponse.model_validate`. -/
def toJobResponse (job : JobPublicDTO) : JobResponse where
  id := job.id
  ownerId := job.ownerId
  type := job.type
  payload := job.payload
  status := job.status
  idempotencyKey := job.idempotencyKey
  createdAt := job.createdAt
  updatedAt := job.updatedAt
  cancelRequestedAt := job.cancelRequestedAt

def toJobListResponse (page : JobListPageDTO) : JobListResponse :=
  ⟨page.items.map toJobResponse, page.nextCursor⟩

structure ListRequest where
  user : CurrentUserDTO
  cursor : Option String
  limit : Option Int
deriving DecidableEq

/-- A request, or the end of a page's time to live. -/
inductive ListEvent where
  | request (r : ListRequest)
  | lapse (key : String)

def ListState.putPage (s : ListState) (key : String) (page : Json) : ListState :=
  { s with pages := Function.update s.pages key (some page) }

def ListState.dropPage (s : ListState) (key : String) : ListState :=
  { s with pages := Function.update s.pages key none }

theorem ListState.pages_putPage (s : ListState) (key : String) (page : Json) (k : String) :
    (s.putPage key page).pages k = if k = key then some page else s.pages k :=
  Function.update_apply s.pages key (some page) k

theorem ListState.pages_dropPage (s : ListState) (key k : String) :
    (s.dropPage key).pages k = if k = key then none else s.pages k :=
  Function.update_apply s.pages key none k

/-- The answers to a sequence of requests. -/
def serveAll (C : Codec) (cache : JobListCache) :
    List ListEvent → ListState → List (Except ListExc JobListResponse)
  | [], _ => []
  | .request r :: rest, s =>
      (serve C cache r.user r.cursor r.limit s).1.map toJobListResponse ::
        serveAll C cache rest (serve C cache r.user r.cursor r.limit s).2
  | .lapse key :: rest, s => serveAll C cache rest (s.dropPage key)

/-! ## Pages come back -/

/-- The texts of an item's dates and uuids are read back as what they were made from. -/
structure Codec.ReadsItem (C : Codec) (item : JobPublicDTO) : Prop where
  id : C.parseUuid (C.strUuid item.id) = some item.id
  ownerId : C.parseUuid (C.strUuid item.ownerId) = some item.ownerId
  createdAt : C.fromisoformat (C.isoformat item.createdAt) = some item.createdAt
  updatedAt : C.fromisoformat (C.isoformat item.updatedAt) = some item.updatedAt
  cancelRequestedAt : ∀ t ∈ item.cancelRequestedAt, C.fromisoformat (C.isoformat t) = some t

instance (C : Codec) (item : JobPublicDTO) : Decidable (C.ReadsItem item) :=
  decidable_of_iff (C.parseUuid (C.strUuid item.id) = some item.id ∧
      C.parseUuid (C.strUuid item.ownerId) = some item.ownerId ∧
      C.fromisoformat (C.isoformat item.createdAt) = some item.createdAt ∧
      C.fromisoformat (C.isoformat item.updatedAt) = some item.updatedAt ∧
      ∀ t ∈ item.cancelRequestedAt, C.fromisoformat (C.isoformat t) = some t)
    ⟨fun ⟨h₁, h₂, h₃, h₄, h₅⟩ => ⟨h₁, h₂, h₃, h₄, h₅⟩, fun ⟨h₁, h₂, h₃, h₄, h₅⟩ =>
      ⟨h₁, h₂, h₃, h₄, h₅⟩⟩

namespace RedisJobListCache

variable {C : Codec}

theorem typeOfValue_value (t : JobType) : typeOfValue t.value = some t := by
  cases t <;> decide

theorem statusOfValue_value (s : JobStatus) : statusOfValue s.value = some s := by
  cases s <;> decide

theorem decodeItem_encodeItem {item : JobPublicDTO} (h : C.ReadsItem item) :
    decodeItem C (encodeItem C item) = some { item with attemptCount := 0 } := by
  have hid : textAt (encodeItem C item) "id" = some (C.strUuid item.id) := rfl
  have howner : textAt (encodeItem C item) "owner_id" = some (C.strUuid item.ownerId) := rfl
  have htype : textAt (encodeItem C item) "type" = some item.type.value := rfl
  have hpayload : (encodeItem C item).get? "payload" = some item.payload := rfl
  have hstatus : textAt (encodeItem C item) "status" = some item.status.value := rfl
  have hkey : textAt (encodeItem C item) "idempotency_key" = some item.idempotencyKey := rfl
  have hcreated : textAt (encodeItem C item) "created_at" = some (C.isoformat item.createdAt) := rfl
  have hupdated : textAt (encodeItem C item) "updated_at" = some (C.isoformat item.updatedAt) := rfl
  have hcancel : (encodeItem C item).get? "cancel_requested_at" =
      some (item.cancelRequestedAt.elim .null fun t => .str (C.isoformat t)) := by
    unfold encodeItem
    cases item.cancelRequestedAt <;> rfl
  unfold decodeItem
  rw [hid, howner, htype, hpayload, hstatus, hkey, hcreated, hupdated, hcancel]
  simp only [Option.bind_eq_bind, Option.bind_some, h.id, h.ownerId, h.createdAt, h.updatedAt,
    typeOfValue_value, statusOfValue_value]
  cases hc : item.cancelRequestedAt with
  | none => rfl
  | some t =>
    simp only [Option.elim, h.cancelRequestedAt t hc]
    rfl

theorem mapM_decodeItem {items : List JobPublicDTO} (h : ∀ item ∈ items, C.ReadsItem item) :
    (items.map (encodeItem C)).mapM (decodeItem C) =
      some (items.map fun item => { item with attemptCount := 0 }) := by
  induction items with
  | nil => rfl
  | cons item rest ih =>
    have hitem := decodeItem_encodeItem (h item List.mem_cons_self)
    have hrest := ih fun item' hm => h item' (List.mem_cons_of_mem _ hm)
    simp only [List.map_cons, List.mapM_cons, hitem, hrest]
    rfl

/-- Neither an item nor the end of the list is written as anything else. -/
theorem get?_encodePage (page : JobListPageDTO) :
    (encodePage C page).get? "items" = some (.arr (page.items.map (encodeItem C))) ∧
    (encodePage C page).get? "next_cursor" = some (page.nextCursor.elim .null .str) := by
  unfold encodePage
  cases page.nextCursor <;> exact ⟨rfl, rfl⟩

/-- The page without what the document does not say. -/
def withoutAttempts (page : JobListPageDTO) : JobListPageDTO :=
  ⟨page.items.map fun item => { item with attemptCount := 0 }, page.nextCursor⟩

theorem withoutAttempts_eq_iff (page : JobListPageDTO) :
    withoutAttempts page = page ↔ ∀ item ∈ page.items, item.attemptCount = 0 := by
  obtain ⟨items, nextCursor⟩ := page
  simp only [withoutAttempts, JobListPageDTO.mk.injEq, and_true]
  constructor
  · intro h item hitem
    obtain ⟨i, hi, rfl⟩ := List.getElem_of_mem hitem
    have hhere := congrArg JobPublicDTO.attemptCount
      (List.getElem_of_eq h (by rwa [List.length_map]))
    simpa using hhere.symm
  · intro h
    refine (List.map_congr_left fun item hitem => ?_).trans (List.map_id items)
    have hzero := h item hitem
    obtain ⟨⟩ := item
    cases hzero
    rfl

/-- A page comes back from the cache as it was, but for the attempts of its items. -/
theorem decodePage_encodePage_eq {page : JobListPageDTO}
    (h : ∀ item ∈ page.items, C.ReadsItem item) :
    decodePage C (encodePage C page) = some (withoutAttempts page) := by
  obtain ⟨hitems, hnext⟩ := get?_encodePage (C := C) page
  unfold decodePage
  rw [hitems, hnext]
  simp only [mapM_decodeItem h, withoutAttempts]
  cases page.nextCursor <;> rfl

/-- The route does not show the attempts. -/
theorem toJobListResponse_withoutAttempts (page : JobListPageDTO) :
    toJobListResponse (withoutAttempts page) = toJobListResponse page := by
  unfold toJobListResponse withoutAttempts
  rw [List.map_map]
  rfl

/-- The rest of `get_page`, once Redis has answered. -/
def readPage (C : Codec) : Option Json → ListCode (Option JobListPageDTO)
  | none => .ret none
  | some payload =>
      match decodePage C payload with
      | some page => .ret (some page)
      | none => .raise .keyError

theorem getPage_eval (scope : Option Uuid) (cursor : Option String) (limit : Nat) (s : ListState) :
    (getPage C scope cursor limit).eval ListState.exec s =
      (readPage C (s.pages (cacheKey C scope (s.versions scope) cursor limit))).eval
      ListState.exec s := rfl

end RedisJobListCache

/-! ## One request -/

/-- The key a request is cached under, given the versions. -/
def ListRequest.key (C : Codec) (versions : Option Uuid → Nat) (r : ListRequest) : String :=
  RedisJobListCache.cacheKey C r.user.scope (versions r.user.scope) r.cursor
    (normalizeLimit r.limit)

/-- A page that was computed is stored. -/
def ListState.keepPage (C : Codec) (s : ListState) (key : String) :
    Except ListExc JobListPageDTO → Except ListExc JobListPageDTO × ListState
  | .ok page => (.ok page, s.putPage key (RedisJobListCache.encodePage C page))
  | .error e => (.error e, s)

/-- With Redis, a request answers with the page under its key, or else with what the database has,
and stores that. -/
def ListState.serveRedis (C : Codec) (r : ListRequest) (s : ListState) :
    Except ListExc JobListPageDTO × ListState :=
  match s.pages (r.key C s.versions) with
  | some payload => (match RedisJobListCache.decodePage C payload with
      | some page => .ok page
      | none => .error .keyError, s)
  | none => s.keepPage C (r.key C s.versions) (listPage C s.db r.user r.cursor r.limit)

open RedisJobListCache in
theorem serve_redis (C : Codec) (r : ListRequest) (s : ListState) :
    serve C (redisJobListCache C) r.user r.cursor r.limit s = s.serveRedis C r := by
  obtain ⟨user, cursor, limit⟩ := r
  obtain ⟨key, hkey⟩ : ∃ key, key =
    cacheKey C user.scope (s.versions user.scope) cursor (normalizeLimit limit) := ⟨_, rfl⟩
  have hget : (RedisJobListCache.getPage C user.scope cursor (normalizeLimit limit)).eval
      ListState.exec s = (readPage C (s.pages key)).eval ListState.exec s := by
    rw [hkey, getPage_eval]
  have hset : ∀ page, (RedisJobListCache.setPage C user.scope cursor
    (normalizeLimit limit) page).eval
      ListState.exec s = (.ok (), s.putPage key (encodePage C page)) := by
    intro page
    rw [hkey]
    rfl
  have hrest : ∀ decoded : Option JobListCursor,
      ((listCall (.query user.scope decoded (normalizeLimit limit + 1))).bind fun jobs =>
        (Prog.ofExcept (buildJobListPage C jobs (normalizeLimit limit))).bind fun page =>
          (RedisJobListCache.setPage C user.scope cursor (normalizeLimit limit) page).bind fun _ =>
            .ret page).eval ListState.exec s =
      s.keepPage C key (buildJobListPage C (runQuery s.db user.scope decoded
        (normalizeLimit limit + 1))
        (normalizeLimit limit)) := by
    intro decoded
    rw [listCall, Prog.eval_bind, Prog.eval_perform]
    show ((Prog.ofExcept _).bind _).eval _ _ = _
    rw [Prog.eval_bind, Prog.eval_ofExcept]
    cases buildJobListPage C _ _ with
    | error e => rfl
    | ok page =>
      dsimp only
      rw [Prog.eval_bind, hset]
      rfl
  rw [ListState.serveRedis, show (ListRequest.mk user cursor limit).key C s.versions =
    key from hkey.symm]
  unfold serve listJobs
  simp only [Prog.bind_eq, Prog.pure_eq, redisJobListCache]
  rw [Prog.eval_bind, hget]
  cases s.pages key with
  | some payload =>
    dsimp only [readPage]
    cases decodePage C payload <;> rfl
  | none =>
    rw [readPage, Prog.eval_ret]
    dsimp only
    unfold listPage
    cases cursor with
    | none => exact hrest none
    | some cursor =>
      rw [Prog.eval_bind, Prog.eval_ofExcept]
      dsimp only
      cases decodeCursor C cursor with
      | error e => rfl
      | ok decoded => exact hrest (some decoded)

/-! ## Keys -/

/-- What `str(uuid)` and SHA-256 promise about the texts of the keys: no colon is in them, and they
tell the owners and the cursors of these requests apart. -/
structure Codec.Separates (C : Codec) (requests : Set ListRequest) : Prop where
  uuid_colon : ∀ r ∈ requests, ∀ o ∈ r.user.scope, ':' ∉ (C.strUuid o).toList
  uuid : ∀ r ∈ requests, ∀ r' ∈ requests, ∀ o ∈ r.user.scope, ∀ o' ∈ r'.user.scope,
    C.strUuid o = C.strUuid o' → o = o'
  sha256_colon : ∀ r ∈ requests, ':' ∉ (C.sha256 (r.cursor.getD "")).toList
  sha256 : ∀ r ∈ requests, ∀ r' ∈ requests, C.sha256 (r.cursor.getD "") = C.sha256
    (r'.cursor.getD "") →
    r.cursor.getD "" = r'.cursor.getD ""

/-- The part of a key after its scope. -/
def keySuffix (C : Codec) (version : Nat) (cursor : Option String) (limit : Nat) : List Char :=
  "v:".toList ++ ((toString version).toList ++ ':' :: ("cursor:".toList ++
    ((C.sha256 (cursor.getD "")).toList ++ ':' :: ("limit:".toList ++ (toString limit).toList))))

theorem cacheKey_toList (C : Codec) (scope : Option Uuid) (version : Nat) (cursor : Option String)
    (limit : Nat) :
    (RedisJobListCache.cacheKey C scope version cursor limit).toList = "jobs:list:".toList ++
      match scope with
      | none => "admin".toList ++ ':' :: keySuffix C version cursor limit
      | some ownerId => "user:".toList ++ ((C.strUuid ownerId).toList ++
          ':' :: keySuffix C version cursor limit) := by
  have htext : ∀ text : String, toString text = text := fun _ => rfl
  have hversion : ":v:".toList = ':' :: "v:".toList := by decide
  have hcursor : ":cursor:".toList = ':' :: "cursor:".toList := by decide
  have hlimit : ":limit:".toList = ':' :: "limit:".toList := by decide
  have hadmin : "jobs:list:admin:v:".toList = "jobs:list:".toList ++
      ("admin".toList ++ ':' :: "v:".toList) := by
    decide +kernel
  have huser : "jobs:list:user:".toList = "jobs:list:".toList ++ "user:".toList := by decide +kernel
  unfold RedisJobListCache.cacheKey keySuffix
  cases scope <;>
    simp only [String.toList_append, List.append_assoc, htext, hversion, hcursor, hlimit,
      hadmin, huser, List.cons_append]

theorem keySuffix_inj {C : Codec} {v v' : Nat} {c c' : Option String} {l l' : Nat}
    (hc : ':' ∉ (C.sha256 (c.getD "")).toList) (hc' : ':' ∉ (C.sha256 (c'.getD "")).toList)
    (h : keySuffix C v c l = keySuffix C v' c' l') :
    v = v' ∧ C.sha256 (c.getD "") = C.sha256 (c'.getD "") ∧ l = l' := by
  rw [keySuffix, keySuffix, List.append_right_inj] at h
  obtain ⟨hv, hrest⟩ := colon_split (colon_notMem_toString v) (colon_notMem_toString v') h
  rw [List.append_right_inj] at hrest
  obtain ⟨hhash, hlimit⟩ := colon_split hc hc' hrest
  rw [List.append_right_inj] at hlimit
  exact ⟨toString_nat_injective hv, String.toList_injective hhash, toString_nat_injective hlimit⟩

/-- One key has one scope, one version and one limit, and cursors that are the same text. -/
theorem cacheKey_inj {C : Codec} {requests : Set ListRequest} (hC : C.Separates requests)
    {r r' : ListRequest} (hr : r ∈ requests) (hr' : r' ∈ requests) {v v' : Nat}
    (h : RedisJobListCache.cacheKey C r.user.scope v r.cursor (normalizeLimit r.limit) =
      RedisJobListCache.cacheKey C r'.user.scope v' r'.cursor (normalizeLimit r'.limit)) :
    r.user.scope = r'.user.scope ∧ v = v' ∧ r.cursor.getD "" = r'.cursor.getD "" ∧
      normalizeLimit r.limit = normalizeLimit r'.limit := by
  have hlist := congrArg String.toList h
  rw [cacheKey_toList, cacheKey_toList] at hlist
  have hscopes := List.append_cancel_left hlist
  have hrest : keySuffix C v r.cursor (normalizeLimit r.limit) =
      keySuffix C v' r'.cursor (normalizeLimit r'.limit) →
      v = v' ∧ r.cursor.getD "" = r'.cursor.getD "" ∧
      normalizeLimit r.limit = normalizeLimit r'.limit := by
    intro heq
    obtain ⟨hv, hhash, hlimit⟩ := keySuffix_inj (hC.sha256_colon r hr) (hC.sha256_colon r' hr') heq
    exact ⟨hv, hC.sha256 r hr r' hr' hhash, hlimit⟩
  cases hs : r.user.scope with
  | none =>
    cases hs' : r'.user.scope with
    | none =>
      simp only [hs, hs'] at hscopes
      exact ⟨rfl, hrest (List.tail_eq_of_cons_eq (List.append_cancel_left hscopes))⟩
    | some o' =>
      simp only [hs, hs'] at hscopes
      exact absurd (List.head_eq_of_cons_eq hscopes) (by decide)
  | some o =>
    cases hs' : r'.user.scope with
    | none =>
      simp only [hs, hs'] at hscopes
      exact absurd (List.head_eq_of_cons_eq hscopes) (by decide)
    | some o' =>
      simp only [hs, hs'] at hscopes
      obtain ⟨ho, hsuffix⟩ := colon_split (hC.uuid_colon r hr o hs) (hC.uuid_colon r' hr' o' hs')
        (List.append_cancel_left hscopes)
      have howner := hC.uuid r hr r' hr' o hs o' hs' (String.toList_injective ho)
      exact ⟨congrArg some howner, hrest hsuffix⟩

/-! ## What is cached -/

section Sequence

variable {C : Codec} {db : Db} {versions : Option Uuid → Nat}

/-- `r` was requested before, and what was then stored has not lapsed since. -/
def Kept (C : Codec) (versions : Option Uuid → Nat) (past : List ListEvent)
    (r : ListRequest) : Prop :=
  ∃ before after, past = before ++ .request r :: after ∧ .lapse (r.key C versions) ∉ after

/-- The request has the empty cursor, and the first page of its scope and limit is still kept from a
request that had none. -/
def Shadowed (C : Codec) (versions : Option Uuid → Nat) (past : List ListEvent)
    (r : ListRequest) : Prop :=
  r.cursor = some "" ∧ ∃ r₀ : ListRequest, r₀.cursor = none ∧ r₀.user.scope = r.user.scope ∧
    normalizeLimit r₀.limit = normalizeLimit r.limit ∧ Kept C versions past r₀

theorem Kept.concat {past : List ListEvent} {r : ListRequest} (h : Kept C versions past r)
    {ev : ListEvent} (hev : ev ≠ .lapse (r.key C versions)) : Kept C versions (past ++ [ev]) r := by
  obtain ⟨before, after, rfl, hlapse⟩ := h
  refine ⟨before, after ++ [ev], by rw [List.append_assoc, List.cons_append], fun hm => ?_⟩
  rcases List.mem_append.mp hm with hm | hm
  · exact hlapse hm
  · exact hev (List.mem_singleton.mp hm).symm

theorem kept_concat {past : List ListEvent} {r : ListRequest} {ev : ListEvent}
    (h : Kept C versions (past ++ [ev]) r) :
    ev = .request r ∨ (Kept C versions past r ∧ ev ≠ .lapse (r.key C versions)) := by
  obtain ⟨before, after, heq, hlapse⟩ := h
  rcases List.eq_nil_or_concat after with rfl | ⟨after, last, rfl⟩
  · exact .inl (List.append_inj_right' heq rfl |> List.head_eq_of_cons_eq)
  · rw [List.concat_eq_append] at heq hlapse
    rw [← List.cons_append, ← List.append_assoc] at heq
    obtain ⟨hpast, hlast⟩ := List.append_inj' heq rfl
    have hev : ev = last := List.head_eq_of_cons_eq hlast
    refine .inr ⟨⟨before, after, hpast, fun hm => hlapse (List.mem_append_left _ hm)⟩,
      fun hl => hlapse ?_⟩
    exact List.mem_append_right _ (List.mem_singleton.mpr (hl ▸ hev))

theorem Kept.mem {past : List ListEvent} {r : ListRequest} (h : Kept C versions past r) :
    .request r ∈ past := by
  obtain ⟨before, after, rfl, -⟩ := h
  exact List.mem_append_right _ List.mem_cons_self

/-- The state after `past`: every cached page is what a kept request got, and every first page that
is kept is cached. -/
structure CacheAfter (C : Codec) (db : Db) (versions : Option Uuid → Nat) (past : List ListEvent)
    (s : ListState) : Prop where
  db_eq : s.db = db
  versions_eq : s.versions = versions
  sound : ∀ key payload, s.pages key = some payload → ∃ r page, Kept C versions past r ∧
    r.key C versions = key ∧ listPage C db r.user r.cursor r.limit = .ok page ∧
    payload = RedisJobListCache.encodePage C page
  first : ∀ r, Kept C versions past r → r.cursor = none → (s.pages (r.key C versions)).isSome = true

/-- The empty text is not a cursor: it is base64 of the empty text, which is not JSON. -/
theorem decodeCursor_empty (hbase64 : C.urlsafeB64decode "" = some "")
    (hloads : C.loads "" = none) : decodeCursor C "" = .error .invalidCursor := by
  unfold decodeCursor
  rw [hbase64, Option.bind_some, hloads]
  rfl

theorem listPage_empty (h : decodeCursor C "" = .error .invalidCursor) (db : Db)
    (user : CurrentUserDTO)
    (limit : Option Int) : listPage C db user (some "") limit = .error .invalidCursor := by
  unfold listPage
  simp only [h]
  rfl

theorem listPage_first (C : Codec) (db : Db) (user : CurrentUserDTO) (limit : Option Int) :
    ∃ page, listPage C db user none limit = .ok page :=
  ⟨_, (listPage_of_holdsCursor .start).trans (buildJobListPage_eq C _
    (one_le_normalizeLimit limit))⟩

theorem listPage_items {user : CurrentUserDTO} {cursor : Option String} {limit : Option Int}
    {page : JobListPageDTO} (h : listPage C db user cursor limit = .ok page) :
    ∀ item ∈ page.items, ∃ job ∈ db.jobs.rows, item = job.listItem := by
  obtain ⟨decoded, hbuild⟩ : ∃ decoded, buildJobListPage C (runQuery db user.scope decoded
      (normalizeLimit limit + 1)) (normalizeLimit limit) = .ok page := by
    unfold listPage at h
    cases cursor with
    | none => exact ⟨none, h⟩
    | some cursor =>
      cases hd : decodeCursor C cursor with
      | error e =>
        simp only [hd] at h
        cases h
      | ok decoded =>
        simp only [hd] at h
        exact ⟨some decoded, h⟩
  rw [runQuery_eq, buildJobListPage_eq C _ (one_le_normalizeLimit limit)] at hbuild
  cases hbuild
  intro item hm
  obtain ⟨job, hjob, rfl⟩ := List.mem_map.mp hm
  exact ⟨job, List.mem_of_mem_filter
    (Keyset.mem_below.mp (List.mem_of_mem_take (List.mem_of_mem_take hjob))).1, rfl⟩

namespace CacheAfter

variable {past : List ListEvent} {s : ListState}

/-- A page lapses. -/
theorem lapse (h : CacheAfter C db versions past s) (key : String) :
    CacheAfter C db versions (past ++ [.lapse key]) (s.dropPage key) := by
  refine ⟨h.db_eq, h.versions_eq, fun key' payload hpage => ?_, fun r hkept hcursor => ?_⟩
  · rw [ListState.pages_dropPage] at hpage
    split at hpage
    · cases hpage
    · rename_i hk
      obtain ⟨r, page, hkept, hkey, hlist, hpayload⟩ := h.sound key' payload hpage
      refine ⟨r, page, hkept.concat fun hev => hk ?_, hkey, hlist, hpayload⟩
      rw [← hkey]
      exact ((ListEvent.lapse.injEq _ _).mp hev).symm
  · rcases kept_concat hkept with hev | ⟨hkept, hev⟩
    · cases hev
    · rw [ListState.pages_dropPage, if_neg fun hk => hev (congrArg ListEvent.lapse hk.symm)]
      exact h.first r hkept hcursor

/-- A request is served. -/
theorem request (h : CacheAfter C db versions past s) (r : ListRequest) :
    CacheAfter C db versions (past ++ [.request r])
      (serve C (redisJobListCache C) r.user r.cursor r.limit s).2 := by
  have hkeep : ∀ r', Kept C versions past r' → Kept C versions (past ++ [.request r]) r' :=
    fun r' hkept => hkept.concat nofun
  have hself : Kept C versions (past ++ [.request r]) r := ⟨past, [], rfl, List.not_mem_nil⟩
  rw [serve_redis, ListState.serveRedis, h.versions_eq, h.db_eq]
  cases hpage : s.pages (r.key C versions) with
  | some payload =>
    refine ⟨h.db_eq, h.versions_eq, fun key payload' hp => ?_, fun r' hkept hcursor => ?_⟩
    · obtain ⟨r', page, hkept, hrest⟩ := h.sound key payload' hp
      exact ⟨r', page, hkeep r' hkept, hrest⟩
    · rcases kept_concat hkept with hev | ⟨hkept, -⟩
      · cases hev
        show (s.pages (r.key C versions)).isSome = true
        rw [hpage]
        rfl
      · exact h.first r' hkept hcursor
  | none =>
    cases hlist : listPage C db r.user r.cursor r.limit with
    | ok page =>
      dsimp only [ListState.keepPage]
      refine ⟨h.db_eq, h.versions_eq, fun key payload hp => ?_, fun r' hkept hcursor => ?_⟩
      · rw [ListState.pages_putPage] at hp
        split at hp
        · rename_i hk
          exact ⟨r, page, hself, hk.symm, hlist, (Option.some.inj hp).symm⟩
        · obtain ⟨r', page', hkept, hrest⟩ := h.sound key payload hp
          exact ⟨r', page', hkeep r' hkept, hrest⟩
      · rw [ListState.pages_putPage]
        split
        · rfl
        · rename_i hk
          rcases kept_concat hkept with hev | ⟨hkept, -⟩
          · cases hev
            exact absurd rfl hk
          · exact h.first r' hkept hcursor
    | error e =>
      dsimp only [ListState.keepPage]
      refine ⟨h.db_eq, h.versions_eq, fun key payload hp => ?_, fun r' hkept hcursor => ?_⟩
      · obtain ⟨r', page', hkept, hrest⟩ := h.sound key payload hp
        exact ⟨r', page', hkeep r' hkept, hrest⟩
      · rcases kept_concat hkept with hev | ⟨hkept, -⟩
        · -- a request without a cursor does not fail
          cases hev
          obtain ⟨page, hok⟩ := listPage_first C db r.user r.limit
          rw [hcursor, hok] at hlist
          cases hlist
        · exact h.first r' hkept hcursor

/-- Cached and uncached, a request has the same answer exactly if it is not shadowed. -/
theorem agrees (h : CacheAfter C db versions past s) {requests : Set ListRequest}
    (hC : C.Separates requests) (hpast : ∀ r, .request r ∈ past → r ∈ requests)
    (hitems : ∀ job ∈ db.jobs.rows, C.ReadsItem job.listItem)
    (hempty : decodeCursor C "" = .error .invalidCursor) {r : ListRequest} (hr : r ∈ requests) :
    ((serve C (redisJobListCache C) r.user r.cursor r.limit s).1.map toJobListResponse =
      (listPage C db r.user r.cursor r.limit).map toJobListResponse) ↔
      ¬ Shadowed C versions past r := by
  have herror := listPage_empty hempty db
  rw [serve_redis, ListState.serveRedis, h.versions_eq, h.db_eq]
  cases hpage : s.pages (r.key C versions) with
  | none =>
    constructor
    · rintro - ⟨hcursor, r₀, hcursor₀, hscope, hlimit, hkept⟩
      have hkey : r₀.key C versions = r.key C versions := by
        rw [ListRequest.key, ListRequest.key, hscope, hlimit, hcursor₀, hcursor]
        rfl
      have hsome := h.first r₀ hkept hcursor₀
      rw [hkey, hpage] at hsome
      cases hsome
    · intro _
      cases listPage C db r.user r.cursor r.limit <;> rfl
  | some payload =>
    obtain ⟨r₀, page, hkept, hkey, hlist, rfl⟩ := h.sound _ payload hpage
    have hdecode : RedisJobListCache.decodePage C (RedisJobListCache.encodePage C page) =
        some (RedisJobListCache.withoutAttempts page) :=
      RedisJobListCache.decodePage_encodePage_eq fun item hm => by
        obtain ⟨job, hjob, rfl⟩ := listPage_items hlist item hm
        exact hitems job hjob
    have hresponse := RedisJobListCache.toJobListResponse_withoutAttempts page
    obtain ⟨hscope, -, hcursor, hlimit⟩ := cacheKey_inj hC (hpast r₀ hkept.mem) hr hkey
    simp only [hdecode, Except.map, hresponse]
    have hsame : r₀.cursor = r.cursor → listPage C db r.user r.cursor r.limit = .ok page := by
      intro hc
      rw [← hlist]
      unfold listPage
      rw [hscope, hlimit, hc]
    constructor
    · rintro hagree ⟨hc, -⟩
      rw [hc, herror] at hagree
      cases hagree
    · intro hshadow
      -- the two cursors are the same text: they are equal, or one is absent and the other empty
      cases hc₀ : r₀.cursor with
      | none =>
        cases hc : r.cursor with
        | none => rw [← hc, hsame (hc₀.trans hc.symm)]
        | some text =>
          rw [hc₀, hc, Option.getD_none, Option.getD_some] at hcursor
          exact absurd ⟨hc.trans (congrArg some hcursor.symm), r₀, hc₀, hscope, hlimit,
            hkept⟩ hshadow
      | some text₀ =>
        cases hc : r.cursor with
        | none =>
          rw [hc₀, hc, Option.getD_none, Option.getD_some] at hcursor
          rw [hc₀, hcursor, herror] at hlist
          cases hlist
        | some text =>
          rw [hc₀, hc, Option.getD_some, Option.getD_some] at hcursor
          rw [← hc, hsame (by rw [hc₀, hc, hcursor])]

end CacheAfter

/-- The answer without a cache. -/
def ListEvent.answer (C : Codec) (db : Db) : ListEvent → Option (Except ListExc JobListResponse)
  | .request r => some ((listPage C db r.user r.cursor r.limit).map toJobListResponse)
  | .lapse _ => none

theorem serveAll_noOp (events : List ListEvent) {s : ListState} (h : s.db = db) :
    serveAll C noOpJobListCache events s = events.filterMap (ListEvent.answer C db) := by
  induction events generalizing s with
  | nil => rfl
  | cons ev rest ih =>
    cases ev with
    | request r => simp only [serveAll, serve_noOp, List.filterMap_cons, ListEvent.answer, h, ih h]
    | lapse key =>
      simp only [serveAll, List.filterMap_cons, ListEvent.answer]
      exact ih h

/-- The rest of a sequence, after `past`. -/
theorem serveAll_redis_iff {requests : Set ListRequest} (hC : C.Separates requests)
    (hitems : ∀ job ∈ db.jobs.rows, C.ReadsItem job.listItem)
    (hempty : decodeCursor C "" = .error .invalidCursor) (events : List ListEvent)
    {past : List ListEvent} {s : ListState} (h : CacheAfter C db versions past s)
    (hall : ∀ r, .request r ∈ past ++ events → r ∈ requests) :
    serveAll C (redisJobListCache C) events s = events.filterMap (ListEvent.answer C db) ↔
      ∀ before r rest, events = before ++ .request r :: rest →
        ¬ Shadowed C versions (past ++ before) r := by
  induction events generalizing past s with
  | nil =>
    refine ⟨fun _ before r rest heq => ?_, fun _ => rfl⟩
    exact absurd heq.symm (List.append_ne_nil_of_right_ne_nil _ (List.cons_ne_nil _ _))
  | cons ev rest ih =>
    have hall' : ∀ r, .request r ∈ (past ++ [ev]) ++ rest → r ∈ requests := fun r hm =>
      hall r (by simpa using hm)
    -- an event of the sequence is its first one or one of the rest
    have hsplit : (∀ before r rest', ev :: rest = before ++ .request r :: rest' →
          ¬ Shadowed C versions (past ++ before) r) ↔
        (∀ r, ev = .request r → ¬ Shadowed C versions past r) ∧
        ∀ before r rest', rest = before ++ .request r :: rest' →
          ¬ Shadowed C versions ((past ++ [ev]) ++ before) r := by
      constructor
      · intro hno
        refine ⟨fun r hev => ?_, fun before r rest' heq => ?_⟩
        · have := hno [] r rest (by rw [hev]; rfl)
          rwa [List.append_nil] at this
        · have := hno (ev :: before) r rest' (by rw [heq]; rfl)
          rwa [List.append_cons] at this
      · rintro ⟨hfirst, hrest⟩ before r rest' heq
        cases before with
        | nil =>
          rw [List.append_nil]
          exact hfirst r (List.head_eq_of_cons_eq heq)
        | cons ev' before =>
          rw [List.append_cons, ← List.head_eq_of_cons_eq heq]
          exact hrest before r rest' (List.tail_eq_of_cons_eq heq)
    rw [hsplit]
    cases ev with
    | request r =>
      have hr : r ∈ requests := hall r (List.mem_append_right _ List.mem_cons_self)
      have hagree := h.agrees hC (fun r' hm => hall r' (List.mem_append_left _ hm)) hitems hempty hr
      rw [← ih (h.request r) hall']
      simp only [serveAll, List.filterMap_cons, ListEvent.answer, List.cons.injEq, hagree]
      exact and_congr_left' ⟨fun hs r' hr' => by cases hr'; exact hs, fun hs => hs r rfl⟩
    | lapse key =>
      rw [← ih (h.lapse key) hall']
      simp only [serveAll, List.filterMap_cons, ListEvent.answer]
      exact ⟨fun heq => ⟨nofun, heq⟩, fun h => h.2⟩

/-- Over one database, from an empty cache, the answers with Redis are those without it exactly if
no request with the empty cursor finds the first page of its scope and limit cached. -/
theorem cached_list_agrees_iff (C : Codec) (db : Db) (versions : Option Uuid → Nat)
    (events : List ListEvent) (hC : C.Separates {r | .request r ∈ events})
    (hitems : ∀ job ∈ db.jobs.rows, C.ReadsItem job.listItem)
    (hbase64 : C.urlsafeB64decode "" = some "") (hloads : C.loads "" = none) :
    serveAll C (redisJobListCache C) events ⟨db, versions, fun _ => none⟩ =
        serveAll C noOpJobListCache events ⟨db, versions, fun _ => none⟩ ↔
      ∀ past r rest, events = past ++ .request r :: rest → ¬ Shadowed C versions past r := by
  have hempty := decodeCursor_empty hbase64 hloads
  have hstart : CacheAfter C db versions [] ⟨db, versions, fun _ => none⟩ := by
    refine ⟨rfl, rfl, nofun, ?_⟩
    rintro r ⟨before, after, heq, -⟩
    exact absurd heq.symm (List.append_ne_nil_of_right_ne_nil _ (List.cons_ne_nil _ _))
  rw [serveAll_noOp events rfl]
  exact serveAll_redis_iff hC hitems hempty events hstart fun r hm => hm

/-- User 7 asks for the first page, and then for the page of the empty cursor. -/
def emptyCursorEvents : List ListEvent :=
  [.request ⟨⟨7, .user⟩, none, none⟩, .request ⟨⟨7, .user⟩, some "", none⟩]

/-- The second answer is `InvalidCursorError` without the cache and the first page with it. -/
theorem cached_list_disagrees_emptyCursor :
    ¬ ∀ (db : Db) (versions : Option Uuid → Nat) (events : List ListEvent),
      serveAll sampleCodec (redisJobListCache sampleCodec) events ⟨db, versions, fun _ => none⟩ =
        serveAll sampleCodec noOpJobListCache events ⟨db, versions, fun _ => none⟩ := by
  intro h
  have hall := congrArg (List.map Except.isOk) (h sampleDb (fun _ => 0) emptyCursorEvents)
  exact absurd hall (by decide +kernel)

/-- First pages of user 7. -/
theorem sampleCodec_separates {requests : Set ListRequest}
    (h : ∀ r ∈ requests, r.user = ⟨7, .user⟩ ∧ r.cursor = none) :
    sampleCodec.Separates requests where
  uuid_colon := by
    intro r hr o ho
    rw [(h r hr).1] at ho
    cases ho
    decide +kernel
  uuid := by
    intro r hr r' hr' o ho o' ho' _
    rw [(h r hr).1] at ho
    rw [(h r' hr').1] at ho'
    cases ho
    cases ho'
    rfl
  sha256_colon := by
    intro r hr
    rw [(h r hr).2]
    decide +kernel
  sha256 := by
    intro r hr r' hr' _
    rw [(h r hr).2, (h r' hr').2]

/-- User 7 asks for the first page twice, once with the default limit and once with the limit it
is. -/
def firstPageEvents : List ListEvent :=
  [.request ⟨⟨7, .user⟩, none, none⟩, .request ⟨⟨7, .user⟩, none, some 20⟩]

theorem cached_list_agrees_firstPage :
    serveAll sampleCodec (redisJobListCache sampleCodec) firstPageEvents ⟨sampleDb, fun _ =>
      0, fun _ => none⟩ =
      serveAll sampleCodec noOpJobListCache firstPageEvents ⟨sampleDb, fun _ =>
        0, fun _ => none⟩ := by
  have hrequest : ∀ r, .request r ∈ firstPageEvents → r.user = ⟨7, .user⟩ ∧ r.cursor = none := by
    intro r hm
    simp only [firstPageEvents, List.mem_cons, ListEvent.request.injEq, List.not_mem_nil,
      or_false] at hm
    rcases hm with rfl | rfl <;> exact ⟨rfl, rfl⟩
  refine (cached_list_agrees_iff sampleCodec sampleDb (fun _ => 0) firstPageEvents
    (sampleCodec_separates hrequest) (by decide +kernel) (by decide +kernel)
    (by decide +kernel)).mpr ?_
  rintro past r rest heq ⟨hcursor, -⟩
  rw [(hrequest r (heq ▸ List.mem_append_right _ List.mem_cons_self)).2] at hcursor
  cases hcursor

end Sequence

end CloudJob
