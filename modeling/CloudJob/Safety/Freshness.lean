import CloudJob.Lib.Rely
import CloudJob.Safety.ListCache

/-!
# `Safety/Freshness.lean` — the list cache among writers

`list_jobs` and writers, interleaved call by call. A writer commits and then invalidates its owner;
a listing reads the version of its scope, looks for a page, queries, reads the version again and
stores. Redis answers every call and forgets pages only (`lapse`).

The state keeps what a statement about a run needs: the databases there have been, which of them a
writer's commit made, and for every version of a scope the newest commit whose invalidation that
version is not older than (`fresh`). -/

set_option autoImplicit false

namespace CloudJob

open Lib

/-! ## The machine -/

structure CacheState where
  list : ListState
  /-- The databases so far, the newest last. -/
  dbs : List Db
  /-- The database a writer's commit made. -/
  committed : Pid → Nat
  fresh : Option Uuid → Nat → Nat
  /-- A listing between its query and its second look at the version: its scope, and the database it
  has queried. -/
  querying : Pid → Option (Option Uuid × Nat)
  asked : Pid → Option ListRequest
  /-- What a listing may not be older than: `fresh` as it was when the listing began. -/
  since : Pid → Nat

namespace CacheState

def init (db : Db) : CacheState where
  list := ⟨db, fun _ => 0, fun _ => none⟩
  dbs := [db]
  committed _ := 0
  fresh _ _ := 0
  querying _ := none
  asked _ := none
  since _ := 0

/-- An invalidation of `owner` is one of the scope. -/
def Covers (owner : Uuid) (scope : Option Uuid) : Prop := scope = some owner ∨ scope = none

instance (owner : Uuid) (scope : Option Uuid) : Decidable (Covers owner scope) :=
  inferInstanceAs (Decidable (_ ∨ _))

/-- What is written down of a call. -/
def note (p : Pid) (s : CacheState) : ListOp → CacheState
  | .commit stmts => { s with
      dbs := s.dbs ++ [s.list.db.applyAll stmts]
      committed := Function.update s.committed p s.dbs.length }
  | .query scope _ _ => { s with
      querying := Function.update s.querying p (some (scope, s.dbs.length - 1)) }
  | .getVersion _ => { s with querying := Function.update s.querying p none }
  | .incrVersions owner => { s with
      fresh := fun scope v =>
        if Covers owner scope ∧ s.list.versions scope < v then max (s.fresh scope v) (s.committed p)
        else s.fresh scope v }
  | _ => s

/-- One call. -/
def call (p : Pid) (o : ListOp) (s : CacheState) : CacheState :=
  { s.note p o with list := (ListState.exec o s.list).2 }

end CacheState

inductive CacheCall where
  | list (r : ListRequest)
  | write (stmts : List Stmt) (owner : Uuid)

/-- A writer commits its change, and then invalidates the lists of the owner. -/
def CacheCall.prog (C : Codec) : CacheCall → ListCode (Option JobListPageDTO)
  | .list r => (listJobs C (redisJobListCache C) r.user r.cursor r.limit).bind fun page =>
      .ret (some page)
  | .write stmts owner =>
      (listCall (.commit stmts)).bind fun _ =>
        (RedisJobListCache.invalidateOwner owner).bind fun _ => .ret none

def CacheState.start (p : Pid) (c : CacheCall) (s : CacheState) : Option CacheState :=
  match c with
  | .write _ _ => some s
  | .list r =>
      if (s.asked p).isSome then none
      else some { s with
        asked := Function.update s.asked p (some r)
        since := Function.update s.since p (s.fresh r.user.scope (s.list.versions r.user.scope)) }

/-- Listings and writers over one Redis and one database. The environment lets pages lapse. -/
def cacheMachine (C : Codec) : Machine listSig where
  State := CacheState
  Choice := Unit
  Env := String
  Call := CacheCall
  Out := Option JobListPageDTO
  exec p o _ s := some ((ListState.exec o s.list).1, s.call p o)
  env key s := some { s with list := s.list.dropPage key }
  crash p s := { s with querying := Function.update s.querying p none }
  crashed := .redis "crashed"
  prog := CacheCall.prog C
  start := CacheState.start

/-! ## The contract -/

/-- The payload under a key is the page some listing of a database made, and that database is not
older than the version in the key. Where pages are to come back whole, none of its items has been
attempted. -/
def CacheState.Stored (C : Codec) (whole : Prop) (s : CacheState) (key : String)
    (payload : Json) : Prop :=
  ∃ q r v i db page, s.asked q = some r ∧
    key = RedisJobListCache.cacheKey C r.user.scope v r.cursor (normalizeLimit r.limit) ∧
    v ≤ s.list.versions r.user.scope ∧ s.fresh r.user.scope v ≤ i ∧ s.dbs[i]? = some db ∧
    listPage C db r.user r.cursor r.limit = .ok page ∧
    (whole → ∀ item ∈ page.items, item.attemptCount = 0) ∧
    payload = RedisJobListCache.encodePage C page

structure CacheInv (C : Codec) (whole : Prop) (s : CacheState) : Prop where
  last : s.dbs.getLast? = some s.list.db
  committed : ∀ p, s.committed p < s.dbs.length
  mono : ∀ scope, Monotone (s.fresh scope)
  /-- Versions to come are as fresh as the present one. -/
  top : ∀ scope v, s.list.versions scope ≤ v →
    s.fresh scope v = s.fresh scope (s.list.versions scope)
  bound : ∀ scope v, s.fresh scope v < s.dbs.length
  querying : ∀ p scope i, s.querying p = some (scope, i) → s.fresh scope (s.list.versions scope) ≤ i
  pages : ∀ key payload, s.list.pages key = some payload → s.Stored C whole key payload

/-- What only grows. -/
structure CacheState.GrowsTo (s s' : CacheState) : Prop where
  dbs : s.dbs <+: s'.dbs
  versions : ∀ scope, s.list.versions scope ≤ s'.list.versions scope
  fresh : ∀ scope v, v ≤ s.list.versions scope → s'.fresh scope v = s.fresh scope v
  asked : ∀ q r, s.asked q = some r → s'.asked q = some r

/-- What the others leave alone. -/
structure CacheRely (p : Pid) (s s' : CacheState) : Prop where
  grows : s.GrowsTo s'
  querying : s'.querying p = s.querying p
  since : s'.since p = s.since p

namespace CacheState.GrowsTo

variable {s s' s'' : CacheState}

theorem refl (s : CacheState) : s.GrowsTo s :=
  ⟨List.prefix_rfl, fun _ => le_rfl, fun _ _ _ => rfl, fun _ _ h => h⟩

theorem trans (h : s.GrowsTo s') (h' : s'.GrowsTo s'') : s.GrowsTo s'' where
  dbs := h.dbs.trans h'.dbs
  versions scope := (h.versions scope).trans (h'.versions scope)
  fresh scope v hv := (h'.fresh scope v (hv.trans (h.versions scope))).trans (h.fresh scope v hv)
  asked q r hq := h'.asked q r (h.asked q r hq)

theorem getElem? (h : s.GrowsTo s') {i : Nat} {db : Db} (hi : s.dbs[i]? = some db) :
    s'.dbs[i]? = some db := by
  obtain ⟨more, hmore⟩ := h.dbs
  rw [← hmore, List.getElem?_append_left (List.getElem?_eq_some_iff.mp hi).1]
  exact hi

/-- What stored pages rest on stays. -/
theorem stored {C : Codec} {whole : Prop} {key : String} {payload : Json} (h : s.GrowsTo s')
    (hs : s.Stored C whole key payload) : s'.Stored C whole key payload := by
  obtain ⟨q, r, v, i, db, page, hq, hkey, hv, hi, hdb, hrest⟩ := hs
  refine ⟨q, r, v, i, db, page, h.asked q r hq, hkey, hv.trans (h.versions _), ?_,
    h.getElem? hdb, hrest⟩
  rw [h.fresh _ v hv]
  exact hi

end CacheState.GrowsTo

/-- A page is stored where it belongs. -/
def CachePre (C : Codec) (whole : Prop) (o : ListOp) (s : CacheState) : Prop :=
  ∀ key payload, o = .setPage key payload → s.Stored C whole key payload

/-- When an invalidation goes through, every listing of its scope that has queried and not yet read
the version again has seen the commit. -/
def SeesCommit (p : Pid) (o : ListOp) (s : CacheState) : Prop :=
  ∀ owner, o = .incrVersions owner → ∀ q scope i, s.querying q = some (scope, i) →
    CacheState.Covers owner scope → s.committed p ≤ i

/-- No job on the page that is queried has been attempted. The query is for one job more. -/
def QueriesUnattempted (o : ListOp) (s : CacheState) : Prop :=
  ∀ scope cursor limit, o = .query scope cursor limit →
    ∀ job ∈ (runQuery s.list.db scope cursor limit).take (limit - 1), job.attemptCount = 0

variable {C : Codec} {whole : Prop} {p : Pid} {s : CacheState}

theorem CacheState.call_grows (p : Pid) (o : ListOp) (s : CacheState) : s.GrowsTo (s.call p o) := by
  cases o with
  | commit stmts => exact ⟨List.prefix_append _ _, fun _ => le_rfl, fun _ _ _ =>
      rfl, fun _ _ h => h⟩
  | incrVersions owner =>
    refine ⟨List.prefix_rfl, fun scope => ?_, fun scope v hv => ?_, fun _ _ h => h⟩
    · simp only [call, ListState.exec]
      split <;> omega
    · simp only [call, note]
      rw [if_neg fun h => absurd h.2 (Nat.not_lt.mpr hv)]
  | _ => exact ⟨List.prefix_rfl, fun _ => le_rfl, fun _ _ _ => rfl, fun _ _ h => h⟩

theorem CacheState.call_rely {q : Pid} (o : ListOp) (h : q ≠ p) : CacheRely q s (s.call p o) := by
  refine ⟨s.call_grows p o, ?_, ?_⟩
  · cases o with
    | query | getVersion => exact Function.update_of_ne h _ _
    | _ => rfl
  · cases o <;> rfl

theorem CacheInv.committed_length (h : CacheInv C whole s) : 0 < s.dbs.length :=
  (Nat.zero_le _).trans_lt (h.committed 0)

section Incr

variable (p s) (owner : Uuid) (scope : Option Uuid)

theorem CacheState.fresh_incrVersions (v : Nat) : (s.call p (.incrVersions owner)).fresh scope v =
    if Covers owner scope ∧ s.list.versions scope < v then max (s.fresh scope v) (s.committed p)
    else s.fresh scope v := rfl

theorem CacheState.versions_incrVersions : (s.call p (.incrVersions owner)).list.versions scope =
    if Covers owner scope then s.list.versions scope + 1 else s.list.versions scope := rfl

variable {owner scope} in
/-- The version that is made is at least as fresh as the commit. -/
theorem CacheState.committed_le_fresh (h : Covers owner scope) :
    s.committed p ≤ (s.call p (.incrVersions owner)).fresh scope
      ((s.call p (.incrVersions owner)).list.versions scope) := by
  rw [versions_incrVersions, fresh_incrVersions, if_pos h, if_pos ⟨h, Nat.lt_succ_self _⟩]
  exact le_max_right _ _

end Incr

open CacheState in
/-- After a version went up: what is stored under the new one has to be as new as the commit. -/
theorem CacheInv.incrVersions (h : CacheInv C whole s) {owner : Uuid}
    (hmay : SeesCommit p (.incrVersions owner) s) :
    CacheInv C whole (s.call p (.incrVersions owner)) := by
  refine ⟨h.last, h.committed, fun scope v v' hle => ?_, fun scope v hv => ?_, fun scope v => ?_,
    fun q scope i hq => ?_, fun key payload hpage =>
    (s.call_grows p _).stored (h.pages key payload hpage)⟩
  · have hm := h.mono scope hle
    rw [fresh_incrVersions, fresh_incrVersions]
    by_cases hv : Covers owner scope ∧ s.list.versions scope < v
    · rw [if_pos hv, if_pos ⟨hv.1, hv.2.trans_le hle⟩]
      exact max_le_max_right _ hm
    · rw [if_neg hv]
      split
      · exact hm.trans (le_max_left _ _)
      · exact hm
  · rw [versions_incrVersions] at hv ⊢
    rw [fresh_incrVersions, fresh_incrVersions]
    by_cases hc : Covers owner scope
    · rw [if_pos hc] at hv ⊢
      rw [if_pos ⟨hc, hv⟩, if_pos ⟨hc, Nat.lt_succ_self _⟩, h.top scope v (Nat.le_of_succ_le hv),
        h.top scope _ (Nat.le_succ _)]
    · rw [if_neg hc] at hv ⊢
      rw [if_neg fun h => hc h.1, if_neg fun h => hc h.1]
      exact h.top scope v hv
  · rw [fresh_incrVersions]
    split
    · exact max_lt (h.bound scope v) (h.committed p)
    · exact h.bound scope v
  · have hold := h.querying q scope i hq
    rw [versions_incrVersions, fresh_incrVersions]
    by_cases hc : Covers owner scope
    · rw [if_pos hc, if_pos ⟨hc, Nat.lt_succ_self _⟩, h.top scope _ (Nat.le_succ _)]
      exact max_le hold (hmay owner rfl q scope i hq hc)
    · rw [if_neg hc, if_neg fun h => hc h.1]
      exact hold

/-- Every call keeps the invariant. -/
theorem CacheInv.call (h : CacheInv C whole s) {o : ListOp} (hpre : CachePre C whole o s)
    (hmay : SeesCommit p o s) : CacheInv C whole (s.call p o) := by
  have hpages : ∀ key payload, s.list.pages key = some payload →
      (s.call p o).Stored C whole key payload :=
    fun key payload hpage => (s.call_grows p o).stored (h.pages key payload hpage)
  cases o with
  | incrVersions owner => exact h.incrVersions hmay
  | getPage key => exact ⟨h.last, h.committed, h.mono, h.top, h.bound, h.querying, hpages⟩
  | setPage key payload =>
    refine ⟨h.last, h.committed, h.mono, h.top, h.bound, h.querying, fun key' payload' hpage => ?_⟩
    have hput := s.list.pages_putPage key payload key'
    rw [show (s.list.putPage key payload).pages key' = some payload' from hpage] at hput
    split at hput
    · rename_i hk
      subst hk
      cases hput
      exact (s.call_grows p _).stored (hpre key' payload rfl)
    · exact hpages key' payload' hput.symm
  | getVersion scope' =>
    refine ⟨h.last, h.committed, h.mono, h.top, h.bound, fun q scope i hq => ?_, hpages⟩
    by_cases hqp : q = p
    · subst hqp
      rw [show (s.call q (.getVersion scope')).querying q = none from Function.update_self ..] at hq
      cases hq
    · rw [(CacheState.call_rely (.getVersion scope') hqp).querying] at hq
      exact h.querying q scope i hq
  | query scope' cursor limit =>
    refine ⟨h.last, h.committed, h.mono, h.top, h.bound, fun q scope i hq => ?_, hpages⟩
    by_cases hqp : q = p
    · subst hqp
      rw [show (s.call q (.query scope' cursor limit)).querying q = some
        (scope', s.dbs.length - 1) from
        Function.update_self ..] at hq
      cases hq
      exact Nat.le_sub_one_of_lt (h.bound _ _)
    · rw [(CacheState.call_rely (.query scope' cursor limit) hqp).querying] at hq
      exact h.querying q scope i hq
  | commit stmts =>
    have hlen : (s.call p (.commit stmts)).dbs.length = s.dbs.length + 1 := by
      simp [CacheState.call, CacheState.note]
    refine ⟨?_, fun q => ?_, h.mono, h.top, fun scope v => ?_, h.querying, hpages⟩
    · simp [CacheState.call, CacheState.note, ListState.exec]
    · rw [hlen]
      by_cases hqp : q = p
      · subst hqp
        rw [show (s.call q (.commit stmts)).committed q = s.dbs.length from Function.update_self ..]
        exact Nat.lt_succ_self _
      · rw [show (s.call p (.commit stmts)).committed q = s.committed q from
          Function.update_of_ne hqp ..]
        exact (h.committed q).trans (Nat.lt_succ_self _)
    · rw [hlen]
      exact (h.bound scope v).trans (Nat.lt_succ_self _)

theorem CacheState.start_grows {c : CacheCall} {s' : CacheState} (h : s.start p c = some s') :
    s.GrowsTo s' ∧ s'.list = s.list ∧ s'.dbs = s.dbs ∧ s'.committed = s.committed ∧
    s'.fresh = s.fresh ∧
      s'.querying = s.querying ∧ ∀ q, q ≠ p → s'.since q = s.since q := by
  cases c with
  | write =>
    cases h
    exact ⟨.refl s, rfl, rfl, rfl, rfl, rfl, fun _ _ => rfl⟩
  | list r =>
    simp only [CacheState.start] at h
    split at h
    · cases h
    · rename_i hnone
      cases h
      refine ⟨⟨List.prefix_rfl, fun _ => le_rfl, fun _ _ _ => rfl, fun q r' hq => ?_⟩, rfl, rfl,
        rfl, rfl, rfl,
        fun q hq => Function.update_of_ne hq ..⟩
      by_cases hqp : q = p
      · subst hqp
        rw [hq] at hnone
        exact absurd rfl hnone
      · exact (Function.update_of_ne hqp ..).trans hq

/-- The contract of listings and writers. -/
def cacheContract (C : Codec) (whole : Prop) : Protocol (cacheMachine C) where
  inv := CacheInv C whole
  rely := CacheRely
  pre _ o s := CachePre C whole o s
  may p o _ s := SeesCommit p o s ∧ (whole → QueriesUnattempted o s)
  rely_refl _ s := ⟨.refl s, rfl, rfl⟩
  rely_trans h h' := ⟨h.grows.trans h'.grows, h'.querying.trans h.querying, h'.since.trans h.since⟩
  step_ok := by
    intro p o c s r s' hi hpre hmay he
    cases he
    exact ⟨hi.call hpre hmay.1, fun q hq => CacheState.call_rely o hq⟩
  env_ok := by
    intro key s s' hi he
    cases he
    have hgrows : s.GrowsTo { s with list := s.list.dropPage key } :=
      ⟨List.prefix_rfl, fun _ => le_rfl, fun _ _ _ => rfl, fun _ _ h => h⟩
    refine ⟨⟨hi.last, hi.committed, hi.mono, hi.top, hi.bound, hi.querying,
      fun key' payload hpage => ?_⟩,
      fun q => ⟨hgrows, rfl, rfl⟩⟩
    have hdrop := s.list.pages_dropPage key key'
    rw [show (s.list.dropPage key).pages key' = some payload from hpage] at hdrop
    split at hdrop
    · cases hdrop
    · exact hgrows.stored (hi.pages key' payload hdrop.symm)
  crash_ok := by
    intro p s hi
    have hgrows : s.GrowsTo { s with querying := Function.update s.querying p none } :=
      ⟨List.prefix_rfl, fun _ => le_rfl, fun _ _ _ => rfl, fun _ _ h => h⟩
    refine ⟨⟨hi.last, hi.committed, hi.mono, hi.top, hi.bound, fun q scope i hq => ?_,
      fun key payload hpage => hgrows.stored (hi.pages key payload hpage)⟩,
      fun q hq => ⟨hgrows, Function.update_of_ne hq .., rfl⟩⟩
    by_cases hqp : q = p
    · subst hqp
      simp only [cacheMachine, Function.update_self] at hq
      cases hq
    · simp only [cacheMachine, Function.update_of_ne hqp] at hq
      exact hi.querying q scope i hq
  start_ok := by
    intro p c s s' hi hs
    obtain ⟨hgrows, hlist, hdbs, hcom, hfresh, hquerying, hsince⟩ := CacheState.start_grows hs
    refine ⟨⟨?_, ?_, ?_, ?_, ?_, ?_, fun key payload hpage => ?_⟩, fun q hq =>
      ⟨hgrows, ?_, hsince q hq⟩⟩
    · rw [hlist, hdbs]
      exact hi.last
    · rw [hcom, hdbs]
      exact hi.committed
    · rw [hfresh]
      exact hi.mono
    · rw [hfresh, hlist]
      exact hi.top
    · rw [hfresh, hdbs]
      exact hi.bound
    · rw [hquerying, hfresh, hlist]
      exact hi.querying
    · rw [hlist] at hpage
      exact hgrows.stored (hi.pages key payload hpage)
    · rw [hquerying]

/-! ## A listing -/

/-- A listing of `r` that began with `since`. -/
structure Listing (r : ListRequest) (since : Nat) (p : Pid) (s : CacheState) : Prop where
  asked : s.asked p = some r
  since_eq : s.since p = since
  fresh : since ≤ s.fresh r.user.scope (s.list.versions r.user.scope)

/-- The page a listing returns is cached under a version that is fresh enough, or it is that of a
database that is new enough. -/
def CachePost (C : Codec) (whole : Prop) (p : Pid) :
    CacheCall → Except ListExc (Option JobListPageDTO) → CacheState → Prop
  | .list r, .ok (some page), s => s.asked p = some r ∧
      ((∃ v payload, s.since p ≤ s.fresh r.user.scope v ∧
        s.Stored C whole (RedisJobListCache.cacheKey C r.user.scope v r.cursor
          (normalizeLimit r.limit)) payload ∧
        v ≤ s.list.versions r.user.scope ∧ RedisJobListCache.decodePage C payload = some page) ∨
      ∃ i db, s.since p ≤ i ∧ s.dbs[i]? = some db ∧
        listPage C db r.user r.cursor r.limit = .ok page)
  | _, _, _ => True

section Listing

variable {r : ListRequest} {since : Nat} {s' : CacheState}

theorem Listing.grows (h : Listing r since p s) (hi : CacheInv C whole s') (hg : s.GrowsTo s')
    (hsince : s'.since p = s.since p) : Listing r since p s' where
  asked := hg.asked p r h.asked
  since_eq := hsince.trans h.since_eq
  fresh := by
    refine h.fresh.trans ?_
    rw [← hg.fresh _ _ le_rfl]
    exact hi.mono _ (hg.versions _)

theorem Listing.rely (h : Listing r since p s) (hi : CacheInv C whole s') (hr : CacheRely p s s') :
    Listing r since p s' := h.grows hi hr.grows hr.since

theorem Listing.call (h : Listing r since p s) (o : ListOp) (hi : CacheInv C whole (s.call p o)) :
    Listing r since p (s.call p o) := h.grows hi (s.call_grows p o) (by cases o <;> rfl)

/-- A call and what follows it. -/
theorem safe_listCall {α : Type} {o : ListOp} {f : o.Ret → ListCode α}
    {Q : Except ListExc α → CacheState → Prop}
    (h : ∀ s', CacheInv C whole s' → CacheRely p s s' → CachePre C whole o s' ∧
      (CacheInv C whole (s'.call p o) → (whole → QueriesUnattempted o s') →
        ∃ a, (ListState.exec o s'.list).1 = .ok a ∧
          (cacheContract C whole).Safe p (f a) Q (s'.call p o))) :
    (cacheContract C whole).Safe p ((listCall o).bind f) Q s := by
  refine Protocol.Safe.call_bind fun s' hi hr => ?_
  obtain ⟨hpre, hnext⟩ := h s' hi hr
  refine ⟨hpre, fun c a s'' hm he => ?_⟩
  cases he
  obtain ⟨a, ha, hsafe⟩ := hnext (CacheInv.call hi hpre hm.1) hm.2
  simp only [ha]
  exact hsafe

theorem CachePost.rely {page : JobListPageDTO}
    (h : CachePost C whole p (.list r) (.ok (some page)) s)
    (hr : CacheRely p s s') : CachePost C whole p (.list r) (.ok (some page)) s' := by
  obtain ⟨hasked, hpage⟩ := h
  refine ⟨hr.grows.asked p r hasked, hpage.imp ?_ ?_⟩
  · rintro ⟨v, payload, hv, hstored, hle, hd⟩
    refine ⟨v, payload, ?_, hr.grows.stored hstored, hle.trans (hr.grows.versions _), hd⟩
    rw [hr.since, hr.grows.fresh _ _ hle]
    exact hv
  · rintro ⟨i, db, hi, hdb, hlist⟩
    exact ⟨i, db, hr.since.trans_le hi, hr.grows.getElem? hdb, hlist⟩

/-- `get_page`: what it finds is cached under a version that is fresh enough. -/
theorem getPage_safe (h : Listing r since p s) :
    (cacheContract C whole).Safe p (RedisJobListCache.getPage C r.user.scope r.cursor
      (normalizeLimit r.limit)) (fun res s' => match res with
        | .ok (some page) => CachePost C whole p (.list r) (.ok (some page)) s'
        | .ok none => Listing r since p s'
        | .error _ => True) s := by
  have hbody : (cacheContract C whole).Safe p
      (do
        let version ← listCall (.getVersion r.user.scope)
        listCall (.getPage (RedisJobListCache.cacheKey C r.user.scope version r.cursor
          (normalizeLimit r.limit))))
      (fun res s' => Listing r since p s' ∧ ∀ payload, res = .ok (some payload) →
        ∃ v, since ≤ s'.fresh r.user.scope v ∧ v ≤ s'.list.versions r.user.scope ∧
          s'.Stored C whole (RedisJobListCache.cacheKey C r.user.scope v r.cursor
            (normalizeLimit r.limit)) payload) s := by
    refine safe_listCall fun s₁ hi₁ hr₁ => ⟨nofun, fun hi₁' _ => ⟨_, rfl, ?_⟩⟩
    have h₁ := (h.rely hi₁ hr₁).call _ hi₁'
    rw [← Prog.bind_ret (listCall _)]
    refine safe_listCall fun s₂ hi₂ hr₂ => ⟨nofun, fun hi₂' _ => ⟨_, rfl, ?_⟩⟩
    have h₂ := (h₁.rely hi₂ hr₂).call _ hi₂'
    refine fun s₃ hi₃ hr₃ => ⟨h₂.rely hi₃ hr₃, fun payload hpayload => ?_⟩
    have hgrows := ((s₂.call_grows p _).trans hr₃.grows)
    have hfresh : since ≤ s₂.fresh r.user.scope (s₁.list.versions r.user.scope) :=
      h₁.fresh.trans_eq (hr₂.grows.fresh _ _ le_rfl).symm
    refine ⟨s₁.list.versions r.user.scope, ?_, ?_, ?_⟩
    · exact hfresh.trans_eq (hgrows.fresh _ _ (hr₂.grows.versions _)).symm
    · exact (hr₂.grows.versions _).trans (hgrows.versions _)
    · exact hgrows.stored (hi₂.pages _ _ (Except.ok.inj hpayload))
  unfold RedisJobListCache.getPage
  refine Protocol.Safe.bind (Protocol.Safe.tryCatch (hbody.mono fun res s₁ hi₁ hres => ?_))
  obtain ⟨hl, hfound⟩ := hres
  cases res with
  | error e => exact fun s₂ hi₂ hr₂ => fun s₃ hi₃ hr₃ => (hl.rely hi₂ hr₂).rely hi₃ hr₃
  | ok payload =>
    intro s₂ hi₂ hr₂
    have hl₂ := hl.rely hi₂ hr₂
    cases payload with
    | none => exact fun s₃ hi₃ hr₃ => hl₂.rely hi₃ hr₃
    | some payload =>
      obtain ⟨v, hv, hle, hstored⟩ := hfound payload rfl
      simp only
      cases hd : RedisJobListCache.decodePage C payload with
      | none => exact fun _ _ _ => trivial
      | some page =>
        intro s₃ hi₃ hr₃
        have hgrows := hr₂.grows.trans hr₃.grows
        have hl₃ := hl₂.rely hi₃ hr₃
        refine ⟨hl₃.asked, .inl ⟨v, payload, ?_, hgrows.stored hstored,
          hle.trans (hgrows.versions _), hd⟩⟩
        rw [hl₃.since_eq, hgrows.fresh _ _ hle]
        exact hv

/-- A listing of `r` that has queried database `i`. -/
structure Queried (r : ListRequest) (since i : Nat) (db : Db) (p : Pid)
    (s : CacheState) : Prop where
  asked : s.asked p = some r
  since_eq : s.since p = since
  since_le : since ≤ i
  db_eq : s.dbs[i]? = some db

variable {i : Nat} {db : Db}

theorem Queried.grows (h : Queried r since i db p s) (hg : s.GrowsTo s')
    (hsince : s'.since p = s.since p) : Queried r since i db p s' :=
  ⟨hg.asked p r h.asked, hsince.trans h.since_eq, h.since_le, hg.getElem? h.db_eq⟩

theorem Queried.rely (h : Queried r since i db p s) (hr : CacheRely p s s') :
    Queried r since i db p s' :=
  h.grows hr.grows hr.since

theorem Queried.call (h : Queried r since i db p s) (o : ListOp) :
    Queried r since i db p (s.call p o) :=
  h.grows (s.call_grows p o) (by cases o <;> rfl)

/-- `set_page`: the version it reads is not newer than what was queried. -/
theorem setPage_safe {page : JobListPageDTO} (h : Queried r since i db p s)
    (hq : s.querying p = some (r.user.scope, i))
    (hpage : listPage C db r.user r.cursor r.limit = .ok page)
    (hwhole : whole → ∀ item ∈ page.items, item.attemptCount = 0) :
    (cacheContract C whole).Safe p
      (RedisJobListCache.setPage C r.user.scope r.cursor (normalizeLimit r.limit) page)
      (fun _ s' => Queried r since i db p s') s := by
  unfold RedisJobListCache.setPage
  refine Protocol.Safe.tryCatch (safe_listCall fun s₁ hi₁ hr₁ =>
    ⟨nofun, fun hi₁' _ => ⟨_, rfl, ?_⟩⟩)
  have h₁ := (h.rely hr₁).call (.getVersion r.user.scope)
  have hfresh := hi₁.querying p r.user.scope i (hr₁.querying.trans hq)
  rw [← Prog.bind_ret (listCall _)]
  refine safe_listCall fun s₂ hi₂ hr₂ => ⟨fun key payload heq => ?_, fun hi₂' _ => ⟨_, rfl, ?_⟩⟩
  · cases heq
    have h₂ := h₁.rely hr₂
    refine ⟨p, r, s₁.list.versions r.user.scope, i, db, page, h₂.asked, rfl,
      hr₂.grows.versions _, ?_,
      h₂.db_eq, hpage, hwhole, rfl⟩
    exact (hr₂.grows.fresh _ _ le_rfl).trans_le hfresh
  · have h₂ := (h₁.rely hr₂).call (.setPage (RedisJobListCache.cacheKey C r.user.scope
      (s₁.list.versions r.user.scope) r.cursor (normalizeLimit r.limit))
      (RedisJobListCache.encodePage C page))
    exact fun s₃ _ hr₃ => fun s₄ _ hr₄ => (h₂.rely hr₃).rely hr₄

/-- The items of a page are the jobs it is made of. -/
theorem attemptCount_of_build {jobs : List StoredJobDTO} {limit : Nat} {page : JobListPageDTO}
    (h : buildJobListPage C jobs limit = .ok page)
    (hjobs : ∀ job ∈ jobs.take limit, job.attemptCount = 0) :
    ∀ item ∈ page.items, item.attemptCount = 0 := by
  have hitems : page.items = (jobs.take limit).map toJobPublicDto := by
    unfold buildJobListPage at h
    dsimp only at h
    split at h
    · split at h
      · cases h
        rfl
      · cases h
    · cases h
      rfl
  intro item hm
  rw [hitems] at hm
  obtain ⟨job, hjob, rfl⟩ := List.mem_map.mp hm
  exact hjobs job hjob

/-- `list_jobs`. -/
theorem listJobs_safe (h : Listing r since p s) :
    (cacheContract C whole).Safe p (CacheCall.prog C (.list r))
    (CachePost C whole p (.list r)) s := by
  -- from the query on
  have hrest : ∀ (decoded : Option JobListCursor) (s₁ : CacheState), Listing r since p s₁ →
      (∀ db, listPage C db r.user r.cursor r.limit = buildJobListPage C
        (runQuery db r.user.scope decoded (normalizeLimit r.limit + 1)) (normalizeLimit r.limit)) →
      (cacheContract C whole).Safe p
        ((listCall (.query r.user.scope decoded (normalizeLimit r.limit + 1))).bind fun jobs =>
          (Prog.ofExcept (buildJobListPage C jobs (normalizeLimit r.limit))).bind fun page =>
            (RedisJobListCache.setPage C r.user.scope r.cursor (normalizeLimit r.limit) page).bind
                fun _ =>
              .ret page)
        (fun res s' => ∀ page, res = .ok page → CachePost C whole p (.list r) (.ok (some page)) s')
            s₁ := by
    intro decoded s₁ h₁ hdecoded
    refine safe_listCall fun s₂ hi₂ hr₂ => ⟨nofun, fun hi₂' hunattempted => ⟨_, rfl, ?_⟩⟩
    have h₂ := h₁.rely hi₂ hr₂
    have hlen := hi₂.committed_length
    have hqueried : Queried r since (s₂.dbs.length - 1) s₂.list.db p s₂ := by
      refine ⟨h₂.asked, h₂.since_eq, h₂.fresh.trans (Nat.le_sub_one_of_lt (hi₂.bound _ _)), ?_⟩
      rw [← List.getLast?_eq_getElem?]
      exact hi₂.last
    have hpage := hdecoded s₂.list.db
    cases hbuild : buildJobListPage C (runQuery s₂.list.db r.user.scope decoded
        (normalizeLimit r.limit + 1)) (normalizeLimit r.limit) with
    | error e => exact fun _ _ _ page heq => nomatch heq
    | ok page =>
      rw [hbuild] at hpage
      refine (setPage_safe (hqueried.call (.query r.user.scope decoded
        (normalizeLimit r.limit + 1)))
        (Function.update_self ..) hpage fun hw => ?_).andThen
        (fun _ s₃ hi₃ h₃ => fun s₄ hi₄ hr₄ page' heq => ?_) fun e s₃ _ _ page' heq => nomatch heq
      · exact attemptCount_of_build hbuild (hunattempted hw _ _ _ rfl)
      · cases heq
        have h₄ := h₃.rely hr₄
        exact ⟨h₄.asked, .inr ⟨_, _, h₄.since_eq ▸ h₄.since_le, h₄.db_eq, hpage⟩⟩
  have hlist : (cacheContract C whole).Safe p (listJobs C (redisJobListCache C) r.user
    r.cursor r.limit)
      (fun res s' => ∀ page, res = .ok page → CachePost C whole p (.list r) (.ok (some page)) s')
      s := by
    unfold listJobs
    refine (getPage_safe h).andThen (fun cachedPage s₁ hi₁ h₁ => ?_) fun e s₁ _ _ page heq =>
      nomatch heq
    cases cachedPage with
    | some page =>
      intro s₂ hi₂ hr₂ page' heq
      cases heq
      exact CachePost.rely h₁ hr₂
    | none =>
      obtain ⟨user, cursor, limit⟩ := r
      cases cursor with
      | none => exact hrest none s₁ h₁ fun db => rfl
      | some cursor =>
        show (cacheContract C whole).Safe p ((Prog.ofExcept ((decodeCursor C cursor).map some)).bind
          _) _ _
        cases hd : decodeCursor C cursor with
        | error e => exact fun _ _ _ page heq => nomatch heq
        | ok decoded =>
          refine hrest (some decoded) s₁ h₁ fun db => ?_
          unfold listPage
          simp only [hd]
          rfl
  refine hlist.andThen (fun page s₁ hi₁ h₁ => ?_) fun e s₁ _ _ => trivial
  exact fun s₂ hi₂ hr₂ => CachePost.rely (h₁ page rfl) hr₂

end Listing

theorem write_safe (stmts : List Stmt) (owner : Uuid) :
    (cacheContract C whole).Safe p (CacheCall.prog C (.write stmts owner))
    (CachePost C whole p (.write stmts owner)) s := by
  refine safe_listCall fun s₁ _ _ => ⟨nofun, fun _ _ => ⟨_, rfl, ?_⟩⟩
  have hinvalidate : (cacheContract C whole).Safe p (RedisJobListCache.invalidateOwner owner)
    (fun _ _ => True)
      (s₁.call p (.commit stmts)) := by
    refine Protocol.Safe.tryCatch ?_
    rw [← Prog.bind_ret (listCall _)]
    refine safe_listCall fun s₂ _ _ => ⟨nofun, fun _ _ => ⟨_, rfl, ?_⟩⟩
    exact fun s₃ _ _ => fun _ _ _ => trivial
  exact hinvalidate.andThen (fun _ _ _ _ => fun _ _ _ => trivial) fun _ _ _ _ => trivial

/-! ## Runs -/

/-- Every invalidation that goes through has its commit seen by the listings under way. -/
def InvalidationsSeen (C : Codec) (w : World (cacheMachine C))
    (mv : Move (cacheMachine C)) : Prop :=
  ∀ q c call o k, mv = .run q c → w.procs q = some (call, .call o k) → SeesCommit q o w.shared

/-- No job on a page that is queried has been attempted. -/
def PagesUnattempted (C : Codec) (w : World (cacheMachine C)) (mv : Move (cacheMachine C)) : Prop :=
  ∀ q c call o k, mv = .run q c → w.procs q = some (call, .call o k) → QueriesUnattempted o w.shared

/-- The steps of a run; where pages are to come back whole, no attempted job is on them. -/
def CacheSteps (C : Codec) (whole : Prop) (w : World (cacheMachine C))
    (mv : Move (cacheMachine C)) : Prop :=
  InvalidationsSeen C w mv ∧ (whole → PagesUnattempted C w mv)

def CacheState.world (C : Codec) (db : Db) : World (cacheMachine C) :=
    ⟨CacheState.init db, fun _ => none⟩

theorem CacheInv.init (C : Codec) (db : Db) : CacheInv C whole (CacheState.init db) where
  last := rfl
  committed _ := Nat.zero_lt_one
  mono _ _ _ _ := le_rfl
  top _ _ _ := rfl
  bound _ _ := Nat.zero_lt_one
  querying _ _ _ := nofun
  pages _ _ := nofun

theorem cache_allSafe {db : Db} {w : World (cacheMachine C)}
    (h : (cacheMachine C).ReachBy (CacheSteps C whole) (CacheState.world C db) w) :
    (cacheContract C whole).AllSafe (CachePost C whole) w := by
  have hinit : (cacheContract C whole).AllSafe (CachePost C whole) (CacheState.world C db) :=
    ⟨CacheInv.init C db, fun p c prog hp => nomatch hp⟩
  refine hinit.reach (fun p c s s' hi hs => ?_) (fun p c s => ?_) (fun w p ch c o k hok hp => ?_) h
  · cases c with
    | write stmts owner => exact write_safe stmts owner
    | list r =>
      simp only [cacheMachine, CacheState.start] at hs
      split at hs
      · cases hs
      · cases hs
        exact listJobs_safe ⟨Function.update_self .., Function.update_self .., le_rfl⟩
  · cases c <;> trivial
  · exact ⟨hok.1 p ch c o k rfl hp, fun hw => hok.2 hw p ch c o k rfl hp⟩

/-- No step takes anything back, and none touches what a listing began with. -/
theorem cache_step_grows {mv : Move (cacheMachine C)} {w w' : World (cacheMachine C)}
    (h : (cacheMachine C).step mv w = some w') : w.shared.GrowsTo w'.shared ∧
      ∀ p r, w.shared.asked p = some r → w'.shared.since p = w.shared.since p := by
  rcases Machine.step_cases h with ⟨p, c, s, rfl, hp, hst, rfl⟩ |
    ⟨p, ch, op, o, k, r, s, rfl, -, he, rfl⟩ | ⟨p, op, prog, rfl, -, rfl⟩ | ⟨e, s, rfl, he, rfl⟩
  · obtain ⟨hgrows, -, -, -, -, -, hsince⟩ := CacheState.start_grows hst
    refine ⟨hgrows, fun q r hq => ?_⟩
    by_cases hqp : q = p
    · subst hqp
      cases c with
      | write =>
        cases hst
        rfl
      | list =>
        simp only [cacheMachine, CacheState.start, hq, Option.isSome_some, if_true] at hst
        cases hst
    · exact hsince q hqp
  · cases he
    exact ⟨w.shared.call_grows p o, fun q r _ => by cases o <;> rfl⟩
  · exact ⟨⟨List.prefix_rfl, fun _ => le_rfl, fun _ _ _ => rfl, fun _ _ h => h⟩, fun _ _ _ => rfl⟩
  · cases he
    exact ⟨⟨List.prefix_rfl, fun _ => le_rfl, fun _ _ _ => rfl, fun _ _ h => h⟩, fun _ _ _ => rfl⟩

theorem cache_reach_grows {ok : World (cacheMachine C) → Move (cacheMachine C) → Prop}
    {w w' : World (cacheMachine C)} (h : (cacheMachine C).ReachBy ok w w') :
    w.shared.GrowsTo w'.shared ∧
      ∀ p r, w.shared.asked p = some r → w'.shared.since p = w.shared.since p := by
  induction h with
  | refl => exact ⟨.refl _, fun _ _ _ => rfl⟩
  | tail m _ _ hs ih =>
    obtain ⟨hgrows, hsince⟩ := cache_step_grows hs
    exact ⟨ih.1.trans hgrows, fun p r hp => (hsince p r (ih.1.asked p r hp)).trans (ih.2 p r hp)⟩

/-- The cursor a request is looked up by: the key takes the empty one for none. -/
def ListRequest.lookedUp (r : ListRequest) : Option String := if r.cursor = some "" then
    none else r.cursor

/-- The page of a listing is that of a database which is not older than what it began with, but for
the attempts that the cache does not keep. -/
theorem listing_since {db₀ : Db} {w : World (cacheMachine C)}
    (h : (cacheMachine C).ReachBy (CacheSteps C whole) (CacheState.world C db₀) w)
    (hC : C.Separates {r | ∃ q, w.shared.asked q = some r})
    (hitems : ∀ db ∈ w.shared.dbs, ∀ job ∈ db.jobs.rows, C.ReadsItem job.listItem)
    (hempty : decodeCursor C "" = .error .invalidCursor) {r : ListRequest} {page : JobListPageDTO}
    (hp : w.procs p = some (.list r, .ret (some page))) :
    ∃ i db page', w.shared.since p ≤ i ∧ w.shared.dbs[i]? = some db ∧
      listPage C db r.user r.lookedUp r.limit = .ok page' ∧
      toJobListResponse page = toJobListResponse page' ∧ (whole → page = page') := by
  have hcursor : ∀ {db page'} {r' : ListRequest},
    listPage C db r'.user r'.cursor r'.limit = .ok page' →
      r'.lookedUp = r'.cursor := by
    intro db page' r' hlist
    refine if_neg fun hc => ?_
    rw [hc, listPage_empty hempty] at hlist
    cases hlist
  obtain ⟨hasked, ⟨v, payload, hv, ⟨q, r', v', i, db, page', hq, hkey, -, hi, hdb, hlist, hzero,
    hpayload⟩, -, hd⟩ | ⟨i, db, hi, hdb, hlist⟩⟩ := (cache_allSafe h).post_ret hp
  · -- from the cache
    obtain ⟨hscope, rfl, htext, hlimit⟩ := cacheKey_inj hC ⟨p, hasked⟩ ⟨q, hq⟩ hkey
    rw [← hscope] at hi
    have hreads : ∀ item ∈ page'.items, C.ReadsItem item := fun item hm => by
      obtain ⟨job, hjob, rfl⟩ := listPage_items hlist item hm
      exact hitems db (List.mem_of_getElem? hdb) job hjob
    rw [hpayload, RedisJobListCache.decodePage_encodePage_eq hreads] at hd
    cases hd
    refine ⟨i, db, page', hv.trans hi, hdb, ?_,
      RedisJobListCache.toJobListResponse_withoutAttempts page',
      fun hw => (RedisJobListCache.withoutAttempts_eq_iff page').mpr (hzero hw)⟩
    have hsame : r.lookedUp = r'.cursor := by
      have hr' := hcursor hlist
      unfold ListRequest.lookedUp at hr' ⊢
      cases hc : r.cursor <;> cases hc' : r'.cursor <;> rw [hc, hc'] at htext <;>
        rw [hc'] at hr' <;>
        simp_all
    rw [← hlist, hsame]
    unfold listPage
    rw [hscope, hlimit]
  · -- from the database
    exact ⟨i, db, page, hi, hdb, (hcursor hlist).symm ▸ hlist, rfl, fun _ => rfl⟩

/-- A listing of a scope that begins after an invalidation of it has gone through: where every
invalidation of the run has had its commit seen, the page it returns is that of a database which has
the commit. A cached page does not say how often its jobs were attempted, which the route does not
show. -/
theorem listing_shows_commit {db₀ : Db} {w₁ w₂ w₃ w₄ w : World (cacheMachine C)} {q : Pid}
    {stmts : List Stmt} {owner : Uuid} {k : Except ListExc Unit → ListCode (Option JobListPageDTO)}
    {r : ListRequest} {page : JobListPageDTO}
    (h₁ : (cacheMachine C).ReachBy (CacheSteps C whole) (CacheState.world C db₀) w₁)
    (hq : w₁.procs q = some (.write stmts owner, .call (.incrVersions owner) k))
    (hok : CacheSteps C whole w₁ (.run q ()))
    (h₂ : (cacheMachine C).step (.run q ()) w₁ = some w₂)
    (h₃ : (cacheMachine C).ReachBy (CacheSteps C whole) w₂ w₃)
    (h₄ : (cacheMachine C).step (.start p (.list r)) w₃ = some w₄)
    (h : (cacheMachine C).ReachBy (CacheSteps C whole) w₄ w)
    (hscope : CacheState.Covers owner r.user.scope)
    (hp : w.procs p = some (.list r, .ret (some page)))
    (hC : C.Separates {r | ∃ q, w.shared.asked q = some r})
    (hitems : ∀ db ∈ w.shared.dbs, ∀ job ∈ db.jobs.rows, C.ReadsItem job.listItem)
    (hbase64 : C.urlsafeB64decode "" = some "") (hloads : C.loads "" = none) :
    ∃ i db page', w₁.shared.committed q ≤ i ∧ w.shared.dbs[i]? = some db ∧
      listPage C db r.user r.lookedUp r.limit = .ok page' ∧
      toJobListResponse page = toJobListResponse page' ∧ (whole → page = page') := by
  have hw₂ := Machine.ReachBy.tail _ h₁ hok h₂
  have hw₃ := hw₂.trans h₃
  have hstarted : CacheSteps C whole w₃ (.start p (.list r)) :=
    ⟨fun _ _ _ _ _ heq => (by cases heq), fun _ _ _ _ _ _ heq => by cases heq⟩
  have hw := (Machine.ReachBy.tail _ hw₃ hstarted h₄).trans h
  obtain ⟨i, db, page', hi, hrest⟩ := listing_since hw hC hitems
    (decodeCursor_empty hbase64 hloads) hp
  refine ⟨i, db, page', le_trans ?_ hi, hrest⟩
  -- the version that was made is at least as fresh as the commit, and so is every later one
  have hmade : w₁.shared.committed q ≤ w₂.shared.fresh r.user.scope
      (w₂.shared.list.versions r.user.scope) := by
    simp only [Machine.step, Machine.runStep, hq, cacheMachine] at h₂
    cases h₂
    exact CacheState.committed_le_fresh q w₁.shared hscope
  have hbegan : w₄.shared.asked p = some r ∧
      w₄.shared.since p = w₃.shared.fresh r.user.scope (w₃.shared.list.versions r.user.scope) := by
    rcases Machine.step_cases h₄ with ⟨p', c, s, heq, -, hst, rfl⟩ | ⟨_, _, _, _, _, _, _, heq, _⟩ |
      ⟨_, _, _, heq, _⟩ | ⟨_, _, heq, _⟩
    · cases heq
      simp only [cacheMachine, CacheState.start] at hst
      split at hst
      · cases hst
      · cases hst
        exact ⟨Function.update_self .., Function.update_self ..⟩
    · cases heq
    · cases heq
    · cases heq
  have hgrows := (cache_reach_grows h₃).1
  calc w₁.shared.committed q
      ≤ w₂.shared.fresh r.user.scope (w₂.shared.list.versions r.user.scope) := hmade
    _ = w₃.shared.fresh r.user.scope (w₂.shared.list.versions r.user.scope) :=
        (hgrows.fresh _ _ le_rfl).symm
    _ ≤ w₃.shared.fresh r.user.scope (w₃.shared.list.versions r.user.scope) :=
        (cache_allSafe hw₃).1.mono _ (hgrows.versions _)
    _ = w₄.shared.since p := hbegan.2.symm
    _ = w.shared.since p := ((cache_reach_grows h).2 p r hbegan.1).symm

/-- Every invalidation that goes through has its commit seen by the listings under way, and no job
on a page that is queried has been attempted. -/
def KeepsFresh (C : Codec) (w : World (cacheMachine C)) (mv : Move (cacheMachine C)) : Prop :=
  InvalidationsSeen C w mv ∧ PagesUnattempted C w mv

theorem KeepsFresh.cacheSteps {w : World (cacheMachine C)} {mv : Move (cacheMachine C)}
    (h : KeepsFresh C w mv) : CacheSteps C True w mv := ⟨h.1, fun _ => h.2⟩

/-- **A listing that begins after an invalidation** returns what the query gives on a database which
has the commit. -/
theorem listing_has_commit {db₀ : Db} {w₁ w₂ w₃ w₄ w : World (cacheMachine C)} {q : Pid}
    {stmts : List Stmt} {owner : Uuid} {k : Except ListExc Unit → ListCode (Option JobListPageDTO)}
    {r : ListRequest} {page : JobListPageDTO}
    (h₁ : (cacheMachine C).ReachBy (KeepsFresh C) (CacheState.world C db₀) w₁)
    (hq : w₁.procs q = some (.write stmts owner, .call (.incrVersions owner) k))
    (hok : KeepsFresh C w₁ (.run q ()))
    (h₂ : (cacheMachine C).step (.run q ()) w₁ = some w₂)
    (h₃ : (cacheMachine C).ReachBy (KeepsFresh C) w₂ w₃)
    (h₄ : (cacheMachine C).step (.start p (.list r)) w₃ = some w₄)
    (h : (cacheMachine C).ReachBy (KeepsFresh C) w₄ w)
    (hscope : CacheState.Covers owner r.user.scope) (hcursor : r.cursor ≠ some "")
    (hp : w.procs p = some (.list r, .ret (some page)))
    (hC : C.Separates {r | ∃ q, w.shared.asked q = some r})
    (hitems : ∀ db ∈ w.shared.dbs, ∀ job ∈ db.jobs.rows, C.ReadsItem job.listItem)
    (hbase64 : C.urlsafeB64decode "" = some "") (hloads : C.loads "" = none) :
    ∃ i db, w₁.shared.committed q ≤ i ∧ w.shared.dbs[i]? = some db ∧
      listPage C db r.user r.cursor r.limit = .ok page := by
  have hmono : ∀ {w w' : World (cacheMachine C)}, (cacheMachine C).ReachBy (KeepsFresh C) w w' →
      (cacheMachine C).ReachBy (CacheSteps C True) w w' := fun h =>
      h.mono fun _ _ hm => hm.cacheSteps
  obtain ⟨i, db, page', hi, hdb, hlist, -, hpage⟩ :=
    listing_shows_commit (hmono h₁) hq hok.cacheSteps h₂
    (hmono h₃) h₄ (hmono h) hscope hp hC hitems hbase64 hloads
  have hlookedUp : r.lookedUp = r.cursor := if_neg hcursor
  rw [hlookedUp, ← hpage trivial] at hlist
  exact ⟨i, db, hi, hdb, hlist⟩

/-! ### A commit between the query of a listing and its second look at the version -/

/-- The first page of user 7. -/
def samplePage : ListRequest := ⟨⟨7, .user⟩, none, none⟩

/-- Job 3 of user 7 is inserted. -/
def sampleWrite : CacheCall := .write [.insertJob (sampleJob 3)] 7

/-- How many jobs the first page has. -/
def sampleCount (db : Db) : Nat :=
  match listPage sampleCodec db samplePage.user samplePage.cursor samplePage.limit with
  | .ok page => page.items.length
  | .error _ => 0

/-- How many jobs process `p` has returned. -/
def returnedCount {C : Codec} (p : Pid) (w : World (cacheMachine C)) : Option Nat :=
  match w.procs p with
  | some (.list r, .ret (some page)) => if r = samplePage then some page.items.length else none
  | _ => none

theorem returnedCount_eq_some {w : World (cacheMachine C)} {n : Nat}
    (h : returnedCount p w = some n) :
    ∃ page : JobListPageDTO, w.procs p = some (.list samplePage, .ret (some page)) ∧
      page.items.length = n := by
  unfold returnedCount at h
  split at h
  · rename_i r page heq
    split at h
    · rename_i hr
      exact ⟨page, hr ▸ heq, Option.some.inj h⟩
    · cases h
  · cases h

/-- Process `p` is a writer of owner 7 about to invalidate. -/
def aboutToInvalidate {C : Codec} (p : Pid) (w : World (cacheMachine C)) : Bool :=
  match w.procs p with
  | some (.write _ owner, .call (.incrVersions owner') _) => owner = 7 ∧ owner' = 7
  | _ => false

theorem of_aboutToInvalidate {w : World (cacheMachine C)} (h : aboutToInvalidate p w = true) :
    ∃ stmts k, w.procs p = some (.write stmts 7, .call (.incrVersions 7) k) := by
  unfold aboutToInvalidate at h
  split at h
  · rename_i stmts owner owner' k heq
    obtain ⟨rfl, rfl⟩ := of_decide_eq_true h
    exact ⟨stmts, k, heq⟩
  · cases h

abbrev sampleMachine : Machine listSig := cacheMachine sampleCodec

/-- Listing 1 gets as far as its query, then writer 0 as far as its invalidation. -/
def staleBefore : List (Move sampleMachine) :=
  [.start 1 (.list samplePage), .run 1 (), .run 1 (), .run 1 (), .start 0 sampleWrite, .run 0 ()]

/-- Listing 1 stores what it has. -/
def staleAfter : List (Move sampleMachine) := [.run 1 (), .run 1 ()]

/-- Listing 2, which begins after the invalidation, gets a page without job 3. -/
theorem listing_misses_commit :
    ∃ (w₁ w₂ w₃ w₄ w : World sampleMachine) (stmts : List Stmt)
      (k : Except ListExc Unit → ListCode (Option JobListPageDTO)) (page : JobListPageDTO),
      sampleMachine.Reach (CacheState.world sampleCodec sampleDb) w₁ ∧
      w₁.procs 0 = some (.write stmts 7, .call (.incrVersions 7) k) ∧
      sampleMachine.step (.run 0 ()) w₁ = some w₂ ∧ sampleMachine.Reach w₂ w₃ ∧
      sampleMachine.step (.start 2 (.list samplePage)) w₃ = some w₄ ∧ sampleMachine.Reach w₄ w ∧
      w.procs 2 = some (.list samplePage, .ret (some page)) ∧
      ∀ i db page', w₁.shared.committed 0 ≤ i → w.shared.dbs[i]? = some db →
        listPage sampleCodec db samplePage.user samplePage.cursor samplePage.limit = .ok page' →
        toJobListResponse page ≠ toJobListResponse page' := by
  have hrun : ((sampleMachine.run staleBefore (CacheState.world sampleCodec sampleDb)).bind
      fun w₁ =>
      (sampleMachine.step (.run 0 ()) w₁).bind fun w₂ =>
      (sampleMachine.run staleAfter w₂).bind fun w₃ =>
      (sampleMachine.step (.start 2 (.list samplePage)) w₃).bind fun w₄ =>
      (sampleMachine.run [.run 2 (), .run 2 ()] w₄).map fun w =>
        (aboutToInvalidate 0 w₁, w₁.shared.committed 0, w.shared.dbs.map sampleCount,
          returnedCount 2 w)) =
      some (true, 1, [2, 3], some 2) := by decide +kernel
  simp only [Option.bind_eq_some_iff, Option.map_eq_some_iff, Prod.mk.injEq] at hrun
  obtain ⟨w₁, h₁, w₂, h₂, w₃, h₃, w₄, h₄, w, h, hq, hcommitted, hcounts, hreturned⟩ := hrun
  obtain ⟨stmts, k, hq⟩ := of_aboutToInvalidate hq
  obtain ⟨page, hpage, hlen⟩ := returnedCount_eq_some hreturned
  refine ⟨w₁, w₂, w₃, w₄, w, stmts, k, page, .of_run h₁, hq, h₂, .of_run h₃, h₄, .of_run h, hpage,
    fun i db page' hi hdb hlist heq => ?_⟩
  -- two jobs were returned, and the only database that has the commit has three
  have hcount : (w.shared.dbs.map sampleCount)[i]? = some page'.items.length := by
    rw [List.getElem?_map, hdb, Option.map_some, sampleCount, hlist]
  have hitems := congrArg (fun response => response.items.length) heq
  simp only [toJobListResponse, List.length_map, hlen] at hitems
  rw [hcounts, ← hitems] at hcount
  match i with
  | 0 => omega
  | 1 => cases hcount
  | i + 2 => cases hcount

/-- The move is no invalidation, begins no listing, and queries no job that was attempted. -/
def quiet (w : World sampleMachine) : Move sampleMachine → Bool
  | .run p _ => match w.procs p with
      | some (_, .call (.incrVersions _) _) => false
      | some (_, .call (.query scope cursor limit) _) =>
          ((runQuery w.shared.list.db scope cursor limit).take (limit - 1)).all fun job =>
            job.attemptCount == 0
      | _ => true
  | .start _ (.write _ _) => true
  | _ => false

theorem keepsFresh_of_quiet (w : World sampleMachine) (mv : Move sampleMachine)
    (h : quiet w mv = true) : KeepsFresh sampleCodec w mv := by
  constructor
  · rintro q c call o k rfl hp owner rfl
    simp only [quiet, hp] at h
    cases h
  · rintro q c call o k rfl hp scope cursor limit rfl job hjob
    simp only [quiet, hp] at h
    exact eq_of_beq (List.all_eq_true.mp h job hjob)

/-- Nothing but the start of a listing asks for anything. -/
theorem asked_of_quiet {w w' : World sampleMachine}
    (h : sampleMachine.ReachBy (fun w mv => quiet w mv = true) w w') :
    w'.shared.asked = w.shared.asked := by
  induction h with
  | refl => rfl
  | tail m _ hquiet hs ih =>
    refine Eq.trans ?_ ih
    rcases Machine.step_cases hs with ⟨p, c, s, rfl, hp, hst, rfl⟩ |
      ⟨p, ch, op, o, k, r, s, rfl, -, he, rfl⟩ | ⟨p, op, prog, rfl, -, rfl⟩ | ⟨e, s, rfl, he, rfl⟩
    · cases c with
      | write =>
        cases hst
        rfl
      | list => cases hquiet
    · cases he
      cases o <;> rfl
    · rfl
    · cases he
      rfl

/-- Without a listing under way, listing 2 gets a page with job 3. -/
theorem listing_has_commit_sample :
    ∃ (w₁ w : World sampleMachine) (page : JobListPageDTO), w₁.shared.committed 0 = 1 ∧
      w.procs 2 = some (.list samplePage, .ret (some page)) ∧
      ∃ i db, 1 ≤ i ∧ w.shared.dbs[i]? = some db ∧
        listPage sampleCodec db samplePage.user samplePage.cursor samplePage.limit = .ok page := by
  have hrun : ((sampleMachine.runIf quiet [.start 0 sampleWrite, .run 0 ()]
        (CacheState.world sampleCodec sampleDb)).bind fun w₁ =>
      (sampleMachine.step (.run 0 ()) w₁).bind fun w₂ =>
      (sampleMachine.step (.start 2 (.list samplePage)) w₂).bind fun w₄ =>
      (sampleMachine.runIf quiet [.run 2 (), .run 2 (), .run 2 (), .run 2 (), .run 2 ()] w₄).map
        fun w => (aboutToInvalidate 0 w₁, w₁.shared.committed 0, returnedCount 2 w,
          decide (∀ db ∈ w.shared.dbs, ∀ job ∈ db.jobs.rows, sampleCodec.ReadsItem job.listItem))) =
      some (true, 1, some 3, true) := by decide +kernel
  simp only [Option.bind_eq_some_iff, Option.map_eq_some_iff, Prod.mk.injEq] at hrun
  obtain ⟨w₁, h₁, w₂, h₂, w₄, h₄, w, h, hq, hcommitted, hreturned, hitems⟩ := hrun
  have hquerying : w₁.shared.querying = fun _ => none := by
    have hnone : (sampleMachine.runIf quiet [.start 0 sampleWrite, .run 0 ()]
        (CacheState.world sampleCodec sampleDb)).map (fun w => w.shared.querying) = some fun _ =>
        none := rfl
    rw [h₁] at hnone
    exact Option.some.inj hnone
  have hasked : ∀ r, (∃ q, w.shared.asked q = some r) → r = samplePage := by
    have hone : ((sampleMachine.runIf quiet [.start 0 sampleWrite, .run 0 ()]
          (CacheState.world sampleCodec sampleDb)).bind fun w₁ =>
        (sampleMachine.step (.run 0 ()) w₁).bind fun w₂ =>
        (sampleMachine.step (.start 2 (.list samplePage)) w₂).map fun w₄ => w₄.shared.asked) =
        some (Function.update (fun _ => none) 2 (some samplePage)) := rfl
    simp only [h₁, h₂, h₄, Option.bind_some, Option.map_some, Option.some.injEq] at hone
    have hsame := asked_of_quiet (Machine.ReachBy.of_runIf (fun _ _ hq => hq) h)
    rintro r ⟨q, hr⟩
    rw [hsame, hone, Function.update_apply] at hr
    split at hr
    · exact (Option.some.inj hr).symm
    · cases hr
  obtain ⟨stmts, k, hq⟩ := of_aboutToInvalidate hq
  obtain ⟨page, hpage, -⟩ := returnedCount_eq_some hreturned
  refine ⟨w₁, w, page, hcommitted, hpage, ?_⟩
  rw [← hcommitted]
  refine listing_has_commit (.of_runIf keepsFresh_of_quiet h₁) hq ?_ h₂ .refl h₄
    (.of_runIf keepsFresh_of_quiet h) (.inl rfl) (by decide) hpage ?_ (of_decide_eq_true hitems)
    (by decide +kernel) (by decide +kernel)
  · constructor
    · intro q c call o k' _ _ owner _ q' scope i hq'
      rw [hquerying] at hq'
      cases hq'
    · rintro q' c call o k' heq hp' scope cursor limit rfl
      cases heq
      rw [hq] at hp'
      cases hp'
  · refine sampleCodec_separates fun r hr => ?_
    rw [hasked r hr]
    exact ⟨rfl, rfl⟩

end CloudJob
