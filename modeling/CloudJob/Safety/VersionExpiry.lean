import CloudJob.Lib.Expiring
import CloudJob.Safety.ListCache

/-!
# `Safety/VersionExpiry.lean` — version numbers that come back

The list cache over a Redis that forgets: a version key ends `VERSION_TTL_SECONDS` after its last
increment, a page `cache_ttl_seconds` after it was stored. Once a version key is gone its scope
counts from zero again. A page of the first life of a number can still be there in the second, if it
was stored shortly before the key went: reading a version does not prolong it.

Requests and invalidations follow one another; every call takes as long as it likes. `ListNotes`
remembers in which of them a page was computed, and which was the last to invalidate a scope. -/

set_option autoImplicit false

namespace CloudJob

open Lib

def VERSION_TTL_SECONDS : Nat := 7 * 24 * 60 * 60

/-! ## The cache and the time -/

structure TimedListState where
  db : Db
  versions : Expiring (Option Uuid) Nat
  pages : Expiring String Json
  /-- In milliseconds. -/
  clock : Int
  /-- The time that passes before the next call, and before each of those after it. -/
  pauses : Nat → Nat

namespace TimedListState

variable (s : TimedListState)

/-- The next call is made. -/
def wait : TimedListState :=
  { s with clock := s.clock + (s.pauses 0 : Int), pauses := fun n => s.pauses (n + 1) }

/-- `INCR` and `EXPIRE` of a version key. -/
def incrVersion (scope : Option Uuid) : TimedListState :=
  { s with
    versions := (s.versions.incr s.clock scope).2.expire s.clock scope
      (s.clock + 1000 * (VERSION_TTL_SECONDS : Int)) }

/-- What a call does; `cacheTtlSeconds` is the setting. -/
def perform (cacheTtlSeconds : Nat) : (o : ListOp) → TimedListState →
    Except ListExc o.Ret × TimedListState
  | .getVersion scope, s => (.ok ((s.versions.get s.clock scope).getD 0), s)
  | .getPage key, s => (.ok (s.pages.get s.clock key), s)
  | .setPage key page, s => (.ok (), { s with
      pages := s.pages.put key page (some (s.clock + 1000 * (cacheTtlSeconds : Int))) })
  | .query scope cursor limit, s => (.ok (runQuery s.db scope cursor limit), s)
  | .commit stmts, s => (.ok (), { s with db := s.db.applyAll stmts })
  | .incrVersions ownerId, s => (.ok (), (s.incrVersion (some ownerId)).incrVersion none)

/-- A call, made when its time has come. -/
def exec (cacheTtlSeconds : Nat) (o : ListOp) (s : TimedListState) :
    Except ListExc o.Ret × TimedListState :=
  s.wait.perform cacheTtlSeconds o

end TimedListState

/-- Requests and invalidations are numbered from 1. -/
structure ListNotes where
  event : Nat := 0
  /-- When the page under a key was computed. -/
  computed : String → Nat := fun _ => 0
  /-- When a scope was last invalidated. -/
  invalidated : Option Uuid → Nat := fun _ => 0
  /-- When the page was computed that the request in hand answers with. -/
  answered : Option Nat := none

def ListNotes.next (g : ListNotes) : ListNotes := { g with event := g.event + 1, answered := none }

def ListNotes.call (o : ListOp) (s : TimedListState) (g : ListNotes) : ListNotes :=
  match o with
  | .getPage key => { g with answered := (s.wait.pages.get s.wait.clock key).map fun _ => g.computed key }
  | .query _ _ _ => { g with answered := some g.event }
  | .setPage key _ => { g with computed := Function.update g.computed key g.event }
  | .incrVersions ownerId => { g with
      invalidated := fun scope => if scope = some ownerId ∨ scope = none then g.event else
        g.invalidated scope }
  | _ => g

section Run

variable (C : Codec) (cacheTtlSeconds : Nat)

/-- Run a program, with notes. -/
def runNoted {α : Type} (m : ListCode α) (x : TimedListState × ListNotes) :
    Except ListExc α × (TimedListState × ListNotes) :=
  m.eval (Prog.noting (TimedListState.exec cacheTtlSeconds) ListNotes.call) x

/-- `list_jobs`. -/
def answer (r : ListRequest) (x : TimedListState × ListNotes) :
    Except ListExc JobListPageDTO × (TimedListState × ListNotes) :=
  runNoted cacheTtlSeconds (listJobs C (redisJobListCache C) r.user r.cursor r.limit)
    (x.1, x.2.next)

/-- A commit, and the `invalidate_owner` that follows it. -/
def commitAndInvalidate (stmts : List Stmt) (ownerId : Uuid) : ListCode Unit := do
  listCall (.commit stmts)
  RedisJobListCache.invalidateOwner ownerId

inductive TimedEvent where
  | request (r : ListRequest)
  | invalidate (stmts : List Stmt) (ownerId : Uuid)

def happen : TimedEvent → TimedListState × ListNotes → TimedListState × ListNotes
  | .request r, x => (answer C cacheTtlSeconds r x).2
  | .invalidate stmts ownerId, x =>
      (runNoted cacheTtlSeconds (commitAndInvalidate stmts ownerId) (x.1, x.2.next)).2

def happenAll (events : List TimedEvent) (x : TimedListState × ListNotes) :
    TimedListState × ListNotes :=
  events.foldl (fun x ev => happen C cacheTtlSeconds ev x) x

/-- An empty Redis. -/
def timedStart (db : Db) (clock : Int) (pauses : Nat → Nat) : TimedListState × ListNotes :=
  (⟨db, fun _ => none, fun _ => none, clock, pauses⟩, {})

/-- The version a scope gets if it is invalidated now. -/
def TimedListState.nextVersion (s : TimedListState) (scope : Option Uuid) : Nat :=
  (s.versions.incr s.clock scope).1

/-- An invalidation gives its scopes numbers under which no page is left. -/
def TimedListState.Renews (s : TimedListState) (ownerId : Uuid) : Prop :=
  ∀ r : ListRequest, r.user.scope = some ownerId ∨ r.user.scope = none →
    s.pages.get s.clock (RedisJobListCache.cacheKey C r.user.scope
      (s.nextVersion r.user.scope) r.cursor (normalizeLimit r.limit)) = none

/-- Every invalidation does, at the time its `INCR` comes to Redis. -/
def AllRenew : List TimedEvent → TimedListState × ListNotes → Prop
  | [], _ => True
  | ev :: rest, x => (∀ stmts ownerId, ev = .invalidate stmts ownerId →
      x.1.wait.wait.Renews C ownerId) ∧
      AllRenew rest (happen C cacheTtlSeconds ev x)

end Run

/-! ## `list_jobs` after the lookup -/

/-- The key a request looks under, at a version. -/
abbrev ListRequest.keyAt (C : Codec) (r : ListRequest) (v : Nat) : String :=
  RedisJobListCache.cacheKey C r.user.scope v r.cursor (normalizeLimit r.limit)

/-- What a request still calls when it has looked under its key. -/
def ListOp.AfterLookup (C : Codec) (r : ListRequest) : ListOp → Prop
  | .getVersion scope => scope = r.user.scope
  | .query scope _ _ => scope = r.user.scope
  | .setPage key _ => ∃ v, key = r.keyAt C v
  | _ => False

/-- What `get_page` makes of what was found under the key. -/
def pageFound (C : Codec) : Option Json → ListCode (Option JobListPageDTO)
  | none => .ret none
  | some payload =>
    match RedisJobListCache.decodePage C payload with
    | some page => .ret (some page)
    | none => .raise .keyError

/-- `list_jobs` from there. -/
def listAfter (C : Codec) (r : ListRequest) (payload : Option Json) : ListCode JobListPageDTO := do
  let cachedPage ← pageFound C payload
  match cachedPage with
  | some cachedPage => return cachedPage
  | none =>
      let decodedCursor ← match r.cursor with
        | some cursor => Prog.ofExcept ((decodeCursor C cursor).map some)
        | none => .ret none
      let jobs ← listCall (.query r.user.scope decodedCursor (normalizeLimit r.limit + 1))
      let page ← Prog.ofExcept (buildJobListPage C jobs (normalizeLimit r.limit))
      RedisJobListCache.setPage C r.user.scope r.cursor (normalizeLimit r.limit) page
      return page

theorem listJobs_redis (C : Codec) (r : ListRequest) :
    listJobs C (redisJobListCache C) r.user r.cursor r.limit =
      .call (.getVersion r.user.scope) fun version => match version with
        | .error _ => listAfter C r none
        | .ok version => .call (.getPage (r.keyAt C version)) fun payload => match payload with
            | .error _ => listAfter C r none
            | .ok payload => listAfter C r payload := by
  refine congrArg (Prog.call _) (funext fun version => ?_)
  cases version with
  | error e => rfl
  | ok version =>
    refine congrArg (Prog.call _) (funext fun payload => ?_)
    cases payload with
    | error e => rfl
    | ok payload =>
      cases payload with
      | none => rfl
      | some payload =>
        show Prog.bind (match RedisJobListCache.decodePage C payload with | some page => _ | none => _) _ =
          Prog.bind (match RedisJobListCache.decodePage C payload with | some page => _ | none => _) _
        cases RedisJobListCache.decodePage C payload <;> rfl

theorem listAsks {C : Codec} {r : ListRequest} {o : ListOp} (h : o.AfterLookup C r) :
    (listCall o).Asks (ListOp.AfterLookup C r) := Prog.Asks.perform (S := listSig) h

theorem listAfter_asks (C : Codec) (r : ListRequest) (payload : Option Json) :
    (listAfter C r payload).Asks (ListOp.AfterLookup C r) := by
  unfold listAfter
  simp only [Prog.bind_eq]
  have hrest : ∀ decodedCursor, Prog.Asks (ListOp.AfterLookup C r)
      ((listCall (.query r.user.scope decodedCursor (normalizeLimit r.limit + 1))).bind fun jobs =>
        (Prog.ofExcept (buildJobListPage C jobs (normalizeLimit r.limit))).bind fun page =>
          (RedisJobListCache.setPage C r.user.scope r.cursor (normalizeLimit r.limit) page).bind
              fun _ =>
            (pure page : ListCode JobListPageDTO)) := by
    intro decodedCursor
    refine Prog.Asks.bind (listAsks rfl) fun jobs => (Prog.Asks.ofExcept _).bind fun page => ?_
    refine Prog.Asks.bind (Prog.Asks.tryCatch ?_ fun _ => trivial) fun _ => trivial
    exact Prog.Asks.bind (listAsks rfl) fun version => listAsks ⟨version, rfl⟩
  refine Prog.Asks.bind ?_ fun cachedPage => ?_
  · cases payload with
    | none => trivial
    | some payload =>
      unfold pageFound
      dsimp only
      cases RedisJobListCache.decodePage C payload <;> trivial
  · cases cachedPage with
    | some page => trivial
    | none =>
      dsimp only
      split
      · exact Prog.Asks.bind (.ofExcept _) hrest
      · exact hrest none

/-! ## What keeps an old page from being read -/

/-- A page of version `v` that ends at `t` is over, or its scope is at another version, and will not
come to read zero before the page is over. -/
def TimedListState.Harmless (s : TimedListState) (scope : Option Uuid) (v : Nat) (t : Int) : Prop :=
  t < s.clock ∨ ∃ n ends, s.versions scope = some ⟨n, some ends⟩ ∧ v ≠ n ∧ (v = 0 → t ≤ ends)

section Unread

variable {C : Codec} {cacheTtlSeconds : Nat} {s s' : TimedListState} {g g' : ListNotes}
  {scope : Option Uuid} {v : Nat} {t : Int}

/-- No page that was computed before the last invalidation of its scope can be read. -/
structure Unread (C : Codec) (cacheTtlSeconds : Nat) (s : TimedListState)
    (g : ListNotes) : Prop where
  timed : ∀ key e, s.pages key = some e →
    ∃ t, e.expiresAt = some t ∧ t ≤ s.clock + 1000 * (cacheTtlSeconds : Int)
  harmless : ∀ (r : ListRequest) v e t, s.pages (r.keyAt C v) = some e → e.expiresAt = some t →
    g.computed (r.keyAt C v) ≤ g.invalidated r.user.scope → s.Harmless r.user.scope v t
  past : ∀ scope, g.invalidated scope ≤ g.event

theorem Harmless.wait (h : s.Harmless scope v t) : s.wait.Harmless scope v t := by
  rcases h with hover | hother
  · refine .inl ?_
    unfold TimedListState.wait
    dsimp only
    omega
  · exact .inr hother

/-- What is harmless is not read. -/
theorem Harmless.unread (h : s.Harmless scope v t) (hlive : s.clock ≤ t) :
    (s.versions.get s.clock scope).getD 0 ≠ v := by
  rcases h with hover | ⟨n, ends, hn, hne, hzero⟩
  · omega
  · by_cases hends : s.clock ≤ ends
    · have hentry : s.versions.entry s.clock scope = some ⟨n, some ends⟩ :=
        Expiring.entry_eq_some.mpr ⟨hn, by simpa [Timed.isLive] using hends⟩
      rw [Expiring.get, hentry]
      exact hne.symm
    · have hentry : s.versions.entry s.clock scope = none := by
        cases he : s.versions.entry s.clock scope with
        | none => rfl
        | some e =>
          obtain ⟨heq, hlive'⟩ := Expiring.entry_eq_some.mp he
          rw [hn] at heq
          cases heq
          exact absurd (Expiring.isLive_iff.mp hlive' ends rfl) hends
      rw [Expiring.get, hentry]
      intro hv
      exact hends (hlive.trans (hzero hv.symm))

theorem Unread.wait (h : Unread C cacheTtlSeconds s g) : Unread C cacheTtlSeconds s.wait g where
  timed key e he := by
    obtain ⟨t, ht, hle⟩ := h.timed key e he
    refine ⟨t, ht, hle.trans ?_⟩
    unfold TimedListState.wait
    dsimp only
    omega
  harmless r v e t he ht hold := Harmless.wait (h.harmless r v e t he ht hold)
  past := h.past

/-- A page that is read is newer than the last invalidation of its scope, whatever time has passed
since the version was looked up. -/
theorem Unread.read (h : Unread C cacheTtlSeconds s g) (r : ListRequest) {d : Nat} {page : Json}
    (hpage : s.pages.get (s.clock + (d : Int))
      (r.keyAt C ((s.versions.get s.clock r.user.scope).getD 0)) = some page) :
    g.invalidated r.user.scope < g.computed (r.keyAt C
        ((s.versions.get s.clock r.user.scope).getD 0)) := by
  obtain ⟨e, he, -⟩ := Option.map_eq_some_iff.mp hpage
  obtain ⟨hkey, hlive⟩ := Expiring.entry_eq_some.mp he
  obtain ⟨t, ht, -⟩ := h.timed _ e hkey
  have hle := Expiring.isLive_iff.mp hlive t ht
  by_contra hold
  have hharmless := h.harmless r _ e t hkey ht (Nat.le_of_not_lt hold)
  exact Harmless.unread hharmless (by omega) rfl

/-- A page is stored in the request it was computed in, after everything that was invalidated. -/
theorem Unread.setPage (h : Unread C cacheTtlSeconds s g)
    (hnow : ∀ scope, g.invalidated scope < g.event) (key : String) (page : Json) :
    Unread C cacheTtlSeconds
      { s with pages := s.pages.put key page (some (s.clock + 1000 * (cacheTtlSeconds : Int))) }
      { g with computed := Function.update g.computed key g.event } where
  timed k e he := by
    dsimp only at he
    by_cases hk : k = key
    · rw [hk, Expiring.put_self] at he
      cases he
      exact ⟨_, rfl, le_refl _⟩
    · rw [Expiring.put_of_ne hk] at he
      exact h.timed k e he
  harmless r v e t he ht hold := by
    dsimp only at he hold
    by_cases hk : r.keyAt C v = key
    · rw [hk, Function.update_self] at hold
      exact absurd (hnow r.user.scope) (Nat.not_lt.mpr hold)
    · rw [Expiring.put_of_ne hk] at he
      rw [Function.update_of_ne hk] at hold
      exact h.harmless r v e t he ht hold
  past := h.past

/-- The version of a scope after an invalidation. -/
theorem versions_incrVersion (s : TimedListState) (scope : Option Uuid) :
    (s.incrVersion scope).versions = s.versions.put scope (s.nextVersion scope)
      (some (s.clock + 1000 * (VERSION_TTL_SECONDS : Int))) := Expiring.expire_incr

/-- Both scopes of an invalidation get their next version, and the whole of `VERSION_TTL_SECONDS`
for it. -/
theorem versions_incrVersions (s : TimedListState) {ownerId : Uuid}
    (hscope : scope = some ownerId ∨ scope = none) :
    ((s.incrVersion (some ownerId)).incrVersion none).versions scope =
      some ⟨s.nextVersion scope, some (s.clock + 1000 * (VERSION_TTL_SECONDS : Int))⟩ := by
  rw [versions_incrVersion]
  rcases hscope with rfl | rfl
  · rw [Expiring.put_of_ne (by simp), versions_incrVersion, Expiring.put_self]
  · rw [Expiring.put_self]
    have hadmin : (s.incrVersion (some ownerId)).nextVersion none = s.nextVersion none := by
      have hsame : (s.incrVersion (some ownerId)).versions none = s.versions none := by
        rw [versions_incrVersion, Expiring.put_of_ne (by simp)]
      unfold TimedListState.nextVersion
      rw [Expiring.incr_fst, Expiring.incr_fst, Expiring.get_congr hsame]
      rfl
    rw [hadmin]
    rfl

theorem versions_incrVersions_other (s : TimedListState) {ownerId : Uuid}
    (hscope : ¬ (scope = some ownerId ∨ scope = none)) :
    ((s.incrVersion (some ownerId)).incrVersion none).versions scope = s.versions scope := by
  obtain ⟨howner, hadmin⟩ := not_or.mp hscope
  rw [versions_incrVersion, Expiring.put_of_ne hadmin, versions_incrVersion,
    Expiring.put_of_ne howner]

/-- **An invalidation** that gives out new numbers leaves nothing old to read. -/
theorem Unread.invalidate {ownerId : Uuid} (h : Unread C cacheTtlSeconds s g)
    (httl : cacheTtlSeconds ≤ VERSION_TTL_SECONDS) (hrenews : s.Renews C ownerId) :
    Unread C cacheTtlSeconds ((s.incrVersion (some ownerId)).incrVersion none)
      (g.call (.incrVersions ownerId) s) where
  timed := h.timed
  harmless r v e t he ht hold := by
    have he : s.pages (r.keyAt C v) = some e := he
    by_cases hscope : r.user.scope = some ownerId ∨ r.user.scope = none
    · by_cases hlive : s.clock ≤ t
      · refine .inr ⟨_, _, versions_incrVersions s hscope, ?_, fun _ => ?_⟩
        · -- The page is alive, so its number was not given out again.
          rintro rfl
          have hentry : s.pages.entry s.clock (r.keyAt C (s.nextVersion r.user.scope)) = some e :=
            Expiring.entry_eq_some.mpr ⟨he, Expiring.isLive_iff.mpr fun t' ht' => by
              rw [ht] at ht'
              cases ht'
              exact hlive⟩
          have hgone := hrenews r hscope
          rw [Expiring.get, hentry] at hgone
          exact Option.some_ne_none _ hgone
        · obtain ⟨t', ht', hle⟩ := h.timed _ e he
          rw [ht] at ht'
          cases ht'
          omega
      · exact .inl (not_le.mp hlive)
    · have hbefore : g.computed (r.keyAt C v) ≤ g.invalidated r.user.scope := by
        simpa only [ListNotes.call, if_neg hscope] using hold
      rcases h.harmless r v e t he ht hbefore with hover | ⟨n, ends, hn, hrest⟩
      · exact .inl hover
      · exact .inr ⟨n, ends, (versions_incrVersions_other s hscope).trans hn, hrest⟩
  past scope := by
    change (if _ then _ else _) ≤ g.event
    split
    · exact le_refl _
    · exact h.past scope

/-- Time passes, a version is read, the list is queried or a page is stored: nothing old appears. -/
theorem Unread.call (h : Unread C cacheTtlSeconds s g) (hnow : ∀ scope, g.invalidated scope < g.event)
    {r : ListRequest} {o : ListOp} (ho : o.AfterLookup C r) :
    Unread C cacheTtlSeconds (s.exec cacheTtlSeconds o).2 (g.call o s) := by
  cases o with
  | getVersion scope => exact h.wait
  | query scope cursor limit => exact ⟨h.wait.timed, h.wait.harmless, h.past⟩
  | setPage key page => exact h.wait.setPage hnow key page
  | getPage key => exact ho.elim
  | commit stmts => exact ho.elim
  | incrVersions ownerId => exact ho.elim

end Unread

/-! ## Requests -/

section Request

variable {C : Codec} {cacheTtlSeconds : Nat} {x : TimedListState × ListNotes}

/-- The key a request looks under when its turn has come. -/
def ListRequest.lookupKey (C : Codec) (r : ListRequest) (s : TimedListState) : String :=
  r.keyAt C ((s.wait.versions.get s.wait.clock r.user.scope).getD 0)

/-- A request after its two lookups. -/
theorem answer_eq (r : ListRequest) :
    answer C cacheTtlSeconds r x =
      runNoted cacheTtlSeconds
        (listAfter C r (x.1.wait.wait.pages.get x.1.wait.wait.clock (r.lookupKey C x.1)))
        (x.1.wait.wait, { x.2.next with
          answered := (x.1.wait.wait.pages.get x.1.wait.wait.clock (r.lookupKey C x.1)).map fun _ =>
            x.2.computed (r.lookupKey C x.1) }) := by
  unfold answer
  rw [listJobs_redis]
  rfl

/-- Where nothing old can be read, and the page in hand is not old. -/
structure Current (C : Codec) (cacheTtlSeconds : Nat) (scope : Option Uuid)
    (x : TimedListState × ListNotes) : Prop where
  unread : Unread C cacheTtlSeconds x.1 x.2
  now : ∀ scope, x.2.invalidated scope < x.2.event
  answered : ∀ j ∈ x.2.answered, x.2.invalidated scope < j

theorem Current.call {scope : Option Uuid} (h : Current C cacheTtlSeconds scope x) {r : ListRequest}
    {o : ListOp} (ho : o.AfterLookup C r) :
    Current C cacheTtlSeconds scope ((x.1.exec cacheTtlSeconds o).2, x.2.call o x.1) where
  unread := h.unread.call h.now ho
  now scope := by
    cases o with
    | getVersion scope' => exact h.now scope
    | query scope' cursor limit => exact h.now scope
    | setPage key page => exact h.now scope
    | getPage key => exact ho.elim
    | commit stmts => exact ho.elim
    | incrVersions ownerId => exact ho.elim
  answered j hj := by
    cases o with
    | getVersion scope' => exact h.answered j hj
    | query scope' cursor limit =>
      cases hj
      exact h.now scope
    | setPage key page => exact h.answered j hj
    | getPage key => exact ho.elim
    | commit stmts => exact ho.elim
    | incrVersions ownerId => exact ho.elim

theorem Current.after {scope : Option Uuid} (h : Current C cacheTtlSeconds scope x)
    (r : ListRequest) (payload : Option Json) :
    Current C cacheTtlSeconds scope (runNoted cacheTtlSeconds (listAfter C r payload) x).2 :=
  Prog.eval_keeps (I := Current C cacheTtlSeconds scope) (fun _ _ ho hx => hx.call ho) _ _
    (listAfter_asks C r payload) h

/-- **A request** answers with a page that is newer than the last invalidation of its scope. -/
theorem Unread.answer (h : Unread C cacheTtlSeconds x.1 x.2) (r : ListRequest) :
    Current C cacheTtlSeconds r.user.scope (answer C cacheTtlSeconds r x).2 := by
  obtain ⟨s, g⟩ := x
  have hnow : ∀ scope, g.next.invalidated scope < g.next.event := fun scope =>
    Nat.lt_succ_of_le (h.past scope)
  have hlater : Unread C cacheTtlSeconds s.wait g.next :=
    ⟨h.wait.timed, h.wait.harmless, fun scope => (hnow scope).le⟩
  rw [answer_eq]
  refine Current.after ?_ r _
  refine ⟨⟨hlater.wait.timed, hlater.wait.harmless, hlater.past⟩, hnow, fun j hj => ?_⟩
  obtain ⟨page, hpage, rfl⟩ := Option.map_eq_some_iff.mp hj
  exact hlater.read r hpage

theorem Unread.commitAndInvalidate (h : Unread C cacheTtlSeconds x.1 x.2)
    (httl : cacheTtlSeconds ≤ VERSION_TTL_SECONDS) (stmts : List Stmt) {ownerId : Uuid}
    (hrenews : x.1.wait.wait.Renews C ownerId) :
    Unread C cacheTtlSeconds
      (happen C cacheTtlSeconds (.invalidate stmts ownerId) x).1
      (happen C cacheTtlSeconds (.invalidate stmts ownerId) x).2 := by
  obtain ⟨s, g⟩ := x
  have hcommitted : Unread C cacheTtlSeconds { s.wait with db := s.wait.db.applyAll stmts } g.next :=
    ⟨h.wait.timed, h.wait.harmless, fun scope => (h.past scope).trans (Nat.le_succ _)⟩
  exact hcommitted.wait.invalidate httl hrenews

/-! ## Sequences -/

theorem Unread.happen (h : Unread C cacheTtlSeconds x.1 x.2)
    (httl : cacheTtlSeconds ≤ VERSION_TTL_SECONDS) {ev : TimedEvent}
    (hrenews : ∀ stmts ownerId, ev = .invalidate stmts ownerId → x.1.wait.wait.Renews C ownerId) :
    Unread C cacheTtlSeconds (happen C cacheTtlSeconds ev x).1
    (happen C cacheTtlSeconds ev x).2 := by
  cases ev with
  | request r => exact (h.answer r).unread
  | invalidate stmts ownerId => exact h.commitAndInvalidate httl stmts (hrenews stmts ownerId rfl)

theorem Unread.happenAll (httl : cacheTtlSeconds ≤ VERSION_TTL_SECONDS) (events : List TimedEvent) :
    ∀ {x : TimedListState × ListNotes}, Unread C cacheTtlSeconds x.1 x.2 →
      AllRenew C cacheTtlSeconds events x →
      Unread C cacheTtlSeconds (happenAll C cacheTtlSeconds events x).1
        (happenAll C cacheTtlSeconds events x).2 := by
  induction events with
  | nil =>
    intro x h _
    exact h
  | cons ev rest ih =>
    intro x h hrenew
    exact ih (h.happen httl hrenew.1) hrenew.2

theorem unread_timedStart (db : Db) (clock : Int) (pauses : Nat → Nat) :
    Unread C cacheTtlSeconds (timedStart db clock pauses).1 (timedStart db clock pauses).2 where
  timed _ _ he := nomatch he
  harmless _ _ _ _ he := nomatch he
  past _ := le_refl _

/-- **Old pages stay gone.** As long as every invalidation gives its scopes version numbers under
which Redis has no page left, no request answers with a page from before the last invalidation of
its scope. -/
theorem expired_versions_stay_gone (C : Codec) {cacheTtlSeconds : Nat}
    (httl : cacheTtlSeconds ≤ VERSION_TTL_SECONDS) (db : Db) (clock : Int) (pauses : Nat → Nat)
    (events : List TimedEvent) (hrenew : AllRenew C cacheTtlSeconds events
      (timedStart db clock pauses))
    (r : ListRequest) :
    ∀ j ∈ (answer C cacheTtlSeconds r
        (happenAll C cacheTtlSeconds events (timedStart db clock pauses))).2.2.answered,
      (answer C cacheTtlSeconds r
        (happenAll C cacheTtlSeconds events (timedStart db clock pauses))).2.2.invalidated
        r.user.scope < j :=
  ((Unread.happenAll httl events (unread_timedStart db clock pauses) hrenew).answer r).answered

/-- User 7 asks for the first page. -/
def firstPage : ListRequest := ⟨⟨7, .user⟩, none, none⟩

/-- Asked for the second time, the page comes from the cache. -/
theorem expired_versions_stay_gone_hit :
    (answer sampleCodec 30 firstPage (happenAll sampleCodec 30
      [.invalidate [] 7, .request firstPage]
      (timedStart sampleDb 0 fun _ => 1))).2.2.answered = some 2 ∧
    ∀ j ∈ (answer sampleCodec 30 firstPage (happenAll sampleCodec 30 [.invalidate [] 7,
      .request firstPage]
        (timedStart sampleDb 0 fun _ => 1))).2.2.answered,
      (answer sampleCodec 30 firstPage (happenAll sampleCodec 30
        [.invalidate [] 7, .request firstPage]
        (timedStart sampleDb 0 fun _ => 1))).2.2.invalidated firstPage.user.scope < j := by
  refine ⟨by decide +kernel, expired_versions_stay_gone sampleCodec (by decide) sampleDb 0 (fun _ => 1)
    [.invalidate [] 7, .request firstPage] ⟨?_, fun _ _ heq => TimedEvent.noConfusion heq,
      trivial⟩ firstPage⟩
  intro stmts ownerId heq r hscope
  rw [Expiring.get, Expiring.entry_of_none rfl]
  rfl

/-! ## A number that comes back too early -/

/-- A page that was found costs no further call. -/
theorem runNoted_listAfter (r : ListRequest) (payload : Json) :
    (runNoted cacheTtlSeconds (listAfter C r (some payload)) x).2 = x := by
  unfold listAfter pageFound
  dsimp only
  cases RedisJobListCache.decodePage C payload <;> rfl

/-- Where an invalidation gives out a number under which a page is left, whoever asks for that page
at once gets it, and it is older than the invalidation. -/
theorem reused_version_serves_old (hpast : ∀ key, x.2.computed key ≤ x.2.event) {stmts : List Stmt}
    {ownerId : Uuid} (hpauses : x.1.pauses 2 = 0 ∧ x.1.pauses 3 = 0)
    (h : ¬ x.1.wait.wait.Renews C ownerId) :
    ∃ r : ListRequest, ∃ j ∈ (answer C cacheTtlSeconds r
        (happen C cacheTtlSeconds (.invalidate stmts ownerId) x)).2.2.answered,
      j < (answer C cacheTtlSeconds r
        (happen C cacheTtlSeconds (.invalidate stmts ownerId) x)).2.2.invalidated r.user.scope := by
  obtain ⟨s, g⟩ := x
  unfold TimedListState.Renews at h
  push Not at h
  obtain ⟨r, hscope, hleft⟩ := h
  obtain ⟨page, hpage⟩ := Option.ne_none_iff_exists'.mp hleft
  obtain ⟨y, hy⟩ : ∃ y, y = happen C cacheTtlSeconds (.invalidate stmts ownerId) (s, g) := ⟨_, rfl⟩
  rw [← hy]
  have hclock : y.1.wait.clock = s.wait.wait.clock ∧ y.1.wait.wait.clock = s.wait.wait.clock := by
    rw [hy]
    constructor
    · show s.wait.wait.clock + (s.pauses 2 : Int) = _
      rw [hpauses.1, Int.natCast_zero, Int.add_zero]
    · show s.wait.wait.clock + (s.pauses 2 : Int) + (s.pauses 3 : Int) = _
      rw [hpauses.1, hpauses.2, Int.natCast_zero, Int.add_zero, Int.add_zero]
  have hversion : (y.1.wait.versions.get y.1.wait.clock r.user.scope).getD 0 =
      s.wait.wait.nextVersion r.user.scope := by
    have hstate : y.1 = (({ s.wait with db := s.wait.db.applyAll stmts } : TimedListState).wait.incrVersion
        (some ownerId)).incrVersion none := by
      rw [hy]
      rfl
    have hversions : y.1.wait.versions r.user.scope = some ⟨s.wait.wait.nextVersion r.user.scope,
        some (s.wait.wait.clock + 1000 * (VERSION_TTL_SECONDS : Int))⟩ := by
      show y.1.versions r.user.scope = _
      rw [hstate, versions_incrVersions _ hscope]
      rfl
    have hlive : Timed.isLive y.1.wait.clock (⟨s.wait.wait.nextVersion r.user.scope,
        some (s.wait.wait.clock + 1000 * (VERSION_TTL_SECONDS : Int))⟩ : Timed Nat) = true := by
      refine Expiring.isLive_iff.mpr fun t ht => ?_
      cases ht
      rw [hclock.1]
      omega
    rw [Expiring.get, Expiring.entry_eq_some.mpr ⟨hversions, hlive⟩]
    rfl
  have hkey : r.lookupKey C y.1 = r.keyAt C (s.wait.wait.nextVersion r.user.scope) := by
    unfold ListRequest.lookupKey
    rw [hversion]
  have hlookup : y.1.wait.wait.pages.get y.1.wait.wait.clock (r.lookupKey C y.1) = some page := by
    rw [hclock.2, hkey, ← hpage, hy]
    rfl
  have hnotes : (answer C cacheTtlSeconds r y).2.2 =
      { y.2.next with answered := some (y.2.computed (r.lookupKey C y.1)) } := by
    rw [answer_eq, hlookup, runNoted_listAfter]
    rfl
  have hinvalidated : y.2.invalidated r.user.scope = g.event + 1 := by
    rw [hy]
    exact if_pos hscope
  have hcomputed : y.2.computed = g.computed := by
    rw [hy]
    rfl
  refine ⟨r, y.2.computed (r.lookupKey C y.1), ?_, ?_⟩
  · rw [hnotes]
    exact Option.mem_some_self _
  · rw [hnotes, hcomputed]
    exact (Nat.lt_succ_of_le (hpast _)).trans_eq hinvalidated.symm

/-- An invalidation, a request that comes a second before the version keys end, and two seconds
between it and the next commit. -/
def reusePauses : Nat → Nat
  | 2 => 1000 * (VERSION_TTL_SECONDS - 1)
  | 7 => 2000
  | _ => 0

/-- User 7 creates job 1, and a week later job 2. -/
def reuseEvents : List TimedEvent :=
  [.invalidate [.insertJob (sampleJob 1)] 7, .request firstPage,
    .invalidate [.insertJob (sampleJob 2)] 7]

/-- The version of user 7 is 1 for a week. In its last second job 1 is listed and the page is
stored. Two seconds later the key is gone, job 2 is created, the version is 1 again, and the list is
still that of job 1. -/
theorem expired_version_comes_back :
    ¬ ∀ (cacheTtlSeconds : Nat), cacheTtlSeconds ≤ VERSION_TTL_SECONDS →
      ∀ (db : Db) (clock : Int) (pauses : Nat → Nat) (events : List TimedEvent) (r : ListRequest),
        ∀ j ∈ (answer sampleCodec cacheTtlSeconds r
            (happenAll sampleCodec cacheTtlSeconds events (timedStart db clock pauses))).2.2.answered,
          (answer sampleCodec cacheTtlSeconds r
            (happenAll sampleCodec cacheTtlSeconds events (timedStart db clock pauses))).2.2.invalidated
              r.user.scope < j := by
  intro h
  have hanswered : (answer sampleCodec 30 firstPage
      (happenAll sampleCodec 30 reuseEvents (timedStart Db.empty 0 reusePauses))).2.2.answered = some 2 := by
    decide +kernel
  have hinvalidated : (answer sampleCodec 30 firstPage
      (happenAll sampleCodec 30 reuseEvents (timedStart Db.empty 0 reusePauses))).2.2.invalidated
        firstPage.user.scope = 3 := by
    decide +kernel
  have hfresh := h 30 (by decide) Db.empty 0 reusePauses reuseEvents firstPage 2 hanswered
  rw [hinvalidated] at hfresh
  exact absurd hfresh (by decide)

end Request

end CloudJob
