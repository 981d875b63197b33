import Mathlib.Data.Set.Function
import CloudJob.Contract.Soundness

/-!
# `Safety/Creation.lean` — creation is idempotent

However many `create_job` calls of one owner with one key are interleaved, they amount to one of
them having run first and the others after it. Two requests are compared by the hash of their
canonical text; that equal hashes mean equal requests is an assumption, made about the requests of
the run at hand. -/

set_option autoImplicit false

namespace CloudJob

open Lib

variable {P : Params} {w : World (machine P)}

/-- The canonical requests a run has to do with: those it was called with and those it stored. -/
def Requests (w : World (machine P)) : Set Json :=
  {x | (∃ p settings user key type payload,
      w.shared.calls p = some (.createJob settings user key type payload) ∧
      x = JobService.canonicalPayload type payload) ∨
    ∃ j row, w.shared.core.db.job j = some row ∧
      x = JobService.canonicalPayload row.type row.payload}

/-- On the requests of the run `json.dumps` tells two values apart exactly if they differ by more
than the order of their keys, and SHA-256 has no collision. -/
structure Canonical (w : World (machine P)) : Prop where
  dumps : ∀ x ∈ Requests w, ∀ y ∈ Requests w, x.dumps = y.dumps ↔ x.Same y
  sha256 : Set.InjOn P.sha256 (Json.dumps '' Requests w)

theorem JobType.value_injective {t t' : JobType} (h : t.value = t'.value) : t = t' := by
  cases t <;> cases t' <;> first | rfl | (exact absurd h (by decide))

/-- Two requests are the same if they agree in type and payload. -/
theorem same_canonicalPayload {t t' : JobType} {x x' : Json} :
    (JobService.canonicalPayload t x).Same (JobService.canonicalPayload t' x') ↔
      t = t' ∧ x.Same x' := by
  have hpayload : ∀ (t : JobType) (x : Json),
      (JobService.canonicalPayload t x).get? "payload" = some x := fun t x => rfl
  have htype : ∀ (t : JobType) (x : Json),
      (JobService.canonicalPayload t x).get? "type" = some (.str t.value) := fun t x => rfl
  have hstr : ∀ {a b : String}, Json.Same (.str a) (.str b) → a = b := by
    intro a b h
    cases h
    rfl
  constructor
  · intro h
    cases h with
    | obj _ hsame =>
      exact ⟨JobType.value_injective (hstr (hsame "type" _ _ (htype t x) (htype t' x'))),
        hsame "payload" _ _ (hpayload t x) (hpayload t' x')⟩
  · rintro ⟨rfl, hx⟩
    refine .obj (fun key => ?_) fun key a b ha hb => ?_
    · by_cases h₁ : key = "type"
      · subst h₁
        rfl
      · by_cases h₂ : key = "payload"
        · subst h₂
          rfl
        · have hne₁ : ("type" == key) = false := by simpa using fun h => h₁ h.symm
          have hne₂ : ("payload" == key) = false := by simpa using fun h => h₂ h.symm
          simp [Json.get?, hne₁, hne₂]
    · simp only [Json.get?, List.find?_cons] at ha hb
      by_cases h₁ : ("type" == key) = true
      · simp only [h₁, Option.map_some, Option.some.injEq] at ha hb
        rw [← ha, ← hb]
        exact .str _
      · simp only [h₁] at ha hb
        by_cases h₂ : ("payload" == key) = true
        · simp only [h₂, Option.map_some, Option.some.injEq] at ha hb
          rw [← ha, ← hb]
          exact hx
        · simp [h₂] at ha

/-! ## The answers -/

/-- The database holds the job of `owner` and `key`, in the row `row`. -/
structure Stored (w : World (machine P)) (owner : Uuid) (key : String) (row : Job) : Prop where
  found : w.shared.core.db.job row.id = some row
  owner : row.ownerId = owner
  key : row.idempotencyKey = key

/-- A call of the run and a stored job have the same hash exactly if they are the same request. -/
theorem Canonical.hash_eq_iff (hc : Canonical w) (h : Reachable P w) {p : Pid} {settings : Settings}
    {user : CurrentUserDTO} {key : String} {type : JobType} {payload : Json} {j : Uuid} {row : Job}
    (hcall : w.shared.calls p = some (.createJob settings user key type payload))
    (hj : w.shared.core.db.job j = some row) :
    row.requestHash = P.buildRequestHash type payload ↔ type = row.type ∧
    payload.Same row.payload := by
  have hx : JobService.canonicalPayload type payload ∈ Requests w :=
    .inl ⟨p, settings, user, key, type, payload, hcall, rfl⟩
  have hy : JobService.canonicalPayload row.type row.payload ∈ Requests w := .inr ⟨j, row, hj, rfl⟩
  have hrow : row.requestHash = P.sha256 (JobService.canonicalPayload row.type row.payload).dumps :=
    h.lawful.requestHash hj
  rw [← same_canonicalPayload, ← hc.dumps _ hx _ hy, hrow]
  constructor
  · intro heq
    exact (hc.sha256 ⟨_, hy, rfl⟩ ⟨_, hx, rfl⟩ heq).symm
  · intro heq
    rw [← heq]
    rfl

/-- How a call may end that has nothing to do with the other calls: it was rejected by the rate
limiter, it was hit by a failure of the database, or it died. A violated constraint is such a
failure unless it is the one on `(owner_id, idempotency_key)`, which is for `create_job` to deal
with. -/
def Exc.isOutside (e : Exc) : Prop :=
  e = .rateLimitExceeded ∨ e.isExternal = true ∨
    (∃ orig, e = .integrity orig ∧ isDuplicateJobIdempotencyKeyError orig = false) ∨ e = .crashed

/-- What a call that has ended answered. -/
theorem Reachable.created_cases (h : Reachable P w) (hc : Canonical w) {p : Pid}
    {settings : Settings}
    {user : CurrentUserDTO} {key : String} {type : JobType} {payload : Json} {prog : Code Outcome}
    (hp : w.procs p = some (.createJob settings user key type payload, prog))
    (hend : (∃ out, prog = .ret out) ∨ ∃ e, prog = .raise e ∧ ¬ e.isOutside) :
    (∃ r, prog = .ret (.created r) ∧ r.created = true) ∨
    ∃ row, Stored w user.id key row ∧
      ((∃ r, prog = .ret (.created r) ∧ r.created = false ∧ r.job.id = row.id ∧
          type = row.type ∧ payload.Same row.payload) ∨
        prog = .raise .idempotencyConflict ∧ ¬ (type = row.type ∧ payload.Same row.payload)) := by
  rcases hend with ⟨out, rfl⟩ | ⟨e, rfl, hout⟩
  · have hpost : Post P p (.createJob settings user key type payload) (.ok out) w.shared :=
      h.post_ret hp
    cases out with
    | created r =>
      have ha : JobService.Answered p user.id key (P.buildRequestHash type payload) r
          w.shared.core :=
        hpost
      cases hr : r.created with
      | true => exact .inl ⟨r, rfl, hr⟩
      | false =>
        rw [JobService.Answered, if_neg (by simp [hr])] at ha
        obtain ⟨row, hj, ho, hk, hhash⟩ := ha
        have hid := Db.job_id hj
        refine .inr ⟨row, ⟨hid ▸ hj, ho, hk⟩, .inl ⟨r, rfl, hr, hid.symm, ?_⟩⟩
        exact (hc.hash_eq_iff h (h.calls hp) hj).mp hhash
    | _ => exact hpost.elim
  · rcases h.post_raise hp with hcr | hext | hint | hrate | ⟨rfl, id, row, hj, ho, hk, hhash⟩
    · exact absurd (.inr (.inr (.inr hcr))) hout
    · exact absurd (.inr (.inl hext)) hout
    · exact absurd (.inr (.inr (.inl hint))) hout
    · exact absurd (.inl hrate) hout
    · have hid := Db.job_id hj
      refine .inr ⟨row, ⟨hid ▸ hj, ho, hk⟩, .inr ⟨rfl, fun hsame => hhash ?_⟩⟩
      exact (hc.hash_eq_iff h (h.calls hp) hj).mpr hsame

/-- **Creation is idempotent.** For any owner and key, in any state any run reaches: one row at
most; one call at most that returned `created=True`; and every other call that has ended, unless by
one of the outside ways, answered as the one stored job has it. No call ends in the `RuntimeError`
of `_load_existing_job`. -/
theorem creation_idempotent (h : Reachable P w) (hc : Canonical w) (owner : Uuid) (key : String) :
    (∀ row row', Stored w owner key row → Stored w owner key row' → row = row') ∧
    (∀ p p' settings settings' user user' type type' payload payload' r r',
      user.id = owner → user'.id = owner →
      w.procs p = some (.createJob settings user key type payload, .ret (.created r)) →
      w.procs p' = some (.createJob settings' user' key type' payload', .ret (.created r')) →
      r.created = true → r'.created = true → p = p') ∧
    ∀ p settings user type payload prog, user.id = owner →
      w.procs p = some (.createJob settings user key type payload, prog) →
      (∀ text, prog ≠ .raise (.runtimeError text)) ∧
      ((∃ out, prog = .ret out) ∨ (∃ e, prog = .raise e ∧ ¬ e.isOutside) →
        (∃ r, prog = .ret (.created r) ∧ r.created = true) ∨
        ∃ row, Stored w owner key row ∧
          (type = row.type ∧ payload.Same row.payload →
            ∃ r, prog = .ret (.created r) ∧ r.created = false ∧ r.job.id = row.id) ∧
          (¬ (type = row.type ∧ payload.Same row.payload) →
              prog = .raise .idempotencyConflict)) := by
  refine ⟨fun row row' hr hr' => ?_, ?_, fun p settings user type payload prog hu hp => ⟨?_, ?_⟩⟩
  · exact h.lawful.job_of_key hr.found hr'.found (hr.owner.trans hr'.owner.symm)
      (hr.key.trans hr'.key.symm)
  · intro p p' settings settings' user user' type type' payload payload' r r' hu hu' hp hp' hr hr'
    have ha : JobService.Answered p user.id key (P.buildRequestHash type payload) r w.shared.core :=
      h.post_ret hp
    have ha' : JobService.Answered p' user'.id key (P.buildRequestHash type' payload') r'
        w.shared.core := h.post_ret hp'
    rw [JobService.Answered, if_pos hr, hu] at ha
    rw [JobService.Answered, if_pos hr', hu'] at ha'
    obtain ⟨en, hen, hpid, -⟩ := ha
    obtain ⟨en', hen', hpid', -⟩ := ha'
    rw [← hpid, ← hpid', h.lawful.inserted_once hen hen']
  · rintro text rfl
    rcases h.post_raise hp with he | he | ⟨_, he, -⟩ | he | ⟨he, -⟩ <;> cases he
  · intro hend
    refine (h.created_cases hc hp hend).imp_right ?_
    rintro ⟨row, hrow, ⟨r, rfl, hr, hid, hsame⟩ | ⟨rfl, hdiff⟩⟩
    · exact ⟨row, hu ▸ hrow, fun _ => ⟨r, rfl, hr, hid⟩, fun hne => absurd hsame hne⟩
    · exact ⟨row, hu ▸ hrow, fun heq => absurd heq hdiff, fun _ => rfl⟩

/-- The calls of a run are those of its schedule. -/
theorem start_mem_of_calls {ms : List (Move (machine P))} {w w' : World (machine P)}
    (h : (machine P).run ms w = some w') {p : Pid} {c : Call} (hc : w'.shared.calls p = some c) :
    w.shared.calls p = some c ∨ .start p c ∈ ms := by
  induction ms generalizing w with
  | nil =>
    simp only [Machine.run, Option.some.injEq] at h
    exact .inl (h ▸ hc)
  | cons mv ms ih =>
    simp only [Machine.run] at h
    split at h
    · rename_i w₁ hs
      rcases ih h with hc₁ | hmem
      · rcases step_calls hs with ⟨q, c', rfl, -, hcalls⟩ | ⟨-, hcalls⟩
        · rw [hcalls] at hc₁
          by_cases hpq : p = q
          · subst hpq
            rw [Function.update_self] at hc₁
            cases hc₁
            exact .inr List.mem_cons_self
          · rw [Function.update_of_ne hpq] at hc₁
            exact .inl hc₁
        · exact .inl (hcalls ▸ hc₁)
      · exact .inr (List.mem_cons_of_mem _ hmem)
    · cases h

/-- The three requests all find the key free before the first of them inserts its job. The second
asks for the same and the third for something else; both run into the row that is there. -/
def repeatedMoves : List (Move (machine .default)) :=
  [.env (.register 1),
    .start 1 (.createJob {} ⟨1, .user⟩ "k" .success (.obj []))] ++ answers 1 2 ++
    [.start 2 (.createJob {} ⟨1, .user⟩ "k" .failure (.obj []))] ++ answers 2 2 ++
    createMoves 0 1 10 11 "k" .success 0 ++
    [.run 1 (.reservation none), .run 1 (.uuid 20), .run 1 (.time 0), .run 1 (.time 0)] ++
    answers 1 6 ++
    [.run 2 (.reservation none), .run 2 (.uuid 30), .run 2 (.time 0),
      .run 2 (.time 0)] ++ answers 2 6

/-- What process `p` answered, if it has returned from a `create_job`. -/
def answerOf (w : World (machine P)) (p : Pid) : Option JobCreateResultDTO :=
  (w.procs p).bind fun x => match x.2 with
    | .ret (.created r) => some r
    | _ => none

theorem answerOf_eq_some {p : Pid} {r : JobCreateResultDTO} (h : answerOf w p = some r) :
    ∃ op, w.procs p = some (op, .ret (.created r)) := by
  unfold answerOf at h
  obtain ⟨⟨op, prog⟩, hp, hr⟩ := Option.bind_eq_some_iff.mp h
  split at hr
  · cases hr
    rename_i heq
    exact ⟨op, by rw [hp, ← heq]⟩
  · cases hr

/-- What process `p` raised. -/
def raisedBy (w : World (machine P)) (p : Pid) : Option Exc :=
  (w.procs p).bind fun x => match x.2 with
    | .raise e => some e
    | _ => none

theorem raisedBy_eq_some {p : Pid} {e : Exc} (h : raisedBy w p = some e) :
    ∃ op, w.procs p = some (op, .raise e) := by
  unfold raisedBy at h
  obtain ⟨⟨op, prog⟩, hp, he⟩ := Option.bind_eq_some_iff.mp h
  split at he
  · cases he
    rename_i heq
    exact ⟨op, by rw [hp, ← heq]⟩
  · cases he

/-- `{}`. -/
def Json.isEmptyObj : Json → Bool
  | .obj [] => true
  | _ => false

theorem Json.eq_of_isEmptyObj {a : Json} (h : a.isEmptyObj = true) : a = .obj [] := by
  unfold isEmptyObj at h
  split at h
  · rfl
  · cases h

/-- Of two requests that are both `{}`, the types are told apart by whatever tells these texts
apart. -/
theorem type_eq_of_texts {f : Json → String} (hf :
    f (JobService.canonicalPayload .success (.obj [])) ≠
    f (JobService.canonicalPayload .failure (.obj []))) {type type' : JobType} (ht : type ≠ .sleep)
    (ht' : type' ≠ .sleep) (heq : f (JobService.canonicalPayload type (.obj [])) =
      f (JobService.canonicalPayload type' (.obj []))) : type = type' := by
  cases type with
  | sleep => exact absurd rfl ht
  | success =>
    cases type' with
    | sleep => exact absurd rfl ht'
    | success => rfl
    | failure => exact absurd heq hf
  | failure =>
    cases type' with
    | sleep => exact absurd rfl ht'
    | success => exact absurd heq.symm hf
    | failure => rfl

/-- Where all requests are `{}`, the assumptions hold. -/
theorem canonical_of_requests {w : World (machine .default)}
    (h : ∀ x ∈ Requests w, ∃ type, type ≠ .sleep ∧ x = JobService.canonicalPayload type (.obj [])) :
    Canonical w := by
  have hsame : Json.Same (.obj []) (.obj []) := .obj (fun _ => rfl) fun _ _ _ ha => by cases ha
  have htexts : (JobService.canonicalPayload .success (.obj [])).dumps ≠
      (JobService.canonicalPayload .failure (.obj [])).dumps := by decide +kernel
  have hhashes : Params.default.sha256 (JobService.canonicalPayload .success (.obj [])).dumps ≠
      Params.default.sha256 (JobService.canonicalPayload .failure (.obj [])).dumps := by decide +kernel
  refine ⟨fun x hx y hy => ?_, ?_⟩
  · obtain ⟨type, ht, rfl⟩ := h x hx
    obtain ⟨type', ht', rfl⟩ := h y hy
    rw [same_canonicalPayload, and_iff_left hsame]
    exact ⟨type_eq_of_texts htexts ht ht', fun heq => by rw [heq]⟩
  · rintro a ⟨x, hx, rfl⟩ b ⟨y, hy, rfl⟩ heq
    obtain ⟨type, ht, rfl⟩ := h x hx
    obtain ⟨type', ht', rfl⟩ := h y hy
    have hf : type = type' := type_eq_of_texts (f := fun x => Params.default.sha256 x.dumps)
      hhashes ht ht' heq
    rw [hf]

/-- The processes of the run, and their requests. -/
theorem repeated_calls {w : World (machine .default)}
    (hw : (machine .default).run repeatedMoves (World.init .default) = some w) {p : Pid}
    {c : Call} (hc : w.shared.calls p = some c) :
    p ≠ 2 ∧ c = .createJob {} ⟨1, .user⟩ "k" .success (.obj []) ∨
      p = 2 ∧ c = .createJob {} ⟨1, .user⟩ "k" .failure (.obj []) := by
  obtain hc | hmem := start_mem_of_calls hw hc
  · cases hc
  · simp only [repeatedMoves, createMoves, answers, List.mem_append, List.mem_cons,
      List.mem_replicate,
      List.not_mem_nil, reduceCtorEq, Move.start.injEq, and_false, or_false, false_or] at hmem
    obtain (⟨rfl, rfl⟩ | ⟨rfl, rfl⟩) | ⟨rfl, rfl⟩ := hmem
    · exact .inl ⟨by decide, rfl⟩
    · exact .inr ⟨rfl, rfl⟩
    · exact .inl ⟨by decide, rfl⟩

/-- The duplicates: the one is answered with the job that is there, the other is refused. -/
theorem creation_idempotent_repeated : ∃ w, Reachable .default w ∧ ∃ row, Stored w 1 "k" row ∧
    (∃ r, w.procs 1 = some (.createJob {} ⟨1, .user⟩ "k" .success (.obj []), .ret (.created r)) ∧
      r.created = false ∧ r.job.id = row.id) ∧
    w.procs 2 = some (.createJob {} ⟨1, .user⟩ "k" .failure (.obj []),
        .raise .idempotencyConflict) := by
  have hrun : ((machine .default).run repeatedMoves (World.init .default)).map (fun w =>
      (w.shared.core.db.jobs.rows.all fun row => row.type == .success && row.payload.isEmptyObj,
        (answerOf w 1).map JobCreateResultDTO.created, raisedBy w 2)) =
      some (true, some false, some .idempotencyConflict) := by
    decide +kernel
  obtain ⟨w, hw, hrest⟩ := Option.map_eq_some_iff.mp hrun
  simp only [Prod.mk.injEq] at hrest
  have hr : Reachable .default w := .of_run hw
  have hc : Canonical w := by
    refine canonical_of_requests fun x hx => ?_
    obtain ⟨p, settings, user, key, type, payload, hcall, rfl⟩ | ⟨j, row, hj, rfl⟩ := hx
    · obtain ⟨-, heq⟩ | ⟨-, heq⟩ := repeated_calls hw hcall
      · cases heq
        exact ⟨.success, by simp, rfl⟩
      · cases heq
        exact ⟨.failure, by simp, rfl⟩
    · have hrow := List.all_eq_true.mp hrest.1 row (Table.mem_of_find? hj)
      simp only [Bool.and_eq_true, beq_iff_eq] at hrow
      exact ⟨.success, by simp, by rw [hrow.1, Json.eq_of_isEmptyObj hrow.2]⟩
  obtain ⟨r, hans, hcreated⟩ := Option.map_eq_some_iff.mp hrest.2.1
  obtain ⟨op, hp⟩ := answerOf_eq_some hans
  obtain ⟨op', hp'⟩ := raisedBy_eq_some hrest.2.2
  obtain ⟨-, rfl⟩ | ⟨h2, -⟩ := repeated_calls hw (hr.calls hp)
  swap
  · cases h2
  obtain ⟨hne, -⟩ | ⟨-, rfl⟩ := repeated_calls hw (hr.calls hp')
  · exact absurd rfl hne
  have hall := (creation_idempotent hr hc 1 "k").2.2 1 {} ⟨1, .user⟩ .success (.obj []) _ rfl hp
  obtain ⟨r', heq, hr'⟩ | ⟨row, hrow, hsame, hdiff⟩ := hall.2 (.inl ⟨_, rfl⟩)
  · cases heq
    rw [hcreated] at hr'
    cases hr'
  · by_cases hs : JobType.success = row.type ∧ Json.Same (.obj []) row.payload
    · obtain ⟨r', heq, -, hid⟩ := hsame hs
      cases heq
      exact ⟨w, hr, row, hrow, ⟨r, hp, hcreated, hid⟩, hp'⟩
    · cases hdiff hs

end CloudJob
