import CloudJob.Contract.Accounts
import CloudJob.Lib.Simulation
import CloudJob.Runtime

/-!
# `Safety/Accounts.lean` — who has an account, and who is signed in

The four operations of `AuthService` keep the contract of the accounts, and what that comes to over
whole runs: an address is registered once, nobody becomes an administrator but by the command for
it, and a token that is accepted is one that a login with the password of the account was given, not
too long ago. -/

set_option autoImplicit false

namespace CloudJob

open Lib

variable {K : Security} {s s' : AuthState} {p q : Pid} {α β : Type}

/-! ## Rules -/

/-- A postcondition of `p` that the others keep, and that asks nothing where the database failed. -/
structure Stable (p : Pid) (Q : Except AuthExc α → AuthState → Prop) : Prop where
  rely : ∀ {r : Except AuthExc α} {s s' : AuthState}, AuthRely p s s' → Q r s → Q r s'
  database : ∀ (text : String) (s : AuthState), Q (.error (.database text)) s

/-- One that no step takes back. -/
structure Lasting (Q : Except AuthExc α → AuthState → Prop) : Prop where
  mono : ∀ {r : Except AuthExc α} {s s' : AuthState}, s.Extends s' → Q r s → Q r s'
  database : ∀ (text : String) (s : AuthState), Q (.error (.database text)) s

section Rules

variable {Q : Except AuthExc α → AuthState → Prop}

theorem Lasting.stable (hQ : Lasting Q) (p : Pid) : Stable p Q :=
  ⟨fun hr => hQ.mono hr.toExtends, hQ.database⟩

theorem Stable.ret (hQ : Stable p Q) {a : α} (h : Q (.ok a) s) :
    (authContract K).Safe p (.ret a) Q s :=
  fun _ _ hr => hQ.rely hr h

theorem Stable.raise (hQ : Stable p Q) {e : AuthExc} (h : Q (.error e) s) :
    (authContract K).Safe p (.raise e) Q s :=
  fun _ _ hr => hQ.rely hr h

theorem safe_call {o : AuthOp} {f : o.Ret → AuthCode α}
    (h : ∀ s', AuthInv K s' → AuthRely p s s' → AuthPre K p o s' ∧
      ∀ r s'', AuthEffect K p s' o r s'' → s'.Extends s'' → match r with
        | .ok a => (authContract K).Safe p (f a) Q s''
        | .error e => Q (.error e) s'') (hQ : Stable p Q) :
    (authContract K).Safe p ((authCall o).bind f) Q s := by
  refine Protocol.Safe.call_bind fun s' hi hr => ⟨(h s' hi hr).1, fun c r s'' _ he => ?_⟩
  have heffect := AuthState.exec_effect he
  have hnext := (h s' hi hr).2 r s'' heffect (hi.call (h s' hi hr).1 heffect).2.1
  cases r with
  | ok a => exact hnext
  | error e => exact hQ.raise hnext

theorem safe_now {f : Datetime → AuthCode α}
    (h : ∀ s' t, AuthInv K s' → AuthRely p s s' → (t - s'.clock).natAbs ≤ K.skew →
      (authContract K).Safe p (f t) Q s') (hQ : Stable p Q) :
    (authContract K).Safe p ((authCall .now).bind f) Q s := by
  refine safe_call (fun s' hi hr => ⟨trivial, fun r s'' he _ => ?_⟩) hQ
  cases he with
  | now t ht => exact h s' t hi hr ht
  | raised text => exact hQ.database text _

theorem safe_uuid4 {f : Uuid → AuthCode α}
    (h : ∀ s' u, AuthInv K s' → s.Extends s' → s'.staged p = s.staged p →
      (∀ l, s'.locks l = some p ↔ s.locks l = some p) → s'.uuidOwner u = some p →
      (authContract K).Safe p (f u) Q s') (hQ : Stable p Q) :
    (authContract K).Safe p ((authCall .uuid4).bind f) Q s := by
  refine safe_call (fun s' hi hr => ⟨trivial, fun r s'' he hext => ?_⟩) hQ
  have hpre : AuthPre K p .uuid4 s' := trivial
  have hinv := (hi.call hpre he).1
  cases he with
  | uuid4 u hu => exact h _ u hinv (hr.toExtends.trans hext) hr.staged hr.locks (Function.update_self ..)
  | raised text => exact hQ.database text _

theorem safe_salt {f : Nat → AuthCode α}
    (h : ∀ s' n, AuthInv K s' → AuthRely p s s' → (authContract K).Safe p (f n) Q s')
    (hQ : Stable p Q) : (authContract K).Safe p ((authCall .salt).bind f) Q s := by
  refine safe_call (fun s' hi hr => ⟨trivial, fun r s'' he _ => ?_⟩) hQ
  cases he with
  | salt n => exact h s' n hi hr
  | raised text => exact hQ.database text _

/-- `async with`: the exit may raise, and changes nothing else. -/
theorem safe_authUow {body : AuthCode α}
    (h : ∀ s', AuthInv K s' → AuthRely p s s' → (authContract K).Safe p body Q s')
    (hQ : Lasting Q) : (authContract K).Safe p (authUow body) Q s := by
  have hexit : ∀ {raised : Bool} {f : Unit → AuthCode α} {s₁ : AuthState},
      (∀ s₂, s₁.Extends s₂ → (authContract K).Safe p (f ()) Q s₂) →
        (authContract K).Safe p ((authCall (.aexit raised)).bind f) Q s₁ := by
    intro raised f s₁ hf
    refine safe_call (fun s' hi hr => ⟨trivial, fun r s'' he hext => ?_⟩) (hQ.stable p)
    cases he with
    | left raised r hres =>
      rcases hres with rfl | ⟨text, rfl⟩
      · exact hf _ (hr.toExtends.trans hext)
      · exact hQ.database text _
    | raised text => exact hQ.database text _
  refine safe_call (fun s' hi hr => ⟨trivial, fun r s'' he _ => ?_⟩) (hQ.stable p)
  cases he with
  | aenter =>
    refine Protocol.Safe.bind (Protocol.Safe.attempt ((h s' hi hr).mono fun r s₁ _ hres => ?_))
    cases r with
    | ok a => exact hexit fun s₂ hext => (hQ.stable p).ret (hQ.mono hext hres)
    | error e => exact hexit fun s₂ hext => (hQ.stable p).raise (hQ.mono hext hres)
  | raised text => exact hQ.database text _

end Rules

/-! ## Adding an account -/

/-- The row `p` is about to commit, or holds as it is. -/
def Placing (s : AuthState) (p : Pid) (user : User) : Prop :=
  s.staged p = [.insert user] ∨ s.locks (.user user.id) = some p ∧
    ∃ row, s.users.find? user.id = some row ∧
    (s.staged p = [] ∧ row = user ∨ ∃ passwordHash updatedAt,
      s.staged p = [.updateAdmin user.id passwordHash updatedAt] ∧
      setAdmin passwordHash updatedAt row = user)

theorem Placing.rely {user : User} (h : Placing s p user) (hr : AuthRely p s s') :
    Placing s' p user := by
  refine h.imp (fun hst => hr.staged.trans hst) ?_
  rintro ⟨hlock, row, hrow, hst⟩
  refine ⟨(hr.locks _).mpr hlock, row, (hr.row hlock).trans hrow, ?_⟩
  rw [hr.staged]
  exact hst

/-- It is then in the table. -/
theorem Placing.mem_view {user : User} (h : Placing s p user) (hi : AuthInv K s) :
    user ∈ (s.view p).rows := by
  rcases h with hst | ⟨-, row, hrow, ⟨hst, rfl⟩ | ⟨passwordHash, updatedAt, hst, hset⟩⟩
  · have hent := hi.staged (hst ▸ List.mem_singleton_self _)
    have hrows : (s.view p).rows = s.users.rows ++ [user] := by
      rw [AuthState.view, hst]
      exact Table.rows_insert hent.1
    rw [hrows]
    exact List.mem_append_right _ (List.mem_singleton_self _)
  · rw [AuthState.view_of_nil hst]
    exact Table.mem_of_find? hrow
  · have hview : s.view p = (UserStmt.updateAdmin user.id passwordHash updatedAt).apply
        s.users := by
      rw [AuthState.view, hst]
      rfl
    rw [hview, UserStmt.apply, Table.mem_modify]
    refine ⟨row, Table.mem_of_find? hrow, ?_⟩
    rw [if_pos (Table.key_of_find? hrow)]
    exact hset.symm

/-- What the repository leaves: the row is in place, and it is a new one where `own` says so, or the
index says that the address is taken. -/
def Entered (email : String) (role : UserRole) (isActive own : Bool) (p : Pid) :
    Except AuthExc User → AuthState → Prop
  | .ok user, s => user.email = email ∧ user.role = role ∧ user.isActive = isActive ∧
      (own = true → s.uuidOwner user.id = some p) ∧ Placing s p user
  | .error (.integrity orig), s => isDuplicateEmailIntegrityError orig = true →
      ∃ row ∈ s.users.rows, row.email = email
  | .error .duplicateEmail, s => ∃ row ∈ s.users.rows, row.email = email
  | .error _, _ => True

theorem Outlives.email {users users' : UserTable} (h : Outlives users users') {email : String}
    (hrow : ∃ row ∈ users.rows, row.email = email) : ∃ row ∈ users'.rows, row.email = email := by
  obtain ⟨row, hmem, he⟩ := hrow
  obtain ⟨row', hmem', hsame⟩ := h row hmem
  exact ⟨row', hmem', hsame.email.trans he⟩

theorem Entered.stable (email : String) (role : UserRole) (isActive own : Bool) (p : Pid) :
    Stable p (Entered email role isActive own p) where
  rely {r s s'} hr h := by
    cases r with
    | ok user =>
      obtain ⟨he, hrole, ha, hu, hplace⟩ := h
      exact ⟨he, hrole, ha, fun ho => hr.uuids (hu ho), hplace.rely hr⟩
    | error e =>
      cases e with
      | integrity orig => exact fun hd => hr.outlives.email (h hd)
      | duplicateEmail => exact hr.outlives.email h
      | _ => trivial
  database _ _ := trivial

theorem AuthState.violated_email {users : UserTable} {user : User} {orig : IntegrityError}
    (h : violated users user = some orig) (hd : isDuplicateEmailIntegrityError orig = true) :
    ∃ row ∈ users.rows, row.email = user.email := by
  unfold violated at h
  split at h
  · rename_i hsome
    obtain ⟨row, hrow⟩ := Option.isSome_iff_exists.mp hsome
    exact ⟨row, byEmail_eq_some hrow⟩
  · split at h
    · cases h
      exact absurd hd (by decide)
    · cases h

/-- `User(…)` and its flush. -/
theorem safe_insert {email passwordHash : String} {role : UserRole} {isActive : Bool} (own : Bool)
    (hn : ∃ address, K.normalizeEmail address = email) (hp : role = .admin → Promotes K s p email)
    (hst : s.staged p = []) :
    (authContract K).Safe p (UserRepository.insert email passwordHash role isActive)
      (Entered email role isActive own p) s := by
  have hQ := Entered.stable email role isActive own p
  refine safe_uuid4 (fun s₁ id _ hext hst₁ _ hu => ?_) hQ
  refine safe_now (fun s₂ createdAt _ hr₂ _ => ?_) hQ
  refine safe_now (fun s₃ updatedAt _ hr₃ _ => ?_) hQ
  refine safe_call (fun s₄ hi₄ hr₄ => ?_) hQ
  have hr : AuthRely p s₁ s₄ := (hr₂.trans hr₃).trans hr₄
  have hnone : s₄.staged p = [] := by rw [hr.staged, hst₁, hst]
  refine ⟨⟨hnone, hn, fun ha => (hp ha).mono (hext.trans hr.toExtends)⟩, fun r s₅ he _ => ?_⟩
  cases he with
  | violated user orig hv =>
    rw [AuthState.view_of_nil hnone] at hv
    exact fun hd => AuthState.violated_email hv hd
  | inserted user hok hfree =>
    exact hQ.ret ⟨rfl, rfl, rfl, fun _ => hr.uuids hu, .inl (AuthState.staged_stage hnone)⟩
  | raised text => trivial

theorem safe_createUser {email passwordHash : String} {role : UserRole}
    {isActive : Bool} (own : Bool)
    (hn : ∃ address, K.normalizeEmail address = email) (hp : role = .admin → Promotes K s p email)
    (hst : s.staged p = []) :
    (authContract K).Safe p (UserRepository.createUser email passwordHash role isActive)
      (Entered email role isActive own p) s := by
  have hQ := Entered.stable email role isActive own p
  refine Protocol.Safe.tryCatch ((safe_insert own hn hp hst).mono fun r s' _ hr => ?_)
  cases r with
  | ok user => exact hQ.ret hr
  | error e =>
    cases e with
    | integrity orig =>
      show (authContract K).Safe p (if isDuplicateEmailIntegrityError orig then
        .raise .duplicateEmail
        else .raise (.integrity orig)) _ s'
      split
      · rename_i hd
        exact hQ.raise (hr hd)
      · exact hQ.raise hr
    | _ => exact hQ.raise hr

/-- `p` has committed the account of this address, with this role. -/
def Enrolled (K : Security) (email : String) (role : UserRole) :
    Except AuthExc User → AuthState → Prop
  | .ok user, s => user.email = K.normalizeEmail email ∧ user.role = role ∧ user.isActive = true ∧
      ∃ row ∈ s.users.rows, user.SameAccount row
  | .error .duplicateEmail, s => ∃ row ∈ s.users.rows, row.email = K.normalizeEmail email
  | .error _, _ => True

theorem Enrolled.lasting (email : String) (role : UserRole) : Lasting (Enrolled K email role) where
  mono {r s s'} hext h := by
    cases r with
    | ok user =>
      obtain ⟨he, hrole, ha, row, hrow, hsame⟩ := h
      obtain ⟨row', hrow', hsame'⟩ := hext.outlives row hrow
      exact ⟨he, hrole, ha, row', hrow', hsame.trans hsame'⟩
    | error e =>
      cases e with
      | duplicateEmail => exact hext.outlives.email h
      | _ => trivial
  database _ _ := trivial

/-- The same, and its id is one that `p` drew. -/
def Registered (K : Security) (email : String) (p : Pid) (r : Except AuthExc User)
    (s : AuthState) : Prop :=
  Enrolled K email .user r s ∧ ∀ user, r = .ok user → s.uuidOwner user.id = some p

theorem Registered.lasting (email : String) (p : Pid) : Lasting (Registered K email p) where
  mono hext h := ⟨(Enrolled.lasting email .user).mono hext h.1, fun user hu =>
    hext.uuids (h.2 user hu)⟩
  database _ _ := ⟨trivial, fun _ hu => by cases hu⟩

/-- The commit of a row that is in place. -/
theorem safe_commit {Q : Except AuthExc User → AuthState → Prop} {user : User}
    (hplace : Placing s p user)
    (h : ∀ s', s.Extends s' → user ∈ s'.users.rows → Q (.ok user) s') (hQ : Stable p Q) :
    (authContract K).Safe p ((authCall .commit).bind fun _ => .ret user) Q s := by
  refine safe_call (fun s' hi hr => ⟨trivial, fun r s'' he hext => ?_⟩) hQ
  cases he with
  | committed r hres =>
    rcases hres with rfl | ⟨text, rfl⟩
    · exact hQ.ret (h _ (hr.toExtends.trans hext) ((hplace.rely hr).mem_view hi))
    · exact hQ.database text _
  | raised text => exact hQ.database text _

/-- A postcondition of what is made of an answer. -/
def Through (f : α → β) (Q : Except AuthExc α → AuthState → Prop) :
    Except AuthExc β → AuthState → Prop
  | .ok b, s => ∃ a, f a = b ∧ Q (.ok a) s
  | .error e, s => Q (.error e) s

theorem Through.lasting {f : α → β} {Q : Except AuthExc α → AuthState → Prop} (hQ : Lasting Q) :
    Lasting (Through f Q) where
  mono {r s s'} hext h := by
    cases r with
    | ok b =>
      obtain ⟨a, hb, h⟩ := h
      exact ⟨a, hb, hQ.mono hext h⟩
    | error e => exact hQ.mono hext h
  database := hQ.database

theorem safe_map {m : AuthCode α} {f : α → β} {Q : Except AuthExc α → AuthState → Prop}
    (hQ : Lasting Q) (h : (authContract K).Safe p m Q s) :
    (authContract K).Safe p (m.bind fun a => .ret (f a)) (Through f Q) s :=
  h.andThen (fun a _ _ hres => ((Through.lasting hQ).stable p).ret ⟨a, rfl, hres⟩) fun _ _ _ hres =>
    hres

theorem safe_registerUser {email password : String} (hst : s.staged p = []) :
    (authContract K).Safe p (AuthService.registerUser K email password)
      (Through toUserPublicDto (Registered K email p)) s := by
  have hQ : Lasting (Registered K email p) := Registered.lasting email p
  simp only [AuthService.registerUser, AuthService.hashPassword, Prog.bind_eq, Prog.pure_eq,
    Prog.bind_assoc,
    Prog.ret_bind]
  refine safe_salt (fun s₁ salt _ hr₁ => safe_map hQ ?_) ((Through.lasting hQ).stable p)
  refine safe_authUow (fun s₂ _ hr₂ => safe_call (fun s₃ _ hr₃ => ?_) (hQ.stable p)) hQ
  have hnone : s₃.staged p = [] := by rw [((hr₁.trans hr₂).trans hr₃).staged, hst]
  refine ⟨hnone, fun r s₄ he hext => ?_⟩
  cases he with
  | selectByEmail email' =>
    rw [AuthState.view_of_nil hnone]
    cases hfound : byEmail s₃.users (K.normalizeEmail email) with
    | some row =>
      exact (hQ.stable p).raise ⟨⟨row, byEmail_eq_some hfound⟩, fun _ hu => by cases hu⟩
    | none =>
      refine (safe_createUser true ⟨email, rfl⟩ (fun ha => by cases ha) hnone).andThen
        (fun user s₅ _ hres => ?_) fun e s₅ _ hres => ?_
      · obtain ⟨he, hrole, ha, hu, hplace⟩ := hres
        exact safe_commit hplace (fun s₆ hext hmem =>
          ⟨⟨he, hrole, ha, user, hmem, .refl user⟩, fun user' hu' => Except.ok.inj hu' ▸
            hext.uuids (hu rfl)⟩)
          (hQ.stable p)
      · refine ⟨?_, fun _ hu => by cases hu⟩
        cases e with
        | duplicateEmail => exact hres
        | _ => trivial
  | raised text => exact hQ.database text _

/-! ## Making an administrator -/

/-- The row that was read for update is locked, until the transaction ends. -/
theorem safe_promote {email passwordHash : String}
    (hn : ∃ address, K.normalizeEmail address = email)
    (hp : Promotes K s p email) (hst : s.staged p = []) :
    (authContract K).Safe p (UserRepository.createOrUpdateAdmin email passwordHash)
      (Entered email .admin true false p) s := by
  have hQ := Entered.stable email .admin true false p
  refine safe_call (fun s₁ hi₁ hr₁ => ?_) hQ
  have hnone : s₁.staged p = [] := hr₁.staged.trans hst
  refine ⟨hnone, fun r s₂ he _ => ?_⟩
  cases he with
  | noneForUpdate email' hfound => exact safe_insert false hn (fun _ => hp.mono hr₁.toExtends) hnone
  | someForUpdate email' user hfound hfree =>
    rw [AuthState.view_of_nil hnone] at hfound
    obtain ⟨hmem, hemail⟩ := byEmail_eq_some hfound
    have hlock : (s₁.lock p [.user user.id]).locks (.user user.id) = some p :=
      if_pos (List.mem_singleton_self _)
    have hrow : (s₁.lock p [.user user.id]).users.find? user.id = some user :=
      Table.find?_of_mem hmem
    show (authContract K).Safe p (if UserRepository.promoted user passwordHash = user then .ret user
      else (authCall .now).bind fun updatedAt =>
        (authCall (.updateAdmin user.id passwordHash updatedAt)).bind fun _ =>
          .ret (setAdmin passwordHash updatedAt user)) _ _
    split
    · -- nothing changed, and nothing is staged
      rename_i hsame
      have hrole : user.role = .admin := by rw [← hsame]; rfl
      have hactive : user.isActive = true := by rw [← hsame]; rfl
      exact hQ.ret ⟨hemail, hrole, hactive, (fun ho => by cases ho),
        .inr ⟨hlock, user, hrow, .inl ⟨hnone, rfl⟩⟩⟩
    · refine safe_now (fun s₃ updatedAt _ hr₃ _ => safe_call (fun s₄ _ hr₄ => ?_) hQ) hQ
      have hr := hr₃.trans hr₄
      have hrow₄ := (hr.row hlock).trans hrow
      have hnone₄ : s₄.staged p = [] := hr.staged.trans hnone
      have hp₄ : Promotes K s₄ p user.email := by
        rw [hemail]
        exact hp.mono (hr₁.toExtends.trans ((AuthState.Extends.lock s₁ p _).trans hr.toExtends))
      refine ⟨⟨hnone₄, user, Table.mem_of_find? hrow₄, rfl, hp₄⟩, fun r s₅ he _ => ?_⟩
      cases he with
      | updated id passwordHash' updatedAt' hfree =>
        have hheld : (s₄.stage p (.updateAdmin user.id passwordHash updatedAt)).locks
          (.user user.id) =
            some p := if_pos (List.mem_singleton_self _)
        exact hQ.ret ⟨hemail, rfl, rfl, (fun ho => by cases ho),
          .inr ⟨hheld, user, hrow₄, .inr ⟨passwordHash,
          updatedAt, AuthState.staged_stage hnone₄, rfl⟩⟩⟩
      | raised text => trivial
  | raised text => trivial

theorem safe_createOrUpdateAdmin {email password : String}
    (hc : s.calls p = some (.createOrUpdateAdmin email password)) (hst : s.staged p = []) :
    (authContract K).Safe p (AuthService.createOrUpdateAdmin K email password)
      (Through toUserPublicDto (Enrolled K email .admin)) s := by
  have hQ : Lasting (Enrolled K email .admin) := Enrolled.lasting email .admin
  simp only [AuthService.createOrUpdateAdmin, AuthService.hashPassword, Prog.bind_eq, Prog.pure_eq,
    Prog.bind_assoc, Prog.ret_bind]
  refine safe_salt (fun s₁ salt _ hr₁ => safe_map hQ ?_) ((Through.lasting hQ).stable p)
  refine safe_authUow (fun s₂ _ hr₂ => ?_) hQ
  have hr := hr₁.trans hr₂
  have hpromotes : Promotes K s₂ p (K.normalizeEmail email) := ⟨email, password, hr.calls hc, rfl⟩
  refine (safe_promote ⟨email, rfl⟩ hpromotes (hr.staged.trans hst)).andThen
    (fun user s₃ _ hres => ?_)
    fun e s₃ _ hres => ?_
  · obtain ⟨he, hrole, ha, -, hplace⟩ := hres
    exact safe_commit hplace (fun s₄ _ hmem =>
      ⟨he, hrole, ha, user, hmem, .refl user⟩) (hQ.stable p)
  · cases e with
    | duplicateEmail => exact hres
    | _ => trivial

/-! ## Signing in -/

/-- What a login returns is a token it was issued. -/
def SignedIn (K : Security) (p : Pid) : Except AuthExc LoginResultDTO → AuthState → Prop
  | .ok dto, s => ∃ t ∈ s.issued, t.pid = p ∧ t.token K = dto.accessToken ∧
      dto.expiresAt = t.issuedAt + K.ttl
  | .error _, _ => True

theorem SignedIn.lasting (p : Pid) : Lasting (SignedIn K p) where
  mono {r s s'} hext h := by
    cases r with
    | ok dto =>
      obtain ⟨t, ht, hrest⟩ := h
      exact ⟨t, hext.issued t ht, hrest⟩
    | error e => trivial
  database _ _ := trivial

/-- What the first half of a login hands on: an account of the address, as it was during the
login. -/
def Found (K : Security) (email password : String) (p : Pid) :
    Except AuthExc User → AuthState → Prop
  | .ok user, s => user ∈ s.since p ∧ user.email = K.normalizeEmail email ∧
      s.calls p = some (.login email password)
  | .error _, _ => True

theorem ne_none_of_calls {c : AuthCall} (h : s.calls p = some c) : s.calls p ≠ none :=
  Option.ne_none_iff_exists'.mpr ⟨c, h⟩

theorem Found.lasting (email password : String) (p : Pid) : Lasting (Found K email password p) where
  mono {r s s'} hext h := by
    cases r with
    | ok user => exact ⟨hext.since (ne_none_of_calls h.2.2) user h.1, h.2.1, hext.calls h.2.2⟩
    | error e => trivial
  database _ _ := trivial

/-- What a clock reads is not further from the time than clocks are off. -/
theorem reading_bounds {t now : Int} {skew : Nat} (h : (t - now).natAbs ≤ skew) :
    t ≤ now + skew ∧ now ≤ t + skew := by
  omega

/-- `create_access_token`, for an account whose password was given. -/
theorem safe_createAccessToken {email password : String} {user : User}
    (hfound : Found K email password p (.ok user) s)
    (hv : K.verify password user.passwordHash = true) (ha : user.isActive = true) :
    (authContract K).Safe p (AuthService.createAccessToken K user.id user.role)
      (fun r s => ∀ x, r = .ok x →
        ∃ t ∈ s.issued, t.pid = p ∧ t.token K = x.1 ∧ x.2 = t.issuedAt + K.ttl) s := by
  have hF : Lasting (Found K email password p) := Found.lasting email password p
  have hQ : Lasting (fun (r : Except AuthExc (String × Datetime)) (s : AuthState) =>
    ∀ x, r = .ok x →
      ∃ t ∈ s.issued, t.pid = p ∧ t.token K = x.1 ∧ x.2 = t.issuedAt + K.ttl) := by
    refine ⟨fun hext h x hx => ?_, fun _ _ x hx => by cases hx⟩
    obtain ⟨t, ht, hrest⟩ := h x hx
    exact ⟨t, hext.issued t ht, hrest⟩
  refine safe_now (fun s₁ issuedAt hi₁ hr₁ hread => ?_) (hQ.stable p)
  refine safe_uuid4 (fun s₂ jti _ hext₂ _ _ _ => ?_) (hQ.stable p)
  refine safe_call (fun s₃ hi₃ hr₃ => ?_) (hQ.stable p)
  have hext := hext₂.trans hr₃.toExtends
  have hfound₁ := hF.mono hr₁.toExtends hfound
  obtain ⟨hsince, hemail, hc⟩ := hF.mono hext hfound₁
  have hne₁ := ne_none_of_calls hfound₁.2.2
  obtain ⟨hlate, hearly⟩ := reading_bounds hread
  refine ⟨⟨⟨email, password, user, hc, hsince, rfl, rfl, hemail, hv, ha⟩, ?_, ?_,
    hi₃.epoch, le_rfl⟩,
    fun r s₄ he _ => ?_⟩
  · exact hlate.trans (Int.add_le_add_right hext.clock _)
  · show s₃.started p ≤ issuedAt + K.skew
    rw [hext.started hne₁]
    exact (hi₁.started hne₁).trans hearly
  · cases he with
    | encoded userId role issuedAt' jti' =>
      refine (hQ.stable p).ret fun x hx => ?_
      cases hx
      exact ⟨_, List.mem_cons_self, rfl, rfl, rfl⟩
    | raised text => exact fun x hx => by cases hx

theorem safe_loginUser {email password : String} (hc : s.calls p = some (.login email password))
    (hst : s.staged p = []) :
    (authContract K).Safe p (AuthService.loginUser K email password) (SignedIn K p) s := by
  have hQ : Lasting (SignedIn K p) := SignedIn.lasting p
  have hF : Lasting (Found K email password p) := Found.lasting email password p
  refine Protocol.Safe.andThen (R := Found K email password p) ?_ (fun user s₁ _ hfound => ?_)
    fun _ _ _ _ => trivial
  · refine safe_authUow (fun s₁ _ hr₁ => safe_call (fun s₂ hi₂ hr₂ => ?_) (hF.stable p)) hF
    have hr := hr₁.trans hr₂
    have hnone : s₂.staged p = [] := hr.staged.trans hst
    have hc₂ := hr.calls hc
    refine ⟨hnone, fun r s₃ he _ => ?_⟩
    cases he with
    | selectByEmail email' =>
      rw [AuthState.view_of_nil hnone]
      cases hfound : byEmail s₂.users (K.normalizeEmail email) with
      | none => exact (hF.stable p).raise trivial
      | some row =>
        obtain ⟨hmem, hemail⟩ := byEmail_eq_some hfound
        exact (hF.stable p).ret ⟨hi₂.current (ne_none_of_calls hc₂) row hmem, hemail, hc₂⟩
    | raised text => trivial
  · show (authContract K).Safe p (if !K.verify password user.passwordHash then _ else
      if !user.isActive then _ else _) _ _
    split
    · exact (hQ.stable p).raise trivial
    · rename_i hv
      split
      · exact (hQ.stable p).raise trivial
      · rename_i ha
        refine (safe_createAccessToken hfound (by simpa using hv) (by simpa using ha)).andThen
          (fun x s₂ _ hx => ?_) fun _ _ _ _ => trivial
        exact (hQ.stable p).ret (hx x rfl)

/-! ## Being recognised -/

/-- What the clock may have read since `p` was started. -/
def AuthState.Reads (K : Security) (s : AuthState) (p : Pid) (r : Datetime) : Prop :=
  s.started p ≤ r + K.skew ∧ r ≤ s.clock + K.skew

/-- How `get_current_user` may end: with the account as it was at some moment of the call, or, where
the token was read, because there was no such account or it was not active. -/
def Recognised (K : Security) (token : String) (p : Pid) :
    Except AuthExc AuthenticatedUserDTO → AuthState → Prop
  | .ok dto, s => ∃ r claims row, s.Reads K p r ∧ K.decodeAccessToken r token = .ok claims ∧
      row ∈ s.since p ∧
      row.id = claims.subject ∧ row.isActive = true ∧ dto = toAuthenticatedUserDto row
  | .error e, s => (∃ text, e = .database text) ∨ ∃ r, s.Reads K p r ∧
      (K.decodeAccessToken r token = .error e ∨ ∃ claims, K.decodeAccessToken r token = .ok claims ∧
        ((∀ row ∈ s.opened p, row.id ≠ claims.subject) ∧
          e = .authentication "Access token is invalid" ∨
          (∃ row ∈ s.since p, row.id = claims.subject ∧ row.isActive = false) ∧ e = .inactiveUser))

theorem AuthState.Reads.mono {r : Datetime} (h : s.Reads K p r) (hext : s.Extends s')
    (hne : s.calls p ≠ none) : s'.Reads K p r := by
  refine ⟨?_, h.2.trans (Int.add_le_add_right hext.clock _)⟩
  rw [hext.started hne]
  exact h.1

/-- `Recognised` lasts, for a process that is running. -/
def StillRecognised (K : Security) (token : String) (p : Pid)
    (r : Except AuthExc AuthenticatedUserDTO) (s : AuthState) : Prop :=
  r = .error .crashed ∨ (∃ text, r = .error (.database text)) ∨ s.calls p ≠ none ∧
    Recognised K token p r s

theorem StillRecognised.lasting (token : String) (p : Pid) :
    Lasting (StillRecognised K token p) where
  mono {r s s'} hext h := by
    refine h.imp_right (Or.imp_right ?_)
    rintro ⟨hne, h⟩
    refine ⟨hext.calls_ne hne, ?_⟩
    cases r with
    | ok dto =>
      obtain ⟨r, claims, row, hr, hd, hrow, hrest⟩ := h
      exact ⟨r, claims, row, hr.mono hext hne, hd, hext.since hne row hrow, hrest⟩
    | error e =>
      refine h.imp_right ?_
      rintro ⟨r, hr, h⟩
      refine ⟨r, hr.mono hext hne, h.imp_right ?_⟩
      rintro ⟨claims, hd, h⟩
      refine ⟨claims, hd, h.imp ?_ ?_⟩
      · rw [hext.opened hne]
        exact id
      · rintro ⟨⟨row, hrow, hrest⟩, he⟩
        exact ⟨⟨row, hext.since hne row hrow, hrest⟩, he⟩
  database text _ := .inr (.inl ⟨text, rfl⟩)

theorem safe_getCurrentUser {token : String} (hc : s.calls p = some (.currentUser token))
    (hst : s.staged p = []) :
    (authContract K).Safe p (AuthService.getCurrentUser K token) (StillRecognised K token p) s := by
  have hQ : Lasting (StillRecognised K token p) := StillRecognised.lasting token p
  refine safe_now (fun s₁ r hi₁ hr₁ hread => ?_) (hQ.stable p)
  have hc₁ := hr₁.calls hc
  have hne₁ := ne_none_of_calls hc₁
  obtain ⟨hlate, hearly⟩ := reading_bounds hread
  have hreads : s₁.Reads K p r := ⟨(hi₁.started hne₁).trans hearly, hlate⟩
  cases hd : K.decodeAccessToken r token with
  | error e => exact (hQ.stable p).raise (.inr (.inr ⟨hne₁, .inr ⟨r, hreads, .inl hd⟩⟩))
  | ok claims =>
    refine safe_authUow (fun s₂ _ hr₂ => safe_call (fun s₃ hi₃ hr₃ => ?_) (hQ.stable p)) hQ
    have hr := hr₂.trans hr₃
    have hne₃ := hr.calls_ne hne₁
    have hreads₃ := hreads.mono hr.toExtends hne₁
    have hnone : s₃.staged p = [] := by rw [hr.staged, hr₁.staged, hst]
    refine ⟨hnone, fun res s₄ he _ => ?_⟩
    cases he with
    | selectById id =>
      rw [AuthState.view_of_nil hnone]
      cases hfound : s₃.users.find? claims.subject with
      | none =>
        refine (hQ.stable p).raise (.inr (.inr ⟨hne₃, .inr ⟨r, hreads₃, .inr ⟨claims, hd,
          .inl ⟨fun row hrow hid => ?_, rfl⟩⟩⟩⟩))
        obtain ⟨row', hrow', hsame⟩ := hi₃.known row (hi₃.opened row hrow)
        exact Table.find?_eq_none.mp hfound row' hrow' (hsame.id.trans hid)
      | some row =>
        have hid : row.id = claims.subject := Table.key_of_find? hfound
        have hsince : row ∈ s₃.since p := hi₃.current hne₃ row (Table.mem_of_find? hfound)
        show (authContract K).Safe p (if !row.isActive then _ else _) _ _
        split
        · rename_i ha
          exact (hQ.stable p).raise (.inr (.inr ⟨hne₃, .inr ⟨r, hreads₃, .inr ⟨claims, hd,
            .inr ⟨⟨row, hsince, hid, by simpa using ha⟩, rfl⟩⟩⟩⟩))
        · rename_i ha
          exact (hQ.stable p).ret (.inr (.inr ⟨hne₃, r, claims, row, hreads₃, hd, hsince, hid,
            by simpa using ha, rfl⟩))
    | raised text => exact hQ.database text _

/-! ## Runs -/

/-- What each operation leaves. -/
def authPost (K : Security) (p : Pid) : AuthCall → Except AuthExc AuthOut → AuthState → Prop
  | .register email _ => Through .user (Through toUserPublicDto (Registered K email p))
  | .login _ _ => Through .login (SignedIn K p)
  | .currentUser token => Through .currentUser (StillRecognised K token p)
  | .createOrUpdateAdmin email _ => Through .user
      (Through toUserPublicDto (Enrolled K email .admin))

theorem AuthInv.init : AuthInv K .init where
  distinct row hrow := by cases hrow
  grounded row hrow := by cases hrow
  single _ := .inl rfl
  locked hst := by cases hst
  staged hst := by cases hst
  known v hv := by cases hv
  opened v hv := by cases hv
  current hq := absurd rfl hq
  started hq := absurd rfl hq
  epoch := le_rfl
  issued t ht := by cases ht

theorem AuthCall.safe {c : AuthCall} (hs : s.start p c = some s') :
    (authContract K).Safe p (c.prog K) (authPost K p c) s' := by
  obtain ⟨-, rfl⟩ := AuthState.start_cases hs
  have hc : (s.launch p c).calls p = some c := Function.update_self ..
  have hst : (s.launch p c).staged p = [] := Function.update_self ..
  cases c with
  | register email password =>
    exact safe_map (Through.lasting (Registered.lasting email p)) (safe_registerUser hst)
  | login email password => exact safe_map (SignedIn.lasting p) (safe_loginUser hc hst)
  | currentUser token => exact safe_map (StillRecognised.lasting token p) (safe_getCurrentUser hc hst)
  | createOrUpdateAdmin email password =>
    exact safe_map (Through.lasting (Enrolled.lasting email .admin)) (safe_createOrUpdateAdmin hc hst)

theorem authPost_crashed (c : AuthCall) : authPost K p c (.error .crashed) s := by
  cases c with
  | register email password => exact ⟨trivial, fun _ hu => by cases hu⟩
  | login email password => trivial
  | currentUser token => exact .inl rfl
  | createOrUpdateAdmin email password => trivial

variable {w w' : World (authMachine K)} {ok : World (authMachine K) → Move (authMachine K) → Prop}

/-- The contract is kept in every run. -/
theorem auth_allSafe (h : (authMachine K).ReachBy ok (World.initAuth K) w) :
    (authContract K).AllSafe (authPost K) w := by
  have hinit : (authContract K).AllSafe (authPost K) (World.initAuth K) :=
    ⟨AuthInv.init, fun _ _ _ hp => by cases hp⟩
  exact Protocol.AllSafe.reach (fun _ _ _ _ _ hs => AuthCall.safe hs) (fun _ c _ =>
    authPost_crashed c)
    (fun _ _ _ _ _ _ _ _ => trivial) hinit h

/-- A call changes nothing of what processes were started on. -/
theorem AuthEffect.calls {o : AuthOp} {r : Except AuthExc o.Ret} (h : AuthEffect K p s o r s') :
    s'.calls = s.calls := by
  cases h <;> rfl

theorem AuthState.env_calls {e : AuthEnv} (h : s.env e = some s') : s'.calls = s.calls := by
  cases e with
  | tick d =>
    cases h
    rfl
  | setActive id isActive =>
    simp only [env] at h
    split at h
    · cases h
      rfl
    · cases h

theorem auth_calls (h : (authMachine K).ReachBy ok (World.initAuth K) w) :
    ∀ q, w.shared.calls q = (w.procs q).map Prod.fst := by
  refine h.invariant
    (I := fun w : World (authMachine K) => ∀ q, w.shared.calls q = (w.procs q).map Prod.fst)
    (fun _ => rfl) fun w w' m hI _ hs q => ?_
  rcases Machine.step_cases hs with ⟨p, c, s, rfl, hp, hst, rfl⟩ |
    ⟨p, ch, c, o, k, r, s, rfl, hp, he, rfl⟩ |
    ⟨p, c, prog, rfl, hp, rfl⟩ | ⟨e, s, rfl, he, rfl⟩
  · obtain ⟨-, rfl⟩ := AuthState.start_cases hst
    by_cases hq : q = p
    · subst hq
      simp [AuthState.launch]
    · simp only [AuthState.launch, Function.update_of_ne hq]
      exact hI q
  · have hcalls := (AuthState.exec_effect he).calls
    by_cases hq : q = p
    · subst hq
      simp only [Function.update_self, hcalls, hI q, hp, Option.map_some]
    · simp only [Function.update_of_ne hq, hcalls]
      exact hI q
  · by_cases hq : q = p
    · subst hq
      have hsame : (w.shared.release q).calls q = w.shared.calls q := rfl
      simp only [Function.update_self, hsame, hI q, hp, Option.map_some]
    · simp only [Function.update_of_ne hq]
      exact hI q
  · simp only [AuthState.env_calls he]
    exact hI q

theorem auth_started (h : (authMachine K).ReachBy ok (World.initAuth K) w) {c : AuthCall}
    (hc : w.shared.calls q = some c) : ∃ prog, w.procs q = some (c, prog) := by
  rw [auth_calls h q, Option.map_eq_some_iff] at hc
  obtain ⟨⟨c', prog⟩, hp, rfl⟩ := hc
  exact ⟨prog, hp⟩

theorem auth_extends (h : (authContract K).AllSafe (authPost K) w) {m : Move (authMachine K)}
    (hs : (authMachine K).step m w = some w') : w.shared.Extends w'.shared := by
  rcases Machine.step_cases hs with ⟨p, c, s, rfl, -, hst, rfl⟩ |
    ⟨p, ch, c, o, k, r, s, rfl, hp, he, rfl⟩ |
    ⟨p, c, prog, rfl, -, rfl⟩ | ⟨e, s, rfl, he, rfl⟩
  · obtain ⟨hnone, rfl⟩ := AuthState.start_cases hst
    exact .launch hnone c
  · exact (h.1.call (h.pre hp) (AuthState.exec_effect he)).2.1
  · exact .release w.shared p
  · exact ((h.1.env he).2 0).toExtends

/-! ## What the job system sees -/

theorem Change.ids {users users' : UserTable} {ls : List UserLock} (h : Change users ls users') :
    users'.rows.map User.id = users.rows.map User.id ∨
      ∃ u, users'.rows.map User.id = users.rows.map User.id ++ [u] := by
  cases h with
  | nothing => exact .inl rfl
  | insert user hid hemail =>
    right
    rw [Table.rows_insert hid, List.map_append]
    exact ⟨user.id, rfl⟩
  | modify id f hf =>
    left
    rw [Table.modify, List.map_map]
    refine List.map_congr_left fun row _ => ?_
    simp only [Function.comp_apply]
    split
    · exact (hf row).id
    · rfl

theorem auth_change (h : (authContract K).AllSafe (authPost K) w) {m : Move (authMachine K)}
    (hs : (authMachine K).step m w = some w') : ∃ ls, Change w.shared.users ls w'.shared.users := by
  rcases Machine.step_cases hs with ⟨p, c, s, rfl, -, hst, rfl⟩ |
    ⟨p, ch, c, o, k, r, s, rfl, hp, he, rfl⟩ |
    ⟨p, c, prog, rfl, -, rfl⟩ | ⟨e, s, rfl, he, rfl⟩
  · obtain ⟨-, rfl⟩ := AuthState.start_cases hst
    exact ⟨[], .nothing⟩
  · cases AuthState.exec_effect he with
    | committed r hr =>
      obtain ⟨ls, hc, -⟩ := h.1.view_change p
      exact ⟨ls, hc⟩
    | _ => exact ⟨[], .nothing⟩
  · exact ⟨[], .nothing⟩
  · cases e with
    | tick d =>
      cases he
      exact ⟨[], .nothing⟩
    | setActive id isActive =>
      simp only [AuthState.env] at he
      split at he
      · cases he
        exact ⟨_, .modify id _ (setActive_same isActive)⟩
      · cases he

/-- The ids in `users`, which is all the job system has of the accounts, grow by one at a time. -/
theorem refines_registrations : (authMachine K).Refines ok ((authContract K).AllSafe (authPost K))
    (fun ids ids' => ∃ u, ids' = ids ++ [u]) (fun w => w.shared.users.rows.map User.id) where
  keeps h _ hs := Protocol.AllSafe.step (fun _ _ _ _ _ hs => AuthCall.safe hs)
    (fun _ c _ => authPost_crashed c) h (fun _ _ _ _ _ _ _ => trivial) hs
  step h _ hs := (auth_change h hs).choose_spec.ids

/-- Whatever happens to the accounts is `EnvAct.register` to the job system, or nothing. -/
theorem accounts_are_registrations (h : (authMachine K).ReachBy ok (World.initAuth K) w) :
    ∃ c, Relation.ReflTransGen (fun c c' : Core => ∃ u, c.env (.register u) = some c') .init c ∧
      c.db.users = w.shared.users.rows.map User.id := by
  have hrefl : (authMachine K).ReachBy ok (World.initAuth K) (World.initAuth K) := .refl
  have hrefines : (authMachine K).Refines ok _ _ _ := refines_registrations
  have hrun := (hrefines.run (auth_allSafe hrefl) h).2
  generalize w.shared.users.rows.map User.id = ids at hrun ⊢
  induction hrun with
  | refl => exact ⟨.init, .refl, rfl⟩
  | tail _ hnext ih =>
    obtain ⟨c, hc, husers⟩ := ih
    obtain ⟨u, rfl⟩ := hnext
    exact ⟨{ c with db := { c.db with users := c.db.users ++ [u] } }, hc.tail
      ⟨u, rfl⟩, by rw [husers]⟩

/-! ## Addresses -/

/-- **An address is registered once.** No two accounts share one, every one is normalized, a
registration that returns has added the account it tells of, no two of them return for the same
address, and one that finds the address taken is right. -/
theorem address_registered_once (h : (authMachine K).Reach (World.initAuth K) w) :
    (∀ row ∈ w.shared.users.rows, (∃ address, K.normalizeEmail address = row.email) ∧
      ∀ row' ∈ w.shared.users.rows, row.email = row'.email → row = row') ∧
    (∀ p email password dto, w.procs p = some (.register email password, .ret (.user dto)) →
      dto.email = K.normalizeEmail email ∧ dto.role = .user ∧ dto.isActive = true ∧
      (∃ row ∈ w.shared.users.rows, row.id = dto.id ∧ row.email = dto.email ∧
        row.createdAt = dto.createdAt) ∧
      ∀ q email' password' dto', w.procs q = some (.register email' password', .ret (.user dto')) →
        K.normalizeEmail email' = K.normalizeEmail email → q = p) ∧
    ∀ p email password, w.procs p = some (.register email password, .raise .duplicateEmail) →
      ∃ row ∈ w.shared.users.rows, row.email = K.normalizeEmail email := by
  have hsafe := auth_allSafe h
  have hpost : ∀ {p : Pid} {email password : String} {dto : UserPublicDTO},
      w.procs p = some (.register email password, .ret (.user dto)) → ∃ user row,
      toUserPublicDto user = dto ∧
        user.email = K.normalizeEmail email ∧ user.role = .user ∧ user.isActive = true ∧
        w.shared.uuidOwner user.id = some p ∧ row ∈ w.shared.users.rows ∧ user.SameAccount row := by
    intro p email password dto hp
    obtain ⟨dto', hdto, user, huser, ⟨hemail, hrole, hactive, row, hrow, hsame⟩, hown⟩ :=
      hsafe.post_ret hp
    cases hdto
    exact ⟨user, row, huser, hemail, hrole, hactive, hown user rfl, hrow, hsame⟩
  refine ⟨fun row hrow => ⟨(hsafe.1.grounded row hrow).normalized, hsafe.1.distinct row hrow⟩, ?_,
    ?_⟩
  · intro p email password dto hp
    obtain ⟨user, row, rfl, hemail, hrole, hactive, hown, hrow, hsame⟩ := hpost hp
    refine ⟨hemail, hrole, hactive, ⟨row, hrow, hsame.id, hsame.email, hsame.createdAt⟩, ?_⟩
    intro q email' password' dto' hq hsameAddress
    obtain ⟨user', row', rfl, hemail', -, -, hown', hrow', hsame'⟩ := hpost hq
    have hrows : row = row' := hsafe.1.distinct row hrow row' hrow' (by
      rw [hsame.email, hsame'.email, hemail, hemail', hsameAddress])
    have hids : user.id = user'.id := by rw [← hsame.id, ← hsame'.id, hrows]
    rw [hids, hown'] at hown
    exact Option.some.inj hown
  · intro p email password hp
    exact (hsafe.post_raise hp).1

theorem authEnded_ok {c : AuthCall} {a : AuthOut} (h : authEnded w p = some (c, .ok a)) :
    w.procs p = some (c, .ret a) := by
  unfold authEnded at h
  split at h <;> cases h
  assumption

theorem authEnded_error {c : AuthCall} {e : AuthExc} (h : authEnded w p = some (c, .error e)) :
    w.procs p = some (c, .raise e) := by
  unfold authEnded at h
  split at h <;> cases h
  assumption

/-- A second registration finds the address taken, however it is spelt. -/
theorem address_registered_once_taken : ∃ w : World (authMachine .sample),
    w.procs 0 = some (.register "Ann@Example.org" "pw",
      .ret (.user ⟨7, "ann@example.org", .user, true, 5, 5⟩)) ∧
    w.procs 1 = some (.register "ann@example.org" "other", .raise .duplicateEmail) ∧
    (∃ row ∈ w.shared.users.rows, row.id = 7 ∧ row.email = "ann@example.org" ∧ row.createdAt = 5) ∧
    ∃ row ∈ w.shared.users.rows, row.email = "ann@example.org" := by
  have hrun : ((authMachine .sample).run (.env (.tick 5) :: registerMoves 0
    "Ann@Example.org" "pw" 7 5 ++
      [.start 1 (.register "ann@example.org" "other"), .run 1 (.salt 2)] ++ AuthChoice.answers 1 3)
      (World.initAuth .sample)).map (fun w => (authEnded w 0, authEnded w 1)) =
      some (some (.register "Ann@Example.org" "pw",
        .ok (.user ⟨7, "ann@example.org", .user, true, 5, 5⟩)),
        some (.register "ann@example.org" "other", .error .duplicateEmail)) := by
    decide +kernel
  obtain ⟨w, hw, hends⟩ := Option.map_eq_some_iff.mp hrun
  rw [Prod.mk.injEq] at hends
  have hfirst := authEnded_ok hends.1
  have hsecond := authEnded_error hends.2
  obtain ⟨-, hregistered, htaken⟩ := address_registered_once (.of_run hw)
  exact ⟨w, hfirst, hsecond, (hregistered 0 _ _ _ hfirst).2.2.2.1, htaken 1 _ _ hsecond⟩

/-- **Administrators are made by the command for it, and stay.** -/
theorem administrators_made_by_command (h : (authMachine K).Reach (World.initAuth K) w) :
    (∀ row ∈ w.shared.users.rows, row.role = .admin → ∃ q address password prog,
      w.procs q = some (.createOrUpdateAdmin address password, prog) ∧
      K.normalizeEmail address = row.email) ∧
    ∀ p address password dto, w.procs p = some (.createOrUpdateAdmin address password,
      .ret (.user dto)) →
      dto.role = .admin ∧ dto.isActive = true ∧ ∃ row ∈ w.shared.users.rows, row.id = dto.id ∧
        row.email = K.normalizeEmail address ∧ row.role = .admin := by
  have hsafe := auth_allSafe h
  refine ⟨fun row hrow hadmin => ?_, fun p address password dto hp => ?_⟩
  · obtain ⟨q, address, password, hc, hemail⟩ := (hsafe.1.grounded row hrow).admin hadmin
    obtain ⟨prog, hq⟩ := auth_started h hc
    exact ⟨q, address, password, prog, hq, hemail⟩
  · obtain ⟨dto', hdto, user, huser, hemail, hrole, hactive, row, hrow, hsame⟩ := hsafe.post_ret hp
    cases hdto
    subst huser
    exact ⟨hrole, hactive, row, hrow, hsame.id, hsame.email.trans hemail, hsame.admin hrole⟩

/-- An account that was registered, and then made an administrator's. -/
theorem administrators_made_by_command_promoted : ∃ w : World (authMachine .sample),
    w.procs 1 = some (.createOrUpdateAdmin "ann@example.org" "other",
      .ret (.user ⟨7, "ann@example.org", .admin, true, 5, 5⟩)) ∧
    (∃ row ∈ w.shared.users.rows, row.id = 7 ∧ row.email = "ann@example.org" ∧ row.role = .admin) ∧
    ∀ row ∈ w.shared.users.rows, row.role = .admin → ∃ q address password prog,
      w.procs q = some (.createOrUpdateAdmin address password, prog) ∧
      Security.sample.normalizeEmail address = row.email := by
  have hrun : ((authMachine .sample).run (.env (.tick 5) :: registerMoves 0
    "Ann@Example.org" "pw" 7 5 ++
      adminMoves 1 "ann@example.org" "other" 5) (World.initAuth .sample)).map (fun w =>
      authEnded w 1) = some (some (.createOrUpdateAdmin "ann@example.org" "other",
        .ok (.user ⟨7, "ann@example.org", .admin, true, 5, 5⟩))) := by
    decide +kernel
  obtain ⟨w, hw, hend⟩ := Option.map_eq_some_iff.mp hrun
  have hp := authEnded_ok hend
  obtain ⟨hadmins, hmade⟩ := administrators_made_by_command (.of_run hw)
  exact ⟨w, hp, (hmade 1 _ _ _ hp).2.2, hadmins⟩

/-! ## Tokens -/

/-- The libraries treat this token as they document it: PyJWT hands its payload back from the second
it was issued in to the one it expires in, and what its fields were written with reads them. -/
structure Security.Honors (K : Security) (t : Issued) : Prop where
  decode : ∀ now, K.decode now (t.token K) =
    if now < Security.timestamp t.issuedAt * 1000000 then .error .invalidToken
    else if Security.timestamp (t.issuedAt + K.ttl) * 1000000 ≤ now then .error .expiredSignature
    else .ok (K.payloadOf t.userId t.role t.issuedAt t.jti)
  parseUuid : K.parseUuid (K.strUuid t.userId) = some t.userId
  issuedAt : (K.fromTimestamp (.int (Security.timestamp t.issuedAt))).isOk = true
  expiresAt : (K.fromTimestamp (.int (Security.timestamp (t.issuedAt + K.ttl)))).isOk = true

theorem Security.Honors.accessTokenPayload {t : Issued} (h : K.Honors t) :
    ∃ claims, K.accessTokenPayload (K.payloadOf t.userId t.role t.issuedAt t.jti) = .ok claims ∧
      claims.subject = t.userId := by
  obtain ⟨issuedAt, hissued⟩ : ∃ d, K.fromTimestamp (.int (timestamp t.issuedAt)) = .ok d := by
    have hok := h.issuedAt
    cases hd : K.fromTimestamp (.int (timestamp t.issuedAt)) with
    | ok d => exact ⟨d, rfl⟩
    | error e => rw [hd] at hok; cases hok
  obtain ⟨expiresAt, hexpires⟩ : ∃ d, K.fromTimestamp (.int (timestamp (t.issuedAt + K.ttl))) = .ok
      d := by
    have hok := h.expiresAt
    cases hd : K.fromTimestamp (.int (timestamp (t.issuedAt + K.ttl))) with
    | ok d => exact ⟨d, rfl⟩
    | error e => rw [hd] at hok; cases hok
  have hrole : userRoleOf (.str t.role.value) = .ok t.role := by cases t.role <;> rfl
  have huuid : K.uuidOf (.str (K.strUuid t.userId)) = .ok t.userId := by rw [uuidOf, h.parseUuid]
  have hsub : item (K.payloadOf t.userId t.role t.issuedAt t.jti) "sub" =
      .ok (.str (K.strUuid t.userId)) := rfl
  have hrol : item (K.payloadOf t.userId t.role t.issuedAt t.jti) "role" = .ok
    (.str t.role.value) := rfl
  have hiat : item (K.payloadOf t.userId t.role t.issuedAt t.jti) "iat" =
      .ok (.int (timestamp t.issuedAt)) := rfl
  have hexp : item (K.payloadOf t.userId t.role t.issuedAt t.jti) "exp" =
      .ok (.int (timestamp (t.issuedAt + K.ttl))) := rfl
  have hjti : item (K.payloadOf t.userId t.role t.issuedAt t.jti) "jti" = .ok
    (.str (K.strUuid t.jti)) := rfl
  refine ⟨⟨t.userId, t.role, issuedAt, expiresAt, K.str (.str (K.strUuid t.jti))⟩, ?_, rfl⟩
  simp only [Security.accessTokenPayload, bind, Except.bind, hsub, hrol, hiat, hexp,
    hjti, huuid, hrole,
    hissued, hexpires]
  rfl

/-- What `decode_access_token` says to a token at a time. -/
theorem Security.Honors.decodeAccessToken {t : Issued} (h : K.Honors t) (r : Datetime) :
    (r < timestamp t.issuedAt * 1000000 ∧
      K.decodeAccessToken r (t.token K) = .error (.authentication "Access token is invalid")) ∨
    (timestamp (t.issuedAt + K.ttl) * 1000000 ≤ r ∧
      K.decodeAccessToken r (t.token K) = .error (.authentication "Access token has expired")) ∨
    r < timestamp (t.issuedAt + K.ttl) * 1000000 ∧
      ∃ claims, K.decodeAccessToken r (t.token K) = .ok claims ∧ claims.subject = t.userId := by
  have hdecode := h.decode r
  unfold Security.decodeAccessToken
  split at hdecode
  · rename_i hearly
    rw [hdecode]
    exact .inl ⟨hearly, rfl⟩
  · split at hdecode
    · rename_i hlate
      rw [hdecode]
      exact .inr (.inl ⟨hlate, rfl⟩)
    · rename_i hin
      obtain ⟨claims, hclaims, hsubject⟩ := h.accessTokenPayload
      rw [hdecode]
      simp only [hclaims]
      exact .inr (.inr ⟨not_le.mp hin, claims, rfl, hsubject⟩)

/-- A moment is not before its second, unless that is before the epoch. -/
theorem timestamp_le (x : Int) : Security.timestamp x * 1000000 ≤ max x 0 := by
  show Int.tdiv x 1000000 * 1000000 ≤ max x 0
  by_cases hx : 0 ≤ x
  · have hdiv : Int.tdiv x 1000000 = x / 1000000 := Int.tdiv_eq_ediv_of_nonneg hx
    omega
  · have hneg : Int.tdiv (-x) 1000000 = -Int.tdiv x 1000000 := Int.neg_tdiv ..
    have hdiv : 0 ≤ Int.tdiv (-x) 1000000 := Int.tdiv_nonneg (by omega) (by omega)
    omega

/-- A clock that still reads less than the second of a moment belongs to a call that was started
before it. -/
theorem started_lt {started r x limit : Int} {skew : Nat} (hread : started ≤ r + skew)
    (hless : r < Security.timestamp x * 1000000) (hx : x ≤ limit + skew) (hlimit : 0 ≤ limit) :
    started < limit + 2 * skew := by
  have hle := timestamp_le x
  omega

theorem add_le_add_skew {x clock d : Int} {skew : Nat} (h : x ≤ clock + skew) :
    x + d ≤ clock + d + skew := by
  omega

/-- Nobody presents a token that would be accepted and that no login was issued. -/
def Unforged (w : World (authMachine K)) : Move (authMachine K) → Prop
  | .start _ (.currentUser token) => (∃ t ∈ w.shared.issued, t.token K = token) ∨
      ∀ now payload, K.decode now token ≠ .ok payload
  | _ => True

/-- What is known of a token while it is looked at. -/
def Presented (K : Security) (s : AuthState) (p : Pid) (token : String) : Prop :=
  (∃ t ∈ s.issued, t.token K = token ∧ t.clock ≤ s.started p ∧ ∃ row ∈ s.opened p,
    row.id = t.userId) ∨
    ∀ now payload, K.decode now token ≠ .ok payload

theorem Presented.mono {token : String} (h : Presented K s p token) (hext : s.Extends s')
    (hne : s.calls p ≠ none) : Presented K s' p token := by
  refine h.imp_left ?_
  rintro ⟨t, ht, htoken, hclock, hrow⟩
  refine ⟨t, hext.issued t ht, htoken, ?_, ?_⟩
  · rw [hext.started hne]
    exact hclock
  · rw [hext.opened hne]
    exact hrow

/-- A token that is looked at was issued before, to an account that was there when the call was
started. -/
theorem auth_presented (h : (authMachine K).ReachBy Unforged (World.initAuth K) w) :
    ∀ p token, w.shared.calls p = some (.currentUser token) → Presented K w.shared p token := by
  induction h with
  | refl =>
    intro p token hc
    cases hc
  | @tail w₁ w₂ m hreach hok hs ih =>
    intro p token hc
    have hsafe := auth_allSafe hreach
    have hext := auth_extends hsafe hs
    cases hold : w₁.shared.calls p with
    | some c =>
      rw [hext.calls hold] at hc
      cases hc
      exact (ih p token hold).mono hext (ne_none_of_calls hold)
    | none =>
      -- then it was started just now
      have hprocs : w₁.procs p = none := by
        have hcalls := auth_calls hreach p
        rw [hold] at hcalls
        simpa using hcalls.symm
      obtain ⟨prog, hp⟩ := auth_started (hreach.tail m hok hs) hc
      rcases Machine.step_procs hs hp with ⟨prog', hp'⟩ | ⟨rfl, -, -⟩
      · rw [hprocs] at hp'
        cases hp'
      · rcases Machine.step_cases hs with ⟨p', c, s, heq, -, hst, rfl⟩ |
          ⟨p', ch, c, o, k, r, s, heq, -⟩ |
          ⟨p', c, prog', heq, -⟩ | ⟨e, s, heq, -⟩
        · cases heq
          obtain ⟨-, rfl⟩ := AuthState.start_cases hst
          refine Or.imp_left ?_ hok
          rintro ⟨t, ht, htoken⟩
          have hvouched := hsafe.1.issued t ht
          obtain ⟨address, password, row, hlogin, hsince, hid, -⟩ := hvouched.login
          obtain ⟨row', hrow', hsame⟩ := hsafe.1.known row hsince
          refine ⟨t, ht, htoken, ?_, row', ?_, hsame.id.trans hid⟩
          · simp only [AuthState.launch, Function.update_self]
            exact hvouched.clock
          · simp only [AuthState.launch, Function.update_self]
            exact hrow'
        · cases heq
        · cases heq
        · cases heq

/-- **A session is backed by a login.** Where only tokens are presented that a login was issued, a
caller is recognised by one that was issued to the same account, on its address and its password and
while it was active, and that has not expired; and what is said of the caller is how the account was
at some moment of the call, and that it was active then. -/
theorem session_backed_by_login (h : (authMachine K).ReachBy Unforged (World.initAuth K) w)
    (hlibs : ∀ t ∈ w.shared.issued, K.Honors t) {token : String} {dto : AuthenticatedUserDTO}
    (hp : w.procs p = some (.currentUser token, .ret (.currentUser dto))) :
    ∃ t ∈ w.shared.issued, t.token K = token ∧ t.clock ≤ w.shared.started p ∧
      w.shared.started p < t.clock + K.ttl + 2 * K.skew ∧
      (∃ address password prog row, w.procs t.pid = some (.login address password, prog) ∧
        row ∈ w.shared.since t.pid ∧ row.id = dto.id ∧ row.email = K.normalizeEmail address ∧
        K.verify password row.passwordHash = true ∧ row.isActive = true) ∧
      ∃ row ∈ w.shared.since p, row.isActive = true ∧ dto = toAuthenticatedUserDto row := by
  have hsafe := auth_allSafe h
  have hc : w.shared.calls p = some (.currentUser token) := by rw [auth_calls h p, hp]; rfl
  obtain ⟨dto', hdto, hpost⟩ := hsafe.post_ret hp
  cases hdto
  rcases hpost with hpost | ⟨text, hpost⟩ | ⟨-, r, claims, row, hreads, hdecode, hrow, hid,
    hactive, hdto⟩
  · cases hpost
  · cases hpost
  rcases auth_presented h p token hc with ⟨t, ht, htoken, hclock, -⟩ | hnever
  · rw [← htoken] at hdecode
    rcases (hlibs t ht).decodeAccessToken r with ⟨-, hd⟩ | ⟨-, hd⟩ | ⟨hlate, claims', hd, hsubject⟩
    · rw [hd] at hdecode
      cases hdecode
    · rw [hd] at hdecode
      cases hdecode
    · rw [hd] at hdecode
      cases hdecode
      have hvouched := hsafe.1.issued t ht
      obtain ⟨address, password, old, hlogin, hsince, holdid, -, hemail, hverify, hactive'⟩ :=
        hvouched.login
      obtain ⟨prog, hlogin⟩ := auth_started h hlogin
      refine ⟨t, ht, htoken, hclock, ?_, ⟨address, password, prog, old, hlogin, hsince, ?_,
        hemail, hverify,
        hactive'⟩, row, hrow, hactive, hdto⟩
      · have httl : 0 ≤ K.ttl := Int.mul_nonneg (Int.natCast_nonneg _) (by decide)
        exact started_lt hreads.1 hlate (add_le_add_skew hvouched.issuedAt)
          (Int.add_nonneg hvouched.epoch httl)
      · rw [hdto, holdid, ← hsubject, ← hid]
        rfl
  · exfalso
    unfold Security.decodeAccessToken at hdecode
    split at hdecode
    · cases hdecode
    · cases hdecode
    · rename_i payload hpayload
      exact hnever r payload hpayload

/-- The one token of the runs below. -/
def sampleIssued : Issued := ⟨1, 5000000, 7, .user, 5000000, 9⟩

theorem honors_sampleIssued : Security.sample.Honors sampleIssued where
  decode _ := rfl
  parseUuid := rfl
  issuedAt := rfl
  expiresAt := rfl

/-- `Unforged`, decided by what was issued. -/
def presentsIssued (w : World (authMachine K)) : Move (authMachine K) → Bool
  | .start _ (.currentUser token) => w.shared.issued.any fun t => t.token K == token
  | _ => true

theorem unforged_of_presentsIssued {m : Move (authMachine K)} (h : presentsIssued w m = true) :
    Unforged w m := by
  cases m with
  | start p c =>
    cases c with
    | currentUser token =>
      obtain ⟨t, ht, htoken⟩ := List.any_eq_true.mp h
      exact .inl ⟨t, ht, beq_iff_eq.mp htoken⟩
    | _ => trivial
  | _ => trivial

/-- Registered, signed in, recognised. -/
theorem session_backed_by_login_accepted : ∃ w : World (authMachine .sample),
    w.procs 2 = some (.currentUser "signed", .ret
      (.currentUser ⟨7, "ann@example.org", .user, true⟩)) ∧
    ∃ t ∈ w.shared.issued, t.token .sample = "signed" ∧ t.clock ≤ w.shared.started 2 := by
  have hrun : ((authMachine .sample).runIf presentsIssued (.env (.tick 5000000) ::
      registerMoves 0 "Ann@Example.org" "pw" 7 5000000 ++ loginMoves 1 "ann@example.org"
      "pw" 9 5000000 ++ currentUserMoves 2 "signed" 5000000) (World.initAuth .sample)).map
      (fun w => (authEnded w 2, w.shared.issued)) =
      some (some (.currentUser "signed", .ok (.currentUser ⟨7, "ann@example.org", .user, true⟩)),
        [sampleIssued]) := by
    decide +kernel
  obtain ⟨w, hw, hviews⟩ := Option.map_eq_some_iff.mp hrun
  rw [Prod.mk.injEq] at hviews
  have hp := authEnded_ok hviews.1
  have hlibs : ∀ t ∈ w.shared.issued, Security.sample.Honors t := fun t ht => by
    rw [hviews.2, List.mem_singleton] at ht
    exact ht ▸ honors_sampleIssued
  obtain ⟨t, ht, htoken, hclock, -⟩ :=
    session_backed_by_login (.of_runIf (fun _ _ ht => unforged_of_presentsIssued ht) hw) hlibs hp
  exact ⟨w, hp, t, ht, htoken, hclock⟩

/-- **A session ends for a reason.** A caller with a token that a login was issued is turned away
because the token has expired, because the clocks disagree about when it was issued, because the
account is not active, or because the call itself failed. -/
theorem session_refused_only_if (h : (authMachine K).ReachBy Unforged (World.initAuth K) w)
    (hlibs : ∀ t ∈ w.shared.issued, K.Honors t) {token : String} {e : AuthExc}
    (hp : w.procs p = some (.currentUser token, .raise e)) :
    e = .crashed ∨ (∃ text, e = .database text) ∨
    (∀ now payload, K.decode now token ≠ .ok payload) ∨
    ∃ t ∈ w.shared.issued, t.token K = token ∧ t.clock ≤ w.shared.started p ∧
      ((e = .authentication "Access token has expired" ∧
          Security.timestamp (t.issuedAt + K.ttl) * 1000000 ≤ w.shared.clock + K.skew) ∨
        (e = .authentication "Access token is invalid" ∧
          w.shared.started p < t.clock + 2 * K.skew) ∨
        e = .inactiveUser ∧ ∃ row ∈ w.shared.since p, row.id = t.userId ∧
            row.isActive = false) := by
  have hsafe := auth_allSafe h
  have hc : w.shared.calls p = some (.currentUser token) := by rw [auth_calls h p, hp]; rfl
  rcases hsafe.post_raise hp with hpost | ⟨text, hpost⟩ | ⟨-, hpost⟩
  · cases hpost
    exact .inl rfl
  · cases hpost
    exact .inr (.inl ⟨text, rfl⟩)
  rcases hpost with ⟨text, rfl⟩ | ⟨r, hreads, hpost⟩
  · exact .inr (.inl ⟨text, rfl⟩)
  rcases auth_presented h p token hc with ⟨t, ht, htoken, hclock, row, hrow, hid⟩ | hnever
  · refine .inr (.inr (.inr ⟨t, ht, htoken, hclock, ?_⟩))
    have hvouched := hsafe.1.issued t ht
    rw [← htoken] at hpost
    rcases (hlibs t ht).decodeAccessToken r with ⟨hearly, hd⟩ | ⟨hlate, hd⟩ |
      ⟨-, claims, hd, hsubject⟩
    · rw [hd] at hpost
      rcases hpost with hpost | ⟨claims, hpost, -⟩
      · cases hpost
        exact .inr (.inl ⟨rfl, started_lt hreads.1 hearly hvouched.issuedAt hvouched.epoch⟩)
      · cases hpost
    · rw [hd] at hpost
      rcases hpost with hpost | ⟨claims, hpost, -⟩
      · cases hpost
        exact .inl ⟨rfl, hlate.trans hreads.2⟩
      · cases hpost
    · rw [hd] at hpost
      rcases hpost with hpost | ⟨claims', hpost, ⟨hnone, -⟩ | ⟨⟨row', hrow', hid', hactive⟩, rfl⟩⟩
      · cases hpost
      · cases hpost
        exact absurd (hid.trans hsubject.symm) (hnone row hrow)
      · cases hpost
        exact .inr (.inr ⟨rfl, row', hrow', hid'.trans hsubject, hactive⟩)
  · exact .inr (.inr (.inl hnever))

/-- Signed in, and then set inactive. -/
theorem session_refused_only_if_inactive : ∃ w : World (authMachine .sample),
    w.procs 2 = some (.currentUser "signed", .raise .inactiveUser) ∧
    ∃ t ∈ w.shared.issued, ∃ row ∈ w.shared.since 2, row.id = t.userId ∧ row.isActive = false := by
  have hrun : ((authMachine .sample).runIf presentsIssued (.env (.tick 5000000) ::
      registerMoves 0 "Ann@Example.org" "pw" 7 5000000 ++ loginMoves 1 "ann@example.org"
      "pw" 9 5000000 ++
      .env (.setActive 7 false) :: currentUserMoves 2 "signed" 5000000)
      (World.initAuth .sample)).map (fun w => (authEnded w 2, w.shared.issued)) =
      some (some (.currentUser "signed", .error .inactiveUser), [sampleIssued]) := by
    decide +kernel
  obtain ⟨w, hw, hviews⟩ := Option.map_eq_some_iff.mp hrun
  rw [Prod.mk.injEq] at hviews
  have hp := authEnded_error hviews.1
  have hlibs : ∀ t ∈ w.shared.issued, Security.sample.Honors t := fun t ht => by
    rw [hviews.2, List.mem_singleton] at ht
    exact ht ▸ honors_sampleIssued
  have hdecode : ¬ ∀ now payload, Security.sample.decode now "signed" ≠ .ok payload := fun hnever =>
    hnever 5000000 _ rfl
  rcases session_refused_only_if (.of_runIf (fun _ _ ht => unforged_of_presentsIssued ht) hw) hlibs
    hp with
    he | ⟨text, he⟩ | hnever | ⟨t, ht, -, -, ⟨he, -⟩ | ⟨he, -⟩ | ⟨-, hrow⟩⟩
  · cases he
  · cases he
  · exact absurd hnever hdecode
  · cases he
  · cases he
  · exact ⟨w, hp, t, ht, hrow⟩

end CloudJob
