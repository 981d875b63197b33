import CloudJob.Lib.Machine
import CloudJob.Lib.Table
import CloudJob.Domain
import CloudJob.Json

/-!
# `Accounts.lean` — users, passwords and access tokens

`app/repositories/users.py`, `app/core/security.py` and `app/application/services/auth.py`, on a
machine of their own: the job system sees of a user that the row is there. Transactions are those of
`Runtime.lean`: a statement sees what is committed and its own transaction's writes, `FOR UPDATE`
and every write lock the row, and the unique index on `email` makes a second insert of an address
wait for the first one's transaction.

What `security.py` takes from elsewhere (`str`, pwdlib, PyJWT, `uuid`, `datetime`) is a `Security`.
A salt is drawn by a call. So is nothing about a token but that it was issued: `jwt.encode` is a
call here only to have the state say which tokens there are. -/

set_option autoImplicit false

namespace CloudJob

open Lib

/-! ## Rows and values -/

/-- `app/models/user.py`; the check constraint leaves the two roles. -/
structure User where
  id : Uuid
  email : String
  passwordHash : String
  role : UserRole
  isActive : Bool
  createdAt : Datetime
  updatedAt : Datetime
deriving DecidableEq, Repr

structure UserPublicDTO where
  id : Uuid
  email : String
  role : UserRole
  isActive : Bool
  createdAt : Datetime
  updatedAt : Datetime
deriving DecidableEq, Repr

structure LoginResultDTO where
  accessToken : String
  tokenType : String
  expiresAt : Datetime
deriving DecidableEq, Repr

/-- `CurrentUserDTO`, with all its fields. -/
structure AuthenticatedUserDTO where
  id : Uuid
  email : String
  role : UserRole
  isActive : Bool
deriving DecidableEq, Repr

def UserRole.value : UserRole → String
  | .user => "user"
  | .admin => "admin"

def toUserPublicDto (user : User) : UserPublicDTO :=
  ⟨user.id, user.email, user.role, user.isActive, user.createdAt, user.updatedAt⟩

def toAuthenticatedUserDto (user : User) : AuthenticatedUserDTO :=
  ⟨user.id, user.email, user.role, user.isActive⟩

/-! ## `security.py` -/

/-- What reading a payload may raise. -/
inductive PyError where
  | keyError
  | typeError
  | valueError
  | attributeError
  | overflowError
deriving DecidableEq, Repr

/-- `except (KeyError, TypeError, ValueError)`. -/
def PyError.isCaught : PyError → Bool
  | .keyError | .typeError | .valueError => true
  | .attributeError | .overflowError => false

inductive JwtError where
  | expiredSignature
  /-- Any other `InvalidTokenError`. -/
  | invalidToken
deriving DecidableEq, Repr

/-- What a deployment has of the libraries, of its settings and of its clocks. -/
structure Security where
  strip : String → String
  lower : String → String
  /-- `PasswordHash.hash`, with the salt it draws. -/
  hash : Nat → String → String
  verify : String → String → Bool
  /-- `jwt.encode(payload, secret, algorithm=…)`. -/
  encode : Json → String
  /-- `jwt.decode(token, secret, algorithms=[…])` when the clock reads what it is given. -/
  decode : Datetime → String → Except JwtError Json
  strUuid : Uuid → String
  /-- `uuid.UUID(text)`. -/
  parseUuid : String → Option Uuid
  /-- `datetime.fromtimestamp(value, UTC)`. -/
  fromTimestamp : Json → Except PyError Datetime
  /-- `str(value)`. -/
  str : Json → String
  accessTokenTtlMinutes : Nat
  /-- How far a clock may be off, in microseconds. -/
  skew : Nat

structure AccessTokenPayload where
  subject : Uuid
  role : UserRole
  issuedAt : Datetime
  expiresAt : Datetime
  jwtId : String
deriving DecidableEq, Repr

inductive AuthExc where
  | database (text : String)
  | integrity (orig : IntegrityError)
  | duplicateEmail
  | authentication (message : String)
  | inactiveUser
  | python (e : PyError)
  | crashed
deriving DecidableEq, Repr

/-- `_is_duplicate_email_integrity_error`. -/
def isDuplicateEmailIntegrityError (orig : IntegrityError) : Bool :=
  if orig.sqlstate ≠ some "23505" then false
  else match orig.constraintName with
    | some name => name = "uq_users_email"
    | none => contains orig.text.toLower "users" && contains orig.text.toLower "email"

namespace Security

variable (K : Security)

def normalizeEmail (email : String) : String := K.lower (K.strip email)

def ttl : Int := K.accessTokenTtlMinutes * 60000000

/-- `payload[key]`. -/
def item (payload : Json) (key : String) : Except PyError Json :=
  match payload.get? key with
  | some value => .ok value
  | none => .error .keyError

/-- `uuid.UUID(value)`: what is not a string has no `replace`. -/
def uuidOf : Json → Except PyError Uuid
  | .str text => match K.parseUuid text with
    | some u => .ok u
    | none => .error .valueError
  | .null => .error .typeError
  | _ => .error .attributeError

/-- `UserRole(value)`. -/
def userRoleOf : Json → Except PyError UserRole
  | .str text =>
      if text = UserRole.user.value then .ok .user
      else if text = UserRole.admin.value then .ok .admin
      else .error .valueError
  | _ => .error .valueError

/-- The `AccessTokenPayload(…)` of `decode_access_token`. -/
def accessTokenPayload (payload : Json) : Except PyError AccessTokenPayload := do
  let subject ← K.uuidOf (← item payload "sub")
  let role ← userRoleOf (← item payload "role")
  let issuedAt ← K.fromTimestamp (← item payload "iat")
  let expiresAt ← K.fromTimestamp (← item payload "exp")
  let jti ← item payload "jti"
  return ⟨subject, role, issuedAt, expiresAt, K.str jti⟩

/-- `JwtTokenManager.decode_access_token`, when PyJWT's clock reads `now`. -/
def decodeAccessToken (now : Datetime) (token : String) : Except AuthExc AccessTokenPayload :=
  match K.decode now token with
  | .error .expiredSignature => .error (.authentication "Access token has expired")
  | .error .invalidToken => .error (.authentication "Access token is invalid")
  | .ok payload =>
      match K.accessTokenPayload payload with
      | .ok claims => .ok claims
      | .error e => .error (if e.isCaught then .authentication "Access token is invalid" else
          .python e)

/-- `int(moment.timestamp())`. -/
def timestamp (moment : Datetime) : Int := moment.tdiv 1000000

/-- The `payload` of `create_access_token`. -/
def payloadOf (userId : Uuid) (role : UserRole) (issuedAt : Datetime) (jti : Uuid) : Json := .obj [
  ("sub", .str (K.strUuid userId)),
  ("role", .str role.value),
  ("iat", .int (timestamp issuedAt)),
  ("exp", .int (timestamp (issuedAt + K.ttl))),
  ("jti", .str (K.strUuid jti))]

end Security

/-! ## Calls -/

inductive AuthOp where
  | now
  | uuid4
  | salt
  | aenter
  | selectByEmail (email : String)
  | selectById (id : Uuid)
  | selectByEmailForUpdate (email : String)
  | insertUser (user : User)
  /-- The `UPDATE` that the flush of `create_or_update_admin` makes. -/
  | updateAdmin (id : Uuid) (passwordHash : String) (updatedAt : Datetime)
  | commit
  | aexit (raised : Bool)
  | encode (userId : Uuid) (role : UserRole) (issuedAt : Datetime) (jti : Uuid)

@[reducible] def AuthOp.Ret : AuthOp → Type
  | .now => Datetime
  | .uuid4 => Uuid
  | .salt => Nat
  | .selectByEmail _ | .selectById _ | .selectByEmailForUpdate _ => Option User
  | .encode _ _ _ _ => String
  | _ => Unit

@[reducible] def authSig : Sig := ⟨AuthOp, AuthOp.Ret, AuthExc⟩

abbrev AuthCode (α : Type) := Prog authSig α

def authCall (o : AuthOp) : AuthCode o.Ret := Prog.perform (S := authSig) o

/-- `async with self._uow_factory() as uow: body`. -/
def authUow {α : Type} (body : AuthCode α) : AuthCode α :=
  (authCall .aenter).bind fun _ => body.attempt.bind fun r => match r with
    | .ok a => (authCall (.aexit false)).bind fun _ => .ret a
    | .error e => (authCall (.aexit true)).bind fun _ => .raise e

/-! ## `SqlAlchemyUserRepository` -/

namespace UserRepository

/-- `User(…)` with its column defaults, and the `INSERT` of its flush. -/
def insert (email passwordHash : String) (role : UserRole) (isActive : Bool) : AuthCode User := do
  let id ← authCall .uuid4
  let createdAt ← authCall .now
  let updatedAt ← authCall .now
  let user : User := ⟨id, email, passwordHash, role, isActive, createdAt, updatedAt⟩
  authCall (.insertUser user)
  return user

def createUser (email passwordHash : String) (role : UserRole) (isActive : Bool) : AuthCode User :=
  Prog.tryCatch (insert email passwordHash role isActive) fun e => match e with
    | .integrity orig => if isDuplicateEmailIntegrityError orig then
        .raise .duplicateEmail else .raise e
    | _ => .raise e

/-- What the attributes are set to. -/
def promoted (user : User) (passwordHash : String) : User :=
  { user with passwordHash := passwordHash, role := .admin, isActive := true }

/-- A flush of a row on which nothing changed issues no statement. -/
def createOrUpdateAdmin (email passwordHash : String) : AuthCode User := do
  match ← authCall (.selectByEmailForUpdate email) with
  | none => insert email passwordHash .admin true
  | some user =>
      if promoted user passwordHash = user then return user
      let updatedAt ← authCall .now
      authCall (.updateAdmin user.id passwordHash updatedAt)
      return { promoted user passwordHash with updatedAt := updatedAt }

end UserRepository

/-! ## `AuthService` -/

namespace AuthService

variable (K : Security)

def hashPassword (password : String) : AuthCode String := do
  let salt ← authCall .salt
  return K.hash salt password

/-- `JwtTokenManager.create_access_token`. -/
def createAccessToken (userId : Uuid) (role : UserRole) : AuthCode (String × Datetime) := do
  let issuedAt ← authCall .now
  let jti ← authCall .uuid4
  let token ← authCall (.encode userId role issuedAt jti)
  return (token, issuedAt + K.ttl)

def registerUser (email password : String) : AuthCode UserPublicDTO := do
  let normalizedEmail := K.normalizeEmail email
  let passwordHash ← hashPassword K password
  let user ← authUow do
    match ← authCall (.selectByEmail normalizedEmail) with
    | some _ => .raise .duplicateEmail
    | none =>
        let user ← UserRepository.createUser normalizedEmail passwordHash .user true
        authCall .commit
        return user
  return toUserPublicDto user

def loginUser (email password : String) : AuthCode LoginResultDTO := do
  let normalizedEmail := K.normalizeEmail email
  let user ← authUow do
    match ← authCall (.selectByEmail normalizedEmail) with
    | none => .raise (.authentication "Invalid email or password")
    | some user => return user
  if !K.verify password user.passwordHash then
    .raise (.authentication "Invalid email or password")
  else if !user.isActive then .raise .inactiveUser
  else
    let (token, expiresAt) ← createAccessToken K user.id user.role
    return ⟨token, "bearer", expiresAt⟩

def getCurrentUser (accessToken : String) : AuthCode AuthenticatedUserDTO := do
  let now ← authCall .now
  let claims ← Prog.ofExcept (K.decodeAccessToken now accessToken)
  authUow do
    match ← authCall (.selectById claims.subject) with
    | none => .raise (.authentication "Access token is invalid")
    | some user =>
        if !user.isActive then .raise .inactiveUser
        else return toAuthenticatedUserDto user

def createOrUpdateAdmin (email password : String) : AuthCode UserPublicDTO := do
  let normalizedEmail := K.normalizeEmail email
  let passwordHash ← hashPassword K password
  let user ← authUow do
    let user ← UserRepository.createOrUpdateAdmin normalizedEmail passwordHash
    authCall .commit
    return user
  return toUserPublicDto user

end AuthService

/-! ## The machine -/

inductive UserLock where
  | user (id : Uuid)
  /-- The entry of an address in the unique index. -/
  | email (email : String)
deriving DecidableEq, Repr

inductive UserStmt where
  | insert (user : User)
  | updateAdmin (id : Uuid) (passwordHash : String) (updatedAt : Datetime)
deriving DecidableEq, Repr

def setAdmin (passwordHash : String) (updatedAt : Datetime) (user : User) : User :=
  { UserRepository.promoted user passwordHash with updatedAt := updatedAt }

def setActive (isActive : Bool) (user : User) : User := { user with isActive := isActive }

theorem setAdmin_id (passwordHash : String) (updatedAt : Datetime) (user : User) :
    (setAdmin passwordHash updatedAt user).id = user.id := rfl

theorem setActive_id (isActive : Bool) (user : User) : (setActive isActive user).id = user.id := rfl

abbrev UserTable := Table User.id

def UserStmt.apply (users : UserTable) : UserStmt → UserTable
  | .insert user => users.insert user
  | .updateAdmin id passwordHash updatedAt =>
      users.modify id (setAdmin passwordHash updatedAt) (setAdmin_id passwordHash updatedAt)

def UserStmt.locks : UserStmt → List UserLock
  | .insert user => [.user user.id, .email user.email]
  | .updateAdmin id _ _ => [.user id]

def byEmail (users : UserTable) (email : String) : Option User :=
  users.rows.find? fun user => user.email == email

inductive AuthCall where
  | register (email password : String)
  | login (email password : String)
  | currentUser (accessToken : String)
  | createOrUpdateAdmin (email password : String)
deriving DecidableEq, Repr

inductive AuthOut where
  | user (dto : UserPublicDTO)
  | login (dto : LoginResultDTO)
  | currentUser (dto : AuthenticatedUserDTO)
deriving DecidableEq, Repr

/-- A token, and what it was made of. -/
structure Issued where
  pid : Pid
  clock : Datetime
  userId : Uuid
  role : UserRole
  issuedAt : Datetime
  jti : Uuid
deriving DecidableEq, Repr

def Issued.token (K : Security) (t : Issued) : String :=
  K.encode (K.payloadOf t.userId t.role t.issuedAt t.jti)

structure AuthState where
  users : UserTable
  staged : Pid → List UserStmt
  locks : UserLock → Option Pid
  uuidOwner : Uuid → Option Pid
  clock : Datetime
  calls : Pid → Option AuthCall
  /-- When a process was started, and what was committed then. -/
  started : Pid → Datetime
  opened : Pid → List User
  /-- Every row that was committed at some moment since a process was started. -/
  since : Pid → List User
  issued : List Issued

def AuthState.init : AuthState where
  users := .empty
  staged _ := []
  locks _ := none
  uuidOwner _ := none
  clock := 0
  calls _ := none
  started _ := 0
  opened _ := []
  since _ := []
  issued := []

inductive AuthChoice where
  | answer
  | fails (text : String)
  | failsAfter (text : String)
  | time (t : Datetime)
  | uuid (u : Uuid)
  | salt (n : Nat)

/-- Time passes, or somebody sets `is_active` of an account by hand: the program only reads it. -/
inductive AuthEnv where
  | tick (d : Nat)
  | setActive (id : Uuid) (isActive : Bool)

namespace AuthState

variable (s : AuthState) (p : Pid)

def view : UserTable := (s.staged p).foldl UserStmt.apply s.users

def free (l : UserLock) : Bool := s.locks l == none || s.locks l == some p

def lock (ls : List UserLock) : AuthState :=
  { s with locks := fun l => if l ∈ ls then some p else s.locks l }

def release : AuthState :=
  { s with
    locks := fun l => if s.locks l = some p then none else s.locks l
    staged := Function.update s.staged p [] }

/-- Other rows are committed from now on. -/
def install (users : UserTable) : AuthState :=
  { s with users := users, since := fun q => users.rows ++ s.since q }

def stage (st : UserStmt) : AuthState :=
  { s.lock p st.locks with staged := Function.update s.staged p (s.staged p ++ [st]) }

/-- The indexes of `users`. -/
def violated (users : UserTable) (user : User) : Option IntegrityError :=
  if (byEmail users user.email).isSome then
    some ⟨some "23505", some "uq_users_email", "duplicate key value"⟩
  else if (users.find? user.id).isSome then some ⟨some "23505", some "pk_users",
    "duplicate key value"⟩
  else none

def answer : (o : AuthOp) → Option (Except AuthExc o.Ret × AuthState)
  | .aenter => some (.ok (), s)
  | .selectByEmail email => some (.ok (byEmail (s.view p) email), s)
  | .selectById id => some (.ok ((s.view p).find? id), s)
  | .selectByEmailForUpdate email =>
      match byEmail (s.view p) email with
      | none => some (.ok none, s)
      | some user =>
          if s.free p (.user user.id) then some (.ok (some user), s.lock p [.user user.id]) else
            none
  | .insertUser user =>
      match violated (s.view p) user with
      | some orig => some (.error (.integrity orig), s)
      | none =>
          if (UserStmt.insert user).locks.all (s.free p) then
            some (.ok (), s.stage p (.insert user))
          else none
  | .updateAdmin id passwordHash updatedAt =>
      if s.free p (.user id) then some (.ok (),
        s.stage p (.updateAdmin id passwordHash updatedAt)) else none
  | .commit => some (.ok (), (s.install (s.view p)).release p)
  | .aexit _ => some (.ok (), s.release p)
  | .now => none
  | .uuid4 => none
  | .salt => none
  | .encode _ _ _ _ => none

/-- The calls that leave the process, where they raise. -/
def fail (text : String) : (o : AuthOp) → Option (Except AuthExc o.Ret × AuthState)
  | .selectByEmail _ => some (.error (.database text), s)
  | .selectById _ => some (.error (.database text), s)
  | .selectByEmailForUpdate _ => some (.error (.database text), s)
  | .insertUser _ => some (.error (.database text), s)
  | .updateAdmin _ _ _ => some (.error (.database text), s)
  | .commit => some (.error (.database text), s)
  | .aexit _ => some (.error (.database text), s.release p)
  | _ => none

def lateFail (text : String) : (o : AuthOp) → Option (Except AuthExc o.Ret × AuthState)
  | .commit => some (.error (.database text), (s.install (s.view p)).release p)
  | _ => none

def exec (K : Security) (o : AuthOp) (c : AuthChoice) : Option (Except AuthExc o.Ret × AuthState) :=
  match c, o with
  | .answer, .encode userId role issuedAt jti =>
      let t : Issued := ⟨p, s.clock, userId, role, issuedAt, jti⟩
      some (.ok (t.token K), { s with issued := t :: s.issued })
  | .answer, o => s.answer p o
  | .fails text, o => s.fail p text o
  | .failsAfter text, o => s.lateFail p text o
  | .time t, .now => if (t - s.clock).natAbs ≤ K.skew then some (.ok t, s) else none
  | .uuid u, .uuid4 =>
      if s.uuidOwner u = none then
        some (.ok u, { s with uuidOwner := Function.update s.uuidOwner u (some p) })
      else none
  | .salt n, .salt => some (.ok n, s)
  | _, _ => none

def env : AuthEnv → Option AuthState
  | .tick d => some { s with clock := s.clock + d }
  | .setActive id isActive =>
      if s.locks (.user id) = none then
        some (s.install (s.users.modify id (setActive isActive) (setActive_id isActive)))
      else none

def launch (call : AuthCall) : AuthState :=
  { s.release p with
    calls := Function.update s.calls p (some call)
    started := Function.update s.started p s.clock
    opened := Function.update s.opened p s.users.rows
    since := Function.update s.since p s.users.rows }

/-- A process number is used once. -/
def start (call : AuthCall) : Option AuthState := if s.calls p = none then
    some (s.launch p call) else none

end AuthState

def AuthCall.prog (K : Security) : AuthCall → AuthCode AuthOut
  | .register email password => do
      let dto ← AuthService.registerUser K email password
      return .user dto
  | .login email password => do
      let dto ← AuthService.loginUser K email password
      return .login dto
  | .currentUser accessToken => do
      let dto ← AuthService.getCurrentUser K accessToken
      return .currentUser dto
  | .createOrUpdateAdmin email password => do
      let dto ← AuthService.createOrUpdateAdmin K email password
      return .user dto

@[reducible] def authMachine (K : Security) : Machine authSig where
  State := AuthState
  Choice := AuthChoice
  Env := AuthEnv
  Call := AuthCall
  Out := AuthOut
  exec p o c s := s.exec p K o c
  env e s := s.env e
  crash p s := s.release p
  crashed := .crashed
  prog := AuthCall.prog K
  start p call s := s.start p call

def World.initAuth (K : Security) : World (authMachine K) := ⟨.init, fun _ => none⟩

/-! ## A run

Clocks that are right, tokens that last half an hour, and one account: process 0 registers it five
seconds after the epoch, process 1 signs in and process 2 presents the token. -/

def Security.sample : Security where
  strip := id
  lower text := String.ofList (text.toList.map Char.toLower)
  hash salt password := Nat.repr salt ++ "$" ++ password
  verify password passwordHash := passwordHash == "1$" ++ password
  encode _ := "signed"
  decode now token :=
    if token = "signed" then
      if now < Security.timestamp 5000000 * 1000000 then .error .invalidToken
      else if Security.timestamp (5000000 + 1800000000) * 1000000 ≤ now then
        .error .expiredSignature
      else .ok (.obj [("sub", .str "7"), ("role", .str "user"), ("iat", .int 5), ("exp", .int 1805),
        ("jti", .str "9")])
    else .error .invalidToken
  strUuid u := Nat.repr u
  parseUuid text := if text = "7" then some 7 else none
  fromTimestamp
    | .int n => .ok (n * 1000000)
    | _ => .error .typeError
  str _ := ""
  accessTokenTtlMinutes := 30
  skew := 0

section Moves

variable {K : Security}

def AuthChoice.answers (p : Pid) (n : Nat) : List (Move (authMachine K)) :=
    List.replicate n (.run p .answer)

def registerMoves (p : Pid) (email password : String) (id : Uuid) (now : Datetime) :
    List (Move (authMachine K)) :=
  [.start p (.register email password), .run p (.salt 1)] ++ AuthChoice.answers p 2 ++
    [.run p (.uuid id), .run p (.time now), .run p (.time now)] ++ AuthChoice.answers p 3

def loginMoves (p : Pid) (email password : String) (jti : Uuid) (now : Datetime) :
    List (Move (authMachine K)) :=
  .start p (.login email password) :: AuthChoice.answers p 3 ++
    [.run p (.time now), .run p (.uuid jti), .run p .answer]

def currentUserMoves (p : Pid) (token : String) (now : Datetime) : List (Move (authMachine K)) :=
  [.start p (.currentUser token), .run p (.time now)] ++ AuthChoice.answers p 3

def adminMoves (p : Pid) (email password : String) (now : Datetime) : List (Move (authMachine K)) :=
  [.start p (.createOrUpdateAdmin email password), .run p (.salt 2)] ++ AuthChoice.answers p 2 ++
    [.run p (.time now)] ++ AuthChoice.answers p 3

/-- How a process has ended. -/
def authEnded (w : World (authMachine K)) (p : Pid) : Option (AuthCall × Except AuthExc AuthOut) :=
  match w.procs p with
  | some (c, .ret a) => some (c, .ok a)
  | some (c, .raise e) => some (c, .error e)
  | _ => none

end Moves

end CloudJob
