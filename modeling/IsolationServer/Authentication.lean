import IsolationServer.LockOwnership

/-!
# What the server is for

The abstract machine keeps accounts, sessions and locks as maps and knows
nothing of keys, fields and commands. With handlers run to completion the
server answers every sequence of events exactly as the machine does, and no
handler runs into the dereference of an empty optional.
-/
namespace IsolationServer.Authentication
open CommandPrograms HashStore Runs LoginLock LeaseProtocol LockOwnership

/-! ## The abstract machine -/

structure Account where
  hash : Bytes
  nickname : Bytes
  color : Bytes

/-- The accounts `A`, the sessions `S` and the locks `L`, with the connected
clients and the responses given so far. -/
structure Machine where
  accounts : Bytes → Option Account
  sessions : Token → Option Bytes
  locks : Bytes → Option Token
  connected : Finset Token
  posted : List (Token × Response)

namespace Machine

def initial : Machine where
  accounts _ := none
  sessions _ := none
  locks _ := none
  connected := ∅
  posted := []

variable (gen : Generated) (M : Machine) (t : Token)

def answer (response : Response) : Machine := { M with posted := M.posted ++ [(t, response)] }

/-- Why a registration is refused. -/
def registerReason (m : PMRequestRegisterAccount) : Bytes :=
  if m.id.length < 2 then str "idLength<2"
  else if m.password.length < 2 then str "passwordLength<2"
  else if m.nickname.length < 2 then str "nicknameLength<2"
  else str "idAleadyInUse"

def register (m : PMRequestRegisterAccount) : Machine :=
  if 2 ≤ m.id.length ∧ 2 ≤ m.password.length ∧ 2 ≤ m.nickname.length ∧
      M.accounts m.id = none then
    { M with
      accounts := Function.update M.accounts m.id
        (some ⟨gen.sha256 m.password, m.nickname, m.personalcolor⟩) }.answer t
      (.registerAccount ⟨true, str "ok"⟩)
  else M.answer t (.registerAccount ⟨false, registerReason m⟩)

/-- Why a login is refused. -/
def loginReason (m : PMRequestLogin) : Bytes :=
  match M.accounts m.id with
  | none => str "idDoesNotExsist"
  | some account =>
    if account.hash ≠ gen.sha256 m.password then str "passwordMismatch" else str "loginedAlready"

def login (m : PMRequestLogin) : Machine :=
  if (M.accounts m.id).map Account.hash = some (gen.sha256 m.password) ∧
      M.locks m.id = none then
    { M with
      sessions := Function.update M.sessions t (some m.id)
      locks := Function.update M.locks m.id (some t) }.answer t (.login ⟨true, str "ok"⟩)
  else M.answer t (.login ⟨false, loginReason gen M m⟩)

def playerData : Machine :=
  match M.sessions t with
  | none => M.answer t (.playerData ⟨false, str "needLogin", [], []⟩)
  | some id => M.answer t (.playerData ⟨true, str "ok",
      ((M.accounts id).map Account.nickname).getD [], ((M.accounts id).map Account.color).getD []⟩)

def logout : Machine :=
  match M.sessions t with
  | none => M
  | some id =>
    { M with
      sessions := Function.update M.sessions t none
      locks := Function.update M.locks id none }

/-- The machine's reaction to an event; a request that does not parse is
answered with an error and changes nothing. -/
def react : Activity → Machine
  | .accept _ => { M with connected := insert t M.connected }
  | .register data =>
    match gen.parseRegisterAccount data with
    | none => M.answer t (.registerAccount ⟨false, str "parsingError"⟩)
    | some m => M.register gen t m
  | .login data _ =>
    match gen.parseLogin data with
    | none => M.answer t (.login ⟨false, str "parsingError"⟩)
    | some m => M.login gen t m
  | .playerData data =>
    if gen.parsePlayerData data = true then M.playerData t
    else M.answer t (.playerData ⟨false, str "parsingError", [], []⟩)
  | .logout data => if gen.parseLogout data = true then M.logout t else M
  | .disconnect => { M.logout t with connected := M.connected.erase t }

/-- A token is given to one connection at a time, and only connected clients
send requests or disconnect. -/
def step (M : Machine) : Token × Activity → Option Machine
  | (t, .accept now) => if t ∉ M.connected then some (M.react gen t (.accept now)) else none
  | (t, a) => if t ∈ M.connected then some (M.react gen t a) else none

/-- The sessions and locks of the machine as a lease state. -/
def lease : Lease Token Bytes Bytes where
  session := M.sessions
  token id := (M.locks id).map tokenStr
  present id := (M.locks id).isSome = true

end Machine

/-! ## The store represents the machine -/

def Account.field (account : Account) (f : Bytes) : Option Bytes :=
  if f = str "password" then some account.hash
  else if f = str "nickname" then some account.nickname
  else if f = str "personalColor" then some account.color
  else none

/-- The three families of hashes hold the machine's maps, every session belongs
to an account, and every connected client has its hash. -/
structure Represents (w : World) (M : Machine) : Prop where
  unlocked : Unlocked w
  accounts : ∀ id f, w.redis.hashGet (idKey id) f = (M.accounts id).bind fun x => x.field f
  lease : leaseOf w.redis = M.lease
  connected : w.connectedClients = M.connected
  client : ∀ t ∈ M.connected, w.redis.hashGet (clientKey t) (str "ConnectedTime") ≠ none
  registered : ∀ t id, M.sessions t = some id → M.accounts id ≠ none
  posted : w.posted = M.posted

section Reading

variable {gen : Generated} {w : World} {M : Machine} {t : Token}

theorem Account.field_password (x : Account) : x.field (str "password") = some x.hash := rfl

theorem Account.field_nickname (x : Account) : x.field (str "nickname") = some x.nickname := by
  have h : str "nickname" ≠ str "password" := by decide
  simp [Account.field, h]

theorem Account.field_personalColor (x : Account) :
    x.field (str "personalColor") = some x.color := by
  have h1 : str "personalColor" ≠ str "password" := by decide
  have h2 : str "personalColor" ≠ str "nickname" := by decide
  simp [Account.field, h1, h2]

theorem Represents.existsKey_id (h : Represents w M) (id : Bytes) :
    w.redis.existsKey (idKey id) = (M.accounts id).isSome := by
  cases ha : M.accounts id with
  | none =>
    rw [Option.isSome_none, Store.existsKey_false_iff]
    intro f
    simp [h.accounts, ha]
  | some x =>
    apply Store.existsKey_of_hashGet (f := str "password") (v := x.hash)
    rw [h.accounts, ha]
    rfl

theorem Represents.session (h : Represents w M) (t : Token) :
    w.redis.hashGet (clientKey t) (str "loginId") = M.sessions t :=
  congrFun (congrArg Lease.session h.lease) t

theorem Represents.locked (h : Represents w M) (id : Bytes) :
    w.redis.existsKey (loginedKey id) = (M.locks id).isSome := by
  have hp : (w.redis.existsKey (loginedKey id) = true) = ((M.locks id).isSome = true) :=
    congrFun (congrArg Lease.present h.lease) id
  exact Bool.eq_iff_iff.mpr (iff_of_eq hp)

theorem Represents.existsKey_client (h : Represents w M) (ht : t ∈ M.connected) :
    w.redis.existsKey (clientKey t) = true := by
  obtain ⟨v, hv⟩ := Option.ne_none_iff_exists'.mp (h.client t ht)
  exact Store.existsKey_of_hashGet hv

end Reading

/-! ## One event at a time -/

section Events

variable {gen : Generated} {w : World} {M : Machine} {t : Token}

theorem Represents.post (h : Represents w M) (t : Token) (response : Response) :
    Represents (w.post t response) (M.answer t response) where
  unlocked := h.unlocked
  accounts := h.accounts
  lease := h.lease
  connected := h.connected
  client := h.client
  registered := h.registered
  posted := by simp [World.post, Machine.answer, h.posted]

theorem Represents.connect (h : Represents w M) (t : Token) (now : ℕ) :
    Represents (w.connect gen t now) { M with connected := insert t M.connected } where
  unlocked := h.unlocked
  accounts id f := by simp [World.connect, Store.hashGet_hashSet, h.accounts]
  lease := (leaseOf_connect gen w t now).trans h.lease
  connected := by simp [World.connect, h.connected]
  client u hu := by
    simp only [World.connect, Store.hashGet_hashSet]
    by_cases hut : u = t
    · simp [hut]
    · simp only [clientKey_inj, hut, false_and, if_false]
      exact h.client u (Finset.mem_of_mem_insert_of_ne hu hut)
  registered := h.registered
  posted := h.posted

/-- The fields of a new account on a key that was absent. -/
theorem Represents.createAccount (h : Represents w M) (m : PMRequestRegisterAccount)
    (hm : M.accounts m.id = none) : Represents (w.createAccount gen m)
      { M with
        accounts := Function.update M.accounts m.id
          (some ⟨gen.sha256 m.password, m.nickname, m.personalcolor⟩) } where
  unlocked := h.unlocked
  accounts id f := by
    simp only [World.createAccount, Store.hashGet_hashSet, idKey_inj]
    by_cases hid : id = m.id
    · subst hid
      simp only [true_and, Function.update_self, Option.bind_some, Account.field, h.accounts, hm,
        Option.bind_none]
      have h1 : str "personalColor" ≠ str "password" := by decide
      have h2 : str "personalColor" ≠ str "nickname" := by decide
      have h3 : str "nickname" ≠ str "password" := by decide
      by_cases hc : f = str "personalColor"
      · simp [hc, h1, h2]
      · by_cases hn : f = str "nickname"
        · simp [hn, h3, h2.symm]
        · simp [hc, hn]
    · simp [hid, h.accounts]
  lease := (leaseOf_createAccount gen w m).trans h.lease
  connected := h.connected
  client u hu := by
    simp only [World.createAccount, Store.hashGet_hashSet]
    simpa using h.client u hu
  registered u id hu := by
    by_cases hid : id = m.id
    · simp [hid]
    · simpa [Function.update_of_ne hid] using h.registered u id hu
  posted := h.posted

theorem Represents.enter (h : Represents w M) (t : Token) (id : Bytes) (now : ℕ)
    (hid : M.accounts id ≠ none) : Represents (w.enter t id now)
      { M with
        sessions := Function.update M.sessions t (some id)
        locks := Function.update M.locks id (some t) } where
  unlocked := h.unlocked
  accounts j f := by simp [World.enter, Store.hashGet_hashSet, h.accounts]
  lease := by
    rw [leaseOf_enter, h.lease]
    simp only [Machine.lease, Lease.mk.injEq, true_and]
    constructor <;> funext j <;> by_cases hj : j = id <;> simp [hj]
  connected := h.connected
  client u hu := by
    have hf : str "ConnectedTime" ≠ str "loginId" := by decide
    simp only [World.enter, Store.hashGet_hashSet]
    simpa [hf] using h.client u hu
  registered u j hu := by
    by_cases hut : u = t
    · subst hut
      obtain rfl : id = j := by simpa using hu
      exact hid
    · simp only [Function.update_of_ne hut] at hu
      exact h.registered u j hu
  posted := h.posted

theorem Represents.leave (h : Represents w M) (t : Token) :
    Represents (w.leave t) (M.logout t) := by
  have hsess : (leaseOf w.redis).session t = M.sessions t := h.session t
  cases hs : M.sessions t with
  | none =>
    rw [leaseOf_leave_none w t (hsess.trans hs)]
    simpa [Machine.logout, hs] using h
  | some id =>
    have hredis : (w.leave t).redis =
        (w.redis.del (loginedKey id)).hashDel (clientKey t) (str "loginId") := by
      simp [World.leave, h.session t, hs]
    simp only [Machine.logout, hs]
    constructor
    · exact (leave_held w t).trans h.unlocked
    · intro j f
      simp [hredis, Store.hashGet_hashDel, Store.hashGet_del, h.accounts]
    · rw [leaseOf_leave_some w t (hsess.trans hs), h.lease]
      simp only [Machine.lease, Lease.mk.injEq, true_and]
      constructor <;> funext j <;> by_cases hj : j = id <;> simp [hj]
    · exact (leave_connectedClients w t).trans h.connected
    · intro u hu
      have hf : str "ConnectedTime" ≠ str "loginId" := by decide
      simpa [hredis, Store.hashGet_hashDel, Store.hashGet_del, hf] using h.client u hu
    · intro u j hu
      by_cases hut : u = t
      · subst hut
        simp at hu
      · simp only [Function.update_of_ne hut] at hu
        exact h.registered u j hu
    · exact (leave_posted w t).trans h.posted

theorem logout_session (M : Machine) (t : Token) : (M.logout t).sessions t = none := by
  unfold Machine.logout
  split
  · assumption
  · simp

theorem Represents.disconnect (h : Represents w M) (t : Token) (ht : M.sessions t = none) :
    Represents (w.disconnect t) { M with connected := M.connected.erase t } where
  unlocked := h.unlocked
  accounts j f := by simp [World.disconnect, Store.hashGet_del, h.accounts]
  lease := by
    rw [leaseOf_disconnect, h.lease]
    have hsame : Function.update M.sessions t none = M.sessions := by
      rw [← ht, Function.update_eq_self]
    simp [Machine.lease, hsame]
  connected := by simp [World.disconnect, h.connected]
  client u hu := by
    obtain ⟨hut, hu⟩ := Finset.mem_erase.mp hu
    simpa [World.disconnect, Store.hashGet_del, hut] using h.client u hu
  registered := h.registered
  posted := h.posted

/-! ## The checks of the handlers are those of the machine -/

theorem Represents.registerVerdict_eq (h : Represents w M) {data : Bytes}
    {m : PMRequestRegisterAccount} (hm : gen.parseRegisterAccount data = some m) :
    registerVerdict gen w.redis data =
      if 2 ≤ m.id.length ∧ 2 ≤ m.password.length ∧ 2 ≤ m.nickname.length ∧
        M.accounts m.id = none then .granted m
      else .refused (Machine.registerReason m) := by
  simp only [registerVerdict, hm, h.existsKey_id, Machine.registerReason]
  by_cases h1 : m.id.length < 2
  · rw [if_pos h1, if_neg (by omega), if_pos h1]
  · by_cases h2 : m.password.length < 2
    · rw [if_neg h1, if_pos h2, if_neg (by omega), if_neg h1, if_pos h2]
    · by_cases h3 : m.nickname.length < 2
      · rw [if_neg h1, if_neg h2, if_pos h3, if_neg (by omega), if_neg h1, if_neg h2, if_pos h3]
      · rw [if_neg h1, if_neg h2, if_neg h3]
        cases ha : M.accounts m.id with
        | none => rw [if_neg (by simp), if_pos ⟨by omega, by omega, by omega, rfl⟩]
        | some x => rw [if_pos (by simp), if_neg (by simp), if_neg h1, if_neg h2, if_neg h3]

theorem Represents.loginVerdict_eq (h : Represents w M) {data : Bytes} {m : PMRequestLogin}
    (hm : gen.parseLogin data = some m) :
    loginVerdict gen w.redis data =
      if (M.accounts m.id).map Account.hash = some (gen.sha256 m.password) ∧
        M.locks m.id = none then .granted m
      else .refused (M.loginReason gen m) := by
  simp only [loginVerdict, hm, h.existsKey_id, h.accounts, h.locked, Machine.loginReason]
  cases M.accounts m.id with
  | none => simp
  | some x =>
    simp only [Option.isSome_some, Option.bind_some, Account.field_password, Option.map_some]
    by_cases hx : x.hash = gen.sha256 m.password
    · cases M.locks m.id <;> simp [hx]
    · simp [hx]

theorem Represents.playerDataVerdict_eq (h : Represents w M) {data : Bytes}
    (hp : gen.parsePlayerData data = true) (ht : t ∈ M.connected) :
    playerDataVerdict gen w.redis t data =
      match M.sessions t with
      | none => .refused (str "needLogin")
      | some id => .granted (((M.accounts id).map Account.nickname).getD [],
          ((M.accounts id).map Account.color).getD []) := by
  simp only [playerDataVerdict, hp, h.existsKey_client ht, h.session, h.existsKey_id,
    h.accounts]
  cases hs : M.sessions t with
  | none => simp
  | some id =>
    obtain ⟨x, hx⟩ := Option.ne_none_iff_exists'.mp (h.registered t id hs)
    simp [hx, Account.field_nickname, Account.field_personalColor]

/-- The server handles an event that is enabled, without running into an empty
optional, and the new state represents the machine's reaction. -/
theorem Represents.handle (h : Represents w M) (gen : Generated) {a : Activity}
    (ha : a.allows w t = true) :
    ∃ w', w.handle gen t a = some w' ∧ Represents w' (M.react gen t a) := by
  cases a with
  | accept now => exact ⟨_, rfl, h.connect t now⟩
  | register data =>
    simp only [World.handle, Machine.react]
    cases hm : gen.parseRegisterAccount data with
    | none =>
      rw [registerVerdict_of_parse_none hm]
      exact ⟨_, rfl, h.post t _⟩
    | some m =>
      simp only [h.registerVerdict_eq hm, Machine.register]
      split_ifs with hc
      · exact ⟨_, rfl, (h.createAccount m hc.2.2.2).post t _⟩
      · exact ⟨_, rfl, h.post t _⟩
  | login data now =>
    simp only [World.handle, Machine.react]
    cases hm : gen.parseLogin data with
    | none =>
      rw [loginVerdict_of_parse_none hm]
      exact ⟨_, rfl, h.post t _⟩
    | some m =>
      simp only [h.loginVerdict_eq hm, Machine.login]
      split_ifs with hc
      · have hacc : M.accounts m.id ≠ none := by
          intro hn
          simp [hn] at hc
        exact ⟨_, rfl, (h.enter t m.id now hacc).post t _⟩
      · exact ⟨_, rfl, h.post t _⟩
  | playerData data =>
    have ht : t ∈ M.connected := h.connected ▸ of_decide_eq_true ha
    simp only [World.handle, Machine.react]
    cases hp : gen.parsePlayerData data with
    | false =>
      rw [playerDataVerdict_of_parse_false hp]
      exact ⟨_, rfl, h.post t _⟩
    | true =>
      simp only [h.playerDataVerdict_eq hp ht, Machine.playerData, if_true]
      cases M.sessions t with
      | none => exact ⟨_, rfl, h.post t _⟩
      | some id => exact ⟨_, rfl, h.post t _⟩
  | logout data =>
    simp only [World.handle, Machine.react]
    split_ifs
    · exact ⟨_, rfl, h.leave t⟩
    · exact ⟨_, rfl, h⟩
  | disconnect =>
    have hconn : (M.logout t).connected = M.connected := by
      unfold Machine.logout
      split <;> rfl
    refine ⟨_, rfl, ?_⟩
    simp only [Machine.react, ← hconn]
    exact (h.leave t).disconnect t (logout_session M t)

end Events

/-! ## Runs -/

section Runs

variable {gen : Generated} {w : World} {M : Machine}

theorem represents_initial : Represents (World.initial Store.empty) Machine.initial where
  unlocked := unlocked_initial _
  accounts id f := by simp [World.initial, Machine.initial]
  lease := by simp [leaseOf, World.initial, Machine.lease, Machine.initial, Store.existsKey_iff]
  connected := rfl
  client t ht := by simp [Machine.initial] at ht
  registered t id h := by simp [Machine.initial] at h
  posted := rfl

/-- A store that is clean and holds the accounts. -/
structure Recorded (redis : Redis) (accounts : Bytes → Option Account) : Prop where
  clean : CleanStore redis
  accounts : ∀ id f, redis.hashGet (idKey id) f = (accounts id).bind fun x => x.field f

/-- A machine that nobody has used, except to create the accounts. -/
def Machine.withAccounts (accounts : Bytes → Option Account) : Machine :=
  { Machine.initial with accounts := accounts }

/-- A clean store has no sessions and no locks. -/
theorem leaseOf_clean {redis : Redis} (h : CleanStore redis) :
    leaseOf redis = Machine.initial.lease := by
  have hsession : ∀ t f, redis.hashGet (clientKey t) f = none := fun t f =>
    (Store.existsKey_false_iff _ _).mp (h.clientKey t) f
  have hlock : ∀ id f, redis.hashGet (loginedKey id) f = none := fun id f =>
    (Store.existsKey_false_iff _ _).mp (h.loginedKey id) f
  simp [leaseOf, Machine.lease, Machine.initial, Store.existsKey_iff, hsession, hlock]

theorem Recorded.represents {redis : Redis} {accounts : Bytes → Option Account}
    (h : Recorded redis accounts) :
    Represents (World.initial redis) (Machine.withAccounts accounts) where
  unlocked := unlocked_initial _
  accounts := h.accounts
  lease := leaseOf_clean h.clean
  connected := rfl
  client t ht := by simp [Machine.withAccounts, Machine.initial] at ht
  registered t id ht := by simp [Machine.withAccounts, Machine.initial] at ht
  posted := rfl

theorem recorded_empty : Recorded Store.empty fun _ => none where
  clean := cleanStore_empty
  accounts id f := by simp

/-- The server and the machine take the same events, and stay related. -/
theorem Represents.step (h : Represents w M) (e : Token × Activity) :
    Option.Rel Represents (serve gen w e) (M.step gen e) := by
  obtain ⟨t, a⟩ := e
  have hstep : M.step gen (t, a) =
      if a.allows w t = true then some (M.react gen t a) else none := by
    cases a <;> simp [Machine.step, Activity.allows, h.connected]
  rw [hstep]
  split_ifs with ha
  · obtain ⟨w', hw', hrep⟩ := h.handle gen ha
    rw [serve_eq_handle gen t w h.unlocked ha, hw']
    exact .some hrep
  · simp only [serve, ha]
    exact .none

/-- An event that the server may handle is one that the machine reacts to. -/
theorem Represents.step_eq (h : Represents w M) {t : Token} {a : Activity}
    (ha : a.allows w t = true) : M.step gen (t, a) = some (M.react gen t a) := by
  cases a <;> simpa [Machine.step, Activity.allows, h.connected] using ha

/-- End-to-end authentication: for every sequence of events the server and the
machine accept the same prefix of it, the server's store represents the
machine's state, and the responses are the same; and in every state reached,
every handler that can be started runs to its end without dereferencing an
empty optional. -/
theorem server_refines_machine (gen : Generated) (events : List (Token × Activity)) :
    Option.Rel Represents (runs (serve gen) (World.initial Store.empty) events)
      (runs (Machine.step gen) Machine.initial events) ∧
    (runs (serve gen) (World.initial Store.empty) events).map World.posted =
      (runs (Machine.step gen) Machine.initial events).map Machine.posted ∧
    ∀ w, runs (serve gen) (World.initial Store.empty) events = some w →
      ∀ (t : Token) (a : Activity), a.allows w t = true →
        (Program.run exec (a.body gen t) w).isSome = true := by
  have hrel : Option.Rel Represents (runs (serve gen) (World.initial Store.empty) events)
      (runs (Machine.step gen) Machine.initial events) :=
    runs_rel (fun _ _ e h => h.step e) events represents_initial
  refine ⟨hrel, ?_, ?_⟩
  · generalize runs (serve gen) _ events = x at hrel
    generalize runs (Machine.step gen) _ events = y at hrel
    cases hrel with
    | none => rfl
    | some h => exact congrArg some h.posted
  · intro w hw t a ha
    rw [hw] at hrel
    generalize runs (Machine.step gen) _ events = y at hrel
    cases hrel with
    | some h =>
      obtain ⟨w', hw', -⟩ := h.handle gen ha
      have hserve := (serve_eq_handle gen t w h.unlocked ha).trans hw'
      simp only [serve, ha, if_true] at hserve
      obtain ⟨q, hq, -⟩ := Option.map_eq_some_iff.mp hserve
      rw [hq]
      rfl

/-- A client that has changed accounts asks for its data. -/
theorem server_refines_machine_player_data : ∃ w,
    runs (serve wireGenerated) (World.initial Store.empty) loginTwice = some w ∧
    (Program.run exec ((Activity.playerData []).body wireGenerated 1) w).isSome = true := by
  have hrun : (runs (serve wireGenerated) (World.initial Store.empty) loginTwice).map
      (fun w => (Activity.playerData []).allows w 1) = some true := by decide +kernel
  obtain ⟨w, hw, hallow⟩ := Option.map_eq_some_iff.mp hrun
  exact ⟨w, hw, (server_refines_machine wireGenerated loginTwice).2.2 w hw 1 _ hallow⟩

end Runs

end IsolationServer.Authentication
