import IsolationServer.Handlers

/-!
# Handlers run to completion

One event of a client at a time, each handled before the next one arrives. For
every handler one equation says what it does to the world as a whole: the
commands and the mutexes are gone, and what remains is a function of the state
before the event.
-/
namespace IsolationServer
open CommandPrograms HashStore Runs

/-- Handle one event of a client to completion. -/
def serve (gen : Generated) (w : World) (e : Token × Activity) : Option World :=
  if e.2.allows w e.1 = true then (Program.run exec (e.2.body gen e.1) w).map Prod.snd else none

/-- No mutex is held. -/
def Unlocked (w : World) : Prop := w.held = fun _ => false

theorem unlocked_initial (redis : Redis) : Unlocked (World.initial redis) := rfl

/-- The socket of a client that `AddClient` has set up. -/
def readySocket (gen : Generated) : Socket where
  constructed := true
  packetHandler :=
    Function.update (Function.update (Function.update (Function.update (fun _ => none)
      gen.requestLogin (some .login)) gen.requestRegisterAccount (some .creationAccount))
      gen.requestPlayerData (some .playerData)) gen.requestLogout (some .logout)
  disconnectHandler := [gen.emDisconnected]
  reads := 1

namespace World

variable (gen : Generated) (w : World) (t : Token)

def post (response : Response) : World := { w with posted := w.posted ++ [(t, response)] }

def connect (now : ℕ) : World :=
  { w with
    redis := w.redis.hashSet (clientKey t) (str "ConnectedTime") (decimal now)
    connectedClients := insert t w.connectedClients
    sockets := Function.update w.sockets t (readySocket gen) }

def createAccount (m : PMRequestRegisterAccount) : World :=
  { w with
    redis := ((w.redis.hashSet (idKey m.id) (str "password") (gen.sha256 m.password)).hashSet
      (idKey m.id) (str "nickname") m.nickname).hashSet
      (idKey m.id) (str "personalColor") m.personalcolor }

def enter (id : Bytes) (now : ℕ) : World :=
  { w with
    redis := ((w.redis.hashSet (clientKey t) (str "loginId") id).hashSet
      (loginedKey id) (str "token") (tokenStr t)).hashSet
      (loginedKey id) (str "loginTime") (decimal now)
    sockets := Function.update w.sockets t { w.sockets t with loginKey := loginedKey id } }

/-- The session of client `t`, released together with its lock. -/
def leave : World :=
  match w.redis.hashGet (clientKey t) (str "loginId") with
  | none => w
  | some id =>
    { w with
      redis := (w.redis.del (loginedKey id)).hashDel (clientKey t) (str "loginId")
      sockets := Function.update w.sockets t { w.sockets t with loginKey := str "noLogined" } }

def disconnect : World :=
  { w with
    redis := w.redis.del (clientKey t)
    connectedClients := w.connectedClients.erase t
    sockets := Function.update w.sockets t { w.sockets t with stopped := true } }

end World

/-! ## The checks of the handlers as functions of the store -/

/-- A request is granted, refused with a message, or runs into the dereference
of an empty optional. -/
inductive Verdict (α : Type) where
  | granted (a : α)
  | refused (message : Bytes)
  | undefined

def Verdict.elim {α β : Type} (granted : α → β) (refused : Bytes → β) : Verdict α → Option β
  | .granted a => some (granted a)
  | .refused message => some (refused message)
  | .undefined => none

section Verdicts

variable (gen : Generated) (s : Redis) (t : Token) (data : Bytes)

def registerVerdict : Verdict PMRequestRegisterAccount :=
  match gen.parseRegisterAccount data with
  | none => .refused (str "parsingError")
  | some m =>
    if m.id.length < 2 then .refused (str "idLength<2")
    else if m.password.length < 2 then .refused (str "passwordLength<2")
    else if m.nickname.length < 2 then .refused (str "nicknameLength<2")
    else if s.existsKey (idKey m.id) = true then .refused (str "idAleadyInUse")
    else .granted m

def loginVerdict : Verdict PMRequestLogin :=
  match gen.parseLogin data with
  | none => .refused (str "parsingError")
  | some m =>
    if s.existsKey (idKey m.id) = false then .refused (str "idDoesNotExsist")
    else match s.hashGet (idKey m.id) (str "password") with
      | none => .undefined
      | some hash =>
        if hash ≠ gen.sha256 m.password then .refused (str "passwordMismatch")
        else if s.existsKey (loginedKey m.id) = true then .refused (str "loginedAlready")
        else .granted m

/-- The nickname and the color of the account that client `t` is logged in to. -/
def playerDataVerdict : Verdict (Bytes × Bytes) :=
  if gen.parsePlayerData data = false then .refused (str "parsingError")
  else if s.existsKey (clientKey t) = false then .refused (str "invalidToken")
  else match s.hashGet (clientKey t) (str "loginId") with
    | none => .refused (str "needLogin")
    | some id =>
      if s.existsKey (idKey id) = false then .refused (str "invalidId")
      else match s.hashGet (idKey id) (str "nickname"),
          s.hashGet (idKey id) (str "personalColor") with
        | some nickname, some personalcolor => .granted (nickname, personalcolor)
        | _, _ => .undefined

end Verdicts

/-- What an event does to the world. -/
def World.handle (gen : Generated) (w : World) (t : Token) : Activity → Option World
  | .accept now => some (w.connect gen t now)
  | .register data => (registerVerdict gen w.redis data).elim
      (fun m => (w.createAccount gen m).post t (.registerAccount ⟨true, str "ok"⟩))
      (fun message => w.post t (.registerAccount ⟨false, message⟩))
  | .login data now => (loginVerdict gen w.redis data).elim
      (fun m => (w.enter t m.id now).post t (.login ⟨true, str "ok"⟩))
      (fun message => w.post t (.login ⟨false, message⟩))
  | .playerData data => (playerDataVerdict gen w.redis t data).elim
      (fun q => w.post t (.playerData ⟨true, str "ok", q.1, q.2⟩))
      (fun message => w.post t (.playerData ⟨false, message, [], []⟩))
  | .logout data => some (if gen.parseLogout data = true then w.leave t else w)
  | .disconnect => some ((w.leave t).disconnect t)

section Run

variable (gen : Generated) (t : Token) (w : World)

theorem held_scoped {held : Mutex → Bool} {m : Mutex} (h : held m = false) :
    Function.update (Function.update held m true) m false = held := by
  rw [Function.update_idem, ← h, Function.update_eq_self]

/-- A block under a free mutex runs with the mutex held. -/
theorem run_scopedLock {m : Mutex} {α : Type} (block : Handler α) {w : World}
    (h : w.held m = false) :
    Program.run exec (scopedLock m block) w =
      (Program.run exec block { w with held := Function.update w.held m true }).map
        fun q => (q.1, { q.2 with held := Function.update q.2.held m false }) := by
  simp only [scopedLock, Program.call_bind, Program.run_issue, exec, h, Bool.false_eq_true,
    if_false, Option.bind_some, Program.run_bind, Program.pure_eq_done, Program.run_done]
  cases Program.run exec block { w with held := Function.update w.held m true } <;> rfl

theorem run_setPacketHandler {w : World} (type : Int32) (handler : PacketHandler)
    (h : w.held (.packetHandler t) = false) :
    Program.run exec (setPacketHandler t type handler) w = some ((), w.setSocket t
      { w.sockets t with
        packetHandler := Function.update (w.sockets t).packetHandler type (some handler) }) := by
  rw [setPacketHandler, run_scopedLock _ h]
  simp [Program.call, exec, World.setSocket, held_scoped h]

theorem run_setErrorHandler {w : World} (type : Int32)
    (h : w.held (.disconnectHandler t) = false) :
    Program.run exec (setErrorHandler t type) w = some ((), w.setSocket t
      { w.sockets t with
        disconnectHandler := type :: (w.sockets t).disconnectHandler.erase type }) := by
  rw [setErrorHandler, run_scopedLock _ h]
  simp [Program.call, exec, World.setSocket, held_scoped h]

theorem run_acceptClient (now : ℕ) (h : Unlocked w) :
    Program.run exec (acceptClient gen t now) w = some ((), w.connect gen t now) := by
  have hheld : ∀ m, w.held m = false := fun m => congrFun h m
  simp -implicitDefEqProofs only [acceptClient, addClient, Program.call_bind, Program.run_issue,
    exec, Option.bind_some]
  rw [run_scopedLock _ (w := w.setSocket t { constructed := true }) (hheld .conn)]
  simp -implicitDefEqProofs [Program.run_bind, exec, run_setPacketHandler, run_setErrorHandler,
    hheld, World.setSocket, World.connect, readySocket]

theorem run_creationAccount (data : Bytes) :
    Program.run exec (handleRequestCreationAccount gen t data) w =
      (w.handle gen t (.register data)).map (Prod.mk ()) := by
  simp -implicitDefEqProofs only [handleRequestCreationAccount, creationAccountResponse,
    World.handle, registerVerdict]
  cases gen.parseRegisterAccount data with
  | none => rfl
  | some m =>
    simp -implicitDefEqProofs only [Program.pure_eq_done]
    split_ifs with h1 h2 h3 h4
    · rfl
    · rfl
    · rfl
    · simp -implicitDefEqProofs [exec, h4, Program.call, Verdict.elim, World.post]
    · simp -implicitDefEqProofs [exec, h4, Program.call, Verdict.elim, World.post,
        World.createAccount]

theorem run_login (data : Bytes) (now : ℕ) :
    Program.run exec (handleRequestLogin gen t data now) w =
      (w.handle gen t (.login data now)).map (Prod.mk ()) := by
  simp -implicitDefEqProofs only [handleRequestLogin, loginResponse, World.handle, loginVerdict]
  cases gen.parseLogin data with
  | none => rfl
  | some m =>
    cases h1 : w.redis.existsKey (idKey m.id) with
    | false => simp -implicitDefEqProofs [exec, Program.call, Verdict.elim, World.post, h1]
    | true =>
      cases h2 : w.redis.hashGet (idKey m.id) (str "password") with
      | none => simp -implicitDefEqProofs [exec, deref, Verdict.elim, h1, h2]
      | some hash =>
        by_cases h3 : hash = gen.sha256 m.password
        · cases h4 : w.redis.existsKey (loginedKey m.id) <;>
            simp -implicitDefEqProofs [exec, deref, Program.call, Verdict.elim, World.post,
              World.enter, World.setSocket, h1, h2, h3, h4]
        · simp -implicitDefEqProofs [exec, deref, Program.call, Verdict.elim, World.post,
            h1, h2, h3]

theorem run_playerData (data : Bytes) :
    Program.run exec (handleRequestPlayerData gen t data) w =
      (w.handle gen t (.playerData data)).map (Prod.mk ()) := by
  simp -implicitDefEqProofs only [handleRequestPlayerData, playerDataResponse, World.handle,
    playerDataVerdict]
  cases gen.parsePlayerData data with
  | false => rfl
  | true =>
    cases h1 : w.redis.existsKey (clientKey t) with
    | false => simp -implicitDefEqProofs [exec, Program.call, Verdict.elim, World.post, h1]
    | true =>
      cases h2 : w.redis.hashGet (clientKey t) (str "loginId") with
      | none => simp -implicitDefEqProofs [exec, Program.call, Verdict.elim, World.post, h1, h2]
      | some id =>
        cases h3 : w.redis.existsKey (idKey id) with
        | false =>
          simp -implicitDefEqProofs [exec, Program.call, Verdict.elim, World.post, h1, h2, h3]
        | true =>
          cases h4 : w.redis.hashGet (idKey id) (str "nickname") <;>
            cases h5 : w.redis.hashGet (idKey id) (str "personalColor") <;>
            simp -implicitDefEqProofs [exec, deref, Program.call, Verdict.elim, World.post,
              h1, h2, h3, h4, h5]

theorem run_logoutClient : Program.run exec (logoutClient t) w = some ((), w.leave t) := by
  simp -implicitDefEqProofs only [logoutClient, World.leave, Program.call_bind, Program.run_issue,
    exec, Option.bind_some]
  cases hs : w.redis.hashGet (clientKey t) (str "loginId") with
  | none =>
    split_ifs
    · rfl
    · simp -implicitDefEqProofs [exec, hs]
  | some id =>
    simp -implicitDefEqProofs [Store.existsKey_of_hashGet hs, exec, hs, Program.call,
      World.setSocket]

theorem run_disconnect {w : World} (h : w.held .conn = false) :
    Program.run exec (handleDisconnect t) w = some ((), (w.leave t).disconnect t) := by
  have hheld : (w.leave t).held .conn = false := by
    unfold World.leave
    split <;> exact h
  simp -implicitDefEqProofs only [handleDisconnect, removeClient, Program.run_bind,
    run_logoutClient, Program.call_bind, Program.run_issue, exec, Option.bind_some]
  rw [run_scopedLock _ (w := (w.leave t).setSocket t _) hheld]
  simp -implicitDefEqProofs [exec, Program.call, World.disconnect, World.setSocket,
    held_scoped hheld]

/-- A handler that runs alone does what `World.handle` says. -/
theorem run_body (a : Activity) (h : Unlocked w) :
    Program.run exec (a.body gen t) w = (w.handle gen t a).map (Prod.mk ()) := by
  cases a with
  | accept now => exact run_acceptClient gen t w now h
  | register data => exact run_creationAccount gen t w data
  | login data now => exact run_login gen t w data now
  | playerData data => exact run_playerData gen t w data
  | logout data =>
    simp -implicitDefEqProofs only [Activity.body, handleRequestLogout, World.handle]
    split_ifs
    · exact run_logoutClient t w
    · rfl
  | disconnect => exact run_disconnect t (congrFun h _)

/-- An event that is enabled does what `World.handle` says. -/
theorem serve_eq_handle {a : Activity} (h : Unlocked w) (ha : a.allows w t = true) :
    serve gen w (t, a) = w.handle gen t a := by
  simp -implicitDefEqProofs [serve, ha, run_body gen t w a h, Function.comp_def]

end Run

section Effects

variable {gen : Generated} {s : Redis} {t : Token} {w w' : World} {a : Activity}

theorem registerVerdict_eq_granted {data : Bytes} {m : PMRequestRegisterAccount} :
    registerVerdict gen s data = .granted m ↔ gen.parseRegisterAccount data = some m ∧
      2 ≤ m.id.length ∧ 2 ≤ m.password.length ∧ 2 ≤ m.nickname.length ∧
      s.existsKey (idKey m.id) = false := by
  unfold registerVerdict
  cases gen.parseRegisterAccount data with
  | none => simp
  | some q =>
    dsimp only
    constructor
    · intro h
      split_ifs at h with h1 h2 h3 h4
      obtain rfl : q = m := by simpa using h
      exact ⟨rfl, by omega, by omega, by omega, by simpa using h4⟩
    · rintro ⟨hq, h1, h2, h3, h4⟩
      obtain rfl : q = m := by simpa using hq
      rw [if_neg (by omega), if_neg (by omega), if_neg (by omega), if_neg (by simp [h4])]

theorem loginVerdict_eq_granted {data : Bytes} {m : PMRequestLogin} :
    loginVerdict gen s data = .granted m ↔ gen.parseLogin data = some m ∧
      s.hashGet (idKey m.id) (str "password") = some (gen.sha256 m.password) ∧
      s.existsKey (loginedKey m.id) = false := by
  unfold loginVerdict
  cases gen.parseLogin data with
  | none => simp
  | some q =>
    dsimp only
    constructor
    · intro h
      split at h
      · cases h
      · split at h
        · cases h
        · rename_i hash hhash
          split_ifs at h with h2 h3
          obtain rfl : q = m := by simpa using h
          have h2' : hash = gen.sha256 q.password := by simpa using h2
          exact ⟨rfl, h2' ▸ hhash, by simpa using h3⟩
    · rintro ⟨hq, h1, h2⟩
      obtain rfl : q = m := by simpa using hq
      simp [Store.existsKey_of_hashGet h1, h1, h2]

theorem registerVerdict_of_parse_none {data : Bytes} (h : gen.parseRegisterAccount data = none) :
    registerVerdict gen s data = .refused (str "parsingError") := by
  simp [registerVerdict, h]

theorem loginVerdict_of_parse_none {data : Bytes} (h : gen.parseLogin data = none) :
    loginVerdict gen s data = .refused (str "parsingError") := by
  simp [loginVerdict, h]

theorem playerDataVerdict_of_parse_false {data : Bytes} (h : gen.parsePlayerData data = false) :
    playerDataVerdict gen s t data = .refused (str "parsingError") := by
  simp [playerDataVerdict, h]

/-- The `result` of a response. -/
def Response.result : Response → Bool
  | .registerAccount m => m.result
  | .login m => m.result
  | .playerData m => m.result

/-- The requests that are answered by a response. -/
def Activity.isAnswered : Activity → Bool
  | .register _ => true
  | .login _ _ => true
  | .playerData _ => true
  | _ => false

/-- Everything an event can do to the world. -/
inductive Effect (gen : Generated) (w : World) (t : Token) : Activity → World → Prop where
  | connect (now : ℕ) : Effect gen w t (.accept now) (w.connect gen t now)
  | create (data : Bytes) (m : PMRequestRegisterAccount) :
      registerVerdict gen w.redis data = .granted m → Effect gen w t (.register data)
        ((w.createAccount gen m).post t (.registerAccount ⟨true, str "ok"⟩))
  | enter (data : Bytes) (now : ℕ) (m : PMRequestLogin) :
      loginVerdict gen w.redis data = .granted m → Effect gen w t (.login data now)
        ((w.enter t m.id now).post t (.login ⟨true, str "ok"⟩))
  | answer (data nickname personalcolor : Bytes) :
      playerDataVerdict gen w.redis t data = .granted (nickname, personalcolor) →
      Effect gen w t (.playerData data)
        (w.post t (.playerData ⟨true, str "ok", nickname, personalcolor⟩))
  | refuse (a : Activity) (response : Response) : a.isAnswered = true →
      response.result = false → Effect gen w t a (w.post t response)
  | leave (data : Bytes) : gen.parseLogout data = true → Effect gen w t (.logout data) (w.leave t)
  | ignore (data : Bytes) : gen.parseLogout data = false → Effect gen w t (.logout data) w
  | disconnect : Effect gen w t .disconnect ((w.leave t).disconnect t)

theorem handle_effect (h : w.handle gen t a = some w') : Effect gen w t a w' := by
  cases a with
  | accept now =>
    obtain rfl := Option.some.inj h
    exact .connect now
  | register data =>
    simp only [World.handle] at h
    cases hv : registerVerdict gen w.redis data with
    | granted m =>
      rw [hv] at h
      obtain rfl := Option.some.inj h
      exact .create data m hv
    | refused message =>
      rw [hv] at h
      obtain rfl := Option.some.inj h
      exact .refuse _ _ rfl rfl
    | undefined => simp [hv, Verdict.elim] at h
  | login data now =>
    simp only [World.handle] at h
    cases hv : loginVerdict gen w.redis data with
    | granted m =>
      rw [hv] at h
      obtain rfl := Option.some.inj h
      exact .enter data now m hv
    | refused message =>
      rw [hv] at h
      obtain rfl := Option.some.inj h
      exact .refuse _ _ rfl rfl
    | undefined => simp [hv, Verdict.elim] at h
  | playerData data =>
    simp only [World.handle] at h
    cases hv : playerDataVerdict gen w.redis t data with
    | granted q =>
      rw [hv] at h
      obtain rfl := Option.some.inj h
      exact .answer data q.1 q.2 hv
    | refused message =>
      rw [hv] at h
      obtain rfl := Option.some.inj h
      exact .refuse _ _ rfl rfl
    | undefined => simp [hv, Verdict.elim] at h
  | logout data =>
    obtain rfl := Option.some.inj h
    cases hp : gen.parseLogout data with
    | true => exact .leave data hp
    | false => exact .ignore data hp
  | disconnect =>
    obtain rfl := Option.some.inj h
    exact .disconnect

@[simp] theorem leave_held (w : World) (t : Token) : (w.leave t).held = w.held := by
  unfold World.leave
  split <;> rfl

@[simp] theorem leave_connectedClients (w : World) (t : Token) :
    (w.leave t).connectedClients = w.connectedClients := by
  unfold World.leave
  split <;> rfl

@[simp] theorem leave_posted (w : World) (t : Token) : (w.leave t).posted = w.posted := by
  unfold World.leave
  split <;> rfl

theorem Effect.unlocked (h : Effect gen w t a w') (hw : Unlocked w) : Unlocked w' := by
  cases h with
  | leave => exact (leave_held w t).trans hw
  | disconnect => exact (leave_held w t).trans hw
  | _ => exact hw

/-- One event served in a world in which no mutex is held. -/
theorem serve_cases (hw : Unlocked w) (h : serve gen w (t, a) = some w') :
    a.allows w t = true ∧ Effect gen w t a w' ∧ Unlocked w' := by
  by_cases ha : a.allows w t = true
  · have heff := handle_effect ((serve_eq_handle gen t w hw ha).symm.trans h)
    exact ⟨ha, heff, heff.unlocked hw⟩
  · simp [serve, ha] at h

end Effects

end IsolationServer
