import IsolationServer.CommandPrograms
import IsolationServer.Messages

/-!
# The server's handlers as programs of commands

A command is one atomic step of a handler: a Redis command, a call on the
client's socket, an access to `_connectedClients`, or taking and leaving a
mutex. The handlers are written as the source writes them; the clock readings
are inputs. Dereferencing an empty optional ends the program in `undefined`.
-/
namespace IsolationServer
open CommandPrograms

inductive Mutex where
  | conn
  | packetHandler (t : Token)
  | disconnectHandler (t : Token)
  deriving DecidableEq

/-- The handlers that `AddClient` installs for packets. -/
inductive PacketHandler where
  | login
  | creationAccount
  | playerData
  | logout
  deriving DecidableEq

/-- The part of a `ClientSocket` that the server's handlers read and write.
`reads` counts the outstanding `async_read_some` operations. -/
structure Socket where
  constructed : Bool := false
  loginKey : Bytes := []
  packetHandler : Int32 → Option PacketHandler := fun _ => none
  disconnectHandler : List Int32 := []
  reads : ℕ := 0
  stopped : Bool := false

/-- Everything the handlers share. `posted` lists the responses in the order in
which they were handed to `PostWrite`. -/
structure World where
  redis : Redis
  connectedClients : Finset Token
  sockets : Token → Socket
  held : Mutex → Bool
  posted : List (Token × Response)

inductive Command where
  -- IRedis
  | existsKey (key : Bytes)
  | hashGet (key field : Bytes)
  | hashSet (key field value : Bytes)
  | del (key : Bytes)
  | hashDel (key field : Bytes)
  | persist (key : Bytes)
  -- IClient
  | construct (t : Token)
  | readAsync (t : Token)
  | completeRead (t : Token)
  | stop (t : Token)
  | setLoginKey (t : Token) (key : Bytes)
  | postWrite (t : Token) (response : Response)
  | setPacketHandler (t : Token) (type : Int32) (handler : PacketHandler)
  | getPacketHandler (t : Token) (type : Int32)
  | setErrorHandler (t : Token) (type : Int32)
  | getErrorHandlers (t : Token)
  -- Server
  | insertClient (t : Token)
  | eraseClient (t : Token)
  | lock (m : Mutex)
  | unlock (m : Mutex)
  deriving DecidableEq

abbrev Reply : Command → Type
  | .existsKey _ => Bool
  | .hashGet _ _ => Option Bytes
  | .getPacketHandler _ _ => Option PacketHandler
  | .getErrorHandlers _ => List Int32
  | _ => Unit

instance (c : Command) : Inhabited (Reply c) := by
  cases c <;> exact ⟨default⟩

abbrev Handler (α : Type) := Program Command Reply α

abbrev call (c : Command) : Handler (Reply c) := Program.call c

namespace World

def initial (redis : Redis) : World where
  redis := redis
  connectedClients := ∅
  sockets _ := {}
  held _ := false
  posted := []

def setSocket (w : World) (t : Token) (s : Socket) : World :=
  { w with sockets := Function.update w.sockets t s }

@[simp] theorem setSocket_redis (w : World) (t : Token) (s : Socket) :
    (w.setSocket t s).redis = w.redis := rfl

@[simp] theorem setSocket_connectedClients (w : World) (t : Token) (s : Socket) :
    (w.setSocket t s).connectedClients = w.connectedClients := rfl

@[simp] theorem setSocket_held (w : World) (t : Token) (s : Socket) :
    (w.setSocket t s).held = w.held := rfl

@[simp] theorem setSocket_posted (w : World) (t : Token) (s : Socket) :
    (w.setSocket t s).posted = w.posted := rfl

end World

/-- One command. `Persist` only drops an expiry, and no key has one. A mutex
that is held blocks, and so does a read that is not outstanding. -/
def exec : (c : Command) → World → Option (Reply c × World)
  | .existsKey key, w => some (w.redis.existsKey key, w)
  | .hashGet key field, w => some (w.redis.hashGet key field, w)
  | .hashSet key field value, w => some ((), { w with redis := w.redis.hashSet key field value })
  | .del key, w => some ((), { w with redis := w.redis.del key })
  | .hashDel key field, w => some ((), { w with redis := w.redis.hashDel key field })
  | .persist _, w => some ((), w)
  | .construct t, w => some ((), w.setSocket t { constructed := true })
  | .readAsync t, w =>
    some ((), w.setSocket t { w.sockets t with reads := (w.sockets t).reads + 1 })
  | .completeRead t, w =>
    if 0 < (w.sockets t).reads then
      some ((), w.setSocket t { w.sockets t with reads := (w.sockets t).reads - 1 })
    else none
  | .stop t, w => some ((), w.setSocket t { w.sockets t with stopped := true })
  | .setLoginKey t key, w => some ((), w.setSocket t { w.sockets t with loginKey := key })
  | .postWrite t response, w => some ((), { w with posted := w.posted ++ [(t, response)] })
  | .setPacketHandler t type handler, w =>
    some ((), w.setSocket t { w.sockets t with
      packetHandler := Function.update (w.sockets t).packetHandler type (some handler) })
  | .getPacketHandler t type, w => some ((w.sockets t).packetHandler type, w)
  | .setErrorHandler t type, w =>
    some ((), w.setSocket t { w.sockets t with
      disconnectHandler := type :: (w.sockets t).disconnectHandler.erase type })
  | .getErrorHandlers t, w => some ((w.sockets t).disconnectHandler, w)
  | .insertClient t, w => some ((), { w with connectedClients := insert t w.connectedClients })
  | .eraseClient t, w => some ((), { w with connectedClients := w.connectedClients.erase t })
  | .lock m, w =>
    if w.held m then none else some ((), { w with held := Function.update w.held m true })
  | .unlock m, w => some ((), { w with held := Function.update w.held m false })

/-- The commands that can change the Redis store. -/
def Command.writesRedis : Command → Bool
  | .hashSet _ _ _ => true
  | .del _ => true
  | .hashDel _ _ => true
  | _ => false

/-- Everything that a command can reply and do. -/
inductive Executed (w : World) : (c : Command) → Reply c → World → Prop where
  | existsKey (key : Bytes) : Executed w (.existsKey key) (w.redis.existsKey key) w
  | hashGet (key field : Bytes) : Executed w (.hashGet key field) (w.redis.hashGet key field) w
  | hashSet (key field value : Bytes) : Executed w (.hashSet key field value) ()
      { w with redis := w.redis.hashSet key field value }
  | del (key : Bytes) : Executed w (.del key) () { w with redis := w.redis.del key }
  | hashDel (key field : Bytes) : Executed w (.hashDel key field) ()
      { w with redis := w.redis.hashDel key field }
  | persist (key : Bytes) : Executed w (.persist key) () w
  | construct (t : Token) : Executed w (.construct t) () (w.setSocket t { constructed := true })
  | readAsync (t : Token) : Executed w (.readAsync t) ()
      (w.setSocket t { w.sockets t with reads := (w.sockets t).reads + 1 })
  | completeRead (t : Token) (h : 0 < (w.sockets t).reads) : Executed w (.completeRead t) ()
      (w.setSocket t { w.sockets t with reads := (w.sockets t).reads - 1 })
  | stop (t : Token) : Executed w (.stop t) ()
      (w.setSocket t { w.sockets t with stopped := true })
  | setLoginKey (t : Token) (key : Bytes) : Executed w (.setLoginKey t key) ()
      (w.setSocket t { w.sockets t with loginKey := key })
  | postWrite (t : Token) (response : Response) : Executed w (.postWrite t response) ()
      { w with posted := w.posted ++ [(t, response)] }
  | setPacketHandler (t : Token) (type : Int32) (handler : PacketHandler) :
      Executed w (.setPacketHandler t type handler) () (w.setSocket t { w.sockets t with
        packetHandler := Function.update (w.sockets t).packetHandler type (some handler) })
  | getPacketHandler (t : Token) (type : Int32) :
      Executed w (.getPacketHandler t type) ((w.sockets t).packetHandler type) w
  | setErrorHandler (t : Token) (type : Int32) : Executed w (.setErrorHandler t type) ()
      (w.setSocket t { w.sockets t with
        disconnectHandler := type :: (w.sockets t).disconnectHandler.erase type })
  | getErrorHandlers (t : Token) :
      Executed w (.getErrorHandlers t) (w.sockets t).disconnectHandler w
  | insertClient (t : Token) : Executed w (.insertClient t) ()
      { w with connectedClients := insert t w.connectedClients }
  | eraseClient (t : Token) : Executed w (.eraseClient t) ()
      { w with connectedClients := w.connectedClients.erase t }
  | lock (m : Mutex) (h : w.held m = false) : Executed w (.lock m) ()
      { w with held := Function.update w.held m true }
  | unlock (m : Mutex) : Executed w (.unlock m) ()
      { w with held := Function.update w.held m false }

theorem executed_of_exec {c : Command} {r : Reply c} {w w' : World}
    (h : exec c w = some (r, w')) : Executed w c r w' := by
  cases c with
  | completeRead t =>
    simp only [exec] at h
    split at h
    · rename_i hreads
      obtain ⟨rfl, rfl⟩ := Prod.mk.inj (Option.some.inj h)
      exact .completeRead t hreads
    · cases h
  | lock m =>
    simp only [exec] at h
    split at h
    · cases h
    · rename_i hfree
      obtain ⟨rfl, rfl⟩ := Prod.mk.inj (Option.some.inj h)
      exact .lock m (by simpa using hfree)
  | _ =>
    obtain ⟨rfl, rfl⟩ := Prod.mk.inj (Option.some.inj h)
    constructor

/-- Every other command leaves the store alone. -/
theorem redis_of_exec {c : Command} {r : Reply c} {w w' : World}
    (h : exec c w = some (r, w')) (hc : c.writesRedis = false) : w'.redis = w.redis := by
  cases executed_of_exec h with
  | hashSet | del | hashDel => cases hc
  | _ => rfl

/-- What a command adds to the responses. -/
theorem posted_of_exec {c : Command} {r : Reply c} {w w' : World} (he : exec c w = some (r, w')) :
    w'.posted = w.posted ∨
      ∃ u response, c = .postWrite u response ∧ w'.posted = w.posted ++ [(u, response)] := by
  cases executed_of_exec he with
  | postWrite u response => exact .inr ⟨u, response, rfl, rfl⟩
  | _ => exact .inl rfl

/-- `std::scoped_lock` around a block. -/
def scopedLock (m : Mutex) {α : Type} (block : Handler α) : Handler α := do
  call (.lock m)
  let a ← block
  call (.unlock m)
  return a

/-- `*o` for an optional returned by `HashGet`. -/
def deref : Option Bytes → Handler Bytes
  | some v => .done v
  | none => .undefined

def setPacketHandler (t : Token) (type : Int32) (handler : PacketHandler) : Handler Unit :=
  scopedLock (.packetHandler t) (call (.setPacketHandler t type handler))

def setErrorHandler (t : Token) (type : Int32) : Handler Unit :=
  scopedLock (.disconnectHandler t) (call (.setErrorHandler t type))

def removeClient (token : Token) : Handler Unit :=
  scopedLock .conn do
    call (.del (clientKey token))
    call (.eraseClient token)

def addClient (gen : Generated) (client : Token) (now : ℕ) : Handler Unit :=
  scopedLock .conn do
    call (.insertClient client)
    -- `Init` allocates the receive buffer and starts the first read
    call (.readAsync client)
    call (.hashSet (clientKey client) (str "ConnectedTime") (decimal now))
    setPacketHandler client gen.requestLogin .login
    setPacketHandler client gen.requestRegisterAccount .creationAccount
    setPacketHandler client gen.requestPlayerData .playerData
    setPacketHandler client gen.requestLogout .logout
    setErrorHandler client gen.emDisconnected

/-- The accept callback of `main`: a new socket is handed to `AddClient`. -/
def acceptClient (gen : Generated) (client : Token) (now : ℕ) : Handler Unit := do
  call (.construct client)
  addClient gen client now

/-- The checks and writes of a registration, up to its response. -/
def creationAccountResponse (gen : Generated) (data : Bytes) :
    Handler PMResponseRegisterAccount :=
  match gen.parseRegisterAccount data with
  | none => return { result := false, message := str "parsingError" }
  | some m => do
    if m.id.length < 2 then
      return { result := false, message := str "idLength<2" }
    else if m.password.length < 2 then
      return { result := false, message := str "passwordLength<2" }
    else if m.nickname.length < 2 then
      return { result := false, message := str "nicknameLength<2" }
    else
      let used ← call (.existsKey (idKey m.id))
      if used = true then
        return { result := false, message := str "idAleadyInUse" }
      else
        call (.hashSet (idKey m.id) (str "password") (gen.sha256 m.password))
        call (.hashSet (idKey m.id) (str "nickname") m.nickname)
        call (.hashSet (idKey m.id) (str "personalColor") m.personalcolor)
        return { result := true, message := str "ok" }

def handleRequestCreationAccount (gen : Generated) (client : Token) (data : Bytes) :
    Handler Unit := do
  let responseMessage ← creationAccountResponse gen data
  call (.postWrite client (.registerAccount responseMessage))

/-- The checks and writes of a login, up to its response. A refused login
leaves `result` at its default. -/
def loginResponse (gen : Generated) (client : Token) (data : Bytes) (now : ℕ) :
    Handler PMResponseLogin :=
  match gen.parseLogin data with
  | none => return { result := false, message := str "parsingError" }
  | some m => do
    let known ← call (.existsKey (idKey m.id))
    if known = false then
      return { message := str "idDoesNotExsist" }
    else
      let password ← call (.hashGet (idKey m.id) (str "password"))
      let passwordHash ← deref password
      if passwordHash ≠ gen.sha256 m.password then
        return { message := str "passwordMismatch" }
      else
        let logined ← call (.existsKey (loginedKey m.id))
        if logined = true then
          return { message := str "loginedAlready" }
        else
          call (.hashSet (clientKey client) (str "loginId") m.id)
          call (.hashSet (loginedKey m.id) (str "token") (tokenStr client))
          call (.hashSet (loginedKey m.id) (str "loginTime") (decimal now))
          call (.setLoginKey client (loginedKey m.id))
          return { result := true, message := str "ok" }

def handleRequestLogin (gen : Generated) (client : Token) (data : Bytes) (now : ℕ) :
    Handler Unit := do
  let responseMessage ← loginResponse gen client data now
  call (.postWrite client (.login responseMessage))

/-- The reads of a player-data request, up to its response. Both optionals are
dereferenced after `Persist`. -/
def playerDataResponse (gen : Generated) (client : Token) (data : Bytes) :
    Handler PMResponsePlayerData :=
  if gen.parsePlayerData data = false then
    return { result := false, message := str "parsingError" }
  else do
    let connected ← call (.existsKey (clientKey client))
    if connected = false then
      return { message := str "invalidToken" }
    else
      let loginId ← call (.hashGet (clientKey client) (str "loginId"))
      match loginId with
      | none => return { message := str "needLogin" }
      | some idStr =>
        let known ← call (.existsKey (idKey idStr))
        if known = false then
          return { message := str "invalidId" }
        else
          let nicknameStr ← call (.hashGet (idKey idStr) (str "nickname"))
          let personalColorStr ← call (.hashGet (idKey idStr) (str "personalColor"))
          call (.persist (idKey idStr))
          let nickname ← deref nicknameStr
          let personalcolor ← deref personalColorStr
          return { result := true, message := str "ok", nickname, personalcolor }

def handleRequestPlayerData (gen : Generated) (client : Token) (data : Bytes) :
    Handler Unit := do
  let responseMessage ← playerDataResponse gen client data
  call (.postWrite client (.playerData responseMessage))

def logoutClient (client : Token) : Handler Unit := do
  let connected ← call (.existsKey (clientKey client))
  if connected = false then
    return
  else
    let loginIdStr ← call (.hashGet (clientKey client) (str "loginId"))
    match loginIdStr with
    | none => return
    | some loginId =>
      call (.setLoginKey client (str "noLogined"))
      call (.del (loginedKey loginId))
      call (.hashDel (clientKey client) (str "loginId"))

def handleRequestLogout (gen : Generated) (client : Token) (data : Bytes) : Handler Unit :=
  if gen.parseLogout data = true then logoutClient client else return

/-- The disconnect handler that `AddClient` installs. -/
def handleDisconnect (client : Token) : Handler Unit := do
  logoutClient client
  call (.stop client)
  removeClient client

/-- What one client can make the server do. -/
inductive Activity where
  | accept (now : ℕ)
  | register (data : Bytes)
  | login (data : Bytes) (now : ℕ)
  | playerData (data : Bytes)
  | logout (data : Bytes)
  | disconnect
  deriving DecidableEq

def Activity.body (gen : Generated) (client : Token) : Activity → Handler Unit
  | .accept now => acceptClient gen client now
  | .register data => handleRequestCreationAccount gen client data
  | .login data now => handleRequestLogin gen client data now
  | .playerData data => handleRequestPlayerData gen client data
  | .logout data => handleRequestLogout gen client data
  | .disconnect => handleDisconnect client

/-- A token is given to one connection at a time, and only connected clients
send requests or disconnect. -/
def Activity.allows (w : World) (client : Token) : Activity → Bool
  | .accept _ => decide (client ∉ w.connectedClients)
  | _ => decide (client ∈ w.connectedClients)

abbrev ServerPool := Pool Token Activity Command Reply World

abbrev ServerEvent := Event Token Activity Command

/-- The handlers of all clients, one at a time for each client, with their
commands interleaved in any order. -/
def server (gen : Generated) : System Token Activity Command Reply World where
  exec := exec
  body t a := a.body gen t
  allows w t a := a.allows w t

/-- Client `t` issues its next `n` commands without interruption. -/
def advances (t : Token) (n : ℕ) : List (Action Token Activity) :=
  List.replicate n (.advance t)

/-- Clients 1 and 2 connect, one after the other, and client 1 registers the
account `ab`. -/
def twoClients : List (Action Token Activity) := List.flatten
  [[.start 1 (.accept 0)], advances 1 22, [.start 2 (.accept 0)], advances 2 22,
    [.start 1 (.register sampleRegister)], advances 1 6]

end IsolationServer
