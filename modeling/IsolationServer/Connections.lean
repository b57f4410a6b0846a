import IsolationServer.Footprints

/-!
# Setting up a connection while its reads already complete

`AddClient` starts the first read before it installs the handlers, so the reads
of a client complete on other threads while its connection is still being set
up. A packet without a handler is skipped and the next read is started; an error
ends the read loop, and whoever is not registered for it at that moment is never
told. The connection is taken down by the disconnect handler alone.
-/
namespace IsolationServer.Connections
open CommandPrograms HashStore Runs

/-- The thread that accepts a client and the one on which its reads complete. -/
inductive Side where
  | acceptor
  | reader
  deriving DecidableEq

/-- What happens to a client: it is accepted, a read completes with a packet for
`HandlePacket` or with bytes that are no packet, or a read fails. -/
inductive ConnectionEvent where
  | accept (now : ℕ)
  | packet (type : Int32) (data : Bytes) (now : ℕ)
  | garbage
  | failure
  deriving DecidableEq

def runHandler (gen : Generated) (t : Token) (data : Bytes) (now : ℕ) : PacketHandler → Handler Unit
  | .login => handleRequestLogin gen t data now
  | .creationAccount => handleRequestCreationAccount gen t data
  | .playerData => handleRequestPlayerData gen t data
  | .logout => handleRequestLogout gen t data

/-- The handler is copied under the mutex and called after it is released. -/
def handlePacket (gen : Generated) (t : Token) (type : Int32) (data : Bytes) (now : ℕ) :
    Handler Unit := do
  let handler ← scopedLock (.packetHandler t) (call (.getPacketHandler t type))
  match handler with
  | none => return
  | some h => if type = gen.emDisconnected then return else runHandler gen t data now h

/-- Every installed disconnect handler is called while the mutex is held. -/
def handleError (t : Token) : Handler Unit :=
  scopedLock (.disconnectHandler t) do
    let handlers ← call (.getErrorHandlers t)
    handlers.forM fun _ => handleDisconnect t

def eventBody (gen : Generated) : Token × Side → ConnectionEvent → Handler Unit
  | (t, .acceptor), .accept now => acceptClient gen t now
  | (t, .reader), .packet type data now => do
    call (.completeRead t)
    handlePacket gen t type data now
    call (.readAsync t)
  | (t, .reader), .garbage => do
    call (.completeRead t)
    call (.readAsync t)
  | (t, .reader), .failure => do
    call (.completeRead t)
    handleError t
  | _, _ => return

/-- A client is accepted once, and a read completes only while one is
outstanding. -/
def eventAllows (w : World) : Token × Side → ConnectionEvent → Bool
  | (t, .acceptor), .accept _ => !(w.sockets t).constructed
  | (_, .acceptor), _ => false
  | (_, .reader), .accept _ => false
  | (t, .reader), _ => decide (0 < (w.sockets t).reads)

abbrev ConnectionPool := Pool (Token × Side) ConnectionEvent Command Reply World

def connections (gen : Generated) : System (Token × Side) ConnectionEvent Command Reply World where
  exec := exec
  body := eventBody gen
  allows := eventAllows

/-! ## Which commands concern whom -/

/-- Commands that leave the connections of all clients but `u` alone. -/
def Local (u : Token) : Command → Prop
  | .construct v => v = u
  | .readAsync v => v = u
  | .completeRead v => v = u
  | .stop v => v = u
  | .setLoginKey v _ => v = u
  | .setPacketHandler v _ _ => v = u
  | .setErrorHandler v _ => v = u
  | .insertClient v => v = u
  | .eraseClient v => v = u
  | .hashSet key _ _ => ∀ t, t ≠ u → key ≠ clientKey t
  | .del key => ∀ t, t ≠ u → key ≠ clientKey t
  | .hashDel key _ => ∀ t, t ≠ u → key ≠ clientKey t
  | _ => True

/-- Commands that neither start or end a read nor install a disconnect handler. -/
def KeepsLoop : Command → Prop
  | .construct _ => False
  | .readAsync _ => False
  | .completeRead _ => False
  | .setErrorHandler _ _ => False
  | _ => True

/-- Client `t` is neither in `_connectedClients` nor in the store. -/
def Gone (w : World) (t : Token) : Prop :=
  t ∉ w.connectedClients ∧ w.redis.existsKey (clientKey t) = false

section Frame

variable {c : Command} {r : Reply c} {w w' : World} {t u : Token}

/-- A command of another client. -/
theorem frame_of_local (hc : Local u c) (ht : t ≠ u) (he : exec c w = some (r, w')) :
    w'.sockets t = w.sockets t ∧ (t ∈ w'.connectedClients ↔ t ∈ w.connectedClients) ∧
    w'.redis.existsKey (clientKey t) = w.redis.existsKey (clientKey t) := by
  cases executed_of_exec he with
  | hashSet key f v => simp [Store.existsKey_hashSet, (hc t ht).symm]
  | del key => simp [Store.existsKey_del, (hc t ht).symm]
  | hashDel key f => simp [Store.existsKey_hashDel_of_ne _ _ (hc t ht).symm]
  | construct v | readAsync v | completeRead v | stop v | setLoginKey v _ | setPacketHandler v _ _
  | setErrorHandler v _ | insertClient v | eraseClient v =>
    obtain rfl : v = u := hc
    simp [World.setSocket, ht]
  | _ => exact ⟨rfl, Iff.rfl, rfl⟩

/-- The state of a client's read loop: the socket exists, with or without a
disconnect handler, and `n` reads are outstanding. -/
def Loop (s : Socket) (installed : Bool) (n : ℕ) : Prop :=
  s.constructed = true ∧ s.disconnectHandler.isEmpty = !installed ∧ s.reads = n

/-- A command that leaves the read loops alone. -/
theorem Loop.keep {installed : Bool} {n : ℕ} (h : Loop (w.sockets t) installed n)
    (he : exec c w = some (r, w')) (hc : KeepsLoop c) : Loop (w'.sockets t) installed n := by
  cases executed_of_exec he with
  | construct | readAsync | completeRead | setErrorHandler => exact hc.elim
  | stop v | setLoginKey v _ | setPacketHandler v _ _ =>
    by_cases hv : t = v
    · subst hv
      simpa [World.setSocket, Loop] using h
    · simpa [World.setSocket, hv] using h
  | _ => exact h

/-- A started read. -/
theorem Loop.read {installed : Bool} {n : ℕ} (h : Loop (w.sockets t) installed n)
    (he : exec (.readAsync t) w = some ((), w')) : Loop (w'.sockets t) installed (n + 1) := by
  cases executed_of_exec he
  simpa [World.setSocket, Loop] using h

/-- A completed read. -/
theorem Loop.complete {installed : Bool} {n : ℕ} (h : Loop (w.sockets t) installed n)
    (he : exec (.completeRead t) w = some ((), w')) :
    0 < n ∧ Loop (w'.sockets t) installed (n - 1) := by
  obtain ⟨hc, hi, rfl⟩ := h
  cases executed_of_exec he with
  | completeRead _ hpos => exact ⟨hpos, by simp [World.setSocket, Loop, hc, hi]⟩

/-- The commands of the disconnect handler do not bring a client back. -/
theorem gone_of_remove (hc : LogoutCommand t c ∨ RemoveCommand t c) (he : exec c w = some (r, w'))
    (hg : Gone w t) : Gone w' t := by
  cases executed_of_exec he with
  | del key => simp [Gone, Store.existsKey_del, hg.1, hg.2]
  | hashDel key f =>
    refine ⟨hg.1, ?_⟩
    rw [Store.existsKey_false_iff]
    intro g
    simp [Store.hashGet_hashDel, (Store.existsKey_false_iff _ _).mp hg.2 g]
  | eraseClient v => simp [Gone, hg.1, hg.2]
  | existsKey | hashGet | setLoginKey | stop | lock | unlock => exact hg
  | _ => simp [LogoutCommand, RemoveCommand] at hc

end Frame

/-! ## The stages of a connection -/

/-- How far a thread has come: `setting` and `running` are `AddClient` before
and after the first read is started, with the disconnect handler still to be
installed; the others are completions of reads. -/
inductive Stage where
  | idle
  | setting
  | running
  | handling
  | failing
  | removing
  | deleted
  | removed
  | skipped

inductive Move : Token × Side → ConnectionEvent → Stage → (c : Command) → Reply c → Stage →
    Prop where
  | construct (t : Token) (a : ConnectionEvent) :
      Move (t, .acceptor) a .idle (.construct t) () .setting
  | setUp (t : Token) (a : ConnectionEvent) (c : Command) (r : Reply c) :
      KeepsLoop c → Local t c → Move (t, .acceptor) a .setting c r .setting
  | firstRead (t : Token) (a : ConnectionEvent) :
      Move (t, .acceptor) a .setting (.readAsync t) () .running
  | prepare (t : Token) (a : ConnectionEvent) (c : Command) (r : Reply c) :
      KeepsLoop c → Local t c → Move (t, .acceptor) a .running c r .running
  | install (t : Token) (a : ConnectionEvent) (type : Int32) :
      Move (t, .acceptor) a .running (.setErrorHandler t type) () .idle
  | release (t : Token) (a : ConnectionEvent) (m : Mutex) :
      Move (t, .acceptor) a .idle (.unlock m) () .idle
  | completed (t : Token) (a : ConnectionEvent) :
      Move (t, .reader) a .idle (.completeRead t) () .handling
  | handle (t : Token) (a : ConnectionEvent) (c : Command) (r : Reply c) :
      KeepsLoop c → Local t c → Move (t, .reader) a .handling c r .handling
  | again (t : Token) (a : ConnectionEvent) :
      Move (t, .reader) a .handling (.readAsync t) () .idle
  | failed (t : Token) (a : ConnectionEvent) :
      Move (t, .reader) a .idle (.completeRead t) () .failing
  | enter (t : Token) (a : ConnectionEvent) (m : Mutex) :
      Move (t, .reader) a .failing (.lock m) () .failing
  | found (t : Token) (a : ConnectionEvent) (h : Int32) (rest : List Int32) :
      Move (t, .reader) a .failing (.getErrorHandlers t) (h :: rest) .removing
  | missed (t : Token) (a : ConnectionEvent) :
      Move (t, .reader) a .failing (.getErrorHandlers t) [] .skipped
  | logOut (t : Token) (a : ConnectionEvent) (c : Command) (r : Reply c) :
      KeepsLoop c → Local t c → Move (t, .reader) a .removing c r .removing
  | delete (t : Token) (a : ConnectionEvent) :
      Move (t, .reader) a .removing (.del (clientKey t)) () .deleted
  | erase (t : Token) (a : ConnectionEvent) :
      Move (t, .reader) a .deleted (.eraseClient t) () .removed
  | repeated (t : Token) (a : ConnectionEvent) (c : Command) (r : Reply c) :
      LogoutCommand t c ∨ RemoveCommand t c → Move (t, .reader) a .removed c r .removed
  | leave (t : Token) (a : ConnectionEvent) (m : Mutex) :
      Move (t, .reader) a .removed (.unlock m) () .idle
  | skip (t : Token) (a : ConnectionEvent) (m : Mutex) :
      Move (t, .reader) a .skipped (.unlock m) () .idle

/-- A thread returns at rest; a handler that runs into an empty optional never
does. -/
def Ending : Option Unit → Stage → Prop
  | some _, y => y = .idle
  | none, _ => True

section Conformance

variable {gen : Generated} {t : Token} {a : ConnectionEvent}

theorem keeps_of_login {c : Command} (h : LoginCommand t c) : KeepsLoop c ∧ Local t c := by
  cases c with
  | hashSet key f v =>
    refine ⟨trivial, fun u hu => ?_⟩
    rcases h with ⟨rfl, -⟩ | ⟨id, rfl⟩
    · simpa using hu.symm
    · simp
  | _ => first | exact h.elim | exact ⟨trivial, trivial⟩ | exact ⟨trivial, h⟩

theorem keeps_of_register {c : Command} (h : RegisterCommand t c) : KeepsLoop c ∧ Local t c := by
  cases c with
  | hashSet key f v =>
    obtain ⟨id, rfl⟩ := h
    exact ⟨trivial, fun u _ => by simp⟩
  | _ => first | exact h.elim | exact ⟨trivial, trivial⟩

theorem keeps_of_playerData {c : Command} (h : PlayerDataCommand t c) :
    KeepsLoop c ∧ Local t c := by
  cases c <;> first | exact h.elim | exact ⟨trivial, trivial⟩

theorem keeps_of_logout {c : Command} (h : LogoutCommand t c) : KeepsLoop c ∧ Local t c := by
  cases c with
  | del key =>
    obtain ⟨id, rfl⟩ := h
    exact ⟨trivial, fun u _ => by simp⟩
  | hashDel key f =>
    obtain ⟨rfl, -⟩ := h
    exact ⟨trivial, fun u hu => by simpa using hu.symm⟩
  | _ => first | exact h.elim | exact ⟨trivial, trivial⟩ | exact ⟨trivial, h⟩

theorem keeps_of_request {c : Command} (h : RequestCommand t c) : KeepsLoop c ∧ Local t c := by
  cases h with
  | login h => exact keeps_of_login h
  | register h => exact keeps_of_register h
  | playerData h => exact keeps_of_playerData h
  | logout h => exact keeps_of_logout h

theorem keeps_of_remove {c : Command} (h : LogoutCommand t c ∨ RemoveCommand t c) :
    KeepsLoop c ∧ Local t c := by
  rcases h with h | h
  · exact keeps_of_logout h
  · cases c with
    | del key =>
      obtain rfl : key = clientKey t := h
      exact ⟨trivial, fun u hu => by simpa using hu.symm⟩
    | _ => first | exact h.elim | exact ⟨trivial, trivial⟩ | exact ⟨trivial, h⟩

theorem issues_runHandler (data : Bytes) (now : ℕ) (h : PacketHandler) :
    Issues (RequestCommand t) (runHandler gen t data now h) := by
  cases h with
  | login => exact (issues_login gen t data now).mono fun _ => .login
  | creationAccount => exact (issues_creationAccount gen t data).mono fun _ => .register
  | playerData => exact (issues_playerData gen t data).mono fun _ => .playerData
  | logout => exact (issues_logout gen t data).mono fun _ => .logout

theorem conforms_prepare {c : Command} {k : Reply c → Handler Unit} (hc : KeepsLoop c)
    (hl : Local t c) (hk : ∀ r, Conforms (Move (t, .acceptor) a) Ending .running (k r)) :
    Conforms (Move (t, .acceptor) a) Ending .running (.issue c k) :=
  fun r => ⟨.running, .prepare t a c r hc hl, hk r⟩

/-- `AddClient` installs the disconnect handler last. -/
theorem conforms_acceptClient (now : ℕ) :
    Conforms (Move (t, .acceptor) a) Ending .idle (acceptClient gen t now) := by
  simp only [acceptClient, addClient, setPacketHandler, setErrorHandler, scopedLock,
    Program.call_bind, Program.issue_bind]
  refine fun _ => ⟨.setting, .construct t a, fun _ => ?_⟩
  refine ⟨.setting, .setUp t a _ _ trivial trivial, ?_⟩
  refine fun _ => ⟨.setting, .setUp t a _ _ trivial rfl, fun _ => ⟨.running, .firstRead t a, ?_⟩⟩
  refine conforms_prepare trivial (fun u hu => by simpa using hu.symm) fun _ => ?_
  -- the four packet handlers, each under the mutex, and the mutex of the disconnect handlers
  iterate 4
    refine conforms_prepare trivial trivial fun _ => conforms_prepare trivial rfl fun _ => ?_
    refine conforms_prepare trivial trivial fun _ => ?_
  refine conforms_prepare trivial trivial fun _ => fun _ => ⟨.idle, .install t a _, fun _ => ?_⟩
  exact ⟨.idle, .release t a _, fun _ => ⟨.idle, .release t a _, rfl⟩⟩

/-- A packet leaves the read loop and the other connections alone. -/
theorem issues_handlePacket (type : Int32) (data : Bytes) (now : ℕ) :
    Issues (fun c => KeepsLoop c ∧ Local t c) (handlePacket gen t type data now) := by
  simp only [handlePacket, scopedLock, Program.call_bind, Program.issue_bind]
  refine .issue ⟨trivial, trivial⟩ fun _ => .issue ⟨trivial, trivial⟩ fun handler => ?_
  refine .issue ⟨trivial, trivial⟩ fun _ => ?_
  cases handler with
  | none => trivial
  | some h =>
    simp only [Program.pure_eq_done, Program.done_bind]
    split
    · trivial
    · exact (issues_runHandler data now h).mono fun _ => keeps_of_request

theorem conforms_packet (type : Int32) (data : Bytes) (now : ℕ) :
    Conforms (Move (t, .reader) a) Ending .idle
      (eventBody gen (t, .reader) (.packet type data now)) := by
  refine fun _ => ⟨.handling, .completed t a, ?_⟩
  have hhandle : Conforms (Move (t, .reader) a) (fun _ y => y = .handling) .handling
      (handlePacket gen t type data now) := by
    refine Issues.conforms ?_ ?_ (issues_handlePacket type data now)
    · exact fun c r hc => .handle t a c r hc.1 hc.2
    · exact fun _ => rfl
  refine hhandle.bind (fun _ _ => trivial) fun _ y hy => ?_
  subst hy
  exact fun _ => ⟨.idle, .again t a, rfl⟩

/-- The disconnect handlers after the first one. -/
theorem issues_repeated (handlers : List Int32) :
    Issues (fun c => LogoutCommand t c ∨ RemoveCommand t c)
      (handlers.forM fun _ => handleDisconnect t) := by
  induction handlers with
  | nil => trivial
  | cons h rest ih => exact (issues_disconnect t).bind fun _ => ih

theorem conforms_disconnect : Conforms (Move (t, .reader) a) (fun o y => o = some () → y = .removed)
    .removing (handleDisconnect t) := by
  have hlogout : Conforms (Move (t, .reader) a) (fun _ y => y = .removing) .removing
      (logoutClient t) := by
    refine Issues.conforms ?_ ?_ ((issues_logoutClient t).mono fun _ => keeps_of_logout)
    · exact fun c r hc => .logOut t a c r hc.1 hc.2
    · exact fun _ => rfl
  refine hlogout.bind (fun _ _ h => by cases h) fun _ y hy => ?_
  subst hy
  refine fun _ => ⟨.removing, .logOut t a _ _ trivial rfl, fun _ => ?_⟩
  refine ⟨.removing, .logOut t a _ _ trivial trivial, fun _ => ⟨.deleted, .delete t a, fun _ => ?_⟩⟩
  exact ⟨.removed, .erase t a, fun _ => ⟨.removed, .repeated t a _ _ (.inr rfl), fun _ => rfl⟩⟩

theorem conforms_failure :
    Conforms (Move (t, .reader) a) Ending .idle (eventBody gen (t, .reader) .failure) := by
  simp only [eventBody, handleError, scopedLock, Program.call_bind, Program.issue_bind]
  refine fun _ => ⟨.failing, .failed t a, fun _ => ⟨.failing, .enter t a _, fun handlers => ?_⟩⟩
  cases handlers with
  | nil => exact ⟨.skipped, .missed t a, fun _ => ⟨.idle, .skip t a _, rfl⟩⟩
  | cons h rest =>
    refine ⟨.removing, .found t a h rest, ?_⟩
    have hrest : Conforms (Move (t, .reader) a) (fun o y => o = some () → y = .removed) .removed
        (rest.forM fun _ => handleDisconnect t) := by
      refine Issues.conforms ?_ ?_ (issues_repeated rest)
      · exact fun c r hc => .repeated t a c r hc
      · exact fun _ _ => rfl
    have hall : Conforms (Move (t, .reader) a) (fun o y => o = some () → y = .removed) .removing
        ((h :: rest).forM fun _ => handleDisconnect t) := by
      refine conforms_disconnect.bind (fun _ _ hn => by cases hn) fun _ y hy => ?_
      obtain rfl := hy rfl
      exact hrest
    refine hall.bind (fun _ _ => trivial) fun _ y hy => ?_
    obtain rfl := hy rfl
    exact fun _ => ⟨.idle, .leave t a _, rfl⟩

/-- Every thread follows the stages. -/
theorem eventBody_conforms (gen : Generated) (i : Token × Side) (a : ConnectionEvent) :
    Conforms (Move i a) Ending .idle (eventBody gen i a) := by
  obtain ⟨t, side⟩ := i
  cases side with
  | acceptor =>
    cases a with
    | accept now => exact conforms_acceptClient now
    | packet | garbage | failure => rfl
  | reader =>
    cases a with
    | accept now => rfl
    | packet type data now => exact conforms_packet type data now
    | garbage => exact fun _ => ⟨.handling, .completed t _, fun _ => ⟨.idle, .again t _, rfl⟩⟩
    | failure => exact conforms_failure

end Conformance

/-! ## What holds at each stage -/

/-- Where the acceptor and the reader of client `t` can be at the same time. -/
inductive Phase (w : World) (t : Token) : Stage → Stage → Prop where
  | absent : (w.sockets t).constructed = false → (w.sockets t).reads = 0 → Phase w t .idle .idle
  | setting : Loop (w.sockets t) false 0 → Phase w t .setting .idle
  | running : Loop (w.sockets t) false 1 → Phase w t .running .idle
  | early (y : Stage) : y = .handling ∨ y = .failing → Loop (w.sockets t) false 0 →
      Phase w t .running y
  | waiting : Loop (w.sockets t) true 1 → Phase w t .idle .idle
  | reading (y : Stage) : y = .handling ∨ y = .failing ∨ y = .removing →
      Loop (w.sockets t) true 0 → Phase w t .idle y
  | deleted : Loop (w.sockets t) true 0 → w.redis.existsKey (clientKey t) = false →
      Phase w t .idle .deleted
  | removed : Loop (w.sockets t) true 0 → Gone w t → Phase w t .idle .removed
  | closed : Loop (w.sockets t) true 0 → Gone w t → Phase w t .idle .idle

section Phases

variable {c : Command} {r : Reply c} {w w' : World} {t u : Token} {a : ConnectionEvent}
  {x x' y y' : Stage}

/-- A phase depends on the client's socket, its membership and its key only. -/
theorem Phase.congr (h : Phase w t x y) (hs : w'.sockets t = w.sockets t)
    (hm : t ∈ w'.connectedClients ↔ t ∈ w.connectedClients)
    (hk : w'.redis.existsKey (clientKey t) = w.redis.existsKey (clientKey t)) :
    Phase w' t x y := by
  have hg : Gone w' t ↔ Gone w t := by rw [Gone, Gone, hm, hk]
  cases h with
  | absent hc hr => exact .absent (hs ▸ hc) (hs ▸ hr)
  | setting hl => exact .setting (hs ▸ hl)
  | running hl => exact .running (hs ▸ hl)
  | early y hy hl => exact .early y hy (hs ▸ hl)
  | waiting hl => exact .waiting (hs ▸ hl)
  | reading y hy hl => exact .reading y hy (hs ▸ hl)
  | deleted hl hd => exact .deleted (hs ▸ hl) (hk ▸ hd)
  | removed hl hr => exact .removed (hs ▸ hl) (hg.mpr hr)
  | closed hl hr => exact .closed (hs ▸ hl) (hg.mpr hr)

theorem Phase.unlock {m : Mutex} (h : Phase w t x y) (he : exec (.unlock m) w = some ((), w')) :
    Phase w' t x y := by
  cases executed_of_exec he
  exact h.congr rfl Iff.rfl rfl

/-- The acceptor constructs a client once. -/
theorem Phase.acceptor (h : Phase w t x y) (hm : Move (t, .acceptor) a x c r x')
    (he : exec c w = some (r, w'))
    (hnew : c = .construct t → (w.sockets t).constructed = false) : Phase w' t x' y := by
  cases hm with
  | construct =>
    have hc := hnew rfl
    cases executed_of_exec he
    cases h with
    | absent => exact .setting (by simp [World.setSocket, Loop])
    | waiting hl => exact absurd hl.1 (by simp [hc])
    | reading y hy hl => exact absurd hl.1 (by simp [hc])
    | deleted hl => exact absurd hl.1 (by simp [hc])
    | removed hl => exact absurd hl.1 (by simp [hc])
    | closed hl => exact absurd hl.1 (by simp [hc])
  | setUp _ _ _ _ hk =>
    cases h with
    | setting hl => exact .setting (hl.keep he hk)
  | firstRead =>
    cases h with
    | setting hl => exact .running (hl.read he)
  | prepare _ _ _ _ hk =>
    cases h with
    | running hl => exact .running (hl.keep he hk)
    | early y hy hl => exact .early y hy (hl.keep he hk)
  | install _ _ type =>
    have hinst : ∀ n, Loop (w.sockets t) false n → Loop (w'.sockets t) true n := by
      intro n hl
      cases executed_of_exec he
      simp [World.setSocket, Loop, hl.1, hl.2.2]
    cases h with
    | running hl => exact .waiting (hinst 1 hl)
    | early y hy hl =>
      refine .reading y ?_ (hinst 0 hl)
      exact hy.imp_right .inl
  | release _ _ m => exact h.unlock he

/-- A read completes only in a loop that is waiting for one. -/
theorem Phase.complete (h : Phase w t x .idle) (he : exec (.completeRead t) w = some ((), w'))
    (hy : y = .handling ∨ y = .failing) : Phase w' t x y := by
  cases h with
  | absent hc hr => simp [exec, hr] at he
  | setting hl => exact absurd (hl.complete he).1 (by omega)
  | running hl => exact .early y hy (hl.complete he).2
  | early _ hi => simp at hi
  | waiting hl => exact .reading y (hy.imp_right .inl) (hl.complete he).2
  | reading _ hi => simp at hi
  | closed hl => exact absurd (hl.complete he).1 (by omega)

/-- The reader takes the client down, provided that its error finds a handler. -/
theorem Phase.reader (h : Phase w t x y) (hm : Move (t, .reader) a y c r y')
    (he : exec c w = some (r, w'))
    (hinst : c = .getErrorHandlers t → (w.sockets t).disconnectHandler ≠ []) :
    Phase w' t x y' := by
  cases hm with
  | completed => exact h.complete he (.inl rfl)
  | handle _ _ _ _ hk =>
    cases h with
    | early y hy hl => exact .early _ hy (hl.keep he hk)
    | reading y hy hl => exact .reading _ hy (hl.keep he hk)
  | again =>
    cases h with
    | early y hy hl => exact .running (hl.read he)
    | reading y hy hl => exact .waiting (hl.read he)
  | failed => exact h.complete he (.inr rfl)
  | enter =>
    cases h with
    | early y hy hl => exact .early _ hy (hl.keep he trivial)
    | reading y hy hl => exact .reading _ hy (hl.keep he trivial)
  | found _ _ e rest =>
    have hne := hinst rfl
    cases h with
    | early y hy hl => exact absurd (List.isEmpty_iff.mp hl.2.1) hne
    | reading y hy hl => exact .reading _ (.inr (.inr rfl)) (hl.keep he trivial)
  | missed =>
    have hne := hinst rfl
    simp only [exec, Option.some.injEq, Prod.mk.injEq] at he
    exact absurd he.1 hne
  | logOut _ _ _ _ hk =>
    cases h with
    | early y hy => simp at hy
    | reading y hy hl => exact .reading _ hy (hl.keep he hk)
  | delete =>
    cases h with
    | early y hy => simp at hy
    | reading y hy hl =>
      refine .deleted (hl.keep he trivial) ?_
      cases executed_of_exec he
      simp [Store.existsKey_del]
  | erase =>
    cases h with
    | early y hy => simp at hy
    | reading y hy => simp at hy
    | deleted hl hd =>
      refine .removed (hl.keep he trivial) ?_
      cases executed_of_exec he
      simp [Gone, hd]
  | repeated _ _ _ _ hc =>
    cases h with
    | early y hy => simp at hy
    | reading y hy => simp at hy
    | removed hl hg => exact .removed (hl.keep he (keeps_of_remove hc).1) (gone_of_remove hc he hg)
  | leave _ _ m =>
    cases h with
    | early y hy => simp at hy
    | reading y hy => simp at hy
    | removed hl hg =>
      have hr : Phase w' t .idle .removed := (Phase.removed hl hg).unlock he
      cases hr with
      | reading y hy => simp at hy
      | removed hl hg => exact .closed hl hg
  | skip =>
    cases h with
    | early y hy => simp at hy
    | reading y hy => simp at hy

/-- The threads of other clients. -/
theorem Phase.other (h : Phase w t x y) (hc : Local u c) (ht : t ≠ u)
    (he : exec c w = some (r, w')) : Phase w' t x y := by
  obtain ⟨hs, hm, hk⟩ := frame_of_local hc ht he
  exact h.congr hs hm hk

end Phases

/-! ## Every client is constructed once -/

def NotConstruct : Command → Prop
  | .construct _ => False
  | _ => True

/-- The acceptor of `t` is about to construct it, for the first time. -/
def Fresh (w : World) (t : Token) (q : Handler Unit) : Prop :=
  (w.sockets t).constructed = false ∧
  ∃ k, q = .issue (.construct t) k ∧ ∀ r, Issues NotConstruct (k r)

/-- What the rest of a thread's program constructs: nothing, or its own client. -/
def Constructs (w : World) (i : Token × Side) (q : Handler Unit) : Prop :=
  Issues NotConstruct q ∨ (i.2 = .acceptor ∧ Fresh w i.1 q)

def ConstructsOnce (p : ConnectionPool) : Prop :=
  ∀ i a q, p.threads i = some (a, q) → Constructs p.shared i q

section Construction

variable {gen : Generated} {p p' : ConnectionPool} {act : Action (Token × Side) ConnectionEvent}

theorem notConstruct_of_keeps {c : Command} (h : KeepsLoop c) : NotConstruct c := by
  cases c <;> trivial

theorem constructed_of_exec {c : Command} {r : Reply c} {w w' : World} {t : Token}
    (he : exec c w = some (r, w')) (hc : c ≠ .construct t) :
    (w'.sockets t).constructed = (w.sockets t).constructed := by
  cases executed_of_exec he with
  | construct v =>
    have hv : t ≠ v := fun hv => hc (by rw [hv])
    simp [World.setSocket, hv]
  | readAsync v | completeRead v | stop v | setLoginKey v _ | setPacketHandler v _ _
  | setErrorHandler v _ => by_cases hv : t = v <;> simp [World.setSocket, hv]
  | _ => rfl

theorem constructs_eventBody {w : World} (i : Token × Side) (a : ConnectionEvent)
    (hallows : eventAllows w i a = true) : Constructs w i (eventBody gen i a) := by
  obtain ⟨t, side⟩ := i
  cases side with
  | acceptor =>
    cases a with
    | accept now =>
      refine .inr ⟨rfl, by simpa [eventAllows] using hallows, _, rfl, fun _ => ?_⟩
      change Issues NotConstruct (addClient gen t now)
      simp [addClient, setPacketHandler, setErrorHandler, scopedLock, Issues, NotConstruct,
        Program.call]
    | packet | garbage | failure => exact .inl trivial
  | reader =>
    cases a with
    | accept now => exact .inl trivial
    | packet type data now =>
      have hhandle : Issues NotConstruct (handlePacket gen t type data now) :=
        (issues_handlePacket type data now).mono fun c hc => notConstruct_of_keeps hc.1
      exact .inl (.issue trivial fun _ => hhandle.bind fun _ => ⟨trivial, fun _ => trivial⟩)
    | garbage => exact .inl ⟨trivial, fun _ => ⟨trivial, fun _ => trivial⟩⟩
    | failure =>
      refine .inl (.issue trivial fun _ => .issue trivial fun _ => ?_)
      refine .issue trivial fun handlers => ?_
      refine Issues.bind ((issues_repeated handlers).mono fun c hc => ?_) fun _ =>
        ⟨trivial, fun _ => trivial⟩
      exact notConstruct_of_keeps (keeps_of_remove hc).1

theorem ConstructsOnce.step (h : ConstructsOnce p) (hs : (connections gen).step p act = some p') :
    ConstructsOnce p' := by
  apply System.assertion_step (M := connections gen) (P := Constructs) _ _ _ h hs
  · exact fun w i a => constructs_eventBody i a
  · intro w w' i c k r hi he
    rcases hi with hq | ⟨-, -, k', hk, hrest⟩
    · exact .inl (hq.2 r)
    · cases hk
      exact .inl (hrest r)
  · intro w w' i j c k r q hji hi he hj
    rcases hj with hq | ⟨hside, hfresh, hq⟩
    · exact .inl hq
    · refine .inr ⟨hside, ?_, hq⟩
      -- only the acceptor of a client constructs it, and that is `j`
      have hc : c ≠ .construct j.1 := by
        rintro rfl
        rcases hi with hn | ⟨hi2, -, k', hk, -⟩
        · exact hn.1
        · simp only [Program.issue.injEq, Command.construct.injEq] at hk
          exact hji (Prod.ext hk.1 (hside.trans hi2.symm))
      rw [constructed_of_exec he hc]
      exact hfresh

end Construction

/-! ## No client outlives its connection -/

/-- `AddClient` has returned. -/
def AddClientReturned (p : ConnectionPool) (t : Token) : Prop :=
  (p.shared.sockets t).constructed = true ∧ (p.threads (t, .acceptor)).isNone = true

/-- `HandleError` has run, the reader has returned and no read is outstanding. -/
def ReadLoopEnded (p : ConnectionPool) (t : Token) : Prop :=
  (∃ e ∈ p.trace, e.command = .getErrorHandlers t) ∧
  (p.threads (t, .reader)).isNone = true ∧ (p.shared.sockets t).reads = 0

/-- When `HandleError` looks for the disconnect handlers of a client, `AddClient`
has installed one. -/
def HandlerInstalled (p : ConnectionPool) : Action (Token × Side) ConnectionEvent → Prop
  | .advance (t, .reader) => p.next (t, .reader) = some (.getErrorHandlers t) →
      (p.shared.sockets t).disconnectHandler ≠ []
  | _ => True

instance (p : ConnectionPool) (t : Token) : Decidable (AddClientReturned p t) :=
  inferInstanceAs (Decidable (_ ∧ _))

instance (p : ConnectionPool) (t : Token) : Decidable (ReadLoopEnded p t) :=
  inferInstanceAs (Decidable (_ ∧ _ ∧ _))

instance (p : ConnectionPool) :
    (act : Action (Token × Side) ConnectionEvent) → Decidable (HandlerInstalled p act)
  | .start _ _ => isTrue trivial
  | .advance (_, .acceptor) => isTrue trivial
  | .advance (_, .reader) => inferInstanceAs (Decidable (_ → _))

section Safety

variable {gen : Generated} {p p' : ConnectionPool} {act : Action (Token × Side) ConnectionEvent}

/-- The stages of all threads, with what they say about each client. -/
def ConnectionInv (p : ConnectionPool) : Prop :=
  ConstructsOnce p ∧
  ∃ stage, Staged Move Ending .idle p stage ∧
    ∀ t, Phase p.shared t (stage (t, .acceptor)) (stage (t, .reader))

theorem connectionInv_idle (redis : Redis) : ConnectionInv (Pool.idle (World.initial redis)) := by
  refine ⟨fun i a q hi => ?_, fun _ => .idle, staged_idle _, fun t => .absent rfl rfl⟩
  cases hi

theorem local_of_move {u : Token} {side : Side} {a : ConnectionEvent} {x y : Stage} {c : Command}
    {r : Reply c} (h : Move (u, side) a x c r y) : Local u c := by
  cases h with
  | setUp _ _ _ _ _ hl => exact hl
  | prepare _ _ _ _ _ hl => exact hl
  | handle _ _ _ _ _ hl => exact hl
  | logOut _ _ _ _ _ hl => exact hl
  | delete => exact fun t ht => by simpa using ht.symm
  | repeated _ _ _ _ hc => exact (keeps_of_remove hc).2
  | _ => trivial

theorem ConnectionInv.step (h : ConnectionInv p) (hok : HandlerInstalled p act)
    (hs : (connections gen).step p act = some p') : ConnectionInv p' := by
  obtain ⟨hone, stage, hstaged, hphase⟩ := h
  refine ⟨hone.step hs, ?_⟩
  rcases hstaged.step (eventBody_conforms gen) (fun _ hy => hy) hs with ⟨hst, hsh, -⟩ |
    ⟨⟨u, side⟩, a, c, k, r, x, rfl, hi, he, hmove, -, hst⟩
  · exact ⟨stage, hst, fun t => hsh ▸ hphase t⟩
  · refine ⟨_, hst, fun t => ?_⟩
    by_cases ht : t = u
    · subst ht
      cases side with
      | acceptor =>
        have hnew : c = .construct t → (p.shared.sockets t).constructed = false := by
          rintro rfl
          rcases hone _ _ _ hi with hn | ⟨-, hfresh, -⟩
          · exact hn.1.elim
          · exact hfresh
        simpa using (hphase t).acceptor hmove he hnew
      | reader =>
        have hinst : c = .getErrorHandlers t → (p.shared.sockets t).disconnectHandler ≠ [] := by
          rintro rfl
          exact hok (by simp [Pool.next, hi, Program.next])
        simpa using (hphase t).reader hmove he hinst
    · have hother := (hphase t).other (local_of_move hmove) ht he
      simpa [Function.update_of_ne, ht] using hother

/-- In every interleaving in which no error of a client finds its disconnect
handler missing, a client whose `AddClient` has returned and whose read loop has
ended is gone. -/
theorem no_client_outlives_connection (gen : Generated) (redis : Redis)
    (acts : List (Action (Token × Side) ConnectionEvent)) (p : ConnectionPool)
    (hok : Along (connections gen).step HandlerInstalled (Pool.idle (World.initial redis)) acts)
    (hr : runs (connections gen).step (Pool.idle (World.initial redis)) acts = some p)
    (t : Token) (hadd : AddClientReturned p t) (hend : ReadLoopEnded p t) : Gone p.shared t := by
  have hinv : ConnectionInv p :=
    invariant_along (fun _ _ _ h hok hs => h.step hok hs) (connectionInv_idle redis) hok hr
  obtain ⟨-, stage, hstaged, hphase⟩ := hinv
  have ha : stage (t, .acceptor) = .idle :=
    hstaged.rest_of_idle (Option.isNone_iff_eq_none.mp hadd.2)
  have hread : stage (t, .reader) = .idle :=
    hstaged.rest_of_idle (Option.isNone_iff_eq_none.mp hend.2.1)
  have hp := hphase t
  rw [ha, hread] at hp
  cases hp with
  | absent hc => exact absurd hadd.1 (by simp [hc])
  | waiting hl => exact absurd (hl.2.2.symm.trans hend.2.2) (by omega)
  | reading _ hy => simp at hy
  | closed _ hg => exact hg

/-- A client sends garbage while it is being set up, and closes the connection
after `AddClient` has returned. -/
def closedAfterSetUp : List (Action (Token × Side) ConnectionEvent) := List.flatten
  [[.start (1, .acceptor) (.accept 0)], List.replicate 4 (.advance (1, .acceptor)),
    [.start (1, .reader) .garbage], List.replicate 3 (.advance (1, .reader)),
    List.replicate 18 (.advance (1, .acceptor)),
    [.start (1, .reader) .failure], List.replicate 12 (.advance (1, .reader))]

theorem no_client_outlives_connection_closed : ∃ p,
    runs (connections wireGenerated).step (Pool.idle (World.initial Store.empty))
      closedAfterSetUp = some p ∧ Gone p.shared 1 := by
  have hrun : (runs (connections wireGenerated).step (Pool.idle (World.initial Store.empty))
      closedAfterSetUp).map (fun p => decide (AddClientReturned p 1 ∧ ReadLoopEnded p 1)) =
        some true := by decide +kernel
  obtain ⟨p, hp, hend⟩ := Option.map_eq_some_iff.mp hrun
  obtain ⟨hadd, hloop⟩ := of_decide_eq_true hend
  have hok : Along (connections wireGenerated).step HandlerInstalled
      (Pool.idle (World.initial Store.empty)) closedAfterSetUp := by decide +kernel
  exact ⟨p, hp, no_client_outlives_connection _ _ _ p hok hp 1 hadd hloop⟩

/-- A client that closes the connection as soon as the first read is started. -/
def closedDuringSetUp : List (Action (Token × Side) ConnectionEvent) := List.flatten
  [[.start (1, .acceptor) (.accept 0)], List.replicate 4 (.advance (1, .acceptor)),
    [.start (1, .reader) .failure], List.replicate 5 (.advance (1, .reader)),
    List.replicate 18 (.advance (1, .acceptor))]

/-- Nobody removes a client whose read fails before the disconnect handler is
installed. -/
theorem early_failure_leaves_client :
    ¬ ∀ (gen : Generated) (redis : Redis) (acts : List (Action (Token × Side) ConnectionEvent))
      (p : ConnectionPool),
      runs (connections gen).step (Pool.idle (World.initial redis)) acts = some p →
      ∀ t, AddClientReturned p t → ReadLoopEnded p t → Gone p.shared t := by
  intro hall
  have hrun : (runs (connections wireGenerated).step (Pool.idle (World.initial Store.empty))
      closedDuringSetUp).map (fun p => decide (AddClientReturned p 1 ∧ ReadLoopEnded p 1 ∧
        1 ∈ p.shared.connectedClients)) = some true := by decide +kernel
  obtain ⟨p, hp, hend⟩ := Option.map_eq_some_iff.mp hrun
  obtain ⟨hadd, hloop, hmem⟩ := of_decide_eq_true hend
  exact (hall _ _ _ p hp 1 hadd hloop).1 hmem

end Safety

end IsolationServer.Connections
