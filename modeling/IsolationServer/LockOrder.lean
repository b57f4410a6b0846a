import IsolationServer.Connections
import IsolationServer.Mutexes
import Mathlib.Data.Finset.Sort

/-!
# The mutexes of set-up and tear-down

`AddClient` holds `_connMtx` while it takes the mutexes of the client, and
`HandleError` holds one of these while the disconnect handler takes `_connMtx`.
The two never wait for each other: a disconnect handler is called only after
`AddClient` has installed it, which is the last thing it takes a mutex for.
-/
namespace IsolationServer.LockOrder
open CommandPrograms Connections HashStore Mutexes Runs

/-! ## The tasks of the io threads -/

/-- The commands of the handlers, and those of `Stop` and `PrintStatus` on all
connected clients. -/
inductive ServerCommand where
  | handler (c : Command)
  | connectedClients
  | clearClients
  deriving DecidableEq

abbrev ServerReply : ServerCommand → Type
  | .handler c => Reply c
  | .connectedClients => List Token
  | .clearClients => Unit

/-- A `std::map` is traversed in the order of its keys. -/
def traverse (clients : Finset Token) : List Token :=
  ((clients.image UInt64.toNat).sort (· ≤ ·)).map UInt64.ofNat

def serverExec : (c : ServerCommand) → World → Option (ServerReply c × World)
  | .handler c, w => exec c w
  | .connectedClients, w => some (traverse w.connectedClients, w)
  | .clearClients, w => some ((), { w with connectedClients := ∅ })

abbrev ServerProgram := Program ServerCommand ServerReply

def lift {α : Type} (h : Handler α) : ServerProgram α := h.embed .handler fun _ r => r

abbrev request (c : ServerCommand) : ServerProgram (ServerReply c) := Program.call c

/-- `Server::Stop` -/
def serverStop : ServerProgram Unit := do
  request (.handler (.lock .conn))
  let clients : List Token ← request .connectedClients
  clients.forM fun client => request (.handler (.stop client))
  request .clearClients
  request (.handler (.unlock .conn))

/-- `Server::PrintStatus`, without what it prints. -/
def printStatus : ServerProgram Unit := do
  request (.handler (.lock .conn))
  let _clients : List Token ← request .connectedClients
  request (.handler (.unlock .conn))

/-- What an io thread can be busy with. Packets and errors come at any time. -/
inductive Task where
  | addClient (client : Token) (now : ℕ)
  | handlePacket (client : Token) (type : Int32) (data : Bytes) (now : ℕ)
  | handleError (client : Token)
  | stop
  | printStatus
  deriving DecidableEq

def Task.client : Task → Option Token
  | .addClient t _ => some t
  | .handlePacket t _ _ _ => some t
  | .handleError t => some t
  | .stop => none
  | .printStatus => none

def Task.body (gen : Generated) : Task → ServerProgram Unit
  | .addClient t now => lift (IsolationServer.addClient gen t now)
  | .handlePacket t type data now => lift (Connections.handlePacket gen t type data now)
  | .handleError t => lift (Connections.handleError t)
  | .stop => serverStop
  | .printStatus => LockOrder.printStatus

variable {ι : Type}

abbrev TaskPool (ι : Type) := Pool ι Task ServerCommand ServerReply World

/-- Any number of io threads, each of which can take up any task. -/
def ioThreads (ι : Type) (gen : Generated) : System ι Task ServerCommand ServerReply World where
  exec := serverExec
  body _ a := a.body gen
  allows _ _ _ := true

/-- `AddClient` is called with a socket that has just been constructed. -/
def construct (p : TaskPool ι) : Action ι Task → TaskPool ι
  | .start _ (.addClient t _) =>
    { p with shared := p.shared.setSocket t { constructed := true } }
  | _ => p

def step [DecidableEq ι] (gen : Generated) (p : TaskPool ι) (act : Action ι Task) :
    Option (TaskPool ι) :=
  (ioThreads ι gen).step (construct p act) act

/-- Each client is added once. A token is added again only for a new client, when
nobody works for the earlier one any more. -/
def AddsNewClient (p : TaskPool ι) : Action ι Task → Prop
  | .start _ (.addClient t _) => (p.shared.sockets t).constructed = true →
      ∀ i a, p.activity i = some a → a.client ≠ some t
  | _ => True

/-- The commands that take and leave the mutexes. -/
def locking : Locking ServerCommand Mutex where
  acquires
    | .handler (.lock m) => some m
    | _ => none
  releases
    | .handler (.unlock m) => some m
    | _ => none

/-! ## The stages of the tasks -/

/-- How far a task has come. `AddClient` is `hooking` when it is about to install
the disconnect handler, and `HandleError` is `closing` when it has found one. -/
inductive Stage where
  | idle
  | outside
  | inside
  | receiving (t : Token)
  | looking (t : Token)
  | ready (t : Token)
  | adding (t : Token)
  | installing (t : Token)
  | hooking (t : Token)
  | hooked (t : Token)
  | leaving (t : Token)
  | added (t : Token)
  | erring (t : Token)
  | failing (t : Token)
  | closing (t : Token)
  | removing (t : Token)

namespace Stage

def locks : Stage → List Mutex
  | inside => [.conn]
  | looking t => [.packetHandler t]
  | adding _ => [.conn]
  | installing t => [.conn, .packetHandler t]
  | hooking t => [.conn, .disconnectHandler t]
  | hooked t => [.conn, .disconnectHandler t]
  | leaving _ => [.conn]
  | failing t => [.disconnectHandler t]
  | closing t => [.disconnectHandler t]
  | removing t => [.conn, .disconnectHandler t]
  | _ => []

def client : Stage → Option Token
  | idle | outside | inside => none
  | receiving t | looking t => some t
  | ready t | adding t | installing t | hooking t | hooked t | leaving t | added t => some t
  | erring t | failing t | closing t | removing t => some t

/-- `AddClient` has not installed the disconnect handler yet. -/
def adds (t : Token) : Stage → Prop
  | ready u => u = t
  | adding u => u = t
  | installing u => u = t
  | hooking u => u = t
  | _ => False

/-- `HandleError` calls the disconnect handler. -/
def removes (t : Token) : Stage → Prop
  | closing u => u = t
  | removing u => u = t
  | _ => False

/-- The order in which tasks wait for each other. -/
def rank : Stage → ℕ
  | adding _ => 1
  | closing _ => 2
  | _ => 3

end Stage

/-- The stage in which a task is taken up. -/
def Task.start : Task → Stage
  | .addClient t _ => .ready t
  | .handlePacket t _ _ _ => .receiving t
  | .handleError t => .erring t
  | .stop => .outside
  | .printStatus => .outside

/-- Commands on neither the mutexes nor the disconnect handlers. -/
def Plain : Command → Prop
  | .construct _ => False
  | .setErrorHandler _ _ => False
  | .getErrorHandlers _ => False
  | .lock _ => False
  | .unlock _ => False
  | _ => True

inductive Move : Stage → (c : ServerCommand) → ServerReply c → Stage → Prop where
  | plain (x : Stage) (c : Command) (r : Reply c) : Plain c → Move x (.handler c) r x
  | visit (x : Stage) (clients : List Token) : Move x .connectedClients clients x
  | clear (x : Stage) : Move x .clearClients () x
  | enter : Move .outside (.handler (.lock .conn)) () .inside
  | exit : Move .inside (.handler (.unlock .conn)) () .outside
  | look (t : Token) : Move (.receiving t) (.handler (.lock (.packetHandler t))) () (.looking t)
  | looked (t : Token) :
      Move (.looking t) (.handler (.unlock (.packetHandler t))) () (.receiving t)
  | add (t : Token) : Move (.ready t) (.handler (.lock .conn)) () (.adding t)
  | install (t : Token) :
      Move (.adding t) (.handler (.lock (.packetHandler t))) () (.installing t)
  | installed (t : Token) :
      Move (.installing t) (.handler (.unlock (.packetHandler t))) () (.adding t)
  | hook (t : Token) : Move (.adding t) (.handler (.lock (.disconnectHandler t))) () (.hooking t)
  | set (t : Token) (type : Int32) :
      Move (.hooking t) (.handler (.setErrorHandler t type)) () (.hooked t)
  | hooked (t : Token) :
      Move (.hooked t) (.handler (.unlock (.disconnectHandler t))) () (.leaving t)
  | leave (t : Token) : Move (.leaving t) (.handler (.unlock .conn)) () (.added t)
  | fail (t : Token) : Move (.erring t) (.handler (.lock (.disconnectHandler t))) () (.failing t)
  | missed (t : Token) : Move (.failing t) (.handler (.getErrorHandlers t)) [] (.failing t)
  | found (t : Token) (type : Int32) (rest : List Int32) :
      Move (.failing t) (.handler (.getErrorHandlers t)) (type :: rest) (.closing t)
  | remove (t : Token) : Move (.closing t) (.handler (.lock .conn)) () (.removing t)
  | removed (t : Token) : Move (.removing t) (.handler (.unlock .conn)) () (.closing t)
  | failed (t : Token) :
      Move (.failing t) (.handler (.unlock (.disconnectHandler t))) () (.erring t)
  | closed (t : Token) :
      Move (.closing t) (.handler (.unlock (.disconnectHandler t))) () (.erring t)

/-- A task that returns holds no mutex. -/
def Ending : Option Unit → Stage → Prop
  | some _, y => y.locks = []
  | none, _ => True

section Conformance

variable {gen : Generated} {t : Token} {x : Stage}

/-- The moves of the commands of the handlers. -/
abbrev HandlerMove (x : Stage) (c : Command) (r : Reply c) (y : Stage) : Prop :=
  Move x (.handler c) r y

theorem conforms_lift {α : Type} {fin : Option α → Stage → Prop} {h : Handler α}
    (hh : Conforms HandlerMove fin x h) : Conforms Move fin x (lift h) := by
  refine Conforms.embed ?_ hh
  exact fun _ _ _ _ hm => hm

/-- Plain commands keep a task in its stage. -/
theorem conforms_plain {α : Type} {h : Handler α} (hh : Issues Plain h) :
    Conforms HandlerMove (fun _ y => y = x) x h := by
  refine Issues.conforms ?_ ?_ hh
  · exact fun c r hc => .plain x c r hc
  · exact fun _ => rfl

theorem plain_of_request {c : Command} (h : RequestCommand t c) : Plain c := by
  rcases h with h | h | h | h <;> cases c <;> first | exact h.elim | trivial

/-- `AddClient` takes the mutex of the disconnect handlers last. -/
theorem conforms_addClient (now : ℕ) :
    Conforms HandlerMove Ending (.ready t) (addClient gen t now) := by
  simp only [addClient, setPacketHandler, setErrorHandler, scopedLock, Program.call_bind,
    Program.issue_bind]
  refine fun _ => ⟨.adding t, .add t, ?_⟩
  iterate 3 refine fun _ => ⟨.adding t, .plain _ _ _ trivial, ?_⟩
  -- the four packet handlers
  iterate 4
    refine fun _ => ⟨.installing t, .install t, fun _ => ⟨.installing t, .plain _ _ _ trivial, ?_⟩⟩
    refine fun _ => ⟨.adding t, .installed t, ?_⟩
  refine fun _ => ⟨.hooking t, .hook t, fun _ => ⟨.hooked t, .set t _, fun _ => ?_⟩⟩
  exact ⟨.leaving t, .hooked t, fun _ => ⟨.added t, .leave t, rfl⟩⟩

theorem conforms_handlePacket (type : Int32) (data : Bytes) (now : ℕ) :
    Conforms HandlerMove Ending (.receiving t) (handlePacket gen t type data now) := by
  simp only [handlePacket, scopedLock, Program.call_bind, Program.issue_bind]
  refine fun _ => ⟨.looking t, .look t, fun handler => ⟨.looking t, .plain _ _ _ trivial, ?_⟩⟩
  refine fun _ => ⟨.receiving t, .looked t, ?_⟩
  cases handler with
  | none => rfl
  | some h =>
    simp only [Program.pure_eq_done, Program.done_bind]
    split
    · rfl
    · have hplain : Issues Plain (runHandler gen t data now h) :=
        (issues_runHandler data now h).mono fun _ => plain_of_request
      refine hplain.conforms (fun c r hc => .plain _ c r hc) fun a => ?_
      cases a <;> trivial

theorem conforms_disconnect :
    Conforms HandlerMove (fun _ y => y = .closing t) (.closing t) (handleDisconnect t) := by
  have hlogout : Issues Plain (logoutClient t) :=
    (issues_logoutClient t).mono fun _ h => plain_of_request (.logout h)
  refine (conforms_plain hlogout).bind (fun _ hy => hy) fun _ y hy => ?_
  subst hy
  simp only [removeClient, scopedLock, Program.call_bind, Program.issue_bind]
  refine fun _ => ⟨.closing t, .plain _ _ _ trivial, fun _ => ⟨.removing t, .remove t, fun _ => ?_⟩⟩
  refine ⟨.removing t, .plain _ _ _ trivial, fun _ => ⟨.removing t, .plain _ _ _ trivial, ?_⟩⟩
  exact fun _ => ⟨.closing t, .removed t, rfl⟩

/-- The disconnect handlers are called one after the other. -/
theorem conforms_disconnects (handlers : List Int32) :
    Conforms HandlerMove (fun _ y => y = .closing t) (.closing t)
      (handlers.forM fun _ => handleDisconnect t) := by
  induction handlers with
  | nil => rfl
  | cons type rest ih =>
    refine conforms_disconnect.bind (fun _ hy => hy) fun _ y hy => ?_
    subst hy
    exact ih

theorem conforms_handleError : Conforms HandlerMove Ending (.erring t) (handleError t) := by
  simp only [handleError, scopedLock, Program.call_bind, Program.issue_bind]
  refine fun _ => ⟨.failing t, .fail t, fun handlers => ?_⟩
  cases handlers with
  | nil => exact ⟨.failing t, .missed t, fun _ => ⟨.erring t, .failed t, rfl⟩⟩
  | cons type rest =>
    refine ⟨.closing t, .found t type rest, ?_⟩
    refine (conforms_disconnects (type :: rest)).bind (fun _ _ => trivial) fun _ y hy => ?_
    subst hy
    exact fun _ => ⟨.erring t, .closed t, rfl⟩

theorem conforms_stop : Conforms Move Ending .outside serverStop := by
  have hstops : ∀ clients : List Token, Conforms Move (fun _ y => y = .inside) .inside
      (clients.forM fun client => request (.handler (.stop client))) := by
    intro clients
    induction clients with
    | nil => rfl
    | cons client rest ih => exact fun _ => ⟨.inside, .plain _ _ _ trivial, ih⟩
  refine fun _ => ⟨.inside, .enter, fun clients => ⟨.inside, .visit _ clients, ?_⟩⟩
  refine (hstops clients).bind (fun _ _ => trivial) fun _ y hy => ?_
  subst hy
  exact fun _ => ⟨.inside, .clear _, fun _ => ⟨.outside, .exit, rfl⟩⟩

theorem conforms_printStatus : Conforms Move Ending .outside printStatus :=
  fun _ => ⟨.inside, .enter, fun clients =>
    ⟨.inside, .visit _ clients, fun _ => ⟨.outside, .exit, rfl⟩⟩⟩

/-- Every task follows the stages. -/
theorem conforms_body (a : Task) : Conforms Move Ending a.start (a.body gen) := by
  cases a with
  | addClient t now => exact conforms_lift (conforms_addClient now)
  | handlePacket t type data now => exact conforms_lift (conforms_handlePacket type data now)
  | handleError t => exact conforms_lift conforms_handleError
  | stop => exact conforms_stop
  | printStatus => exact conforms_printStatus

end Conformance

/-! ## What the stages say about the world -/

section Spec

variable {c : ServerCommand} {r : ServerReply c} {x y : Stage} {w w' : World} {t : Token}

theorem locks_of_move (h : Move x c r y) (m : Mutex) : m ∈ y.locks ↔
    locking.acquires c = some m ∨ (m ∈ x.locks ∧ locking.releases c ≠ some m) := by
  cases h with
  | plain _ c r hc => cases c <;> first | exact hc.elim | simp [locking]
  | _ => simp [locking, Stage.locks] <;> grind

theorem released_of_move (h : Move x c r y) (m : Mutex) (hm : locking.releases c = some m) :
    m ∈ x.locks := by
  cases h with
  | plain _ c r hc => cases c <;> first | exact hc.elim | cases hm
  | _ => cases hm <;> simp [Stage.locks]

/-- A task works for one client. -/
theorem client_of_move (h : Move x c r y) : y.client = x.client := by
  cases h <;> rfl

theorem adds_of_move (h : Move x c r y) (hy : y.adds t) : x.adds t := by
  cases h <;> first | exact hy | exact hy.elim

theorem free_of_exec (he : serverExec c w = some (r, w')) {m : Mutex}
    (hm : locking.acquires c = some m) : w.held m = false := by
  cases c with
  | handler c =>
    cases c with
    | lock l =>
      obtain rfl : l = m := Option.some.inj hm
      by_contra hheld
      simp [serverExec, exec, hheld] at he
    | _ => cases hm
  | _ => cases hm

/-- What a command does to the mutexes. -/
theorem held_of_exec (he : serverExec c w = some (r, w')) (m : Mutex) : w'.held m =
    if locking.acquires c = some m then true
    else if locking.releases c = some m then false else w.held m := by
  cases c with
  | handler c =>
    have he' : exec c w = some (r, w') := he
    cases executed_of_exec he' with
    | lock l | unlock l =>
      by_cases hl : l = m <;> simp [locking, Function.update_apply, hl, eq_comm]
    | _ => simp [locking]
  | _ =>
    obtain ⟨-, rfl⟩ := Prod.mk.inj (Option.some.inj he)
    simp [locking]

/-- Only the last step of `AddClient` changes the disconnect handlers. -/
theorem handlers_of_move (h : Move x c r y) (he : serverExec c w = some (r, w')) :
    (∀ u, (w'.sockets u).disconnectHandler = (w.sockets u).disconnectHandler) ∨
    ∃ t, x = .hooking t ∧ y = .hooked t ∧ (w'.sockets t).disconnectHandler ≠ [] ∧
      ∀ u, u ≠ t → (w'.sockets u).disconnectHandler = (w.sockets u).disconnectHandler := by
  cases h with
  | plain _ c r hc =>
    refine .inl fun u => ?_
    have he' : exec c w = some (r, w') := he
    cases executed_of_exec he' with
    | construct | setErrorHandler | getErrorHandlers | lock | unlock => exact hc.elim
    | readAsync v | completeRead v | stop v | setLoginKey v _ | setPacketHandler v _ _ =>
      by_cases hu : u = v <;> simp [World.setSocket, hu]
    | _ => rfl
  | set t type =>
    obtain ⟨-, rfl⟩ := Prod.mk.inj (Option.some.inj he)
    refine .inr ⟨t, rfl, rfl, ?_, fun u hu => ?_⟩ <;> simp [World.setSocket, *]
  | enter | look | add | install | hook | fail | remove =>
    simp only [serverExec, exec] at he
    split at he
    · cases he
    · obtain ⟨-, rfl⟩ := Prod.mk.inj (Option.some.inj he)
      exact .inl fun _ => rfl
  | _ =>
    obtain ⟨-, rfl⟩ := Prod.mk.inj (Option.some.inj he)
    exact .inl fun _ => rfl

theorem constructed_of_move (h : Move x c r y) (he : serverExec c w = some (r, w')) (t : Token) :
    (w'.sockets t).constructed = (w.sockets t).constructed := by
  cases c with
  | handler c =>
    refine constructed_of_exec he ?_
    rintro rfl
    cases h with
    | plain _ _ _ hc => exact hc
  | _ =>
    obtain ⟨-, rfl⟩ := Prod.mk.inj (Option.some.inj he)
    rfl

/-- `HandleError` calls only the handlers that it has found. -/
theorem removes_of_move (h : Move x c r y) (he : serverExec c w = some (r, w'))
    (hy : y.removes t) : x.removes t ∨ (w.sockets t).disconnectHandler ≠ [] := by
  cases h with
  | found u type rest =>
    obtain rfl : u = t := hy
    have hfound := (Prod.mk.inj (Option.some.inj he)).1
    refine .inr fun hnil => ?_
    rw [hnil] at hfound
    cases hfound
  | _ => first | exact .inl hy | exact hy.elim

end Spec

/-! ## The invariant -/

/-- What the stage of a thread says: for which client it works, and what is known of
the disconnect handlers of this client. -/
structure Means (w : World) (a : Option Task) (x : Stage) : Prop where
  client : ∀ t, x.client = some t → ∃ b, a = some b ∧ b.client = some t
  before : ∀ t, x.adds t →
    (w.sockets t).constructed = true ∧ (w.sockets t).disconnectHandler = []
  after : ∀ t, x.removes t → (w.sockets t).disconnectHandler ≠ []

/-- Each client is added by one thread. -/
def AddedOnce (stage : ι → Stage) : Prop :=
  ∀ i j t, (stage i).adds t → (stage j).adds t → i = j

structure Ordered (p : TaskPool ι) (stage : ι → Stage) : Prop where
  staged : Staged (fun _ _ => Move) Ending .idle p stage
  owned : locking.Owned Stage.locks p.trace stage
  held : ∀ m, p.shared.held m = (locking.owner m p.trace).isSome
  once : AddedOnce stage
  fresh : ∀ t, (p.shared.sockets t).constructed = false →
    (p.shared.sockets t).disconnectHandler = []
  means : ∀ i, Means p.shared (p.activity i) (stage i)

theorem client_start (a : Task) : a.start.client = a.client := by
  cases a <;> rfl

theorem client_of_adds {x : Stage} {t : Token} (h : x.adds t) : x.client = some t := by
  cases x <;> first | exact h.elim | exact congrArg some h

theorem client_of_removes {x : Stage} {t : Token} (h : x.removes t) : x.client = some t := by
  cases x <;> first | exact h.elim | exact congrArg some h

theorem adds_start {a : Task} {t : Token} (h : a.start.adds t) : ∃ now, a = .addClient t now := by
  cases a with
  | addClient u now =>
    obtain rfl : u = t := h
    exact ⟨now, rfl⟩
  | _ => exact h.elim

theorem means_idle (w : World) (a : Option Task) : Means w a .idle where
  client _ h := by cases h
  before _ h := False.elim h
  after _ h := False.elim h

/-- The client is there as before, with the same disconnect handlers. -/
theorem Means.keep {w w' : World} {a : Option Task} {x : Stage} (h : Means w a x)
    (hc : ∀ t, (w.sockets t).constructed = true → (w'.sockets t).constructed = true)
    (hw : ∀ t, x.client = some t →
      (w'.sockets t).disconnectHandler = (w.sockets t).disconnectHandler) : Means w' a x where
  client := h.client
  before t ht := by
    obtain ⟨hconstructed, hnone⟩ := h.before t ht
    exact ⟨hc t hconstructed, (hw t (client_of_adds ht)).trans hnone⟩
  after t ht := fun hnil => h.after t ht ((hw t (client_of_removes ht)).symm.trans hnil)

/-- A command of the thread itself. -/
theorem Means.move {w w' : World} {a : Option Task} {c : ServerCommand} {r : ServerReply c}
    {x y : Stage} (h : Means w a x) (hm : Move x c r y) (he : serverExec c w = some (r, w')) :
    Means w' a y := by
  refine ⟨fun t ht => h.client t (client_of_move hm ▸ ht), fun t ht => ?_, fun t ht => ?_⟩
  · rw [constructed_of_move hm he]
    rcases handlers_of_move hm he with hsame | ⟨u, -, rfl, -⟩
    · rw [hsame]
      exact h.before t (adds_of_move hm ht)
    · exact ht.elim
  · rcases handlers_of_move hm he with hsame | ⟨u, -, rfl, -⟩
    · rw [hsame]
      rcases removes_of_move hm he ht with hx | hfound
      · exact h.after t hx
      · exact hfound
    · exact ht.elim

/-- A command of another thread, which does not add the same client. -/
theorem Means.other {w w' : World} {a : Option Task} {c : ServerCommand} {r : ServerReply c}
    {x y z : Stage} (h : Means w a z) (hm : Move x c r y) (he : serverExec c w = some (r, w'))
    (honce : ∀ t, z.adds t → ¬x.adds t) : Means w' a z := by
  have hconstructed := constructed_of_move hm he
  rcases handlers_of_move hm he with hsame | ⟨u, rfl, rfl, hset, hsame⟩
  · exact h.keep (fun t ht => (hconstructed t).trans ht) fun t _ => hsame t
  · refine ⟨h.client, fun t ht => ?_, fun t ht => ?_⟩
    · have htu : t ≠ u := by
        rintro rfl
        exact honce t ht rfl
      rw [hconstructed, hsame t htu]
      exact h.before t ht
    · by_cases htu : t = u
      · rwa [htu]
      · rw [hsame t htu]
        exact h.after t ht

theorem ordered_initial (redis : Redis) :
    Ordered (Pool.idle (World.initial redis) : TaskPool ι) fun _ => .idle where
  staged := staged_idle _
  owned := Locking.owned_nil fun _ => rfl
  held _ := rfl
  once _ _ _ h := h.elim
  fresh _ _ := rfl
  means _ := means_idle _ _

section Steps

variable {gen : Generated} {p p' : TaskPool ι} {stage : ι → Stage} {act : Action ι Task}

/-- No thread works for an earlier client with the token of the one that is added. -/
theorem Ordered.other_client (h : Ordered p stage) {i : ι} {t : Token} {now : ℕ}
    (hok : AddsNewClient p (.start i (.addClient t now)))
    (hc : (p.shared.sockets t).constructed = true) (j : ι) : (stage j).client ≠ some t := by
  intro hj
  obtain ⟨a, ha, hat⟩ := (h.means j).client t hj
  exact hok hc j a ha hat

theorem Ordered.construct (h : Ordered p stage) (hok : AddsNewClient p act) :
    Ordered (construct p act) stage := by
  unfold LockOrder.construct
  split
  · rename_i i t now
    refine ⟨h.staged, h.owned, h.held, h.once, fun u hu => ?_, fun j => ?_⟩
    · by_cases hut : u = t
      · simp [World.setSocket, hut] at hu
      · simp only [World.setSocket, Function.update_of_ne hut] at hu ⊢
        exact h.fresh u hu
    · refine (h.means j).keep (fun u hu => ?_) fun u hu => ?_
      · by_cases hut : u = t <;> simp [World.setSocket, hut, hu]
      · by_cases hut : u = t
        · subst hut
          -- nobody has found a disconnect handler of a client that was not added before
          have hnot : (p.shared.sockets u).constructed = false := by
            simpa using fun hc => h.other_client hok hc j hu
          simp [World.setSocket, h.fresh u hnot]
        · simp [World.setSocket, hut]
  · exact h

variable [DecidableEq ι]

theorem AddedOnce.update (h : AddedOnce stage) {i : ι} {y : Stage}
    (hy : ∀ t, y.adds t → ∀ j, j ≠ i → ¬(stage j).adds t) :
    AddedOnce (Function.update stage i y) :=
  exclusive_update (fun (x : Stage) t => x.adds t) h hy

/-- A thread takes up a task, or returns from one. -/
theorem Ordered.turn (h : Ordered p stage) {i : ι} {a : Option Task} {y : Stage}
    (hx : (stage i).locks = []) (hy : y.locks = [])
    (hw : p'.shared = p.shared) (ht : p'.trace = p.trace)
    (ha : p'.activity = Function.update p.activity i a)
    (hs : Staged (fun _ _ => Move) Ending .idle p' (Function.update stage i y))
    (honce : ∀ t, y.adds t → ∀ j, j ≠ i → ¬(stage j).adds t) (hmeans : Means p.shared a y) :
    Ordered p' (Function.update stage i y) where
  staged := hs
  owned := ht ▸ h.owned.move hx hy
  held m := by rw [hw, ht, h.held]
  once := h.once.update honce
  fresh := hw ▸ h.fresh
  means := by
    rw [hw, ha]
    refine (Function.forall_update_iff stage fun j x =>
      Means p.shared (Function.update p.activity i a j) x).mpr ⟨?_, fun j hj => ?_⟩
    · rwa [Function.update_self]
    · rw [Function.update_of_ne hj]
      exact h.means j

/-- A thread issues a command of its task. -/
theorem Ordered.command (h : Ordered p stage) {i : ι} {a : Task} {c : ServerCommand}
    {r : ServerReply c} {y : Stage} (he : serverExec c p.shared = some (r, p'.shared))
    (hm : Move (stage i) c r y) (ht : p'.trace = p.trace ++ [⟨i, a, c⟩])
    (ha : p'.activity = p.activity)
    (hs : Staged (fun _ _ => Move) Ending .idle p' (Function.update stage i y)) :
    Ordered p' (Function.update stage i y) where
  staged := hs
  owned := by
    rw [ht]
    refine h.owned.command (fun m hacq => ?_) (released_of_move hm) (locks_of_move hm)
    have hfree := free_of_exec he hacq
    rw [h.held m] at hfree
    simpa using hfree
  held m := by
    rw [held_of_exec he, ht, Locking.owner_concat]
    split_ifs
    · rfl
    · rfl
    · exact h.held m
  once := h.once.update fun t hy j hj hadds => hj (h.once j i t hadds (adds_of_move hm hy))
  fresh t ht := by
    rw [constructed_of_move hm he] at ht
    rcases handlers_of_move hm he with hsame | ⟨u, hu, -, -, hsame⟩
    · exact (hsame t).trans (h.fresh t ht)
    · have htu : t ≠ u := by
        rintro rfl
        obtain ⟨hc, -⟩ := (h.means i).before t (by rw [hu]; rfl)
        rw [hc] at ht
        cases ht
      exact (hsame t htu).trans (h.fresh t ht)
  means := by
    rw [ha]
    exact (Function.forall_update_iff stage fun j x => Means p'.shared (p.activity j) x).mpr
      ⟨(h.means i).move hm he, fun j hj => (h.means j).other hm he fun t hadds hadds' =>
        hj (h.once j i t hadds hadds')⟩

theorem Ordered.step (h : Ordered p stage) (hok : AddsNewClient p act)
    (hs : step gen p act = some p') : ∃ stage', Ordered p' stage' := by
  have hc := h.construct hok
  rcases hc.staged.step_from (fun _ a => a.start) (fun _ a _ => conforms_body a) hs with
    ⟨i, a, rfl, hi, -, hw, ht, ha, hst⟩ | ⟨i, -, hfin, hw, ht, ha, hst⟩ |
    ⟨i, a, c, k, r, y, -, -, he, hm, ht, ha, hst⟩
  · have hidle : stage i = .idle := hc.staged.rest_of_idle hi
    have hnew : ∀ t now, a = .addClient t now →
        ((LockOrder.construct p (.start i a)).shared.sockets t).constructed = true ∧
        ((LockOrder.construct p (.start i a)).shared.sockets t).disconnectHandler = [] := by
      rintro t now rfl
      simp [LockOrder.construct, World.setSocket]
    refine ⟨_, hc.turn (by rw [hidle]; rfl) (by cases a <;> rfl) hw ht ha hst ?_ ?_⟩
    · intro t hadds j _ hj
      obtain ⟨now, rfl⟩ := adds_start hadds
      exact h.other_client hok ((h.means j).before t hj).1 j (client_of_adds hj)
    · refine ⟨fun t hclient => ⟨a, rfl, client_start a ▸ hclient⟩, fun t hadds => ?_,
        fun t hrem => ?_⟩
      · obtain ⟨now, rfl⟩ := adds_start hadds
        exact hnew t now rfl
      · cases a <;> exact hrem.elim
  · exact ⟨_, hc.turn hfin rfl hw ht ha hst (fun t h => h.elim) (means_idle _ _)⟩
  · exact ⟨_, hc.command he hm ht ha hst⟩

/-! ## Waiting -/

omit [DecidableEq ι] in
/-- The stage of a thread that is about to take a mutex. -/
theorem Ordered.takes (h : Ordered p stage) {i : ι} {c : ServerCommand} {m : Mutex}
    (hn : p.next i = some c) (hacq : locking.acquires c = some m) :
    ∃ y, Move (stage i) (.handler (.lock m)) () y := by
  obtain ⟨⟨a, q⟩, hq, hc⟩ := Option.bind_eq_some_iff.mp hn
  cases q with
  | issue c' k =>
    obtain rfl : c' = c := Option.some.inj hc
    cases c' with
    | handler c =>
      cases c with
      | lock l =>
        obtain rfl : l = m := Option.some.inj hacq
        obtain ⟨y, hm, -⟩ := h.staged.conforms hq ()
        exact ⟨y, hm⟩
      | _ => cases hacq
    | _ => cases hacq
  | _ => cases hc

/-- A thread that holds a mutex and takes another one is `AddClient` before it has
installed the disconnect handler, or `HandleError` with the handler it has found. -/
theorem waits_while_holding {x y : Stage} {l m : Mutex} (hm : Move x (.handler (.lock m)) () y)
    (hl : l ∈ x.locks) : (∃ t, x = .adding t ∧ l = .conn) ∨
      ∃ t, x = .closing t ∧ l = .disconnectHandler t ∧ m = .conn := by
  cases hm with
  | plain _ _ _ hc => exact hc.elim
  | install t => exact .inl ⟨t, rfl, by simpa [Stage.locks] using hl⟩
  | hook t => exact .inl ⟨t, rfl, by simpa [Stage.locks] using hl⟩
  | remove t => exact .inr ⟨t, rfl, by simpa [Stage.locks] using hl, rfl⟩
  | _ => simp [Stage.locks] at hl

omit [DecidableEq ι] in
theorem Ordered.rank_lt (h : Ordered p stage) {i j k : ι} (hij : locking.WaitsFor p i j)
    (hjk : locking.WaitsFor p j k) : (stage j).rank < (stage i).rank := by
  obtain ⟨c, l, hn, hacq, howner⟩ := hij
  obtain ⟨c', m, hn', hacq', -⟩ := hjk
  obtain ⟨y, hi⟩ := h.takes hn hacq
  obtain ⟨y', hj⟩ := h.takes hn' hacq'
  have hl : l ∈ (stage j).locks := (h.owned l j).mp howner
  rcases waits_while_holding hj hl with ⟨t, hst, rfl⟩ | ⟨t, hst, rfl, -⟩
  · -- the owner of `_connMtx` adds a client
    rw [hst]
    generalize stage i = x at hi
    cases hi with
    | plain _ _ _ hc => exact hc.elim
    | _ => simp [Stage.rank]
  · -- the owner of a `_disconnectHandlerMtx` calls the handler
    have hafter := (h.means j).after t (by rw [hst]; rfl)
    rw [hst]
    have hbefore := (h.means i).before t
    generalize stage i = x at hi hbefore
    cases hi with
    | plain _ _ _ hc => exact hc.elim
    | hook => exact absurd (hbefore rfl).2 hafter
    | fail => simp [Stage.rank]

end Steps

/-- There is no deadlock, whatever the io threads are doing: every set of threads has
one that waits for none of them. -/
theorem no_deadlock {ι : Type} [DecidableEq ι] (gen : Generated) (redis : Redis)
    (acts : List (Action ι Task)) (p : TaskPool ι)
    (hok : Along (step gen) AddsNewClient (Pool.idle (World.initial redis)) acts)
    (hr : runs (step gen) (Pool.idle (World.initial redis)) acts = some p) :
    ¬locking.Deadlocked p := by
  have hinv : ∃ stage, Ordered p stage := by
    refine invariant_along (I := fun p : TaskPool ι => ∃ stage, Ordered p stage) ?_
      ⟨_, ordered_initial redis⟩ hok hr
    rintro q act q' ⟨stage, hq⟩ hact hs
    exact hq.step hact hs
  obtain ⟨stage, hp⟩ := hinv
  exact locking.not_deadlocked_of_rank (fun i => (stage i).rank) fun i j k => hp.rank_lt

/-- Thread 0 adds a client up to the disconnect handler. -/
def addUpToHook : List (Action ℕ Task) :=
  .start 0 (.addClient 1 0) :: List.replicate 16 (.advance 0)

/-- Thread 1 takes the mutex of the disconnect handlers and finds none. -/
def errorBeforeHook : List (Action ℕ Task) :=
  [.start 1 (.handleError 1), .advance 1, .advance 1]

theorem no_deadlock_while_adding : ∃ p : TaskPool ℕ,
    runs (step wireGenerated) (Pool.idle (World.initial Store.empty))
      (addUpToHook ++ errorBeforeHook) = some p ∧
    locking.WaitsFor p 0 1 ∧ ¬locking.Deadlocked p := by
  have hrun : (runs (step wireGenerated) (Pool.idle (World.initial Store.empty))
      (addUpToHook ++ errorBeforeHook)).map
        (fun p => (p.next 0, locking.owner (.disconnectHandler 1) p.trace)) =
      some (some (.handler (.lock (.disconnectHandler 1))), some 1) := by
    decide +kernel
  obtain ⟨p, hp, hpair⟩ := Option.map_eq_some_iff.mp hrun
  obtain ⟨hnext, howner⟩ := Prod.mk.inj hpair
  have hok : Along (step wireGenerated) AddsNewClient (Pool.idle (World.initial Store.empty))
      (addUpToHook ++ errorBeforeHook) := by
    refine ⟨fun hc => (by cases hc), fun p' _ => ?_⟩
    refine Along.of_invariant (I := fun _ => True) (P := fun act => ∀ i t now,
      act ≠ .start i (.addClient t now)) (fun _ _ _ _ _ _ => trivial) ?_ _ p' trivial ?_
    · intro p act _ hact
      unfold AddsNewClient
      split
      · exact absurd rfl (hact _ _ _)
      · trivial
    · simp [errorBeforeHook]
  exact ⟨p, hp, ⟨_, _, hnext, rfl, howner⟩,
    no_deadlock wireGenerated Store.empty _ p hok hp⟩

end IsolationServer.LockOrder
