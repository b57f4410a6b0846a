import IsolationServer.Completion
import IsolationServer.EventLoop

/-!
# From callbacks to one thread for each client

The completion handlers of a connection run on any thread, look their packet handler up
under a mutex and start the next read when they are done. Once `AddClient` has returned,
they do to the store, to the clients and to the responses what one thread for each client
does that runs the handlers of its packets one after another.
-/
namespace IsolationServer.Callbacks
open CommandPrograms Completion Connections Conversations EventLoop HashStore Runs Serialisability

/-! ## What the handlers see -/

/-- Two worlds that differ in the outstanding reads and in the mutexes of the sockets. -/
structure Same (w v : World) : Prop where
  redis : w.redis = v.redis
  connectedClients : w.connectedClients = v.connectedClients
  posted : w.posted = v.posted
  conn : w.held .conn = v.held .conn
  sockets : ∀ t, w.sockets t = { v.sockets t with reads := (w.sockets t).reads }

/-- Commands of the callbacks themselves. -/
def Quiet : Command → Prop
  | .completeRead _ => True
  | .readAsync _ => True
  | .getPacketHandler _ _ => True
  | .getErrorHandlers _ => True
  | .lock m => m ≠ .conn
  | .unlock m => m ≠ .conn
  | _ => False

/-- Commands of the handlers. -/
def Handled : Command → Prop
  | .completeRead _ => False
  | .getPacketHandler _ _ => False
  | .getErrorHandlers _ => False
  | _ => True

section Same

variable {c : Command} {r : Reply c} {w w' v : World}

/-- A socket that is written in the same way in both worlds. -/
theorem Same.setSocket (h : Same w v) (u : Token) {s s' : Socket}
    (hs : s = { s' with reads := s.reads }) : Same (w.setSocket u s) (v.setSocket u s') := by
  refine ⟨h.redis, h.connectedClients, h.posted, h.conn, fun t => ?_⟩
  by_cases ht : t = u
  · subst ht
    simpa [World.setSocket] using hs
  · simpa [World.setSocket, ht] using h.sockets t

theorem Same.setReads (h : Same w v) (u : Token) (n : ℕ) :
    Same (w.setSocket u { w.sockets u with reads := n }) v := by
  have hv : v.setSocket u (v.sockets u) = v := by simp [World.setSocket]
  rw [← hv]
  apply h.setSocket
  rw [h.sockets u]

theorem Same.quiet (h : Same w v) (hc : Quiet c) (he : exec c w = some (r, w')) : Same w' v := by
  cases executed_of_exec he with
  | completeRead u => exact h.setReads u _
  | readAsync u => exact h.setReads u _
  | getPacketHandler u type => exact h
  | getErrorHandlers u => exact h
  | lock m =>
    have hm : Mutex.conn ≠ m := Ne.symm hc
    exact ⟨h.redis, h.connectedClients, h.posted, by simp [hm, h.conn], h.sockets⟩
  | unlock m =>
    have hm : Mutex.conn ≠ m := Ne.symm hc
    exact ⟨h.redis, h.connectedClients, h.posted, by simp [hm, h.conn], h.sockets⟩
  | _ => exact hc.elim

/-- A handler gets the same replies in both worlds, and changes both in the same way. -/
theorem Same.handled (h : Same w v) (hc : Handled c) (he : exec c w = some (r, w'))
    (hfree : ∀ m, c = .lock m → m ≠ .conn → v.held m = false) :
    ∃ v', exec c v = some (r, v') ∧ Same w' v' := by
  have hsame := h
  obtain ⟨hredis, hclients, hposted, hconn, hsockets⟩ := hsame
  cases executed_of_exec he with
  | existsKey key => exact ⟨v, by simp [exec, hredis], h⟩
  | hashGet key f => exact ⟨v, by simp [exec, hredis], h⟩
  | hashSet key f x =>
    exact ⟨_, rfl, by dsimp only; rw [hredis], hclients, hposted, hconn, hsockets⟩
  | del key => exact ⟨_, rfl, by dsimp only; rw [hredis], hclients, hposted, hconn, hsockets⟩
  | hashDel key f => exact ⟨_, rfl, by dsimp only; rw [hredis], hclients, hposted, hconn, hsockets⟩
  | persist key => exact ⟨v, rfl, h⟩
  | construct u => exact ⟨_, rfl, h.setSocket u rfl⟩
  | readAsync u => exact ⟨_, rfl, h.setSocket u (by rw [hsockets u])⟩
  | stop u => exact ⟨_, rfl, h.setSocket u (by rw [hsockets u])⟩
  | setLoginKey u key => exact ⟨_, rfl, h.setSocket u (by rw [hsockets u])⟩
  | setPacketHandler u type handler => exact ⟨_, rfl, h.setSocket u (by rw [hsockets u])⟩
  | setErrorHandler u type => exact ⟨_, rfl, h.setSocket u (by rw [hsockets u])⟩
  | postWrite u response =>
    exact ⟨_, rfl, hredis, hclients, by dsimp only; rw [hposted], hconn, hsockets⟩
  | insertClient u => exact ⟨_, rfl, hredis, by dsimp only; rw [hclients], hposted, hconn, hsockets⟩
  | eraseClient u => exact ⟨_, rfl, hredis, by dsimp only; rw [hclients], hposted, hconn, hsockets⟩
  | lock m hm =>
    have hfree' : v.held m = false := by
      by_cases hmc : m = .conn
      · rw [hmc, ← hconn, ← hmc]
        exact hm
      · exact hfree m rfl hmc
    refine ⟨{ v with held := Function.update v.held m true }, by simp [exec, hfree'], hredis,
      hclients, hposted, ?_, hsockets⟩
    simp only [Function.update_apply, hconn]
  | unlock m =>
    refine ⟨_, rfl, hredis, hclients, hposted, ?_, hsockets⟩
    simp only [Function.update_apply, hconn]
  | _ => exact hc.elim

end Same

/-! ## Where the two threads of a client are -/

/-- What a packet asks for, given the handler that is found for it. -/
def served (gen : Generated) (type : Int32) (data : Bytes) (now : ℕ) :
    Option PacketHandler → Option Activity
  | none => none
  | some h => if type = gen.emDisconnected then none else some (PacketHandler.activity data now h)

/-- What an event asks of a server that has set the client up. -/
def meaning (gen : Generated) : ConnectionEvent → Option Activity
  | .accept now => some (.accept now)
  | .packet type data now => served gen type data now ((readySocket gen).packetHandler type)
  | .garbage => none
  | .failure => some .disconnect

/-- The client's socket after a command of `AddClient`. -/
def socketAfter (s : Socket) : Command → Socket
  | .construct _ => { constructed := true }
  | .readAsync _ => { s with reads := s.reads + 1 }
  | .setPacketHandler _ type handler =>
    { s with packetHandler := Function.update s.packetHandler type (some handler) }
  | .setErrorHandler _ type =>
    { s with disconnectHandler := type :: s.disconnectHandler.erase type }
  | _ => s

def lists : Command → Bool
  | .insertClient _ => true
  | _ => false

/-- The acceptor knows the client's socket and the rest of `AddClient`; the reader, what
its event asks for and the rest of the handler. -/
inductive Stage where
  | rest
  | accepting (s : Socket) (listed : Bool) (now : ℕ) (q : Handler Unit)
  | started (o : Option Activity)
  | received (o : Option Activity)
  | locked (o : Option Activity)
  | found (o : Option Activity)
  | answered
  | handling (a : Activity) (q : Handler Unit)
  | lost

inductive Move (gen : Generated) : Token × Side → ConnectionEvent → Stage → (c : Command) →
    Reply c → Stage → Prop where
  | accept (t : Token) (e : ConnectionEvent) (s : Socket) (listed : Bool) (now : ℕ) (c : Command)
      (k : Reply c → Handler Unit) (r : Reply c) :
      Move gen (t, .acceptor) e (.accepting s listed now (.issue c k)) c r
        (.accepting (socketAfter s c) (listed || lists c) now (k r))
  | receive (t : Token) (e : ConnectionEvent) (o : Option Activity) :
      Move gen (t, .reader) e (.started o) (.completeRead t) () (.received o)
  | enter (t : Token) (e : ConnectionEvent) (o : Option Activity) (m : Mutex) : m ≠ .conn →
      Move gen (t, .reader) e (.received o) (.lock m) () (.locked o)
  | look (t : Token) (type : Int32) (data : Bytes) (now : ℕ) (r : Option PacketHandler) :
      Move gen (t, .reader) (.packet type data now)
        (.locked (meaning gen (.packet type data now))) (.getPacketHandler t type) r
        (.found (served gen type data now r))
  | begin (t : Token) (e : ConnectionEvent) (a : Activity) : a ≠ .disconnect →
      Move gen (t, .reader) e (.found (some a)) (.unlock (.packetHandler t)) ()
        (.handling a (a.body gen t))
  | skip (t : Token) (e : ConnectionEvent) :
      Move gen (t, .reader) e (.found none) (.unlock (.packetHandler t)) () .answered
  | ignore (t : Token) (e : ConnectionEvent) :
      Move gen (t, .reader) e (.received none) (.readAsync t) () .rest
  | again (t : Token) (e : ConnectionEvent) :
      Move gen (t, .reader) e .answered (.readAsync t) () .rest
  | handle (t : Token) (e : ConnectionEvent) (a : Activity) (c : Command)
      (k : Reply c → Handler Unit) (r : Reply c) :
      Move gen (t, .reader) e (.handling a (.issue c k)) c r (.handling a (k r))
  | next (t : Token) (e : ConnectionEvent) (a : Activity) (u : Unit) : a ≠ .disconnect →
      Move gen (t, .reader) e (.handling a (.done u)) (.readAsync t) () .rest
  | error (t : Token) (h : Int32) :
      Move gen (t, .reader) .failure (.locked (some .disconnect)) (.getErrorHandlers t) [h]
        (.handling .disconnect (handleDisconnect t))
  | missed (t : Token) (r : List Int32) : (∀ h, r ≠ [h]) →
      Move gen (t, .reader) .failure (.locked (some .disconnect)) (.getErrorHandlers t) r .lost
  | close (t : Token) (e : ConnectionEvent) (u : Unit) :
      Move gen (t, .reader) e (.handling .disconnect (.done u)) (.unlock (.disconnectHandler t)) ()
        .rest
  | stray (t : Token) (e : ConnectionEvent) (c : Command) (r : Reply c) :
      Move gen (t, .reader) e .lost c r .lost

/-- An acceptor returns with the client set up. -/
def Ending (gen : Generated) : Option Unit → Stage → Prop
  | none, _ => True
  | some _, y => y = .rest ∨ y = .lost ∨ ∃ now, y = .accepting (readySocket gen) true now (.done ())

/-- The stage in which a thread takes an event up. -/
def Stage.start (gen : Generated) : Token × Side → ConnectionEvent → Stage
  | (t, .acceptor), .accept now => .accepting {} false now (acceptClient gen t now)
  | (_, .acceptor), _ => .rest
  | (_, .reader), .accept _ => .rest
  | (_, .reader), e => .started (meaning gen e)

section Conformance

variable {gen : Generated} {t : Token} {e : ConnectionEvent}

theorem conforms_accept (now : ℕ) : Conforms (Move gen (t, .acceptor) e) (Ending gen)
    (.accepting {} false now (acceptClient gen t now)) (acceptClient gen t now) := by
  simp only [acceptClient, addClient, setPacketHandler, setErrorHandler, scopedLock,
    Program.call_bind, Program.issue_bind]
  -- the commands of `AddClient`, after the construction of the socket
  iterate 21 refine fun _ => ⟨_, .accept t e _ _ _ _ _ _, ?_⟩
  exact .inr (.inr ⟨now, rfl⟩)

/-- A handler, before what its callback does last. -/
theorem conforms_handling {a : Activity} {fin : Option Unit → Stage → Prop} {post : Handler Unit}
    (hu : ∀ y, fin none y)
    (hpost : ∀ u, Conforms (Move gen (t, .reader) e) fin (.handling a (.done u)) post)
    (q : Handler Unit) :
    Conforms (Move gen (t, .reader) e) fin (.handling a q) (q >>= fun _ => post) := by
  induction q with
  | done u => exact hpost u
  | undefined => exact hu _
  | issue c k ih => exact fun r => ⟨_, .handle t e a c k r, ih r⟩

theorem conforms_packet (type : Int32) (data : Bytes) (now : ℕ) :
    Conforms (Move gen (t, .reader) (.packet type data now)) (Ending gen)
      (.started (meaning gen (.packet type data now)))
      (eventBody gen (t, .reader) (.packet type data now)) := by
  simp only [eventBody, handlePacket, scopedLock, Program.call_bind, Program.issue_bind]
  refine fun _ => ⟨_, .receive _ _ _, fun _ => ⟨_, .enter _ _ _ _ (by simp), fun handler => ?_⟩⟩
  refine ⟨_, .look _ _ _ _ handler, fun _ => ?_⟩
  cases handler with
  | none => exact ⟨_, .skip _ _, fun _ => ⟨_, .again _ _, .inl rfl⟩⟩
  | some h =>
    simp only [Program.pure_eq_done, Program.done_bind, served]
    split
    · exact ⟨_, .skip _ _, fun _ => ⟨_, .again _ _, .inl rfl⟩⟩
    · have hne : PacketHandler.activity data now h ≠ .disconnect := by
        cases h <;> simp [PacketHandler.activity]
      refine ⟨_, .begin _ _ _ hne, ?_⟩
      rw [runHandler_eq]
      refine conforms_handling (fun _ => trivial) (fun u => ?_) _
      exact fun _ => ⟨_, .next _ _ _ _ hne, .inl rfl⟩

/-- A thread that has lost its client does anything. -/
theorem conforms_lost (q : Handler Unit) :
    Conforms (Move gen (t, .reader) e) (Ending gen) .lost q := by
  induction q with
  | done u => exact .inr (.inl rfl)
  | undefined => trivial
  | issue c k ih => exact fun r => ⟨_, .stray t e c r, ih r⟩

theorem conforms_failure : Conforms (Move gen (t, .reader) .failure) (Ending gen)
    (.started (meaning gen .failure)) (eventBody gen (t, .reader) .failure) := by
  simp only [eventBody, handleError, scopedLock, Program.call_bind, Program.issue_bind]
  refine fun _ => ⟨_, .receive _ _ _, fun _ => ⟨_, .enter _ _ _ _ (by simp), fun handlers => ?_⟩⟩
  by_cases hone : ∃ h, handlers = [h]
  · obtain ⟨h, rfl⟩ := hone
    refine ⟨_, .error t h, ?_⟩
    have hhandle : Conforms (Move gen (t, .reader) .failure)
        (fun o y => o = some () → y = .handling .disconnect (.done ()))
        (.handling .disconnect (handleDisconnect t)) (handleDisconnect t >>= fun _ => pure ()) := by
      refine conforms_handling (fun _ hn => by cases hn) (fun _ => ?_) _
      exact fun _ => rfl
    refine hhandle.bind (fun _ _ => trivial) fun _ y hy => ?_
    rw [hy rfl]
    exact fun _ => ⟨_, .close _ _ _, .inl rfl⟩
  · exact ⟨_, .missed t handlers fun h hh => hone ⟨h, hh⟩, conforms_lost _⟩

theorem eventBody_conforms (i : Token × Side) (e : ConnectionEvent) :
    Conforms (Move gen i e) (Ending gen) (Stage.start gen i e) (eventBody gen i e) := by
  obtain ⟨t, side⟩ := i
  cases side with
  | acceptor =>
    cases e with
    | accept now => exact conforms_accept now
    | packet | garbage | failure => exact .inl rfl
  | reader =>
    cases e with
    | accept now => exact .inl rfl
    | packet type data now => exact conforms_packet type data now
    | garbage => exact fun _ => ⟨_, .receive _ _ _, fun _ => ⟨_, .ignore _ _, .inl rfl⟩⟩
    | failure => exact conforms_failure

end Conformance

/-! ## What holds at each stage -/

/-- Client `t` has been set up and not been removed, and `n` of its reads are outstanding. -/
structure Open (gen : Generated) (w : World) (t : Token) (n : ℕ) : Prop where
  constructed : (w.sockets t).constructed = true
  packetHandler : (w.sockets t).packetHandler = (readySocket gen).packetHandler
  disconnectHandler : (w.sockets t).disconnectHandler = [gen.emDisconnected]
  reads : (w.sockets t).reads = n
  connected : t ∈ w.connectedClients

/-- A read of an open client has completed, and the next one has not been started. -/
inductive Reading (gen : Generated) (t : Token) : Stage → Prop where
  | received (o : Option Activity) : Reading gen t (.received o)
  | locked (o : Option Activity) : Reading gen t (.locked o)
  | found (o : Option Activity) : (∀ a, o = some a → Issues (RequestCommand t) (a.body gen t)) →
      Reading gen t (.found o)
  | answered : Reading gen t .answered
  | handling (a : Activity) (q : Handler Unit) : a ≠ .disconnect → Issues (RequestCommand t) q →
      Reading gen t (.handling a q)

/-- Where the acceptor and the reader of client `t` can be at the same time. -/
inductive Link (gen : Generated) (w : World) (t : Token) : Stage → Stage → Prop where
  | absent : w.sockets t = {} → t ∉ w.connectedClients → Link gen w t .rest .rest
  | accepting (s : Socket) (listed : Bool) (now : ℕ) (q : Handler Unit) : w.sockets t = s →
      (t ∈ w.connectedClients ↔ listed = true) → Issues (AcceptCommand t) q →
      Link gen w t (.accepting s listed now q) .rest
  | waiting : Open gen w t 1 → Link gen w t .rest .rest
  | started (o : Option Activity) : Open gen w t 1 → Link gen w t .rest (.started o)
  | reading (y : Stage) : Open gen w t 0 → Reading gen t y → Link gen w t .rest y
  | closing (q : Handler Unit) : (w.sockets t).constructed = true → (w.sockets t).reads = 0 →
      Issues (fun c => LogoutCommand t c ∨ RemoveCommand t c) q →
      Link gen w t .rest (.handling .disconnect q)
  | closed : (w.sockets t).constructed = true → (w.sockets t).reads = 0 → Link gen w t .rest .rest

/-- The handler of client `t` that is running. -/
def thread : Stage → Stage → Option (Activity × Handler Unit)
  | .accepting _ _ now q, _ => some (.accept now, q)
  | _, .handling a q => some (a, q)
  | _, _ => none

/-- What the reader has been asked for and has not begun. -/
def asked : Stage → List Activity
  | .started o => o.toList
  | .received o => o.toList
  | .locked o => o.toList
  | .found o => o.toList
  | _ => []

/-- What a move of a callback means for the handlers of its client. -/
inductive Effect (gen : Generated) (t : Token) (w : World) (c : Command) (r : Reply c) :
    Option (Activity × Handler Unit) → List Activity → Option (Activity × Handler Unit) →
    List Activity → Prop where
  | quiet (th : Option (Activity × Handler Unit)) (l : List Activity) : Quiet c →
      Effect gen t w c r th l th l
  | start (a : Activity) : Quiet c → t ∈ w.connectedClients → (∀ now, a ≠ .accept now) →
      Effect gen t w c r none [a] (some (a, a.body gen t)) []
  | handle (a : Activity) (k : Reply c → Handler Unit) (l : List Activity) : Handled c →
      Effect gen t w c r (some (a, .issue c k)) l (some (a, k r)) l
  | finish (a : Activity) (u : Unit) (l : List Activity) : Quiet c →
      Effect gen t w c r (some (a, .done u)) l none l

section Links

variable {gen : Generated} {t u : Token} {w w' : World} {c : Command} {r : Reply c} {x y y' : Stage}
  {e : ConnectionEvent} {n : ℕ}

theorem Open.congr (h : Open gen w t n) (hs : w'.sockets t = w.sockets t)
    (hm : t ∈ w'.connectedClients ↔ t ∈ w.connectedClients) : Open gen w' t n :=
  ⟨hs ▸ h.constructed, hs ▸ h.packetHandler, hs ▸ h.disconnectHandler, hs ▸ h.reads,
    hm.mpr h.connected⟩

/-- Commands of other clients. -/
theorem Link.other (h : Link gen w t x y) (hc : Local u c) (ht : t ≠ u)
    (he : exec c w = some (r, w')) : Link gen w' t x y := by
  obtain ⟨hs, hm, -⟩ := frame_of_local hc ht he
  cases h with
  | absent hsock hn => exact .absent (hs.trans hsock) fun hin => hn (hm.mp hin)
  | accepting s listed now q hsock hl hq =>
    exact .accepting s listed now q (hs.trans hsock) (hm.trans hl) hq
  | waiting ho => exact .waiting (ho.congr hs hm)
  | started o ho => exact .started o (ho.congr hs hm)
  | reading y ho hy => exact .reading y (ho.congr hs hm) hy
  | closing q hcon hr hq => exact .closing q (hs ▸ hcon) (hs ▸ hr) hq
  | closed hcon hr => exact .closed (hs ▸ hcon) (hs ▸ hr)

theorem Open.complete (h : Open gen w t 1) (he : exec (.completeRead t) w = some ((), w')) :
    Open gen w' t 0 := by
  cases executed_of_exec he
  refine ⟨?_, ?_, ?_, ?_, h.connected⟩
  · simpa [World.setSocket] using h.constructed
  · simpa [World.setSocket] using h.packetHandler
  · simpa [World.setSocket] using h.disconnectHandler
  · simp [World.setSocket, h.reads]

theorem Open.read (h : Open gen w t 0) (he : exec (.readAsync t) w = some ((), w')) :
    Open gen w' t 1 := by
  cases executed_of_exec he
  refine ⟨?_, ?_, ?_, ?_, h.connected⟩
  · simpa [World.setSocket] using h.constructed
  · simpa [World.setSocket] using h.packetHandler
  · simpa [World.setSocket] using h.disconnectHandler
  · simp [World.setSocket, h.reads]

/-- The handler of a request leaves its connection alone. -/
theorem Open.request (h : Open gen w t n) (hc : RequestCommand t c)
    (he : exec c w = some (r, w')) : Open gen w' t n := by
  cases executed_of_exec he with
  | setLoginKey v key =>
    by_cases hv : t = v
    · subst hv
      refine ⟨?_, ?_, ?_, ?_, h.connected⟩
      · simpa [World.setSocket] using h.constructed
      · simpa [World.setSocket] using h.packetHandler
      · simpa [World.setSocket] using h.disconnectHandler
      · simpa [World.setSocket] using h.reads
    · exact h.congr (by simp [World.setSocket, hv]) Iff.rfl
  | construct | readAsync | completeRead | stop | setPacketHandler | setErrorHandler
  | insertClient | eraseClient =>
    cases hc with
    | login hc | register hc | playerData hc | logout hc => exact hc.elim
  | _ => exact h.congr rfl Iff.rfl

/-- Commands of the disconnect handler. -/
theorem closing_of_exec (hcon : (w.sockets t).constructed = true) (hr : (w.sockets t).reads = 0)
    (hc : LogoutCommand t c ∨ RemoveCommand t c) (he : exec c w = some (r, w')) :
    (w'.sockets t).constructed = true ∧ (w'.sockets t).reads = 0 := by
  cases executed_of_exec he with
  | setLoginKey v key | stop v =>
    by_cases hv : t = v
    · subst hv
      simp [World.setSocket, hcon, hr]
    · simp [World.setSocket, hv, hcon, hr]
  | construct | readAsync | completeRead | setPacketHandler | setErrorHandler =>
    rcases hc with hc | hc <;> exact hc.elim
  | _ => exact ⟨hcon, hr⟩

/-- The commands of `AddClient` set the client's socket up and list the client. -/
theorem accepting_of_exec (hc : AcceptCommand t c) (he : exec c w = some (r, w')) :
    w'.sockets t = socketAfter (w.sockets t) c ∧
      (t ∈ w'.connectedClients ↔ t ∈ w.connectedClients ∨ lists c = true) := by
  cases executed_of_exec he with
  | construct v | readAsync v | setPacketHandler v _ _ | setErrorHandler v _ =>
    obtain rfl : v = t := hc
    simp [World.setSocket, socketAfter, lists]
  | insertClient v =>
    obtain rfl : v = t := hc
    simp [socketAfter, lists]
  | hashSet | lock | unlock => simp [socketAfter, lists]
  | _ => exact hc.elim

theorem handled_of_accept (hc : AcceptCommand t c) : Handled c := by
  cases c <;> first | exact hc.elim | trivial

theorem handled_of_request (hc : RequestCommand t c) : Handled c := by
  cases hc with
  | login hc | register hc | playerData hc | logout hc =>
    cases c <;> first | exact hc.elim | trivial

theorem handled_of_remove (hc : LogoutCommand t c ∨ RemoveCommand t c) : Handled c := by
  cases c <;> first | trivial | (rcases hc with hc | hc <;> exact hc.elim)

theorem local_of_accept (hc : AcceptCommand t c) : Local t c := by
  cases c with
  | hashSet key f v =>
    intro u hu
    rw [hc.1]
    simpa using hu.symm
  | _ => first | exact hc | trivial

theorem Link.acceptor (h : Link gen w t x y) (hm : Move gen (t, .acceptor) e x c r y')
    (he : exec c w = some (r, w')) : Link gen w' t y' y ∧ Local t c ∧
      Effect gen t w c r (thread x y) (asked y) (thread y' y) (asked y) := by
  cases hm with
  | accept _ _ s listed now _ k _ =>
    cases h with
    | accepting _ _ _ _ hsock hl hq =>
      obtain ⟨hs, hlist⟩ := accepting_of_exec hq.1 he
      refine ⟨.accepting _ _ _ _ (by rw [hs, hsock]) ?_ (hq.2 r), local_of_accept hq.1,
        .handle _ k _ (handled_of_accept hq.1)⟩
      rw [hlist, hl, Bool.or_eq_true]

theorem issues_of_served {type : Int32} {data : Bytes} {now : ℕ} {o : Option PacketHandler}
    {a : Activity} (h : served gen type data now o = some a) :
    Issues (RequestCommand t) (a.body gen t) := by
  cases o with
  | none => cases h
  | some handler =>
    unfold served at h
    dsimp only at h
    split at h
    · cases h
    · obtain rfl := Option.some.inj h
      rw [← runHandler_eq]
      exact issues_runHandler data now handler

theorem not_accept_of_issues {a : Activity} (h : Issues (RequestCommand t) (a.body gen t))
    (now : ℕ) : a ≠ .accept now := by
  rintro rfl
  have hc : RequestCommand t (.construct t) := h.1
  cases hc with
  | login hc | register hc | playerData hc | logout hc => exact hc.elim

theorem handlers_of_exec {handlers : List Int32}
    (he : exec (.getErrorHandlers t) w = some (handlers, w')) :
    handlers = (w.sockets t).disconnectHandler ∧ w' = w := by
  simp only [exec, Option.some.injEq, Prod.mk.injEq] at he
  exact ⟨he.1.symm, he.2.symm⟩

/-- The reader follows the stages, and its client keeps to them. -/
theorem Link.reader (h : Link gen w t x y) (hm : Move gen (t, .reader) e y c r y')
    (he : exec c w = some (r, w')) : Link gen w' t x y' ∧ Local t c ∧
      Effect gen t w c r (thread x y) (asked y) (thread x y') (asked y') := by
  cases hm with
  | receive _ _ o =>
    cases h with
    | started _ ho => exact ⟨.reading _ (ho.complete he) (.received o), rfl, .quiet _ _ trivial⟩
    | reading _ _ hy => cases hy
  | enter _ _ o m hm =>
    cases h with
    | reading _ ho hy =>
      cases executed_of_exec he
      exact ⟨.reading _ (ho.congr rfl Iff.rfl) (.locked o), trivial, .quiet _ _ hm⟩
  | look _ type data now r =>
    cases h with
    | reading _ ho hy =>
      cases executed_of_exec he
      have hmean : served gen type data now ((w.sockets t).packetHandler type) =
          meaning gen (.packet type data now) := by
        rw [ho.packetHandler]
        rfl
      rw [hmean]
      exact ⟨.reading _ ho (.found _ fun a ha => issues_of_served ha), trivial,
        .quiet _ _ trivial⟩
  | begin _ _ a hne =>
    cases h with
    | reading _ ho hy =>
      cases hy with
      | found _ hissues =>
        have hq := hissues a rfl
        cases executed_of_exec he
        exact ⟨.reading _ (ho.congr rfl Iff.rfl) (.handling a _ hne hq), trivial,
          .start a (by simp [Quiet]) ho.connected (not_accept_of_issues hq)⟩
  | skip =>
    cases h with
    | reading _ ho hy =>
      cases executed_of_exec he
      exact ⟨.reading _ (ho.congr rfl Iff.rfl) .answered, trivial, .quiet _ _ (by simp [Quiet])⟩
  | ignore =>
    cases h with
    | reading _ ho hy => exact ⟨.waiting (ho.read he), rfl, .quiet _ _ trivial⟩
  | again =>
    cases h with
    | reading _ ho hy => exact ⟨.waiting (ho.read he), rfl, .quiet _ _ trivial⟩
  | handle _ _ a c k r =>
    cases h with
    | reading _ ho hy =>
      cases hy with
      | handling _ _ hne hq =>
        exact ⟨.reading _ (ho.request hq.1 he) (.handling a _ hne (hq.2 r)),
          (keeps_of_request hq.1).2, .handle a k _ (handled_of_request hq.1)⟩
    | closing _ hcon hr hq =>
      obtain ⟨hcon', hr'⟩ := closing_of_exec hcon hr hq.1 he
      exact ⟨.closing _ hcon' hr' (hq.2 r), (keeps_of_remove hq.1).2,
        .handle .disconnect k _ (handled_of_remove hq.1)⟩
  | next _ _ a u hne =>
    cases h with
    | reading _ ho hy => exact ⟨.waiting (ho.read he), rfl, .finish a u _ trivial⟩
    | closing => exact absurd rfl hne
  | error _ h' =>
    cases h with
    | reading _ ho hy =>
      obtain ⟨-, rfl⟩ := handlers_of_exec he
      exact ⟨.closing _ ho.constructed ho.reads (issues_disconnect t), trivial,
        .start .disconnect trivial ho.connected (by simp)⟩
  | missed _ r hne =>
    cases h with
    | reading _ ho hy =>
      obtain ⟨hr, -⟩ := handlers_of_exec he
      exact absurd (hr.trans ho.disconnectHandler) (hne _)
  | close _ _ u =>
    cases h with
    | reading _ ho hy =>
      cases hy with
      | handling _ _ hne hq => exact absurd rfl hne
    | closing _ hcon hr hq =>
      cases executed_of_exec he
      exact ⟨.closed hcon hr, trivial, .finish .disconnect u _ (by simp [Quiet])⟩
  | stray =>
    cases h with
    | reading _ ho hy => cases hy

end Links

/-! ## The server that runs one handler at a time for each client -/

/-- A read of a client completes only after its `AddClient` has returned. The first read
is started before the handlers are installed, so an earlier packet may find none. -/
def AfterSetUp (p : ConnectionPool) : Action (Token × Side) ConnectionEvent → Prop
  | .start (t, .reader) _ => (p.threads (t, .acceptor)).isNone = true
  | _ => True

instance (p : ConnectionPool) :
    (act : Action (Token × Side) ConnectionEvent) → Decidable (AfterSetUp p act)
  | .start (_, .acceptor) _ => isTrue trivial
  | .start (_, .reader) _ => inferInstanceAs (Decidable (_ = true))
  | .advance _ => isTrue trivial

/-- What client `t` has asked for, oldest first. -/
def events (gen : Generated) (acts : List (Action (Token × Side) ConnectionEvent)) (t : Token) :
    List Activity :=
  acts.filterMap fun
    | .start (u, _) e => if u = t then meaning gen e else none
    | .advance _ => none

/-- What the thread of client `t` has taken up, oldest first. -/
def taken (acts : List (Action Token Activity)) (t : Token) : List Activity :=
  acts.filterMap fun
    | .start u a => if u = t then some a else none
    | .advance _ => none

section Refinement

variable {gen : Generated} {t u : Token} {w w' : World} {c : Command} {r : Reply c}
  {th th' : Option (Activity × Handler Unit)} {l l' : List Activity} {P P' : ServerPool}
  {p p' : ConnectionPool} {act : Action (Token × Side) ConnectionEvent}
  {acts : List (Action (Token × Side) ConnectionEvent)} {acts' more : List (Action Token Activity)}
  {stage : Token × Side → Stage}

theorem events_append (acts acts' : List (Action (Token × Side) ConnectionEvent)) :
    events gen (acts ++ acts') t = events gen acts t ++ events gen acts' t :=
  List.filterMap_append

theorem taken_append (acts acts' : List (Action Token Activity)) :
    taken (acts ++ acts') t = taken acts t ++ taken acts' t :=
  List.filterMap_append

theorem requests_eq_taken (acts : List (Action Token Activity)) :
    requests acts t = (taken acts t).filter Activity.isAnswered := by
  induction acts with
  | nil => rfl
  | cons act acts ih =>
    cases act with
    | start u a =>
      by_cases hu : u = t <;> cases ha : a.isAnswered <;> simp_all [requests, taken]
    | advance u => simpa [requests, taken, List.filterMap_cons] using ih

/-- The server goes on with the actions `more` of client `t` and ends up in a world like
`w'`, where the thread of `t` is `th'`. -/
structure Follows (gen : Generated) (t : Token) (P : ServerPool) (w' : World)
    (th' : Option (Activity × Handler Unit)) (more : List (Action Token Activity))
    (P' : ServerPool) : Prop where
  run : runs (server gen).step P more = some P'
  same : Same w' P'.shared
  threads : P'.threads = Function.update P.threads t th'
  others : ∀ u, u ≠ t → taken more u = []

theorem follows_none (hsame : Same w' P.shared) (hth : P.threads t = th) :
    Follows gen t P w' th [] P where
  run := rfl
  same := hsame
  threads := by rw [← hth, Function.update_eq_self]
  others _ _ := rfl

theorem follows_start {a : Activity} (hsame : Same w' P.shared) (hth : P.threads t = none)
    (ha : a.allows P.shared t = true) :
    Follows gen t P w' (some (a, a.body gen t)) [.start t a]
      ⟨P.shared, Function.update P.threads t (some (a, a.body gen t)), P.trace⟩ where
  run := by simp [runs, System.step, hth, server, ha]
  same := hsame
  threads := rfl
  others u hu := by simp [taken, Ne.symm hu]

theorem follows_finish {a : Activity} {v : Unit} (hsame : Same w' P.shared)
    (hth : P.threads t = some (a, .done v)) :
    Follows gen t P w' none [.advance t]
      ⟨P.shared, Function.update P.threads t none, P.trace⟩ where
  run := by simp [runs, System.step, hth]
  same := hsame
  threads := rfl
  others u hu := rfl

theorem follows_advance {a : Activity} {k : Reply c → Handler Unit} {v' : World}
    (he : exec c P.shared = some (r, v')) (hsame : Same w' v')
    (hth : P.threads t = some (a, .issue c k)) :
    Follows gen t P w' (some (a, k r)) [.advance t]
      ⟨v', Function.update P.threads t (some (a, k r)), P.trace ++ [⟨t, a, c⟩]⟩ where
  run := by simp [runs, System.step, hth, server, he]
  same := hsame
  threads := rfl
  others u hu := rfl

/-- The server issues the commands of the handlers too. It does nothing where a callback
issues one of its own, unless a handler starts or returns there. -/
theorem Effect.follow (h : Effect gen t w c r th l th' l') {holding : Token → Holding}
    (hheld : Held P holding) (hsame : Same w P.shared) (hth : P.threads t = th)
    (he : exec c w = some (r, w')) :
    ∃ more P', Follows gen t P w' th' more P' ∧ l = taken more t ++ l' := by
  cases h with
  | quiet _ _ hc => exact ⟨[], P, follows_none (hsame.quiet hc he) hth, rfl⟩
  | start a hc hconn ha =>
    have hmem : t ∈ P.shared.connectedClients := hsame.connectedClients ▸ hconn
    have hallows : a.allows P.shared t = true := by
      cases a <;> simp_all [Activity.allows]
    refine ⟨_, _, follows_start (hsame.quiet hc he) hth hallows, ?_⟩
    simp [taken]
  | handle a k _ hc =>
    obtain ⟨v', hv, hsame'⟩ := hsame.handled hc he fun m hm hne => by
      subst hm
      exact hheld.lock_free hth hne
    exact ⟨_, _, follows_advance hv hsame' hth, rfl⟩
  | finish a v _ hc => exact ⟨_, _, follows_finish (hsame.quiet hc he) hth, rfl⟩

/-- A client that has not been constructed is absent. -/
theorem Link.fresh {y : Stage} (h : Link gen w t .rest y)
    (hc : (w.sockets t).constructed = false) :
    y = .rest ∧ w.sockets t = {} ∧ t ∉ w.connectedClients := by
  cases h with
  | absent hs hn => exact ⟨rfl, hs, hn⟩
  | waiting ho => exact absurd ho.constructed (by simp [hc])
  | started o ho => exact absurd ho.constructed (by simp [hc])
  | reading _ ho => exact absurd ho.constructed (by simp [hc])
  | closing _ hcon => exact absurd hcon (by simp [hc])
  | closed hcon => exact absurd hcon (by simp [hc])

/-- A read completes for an open client. -/
theorem Link.open_of_reads (h : Link gen w t .rest .rest) (hr : 0 < (w.sockets t).reads) :
    Open gen w t 1 := by
  cases h with
  | absent hs => simp [hs] at hr
  | waiting ho => exact ho
  | reading _ ho hy => cases hy
  | closed _ hzero => omega

/-- `AddClient` returns with the client open. -/
theorem Link.acceptor_returned {x y : Stage} (h : Link gen w t x y)
    (hend : Ending gen (some ()) x) :
    x = .rest ∨ ∃ now, x = .accepting (readySocket gen) true now (.done ()) ∧ y = .rest ∧
      Open gen w t 1 := by
  rcases hend with rfl | rfl | ⟨now, rfl⟩
  · exact .inl rfl
  · cases h
  · cases h with
    | accepting _ _ _ _ hs hl =>
      refine .inr ⟨now, rfl, rfl, ?_⟩
      constructor
      · rw [hs]; rfl
      · rw [hs]
      · rw [hs]; rfl
      · rw [hs]; rfl
      · exact hl.mpr rfl

theorem Link.reader_returned {x y : Stage} (h : Link gen w t x y)
    (hend : Ending gen (some ()) y) : y = .rest := by
  rcases hend with rfl | rfl | ⟨now, rfl⟩
  · rfl
  · cases h with
    | reading _ _ hy => cases hy
  · cases h with
    | reading _ _ hy => cases hy

/-- The server has done what the callbacks have done so far. -/
structure Refines (gen : Generated) (redis : Redis)
    (acts : List (Action (Token × Side) ConnectionEvent)) (p : ConnectionPool)
    (acts' : List (Action Token Activity)) (P : ServerPool) (stage : Token × Side → Stage) :
    Prop where
  run : runs (server gen).step (Pool.idle (World.initial redis)) acts' = some P
  same : Same p.shared P.shared
  staged : Staged (Move gen) (Ending gen) .rest p stage
  link : ∀ t, Link gen p.shared t (stage (t, .acceptor)) (stage (t, .reader))
  threads : ∀ t, P.threads t = thread (stage (t, .acceptor)) (stage (t, .reader))
  events : ∀ t, events gen acts t = taken acts' t ++ asked (stage (t, .reader))

/-- Some run of the server has done what the callbacks have done so far. -/
def Refined (gen : Generated) (redis : Redis)
    (acts : List (Action (Token × Side) ConnectionEvent)) (p : ConnectionPool) : Prop :=
  ∃ acts' P stage, Refines gen redis acts p acts' P stage

variable {redis : Redis} {x y : Stage}

theorem refined_idle (gen : Generated) (redis : Redis) :
    Refined gen redis [] (Pool.idle (World.initial redis)) := by
  refine ⟨[], Pool.idle (World.initial redis), fun _ => .rest, ?_⟩
  constructor
  · rfl
  · exact ⟨rfl, rfl, rfl, rfl, fun _ => rfl⟩
  · exact staged_idle _
  · exact fun t => .absent rfl (by simp [Pool.idle, World.initial])
  · exact fun t => rfl
  · exact fun t => rfl

/-- A client whose threads have returned has no handler running. -/
theorem Refines.idle (h : Refines gen redis acts p acts' P stage)
    (hread : p.threads (t, .reader) = none) (hacc : p.threads (t, .acceptor) = none) :
    P.threads t = none := by
  rw [h.threads, h.staged.rest_of_idle hread, h.staged.rest_of_idle hacc]
  rfl

/-- A thread of client `t` asks for nothing on behalf of the others. -/
theorem events_of_ne {side : Side} (hact : act.thread = (t, side)) (hu : u ≠ t) :
    events gen [act] u = [] := by
  cases act with
  | start i e =>
    obtain rfl : i = (t, side) := hact
    simp [events, Ne.symm hu]
  | advance i => rfl

/-- A step of a thread of client `t` leaves the others as they are. -/
theorem Refines.move (h : Refines gen redis acts p acts' P stage) {side : Side} {z : Stage}
    (hact : act.thread = (t, side))
    (hst : Staged (Move gen) (Ending gen) .rest p' (Function.update stage (t, side) z))
    (hother : ∀ u, u ≠ t → Link gen p'.shared u (stage (u, .acceptor)) (stage (u, .reader)))
    (hx : Function.update stage (t, side) z (t, .acceptor) = x)
    (hy : Function.update stage (t, side) z (t, .reader) = y)
    (hlink : Link gen p'.shared t x y) (hfollow : Follows gen t P p'.shared (thread x y) more P')
    (hasked : asked (stage (t, .reader)) ++ Callbacks.events gen [act] t =
      taken more t ++ asked y) :
    Refined gen redis (acts ++ [act]) p' := by
  have hsame : ∀ u, u ≠ t → ∀ side', Function.update stage (t, side) z (u, side') =
      stage (u, side') := fun u hu side' => Function.update_of_ne (by simp [hu]) _ _
  refine ⟨acts' ++ more, P', _, ?_, hfollow.same, hst, fun u => ?_, fun u => ?_, fun u => ?_⟩
  · rw [runs_append, h.run]
    exact hfollow.run
  · by_cases hu : u = t
    · subst hu
      rw [hx, hy]
      exact hlink
    · rw [hsame u hu, hsame u hu]
      exact hother u hu
  · rw [hfollow.threads]
    by_cases hu : u = t
    · subst hu
      rw [Function.update_self, hx, hy]
    · rw [Function.update_of_ne hu, hsame u hu, hsame u hu]
      exact h.threads u
  · rw [events_append, taken_append, h.events, List.append_assoc, List.append_assoc]
    by_cases hu : u = t
    · subst hu
      rw [hy, hasked]
    · rw [hsame u hu, events_of_ne hact hu, hfollow.others u hu, List.append_nil, List.nil_append]

/-- A client is accepted. -/
theorem Refines.accept (h : Refines gen redis acts p acts' P stage) {now : ℕ}
    (hidle : p.threads (t, .acceptor) = none)
    (hfresh : (p.shared.sockets t).constructed = false) (hw : p'.shared = p.shared)
    (hst : Staged (Move gen) (Ending gen) .rest p' (Function.update stage (t, .acceptor)
      (.accepting {} false now (acceptClient gen t now)))) :
    Refined gen redis (acts ++ [.start (t, .acceptor) (.accept now)]) p' := by
  have hrest := h.staged.rest_of_idle hidle
  have hlink := h.link t
  rw [hrest] at hlink
  obtain ⟨hread, hsocket, hclients⟩ := hlink.fresh hfresh
  have hthread : P.threads t = none := by
    rw [h.threads, hrest, hread]
    rfl
  have hallows : (Activity.accept now).allows P.shared t = true := by
    rw [Activity.allows, ← h.same.connectedClients]
    simpa using hclients
  have hstart : Follows gen t P p'.shared _ [.start t (.accept now)] _ :=
    follows_start (hw ▸ h.same) hthread hallows
  have hy (z : Stage) : Function.update stage (t, .acceptor) z (t, .reader) = .rest :=
    (Function.update_of_ne (by simp) _ _).trans hread
  refine h.move rfl hst (fun u _ => hw ▸ h.link u) (Function.update_self ..) (hy _) ?_ hstart ?_
  · rw [hw]
    exact .accepting _ _ _ _ hsocket (by simp [hclients]) (issues_acceptClient gen t now)
  · simp [hread, Callbacks.events, taken, asked, meaning]

/-- A read completes. -/
theorem Refines.complete (h : Refines gen redis acts p acts' P stage) {e : ConnectionEvent}
    (hidle : p.threads (t, .reader) = none) (hidle' : p.threads (t, .acceptor) = none)
    (hreads : 0 < (p.shared.sockets t).reads) (hw : p'.shared = p.shared)
    (hst : Staged (Move gen) (Ending gen) .rest p' (Function.update stage (t, .reader)
      (.started (meaning gen e)))) :
    Refined gen redis (acts ++ [.start (t, .reader) e]) p' := by
  have hread := h.staged.rest_of_idle hidle
  have hacc := h.staged.rest_of_idle hidle'
  have hlink := h.link t
  rw [hread, hacc] at hlink
  have hx (z : Stage) : Function.update stage (t, .reader) z (t, .acceptor) = .rest :=
    (Function.update_of_ne (by simp) _ _).trans hacc
  refine h.move rfl hst (fun u _ => hw ▸ h.link u) (hx _) (Function.update_self ..) ?_
    (follows_none (hw ▸ h.same) (h.idle hidle hidle')) ?_
  · rw [hw]
    exact .started _ (hlink.open_of_reads hreads)
  · rw [hread]
    cases hm : meaning gen e <;> simp [Callbacks.events, taken, asked, hm]

theorem Refines.start (h : Refines gen redis acts p acts' P stage) {side : Side}
    {e : ConnectionEvent} (hidle : p.threads (t, side) = none)
    (hallow : eventAllows p.shared (t, side) e = true)
    (hok : AfterSetUp p (.start (t, side) e)) (hw : p'.shared = p.shared)
    (hst : Staged (Move gen) (Ending gen) .rest p'
      (Function.update stage (t, side) (Stage.start gen (t, side) e))) :
    Refined gen redis (acts ++ [.start (t, side) e]) p' := by
  cases side with
  | acceptor =>
    cases e with
    | accept now => exact h.accept hidle (by simpa [eventAllows] using hallow) hw hst
    | packet | garbage | failure => cases hallow
  | reader =>
    have hidle' := Option.isNone_iff_eq_none.mp hok
    cases e with
    | accept now => cases hallow
    | packet | garbage | failure =>
      exact h.complete hidle hidle' (by simpa [eventAllows] using hallow) hw hst

/-- A thread that was at rest already returns. -/
theorem Refines.rest (h : Refines gen redis acts p acts' P stage) {side : Side}
    (hrest : stage (t, side) = .rest) (hw : p'.shared = p.shared)
    (hst : Staged (Move gen) (Ending gen) .rest p' (Function.update stage (t, side) .rest)) :
    Refined gen redis (acts ++ [.advance (t, side)]) p' := by
  have heq : Function.update stage (t, side) .rest = stage := by
    rw [← hrest, Function.update_eq_self]
  refine h.move rfl hst (fun u _ => hw ▸ h.link u) (congrFun heq _) (congrFun heq _)
    (hw ▸ h.link t) (follows_none (hw ▸ h.same) (h.threads t)) ?_
  exact List.append_nil _

theorem Refines.finish (h : Refines gen redis acts p acts' P stage) {side : Side}
    (hend : Ending gen (some ()) (stage (t, side))) (hw : p'.shared = p.shared)
    (hst : Staged (Move gen) (Ending gen) .rest p' (Function.update stage (t, side) .rest)) :
    Refined gen redis (acts ++ [.advance (t, side)]) p' := by
  cases side with
  | acceptor =>
    rcases (h.link t).acceptor_returned hend with hrest | ⟨now, hacc, hread, hopen⟩
    · exact h.rest hrest hw hst
    · have hthread : P.threads t = some (.accept now, .done ()) := by
        rw [h.threads, hacc]
        rfl
      have hy : Function.update stage (t, .acceptor) .rest (t, .reader) = .rest :=
        (Function.update_of_ne (by simp) _ _).trans hread
      refine h.move rfl hst (fun u _ => hw ▸ h.link u) (Function.update_self ..) hy ?_
        (follows_finish (hw ▸ h.same) hthread) ?_
      · rw [hw]
        exact .waiting hopen
      · rw [hread]
        rfl
  | reader => exact h.rest ((h.link t).reader_returned hend) hw hst

theorem Refines.command (h : Refines gen redis acts p acts' P stage) {side : Side}
    {e : ConnectionEvent} (he : exec c p.shared = some (r, p'.shared))
    (hm : Move gen (t, side) e (stage (t, side)) c r x)
    (hst : Staged (Move gen) (Ending gen) .rest p' (Function.update stage (t, side) x)) :
    Refined gen redis (acts ++ [.advance (t, side)]) p' := by
  obtain ⟨holding, hheld⟩ := held_run h.run
  cases side with
  | acceptor =>
    obtain ⟨hlink, hlocal, heffect⟩ := (h.link t).acceptor hm he
    obtain ⟨more, P', hfollow, hasked⟩ := heffect.follow hheld h.same (h.threads t) he
    refine h.move rfl hst (fun u hu => (h.link u).other hlocal hu he) (Function.update_self ..)
      (Function.update_of_ne (by simp) _ _) hlink hfollow ?_
    exact (List.append_nil _).trans hasked
  | reader =>
    obtain ⟨hlink, hlocal, heffect⟩ := (h.link t).reader hm he
    obtain ⟨more, P', hfollow, hasked⟩ := heffect.follow hheld h.same (h.threads t) he
    refine h.move rfl hst (fun u hu => (h.link u).other hlocal hu he)
      (Function.update_of_ne (by simp) _ _) (Function.update_self ..) hlink hfollow ?_
    exact (List.append_nil _).trans hasked

theorem Refines.step (h : Refines gen redis acts p acts' P stage) (hok : AfterSetUp p act)
    (hs : (connections gen).step p act = some p') :
    Refined gen redis (acts ++ [act]) p' := by
  rcases h.staged.step_from (Stage.start gen) (fun i e _ => eventBody_conforms i e) hs with
    ⟨⟨t, side⟩, e, rfl, hidle, hallow, hw, -, -, hst⟩ | ⟨⟨t, side⟩, rfl, hend, hw, -, -, hst⟩ |
    ⟨⟨t, side⟩, e, c, k, r, x, rfl, -, he, hmove, -, -, hst⟩
  · exact h.start hidle hallow hok hw hst
  · exact h.finish hend hw hst
  · exact h.command he hmove hst

theorem refined_run
    (hok : Along (connections gen).step AfterSetUp (Pool.idle (World.initial redis)) acts)
    (hr : runs (connections gen).step (Pool.idle (World.initial redis)) acts = some p) :
    Refined gen redis acts p := by
  refine history_along (I := Refined gen redis) ?_ (refined_idle gen redis) hok hr
  rintro acts p act p' ⟨acts', P, stage, h⟩ hact hs
  exact h.step hact hs

theorem length_asked (y : Stage) : (asked y).length ≤ 1 := by
  cases y with
  | started o | received o | locked o | found o => cases o <;> simp [asked]
  | rest | accepting | answered | handling | lost => simp [asked]

/-- The client whose reader has not begun what it was asked for has no handler running. -/
theorem Refines.idle_of_asked (h : Refines gen redis acts p acts' P stage)
    (hne : asked (stage (t, .reader)) ≠ []) : P.threads t = none := by
  have hlink := h.link t
  rw [h.threads]
  generalize stage (t, .acceptor) = x at hlink
  generalize stage (t, .reader) = y at hlink hne
  cases hlink with
  | absent | waiting | closed | accepting | closing => exact absurd rfl hne
  | started o ho => rfl
  | reading _ _ hy =>
    cases hy with
    | answered | handling => exact absurd rfl hne
    | received | locked | found => rfl

/-- In every interleaving of the completion handlers in which no read of a client
completes before its `AddClient` has returned, the callbacks do to the store, to the
clients and to the responses what one thread for each client does that takes up the
requests of its packets in the order in which the packets arrived. Only the packet that
the client's reader is busy with can still be waiting for its handler. -/
theorem callbacks_refine_handlers (gen : Generated) (redis : Redis)
    (acts : List (Action (Token × Side) ConnectionEvent)) (p : ConnectionPool)
    (hok : Along (connections gen).step AfterSetUp (Pool.idle (World.initial redis)) acts)
    (hr : runs (connections gen).step (Pool.idle (World.initial redis)) acts = some p) :
    ∃ (acts' : List (Action Token Activity)) (P : ServerPool),
      runs (server gen).step (Pool.idle (World.initial redis)) acts' = some P ∧
      Same p.shared P.shared ∧
      ∀ t, ∃ waiting, events gen acts t = taken acts' t ++ waiting ∧ waiting.length ≤ 1 ∧
        (p.threads (t, .reader) = none → waiting = [] ∧
          (p.threads (t, .acceptor) = none → P.threads t = none)) := by
  obtain ⟨acts', P, stage, h⟩ := refined_run hok hr
  refine ⟨acts', P, h.run, h.same, fun t => ⟨_, h.events t, length_asked _, fun hread => ?_⟩⟩
  refine ⟨?_, fun hacc => h.idle hread hacc⟩
  rw [h.staged.rest_of_idle hread]
  rfl

/-- Client 1 registers the account `ab`, while client 2 asks for its player data. -/
def overlappingPackets : List (Action (Token × Side) ConnectionEvent) := List.flatten
  [[.start (1, .acceptor) (.accept 0)], List.replicate 22 (.advance (1, .acceptor)),
    [.start (2, .acceptor) (.accept 0)], List.replicate 22 (.advance (2, .acceptor)),
    [.start (1, .reader) (.packet 1 sampleRegister 0)], List.replicate 6 (.advance (1, .reader)),
    [.start (2, .reader) (.packet 5 [] 0)], List.replicate 6 (.advance (2, .reader)),
    List.replicate 5 (.advance (1, .reader))]

theorem callbacks_refine_handlers_overlapping :
    ∃ (p : ConnectionPool) (acts' : List (Action Token Activity)) (P : ServerPool),
      runs (connections wireGenerated).step (Pool.idle (World.initial Store.empty))
        overlappingPackets = some p ∧
      runs (server wireGenerated).step (Pool.idle (World.initial Store.empty)) acts' = some P ∧
      Same p.shared P.shared ∧ P.threads 1 = none ∧
      taken acts' 1 = [.accept 0, .register sampleRegister] := by
  have hrun : (runs (connections wireGenerated).step (Pool.idle (World.initial Store.empty))
      overlappingPackets).map (fun p => (p.threads (1, .reader)).isNone &&
        (p.threads (1, .acceptor)).isNone) = some true := by decide +kernel
  obtain ⟨p, hp, hidle⟩ := Option.map_eq_some_iff.mp hrun
  rw [Bool.and_eq_true, Option.isNone_iff_eq_none, Option.isNone_iff_eq_none] at hidle
  have hok : Along (connections wireGenerated).step AfterSetUp
      (Pool.idle (World.initial Store.empty)) overlappingPackets := by decide +kernel
  have hevents : events wireGenerated overlappingPackets 1 =
      [.accept 0, .register sampleRegister] := by decide +kernel
  obtain ⟨acts', P, hP, hsame, hall⟩ := callbacks_refine_handlers _ _ _ p hok hp
  obtain ⟨waiting, hw, -, hnone⟩ := hall 1
  obtain ⟨rfl, hthread⟩ := hnone hidle.1
  rw [hevents, List.append_nil] at hw
  exact ⟨p, acts', P, hp, hP, hsame, hthread hidle.2, hw.symm⟩

/-- Each client is answered the requests among its packets in their order, whatever the
callbacks of the other clients do meanwhile, and all of them once its callbacks have
returned. -/
theorem packets_answered (gen : Generated) (redis : Redis)
    (acts : List (Action (Token × Side) ConnectionEvent)) (p : ConnectionPool)
    (hok : Along (connections gen).step AfterSetUp (Pool.idle (World.initial redis)) acts)
    (hr : runs (connections gen).step (Pool.idle (World.initial redis)) acts = some p)
    (t : Token) :
    ∃ done waiting, (events gen acts t).filter Activity.isAnswered = done ++ waiting ∧
      List.Forall₂ (Answers gen t) done (responses p.shared t) ∧ waiting.length ≤ 1 ∧
      (p.threads (t, .reader) = none → p.threads (t, .acceptor) = none → waiting = []) := by
  obtain ⟨acts', P, stage, h⟩ := refined_run hok hr
  obtain ⟨debt, hmatched⟩ := matched_run h.run
  have hresponses : responses p.shared t = responses P.shared t := by
    rw [responses, responses, h.same.posted]
  rw [h.events, List.filter_append, ← requests_eq_taken, hresponses]
  by_cases hasked : asked (stage (t, .reader)) = []
  · obtain ⟨done, hdone, hans⟩ := hmatched.answered t
    rw [hasked, hdone]
    refine ⟨done, pending (P.activity t) (debt t), List.append_nil _, hans, ?_, ?_⟩
    · cases debt t <;> cases P.activity t <;> simp [pending]
    · intro hread hacc
      rw [hmatched.staged.rest_of_idle (h.idle hread hacc)]
      rfl
  · refine ⟨_, _, rfl, hmatched.idle (h.idle_of_asked hasked), ?_, ?_⟩
    · exact (List.length_filter_le _ _).trans (length_asked _)
    · intro hread
      rw [h.staged.rest_of_idle hread] at hasked
      exact absurd rfl hasked

theorem packets_answered_overlapping : ∃ p,
    runs (connections wireGenerated).step (Pool.idle (World.initial Store.empty))
      overlappingPackets = some p ∧
    ∃ done waiting, [.playerData []] = done ++ waiting ∧
      List.Forall₂ (Answers wireGenerated 2) done (responses p.shared 2) ∧
      waiting.length ≤ 1 := by
  have hrun : (runs (connections wireGenerated).step (Pool.idle (World.initial Store.empty))
      overlappingPackets).isSome = true := by decide +kernel
  obtain ⟨p, hp⟩ := Option.isSome_iff_exists.mp hrun
  have hok : Along (connections wireGenerated).step AfterSetUp
      (Pool.idle (World.initial Store.empty)) overlappingPackets := by decide +kernel
  have hevents : (events wireGenerated overlappingPackets 2).filter Activity.isAnswered =
      [.playerData []] := by decide +kernel
  obtain ⟨done, waiting, hd, hans, hlen, -⟩ := packets_answered _ _ _ p hok hp 2
  rw [hevents] at hd
  exact ⟨p, hp, done, waiting, hd, hans, hlen⟩

end Refinement

end IsolationServer.Callbacks
