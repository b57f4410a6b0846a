import IsolationServer.Conversations
import IsolationServer.Termination

/-!
# Every request is answered in the end

The handlers take the mutex of a client only while they hold `_connMtx`, so whoever
holds `_connMtx` can always go on. When no thread can go on any more, every handler has
returned or has dereferenced an empty optional, and every client has the answers to all
its requests.
-/
namespace IsolationServer.Completion
open CommandPrograms Conversations HashStore Runs Serialisability

/-! ## The mutexes that a handler holds -/

/-- What a handler holds: nothing, `_connMtx`, or `_connMtx` and a mutex of a client. -/
inductive Holding where
  | nothing
  | conn
  | both (m : Mutex)

def Holding.mutexes : Holding → List Mutex
  | nothing => []
  | conn => [.conn]
  | both m => [.conn, m]

/-- Commands that neither block nor touch a mutex. -/
def Free : Command → Prop
  | .lock _ => False
  | .unlock _ => False
  | .completeRead _ => False
  | _ => True

inductive Locks : Holding → (c : Command) → Reply c → Holding → Prop where
  | free (x : Holding) (c : Command) (r : Reply c) : Free c → Locks x c r x
  | enter : Locks .nothing (.lock .conn) () .conn
  | take (m : Mutex) : m ≠ .conn → Locks .conn (.lock m) () (.both m)
  | give (m : Mutex) : m ≠ .conn → Locks (.both m) (.unlock m) () .conn
  | exit : Locks .conn (.unlock .conn) () .nothing

section Handlers

variable {gen : Generated} {t : Token}

theorem conforms_free {Q : Command → Prop} {h : Handler Unit} (hq : Issues Q h)
    (hf : ∀ c, Q c → Free c) : Conforms Locks (Resting .nothing) .nothing h := by
  refine Issues.conforms ?_ ?_ hq
  · exact fun c r hc => .free _ _ _ (hf c hc)
  · exact fun _ => rfl

theorem free_of_logout {c : Command} (h : LogoutCommand t c) : Free c := by
  cases c <;> first | exact h.elim | trivial

theorem conforms_acceptClient (now : ℕ) :
    Conforms Locks (Resting .nothing) .nothing (acceptClient gen t now) := by
  simp only [acceptClient, addClient, setPacketHandler, setErrorHandler, scopedLock,
    Program.call_bind, Program.issue_bind]
  refine fun _ => ⟨.nothing, .free _ _ _ trivial, fun _ => ⟨.conn, .enter, ?_⟩⟩
  iterate 3 refine fun _ => ⟨.conn, .free _ _ _ trivial, ?_⟩
  -- the four packet handlers and the disconnect handler
  iterate 5
    refine fun _ => ⟨.both _, .take _ (by simp), fun _ => ⟨.both _, .free _ _ _ trivial, ?_⟩⟩
    refine fun _ => ⟨.conn, .give _ (by simp), ?_⟩
  exact fun _ => ⟨.nothing, .exit, rfl⟩

theorem conforms_disconnect :
    Conforms Locks (Resting .nothing) .nothing (handleDisconnect t) := by
  have hlogout := conforms_free (issues_logoutClient t) fun c => free_of_logout (t := t)
  refine hlogout.bind (fun _ h => h) fun _ y hy => ?_
  subst hy
  refine fun _ => ⟨.nothing, .free _ _ _ trivial, fun _ => ⟨.conn, .enter, fun _ => ?_⟩⟩
  refine ⟨.conn, .free _ _ _ trivial, fun _ => ⟨.conn, .free _ _ _ trivial, ?_⟩⟩
  exact fun _ => ⟨.nothing, .exit, rfl⟩

theorem conforms_body (a : Activity) :
    Conforms Locks (Resting .nothing) .nothing (a.body gen t) := by
  cases a with
  | accept now => exact conforms_acceptClient now
  | register data =>
    refine conforms_free (issues_creationAccount gen t data) fun c hc => ?_
    cases c <;> first | exact hc.elim | trivial
  | login data now =>
    refine conforms_free (issues_login gen t data now) fun c hc => ?_
    cases c <;> first | exact hc.elim | trivial
  | playerData data =>
    refine conforms_free (issues_playerData gen t data) fun c hc => ?_
    cases c <;> first | exact hc.elim | trivial
  | logout data => exact conforms_free (issues_logout gen t data) fun c => free_of_logout
  | disconnect => exact conforms_disconnect

end Handlers

/-! ## Nobody waits for ever -/

section Runs

variable {gen : Generated} {p p' : ServerPool} {holding : Token → Holding}
  {act : Action Token Activity}

/-- A mutex is held by a thread, and only one thread holds any. -/
structure Held (p : ServerPool) (holding : Token → Holding) : Prop where
  staged : Staged (fun _ _ => Locks) (Resting .nothing) .nothing p holding
  held : ∀ m, p.shared.held m = true ↔ ∃ t, m ∈ (holding t).mutexes
  one : ∀ t u m, m ∈ (holding t).mutexes → m ∈ (holding u).mutexes → t = u

theorem held_idle (redis : Redis) :
    Held (Pool.idle (World.initial redis)) (fun _ => .nothing) where
  staged := staged_idle _
  held m := by simp [Pool.idle, World.initial, Holding.mutexes]
  one t u m h := by simp [Holding.mutexes] at h

/-- What a command does to the mutexes. It acquires only a free one. -/
theorem held_of_locks {x y : Holding} {c : Command} {r : Reply c} {w w' : World}
    (hl : Locks x c r y) (he : exec c w = some (r, w'))
    (hx : ∀ m ∈ x.mutexes, w.held m = true) (m : Mutex) :
    (w'.held m = true ↔ m ∈ y.mutexes ∨ (m ∉ x.mutexes ∧ w.held m = true)) ∧
      (m ∈ y.mutexes → m ∉ x.mutexes → w.held m = false) := by
  cases hl with
  | free _ _ _ hc =>
    have hsame : w'.held = w.held := by
      cases executed_of_exec he <;> first | exact hc.elim | rfl
    rw [hsame]
    refine ⟨⟨fun h => ?_, fun h => h.elim (hx m) And.right⟩, fun h hn => absurd h hn⟩
    by_cases hm : m ∈ x.mutexes
    · exact .inl hm
    · exact .inr ⟨hm, h⟩
  | enter =>
    cases executed_of_exec he with
    | lock _ hfree =>
      by_cases hm : m = .conn <;> simp [Holding.mutexes, hm, hfree]
  | take l hl =>
    cases executed_of_exec he with
    | lock _ hfree =>
      have hconn := hx .conn (by simp [Holding.mutexes])
      by_cases hm : m = l
      · subst hm
        simp [Holding.mutexes, hfree]
      · by_cases hc : m = .conn <;> simp [Holding.mutexes, hm, hc, hconn, hl.symm]
  | give l hl =>
    cases executed_of_exec he with
    | unlock =>
      have hconn := hx .conn (by simp [Holding.mutexes])
      by_cases hm : m = l
      · subst hm
        simp [Holding.mutexes, hl]
      · by_cases hc : m = .conn <;> simp [Holding.mutexes, hm, hc, hconn, hl.symm]
  | exit =>
    cases executed_of_exec he with
    | unlock => by_cases hm : m = .conn <;> simp [Holding.mutexes, hm]

theorem Held.step (h : Held p holding) (hs : (server gen).step p act = some p') :
    ∃ holding', Held p' holding' := by
  rcases h.staged.step (fun t a => conforms_body a) (fun _ hy => hy) hs with ⟨hst, hw, -⟩ |
    ⟨t, a, c, k, r, y, -, -, he, hl, -, hst⟩
  · exact ⟨holding, hst, hw ▸ h.held, h.one⟩
  · have hspec := held_of_locks hl he fun m hm => (h.held m).mpr ⟨t, hm⟩
    refine ⟨_, hst, fun m => ?_, fun u v m => ?_⟩
    · rw [(hspec m).1]
      constructor
      · rintro (hy | ⟨hx, hm⟩)
        · exact ⟨t, by rwa [Function.update_self]⟩
        · obtain ⟨u, hu⟩ := (h.held m).mp hm
          have hut : u ≠ t := by
            rintro rfl
            exact hx hu
          exact ⟨u, by rwa [Function.update_of_ne hut]⟩
      · rintro ⟨u, hu⟩
        by_cases hut : u = t
        · rw [hut, Function.update_self] at hu
          exact .inl hu
        · rw [Function.update_of_ne hut] at hu
          exact .inr ⟨fun hx => hut (h.one u t m hu hx), (h.held m).mpr ⟨u, hu⟩⟩
    · refine exclusive_update (fun (x : Holding) m => m ∈ x.mutexes) h.one (fun l hy v hv hl' => ?_)
        u v m
      by_cases hx : l ∈ (holding t).mutexes
      · exact hv (h.one v t l hl' hx)
      · have hfree := (hspec l).2 hy hx
        rw [(h.held l).mpr ⟨v, hl'⟩] at hfree
        cases hfree

/-- The next command of a thread that cannot go on takes a mutex: it waits for
`_connMtx` with empty hands, or for a mutex of a client while it holds `_connMtx`. -/
theorem Held.blocked (h : Held p holding) {t : Token} {a : Activity} {c : Command}
    {k : Reply c → Handler Unit} (ht : p.threads t = some (a, .issue c k))
    (hc : exec c p.shared = none) :
    (holding t = .nothing ∧ p.shared.held .conn = true) ∨
      ∃ m, holding t = .conn ∧ m ≠ .conn ∧ p.shared.held m = true := by
  obtain ⟨m, rfl, hm⟩ | ⟨u, rfl⟩ : (∃ m, c = .lock m ∧ p.shared.held m = true) ∨
      ∃ u, c = .completeRead u := by
    cases c with
    | lock m => exact .inl ⟨m, rfl, by by_contra hf; simp [exec, hf] at hc⟩
    | completeRead u => exact .inr ⟨u, rfl⟩
    | _ => cases hc
  · obtain ⟨y, hl, -⟩ := h.staged.conforms ht ()
    generalize holding t = x at hl
    cases hl with
    | free _ _ _ hf => exact hf.elim
    | enter => exact .inl ⟨rfl, hm⟩
    | take _ hne => exact .inr ⟨m, rfl, hne, hm⟩
  · obtain ⟨y, hl, -⟩ := h.staged.conforms ht ()
    generalize holding t = x at hl
    cases hl with
    | free _ _ _ hf => exact hf.elim

/-- Whoever holds `_connMtx` finds the mutexes of the clients free. -/
theorem Held.free (h : Held p holding) {t : Token} {m : Mutex} (hx : holding t = .conn)
    (hm : m ≠ .conn) : p.shared.held m = false := by
  by_contra hne
  obtain ⟨u, hu⟩ := (h.held m).mp (by simpa using hne)
  have hconn : .conn ∈ (holding u).mutexes := by
    cases hy : holding u <;> simp [hy, Holding.mutexes] at hu ⊢
  obtain rfl := h.one u t .conn hconn (by simp [hx, Holding.mutexes])
  simp [hx, Holding.mutexes, hm] at hu

/-- A handler takes the mutex of a client only when it is free. -/
theorem Held.lock_free (h : Held p holding) {t : Token} {a : Activity} {m : Mutex}
    {k : Reply (.lock m) → Handler Unit} (ht : p.threads t = some (a, .issue (.lock m) k))
    (hm : m ≠ .conn) : p.shared.held m = false := by
  obtain ⟨y, hl, -⟩ := h.staged.conforms ht ()
  generalize hx : holding t = x at hl
  cases hl with
  | free _ _ _ hf => exact hf.elim
  | enter => exact absurd rfl hm
  | take _ hne => exact h.free hx hne

/-- When no thread can go on, nobody holds a mutex. -/
theorem Held.nothing_of_stopped (h : Held p holding) (hstop : (server gen).Stopped p) (t : Token) :
    holding t = .nothing := by
  by_contra hne
  obtain ⟨a, c, k, hthread, -⟩ := h.staged.next_command hne
  have hblock : exec c p.shared = none := by
    simpa [System.step, hthread, server] using hstop t
  rcases h.blocked hthread hblock with ⟨hx, -⟩ | ⟨m, hx, hm, hheld⟩
  · exact hne hx
  · rw [h.free hx hm] at hheld
    cases hheld

/-- When no thread can go on, no handler waits for a mutex. -/
theorem Held.stopped (h : Held p holding) (hstop : (server gen).Stopped p) (t : Token) :
    p.threads t = none ∨ p.undefinedAt t = true := by
  rcases System.stopped_cases (hstop t) with hn | hn | ⟨a, c, k, hthread, hblock⟩
  · exact .inl hn
  · exact .inr hn
  · rcases h.blocked hthread hblock with ⟨-, hheld⟩ | ⟨m, -, -, hheld⟩
    all_goals
      obtain ⟨u, hu⟩ := (h.held _).mp hheld
      simp [h.nothing_of_stopped hstop u, Holding.mutexes] at hu

theorem held_run {redis : Redis} {acts : List (Action Token Activity)}
    (hr : runs (server gen).step (Pool.idle (World.initial redis)) acts = some p) :
    ∃ holding, Held p holding :=
  invariant (I := fun q => ∃ holding, Held q holding) (fun _ _ _ ⟨_, hq⟩ hs => hq.step hs)
    ⟨_, held_idle redis⟩ hr

end Runs

instance : Finite Token := Finite.of_injective UInt64.toBitVec fun _ _ => UInt64.eq_of_toBitVec_eq

/-- From every state that any number of clients can bring about, when no command of the
store throws, every schedule that takes up nothing new ends; when no thread can go on any
more, each client has been answered all its requests in order, unless its handler has
dereferenced an empty optional. -/
theorem requests_answered (gen : Generated) (redis : Redis)
    (acts : List (Action Token Activity)) (p : ServerPool)
    (hr : runs (server gen).step (Pool.idle (World.initial redis)) acts = some p) :
    WellFounded (server gen).Advances ∧
    (∃ (schedule : List Token) (q : ServerPool),
      runs (server gen).step p (schedule.map .advance) = some q ∧ (server gen).Stopped q) ∧
    ∀ (schedule : List Token) (q : ServerPool),
      runs (server gen).step p (schedule.map .advance) = some q → (server gen).Stopped q →
      ∀ t, q.undefinedAt t = true ∨ q.threads t = none ∧
        List.Forall₂ (Answers gen t) (requests acts t) (responses q.shared t) := by
  refine ⟨(server gen).advances_wellFounded, (server gen).exists_stopped p,
    fun schedule q hq hstop t => ?_⟩
  have hrun : runs (server gen).step (Pool.idle (World.initial redis))
      (acts ++ schedule.map .advance) = some q := by
    rw [runs_append, hr]
    exact hq
  obtain ⟨holding, hheld⟩ := held_run hrun
  obtain ⟨debt, hmatched⟩ := matched_run hrun
  rcases hheld.stopped hstop t with hidle | hundef
  · have hans := hmatched.idle hidle
    rw [requests_advances] at hans
    exact .inr ⟨hidle, hans⟩
  · exact .inl hundef

/-- From the middle of a login, with another client waiting. -/
theorem requests_answered_login : ∃ (p : ServerPool) (schedule : List Token) (q : ServerPool),
    runs (server wireGenerated).step (Pool.idle (World.initial Store.empty)) loginWhileAsked =
      some p ∧
    runs (server wireGenerated).step p (schedule.map .advance) = some q ∧
    (q.undefinedAt 1 = true ∨ q.threads 1 = none ∧
      List.Forall₂ (Answers wireGenerated 1) [.register sampleRegister, .login sampleLogin 5]
        (responses q.shared 1)) := by
  have hrun : (runs (server wireGenerated).step (Pool.idle (World.initial Store.empty))
      loginWhileAsked).isSome = true := by decide +kernel
  obtain ⟨p, hp⟩ := Option.isSome_iff_exists.mp hrun
  obtain ⟨-, ⟨schedule, q, hq, hstop⟩, hall⟩ :=
    requests_answered wireGenerated Store.empty _ p hp
  exact ⟨p, schedule, q, hp, hq, hall schedule q hq hstop 1⟩

end IsolationServer.Completion
